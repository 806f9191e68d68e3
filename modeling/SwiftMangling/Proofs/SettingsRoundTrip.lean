import SwiftMangling.Proofs.SettingsHistory
import SwiftMangling.Proofs.WrittenIntegers

/-!
# Settings are restored from what is shown of them

The values that a listing shows are texts that can stand in the items of a list, and each is read as the
value that it shows. So a list with an item for every key restores the settings, in whatever order the
items stand and whatever the settings were before.
-/

namespace SwiftMangling

namespace Text

/-- The text has no blanks, and none of the marks that separate items and their parts. -/
def IsPlain (t : Text) : Prop :=
  ∀ c ∈ t, 0x21 ≤ c.val ∧ c.val ≤ 0x7F ∧ c ≠ .ofChar ',' ∧ c ≠ .ofChar '='

instance (t : Text) : Decidable t.IsPlain :=
  List.decidableBAll _ t

lemma IsPlain.strip {t : Text} (h : t.IsPlain) : Text.strip t = t :=
  trim_eq_self fun c hc => Numeral.isBlank_eq_false ⟨(h c hc).1, (h c hc).2.1⟩

lemma isPlain_decimal (i : Int) : IsPlain (Decimal.text i) := by
  intro c hc
  refine ⟨?_, ?_, Decimal.ne_of_mem_text hc (by decide) rfl, Decimal.ne_of_mem_text hc (by decide) rfl⟩
  all_goals
    obtain ⟨letter, hletter, rfl⟩ := List.mem_map.1 hc
    have hbounds := Decimal.toNat_of_mem_ofInt hletter
    have hval : (CodePoint.ofChar letter).val = letter.toNat := rfl
    omega

end Text

namespace Key

lemma isPlain_name (key : Key) : key.name.IsPlain := by
  cases key <;> decide

/-- A key that holds a value of its kind has a plain text for it, from which the value is read. -/
lemma exists_shown {key : Key} {value : Setting} (hvalue : key.Holds value)
    (hwritable : ∀ number, value = .number number → Decimal.isWritable number) :
    ∃ shown, value.shown? = some shown ∧ shown.IsPlain ∧ key.read shown = .ok value := by
  unfold Holds at hvalue
  unfold read
  by_cases hkey : key = loggingColor
  · rw [if_pos hkey] at hvalue
    obtain ⟨flag, rfl⟩ := hvalue
    cases flag with
    | false => exact ⟨"False", rfl, by decide, if_pos hkey⟩
    | true => exact ⟨"True", rfl, by decide, if_pos hkey⟩
  · rw [if_neg hkey] at hvalue
    obtain ⟨number, rfl⟩ := hvalue
    have hnumber := hwritable number rfl
    refine ⟨Decimal.text number, if_pos hnumber, Text.isPlain_decimal number, ?_⟩
    rw [if_neg hkey, readNumber, Numeral.int?_text hnumber]

end Key

namespace Settings

/-- The item that gives a key a value. -/
def item (key : Key) (value : Text) : Text :=
  key.name ++ "=" ++ value

lemma splitItem?_item {name : Text} (hname : name.IsPlain) (value : Text) :
    splitItem? (name ++ "=" ++ value) = some (name, value) := by
  induction name with
  | nil => rfl
  | cons c name ih =>
    obtain ⟨hc, hname⟩ := List.forall_mem_cons.1 hname
    simp only [List.cons_append, splitItem?, if_neg hc.2.2.2, ih hname, Option.map_some]

lemma of_mem_item {key : Key} {value : Text} (hvalue : value.IsPlain) {c : CodePoint}
    (hc : c ∈ item key value) : c.val ≠ 0 ∧ c ≠ comma := by
  have hmark : ∀ c ∈ (("=" : String) : Text), c.val ≠ 0 ∧ c ≠ comma :=
    List.forall_mem_singleton.2 ⟨by decide, by decide⟩
  have hplain : ∀ t : Text, t.IsPlain → ∀ c ∈ t, c.val ≠ 0 ∧ c ≠ comma := by
    intro t ht c hc
    obtain ⟨hlow, -, hcomma, -⟩ := ht c hc
    exact ⟨by omega, hcomma⟩
  obtain hc | hc := List.mem_append.1 hc
  · obtain hc | hc := List.mem_append.1 hc
    · exact hplain _ key.isPlain_name c hc
    · exact hmark c hc
  · exact hplain _ hvalue c hc

lemma ext_get {settings settings' : Settings} (h : ∀ key, settings.get key = settings'.get key) :
    settings = settings' := by
  cases settings
  cases settings'
  simp only [Settings.mk.injEq]
  exact ⟨h .maxDepth, h .maxNatural, h .shortLength, h .loggingLevel, h .loggingColor, h .profilerMode⟩

/-- The listing of one key is its line. -/
lemma listing_name (settings : Settings) (key : Key) :
    settings.listing (some key.name) = settings.line key := by
  have honly : (Key.all.filter fun other => (some key.name).all fun name => other.name = name) = [key] := by
    simp only [Option.all_some, Key.name_injective.eq_iff]
    cases key <;> rfl
  rw [listing, honly, List.map_singleton, Written.concat, List.foldr_cons, List.foldr_nil]
  unfold line
  dsimp only
  split
  · simp only [Written.append, Bool.false_eq_true, if_false, List.append_nil]
  · rfl

/-- Items whose texts are read as given values give these values to their keys, one after the other. -/
lemma IsTyped.loadItems_items {start target : Settings} (hstart : start.IsTyped)
    (htarget : target.IsTyped) {value : Key → Text}
    (hvalue : ∀ key, (value key).IsPlain ∧ key.read (value key) = .ok (target.get key))
    (keys : List Key) :
    start.loadItems (keys.map fun key => item key (value key)) =
      (keys.foldl (fun settings key => settings.set key (target.get key)) start, none) := by
  induction keys generalizing start with
  | nil => rfl
  | cons key keys ih =>
    obtain ⟨hplain, hread⟩ := hvalue key
    have hsplit : splitItem? (item key (value key)) = some (key.name, value key) :=
      splitItem?_item key.isPlain_name _
    have hupdate : start.update key.name (value key) = .ok (start.set key (target.get key)) := by
      simp only [Settings.update, convert, assign, Key.ofName?_name, hstart.read, hread, Except.bind]
    rw [List.map_cons, List.foldl_cons]
    simp only [Settings.loadItems, hsplit, key.isPlain_name.strip, hplain.strip, hupdate]
    exact ih (hstart.set (htarget key))

/-- A key that is given its value at least once has it in the end, as every item for it gives this
value. -/
lemma get_foldl_set (start target : Settings) (keys : List Key) (key : Key) :
    (keys.foldl (fun settings key => settings.set key (target.get key)) start).get key =
      if key ∈ keys then target.get key else start.get key := by
  induction keys generalizing start with
  | nil => rfl
  | cons other keys ih =>
    rw [List.foldl_cons, ih, get_set]
    by_cases hother : key = other
    · simp [hother]
    · simp [hother]

/-- Settings whose numbers can be written are restored from the values that a listing shows, given to
the keys in any order by a list of items. -/
theorem load_listed (start target : Settings) (hstart : start.IsTyped) (htarget : target.IsTyped)
    (hwritable : ∀ key number, target.get key = .number number → Decimal.isWritable number)
    (keys : List Key) (hkeys : keys.Perm Key.all) :
    ∃ value : Key → Text,
      (∀ key, target.listing (some key.name) =
        { out := key.name ++ " = " ++ value key ++ [Text.newline] }) ∧
      start.load (Text.join [comma] (keys.map fun key => key.name ++ "=" ++ value key)) =
        (target, none) := by
  choose value hshown hplain hread using fun key => Key.exists_shown (htarget key) (hwritable key)
  refine ⟨value, fun key => ?_, ?_⟩
  · rw [listing_name, line]
    simp only [hshown key]
  · have hitems : ∀ part ∈ keys.map fun key => item key (value key), ∀ c ∈ part,
        c.val ≠ 0 ∧ c ≠ comma := by
      intro part hpart c hc
      obtain ⟨key, -, rfl⟩ := List.mem_map.1 hpart
      exact of_mem_item (hplain key) hc
    have hload := start.load_join (fun part hpart c hc => (hitems part hpart c hc).1)
      fun part hpart hc => (hitems part hpart comma hc).2 rfl
    refine hload.trans ?_
    rw [hstart.loadItems_items htarget fun key => ⟨hplain key, hread key⟩]
    refine Prod.ext (ext_get fun key => ?_) rfl
    rw [get_foldl_set, if_pos (hkeys.mem_iff.2 key.mem_all)]

/-- Settings of every kind of value: negative and large numbers, and no colour. -/
def plainSettings : Settings where
  maxDepth := .number (-7)
  maxNatural := .number 18446744073709551616
  shortLength := .number 0
  loggingLevel := .number (-10)
  loggingColor := .flag false
  profilerMode := .number 1

/-- The keys may stand in the reverse order. -/
theorem load_listed_reversed :
    ({} : Settings).IsTyped ∧ plainSettings.IsTyped ∧
    (∀ key number, plainSettings.get key = .number number → Decimal.isWritable number) ∧
    Key.all.reverse.Perm Key.all ∧
    ∃ value : Key → Text,
      (∀ key, plainSettings.listing (some key.name) =
        { out := key.name ++ " = " ++ value key ++ [Text.newline] }) ∧
      ({} : Settings).load
          (Text.join [comma] (Key.all.reverse.map fun key => key.name ++ "=" ++ value key)) =
        (plainSettings, none) := by
  have htyped : plainSettings.IsTyped := by
    intro key
    cases key <;> simp [Key.Holds, get, plainSettings]
  have hwritable : ∀ key number, plainSettings.get key = .number number →
      Decimal.isWritable number := by
    intro key number hnumber
    cases key <;> cases hnumber <;> decide +kernel
  exact ⟨isTyped_default, htyped, hwritable, List.reverse_perm _,
    load_listed {} plainSettings isTyped_default htyped hwritable _ (List.reverse_perm _)⟩

/-- A number may be given in a form that is not the listed one. -/
example : (({} : Settings).load "cfgLoggingColor=off, cfgDemangleMaxDepth = -0x7").1 =
    { maxDepth := .number (-7), loggingColor := .flag false } := by
  decide +kernel

end Settings

end SwiftMangling
