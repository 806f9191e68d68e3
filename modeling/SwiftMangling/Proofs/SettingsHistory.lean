import SwiftMangling.Proofs.Words
import SwiftMangling.Settings.Update

/-!
# Settings over a whole run

Settings are changed by texts, one at a time or by a list of items. A text is read as the kind of value
that the key holds, and what is read is of that kind again, so every key keeps its kind: how a text is
read depends on the key alone. A list is applied item by item up to the first one that fails.
-/

namespace SwiftMangling

namespace Key

/-- The kind of value that a key is meant for: a flag for the colours, and a number for the others. -/
def Holds (key : Key) (value : Setting) : Prop :=
  if key = loggingColor then ∃ flag, value = .flag flag else ∃ number, value = .number number

/-- Reads a text as the kind of value that a key is meant for. -/
def read (key : Key) (source : Text) : Except SettingsError Setting :=
  if key = loggingColor then readTruth source else readNumber source

lemma holds_of_read {key : Key} {source : Text} {value : Setting} (h : key.read source = .ok value) :
    key.Holds value := by
  unfold read at h
  unfold Holds
  by_cases hkey : key = loggingColor
  · rw [if_pos hkey] at h ⊢
    unfold readTruth at h
    split at h
    · cases h
      exact ⟨_, rfl⟩
    · cases h
  · rw [if_neg hkey] at h ⊢
    unfold readNumber at h
    split at h
    · cases h
      exact ⟨_, rfl⟩
    · cases h

lemma mem_all (key : Key) : key ∈ all := by
  cases key <;> simp [all]

lemma ofName?_eq_some_iff {name : Text} {key : Key} : ofName? name = some key ↔ key.name = name := by
  constructor
  · intro h
    simpa using List.find?_some h
  · rintro rfl
    exact ofName?_name key

lemma name_injective : Function.Injective name := by
  intro key key' h
  have hsame := ofName?_name key
  rw [h, ofName?_name key'] at hsame
  exact (Option.some.inj hsame).symm

lemma ofName?_eq_none_iff {name : Text} : ofName? name = none ↔ ∀ key : Key, key.name ≠ name := by
  simp [ofName?, mem_all]

end Key

namespace Settings

/-- Every key holds a value of its kind. -/
def IsTyped (settings : Settings) : Prop :=
  ∀ key : Key, key.Holds (settings.get key)

lemma isTyped_default : ({} : Settings).IsTyped := by
  intro key
  cases key <;> simp [Key.Holds, get]

lemma IsTyped.set {settings : Settings} (h : settings.IsTyped) {key : Key} {value : Setting}
    (hvalue : key.Holds value) : (settings.set key value).IsTyped := by
  intro other
  rw [get_set]
  by_cases hother : other = key
  · rwa [if_pos hother, hother]
  · rw [if_neg hother]
    exact h other

/-- How a text is read depends on the key alone. -/
lemma IsTyped.read {settings : Settings} (h : settings.IsTyped) (key : Key) (source : Text) :
    settings.read key source = key.read source := by
  have hkey := h key
  unfold Key.Holds at hkey
  unfold Settings.read Key.read
  by_cases hcolor : key = .loggingColor
  · rw [if_pos hcolor] at hkey ⊢
    obtain ⟨flag, hflag⟩ := hkey
    rw [hflag]
  · rw [if_neg hcolor] at hkey ⊢
    obtain ⟨number, hnumber⟩ := hkey
    rw [hnumber]

/-- A text changes the key that has the name, if it can be read for it; otherwise it is an error. -/
lemma IsTyped.update {settings : Settings} (h : settings.IsTyped) (name source : Text) :
    (∃ key value, Key.name key = name ∧ key.read source = .ok value ∧
      settings.update name source = .ok (settings.set key value)) ∨
    (∃ e, settings.update name source = .error e ∧
      ((∀ key : Key, key.name ≠ name) ∨ ∃ key : Key, key.name = name ∧ key.read source = .error e)) := by
  unfold Settings.update Settings.convert Settings.assign
  cases hname : Key.ofName? name with
  | some key =>
    have hkey := Key.ofName?_eq_some_iff.1 hname
    simp only [h.read]
    cases hread : key.read source with
    | ok value => exact .inl ⟨key, value, hkey, hread, rfl⟩
    | error e => exact .inr ⟨e, rfl, .inr ⟨key, hkey, hread⟩⟩
  | none =>
    have hnone := Key.ofName?_eq_none_iff.1 hname
    simp only
    split
    · cases readNumber source with
      | ok value => exact .inr ⟨_, rfl, .inl hnone⟩
      | error e => exact .inr ⟨e, rfl, .inl hnone⟩
    · exact .inr ⟨_, rfl, .inl hnone⟩

/-- The comma between items. -/
def comma : CodePoint :=
  .ofChar ','

/-- The text of an item for a key, if the item names the key. -/
def sourceFor? (key : Key) (item : Text) : Option Text :=
  match splitItem? item with
  | some (name, source) => if Text.strip name = key.name then some (Text.strip source) else none
  | none => none

/-- The text of the last item for a key. -/
def lastSource? (key : Key) (items : List Text) : Option Text :=
  (items.filterMap (sourceFor? key)).getLast?

def hasEquals (item : Text) : Bool :=
  item.any fun c => c = .ofChar '='

lemma splitItem?_eq_none_iff (item : Text) : splitItem? item = none ↔ hasEquals item = false := by
  induction item with
  | nil => simp [splitItem?, hasEquals]
  | cons c cs ih =>
    by_cases hc : c = .ofChar '='
    · simp [splitItem?, hasEquals, hc]
    · simp only [splitItem?, if_neg hc, Option.map_eq_none_iff, ih]
      simp [hasEquals, hc]

/-- What an item does, whatever items follow: it is passed over, or its text changes the settings, or it
fails and ends the list. -/
lemma loadItems_cons (settings : Settings) (item : Text) :
    (splitItem? item = none ∧
      ∀ items, settings.loadItems (item :: items) = settings.loadItems items) ∨
    (∃ name source changed, splitItem? item = some (name, source) ∧
      settings.update (Text.strip name) (Text.strip source) = .ok changed ∧
      ∀ items, settings.loadItems (item :: items) = changed.loadItems items) ∨
    (∃ name source e, splitItem? item = some (name, source) ∧
      settings.update (Text.strip name) (Text.strip source) = .error e ∧
      ∀ items, settings.loadItems (item :: items) = (settings, some e)) := by
  cases hsplit : splitItem? item with
  | none => exact .inl ⟨rfl, fun items => by simp only [loadItems, hsplit]⟩
  | some parts =>
    obtain ⟨name, source⟩ := parts
    cases hupdate : settings.update (Text.strip name) (Text.strip source) with
    | ok changed =>
      refine .inr (.inl ⟨name, source, changed, rfl, hupdate, fun items => ?_⟩)
      simp only [loadItems, hsplit, hupdate]
    | error e =>
      refine .inr (.inr ⟨name, source, e, rfl, hupdate, fun items => ?_⟩)
      simp only [loadItems, hsplit, hupdate]

lemma hasEquals_of_splitItem? {item : Text} {parts : Text × Text} (h : splitItem? item = some parts) :
    hasEquals item = true := by
  by_contra hnone
  rw [(splitItem?_eq_none_iff item).2 (by simpa using hnone)] at h
  cases h

/-- Items without an equals sign have no effect. -/
lemma loadItems_filter (settings : Settings) (items : List Text) :
    settings.loadItems (items.filter hasEquals) = settings.loadItems items := by
  induction items generalizing settings with
  | nil => rfl
  | cons item items ih =>
    rcases settings.loadItems_cons item with
      ⟨hnone, hload⟩ | ⟨name, source, changed, hsplit, -, hload⟩ | ⟨name, source, e, hsplit, -, hload⟩
    · have hequals := (splitItem?_eq_none_iff item).1 hnone
      rw [List.filter_cons_of_neg (by simp [hequals]), hload, ih]
    · rw [List.filter_cons_of_pos (hasEquals_of_splitItem? hsplit), hload, hload, ih]
    · rw [List.filter_cons_of_pos (hasEquals_of_splitItem? hsplit), hload, hload]

/-- Where a list fails, one of its items does: the items before it are applied, and it has no effect. -/
lemma loadItems_failed {settings changed : Settings} {items : List Text} {e : SettingsError}
    (h : settings.loadItems items = (changed, some e)) :
    ∃ before item after name source, items = before ++ item :: after ∧
      settings.loadItems before = (changed, none) ∧ splitItem? item = some (name, source) ∧
      changed.update (Text.strip name) (Text.strip source) = .error e := by
  induction items generalizing settings with
  | nil => cases h
  | cons item items ih =>
    rcases settings.loadItems_cons item with
      ⟨-, hload⟩ | ⟨-, -, next, -, -, hload⟩ | ⟨name, source, e', hsplit, hupdate, hload⟩
    · rw [hload] at h
      obtain ⟨before, failing, after, name, source, rfl, hbefore, hfailing⟩ := ih h
      exact ⟨item :: before, failing, after, name, source, rfl, (hload before).trans hbefore, hfailing⟩
    · rw [hload] at h
      obtain ⟨before, failing, after, name, source, rfl, hbefore, hfailing⟩ := ih h
      exact ⟨item :: before, failing, after, name, source, rfl, (hload before).trans hbefore, hfailing⟩
    · rw [hload] at h
      cases h
      exact ⟨[], item, items, name, source, rfl, rfl, hsplit, hupdate⟩

/-- What an update that succeeds does to settings whose keys hold values of their kinds. -/
lemma IsTyped.of_update_ok {settings changed : Settings} (h : settings.IsTyped) {name source : Text}
    (hupdate : settings.update name source = .ok changed) :
    ∃ key value, Key.name key = name ∧ key.read source = .ok value ∧ changed = settings.set key value := by
  rcases h.update name source with ⟨key, value, hname, hread, hset⟩ | ⟨e, herror, -⟩
  · rw [hset] at hupdate
    cases hupdate
    exact ⟨key, value, hname, hread, rfl⟩
  · rw [herror] at hupdate
    cases hupdate

lemma IsTyped.of_update {settings changed : Settings} (h : settings.IsTyped) {name source : Text}
    (hupdate : settings.update name source = .ok changed) : changed.IsTyped := by
  obtain ⟨key, value, -, hread, rfl⟩ := h.of_update_ok hupdate
  exact h.set (Key.holds_of_read hread)

lemma IsTyped.loadItems {settings : Settings} (h : settings.IsTyped) (items : List Text) :
    (settings.loadItems items).1.IsTyped := by
  induction items generalizing settings with
  | nil => exact h
  | cons item items ih =>
    rcases settings.loadItems_cons item with
      ⟨-, hload⟩ | ⟨_, _, changed, -, hupdate, hload⟩ | ⟨-, -, e, -, -, hload⟩
    · rw [hload]
      exact ih h
    · rw [hload]
      exact ih (h.of_update hupdate)
    · rw [hload]
      exact h

lemma lastSource?_cons (key : Key) (item : Text) (items : List Text) :
    lastSource? key (item :: items) = (lastSource? key items).or (sourceFor? key item) := by
  unfold lastSource?
  cases hitem : sourceFor? key item with
  | none => rw [List.filterMap_cons_none hitem, Option.or_none]
  | some source =>
    rw [List.filterMap_cons_some hitem, List.getLast?_cons]
    cases (items.filterMap (sourceFor? key)).getLast? <;> rfl

/-- Where no item fails, a key has the value of its last item, and one without an item keeps the value
that it had. -/
lemma IsTyped.get_loadItems {settings changed : Settings} (h : settings.IsTyped) {items : List Text}
    (hload : settings.loadItems items = (changed, none)) (key : Key) :
    (∀ source, lastSource? key items = some source → key.read source = .ok (changed.get key)) ∧
      (lastSource? key items = none → changed.get key = settings.get key) := by
  induction items generalizing settings with
  | nil =>
    cases hload
    exact ⟨nofun, fun _ => rfl⟩
  | cons item items ih =>
    rw [lastSource?_cons]
    rcases settings.loadItems_cons item with
      ⟨hsplit, hitems⟩ | ⟨name, source, next, hsplit, hupdate, hitems⟩ | ⟨-, -, e, -, -, hitems⟩
    · have hitem : sourceFor? key item = none := by simp [sourceFor?, hsplit]
      rw [hitems] at hload
      rw [hitem, Option.or_none]
      exact ih h hload
    · obtain ⟨changedKey, value, hname, hread, rfl⟩ := h.of_update_ok hupdate
      rw [hitems] at hload
      obtain ⟨hlater, hkept⟩ := ih (h.set (Key.holds_of_read hread)) hload
      have hitem : sourceFor? key item =
          if key = changedKey then some (Text.strip source) else none := by
        simp only [sourceFor?, hsplit, ← hname, Key.name_injective.eq_iff, eq_comm]
      -- A later item for the key decides its value; without one, this item does if it names the key.
      rw [get_set] at hkept
      cases hrest : lastSource? key items with
      | some later => exact ⟨fun source' hsource' => hlater source' (hrest.trans hsource'), nofun⟩
      | none =>
        rw [hitem, Option.none_or, hkept hrest]
        by_cases hkey : key = changedKey
        · rw [if_pos hkey, if_pos hkey]
          refine ⟨fun source' hsource' => ?_, nofun⟩
          cases hsource'
          rwa [hkey]
        · rw [if_neg hkey, if_neg hkey]
          exact ⟨nofun, fun _ => rfl⟩
    · rw [hitems] at hload
      cases hload

/-- The items of a list: its parts between commas. -/
def itemsOf (source : Text) : List Text :=
  Text.splitOn comma source

lemma load_of_noNull (settings : Settings) {source : Text} (hnull : ∀ c ∈ source, c.val ≠ 0) :
    settings.load source = settings.loadItems (itemsOf source) := by
  have hany : (source.any fun c => c.val = 0) = false := by simpa using hnull
  rw [load, hany]
  rfl

/-- Loading items with commas between them is applying the items. -/
lemma load_join (settings : Settings) {items : List Text} (hnull : ∀ item ∈ items, ∀ c ∈ item, c.val ≠ 0)
    (hcomma : ∀ item ∈ items, comma ∉ item) :
    settings.load (Text.join [comma] items) = settings.loadItems items := by
  have hcommaNull : ∀ c ∈ [comma], c.val ≠ 0 := by simp [comma, CodePoint.ofChar]
  rw [load_of_noNull settings (Text.forall_mem_join hcommaNull hnull), itemsOf]
  by_cases hnone : items = []
  · subst hnone
    rfl
  · rw [Text.splitOn_join hnone hcomma]

/-- What loading a text does to settings. -/
structure LoadsInOrder (settings : Settings) (source : Text) : Prop where
  /-- The items without an equals sign may be left out. -/
  skipped : (∀ c ∈ source, c.val ≠ 0) →
    settings.load (Text.join [comma] ((itemsOf source).filter hasEquals)) = settings.load source
  /-- Where nothing fails, a key has the value of its last item. -/
  last : (settings.load source).2 = none → ∀ key,
    (∀ text, lastSource? key (itemsOf source) = some text →
      key.read text = .ok ((settings.load source).1.get key)) ∧
    (lastSource? key (itemsOf source) = none →
      (settings.load source).1.get key = settings.get key)
  /-- What fails is an item, which has no effect: the settings are those that the items before it
  give. -/
  failed : ∀ e, (settings.load source).2 = some e → (∀ c ∈ source, c.val ≠ 0) →
    ∃ before item after name text, itemsOf source = before ++ item :: after ∧
      settings.load (Text.join [comma] before) = ((settings.load source).1, none) ∧
      splitItem? item = some (name, text) ∧
      (settings.load source).1.update (Text.strip name) (Text.strip text) = .error e
  /-- A text with a null character has no effect. -/
  null : ¬(∀ c ∈ source, c.val ≠ 0) → settings.load source = (settings, some .nullCharacter)

lemma load_of_null (settings : Settings) {source : Text} (hnull : ¬∀ c ∈ source, c.val ≠ 0) :
    settings.load source = (settings, some .nullCharacter) := by
  have hany : (source.any fun c => c.val = 0) = true := by
    rw [List.any_eq_true]
    push Not at hnull
    simpa using hnull
  rw [load, if_pos hany]

lemma IsTyped.loadsInOrder {settings : Settings} (h : settings.IsTyped) (source : Text) :
    settings.LoadsInOrder source := by
  by_cases hnull : ∀ c ∈ source, c.val ≠ 0
  · have hitemNull : ∀ item ∈ itemsOf source, ∀ c ∈ item, c.val ≠ 0 := fun item hitem c hc =>
      hnull c (Text.mem_of_mem_splitOn hitem hc).1
    have hitemComma : ∀ item ∈ itemsOf source, comma ∉ item := fun item hitem hc =>
      (Text.mem_of_mem_splitOn hitem hc).2 rfl
    have hload := load_of_noNull settings hnull
    refine ⟨fun _ => ?_, fun hnone key => ?_, fun e he _ => ?_, fun h => absurd hnull h⟩
    · rw [load_join, loadItems_filter, hload]
      · exact fun item hitem => hitemNull item (List.mem_of_mem_filter hitem)
      · exact fun item hitem => hitemComma item (List.mem_of_mem_filter hitem)
    · rw [hload] at hnone ⊢
      exact h.get_loadItems (Prod.ext rfl hnone) key
    · rw [hload] at he ⊢
      obtain ⟨before, item, after, name, text, hitems, hbefore, hsplit, hupdate⟩ :=
        loadItems_failed (Prod.ext rfl he)
      refine ⟨before, item, after, name, text, hitems, ?_, hsplit, hupdate⟩
      have hmem : ∀ earlier ∈ before, earlier ∈ itemsOf source := by
        intro earlier hearlier
        rw [hitems]
        exact List.mem_append_left _ hearlier
      rw [load_join settings (fun earlier hearlier => hitemNull earlier (hmem earlier hearlier))
        fun earlier hearlier => hitemComma earlier (hmem earlier hearlier)]
      exact hbefore
  · have hload := load_of_null settings hnull
    refine ⟨fun h => absurd h hnull, fun hnone => ?_, fun _ _ h => absurd h hnull, fun _ => hload⟩
    rw [hload] at hnone
    cases hnone

/-- A change of settings by a text: of one key, or by a list of items. -/
inductive Change where
  | set (name source : Text)
  | load (source : Text)

/-- The settings after a change. One that fails leaves what it did not come to as it was. -/
def Change.apply (settings : Settings) : Change → Settings
  | set name source =>
    match settings.update name source with
    | .ok changed => changed
    | .error _ => settings
  | load source => (settings.load source).1

/-- The settings after changes to the defaults. -/
def history (changes : List Change) : Settings :=
  changes.foldl Change.apply {}

/-- The names of the keys in order, with their values. -/
def entries (settings : Settings) : List (Text × Setting) :=
  Key.all.map fun key => (key.name, settings.get key)

lemma map_fst_entries (settings : Settings) :
    settings.entries.map Prod.fst =
      ["cfgDemangleMaxDepth", "cfgDemangleMaxNatural", "cfgStringShortLength", "cfgLoggingLevel",
        "cfgLoggingColor", "cfgProfilerMode"] := by
  rw [entries, List.map_map]
  rfl

/-- What setting a key does to settings. -/
structure SetsOne (settings : Settings) (name source : Text) : Prop where
  /-- What succeeds changes the key that has the name. -/
  done : ∀ changed, settings.update name source = .ok changed →
    ∃ key value, Key.name key = name ∧ key.read source = .ok value ∧
      (Change.set name source).apply settings = settings.set key value
  /-- What fails has no effect: no key has the name, or the text is no value of its kind. -/
  failed : ∀ e, settings.update name source = .error e →
    ((∀ key : Key, key.name ≠ name) ∨ ∃ key : Key, key.name = name ∧ key.read source = .error e) ∧
      (Change.set name source).apply settings = settings

lemma IsTyped.setsOne {settings : Settings} (h : settings.IsTyped) (name source : Text) :
    settings.SetsOne name source := by
  rcases h.update name source with ⟨key, value, hname, hread, hupdate⟩ | ⟨e, hupdate, hwhy⟩
  · refine ⟨fun changed _ => ⟨key, value, hname, hread, ?_⟩, fun e he => ?_⟩
    · simp only [Change.apply, hupdate]
    · rw [hupdate] at he
      cases he
  · refine ⟨fun changed hdone => ?_, fun e' he' => ⟨?_, ?_⟩⟩
    · rw [hupdate] at hdone
      cases hdone
    · rw [hupdate] at he'
      cases he'
      exact hwhy
    · simp only [Change.apply, hupdate]

lemma IsTyped.apply {settings : Settings} (h : settings.IsTyped) (change : Change) :
    (change.apply settings).IsTyped := by
  cases change with
  | set name source =>
    cases hupdate : settings.update name source with
    | ok changed =>
      simp only [Change.apply, hupdate]
      exact h.of_update hupdate
    | error e =>
      simp only [Change.apply, hupdate]
      exact h
  | load source =>
    by_cases hnull : ∀ c ∈ source, c.val ≠ 0
    · simp only [Change.apply, load_of_noNull settings hnull]
      exact h.loadItems _
    · simp only [Change.apply, load_of_null settings hnull]
      exact h

/-- Every key keeps its kind over a run. -/
lemma isTyped_history (changes : List Change) : (history changes).IsTyped :=
  List.foldlRecOn changes Change.apply isTyped_default fun _ h change _ => h.apply change

/-- Whatever texts the settings are changed by, the keys stay the same six in their order and keep
their kinds; a change of one key has its effect or none; and a list of items has the effect of the
items before the first one that fails. -/
theorem history_spec (changes : List Change) :
    (history changes).entries.map Prod.fst =
      ["cfgDemangleMaxDepth", "cfgDemangleMaxNatural", "cfgStringShortLength", "cfgLoggingLevel",
        "cfgLoggingColor", "cfgProfilerMode"] ∧
    (history changes).IsTyped ∧
    (∀ name source, (history changes).SetsOne name source) ∧
    ∀ source, (history changes).LoadsInOrder source :=
  have htyped := isTyped_history changes
  ⟨map_fst_entries _, htyped, htyped.setsOne, htyped.loadsInOrder⟩

/-- The last item before the one that fails is kept, and what comes after that is not read. -/
example :
    (Settings.load {} "cfgDemangleMaxDepth=5,x,cfgDemangleMaxDepth=0x7,cfgNone=1,cfgProfilerMode=1").1 =
      { maxDepth := .number 7 } := by
  decide +kernel

end Settings

end SwiftMangling
