import SwiftMangling.Proofs.Assembly
import SwiftMangling.Proofs.Numerals
import SwiftMangling.Proofs.Steady

/-!
# The parsers that look at the state are steady

Taking a mark needs no more than the mark, and finding that it is not there needs as many bytes. A
look at the next character and the end of a number need one byte more. From these the forms of the
grammar are put together: an alternative behind a mark, a letter that is looked up, a list.
-/

namespace SwiftMangling.Grammar

variable {α β γ : Type}

section Marks

/-- A mark comes next if the bytes begin with its characters. -/
lemma stripMark?_ne_none {mark : List Nat} {front bytes : Bytes}
    (hfront : front.map UInt8.toNat = mark) (h : front <+: bytes) :
    Bytes.stripMark? mark bytes ≠ none := by
  obtain ⟨rest, rfl⟩ := h
  rw [← hfront, Bytes.stripMark?_map_append]
  exact Option.some_ne_none rest

lemma stripMark?_eq_none_of_part {mark : List Nat} {rest other : Bytes}
    (h : Bytes.stripMark? mark rest = none) (hpart : other <+: rest) :
    Bytes.stripMark? mark other = none := by
  cases hstrip : Bytes.stripMark? mark other with
  | none => rfl
  | some left =>
    obtain ⟨front, hfront, rfl⟩ := Bytes.stripMark?_append hstrip
    exact absurd h (stripMark?_ne_none hfront ((List.prefix_append ..).trans hpart))

/-- A mark that does not come next does not do so in bytes that replace what is left either. -/
lemma stripMark?_eq_none {condition : Prop} {mark : List Nat} {rest other : Bytes}
    (h : Bytes.stripMark? mark rest = none) (hother : Replaces condition mark.length rest other) :
    Bytes.stripMark? mark other = none := by
  obtain ⟨⟨common, hcommon, hrest, hother⟩, -⟩ | ⟨hpart, -⟩ := hother
  · cases hstrip : Bytes.stripMark? mark other with
    | none => rfl
    | some left =>
      obtain ⟨front, hfront, rfl⟩ := Bytes.stripMark?_append hstrip
      have hlength : front.length = mark.length := by rw [← hfront, List.length_map]
      have hfirst : front <+: common :=
        List.prefix_of_prefix_length_le (List.prefix_append ..) hother (by omega)
      exact absurd h (stripMark?_ne_none hfront (hfirst.trans hrest))
  · exact stripMark?_eq_none_of_part h hpart

lemma accept_ne_refused (mark : Text) (limit : Int) (s s' : State) :
    accept mark limit s ≠ .refused s' := by
  intro h
  obtain ⟨left, hmark⟩ | hmark := accept_cases mark limit s
  · rw [hmark] at h
    cases h
  · rw [hmark] at h
    cases h

lemma eq_of_accept_false {mark : Text} {limit : Int} {s s' : State}
    (h : accept mark limit s = .found false s') : s' = s := by
  obtain ⟨left, hmark⟩ | hmark := accept_cases mark limit s
  · rw [hmark] at h
    cases h
  · rw [hmark] at h
    cases h
    rfl

/-- A mark that is not there is not there where less is left. -/
lemma accept_eq_false_of_part {mark : Text} {limit : Int} {rest other : Bytes} {s' : State}
    {table : References Node} (h : accept mark limit ⟨rest, table⟩ = .found false s')
    (hpart : other <+: rest) : accept mark limit ⟨other, table⟩ = .found false ⟨other, table⟩ := by
  unfold accept at h ⊢
  cases hstrip : Bytes.stripMark? (mark.map Fin.val) rest with
  | some left =>
    rw [hstrip] at h
    cases h
  | none => simp only [stripMark?_eq_none_of_part hstrip hpart]

/-- Taking a mark needs the mark; that it is not there is seen from as many bytes. -/
lemma steady_accept (mark : Text) :
    Steady (fun _ => True) (fun found => if found then mark.length else 0)
      (fun found => if found then 0 else mark.length) (accept mark) where
  found {limit bytes rest table table' value} hfound := by
    unfold accept at hfound
    cases hstrip : Bytes.stripMark? (mark.map Fin.val) bytes with
    | none =>
      rw [hstrip] at hfound
      cases hfound
      refine ⟨[], rfl, Nat.zero_le _, fun other hother => ?_⟩
      have hother' : Replaces True (mark.map Fin.val).length bytes other := by
        rw [List.length_map]
        exact hother
      have hnone := stripMark?_eq_none hstrip hother'
      simp only [accept, List.nil_append, hnone]
    | some left =>
      rw [hstrip] at hfound
      cases hfound
      obtain ⟨front, hfront, rfl⟩ := Bytes.stripMark?_append hstrip
      refine ⟨front, rfl, ?_, fun other _ => accept_append hfront other table limit⟩
      have hlength := congrArg List.length hfront
      rw [List.length_map, List.length_map] at hlength
      exact Nat.le_of_eq hlength.symm
  refused hrefused := absurd hrefused (accept_ne_refused mark _ _ _)

end Marks

section Leaves

def Outcome.withUnread (bytes : Bytes) : Outcome α → Outcome α
  | .found value s => .found value ⟨bytes, s.recorded⟩
  | .refused s => .refused ⟨bytes, s.recorded⟩
  | .stopped why => .stopped why

/-- A parser that neither looks at the bytes nor takes any. -/
def IgnoresBytes (p : Parser α) : Prop :=
  ∀ limit bytes table, p limit ⟨bytes, table⟩ = (p limit ⟨[], table⟩).withUnread bytes

namespace IgnoresBytes

variable {p : Parser α} {limit : Int} {bytes rest : Bytes} {table table' : References Node}

lemma found (hp : IgnoresBytes p) {value : α}
    (h : p limit ⟨bytes, table⟩ = .found value ⟨rest, table'⟩) :
    rest = bytes ∧ ∀ other, p limit ⟨other, table⟩ = .found value ⟨other, table'⟩ := by
  rw [hp] at h
  cases hplain : p limit ⟨[], table⟩ with
  | found plain s =>
    rw [hplain] at h
    cases h
    exact ⟨rfl, fun other => by rw [hp, hplain]; rfl⟩
  | refused s =>
    rw [hplain] at h
    cases h
  | stopped why =>
    rw [hplain] at h
    cases h

lemma refused (hp : IgnoresBytes p) (h : p limit ⟨bytes, table⟩ = .refused ⟨rest, table'⟩) :
    rest = bytes ∧ ∀ other, p limit ⟨other, table⟩ = .refused ⟨other, table'⟩ := by
  rw [hp] at h
  cases hplain : p limit ⟨[], table⟩ with
  | found plain s =>
    rw [hplain] at h
    cases h
  | refused s =>
    rw [hplain] at h
    cases h
    exact ⟨rfl, fun other => by rw [hp, hplain]; rfl⟩
  | stopped why =>
    rw [hplain] at h
    cases h

lemma recalled (position : Nat) : IgnoresBytes (Grammar.recalled position) := by
  intro limit bytes table
  unfold Grammar.recalled
  dsimp only
  split <;> rfl

end IgnoresBytes

lemma IgnoresBytes.steady {condition : α → Prop} {ahead : α → Nat} {p : Parser α}
    (hp : IgnoresBytes p) : Steady condition (fun _ => 0) ahead p where
  found hfound := by
    obtain ⟨rfl, hsame⟩ := hp.found hfound
    exact ⟨[], rfl, Nat.zero_le _, fun other _ => hsame other⟩
  refused hrefused := by
    obtain ⟨rfl, hsame⟩ := hp.refused hrefused
    exact ⟨[], rfl, fun other _ _ => hsame other⟩

lemma steady_pure {condition : α → Prop} (ahead : α → Nat) (value : α) :
    Steady condition (fun _ => 0) ahead (pure value) :=
  IgnoresBytes.steady fun _ _ _ => rfl

/-- A refusal may be said to take and to look ahead as one likes. -/
lemma steady_refuse {condition : α → Prop} {least ahead : α → Nat} :
    Steady condition least ahead (refuse : Parser α) where
  found hfound := by cases hfound
  refused hrefused := by
    cases hrefused
    exact ⟨[], rfl, fun other _ _ => rfl⟩

lemma steady_stop {condition : α → Prop} {least ahead : α → Nat} (why : Stop) :
    Steady condition least ahead (stop why : Parser α) where
  found hfound := by cases hfound
  refused hrefused := by cases hrefused

namespace Settles

lemma record (node : Node) : Settles 0 0 (record node) :=
  IgnoresBytes.steady fun _ _ _ => rfl

lemma forget : Settles 0 0 forget :=
  IgnoresBytes.steady fun _ _ _ => rfl

lemma recalled (position : Nat) : Settles 0 0 (recalled position) :=
  (IgnoresBytes.recalled position).steady

lemma atEnd : Settles 0 1 atEnd where
  found hfound := by
    cases hfound
    refine ⟨[], rfl, Nat.zero_le _, fun other hother => ?_⟩
    obtain ⟨b, rest', other', rfl, rfl⟩ := hother.head (Nat.le_refl 1)
    rfl
  refused hrefused := by cases hrefused

lemma peek : Settles 0 1 peek where
  found {limit bytes rest table table' value} hfound := by
    cases bytes with
    | nil =>
      cases hfound
      refine ⟨[], rfl, Nat.zero_le _, fun other hother => ?_⟩
      obtain ⟨b, rest', other', hrest, -⟩ := hother.head (Nat.le_refl 1)
      cases hrest
    | cons b bytes =>
      cases hfound
      refine ⟨[], rfl, Nat.zero_le _, fun other hother => ?_⟩
      obtain ⟨b', rest', other', hrest, rfl⟩ := hother.head (Nat.le_refl 1)
      cases hrest
      rfl
  refused {limit bytes rest table table'} hrefused := by
    cases bytes with
    | nil => cases hrefused
    | cons b bytes => cases hrefused

lemma advance (amount : Nat) : Settles amount 0 (advance amount) where
  found {limit bytes rest table table' value} hfound := by
    unfold Grammar.advance at hfound
    split at hfound
    · next hlength =>
      cases hfound
      have htake : (bytes.take amount).length = amount := List.length_take_of_le hlength
      refine ⟨bytes.take amount, (List.take_append_drop ..).symm, htake.ge, fun other _ => ?_⟩
      have hle : amount ≤ (bytes.take amount ++ other).length := by
        rw [List.length_append, htake]
        exact Nat.le_add_right _ _
      simp only [Grammar.advance, if_pos hle, List.take_left' htake, List.drop_left' htake]
    · cases hfound
  refused {limit bytes rest table table'} hrefused := by
    unfold Grammar.advance at hrefused
    split at hrefused
    · cases hrefused
    · next hlength =>
      cases hrefused
      refine ⟨[], rfl, fun other hpart _ => ?_⟩
      have hle : ¬amount ≤ other.length := fun h => hlength (h.trans hpart.length_le)
      simp only [Grammar.advance, List.nil_append, if_neg hle]

/-- A number ends before a byte that is no digit. -/
lemma natural : Settles 1 1 natural where
  found {limit bytes rest table table' value} hfound := by
    have happend := Bytes.spanDigits_append bytes
    unfold Grammar.natural at hfound
    cases hspan : Bytes.spanDigits bytes with
    | mk digits left =>
      rw [hspan] at happend hfound
      have hdigits : ∀ b ∈ digits, Bytes.isDigit b := fun b hb =>
        Bytes.isDigit_of_mem_spanDigits (by rw [hspan]; exact hb)
      cases digits with
      | nil => cases hfound
      | cons digit digits =>
        cases hbounded : Decimal.bounded limit (digit :: digits) with
        | within n =>
          simp only [hbounded] at hfound
          cases hfound
          refine ⟨digit :: digits, happend.symm, Nat.succ_le_succ (Nat.zero_le _),
            fun other hother => ?_⟩
          obtain ⟨b, rest', other', rfl, rfl⟩ := hother.head (Nat.le_refl 1)
          have hb : ¬Bytes.isDigit b := Bytes.not_isDigit_of_spanDigits (by rw [hspan])
          simp only [Grammar.natural, Bytes.spanDigits_append_cons hdigits hb, hbounded]
        | beyond => simp only [hbounded] at hfound; cases hfound
        | overlong => simp only [hbounded] at hfound; cases hfound
        | malformed => simp only [hbounded] at hfound; cases hfound
  refused {limit bytes rest table table'} hrefused := by
    have happend := Bytes.spanDigits_append bytes
    unfold Grammar.natural at hrefused
    cases hspan : Bytes.spanDigits bytes with
    | mk digits left =>
      rw [hspan] at happend hrefused
      have hdigits : ∀ b ∈ digits, Bytes.isDigit b := fun b hb =>
        Bytes.isDigit_of_mem_spanDigits (by rw [hspan]; exact hb)
      cases digits with
      | nil =>
        cases hrefused
        refine ⟨[], rfl, fun other hpart hne => ?_⟩
        obtain ⟨b, rest', other', rfl, rfl⟩ := head_of_part hpart hne
        have hleft : (Bytes.spanDigits (b :: rest')).2 = b :: rest' := by
          rw [hspan]
          exact happend
        have hb : ¬Bytes.isDigit b := Bytes.not_isDigit_of_spanDigits hleft
        simp only [Grammar.natural, List.nil_append,
          show Bytes.spanDigits (b :: other') = ([], b :: other') from
            Bytes.spanDigits_append_cons hdigits hb other']
      | cons digit digits =>
        cases hbounded : Decimal.bounded limit (digit :: digits) with
        | beyond =>
          simp only [hbounded] at hrefused
          cases hrefused
          refine ⟨digit :: digits, happend.symm, fun other hpart hne => ?_⟩
          obtain ⟨b, rest', other', rfl, rfl⟩ := head_of_part hpart hne
          have hb : ¬Bytes.isDigit b := Bytes.not_isDigit_of_spanDigits (by rw [hspan])
          simp only [Grammar.natural, Bytes.spanDigits_append_cons hdigits hb, hbounded]
        | within n => simp only [hbounded] at hrefused; cases hrefused
        | overlong => simp only [hbounded] at hrefused; cases hrefused
        | malformed => simp only [hbounded] at hrefused; cases hrefused

end Settles

/-- The bytes before a mark of one character are settled by that character. -/
lemma breakMark?_append_cons {m : Nat} {before rest : Bytes} {b : UInt8} {bytes : Bytes}
    (h : Bytes.breakMark? [m] bytes = some (before, b :: rest)) (other : Bytes) :
    Bytes.breakMark? [m] (before ++ b :: other) = some (before, b :: other) := by
  induction bytes generalizing before with
  | nil => simp [Bytes.breakMark?, Bytes.stripMark?] at h
  | cons c bytes ih =>
    unfold Bytes.breakMark? at h
    by_cases hc : (Bytes.stripMark? [m] (c :: bytes)).isSome
    · rw [if_pos hc] at h
      cases h
      have hb : (Bytes.stripMark? [m] (b :: other)).isSome := by
        simp only [Bytes.stripMark?] at hc ⊢
        split at hc
        · next hm => rw [if_pos hm]; rfl
        · cases hc
      rw [List.nil_append, Bytes.breakMark?, if_pos hb]
    · rw [if_neg hc] at h
      obtain ⟨⟨before', rest'⟩, hsplit, heq⟩ := Option.map_eq_some_iff.1 h
      cases heq
      have hc' : ¬(Bytes.stripMark? [m] (c :: (before' ++ b :: other))).isSome := by
        simp only [Bytes.stripMark?] at hc ⊢
        split at hc
        · exact absurd rfl hc
        · next hm => rw [if_neg hm]; exact hc
      rw [List.cons_append, Bytes.breakMark?, if_neg hc', ih hsplit]
      rfl

/-- What is read up to a mark of one character is settled by that character. -/
lemma settles_readUntil {mark : Text} (hmark : mark.length = 1) : Settles 0 1 (readUntil mark) where
  found {limit bytes rest table table' value} hfound := by
    obtain ⟨m, hm⟩ : ∃ m, mark.map Fin.val = [m] :=
      List.length_eq_one_iff.1 (by rw [List.length_map, hmark])
    unfold readUntil at hfound
    rw [hm] at hfound
    cases hbreak : Bytes.breakMark? [m] bytes with
    | none =>
      simp only [hbreak] at hfound
      cases hfound
    | some parts =>
      simp only [hbreak] at hfound
      cases hfound
      refine ⟨parts.1, (Bytes.breakMark?_append hbreak).symm, Nat.zero_le _, fun other hother => ?_⟩
      obtain ⟨b, rest', other', hrest, rfl⟩ := hother.head (Nat.le_refl 1)
      have hbreak' : Bytes.breakMark? [m] bytes = some (parts.1, b :: rest') := by
        rw [hbreak, ← hrest]
      have hsame := breakMark?_append_cons hbreak' other'
      simp only [readUntil, hm, hsame]
  refused {limit bytes rest table table'} hrefused := by
    unfold readUntil at hrefused
    split at hrefused
    · cases hrefused
    · cases hrefused
      refine ⟨bytes, (List.append_nil _).symm, fun other hpart hne => ?_⟩
      exact absurd (List.prefix_nil.1 hpart) hne

/-- A tolerated refusal is kept where less is left. -/
lemma steady_tolerate {least ahead : Nat} {p : Parser α} (hp : Settles least ahead p)
    (hahead : ahead ≤ 1) :
    Steady (fun value => value.isSome = true) (fun value => if value.isSome then least else 0)
      (fun _ => 1) (tolerate p) where
  found {limit bytes rest table table' value} hfound := by
    unfold tolerate at hfound
    cases hp' : p limit ⟨bytes, table⟩ with
    | found inner s =>
      rw [hp'] at hfound
      cases hfound
      obtain ⟨taken, rfl, hlength, hsame⟩ := hp.found hp'
      refine ⟨taken, rfl, hlength, fun other hother => ?_⟩
      have hother' : Replaces True ahead rest other :=
        hother.append [] (fun _ => trivial) (by simpa using hahead)
      simp only [tolerate, hsame other hother']
    | refused s =>
      rw [hp'] at hfound
      cases hfound
      obtain ⟨taken, rfl, hsame⟩ := hp.refused hp'
      refine ⟨taken, rfl, Nat.zero_le _, fun other hother => ?_⟩
      obtain ⟨b, rest', other', hrest, hne⟩ := hother.head (Nat.le_refl 1)
      have hpart : other <+: rest := by
        obtain ⟨-, hsome | hpart⟩ | ⟨hpart, -⟩ := hother
        · cases hsome
        · exact hpart
        · exact hpart
      simp only [tolerate, hsame other hpart (by rw [hne]; exact List.cons_ne_nil _ _)]
    | stopped why =>
      rw [hp'] at hfound
      cases hfound
  refused {limit bytes rest table table'} hrefused := by
    unfold tolerate at hrefused
    cases hp' : p limit ⟨bytes, table⟩ with
    | found inner s =>
      rw [hp'] at hrefused
      cases hrefused
    | refused s =>
      rw [hp'] at hrefused
      cases hrefused
    | stopped why =>
      rw [hp'] at hrefused
      cases hrefused

end Leaves

section Alternatives

variable {condition : α → Prop} {m j n k : Nat} {p q : Parser α}

/-- More may be looked at. -/
lemma Steady.farther (hp : Steady condition (fun _ => n) (fun _ => k) p) (j : Nat) :
    Steady condition (fun _ => n) (fun _ => max j k) p :=
  hp.weaken (fun _ => id) (fun _ => Nat.le_refl _) (fun _ => Nat.le_max_right _ _)

/-- An alternative behind a mark. What is read without the mark takes bytes of it, or they are looked
at. -/
lemma steady_ite (mark : Text) (hp : Steady condition (fun _ => m) (fun _ => j) p)
    (hq : Steady condition (fun _ => n) (fun _ => k) q) :
    Steady condition (fun _ => min (mark.length + m) n) (fun _ => max j (max (mark.length - n) k))
      (do if ← accept mark then p else q) := by
  have hbranch : ∀ found : Bool, Steady condition (fun _ => if found then m else n)
      (fun _ => if found then j else max (mark.length - n) k) (if found then p else q) := by
    intro found
    cases found with
    | true => exact hp
    | false => exact hq.farther _
  refine (steady_accept mark).bind hbranch fun found limit s result s' _ => ⟨fun _ => trivial, ?_⟩
  cases found with
  | true => exact ⟨Nat.min_le_left _ _, Nat.zero_le _, Nat.le_max_left _ _⟩
  | false =>
    refine ⟨(Nat.min_le_right _ _).trans (Nat.le_add_left _ _), ?_, ?_⟩
    · show mark.length ≤ max (mark.length - n) k + n
      omega
    · exact Nat.le_max_right _ _

/-- An alternative behind a mark, where the other one may end without looking ahead: what it finds
then fails the condition, so that it is kept only where less is left. -/
lemma steady_accept_open (least : α → Nat) {mark : Text} {f : Bool → Parser α} {least' : α → Nat}
    (hf : ∀ found, Steady condition least (fun _ => 0) (f found))
    (hopen : ∀ limit s value s', f false limit s = .found value s' → condition value →
      mark.length ≤ least value)
    (hleast : ∀ found limit s value s', f found limit s = .found value s' →
      least' value ≤ (if found then mark.length else 0) + least value) :
    Steady condition least' (fun _ => 0) (accept mark >>= f) where
  found {limit bytes rest table table' value} hfound := by
    obtain ⟨found, ⟨left, table₁⟩, hmark, hrest⟩ := Parser.bind_found hfound
    obtain ⟨taken, rfl, hlength, hsame⟩ := (steady_accept mark).found hmark
    obtain ⟨taken₂, rfl, hlength₂, hsame₂⟩ := (hf found).found hrest
    refine ⟨taken ++ taken₂, (List.append_assoc ..).symm, ?_, fun other hother => ?_⟩
    · have := hleast found limit _ value _ hrest
      rw [List.length_append]
      omega
    · have hmark' : accept mark limit ⟨taken ++ (taken₂ ++ other), table⟩ =
          .found found ⟨taken₂ ++ other, table₁⟩ := by
        cases found with
        | true => exact hsame _ (hother.append taken₂ (fun _ => trivial) (Nat.zero_le _))
        | false =>
          by_cases hcondition : condition value
          · have hbound := (hopen limit _ value _ hrest hcondition).trans hlength₂
            exact hsame _ (hother.append taken₂ (fun _ => trivial)
              (hbound.trans (Nat.le_add_left _ _)))
          · have hpart : other <+: rest := by
              obtain ⟨-, hholds | hpart⟩ | ⟨hpart, -⟩ := hother
              · exact absurd hholds hcondition
              · exact hpart
              · exact hpart
            -- Nothing is taken where the mark is not there.
            have heq := eq_of_accept_false hmark
            obtain rfl : taken = [] := List.self_eq_append_left.1 (congrArg State.unread heq)
            cases heq
            exact accept_eq_false_of_part hmark ((List.prefix_append_right_inj taken₂).2 hpart)
      rw [Parser.bind_apply, List.append_assoc, hmark']
      exact hsame₂ other hother
  refused {limit bytes rest table table'} hrefused := by
    obtain hmark | ⟨found, ⟨left, table₁⟩, hmark, hrest⟩ := Parser.bind_refused hrefused
    · exact absurd hmark (accept_ne_refused mark limit _ _)
    · obtain ⟨taken, rfl, -, hsame⟩ := (steady_accept mark).found hmark
      obtain ⟨taken₂, rfl, hsame₂⟩ := (hf found).refused hrest
      refine ⟨taken ++ taken₂, (List.append_assoc ..).symm, fun other hpart hne => ?_⟩
      rw [Parser.bind_apply, List.append_assoc, hsame _ (replaces_of_part hpart hne taken₂)]
      exact hsame₂ other hpart hne

lemma steady_unlessEnd (hp : Steady condition (fun _ => n) (fun _ => k) p) :
    Steady condition (fun _ => n) (fun _ => max (1 - n) k) (do if ← atEnd then refuse else p) := by
  have hbranch : ∀ ended : Bool, Steady condition (fun _ => n) (fun _ => max (1 - n) k)
      (if ended then refuse else p) := by
    intro ended
    cases ended with
    | true => exact steady_refuse
    | false => exact hp.farther _
  exact Settles.atEnd.bind hbranch fun _ _ _ _ _ _ =>
    ⟨fun _ => trivial, Nat.le_add_left _ _, by omega, Nat.le_refl _⟩

/-- Two parsers in sequence of which the first one is steady without a condition. -/
lemma Settles.before {condition : β → Prop} {f : α → Parser β} (hp : Settles m j p)
    (hf : ∀ value, Steady condition (fun _ => n) (fun _ => k) (f value)) :
    Steady condition (fun _ => m + n) (fun _ => max (j - n) k) (p >>= f) :=
  Steady.bind hp (fun value => (hf value).farther (j - n)) fun _ _ _ _ _ _ =>
    ⟨fun _ => trivial, Nat.le_refl _, by omega, Nat.le_refl _⟩

/-- What is steady without a condition is so under any. -/
lemma Settles.under (hp : Settles n k p) : Steady condition (fun _ => n) (fun _ => k) p :=
  hp.weaken (fun _ _ => trivial) (fun _ => Nat.le_refl _) (fun _ => Nat.le_refl _)

/-- Less may be said of a parser. Between numerals the comparison is by computation. -/
lemma Steady.mono (hp : Steady condition (fun _ => m) (fun _ => j) p)
    (h : decide (n ≤ m ∧ j ≤ k) = true) : Steady condition (fun _ => n) (fun _ => k) p :=
  hp.weaken (fun _ => id) (fun _ => (of_decide_eq_true h).1) (fun _ => (of_decide_eq_true h).2)

end Alternatives

namespace Settles

variable {m j n k : Nat} {p q : Parser α}

section Forms

/-- Less may be said of a parser. -/
lemma mono (hp : Settles m j p) (h : decide (n ≤ m ∧ j ≤ k) = true) : Settles n k p :=
  Steady.mono hp h

lemma pure (value : α) : Settles 0 0 (Pure.pure value) :=
  steady_pure _ value

/-- That nothing is there may be seen from the bytes ahead. -/
lemma pureAhead (k : Nat) (value : α) : Settles 0 k (Pure.pure value) :=
  steady_pure _ value

/-- A refusal may be said to take any number of bytes. -/
lemma refuse (n : Nat) : Settles n 0 (Grammar.refuse : Parser α) :=
  steady_refuse

lemma bind {f : α → Parser β} (hp : Settles m j p) (hf : ∀ value, Settles n k (f value)) :
    Settles (m + n) (max (j - n) k) (p >>= f) :=
  hp.before hf

lemma accept (mark : Text) : Settles 0 mark.length (Grammar.accept mark) := by
  refine (steady_accept mark).weaken (fun _ => id) (fun _ => Nat.zero_le _) fun found => ?_
  cases found with
  | true => exact Nat.zero_le _
  | false => exact Nat.le_refl _

lemma ite (mark : Text) (hp : Settles m j p) (hq : Settles n k q) :
    Settles (min (mark.length + m) n) (max j (max (mark.length - n) k))
      (do if ← Grammar.accept mark then p else q) :=
  steady_ite mark hp hq

lemma unlessEnd (hp : Settles n k p) :
    Settles n (max (1 - n) k) (do if ← Grammar.atEnd then Grammar.refuse else p) :=
  steady_unlessEnd hp

/-- A letter that is taken, where a full stop is refused. -/
lemma next {f : Char → Parser α} (hf : ∀ c, Settles n k (f c)) (hdot : f '.' = Grammar.refuse) :
    Settles (n + 1) k (Grammar.next >>= f) where
  found {limit bytes rest table table' value} hfound := by
    rw [Parser.bind_apply] at hfound
    cases bytes with
    | nil =>
      simp only [Grammar.next, hdot] at hfound
      cases hfound
    | cons b bytes =>
      obtain ⟨taken, rfl, hlength, hsame⟩ := (hf _).found hfound
      refine ⟨b :: taken, rfl, Nat.succ_le_succ hlength, fun other hother => ?_⟩
      exact hsame other hother
  refused {limit bytes rest table table'} hrefused := by
    rw [Parser.bind_apply] at hrefused
    cases bytes with
    | nil =>
      simp only [Grammar.next, hdot] at hrefused
      cases hrefused
      exact ⟨[], rfl, fun other hpart hne => absurd (List.prefix_nil.1 hpart) hne⟩
    | cons b bytes =>
      obtain ⟨taken, rfl, hsame⟩ := (hf _).refused hrefused
      exact ⟨b :: taken, rfl, fun other hpart hne => hsame other hpart hne⟩

lemma demand (mark : Text) : Settles mark.length 0 (Grammar.demand mark) :=
  (ite mark (pure ()) (refuse mark.length)).mono (by simp)

lemma orRefuse (value : Option α) : Settles 0 0 (Grammar.orRefuse value) := by
  cases value with
  | none => exact refuse 0
  | some value => exact pure value

lemma branch (kind : Kind) (children : List Node) :
    Settles 0 0 (Grammar.branch kind (children.map some)) := by
  rw [branch_map_some]
  exact pure _

lemma numbered (kind : Kind) (number : Int) (children : List Node) :
    Settles 0 0 (Grammar.numbered kind number (children.map some)) := by
  rw [numbered_map_some]
  exact pure _

lemma named (kind : Kind) (content : Text) : Settles 0 0 (Grammar.named kind content) :=
  pure _

lemma afterMark {mark : Text} (hmark : mark.length = 1) {p : Parser Node} (hp : Settles n 0 p) :
    Settles 0 1 (Grammar.afterMark mark p) := by
  refine (ite mark (hp.bind fun _ => pure _) (pureAhead 1 none)).mono ?_
  simp [hmark]

lemma index : Settles 1 0 Grammar.index :=
  (ite _ (pure _) (natural.bind fun _ => (demand _).bind fun _ => pure _)).mono rfl

lemma indexNode : Settles 1 0 Grammar.indexNode :=
  (index.bind fun _ => numbered .number _ []).mono rfl

lemma builtinSize : Settles 2 0 Grammar.builtinSize :=
  (natural.bind fun _ => (demand _).bind fun _ => pure _).mono rfl

lemma genericParamIndex : Settles 1 0 Grammar.genericParamIndex := by
  have hwritten : ∀ depth index, Settles 0 0 (writtenParam depth index) := by
    intro depth index
    unfold writtenParam
    split
    · exact pure _
    · exact steady_stop _
  exact (ite _ (index.bind fun _ => index.bind fun _ => hwritten _ _) <|
    ite _ (pure _) <| index.bind fun _ => pure _).mono rfl

end Forms

section Letters

/-- What is done once the next character is seen: a parser that is steady in any case, or one that
first takes the character, which then is not the end. -/
def AfterPeek (n k : Nat) (c : Char) (p : Parser α) : Prop :=
  Settles n k p ∨
    c ≠ '.' ∧ ∃ rest : Parser α, (p = do let _ ← Grammar.next; rest) ∧ Settles (n - 1) k rest

lemma any {c : Char} (hp : Settles n k p) : AfterPeek n k c p :=
  .inl hp

lemma afterLetter {c : Char} (hc : c ≠ '.') (hp : Settles m k p) :
    AfterPeek (m + 1) k c (do let _ ← Grammar.next; p) :=
  .inr ⟨hc, p, rfl, hp⟩

/-- On bytes that are seen to begin with a letter, what is done about the letter is steady as a
whole: it takes the letter, or it is steady in any case and looks at it or takes it. -/
lemma found_of_afterPeek {b : UInt8} (hp : AfterPeek n k (Bytes.char b) p) (hahead : 1 ≤ k + n)
    {limit : Int} {bytes rest : Bytes} {table table' : References Node} {value : α}
    (hfound : p limit ⟨b :: bytes, table⟩ = .found value ⟨rest, table'⟩) :
    ∃ taken, b :: bytes = taken ++ rest ∧ n ≤ taken.length ∧
      ∀ other, Replaces True k rest other →
        p limit ⟨taken ++ other, table⟩ = .found value ⟨other, table'⟩ ∧
          ∃ bytes', taken ++ other = b :: bytes' := by
  obtain h | ⟨-, q, rfl, h⟩ := hp
  · obtain ⟨taken, hbytes, hlength, hsame⟩ := h.found hfound
    refine ⟨taken, hbytes, hlength, fun other hother => ⟨hsame other hother, ?_⟩⟩
    have hwhole : Replaces True 1 (taken ++ rest) (taken ++ other) :=
      hother.append taken id (hahead.trans (Nat.add_le_add_left hlength k))
    obtain ⟨b', rest', other', hrest, hother'⟩ := hwhole.head (Nat.le_refl 1)
    rw [← hbytes] at hrest
    cases hrest
    exact ⟨other', hother'⟩
  · obtain ⟨taken, rfl, hlength, hsame⟩ := h.found hfound
    refine ⟨b :: taken, rfl, Nat.sub_le_iff_le_add.1 hlength, fun other hother => ⟨?_, _, rfl⟩⟩
    exact hsame other hother

lemma refused_of_afterPeek {b : UInt8} (hp : AfterPeek n k (Bytes.char b) p) {limit : Int}
    {bytes rest : Bytes} {table table' : References Node}
    (hrefused : p limit ⟨b :: bytes, table⟩ = .refused ⟨rest, table'⟩) :
    ∃ taken, b :: bytes = taken ++ rest ∧ ∀ other, other <+: rest → other ≠ [] →
      p limit ⟨taken ++ other, table⟩ = .refused ⟨other, table'⟩ ∧
        ∃ bytes', taken ++ other = b :: bytes' := by
  obtain h | ⟨-, q, rfl, h⟩ := hp
  · obtain ⟨taken, hbytes, hsame⟩ := h.refused hrefused
    refine ⟨taken, hbytes, fun other hpart hne => ⟨hsame other hpart hne, ?_⟩⟩
    obtain ⟨b', rest', other', hrest, hother⟩ :=
      head_of_part ((List.prefix_append_right_inj taken).2 hpart) (by simp [hne])
    rw [← hbytes] at hrest
    cases hrest
    exact ⟨other', hother⟩
  · obtain ⟨taken, rfl, hsame⟩ := h.refused hrefused
    exact ⟨b :: taken, rfl, fun other hpart hne => ⟨hsame other hpart hne, _, rfl⟩⟩

/-- A look at the next character, with what is done about it. -/
lemma onPeek (n k : Nat) (hahead : 1 ≤ k + n) {f : Char → Parser α}
    (hf : ∀ c, AfterPeek n k c (f c)) : Settles n k (Grammar.peek >>= f) where
  found {limit bytes rest table table' value} hfound := by
    rw [Parser.bind_apply] at hfound
    cases bytes with
    | nil =>
      obtain h | ⟨hc, -⟩ := hf '.'
      · obtain ⟨taken, hbytes, hlength, -⟩ := h.found hfound
        obtain ⟨rfl, rfl⟩ := List.append_eq_nil_iff.1 hbytes.symm
        refine ⟨[], rfl, hlength, fun other hother => ?_⟩
        have hk : 1 ≤ k := by simpa using hahead.trans (Nat.add_le_add_left hlength k)
        obtain ⟨b, rest', other', hrest, -⟩ := hother.head hk
        cases hrest
      · exact absurd rfl hc
    | cons b bytes =>
      obtain ⟨taken, hbytes, hlength, hsame⟩ := found_of_afterPeek (hf (Bytes.char b)) hahead hfound
      refine ⟨taken, hbytes, hlength, fun other hother => ?_⟩
      obtain ⟨hfound', bytes', hbytes'⟩ := hsame other hother
      rw [hbytes'] at hfound' ⊢
      exact hfound'
  refused {limit bytes rest table table'} hrefused := by
    rw [Parser.bind_apply] at hrefused
    cases bytes with
    | nil =>
      obtain h | ⟨hc, -⟩ := hf '.'
      · obtain ⟨taken, hbytes, -⟩ := h.refused hrefused
        obtain ⟨rfl, rfl⟩ := List.append_eq_nil_iff.1 hbytes.symm
        exact ⟨[], rfl, fun other hpart hne => absurd (List.prefix_nil.1 hpart) hne⟩
      · exact absurd rfl hc
    | cons b bytes =>
      obtain ⟨taken, hbytes, hsame⟩ := refused_of_afterPeek (hf (Bytes.char b)) hrefused
      refine ⟨taken, hbytes, fun other hpart hne => ?_⟩
      obtain ⟨hrefused', bytes', hbytes'⟩ := hsame other hpart hne
      rw [hbytes'] at hrefused' ⊢
      exact hrefused'

end Letters

end Settles

section Lists

/-- A round of a loop that goes on by a step until it is to stop. -/
def roundUntil (stop : Parser Bool) (last : β) (step : Parser α) : Parser (Round α β) := do
  if ← stop then pure (.done last)
  else
    let value ← step
    pure (.again value)

lemma roundUntil_found {stop : Parser Bool} {last : β} {step : Parser α} {limit : Int} {s s' : State}
    {round : Round α β} (h : roundUntil stop last step limit s = .found round s') :
    round = .done last ∨ ∃ value s₁, step limit s₁ = .found value s' ∧ round = .again value := by
  obtain ⟨stopped, s₁, -, h⟩ := Parser.bind_found h
  cases stopped with
  | true =>
    cases h
    exact .inl rfl
  | false =>
    obtain ⟨value, s₂, hstep, h⟩ := Parser.bind_found h
    cases h
    exact .inr ⟨value, s₁, hstep, rfl⟩

/-- Where a loop is to go on, it looks at one byte at most, and the step takes a byte. -/
lemma steady_roundUntil {conditionStep : Round α β → Prop} {condition : α → Prop} {stop : Parser Bool}
    {least ahead : Nat} (hstop : Steady (fun _ => True) (fun stopped => if stopped then least else 0)
      (fun stopped => if stopped then ahead else 1) stop) (last : β) {step : Parser α}
    (hstep : Steady condition (fun _ => 1) (fun _ => 1) step)
    (hcondition : ∀ value, conditionStep (.again value) → condition value) :
    Steady conditionStep (perRound 1 least) (perRound 1 ahead) (roundUntil stop last step) := by
  have hagain : Steady conditionStep (perRound 1 0) (perRound 1 ahead)
      (do let value ← step; pure (.again value)) := by
    refine hstep.bind (fun value => steady_pure (perRound 1 ahead) _) ?_
    intro value limit s round s' hround
    cases hround
    exact ⟨hcondition value, Nat.le_refl _, Nat.le_refl _, Nat.le_refl _⟩
  have hbranch : ∀ stopped : Bool, Steady conditionStep
      (fun round => if stopped then 0 else perRound 1 0 round) (perRound 1 ahead)
      (if stopped then pure (.done last) else do let value ← step; pure (.again value)) := by
    intro stopped
    cases stopped with
    | true => exact steady_pure _ _
    | false => exact hagain
  refine hstop.bind hbranch fun stopped limit s round s' hround => ⟨fun _ => trivial, ?_⟩
  cases stopped with
  | true =>
    cases hround
    exact ⟨Nat.le_refl _, Nat.le_refl _, Nat.le_refl _⟩
  | false =>
    obtain ⟨value, s₁, -, h⟩ := Parser.bind_found hround
    cases h
    exact ⟨Nat.le_refl _, Nat.le_add_right _ _, Nat.le_refl _⟩

/-- What holds of the items of a list as it grows. -/
def eachItem (condition : α → Prop) : Round (List α) (List α) → Prop
  | .again items => ∀ item ∈ items, condition item
  | .done items => ∀ item ∈ items, condition item

/-- Adds an item to those before it, the last one first. -/
def addItem (p : Parser α) (earlier : List α) : Parser (List α) := do
  let value ← p
  pure (value :: earlier)

/-- A round of a list that goes on until it is to stop. -/
def listRound (stop : Parser Bool) (item : List α → Parser α) (earlier : List α) :
    Parser (Round (List α) (List α)) := do
  if ← stop then pure (.done earlier.reverse)
  else
    let value ← item earlier
    pure (.again (value :: earlier))

lemma listRound_eq (stop : Parser Bool) (item : List α → Parser α) (earlier : List α) :
    listRound stop item earlier =
      roundUntil stop earlier.reverse (addItem (item earlier) earlier) := by
  simp only [listRound, roundUntil, addItem, bind_assoc, pure_bind]

lemma gather_eq_iterate (stop : Parser Bool) (item : List α → Parser α) :
    gather stop item =
      iterate (fun earlier => roundUntil stop earlier.reverse (addItem (item earlier) earlier)) [] := by
  simp only [gather, roundUntil, addItem, bind_assoc, pure_bind]

lemma steady_addItem {condition : α → Prop} {p : Parser α}
    (hp : Steady condition (fun _ => 1) (fun _ => 1) p) (earlier : List α) :
    Steady (fun items => ∀ item ∈ items, condition item) (fun _ => 1) (fun _ => 1)
      (addItem p earlier) := by
  refine hp.bind (fun value => steady_pure (fun _ => 1) _) ?_
  intro value limit s items s' hitems
  cases hitems
  exact ⟨fun hall => hall value (List.mem_cons_self ..), Nat.le_refl _, Nat.le_refl _, Nat.le_refl _⟩

/-- A list that ends where a parser says so. -/
lemma steady_gather {condition : α → Prop} {stop : Parser Bool} {item : List α → Parser α}
    {least ahead : Nat} (hstop : Steady (fun _ => True) (fun stopped => if stopped then least else 0)
      (fun stopped => if stopped then ahead else 1) stop)
    (hitem : ∀ earlier, Steady condition (fun _ => 1) (fun _ => 1) (item earlier))
    (hahead : 1 ≤ ahead + least) :
    Steady (fun items => ∀ item ∈ items, condition item) (fun _ => least) (fun _ => ahead)
      (gather stop item) := by
  rw [gather_eq_iterate]
  have hround : ∀ earlier, Steady (eachItem condition) (perRound 1 least) (perRound 1 ahead)
      (roundUntil stop earlier.reverse (addItem (item earlier) earlier)) := fun earlier =>
    steady_roundUntil hstop _ (steady_addItem (hitem earlier) earlier) fun _ => id
  -- The items of a list that grows are among those of the list in the end.
  refine Steady.iterate (eachItem condition) (fun earlier result => ∀ item ∈ earlier, item ∈ result)
    hround hahead ?_ ?_ (fun _ => id) ?_ []
  · intro earlier limit s result s' h
    obtain h | ⟨_, _, _, h⟩ := roundUntil_found h
    · cases h
      exact fun item hmem => List.mem_reverse.2 hmem
    · cases h
  · intro earlier limit s items s' h result hkept
    obtain h | ⟨_, _, hitems, h⟩ := roundUntil_found h
    · cases h
    · cases h
      obtain ⟨value, s₂, -, hitems⟩ := Parser.bind_found hitems
      cases hitems
      exact fun item hmem => hkept item (List.mem_cons_of_mem _ hmem)
  · intro earlier limit s items s' h result hkept hall item hmem
    exact hall item (hkept item hmem)

lemma steady_accept_one {mark : Text} (hmark : mark.length = 1) :
    Steady (fun _ => True) (fun found => if found then 1 else 0) (fun found => if found then 0 else 1)
      (accept mark) := by
  have h := steady_accept mark
  rw [hmark] at h
  exact h

namespace Settles

/-- A list up to a mark. -/
lemma gather (mark : Text) (hmark : mark.length = 1) {item : List α → Parser α}
    (hitem : ∀ earlier, Settles 1 1 (item earlier)) :
    Settles 1 0 (Grammar.gather (Grammar.accept mark) item) :=
  (steady_gather (steady_accept_one hmark) hitem (Nat.le_refl 1)).weaken
    (fun _ _ _ _ => trivial) (fun _ => Nat.le_refl _) (fun _ => Nat.le_refl _)

/-- A list up to a character that is left. -/
lemma gatherAhead {stop : Parser Bool} (hstop : Settles 0 1 stop) {item : List α → Parser α}
    (hitem : ∀ earlier, Settles 1 1 (item earlier)) : Settles 0 1 (Grammar.gather stop item) := by
  have hstop' : Steady (fun _ => True) (fun stopped => if stopped then 0 else 0)
      (fun stopped => if stopped then 1 else 1) stop :=
    hstop.weaken (fun _ => id) (fun stopped => by simp) (fun stopped => by simp)
  exact (steady_gather hstop' hitem (Nat.le_refl 1)).weaken
    (fun _ _ _ _ => trivial) (fun _ => Nat.le_refl _) (fun _ => Nat.le_refl _)

/-- A change by steps up to a mark. -/
lemma foldUntil (mark : Text) (hmark : mark.length = 1) {step : α → Parser α}
    (hstep : ∀ value, Settles 1 1 (step value)) (value : α) :
    Settles 1 0 (Grammar.foldUntil (Grammar.accept mark) step value) := by
  have hround : ∀ value, Steady (fun _ => True) (perRound 1 1) (perRound 1 0)
      (roundUntil (Grammar.accept mark) value (step value)) := fun value =>
    steady_roundUntil (steady_accept_one hmark) value (hstep value) fun _ _ => trivial
  exact Steady.iterate (fun _ => True) (fun _ _ => True) hround (Nat.le_refl 1)
    (fun _ _ _ _ _ _ => trivial) (fun _ _ _ _ _ _ _ => id) (fun _ => id) (fun _ _ _ _ _ _ _ _ => id)
    value

end Settles

/-- A round of a list of what is found. -/
def roundFound (stop : Parser Bool) (item : Parser α) (earlier : List α) :
    Parser (Round (List α) (List α)) := do
  if ← stop then pure (.done earlier.reverse)
  else
    match ← tolerate item with
    | some value => pure (.again (value :: earlier))
    | none => pure (.done earlier.reverse)

/-- What a tolerated item makes of a list. -/
def withFound (earlier : List α) : Option α → Round (List α) (List α)
  | some value => .again (value :: earlier)
  | none => .done earlier.reverse

lemma roundFound_eq (stop : Parser Bool) (item : Parser α) (earlier : List α) :
    roundFound stop item earlier = (do
      if ← stop then pure (.done earlier.reverse)
      else do let value ← tolerate item; pure (withFound earlier value)) := by
  unfold roundFound
  congr 1
  funext stopped
  congr 2
  funext value
  cases value <;> rfl

lemma steady_roundFound {stop : Parser Bool} {item : Parser α} (hstop : Settles 0 1 stop)
    (hitem : Settles 1 0 item) (earlier : List α) :
    Steady (fun _ => False) (perRound 1 0) (perRound 1 1) (roundFound stop item earlier) := by
  have hitem' : Steady (fun _ => False) (perRound 1 0) (perRound 1 1)
      (do let value ← tolerate item; pure (withFound earlier value)) := by
    refine (steady_tolerate hitem (Nat.zero_le 1)).bind
      (fun value => steady_pure (perRound 1 1) _) fun value limit s round s' h => ?_
    cases value with
    | some value =>
      cases h
      exact ⟨False.elim, Nat.le_refl _, Nat.le_refl _, Nat.le_refl _⟩
    | none =>
      cases h
      exact ⟨False.elim, Nat.le_refl _, Nat.le_refl _, Nat.le_refl _⟩
  have hbranch : ∀ stopped : Bool, Steady (fun _ => False)
      (fun round => if stopped then 0 else perRound 1 0 round) (perRound 1 1)
      (if stopped then pure (.done earlier.reverse)
        else do let value ← tolerate item; pure (withFound earlier value)) := by
    intro stopped
    cases stopped with
    | true => exact steady_pure _ _
    | false => exact hitem'
  rw [roundFound_eq]
  refine Steady.bind hstop hbranch fun stopped limit s round s' h => ⟨fun _ => trivial, ?_⟩
  cases stopped with
  | true =>
    cases h
    exact ⟨Nat.le_refl _, Nat.le_refl _, Nat.le_refl _⟩
  | false =>
    cases round with
    | again _ => exact ⟨Nat.le_refl _, Nat.le_add_right _ _, Nat.le_refl _⟩
    | done _ => exact ⟨Nat.le_refl _, Nat.le_refl _, Nat.le_refl _⟩

/-- A list of what is found is kept where less is left. -/
lemma steady_gatherFound {stop : Parser Bool} {item : Parser α} (hstop : Settles 0 1 stop)
    (hitem : Settles 1 0 item) :
    Steady (fun _ => False) (fun _ => 0) (fun _ => 1) (gatherFound stop item) :=
  Steady.iterate (fun _ => False) (fun _ _ => True) (steady_roundFound hstop hitem) (Nat.le_refl 1)
    (fun _ _ _ _ _ _ => trivial) (fun _ _ _ _ _ _ _ => id) (fun _ => id) (fun _ _ _ _ _ _ _ _ => id) []

end Lists

end SwiftMangling.Grammar
