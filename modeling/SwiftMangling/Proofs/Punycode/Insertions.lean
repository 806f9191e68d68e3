import SwiftMangling.Punycode.Decode
import SwiftMangling.Punycode.Encode
import Mathlib.Data.List.InsertIdx
import Mathlib.Tactic.Common
import Mathlib.Tactic.Ring

/-!
# Gaps and the characters that they insert

A text has one list of gaps after its ASCII characters. The writer goes through the text once for each
code point and the reader goes through the slots of a growing text, and the slots that the writer has
passed since the last insertion are those that the reader has yet to pass.
-/

namespace SwiftMangling.Punycode

section Slots

variable {slots codePoint slot passed place c : Nat}

/-- The reader, at a slot of a code point, is as many slots behind a place of another code point as the
writer has passed; each code point has the same number of slots. -/
structure Behind (slots codePoint slot passed c place : Nat) : Prop where
  le : codePoint ≤ c
  count : slot + passed = (c - codePoint) * slots + place

namespace Behind

lemma refl (slots c place : Nat) : Behind slots c place 0 c place :=
  ⟨Nat.le_refl c, by rw [Nat.sub_self, Nat.zero_mul, Nat.zero_add, Nat.add_zero]⟩

lemma pass (h : Behind slots codePoint slot passed c place) (more : Nat) :
    Behind slots codePoint slot (passed + more) c (place + more) :=
  ⟨h.le, by rw [← Nat.add_assoc, h.count, Nat.add_assoc]⟩

lemma climb (h : Behind slots codePoint slot passed c place) {c' : Nat} (hle : c ≤ c') :
    Behind slots codePoint slot (passed + (c' - c) * slots) c' place := by
  refine ⟨h.le.trans hle, ?_⟩
  have hsplit : c' - codePoint = c - codePoint + (c' - c) := by
    have hbehind := h.le
    omega
  rw [hsplit, Nat.add_mul, ← Nat.add_assoc, h.count]
  ring

/-- After the last slot of a code point comes the first of the next one. -/
lemma next (h : Behind slots codePoint slot passed c slots) :
    Behind slots codePoint slot passed (c + 1) 0 := by
  refine ⟨h.le.trans (Nat.le_succ c), ?_⟩
  rw [h.count, Nat.succ_sub h.le, Nat.succ_mul, Nat.add_zero]

lemma div (h : Behind slots codePoint slot passed c place) (hplace : place < slots) :
    codePoint + (slot + passed) / slots = c := by
  rw [h.count, Nat.mul_comm, Nat.mul_add_div (Nat.zero_lt_of_lt hplace), Nat.div_eq_of_lt hplace,
    Nat.add_zero, Nat.add_sub_cancel' h.le]

lemma mod (h : Behind slots codePoint slot passed c place) (hplace : place < slots) :
    (slot + passed) % slots = place := by
  rw [h.count, Nat.mul_add_mod_self_right, Nat.mod_eq_of_lt hplace]

end Behind

end Slots

lemma insertIdx_length_append {α : Type} (front back : List α) (c : α) :
    (front ++ back).insertIdx front.length c = front ++ [c] ++ back := by
  induction front with
  | nil => rfl
  | cons x front ih => exact congrArg (x :: ·) ih

section Insertion

variable {codePoint slot gap : Nat} {front back text : Text} {gaps : List Nat}

/-- A gap inserts a character at the place that it is behind. -/
lemma insertGaps?_cons {c : CodePoint}
    (h : Behind ((front ++ back).length + 1) codePoint slot gap c.val front.length) :
    insertGaps? (front ++ back) codePoint slot (gap :: gaps) =
      insertGaps? (front ++ [c] ++ back) c.val (front ++ [c]).length gaps := by
  have hplace : front.length < (front ++ back).length + 1 := by
    rw [List.length_append]
    omega
  have hnext : (front ++ [c]).length = front.length + 1 := List.length_append
  rw [insertGaps?, hnext]
  simp only [h.div hplace, h.mod hplace, c.isLt, dif_pos, insertIdx_length_append]

/-- A text that gaps lead to has gone through the insertion of the first gap. -/
lemma insertGaps?_cons_found {start : Text}
    (h : insertGaps? start codePoint slot (gap :: gaps) = some text) :
    ∃ (c : CodePoint) (front back : Text), start = front ++ back ∧
      Behind (start.length + 1) codePoint slot gap c.val front.length ∧
      insertGaps? (front ++ [c] ++ back) c.val (front ++ [c]).length gaps = some text := by
  have hmod := Nat.mod_lt (slot + gap) (Nat.succ_pos start.length)
  have hplace : (slot + gap) % (start.length + 1) ≤ start.length := Nat.le_of_lt_succ hmod
  rw [insertGaps?] at h
  split at h
  · next hreached =>
    have hfront : (start.take ((slot + gap) % (start.length + 1))).length =
        (slot + gap) % (start.length + 1) := List.length_take_of_le hplace
    refine ⟨⟨_, hreached⟩, start.take ((slot + gap) % (start.length + 1)),
      start.drop ((slot + gap) % (start.length + 1)), (List.take_append_drop _ _).symm, ?_, ?_⟩
    · refine ⟨Nat.le_add_right _ _, ?_⟩
      rw [hfront, Nat.add_sub_cancel_left, Nat.div_add_mod']
    · rw [← insertIdx_length_append, List.take_append_drop, List.length_append, hfront]
      exact h
  · cases h

end Insertion

/-- The characters of a text below a number. -/
def below (bound : Nat) (text : Text) : Text :=
  text.filter fun c => c.val < bound

section Below

variable {bound : Nat}

lemma below_append (front back : Text) :
    below bound (front ++ back) = below bound front ++ below bound back :=
  List.filter_append ..

lemma below_cons_of_lt {c : CodePoint} (h : c.val < bound) (text : Text) :
    below bound (c :: text) = c :: below bound text :=
  List.filter_cons_of_pos (decide_eq_true h)

lemma below_cons_of_le {c : CodePoint} (h : bound ≤ c.val) (text : Text) :
    below bound (c :: text) = below bound text :=
  List.filter_cons_of_neg (by simpa using h)

lemma lt_of_mem_below {c : CodePoint} {text : Text} (h : c ∈ below bound text) : c.val < bound :=
  of_decide_eq_true (List.mem_filter.1 h).2

lemma below_eq_self {text : Text} (h : ∀ c ∈ text, c.val < bound) : below bound text = text :=
  List.filter_eq_self.2 fun c hc => decide_eq_true (h c hc)

lemma below_insert {c : CodePoint} (h : bound ≤ c.val) (front back : Text) :
    below bound (front ++ [c] ++ back) = below bound (front ++ back) := by
  rw [List.append_assoc, List.singleton_append, below_append, below_append, below_cons_of_le h]

lemma below_congr {bound' : Nat} {text : Text}
    (h : ∀ c ∈ text, c.val < bound ↔ c.val < bound') : below bound text = below bound' text :=
  List.filter_congr fun c hc => decide_eq_decide.2 (h c hc)

end Below

section Writing

variable {codePoint slot passed count : Nat}

/-- The gaps of one code point insert its characters, and only them, and leave the reader behind the
end of the text. -/
lemma insertGaps?_gapsOf {c : CodePoint} (seen : Text) {rest : Text} {gaps : List Nat}
    {passed' count' : Nat} (hcount : count = (seen ++ below c.val rest).length)
    (hwritten : gapsOf c passed count rest = (gaps, passed', count'))
    (hbehind : Behind (count + 1) codePoint slot passed c.val seen.length) :
    count' = (seen ++ below (c.val + 1) rest).length ∧
      ∃ codePoint' slot', Behind (count' + 1) codePoint' slot' passed' c.val count' ∧
        ∀ later, insertGaps? (seen ++ below c.val rest) codePoint slot (gaps ++ later) =
          insertGaps? (seen ++ below (c.val + 1) rest) codePoint' slot' later := by
  induction rest generalizing codePoint slot passed count seen gaps with
  | nil =>
    cases hwritten
    have hseen : count' = seen.length := by rw [hcount, below, List.filter_nil, List.append_nil]
    rw [← hseen] at hbehind
    exact ⟨hcount, codePoint, slot, hbehind, fun later => rfl⟩
  | cons x rest ih =>
    rw [gapsOf] at hwritten
    split at hwritten
    · next hlt =>
      -- The character is there already, and the slot after it is passed.
      rw [below_cons_of_lt hlt, List.append_cons] at hcount ⊢
      rw [below_cons_of_lt (Nat.lt_succ_of_lt hlt), List.append_cons]
      exact ih _ hcount hwritten (by simpa using hbehind.pass 1)
    · next hle =>
      split at hwritten
      · next heq =>
        -- The reader inserts it and stands right after it, where the writer starts to count again.
        subst heq
        rw [below_cons_of_le (Nat.le_refl _)] at hcount ⊢
        rw [below_cons_of_lt (Nat.lt_succ_self _), List.append_cons]
        cases hwritten
        have hlength : count + 1 = (seen ++ [x] ++ below x.val rest).length := by
          rw [hcount]
          simp only [List.length_append, List.length_singleton]
          omega
        have hnext := Behind.refl (count + 1 + 1) x.val (seen ++ [x]).length
        obtain ⟨hcount', codePoint', slot', hbehind', hsame⟩ := ih _ hlength rfl hnext
        refine ⟨hcount', codePoint', slot', hbehind', fun later => ?_⟩
        rw [hcount] at hbehind
        rw [List.cons_append, insertGaps?_cons hbehind]
        exact hsame later
      · next hne =>
        -- The character is inserted later, so that it has no slot yet.
        have hgt : c.val < x.val := Nat.lt_of_le_of_ne (Nat.not_lt.1 hle) fun h => hne (Fin.ext h.symm)
        rw [below_cons_of_le hgt.le] at hcount ⊢
        rw [below_cons_of_le hgt]
        exact ih _ hcount hwritten hbehind

/-- The gaps of ascending code points insert all characters of a text from the first of them on. -/
lemma insertGaps?_gapsOfAll {text : Text} {codePoints : List CodePoint} {next : Nat}
    (hsorted : codePoints.Pairwise (·.val < ·.val)) (hnext : ∀ c ∈ codePoints, next ≤ c.val)
    (hall : ∀ x ∈ text, next ≤ x.val → x ∈ codePoints)
    (hcount : count = (below next text).length)
    (hbehind : Behind (count + 1) codePoint slot passed next 0) :
    insertGaps? (below next text) codePoint slot (gapsOfAll text next passed count codePoints) =
      some text := by
  induction codePoints generalizing next codePoint slot passed count with
  | nil =>
    have htext : below next text = text :=
      below_eq_self fun x hx => Nat.not_le.1 fun hle => List.not_mem_nil (hall x hx hle)
    rw [htext]
    rfl
  | cons c codePoints ih =>
    obtain ⟨hleast, hsorted⟩ := List.pairwise_cons.1 hsorted
    have hle : next ≤ c.val := hnext c List.mem_cons_self
    -- No character of the text is between two of the code points.
    have hbetween : below next text = below c.val text := by
      refine below_congr fun x hx => ⟨fun hlt => hlt.trans_le hle, fun hlt => ?_⟩
      refine Nat.not_le.1 fun hge => ?_
      obtain rfl | hmem := List.mem_cons.1 (hall x hx hge)
      · exact Nat.lt_irrefl _ hlt
      · exact Nat.lt_asymm hlt (hleast x hmem)
    rw [hbetween] at hcount ⊢
    rcases hwritten : gapsOf c (passed + (c.val - next) * (count + 1)) count text
      with ⟨gaps, passed', count'⟩
    obtain ⟨hcount', codePoint', slot', hbehind', hsame⟩ :=
      insertGaps?_gapsOf [] hcount hwritten (hbehind.climb hle)
    simp only [gapsOfAll, hwritten]
    refine (hsame _).trans (ih hsorted hleast (fun x hx hge => ?_) hcount' (hbehind'.pass 1).next)
    exact (List.mem_cons.1 (hall x hx (hle.trans (Nat.le_of_lt hge)))).resolve_left
      fun heq => Nat.lt_irrefl _ (heq ▸ hge)

end Writing

section Inserted

lemma mem_insertAscending {c x : CodePoint} {codePoints : List CodePoint} :
    x ∈ insertAscending c codePoints ↔ x = c ∨ x ∈ codePoints := by
  induction codePoints with
  | nil => simp [insertAscending]
  | cons y codePoints ih =>
    rw [insertAscending]
    split
    · exact List.mem_cons
    · split
      · next heq =>
        subst heq
        simp
      · rw [List.mem_cons, ih, List.mem_cons, or_left_comm]

lemma pairwise_insertAscending {c : CodePoint} {codePoints : List CodePoint}
    (h : codePoints.Pairwise (·.val < ·.val)) :
    (insertAscending c codePoints).Pairwise (·.val < ·.val) := by
  induction codePoints with
  | nil => exact List.pairwise_singleton _ _
  | cons x codePoints ih =>
    obtain ⟨hleast, hsorted⟩ := List.pairwise_cons.1 h
    rw [insertAscending]
    split
    · next hlt =>
      refine List.pairwise_cons.2 ⟨fun y hy => ?_, h⟩
      obtain rfl | hy := List.mem_cons.1 hy
      · exact hlt
      · exact hlt.trans (hleast y hy)
    · next hge =>
      split
      · exact h
      · next hne =>
        refine List.pairwise_cons.2 ⟨fun y hy => ?_, ih hsorted⟩
        obtain rfl | hy := mem_insertAscending.1 hy
        · exact Nat.lt_of_le_of_ne (Nat.not_lt.1 hge) fun heq => hne (Fin.ext heq.symm)
        · exact hleast y hy

lemma mem_foldr_insertAscending {c : CodePoint} {codePoints : List CodePoint} :
    c ∈ codePoints.foldr insertAscending [] ↔ c ∈ codePoints := by
  induction codePoints with
  | nil => rfl
  | cons x codePoints ih => rw [List.foldr_cons, mem_insertAscending, ih, List.mem_cons]

lemma mem_inserted {text : Text} {c : CodePoint} :
    c ∈ inserted text ↔ c ∈ text ∧ firstInserted ≤ c.val := by
  rw [inserted, mem_foldr_insertAscending, List.mem_filter, decide_eq_true_iff]

lemma pairwise_inserted (text : Text) : (inserted text).Pairwise (·.val < ·.val) := by
  unfold inserted
  induction text.filter fun c => firstInserted ≤ c.val with
  | nil => exact .nil
  | cons x codePoints ih => exact pairwise_insertAscending ih

/-- The gaps of a text make it from its ASCII characters. -/
theorem insertGaps?_gaps (text : Text) :
    insertGaps? (below firstInserted text) firstInserted 0 (gaps text) = some text :=
  insertGaps?_gapsOfAll (pairwise_inserted text) (fun _ hc => (mem_inserted.1 hc).2)
    (fun _ hx hle => mem_inserted.2 ⟨hx, hle⟩) rfl (Behind.refl _ _ 0)

end Inserted

section Reading

variable {codePoint slot : Nat} {start text : Text} {gaps : List Nat}

lemma insertGaps?_sublist (h : insertGaps? start codePoint slot gaps = some text) :
    start.Sublist text := by
  induction gaps generalizing start codePoint slot with
  | nil =>
    cases h
    exact List.Sublist.refl _
  | cons gap gaps ih =>
    obtain ⟨c, front, back, rfl, -, h⟩ := insertGaps?_cons_found h
    exact ((List.sublist_append_left front [c]).append_right back).trans (ih h)

lemma length_lt_of_insertGaps? {gap : Nat}
    (h : insertGaps? start codePoint slot (gap :: gaps) = some text) : start.length < text.length := by
  obtain ⟨c, front, back, rfl, -, h⟩ := insertGaps?_cons_found h
  have hlength := (insertGaps?_sublist h).length_le
  simp only [List.length_append, List.length_singleton] at hlength ⊢
  omega

/-- From a code point on, insertions leave alone what is below it. -/
lemma below_insertGaps? (h : insertGaps? start codePoint slot gaps = some text) {bound : Nat}
    (hbound : bound ≤ codePoint) : below bound text = below bound start := by
  induction gaps generalizing start codePoint slot with
  | nil =>
    cases h
    rfl
  | cons gap gaps ih =>
    obtain ⟨c, front, back, rfl, hbehind, h⟩ := insertGaps?_cons_found h
    have hle : bound ≤ c.val := hbound.trans hbehind.le
    rw [ih h hle, below_insert hle]

/-- Between insertions, the characters in front of the slot are not beyond the code point, and those
after it are below it. -/
structure Ready (codePoint : Nat) (front back : Text) : Prop where
  front_le : ∀ c ∈ front, c.val ≤ codePoint
  back_lt : ∀ c ∈ back, c.val < codePoint

section Ready

variable {front back front' back' : Text} {gap : Nat} {c : CodePoint}

/-- What is inserted at the same code point is inserted after the slot. -/
lemma front_isPrefix (htext : front ++ back = front' ++ back')
    (hbehind : Behind ((front ++ back).length + 1) c.val front.length gap c.val front'.length) :
    front <+: front' := by
  have hle : front.length ≤ front'.length := by
    have hcount := hbehind.count
    rw [Nat.sub_self, Nat.zero_mul, Nat.zero_add] at hcount
    exact hcount ▸ Nat.le_add_right _ _
  exact List.prefix_of_prefix_length_le (htext ▸ List.prefix_append front back)
    (List.prefix_append front' back') hle

/-- A character is inserted at a later code point or after the slot, so that all that comes after it
is below it. -/
lemma Ready.insert (hready : Ready codePoint front back) (htext : front ++ back = front' ++ back')
    (hbehind : Behind ((front ++ back).length + 1) codePoint front.length gap c.val front'.length) :
    Ready c.val (front' ++ [c]) back' := by
  have hchars : (∀ x ∈ front', x.val ≤ c.val) ∧ ∀ x ∈ back', x.val < c.val := by
    obtain hlt | rfl := Nat.lt_or_eq_of_le hbehind.le
    -- At a later code point all characters are smaller, and at the same one those after the slot are.
    · have hall : ∀ x ∈ front' ++ back', x.val < c.val := by
        rw [← htext, List.forall_mem_append]
        exact ⟨fun x hx => (hready.front_le x hx).trans_lt hlt,
          fun x hx => (hready.back_lt x hx).trans hlt⟩
      rw [List.forall_mem_append] at hall
      exact ⟨fun x hx => (hall.1 x hx).le, hall.2⟩
    · obtain ⟨middle, rfl⟩ := front_isPrefix htext hbehind
      rw [List.append_assoc] at htext
      obtain rfl := List.append_cancel_left htext
      have hback := List.forall_mem_append.1 hready.back_lt
      rw [List.forall_mem_append]
      exact ⟨⟨hready.front_le, fun x hx => (hback.1 x hx).le⟩, hback.2⟩
  refine ⟨?_, hchars.2⟩
  rw [List.forall_mem_append]
  exact ⟨hchars.1, fun x hx => (List.mem_singleton.1 hx ▸ Nat.le_refl _)⟩

lemma Ready.below_eq (hready : Ready codePoint front back) :
    below (codePoint + 1) (front ++ back) = front ++ back := by
  refine below_eq_self (List.forall_mem_append.2 ⟨fun x hx => ?_, fun x hx => ?_⟩)
  · exact Nat.lt_succ_of_le (hready.front_le x hx)
  · exact Nat.lt_succ_of_lt (hready.back_lt x hx)

lemma Ready.front_kept (hready : Ready codePoint front back)
    (h : insertGaps? (front ++ back) codePoint front.length gaps = some text) :
    front <+: below (codePoint + 1) text := by
  induction gaps generalizing front back codePoint with
  | nil =>
    cases h
    rw [hready.below_eq]
    exact List.prefix_append _ _
  | cons gap gaps ih =>
    obtain ⟨c, front', back', htext, hbehind, hrest⟩ := insertGaps?_cons_found h
    obtain hlt | rfl := Nat.lt_or_eq_of_le hbehind.le
    · rw [below_insertGaps? hrest hlt, below_insert hlt, ← htext, hready.below_eq]
      exact List.prefix_append _ _
    · have hkept := ih (hready.insert htext hbehind) hrest
      exact (front_isPrefix htext hbehind).trans ((List.prefix_append front' [c]).trans hkept)

variable {c' : CodePoint} {gaps' : List Nat}

/-- Of two insertions in one text that lead to the same text, neither is at an earlier code point: the
later one would leave no room for it. -/
lemma not_lt_of_insertGaps? (htext : front ++ back = front' ++ back')
    (h : insertGaps? (front ++ [c] ++ back) c.val (front ++ [c]).length gaps = some text)
    (h' : insertGaps? (front' ++ [c'] ++ back') c'.val (front' ++ [c']).length gaps' = some text) :
    ¬c.val < c'.val := by
  intro hlt
  have hsame : below c'.val text = below c'.val (front ++ back) := by
    rw [below_insertGaps? h' (Nat.le_refl _), below_insert (Nat.le_refl _), htext]
  have hkept : below c'.val (front ++ [c] ++ back) =
      below c'.val front ++ [c] ++ below c'.val back := by
    rw [below_append, below_append, below_cons_of_lt hlt]
    rfl
  have hlength := ((insertGaps?_sublist h).filter fun x => decide (x.val < c'.val)).length_le
  change (below c'.val _).length ≤ (below c'.val text).length at hlength
  rw [hsame, hkept, below_append] at hlength
  simp only [List.length_append, List.length_singleton] at hlength
  omega

/-- Of two insertions of one character in one text that lead to the same text, neither is further in
front: a smaller character would have to stand at its place. -/
lemma not_length_lt_of_insertGaps? (htext : front ++ back = front' ++ back')
    (hready : Ready c.val (front ++ [c]) back) (hready' : Ready c.val (front' ++ [c]) back')
    (h : insertGaps? (front ++ [c] ++ back) c.val (front ++ [c]).length gaps = some text)
    (h' : insertGaps? (front' ++ [c] ++ back') c.val (front' ++ [c]).length gaps' = some text) :
    ¬front.length < front'.length := by
  intro hlt
  obtain ⟨middle, rfl⟩ : front <+: front' :=
    List.prefix_of_prefix_length_le (htext ▸ List.prefix_append front back)
      (List.prefix_append front' back') hlt.le
  rw [List.append_assoc] at htext
  obtain rfl := List.append_cancel_left htext
  cases middle with
  | nil => exact absurd hlt (by simp)
  | cons x middle =>
    have hsmaller : x.val < c.val := hready.back_lt x List.mem_cons_self
    have hstands : front ++ [c] <+: front ++ x :: middle ++ [c] :=
      List.prefix_of_prefix_length_le (hready.front_kept h) (hready'.front_kept h') (by simp)
    rw [List.append_assoc, List.prefix_append_right_inj, List.cons_append,
      List.cons_prefix_cons] at hstands
    exact Nat.lt_irrefl _ (hstands.1 ▸ hsmaller)

/-- Two lists of gaps that lead from one text to the same text are the same. -/
theorem insertGaps?_injective (hready : Ready codePoint front back)
    (h : insertGaps? (front ++ back) codePoint front.length gaps = some text)
    (h' : insertGaps? (front ++ back) codePoint front.length gaps' = some text) : gaps = gaps' := by
  induction gaps generalizing codePoint front back gaps' with
  | nil =>
    cases gaps' with
    | nil => rfl
    | cons gap' gaps' =>
      cases h
      exact absurd (length_lt_of_insertGaps? h') (Nat.lt_irrefl _)
  | cons gap gaps ih =>
    cases gaps' with
    | nil =>
      cases h'
      exact absurd (length_lt_of_insertGaps? h) (Nat.lt_irrefl _)
    | cons gap' gaps' =>
      obtain ⟨c, front₁, back₁, htext, hbehind, hrest⟩ := insertGaps?_cons_found h
      obtain ⟨c', front₂, back₂, htext', hbehind', hrest'⟩ := insertGaps?_cons_found h'
      have hready₁ := hready.insert htext hbehind
      have hready₂ := hready.insert htext' hbehind'
      have hsame := htext.symm.trans htext'
      obtain rfl : c = c' := Fin.ext <| Nat.le_antisymm
        (Nat.not_lt.1 (not_lt_of_insertGaps? hsame.symm hrest' hrest))
        (Nat.not_lt.1 (not_lt_of_insertGaps? hsame hrest hrest'))
      have hlength : front₁.length = front₂.length := Nat.le_antisymm
        (Nat.not_lt.1 (not_length_lt_of_insertGaps? hsame.symm hready₂ hready₁ hrest' hrest))
        (Nat.not_lt.1 (not_length_lt_of_insertGaps? hsame hready₁ hready₂ hrest hrest'))
      obtain ⟨rfl, rfl⟩ := List.append_inj hsame hlength
      have hgap : gap = gap' := Nat.add_left_cancel (hbehind.count.trans hbehind'.count.symm)
      rw [hgap, ih hready₁ hrest hrest']

end Ready

end Reading

end SwiftMangling.Punycode
