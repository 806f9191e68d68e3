import Mathlib.Data.List.Lex
import Mathlib.Data.List.Sort
import SwiftMangling.Text.Basic

/-!
# Words of a text, and texts in order

Splitting a text at a separator loses nothing, and sorting texts forgets the order they came in.
-/

namespace SwiftMangling.Text

theorem splitOn_cons_self (separator : CodePoint) (t : Text) :
    splitOn separator (separator :: t) = [] :: splitOn separator t := by
  rcases hparts : splitOn separator t with - | ⟨part, parts⟩
  · exact absurd hparts (splitOn_ne_nil separator t)
  · simp [splitOn, hparts]

theorem splitOn_cons_of_ne {separator c : CodePoint} (hc : c ≠ separator) (t : Text) :
    ∃ part parts, splitOn separator t = part :: parts ∧
      splitOn separator (c :: t) = (c :: part) :: parts := by
  rcases hparts : splitOn separator t with - | ⟨part, parts⟩
  · exact absurd hparts (splitOn_ne_nil separator t)
  · exact ⟨part, parts, rfl, by simp [splitOn, hparts, hc]⟩

theorem join_cons_of_ne_nil (separator part : Text) {parts : List Text} (h : parts ≠ []) :
    join separator (part :: parts) = part ++ separator ++ join separator parts := by
  cases parts with
  | nil => exact absurd rfl h
  | cons next parts => simp [join]

/-- The parts of a text, joined again, are the text. -/
theorem join_splitOn (separator : CodePoint) (t : Text) :
    join [separator] (splitOn separator t) = t := by
  induction t with
  | nil => rfl
  | cons c cs ih =>
    by_cases hc : c = separator
    · subst hc
      rw [splitOn_cons_self, join_cons_of_ne_nil _ _ (splitOn_ne_nil c cs), ih]
      rfl
    · obtain ⟨part, parts, hparts, hcons⟩ := splitOn_cons_of_ne hc cs
      rw [hparts] at ih
      rw [hcons, ← ih]
      cases parts <;> simp [join]

theorem splitOn_of_notMem {separator : CodePoint} {t : Text} (h : separator ∉ t) :
    splitOn separator t = [t] := by
  induction t with
  | nil => rfl
  | cons c cs ih =>
    obtain ⟨hc, hcs⟩ := List.ne_and_not_mem_of_not_mem_cons h
    simp [splitOn, ih hcs, Ne.symm hc]

theorem splitOn_append_cons {separator : CodePoint} {part : Text} (h : separator ∉ part) (t : Text) :
    splitOn separator (part ++ separator :: t) = part :: splitOn separator t := by
  induction part with
  | nil => exact splitOn_cons_self separator t
  | cons c cs ih =>
    obtain ⟨hc, hcs⟩ := List.ne_and_not_mem_of_not_mem_cons h
    simp [splitOn, ih hcs, Ne.symm hc]

/-- Parts that are joined are found again, unless there was none. -/
theorem splitOn_join {separator : CodePoint} {parts : List Text} (hsome : parts ≠ [])
    (hparts : ∀ part ∈ parts, separator ∉ part) : splitOn separator (join [separator] parts) = parts := by
  induction parts with
  | nil => exact absurd rfl hsome
  | cons part parts ih =>
    obtain ⟨hpart, hrest⟩ := List.forall_mem_cons.1 hparts
    by_cases hlast : parts = []
    · subst hlast
      simpa [join] using splitOn_of_notMem hpart
    · rw [join_cons_of_ne_nil _ _ hlast, List.append_assoc, List.singleton_append,
        splitOn_append_cons hpart, ih hlast hrest]

/-- The parts of a text have its characters, without the separator. -/
lemma mem_of_mem_splitOn {separator c : CodePoint} {t part : Text} (hpart : part ∈ splitOn separator t)
    (hc : c ∈ part) : c ∈ t ∧ c ≠ separator := by
  induction t generalizing part with
  | nil =>
    rw [splitOn, List.mem_singleton] at hpart
    rw [hpart] at hc
    cases hc
  | cons d cs ih =>
    by_cases hd : d = separator
    · subst hd
      rw [splitOn_cons_self] at hpart
      rcases List.mem_cons.1 hpart with rfl | hpart
      · cases hc
      · obtain ⟨hmem, hne⟩ := ih hpart hc
        exact ⟨List.mem_cons_of_mem d hmem, hne⟩
    · obtain ⟨first, parts, hparts, hcons⟩ := splitOn_cons_of_ne hd cs
      rw [hparts] at ih
      rw [hcons] at hpart
      rcases List.mem_cons.1 hpart with rfl | hpart
      · rcases List.mem_cons.1 hc with rfl | hc
        · exact ⟨List.mem_cons_self, hd⟩
        · obtain ⟨hmem, hne⟩ := ih List.mem_cons_self hc
          exact ⟨List.mem_cons_of_mem d hmem, hne⟩
      · obtain ⟨hmem, hne⟩ := ih (List.mem_cons_of_mem first hpart) hc
        exact ⟨List.mem_cons_of_mem d hmem, hne⟩

lemma forall_mem_join {P : CodePoint → Prop} {separator : Text} {parts : List Text}
    (hseparator : ∀ c ∈ separator, P c) (hparts : ∀ part ∈ parts, ∀ c ∈ part, P c) :
    ∀ c ∈ join separator parts, P c := by
  induction parts with
  | nil => exact List.forall_mem_nil _
  | cons part parts ih =>
    obtain ⟨hpart, hrest⟩ := List.forall_mem_cons.1 hparts
    by_cases hlast : parts = []
    · subst hlast
      simpa [join] using hpart
    · rw [join_cons_of_ne_nil _ _ hlast]
      exact List.forall_mem_append.2 ⟨List.forall_mem_append.2 ⟨hpart, hseparator⟩, ih hrest⟩

theorem splitOn_injective (separator : CodePoint) : Function.Injective (splitOn separator) :=
  Function.LeftInverse.injective (join_splitOn separator)

/-- The order of texts is the lexicographic one. -/
theorem le_iff (s t : Text) : le s t = true ↔ s ≤ t := by
  induction s generalizing t with
  | nil =>
    have hnil : ¬t < [] := List.not_lt_nil t
    simpa only [le, true_iff] using not_lt.1 hnil
  | cons a as ih =>
    cases t with
    | nil =>
      have hnil : ([] : Text) < a :: as := List.nil_lt_cons a as
      simpa only [le, Bool.false_eq_true, false_iff, not_le] using hnil
    | cons b bs =>
      rw [← not_lt, List.cons_lt_cons_iff]
      simp only [le, Bool.or_eq_true, decide_eq_true_eq, Bool.and_eq_true, ih, ← Fin.lt_def,
        ← not_lt]
      grind

theorem sorted_eq_insertionSort (texts : List Text) :
    sorted texts = texts.insertionSort (· ≤ ·) := by
  have hinsert : ∀ t us, insertSorted t us = us.orderedInsert (· ≤ ·) t := by
    intro t us
    induction us with
    | nil => rfl
    | cons u us ih => simp only [insertSorted, List.orderedInsert, le_iff, ih]
  induction texts with
  | nil => rfl
  | cons t us ih =>
    rw [List.insertionSort_cons, ← ih, ← hinsert]
    rfl

theorem sorted_perm {texts texts' : List Text} (h : texts.Perm texts') :
    sorted texts = sorted texts' := by
  rw [sorted_eq_insertionSort, sorted_eq_insertionSort]
  apply List.Perm.eq_of_sortedLE List.sortedLE_insertionSort List.sortedLE_insertionSort
  exact ((List.perm_insertionSort _ _).trans h).trans (List.perm_insertionSort _ _).symm

end SwiftMangling.Text
