import SwiftMangling.Grammar.Generic
import Mathlib.Data.List.TakeWhile
import Mathlib.Tactic.Common

/-!
# Parsers that the bytes they take settle

What a parser finds may depend on the bytes that it takes and on a few bytes after them, but not on
what follows these. Such a parser is steady. When a steady parser is followed by one that takes at
least as many bytes as the first one looks ahead, the two together do not look ahead at all. This
file has the parsers that look at the state and what is put together from steady parsers.
-/

namespace SwiftMangling.Grammar

variable {α β : Type}

/-- Two continuations begin with the same bytes, which are at least so many. -/
def Alike (count : Nat) (rest other : Bytes) : Prop :=
  ∃ common : Bytes, count ≤ common.length ∧ common <+: rest ∧ common <+: other

/-- Other bytes can stand where some are left. Either they begin in the same way, or they are a part
of what is left that is not empty. Under a condition that fails they have to be a part in any case. -/
def Replaces (condition : Prop) (count : Nat) (rest other : Bytes) : Prop :=
  Alike count rest other ∧ (condition ∨ other <+: rest) ∨ other <+: rest ∧ other ≠ []

/-- A parser takes at least so many bytes for a value, looks so many bytes further, and comes to the
same where others replace the bytes that are left. A refusal is kept where less is left, unless
nothing is. -/
structure Steady (condition : α → Prop) (least ahead : α → Nat) (p : Parser α) : Prop where
  found : ∀ {limit : Int} {bytes rest : Bytes} {table table' : References Node} {value : α},
    p limit ⟨bytes, table⟩ = .found value ⟨rest, table'⟩ →
    ∃ taken, bytes = taken ++ rest ∧ least value ≤ taken.length ∧
      ∀ other, Replaces (condition value) (ahead value) rest other →
        p limit ⟨taken ++ other, table⟩ = .found value ⟨other, table'⟩
  refused : ∀ {limit : Int} {bytes rest : Bytes} {table table' : References Node},
    p limit ⟨bytes, table⟩ = .refused ⟨rest, table'⟩ →
    ∃ taken, bytes = taken ++ rest ∧ ∀ other, other <+: rest → other ≠ [] →
      p limit ⟨taken ++ other, table⟩ = .refused ⟨other, table'⟩

/-- A steady parser whose numbers are the same for every value. -/
abbrev Settles (least ahead : Nat) (p : Parser α) : Prop :=
  Steady (fun _ => True) (fun _ => least) (fun _ => ahead) p

section Continuations

lemma alike_zero (rest other : Bytes) : Alike 0 rest other :=
  ⟨[], Nat.le_refl 0, List.nil_prefix, List.nil_prefix⟩

lemma Alike.append {count count' : Nat} {rest other : Bytes} (h : Alike count rest other)
    (taken : Bytes) (hcount : count' ≤ count + taken.length) :
    Alike count' (taken ++ rest) (taken ++ other) := by
  obtain ⟨common, hlength, hrest, hother⟩ := h
  refine ⟨taken ++ common, ?_, (List.prefix_append_right_inj taken).2 hrest,
    (List.prefix_append_right_inj taken).2 hother⟩
  rw [List.length_append]
  omega

/-- Whatever replaces the end of some bytes replaces the bytes as a whole when put after the same
front, even for a parser that looks further ahead by the length of that front. -/
lemma Replaces.append {condition condition' : Prop} {count count' : Nat} {rest other : Bytes}
    (h : Replaces condition count rest other) (taken : Bytes)
    (hcondition : condition → condition') (hcount : count' ≤ count + taken.length) :
    Replaces condition' count' (taken ++ rest) (taken ++ other) := by
  obtain ⟨hfront, hkept⟩ | ⟨hpart, hne⟩ := h
  · refine .inl ⟨hfront.append taken hcount, ?_⟩
    obtain hcond | hpart := hkept
    · exact .inl (hcondition hcond)
    · exact .inr ((List.prefix_append_right_inj taken).2 hpart)
  · exact .inr ⟨(List.prefix_append_right_inj taken).2 hpart, by simp [hne]⟩

lemma replaces_of_part {condition : Prop} {count : Nat} {rest other : Bytes}
    (hpart : other <+: rest) (hne : other ≠ []) (taken : Bytes) :
    Replaces condition count (taken ++ rest) (taken ++ other) :=
  .inr ⟨(List.prefix_append_right_inj taken).2 hpart, by simp [hne]⟩

/-- What replaces bytes for a parser that looks ahead begins as they do. -/
lemma Replaces.head {condition : Prop} {count : Nat} {rest other : Bytes}
    (h : Replaces condition count rest other) (hcount : 1 ≤ count) :
    ∃ b rest' other', rest = b :: rest' ∧ other = b :: other' := by
  have hcommon : ∃ common : Bytes, 1 ≤ common.length ∧ common <+: rest ∧ common <+: other := by
    obtain ⟨⟨common, hlength, hrest, hother⟩, -⟩ | ⟨hpart, hne⟩ := h
    · exact ⟨common, by omega, hrest, hother⟩
    · exact ⟨other, List.length_pos_iff.2 hne, hpart, List.prefix_rfl⟩
  obtain ⟨common, hlength, ⟨rest', rfl⟩, ⟨other', rfl⟩⟩ := hcommon
  cases common with
  | nil => simp at hlength
  | cons b common => exact ⟨b, _, _, rfl, rfl⟩

/-- A part that is not empty begins as the whole does. -/
lemma head_of_part {rest other : Bytes} (hpart : other <+: rest) (hne : other ≠ []) :
    ∃ b rest' other', rest = b :: rest' ∧ other = b :: other' := by
  have h : Replaces True 1 rest other := .inr ⟨hpart, hne⟩
  exact h.head (Nat.le_refl 1)

end Continuations

namespace Steady

variable {condition : α → Prop} {least ahead : α → Nat} {p : Parser α}

/-- Less may be said of a steady parser. -/
lemma weaken {condition' : α → Prop} {least' ahead' : α → Nat}
    (h : Steady condition least ahead p) (hcondition : ∀ value, condition' value → condition value)
    (hleast : ∀ value, least' value ≤ least value) (hahead : ∀ value, ahead value ≤ ahead' value) :
    Steady condition' least' ahead' p where
  found hfound := by
    obtain ⟨taken, rfl, hlength, hsame⟩ := h.found hfound
    refine ⟨taken, rfl, (hleast _).trans hlength, fun other hother => hsame other ?_⟩
    exact hother.append [] (hcondition _) ((hahead _).trans (Nat.le_add_right _ _))
  refused := h.refused

/-- A steady parser leaves fewer bytes by those that it takes for a value. -/
lemma shorter (hp : Steady condition least ahead p) {limit : Int} {s s' : State} {value : α}
    (h : p limit s = .found value s') : s'.unread.length + least value ≤ s.unread.length := by
  obtain ⟨taken, htaken, hleast, -⟩ := hp.found h
  have hlength := congrArg List.length htaken
  rw [List.length_append] at hlength
  omega

/-- What is left is the end of what there was. -/
lemma suffix (hp : Steady condition least ahead p) {limit : Int} {bytes rest : Bytes}
    {table table' : References Node} {value : α}
    (h : p limit ⟨bytes, table⟩ = .found value ⟨rest, table'⟩) : rest <:+ bytes := by
  obtain ⟨taken, htaken, -⟩ := hp.found h
  exact ⟨taken, htaken.symm⟩

/-- A steady parser finds the same where more bytes follow, if enough are left. -/
lemma longer (hp : Steady condition least ahead p) {limit : Int} {bytes rest : Bytes}
    {table table' : References Node} {value : α}
    (h : p limit ⟨bytes, table⟩ = .found value ⟨rest, table'⟩) (hcondition : condition value)
    (hahead : ahead value ≤ rest.length) (more : Bytes) :
    p limit ⟨bytes ++ more, table⟩ = .found value ⟨rest ++ more, table'⟩ := by
  obtain ⟨taken, rfl, -, hsame⟩ := hp.found h
  have halike : Alike (ahead value) rest (rest ++ more) :=
    ⟨rest, hahead, List.prefix_rfl, List.prefix_append ..⟩
  rw [List.append_assoc]
  exact hsame _ (.inl ⟨halike, .inl hcondition⟩)

/-- Two steady parsers in sequence. The second takes as many bytes as the first looks ahead, and the
value of both together says whether the condition on the first one holds. -/
lemma bind {f : α → Parser β} {condition' : β → Prop} {least₂ ahead₂ : α → β → Nat}
    {least' ahead' : β → Nat} (hp : Steady condition least ahead p)
    (hf : ∀ value, Steady condition' (least₂ value) (ahead₂ value) (f value))
    (hjoin : ∀ value limit s result s', f value limit s = .found result s' →
      (condition' result → condition value) ∧ least' result ≤ least value + least₂ value result ∧
        ahead value ≤ ahead₂ value result + least₂ value result ∧
        ahead₂ value result ≤ ahead' result) :
    Steady condition' least' ahead' (p >>= f) where
  found {limit bytes rest table table' result} hfound := by
    obtain ⟨value, s, hfirst, hsecond⟩ := Parser.bind_found hfound
    obtain ⟨taken, rfl, hlength, hsame⟩ := hp.found hfirst
    obtain ⟨taken₂, hunread, hlength₂, hsame₂⟩ := (hf value).found hsecond
    obtain ⟨hcondition, hleast, hahead, hahead'⟩ := hjoin value limit s result _ hsecond
    rw [hunread] at hsame ⊢
    refine ⟨taken ++ taken₂, (List.append_assoc ..).symm, ?_, fun other hother => ?_⟩
    · rw [List.length_append]
      omega
    · have hmiddle : Replaces (condition value) (ahead value) (taken₂ ++ rest) (taken₂ ++ other) :=
        hother.append taken₂ hcondition (by omega)
      rw [Parser.bind_apply, List.append_assoc, hsame _ hmiddle]
      exact hsame₂ other (hother.append [] id (hahead'.trans (Nat.le_add_right _ _)))
  refused {limit bytes rest table table'} hrefused := by
    obtain hfirst | ⟨value, s, hfirst, hsecond⟩ := Parser.bind_refused hrefused
    · obtain ⟨taken, rfl, hsame⟩ := hp.refused hfirst
      refine ⟨taken, rfl, fun other hpart hne => ?_⟩
      rw [Parser.bind_apply, hsame other hpart hne]
    · obtain ⟨taken, rfl, -, hsame⟩ := hp.found hfirst
      obtain ⟨taken₂, hunread, hsame₂⟩ := (hf value).refused hsecond
      rw [hunread] at hsame ⊢
      refine ⟨taken ++ taken₂, (List.append_assoc ..).symm, fun other hpart hne => ?_⟩
      rw [Parser.bind_apply, List.append_assoc, hsame _ (replaces_of_part hpart hne taken₂)]
      exact hsame₂ other hpart hne

end Steady

section Loops

/-- A number for each way in which a round can end. -/
def perRound (again done : Nat) : Round α β → Nat
  | .again _ => again
  | .done _ => done

variable {step : α → Parser (Round α β)}

/-- What every round keeps of its value is kept in the result of the loop. -/
lemma rounds_kept {kept : α → β → Prop}
    (hdone : ∀ value limit s result s', step value limit s = .found (.done result) s' →
      kept value result)
    (hagain : ∀ value limit s value' s', step value limit s = .found (.again value') s' →
      ∀ result, kept value' result → kept value result)
    {count : Nat} {value : α} {limit : Int} {s s' : State} {result : β}
    (h : rounds step count value limit s = .found result s') : kept value result := by
  induction count generalizing value s with
  | zero => cases h
  | succ count ih =>
    rw [rounds] at h
    obtain ⟨round, s₁, hstep, hrest⟩ := Parser.bind_found h
    cases round with
    | done result =>
      cases hrest
      exact hdone value limit s _ _ hstep
    | again value' => exact hagain value limit s value' s₁ hstep result (ih hrest)

variable {conditionStep : Round α β → Prop} {condition : β → Prop} {kept : α → β → Prop}
  {least ahead aheadAgain : Nat}

/-- The rounds of a loop that ends are as many as it needs: each round that is not the last takes a
byte. So the same rounds are made on other bytes. -/
lemma rounds_found
    (hstep : ∀ value, Steady conditionStep (perRound 1 least) (perRound aheadAgain ahead) (step value))
    (hahead : aheadAgain ≤ ahead + least)
    (hdone : ∀ value limit s result s', step value limit s = .found (.done result) s' →
      kept value result)
    (hagain : ∀ value limit s value' s', step value limit s = .found (.again value') s' →
      ∀ result, kept value' result → kept value result)
    (hlast : ∀ result, condition result → conditionStep (.done result))
    (hcondition : ∀ value limit s value' s', step value limit s = .found (.again value') s' →
      ∀ result, kept value' result → condition result → conditionStep (.again value'))
    {count : Nat} {value : α} {limit : Int} {bytes rest : Bytes} {table table' : References Node}
    {result : β} (h : rounds step count value limit ⟨bytes, table⟩ = .found result ⟨rest, table'⟩) :
    ∃ taken, bytes = taken ++ rest ∧ least ≤ taken.length ∧
      ∀ other, Replaces (condition result) ahead rest other → ∀ count', taken.length < count' →
        rounds step count' value limit ⟨taken ++ other, table⟩ = .found result ⟨other, table'⟩ := by
  induction count generalizing value bytes table with
  | zero => cases h
  | succ count ih =>
    rw [rounds] at h
    obtain ⟨round, s, hround, hrest⟩ := Parser.bind_found h
    obtain ⟨taken, rfl, hlength, hsame⟩ := (hstep value).found hround
    cases round with
    | done result =>
      cases hrest
      refine ⟨taken, rfl, hlength, fun other hother count' hcount => ?_⟩
      obtain ⟨count', rfl⟩ : ∃ c, count' = c + 1 := ⟨count' - 1, by omega⟩
      have hother' : Replaces (conditionStep (.done result)) ahead rest other :=
        hother.append [] (hlast result) (Nat.le_refl _)
      rw [rounds, Parser.bind_apply, hsame other hother']
      rfl
    | again value' =>
      obtain ⟨taken₂, hunread, hlength₂, hsame₂⟩ := ih hrest
      rw [hunread] at hsame ⊢
      refine ⟨taken ++ taken₂, (List.append_assoc ..).symm, ?_, fun other hother count' hcount => ?_⟩
      · rw [List.length_append]
        omega
      · rw [List.length_append] at hcount
        have hfirst : 1 ≤ taken.length := hlength
        obtain ⟨count', rfl⟩ : ∃ c, count' = c + 1 := ⟨count' - 1, by omega⟩
        have hkept := rounds_kept hdone hagain hrest
        have hmiddle : Replaces (conditionStep (.again value')) aheadAgain (taken₂ ++ rest)
            (taken₂ ++ other) :=
          hother.append taken₂ (hcondition value limit _ value' _ hround result hkept) (by omega)
        rw [rounds, Parser.bind_apply, List.append_assoc, hsame _ hmiddle]
        exact hsame₂ other hother count' (by omega)

/-- A loop that has rounds enough refuses on other bytes what it has refused. -/
lemma rounds_refused
    (hstep : ∀ value, Steady conditionStep (perRound 1 least) (perRound aheadAgain ahead) (step value))
    {count : Nat} {value : α} {limit : Int} {bytes rest : Bytes} {table table' : References Node}
    (h : rounds step count value limit ⟨bytes, table⟩ = .refused ⟨rest, table'⟩)
    (hcount : bytes.length < count) :
    ∃ taken, bytes = taken ++ rest ∧ ∀ other, other <+: rest → other ≠ [] → ∀ count',
      (taken ++ other).length < count' →
        rounds step count' value limit ⟨taken ++ other, table⟩ = .refused ⟨other, table'⟩ := by
  induction count generalizing value bytes table with
  | zero => omega
  | succ count ih =>
    rw [rounds] at h
    obtain hround | ⟨round, s, hround, hrest⟩ := Parser.bind_refused h
    · obtain ⟨taken, rfl, hsame⟩ := (hstep value).refused hround
      refine ⟨taken, rfl, fun other hpart hne count' hcount' => ?_⟩
      obtain ⟨count', rfl⟩ : ∃ c, count' = c + 1 := ⟨count' - 1, by omega⟩
      rw [rounds, Parser.bind_apply, hsame other hpart hne]
    · obtain ⟨taken, rfl, hlength, hsame⟩ := (hstep value).found hround
      cases round with
      | done result => cases hrest
      | again value' =>
        have hfirst : 1 ≤ taken.length := hlength
        rw [List.length_append] at hcount
        obtain ⟨taken₂, hunread, hsame₂⟩ := ih hrest (by omega)
        rw [hunread] at hsame ⊢
        refine ⟨taken ++ taken₂, (List.append_assoc ..).symm, fun other hpart hne count' hcount' => ?_⟩
        rw [List.append_assoc, List.length_append] at hcount'
        obtain ⟨count', rfl⟩ : ∃ c, count' = c + 1 := ⟨count' - 1, by omega⟩
        rw [rounds, Parser.bind_apply, List.append_assoc, hsame _ (replaces_of_part hpart hne taken₂)]
        exact hsame₂ other hpart hne count' (by omega)

/-- A loop is steady if each round that is not the last takes a byte. -/
lemma Steady.iterate (conditionStep : Round α β → Prop) (kept : α → β → Prop)
    (hstep : ∀ value, Steady conditionStep (perRound 1 least) (perRound aheadAgain ahead) (step value))
    (hahead : aheadAgain ≤ ahead + least)
    (hdone : ∀ value limit s result s', step value limit s = .found (.done result) s' →
      kept value result)
    (hagain : ∀ value limit s value' s', step value limit s = .found (.again value') s' →
      ∀ result, kept value' result → kept value result)
    (hlast : ∀ result, condition result → conditionStep (.done result))
    (hcondition : ∀ value limit s value' s', step value limit s = .found (.again value') s' →
      ∀ result, kept value' result → condition result → conditionStep (.again value'))
    (value : α) :
    Steady condition (fun _ => least) (fun _ => ahead) (iterate step value) where
  found hfound := by
    obtain ⟨taken, rfl, hlength, hsame⟩ :=
      rounds_found hstep hahead hdone hagain hlast hcondition hfound
    refine ⟨taken, rfl, hlength, fun other hother => hsame other hother _ ?_⟩
    rw [List.length_append]
    omega
  refused hrefused := by
    obtain ⟨taken, rfl, hsame⟩ := rounds_refused hstep hrefused (Nat.lt_succ_self _)
    exact ⟨taken, rfl, fun other hpart hne => hsame other hpart hne _ (Nat.lt_succ_self _)⟩

end Loops

end SwiftMangling.Grammar
