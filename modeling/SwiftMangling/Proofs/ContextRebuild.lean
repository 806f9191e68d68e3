import Mathlib.Algebra.Order.BigOperators.Group.List
import Mathlib.Algebra.Order.Group.Nat
import SwiftMangling.Mangle.Writer
import SwiftMangling.Proofs.EnoughBudget

/-!
# Generic arguments and the nominal type that they are given to

Each level of a nominal type is put together again on its parent, which may have got its arguments. When
the arguments are taken away again, what comes back is the nominal type with each such level cut down to
its parent and its name. This is the nominal type itself unless one of its contexts has more than that,
as a variable has, which has a type besides.
-/

namespace SwiftMangling

open Grammar (isOutermost)

namespace Node

/-- A nominal type without the arguments that it and the contexts around it were given. The way ends at
a context that takes no arguments. -/
def unbind : Node → Node
  | mk kind payload (parent :: name :: others) =>
    if kind ∈ Kind.boundGenerics then parent.unbind
    else if isOutermost parent.kind then mk kind payload (parent :: name :: others)
    else mk kind payload (parent.unbind :: name :: others)
  | mk .type _ [node] => node.unbind
  | node => node

/-- A nominal type of which each level that is put together on its parent keeps no more than the parent
and a name. -/
def trim : Node → Node
  | mk kind payload (parent :: name :: others) =>
    if isOutermost parent.kind then mk kind payload (parent :: name :: others)
    else branch kind [parent.trim, name]
  | node => node

/-- Each level that is put together on its parent has a parent and a name and nothing else. -/
def isPaired : Node → Bool
  | mk _ payload (parent :: _ :: others) =>
    isOutermost parent.kind || (payload = .empty && others.isEmpty && parent.isPaired)
  | _ => true

/-- The lists of arguments that belong to a nominal type: one for each level. -/
def lists : Node → Nat
  | mk _ _ (parent :: _) => if isOutermost parent.kind then 1 else parent.lists + 1
  | _ => 1

section Levels

variable {kind : Kind} {payload : Payload} {parent name : Node} {others : List Node}

lemma unbind_pair (hkind : kind ∉ Kind.boundGenerics) :
    (mk kind payload (parent :: name :: others)).unbind =
      if isOutermost parent.kind then mk kind payload (parent :: name :: others)
      else mk kind payload (parent.unbind :: name :: others) := by
  rw [unbind, if_neg hkind]

lemma unbind_bound (hkind : kind ∈ Kind.boundGenerics) :
    (mk kind payload (parent :: name :: others)).unbind = parent.unbind := by
  rw [unbind, if_pos hkind]

lemma unbind_outermost (hgeneric : kind ∉ Kind.boundGenerics) (htype : kind ≠ .type)
    (hparent : isOutermost parent.kind = true) :
    (mk kind payload (parent :: others)).unbind = mk kind payload (parent :: others) := by
  cases others with
  | nil =>
    unfold unbind
    split
    · next heq => cases heq
    · next heq =>
      cases heq
      exact absurd rfl htype
    · rfl
  | cons name others =>
    rw [unbind_pair hgeneric, if_pos hparent]

lemma trim_outermost (hparent : isOutermost parent.kind = true) :
    (mk kind payload (parent :: others)).trim = mk kind payload (parent :: others) := by
  cases others with
  | nil => rfl
  | cons name others => rw [trim, if_pos hparent]

lemma trim_inner (hparent : isOutermost parent.kind = false) :
    (mk kind payload (parent :: name :: others)).trim = branch kind [parent.trim, name] := by
  rw [trim, if_neg (ne_true_of_eq_false hparent)]

lemma lists_outermost (hparent : isOutermost parent.kind = true) :
    (mk kind payload (parent :: others)).lists = 1 := by
  rw [lists, if_pos hparent]

lemma lists_inner (hparent : isOutermost parent.kind = false) :
    (mk kind payload (parent :: others)).lists = parent.lists + 1 := by
  rw [lists, if_neg (ne_true_of_eq_false hparent)]

end Levels

/-- Nothing is cut off exactly where there is nothing more than parents and names. -/
lemma trim_eq_self_iff (node : Node) : node.trim = node ↔ node.isPaired = true := by
  match node with
  | mk kind payload [] => exact ⟨fun _ => rfl, fun _ => rfl⟩
  | mk kind payload [child] => exact ⟨fun _ => rfl, fun _ => rfl⟩
  | mk kind payload (parent :: name :: others) =>
    cases hparent : isOutermost parent.kind with
    | true =>
      rw [trim_outermost hparent, isPaired, hparent, Bool.true_or]
      exact ⟨fun _ => rfl, fun _ => rfl⟩
    | false =>
      have ih := trim_eq_self_iff parent
      rw [trim_inner hparent, isPaired, hparent, Bool.false_or, Bool.and_eq_true, Bool.and_eq_true,
        decide_eq_true_eq, List.isEmpty_iff, ← ih, branch, mk.injEq]
      constructor
      · rintro ⟨-, hpayload, hchildren⟩
        obtain ⟨htrim, hothers⟩ := List.cons.inj hchildren
        exact ⟨⟨hpayload.symm, (List.cons.inj hothers).2.symm⟩, htrim⟩
      · rintro ⟨⟨rfl, rfl⟩, htrim⟩
        rw [htrim]
        exact ⟨rfl, rfl, rfl⟩

end Node

namespace Grammar

variable {call : Calls} {limit : Int} {s s' : State} {node result : Node}

/-- What is found, if anything is. -/
def Outcome.value? {α : Type} : Outcome α → Option α
  | .found value _ => some value
  | .refused _ => none
  | .stopped _ => none

lemma Outcome.eq_found_of_value? {α : Type} {o : Outcome α} {value : α} (h : o.value? = some value) :
    ∃ s, o = .found value s := by
  cases o with
  | found value' s =>
    cases h
    exact ⟨s, rfl⟩
  | refused s => cases h
  | stopped why => cases h

section Steps

/-- A node stays as it is in an outermost context, and else is put together on its parent. -/
lemma onBoundParent_found (h : onBoundParent call node limit s = .found result s') :
    (∃ kind payload parent others, node = .mk kind payload (parent :: others) ∧
      isOutermost parent.kind = true ∧ result = node ∧ s' = s) ∨
    ∃ kind payload parent name others parent', node = .mk kind payload (parent :: name :: others) ∧
      isOutermost parent.kind = false ∧ call (.boundArguments parent) limit s = .found parent' s' ∧
      result = .branch kind [parent', name] := by
  obtain ⟨kind, payload, children⟩ := node
  match children with
  | [] => cases h
  | [parent] =>
    replace h : (if isOutermost parent.kind then Pure.pure (.mk kind payload [parent])
      else refuse : Parser Node) limit s = .found result s' := h
    cases hparent : isOutermost parent.kind with
    | true =>
      rw [hparent, if_pos rfl] at h
      cases h
      exact .inl ⟨_, _, _, _, rfl, hparent, rfl, rfl⟩
    | false =>
      rw [hparent, if_neg Bool.false_ne_true] at h
      cases h
  | parent :: name :: others =>
    rw [Reads.onBoundParent_pair] at h
    cases hparent : isOutermost parent.kind with
    | true =>
      rw [hparent, if_pos rfl] at h
      cases h
      exact .inl ⟨_, _, _, _, rfl, hparent, rfl, rfl⟩
    | false =>
      rw [hparent, if_neg Bool.false_ne_true] at h
      obtain ⟨parent', s₁, hcall, hbranch⟩ := Parser.bind_found h
      rw [branch_pair] at hbranch
      cases hbranch
      exact .inr ⟨_, _, _, _, _, _, rfl, hparent, hcall, rfl⟩

/-- A node without arguments stays as it is. -/
lemma applyArguments_found {arguments : List Node}
    (h : applyArguments node arguments limit s = .found result s') :
    s' = s ∧ ((arguments = [] ∧ result = node) ∨
      arguments ≠ [] ∧ ∃ kind, boundKind? node.kind = some kind ∧
        result = .branch kind [.branch .type [node], .branch .typeList arguments]) := by
  cases arguments with
  | nil =>
    cases h
    exact ⟨rfl, .inl ⟨rfl, rfl⟩⟩
  | cons argument rest =>
    obtain ⟨kind, s₁, hkind, h⟩ := Parser.bind_found h
    rw [branch_single, pure_bind, branch_map_some, pure_bind, branch_pair] at h
    cases hbound : boundKind? node.kind with
    | none =>
      rw [hbound] at hkind
      cases hkind
    | some bound =>
      rw [hbound] at hkind
      cases hkind
      cases h
      exact ⟨rfl, .inr ⟨List.cons_ne_nil _ _, _, rfl, rfl⟩⟩

/-- The arguments of all levels are those of the parent, then a list, which is applied. -/
lemma boundArgumentsBody_found (h : boundArgumentsBody call node limit s = .found result s') :
    ∃ node' s₁ arguments, onBoundParent call node limit s = .found node' s₁ ∧
      argumentList call limit s₁ = .found arguments s' ∧
      ((arguments = [] ∧ result = node') ∨
        arguments ≠ [] ∧ ∃ kind, boundKind? node'.kind = some kind ∧
          result = .branch kind [.branch .type [node'], .branch .typeList arguments]) := by
  obtain ⟨node', s₁, hparent, h⟩ := Parser.bind_found h
  obtain ⟨arguments, s₂, hlist, h⟩ := Parser.bind_found h
  obtain ⟨rfl, hresult⟩ := applyArguments_found h
  exact ⟨node', s₁, arguments, hparent, hlist, hresult⟩

end Steps

/-- What is given arguments is a node of another kind than these, from which the arguments can be taken
away again. -/
structure Unbinds (node result : Node) : Prop where
  unbound : node.kind ∉ Kind.boundGenerics
  kind : result.kind = node.kind ∨ result.kind ∈ Kind.boundGenerics
  unbind : result.unbind = node.trim

lemma Unbinds.not_outermost (h : Unbinds node result) (hnode : isOutermost node.kind = false) :
    isOutermost result.kind = false := by
  have hgenerics : ∀ kind ∈ Kind.boundGenerics, isOutermost kind = false := by decide
  obtain hkind | hkind := h.kind
  · rwa [hkind]
  · exact hgenerics _ hkind

/-- A level with a list of arguments. -/
lemma Unbinds.bind {node' : Node} {kind : Kind} (h : Unbinds node node')
    (hkind : boundKind? node'.kind = some kind) (arguments : Node) :
    Unbinds node (.branch kind [.branch .type [node'], arguments]) := by
  obtain ⟨-, hgeneric, -⟩ := Reads.boundKind_shapes hkind
  refine ⟨h.unbound, .inr hgeneric, ?_⟩
  rw [Node.branch, Node.unbind_bound hgeneric]
  exact h.unbind

section Bindable

variable {kind : Kind} {payload : Payload} {parent parent' name : Node} {others : List Node}

lemma unbinds_outermost (hgeneric : kind ∉ Kind.boundGenerics) (htype : kind ≠ .type)
    (hparent : isOutermost parent.kind = true) :
    Unbinds (.mk kind payload (parent :: others)) (.mk kind payload (parent :: others)) :=
  ⟨hgeneric, .inl rfl, by
    rw [Node.unbind_outermost hgeneric htype hparent, Node.trim_outermost hparent]⟩

lemma unbinds_inner (hgeneric : kind ∉ Kind.boundGenerics) (hparent : isOutermost parent.kind = false)
    (hbound : Unbinds parent parent') :
    Unbinds (.mk kind payload (parent :: name :: others)) (.branch kind [parent', name]) := by
  refine ⟨hgeneric, .inl rfl, ?_⟩
  rw [Node.branch, Node.unbind_pair hgeneric, hbound.not_outermost hparent,
    if_neg Bool.false_ne_true, hbound.unbind, Node.trim_inner hparent]
  rfl

/-- The parent of a node that can be given arguments can be given arguments itself, unless it is an
outermost context. -/
lemma bindable_parent (h : Made (.isOf Kind.bindable) (.mk kind payload (parent :: name :: others)))
    (hgeneric : kind ∉ Kind.boundGenerics) (hparent : isOutermost parent.kind = false) :
    Made (.isOf Kind.bindable) parent ∧ parent.kind ≠ .type := by
  obtain ⟨hscope, -⟩ := onScope h.kind_mem hgeneric h.wellFormed
  refine ⟨⟨hscope.wellFormed, decide_eq_true (Kind.mem_bindable_of_scope _ hscope.kind_mem ?_ ?_)⟩, ?_⟩
  · rintro heq
    rw [heq] at hparent
    cases hparent
  · rintro heq
    rw [heq] at hparent
    cases hparent
  · have hscopes : ∀ kind ∈ Kind.scopes, kind ≠ .type := by decide +kernel
    exact hscopes _ hscope.kind_mem

end Bindable

/-- A type that stands on a declared type is given no arguments. -/
lemma not_found_of_typeOf {kinds : List Kind} (hnode : Made (.isTypeOf kinds) node)
    (hdeclared : ∀ kind ∈ kinds, kind ∈ Kind.declared) :
    onBoundParent call node limit s ≠ .found result s' := by
  intro h
  have hinner : ∀ kind ∈ Kind.declared, isOutermost kind = false := by decide
  obtain ⟨payload, bare, rfl, hbare⟩ := hnode.typeOf_parts
  obtain ⟨_, _, _, _, heq, houter, -⟩ | ⟨_, _, _, _, _, _, heq, -⟩ := onBoundParent_found h
  · cases heq
    rw [hinner _ (hdeclared _ hbare)] at houter
    cases houter
  · cases heq

/-- What is already given its arguments is not given others. -/
lemma not_found_of_bound {budget : Nat} (hnode : node.WellFormed) (hkind : node.kind ∈ Kind.boundGenerics) :
    onBoundParent (parse budget) node limit s ≠ .found result s' := by
  intro h
  obtain ⟨kind, payload, children⟩ := node
  obtain ⟨unbound, arguments, rfl, ⟨kinds, hdeclared, htype⟩, -⟩ := boundGeneric_parts hkind hnode
  obtain ⟨_, _, _, _, heq, houter, -⟩ | ⟨_, _, _, _, _, _, heq, -, hcall, -⟩ := onBoundParent_found h
  · cases heq
    rw [htype.kind_of_isTypeOf.kind_eq] at houter
    cases houter
  · cases heq
    cases budget with
    | zero => cases hcall
    | succ budget =>
      obtain ⟨_, _, _, hparent, -⟩ := boundArgumentsBody_found hcall
      exact not_found_of_typeOf htype hdeclared hparent

/-- Each level is put together on its parent, so the induction is on the budget, of which the parent
takes a unit. -/
lemma unbinds_boundArguments {budget : Nat} (hnode : Made (.isOf Kind.bindable) node)
    (htype : node.kind ≠ .type) (h : parse budget (.boundArguments node) limit s = .found result s') :
    Unbinds node result := by
  induction budget generalizing node result s s' with
  | zero => cases h
  | succ budget ih =>
    obtain ⟨node', s₁, arguments, hparent, -, hresult⟩ := boundArgumentsBody_found h
    have hgeneric : node.kind ∉ Kind.boundGenerics :=
      fun hkind => not_found_of_bound hnode.wellFormed hkind hparent
    have hlevel : Unbinds node node' := by
      obtain ⟨kind, payload, parent, others, rfl, houter, rfl, rfl⟩ |
        ⟨kind, payload, parent, name, others, parent', rfl, hinner, hcall, rfl⟩ :=
          onBoundParent_found hparent
      · exact unbinds_outermost hgeneric htype houter
      · obtain ⟨hbindable, hplain⟩ := bindable_parent hnode hgeneric hinner
        exact unbinds_inner hgeneric hinner (ih hbindable hplain hcall)
    obtain ⟨-, rfl⟩ | ⟨-, kind, hkind, rfl⟩ := hresult
    · exact hlevel
    · exact hlevel.bind hkind _

/-- The byte that ends a list of arguments. -/
def listEnd : UInt8 := 95

/-- An empty list is its end. -/
lemma argumentList_end (rest : Bytes) (table : References Node) :
    argumentList call limit ⟨listEnd :: rest, table⟩ = .found [] ⟨rest, table⟩ :=
  rfl

/-- Where each list is empty, the nominal type is cut down to parents and names. -/
lemma boundArguments_empty {budget : Nat} {rest : Bytes}
    (hunread : s.unread = List.replicate node.lists listEnd ++ rest)
    (h : parse budget (.boundArguments node) limit s = .found result s') :
    result = node.trim ∧ s' = ⟨rest, s.recorded⟩ := by
  induction budget generalizing node result s s' rest with
  | zero => cases h
  | succ budget ih =>
    obtain ⟨node', s₁, arguments, hparent, hlist, hresult⟩ := boundArgumentsBody_found h
    have hlevel : node' = node.trim ∧ s₁ = ⟨listEnd :: rest, s.recorded⟩ := by
      obtain ⟨kind, payload, parent, others, rfl, houter, rfl, rfl⟩ |
        ⟨kind, payload, parent, name, others, parent', rfl, hinner, hcall, rfl⟩ :=
          onBoundParent_found hparent
      · rw [Node.lists_outermost houter] at hunread
        exact ⟨(Node.trim_outermost houter).symm, congrArg (State.mk · s₁.recorded) hunread⟩
      · rw [Node.lists_inner hinner, List.replicate_succ', List.append_assoc] at hunread
        obtain ⟨rfl, rfl⟩ := ih hunread hcall
        exact ⟨(Node.trim_inner hinner).symm, rfl⟩
    obtain ⟨rfl, rfl⟩ := hlevel
    rw [argumentList_end] at hlist
    cases hlist
    obtain ⟨-, hresult⟩ | ⟨hsome, -⟩ := hresult
    · exact ⟨hresult, rfl⟩
    · exact absurd rfl hsome

/-- A state in which well-formed nodes are recorded is sound, for the levels that they have. -/
lemma exists_sound (hrecorded : ∀ node ∈ s.recorded, Made (.isOf Kind.referable) node) :
    ∃ total, Sound total (s.unread.length + 1) s := by
  refine ⟨(s.recorded.map Node.levels).sum + s.unread.length, Nat.lt_succ_self _,
    Nat.le_add_left _ _, fun node hnode => ⟨hrecorded node hnode, ?_⟩⟩
  exact Nat.add_le_add_right (List.le_sum_of_mem (List.mem_map_of_mem hnode)) _

/-- What is found as a nominal type within any budget is a well-formed node that can be referred to. -/
lemma nominal_made {budget : Nat} (hrecorded : ∀ node ∈ s.recorded, Made (.isOf Kind.referable) node)
    (h : nominal (parse budget) limit s = .found node s') : Made (.isOf Kind.referable) node := by
  obtain ⟨total, hs⟩ := exists_sound hrecorded
  have hcall := sufficient_parse total s.unread.length
  have hcomes := Reads.nominal (hcall.moreBudget (le_max_right budget _)) limit s hs
  obtain hexhausted | hsame := unlessExhausted.nominal (parse_of_le (le_max_left budget _)) limit s
  · rw [h] at hexhausted
    cases hexhausted
  · rw [← hsame, h] at hcomes
    exact hcomes.2.made

lemma unbinds_boundGeneric {budget : Nat}
    (hrecorded : ∀ node ∈ s.recorded, Made (.isOf Kind.referable) node)
    (h : boundGeneric (parse budget) limit s = .found result s') :
    ∃ node s₁, nominal (parse budget) limit s = .found node s₁ ∧
      parse budget (.boundArguments node) limit s₁ = .found result s' ∧ Unbinds node result := by
  have hplain : ∀ kind ∈ Kind.referable, kind ∈ Kind.bindable ∧ kind ≠ .type := by decide
  obtain ⟨node, s₁, hnominal, hbound⟩ := Parser.bind_found h
  have hmade := nominal_made hrecorded hnominal
  obtain ⟨hbindable, htype⟩ := hplain _ hmade.kind_mem
  exact ⟨node, s₁, hnominal, hbound,
    unbinds_boundArguments ⟨hmade.wellFormed, decide_eq_true hbindable⟩ htype hbound⟩

/-- Generic arguments are given to a nominal type that is read first. Without them, the result is that
type with each level that stands on another one cut down to its parent and its name: the nominal type
itself exactly if there is nothing else to these levels. Where all lists are empty, the result is what is
left of the nominal type, and nothing is read but the ends of the lists. -/
theorem unbind_boundGeneric {budget : Nat}
    (hrecorded : ∀ node ∈ s.recorded, Made (.isOf Kind.referable) node)
    (h : boundGeneric (parse budget) limit s = .found result s') :
    ∃ node s₁, nominal (parse budget) limit s = .found node s₁ ∧
      parse budget (.boundArguments node) limit s₁ = .found result s' ∧
      result.unbind = node.trim ∧ (result.unbind = node ↔ node.isPaired = true) ∧
      ∀ rest, s₁.unread = List.replicate node.lists listEnd ++ rest →
        result = node.trim ∧ s' = ⟨rest, s₁.recorded⟩ := by
  obtain ⟨node, s₁, hnominal, hbound, hlevel⟩ := unbinds_boundGeneric hrecorded h
  have hself : result.unbind = node ↔ node.isPaired = true := by
    rw [hlevel.unbind]
    exact node.trim_eq_self_iff
  exact ⟨node, s₁, hnominal, hbound, hlevel.unbind, hself,
    fun rest hunread => boundArguments_empty hunread hbound⟩

open Mangle (ascii)

/-- A structure in a class, with an argument each. -/
theorem unbind_nestedStructure :
    ∃ node result s₁ s', nominal (parse 128) 9 ⟨ascii "VC1m1A1BSi_Sb_", []⟩ = .found node s₁ ∧
      boundGeneric (parse 128) 9 ⟨ascii "VC1m1A1BSi_Sb_", []⟩ = .found result s' ∧
      result.kind = .boundGenericStructure ∧ result.unbind = node := by
  have hkind : (boundGeneric (parse 128) 9 ⟨ascii "VC1m1A1BSi_Sb_", []⟩).value?.map Node.kind =
      some .boundGenericStructure := by decide +kernel
  have hpaired : (nominal (parse 128) 9 ⟨ascii "VC1m1A1BSi_Sb_", []⟩).value?.map Node.isPaired =
      some true := by decide +kernel
  obtain ⟨result, hvalue, hkind⟩ := Option.map_eq_some_iff.1 hkind
  obtain ⟨s', hfound⟩ := Outcome.eq_found_of_value? hvalue
  obtain ⟨node, s₁, hnominal, -, -, hself, -⟩ := unbind_boundGeneric (List.forall_mem_nil _) hfound
  rw [hnominal] at hpaired
  exact ⟨node, result, s₁, s', hnominal, hfound, hkind, hself.2 (Option.some.inj hpaired)⟩

/-- A class in a variable, which has a type: with an empty list of arguments for each level, the type is
lost. -/
theorem boundGeneric_loses_type :
    (¬∀ (budget : Nat) (limit : Int) (s s' : State) (result : Node),
        (∀ node ∈ s.recorded, Made (.isOf Kind.referable) node) →
        boundGeneric (parse budget) limit s = .found result s' →
        ∃ node s₁, nominal (parse budget) limit s = .found node s₁ ∧ result.unbind = node) ∧
      ∃ bound plain, demangle .type {} (.bytes (ascii "GCvC1m1A1xSi1B___")) = .tree bound ∧
        demangle .type {} (.bytes (ascii "CvC1m1A1xSi1B")) = .tree plain ∧
        bound.dump ≠ plain.dump := by
  constructor
  · intro hkeeps
    have hsome : (boundGeneric (parse 128) 9 ⟨ascii "CvC1m1A1xSi1B___", []⟩).value?.isSome = true := by
      decide +kernel
    have hpaired : (nominal (parse 128) 9 ⟨ascii "CvC1m1A1xSi1B___", []⟩).value?.map Node.isPaired =
        some false := by decide +kernel
    obtain ⟨result, hvalue⟩ := Option.isSome_iff_exists.1 hsome
    obtain ⟨s', hfound⟩ := Outcome.eq_found_of_value? hvalue
    obtain ⟨node, s₁, hnominal, hself⟩ := hkeeps _ _ _ _ _ (List.forall_mem_nil _) hfound
    obtain ⟨node', s₂, hnominal', -, hlevel⟩ := unbinds_boundGeneric (List.forall_mem_nil _) hfound
    cases hnominal.symm.trans hnominal'
    rw [hlevel.unbind] at hself
    rw [hnominal] at hpaired
    cases (node.trim_eq_self_iff.1 hself).symm.trans (Option.some.inj hpaired)
  · have hdumps : (demangle .type {} (.bytes (ascii "GCvC1m1A1xSi1B___"))).tree?.isSome = true ∧
        (demangle .type {} (.bytes (ascii "CvC1m1A1xSi1B"))).tree?.isSome = true ∧
        (demangle .type {} (.bytes (ascii "GCvC1m1A1xSi1B___"))).tree?.map Node.dump ≠
          (demangle .type {} (.bytes (ascii "CvC1m1A1xSi1B"))).tree?.map Node.dump := by
      decide +kernel
    obtain ⟨hbound, hplain, hne⟩ := hdumps
    obtain ⟨bound, hbound⟩ := Option.isSome_iff_exists.1 hbound
    obtain ⟨plain, hplain⟩ := Option.isSome_iff_exists.1 hplain
    rw [hbound, hplain] at hne
    exact ⟨bound, plain, Verdict.eq_tree_of_tree? hbound, Verdict.eq_tree_of_tree? hplain,
      fun heq => hne (congrArg some heq)⟩

end Grammar

end SwiftMangling
