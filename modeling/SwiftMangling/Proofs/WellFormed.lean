import SwiftMangling.Node.Shape
import SwiftMangling.Proofs.GrammarSteady

/-!
# Well-formed trees

A tree is well formed if each of its nodes has the shape of its kind. A node that is put together from
well-formed trees is well formed if they fill a shape of its kind. What is under a well-formed node
fills such a shape, so that a node can be taken apart and put together again.
-/

namespace SwiftMangling

open Grammar (Occurs)

/-- Each node of a tree has the shape of its kind. -/
def Node.WellFormed (root : Node) : Prop :=
  ∀ node, Occurs node root → node.isShaped = true

/-- A well-formed node that passes a test. -/
structure Made (test : Test) (node : Node) : Prop where
  wellFormed : node.WellFormed
  passes : test.passes node = true

/-- Well-formed children fill places in order. -/
inductive Filled : List Place → List Node → Prop
  | nil : Filled [] []
  | one {test : Test} {child : Node} {places : List Place} {children : List Node}
    (h : Made test child) (hrest : Filled places children) :
    Filled (.one test :: places) (child :: children)
  | absent {test : Test} {places : List Place} {children : List Node}
    (hrest : Filled places children) : Filled (.optional test :: places) children
  | present {test : Test} {child : Node} {places : List Place} {children : List Node}
    (h : Made test child) (hrest : Filled places children) :
    Filled (.optional test :: places) (child :: children)
  | many {test : Test} {items : List Node} {places : List Place} {children : List Node}
    (h : ∀ item ∈ items, Made test item) (hrest : Filled places children) :
    Filled (.many test :: places) (items ++ children)

namespace Place

lemma mem_restsMany {test : Test} {items : List Node} (h : ∀ item ∈ items, test.passes item = true)
    (children : List Node) : children ∈ restsMany test (items ++ children) := by
  induction items with
  | nil =>
    cases children with
    | nil => exact List.mem_singleton_self []
    | cons child children => exact List.mem_cons_self ..
  | cons item items ih =>
    have hitem : test.passes item = true := h item (List.mem_cons_self ..)
    rw [List.cons_append, restsMany, if_pos hitem]
    exact List.mem_cons_of_mem _ (ih fun other hother => h other (List.mem_cons_of_mem _ hother))

lemma exists_of_mem_restsMany {test : Test} {children rest : List Node}
    (h : rest ∈ restsMany test children) :
    ∃ items, (∀ item ∈ items, test.passes item = true) ∧ children = items ++ rest := by
  induction children with
  | nil =>
    rw [List.mem_singleton.1 h]
    exact ⟨[], nofun, rfl⟩
  | cons child children ih =>
    rw [restsMany] at h
    obtain rfl | h := List.mem_cons.1 h
    · exact ⟨[], nofun, rfl⟩
    · split at h
      · next hchild =>
        obtain ⟨items, hitems, rfl⟩ := ih h
        exact ⟨child :: items, List.forall_mem_cons.2 ⟨hchild, hitems⟩, rfl⟩
      · cases h

end Place

section Filling

variable {places : List Place} {children : List Node}

lemma Filled.wellFormed (h : Filled places children) : ∀ child ∈ children, child.WellFormed := by
  induction h with
  | nil => exact nofun
  | one hchild _ ih => exact List.forall_mem_cons.2 ⟨hchild.wellFormed, ih⟩
  | absent _ ih => exact ih
  | present hchild _ ih => exact List.forall_mem_cons.2 ⟨hchild.wellFormed, ih⟩
  | many hitems _ ih =>
    intro child hchild
    obtain hchild | hchild := List.mem_append.1 hchild
    · exact (hitems child hchild).wellFormed
    · exact ih child hchild

lemma Filled.areFilled (h : Filled places children) : Place.areFilled places children = true := by
  induction h with
  | nil => rfl
  | one hchild _ ih => simp [Place.areFilled, Place.rests, hchild.passes, ih]
  | @absent test places children _ ih =>
    have hmem : children ∈ Place.rests (.optional test) children := by
      cases children with
      | nil => exact List.mem_singleton_self []
      | cons child children => exact List.mem_cons_self ..
    exact List.any_eq_true.2 ⟨children, hmem, ih⟩
  | present hchild _ ih => simp [Place.areFilled, Place.rests, hchild.passes, ih]
  | @many test items places children hitems _ ih =>
    have hmem := Place.mem_restsMany (fun item hitem => (hitems item hitem).passes) children
    exact List.any_eq_true.2 ⟨children, hmem, ih⟩

/-- Children that are well formed fill the places that they are checked against. -/
lemma filled_of_areFilled (hchildren : ∀ child ∈ children, child.WellFormed)
    (h : Place.areFilled places children = true) : Filled places children := by
  induction places generalizing children with
  | nil =>
    obtain rfl : children = [] := List.isEmpty_iff.1 h
    exact .nil
  | cons place places ih =>
    obtain ⟨rest, hrest, hfilled⟩ := List.any_eq_true.1 h
    cases place with
    | one test =>
      cases children with
      | nil => cases hrest
      | cons child children =>
        rw [List.forall_mem_cons] at hchildren
        simp only [Place.rests] at hrest
        split at hrest
        · next hchild =>
          rw [List.mem_singleton.1 hrest] at hfilled
          exact .one ⟨hchildren.1, hchild⟩ (ih hchildren.2 hfilled)
        · cases hrest
    | optional test =>
      cases children with
      | nil =>
        rw [List.mem_singleton.1 hrest] at hfilled
        exact .absent (ih hchildren hfilled)
      | cons child children =>
        obtain rfl | hrest := List.mem_cons.1 hrest
        · exact .absent (ih hchildren hfilled)
        · rw [List.forall_mem_cons] at hchildren
          split at hrest
          · next hchild =>
            rw [List.mem_singleton.1 hrest] at hfilled
            exact .present ⟨hchildren.1, hchild⟩ (ih hchildren.2 hfilled)
          · cases hrest
    | many test =>
      obtain ⟨items, hitems, rfl⟩ := Place.exists_of_mem_restsMany hrest
      rw [List.forall_mem_append] at hchildren
      exact .many (fun item hitem => ⟨hchildren.1 item hitem, hitems item hitem⟩)
        (ih hchildren.2 hfilled)

/-- Any number of children, and no others after them. -/
lemma Filled.all {test : Test} (h : ∀ child ∈ children, Made test child) (hends : Filled places []) :
    Filled (.many test :: places) children := by
  have hfilled := Filled.many h hends
  rwa [List.append_nil] at hfilled

/-- Children fill places one after another if they can be parted so. -/
lemma filled_append {places places' : List Place} {children : List Node} :
    Filled (places ++ places') children ↔
      ∃ front back, children = front ++ back ∧ Filled places front ∧ Filled places' back := by
  constructor
  · intro h
    induction places generalizing children with
    | nil => exact ⟨[], children, rfl, .nil, h⟩
    | cons place places ih =>
      cases h with
      | @one _ child _ _ hchild hrest =>
        obtain ⟨front, back, rfl, hfront, hback⟩ := ih hrest
        exact ⟨child :: front, back, rfl, .one hchild hfront, hback⟩
      | absent hrest =>
        obtain ⟨front, back, rfl, hfront, hback⟩ := ih hrest
        exact ⟨front, back, rfl, .absent hfront, hback⟩
      | @present _ child _ _ hchild hrest =>
        obtain ⟨front, back, rfl, hfront, hback⟩ := ih hrest
        exact ⟨child :: front, back, rfl, .present hchild hfront, hback⟩
      | @many _ items _ _ hitems hrest =>
        obtain ⟨front, back, rfl, hfront, hback⟩ := ih hrest
        exact ⟨items ++ front, back, (List.append_assoc ..).symm, .many hitems hfront, hback⟩
  · rintro ⟨front, back, rfl, hfront, hback⟩
    induction hfront with
    | nil => exact hback
    | one hchild _ ih => exact .one hchild ih
    | absent _ ih => exact .absent ih
    | present hchild _ ih => exact .present hchild ih
    | many hitems _ ih =>
      rw [List.append_assoc]
      exact .many hitems ih

lemma Filled.append {places' : List Place} {children' : List Node} (h : Filled places children)
    (h' : Filled places' children') : Filled (places ++ places') (children ++ children') :=
  filled_append.2 ⟨children, children', rfl, h, h'⟩

/-- One more child may come before others that pass the same test. -/
lemma Filled.consMany {test : Test} {child : Node} (h : Filled (.many test :: places) children)
    (hchild : Made test child) : Filled (.many test :: places) (child :: children) := by
  cases h with
  | many hitems hrest => exact .many (List.forall_mem_cons.2 ⟨hchild, hitems⟩) hrest

/-- One more child may come last after others that pass the same test. -/
lemma Filled.pushMany {test : Test} {child : Node} (places : List Place)
    (h : Filled (places ++ [.many test]) children) (hchild : Made test child) :
    Filled (places ++ [.many test]) (children ++ [child]) := by
  obtain ⟨front, back, rfl, hfront, hback⟩ := filled_append.1 h
  cases hback with
  | many hitems hrest =>
    cases hrest
    rw [List.append_nil, List.append_assoc]
    refine hfront.append (.all (List.forall_mem_append.2 ⟨hitems, ?_⟩) .nil)
    exact List.forall_mem_singleton.2 hchild

/-- A last child may be added where there may be one and is none. -/
lemma Filled.pushOptional {test : Test} {child : Node} (places : List Place)
    (h : Filled (places ++ [.optional test]) children) (hchild : Made test child)
    (hnone : ∀ other ∈ children, test.passes other = false) :
    Filled (places ++ [.optional test]) (children ++ [child]) := by
  obtain ⟨front, back, rfl, hfront, hback⟩ := filled_append.1 h
  cases hback with
  | absent hrest =>
    cases hrest
    rw [List.append_nil]
    exact hfront.append (.present hchild .nil)
  | present hother hrest =>
    have hfails := hnone _ (List.mem_append_right _ (List.mem_cons_self ..))
    rw [hother.passes] at hfails
    cases hfails

end Filling

section Nodes

variable {kind : Kind} {payload : Payload} {children : List Node}

/-- A node is well formed if it carries what its kind says and its children fill a shape of its
kind. -/
lemma wellFormed_mk {places : List Place} (hcarried : payload.carried = kind.carried)
    (hshape : places ∈ kind.shapes) (hfilled : Filled places children) :
    (Node.mk kind payload children).WellFormed := by
  intro node hnode
  cases hnode with
  | here =>
    simp only [Node.isShaped, hcarried, decide_true, Bool.true_and]
    exact List.any_eq_true.2 ⟨places, hshape, hfilled.areFilled⟩
  | inside hchild hnode => exact hfilled.wellFormed _ hchild node hnode

lemma Node.WellFormed.carried (h : (Node.mk kind payload children).WellFormed) :
    payload.carried = kind.carried := by
  have hshaped := h _ .here
  simp only [Node.isShaped, Bool.and_eq_true, decide_eq_true_eq] at hshaped
  exact hshaped.1

/-- The children of a well-formed node fill a shape of its kind. -/
lemma Node.WellFormed.filled (h : (Node.mk kind payload children).WellFormed) :
    ∃ places ∈ kind.shapes, Filled places children := by
  have hshaped := h _ .here
  simp only [Node.isShaped, Bool.and_eq_true] at hshaped
  obtain ⟨places, hshape, hfilled⟩ := List.any_eq_true.1 hshaped.2
  have hchildren : ∀ child ∈ children, child.WellFormed :=
    fun child hchild node hnode => h node (.inside hchild hnode)
  exact ⟨places, hshape, filled_of_areFilled hchildren hfilled⟩

end Nodes

section Made

variable {test : Test} {kind : Kind} {children : List Node}

/-- Fewer kinds are among more. -/
lemma Made.among {kinds kinds' : List Kind} {node : Node} (h : Made (.isOf kinds) node)
    (hkinds : ∀ kind ∈ kinds, kind ∈ kinds') : Made (.isOf kinds') node :=
  ⟨h.wellFormed, decide_eq_true (hkinds _ (of_decide_eq_true h.passes))⟩

/-- A node whose kind is known is of that kind alone. -/
lemma Made.narrow {kinds : List Kind} {node : Node} (h : Made (.isOf kinds) node)
    (hkind : node.kind = kind) : Made (.isOf [kind]) node :=
  ⟨h.wellFormed, decide_eq_true (List.mem_singleton.2 hkind)⟩

lemma Made.kind_mem {kinds : List Kind} {node : Node} (h : Made (.isOf kinds) node) :
    node.kind ∈ kinds :=
  of_decide_eq_true h.passes

lemma Made.kind_eq {node : Node} (h : Made (.isOf [kind]) node) : node.kind = kind :=
  List.mem_singleton.1 h.kind_mem

lemma made_branch {places : List Place} (hcarried : kind.carried = .nothing)
    (hshape : places ∈ kind.shapes) (hfilled : Filled places children)
    (hpasses : test.passes (.branch kind children) = true) : Made test (.branch kind children) :=
  ⟨wellFormed_mk hcarried.symm hshape hfilled, hpasses⟩

lemma made_of_mem {kinds : List Kind} {places : List Place} (hcarried : kind.carried = .nothing)
    (hshape : places ∈ kind.shapes) (hfilled : Filled places children) (hmem : kind ∈ kinds) :
    Made (.isOf kinds) (.branch kind children) :=
  made_branch hcarried hshape hfilled (decide_eq_true hmem)

/-- A node of a family of kinds that share a shape. -/
lemma made_family {kinds kinds' : List Kind} {places : List Place}
    (hfamily : ∀ kind ∈ kinds, kind.carried = .nothing ∧ places ∈ kind.shapes ∧ kind ∈ kinds')
    (hkind : kind ∈ kinds) (hfilled : Filled places children) :
    Made (.isOf kinds') (.branch kind children) := by
  obtain ⟨hcarried, hshape, hmem⟩ := hfamily kind hkind
  exact made_of_mem hcarried hshape hfilled hmem

/-- A type is made of a bare type. -/
lemma Made.type {bare : Node} (h : Made (.isOf Kind.bareTypes) bare) :
    Made (.isOf [.type]) (.branch .type [bare]) :=
  made_branch rfl (.head _) (.one h .nil) rfl

lemma Made.typeList {types : List Node} (h : ∀ type ∈ types, Made (.isOf [.type]) type) :
    Made (.isOf [.typeList]) (.branch .typeList types) :=
  made_branch rfl (.head _) (Filled.all h .nil) rfl

lemma made_named (hcarried : kind.carried = .text) (hshape : [] ∈ kind.shapes) (content : Text) :
    Made (.isOf [kind]) (.named kind content) :=
  ⟨wellFormed_mk hcarried.symm hshape .nil, decide_eq_true (List.mem_singleton_self kind)⟩

lemma made_numbered (hcarried : kind.carried = .index) (hshape : [] ∈ kind.shapes) (number : Int) :
    Made (.isOf [kind]) (.numbered kind number) :=
  ⟨wellFormed_mk hcarried.symm hshape .nil, decide_eq_true (List.mem_singleton_self kind)⟩

end Made

section Levels

namespace Node

/-- How many levels a node has that can take generic arguments: the way goes down by first children
that have siblings. -/
def levels : Node → Nat
  | mk _ _ (parent :: _ :: _) => parent.levels + 1
  | _ => 0

lemma levels_pair (kind : Kind) (payload : Payload) (parent name : Node) (rest : List Node) :
    (mk kind payload (parent :: name :: rest)).levels = parent.levels + 1 :=
  rfl

lemma levels_single (kind : Kind) (payload : Payload) (child : Node) :
    (mk kind payload [child]).levels = 0 :=
  rfl

lemma levels_named (kind : Kind) (content : Text) : (named kind content).levels = 0 :=
  rfl

end Node

namespace Kind

/-- The kinds of nodes that can be given generic arguments on the way outwards. -/
def bindable : List Kind :=
  type :: referable ++ boundGenerics ++ [staticMember, variableDecl, initializer, subscript,
    defaultArgumentInitializer] ++ untypedMembers ++ unnamedMembers ++ accessors ++ closures

lemma mem_bindable_of_scope : ∀ kind ∈ scopes, kind ≠ function → kind ≠ extensionContext →
    kind ∈ bindable := by
  decide +kernel

end Kind

/-- A shape of two children at most after whose first child, a scope, a second one is enough. -/
def Place.allowsParent : List Place → Bool
  | .one parent :: .one _ :: places => parent = .isOf Kind.scopes && Place.areFilled places []
  | [.one _] => true
  | [.optional _] => true
  | [] => true
  | _ => false

lemma allowsParent_of_mem_shapes : ∀ kind ∈ Kind.bindable, kind ∉ Kind.boundGenerics →
    ∀ places ∈ kind.shapes, Place.allowsParent places = true ∧
      (2 ≤ places.length → kind.carried = .nothing) := by
  decide +kernel

lemma allowsParent_cases {places : List Place} (h : Place.allowsParent places = true) :
    (∃ test places', places = .one (.isOf Kind.scopes) :: .one test :: places' ∧
      Place.areFilled places' [] = true) ∨
    ∀ children, Filled places children → children.length ≤ 1 := by
  unfold Place.allowsParent at h
  split at h
  · rw [Bool.and_eq_true, decide_eq_true_eq] at h
    obtain ⟨rfl, hends⟩ := h
    exact .inl ⟨_, _, rfl, hends⟩
  · refine .inr fun children hfilled => ?_
    cases hfilled with
    | one _ hrest =>
      cases hrest
      exact Nat.le_refl 1
  · refine .inr fun children hfilled => ?_
    cases hfilled with
    | absent hrest =>
      cases hrest
      exact Nat.zero_le 1
    | present _ hrest =>
      cases hrest
      exact Nat.le_refl 1
  · refine .inr fun children hfilled => ?_
    cases hfilled
    exact Nat.zero_le 1
  · cases h

/-- A type of some kinds wraps a node of one of them. -/
lemma Made.typeOf_parts {kinds : List Kind} {node : Node} (h : Made (.isTypeOf kinds) node) :
    ∃ payload bare, node = .mk .type payload [bare] ∧ bare.kind ∈ kinds := by
  have hpasses : node.isTypeOf kinds = true := h.passes
  unfold Node.isTypeOf at hpasses
  split at hpasses
  · exact ⟨_, _, rfl, of_decide_eq_true hpasses⟩
  · cases hpasses

lemma Made.kind_of_isTypeOf {kinds : List Kind} {node : Node} (h : Made (.isTypeOf kinds) node) :
    Made (.isOf [.type]) node := by
  obtain ⟨payload, bare, rfl, -⟩ := h.typeOf_parts
  exact ⟨h.wellFormed, rfl⟩

/-- A type wraps one bare type. -/
lemma type_parts {payload : Payload} {children : List Node}
    (h : (Node.mk .type payload children).WellFormed) : ∃ bare, children = [bare] := by
  obtain ⟨places, hplaces, hfilled⟩ := h.filled
  obtain rfl := List.mem_singleton.1 hplaces
  cases hfilled with
  | one _ hrest =>
    cases hrest
    exact ⟨_, rfl⟩

/-- A private name that has a second part is the identifier of a file and a name. -/
lemma privateDeclName_parts {payload : Payload} {children : List Node}
    (h : (Node.mk .privateDeclName payload children).WellFormed) (hlength : 1 < children.length) :
    ∃ file name, children = [file, name] ∧ Made (.isOf Kind.names) file := by
  obtain ⟨places, hplaces, hfilled⟩ := h.filled
  obtain rfl := List.mem_singleton.1 hplaces
  cases hfilled with
  | one hfile hrest =>
    cases hrest with
    | absent hrest =>
      cases hrest
      exact absurd hlength (Nat.lt_irrefl 1)
    | present _ hrest =>
      cases hrest
      exact ⟨_, _, rfl, hfile⟩

/-- A declared type has a context and a name. -/
lemma declared_parts {kind : Kind} {payload : Payload} {children : List Node}
    (hkind : kind ∈ Kind.declared) (h : (Node.mk kind payload children).WellFormed) :
    ∃ context name, children = [context, name] := by
  have hshapes : ∀ kind ∈ Kind.declared,
      kind.shapes = [[.one (.isOf Kind.scopes), .one (.isOf Kind.declNames)]] := by decide
  obtain ⟨places, hplaces, hfilled⟩ := h.filled
  rw [hshapes kind hkind] at hplaces
  obtain rfl := List.mem_singleton.1 hplaces
  cases hfilled with
  | one _ hrest =>
    cases hrest with
    | one _ hrest =>
      cases hrest
      exact ⟨_, _, rfl⟩

/-- The children of a bound generic type are the unbound type, which is a declared one, and the
arguments. -/
lemma boundGeneric_parts {kind : Kind} {payload : Payload} {children : List Node}
    (hkind : kind ∈ Kind.boundGenerics) (h : (Node.mk kind payload children).WellFormed) :
    ∃ unbound arguments, children = [unbound, arguments] ∧
      (∃ kinds, (∀ kind ∈ kinds, kind ∈ Kind.declared) ∧ Made (.isTypeOf kinds) unbound) ∧
      (Node.branch kind [unbound, arguments]).WellFormed := by
  have hshapes : ∃ kinds, (∀ kind ∈ kinds, kind ∈ Kind.declared) ∧
      kind.shapes = [[.one (.isTypeOf kinds), .one .isArguments]] ∧ kind.carried = .nothing := by
    simp only [Kind.boundGenerics, List.mem_cons, List.not_mem_nil, or_false] at hkind
    obtain rfl | rfl | rfl := hkind <;> exact ⟨_, by decide, rfl, rfl⟩
  obtain ⟨kinds, hdeclared, hshapes, hcarried⟩ := hshapes
  obtain ⟨places, hplaces, hfilled⟩ := h.filled
  rw [hshapes] at hplaces
  obtain rfl := List.mem_singleton.1 hplaces
  cases hfilled with
  | one hunbound hrest =>
    cases hrest with
    | one harguments hrest =>
      cases hrest
      refine ⟨_, _, rfl, ⟨kinds, hdeclared, hunbound⟩, wellFormed_mk hcarried.symm ?_
        (.one hunbound (.one harguments .nil))⟩
      rw [hshapes]
      exact List.mem_singleton_self _

/-- What stands on a scope can stand on another one, with its name alone. -/
lemma onScope {kind : Kind} {payload : Payload} {parent name : Node} {rest : List Node}
    (hkind : kind ∈ Kind.bindable) (hgeneric : kind ∉ Kind.boundGenerics)
    (h : (Node.mk kind payload (parent :: name :: rest)).WellFormed) :
    Made (.isOf Kind.scopes) parent ∧ ∀ parent', Made (.isOf Kind.scopes) parent' →
      (Node.branch kind [parent', name]).WellFormed := by
  obtain ⟨places, hplaces, hfilled⟩ := h.filled
  obtain ⟨hallows, hcarried⟩ := allowsParent_of_mem_shapes kind hkind hgeneric places hplaces
  obtain ⟨test, places', rfl, hends⟩ | hshort := allowsParent_cases hallows
  · cases hfilled with
    | one hparent hrest =>
      cases hrest with
      | one hname _ =>
        refine ⟨hparent, fun parent' hparent' => ?_⟩
        have hcarried' : kind.carried = .nothing := hcarried (by simp)
        exact wellFormed_mk hcarried'.symm hplaces
          (.one hparent' (.one hname (filled_of_areFilled nofun hends)))
  · exact absurd (hshort _ hfilled) (by simp)

/-- What stands on a type is already given its arguments, and has nothing but these. -/
lemma onParent {kind : Kind} {payload : Payload} {parent name : Node} {rest : List Node}
    (hkind : kind ∈ Kind.bindable)
    (h : (Node.mk kind payload (parent :: name :: rest)).WellFormed) :
    (Made (.isOf Kind.scopes) parent ∧ ∀ parent', Made (.isOf Kind.scopes) parent' →
        (Node.branch kind [parent', name]).WellFormed) ∨
      Made (.isOf [.type]) parent ∧ (Node.branch kind [parent, name]).WellFormed := by
  by_cases hgeneric : kind ∈ Kind.boundGenerics
  · obtain ⟨unbound, arguments, hchildren, ⟨kinds, -, hunbound⟩, hwell⟩ := boundGeneric_parts hgeneric h
    cases hchildren
    exact .inr ⟨hunbound.kind_of_isTypeOf, hwell⟩
  · exact .inl (onScope hkind hgeneric h)

end Levels

end SwiftMangling
