import SwiftMangling.Proofs.GrammarReads

/-!
# Types find well-formed nodes

The letter of a type is taken, so that all that is inside it is read below a smaller bound. An element
of a tuple stays one when it is marked as variadic, and the results of a lowered function have at most
one error result among them.
-/

namespace SwiftMangling.Grammar

section Variadic

/-- A plain element stays an element if it is marked as variadic. -/
lemma made_push_variadic {element : Node} (h : Made .isPlainElement element) :
    Made (.isOf [.tupleElement]) (element.push (.branch .variadicMarker [])) := by
  obtain ⟨kind, payload, children⟩ := element
  have hmarker : Made (.isOf [.variadicMarker]) (.branch .variadicMarker []) :=
    made_branch rfl (.head _) .nil rfl
  have hplain : kind = .tupleElement ∧ ∀ child ∈ children, child.kind ≠ .variadicMarker := by
    have hpasses := h.passes
    unfold Test.passes at hpasses
    split at hpasses <;> simp_all
  obtain ⟨rfl, hplain⟩ := hplain
  obtain ⟨places, hplaces, hfilled⟩ := h.wellFormed.filled
  obtain rfl := List.mem_singleton.1 hplaces
  have hpushed := Filled.pushOptional [_, _] hfilled hmarker fun child hchild =>
    decide_eq_false fun hmem => hplain child hchild (List.mem_singleton.1 hmem)
  exact ⟨wellFormed_mk h.wellFormed.carried (.head _) hpushed, rfl⟩

lemma filled_markVariadic {elements : List Node}
    (h : ∀ element ∈ elements, Made .isPlainElement element) :
    Filled [.many .isPlainElement, .optional (.isOf [.tupleElement])] (markVariadic elements) := by
  induction elements using markVariadic.induct with
  | case1 => exact .many (List.forall_mem_nil _) (.absent .nil)
  | case2 last =>
    have hlast := made_push_variadic (h last (List.mem_singleton_self last))
    exact .many (List.forall_mem_nil _) (.present hlast .nil)
  | case3 element elements hne ih =>
    rw [List.forall_mem_cons] at h
    rw [markVariadic]
    · exact (ih h.2).consMany h.1
    · exact hne

end Variadic

namespace Reads

variable {total bound : Nat} {call : Calls}

section Types

lemma made_builtin (name : Text) : Made (.isOf Kind.bareTypes) (builtin name) :=
  (made_named rfl (.head _) _).among (by decide)

lemma sizedBuiltin (name : Nat → Text) :
    Reads total bound (made (.isOf Kind.bareTypes))
      (Grammar.builtinSize >>= fun size => Pure.pure (builtin (name size))) :=
  builtinSize.bind fun _ _ _ => pure fun _ _ _ => made_builtin _

lemma builtinVector (elements : Nat) :
    Reads total bound (made (.isOf Kind.bareTypes)) (Grammar.builtinVector elements) :=
  ite _ (sizedBuiltin _) <| ite _ (sizedBuiltin _) <| ite _ (pure fun _ _ _ => made_builtin _) refuse

lemma builtinType : Reads total bound (made (.isOf Kind.bareTypes)) Grammar.builtinType := by
  refine unlessEnd <| next.bind fun c _ _ => ?_
  split
  · exact pure fun _ _ _ => made_builtin _
  · split
    · exact sizedBuiltin _
    · exact sizedBuiltin _
    · exact natural.bind fun _ _ _ => (demand _).bind fun _ _ _ => builtinVector _
    · exact refuse

lemma elementLabel :
    Reads total bound (fun label _ => label = [] ∨ ∃ text, label = [.named .tupleElementName text])
      Grammar.elementLabel := by
  refine peek.bind fun c _ _ => ?_
  split
  · refine (identifierOf _).bind fun label _ hlabel => pure fun _ _ _ => ?_
    obtain ⟨text, rfl⟩ := hlabel
    exact .inr ⟨text, rfl⟩
  · exact pure fun _ _ _ => .inl rfl

/-- A production with a node around what it finds. -/
lemma wrapped {kind : Kind} {production : Production} {test : Test} {kinds : List Kind}
    (hp : Reads total bound (made test) (call production)) (hcarried : kind.carried = .nothing)
    (hshape : [.one test] ∈ kind.shapes) (hmem : kind ∈ kinds) :
    Reads total bound (made (.isOf kinds)) (Grammar.wrapped call kind production) :=
  hp.bind fun _ _ hchild => branch (made_of_mem hcarried hshape (.one hchild .nil) hmem)

/-- The metatypes may have a representation before their type. -/
lemma metatypes_shape : ∀ kind ∈ [Kind.metatype, .existentialMetatype], kind.carried = .nothing ∧
    [.optional (.isOf [.metatypeRepresentation]), .one (.isOf [.type])] ∈ kind.shapes ∧
      kind ∈ Kind.bareTypes := by
  decide

variable (h : Sufficient total bound call)
include h

lemma tupleElement : Reads total bound (made .isPlainElement) (Grammar.tupleElement call) := by
  refine unlessEnd <| elementLabel.bind fun label _ hlabel => h.type.bind fun type _ htype => ?_
  have hplain : decide (type.kind ≠ .variadicMarker) = true := by rw [htype.kind_eq]; rfl
  obtain rfl | ⟨text, rfl⟩ := hlabel
  · have hpasses : Test.isPlainElement.passes (.branch .tupleElement [type]) = true := by
      rw [Node.branch, Test.passes, List.all_cons, hplain]
      rfl
    exact branch (made_branch rfl (.head _) (.absent (.one htype (.absent .nil))) hpasses)
  · have hname : Made (.isOf [.tupleElementName]) (.named .tupleElementName text) :=
      made_named rfl (.head _) text
    have hpasses : Test.isPlainElement.passes
        (.branch .tupleElement [.named .tupleElementName text, type]) = true := by
      rw [Node.branch, Test.passes, List.all_cons, List.all_cons, hplain]
      rfl
    exact branch (made_branch rfl (.head _) (.present hname (.one htype (.absent .nil))) hpasses)

lemma tuple (variadic : Bool) :
    Reads total bound (made (.isOf Kind.bareTypes)) (Grammar.tuple call variadic) := by
  refine (gatherEach (accept _) fun _ => tupleElement h).bind fun elements _ helements => ?_
  cases variadic with
  | false => exact branch (made_branch rfl (.head _) (.all helements (.absent .nil)) rfl)
  | true => exact branch (made_branch rfl (.head _) (filled_markVariadic helements) rfl)

lemma functionType {kind : Kind} (hkind : kind ∈ Kind.functionTypes) :
    Reads total bound (made (.isOf Kind.bareTypes)) (Grammar.functionType call kind) := by
  refine (accept _).bind fun throwing _ _ => h.type.bind fun arguments _ harguments =>
    h.type.bind fun result _ hresult => ?_
  have harguments' : Made (.isOf [.argumentTuple]) (.branch .argumentTuple [arguments]) :=
    made_branch rfl (.head _) (.one harguments .nil) rfl
  have hresult' : Made (.isOf [.returnType]) (.branch .returnType [result]) :=
    made_branch rfl (.head _) (.one hresult .nil) rfl
  have hmark : Made (.isOf [.throwsMark]) (.branch .throwsMark []) :=
    made_branch rfl (.head _) .nil rfl
  have hfamily : ∀ kind ∈ Kind.functionTypes, kind.carried = .nothing ∧
      [.optional (.isOf [.throwsMark]), .one (.isOf [.argumentTuple]), .one (.isOf [.returnType])] ∈
        kind.shapes ∧ kind ∈ Kind.bareTypes := by decide
  have hfilled := Filled.one harguments' (.one hresult' .nil)
  rw [branch_single, pure_bind, branch_single, pure_bind]
  cases throwing with
  | false => exact branch (made_family hfamily hkind (.absent hfilled))
  | true => exact branch (made_family hfamily hkind (.present hmark hfilled))

lemma representedMetatype {kind : Kind} (hkind : kind ∈ [Kind.metatype, .existentialMetatype]) :
    Reads total bound (made (.isOf Kind.bareTypes)) (Grammar.representedMetatype call kind) :=
  peek.bind fun _ _ _ => (orRefuse _).bind fun name _ _ => next.bind fun _ _ _ =>
    h.type.bind fun _ _ htype =>
      have hname : Made (.isOf [.metatypeRepresentation]) (.named .metatypeRepresentation name) :=
        made_named rfl (.head _) _
      branch (made_family metatypes_shape hkind (.present hname (.one htype .nil)))

lemma plainMetatype {kind : Kind} (hkind : kind ∈ [Kind.metatype, .existentialMetatype]) :
    Reads total bound (made (.isOf Kind.bareTypes)) (Grammar.wrapped call kind .type) :=
  h.type.bind fun _ _ htype =>
    branch (made_family metatypes_shape hkind (.absent (.one htype .nil)))

lemma boxField :
    Reads total bound (made (.isOf [.silBoxMutableField, .silBoxImmutableField]))
      (Grammar.boxField call) :=
  ite _ (wrapped h.type rfl (.head _) (by decide)) <|
    ite _ (wrapped h.type rfl (.head _) (by decide)) refuse

lemma boxWithLayout :
    Reads total bound (made (.isOf Kind.bareTypes)) (Grammar.boxWithLayout call) := by
  refine (afterMark _ (h.signature false)).bind fun signature _ hsignature =>
    (gatherEach (accept _) fun _ => boxField h).bind fun fields _ hfields => ?_
  have hlayout : Made (.isOf [.silBoxLayout]) (.branch .silBoxLayout fields) :=
    made_branch rfl (.head _) (.all hfields .nil) rfl
  rw [branch_map_some, pure_bind]
  cases signature with
  | none => exact branch (made_branch rfl (.head _) (.one hlayout .nil) rfl)
  | some signature =>
    refine (gatherEach (accept _) fun _ => h.type).bind fun arguments _ harguments => ?_
    rw [branch_map_some, pure_bind]
    exact branch (made_branch rfl (.tail _ (.head _))
      (.one hlayout (.one (hsignature signature rfl) (.one (Made.typeList harguments) .nil))) rfl)

lemma extendedType : Reads total bound (made (.isOf Kind.bareTypes)) (Grammar.extendedType call) := by
  refine ite _ (wrapped h.type rfl (.head _) (by decide)) <| ite _ (boxWithLayout h) <|
    ite _ (representedMetatype h (by decide)) <|
    ite _ (ite _ (representedMetatype h (by decide)) ?_) <|
    ite _ (functionType h (by decide)) <| peek.bind fun c _ _ => ?_
  · exact (protocolList h).among (by decide)
  · cases hkind : storageKind? c with
    | none =>
      exact ite _ (h.implFunction.among (by decide)) refuse
    | some kind =>
      have hstorage : kind.carried = .nothing ∧ [.one (.isOf [.type])] ∈ kind.shapes ∧
          kind ∈ Kind.bareTypes := by
        unfold storageKind? at hkind
        split at hkind <;> cases hkind <;> decide
      obtain ⟨hcarried, hshape, hmem⟩ := hstorage
      exact next.bind fun _ _ _ => wrapped h.type hcarried hshape hmem

lemma genericType : Reads total bound (made (.isOf Kind.bareTypes)) (Grammar.genericType call) :=
  (h.signature false).bind fun _ _ hsignature => h.type.bind fun _ _ htype =>
    branch (made_branch rfl (.head _) (.one hsignature (.one htype .nil)) rfl)

lemma bareType : Reads total (bound + 1) (made (.isOf Kind.bareTypes)) (Grammar.bareType call) := by
  have hdeclared : ∀ kind ∈ Kind.declared,
      Reads total bound (made (.isOf Kind.bareTypes)) (Grammar.declaration call kind) :=
    fun kind hkind => (declaration h hkind).released (List.forall_mem_singleton.2 (by
      simp [Kind.bareTypes, Kind.referable, hkind]))
  refine unlessEnd <| nextBelow (fun c => ?_) rfl
  split
  · exact builtinType
  · exact hdeclared _ (by decide)
  iterate 5 exact functionType h (by decide)
  · exact wrapped h.type rfl (.head _) (by decide)
  · exact (demand _).bind fun _ _ _ => named ((made_named rfl (.head _) _).among (by decide))
  · exact (boundGeneric h).released (by decide)
  · exact plainMetatype h (by decide)
  · exact ite _ (plainMetatype h (by decide)) <|
      (protocolList h).among (by decide)
  · exact h.archetype.released (by decide)
  · exact (dependentType h).among (by decide)
  · exact pure fun _ _ _ => (made_genericParam 0 0).among (by decide)
  · exact (simpleMemberType h).among (by decide)
  · exact (compoundMemberType h).among (by decide)
  · exact wrapped h.bareType rfl (.head _) (by decide)
  · exact substitution.released (by decide)
  · exact tuple h false
  · exact tuple h true
  · exact genericType h
  · exact extendedType h
  · exact hdeclared _ (by decide)
  · exact hdeclared _ (by decide)
  · exact hdeclared _ (by decide)
  · exact refuse

omit h in
lemma typeNode (hbare : Reads total bound (made (.isOf Kind.bareTypes)) (call .bareType)) :
    Reads total bound (made (.isOf [.type])) (Grammar.typeNode call) :=
  wrapped hbare rfl (.head _) (by decide)

end Types

section LoweredFunctions

lemma convention (place : Convention → Option String) :
    Reads total bound anything (Grammar.convention place) :=
  peek.bind fun _ _ _ => (orRefuse _).bind fun _ _ _ => next.bind fun _ _ _ =>
    (orRefuse _).weaken fun _ _ _ _ _ => trivial

lemma made_conventionNode (name : String) : Made (.isOf [.implConvention]) (conventionNode name) :=
  made_named rfl (.head _) _

lemma calleeConvention : Reads total bound anything Grammar.calleeConvention :=
  ite _ (pure fun _ _ _ => trivial) (convention _)

lemma functionAttributes :
    Reads total bound (fun nodes _ => Filled [.optional (.isOf [.implFunctionAttribute])] nodes)
      Grammar.functionAttributes :=
  ite _ (next.bind fun _ _ _ => (orRefuse _).bind fun name _ _ =>
      have hname : Made (.isOf [.implFunctionAttribute]) (.named .implFunctionAttribute name) :=
        made_named rfl (.head _) _
      pure fun _ _ _ => .present hname .nil) <|
    pure fun _ _ _ => .absent .nil

/-- The results of a lowered function, with at most one error result among them. -/
def resultPlaces : List Place :=
  [.many (.isOf [.implResult]), .optional (.isOf [.implErrorResult]), .many (.isOf [.implResult])]

/-- A result may be added after others. -/
lemma filled_result {results : List Node} {node : Node} (h : Filled resultPlaces results)
    (hnode : Made (.isOf [.implResult]) node) : Filled resultPlaces (results ++ [node]) :=
  h.pushMany [_, _] hnode

/-- An error result may be added where there is none. -/
lemma filled_errorResult {results : List Node} {node : Node} (h : Filled resultPlaces results)
    (hnone : ∀ other ∈ results, other.kind ≠ .implErrorResult)
    (hnode : Made (.isOf [.implErrorResult]) node) : Filled resultPlaces (results ++ [node]) := by
  have hends : Filled [.many (.isOf [.implResult])] [] := .all (List.forall_mem_nil _) .nil
  cases h with
  | many hitems hrest =>
    cases hrest with
    | absent hrest =>
      cases hrest with
      | many hitems' hrest =>
        cases hrest
        rw [List.append_nil]
        exact .many (List.forall_mem_append.2 ⟨hitems, hitems'⟩) (.present hnode hends)
    | present herror _ =>
      exact absurd herror.kind_eq (hnone _ (List.mem_append_right _ (List.mem_cons_self ..)))

variable (h : Sufficient total bound call)
include h

lemma functionSignature :
    Reads total bound (fun nodes _ => Filled
      [.optional (.isOf [.dependentGenericSignature, .dependentPseudogenericSignature])] nodes)
      (Grammar.functionSignature call) :=
  ite _ ((h.signature false).bind fun _ _ hsignature => pure fun _ _ _ =>
      .present (hsignature.among (by decide)) .nil) <|
    ite _ ((h.signature true).bind fun _ _ hsignature => pure fun _ _ _ =>
      .present (hsignature.among (by decide)) .nil) <|
    pure fun _ _ _ => .absent .nil

lemma conventionType {kind : Kind} (hkind : kind ∈ [.implParameter, .implResult, .implErrorResult])
    (place : Convention → Option String) :
    Reads total bound (made (.isOf [kind])) (Grammar.conventionType call kind place) := by
  have hfamily : ∀ kind ∈ [Kind.implParameter, .implResult, .implErrorResult],
      kind.carried = .nothing ∧
        [.one (.isOf [.implConvention]), .one (.isOf [.type])] ∈ kind.shapes := by decide
  obtain ⟨hcarried, hshape⟩ := hfamily kind hkind
  exact (convention place).bind fun name _ _ => h.type.bind fun type _ htype =>
    branch (made_of_mem hcarried hshape (.one (made_conventionNode name) (.one htype .nil))
      (List.mem_singleton_self kind))

lemma parameter : Reads total bound (made (.isOf [.implParameter])) (Grammar.parameter call) :=
  ite _ refuse (conventionType h (by decide) _)

lemma result {earlier : List Node} (hearlier : Filled resultPlaces earlier.reverse) :
    Reads total bound (fun node _ => Filled resultPlaces (node :: earlier).reverse)
      (Grammar.result call earlier) := by
  refine ite _ ((conventionType h (by decide) _).bind fun node _ hnode => ?_) <|
    (conventionType h (by decide) _).weaken fun node _ _ _ hnode => ?_
  · split
    · exact refuse
    · next hnone =>
      refine pure fun _ _ _ => ?_
      rw [List.reverse_cons]
      refine filled_errorResult hearlier (fun other hother herror => ?_) hnode
      exact hnone (List.any_eq_true.2 ⟨other, List.mem_reverse.1 hother, decide_eq_true herror⟩)
  · rw [List.reverse_cons]
    exact filled_result hearlier hnode

lemma implFunctionBody :
    Reads total (bound + 1) (made (.isOf [.implFunctionType])) (Grammar.implFunctionBody call) :=
  calleeConvention.before Settles.calleeConvention fun callee _ _ =>
    functionAttributes.bind fun attributes _ hattributes =>
    (functionSignature h).bind fun signature _ hsignature => (demand _).bind fun _ _ _ =>
    (gatherEach (accept _) fun _ => parameter h).bind fun parameters _ hparameters =>
    (gather (fun earlier => Filled resultPlaces earlier.reverse) (accept _)
      (.many (List.forall_mem_nil _) (.absent (.many (List.forall_mem_nil _) .nil)))
      fun _ hearlier => result h hearlier).bind fun results _ hresults => by
        rw [List.reverse_reverse] at hresults
        have hfilled := Filled.one (made_conventionNode callee)
          (((hattributes.append hsignature).append (.all hparameters .nil)).append hresults)
        exact branch (made_branch rfl (.head _) hfilled rfl)

end LoweredFunctions

end Reads

end SwiftMangling.Grammar
