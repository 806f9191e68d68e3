import SwiftMangling.Proofs.GrammarNesting

/-!
# Types and symbols nest by a few levels

The productions of types, lowered functions, specializations and globals add a few levels to what the
productions inside them find.
-/

namespace SwiftMangling.Grammar.Nests

variable {g : Grants} {start low extra : Nat} {call : Calls}

section Types

lemma builtinType : Nests g start (Within g 1) Grammar.builtinType := by
  have hbuiltin : ∀ {start} (name : Text), Nests g start (Within g 1) (Pure.pure (builtin name)) :=
    fun name => ofHeight (Nat.le_refl 1)
  refine unlessEnd <| next.skip fun c => ?_
  split
  · exact hbuiltin _
  · split
    · exact builtinSize.skip fun _ => hbuiltin _
    · exact builtinSize.skip fun _ => hbuiltin _
    · exact natural.skip fun _ => (demand _).skip fun _ =>
        ite _ (builtinSize.skip fun _ => hbuiltin _) <| ite _ (builtinSize.skip fun _ => hbuiltin _) <|
        ite _ (hbuiltin _) refuse
    · exact refuse

lemma elementLabel : Nests g start (AllWithin g 1) Grammar.elementLabel := by
  refine peek.skip fun c => ?_
  split
  · exact (identifier _).bind fun label _ _ _ hlabel => pure fun _ _ _ =>
      List.forall_mem_singleton.2 (by omega)
  · exact pure fun _ _ _ => nofun

/-- Marking the last element as variadic makes no tuple higher that has elements of two levels. -/
lemma height_markVariadic {elements : List Node} {bound : Nat} (hbound : 1 ≤ bound)
    (h : ∀ element ∈ elements, element.height ≤ bound + 1) :
    ∀ element ∈ markVariadic elements, element.height ≤ bound + 1 := by
  induction elements using markVariadic.induct with
  | case1 => exact h
  | case2 last =>
    exact List.forall_mem_singleton.2
      (Node.height_push_le (h last (List.mem_singleton_self last)) hbound)
  | case3 element elements hne ih =>
    rw [List.forall_mem_cons] at h
    rw [markVariadic]
    · exact List.forall_mem_cons.2 ⟨h.1, ih h.2⟩
    · exact hne

variable (h : Shallow g low extra call)
include h

/-- A production with a node around what it finds. -/
lemma wrapped (kind : Kind) (production : Production)
    (hplain : ∀ nominal, production ≠ .boundArguments nominal) :
    Nests g start (Within g (low + 1)) (Grammar.wrapped call kind production) :=
  (h.plain production hplain _).bind fun _ _ _ _ hchild => single hchild

lemma tupleElement : Nests g start (Within g (low + 1)) (Grammar.tupleElement call) := by
  have hfloor := h.floor
  refine unlessEnd <| elementLabel.bind fun label _ _ _ hlabel =>
    (h.plain .type nofun _).bind fun type owed howed _ htype => branch (label ++ [type]) ?_
  refine List.forall_mem_append.2 ⟨fun node hnode => ?_, List.forall_mem_singleton.2 htype⟩
  have hlow := hlabel node hnode
  omega

lemma tuple (variadic : Bool) : Nests g start (Within g (low + 2)) (Grammar.tuple call variadic) := by
  have hfloor := h.floor
  refine (gatherEach (fun _ => accept _) fun _ _ => tupleElement h).bind
    fun elements owed _ htotal helements => ?_
  cases variadic with
  | false => exact branch elements helements
  | true =>
    have hbound : ∀ element ∈ elements, element.height ≤ g.total + low - owed + 1 := by
      intro element helement
      have hwithin := helements element helement
      omega
    refine branch (markVariadic elements) fun element helement => ?_
    have hmarked := height_markVariadic (by omega) hbound element helement
    omega

lemma functionType (kind : Kind) :
    Nests g start (Within g (low + 2)) (Grammar.functionType call kind) := by
  refine (accept _).skip fun throwing => (h.plain .type nofun _).bind fun arguments _ _ _ harguments =>
    (h.plain .type nofun _).bind fun result _ _ _ hresult =>
    (single (by omega)).bind fun arguments _ _ _ (harguments : Within g (low + 1) arguments _) =>
    (single (by omega)).bind fun result _ _ htotal (hresult : Within g (low + 1) result _) => ?_
  cases throwing with
  | false => exact pair (by omega) (by omega)
  | true => exact triple (show 1 + _ ≤ _ by omega) (by omega) (by omega)

lemma representedMetatype (kind : Kind) :
    Nests g start (Within g (low + 1)) (Grammar.representedMetatype call kind) := by
  have hfloor := h.floor
  exact peek.skip fun _ => (orRefuse _).skip fun name => next.skip fun _ =>
    (h.plain .type nofun _).bind fun type _ _ _ htype =>
    named.bind fun representation _ _ _ hrepresentation => pair (by omega) (by omega)

lemma boxField : Nests g start (Within g (low + 1)) (Grammar.boxField call) :=
  ite _ (wrapped h _ .type nofun) <| ite _ (wrapped h _ .type nofun) refuse

lemma boxWithLayout : Nests g start (Within g (low + 3)) (Grammar.boxWithLayout call) := by
  refine (afterMark _ (h.plain (.signature false) nofun _)).bind fun signature _ _ _ hsignature =>
    (gatherEach (fun _ => accept _) fun _ _ => boxField h).bind fun fields _ _ _ hfields =>
    (branch fields hfields).bind fun layout _ _ _ hlayout => ?_
  cases signature with
  | none => exact single hlayout
  | some signature =>
    have hsignature := hsignature signature rfl
    exact (gatherEach (fun _ => accept _) fun _ _ => h.plain .type nofun _).bind
      fun arguments _ _ _ harguments => (branch arguments harguments).bind
      fun list _ _ _ hlist => triple (by omega) (by omega) (by omega)

lemma extendedType : Nests g start (Within g (low + 4)) (Grammar.extendedType call) := by
  have hwrapped : ∀ kind, Nests g start (Within g (low + 4)) (Grammar.wrapped call kind .type) :=
    fun kind => (wrapped h kind .type nofun).upTo (by omega)
  have hmetatype : ∀ kind, Nests g start (Within g (low + 4)) (Grammar.representedMetatype call kind) :=
    fun kind => (representedMetatype h kind).upTo (by omega)
  refine ite _ (hwrapped _) <| ite _ ((boxWithLayout h).upTo (by omega)) <| ite _ (hmetatype _) <|
    ite _ (ite _ (hmetatype _) (protocolList h)) <| ite _ ((functionType h _).upTo (by omega)) <|
    peek.skip fun c => ?_
  cases storageKind? c with
  | none => exact ite _ ((h.plain .implFunction nofun _).upTo (by omega)) refuse
  | some kind => exact next.skip fun _ => hwrapped kind

lemma genericType : Nests g start (Within g (low + 1)) (Grammar.genericType call) :=
  (h.plain (.signature false) nofun _).bind fun signature _ _ _ hsignature =>
    (h.plain .type nofun _).bind fun type _ _ _ htype => pair (by omega) htype

lemma bareType : Nests g start (Within g (low + extra + 4)) (Grammar.bareType call) := by
  have hfloor := h.floor
  have hdeclared : ∀ kind, Nests g start (Within g (low + extra + 4)) (Grammar.declaration call kind) :=
    fun kind => (declaration h kind).upTo (by omega)
  have hfunction : ∀ kind, Nests g start (Within g (low + extra + 4)) (Grammar.functionType call kind) :=
    fun kind => (functionType h kind).upTo (by omega)
  have hwrapped : ∀ kind, Nests g start (Within g (low + extra + 4)) (Grammar.wrapped call kind .type) :=
    fun kind => (wrapped h kind .type nofun).upTo (by omega)
  refine unlessEnd <| nextAfter fun c => ?_
  split
  · exact .inl (builtinType.upTo (by omega))
  · exact .inl (hdeclared _)
  iterate 5 exact .inl (hfunction _)
  · exact .inl (hwrapped _)
  · exact .inl ((demand _).skip fun _ => named.upTo (by omega))
  · exact .inl ((boundGeneric h).upTo (by omega))
  · exact .inl (hwrapped _)
  · exact .inl (ite _ (hwrapped _) ((protocolList h).upTo (by omega)))
  · exact .inl ((h.plain .archetype nofun _).upTo (by omega))
  · exact .inl ((dependentType h).upTo (by omega))
  · exact .inl (ofHeight (by rw [height_genericParam]; omega))
  · exact .inl ((simpleMemberType h).upTo (by omega))
  · refine .inr ⟨by decide, fun b hb => ?_⟩
    obtain rfl := Bytes.eq_of_char hb
    exact compoundMemberType_after h (by omega)
  · exact .inl ((wrapped h _ .bareType nofun).upTo (by omega))
  · refine .inr ⟨by decide, fun b hb => ?_⟩
    obtain rfl := Bytes.eq_of_char hb
    exact substitution_after h.granted (by omega)
  · exact .inl ((tuple h false).upTo (by omega))
  · exact .inl ((tuple h true).upTo (by omega))
  · exact .inl ((genericType h).upTo (by omega))
  · exact .inl ((extendedType h).upTo (by omega))
  · exact .inl (hdeclared _)
  · exact .inl (hdeclared _)
  · exact .inl (hdeclared _)
  · exact .inl refuse

lemma typeNode : Nests g start (Within g (low + 1)) (Grammar.typeNode call) :=
  wrapped h .type .bareType nofun

end Types

section LoweredFunctions

lemma convention (place : Convention → Option String) :
    Nests g start Whatever (Grammar.convention place) :=
  peek.skip fun _ => (orRefuse _).skip fun _ => next.skip fun _ => orRefuse _

lemma calleeConvention : Nests g start Whatever Grammar.calleeConvention :=
  ite _ (pure fun _ _ _ => trivial) (convention _)

lemma functionAttributes : Nests g start (AllWithin g 1) Grammar.functionAttributes :=
  ite _ (next.skip fun _ => (orRefuse _).skip fun name => pure fun owed _ htotal =>
      List.forall_mem_singleton.2 (show 1 + owed ≤ _ by omega)) <|
    pure fun _ _ _ => nofun

variable (h : Shallow g low extra call)
include h

lemma functionSignature : Nests g start (AllWithin g low) (Grammar.functionSignature call) :=
  ite _ ((h.plain (.signature false) nofun _).bind fun signature _ _ _ hsignature => pure fun _ _ _ =>
      List.forall_mem_singleton.2 (by omega)) <|
    ite _ ((h.plain (.signature true) nofun _).bind fun signature _ _ _ hsignature => pure fun _ _ _ =>
      List.forall_mem_singleton.2 (by omega)) <|
    pure fun _ _ _ => nofun

lemma conventionType (kind : Kind) (place : Convention → Option String) :
    Nests g start (Within g (low + 1)) (Grammar.conventionType call kind place) := by
  have hfloor := h.floor
  exact (convention place).skip fun name => (h.plain .type nofun _).bind fun type _ _ _ htype =>
    pair (show 1 + _ ≤ _ by omega) htype

lemma parameter : Nests g start (Within g (low + 1)) (Grammar.parameter call) :=
  ite _ refuse (conventionType h _ _)

lemma result (earlier : List Node) :
    Nests g start (Within g (low + 1)) (Grammar.result call earlier) := by
  refine ite _ ((conventionType h _ _).bind fun node _ _ _ hnode => ?_) (conventionType h _ _)
  split
  · exact refuse
  · exact pure fun _ _ _ => by omega

lemma implFunctionBody : Nests g start (Within g (low + 2)) (Grammar.implFunctionBody call) := by
  refine calleeConvention.skip fun callee => functionAttributes.bind fun attributes owed₁ _ _ hattributes =>
    (functionSignature h).bind fun signature owed₂ _ _ hsignature => (demand _).skip fun _ =>
    (gatherEach (fun _ => accept _) fun _ _ => parameter h).bind fun parameters owed₃ _ _ hparameters =>
    (gatherEach (fun _ => accept _) fun _ earlier => result h earlier).bind
      fun results owed₄ _ _ hresults => ?_
  refine branch (conventionNode callee :: attributes ++ signature ++ parameters ++ results) ?_
  simp only [List.cons_append, List.forall_mem_cons, List.forall_mem_append, and_assoc]
  refine ⟨show 1 + _ ≤ _ by omega, fun node hnode => ?_, fun node hnode => ?_, fun node hnode => ?_, ?_⟩
  · have hlow := hattributes node hnode
    omega
  · have hlow := hsignature node hnode
    omega
  · have hlow := hparameters node hnode
    omega
  · exact hresults

end LoweredFunctions

section Specializations

/-- A payload is a leaf, whether it has a text or not. -/
lemma payloadNode (content : Option Text) : Nests g start (Within g 1) (Grammar.payloadNode content) := by
  cases content with
  | none => exact ofHeight (Nat.le_refl 1)
  | some content => exact ofHeight (Nat.le_refl 1)

lemma textOfChars (bytes : Bytes) : Nests g start Whatever (Grammar.textOfChars (Text.ofBytes bytes)) := by
  rw [textOfChars_ofBytes]
  exact pure fun _ _ _ => trivial

lemma allWithin_change {what : ParamChange} {nodes : List Node} {owed : Nat} (hinside : owed ≤ g.total)
    (hnodes : AllWithin g 1 nodes owed) : AllWithin g 1 (change what :: nodes) owed :=
  List.forall_mem_cons.2 ⟨show 1 + owed ≤ _ by omega, hnodes⟩

lemma constantName (what : ParamChange) : Nests g start (AllWithin g 1) (Grammar.constantName what) :=
  (identifier none).bind fun _ _ _ _ _ => (demand _).skip fun _ => (payloadNode _).bind
    fun payload _ _ _ hpayload => pure fun _ _ htotal => allWithin_change htotal
      (List.forall_mem_singleton.2 (by omega))

lemma constantLiteral (what : ParamChange) :
    Nests g start (AllWithin g 1) (Grammar.constantLiteral what) :=
  (readUntil _).skip fun _ => (demand _).skip fun _ => (textOfChars _).skip fun text =>
    (payloadNode (some text)).bind fun payload _ _ _ hpayload => pure fun _ _ htotal =>
      allWithin_change htotal (List.forall_mem_singleton.2 (by omega))

lemma constantString : Nests g start (AllWithin g 1) Grammar.constantString :=
  (demand _).skip fun _ => (ite _ (pure fun _ _ _ => trivial) <|
      ite _ (pure fun _ _ _ => trivial) refuse : Nests g start Whatever stringEncoding).skip fun encoding =>
    (demand _).skip fun _ => (identifier none).bind fun content _ _ _ _ => (demand _).skip fun _ =>
    (payloadNode (some encoding)).bind fun encoding _ _ _ hencoding =>
    (payloadNode _).bind fun content _ _ _ hcontent => pure fun _ _ htotal => allWithin_change htotal
      (List.forall_mem_cons.2 ⟨by omega, List.forall_mem_singleton.2 (by omega)⟩)

lemma constantChange : Nests g start (AllWithin g 1) Grammar.constantChange :=
  ite _ (constantName _) <| ite _ (constantName _) <| ite _ (constantLiteral _) <|
    ite _ (constantLiteral _) <| ite _ constantString refuse

lemma flag (letter : Text) (what : ParamChange) : Nests g start Whatever (Grammar.flag letter what) :=
  ite _ (pure fun _ _ _ => trivial) (pure fun _ _ _ => trivial)

lemma flagChange : Nests g start (AllWithin g 1) Grammar.flagChange := by
  refine (flag _ _).skip fun _ => (flag _ _).skip fun _ => (flag _ _).skip fun _ =>
    (flag _ _).skip fun _ => (demand _).skip fun _ => ?_
  dsimp only
  split
  · exact refuse
  · exact pure fun owed _ htotal => List.forall_mem_singleton.2 (show 1 + owed ≤ _ by omega)

lemma passNumber : Nests g start (Within g 1) Grammar.passNumber := by
  refine peek.skip fun c => ?_
  split
  · exact next.skip fun _ => numbered [] (List.forall_mem_nil _)
  · exact refuse

lemma specializationOf {kind : Kind} {params : Parser (List Node)} {levels : Nat} (hlevels : 1 ≤ levels)
    (hparams : ∀ start, Nests g start (AllWithin g levels) params) :
    Nests g start (Within g (levels + 1)) (Grammar.specializationOf kind params) := by
  refine (accept _).skip fun serialized => passNumber.bind fun pass _ _ _ hpass =>
    (hparams _).bind fun params owed _ htotal hparams => ?_
  have hnodes : AllWithin g levels (pass :: params) owed :=
    List.forall_mem_cons.2 ⟨by omega, hparams⟩
  cases serialized with
  | false => exact branch (pass :: params) hnodes
  | true =>
    exact branch (.branch .isSerialized [] :: pass :: params)
      (List.forall_mem_cons.2 ⟨show 1 + owed ≤ _ by omega, hnodes⟩)

variable (h : Shallow g low extra call)
include h

lemma closureChange : Nests g start (AllWithin g low) (Grammar.closureChange call) := by
  have hfloor := h.floor
  refine (identifier none).bind fun _ _ _ _ _ => (payloadNode _).bind fun payload _ _ _ hpayload =>
    (gatherFound (fun _ => peek.skip fun _ => pure fun _ _ _ => trivial) fun _ =>
      h.plain .type nofun _).bind fun types owed howed _ htypes => (demand _).skip fun _ =>
    pure fun owed' howed' htotal => List.forall_mem_cons.2 ⟨show 1 + owed' ≤ _ by omega,
      List.forall_mem_cons.2 ⟨by omega, fun type htype => ?_⟩⟩
  have hwithin := htypes type htype
  omega

lemma paramChange : Nests g start (AllWithin g low) (Grammar.paramChange call) := by
  have hfloor := h.floor
  have hsingle : ∀ what, Nests g start (AllWithin g low) (Pure.pure [change what]) := fun what =>
    pure fun owed _ htotal => List.forall_mem_singleton.2 (show 1 + owed ≤ _ by omega)
  have hraised : ∀ {p : Parser (List Node)}, Nests g start (AllWithin g 1) p →
      Nests g start (AllWithin g low) p := fun hp =>
    hp.weaken fun nodes owed _ _ hnodes node hnode => by
      have hwithin := hnodes node hnode
      omega
  exact ite _ (pure fun _ _ _ => nofun) <| ite _ (hraised constantChange) <|
    ite _ (closureChange h) <| ite _ (hsingle _) <| ite _ (hsingle _) (hraised flagChange)

lemma signatureParams : Nests g start (AllWithin g (low + 1)) (Grammar.signatureParams call) :=
  gatherEach (fun _ => accept _) fun _ _ => (paramChange h).bind fun changes _ _ _ hchanges =>
    numbered changes hchanges

lemma genericParamNode : Nests g start (Within g (low + 4)) (Grammar.genericParamNode call) :=
  (h.plain .type nofun _).bind fun type _ _ _ htype =>
    (gatherEach (fun _ => accept _) fun _ _ => conformance h).bind
      fun conformances _ _ _ hconformances => branch (type :: conformances)
        (List.forall_mem_cons.2 ⟨by omega, hconformances⟩)

lemma genericParams : Nests g start (AllWithin g (low + 4)) (Grammar.genericParams call) :=
  gatherEach (fun _ => accept _) fun _ _ => genericParamNode h

lemma specialization : Nests g start (Within g (low + 5)) (Grammar.specialization call) :=
  ite _ (specializationOf (by omega) fun _ => genericParams h) <|
    ite _ (specializationOf (by omega) fun _ => genericParams h) <|
    ite _ ((specializationOf (by omega) fun _ => signatureParams h).upTo (by omega)) refuse

lemma specializations : Nests g start (AllWithin g (low + 5)) (Grammar.specializations call) := by
  refine iterate (AllWithin g (low + 5)) (fun nodes owed owed' howed hnodes node hnode => ?_)
    (fun start earlier hearlier => (specialization h).bind fun node owed howed _ hnode =>
      forget.skip fun _ => ?_) nofun
  · have hwithin := hnodes node hnode
    omega
  · have hnodes : ∀ owed', owed' ≤ owed → AllWithin g (low + 5) (node :: earlier) owed' := by
      intro owed' howed'
      refine List.forall_mem_cons.2 ⟨by omega, fun other hother => ?_⟩
      have hwithin := hearlier other hother
      omega
    exact ite _ (pure fun owed' howed' _ => hnodes owed' howed') <| pure fun owed' howed' _ other hother =>
      hnodes owed' howed' other (List.mem_reverse.1 hother)

end Specializations

section Globals

lemma inOrder {kind : Kind} {parts : List (Parser Node)} {levels : Nat}
    (hparts : ∀ part ∈ parts, ∀ start, Nests g start (Within g levels) part) :
    Nests g start (Within g (levels + 1)) (Grammar.inOrder kind parts) := by
  have hall : Nests g start (AllWithin g levels) (parts.mapM id) := by
    induction parts generalizing start with
    | nil => exact pure fun _ _ _ => nofun
    | cons part parts ih =>
      obtain ⟨hpart, hparts⟩ := List.forall_mem_cons.1 hparts
      rw [List.mapM_cons]
      refine (hpart start).bind fun node owed _ _ hnode => (ih hparts).bind fun nodes owed' _ _ hnodes =>
        pure fun owed'' _ _ => List.forall_mem_cons.2 ⟨by omega, fun other hother => ?_⟩
      have hwithin := hnodes other hother
      omega
  exact hall.bind fun children _ _ _ hchildren => branch children hchildren

lemma directness : Nests g start (Within g 1) Grammar.directness :=
  ite _ (numbered [] (List.forall_mem_nil _)) <| ite _ (numbered [] (List.forall_mem_nil _)) refuse

lemma symbolAttributes : Nests g start (AllWithin g 1) Grammar.symbolAttributes := by
  have hleaf : ∀ kind, Nests g start (AllWithin g 1) (Pure.pure [.branch kind []]) := fun kind =>
    pure fun owed _ htotal => List.forall_mem_singleton.2 (show 1 + owed ≤ _ by omega)
  exact ite _ (hleaf _) <| ite _ (hleaf _) <| ite _ (hleaf _) <| ite _ (hleaf _) <|
    ite _ (hleaf _) <| pure fun _ _ _ => nofun

lemma trailing : Nests g start (AllWithin g 1) Grammar.trailing := by
  refine atEnd.skip fun ended => ?_
  cases ended with
  | true => exact pure fun _ _ _ => nofun
  | false =>
    exact takeRest.skip fun _ => (textOfChars _).skip fun _ => named.bind fun suffix _ _ _ hsuffix =>
      pure fun _ _ _ => List.forall_mem_singleton.2 (by omega)

variable (h : Shallow g low extra call)
include h

lemma metadata : Nests g start (Within g (low + 3)) (Grammar.metadata call) := by
  refine peek.skip fun c => ?_
  cases metadataKind? c with
  | some kind => exact next.skip fun _ => (wrapped h kind .type nofun).upTo (by omega)
  | none =>
    exact ite _ (inOrder (List.forall_mem_singleton.2 fun _ => protocolType h)) <|
      (wrapped h _ .type nofun).upTo (by omega)

lemma valueWitness : Nests g start (Within g (low + 1)) (Grammar.valueWitness call) :=
  (advance _).skip fun _ => (orRefuse _).skip fun _ => (h.plain .type nofun _).bind
    fun type _ _ _ htype => numbered [type] (List.forall_mem_singleton.2 htype)

lemma witness?_parts {c : Char} {kind : Kind} {parts : List (Parser Node)}
    (hwitness : witness? call c = some (kind, parts)) :
    ∀ part ∈ parts, ∀ start, Nests g start (Within g (low + 3)) part := by
  have hfloor := h.floor
  have htype : ∀ start, Nests g start (Within g (low + 3)) (call .type) := fun start =>
    (h.plain .type nofun start).upTo (by omega)
  have hconformance : ∀ start, Nests g start (Within g (low + 3)) (Grammar.conformance call) :=
    fun _ => conformance h
  have hname : ∀ start, Nests g start (Within g (low + 3)) Grammar.declName :=
    fun _ => declName.upTo (by omega)
  have hprotocol : ∀ start, Nests g start (Within g (low + 3)) (Grammar.protocolType call) :=
    fun _ => (protocolType h).upTo (by omega)
  unfold witness? at hwitness
  split at hwitness <;> cases hwitness <;>
    simp [htype, hconformance, hname, hprotocol]

lemma witness : Nests g start (Within g (low + 4)) (Grammar.witness call) := by
  have hfloor := h.floor
  refine ite _ ?_ <| peek.skip fun c => ?_
  · exact inOrder (List.forall_mem_cons.2 ⟨fun _ => directness.upTo (by omega),
      List.forall_mem_singleton.2 fun _ => (h.plain .entity nofun _).upTo (by omega)⟩)
  · cases hwitness : witness? call c with
    | none => exact refuse
    | some parts => exact next.skip fun _ => inOrder (witness?_parts h hwitness)

lemma reabstraction (kind : Kind) :
    Nests g start (Within g (low + 1)) (Grammar.reabstraction call kind) := by
  refine (afterMark _ (h.plain (.signature false) nofun _)).bind fun signature _ _ _ hsignature =>
    (h.plain .type nofun _).bind fun source _ _ _ hsource =>
    (h.plain .type nofun _).bind fun target _ _ _ htarget => ?_
  cases signature with
  | none => exact pair (by omega) htarget
  | some signature =>
    have hwithin := hsignature signature rfl
    exact triple (by omega) (by omega) htarget

lemma thunk : Nests g start (Within g (low + 4)) (Grammar.thunk call) :=
  ite _ ((reabstraction h _).upTo (by omega)) <| ite _ ((reabstraction h _).upTo (by omega)) <|
    ite _ (inOrder (List.forall_mem_cons.2 ⟨fun _ => conformance h,
      List.forall_mem_singleton.2 fun _ => (h.plain .entity nofun _).upTo (by omega)⟩)) refuse

lemma partialApply : Nests g start (Within g (low + 1)) (Grammar.partialApply call) :=
  (accept _).skip fun _ => ite _ (wrapped h _ .global nofun) <|
    ofHeight (Nat.le_add_left 1 low)

lemma globalBody : Nests g start (Within g (low + 4)) (Grammar.globalBody call) :=
  unlessEnd <| ite _ ((metadata h).upTo (by omega)) <| ite _ ((partialApply h).upTo (by omega)) <|
    ite _ ((wrapped h _ .type nofun).upTo (by omega)) <| ite _ ((valueWitness h).upTo (by omega)) <|
    ite _ (witness h) <| ite _ (thunk h) <| (h.plain .entity nofun _).upTo (by omega)

lemma symbolPrelude : Nests g start (AllWithin g (low + 5)) (Grammar.symbolPrelude call) := by
  refine ite _ ((specializations h).bind fun nodes _ _ _ hnodes => (demand _).skip fun _ =>
      pure fun _ _ _ node hnode => ?_) <|
    symbolAttributes.weaken fun nodes _ _ _ hnodes node hnode => ?_
  · have hwithin := hnodes node hnode
    omega
  · have hwithin := hnodes node hnode
    omega

/-- A symbol has a few levels more than a production that is used in it. -/
theorem symbol : Nests g start (Within g (low + 6)) (Grammar.symbol call) := by
  refine (demand _).skip fun _ => (symbolPrelude h).bind fun prelude _ _ _ hprelude =>
    (h.plain .global nofun _).bind fun body _ _ _ hbody => trailing.bind fun suffix _ _ _ hsuffix =>
    branch (prelude ++ body :: suffix) (List.forall_mem_append.2 ⟨fun node hnode => ?_,
      List.forall_mem_cons.2 ⟨by omega, fun node hnode => ?_⟩⟩)
  · have hwithin := hprelude node hnode
    omega
  · have hwithin := hsuffix node hnode
    omega

end Globals

end SwiftMangling.Grammar.Nests
