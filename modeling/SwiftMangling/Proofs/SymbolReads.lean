import SwiftMangling.Proofs.TypeReads

/-!
# Symbols find well-formed nodes

Around a global there are specializations or an attribute before it, and what is left after it. With
the productions all together, what is read below a bound is read below a larger one within a budget
that is larger by one and by the levels that generic arguments may have.
-/

namespace SwiftMangling.Grammar

namespace Reads

variable {total bound : Nat} {call : Calls}

section Specializations

/-- A plain name carries its text. -/
lemma text_of_name {name : Node} (h : Made (.isOf Kind.names) name) :
    ∃ content, name.text? = some content := by
  obtain ⟨kind, payload, children⟩ := name
  have hcarried : ∀ kind ∈ Kind.names, kind.carried = .text := by decide
  have hpayload := h.wellFormed.carried.trans (hcarried kind h.kind_mem)
  cases payload with
  | text content => exact ⟨content, rfl⟩
  | empty => cases hpayload
  | index number => cases hpayload

/-- Children that fill a shape of a kind. -/
abbrev shaped (kind : Kind) : List Node → Nat → Prop :=
  fun children _ => ∃ places ∈ kind.shapes, Filled places children

lemma made_change (number : Nat) :
    Made (.isOf [.functionSignatureSpecializationParamKind]) (changeNode number) :=
  made_numbered rfl (.head _) _

lemma payloadNode (content : Text) :
    Reads total bound (made (.isOf [.functionSignatureSpecializationParamPayload]))
      (Grammar.payloadNode content) :=
  pure fun _ _ _ => made_named rfl (.head _) content

lemma namePayload {name : Node} (hname : Made (.isOf Kind.names) name) :
    Reads total bound (made (.isOf [.functionSignatureSpecializationParamPayload]))
      (Grammar.payloadNode name.text?) := by
  obtain ⟨content, hcontent⟩ := text_of_name hname
  rw [hcontent]
  exact payloadNode content

/-- A change with one payload. -/
lemma shaped_payload (number : Nat) {payload : Node} {rest : Nat}
    (hpayload : Made (.isOf [.functionSignatureSpecializationParamPayload]) payload) :
    shaped .functionSignatureSpecializationParam [changeNode number, payload] rest :=
  ⟨_, .tail _ (.tail _ (.head _)), .one (made_change number) (.one hpayload (.absent .nil))⟩

lemma shaped_change (number : Nat) {rest : Nat} :
    shaped .functionSignatureSpecializationParam [changeNode number] rest :=
  ⟨_, .tail _ (.head _), .one (made_change number) .nil⟩

lemma constantName (what : ParamChange) :
    Reads total bound (shaped .functionSignatureSpecializationParam) (Grammar.constantName what) :=
  identifier.bind fun _ _ hname => (demand _).bind fun _ _ _ => (namePayload hname).bind
    fun _ _ hpayload => pure fun _ _ _ => shaped_payload _ hpayload

lemma constantLiteral (what : ParamChange) :
    Reads total bound (shaped .functionSignatureSpecializationParam) (Grammar.constantLiteral what) := by
  refine (readUntil _).bind fun literal _ _ => (demand _).bind fun _ _ _ => ?_
  rw [textOfChars_ofBytes, pure_bind]
  exact (payloadNode _).bind fun _ _ hpayload => pure fun _ _ _ => shaped_payload _ hpayload

lemma stringEncoding : Reads total bound anything Grammar.stringEncoding :=
  ite _ (pure fun _ _ _ => trivial) <| ite _ (pure fun _ _ _ => trivial) refuse

lemma constantString :
    Reads total bound (shaped .functionSignatureSpecializationParam) Grammar.constantString :=
  (demand _).bind fun _ _ _ => stringEncoding.bind fun encoding _ _ => (demand _).bind fun _ _ _ =>
    identifier.bind fun _ _ hcontent => (demand _).bind fun _ _ _ =>
    (payloadNode encoding).bind fun _ _ hencoding => (namePayload hcontent).bind fun _ _ hpayload =>
    pure fun _ _ _ => ⟨_, .tail _ (.tail _ (.head _)),
      .one (made_change _) (.one hencoding (.present hpayload .nil))⟩

lemma constantChange :
    Reads total bound (shaped .functionSignatureSpecializationParam) Grammar.constantChange :=
  ite _ (constantName _) <| ite _ (constantName _) <| ite _ (constantLiteral _) <|
    ite _ (constantLiteral _) <| ite _ constantString refuse

lemma flagChange :
    Reads total bound (shaped .functionSignatureSpecializationParam) Grammar.flagChange := by
  have hflag : ∀ (letter : Text) (what : ParamChange),
      Reads total bound anything (Grammar.flag letter what) := fun letter what =>
    ite _ (pure fun _ _ _ => trivial) (pure fun _ _ _ => trivial)
  refine (hflag _ _).bind fun _ _ _ => (hflag _ _).bind fun _ _ _ => (hflag _ _).bind fun _ _ _ =>
    (hflag _ _).bind fun _ _ _ => (demand _).bind fun _ _ _ => ?_
  dsimp only
  split
  · exact refuse
  · exact pure fun _ _ _ => shaped_change _

lemma passNumber : Reads total bound (made (.isOf [.specializationPassID])) Grammar.passNumber := by
  refine peek.bind fun c _ _ => ?_
  split
  · exact next.bind fun _ _ _ => numbered (made_numbered rfl (.head _) _)
  · exact refuse

lemma specializationOf {kind : Kind} {test : Test} {params : Parser (List Node)}
    (hkind : kind ∈ Kind.specializations)
    (hshape : [.optional (.isOf [.isSerialized]), .one (.isOf [.specializationPassID]), .many test] ∈
      kind.shapes)
    (hparams : Reads total bound (each test) params) :
    Reads total bound (made (.isOf Kind.specializations)) (Grammar.specializationOf kind params) := by
  have hcarried : ∀ kind ∈ Kind.specializations, kind.carried = .nothing := by decide
  refine (accept _).bind fun serialized _ _ => passNumber.bind fun pass _ hpass =>
    hparams.bind fun params _ hparams => ?_
  have hserialized : Made (.isOf [.isSerialized]) (.branch .isSerialized []) :=
    made_branch rfl (.head _) .nil rfl
  have hrest := Filled.one hpass (.all hparams .nil)
  cases serialized with
  | false => exact branch (made_of_mem (hcarried kind hkind) hshape (.absent hrest) hkind)
  | true => exact branch (made_of_mem (hcarried kind hkind) hshape (.present hserialized hrest) hkind)

variable (h : Sufficient total bound call)
include h

lemma closureChange :
    Reads total bound (shaped .functionSignatureSpecializationParam) (Grammar.closureChange call) := by
  have hstop : Reads total bound anything (do
      let c ← Grammar.peek
      Pure.pure (c = '_' : Bool)) := peek.bind fun _ _ _ => pure fun _ _ _ => trivial
  exact identifier.bind fun _ _ hname => (namePayload hname).bind fun _ _ hpayload =>
    (gatherFound hstop h.type).bind fun _ _ htypes => (demand _).bind fun _ _ _ => pure fun _ _ _ =>
      ⟨_, .tail _ (.tail _ (.tail _ (.head _))),
        .one (made_change _) (.one hpayload (.all htypes .nil))⟩

lemma paramChange :
    Reads total bound (shaped .functionSignatureSpecializationParam) (Grammar.paramChange call) :=
  ite _ (pure fun _ _ _ => ⟨_, .head _, .nil⟩) <| ite _ constantChange <| ite _ (closureChange h) <|
    ite _ (pure fun _ _ _ => shaped_change _) <| ite _ (pure fun _ _ _ => shaped_change _) flagChange

lemma signatureParams :
    Reads total bound (each (.isOf [.functionSignatureSpecializationParam]))
      (Grammar.signatureParams call) := by
  refine gatherEach (accept _) fun earlier => (paramChange h).bind fun changes _ hchanges => ?_
  obtain ⟨places, hshape, hfilled⟩ := hchanges
  exact numbered ⟨wellFormed_mk rfl hshape hfilled, rfl⟩

lemma genericParams :
    Reads total bound (each (.isOf [.genericSpecializationParam])) (Grammar.genericParams call) :=
  gatherEach (accept _) fun _ => h.type.bind fun _ _ htype =>
    (gatherEach (accept _) fun _ => conformance h).bind fun _ _ hconformances =>
    branch (made_branch rfl (.head _) (.one htype (.all hconformances .nil)) rfl)

lemma specialization :
    Reads total bound (made (.isOf Kind.specializations)) (Grammar.specialization call) :=
  ite _ (specializationOf (by decide) (.head _) (genericParams h)) <|
    ite _ (specializationOf (by decide) (.head _) (genericParams h)) <|
    ite _ (specializationOf (by decide) (.head _) (signatureParams h)) refuse

lemma specializations :
    Reads total bound (fun nodes _ =>
      Filled [.one (.isOf Kind.specializations), .many (.isOf Kind.specializations)] nodes)
      (Grammar.specializations call) := by
  refine iterate (fun earlier (hearlier : ∀ node ∈ earlier, Made (.isOf Kind.specializations) node) =>
    (specialization h).bind fun node _ hnode => forget.bind fun _ _ _ => ?_) (fun _ => nofun)
  have hnodes : ∀ other ∈ node :: earlier, Made (.isOf Kind.specializations) other :=
    List.forall_mem_cons.2 ⟨hnode, hearlier⟩
  refine ite _ (pure fun _ _ _ => hnodes) (pure fun _ _ _ => ?_)
  have hreverse : ∀ other ∈ (node :: earlier).reverse, Made (.isOf Kind.specializations) other :=
    fun other hother => hnodes other (List.mem_reverse.1 hother)
  obtain ⟨first, others, heq⟩ := List.exists_cons_of_ne_nil
    (List.reverse_ne_nil_iff.2 (List.cons_ne_nil node earlier))
  rw [heq, List.forall_mem_cons] at hreverse
  rw [afterRound, heq]
  exact .one hreverse.1 (.all hreverse.2 .nil)

end Specializations

section Globals

/-- The parts of a node that are read in order. -/
lemma parts {parts : List (Parser Node)} {tests : List Test}
    (hparts : List.Forall₂ (fun p test => Reads total bound (made test) p) parts tests) :
    Reads total bound (fun nodes _ => Filled (tests.map .one) nodes) (parts.mapM id) := by
  induction hparts with
  | nil => exact pure fun _ _ _ => .nil
  | cons hp _ ih =>
    rw [List.mapM_cons]
    exact hp.bind fun _ _ hnode => ih.bind fun _ _ hnodes => pure fun _ _ _ => .one hnode hnodes

lemma inOrder {kind : Kind} {tests : List Test} {parts : List (Parser Node)}
    (hparts : List.Forall₂ (fun p test => Reads total bound (made test) p) parts tests)
    (hkind : kind.carried = .nothing ∧ tests.map .one ∈ kind.shapes ∧ kind ∈ Kind.globals) :
    Reads total bound (made (.isOf Kind.globals)) (Grammar.inOrder kind parts) := by
  obtain ⟨hcarried, hshape, hmem⟩ := hkind
  exact (Reads.parts hparts).bind fun _ _ hfilled =>
    branch (made_of_mem hcarried hshape hfilled hmem)

lemma directness : Reads total bound (made (.isOf [.directness])) Grammar.directness :=
  ite _ (numbered (made_numbered rfl (.head _) _)) <|
    ite _ (numbered (made_numbered rfl (.head _) _)) refuse

lemma trailing :
    Reads total bound (fun nodes _ => Filled [.optional (.isOf [.suffix])] nodes) Grammar.trailing := by
  refine atEnd.bind fun ended _ _ => ?_
  cases ended with
  | true => exact pure fun _ _ _ => .absent .nil
  | false =>
    refine takeRest.bind fun bytes _ _ => ?_
    rw [textOfChars_ofBytes, pure_bind]
    exact pure fun _ _ _ => .present (made_named rfl (.head _) _) .nil

lemma symbolAttributes :
    Reads total bound (fun nodes _ => Filled [.optional (.isOf Kind.attributes)] nodes)
      Grammar.symbolAttributes := by
  have hattribute : ∀ kind ∈ Kind.attributes, Reads total bound
      (fun nodes _ => Filled [.optional (.isOf Kind.attributes)] nodes)
      (Pure.pure [.branch kind []]) := fun kind hkind => pure fun _ _ _ =>
    .present (made_family (by decide) hkind .nil) .nil
  exact ite _ (hattribute _ (by decide)) <| ite _ (hattribute _ (by decide)) <|
    ite _ (hattribute _ (by decide)) <| ite _ (hattribute _ (by decide)) <|
    ite _ (hattribute _ (by decide)) (pure fun _ _ _ => .absent .nil)

variable (h : Sufficient total bound call)
include h

lemma metadata : Reads total bound (made (.isOf Kind.globals)) (Grammar.metadata call) := by
  refine peek.bind fun c _ _ => ?_
  cases hkind : metadataKind? c with
  | some kind =>
    have hkinds : kind.carried = .nothing ∧ [.one (.isOf [.type])] ∈ kind.shapes ∧
        kind ∈ Kind.globals := by
      unfold metadataKind? at hkind
      split at hkind <;> cases hkind <;> decide
    obtain ⟨hcarried, hshape, hmem⟩ := hkinds
    exact next.bind fun _ _ _ => wrapped h.type hcarried hshape hmem
  | none =>
    exact ite _ (inOrder (.cons (protocolType h) .nil) (by decide))
      (wrapped h.type rfl (.head _) (by decide))

lemma valueWitness : Reads total bound (made (.isOf Kind.globals)) (Grammar.valueWitness call) :=
  (advance 2).bind fun _ _ _ => (orRefuse _).bind fun _ _ _ => h.type.bind fun _ _ htype =>
    numbered ⟨wellFormed_mk rfl (.head _) (.one htype .nil), rfl⟩

/-- What a witness is made of fills the shape of its kind. -/
lemma witness?_reads {c : Char} {kind : Kind} {parts : List (Parser Node)}
    (hwitness : witness? call c = some (kind, parts)) :
    Reads total bound (made (.isOf Kind.globals)) (Grammar.inOrder kind parts) := by
  unfold witness? at hwitness
  split at hwitness <;> cases hwitness
  · exact inOrder (.cons h.type .nil) (by decide)
  · exact inOrder (.cons (conformance h) .nil) (by decide)
  · exact inOrder (.cons (conformance h) .nil) (by decide)
  · exact inOrder (.cons (conformance h) .nil) (by decide)
  · exact inOrder (.cons h.type (.cons (conformance h) .nil)) (by decide)
  · exact inOrder (.cons h.type (.cons (conformance h) .nil)) (by decide)
  · exact inOrder (.cons (conformance h) .nil) (by decide)
  · exact inOrder (.cons (conformance h) (.cons declName .nil)) (by decide)
  · exact inOrder (.cons (conformance h) (.cons declName (.cons (protocolType h) .nil))) (by decide)

lemma witness : Reads total bound (made (.isOf Kind.globals)) (Grammar.witness call) := by
  have hentity : Reads total bound (made (.isOf Kind.scopes)) (call .entity) :=
    h.entity.released fun _ => id
  refine ite _ (inOrder (.cons directness (.cons hentity .nil)) (by decide)) <|
    peek.bind fun c _ _ => ?_
  cases hwitness : witness? call c with
  | none => exact refuse
  | some made => exact next.bind fun _ _ _ => witness?_reads h hwitness

lemma reabstraction {kind : Kind} (hkind : kind ∈ [Kind.reabstractionThunk, .reabstractionThunkHelper]) :
    Reads total bound (made (.isOf Kind.globals)) (Grammar.reabstraction call kind) := by
  have hfamily : ∀ kind ∈ [Kind.reabstractionThunk, .reabstractionThunkHelper],
      kind.carried = .nothing ∧ [.optional (.isOf [.dependentGenericSignature]), .one (.isOf [.type]),
        .one (.isOf [.type])] ∈ kind.shapes ∧ kind ∈ Kind.globals := by decide
  refine (afterMark _ (h.signature false)).bind fun signature _ hsignature =>
    h.type.bind fun source _ hsource => h.type.bind fun target _ htarget => ?_
  have htypes := Filled.one hsource (.one htarget .nil)
  cases signature with
  | none => exact branch (made_family hfamily hkind (.absent htypes))
  | some signature =>
    exact branch (made_family hfamily hkind (.present (hsignature signature rfl) htypes))

lemma thunk : Reads total bound (made (.isOf Kind.globals)) (Grammar.thunk call) := by
  have hentity : Reads total bound (made (.isOf Kind.scopes)) (call .entity) :=
    h.entity.released fun _ => id
  exact ite _ (reabstraction h (by decide)) <| ite _ (reabstraction h (by decide)) <|
    ite _ (inOrder (.cons (conformance h) (.cons hentity .nil)) (by decide)) refuse

lemma partialApply : Reads total bound (made (.isOf Kind.globals)) (Grammar.partialApply call) := by
  have hfamily : ∀ kind ∈ [Kind.partialApplyObjCForwarder, .partialApplyForwarder],
      kind.carried = .nothing ∧ [.optional (.isOf Kind.globals)] ∈ kind.shapes ∧
        kind ∈ Kind.globals := by decide
  refine (accept _).bind fun objC _ _ => ?_
  have hkind : (if objC then Kind.partialApplyObjCForwarder else .partialApplyForwarder) ∈
      [Kind.partialApplyObjCForwarder, .partialApplyForwarder] := by
    cases objC <;> decide
  exact ite _ (h.global.bind fun _ _ hglobal =>
      branch (made_family hfamily hkind (.present hglobal .nil))) <|
    branch (made_family hfamily hkind (.absent .nil))

lemma globalBody (hentity : Reads total (bound + 1) (held total Kind.scopes) (call .entity)) :
    Reads total (bound + 1) (made (.isOf Kind.globals)) (Grammar.globalBody call) :=
  unlessEnd <| iteBelow _ rfl (metadata h) <| iteBelow _ rfl (partialApply h) <|
    iteBelow _ rfl (wrapped h.type rfl (.head _) (by decide)) <| iteBelow _ rfl (valueWitness h) <|
    iteBelow _ rfl (witness h) <| iteBelow _ rfl (thunk h) <| hentity.released (by decide)

lemma symbolPrelude :
    Reads total bound (fun nodes _ =>
      Filled [.one (.isOf Kind.specializations), .many (.isOf Kind.specializations)] nodes ∨
        Filled [.optional (.isOf Kind.attributes)] nodes) (Grammar.symbolPrelude call) :=
  ite _ ((specializations h).bind fun _ _ hnodes => (demand _).bind fun _ _ _ =>
      pure fun _ _ _ => .inl hnodes) <|
    symbolAttributes.weaken fun _ _ _ _ hnodes => .inr hnodes

lemma symbol : Reads total bound (made (.isOf [.global])) (Grammar.symbol call) := by
  refine (demand _).bind fun _ _ _ => (symbolPrelude h).bind fun prelude _ hprelude =>
    h.global.bind fun body _ hbody => trailing.bind fun suffix _ hsuffix => ?_
  obtain hblocks | hattribute := hprelude
  · exact branch (made_branch rfl (.head _) (hblocks.append (.one hbody hsuffix)) rfl)
  · exact branch (made_branch rfl (.tail _ (.head _)) (hattribute.append (.one hbody hsuffix)) rfl)

end Globals

end Reads

end SwiftMangling.Grammar
