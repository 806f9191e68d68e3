import SwiftMangling.Proofs.GrammarPaying

/-!
# Types and symbols pay for their nodes

The productions of types, lowered functions, specializations and globals. A specialization forgets what it
has recorded, so the parts of a symbol are paid for at the highest price throughout.
-/

namespace SwiftMangling.Grammar.Pays

variable {α : Type} {g : Tariff} {bytes top credit extra : Nat} {call : Calls}

section Types

lemma builtinType : Buys g 16 5 Grammar.builtinType := by
  have hbuiltin : ∀ {credit} (name : Text), 6 ≤ credit → Buys g credit 5 (Pure.pure (builtin name)) :=
    fun name hcredit => pure hcredit
  have hsized : ∀ {credit} (name : Nat → Text), 6 ≤ credit → Buys g credit 5 (do
      let size ← Grammar.builtinSize
      Pure.pure (builtin (name size))) :=
    fun name hcredit => builtinSize.skip fun size => hbuiltin _ hcredit
  refine unlessEnd <| next.skip fun c => ?_
  split
  · exact hbuiltin _ (by decide)
  · split
    · exact hsized _ (by decide)
    · exact hsized _ (by decide)
    · exact natural.first fun elements => (demand _ rfl).first fun _ =>
        ite _ rfl (hsized _ (by decide)) <| ite _ rfl (hsized _ (by decide)) <|
        ite _ rfl (hbuiltin _ (by decide)) refuse
    · exact refuse

lemma elementLabel : Pays g 0 Node.sizeAll Grammar.elementLabel := by
  refine peek.skip fun c => ?_
  split
  · refine (identifier _).bind fun label => pure ?_
    rw [Node.sizeAll_singleton]
    omega
  · exact pure (Nat.le_refl 0)

/-- Marking the last element as variadic adds no more than the mark. -/
lemma sizeAll_markVariadic (elements : List Node) :
    Node.sizeAll (markVariadic elements) ≤ Node.sizeAll elements + 1 := by
  induction elements using markVariadic.induct with
  | case1 => exact Nat.le_succ _
  | case2 last =>
    rw [markVariadic, Node.sizeAll_singleton, Node.sizeAll_singleton, Node.size_push]
    exact Nat.le_refl _
  | case3 element elements hne ih =>
    rw [markVariadic]
    · rw [Node.sizeAll_cons, Node.sizeAll_cons]
      omega
    · exact hne

/-- A node around another one costs one of those that are left over. -/
lemma wrapped {kind : Kind} {production : Production}
    (hproduction : Buys g 0 (extra + 1) (call production)) :
    Buys g 0 extra (Grammar.wrapped call kind production) :=
  hproduction.bind fun child => single (by omega)

variable (h : Thrifty bytes top call)
include h

lemma tupleElement : Buys (rising bytes top) 0 3 (Grammar.tupleElement call) := by
  refine unlessEnd <| elementLabel.bind fun label => (h.plain .type nofun nofun).first fun type =>
    branch (label ++ [type]) ?_
  rw [Node.sizeAll_append, Node.sizeAll_singleton]
  omega

lemma tuple (variadic : Bool) : Buys (rising bytes top) 0 4 (Grammar.tuple call variadic) := by
  refine (gather _ rfl fun _ => tupleElement h).bind fun elements => ?_
  cases variadic with
  | false => exact branch elements (by omega)
  | true =>
    have hmarked := sizeAll_markVariadic elements
    exact branch (markVariadic elements) (by omega)

lemma functionType (kind : Kind) : Buys (rising bytes top) 0 4 (Grammar.functionType call kind) := by
  refine (accept _ rfl).bind fun throwing => (h.plain .type nofun nofun).first fun arguments =>
    (h.plain .type nofun nofun).first fun result => ?_
  rw [branch_single, pure_bind, branch_single, pure_bind]
  have harguments := Node.size_branch_singleton .argumentTuple arguments
  have hresult := Node.size_branch_singleton .returnType result
  cases throwing with
  | false => exact pair (by omega)
  | true =>
    have hmark : (Node.branch .throwsMark []).size = 1 := rfl
    exact triple (by rw [if_pos rfl]; omega)

lemma representedMetatype (kind : Kind) :
    Buys (rising bytes top) 0 2 (Grammar.representedMetatype call kind) :=
  peek.skip fun _ => (orRefuse _).skip fun name => next.skip fun _ =>
    (h.plain .type nofun nofun).bind fun type => (named (show 1 + (type.size + 3) ≤ _ by omega)).bind
    fun representation => pair (by omega)

lemma boxField : Buys (rising bytes top) 0 3 (Grammar.boxField call) := by
  have hwrapped : ∀ kind, Buys (rising bytes top) (0 + 16) 3 (Grammar.wrapped call kind .type) :=
    fun kind => (wrapped (h.plain .type nofun nofun)).within (by omega) (by omega)
  exact ite _ rfl (hwrapped _) <| ite _ rfl (hwrapped _) refuse

lemma boxWithLayout : Buys (rising bytes top) 0 4 (Grammar.boxWithLayout call) := by
  refine (afterMark _ rfl (h.plain (.signature false) nofun nofun)).bind fun signature =>
    (gather _ rfl fun _ => boxField h).first fun fields => ?_
  rw [branch_map_some, pure_bind]
  have hlayout := Node.size_branch .silBoxLayout fields
  cases signature with
  | none => exact single (by omega)
  | some signature =>
    rw [Option.toList_some, Node.sizeAll_singleton]
    refine (gather _ rfl fun _ => h.plain .type nofun nofun).first fun arguments => ?_
    rw [branch_map_some, pure_bind]
    have harguments := Node.size_branch .typeList arguments
    exact triple (by omega)

lemma extendedType : Buys (rising bytes top) 0 2 (Grammar.extendedType call) := by
  have hwrapped : ∀ {credit} kind, Buys (rising bytes top) credit 2 (Grammar.wrapped call kind .type) :=
    fun kind => (wrapped (h.plain .type nofun nofun)).within (Nat.zero_le _) (by omega)
  have hmetatype : ∀ {credit} kind,
      Buys (rising bytes top) credit 2 (Grammar.representedMetatype call kind) :=
    fun kind => (representedMetatype h kind).within (Nat.zero_le _) (by omega)
  refine ite _ rfl (hwrapped _) <| ite _ rfl ((boxWithLayout h).within (by omega) (by omega)) <|
    ite _ rfl (hmetatype _) <|
    ite _ rfl (ite _ rfl (hmetatype _) ((protocolList h).within (by omega) (by omega))) <|
    ite _ rfl ((functionType h _).within (by omega) (by omega)) <| peek.skip fun c => ?_
  cases storageKind? c with
  | none =>
    exact ite _ rfl ((h.plain .implFunction nofun nofun).within (by omega) (by omega)) refuse
  | some kind => exact next.skip fun _ => hwrapped kind

lemma genericType : Buys (rising bytes top) 0 4 (Grammar.genericType call) :=
  (h.plain (.signature false) nofun nofun).bind fun signature =>
    (h.plain .type nofun nofun).first fun type => pair (by omega)

/-- The letter of a type pays a toll, so a node around it can be paid for as well. -/
lemma bareType : Buys (rising bytes top) 0 5 (Grammar.bareType call) := by
  have hletter : ∀ {extra} {p : Parser Node}, Buys (rising bytes top) 0 extra p →
      Buys (rising bytes top) (0 + 16) 5 p :=
    fun hp => hp.within (Nat.zero_le _) (by omega)
  refine unlessEnd <| nextLetter (fun c => ?_) rfl
  split
  · exact builtinType
  · exact hletter (declaration h _)
  iterate 5 exact hletter (functionType h _)
  · exact hletter (wrapped (h.plain .type nofun nofun))
  · exact (demand _ rfl).first fun _ => named (by decide)
  · exact hletter (boundGeneric h)
  · exact hletter (wrapped (h.plain .type nofun nofun))
  · exact ite _ rfl ((wrapped (h.plain .type nofun nofun)).within (by omega) (by omega))
      (hletter (protocolList h))
  · exact hletter (h.plain .archetype nofun nofun)
  · exact hletter (dependentType h)
  · exact pure (by rw [size_genericParam]; decide)
  · exact hletter (simpleMemberType h)
  · exact hletter (compoundMemberType h)
  · exact hletter (wrapped h.bareType)
  · exact hletter substitution
  · exact hletter (tuple h false)
  · exact hletter (tuple h true)
  · exact hletter (genericType h)
  · exact hletter (extendedType h)
  · exact hletter (declaration h _)
  · exact hletter (declaration h _)
  · exact hletter (declaration h _)
  · exact refuse

lemma typeNode : Buys (rising bytes top) 0 4 (Grammar.typeNode call) :=
  wrapped h.bareType

end Types

section LoweredFunctions

lemma convention (place : Convention → Option String) : Pays g 0 free (Grammar.convention place) :=
  peek.skip fun _ => (orRefuse _).skip fun _ => next.skip fun _ => orRefuse _

lemma calleeConvention : Pays g 0 free Grammar.calleeConvention :=
  ite _ rfl (pure (Nat.zero_le _)) (convention _)

lemma functionAttributes : Pays g 0 Node.sizeAll Grammar.functionAttributes := by
  refine ite _ rfl (next.skip fun _ => (orRefuse _).skip fun name => pure ?_) (pure (Nat.le_refl 0))
  show 1 ≤ 0 + 16
  decide

variable (h : Thrifty bytes top call)
include h

lemma functionSignature :
    Pays (rising bytes top) 0 Node.sizeAll (Grammar.functionSignature call) := by
  have hsignature : ∀ pseudogeneric, Pays (rising bytes top) (0 + 16) Node.sizeAll (do
      let signature ← call (.signature pseudogeneric)
      Pure.pure [signature]) := by
    intro pseudogeneric
    refine (h.plain (.signature pseudogeneric) nofun nofun).first fun signature => pure ?_
    rw [Node.sizeAll_singleton]
    omega
  exact ite _ rfl (hsignature false) <| ite _ rfl (hsignature true) <| pure (Nat.le_refl 0)

lemma conventionType (kind : Kind) (place : Convention → Option String) :
    Buys (rising bytes top) 0 2 (Grammar.conventionType call kind place) := by
  refine (convention place).skip fun name => (h.plain .type nofun nofun).bind fun type => pair ?_
  show 1 + type.size + 1 + 2 ≤ _
  omega

lemma parameter : Buys (rising bytes top) 0 2 (Grammar.parameter call) :=
  ite _ rfl refuse (conventionType h _ _)

lemma result (earlier : List Node) : Buys (rising bytes top) 0 2 (Grammar.result call earlier) := by
  refine ite _ rfl ((conventionType h _ _).first fun node => ?_) (conventionType h _ _)
  split
  · exact refuse
  · exact pure (by omega)

lemma implFunctionBody : Buys (rising bytes top) 0 4 (Grammar.implFunctionBody call) := by
  refine calleeConvention.skip fun callee => functionAttributes.bind fun attributes =>
    (functionSignature h).first fun signature => (demand _ rfl).first fun _ =>
    (gather _ rfl fun _ => parameter h).first fun parameters =>
    (gather _ rfl fun earlier => result h earlier).first fun results =>
    branch (conventionNode callee :: attributes ++ signature ++ parameters ++ results) ?_
  have hcallee : (conventionNode callee).size = 1 := rfl
  simp only [List.cons_append, Node.sizeAll_cons, Node.sizeAll_append]
  omega

end LoweredFunctions

section Specializations

/-- A payload is a leaf, whether it has a text or not. -/
lemma payloadNode (content : Option Text) (h : 1 + extra ≤ credit) :
    Buys g credit extra (Grammar.payloadNode content) := by
  cases content with
  | none => exact pure h
  | some content => exact pure h

lemma textOfChars (bytes : Bytes) : Pays g 0 free (Grammar.textOfChars (Text.ofBytes bytes)) := by
  rw [textOfChars_ofBytes]
  exact pure (Nat.le_refl 0)

lemma size_change (what : ParamChange) : (change what).size = 1 :=
  rfl

lemma constantName (what : ParamChange) : Pays g 0 Node.sizeAll (Grammar.constantName what) := by
  refine (identifier none).first fun name => (demand _ rfl).first fun _ =>
    (payloadNode _ (show 1 + (name.size + 15) ≤ _ by omega)).bind fun payload => pure ?_
  rw [Node.sizeAll_cons, Node.sizeAll_singleton, size_change]
  omega

lemma constantLiteral (what : ParamChange) : Pays g 0 Node.sizeAll (Grammar.constantLiteral what) := by
  refine (readUntil _).skip fun _ => (demand _ rfl).first fun _ => (textOfChars _).skip fun text =>
    (payloadNode (some text) (show 1 + 15 ≤ _ by decide)).bind fun payload => pure ?_
  rw [Node.sizeAll_cons, Node.sizeAll_singleton, size_change]
  omega

lemma stringEncoding : Pays g 0 free Grammar.stringEncoding :=
  ite _ rfl (pure (Nat.zero_le _)) <| ite _ rfl (pure (Nat.zero_le _)) refuse

lemma constantString : Pays g 0 Node.sizeAll Grammar.constantString := by
  refine (demand _ rfl).first fun _ => stringEncoding.skip fun encoding => (demand _ rfl).first fun _ =>
    (identifier none).first fun name => (demand _ rfl).first fun _ =>
    (payloadNode (some encoding) (show 1 + (name.size + 30) ≤ _ by omega)).bind fun encoding =>
    (payloadNode _ (show 1 + (encoding.size + 29) ≤ _ by omega)).bind fun content => pure ?_
  rw [Node.sizeAll_cons, Node.sizeAll_cons, Node.sizeAll_singleton, size_change]
  omega

lemma constantChange : Pays g 0 Node.sizeAll Grammar.constantChange := by
  have hmarked : ∀ {p : Parser (List Node)}, Pays g 0 Node.sizeAll p → Pays g (0 + 16) Node.sizeAll p :=
    fun hp => hp.weaken (Nat.zero_le _) fun _ => Nat.le_refl _
  exact ite _ rfl (hmarked (constantName _)) <| ite _ rfl (hmarked (constantName _)) <|
    ite _ rfl (hmarked (constantLiteral _)) <| ite _ rfl (hmarked (constantLiteral _)) <|
    ite _ rfl (hmarked constantString) refuse

lemma flag (letter : Text) (hletter : letter.isEmpty = false) (what : ParamChange) :
    Pays g 0 free (Grammar.flag letter what) :=
  ite letter hletter (pure (Nat.zero_le _)) (pure (Nat.zero_le _))

lemma flagChange : Pays g 0 (fun nodes => Node.sizeAll nodes + 1) Grammar.flagChange := by
  refine (flag _ rfl _).skip fun _ => (flag _ rfl _).skip fun _ => (flag _ rfl _).skip fun _ =>
    (flag _ rfl _).skip fun _ => (demand _ rfl).first fun _ => ?_
  dsimp only
  split
  · exact refuse
  · exact pure (show 1 + 1 ≤ 16 by decide)

lemma passNumber : Buys g 0 4 Grammar.passNumber := by
  refine onLetter fun c => ?_
  by_cases hdigit : c.isDigit
  · rw [if_pos hdigit]
    refine .inr ⟨?_, _, rfl, numbered [] (show 0 + 1 + 4 ≤ 16 by decide)⟩
    rintro rfl
    cases hdigit
  · rw [if_neg hdigit]
    exact .inl refuse

lemma specializationOf {kind : Kind} {params : Parser (List Node)}
    (hparams : Pays g 0 (fun params => Node.sizeAll params + 16) params) :
    Buys g 0 4 (Grammar.specializationOf kind params) := by
  refine (accept _ rfl).bind fun serialized => passNumber.first fun pass => hparams.first fun params => ?_
  cases serialized with
  | false =>
    refine branch (pass :: params) ?_
    rw [Node.sizeAll_cons]
    omega
  | true =>
    have hmark : (Node.branch .isSerialized []).size = 1 := rfl
    refine branch (.branch .isSerialized [] :: pass :: params) ?_
    rw [Node.sizeAll_cons, Node.sizeAll_cons]
    omega

variable (h : Thrifty bytes top call)
include h

lemma closureChange : Pays (rising bytes top) 0 Node.sizeAll (Grammar.closureChange call) := by
  refine (identifier none).bind fun name =>
    (payloadNode _ (show 1 + (name.size + 14) ≤ _ by omega)).bind fun payload =>
    (gatherFound (peek.skip fun _ => pure (Nat.le_refl 0)) (h.plain .type nofun nofun)).first
      fun types => (demand _ rfl).first fun _ => pure ?_
  rw [Node.sizeAll_cons, Node.sizeAll_cons, size_change]
  omega

/-- What became of a parameter leaves a node over for the parameter itself. -/
lemma paramChange :
    Pays (rising bytes top) 0 (fun nodes => Node.sizeAll nodes + 1) (Grammar.paramChange call) := by
  have hmarked : ∀ {p : Parser (List Node)}, Pays (rising bytes top) 0 Node.sizeAll p →
      Pays (rising bytes top) (0 + 16) (fun nodes => Node.sizeAll nodes + 1) p := by
    intro p hp
    refine (hp.frame 1).weaken (by decide) fun nodes => ?_
    rw [Nat.add_comm]
  have hsingle : ∀ what, Pays (rising bytes top) (0 + 16) (fun nodes => Node.sizeAll nodes + 1)
      (Pure.pure [change what]) :=
    fun what => pure (show 1 + 1 ≤ 16 by decide)
  exact ite _ rfl (pure (by decide)) <| ite _ rfl (hmarked constantChange) <|
    ite _ rfl (hmarked (closureChange h)) <| ite _ rfl (hsingle _) <| ite _ rfl (hsingle _) flagChange

lemma signatureParams :
    Pays (rising bytes top) 0 (fun params => Node.sizeAll params + 16)
      (Grammar.signatureParams call) :=
  gather _ rfl fun _ => (paramChange h).bind fun changes => numbered changes (show _ + 0 ≤ _ from Nat.le_refl _)

lemma genericParamNode : Buys (rising bytes top) 0 4 (Grammar.genericParamNode call) := by
  refine (h.plain .type nofun nofun).bind fun type =>
    (gather _ rfl fun _ => conformance h).first fun conformances => branch (type :: conformances) ?_
  rw [Node.sizeAll_cons]
  omega

lemma genericParams :
    Pays (rising bytes top) 0 (fun params => Node.sizeAll params + 16) (Grammar.genericParams call) :=
  gather _ rfl fun _ => genericParamNode h

lemma specialization : Buys (rising bytes top) 0 4 (Grammar.specialization call) := by
  have hmarked : ∀ {p : Parser Node}, Buys (rising bytes top) 0 4 p → Buys (rising bytes top) (0 + 16) 4 p :=
    fun hp => hp.within (Nat.zero_le _) (by omega)
  exact ite _ rfl (hmarked (specializationOf (genericParams h))) <|
    ite _ rfl (hmarked (specializationOf (genericParams h))) <|
    ite _ rfl (hmarked (specializationOf (signatureParams h))) refuse

end Specializations

section Globals

/-- Nodes that are read in order, behind a mark. -/
lemma inOrder {kind : Kind} {parts : List (Parser Node)} (hparts : ∀ part ∈ parts, Buys g 0 0 part) :
    Buys g 16 4 (Grammar.inOrder kind parts) := by
  have hall : Pays g 0 Node.sizeAll (parts.mapM id) := by
    induction parts with
    | nil => exact pure (Nat.le_refl 0)
    | cons part parts ih =>
      obtain ⟨hpart, hparts⟩ := List.forall_mem_cons.1 hparts
      rw [List.mapM_cons]
      refine hpart.bind fun node => (ih hparts).first fun nodes => pure ?_
      rw [Node.sizeAll_cons]
      omega
  exact hall.first fun children => branch children (by omega)

lemma directness : Buys g 0 0 Grammar.directness :=
  ite _ rfl (numbered [] (by decide)) <| ite _ rfl (numbered [] (by decide)) refuse

lemma symbolAttributes : Pays g 0 Node.sizeAll Grammar.symbolAttributes := by
  have hleaf : ∀ kind, Pays g (0 + 16) Node.sizeAll (Pure.pure [.branch kind []]) :=
    fun kind => pure (show 1 ≤ 16 by decide)
  exact ite _ rfl (hleaf _) <| ite _ rfl (hleaf _) <| ite _ rfl (hleaf _) <| ite _ rfl (hleaf _) <|
    ite _ rfl (hleaf _) <| pure (Nat.le_refl 0)

variable (h : Thrifty bytes top call)
include h

lemma metadata : Buys (rising bytes top) 0 3 (Grammar.metadata call) := by
  refine onLetter fun c => ?_
  cases hkind : metadataKind? c with
  | some kind =>
    exact .inr ⟨ne_dot_of_lookup hkind rfl, _, rfl,
      (wrapped (h.plain .type nofun nofun)).within (by omega) (by omega)⟩
  | none =>
    refine .inl (ite _ rfl ((inOrder (List.forall_mem_singleton.2 ?_)).within (by omega) (by omega))
      (wrapped (h.plain .type nofun nofun)))
    exact (protocolType h).within (Nat.le_refl _) (by omega)

lemma valueWitness : Buys (rising bytes top) 0 3 (Grammar.valueWitness call) :=
  (advance _).skip fun _ => (orRefuse _).skip fun _ => (h.plain .type nofun nofun).bind fun type =>
    numbered [type] (by rw [Node.sizeAll_singleton])

lemma witness?_parts {c : Char} {kind : Kind} {parts : List (Parser Node)}
    (hwitness : witness? call c = some (kind, parts)) :
    ∀ part ∈ parts, Buys (rising bytes top) 0 0 part := by
  have htype : Buys (rising bytes top) 0 0 (call .type) :=
    (h.plain .type nofun nofun).within (Nat.le_refl _) (by omega)
  have hconformance : Buys (rising bytes top) 0 0 (Grammar.conformance call) :=
    (conformance h).within (Nat.le_refl _) (by omega)
  have hname : Buys (rising bytes top) 0 0 Grammar.declName :=
    declName.within (Nat.le_refl _) (by omega)
  have hprotocol : Buys (rising bytes top) 0 0 (Grammar.protocolType call) :=
    (protocolType h).within (Nat.le_refl _) (by omega)
  unfold witness? at hwitness
  split at hwitness <;> cases hwitness <;>
    simp [htype, hconformance, hname, hprotocol]

lemma witness : Buys (rising bytes top) 0 4 (Grammar.witness call) := by
  have hentity : Buys (rising bytes top) 0 0 (call .entity) :=
    (h.plain .entity nofun nofun).within (Nat.le_refl _) (by omega)
  refine ite _ rfl (inOrder ?_) <| onLetter fun c => ?_
  · exact List.forall_mem_cons.2 ⟨directness, List.forall_mem_singleton.2 hentity⟩
  · cases hwitness : witness? call c with
    | none => exact .inl refuse
    | some parts =>
      exact .inr ⟨ne_dot_of_lookup hwitness rfl, _, rfl, inOrder (witness?_parts h hwitness)⟩

lemma reabstraction (kind : Kind) : Buys (rising bytes top) 0 4 (Grammar.reabstraction call kind) := by
  refine (afterMark _ rfl (h.plain (.signature false) nofun nofun)).bind fun signature =>
    (h.plain .type nofun nofun).first fun source => (h.plain .type nofun nofun).first fun target => ?_
  refine branch (signature.toList ++ [source, target]) ?_
  rw [Node.sizeAll_append, Node.sizeAll_cons, Node.sizeAll_singleton]
  omega

lemma thunk : Buys (rising bytes top) 0 4 (Grammar.thunk call) := by
  have hconformance : Buys (rising bytes top) 0 0 (Grammar.conformance call) :=
    (conformance h).within (Nat.le_refl _) (by omega)
  have hentity : Buys (rising bytes top) 0 0 (call .entity) :=
    (h.plain .entity nofun nofun).within (Nat.le_refl _) (by omega)
  exact ite _ rfl ((reabstraction h _).within (by omega) (by omega)) <|
    ite _ rfl ((reabstraction h _).within (by omega) (by omega)) <|
    ite _ rfl (inOrder (List.forall_mem_cons.2 ⟨hconformance, List.forall_mem_singleton.2 hentity⟩))
      refuse

lemma partialApply : Buys (rising bytes top) 16 4 (Grammar.partialApply call) :=
  (optional _).skip fun _ =>
    ite _ rfl ((wrapped (h.plain .global nofun nofun)).within (by omega) (by omega)) <|
    branch [] (by decide)

lemma globalBody : Buys (rising bytes top) 0 4 (Grammar.globalBody call) := by
  have hmarked : ∀ {extra} {p : Parser Node}, Buys (rising bytes top) 0 extra p →
      Buys (rising bytes top) (0 + 16) 4 p :=
    fun hp => hp.within (Nat.zero_le _) (by omega)
  exact unlessEnd <| ite _ rfl (hmarked (metadata h)) <| ite _ rfl (partialApply h) <|
    ite _ rfl (hmarked (wrapped (h.plain .type nofun nofun))) <| ite _ rfl (hmarked (valueWitness h)) <|
    ite _ rfl (hmarked (witness h)) <| ite _ rfl (hmarked (thunk h)) <| h.plain .entity nofun nofun

end Globals

section Symbols

/-- What is paid for at rising prices is paid for at the highest one. -/
lemma atHighest {worth : α → Nat} {p : Parser α} (hp : Pays (rising bytes top) 0 worth p) :
    Pays (flat bytes top) 0 worth p := by
  intro limit s hlimit hs hfunded
  have htoll := toll_le_price bytes top (top + 1)
  have hlast : 0 + price bytes top (top + 1) * s.unread.length ≤ price bytes top (top + 1) * bytes :=
    hfunded _ (Nat.le_refl _)
  have hunread : s.unread.length ≤ bytes := by
    rw [Nat.zero_add] at hlast
    exact Nat.le_of_mul_le_mul_left hlast (by omega)
  have hrising : Funded (rising bytes top) 0 s := by
    intro price _
    rw [Nat.zero_add]
    exact Nat.mul_le_mul_left price hunread
  have hcosts := hp limit s hlimit hs hrising
  cases hp' : p limit s with
  | found value s' =>
    rw [hp'] at hcosts
    obtain ⟨hfollows, hpaid⟩ := hcosts
    exact ⟨⟨hfollows.fair, hfollows.unread, Nat.le_refl _⟩, fun price hprice =>
      hpaid price ((price_le_last bytes top _).trans hprice)⟩
  | refused s' =>
    rw [hp'] at hcosts
    exact ⟨hcosts.fair, hcosts.unread, Nat.le_refl _⟩
  | stopped why => trivial

lemma forget : Pays (flat bytes top) 0 free Grammar.forget :=
  fun _ _ _ _ _ => ⟨⟨nofun, Nat.le_refl _, Nat.le_refl _⟩, fun _ _ => Nat.le_refl _⟩

/-- The suffix is a single node that is given on top. -/
lemma trailing : Pays g 0 (fun suffix => Node.sizeAll suffix - 1) Grammar.trailing := by
  refine atEnd.skip fun ended => ?_
  cases ended with
  | true => exact pure (Nat.zero_le _)
  | false =>
    exact takeRest.skip fun _ => (textOfChars _).skip fun text => pure (Nat.le_refl 0)

variable (h : Thrifty bytes top call)
include h

lemma specializations : Pays (flat bytes top) 0 Node.sizeAll (Grammar.specializations call) := by
  refine iterate Node.sizeAll (fun earlier => (atHighest (specialization h)).first fun node =>
    forget.skip fun _ => ?_) []
  have hnodes : Node.sizeAll (node :: earlier) ≤ Node.sizeAll earlier + (node.size + 4) := by
    rw [Node.sizeAll_cons]
    omega
  refine ite _ rfl (pure (hnodes.trans (Nat.le_add_right _ _))) (pure ?_)
  show Node.sizeAll (node :: earlier).reverse ≤ _
  rwa [Node.sizeAll_reverse]

lemma symbolPrelude : Pays (flat bytes top) 0 Node.sizeAll (Grammar.symbolPrelude call) :=
  ite _ rfl ((specializations h).first fun nodes => (demand _ rfl).first fun _ => pure (by omega))
    symbolAttributes

/-- A symbol is paid for with its bytes. -/
theorem symbol : Buys (flat bytes top) 0 0 (Grammar.symbol call) := by
  refine (demand _ rfl).first fun _ => (symbolPrelude h).first fun prelude =>
    (atHighest (h.plain .global nofun nofun)).first fun body => trailing.first fun suffix =>
    branch (prelude ++ body :: suffix) ?_
  rw [Node.sizeAll_append, Node.sizeAll_cons]
  omega

end Symbols

end SwiftMangling.Grammar.Pays
