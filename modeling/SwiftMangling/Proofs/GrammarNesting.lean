import SwiftMangling.Proofs.GrammarReads
import SwiftMangling.Proofs.Nesting

/-!
# Productions nest by a few levels

Each production puts together what the productions inside it find, and adds a few levels to these. A
recorded tree reaches a few levels above what was granted when it was recorded, and back-references are
granted that much. A compound member type is granted its levels by the bytes of its names.
-/

namespace SwiftMangling.Grammar

/-- Productions that find nodes with few levels more than were granted. Generic arguments raise what
they are given to, and leave it at least as high as a type. -/
structure Shallow (g : Grants) (low extra : Nat) (call : Calls) : Prop where
  settled : Settled call
  granted : g.reach ≤ g.grant
  floor : 2 ≤ low
  room : low + 3 ≤ g.reach
  plain : ∀ production, (∀ nominal, production ≠ .boundArguments nominal) → ∀ start,
    Nests g start (Within g low) (call production)
  boundArguments : ∀ nominal height start, nominal.height + start ≤ g.total + height →
    Nests g start (Within g (max height low + extra)) (call (.boundArguments nominal))

/-- A round of a compound member type. -/
def memberRound (call : Calls) (base : Node) : Parser (Round Node Node) := do
  if ← accept "_" then pure (.done base)
  else
    let member ← (do
      let base ← branch .type [base]
      memberType call base)
    pure (.again member)

lemma memberRound_eq (call : Calls) (base : Node) :
    memberRound call base = (do
      if ← accept "_" then pure (.done base)
      else
        let name ← associatedTypeRef call
        pure (.again (.branch .dependentMemberType [.branch .type [base], name]))) := by
  simp only [memberRound, branch_single, memberType, branch_pair, pure_bind, bind_assoc]

namespace Nests

variable {g : Grants} {start low extra : Nat} {call : Calls}

section Names

lemma indexNode : Nests g start (Within g 1) Grammar.indexNode :=
  index.skip fun _ => numbered [] nofun

lemma builtinSize : Nests g start Whatever Grammar.builtinSize :=
  natural.skip fun _ => (demand _).skip fun _ => pure fun _ _ _ => trivial

lemma named {kind : Kind} {content : Text} : Nests g start (Within g 1) (Grammar.named kind content) :=
  ofHeight (Nat.le_refl 1)

lemma identifierText (punycoded operator : Bool) (bytes : Bytes) :
    Nests g start Whatever (Grammar.identifierText punycoded operator bytes) := by
  obtain h | ⟨text, h⟩ := identifierText_eq punycoded operator bytes
  · rw [h]
    exact refuse
  · rw [h]
    exact pure fun _ _ _ => trivial

lemma identifierKind (required : Option Kind) (operator : Bool) :
    Nests g start Whatever (Grammar.identifierKind required operator) := by
  unfold Grammar.identifierKind
  split
  · exact pure fun _ _ _ => trivial
  · exact pure fun _ _ _ => trivial
  · exact refuse
  · exact next.skip fun _ => orRefuse _

lemma identifier (required : Option Kind) : Nests g start (Within g 1) (Grammar.identifier required) :=
  unlessEnd <| (accept _).skip fun punycoded => (accept _).skip fun operator =>
    (identifierKind required operator).skip fun _ => natural.skip fun length =>
    (advance length).skip fun bytes => (identifierText punycoded operator bytes).skip fun _ => named

lemma declName : Nests g start (Within g 2) Grammar.declName :=
  ite _ (indexNode.bind fun number _ _ _ hnumber => (identifier _).bind fun name _ _ _ hname =>
      pair (by omega) (by omega)) <|
    ite _ ((identifier _).bind fun file _ _ _ hfile => (identifier _).bind fun name _ _ _ hname =>
      pair (by omega) (by omega)) <|
    (identifier _).upTo (by omega)

end Names

section Nominals

/-- A node that is recorded and given back. -/
lemma recorded {node : Node} {levels : Nat} (hlevels : levels ≤ g.reach)
    (hnode : node.height + start ≤ g.total + levels) :
    Nests g start (Within g levels) (do Grammar.record node; Pure.pure node) :=
  (record (by omega)).skip fun _ => pure fun _ _ _ => by omega

lemma stdlibModule_height : stdlibModule.height = 1 :=
  rfl

lemma moduleName (hgrant : g.reach ≤ g.grant) (hroom : 3 ≤ g.reach) :
    Nests g start (Within g 2) Grammar.moduleName := by
  refine ite _ (ofHeight (by decide)) <| reference hgrant (fun node owed _ _ hnode => ?_) <|
    (identifier _).bind fun node _ _ _ hnode => recorded (by omega) (by omega)
  split
  · exact pure fun _ _ _ => by omega
  · exact refuse

/-- What is made of a context and a name, and recorded. -/
lemma inContext {kind : Kind} {context : Node} {levels : Nat} {p : Parser Node}
    (hp : Nests g start (Within g 2) p) (hlevels : 2 ≤ levels) (hroom : levels + 1 ≤ g.reach)
    (hcontext : context.height + start ≤ g.total + levels) :
    Nests g start (Within g (levels + 1)) (do
      let name ← p
      let node ← Grammar.branch kind [context, name]
      Grammar.record node
      Pure.pure node) :=
  hp.bind fun name _ _ _ hname => (pair (by omega) (by omega)).bind fun node _ _ _ hnode =>
    recorded (by omega) hnode

lemma protocolInContext {context : Node} {levels : Nat} (hlevels : 2 ≤ levels)
    (hroom : levels + 1 ≤ g.reach) (hcontext : context.height + start ≤ g.total + levels) :
    Nests g start (Within g (levels + 1)) (Grammar.protocolInContext context) :=
  inContext declName hlevels hroom hcontext

variable (h : Shallow g low extra call)
include h

lemma declaration (kind : Kind) :
    Nests g start (Within g (low + 1)) (Grammar.declaration call kind) := by
  have hfloor := h.floor
  have hroom := h.room
  exact (h.plain .context nofun start).bind fun context _ _ _ hcontext =>
    inContext declName hfloor (by omega) hcontext

lemma protocol : Nests g start (Within g (low + 1)) (Grammar.protocol call) := by
  have hfloor := h.floor
  have hroom := h.room
  refine reference h.granted (fun node owed _ _ hnode => ?_) <|
    ite _ (fun limit s hs hstart => ?_) (declaration h .protocolDecl)
  · split
    · exact pure fun _ _ _ => by omega
    · split
      · exact protocolInContext hfloor (by omega) (by omega)
      · exact refuse
  · have howed := hs.owed_le
    exact protocolInContext hfloor (by omega) (by rw [stdlibModule_height]; omega) limit s hs
      (Nat.le_refl _)

lemma protocolType : Nests g start (Within g (low + 2)) (Grammar.protocolType call) :=
  (protocol h).bind fun _ _ _ _ hnode => single hnode

lemma nominal : Nests g start (Within g (low + 1)) (Grammar.nominal call) := by
  have hfloor := h.floor
  exact iteAfter rfl (substitution_after h.granted (by omega)) <| ite _ (declaration h _) <|
    ite _ (declaration h _) <| ite _ (declaration h _) <| ite _ (declaration h _) refuse

end Nominals

section GenericArguments

/-- A child of a node is lower than the node. -/
lemma height_child {kind : Kind} {payload : Payload} {children : List Node} {child : Node}
    (hchild : child ∈ children) : child.height + 1 ≤ (Node.mk kind payload children).height :=
  Node.height_lt_of_mem hchild

lemma onBoundParent {node : Node} {height : Nat} (hnode : node.height + start ≤ g.total + height)
    (hparent : ∀ parent height start, parent.height + start ≤ g.total + height →
      Nests g start (Within g (max height low + extra)) (call (.boundArguments parent))) :
    Nests g start (Within g (max height low + extra + 1)) (Grammar.onBoundParent call node) := by
  have hself : Nests g start (Within g (max height low + extra + 1)) (Pure.pure node) :=
    pure fun _ _ _ => by omega
  obtain ⟨kind, payload, children⟩ := node
  match children with
  | [] => exact refuse
  | [parent] =>
    show Nests _ _ _ (if isOutermost parent.kind then _ else _)
    split
    · exact hself
    · exact refuse
  | parent :: name :: rest =>
    have hbelow : parent.height + 1 ≤ (Node.mk kind payload (parent :: name :: rest)).height :=
      height_child (.head _)
    have hname : name.height + 1 ≤ (Node.mk kind payload (parent :: name :: rest)).height :=
      height_child (.tail _ (.head _))
    rw [Reads.onBoundParent_pair]
    split
    · exact hself
    · exact (hparent parent height start (by omega)).bind fun parent' _ _ _ hparent' =>
        pair (by omega) (by omega)

lemma argumentList (htype : ∀ start, Nests g start (Within g low) (call .type)) :
    Nests g start (AllWithin g low) (Grammar.argumentList call) := by
  refine gatherEach (fun _ => accept _) fun start _ =>
    (htype start).bind fun argument _ _ _ hargument => atEnd.skip fun ended => ?_
  cases ended with
  | true => exact refuse
  | false => exact pure fun _ _ _ => by omega

lemma applyArguments {node : Node} {arguments : List Node} {levels : Nat} (hlevels : low ≤ levels)
    (hnode : node.height + start ≤ g.total + levels)
    (harguments : ∀ argument ∈ arguments, argument.height + start ≤ g.total + low) :
    Nests g start (Within g (levels + 2)) (Grammar.applyArguments node arguments) := by
  unfold Grammar.applyArguments
  split
  · exact pure fun _ _ _ => by omega
  · refine (orRefuse _).skip fun kind => (single hnode).bind fun unbound _ _ _ hunbound =>
      (branch arguments fun argument hargument => ?_).bind fun list _ _ _ hlist =>
        pair (by omega) hlist
    have hwithin := harguments argument hargument
    omega

lemma boundArgumentsBody {node : Node} {height : Nat}
    (hnode : node.height + start ≤ g.total + height)
    (htype : ∀ start, Nests g start (Within g low) (call .type))
    (hparent : ∀ parent height start, parent.height + start ≤ g.total + height →
      Nests g start (Within g (max height low + extra)) (call (.boundArguments parent))) :
    Nests g start (Within g (max height low + extra + 3)) (Grammar.boundArgumentsBody call node) :=
  (onBoundParent hnode hparent).bind fun node' _ _ _ hnode' => (argumentList htype).bind
    fun arguments _ _ _ harguments => applyArguments (by omega) (by omega) harguments

lemma boundGeneric (h : Shallow g low extra call) :
    Nests g start (Within g (low + extra + 1)) (Grammar.boundGeneric call) :=
  (nominal h).bind fun node owed _ _ hnode =>
    (h.boundArguments node (low + 1) owed hnode).upTo (by omega)

end GenericArguments

section Contexts

variable (h : Shallow g low extra call)
include h

lemma extensionContext : Nests g start (Within g (low + 1)) (Grammar.extensionContext call) := by
  have hfloor := h.floor
  have hroom := h.room
  exact (moduleName h.granted (by omega)).bind fun definer _ _ _ hdefiner =>
    (h.plain .context nofun _).bind fun extended _ _ _ hextended => pair (by omega) hextended

lemma constrainedExtension :
    Nests g start (Within g (low + 1)) (Grammar.constrainedExtension call) := by
  have hfloor := h.floor
  have hroom := h.room
  exact (moduleName h.granted (by omega)).bind fun definer _ _ _ hdefiner =>
    (h.plain (.signature false) nofun _).bind fun signature _ _ _ hsignature =>
    (h.plain .context nofun _).bind fun extended _ _ _ hextended =>
    triple (by omega) hextended (by omega)

lemma contextBody : Nests g start (Within g (low + extra + 1)) (Grammar.contextBody call) := by
  have hfloor := h.floor
  have hroom := h.room
  refine unlessEnd <| ite _ ((extensionContext h).upTo (by omega)) <|
    ite _ ((constrainedExtension h).upTo (by omega)) <|
    iteAfter rfl (substitution_after h.granted (by omega)) <|
    ite _ (ofHeight (by rw [stdlibModule_height]; omega)) <| ite _ (boundGeneric h) <|
    peek.skip fun c => ?_
  split
  · exact (h.plain .entity nofun _).upTo (by omega)
  · exact (moduleName h.granted (by omega)).upTo (by omega)

lemma protocolList : Nests g start (Within g (low + 4)) (Grammar.protocolList call) :=
  (gatherEach (fun _ => accept _) fun _ _ => protocolType h).bind fun protocols _ _ _ hprotocols =>
    (branch protocols hprotocols).bind fun _ _ _ _ htypes => single htypes

lemma conformance : Nests g start (Within g (low + 3)) (Grammar.conformance call) :=
  (h.plain .type nofun _).bind fun conforming _ _ _ hconforming =>
    (protocolType h).bind fun protocol _ _ _ hprotocol =>
    (h.plain .context nofun _).bind fun context _ _ _ hcontext =>
    triple (by omega) (by omega) (by omega)

end Contexts

section Entities

/-- What is left of a name that is taken apart is no higher than the name. -/
lemma accessedName_low (name : Node) :
    (∃ rest, accessedName name = Pure.pure (true, rest) ∧ ∀ node ∈ rest, node.height ≤ name.height) ∨
      accessedName name = Pure.pure (false, some name) := by
  obtain hnone | ⟨file, hmem, hfile⟩ | hsame := accessedName_cases name
  · exact .inl ⟨none, hnone, nofun⟩
  · refine .inl ⟨_, hfile, fun node hnode => ?_⟩
    cases hnode
    have hchild := Node.height_lt_of_mem hmem
    exact (Node.height_le (List.forall_mem_singleton.2 (Nat.le_refl _))).trans hchild
  · exact .inr hsame

variable {context : Node}

lemma initializerName (hfloor : 2 ≤ low) (hcontext : context.height + start ≤ g.total + low) :
    Nests g start (Within g (low + 1)) (Grammar.initializerName context) :=
  ite _ (indexNode.bind fun number _ _ _ hnumber => pair (by omega) (by omega)) <|
    ite _ (single hcontext) refuse

variable (h : Shallow g low extra call)
include h

lemma accessedNode {name : Node} (hcontext : context.height + start ≤ g.total + low)
    (hname : name.height + start ≤ g.total + 2) :
    Nests g start (Within g (low + 1)) (Grammar.accessedNode call context name) := by
  have hfloor := h.floor
  unfold Grammar.accessedNode
  obtain ⟨rest, haccessed, hrest⟩ | haccessed := accessedName_low name
  · rw [haccessed, pure_bind]
    refine (h.plain .type nofun _).bind fun type _ _ _ htype => ?_
    cases rest with
    | none => exact pair (by omega) (by omega)
    | some file =>
      have hfile := hrest file rfl
      exact triple (by omega) (by omega) (by omega)
  · rw [haccessed, pure_bind]
    show Nests _ _ _ (Grammar.branch .variableDecl [some context, some name] >>= _)
    refine (pair hcontext (by omega)).bind fun holder _ _ _ hholder =>
      (h.plain .type nofun _).bind fun type owed _ _ htype => pure fun owed' _ htotal => ?_
    have hpushed : (holder.push type).height ≤ g.total + low - owed + 1 :=
      Node.height_push_le (by omega) (by omega)
    show (holder.push type).height + owed' ≤ _
    omega

lemma accessor (kind : Kind) (hcontext : context.height + start ≤ g.total + low) :
    Nests g start (Within g (low + 2)) (Grammar.accessor call kind context) :=
  declName.bind fun name _ _ _ hname =>
    (accessedNode h (by omega) hname).bind fun _ _ _ _ haccessed => single haccessed

lemma namedEntity (kind : Kind) (hcontext : context.height + start ≤ g.total + low) :
    Nests g start (Within g (low + 1)) (Grammar.namedEntity call kind context) := by
  have hfloor := h.floor
  exact declName.bind fun name _ _ _ hname => (h.plain .type nofun _).bind fun type _ _ _ htype =>
    triple (by omega) (by omega) (by omega)

lemma entityInContext (kind : Kind) (hcontext : context.height + start ≤ g.total + low) :
    Nests g start (Within g (low + 2)) (Grammar.entityInContext call kind context) := by
  have hfloor := h.floor
  refine peek.skip fun c => ?_
  cases entityName? c with
  | none =>
    dsimp only
    split
    · exact (initializerName hfloor hcontext).upTo (by omega)
    · exact (namedEntity h kind hcontext).upTo (by omega)
  | some name =>
    cases name with
    | untyped kind => exact next.skip fun _ => (single hcontext).upTo (by omega)
    | typed kind =>
      exact next.skip fun _ => (h.plain .type nofun _).bind fun type _ _ _ htype =>
        pair (by omega) (by omega)
    | addressor kind? =>
      exact next.skip fun _ => next.skip fun letter => (orRefuse _).skip fun kind =>
        accessor h kind hcontext
    | accessor kind => exact next.skip fun _ => accessor h kind hcontext
    | closure kind =>
      exact next.skip fun _ => indexNode.bind fun number _ _ _ hnumber =>
        (h.plain .type nofun _).bind fun type _ _ _ htype =>
        triple (by omega) (by omega) (by omega)

lemma entityBody : Nests g start (Within g (low + 3)) (Grammar.entityBody call) := by
  refine (accept _).skip fun isStatic => peek.skip fun c => ?_
  cases entityKind? c with
  | none => exact (nominal h).upTo (by omega)
  | some kind =>
    refine next.skip fun _ => (h.plain .context nofun _).bind fun context _ _ _ hcontext =>
      (entityInContext h kind hcontext).bind fun entity _ _ _ hentity => ?_
    cases isStatic with
    | true => exact single hentity
    | false => exact pure fun _ _ _ => by omega

end Entities

section Generics

lemma height_genericParam (depth index : Nat) : (genericParam depth index).height = 2 :=
  rfl

lemma genericParamIndex : Nests g start (Within g 2) Grammar.genericParamIndex := by
  have hparam : ∀ depth index, Nests g start (Within g 2) (Pure.pure (genericParam depth index)) :=
    fun depth index => ofHeight (height_genericParam depth index).le
  refine ite _ (index.skip fun depth => index.skip fun number => ?_) <|
    ite _ (hparam 0 0) <| index.skip fun number => hparam 0 _
  unfold Grammar.writtenParam
  split
  · exact hparam _ number
  · exact fun _ _ _ _ => trivial

variable (h : Shallow g low extra call)
include h

lemma associatedTypeRef : Nests g start (Within g (low + 3)) (Grammar.associatedTypeRef call) := by
  have hroom := h.room
  refine reference h.granted (fun node _ _ _ hnode => ?_) <|
    (afterMark _ (protocolType h)).bind fun protocol _ _ _ hprotocol =>
    (identifier _).bind fun name owed _ _ hname => ?_
  · split
    · exact pure fun _ _ _ => by omega
    · exact refuse
  · cases protocol with
    | none =>
      show Nests _ _ _ (Pure.pure name >>= _)
      rw [pure_bind]
      exact recorded hroom (by omega)
    | some protocol =>
      show Nests _ _ _ (Pure.pure (name.push protocol) >>= _)
      have hlow : protocol.height + _ ≤ g.total + (low + 2) := hprotocol protocol rfl
      have hpushed : (name.push protocol).height ≤ g.total + (low + 2) - owed + 1 :=
        Node.height_push_le (by omega) (by omega)
      rw [pure_bind]
      exact recorded hroom (by omega)

lemma memberType {base : Node} (hbase : base.height + start ≤ g.total + (low + 3)) :
    Nests g start (Within g (low + 4)) (Grammar.memberType call base) :=
  (associatedTypeRef h).bind fun name _ _ _ hname => pair (by omega) hname

lemma simpleMemberType : Nests g start (Within g (low + 4)) (Grammar.simpleMemberType call) :=
  genericParamIndex.bind fun param _ _ _ hparam => (single hparam).bind fun base _ _ _ hbase =>
    memberType h (by omega)

omit h in
/-- A round puts two levels above the base and one above the name. -/
lemma height_memberType (base name : Node) :
    (Node.branch .dependentMemberType [.branch .type [base], name]).height ≤
      max (base.height + 1) name.height + 1 := by
  have hwrapped : (Node.branch .type [base]).height ≤ base.height + 1 :=
    Node.height_le (List.forall_mem_singleton.2 (Nat.le_refl _))
  exact Node.height_le (List.forall_mem_cons.2 ⟨hwrapped.trans (Nat.le_max_left ..),
    List.forall_mem_singleton.2 (Nat.le_max_right ..)⟩)

/-- The rounds of a compound member type. The two levels of a round are granted by the bytes of its
name. -/
lemma memberRounds (count : Nat) {base : Node} (limit : Int) {s : State} (hs : Fits g s)
    (hcompound : s.unread.length ≤ (Bytes.fromCompound g.name).length)
    (hbase : base.height + g.owed s.unread ≤ g.total + (low + 4)) :
    Ends g (g.owed s.unread) (Within g (low + 4))
      (Grammar.rounds (memberRound call) count base limit s) := by
  induction count generalizing base s with
  | zero => exact ⟨hs, Nat.le_refl _⟩
  | succ count ih =>
    rw [Grammar.rounds, memberRound_eq, bind_assoc]
    refine (accept "_" limit s hs (Nat.le_refl _)).bind fun found s₁ hmark hs₁ howed _ => ?_
    cases found with
    | true => exact ⟨⟨hs₁, Nat.le_refl _⟩, by show base.height + _ ≤ _; omega⟩
    | false =>
      obtain rfl := eq_of_accept_false hmark
      rw [if_neg Bool.false_ne_true, bind_assoc]
      refine ((associatedTypeRef h) limit _ hs₁ (Nat.le_refl _)).bind fun name s₂ hfound hs₂ _ hname => ?_
      obtain ⟨taken, htaken, hleast, -⟩ := (Settles.associatedTypeRef h.settled).found hfound
      have hlength := congrArg List.length htaken
      rw [List.length_append] at hlength
      have hgranted : g.owed s₂.unread + 2 ≤ g.owed s₁.unread :=
        Grants.owed_compound ⟨taken, htaken.symm⟩ (by omega) hcompound
      have hheight := height_memberType base name
      rw [pure_bind]
      exact ih hs₂ (by omega) (by omega)

/-- A compound member type behind its letter. -/
lemma compoundMemberType_after {levels : Nat} (hlevels : low + 4 ≤ levels) :
    NestsAfter g start 0x57 (Within g levels) (Grammar.compoundMemberType call) := by
  intro limit s rest hs _ hunread
  have htaken := hs.taken (hunread ▸ List.suffix_cons 0x57 rest)
  have hcompound : rest.length + 1 ≤ (Bytes.fromCompound g.name).length :=
    Bytes.length_le_fromCompound (hunread ▸ hs.suffix)
  refine Ends.weaken ?_ htaken.2 fun _ _ _ _ hnode => Nat.le_trans hnode (Nat.add_le_add_left hlevels _)
  refine (genericParamIndex limit _ htaken.1 (Nat.le_refl _)).bind fun param s' hfound hs' _ hparam => ?_
  have hshorter : s'.unread.length + 1 ≤ rest.length := Settles.genericParamIndex.shorter hfound
  exact memberRounds h _ limit hs' (by omega) (by omega)

lemma dependentType : Nests g start (Within g (low + 4)) (Grammar.dependentType call) := by
  refine unlessEnd <| peek.skip fun c => ?_
  split
  · exact (h.plain .type nofun _).bind fun base _ _ _ hbase => memberType h (by omega)
  · exact genericParamIndex.upTo (by omega)

lemma constrainedType : Nests g start (Within g (low + 5)) (Grammar.constrainedType call) := by
  have hparam : Nests g start (Within g (low + 4)) (Grammar.paramOrMember call) :=
    ite _ (simpleMemberType h) <| iteAfter rfl (compoundMemberType_after h (Nat.le_refl _)) <|
      genericParamIndex.upTo (by omega)
  exact hparam.bind fun _ _ _ _ htype => single htype

omit h in
lemma layoutNumbers (count : Nat) : Nests g start Whatever (Grammar.layoutNumbers count) := by
  unfold Grammar.layoutNumbers
  split
  · exact pure fun _ _ _ => trivial
  · exact natural.skip fun _ => pure fun _ _ _ => trivial
  · exact natural.skip fun _ => (demand _).skip fun _ => natural.skip fun _ => pure fun _ _ _ => trivial

omit h in
lemma layoutRequirement {constrained : Node} {levels : Nat} (hlevels : 1 ≤ levels)
    (hconstrained : constrained.height + start ≤ g.total + levels) :
    Nests g start (Within g (levels + 1)) (Grammar.layoutRequirement constrained) := by
  refine next.skip fun letter => (orRefuse _).skip fun count => (layoutNumbers count).skip fun numbers =>
    named.bind fun letter _ _ htotal hletter => branch (constrained :: letter ::
      numbers.map fun (n : Nat) => .numbered .number n) ?_
  refine List.forall_mem_cons.2 ⟨by omega, List.forall_mem_cons.2 ⟨by omega, List.forall_mem_map.2 ?_⟩⟩
  intro n _
  show 1 + _ ≤ _
  omega

lemma substitutedConstraint_after :
    NestsAfter g start 0x53 (Within g (low + 2)) Grammar.substitutedConstraint := by
  have hfloor := h.floor
  have hroom := h.room
  refine bindAfter (substitution_after h.granted hfloor) fun node _ _ _ hnode => ?_
  split
  · exact (single hnode).upTo (by omega)
  · split
    · exact (protocolInContext hfloor (by omega) hnode).bind fun _ _ _ _ hprotocol => single hprotocol
    · exact refuse

lemma conformanceConstraint :
    Nests g start (Within g (low + 2)) (Grammar.conformanceConstraint call) := by
  refine unlessEnd <| peekAfter fun c => ?_
  split
  · exact .inl ((h.plain .type nofun _).upTo (by omega))
  · refine .inr ⟨by decide, _, rfl, fun b hb => ?_⟩
    obtain rfl := Bytes.eq_of_char hb
    exact substitutedConstraint_after h
  · exact .inl (protocolType h)

lemma requirement : Nests g start (Within g (low + 6)) (Grammar.requirement call) :=
  (constrainedType h).bind fun constrained _ _ _ hconstrained =>
    ite _ ((h.plain .type nofun _).bind fun type _ _ _ htype => pair (by omega) (by omega)) <|
    ite _ (layoutRequirement (by omega) hconstrained) <|
    (conformanceConstraint h).bind fun constraint _ _ _ hconstraint => pair (by omega) (by omega)

omit h in
lemma paramCounts : Nests g start Whatever Grammar.paramCounts := by
  have hcount : ∀ start, Nests g start Whatever Grammar.paramCount := fun start =>
    ite _ (pure fun _ _ _ => trivial) <| index.skip fun _ => pure fun _ _ _ => trivial
  have hcounts : Nests g start (fun counts owed => ∀ count ∈ counts, Whatever count owed)
      (Grammar.gather (do
        let c ← Grammar.peek
        Pure.pure (c = 'R' || c = 'r')) fun _ => Grammar.paramCount) :=
    gather (fun _ _ _ _ => id) (fun _ => peek.skip fun _ => pure fun _ _ _ => trivial)
      fun start _ => hcount start
  exact (hcounts.weaken fun _ _ _ _ _ => trivial).skip fun _ => pure fun _ _ _ => trivial

lemma requirements : Nests g start (AllWithin g (low + 6)) (Grammar.requirements call) :=
  ite _ (pure fun _ _ _ => nofun) <| (demand _).skip fun _ =>
    gatherEach (fun _ => accept _) fun _ _ => requirement h

lemma signatureBody (pseudogeneric : Bool) :
    Nests g start (Within g (low + 7)) (Grammar.signatureBody call pseudogeneric) := by
  refine paramCounts.skip fun counts => (requirements h).bind fun requirements _ _ htotal hrequirements =>
    branch ((counts.map fun (n : Nat) => .numbered .dependentGenericParamCount n) ++ requirements) ?_
  refine List.forall_mem_append.2 ⟨List.forall_mem_map.2 fun n _ => ?_, hrequirements⟩
  show 1 + _ ≤ _
  omega

omit h in
lemma associatedType {root : Node} {levels : Nat} (hlevels : 2 ≤ levels) (hroom : levels + 1 ≤ g.reach)
    (hroot : root.height + start ≤ g.total + levels) :
    Nests g start (Within g (levels + 1)) (Grammar.associatedType root) :=
  inContext ((identifier none).upTo (by omega)) hlevels hroom hroot

lemma archetypeBody : Nests g start (Within g (low + 1)) (Grammar.archetypeBody call) := by
  have hfloor := h.floor
  have hroom := h.room
  refine ite _ ((h.plain .archetype nofun _).bind fun _ _ _ _ hroot =>
      associatedType hfloor (by omega) hroot) <|
    reference h.granted (fun _ _ _ _ hroot => associatedType hfloor (by omega) (by omega)) <|
    ite _ (fun limit s hs _ => ?_) refuse
  have howed := hs.owed_le
  exact associatedType hfloor (by omega) (by rw [stdlibModule_height]; omega) limit s hs (Nat.le_refl _)

end Generics

end Nests

end SwiftMangling.Grammar
