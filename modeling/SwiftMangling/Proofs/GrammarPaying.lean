import SwiftMangling.Proofs.Paying

/-!
# Productions pay for their nodes

Each production that puts nodes together takes bytes for them: the productions inside it leave a few
nodes over, and so does each mark and each number. What hangs off a node that is given, such as a
declaration off its context, is bought with that node as a credit.
-/

namespace SwiftMangling.Grammar

/-- Productions that pay for what they find, with a few nodes left over. Generic arguments are read onto
a node that has been paid for. -/
structure Thrifty (bytes top : Nat) (call : Calls) : Prop where
  bareType : Buys (rising bytes top) 0 5 (call .bareType)
  plain : ∀ production, production ≠ .bareType → (∀ nominal, production ≠ .boundArguments nominal) →
    Buys (rising bytes top) 0 4 (call production)
  boundArguments : ∀ nominal : Node, Buys (rising bytes top) nominal.size 4 (call (.boundArguments nominal))

namespace Pays

variable {g : Tariff} {bytes top credit extra : Nat} {call : Calls}

section Names

/-- A leaf with a text. -/
lemma named {kind : Kind} {content : Text} (h : 1 + extra ≤ credit) :
    Buys g credit extra (Grammar.named kind content) :=
  pure h

lemma indexNode : Buys g 0 15 Grammar.indexNode :=
  index.first fun _ => numbered [] (Nat.le_refl _)

lemma builtinSize : Pays g 0 free Grammar.builtinSize :=
  natural.first fun _ => (demand _ rfl).first fun _ => pure (Nat.zero_le _)

lemma identifierText (punycoded operator : Bool) (bytes : Bytes) :
    Pays g 0 free (Grammar.identifierText punycoded operator bytes) := by
  obtain h | ⟨text, h⟩ := identifierText_eq punycoded operator bytes
  · rw [h]
    exact refuse
  · rw [h]
    exact pure (Nat.le_refl 0)

lemma identifierKind (required : Option Kind) (operator : Bool) :
    Pays g 0 free (Grammar.identifierKind required operator) := by
  unfold Grammar.identifierKind
  split
  · exact pure (Nat.le_refl 0)
  · exact pure (Nat.le_refl 0)
  · exact refuse
  · exact next.skip fun _ => orRefuse _

lemma identifier (required : Option Kind) : Buys g 0 15 (Grammar.identifier required) :=
  unlessEnd <| (optional _).skip fun punycoded => (optional _).skip fun operator =>
    (identifierKind required operator).skip fun _ => natural.first fun length =>
    (advance length).skip fun bytes => (identifierText punycoded operator bytes).skip fun _ =>
    named (Nat.le_refl _)

lemma declName : Buys g 0 4 Grammar.declName := by
  refine ite _ rfl (indexNode.first fun number => (identifier _).first fun name => pair ?_) <|
    ite _ rfl ((identifier _).first fun file => (identifier _).first fun name => pair ?_) <|
    (identifier _).within (Nat.le_refl _) (by omega)
  · omega
  · omega

end Names

section Nominals

/-- A node that is recorded and given back. -/
lemma recorded {node : Node} (h : node.size + extra ≤ credit) :
    Buys (rising bytes top) credit extra (do Grammar.record node; Pure.pure node) :=
  (record (Nat.le_of_add_right_le h)).bind fun _ => pure h

lemma stdlibModule_size : stdlibModule.size = 1 :=
  rfl

lemma moduleName : Buys (rising bytes top) 0 4 Grammar.moduleName := by
  refine ite _ rfl (pure ?_) <| ite _ rfl (substitution.first fun node => ?_) <|
    (identifier _).bind fun node => recorded (by omega)
  · rw [stdlibModule_size]
    decide
  · split
    · exact pure (by omega)
    · exact refuse

/-- What is made of a context and a name, and recorded. -/
lemma inContext {kind : Kind} {context : Node} {p : Parser Node} (hp : Buys (rising bytes top) 0 4 p)
    (h : context.size ≤ credit) :
    Buys (rising bytes top) credit 3 (do
      let name ← p
      let node ← Grammar.branch kind [context, name]
      Grammar.record node
      Pure.pure node) :=
  hp.first fun name => (pair (show _ + 3 ≤ _ by omega)).bind fun node => recorded (Nat.le_refl _)

lemma protocolInContext {context : Node} (h : context.size ≤ credit) :
    Buys (rising bytes top) credit 3 (Grammar.protocolInContext context) :=
  inContext declName h

variable (h : Thrifty bytes top call)
include h

lemma declaration (kind : Kind) : Buys (rising bytes top) 0 4 (Grammar.declaration call kind) :=
  (h.plain .context nofun nofun).bind fun context =>
    (inContext declName (Nat.le_refl context.size)).within (by omega) (by omega)

lemma protocol : Buys (rising bytes top) 0 4 (Grammar.protocol call) := by
  refine ite _ rfl (substitution.first fun node => ?_) <| ite _ rfl ?_ <| declaration h .protocolDecl
  · split
    · exact pure (by omega)
    · split
      · exact (protocolInContext (Nat.le_refl node.size)).within (by omega) (by omega)
      · exact refuse
  · exact (protocolInContext stdlibModule_size.le).within (by omega) (by omega)

lemma protocolType : Buys (rising bytes top) 0 3 (Grammar.protocolType call) :=
  (protocol h).bind fun node => single (by omega)

lemma nominal : Buys (rising bytes top) 0 4 (Grammar.nominal call) := by
  have hdeclared : ∀ kind, Buys (rising bytes top) (0 + 16) 4 (Grammar.declaration call kind) :=
    fun kind => (declaration h kind).within (by omega) (by omega)
  exact ite _ rfl (substitution.within (by omega) (by omega)) <| ite _ rfl (hdeclared _) <|
    ite _ rfl (hdeclared _) <| ite _ rfl (hdeclared _) <| ite _ rfl (hdeclared _) refuse

end Nominals

section GenericArguments

variable (h : Thrifty bytes top call)
include h

/-- A parent with its arguments takes the place of the parent that was paid for. -/
lemma onBoundParent (node : Node) :
    Buys (rising bytes top) node.size 0 (Grammar.onBoundParent call node) := by
  have hself : Buys (rising bytes top) node.size 0 (Pure.pure node) := pure (Nat.le_refl _)
  obtain ⟨kind, payload, children⟩ := node
  match children with
  | [] => exact refuse
  | [parent] =>
    show Buys _ _ _ (if isOutermost parent.kind then _ else _)
    split
    · exact hself
    · exact refuse
  | parent :: name :: rest =>
    rw [Reads.onBoundParent_pair]
    split
    · exact hself
    · rw [Node.size_mk, Node.sizeAll_cons, Node.sizeAll_cons]
      have hparent : Buys (rising bytes top) (parent.size + (name.size + Node.sizeAll rest) + 1)
          (name.size + 1) (call (.boundArguments parent)) :=
        (h.boundArguments parent).within (by omega) (by omega)
      exact hparent.bind fun parent' => pair (by omega)

lemma argumentList :
    Pays (rising bytes top) 0 (fun arguments => Node.sizeAll arguments + 16)
      (Grammar.argumentList call) := by
  have hargument : Buys (rising bytes top) 0 4 (do
      let argument ← call .type
      if ← Grammar.atEnd then Grammar.refuse else Pure.pure argument) := by
    refine (h.plain .type nofun nofun).bind fun argument => atEnd.skip fun ended => ?_
    cases ended with
    | true => exact refuse
    | false => exact pure (Nat.le_refl _)
  exact gather _ rfl fun _ => hargument

omit h in
lemma applyArguments (node : Node) (arguments : List Node) :
    Buys g (node.size + Node.sizeAll arguments + 16) 4 (Grammar.applyArguments node arguments) := by
  unfold Grammar.applyArguments
  split
  · exact pure (by omega)
  · refine (orRefuse _).skip fun kind => ?_
    rw [branch_single, pure_bind, branch_map_some, pure_bind]
    refine pair ?_
    rw [Node.size_branch_singleton, Node.size_branch]
    omega

lemma boundArgumentsBody (node : Node) :
    Buys (rising bytes top) node.size 4 (Grammar.boundArgumentsBody call node) :=
  (onBoundParent h node).bind fun node' => (argumentList h).first fun arguments =>
    (applyArguments node' arguments).within (by omega) (by omega)

lemma boundGeneric : Buys (rising bytes top) 0 4 (Grammar.boundGeneric call) :=
  (nominal h).bind fun node => (h.boundArguments node).within (by omega) (by omega)

end GenericArguments

section Contexts

variable (h : Thrifty bytes top call)
include h

lemma extensionContext : Buys (rising bytes top) 0 4 (Grammar.extensionContext call) :=
  moduleName.bind fun definer => (h.plain .context nofun nofun).first fun extended => pair (by omega)

lemma constrainedExtension : Buys (rising bytes top) 0 4 (Grammar.constrainedExtension call) :=
  moduleName.bind fun definer => (h.plain (.signature false) nofun nofun).first fun signature =>
    (h.plain .context nofun nofun).first fun extended => triple (by omega)

lemma contextBody : Buys (rising bytes top) 0 4 (Grammar.contextBody call) := by
  refine unlessEnd <| ite _ rfl ((extensionContext h).within (by omega) (by omega)) <|
    ite _ rfl ((constrainedExtension h).within (by omega) (by omega)) <|
    ite _ rfl (substitution.within (by omega) (by omega)) <|
    ite _ rfl (pure (by rw [stdlibModule_size]; decide)) <|
    ite _ rfl ((boundGeneric h).within (by omega) (by omega)) <| peek.skip fun c => ?_
  split
  · exact h.plain .entity nofun nofun
  · exact moduleName

lemma protocolList : Buys (rising bytes top) 0 4 (Grammar.protocolList call) := by
  refine (gather _ rfl fun _ => protocolType h).bind fun protocols => ?_
  rw [branch_map_some, pure_bind]
  refine single ?_
  rw [Node.size_branch]
  omega

lemma conformance : Buys (rising bytes top) 0 4 (Grammar.conformance call) :=
  (h.plain .type nofun nofun).bind fun conforming => (protocolType h).first fun protocol =>
    (h.plain .context nofun nofun).first fun context => triple (by omega)

end Contexts

section Entities

/-- What is left of a name that is taken apart costs no more than the name. -/
lemma accessedName_cheap (name : Node) :
    (∃ rest, accessedName name = Pure.pure (true, rest) ∧ ∀ node ∈ rest, node.size ≤ name.size) ∨
      accessedName name = Pure.pure (false, some name) := by
  obtain hnone | ⟨file, hmem, hfile⟩ | hsame := accessedName_cases name
  · exact .inl ⟨none, hnone, nofun⟩
  · refine .inl ⟨_, hfile, fun node hnode => ?_⟩
    cases hnode
    obtain ⟨kind, payload, children⟩ := name
    rw [Node.size_branch_singleton, Node.size_mk]
    exact Nat.succ_le_succ (Node.size_le_sizeAll hmem)
  · exact .inr hsame

variable {context : Node}

lemma initializerName (hcontext : context.size ≤ credit) :
    Buys g credit 4 (Grammar.initializerName context) :=
  ite _ rfl (indexNode.first fun number => pair (by omega)) <|
    ite _ rfl (single (by omega)) refuse

variable (h : Thrifty bytes top call)
include h

lemma accessedNode (name : Node) (hcredit : context.size + name.size + 4 ≤ credit) :
    Buys (rising bytes top) credit 5 (Grammar.accessedNode call context name) := by
  unfold Grammar.accessedNode
  obtain ⟨rest, haccessed, hrest⟩ | haccessed := accessedName_cheap name
  · rw [haccessed, pure_bind]
    refine (h.plain .type nofun nofun).first fun type => ?_
    cases rest with
    | none => exact pair (by omega)
    | some file =>
      have hfile := hrest file rfl
      exact triple (by omega)
  · rw [haccessed, pure_bind]
    show Buys _ _ _ (Grammar.branch .variableDecl [some context, some name] >>= _)
    rw [branch_pair, pure_bind]
    refine (h.plain .type nofun nofun).first fun type => pure ?_
    rw [Node.size_push, Node.size_branch, Node.sizeAll_cons, Node.sizeAll_singleton]
    omega

lemma accessor (kind : Kind) (hcontext : context.size ≤ credit) :
    Buys (rising bytes top) credit 4 (Grammar.accessor call kind context) :=
  declName.first fun name => (accessedNode h name (by omega)).bind fun accessed => single (by omega)

lemma namedEntity (kind : Kind) (hcontext : context.size ≤ credit) :
    Buys (rising bytes top) credit 4 (Grammar.namedEntity call kind context) :=
  declName.first fun name => (h.plain .type nofun nofun).first fun type => triple (by omega)

lemma entityInContext (kind : Kind) (hcontext : context.size ≤ credit) :
    Buys (rising bytes top) credit 4 (Grammar.entityInContext call kind context) := by
  refine onLetter fun c => ?_
  cases hname : entityName? c with
  | none =>
    dsimp only
    split
    · exact .inl (initializerName hcontext)
    · exact .inl (namedEntity h kind hcontext)
  | some name =>
    refine .inr ⟨ne_dot_of_lookup hname rfl, ?_⟩
    cases name with
    | untyped kind => exact ⟨_, rfl, single (by omega)⟩
    | typed kind =>
      exact ⟨_, rfl, (h.plain .type nofun nofun).first fun type => pair (by omega)⟩
    | addressor kind? =>
      exact ⟨_, rfl, next.skip fun letter => (orRefuse _).skip fun kind => accessor h kind (by omega)⟩
    | accessor kind => exact ⟨_, rfl, accessor h kind (by omega)⟩
    | closure kind =>
      exact ⟨_, rfl, indexNode.first fun number => (h.plain .type nofun nofun).first fun type =>
        triple (by omega)⟩

lemma entityBody : Buys (rising bytes top) 0 4 (Grammar.entityBody call) := by
  refine (optional _).skip fun isStatic => onLetter fun c => ?_
  cases hkind : entityKind? c with
  | none => exact .inl (nominal h)
  | some kind =>
    refine .inr ⟨ne_dot_of_lookup hkind rfl, _, rfl, ?_⟩
    refine (h.plain .context nofun nofun).first fun context => ?_
    have hentity : Buys (rising bytes top) (0 + 16 + (context.size + 4)) 5
        (Grammar.entityInContext call kind context) :=
      (entityInContext h kind (Nat.le_refl context.size)).within (by omega) (by omega)
    refine hentity.bind fun entity => ?_
    cases isStatic with
    | true => exact single (by omega)
    | false => exact pure (by omega)

end Entities

section Generics

/-- A generic parameter has a depth and an index. -/
lemma size_genericParam (depth index : Nat) : (genericParam depth index).size = 3 :=
  rfl

lemma genericParamIndex : Buys g 0 8 Grammar.genericParamIndex := by
  have hparam : ∀ {credit} depth index, 11 ≤ credit → Buys g credit 8 (Pure.pure (genericParam depth index)) :=
    fun depth index hcredit => pure (by rw [size_genericParam]; exact hcredit)
  refine ite _ rfl (index.first fun depth => index.first fun number => ?_) <|
    ite _ rfl (hparam 0 0 (by decide)) <| index.first fun number => hparam 0 _ (by decide)
  unfold Grammar.writtenParam
  split
  · exact hparam _ number (by decide)
  · exact stop _

variable (h : Thrifty bytes top call)
include h

lemma associatedTypeRef : Buys (rising bytes top) 0 4 (Grammar.associatedTypeRef call) := by
  refine ite _ rfl (substitution.first fun node => ?_) <|
    (afterMark _ rfl (protocolType h)).bind fun protocol => (identifier _).first fun name => ?_
  · split
    · exact pure (by omega)
    · exact refuse
  · cases protocol with
    | none =>
      show Pays _ _ _ (Pure.pure name >>= _)
      rw [pure_bind]
      exact recorded (by omega)
    | some protocol =>
      show Pays _ _ _ (Pure.pure (name.push protocol) >>= _)
      rw [pure_bind]
      refine recorded ?_
      rw [Node.size_push, Option.toList_some, Node.sizeAll_singleton]
      omega

/-- A member type leaves three nodes over from a base that is paid for. -/
lemma memberType {base : Node} (hbase : base.size ≤ credit) :
    Buys (rising bytes top) credit 3 (Grammar.memberType call base) :=
  (associatedTypeRef h).first fun name => pair (by omega)

lemma simpleMemberType : Buys (rising bytes top) 0 4 (Grammar.simpleMemberType call) :=
  genericParamIndex.bind fun param => (single (Nat.le_refl (param.size + 1 + 7))).bind fun base =>
    (memberType h (Nat.le_refl base.size)).within (by omega) (by omega)

/-- A round of a compound member type costs two nodes, of which one is the type around the base. -/
lemma compoundMemberType : Buys (rising bytes top) 0 4 (Grammar.compoundMemberType call) := by
  have hround : ∀ base : Node, Pays (rising bytes top) (base.size + 1) (fun node => node.size + 1) (do
      let base ← Grammar.branch .type [base]
      Grammar.memberType call base) := by
    intro base
    rw [branch_single, pure_bind]
    exact (memberType h (Node.size_branch_singleton ..).le).within (Nat.le_refl _) (by omega)
  refine genericParamIndex.bind fun param => ?_
  exact (foldUntil (fun node => node.size + 1) rfl hround param).within (by omega) (by omega)

lemma dependentType : Buys (rising bytes top) 0 4 (Grammar.dependentType call) := by
  refine unlessEnd <| peek.skip fun c => ?_
  split
  · exact (h.plain .type nofun nofun).bind fun base =>
      (memberType h (Nat.le_refl base.size)).within (by omega) (by omega)
  · exact genericParamIndex.within (Nat.le_refl _) (by omega)

lemma constrainedType : Buys (rising bytes top) 0 3 (Grammar.constrainedType call) := by
  have hparam : Buys (rising bytes top) 0 4 (Grammar.paramOrMember call) :=
    ite _ rfl ((simpleMemberType h).within (by omega) (by omega)) <|
      ite _ rfl ((compoundMemberType h).within (by omega) (by omega)) <|
      genericParamIndex.within (Nat.le_refl _) (by omega)
  exact hparam.bind fun type => single (by omega)

omit h in
lemma layoutNumbers (count : Nat) :
    Pays g 0 List.length (Grammar.layoutNumbers count) := by
  unfold Grammar.layoutNumbers
  split
  · exact pure (Nat.le_refl 0)
  · exact natural.first fun size => pure (show 1 ≤ 16 by decide)
  · exact natural.first fun size => (demand _ rfl).first fun _ => natural.first fun alignment =>
      pure (show 2 ≤ 48 by decide)

omit h in
lemma layoutRequirement {constrained : Node} (hcredit : constrained.size + 16 ≤ credit) :
    Buys g credit 4 (Grammar.layoutRequirement constrained) := by
  refine next.skip fun letter => (orRefuse _).skip fun count => (layoutNumbers count).first fun numbers => ?_
  show Pays _ _ _ (Pure.pure (Node.named .identifier [CodePoint.ofChar letter]) >>= _)
  rw [pure_bind]
  have hletter : (Node.named .identifier [CodePoint.ofChar letter]).size = 1 := rfl
  refine branch (constrained :: .named .identifier [CodePoint.ofChar letter] ::
    numbers.map fun (n : Nat) => .numbered .number n) ?_
  rw [Node.sizeAll_cons, Node.sizeAll_cons, Node.sizeAll_numbers]
  omega

omit h in
lemma substitutedConstraint : Buys (rising bytes top) 16 3 Grammar.substitutedConstraint := by
  refine substitution.first fun node => ?_
  split
  · exact single (by omega)
  · split
    · exact ((protocolInContext (Nat.le_refl node.size)).within (by omega)
        (show _ + 4 ≤ _ by omega)).bind fun protocol => single (by omega)
    · exact refuse

lemma conformanceConstraint : Buys (rising bytes top) 0 3 (Grammar.conformanceConstraint call) := by
  refine unlessEnd <| onLetter fun c => ?_
  split
  · exact .inl ((h.plain .type nofun nofun).within (Nat.le_refl _) (by omega))
  · exact .inr ⟨by decide, _, rfl, substitutedConstraint⟩
  · exact .inl (protocolType h)

lemma requirement : Buys (rising bytes top) 0 4 (Grammar.requirement call) :=
  (constrainedType h).bind fun constrained =>
    ite _ rfl ((h.plain .type nofun nofun).first fun type => pair (by omega)) <|
    ite _ rfl (layoutRequirement (by omega)) <|
    (conformanceConstraint h).first fun constraint => pair (by omega)

omit h in
/-- A signature has a single parameter without any count. -/
lemma paramCounts : Pays g 0 (fun counts => counts.length - 1) Grammar.paramCounts := by
  have hcount : Pays g 0 (fun _ => 1) Grammar.paramCount :=
    ite _ rfl (pure (by decide)) <| index.first fun _ => pure (by decide)
  have hstop : Pays g 0 (fun stopped => if stopped then 0 else 0) (do
      let c ← Grammar.peek
      Pure.pure (c = 'R' || c = 'r')) :=
    peek.skip fun c => pure (ite_self 0).le
  have hcounts := collect List.length hstop (fun _ => List.length_reverse) fun earlier =>
    hcount.frame earlier.length
  refine hcounts.bind fun counts => pure ?_
  split
  · exact Nat.zero_le _
  · exact Nat.sub_le ..

lemma requirements :
    Pays (rising bytes top) 0 (fun requirements => Node.sizeAll requirements + 16)
      (Grammar.requirements call) :=
  ite _ rfl (pure (by rw [Node.sizeAll_nil])) <| (demand _ rfl).first fun _ =>
    (gather _ rfl fun _ => requirement h).weaken (Nat.zero_le _) fun _ => Nat.le_refl _

lemma signatureBody (pseudogeneric : Bool) :
    Buys (rising bytes top) 0 4 (Grammar.signatureBody call pseudogeneric) := by
  refine paramCounts.bind fun counts => (requirements h).first fun requirements =>
    branch ((counts.map fun (n : Nat) => .numbered .dependentGenericParamCount n) ++ requirements) ?_
  rw [Node.sizeAll_append, Node.sizeAll_numbers]
  omega

omit h in
lemma associatedType {root : Node} (hroot : root.size ≤ credit) :
    Buys (rising bytes top) credit 3 (Grammar.associatedType root) :=
  inContext ((identifier none).within (Nat.le_refl _) (by omega)) hroot

lemma archetypeBody : Buys (rising bytes top) 0 4 (Grammar.archetypeBody call) :=
  ite _ rfl ((h.plain .archetype nofun nofun).first fun root =>
      (associatedType (Nat.le_refl root.size)).within (by omega) (by omega)) <|
    ite _ rfl (substitution.first fun root =>
      (associatedType (Nat.le_refl root.size)).within (by omega) (by omega)) <|
    ite _ rfl ((associatedType stdlibModule_size.le).within (by omega) (by omega)) refuse

end Generics

end Pays

end SwiftMangling.Grammar
