import SwiftMangling.Proofs.GrammarSteady
import SwiftMangling.Proofs.LongerName

/-!
# Types where more bytes follow

The productions inside a type are firm: while an underscore is left unread, they come to the same where
more bytes follow, up to the lengths that these bytes make good. Only the marks of symbols have an
underscore before their end, and no symbol stands in a type.
-/

namespace SwiftMangling.Grammar

/-- Productions inside a type that are firm. -/
structure FirmCalls (more : Bytes) (call : Calls) : Prop where
  settled : Settled call
  type : Firm more (call .type)
  bareType : Firm more (call .bareType)
  context : Firm more (call .context)
  entity : Firm more (call .entity)
  archetype : Firm more (call .archetype)
  boundArguments : ∀ nominal, Firm more (call (.boundArguments nominal))
  signature : ∀ pseudogeneric, Firm more (call (.signature pseudogeneric))
  implFunction : Firm more (call .implFunction)

namespace Firm

variable {more : Bytes} {call : Calls}

section Names

lemma identifierKind (required : Option Kind) (operator : Bool) :
    Firm more (Grammar.identifierKind required operator) := by
  unfold Grammar.identifierKind
  split
  · exact pure _
  · exact pure _
  · exact refuse
  · exact next.bind fun letter => orRefuse _

lemma identifierText (punycoded operator : Bool) (bytes : Bytes) :
    Firm more (Grammar.identifierText punycoded operator bytes) := by
  obtain h | ⟨text, h⟩ := identifierText_eq punycoded operator bytes
  · rw [h]
    exact refuse
  · rw [h]
    exact pure text

lemma identifier (required : Option Kind) : Firm more (Grammar.identifier required) :=
  unlessEnd <| (accept rfl).bind fun punycoded => (accept rfl).bind fun operator =>
    (identifierKind required operator).bind fun kind => afterCounted fun bytes =>
    (identifierText punycoded operator bytes).bind fun text => named kind text

lemma declName : Firm more Grammar.declName :=
  ite rfl (indexNode.bind fun discriminator => (identifier none).bind fun name =>
      branch .localDeclName [discriminator, name]) <|
    ite rfl ((identifier none).bind fun discriminator => (identifier none).bind fun name =>
      branch .privateDeclName [discriminator, name]) (identifier none)

lemma substitution : Firm more Grammar.substitution := by
  refine unlessEnd <| ite rfl (pure _) <| ite rfl (pure _) <| peek.bind fun c => ?_
  cases standardType? c with
  | some type => exact next.bind fun _ => pure _
  | none => exact index.bind fun position => recalled position

lemma moduleName : Firm more Grammar.moduleName := by
  refine ite rfl (pure _) <| ite rfl (substitution.bind fun node => ?_) <|
    (identifier _).bind fun node => (record node).bind fun _ => pure _
  split
  · exact pure _
  · exact refuse

end Names

section Productions

variable (h : FirmCalls more call)
include h

omit h in
lemma wrapped (kind : Kind) {production : Production} (hp : Firm more (call production)) :
    Firm more (Grammar.wrapped call kind production) :=
  hp.bind fun child => branch kind [child]

lemma declaration (kind : Kind) : Firm more (Grammar.declaration call kind) :=
  h.context.bind fun context => declName.bind fun name =>
    (branch kind [context, name]).bind fun node => (record node).bind fun _ => pure _

omit h in
lemma protocolInContext (context : Node) : Firm more (Grammar.protocolInContext context) :=
  declName.bind fun name => (branch .protocolDecl [context, name]).bind fun node =>
    (record node).bind fun _ => pure _

lemma protocol : Firm more (Grammar.protocol call) := by
  refine ite rfl (substitution.bind fun node => ?_) <|
    ite rfl (protocolInContext _) (declaration h _)
  split
  · exact pure _
  · split
    · exact protocolInContext node
    · exact refuse

lemma protocolType : Firm more (Grammar.protocolType call) :=
  (protocol h).bind fun node => branch .type [node]

lemma nominal : Firm more (Grammar.nominal call) :=
  ite rfl substitution <| ite rfl (declaration h _) <| ite rfl (declaration h _) <|
    ite rfl (declaration h _) <| ite rfl (declaration h _) refuse

lemma onBoundParent (node : Node) : Firm more (Grammar.onBoundParent call node) := by
  unfold Grammar.onBoundParent
  by_cases hnone : node.children.length = 0
  · rw [if_pos hnone]
    exact refuse
  · rw [if_neg hnone, childAt_of_lt (Nat.pos_of_ne_zero hnone), pure_bind]
    split
    · exact pure _
    · split
      · exact refuse
      · next hlen =>
        rw [childAt_of_lt (Nat.not_lt.1 hlen)]
        simp only [pure_bind]
        exact (h.boundArguments _).bind fun parent => branch node.kind [parent, _]

lemma argumentList : Firm more (Grammar.argumentList call) := by
  have hitem : Firm more (do
      let argument ← call .type
      if ← Grammar.atEnd then Grammar.refuse else Pure.pure argument) :=
    h.type.bind fun argument => unlessEnd (pure argument)
  refine gather (accept rfl) (fun _ => hitem) fun _ => ?_
  refine h.settled.type.bind (n := 0) (k := 1) fun argument => ?_
  exact Settles.unlessEnd (Settles.pure argument)

omit h in
lemma applyArguments (node : Node) (arguments : List Node) :
    Firm more (Grammar.applyArguments node arguments) := by
  unfold Grammar.applyArguments
  split
  · exact pure _
  · exact (orRefuse _).bind fun kind => (branch .type [node]).bind fun unbound =>
      (branch .typeList arguments).bind fun arguments => branch kind [unbound, arguments]

lemma boundArgumentsBody (node : Node) : Firm more (Grammar.boundArgumentsBody call node) :=
  (onBoundParent h node).bind fun node => (argumentList h).bind fun arguments =>
    applyArguments node arguments

lemma boundGeneric : Firm more (Grammar.boundGeneric call) :=
  (nominal h).bind fun node => h.boundArguments node

lemma extensionContext : Firm more (Grammar.extensionContext call) :=
  moduleName.bind fun definer => h.context.bind fun extended =>
    branch .extensionContext [definer, extended]

lemma constrainedExtension : Firm more (Grammar.constrainedExtension call) :=
  moduleName.bind fun definer => (h.signature _).bind fun signature =>
    h.context.bind fun extended => branch .extensionContext [definer, extended, signature]

lemma contextBody : Firm more (Grammar.contextBody call) := by
  refine unlessEnd <| ite rfl (extensionContext h) <| ite rfl (constrainedExtension h) <|
    ite rfl substitution <| ite rfl (pure _) <| ite rfl (boundGeneric h) <| peek.bind fun c => ?_
  split
  · exact h.entity
  · exact moduleName

lemma protocolList : Firm more (Grammar.protocolList call) :=
  (gather (accept rfl) (fun _ => protocolType h) fun _ =>
      (Settles.protocolType h.settled).mono rfl).bind fun protocols =>
    (branch .typeList protocols).bind fun types => branch .protocolList [types]

end Productions

section Entities

variable (h : FirmCalls more call)
include h

lemma accessedNode (context name : Node) : Firm more (Grammar.accessedNode call context name) := by
  unfold Grammar.accessedNode
  obtain ⟨rest, hname | hname⟩ := accessedName_eq name
  · rw [hname, pure_bind]
    refine h.type.bind fun type => ?_
    cases rest with
    | none => exact branch .subscript [context, type]
    | some file => exact branch .subscript [context, type, file]
  · rw [hname, pure_bind]
    exact (branch .variableDecl [context, name]).bind fun holder => h.type.bind fun type => pure _

lemma accessor (kind : Kind) (context : Node) : Firm more (Grammar.accessor call kind context) :=
  declName.bind fun name => (accessedNode h context name).bind fun accessed =>
    branch kind [accessed]

omit h in
lemma initializerName (context : Node) : Firm more (Grammar.initializerName context) :=
  ite rfl (indexNode.bind fun name => branch .defaultArgumentInitializer [context, name]) <|
    ite rfl (branch .initializer [context]) refuse

lemma namedEntity (kind : Kind) (context : Node) :
    Firm more (Grammar.namedEntity call kind context) :=
  declName.bind fun name => h.type.bind fun type => branch kind [context, name, type]

lemma entityInContext (kind : Kind) (context : Node) :
    Firm more (Grammar.entityInContext call kind context) := by
  refine peek.bind fun c => ?_
  split
  · exact next.bind fun _ => branch _ [context]
  · exact next.bind fun _ => h.type.bind fun type => branch _ [context, type]
  · exact next.bind fun _ => next.bind fun _ => (orRefuse _).bind fun kind =>
      accessor h kind context
  · exact next.bind fun _ => accessor h _ context
  · exact next.bind fun _ => indexNode.bind fun name => h.type.bind fun type =>
      branch _ [context, name, type]
  · split
    · exact initializerName context
    · exact namedEntity h kind context

lemma entityBody : Firm more (Grammar.entityBody call) := by
  refine (accept rfl).bind fun isStatic => peek.bind fun c => ?_
  split
  · exact nominal h
  · refine next.bind fun _ => h.context.bind fun context =>
      (entityInContext h _ context).bind fun entity => ?_
    split
    · exact branch .staticMember [entity]
    · exact pure _

end Entities

section Generics

variable (h : FirmCalls more call)
include h

lemma associatedTypeRef : Firm more (Grammar.associatedTypeRef call) := by
  refine ite rfl (substitution.bind fun node => ?_) <|
    (afterMark rfl (protocolType h)).bind fun protocol => (identifier _).bind fun name =>
    bind ?_ fun node => (record node).bind fun _ => pure _
  · split
    · exact pure _
    · exact refuse
  · cases protocol with
    | none => exact pure _
    | some protocol => exact pure _

lemma memberType (base : Node) : Firm more (Grammar.memberType call base) :=
  (associatedTypeRef h).bind fun name => branch .dependentMemberType [base, name]

lemma simpleMemberType : Firm more (Grammar.simpleMemberType call) :=
  genericParamIndex.bind fun param => (branch .type [param]).bind fun base => memberType h base

lemma compoundMemberType : Firm more (Grammar.compoundMemberType call) := by
  refine genericParamIndex.bind fun param => foldUntil (accept rfl) (fun base => ?_) (fun base => ?_) param
  · exact (branch .type [base]).bind fun base => memberType h base
  · exact ((Settles.branch .type [base]).bind fun base =>
      Settles.memberType h.settled base).mono rfl

lemma dependentType : Firm more (Grammar.dependentType call) := by
  refine unlessEnd <| peek.bind fun c => ?_
  split
  · exact h.type.bind fun base => memberType h base
  · exact genericParamIndex

lemma paramOrMember : Firm more (Grammar.paramOrMember call) :=
  ite rfl (simpleMemberType h) <| ite rfl (compoundMemberType h) genericParamIndex

lemma constrainedType : Firm more (Grammar.constrainedType call) :=
  (paramOrMember h).bind fun type => branch .type [type]

omit h in
lemma layoutNumbers (count : Nat) : Firm more (Grammar.layoutNumbers count) := by
  unfold Grammar.layoutNumbers
  split
  · exact pure _
  · exact natural.bind fun size => pure _
  · exact natural.bind fun size => (demand rfl).bind fun _ => natural.bind fun alignment => pure _

omit h in
lemma layoutRequirement (constrained : Node) :
    Firm more (Grammar.layoutRequirement constrained) :=
  next.bind fun _ => (orRefuse _).bind fun count => (layoutNumbers count).bind fun numbers =>
    (named _ _).bind fun letter => branch _ (constrained :: letter ::
      numbers.map fun (n : Nat) => .numbered .number n)

omit h in
lemma substitutedConstraint : Firm more Grammar.substitutedConstraint := by
  refine substitution.bind fun node => ?_
  split
  · exact branch .type [node]
  · split
    · exact (protocolInContext node).bind fun protocol => branch .type [protocol]
    · exact refuse

lemma conformanceConstraint : Firm more (Grammar.conformanceConstraint call) := by
  refine unlessEnd <| peek.bind fun c => ?_
  split
  · exact h.type
  · exact next.bind fun _ => substitutedConstraint
  · exact protocolType h

lemma requirement : Firm more (Grammar.requirement call) :=
  (constrainedType h).bind fun constrained =>
    ite rfl (h.type.bind fun type =>
      branch .dependentGenericSameTypeRequirement [constrained, type]) <|
    ite rfl (layoutRequirement constrained) <| (conformanceConstraint h).bind fun constraint =>
      branch .dependentGenericConformanceRequirement [constrained, constraint]

omit h in
lemma paramCounts : Firm more Grammar.paramCounts := by
  refine (gather (peek.bind fun _ => pure _) (fun _ => ?_) fun _ => Settles.paramCount.mono rfl).bind
    fun _ => pure _
  exact ite rfl (pure _) (index.bind fun _ => pure _)

lemma requirements : Firm more (Grammar.requirements call) :=
  ite rfl (pure _) <| (demand rfl).bind fun _ => gather (accept rfl) (fun _ => requirement h)
    fun _ => (Settles.requirement h.settled).mono rfl

lemma signatureBody (pseudogeneric : Bool) :
    Firm more (Grammar.signatureBody call pseudogeneric) :=
  paramCounts.bind fun counts => (requirements h).bind fun requirements => branch _
    (counts.map (fun (n : Nat) => .numbered .dependentGenericParamCount n) ++ requirements)

omit h in
lemma associatedType (root : Node) : Firm more (Grammar.associatedType root) :=
  (identifier none).bind fun name => (branch .associatedTypeRef [root, name]).bind fun node =>
    (record node).bind fun _ => pure _

lemma archetypeBody : Firm more (Grammar.archetypeBody call) :=
  ite rfl (h.archetype.bind fun root => associatedType root) <|
    ite rfl (substitution.bind fun root => associatedType root) <|
    ite rfl (associatedType _) refuse

end Generics

section Types

variable (h : FirmCalls more call)

lemma builtinVector (elements : Nat) : Firm more (Grammar.builtinVector elements) :=
  ite rfl (builtinSize.bind fun _ => pure _) <| ite rfl (builtinSize.bind fun _ => pure _) <|
    ite rfl (pure _) refuse

lemma builtinType : Firm more Grammar.builtinType := by
  refine unlessEnd <| next.bind fun c => ?_
  split
  · exact pure _
  · split
    · exact builtinSize.bind fun _ => pure _
    · exact builtinSize.bind fun _ => pure _
    · exact natural.bind fun elements => (demand rfl).bind fun _ => builtinVector elements
    · exact refuse

lemma elementLabel : Firm more Grammar.elementLabel := by
  refine peek.bind fun c => ?_
  split
  · exact (identifier _).bind fun label => pure _
  · exact pure _

include h

lemma tupleElement : Firm more (Grammar.tupleElement call) :=
  unlessEnd <| elementLabel.bind fun label => h.type.bind fun type =>
    branch .tupleElement (label ++ [type])

lemma tuple (variadic : Bool) : Firm more (Grammar.tuple call variadic) :=
  (gather (accept rfl) (fun _ => tupleElement h) fun _ =>
      (Settles.tupleElement h.settled).mono rfl).bind fun elements =>
    branch .tuple (if variadic then markVariadic elements else elements)

lemma functionType (kind : Kind) : Firm more (Grammar.functionType call kind) := by
  refine (accept rfl).bind fun throwing => h.type.bind fun arguments => h.type.bind fun result =>
    (branch .argumentTuple [arguments]).bind fun arguments =>
    (branch .returnType [result]).bind fun result => ?_
  exact branch kind ((if throwing then [.branch .throwsMark []] else []) ++ [arguments, result])

lemma representedMetatype (kind : Kind) : Firm more (Grammar.representedMetatype call kind) :=
  peek.bind fun _ => (orRefuse _).bind fun _ => next.bind fun _ => h.type.bind fun type =>
    (named _ _).bind fun representation => branch kind [representation, type]

lemma boxField : Firm more (Grammar.boxField call) :=
  ite rfl (wrapped _ h.type) <| ite rfl (wrapped _ h.type) refuse

lemma boxWithLayout : Firm more (Grammar.boxWithLayout call) := by
  refine (afterMark rfl (h.signature _)).bind fun signature =>
    (gather (accept rfl) (fun _ => boxField h) fun _ =>
      (Settles.boxField h.settled).mono rfl).bind fun fields =>
    (branch .silBoxLayout fields).bind fun layout => ?_
  cases signature with
  | none => exact branch .silBoxTypeWithLayout [layout]
  | some signature =>
    exact (gather (accept rfl) (fun _ => h.type) fun _ => h.settled.type.mono rfl).bind fun arguments =>
      (branch .typeList arguments).bind fun arguments =>
      branch .silBoxTypeWithLayout [layout, signature, arguments]

lemma extendedType : Firm more (Grammar.extendedType call) := by
  refine ite rfl (wrapped _ h.type) <| ite rfl (boxWithLayout h) <| ite rfl (representedMetatype h _) <|
    ite rfl (ite rfl (representedMetatype h _) (protocolList h)) <| ite rfl (functionType h _) <|
    peek.bind fun c => ?_
  split
  · exact next.bind fun _ => wrapped _ h.type
  · exact ite rfl h.implFunction refuse

lemma genericType : Firm more (Grammar.genericType call) :=
  (h.signature _).bind fun signature => h.type.bind fun type =>
    branch .dependentGenericType [signature, type]

lemma bareType : Firm more (Grammar.bareType call) := by
  refine unlessEnd <| next.bind fun c => ?_
  split
  · exact builtinType
  · exact declaration h _
  · exact functionType h _
  · exact functionType h _
  · exact functionType h _
  · exact functionType h _
  · exact functionType h _
  · exact wrapped _ h.type
  · exact (demand rfl).bind fun _ => named _ _
  · exact boundGeneric h
  · exact wrapped _ h.type
  · exact ite rfl (wrapped _ h.type) (protocolList h)
  · exact h.archetype
  · exact dependentType h
  · exact pure _
  · exact simpleMemberType h
  · exact compoundMemberType h
  · exact wrapped _ h.bareType
  · exact substitution
  · exact tuple h _
  · exact tuple h _
  · exact genericType h
  · exact extendedType h
  · exact declaration h _
  · exact declaration h _
  · exact declaration h _
  · exact refuse

end Types

section LoweredFunctions

variable (h : FirmCalls more call)

lemma convention (place : Convention → Option String) : Firm more (Grammar.convention place) :=
  peek.bind fun _ => (orRefuse _).bind fun _ => next.bind fun _ => orRefuse _

lemma calleeConvention : Firm more Grammar.calleeConvention :=
  ite rfl (pure _) (convention _)

lemma functionAttributes : Firm more Grammar.functionAttributes :=
  ite rfl (next.bind fun _ => (orRefuse _).bind fun _ => pure _) (pure _)

include h

lemma functionSignature : Firm more (Grammar.functionSignature call) :=
  ite rfl ((h.signature _).bind fun _ => pure _) <|
    ite rfl ((h.signature _).bind fun _ => pure _) (pure _)

lemma conventionType (kind : Kind) (place : Convention → Option String) :
    Firm more (Grammar.conventionType call kind place) :=
  (convention place).bind fun name => h.type.bind fun type =>
    branch kind [conventionNode name, type]

lemma parameter : Firm more (Grammar.parameter call) :=
  ite rfl refuse (conventionType h _ _)

lemma result (earlier : List Node) : Firm more (Grammar.result call earlier) := by
  refine ite rfl ((conventionType h _ _).bind fun node => ?_) (conventionType h _ _)
  split
  · exact refuse
  · exact pure _

lemma implFunctionBody : Firm more (Grammar.implFunctionBody call) :=
  calleeConvention.bind fun callee => functionAttributes.bind fun attributes =>
    (functionSignature h).bind fun signature => (demand rfl).bind fun _ =>
    (gather (accept rfl) (fun _ => parameter h) fun _ =>
      (Settles.parameter h.settled).mono rfl).bind fun parameters =>
    (gather (accept rfl) (result h) fun earlier =>
      (Settles.result h.settled earlier).mono rfl).bind fun results =>
    branch .implFunctionType
      (conventionNode callee :: attributes ++ signature ++ parameters ++ results)

end LoweredFunctions

end Firm

/-- Productions inside a type are firm if the productions inside them are. -/
lemma firm_body {more : Bytes} {call : Calls} (h : FirmCalls more call) : FirmCalls more (body call) where
  settled := settled_body h.settled
  type := Firm.wrapped _ h.bareType
  bareType := Firm.bareType h
  context := Firm.contextBody h
  entity := Firm.entityBody h
  archetype := Firm.archetypeBody h
  boundArguments := Firm.boundArgumentsBody h
  signature := Firm.signatureBody h
  implFunction := Firm.implFunctionBody h

/-- Within any budget the productions inside a type are firm. -/
theorem firm_parse (more : Bytes) (budget : Nat) : FirmCalls more (parse budget) := by
  induction budget with
  | zero =>
    exact ⟨settled_parse 0, Firm.stop _, Firm.stop _, Firm.stop _, Firm.stop _, Firm.stop _,
      fun _ => Firm.stop _, fun _ => Firm.stop _, Firm.stop _⟩
  | succ budget ih => exact firm_body ih

end SwiftMangling.Grammar
