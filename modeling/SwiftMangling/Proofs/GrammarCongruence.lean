import SwiftMangling.Proofs.Assembly
import SwiftMangling.Proofs.Congruence

/-!
# The grammar preserves what reading in sequence preserves

Every production is related to itself by a relation that reading in sequence preserves, if the
productions inside it are. As each breach is shown to be out of reach on the way, the relation need
not hold of the parsers that put trees together.
-/

namespace SwiftMangling.Grammar

namespace Congruence

variable {R : ParserRelation} {call call' : Calls}

section Names

lemma branch (hR : Congruence R) (kind : Kind) (children : List Node) :
    R (Grammar.branch kind (children.map some)) (Grammar.branch kind (children.map some)) := by
  rw [branch_map_some]
  exact hR.pure _

lemma numbered (hR : Congruence R) (kind : Kind) (number : Int) (children : List Node) :
    R (Grammar.numbered kind number (children.map some))
      (Grammar.numbered kind number (children.map some)) := by
  rw [numbered_map_some]
  exact hR.pure _

lemma named (hR : Congruence R) (kind : Kind) (content : Text) :
    R (Grammar.named kind content) (Grammar.named kind content) :=
  hR.pure _

lemma payloadNode (hR : Congruence R) (content : Option Text) :
    R (Grammar.payloadNode content) (Grammar.payloadNode content) := by
  cases content with
  | none => exact hR.pure _
  | some content => exact hR.pure _

lemma identifierKind (hR : Congruence R) (required : Option Kind) (operator : Bool) :
    R (Grammar.identifierKind required operator)
      (Grammar.identifierKind required operator) := by
  unfold Grammar.identifierKind
  split
  · exact hR.pure _
  · exact hR.pure _
  · exact hR.refuse
  · exact hR.bind hR.next fun letter => hR.orRefuse _

lemma identifierText (hR : Congruence R) (punycoded operator : Bool) (bytes : Bytes) :
    R (Grammar.identifierText punycoded operator bytes)
      (Grammar.identifierText punycoded operator bytes) := by
  rcases identifierText_eq punycoded operator bytes with hrefuse | ⟨text, htext⟩
  · rw [hrefuse]
    exact hR.refuse
  · rw [htext]
    exact hR.pure _

lemma identifier (hR : Congruence R) (required : Option Kind) :
    R (Grammar.identifier required) (Grammar.identifier required) :=
  hR.unlessEnd <| hR.bind (hR.accept _) fun punycoded => hR.bind (hR.accept _) fun operator =>
    hR.bind (hR.identifierKind required operator) fun kind => hR.bind hR.natural fun length =>
    hR.bind (hR.advance length) fun bytes =>
    hR.bind (hR.identifierText punycoded operator bytes) fun text => hR.named kind text

lemma spelledText (hR : Congruence R) : R Grammar.spelledText Grammar.spelledText := by
  refine hR.unlessEnd <| hR.bind (hR.accept _) fun punycoded => hR.bind (hR.accept _) fun operator => ?_
  cases operator with
  | true => exact hR.refuse
  | false =>
    exact hR.bind hR.natural fun length => hR.bind (hR.advance length) fun bytes =>
      hR.identifierText punycoded false bytes

lemma declName (hR : Congruence R) : R Grammar.declName Grammar.declName := by
  refine hR.ite _ ?_ (hR.ite _ ?_ (hR.identifier none))
  · exact hR.bind hR.indexNode fun discriminator => hR.bind (hR.identifier none) fun name =>
      hR.branch .localDeclName [discriminator, name]
  · exact hR.bind (hR.identifier none) fun discriminator => hR.bind (hR.identifier none) fun name =>
      hR.branch .privateDeclName [discriminator, name]

lemma substitution (hR : Congruence R) : R Grammar.substitution Grammar.substitution := by
  refine hR.unlessEnd <| hR.ite _ (hR.pure _) <| hR.ite _ (hR.pure _) <| hR.bind hR.peek fun c => ?_
  cases standardType? c with
  | some type => exact hR.bind hR.next fun _ => hR.pure _
  | none => exact hR.bind hR.index fun position => hR.recalled position

lemma moduleName (hR : Congruence R) : R Grammar.moduleName Grammar.moduleName := by
  refine hR.ite _ (hR.pure _) (hR.ite _ ?_ ?_)
  · refine hR.bind hR.substitution fun node => ?_
    split
    · exact hR.pure _
    · exact hR.refuse
  · simp only [identifier_some, bind_assoc, pure_bind]
    exact hR.bind hR.spelledText fun text => hR.bind (hR.record _ rfl) fun _ => hR.pure _

end Names

section Productions

variable (hR : Congruence R) (h : ∀ production, R (call production) (call' production))
include hR h

lemma wrapped (kind : Kind) (production : Production) :
    R (Grammar.wrapped call kind production) (Grammar.wrapped call' kind production) :=
  hR.bind (h production) fun child => hR.branch kind [child]

lemma declaration (kind : Kind) (hkind : isRecordedKind kind) :
    R (Grammar.declaration call kind) (Grammar.declaration call' kind) := by
  refine hR.bind (h .context) fun context => hR.bind hR.declName fun name => ?_
  rw [branch_pair, pure_bind]
  exact hR.bind (hR.record _ hkind) fun _ => hR.pure _

omit h in
lemma protocolInContext (context : Node) :
    R (Grammar.protocolInContext context) (Grammar.protocolInContext context) := by
  refine hR.bind hR.declName fun name => ?_
  rw [branch_pair, pure_bind]
  exact hR.bind (hR.record _ rfl) fun _ => hR.pure _

lemma protocol : R (Grammar.protocol call) (Grammar.protocol call') := by
  refine hR.ite _ ?_ (hR.ite _ (hR.protocolInContext _) (hR.declaration h _ rfl))
  refine hR.bind hR.substitution fun node => ?_
  split
  · exact hR.pure _
  · split
    · exact hR.protocolInContext node
    · exact hR.refuse

lemma protocolType : R (Grammar.protocolType call) (Grammar.protocolType call') :=
  hR.bind (hR.protocol h) fun node => hR.branch .type [node]

lemma nominal : R (Grammar.nominal call) (Grammar.nominal call') :=
  hR.ite _ hR.substitution <| hR.ite _ (hR.declaration h _ rfl) <| hR.ite _ (hR.declaration h _ rfl) <|
    hR.ite _ (hR.declaration h _ rfl) <| hR.ite _ (hR.declaration h _ rfl) hR.refuse

lemma onBoundParent (node : Node) :
    R (Grammar.onBoundParent call node) (Grammar.onBoundParent call' node) := by
  unfold Grammar.onBoundParent
  by_cases hnone : node.children.length = 0
  · rw [if_pos hnone, if_pos hnone]
    exact hR.refuse
  · rw [if_neg hnone, if_neg hnone, childAt_of_lt (Nat.pos_of_ne_zero hnone), pure_bind, pure_bind]
    split
    · exact hR.pure _
    · split
      · exact hR.refuse
      · next hlen =>
        rw [childAt_of_lt (Nat.not_lt.1 hlen)]
        simp only [pure_bind]
        exact hR.bind (h _) fun parent => hR.branch node.kind [parent, _]

lemma argumentList : R (Grammar.argumentList call) (Grammar.argumentList call') := by
  refine hR.gather (hR.accept _) fun _ => hR.bind (h .type) fun argument => ?_
  exact hR.unlessEnd (hR.pure argument)

omit h in
lemma applyArguments (node : Node) (arguments : List Node) :
    R (Grammar.applyArguments node arguments) (Grammar.applyArguments node arguments) := by
  unfold Grammar.applyArguments
  split
  · exact hR.pure _
  · exact hR.bind (hR.orRefuse _) fun kind => hR.bind (hR.branch .type [node]) fun unbound =>
      hR.bind (hR.branch .typeList arguments) fun arguments => hR.branch kind [unbound, arguments]

lemma boundArgumentsBody (node : Node) :
    R (Grammar.boundArgumentsBody call node) (Grammar.boundArgumentsBody call' node) :=
  hR.bind (hR.onBoundParent h node) fun node => hR.bind (hR.argumentList h) fun arguments =>
    hR.applyArguments node arguments

lemma boundGeneric : R (Grammar.boundGeneric call) (Grammar.boundGeneric call') :=
  hR.bind (hR.nominal h) fun node => h (.boundArguments node)

lemma contextBody : R (Grammar.contextBody call) (Grammar.contextBody call') := by
  refine hR.unlessEnd <| hR.ite _ ?extension <| hR.ite _ ?constrained <|
    hR.ite _ hR.substitution <| hR.ite _ (hR.pure _) <| hR.ite _ (hR.boundGeneric h) <|
    hR.bind hR.peek fun c => ?_
  case extension =>
    exact hR.bind hR.moduleName fun definer => hR.bind (h .context) fun extended =>
      hR.branch .extensionContext [definer, extended]
  case constrained =>
    exact hR.bind hR.moduleName fun definer => hR.bind (h _) fun signature =>
      hR.bind (h .context) fun extended =>
      hR.branch .extensionContext [definer, extended, signature]
  split
  · exact h .entity
  · exact hR.moduleName

lemma protocolList : R (Grammar.protocolList call) (Grammar.protocolList call') :=
  hR.bind (hR.gather (hR.accept _) fun _ => hR.protocolType h) fun protocols =>
    hR.bind (hR.branch .typeList protocols) fun types => hR.branch .protocolList [types]

lemma conformance : R (Grammar.conformance call) (Grammar.conformance call') :=
  hR.bind (h .type) fun conforming => hR.bind (hR.protocolType h) fun protocol =>
    hR.bind (h .context) fun context =>
    hR.branch .protocolConformance [conforming, protocol, context]

end Productions

section Entities

variable (hR : Congruence R) (h : ∀ production, R (call production) (call' production))
include hR h

lemma accessedNode (context name : Node) :
    R (Grammar.accessedNode call context name)
      (Grammar.accessedNode call' context name) := by
  unfold Grammar.accessedNode
  obtain ⟨rest, hname | hname⟩ := accessedName_eq name
  · rw [hname, pure_bind, pure_bind]
    refine hR.bind (h .type) fun type => ?_
    cases rest with
    | none => exact hR.branch .subscript [context, type]
    | some file => exact hR.branch .subscript [context, type, file]
  · rw [hname, pure_bind, pure_bind]
    exact hR.bind (hR.branch .variableDecl [context, name]) fun holder =>
      hR.bind (h .type) fun type => hR.pure _

lemma accessor (kind : Kind) (context : Node) :
    R (Grammar.accessor call kind context) (Grammar.accessor call' kind context) :=
  hR.bind hR.declName fun name => hR.bind (hR.accessedNode h context name) fun accessed =>
    hR.branch kind [accessed]

omit h in
lemma initializerName (context : Node) :
    R (Grammar.initializerName context) (Grammar.initializerName context) :=
  hR.ite _
    (hR.bind hR.indexNode fun name => hR.branch .defaultArgumentInitializer [context, name])
    (hR.ite _ (hR.branch .initializer [context]) hR.refuse)

lemma namedEntity (kind : Kind) (context : Node) :
    R (Grammar.namedEntity call kind context) (Grammar.namedEntity call' kind context) :=
  hR.bind hR.declName fun name => hR.bind (h .type) fun type => hR.branch kind [context, name, type]

lemma entityInContext (kind : Kind) (context : Node) :
    R (Grammar.entityInContext call kind context)
      (Grammar.entityInContext call' kind context) := by
  refine hR.bind hR.peek fun c => ?_
  split
  · exact hR.bind hR.next fun _ => hR.branch _ [context]
  · exact hR.bind hR.next fun _ => hR.bind (h .type) fun type => hR.branch _ [context, type]
  · exact hR.bind hR.next fun _ => hR.bind hR.next fun _ => hR.bind (hR.orRefuse _) fun kind =>
      hR.accessor h kind context
  · exact hR.bind hR.next fun _ => hR.accessor h _ context
  · exact hR.bind hR.next fun _ => hR.bind hR.indexNode fun name => hR.bind (h .type) fun type =>
      hR.branch _ [context, name, type]
  · split
    · exact hR.initializerName context
    · exact hR.namedEntity h kind context

lemma entityBody : R (Grammar.entityBody call) (Grammar.entityBody call') := by
  refine hR.bind (hR.accept _) fun isStatic => hR.bind hR.peek fun c => ?_
  split
  · exact hR.nominal h
  · refine hR.bind hR.next fun _ => hR.bind (h .context) fun context =>
      hR.bind (hR.entityInContext h _ context) fun entity => ?_
    split
    · exact hR.branch .staticMember [entity]
    · exact hR.pure _

end Entities

section Generics

variable (hR : Congruence R) (h : ∀ production, R (call production) (call' production))
include hR h

lemma associatedTypeRef :
    R (Grammar.associatedTypeRef call) (Grammar.associatedTypeRef call') := by
  refine hR.ite _ (hR.bind hR.substitution fun node => ?_) ?_
  · split
    · exact hR.pure _
    · exact hR.refuse
  · refine hR.bind (hR.afterMark _ (hR.protocolType h)) fun protocol => ?_
    simp only [identifier_some, bind_assoc, pure_bind]
    refine hR.bind hR.spelledText fun text => ?_
    cases protocol with
    | none =>
      simp only [Option.isSome_none, Bool.false_eq_true, if_false, pure_bind]
      exact hR.bind (hR.record _ rfl) fun _ => hR.pure _
    | some protocol =>
      simp only [Option.isSome_some, if_true, addChild, orBreach, pure_bind]
      exact hR.bind (hR.record _ rfl) fun _ => hR.pure _

lemma memberType (base : Node) :
    R (Grammar.memberType call base) (Grammar.memberType call' base) :=
  hR.bind (hR.associatedTypeRef h) fun name => hR.branch .dependentMemberType [base, name]

lemma simpleMemberType :
    R (Grammar.simpleMemberType call) (Grammar.simpleMemberType call') :=
  hR.bind hR.genericParamIndex fun param => hR.bind (hR.branch .type [param]) fun base =>
    hR.memberType h base

lemma compoundMemberType :
    R (Grammar.compoundMemberType call) (Grammar.compoundMemberType call') := by
  refine hR.bind hR.genericParamIndex fun param => hR.foldUntil (hR.accept _) (fun base => ?_) param
  exact hR.bind (hR.branch .type [base]) fun base => hR.memberType h base

lemma dependentType : R (Grammar.dependentType call) (Grammar.dependentType call') := by
  refine hR.unlessEnd <| hR.bind hR.peek fun c => ?_
  split
  · exact hR.bind (h .type) fun base => hR.memberType h base
  · exact hR.genericParamIndex

lemma paramOrMember : R (Grammar.paramOrMember call) (Grammar.paramOrMember call') :=
  hR.ite _ (hR.simpleMemberType h) <| hR.ite _ (hR.compoundMemberType h) hR.genericParamIndex

lemma constrainedType : R (Grammar.constrainedType call) (Grammar.constrainedType call') :=
  hR.bind (hR.paramOrMember h) fun type => hR.branch .type [type]

omit h in
lemma layoutNumbers (count : Nat) :
    R (Grammar.layoutNumbers count) (Grammar.layoutNumbers count) := by
  unfold Grammar.layoutNumbers
  split
  · exact hR.pure _
  · exact hR.bind hR.natural fun size => hR.pure _
  · exact hR.bind hR.natural fun size => hR.bind (hR.demand _) fun _ =>
      hR.bind hR.natural fun alignment => hR.pure _

omit h in
lemma layoutRequirement (constrained : Node) :
    R (Grammar.layoutRequirement constrained) (Grammar.layoutRequirement constrained) :=
  hR.bind hR.next fun _ => hR.bind (hR.orRefuse _) fun count =>
    hR.bind (hR.layoutNumbers count) fun numbers => hR.bind (hR.named _ _) fun letter =>
    hR.branch _ (constrained :: letter :: numbers.map fun (n : Nat) => .numbered .number n)

omit h in
lemma substitutedConstraint :
    R Grammar.substitutedConstraint Grammar.substitutedConstraint := by
  refine hR.bind hR.substitution fun node => ?_
  split
  · exact hR.branch .type [node]
  · split
    · exact hR.bind (hR.protocolInContext node) fun protocol => hR.branch .type [protocol]
    · exact hR.refuse

lemma conformanceConstraint :
    R (Grammar.conformanceConstraint call) (Grammar.conformanceConstraint call') := by
  refine hR.unlessEnd <| hR.bind hR.peek fun c => ?_
  split
  · exact h .type
  · exact hR.bind hR.next fun _ => hR.substitutedConstraint
  · exact hR.protocolType h

lemma requirement : R (Grammar.requirement call) (Grammar.requirement call') := by
  refine hR.bind (hR.constrainedType h) fun constrained =>
    hR.ite _ ?_ (hR.ite _ (hR.layoutRequirement constrained) ?_)
  · exact hR.bind (h .type) fun type => hR.branch _ [constrained, type]
  · exact hR.bind (hR.conformanceConstraint h) fun constraint => hR.branch _ [constrained, constraint]

omit h in
lemma paramCount : R Grammar.paramCount Grammar.paramCount :=
  hR.ite _ (hR.pure _) (hR.bind hR.index fun _ => hR.pure _)

omit h in
lemma paramCounts : R Grammar.paramCounts Grammar.paramCounts :=
  hR.bind (hR.gather (hR.bind hR.peek fun _ => hR.pure _) fun _ => hR.paramCount) fun _ => hR.pure _

lemma requirements : R (Grammar.requirements call) (Grammar.requirements call') :=
  hR.ite _ (hR.pure _) <| hR.bind (hR.demand _) fun _ =>
    hR.gather (hR.accept _) fun _ => hR.requirement h

lemma signatureBody (pseudogeneric : Bool) :
    R (Grammar.signatureBody call pseudogeneric)
      (Grammar.signatureBody call' pseudogeneric) :=
  hR.bind hR.paramCounts fun counts => hR.bind (hR.requirements h) fun requirements =>
    hR.branch _ (counts.map (fun (n : Nat) => .numbered .dependentGenericParamCount n) ++ requirements)

omit h in
lemma associatedType (root : Node) :
    R (Grammar.associatedType root) (Grammar.associatedType root) := by
  refine hR.bind (hR.identifier none) fun name => ?_
  rw [branch_pair, pure_bind]
  exact hR.bind (hR.record _ rfl) fun _ => hR.pure _

lemma archetypeBody : R (Grammar.archetypeBody call) (Grammar.archetypeBody call') :=
  hR.ite _ (hR.bind (h .archetype) fun root => hR.associatedType root) <|
    hR.ite _ (hR.bind hR.substitution fun root => hR.associatedType root) <|
    hR.ite _ (hR.associatedType _) hR.refuse

end Generics

section Types

variable (hR : Congruence R) (h : ∀ production, R (call production) (call' production))

include hR in
lemma builtinVector (elements : Nat) :
    R (Grammar.builtinVector elements) (Grammar.builtinVector elements) :=
  hR.ite _ (hR.bind hR.builtinSize fun _ => hR.pure _) <|
    hR.ite _ (hR.bind hR.builtinSize fun _ => hR.pure _) <| hR.ite _ (hR.pure _) hR.refuse

include hR in
lemma builtinType : R Grammar.builtinType Grammar.builtinType := by
  refine hR.unlessEnd <| hR.bind hR.next fun c => ?_
  split
  · exact hR.pure _
  · split
    · exact hR.bind hR.builtinSize fun _ => hR.pure _
    · exact hR.bind hR.builtinSize fun _ => hR.pure _
    · exact hR.bind hR.natural fun elements => hR.bind (hR.demand _) fun _ =>
        hR.builtinVector elements
    · exact hR.refuse

include hR in
lemma elementLabel : R Grammar.elementLabel Grammar.elementLabel := by
  refine hR.bind hR.peek fun c => ?_
  split
  · exact hR.bind (hR.identifier _) fun label => hR.pure _
  · exact hR.pure _

include hR h

lemma tupleElement : R (Grammar.tupleElement call) (Grammar.tupleElement call') :=
  hR.unlessEnd <| hR.bind hR.elementLabel fun label => hR.bind (h .type) fun type =>
    hR.branch .tupleElement (label ++ [type])

lemma tuple (variadic : Bool) :
    R (Grammar.tuple call variadic) (Grammar.tuple call' variadic) :=
  hR.bind (hR.gather (hR.accept _) fun _ => hR.tupleElement h) fun elements =>
    hR.branch .tuple (if variadic then markVariadic elements else elements)

lemma functionType (kind : Kind) :
    R (Grammar.functionType call kind) (Grammar.functionType call' kind) :=
  hR.bind (hR.accept _) fun throwing => hR.bind (h .type) fun arguments =>
    hR.bind (h .type) fun result => hR.bind (hR.branch .argumentTuple [arguments]) fun arguments =>
    hR.bind (hR.branch .returnType [result]) fun result =>
    hR.branch kind ((if throwing then [.branch .throwsMark []] else []) ++ [arguments, result])

lemma representedMetatype (kind : Kind) :
    R (Grammar.representedMetatype call kind) (Grammar.representedMetatype call' kind) :=
  hR.bind hR.peek fun _ => hR.bind (hR.orRefuse _) fun _ => hR.bind hR.next fun _ =>
    hR.bind (h .type) fun type => hR.bind (hR.named _ _) fun representation =>
    hR.branch kind [representation, type]

lemma boxField : R (Grammar.boxField call) (Grammar.boxField call') :=
  hR.ite _ (hR.wrapped h _ _) <| hR.ite _ (hR.wrapped h _ _) hR.refuse

lemma boxWithLayout : R (Grammar.boxWithLayout call) (Grammar.boxWithLayout call') := by
  refine hR.bind (hR.afterMark _ (h _)) fun signature =>
    hR.bind (hR.gather (hR.accept _) fun _ => hR.boxField h) fun fields =>
    hR.bind (hR.branch .silBoxLayout fields) fun layout => ?_
  cases signature with
  | none => exact hR.branch .silBoxTypeWithLayout [layout]
  | some signature =>
    exact hR.bind (hR.gather (hR.accept _) fun _ => h .type) fun arguments =>
      hR.bind (hR.branch .typeList arguments) fun arguments =>
      hR.branch .silBoxTypeWithLayout [layout, signature, arguments]

lemma extendedType : R (Grammar.extendedType call) (Grammar.extendedType call') := by
  refine hR.ite _ (hR.wrapped h _ _) <| hR.ite _ (hR.boxWithLayout h) <|
    hR.ite _ (hR.representedMetatype h _) <|
    hR.ite _ (hR.ite _ (hR.representedMetatype h _) (hR.protocolList h)) <|
    hR.ite _ (hR.functionType h _) <| hR.bind hR.peek fun c => ?_
  split
  · exact hR.bind hR.next fun _ => hR.wrapped h _ _
  · exact hR.ite _ (h _) hR.refuse

lemma genericType : R (Grammar.genericType call) (Grammar.genericType call') :=
  hR.bind (h _) fun signature => hR.bind (h .type) fun type =>
    hR.branch .dependentGenericType [signature, type]

lemma bareType : R (Grammar.bareType call) (Grammar.bareType call') := by
  refine hR.unlessEnd <| hR.bind hR.next fun c => ?_
  split
  · exact hR.builtinType
  · exact hR.declaration h _ rfl
  · exact hR.functionType h _
  · exact hR.functionType h _
  · exact hR.functionType h _
  · exact hR.functionType h _
  · exact hR.functionType h _
  · exact hR.wrapped h _ _
  · exact hR.bind (hR.demand _) fun _ => hR.named _ _
  · exact hR.boundGeneric h
  · exact hR.wrapped h _ _
  · exact hR.ite _ (hR.wrapped h _ _) (hR.protocolList h)
  · exact h .archetype
  · exact hR.dependentType h
  · exact hR.pure _
  · exact hR.simpleMemberType h
  · exact hR.compoundMemberType h
  · exact hR.wrapped h _ _
  · exact hR.substitution
  · exact hR.tuple h _
  · exact hR.tuple h _
  · exact hR.genericType h
  · exact hR.extendedType h
  · exact hR.declaration h _ rfl
  · exact hR.declaration h _ rfl
  · exact hR.declaration h _ rfl
  · exact hR.refuse

end Types

section LoweredFunctions

variable (hR : Congruence R) (h : ∀ production, R (call production) (call' production))

include hR in
lemma convention (place : Convention → Option String) :
    R (Grammar.convention place) (Grammar.convention place) :=
  hR.bind hR.peek fun _ => hR.bind (hR.orRefuse _) fun _ => hR.bind hR.next fun _ =>
    hR.orRefuse _

include hR in
lemma calleeConvention : R Grammar.calleeConvention Grammar.calleeConvention :=
  hR.ite _ (hR.pure _) (hR.convention _)

include hR in
lemma functionAttributes : R Grammar.functionAttributes Grammar.functionAttributes :=
  hR.ite _ (hR.bind hR.next fun _ => hR.bind (hR.orRefuse _) fun _ => hR.pure _) (hR.pure _)

include hR h

lemma functionSignature :
    R (Grammar.functionSignature call) (Grammar.functionSignature call') :=
  hR.ite _ (hR.bind (h _) fun _ => hR.pure _) <|
    hR.ite _ (hR.bind (h _) fun _ => hR.pure _) (hR.pure _)

lemma conventionType (kind : Kind) (place : Convention → Option String) :
    R (Grammar.conventionType call kind place) (Grammar.conventionType call' kind place) :=
  hR.bind (hR.convention place) fun name => hR.bind (h .type) fun type =>
    hR.branch kind [conventionNode name, type]

lemma parameter : R (Grammar.parameter call) (Grammar.parameter call') :=
  hR.ite _ hR.refuse (hR.conventionType h _ _)

lemma result (earlier : List Node) :
    R (Grammar.result call earlier) (Grammar.result call' earlier) := by
  refine hR.ite _ (hR.bind (hR.conventionType h _ _) fun node => ?_) (hR.conventionType h _ _)
  split
  · exact hR.refuse
  · exact hR.pure _

lemma implFunctionBody :
    R (Grammar.implFunctionBody call) (Grammar.implFunctionBody call') :=
  hR.bind hR.calleeConvention fun callee => hR.bind hR.functionAttributes fun attributes =>
    hR.bind (hR.functionSignature h) fun signature => hR.bind (hR.demand _) fun _ =>
    hR.bind (hR.gather (hR.accept _) fun _ => hR.parameter h) fun parameters =>
    hR.bind (hR.gather (hR.accept _) (hR.result h)) fun results =>
    hR.branch .implFunctionType
      (conventionNode callee :: attributes ++ signature ++ parameters ++ results)

end LoweredFunctions

section Specializations

variable (hR : Congruence R) (h : ∀ production, R (call production) (call' production))

include hR in
lemma constantName (what : ParamChange) :
    R (Grammar.constantName what) (Grammar.constantName what) :=
  hR.bind (hR.identifier none) fun _ => hR.bind (hR.demand _) fun _ =>
    hR.bind (hR.payloadNode _) fun _ => hR.pure _

include hR in
lemma constantLiteral (what : ParamChange) :
    R (Grammar.constantLiteral what) (Grammar.constantLiteral what) := by
  refine hR.bind (hR.readUntil _) fun literal => hR.bind (hR.demand _) fun _ =>
    hR.bind ?_ fun text => hR.bind (hR.payloadNode _) fun payload => hR.pure _
  obtain ⟨text, htext⟩ := textOfChars_eq fun c (hc : c ∈ Text.ofBytes literal) =>
    val_lt_of_mem_ofBytes hc
  rw [htext]
  exact hR.pure text

include hR in
lemma stringEncoding : R Grammar.stringEncoding Grammar.stringEncoding :=
  hR.ite _ (hR.pure _) (hR.ite _ (hR.pure _) hR.refuse)

include hR in
lemma constantString : R Grammar.constantString Grammar.constantString :=
  hR.bind (hR.demand _) fun _ => hR.bind hR.stringEncoding fun _ =>
    hR.bind (hR.demand _) fun _ => hR.bind (hR.identifier none) fun _ =>
    hR.bind (hR.demand _) fun _ => hR.bind (hR.payloadNode _) fun _ =>
    hR.bind (hR.payloadNode _) fun _ => hR.pure _

include hR in
lemma constantChange : R Grammar.constantChange Grammar.constantChange :=
  hR.ite _ (hR.constantName _) <| hR.ite _ (hR.constantName _) <|
    hR.ite _ (hR.constantLiteral _) <| hR.ite _ (hR.constantLiteral _) <|
    hR.ite _ hR.constantString hR.refuse

include hR in
lemma flag (letter : Text) (what : ParamChange) :
    R (Grammar.flag letter what) (Grammar.flag letter what) :=
  hR.ite _ (hR.pure _) (hR.pure _)

include hR in
lemma flagChange : R Grammar.flagChange Grammar.flagChange := by
  refine hR.bind (hR.flag _ _) fun dead => hR.bind (hR.flag _ _) fun guaranteed =>
    hR.bind (hR.flag _ _) fun owned => hR.bind (hR.flag _ _) fun exploded =>
    hR.bind (hR.demand _) fun _ => ?_
  simp only
  split
  · exact hR.refuse
  · exact hR.pure _

include hR h

lemma genericParamNode :
    R (Grammar.genericParamNode call) (Grammar.genericParamNode call') :=
  hR.bind (h .type) fun type =>
    hR.bind (hR.gather (hR.accept _) fun _ => hR.conformance h) fun conformances =>
    hR.branch .genericSpecializationParam (type :: conformances)

lemma genericParams : R (Grammar.genericParams call) (Grammar.genericParams call') :=
  hR.gather (hR.accept _) fun _ => hR.genericParamNode h

omit h in
lemma passNumber : R Grammar.passNumber Grammar.passNumber := by
  refine hR.bind hR.peek fun c => ?_
  split
  · exact hR.bind hR.next fun _ => hR.numbered _ _ []
  · exact hR.refuse

omit h in
lemma specializationOf (kind : Kind) {params params' : Parser (List Node)}
    (hp : R params params') :
    R (Grammar.specializationOf kind params) (Grammar.specializationOf kind params') :=
  hR.bind (hR.accept _) fun serialized => hR.bind hR.passNumber fun pass =>
    hR.bind hp fun params =>
    hR.branch kind ((if serialized then [.branch .isSerialized []] else []) ++ pass :: params)

end Specializations

section Globals

variable (hR : Congruence R)
include hR

lemma mapM_id {parts parts' : List (Parser Node)} (hparts : List.Forall₂ R parts parts') :
    R (parts.mapM id) (parts'.mapM id) := by
  induction hparts with
  | nil => exact hR.pure _
  | cons hpart _ ih =>
    rw [List.mapM_cons, List.mapM_cons]
    exact hR.bind hpart fun _ => hR.bind ih fun _ => hR.pure _

lemma inOrder (kind : Kind) {parts parts' : List (Parser Node)}
    (hparts : List.Forall₂ R parts parts') :
    R (Grammar.inOrder kind parts) (Grammar.inOrder kind parts') :=
  hR.bind (hR.mapM_id hparts) fun children => hR.branch kind children

lemma directness : R Grammar.directness Grammar.directness :=
  hR.ite _ (hR.numbered _ _ []) <| hR.ite _ (hR.numbered _ _ []) hR.refuse

lemma trailing : R Grammar.trailing Grammar.trailing := by
  refine hR.bind hR.atEnd fun ended => ?_
  cases ended with
  | true => exact hR.pure _
  | false =>
    refine hR.bind hR.takeRest fun bytes => ?_
    obtain ⟨text, htext⟩ := textOfChars_eq fun c (hc : c ∈ Text.ofBytes bytes) =>
      val_lt_of_mem_ofBytes hc
    rw [htext, pure_bind]
    exact hR.bind (hR.named _ _) fun suffix => hR.pure _

lemma symbolAttributes : R Grammar.symbolAttributes Grammar.symbolAttributes :=
  hR.ite _ (hR.pure _) <| hR.ite _ (hR.pure _) <| hR.ite _ (hR.pure _) <| hR.ite _ (hR.pure _) <|
    hR.ite _ (hR.pure _) (hR.pure _)

variable (h : ∀ production, R (call production) (call' production))
include h

lemma metadata : R (Grammar.metadata call) (Grammar.metadata call') := by
  refine hR.bind hR.peek fun c => ?_
  split
  · exact hR.bind hR.next fun _ => hR.wrapped h _ _
  · exact hR.ite _ (hR.inOrder _ (.cons (hR.protocolType h) .nil)) (hR.wrapped h _ _)

lemma valueWitness : R (Grammar.valueWitness call) (Grammar.valueWitness call') :=
  hR.bind (hR.advance 2) fun _ => hR.bind (hR.orRefuse _) fun number =>
    hR.bind (h .type) fun type => hR.numbered .valueWitness number [type]

/-- A letter announces the same witness, whatever the productions inside it come to. -/
lemma witness? (c : Char) :
    (Grammar.witness? call c = none ∧ Grammar.witness? call' c = none) ∨
      ∃ kind parts parts', Grammar.witness? call c = some (kind, parts) ∧
        Grammar.witness? call' c = some (kind, parts') ∧
        List.Forall₂ R parts parts' := by
  have hconf := hR.conformance h
  have hprotocol := hR.protocolType h
  unfold Grammar.witness?
  split
  · exact .inr ⟨_, _, _, rfl, rfl, .cons (h .type) .nil⟩
  · exact .inr ⟨_, _, _, rfl, rfl, .cons hconf .nil⟩
  · exact .inr ⟨_, _, _, rfl, rfl, .cons hconf .nil⟩
  · exact .inr ⟨_, _, _, rfl, rfl, .cons hconf .nil⟩
  · exact .inr ⟨_, _, _, rfl, rfl, .cons (h .type) (.cons hconf .nil)⟩
  · exact .inr ⟨_, _, _, rfl, rfl, .cons (h .type) (.cons hconf .nil)⟩
  · exact .inr ⟨_, _, _, rfl, rfl, .cons hconf .nil⟩
  · exact .inr ⟨_, _, _, rfl, rfl, .cons hconf (.cons hR.declName .nil)⟩
  · exact .inr ⟨_, _, _, rfl, rfl, .cons hconf (.cons hR.declName (.cons hprotocol .nil))⟩
  · exact .inl ⟨rfl, rfl⟩

lemma witness : R (Grammar.witness call) (Grammar.witness call') := by
  refine hR.ite _ (hR.inOrder _ (.cons hR.directness (.cons (h .entity) .nil))) <|
    hR.bind hR.peek fun c => ?_
  obtain ⟨hc, hc'⟩ | ⟨kind, parts, parts', hc, hc', hparts⟩ := hR.witness? h c
  · rw [hc, hc']
    exact hR.refuse
  · rw [hc, hc']
    exact hR.bind hR.next fun _ => hR.inOrder kind hparts

lemma reabstraction (kind : Kind) :
    R (Grammar.reabstraction call kind) (Grammar.reabstraction call' kind) :=
  hR.bind (hR.afterMark _ (h _)) fun signature => hR.bind (h .type) fun source =>
    hR.bind (h .type) fun target => hR.branch kind (signature.toList ++ [source, target])

lemma thunk : R (Grammar.thunk call) (Grammar.thunk call') :=
  hR.ite _ (hR.reabstraction h _) <| hR.ite _ (hR.reabstraction h _) <|
    hR.ite _ (hR.inOrder _ (.cons (hR.conformance h) (.cons (h .entity) .nil))) hR.refuse

lemma partialApply : R (Grammar.partialApply call) (Grammar.partialApply call') := by
  unfold Grammar.partialApply
  refine hR.bind (hR.accept _) fun objC => ?_
  cases objC with
  | true => exact hR.ite _ (hR.wrapped h _ _) (hR.branch _ [])
  | false => exact hR.ite _ (hR.wrapped h _ _) (hR.branch _ [])

lemma globalBody : R (Grammar.globalBody call) (Grammar.globalBody call') :=
  hR.unlessEnd <| hR.ite _ (hR.metadata h) <| hR.ite _ (hR.partialApply h) <|
    hR.ite _ (hR.wrapped h _ _) <| hR.ite _ (hR.valueWitness h) <| hR.ite _ (hR.witness h) <|
    hR.ite _ (hR.thunk h) (h .entity)

/-- A production is related to itself if the productions inside it are. -/
theorem body (production : Production) :
    R (Grammar.body call production) (Grammar.body call' production) := by
  cases production with
  | type => exact hR.wrapped h _ _
  | bareType => exact hR.bareType h
  | context => exact hR.contextBody h
  | entity => exact hR.entityBody h
  | global => exact hR.globalBody h
  | archetype => exact hR.archetypeBody h
  | boundArguments nominal => exact hR.boundArgumentsBody h nominal
  | signature pseudogeneric => exact hR.signatureBody h pseudogeneric
  | implFunction => exact hR.implFunctionBody h

end Globals

/-- Budgets are compared by their extra units: a production is related to itself under more budget
if running out is related to everything. -/
theorem parse (hR : Congruence R)
    (hstop : ∀ p : Parser Node, R (stop .exhausted) p) {budget budget' : Nat}
    (hle : budget ≤ budget') (production : Production) :
    R (Grammar.parse budget production) (Grammar.parse budget' production) := by
  induction budget generalizing budget' production with
  | zero => exact hstop _
  | succ budget ih =>
    obtain ⟨budget', rfl⟩ : ∃ extra, budget' = extra + 1 := ⟨budget' - 1, by omega⟩
    exact hR.body (fun production => ih (Nat.le_of_succ_le_succ hle) production) production

end Congruence

namespace Tolerant

variable {R : ParserRelation} {call call' : Calls} (hR : Tolerant R)
  (h : ∀ production, R (call production) (call' production))
include hR h

lemma closureChange : R (Grammar.closureChange call) (Grammar.closureChange call') :=
  hR.bind (hR.identifier none) fun _ => hR.bind (hR.payloadNode _) fun _ =>
    hR.bind (hR.gatherFound (hR.bind hR.peek fun _ => hR.pure _) (h .type)) fun _ =>
    hR.bind (hR.demand _) fun _ => hR.pure _

lemma paramChange : R (Grammar.paramChange call) (Grammar.paramChange call') :=
  hR.ite _ (hR.pure _) <| hR.ite _ hR.constantChange <| hR.ite _ (hR.closureChange h) <|
    hR.ite _ (hR.pure _) <| hR.ite _ (hR.pure _) hR.flagChange

lemma signatureParams : R (Grammar.signatureParams call) (Grammar.signatureParams call') :=
  hR.gather (hR.accept _) fun _ => hR.bind (hR.paramChange h) fun changes =>
    hR.numbered _ _ changes

lemma specialization : R (Grammar.specialization call) (Grammar.specialization call') :=
  hR.ite _ (hR.specializationOf _ (hR.genericParams h)) <|
    hR.ite _ (hR.specializationOf _ (hR.genericParams h)) <|
    hR.ite _ (hR.specializationOf _ (hR.signatureParams h)) hR.refuse

end Tolerant

namespace SymbolCongruence

variable {R : ParserRelation} {call call' : Calls} (hR : SymbolCongruence R)
  (h : ∀ production, R (call production) (call' production))
include hR h

lemma specializations : R (Grammar.specializations call) (Grammar.specializations call') :=
  hR.iterate (fun _ => hR.bind (hR.tolerant.specialization h) fun _ => hR.bind hR.forget fun _ =>
    hR.ite _ (hR.pure _) (hR.pure _)) []

lemma symbolPrelude : R (Grammar.symbolPrelude call) (Grammar.symbolPrelude call') :=
  hR.ite _ (hR.bind (hR.specializations h) fun _ => hR.bind (hR.demand _) fun _ => hR.pure _)
    hR.symbolAttributes

lemma symbol : R (Grammar.symbol call) (Grammar.symbol call') :=
  hR.bind (hR.demand _) fun _ => hR.bind (hR.symbolPrelude h) fun prelude =>
    hR.bind (h .global) fun body => hR.bind hR.trailing fun suffix =>
    hR.branch .global (prelude ++ body :: suffix)

end SymbolCongruence

end SwiftMangling.Grammar
