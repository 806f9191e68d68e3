import SwiftMangling.Grammar.Budget
import SwiftMangling.Proofs.SteadyParts

/-!
# Productions are settled by the bytes that they take

No production looks beyond its own end: it ends in a mark, in the bytes of an identifier, or in
another production, and where it looks ahead it goes on to take at least as many bytes. There are two
exceptions. A forwarder without a symbol ends where no symbol begins, and the types of a closure end
where one is refused.
-/

namespace SwiftMangling.Grammar

/-- A forwarder of a partial application. -/
def isForwarder (kind : Kind) : Prop :=
  kind = .partialApplyForwarder ∨ kind = .partialApplyObjCForwarder

/-- A chain of forwarders that ends in one without a symbol. -/
inductive OpenForwarder : Node → Prop
  | last {kind : Kind} (h : isForwarder kind) : OpenForwarder (.branch kind [])
  | outer {kind : Kind} {child : Node} (h : isForwarder kind) (hchild : OpenForwarder child) :
    OpenForwarder (.branch kind [child])

/-- Productions that are settled by the bytes that they take. -/
structure Settled (call : Calls) : Prop where
  type : Settles 1 0 (call .type)
  bareType : Settles 1 0 (call .bareType)
  context : Settles 1 0 (call .context)
  entity : Settles 2 0 (call .entity)
  global : Steady (fun node => ¬OpenForwarder node) (fun _ => 2) (fun _ => 0) (call .global)
  archetype : Settles 1 0 (call .archetype)
  boundArguments : ∀ nominal, Settles 1 0 (call (.boundArguments nominal))
  signature : ∀ pseudogeneric, Settles 1 0 (call (.signature pseudogeneric))
  implFunction : Settles 1 0 (call .implFunction)

/-- An argument of a list that goes on behind it. -/
def argument (call : Calls) : Parser Node := do
  let argument ← call .type
  if ← atEnd then refuse else pure argument

/-- A letter that is looked up is not the end. -/
lemma ne_dot_of_lookup {γ : Type} {table : Char → Option γ} {c : Char} {item : γ}
    (h : table c = some item) (hdot : table '.' = none) : c ≠ '.' := by
  rintro rfl
  rw [hdot] at h
  cases h

namespace Settles

variable {call : Calls}

section Names

lemma payloadNode (content : Option Text) : Settles 0 0 (Grammar.payloadNode content) := by
  cases content with
  | none => exact pure _
  | some content => exact pure _

lemma identifierKind (required : Option Kind) (operator : Bool) :
    Settles 0 0 (Grammar.identifierKind required operator) := by
  unfold Grammar.identifierKind
  split
  · exact pure _
  · exact pure _
  · exact refuse 0
  · exact (next (fun letter => orRefuse _) rfl).mono rfl

lemma identifierText (punycoded operator : Bool) (bytes : Bytes) :
    Settles 0 0 (Grammar.identifierText punycoded operator bytes) := by
  obtain h | ⟨text, h⟩ := identifierText_eq punycoded operator bytes
  · rw [h]
    exact refuse 0
  · rw [h]
    exact pure text

/-- No identifier is empty. -/
lemma identifierText_nil (punycoded operator : Bool) :
    Grammar.identifierText punycoded operator [] = Grammar.refuse := by
  cases punycoded with
  | true => rfl
  | false => rfl

lemma identifier (required : Option Kind) : Settles 2 0 (Grammar.identifier required) := by
  have hbytes : ∀ punycoded operator kind length, Settles 1 0 (do
      let bytes ← Grammar.advance length
      let text ← Grammar.identifierText punycoded operator bytes
      Grammar.named kind text) := by
    intro punycoded operator kind length
    cases length with
    | zero =>
      have hnil : (do
          let bytes ← Grammar.advance 0
          let text ← Grammar.identifierText punycoded operator bytes
          Grammar.named kind text) = (Grammar.refuse : Parser Node) := by
        funext limit s
        rw [Parser.bind_apply]
        simp only [Grammar.advance, Nat.zero_le, if_true, List.take_zero, List.drop_zero,
          identifierText_nil]
        rfl
      rw [hnil]
      exact refuse 1
    | succ length =>
      have hrest : Settles (length + 1 + (0 + 0)) 0 (do
          let bytes ← Grammar.advance (length + 1)
          let text ← Grammar.identifierText punycoded operator bytes
          Grammar.named kind text) :=
        (advance (length + 1)).bind (fun bytes =>
          (identifierText punycoded operator bytes).bind fun text => named kind text)
      exact hrest.mono (decide_eq_true ⟨by omega, Nat.le_refl 0⟩)
  exact (unlessEnd <| (accept _).bind fun punycoded => (accept _).bind fun operator =>
    (identifierKind required operator).bind fun kind => natural.bind fun length =>
    hbytes punycoded operator kind length).mono rfl

lemma declName : Settles 2 0 Grammar.declName :=
  (ite _ (indexNode.bind fun discriminator => (identifier none).bind fun name =>
      branch .localDeclName [discriminator, name]) <|
    ite _ ((identifier none).bind fun discriminator => (identifier none).bind fun name =>
      branch .privateDeclName [discriminator, name]) (identifier none)).mono rfl

lemma substitution : Settles 1 0 Grammar.substitution := by
  refine (unlessEnd <| ite _ (pure _) <| ite _ (pure _) <| onPeek 1 0 (by omega) fun c => ?_).mono rfl
  cases htype : standardType? c with
  | some type => exact afterLetter (ne_dot_of_lookup htype rfl) (pure _)
  | none => exact any (index.bind fun position => recalled position)

lemma moduleName : Settles 1 0 Grammar.moduleName := by
  refine (ite _ (pure _) <| ite _ (substitution.bind (n := 0) (k := 0) fun node => ?_) <|
    (identifier _).bind fun node => (record node).bind fun _ => pure _).mono rfl
  split
  · exact pure _
  · exact refuse 0

end Names

section Productions

variable (h : Settled call)
include h

omit h in
lemma wrapped {n : Nat} (kind : Kind) {production : Production} (hp : Settles n 0 (call production)) :
    Settles n 0 (Grammar.wrapped call kind production) :=
  hp.bind fun child => branch kind [child]

lemma declaration (kind : Kind) : Settles 3 0 (Grammar.declaration call kind) :=
  h.context.bind fun context => declName.bind fun name =>
    (branch kind [context, name]).bind fun node => (record node).bind fun _ => pure _

omit h in
lemma protocolInContext (context : Node) : Settles 2 0 (Grammar.protocolInContext context) :=
  declName.bind fun name => (branch .protocolDecl [context, name]).bind fun node =>
    (record node).bind fun _ => pure _

lemma protocol : Settles 2 0 (Grammar.protocol call) := by
  refine (ite _ (substitution.bind (n := 0) (k := 0) fun node => ?_) <|
    ite _ (protocolInContext _) (declaration h _)).mono rfl
  split
  · exact pure _
  · split
    · exact (protocolInContext node).mono rfl
    · exact refuse 0

lemma protocolType : Settles 2 0 (Grammar.protocolType call) :=
  (protocol h).bind fun node => branch .type [node]

lemma nominal : Settles 2 0 (Grammar.nominal call) :=
  (ite _ substitution <| ite _ (declaration h _) <| ite _ (declaration h _) <|
    ite _ (declaration h _) <| ite _ (declaration h _) (refuse 2)).mono rfl

lemma onBoundParent (node : Node) : Settles 0 0 (Grammar.onBoundParent call node) := by
  unfold Grammar.onBoundParent
  by_cases hnone : node.children.length = 0
  · rw [if_pos hnone]
    exact refuse 0
  · rw [if_neg hnone, childAt_of_lt (Nat.pos_of_ne_zero hnone), pure_bind]
    split
    · exact pure _
    · split
      · exact refuse 0
      · next hlen =>
        rw [childAt_of_lt (Nat.not_lt.1 hlen)]
        simp only [pure_bind]
        exact ((h.boundArguments _).bind fun parent => branch node.kind [parent, _]).mono rfl

lemma argument : Settles 1 1 (Grammar.argument call) := by
  refine h.type.bind (n := 0) (k := 1) fun argument => ?_
  refine atEnd.bind (n := 0) (k := 1) fun ended => ?_
  cases ended with
  | true => exact (refuse 0).mono rfl
  | false => exact pureAhead 1 argument

lemma argumentList : Settles 1 0 (Grammar.argumentList call) :=
  gather "_" rfl fun _ => argument h

omit h in
lemma applyArguments (node : Node) (arguments : List Node) :
    Settles 0 0 (Grammar.applyArguments node arguments) := by
  unfold Grammar.applyArguments
  split
  · exact pure _
  · exact (orRefuse _).bind fun kind => (branch .type [node]).bind fun unbound =>
      (branch .typeList arguments).bind fun arguments => branch kind [unbound, arguments]

lemma boundArgumentsBody (node : Node) : Settles 1 0 (Grammar.boundArgumentsBody call node) :=
  (onBoundParent h node).bind fun node => (argumentList h).bind fun arguments =>
    applyArguments node arguments

lemma boundGeneric : Settles 3 0 (Grammar.boundGeneric call) :=
  (nominal h).bind fun node => h.boundArguments node

lemma extensionContext : Settles 2 0 (Grammar.extensionContext call) :=
  moduleName.bind fun definer => h.context.bind fun extended =>
    branch .extensionContext [definer, extended]

lemma constrainedExtension : Settles 3 0 (Grammar.constrainedExtension call) :=
  moduleName.bind fun definer => (h.signature _).bind fun signature =>
    h.context.bind fun extended => branch .extensionContext [definer, extended, signature]

lemma contextBody : Settles 1 0 (Grammar.contextBody call) := by
  refine (unlessEnd <| ite _ (extensionContext h) <| ite _ (constrainedExtension h) <|
    ite _ substitution <| ite _ (pure _) <| ite _ (boundGeneric h) <|
    onPeek 1 0 (by omega) fun c => ?_).mono rfl
  split
  · exact any (h.entity.mono rfl)
  · exact any moduleName

lemma protocolList : Settles 1 0 (Grammar.protocolList call) :=
  (gather "_" rfl fun _ => (protocolType h).mono rfl).bind fun protocols =>
    (branch .typeList protocols).bind fun types => branch .protocolList [types]

lemma conformance : Settles 4 0 (Grammar.conformance call) :=
  h.type.bind fun conforming => (protocolType h).bind fun protocol =>
    h.context.bind fun context => branch .protocolConformance [conforming, protocol, context]

end Productions

section Entities

variable (h : Settled call)
include h

lemma accessedNode (context name : Node) : Settles 1 0 (Grammar.accessedNode call context name) := by
  unfold Grammar.accessedNode
  obtain ⟨rest, hname | hname⟩ := accessedName_eq name
  · rw [hname, pure_bind]
    refine h.type.bind (n := 0) (k := 0) fun type => ?_
    cases rest with
    | none => exact branch .subscript [context, type]
    | some file => exact branch .subscript [context, type, file]
  · rw [hname, pure_bind]
    exact (branch .variableDecl [context, name]).bind fun holder => h.type.bind fun type =>
      pure _

lemma accessor (kind : Kind) (context : Node) : Settles 3 0 (Grammar.accessor call kind context) :=
  declName.bind fun name => (accessedNode h context name).bind fun accessed =>
    branch kind [accessed]

omit h in
lemma initializerName (context : Node) : Settles 1 0 (Grammar.initializerName context) :=
  (ite _ (indexNode.bind fun name => branch .defaultArgumentInitializer [context, name]) <|
    ite _ (branch .initializer [context]) (refuse 1)).mono rfl

lemma namedEntity (kind : Kind) (context : Node) :
    Settles 3 0 (Grammar.namedEntity call kind context) :=
  declName.bind fun name => h.type.bind fun type => branch kind [context, name, type]

omit h in
/-- No addressor is announced by the end. -/
lemma addressor_dot {c : Char} {kind? : Char → Option Kind}
    (hname : entityName? c = some (.addressor kind?)) : kind? '.' = none := by
  unfold entityName? at hname
  split at hname <;> cases hname <;> rfl

lemma entityInContext (kind : Kind) (context : Node) :
    Settles 1 0 (Grammar.entityInContext call kind context) := by
  refine onPeek 1 0 (by omega) fun c => ?_
  cases hname : entityName? c with
  | none =>
    by_cases hkind : kind = .initializer
    · simp only [if_pos hkind]
      exact any (initializerName context)
    · simp only [if_neg hkind]
      exact any ((namedEntity h kind context).mono rfl)
  | some name =>
    have hc : c ≠ '.' := ne_dot_of_lookup hname rfl
    cases name with
    | untyped kind => exact afterLetter hc (branch kind [context])
    | typed kind =>
      exact afterLetter hc ((h.type.bind fun type => branch kind [context, type]).mono rfl)
    | addressor kind? =>
      refine afterLetter hc ((next (n := 0) (k := 0) (fun letter => ?_) ?_).mono rfl)
      · exact ((orRefuse _).bind fun kind => accessor h kind context).mono rfl
      · rw [addressor_dot hname]
        rfl
    | accessor kind => exact afterLetter hc ((accessor h kind context).mono rfl)
    | closure kind =>
      exact afterLetter hc ((indexNode.bind fun name => h.type.bind fun type =>
        branch kind [context, name, type]).mono rfl)

lemma entityBody : Settles 2 0 (Grammar.entityBody call) := by
  refine ((accept _).bind fun isStatic => onPeek 2 0 (by omega) fun c => ?_).mono rfl
  cases hkind : entityKind? c with
  | none => exact any (nominal h)
  | some kind =>
    refine afterLetter (ne_dot_of_lookup hkind rfl) <| (h.context.bind fun context =>
      (entityInContext h kind context).bind (n := 0) (k := 0) fun entity => ?_).mono rfl
    split
    · exact branch .staticMember [entity]
    · exact pure _

end Entities

section Generics

variable (h : Settled call)
include h

lemma associatedTypeRef : Settles 2 0 (Grammar.associatedTypeRef call) := by
  refine (ite _ (substitution.bind (n := 0) (k := 0) fun node => ?_) <|
    (afterMark rfl (protocolType h)).bind fun protocol => (identifier _).bind fun name =>
    Settles.bind (m := 0) (j := 0) ?_ fun node => (record node).bind fun _ => pure _).mono rfl
  · split
    · exact pure _
    · exact refuse 0
  · cases protocol with
    | none => exact pure _
    | some protocol => exact pure _

lemma memberType (base : Node) : Settles 2 0 (Grammar.memberType call base) :=
  (associatedTypeRef h).bind fun name => branch .dependentMemberType [base, name]

lemma simpleMemberType : Settles 3 0 (Grammar.simpleMemberType call) :=
  genericParamIndex.bind fun param => (branch .type [param]).bind fun base => memberType h base

lemma compoundMemberType : Settles 2 0 (Grammar.compoundMemberType call) :=
  genericParamIndex.bind fun param => foldUntil "_" rfl (fun base =>
    ((branch .type [base]).bind fun base => memberType h base).mono rfl) param

lemma dependentType : Settles 1 0 (Grammar.dependentType call) := by
  refine unlessEnd <| onPeek 1 0 (by omega) fun c => ?_
  split
  · exact any ((h.type.bind fun base => memberType h base).mono rfl)
  · exact any genericParamIndex

lemma paramOrMember : Settles 1 0 (Grammar.paramOrMember call) :=
  (ite _ (simpleMemberType h) <| ite _ (compoundMemberType h) genericParamIndex).mono rfl

lemma constrainedType : Settles 1 0 (Grammar.constrainedType call) :=
  (paramOrMember h).bind fun type => branch .type [type]

omit h in
lemma layoutNumbers (count : Nat) : Settles 0 1 (Grammar.layoutNumbers count) := by
  unfold Grammar.layoutNumbers
  split
  · exact pureAhead 1 _
  · exact (natural.bind fun size => pureAhead 1 _).mono rfl
  · exact (natural.bind fun size => (demand _).bind fun _ =>
      natural.bind fun alignment => pureAhead 1 _).mono rfl

omit h in
/-- The numbers of a layout may stand at the end of a requirement, which then is settled by the
next byte. -/
lemma layoutRequirement (constrained : Node) : Settles 1 1 (Grammar.layoutRequirement constrained) := by
  refine (next (n := 0) (k := 1) (fun letter => ?_) rfl)
  exact (orRefuse _).bind fun count => (layoutNumbers count).bind (n := 0) (k := 1) fun numbers =>
    ((named _ _).bind fun letter => branch _ (constrained :: letter ::
      numbers.map fun (n : Nat) => .numbered .number n)).mono rfl

omit h in
lemma substitutedConstraint : Settles 1 0 Grammar.substitutedConstraint := by
  refine substitution.bind (n := 0) (k := 0) fun node => ?_
  split
  · exact branch .type [node]
  · split
    · exact ((protocolInContext node).bind fun protocol => branch .type [protocol]).mono rfl
    · exact refuse 0

lemma conformanceConstraint : Settles 1 0 (Grammar.conformanceConstraint call) := by
  refine unlessEnd <| onPeek 1 0 (by omega) fun c => ?_
  split
  · exact any h.type
  · exact afterLetter (by decide) (substitutedConstraint.mono rfl)
  · exact any ((protocolType h).mono rfl)

lemma requirement : Settles 2 1 (Grammar.requirement call) :=
  ((constrainedType h).bind <| fun constrained =>
    ite _ (h.type.bind fun type => branch .dependentGenericSameTypeRequirement [constrained, type]) <|
    ite _ (layoutRequirement constrained) <| (conformanceConstraint h).bind fun constraint =>
      branch .dependentGenericConformanceRequirement [constrained, constraint]).mono rfl

omit h in
lemma paramCount : Settles 1 0 Grammar.paramCount :=
  (ite _ (pure _) (index.bind fun _ => pure _)).mono rfl

omit h in
/-- The counts end before the letter of the requirements, which is looked at. -/
lemma paramCounts : Settles 0 1 Grammar.paramCounts :=
  (gatherAhead (peek.bind fun _ => pureAhead 1 _) fun _ => paramCount.mono rfl).bind fun _ =>
    pureAhead 1 _

lemma requirements : Settles 1 0 (Grammar.requirements call) :=
  (ite _ (pure _) <| (demand _).bind fun _ => gather "r" rfl fun _ => (requirement h).mono rfl).mono rfl

lemma signatureBody (pseudogeneric : Bool) :
    Settles 1 0 (Grammar.signatureBody call pseudogeneric) := by
  refine paramCounts.bind fun counts => (requirements h).bind (n := 0) (k := 0)
    fun requirements => ?_
  exact branch _
    (counts.map (fun (n : Nat) => .numbered .dependentGenericParamCount n) ++ requirements)

omit h in
lemma associatedType (root : Node) : Settles 2 0 (Grammar.associatedType root) :=
  (identifier none).bind fun name => (branch .associatedTypeRef [root, name]).bind fun node =>
    (record node).bind fun _ => pure _

lemma archetypeBody : Settles 1 0 (Grammar.archetypeBody call) :=
  (ite _ (h.archetype.bind fun root => associatedType root) <|
    ite _ (substitution.bind fun root => associatedType root) <|
    ite _ (associatedType _) (refuse 1)).mono rfl

end Generics

section Types

variable (h : Settled call)

lemma builtinVector (elements : Nat) : Settles 1 0 (Grammar.builtinVector elements) :=
  (ite _ (builtinSize.bind fun _ => pure _) <| ite _ (builtinSize.bind fun _ => pure _) <|
    ite _ (pure _) (refuse 1)).mono rfl

lemma builtinType : Settles 1 0 Grammar.builtinType := by
  refine unlessEnd (next (n := 0) (k := 0) (fun c => ?_) rfl)
  split
  · exact pure _
  · split
    · exact (builtinSize.bind fun _ => pure _).mono rfl
    · exact (builtinSize.bind fun _ => pure _).mono rfl
    · exact (natural.bind fun elements => (demand _).bind fun _ => builtinVector elements).mono rfl
    · exact refuse 0

/-- That an element has no label is seen from the next byte. -/
lemma elementLabel : Settles 0 1 Grammar.elementLabel := by
  refine onPeek 0 1 (by omega) fun c => ?_
  split
  · exact any (((identifier _).bind fun label => pure _).mono rfl)
  · exact any ((pure _).mono rfl)

include h

lemma tupleElement : Settles 1 0 (Grammar.tupleElement call) :=
  unlessEnd <| elementLabel.bind fun label => h.type.bind fun type =>
    branch .tupleElement (label ++ [type])

lemma tuple (variadic : Bool) : Settles 1 0 (Grammar.tuple call variadic) :=
  (gather "_" rfl fun _ => (tupleElement h).mono rfl).bind fun elements =>
    branch .tuple (if variadic then markVariadic elements else elements)

lemma functionType (kind : Kind) : Settles 2 0 (Grammar.functionType call kind) := by
  refine ((accept _).bind fun throwing => h.type.bind fun arguments => h.type.bind fun result =>
    (branch .argumentTuple [arguments]).bind fun arguments =>
    (branch .returnType [result]).bind (n := 0) (k := 0) fun result => ?_).mono rfl
  exact branch kind ((if throwing then [.branch .throwsMark []] else []) ++ [arguments, result])

lemma representedMetatype (kind : Kind) : Settles 1 0 (Grammar.representedMetatype call kind) := by
  refine onPeek 1 0 (by omega) fun c => ?_
  cases hname : representation? c with
  | none => exact any (refuse 1)
  | some name =>
    exact afterLetter (ne_dot_of_lookup hname rfl) <| (h.type.bind fun type =>
      (named _ _).bind fun representation => branch kind [representation, type]).mono rfl

lemma boxField : Settles 2 0 (Grammar.boxField call) :=
  (ite _ (wrapped _ h.type) <| ite _ (wrapped _ h.type) (refuse 2)).mono rfl

lemma boxWithLayout : Settles 1 0 (Grammar.boxWithLayout call) := by
  refine (afterMark rfl (h.signature _)).bind fun signature =>
    (gather "_" rfl fun _ => (boxField h).mono rfl).bind fun fields =>
    (branch .silBoxLayout fields).bind (n := 0) (k := 0) fun layout => ?_
  cases signature with
  | none => exact branch .silBoxTypeWithLayout [layout]
  | some signature =>
    exact ((gather "_" rfl fun _ => h.type.mono rfl).bind fun arguments =>
      (branch .typeList arguments).bind fun arguments =>
      branch .silBoxTypeWithLayout [layout, signature, arguments]).mono rfl

lemma extendedType : Settles 1 0 (Grammar.extendedType call) := by
  refine (ite _ (wrapped _ h.type) <| ite _ (boxWithLayout h) <| ite _ (representedMetatype h _) <|
    ite _ (ite _ (representedMetatype h _) (protocolList h)) <| ite _ (functionType h _) <|
    onPeek 1 0 (by omega) fun c => ?_).mono rfl
  cases hkind : storageKind? c with
  | none => exact any ((ite _ h.implFunction (refuse 1)).mono rfl)
  | some kind => exact afterLetter (ne_dot_of_lookup hkind rfl) ((wrapped kind h.type).mono rfl)

lemma genericType : Settles 2 0 (Grammar.genericType call) :=
  (h.signature _).bind fun signature => h.type.bind fun type =>
    branch .dependentGenericType [signature, type]

lemma bareType : Settles 1 0 (Grammar.bareType call) := by
  refine unlessEnd (next (n := 0) (k := 0) (fun c => ?_) rfl)
  split
  · exact builtinType.mono rfl
  · exact (declaration h _).mono rfl
  · exact (functionType h _).mono rfl
  · exact (functionType h _).mono rfl
  · exact (functionType h _).mono rfl
  · exact (functionType h _).mono rfl
  · exact (functionType h _).mono rfl
  · exact (wrapped _ h.type).mono rfl
  · exact ((demand _).bind fun _ => named _ _).mono rfl
  · exact (boundGeneric h).mono rfl
  · exact (wrapped _ h.type).mono rfl
  · exact (ite _ (wrapped _ h.type) (protocolList h)).mono rfl
  · exact h.archetype.mono rfl
  · exact (dependentType h).mono rfl
  · exact pure _
  · exact (simpleMemberType h).mono rfl
  · exact (compoundMemberType h).mono rfl
  · exact (wrapped _ h.bareType).mono rfl
  · exact substitution.mono rfl
  · exact (tuple h _).mono rfl
  · exact (tuple h _).mono rfl
  · exact (genericType h).mono rfl
  · exact (extendedType h).mono rfl
  · exact (declaration h _).mono rfl
  · exact (declaration h _).mono rfl
  · exact (declaration h _).mono rfl
  · exact refuse 0

end Types

section LoweredFunctions

variable (h : Settled call)

lemma convention (place : Convention → Option String) : Settles 1 0 (Grammar.convention place) := by
  refine onPeek 1 0 (by omega) fun c => ?_
  cases hname : convention? c with
  | none => exact any (refuse 1)
  | some name => exact afterLetter (ne_dot_of_lookup hname rfl) (orRefuse _)

lemma calleeConvention : Settles 1 0 Grammar.calleeConvention :=
  (ite _ (pure _) (convention _)).mono rfl

lemma functionAttributes : Settles 0 1 Grammar.functionAttributes :=
  (ite _ (next (fun _ => (orRefuse _).bind fun _ => pure _) rfl) (pureAhead 1 [])).mono rfl

include h

lemma functionSignature : Settles 0 1 (Grammar.functionSignature call) :=
  (ite _ ((h.signature _).bind fun _ => pure _) <|
    ite _ ((h.signature _).bind fun _ => pure _) (pureAhead 1 [])).mono rfl

lemma conventionType (kind : Kind) (place : Convention → Option String) :
    Settles 2 0 (Grammar.conventionType call kind place) :=
  (convention place).bind fun name => h.type.bind fun type =>
    branch kind [conventionNode name, type]

lemma parameter : Settles 2 0 (Grammar.parameter call) :=
  (ite _ (refuse 2) (conventionType h _ _)).mono rfl

lemma result (earlier : List Node) : Settles 2 0 (Grammar.result call earlier) := by
  refine (ite _ ((conventionType h _ _).bind (n := 0) (k := 0) fun node => ?_)
    (conventionType h _ _)).mono rfl
  split
  · exact refuse 0
  · exact pure _

lemma implFunctionBody : Settles 1 0 (Grammar.implFunctionBody call) :=
  (calleeConvention.bind fun callee => functionAttributes.bind fun attributes =>
    (functionSignature h).bind fun signature => (demand _).bind fun _ =>
    (gather "_" rfl fun _ => (parameter h).mono rfl).bind fun parameters =>
    (gather "_" rfl fun earlier => (result h earlier).mono rfl).bind fun results =>
    branch .implFunctionType
      (conventionNode callee :: attributes ++ signature ++ parameters ++ results)).mono rfl

end LoweredFunctions

section Constants

lemma textOfChars (bytes : Bytes) : Settles 0 0 (Grammar.textOfChars (Text.ofBytes bytes)) := by
  obtain ⟨text, htext⟩ := textOfChars_eq fun c (hc : c ∈ Text.ofBytes bytes) =>
    val_lt_of_mem_ofBytes hc
  rw [htext]
  exact pure text

lemma constantName (what : ParamChange) : Settles 3 0 (Grammar.constantName what) :=
  ((identifier none).bind fun _ => (demand _).bind fun _ => (payloadNode _).bind fun _ =>
    pure _).mono rfl

lemma constantLiteral (what : ParamChange) : Settles 1 0 (Grammar.constantLiteral what) :=
  ((settles_readUntil rfl).bind fun literal => (demand _).bind fun _ => (textOfChars literal).bind
    fun _ => (payloadNode _).bind fun _ => pure _).mono rfl

lemma stringEncoding : Settles 1 0 Grammar.stringEncoding :=
  (ite _ (pure _) (ite _ (pure _) (refuse 1))).mono rfl

lemma constantString : Settles 6 0 Grammar.constantString :=
  ((demand _).bind fun _ => stringEncoding.bind fun _ => (demand _).bind fun _ =>
    (identifier none).bind fun _ => (demand _).bind fun _ => (payloadNode _).bind fun _ =>
    (payloadNode _).bind fun _ => pure _).mono rfl

lemma constantChange : Settles 2 0 Grammar.constantChange :=
  (ite _ (constantName _) <| ite _ (constantName _) <| ite _ (constantLiteral _) <|
    ite _ (constantLiteral _) <| ite _ constantString (refuse 2)).mono rfl

end Constants

end Settles

section Flags

/-- A flag takes a byte if it is there. -/
lemma steady_flag {letter : Text} (hletter : letter.length = 1) {what : ParamChange}
    (hwhat : what.number ≠ 0) :
    Steady (fun _ => True) (fun number => if number = 0 then 0 else 1) (fun _ => 1)
      (flag letter what) := by
  have hbranch : ∀ found : Bool, Steady (fun _ => True) (fun _ => 0) (fun _ => 1)
      (if found then pure what.number else pure 0) := by
    intro found
    cases found with
    | true => exact steady_pure _ _
    | false => exact steady_pure _ _
  refine (steady_accept_one hletter).bind hbranch fun found limit s result s' h =>
    ⟨fun _ => trivial, ?_⟩
  cases found with
  | true =>
    cases h
    rw [if_neg hwhat]
    exact ⟨Nat.le_refl _, Nat.zero_le _, Nat.le_refl _⟩
  | false =>
    cases h
    exact ⟨Nat.le_refl _, Nat.le_refl _, Nat.le_refl _⟩

/-- A flag and what comes after it, which takes two bytes if there was no flag before. -/
lemma settles_flag_bind (earlier : Nat) {letter : Text} (hletter : letter.length = 1)
    {what : ParamChange} (hwhat : what.number ≠ 0) {f : Nat → Parser (List Node)}
    (hf : ∀ number, Settles (if earlier + number = 0 then 2 else 1) 0 (f number)) :
    Settles (if earlier = 0 then 2 else 1) 0 (flag letter what >>= f) := by
  refine (steady_flag hletter hwhat).bind hf fun number limit s result s' _ => ⟨fun _ => trivial, ?_⟩
  refine ⟨?_, ?_, Nat.le_refl _⟩
  · split <;> split <;> split <;> omega
  · split <;> omega

lemma settles_flagChange : Settles 2 0 flagChange := by
  refine settles_flag_bind 0 rfl (by decide) fun dead => ?_
  refine settles_flag_bind _ rfl (by decide) fun guaranteed => ?_
  refine settles_flag_bind _ rfl (by decide) fun owned => ?_
  refine settles_flag_bind _ rfl (by decide) fun exploded => ?_
  rw [Nat.zero_add]
  by_cases hnone : dead + guaranteed + owned + exploded = 0
  · simp only [if_pos hnone]
    exact ((Settles.demand _).bind fun _ => Settles.refuse 1).mono rfl
  · simp only [if_neg hnone]
    exact ((Settles.demand _).bind fun _ => Settles.pure _).mono rfl

end Flags

section Specializations

/-- The mark of a closure among the changes of a parameter. -/
def IsClosureMark (node : Node) : Prop :=
  node.kind = .functionSignatureSpecializationParamKind ∧
    node.payload = .index ParamChange.closure.number

/-- The nodes of a tree. -/
inductive Occurs (inner : Node) : Node → Prop
  | here : Occurs inner inner
  | inside {outer child : Node} (hchild : child ∈ outer.children) (h : Occurs inner child) :
    Occurs inner outer

/-- No parameter of a tree has become a closure. -/
def NoClosure (node : Node) : Prop :=
  ∀ inner, Occurs inner node → ¬IsClosureMark inner

lemma NoClosure.of_mem {outer child : Node} (h : NoClosure outer) (hchild : child ∈ outer.children) :
    NoClosure child :=
  fun inner hinner => h inner (.inside hchild hinner)

lemma NoClosure.root {node : Node} (h : NoClosure node) : ¬IsClosureMark node :=
  h node .here

variable {call : Calls} (h : Settled call)
include h

/-- The types of a closure end where one is refused, so that a closure is kept only where less is
left. -/
lemma steady_closureChange :
    Steady (fun changes => ∀ node ∈ changes, NoClosure node) (fun _ => 2) (fun _ => 0)
      (closureChange call) := by
  have hend : Settles 0 1 (do let c ← peek; pure (decide (c = '_'))) :=
    Settles.peek.bind fun _ => Settles.pureAhead 1 _
  have hrest : ∀ payload, Steady (fun changes => ∀ node ∈ changes, NoClosure node) (fun _ => 0)
      (fun _ => 0) (do
        let types ← gatherFound (do let c ← peek; pure (decide (c = '_'))) (call .type)
        demand "_"
        pure (change .closure :: payload :: types)) := by
    intro payload
    refine (steady_gatherFound hend h.type).bind (fun types =>
      ((Settles.demand _).bind fun _ => Settles.pure _).under) ?_
    intro types limit s changes s' hchanges
    refine ⟨fun hnone => ?_, Nat.zero_le _, Nat.le_refl _, Nat.le_refl _⟩
    obtain ⟨_, s₁, -, hchanges⟩ := Parser.bind_found hchanges
    cases hchanges
    exact (hnone _ (List.mem_cons_self ..)).root ⟨rfl, rfl⟩
  exact (Settles.identifier none).before fun name =>
    (Settles.payloadNode name.text?).before fun payload => hrest payload

/-- What became of a parameter is settled unless it is a closure. -/
lemma steady_paramChange :
    Steady (fun changes => ∀ node ∈ changes, NoClosure node) (fun _ => 2) (fun _ => 0)
      (paramChange call) := by
  have hnone : Steady (fun changes => ∀ node ∈ changes, NoClosure node) (fun _ => 0) (fun _ => 0)
      (pure [] : Parser (List Node)) := steady_pure _ _
  exact (steady_ite _ (Settles.pure []).under <|
    steady_ite _ Settles.constantChange.under <| steady_ite _ (steady_closureChange h) <|
    steady_ite _ (Settles.pure _).under <| steady_ite _ (Settles.pure _).under <|
    settles_flagChange.under).mono rfl

/-- A tree without closures has none in its parts. -/
lemma steady_signatureParams :
    Steady (fun params => ∀ node ∈ params, NoClosure node) (fun _ => 1) (fun _ => 0)
      (signatureParams call) := by
  refine steady_gather (steady_accept_one rfl) (fun earlier => ?_) (Nat.le_refl 1)
  have hparam : ∀ changes : List Node, Steady (fun node => NoClosure node) (fun _ => 0) (fun _ => 0)
      (numbered .functionSignatureSpecializationParam earlier.length (changes.map some)) :=
    fun changes => (Settles.numbered _ _ changes).under
  refine (steady_paramChange h).bind hparam fun changes limit s node s' hnode =>
    ⟨fun hclosed inner hinner => ?_, by decide, Nat.le_refl _, Nat.zero_le _⟩
  rw [numbered_map_some] at hnode
  cases hnode
  exact hclosed.of_mem hinner

lemma settles_genericParamNode : Settles 2 0 (genericParamNode call) :=
  h.type.bind fun type =>
    (Settles.gather "_" rfl fun _ => (Settles.conformance h).mono rfl).bind fun conformances =>
    Settles.branch .genericSpecializationParam (type :: conformances)

lemma settles_genericParams : Settles 1 0 (genericParams call) :=
  Settles.gather "_" rfl fun _ => (settles_genericParamNode h).mono rfl

omit h in
lemma settles_passNumber : Settles 1 0 passNumber := by
  refine Settles.onPeek 1 0 (by omega) fun c => ?_
  by_cases hdigit : c.isDigit
  · have hc : c ≠ '.' := by
      rintro rfl
      exact absurd hdigit (by decide)
    simp only [if_pos hdigit]
    exact Settles.afterLetter hc (Settles.numbered _ _ [])
  · simp only [if_neg hdigit]
    exact Settles.any (Settles.refuse 1)

omit h in
lemma steady_specializationOf (kind : Kind) {params : Parser (List Node)}
    (hparams : Steady (fun params => ∀ node ∈ params, NoClosure node) (fun _ => 1) (fun _ => 0)
      params) :
    Steady NoClosure (fun _ => 2) (fun _ => 0) (specializationOf kind params) := by
  refine ((Settles.accept _).before fun serialized => settles_passNumber.before
    (n := 1) (k := 0) fun pass => ?_).mono rfl
  let mark : List Node := if serialized then [.branch .isSerialized []] else []
  have hnode : ∀ params : List Node, Steady (fun node => NoClosure node) (fun _ => 0) (fun _ => 0)
      (branch kind ((mark ++ pass :: params).map some)) :=
    fun params => (Settles.branch kind _).under
  refine hparams.bind hnode fun params limit s node s' hfound =>
    ⟨fun hclosed inner hinner => ?_, by decide, Nat.le_refl _, Nat.le_refl _⟩
  rw [branch_map_some] at hfound
  cases hfound
  exact hclosed.of_mem (List.mem_append_right _ (List.mem_cons_of_mem _ hinner))

lemma steady_specialization : Steady NoClosure (fun _ => 3) (fun _ => 0) (specialization call) :=
  have hgeneric := (settles_genericParams h).under
  (steady_ite _ (steady_specializationOf _ hgeneric) <|
    steady_ite _ (steady_specializationOf _ hgeneric) <|
    steady_ite _ (steady_specializationOf _ (steady_signatureParams h))
      (Settles.refuse 3).under).mono rfl

/-- A round of the specializations of a symbol. -/
def specializationRound (call : Calls) (earlier : List Node) :
    Parser (Round (List Node) (List Node)) := do
  let node ← specialization call
  forget
  if ← accept "_TTS" then pure (.again (node :: earlier))
  else pure (.done (node :: earlier).reverse)

omit h in
lemma specializationRound_found {earlier : List Node} {limit : Int} {s s' : State}
    {round : Round (List Node) (List Node)}
    (hround : specializationRound call earlier limit s = .found round s') :
    ∃ node, round = .again (node :: earlier) ∨ round = .done (node :: earlier).reverse := by
  obtain ⟨node, s₁, -, hround⟩ := Parser.bind_found hround
  obtain ⟨_, s₂, -, hround⟩ := Parser.bind_found hround
  obtain ⟨found, s₃, -, hround⟩ := Parser.bind_found hround
  refine ⟨node, ?_⟩
  cases found with
  | true =>
    cases hround
    exact .inl rfl
  | false =>
    cases hround
    exact .inr rfl

lemma steady_specializationRound (earlier : List Node) :
    Steady (eachItem NoClosure) (perRound 1 3) (perRound 0 4) (specializationRound call earlier) := by
  have hbranch : ∀ (node : Node) (found : Bool), Steady (eachItem NoClosure) (fun _ => 0) (perRound 0 4)
      (if found then pure (.again (node :: earlier)) else pure (.done (node :: earlier).reverse)) := by
    intro node found
    cases found with
    | true => exact steady_pure _ _
    | false => exact steady_pure _ _
  have hmark : ∀ node, Steady (eachItem NoClosure) (fun _ => 0) (perRound 0 4) (do
      if ← accept "_TTS" then pure (.again (node :: earlier))
      else pure (.done (node :: earlier).reverse)) := by
    intro node
    refine (steady_accept _).bind (hbranch node) fun found limit s round s' hround =>
      ⟨fun _ => trivial, Nat.zero_le _, ?_, Nat.le_refl _⟩
    cases found with
    | true => exact Nat.zero_le _
    | false =>
      cases hround
      exact (by decide : ("_TTS" : Text).length ≤ 4)
  have hforget : ∀ node, Steady (eachItem NoClosure) (fun _ => 0) (perRound 0 4) (do
      forget
      if ← accept "_TTS" then pure (.again (node :: earlier))
      else pure (.done (node :: earlier).reverse)) := fun node =>
    Steady.bind Settles.forget (fun _ => hmark node) fun _ _ _ _ _ _ =>
      ⟨fun _ => trivial, Nat.zero_le _, Nat.zero_le _, Nat.le_refl _⟩
  refine (steady_specialization h).bind hforget fun node limit s round s' hround =>
    ⟨fun hclosed => ?_, ?_, Nat.zero_le _, Nat.le_refl _⟩
  · obtain ⟨_, s₂, -, hround⟩ := Parser.bind_found hround
    obtain ⟨found, s₃, -, hround⟩ := Parser.bind_found hround
    cases found with
    | true =>
      cases hround
      exact hclosed node (List.mem_cons_self ..)
    | false =>
      cases hround
      exact hclosed node (List.mem_reverse.2 (List.mem_cons_self ..))
  · cases round with
    | again _ => exact Nat.succ_le_succ (Nat.zero_le _)
    | done _ => exact Nat.le_refl 3

lemma steady_specializations :
    Steady (fun nodes => ∀ node ∈ nodes, NoClosure node) (fun _ => 3) (fun _ => 4)
      (specializations call) := by
  refine Steady.iterate (eachItem NoClosure) (fun earlier result => ∀ node ∈ earlier, node ∈ result)
    (steady_specializationRound h) (Nat.zero_le _) ?_ ?_ (fun _ => id) ?_ []
  · intro earlier limit s result s' hround
    obtain ⟨node, hround | hround⟩ := specializationRound_found hround
    · cases hround
    · cases hround
      exact fun item hitem => List.mem_reverse.2 (List.mem_cons_of_mem _ hitem)
  · intro earlier limit s items s' hround result hkept
    obtain ⟨node, hround | hround⟩ := specializationRound_found hround
    · cases hround
      exact fun item hitem => hkept item (List.mem_cons_of_mem _ hitem)
    · cases hround
  · intro earlier limit s items s' hround result hkept hclosed item hitem
    exact hclosed item (hkept item hitem)

omit h in
lemma settles_symbolAttributes : Settles 0 2 symbolAttributes :=
  (Settles.ite _ (Settles.pure _) <| Settles.ite _ (Settles.pure _) <|
    Settles.ite _ (Settles.pure _) <| Settles.ite _ (Settles.pure _) <|
    Settles.ite _ (Settles.pure _) (Settles.pureAhead 2 [])).mono rfl

lemma steady_symbolPrelude :
    Steady (fun nodes => ∀ node ∈ nodes, NoClosure node) (fun _ => 0) (fun _ => 2)
      (symbolPrelude call) := by
  have hnodes : ∀ nodes : List Node, Steady (fun nodes => ∀ node ∈ nodes, NoClosure node)
      (fun _ => 2) (fun _ => 2) (do demand "_T"; pure nodes) := fun nodes =>
    ((Settles.demand _).bind fun _ => Settles.pure nodes).under.mono rfl
  have hlist : Steady (fun nodes => ∀ node ∈ nodes, NoClosure node) (fun _ => 5) (fun _ => 2)
      (do let nodes ← specializations call; demand "_T"; pure nodes) := by
    refine (steady_specializations h).bind hnodes fun nodes limit s nodes' s' hfound => ?_
    obtain ⟨_, s₁, -, hfound⟩ := Parser.bind_found hfound
    cases hfound
    exact ⟨id, Nat.le_refl _, Nat.le_refl _, Nat.le_refl _⟩
  exact (steady_ite _ hlist settles_symbolAttributes.under).mono rfl

end Specializations

section Globals

variable {call : Calls} (h : Settled call)

lemma settles_mapM_id {parts : List (Parser Node)} (hparts : ∀ p ∈ parts, Settles 1 0 p) :
    Settles 0 0 (parts.mapM id) := by
  induction parts with
  | nil => exact Settles.pure []
  | cons p parts ih =>
    rw [List.mapM_cons]
    exact ((hparts p (List.mem_cons_self ..)).bind fun _ =>
      (ih fun q hq => hparts q (List.mem_cons_of_mem _ hq)).bind fun _ => Settles.pure _).mono rfl

lemma settles_inOrder (kind : Kind) {p : Parser Node} {parts : List (Parser Node)}
    (hp : Settles 1 0 p) (hparts : ∀ q ∈ parts, Settles 1 0 q) :
    Settles 1 0 (inOrder kind (p :: parts)) := by
  unfold inOrder
  rw [List.mapM_cons, bind_assoc]
  refine hp.bind (n := 0) (k := 0) fun first => ?_
  rw [bind_assoc]
  refine (settles_mapM_id hparts).bind (n := 0) (k := 0) fun others => ?_
  rw [pure_bind]
  exact Settles.branch kind (first :: others)

lemma settles_directness : Settles 1 0 directness :=
  (Settles.ite _ (Settles.numbered _ _ []) <| Settles.ite _ (Settles.numbered _ _ [])
    (Settles.refuse 1)).mono rfl

include h

lemma settles_metadata : Settles 1 0 (metadata call) := by
  refine Settles.onPeek 1 0 (by omega) fun c => ?_
  cases hkind : metadataKind? c with
  | some kind =>
    exact Settles.afterLetter (ne_dot_of_lookup hkind rfl) ((Settles.wrapped kind h.type).mono rfl)
  | none =>
    exact Settles.any <| (Settles.ite _
      (settles_inOrder _ ((Settles.protocolType h).mono rfl) (by simp)) (Settles.wrapped _ h.type)).mono rfl

lemma settles_valueWitness : Settles 3 0 (valueWitness call) := by
  refine (Settles.advance 2).bind fun code => (Settles.orRefuse _).bind fun number =>
    h.type.bind (n := 0) (k := 0) fun type => ?_
  exact Settles.numbered .valueWitness number [type]

/-- A witness is made of parts that take something. -/
lemma witness?_parts {c : Char} {kind : Kind} {parts : List (Parser Node)}
    (hwitness : witness? call c = some (kind, parts)) :
    ∃ p rest, parts = p :: rest ∧ Settles 1 0 p ∧ ∀ q ∈ rest, Settles 1 0 q := by
  have hconf : Settles 1 0 (conformance call) := (Settles.conformance h).mono rfl
  have hname : Settles 1 0 declName := Settles.declName.mono rfl
  have hprotocol : Settles 1 0 (protocolType call) := (Settles.protocolType h).mono rfl
  unfold witness? at hwitness
  split at hwitness <;> cases hwitness
  · exact ⟨_, _, rfl, h.type, by simp⟩
  · exact ⟨_, _, rfl, hconf, by simp⟩
  · exact ⟨_, _, rfl, hconf, by simp⟩
  · exact ⟨_, _, rfl, hconf, by simp⟩
  · exact ⟨_, _, rfl, h.type, by simpa using hconf⟩
  · exact ⟨_, _, rfl, h.type, by simpa using hconf⟩
  · exact ⟨_, _, rfl, hconf, by simp⟩
  · exact ⟨_, _, rfl, hconf, by simpa using hname⟩
  · exact ⟨_, _, rfl, hconf, by simpa using ⟨hname, hprotocol⟩⟩

lemma settles_witness : Settles 1 0 (witness call) := by
  have hoffset : Settles 1 0 (inOrder .fieldOffset [directness, call .entity]) :=
    settles_inOrder _ settles_directness (by simpa using h.entity.mono rfl)
  refine (Settles.ite _ hoffset <| Settles.onPeek 1 0 (by omega) fun c => ?_).mono rfl
  cases hwitness : witness? call c with
  | none => exact Settles.any (Settles.refuse 1)
  | some made =>
    obtain ⟨p, rest, hparts, hp, hrest⟩ := witness?_parts h hwitness
    have hc : c ≠ '.' := ne_dot_of_lookup hwitness rfl
    refine Settles.afterLetter hc (m := 0) ?_
    rw [hparts]
    exact (settles_inOrder _ hp hrest).mono rfl

lemma settles_reabstraction (kind : Kind) : Settles 2 0 (reabstraction call kind) :=
  (Settles.afterMark rfl (h.signature _)).bind fun signature => h.type.bind fun source =>
    h.type.bind fun target => Settles.branch kind (signature.toList ++ [source, target])

lemma settles_thunk : Settles 2 0 (thunk call) := by
  have hwitness : Settles 1 0 (inOrder .protocolWitness [conformance call, call .entity]) :=
    settles_inOrder _ ((Settles.conformance h).mono rfl) (by simpa using h.entity.mono rfl)
  exact (Settles.ite _ (settles_reabstraction h _) <| Settles.ite _ (settles_reabstraction h _) <|
    Settles.ite _ hwitness (Settles.refuse 2)).mono rfl

/-- A forwarder that has a symbol takes something. -/
def forwarderLeast (node : Node) : Nat :=
  if node.children.isEmpty then 0 else 1

omit h in
/-- The symbol of a forwarder, or nothing. -/
lemma forwarder_found {kind : Kind} {found : Bool} {limit : Int} {s s' : State} {node : Node}
    (hnode : (if found then wrapped call kind .global else branch kind []) limit s = .found node s') :
    (found = false ∧ node = .branch kind []) ∨ found = true ∧ ∃ child, node = .branch kind [child] := by
  cases found with
  | false =>
    rw [if_neg (by decide), branch_nil] at hnode
    cases hnode
    exact .inl ⟨rfl, rfl⟩
  | true =>
    rw [if_pos rfl] at hnode
    obtain ⟨child, s₁, -, hnode⟩ := Parser.bind_found hnode
    rw [branch_single] at hnode
    cases hnode
    exact .inr ⟨rfl, child, rfl⟩

/-- A forwarder without a symbol is kept only where less is left, as a symbol could begin there. -/
lemma steady_forwarder {kind : Kind} (hkind : isForwarder kind) :
    Steady (fun node => ¬OpenForwarder node) forwarderLeast (fun _ => 0)
      (do if ← accept "__T" then wrapped call kind .global else branch kind []) := by
  have hwrapped : Steady (fun node => ¬OpenForwarder node) (fun _ => 0) (fun _ => 0)
      (wrapped call kind .global) := by
    refine h.global.bind (fun child => (Settles.branch kind [child]).under)
      fun child limit s node s' hnode => ⟨fun hclosed hchild => ?_, Nat.zero_le _, ?_⟩
    · rw [branch_single] at hnode
      cases hnode
      exact hclosed (.outer hkind hchild)
    · exact ⟨Nat.le_refl _, Nat.le_refl _⟩
  refine steady_accept_open (fun _ => 0) (fun found => ?_) ?_ ?_
  · cases found with
    | true => exact hwrapped
    | false => exact (Settles.branch kind []).under
  · intro limit s node s' hnode hclosed
    obtain ⟨-, rfl⟩ | ⟨hfound, -⟩ := forwarder_found hnode
    · exact absurd (.last hkind) hclosed
    · cases hfound
  · intro found limit s node s' hnode
    obtain ⟨rfl, rfl⟩ | ⟨rfl, child, rfl⟩ := forwarder_found hnode
    · exact Nat.le_refl 0
    · exact (by decide : 1 ≤ ("__T" : Text).length)

lemma steady_partialApply :
    Steady (fun node => ¬OpenForwarder node) (fun _ => 0) (fun _ => 0) (partialApply call) := by
  have hkind : ∀ objC : Bool,
      isForwarder (if objC then .partialApplyObjCForwarder else .partialApplyForwarder) := by
    intro objC
    cases objC with
    | true => exact .inr rfl
    | false => exact .inl rfl
  refine steady_accept_open forwarderLeast (fun objC => steady_forwarder h (hkind objC)) ?_
    fun _ _ _ _ _ _ => Nat.zero_le _
  intro limit s node s' hnode hclosed
  obtain ⟨found, s₁, -, hnode⟩ := Parser.bind_found hnode
  obtain ⟨-, rfl⟩ | ⟨-, child, rfl⟩ := forwarder_found hnode
  · exact absurd (.last (hkind false)) hclosed
  · exact (by decide : ("o" : Text).length ≤ 1)

lemma steady_globalBody :
    Steady (fun node => ¬OpenForwarder node) (fun _ => 2) (fun _ => 0) (globalBody call) :=
  (steady_unlessEnd <| steady_ite _ (settles_metadata h).under <|
    steady_ite _ (steady_partialApply h) <| steady_ite _ (Settles.wrapped _ h.type).under <|
    steady_ite _ (settles_valueWitness h).under <| steady_ite _ (settles_witness h).under <|
    steady_ite _ (settles_thunk h).under h.entity.under).mono rfl

end Globals

/-- Productions are settled if the productions inside them are. -/
lemma settled_body {call : Calls} (h : Settled call) : Settled (body call) where
  type := Settles.wrapped _ h.bareType
  bareType := Settles.bareType h
  context := Settles.contextBody h
  entity := Settles.entityBody h
  global := steady_globalBody h
  archetype := Settles.archetypeBody h
  boundArguments := Settles.boundArgumentsBody h
  signature := Settles.signatureBody h
  implFunction := Settles.implFunctionBody h

/-- Within any budget the productions are settled by the bytes that they take. -/
theorem settled_parse (budget : Nat) : Settled (parse budget) := by
  induction budget with
  | zero =>
    exact ⟨steady_stop _, steady_stop _, steady_stop _, steady_stop _, steady_stop _, steady_stop _,
      fun _ => steady_stop _, fun _ => steady_stop _, steady_stop _⟩
  | succ budget ih => exact settled_body ih

end SwiftMangling.Grammar
