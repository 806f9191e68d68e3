import SwiftMangling.Proofs.GrammarCongruence

/-!
# Reading goes one way

No rule of the grammar goes back in the bytes, and none removes or changes what is recorded: it is only
added to. This holds where a rule is refused as well as where it finds something. The table is emptied
after each specialization of a symbol, and nowhere else.
-/

namespace SwiftMangling.Grammar

/-- The state that an outcome leaves behind. -/
def Outcome.state? {α : Type} : Outcome α → Option State
  | .found _ s => some s
  | .refused s => some s
  | .stopped _ => none

lemma Outcome.state?_eq_some_iff {α : Type} {o : Outcome α} {s : State} :
    o.state? = some s ↔ o = .refused s ∨ ∃ value, o = .found value s := by
  cases o <;> simp [Outcome.state?]

/-- An order of states that reading keeps to: bytes are taken from the front, and nodes of some kinds are
recorded behind the others. -/
structure ReadingOrder (order : State → State → Prop) : Prop where
  refl : ∀ s, order s s
  trans : ∀ {s s₁ s₂ : State}, order s s₁ → order s₁ s₂ → order s s₂
  take : ∀ {bytes rest : Bytes} (table : References Node), rest <:+ bytes →
    order ⟨bytes, table⟩ ⟨rest, table⟩
  record : ∀ (bytes : Bytes) (table : References Node) (node : Node), isRecordedKind node.kind →
    order ⟨bytes, table⟩ ⟨bytes, table.record node⟩

/-- Every state that is left behind comes after the first one. -/
def KeepsTo (order : State → State → Prop) : OutcomeRelation :=
  fun _ _ s o _ => ∀ s', o.state? = some s' → order s s'

section Orders

variable {α : Type} {order : State → State → Prop}

/-- A parser that does nothing but take bytes from the front. -/
def OnlyTakes (p : Parser α) : Prop :=
  ∀ limit s s', (p limit s).state? = some s' → s'.unread <:+ s.unread ∧ s'.recorded = s.recorded

lemma OnlyTakes.keepsTo {p : Parser α} (hp : OnlyTakes p) (ho : ReadingOrder order) :
    Related (KeepsTo order) p p := by
  rintro limit ⟨bytes, table⟩ ⟨rest, table'⟩ hs'
  obtain ⟨hrest, rfl⟩ := hp limit _ _ hs'
  exact ho.take _ hrest

lemma onlyTakes_of_found {p : Parser α} (h : ∀ limit s, ∃ value rest, p limit s =
    .found value ⟨rest, s.recorded⟩ ∧ rest <:+ s.unread) : OnlyTakes p := by
  intro limit s s' hs'
  obtain ⟨value, rest, hfound, hrest⟩ := h limit s
  rw [hfound] at hs'
  cases hs'
  exact ⟨hrest, rfl⟩

lemma onlyTakes_accept (mark : Text) : OnlyTakes (accept mark) := by
  refine onlyTakes_of_found fun limit s => ?_
  unfold accept
  cases hstrip : Bytes.stripMark? (mark.map Fin.val) s.unread with
  | none => exact ⟨false, s.unread, rfl, List.suffix_rfl⟩
  | some rest =>
    obtain ⟨front, -, hunread⟩ := Bytes.stripMark?_append hstrip
    exact ⟨true, rest, rfl, ⟨front, hunread⟩⟩

lemma onlyTakes_natural : OnlyTakes natural := by
  intro limit s s' hs'
  have hrest : (Bytes.spanDigits s.unread).2 <:+ s.unread := List.dropWhile_suffix _
  unfold natural at hs'
  split at hs'
  · cases hs'
    exact ⟨List.suffix_rfl, rfl⟩
  · next digits rest _ hspan =>
    rw [hspan] at hrest
    split at hs' <;> cases hs'
    · exact ⟨hrest, rfl⟩
    · exact ⟨hrest, rfl⟩

lemma onlyTakes_peek : OnlyTakes peek := by
  refine onlyTakes_of_found fun limit s => ?_
  unfold peek
  split
  · exact ⟨_, _, rfl, List.suffix_rfl⟩
  · exact ⟨_, _, rfl, List.suffix_rfl⟩

lemma onlyTakes_next : OnlyTakes next := by
  rintro limit ⟨bytes, table⟩ s' hs'
  cases bytes with
  | nil =>
    cases hs'
    exact ⟨List.suffix_rfl, rfl⟩
  | cons b bytes =>
    cases hs'
    exact ⟨List.suffix_cons .., rfl⟩

lemma onlyTakes_advance (amount : Nat) : OnlyTakes (advance amount) := by
  intro limit s s' hs'
  unfold advance at hs'
  split at hs' <;> cases hs'
  · exact ⟨List.drop_suffix _ _, rfl⟩
  · exact ⟨List.suffix_rfl, rfl⟩

lemma onlyTakes_readUntil (mark : Text) : OnlyTakes (readUntil mark) := by
  intro limit s s' hs'
  unfold readUntil at hs'
  split at hs'
  · next before rest hbreak =>
    cases hs'
    exact ⟨⟨before, Bytes.breakMark?_append hbreak⟩, rfl⟩
  · cases hs'
    exact ⟨List.nil_suffix, rfl⟩

lemma onlyTakes_recalled (position : Nat) : OnlyTakes (recalled position) := by
  intro limit s s' hs'
  unfold recalled at hs'
  split at hs' <;> cases hs'
  · exact ⟨List.suffix_rfl, rfl⟩
  · exact ⟨List.suffix_rfl, rfl⟩

/-- A sequence leaves the state in which its first parser refuses, or the one that its second leaves. -/
lemma state?_bind {β : Type} {p : Parser α} {f : α → Parser β} {limit : Int} {s s' : State}
    (h : ((p >>= f) limit s).state? = some s') :
    p limit s = .refused s' ∨
      ∃ value s₁, p limit s = .found value s₁ ∧ (f value limit s₁).state? = some s' := by
  rw [Parser.bind_apply] at h
  cases hp : p limit s with
  | found value s₁ =>
    rw [hp] at h
    exact .inr ⟨value, s₁, rfl, h⟩
  | refused s₁ =>
    rw [hp] at h
    cases h
    exact .inl rfl
  | stopped why =>
    rw [hp] at h
    cases h

namespace ReadingOrder

variable (ho : ReadingOrder order)
include ho

lemma sequencing : Sequencing (Related (KeepsTo order)) where
  pure value := (onlyTakes_of_found fun _ _ => ⟨value, _, rfl, List.suffix_rfl⟩).keepsTo ho
  bind {α β p q f g} hp hf := by
    intro limit s s' hs'
    obtain hfirst | ⟨value, s₁, hfirst, hsecond⟩ := state?_bind hs'
    · exact hp limit s s' (by rw [hfirst]; rfl)
    · exact ho.trans (hp limit s s₁ (by rw [hfirst]; rfl)) (hf value limit s₁ s' hsecond)
  refuse := by
    intro α limit s s' hs'
    cases hs'
    exact ho.refl s
  accept mark := (onlyTakes_accept mark).keepsTo ho
  natural := OnlyTakes.keepsTo onlyTakes_natural ho

lemma tolerant : Tolerant (Related (KeepsTo order)) where
  toSequencing := ho.sequencing
  iterate_of_rounds := Related.iterate_of_rounds
  atEnd := (onlyTakes_of_found fun _ _ => ⟨_, _, rfl, List.suffix_rfl⟩).keepsTo ho
  peek := OnlyTakes.keepsTo onlyTakes_peek ho
  next := OnlyTakes.keepsTo onlyTakes_next ho
  advance amount := (onlyTakes_advance amount).keepsTo ho
  readUntil mark := (onlyTakes_readUntil mark).keepsTo ho
  takeRest := (onlyTakes_of_found fun _ _ => ⟨_, _, rfl, List.nil_suffix⟩).keepsTo ho
  record node hnode := by
    intro limit s s' hs'
    cases hs'
    exact ho.record s.unread s.recorded node hnode
  recalled position := (onlyTakes_recalled position).keepsTo ho
  genericParamIndex := by
    refine ho.sequencing.paramIndex fun limit s s' hs' => ?_
    cases hs'
  tolerate {α p q} hp := by
    intro limit s s' hs'
    apply hp limit s s'
    unfold tolerate at hs'
    cases houtcome : p limit s <;> rw [houtcome] at hs' <;> exact hs'

/-- Where nothing is recorded any more comes later as well, a whole symbol keeps to the order. -/
lemma symbolCongruence (hforget : ∀ s : State, order s { s with recorded := [] }) :
    SymbolCongruence (Related (KeepsTo order)) where
  toCongruence := ho.tolerant.toCongruence
  tolerate := ho.tolerant.tolerate
  forget := by
    intro limit s s' hs'
    cases hs'
    exact hforget s

lemma parse (budget : Nat) (production : Production) :
    Related (KeepsTo order) (parse budget production) (parse budget production) := by
  refine ho.tolerant.parse (fun p limit s s' hs' => ?_) (Nat.le_refl budget) production
  cases hs'

end ReadingOrder

end Orders

/-- The rules of the grammar, in terms of the productions inside them. All of them are here but those
around the global of a symbol that go from one specialization to the next. -/
inductive Rule (call : Calls) : {α : Type} → Parser α → Prop
  | production (production : Production) : Rule call (call production)
  | natural : Rule call natural
  | index : Rule call index
  | indexNode : Rule call indexNode
  | builtinSize : Rule call builtinSize
  | identifier (required : Option Kind) : Rule call (identifier required)
  | declName : Rule call declName
  | substitution : Rule call substitution
  | moduleName : Rule call moduleName
  | declaration (kind : Kind) (hkind : isRecordedKind kind) : Rule call (declaration call kind)
  | protocolInContext (context : Node) : Rule call (protocolInContext context)
  | protocol : Rule call (protocol call)
  | protocolType : Rule call (protocolType call)
  | protocolList : Rule call (protocolList call)
  | conformance : Rule call (conformance call)
  | nominal : Rule call (nominal call)
  | argumentList : Rule call (argumentList call)
  | boundGeneric : Rule call (boundGeneric call)
  | accessor (kind : Kind) (context : Node) : Rule call (accessor call kind context)
  | entityInContext (kind : Kind) (context : Node) : Rule call (entityInContext call kind context)
  | genericParamIndex : Rule call genericParamIndex
  | associatedTypeRef : Rule call (associatedTypeRef call)
  | memberType (base : Node) : Rule call (memberType call base)
  | simpleMemberType : Rule call (simpleMemberType call)
  | compoundMemberType : Rule call (compoundMemberType call)
  | dependentType : Rule call (dependentType call)
  | constrainedType : Rule call (constrainedType call)
  | layoutRequirement (constrained : Node) : Rule call (layoutRequirement constrained)
  | conformanceConstraint : Rule call (conformanceConstraint call)
  | requirement : Rule call (requirement call)
  | paramCounts : Rule call paramCounts
  | requirements : Rule call (requirements call)
  | associatedType (root : Node) : Rule call (associatedType root)
  | builtinType : Rule call builtinType
  | tupleElement : Rule call (tupleElement call)
  | tuple (variadic : Bool) : Rule call (tuple call variadic)
  | functionType (kind : Kind) : Rule call (functionType call kind)
  | wrapped (kind : Kind) (production : Production) : Rule call (wrapped call kind production)
  | representedMetatype (kind : Kind) : Rule call (representedMetatype call kind)
  | boxField : Rule call (boxField call)
  | boxWithLayout : Rule call (boxWithLayout call)
  | extendedType : Rule call (extendedType call)
  | genericType : Rule call (genericType call)
  | convention (place : Convention → Option String) : Rule call (convention place)
  | calleeConvention : Rule call calleeConvention
  | functionAttributes : Rule call functionAttributes
  | conventionType (kind : Kind) (place : Convention → Option String) :
    Rule call (conventionType call kind place)
  | parameter : Rule call (parameter call)
  | result (earlier : List Node) : Rule call (result call earlier)
  | constantName (what : ParamChange) : Rule call (constantName what)
  | constantLiteral (what : ParamChange) : Rule call (constantLiteral what)
  | constantChange : Rule call constantChange
  | closureChange : Rule call (closureChange call)
  | paramChange : Rule call (paramChange call)
  | signatureParams : Rule call (signatureParams call)
  | genericParamNode : Rule call (genericParamNode call)
  | genericParams : Rule call (genericParams call)
  | passNumber : Rule call passNumber
  | specialization : Rule call (specialization call)
  | directness : Rule call directness
  | metadata : Rule call (metadata call)
  | valueWitness : Rule call (valueWitness call)
  | witness : Rule call (witness call)
  | reabstraction (kind : Kind) : Rule call (reabstraction call kind)
  | thunk : Rule call (thunk call)
  | partialApply : Rule call (partialApply call)
  | symbolAttributes : Rule call symbolAttributes
  | trailing : Rule call trailing

/-- A rule is related to itself if the productions inside it are. -/
lemma Rule.related {R : ParserRelation} (hR : Tolerant R) {call : Calls}
    (h : ∀ production, R (call production) (call production)) {α : Type} {p : Parser α}
    (hp : Rule call p) : R p p := by
  cases hp with
  | production production => exact h production
  | natural => exact hR.natural
  | index => exact hR.index
  | indexNode => exact hR.indexNode
  | builtinSize => exact hR.builtinSize
  | identifier required => exact hR.identifier required
  | declName => exact hR.declName
  | substitution => exact hR.substitution
  | moduleName => exact hR.moduleName
  | declaration kind hkind => exact hR.declaration h kind hkind
  | protocolInContext context => exact hR.protocolInContext context
  | protocol => exact hR.protocol h
  | protocolType => exact hR.protocolType h
  | protocolList => exact hR.protocolList h
  | conformance => exact hR.conformance h
  | nominal => exact hR.nominal h
  | argumentList => exact hR.argumentList h
  | boundGeneric => exact hR.boundGeneric h
  | accessor kind context => exact hR.accessor h kind context
  | entityInContext kind context => exact hR.entityInContext h kind context
  | genericParamIndex => exact hR.genericParamIndex
  | associatedTypeRef => exact hR.associatedTypeRef h
  | memberType base => exact hR.memberType h base
  | simpleMemberType => exact hR.simpleMemberType h
  | compoundMemberType => exact hR.compoundMemberType h
  | dependentType => exact hR.dependentType h
  | constrainedType => exact hR.constrainedType h
  | layoutRequirement constrained => exact hR.layoutRequirement constrained
  | conformanceConstraint => exact hR.conformanceConstraint h
  | requirement => exact hR.requirement h
  | paramCounts => exact hR.paramCounts
  | requirements => exact hR.requirements h
  | associatedType root => exact hR.associatedType root
  | builtinType => exact hR.builtinType
  | tupleElement => exact hR.tupleElement h
  | tuple variadic => exact hR.tuple h variadic
  | functionType kind => exact hR.functionType h kind
  | wrapped kind production => exact hR.wrapped h kind production
  | representedMetatype kind => exact hR.representedMetatype h kind
  | boxField => exact hR.boxField h
  | boxWithLayout => exact hR.boxWithLayout h
  | extendedType => exact hR.extendedType h
  | genericType => exact hR.genericType h
  | convention place => exact hR.convention place
  | calleeConvention => exact hR.calleeConvention
  | functionAttributes => exact hR.functionAttributes
  | conventionType kind place => exact hR.conventionType h kind place
  | parameter => exact hR.parameter h
  | result earlier => exact hR.result h earlier
  | constantName what => exact hR.constantName what
  | constantLiteral what => exact hR.constantLiteral what
  | constantChange => exact hR.constantChange
  | closureChange => exact hR.closureChange h
  | paramChange => exact hR.paramChange h
  | signatureParams => exact hR.signatureParams h
  | genericParamNode => exact hR.genericParamNode h
  | genericParams => exact hR.genericParams h
  | passNumber => exact hR.passNumber
  | specialization => exact hR.specialization h
  | directness => exact hR.directness
  | metadata => exact hR.metadata h
  | valueWitness => exact hR.valueWitness h
  | witness => exact hR.witness h
  | reabstraction kind => exact hR.reabstraction h kind
  | thunk => exact hR.thunk h
  | partialApply => exact hR.partialApply h
  | symbolAttributes => exact hR.symbolAttributes
  | trailing => exact hR.trailing

end SwiftMangling.Grammar
