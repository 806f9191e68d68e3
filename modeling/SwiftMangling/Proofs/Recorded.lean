import SwiftMangling.Proofs.ReadingOrder

/-!
# What is recorded, and what a symbol is about

Only modules, declared types and associated types are recorded, so that a reference finds one of
these. It follows that the global of a symbol is never the node that holds trailing bytes.
-/

namespace SwiftMangling.Grammar

variable {α β : Type}

section Kinds

/-- Every recorded node has one of the kinds that are recorded. -/
def AllRecorded (table : References Node) : Prop :=
  ∀ node ∈ table, isRecordedKind node.kind

/-- What is recorded goes on to be of the kinds that are recorded. -/
def KeepsRecorded : OutcomeRelation :=
  fun _ _ s o _ => AllRecorded s.recorded →
    ∀ s', (o = .refused s' ∨ ∃ value, o = .found value s') → AllRecorded s'.recorded

lemma keepsRecorded_eq :
    KeepsRecorded = KeepsTo fun s s' => AllRecorded s.recorded → AllRecorded s'.recorded := by
  funext α limit s o o'
  refine propext ⟨fun h s' hs' hs => h hs s' ?_, fun h hs s' hs' => h s' ?_ hs⟩
  · exact Outcome.state?_eq_some_iff.1 hs'
  · exact Outcome.state?_eq_some_iff.2 hs'

lemma readingOrder_allRecorded :
    ReadingOrder fun s s' => AllRecorded s.recorded → AllRecorded s'.recorded where
  refl _ := id
  trans h h' hs := h' (h hs)
  take _ _ := id
  record _ table node hnode hs other hother := by
    obtain hother | hother := List.mem_append.1 hother
    · exact hs other hother
    · rw [List.mem_singleton.1 hother]
      exact hnode

lemma keepsRecorded : SymbolCongruence (Related KeepsRecorded) := by
  rw [keepsRecorded_eq]
  refine ReadingOrder.symbolCongruence readingOrder_allRecorded fun s _ node hnode => ?_
  cases hnode

/-- What a production finds where every recorded node is of the kinds that are recorded. -/
def Yields (p : Parser Node) (holds : Node → Prop) : Prop :=
  ∀ limit s node s', AllRecorded s.recorded → p limit s = .found node s' → holds node

variable {holds : Node → Prop}

lemma Yields.weaken {holds' : Node → Prop} {p : Parser Node} (hp : Yields p holds)
    (h : ∀ node, holds node → holds' node) : Yields p holds' :=
  fun limit s node s' hs hfound => h node (hp limit s node s' hs hfound)

/-- The last parser decides, if those before keep to the kinds that are recorded. -/
lemma yields_bind {p : Parser α} {f : α → Parser Node} (hp : Related KeepsRecorded p p)
    (hf : ∀ value, Yields (f value) holds) : Yields (p >>= f) holds := by
  intro limit s node s' hs hfound
  obtain ⟨value, s₁, hfirst, hsecond⟩ := Parser.bind_found hfound
  exact hf value limit s₁ node s' (hp limit s hs s₁ (.inr ⟨value, hfirst⟩)) hsecond

lemma yields_pure {node : Node} (h : holds node) : Yields (pure node) holds := by
  intro limit s node' s' _ hfound
  cases hfound
  exact h

lemma yields_refuse : Yields refuse holds := by
  intro limit s node s' _ hfound
  cases hfound

lemma yields_ite (mark : Text) {p q : Parser Node} (hp : Yields p holds) (hq : Yields q holds) :
    Yields (do if ← accept mark then p else q) holds := by
  have hR := keepsRecorded
  refine yields_bind (hR.accept mark) fun found => ?_
  cases found with
  | true => exact hp
  | false => exact hq

/-- A substitution is a well-known module or type, or a recorded node. -/
lemma yields_substitution : Yields substitution fun node => isRecordedKind node.kind := by
  have hR := keepsRecorded
  refine yields_bind hR.atEnd fun ended => ?_
  cases ended with
  | true => exact yields_refuse
  | false =>
    refine yields_ite _ (yields_pure rfl) <| yields_ite _ (yields_pure rfl) <|
      yields_bind hR.peek fun c => ?_
    cases htype : standardType? c with
    | some type =>
      refine yields_bind hR.next fun _ => yields_pure ?_
      unfold standardType? at htype
      split at htype <;> cases htype <;> rfl
    | none =>
      refine yields_bind hR.index fun position limit s node s' hs hfound => ?_
      unfold recalled at hfound
      split at hfound
      · next node' hnode =>
        cases hfound
        exact hs _ (List.mem_of_getElem? hnode)
      · cases hfound

variable {call : Calls} (h : ∀ production, Related KeepsRecorded (call production) (call production))
include h

lemma yields_declaration {kind : Kind} (hkind : isRecordedKind kind) :
    Yields (declaration call kind) fun node => isRecordedKind node.kind := by
  have hR := keepsRecorded
  refine yields_bind (h .context) fun context => yields_bind hR.declName fun name => ?_
  rw [branch_pair, pure_bind]
  exact yields_bind (hR.record _ hkind) fun _ => yields_pure hkind

lemma yields_nominal : Yields (nominal call) fun node => isRecordedKind node.kind :=
  yields_ite _ yields_substitution <| yields_ite _ (yields_declaration h rfl) <|
    yields_ite _ (yields_declaration h rfl) <| yields_ite _ (yields_declaration h rfl) <|
    yields_ite _ (yields_declaration h rfl) yields_refuse

end Kinds

section Globals

/-- Whether a node is not the one that holds trailing bytes. -/
def NotSuffix (node : Node) : Prop :=
  node.kind ≠ .suffix

lemma notSuffix_of_isRecordedKind {node : Node} (h : isRecordedKind node.kind) : NotSuffix node := by
  intro hkind
  rw [hkind] at h
  exact absurd h (by decide)

lemma yields_notSuffix {kind : Kind} (hkind : kind ≠ .suffix) (children : List Node) :
    Yields (branch kind (children.map some)) NotSuffix := by
  rw [branch_map_some]
  exact yields_pure hkind

/-- The kind of an entity by what follows its context. -/
lemma entityName_ne_suffix {c : Char} :
    (∀ kind, entityName? c = some (.untyped kind) → kind ≠ .suffix) ∧
      (∀ kind, entityName? c = some (.typed kind) → kind ≠ .suffix) ∧
      (∀ kind, entityName? c = some (.accessor kind) → kind ≠ .suffix) ∧
      (∀ kind, entityName? c = some (.closure kind) → kind ≠ .suffix) ∧
      ∀ kind? letter kind, entityName? c = some (.addressor kind?) → kind? letter = some kind →
        kind ≠ .suffix := by
  unfold entityName?
  refine ⟨?_, ?_, ?_, ?_, ?_⟩
  · intro kind hname
    split at hname <;> cases hname <;> decide
  · intro kind hname
    split at hname <;> cases hname <;> decide
  · intro kind hname
    split at hname <;> cases hname <;> decide
  · intro kind hname
    split at hname <;> cases hname <;> decide
  · intro kind? letter kind hname hkind
    split at hname <;> cases hname
    · unfold mutableAddressor? at hkind
      split at hkind <;> cases hkind <;> decide
    · unfold addressor? at hkind
      split at hkind <;> cases hkind <;> decide

variable {call : Calls} (h : ∀ production, Related KeepsRecorded (call production) (call production))

lemma yields_inOrder {kind : Kind} (hkind : kind ≠ .suffix) {parts : List (Parser Node)}
    (hparts : List.Forall₂ (Related KeepsRecorded) parts parts) :
    Yields (inOrder kind parts) NotSuffix :=
  have hR := keepsRecorded
  yields_bind (hR.mapM_id hparts) fun _ => yields_notSuffix hkind _

include h

lemma yields_wrapped {kind : Kind} (hkind : kind ≠ .suffix) (production : Production) :
    Yields (wrapped call kind production) NotSuffix :=
  yields_bind (h production) fun child => yields_notSuffix hkind [child]

lemma yields_accessor {kind : Kind} (hkind : kind ≠ .suffix) (context : Node) :
    Yields (accessor call kind context) NotSuffix :=
  have hR := keepsRecorded
  yields_bind hR.declName fun name =>
    yields_bind (hR.accessedNode h context name) fun accessed =>
    yields_notSuffix hkind [accessed]

lemma yields_entityInContext {kind : Kind} (hkind : kind ≠ .suffix) (context : Node) :
    Yields (entityInContext call kind context) NotSuffix := by
  have hR := keepsRecorded
  refine yields_bind hR.peek fun c => ?_
  obtain ⟨huntyped, htyped, haccessor, hclosure, haddressor⟩ := entityName_ne_suffix (c := c)
  cases hname : entityName? c with
  | none =>
    by_cases hinit : kind = .initializer
    · simp only [if_pos hinit]
      refine yields_ite _ ?_ <| yields_ite _ (yields_notSuffix (by decide) [context]) yields_refuse
      exact yields_bind hR.indexNode fun name =>
        yields_notSuffix (by decide) [context, name]
    · simp only [if_neg hinit]
      exact yields_bind hR.declName fun name => yields_bind (h .type) fun type =>
        yields_notSuffix hkind [context, name, type]
  | some name =>
    cases name with
    | untyped kind =>
      exact yields_bind hR.next fun _ => yields_notSuffix (huntyped kind hname) [context]
    | typed kind =>
      exact yields_bind hR.next fun _ => yields_bind (h .type) fun type =>
        yields_notSuffix (htyped kind hname) [context, type]
    | addressor kind? =>
      refine yields_bind hR.next fun _ => yields_bind hR.next fun letter => ?_
      cases hletter : kind? letter with
      | none => exact yields_refuse
      | some kind => exact yields_accessor h (haddressor kind? letter kind hname hletter) context
    | accessor kind =>
      exact yields_bind hR.next fun _ => yields_accessor h (haccessor kind hname) context
    | closure kind =>
      exact yields_bind hR.next fun _ => yields_bind hR.indexNode fun name =>
        yields_bind (h .type) fun type =>
        yields_notSuffix (hclosure kind hname) [context, name, type]

lemma yields_entityBody : Yields (entityBody call) NotSuffix := by
  have hR := keepsRecorded
  refine yields_bind (hR.accept _) fun isStatic => yields_bind hR.peek fun c => ?_
  cases hkind : entityKind? c with
  | none => exact (yields_nominal h).weaken fun _ => notSuffix_of_isRecordedKind
  | some kind =>
    have hne : kind ≠ .suffix := by
      unfold entityKind? at hkind
      split at hkind <;> cases hkind <;> decide
    refine yields_bind hR.next fun _ => yields_bind (h .context) fun context => ?_
    cases isStatic with
    | true =>
      exact yields_bind (hR.entityInContext h kind context) fun entity =>
        yields_notSuffix (by decide) [entity]
    | false =>
      simp only [Bool.false_eq_true, if_false, bind_pure]
      exact yields_entityInContext h hne context

lemma yields_metadata : Yields (metadata call) NotSuffix := by
  have hR := keepsRecorded
  refine yields_bind hR.peek fun c => ?_
  cases hkind : metadataKind? c with
  | some kind =>
    have hne : kind ≠ .suffix := by
      unfold metadataKind? at hkind
      split at hkind <;> cases hkind <;> decide
    exact yields_bind hR.next fun _ => yields_wrapped h hne _
  | none =>
    exact yields_ite _ (yields_inOrder (by decide) (.cons (hR.protocolType h) .nil))
      (yields_wrapped h (by decide) _)

lemma yields_witness : Yields (witness call) NotSuffix := by
  have hR := keepsRecorded
  have hoffset : List.Forall₂ (Related KeepsRecorded) [directness, call .entity]
      [directness, call .entity] := .cons hR.directness (.cons (h .entity) .nil)
  refine yields_ite _ (yields_inOrder (by decide) hoffset) <| yields_bind hR.peek fun c => ?_
  obtain ⟨hnone, -⟩ | ⟨kind, parts, parts', hc, hc', hparts⟩ := hR.witness? h c
  · rw [hnone]
    exact yields_refuse
  · obtain ⟨-, rfl⟩ := Prod.mk.inj (Option.some.inj (hc.symm.trans hc'))
    have hne : kind ≠ .suffix := by
      unfold witness? at hc
      split at hc <;> cases hc <;> decide
    rw [hc]
    exact yields_bind hR.next fun _ => yields_inOrder hne hparts

lemma yields_thunk : Yields (thunk call) NotSuffix := by
  have hR := keepsRecorded
  have hreabstraction : ∀ kind, kind ≠ .suffix → Yields (reabstraction call kind) NotSuffix :=
    fun kind hkind => yields_bind (hR.afterMark _ (h _)) fun signature =>
      yields_bind (h .type) fun source => yields_bind (h .type) fun target =>
      yields_notSuffix hkind (signature.toList ++ [source, target])
  exact yields_ite _ (hreabstraction _ (by decide)) <| yields_ite _ (hreabstraction _ (by decide)) <|
    yields_ite _ (yields_inOrder (by decide) (.cons (hR.conformance h)
      (.cons (h .entity) .nil))) yields_refuse

lemma yields_partialApply : Yields (partialApply call) NotSuffix := by
  have hR := keepsRecorded
  unfold partialApply
  refine yields_bind (hR.accept _) fun objC => ?_
  cases objC with
  | true => exact yields_ite _ (yields_wrapped h (by decide) _) (yields_notSuffix (by decide) [])
  | false => exact yields_ite _ (yields_wrapped h (by decide) _) (yields_notSuffix (by decide) [])

lemma yields_valueWitness : Yields (valueWitness call) NotSuffix := by
  have hR := keepsRecorded
  refine yields_bind (hR.advance 2) fun code => yields_bind (hR.orRefuse _)
    fun number => yields_bind (h .type) fun type => ?_
  exact yields_pure nofun

lemma yields_globalBody (hentity : Yields (call .entity) NotSuffix) :
    Yields (globalBody call) NotSuffix := by
  have hR := keepsRecorded
  refine yields_bind hR.atEnd fun ended => ?_
  cases ended with
  | true => exact yields_refuse
  | false =>
    exact yields_ite _ (yields_metadata h) <| yields_ite _ (yields_partialApply h) <|
      yields_ite _ (yields_wrapped h (by decide) _) <| yields_ite _ (yields_valueWitness h) <|
      yields_ite _ (yields_witness h) <| yields_ite _ (yields_thunk h) hentity

end Globals

/-- Reading keeps to the kinds that are recorded. -/
theorem parse_keepsRecorded (budget : Nat) (production : Production) :
    Related KeepsRecorded (parse budget production) (parse budget production) := by
  rw [keepsRecorded_eq]
  exact ReadingOrder.parse readingOrder_allRecorded budget production

/-- The global of a symbol is not the node that holds trailing bytes. -/
theorem parse_global_notSuffix (budget : Nat) : Yields (parse budget .global) NotSuffix := by
  cases budget with
  | zero => exact fun _ _ _ _ _ h => by cases h
  | succ budget =>
    apply yields_globalBody (parse_keepsRecorded budget)
    cases budget with
    | zero => exact fun _ _ _ _ _ h => by cases h
    | succ budget => exact yields_entityBody (parse_keepsRecorded budget)

end SwiftMangling.Grammar
