import SwiftMangling.Grammar.Budget
import Mathlib.Tactic.Common

/-!
# Relations that reading in sequence preserves

A property of what parsers come to is proved of the whole grammar in two steps: it holds of the
parsers that look at the state, and reading in sequence preserves it. The second step is the same
for every property, so it is done once, for a relation between two parsers. This file has the part
that does not depend on the grammar.
-/

namespace SwiftMangling.Grammar

/-- A relation between two outcomes that come from one limit and one state. -/
abbrev OutcomeRelation := (α : Type) → Int → State → Outcome α → Outcome α → Prop

/-- What two parsers come to is related from every state. -/
def Related (R : OutcomeRelation) {α : Type} (p q : Parser α) : Prop :=
  ∀ limit s, R α limit s (p limit s) (q limit s)

/-- A relation between two parsers. It need not be about one state: the parsers may be compared from
different ones. -/
abbrev ParserRelation :=
  {α : Type} → Parser α → Parser α → Prop

/-- The kinds of nodes that are recorded: modules, declared types and associated types. -/
def isRecordedKind (kind : Kind) : Bool :=
  kind ∈ [.moduleName, .classDecl, .structureDecl, .enumDecl, .protocolDecl, .typeAlias,
    .dependentAssociatedTypeRef, .associatedTypeRef]

/-- A relation that reading in sequence preserves, with the marks and numbers that are read. -/
structure Sequencing (R : ParserRelation) : Prop where
  pure : ∀ {α : Type} (value : α), R (Pure.pure value) (Pure.pure value)
  bind : ∀ {α β : Type} {p q : Parser α} {f g : α → Parser β}, R p q →
    (∀ value, R (f value) (g value)) → R (p >>= f) (q >>= g)
  refuse : ∀ {α : Type}, R (refuse : Parser α) refuse
  accept : ∀ mark, R (accept mark) (accept mark)
  natural : R natural natural

/-- A relation that holds of the parsers that look at the state and that reading in sequence
preserves. The parser of generic parameters is among them, as it stops at a depth that cannot be
written. A loop is related if it is for any number of rounds. -/
structure Congruence (R : ParserRelation) : Prop extends Sequencing R where
  iterate_of_rounds : ∀ {α β : Type} {step step' : α → Parser (Round α β)} {value : α},
    (∀ count, R (rounds step count value) (rounds step' count value)) →
    R (iterate step value) (iterate step' value)
  atEnd : R atEnd atEnd
  peek : R peek peek
  next : R next next
  advance : ∀ amount, R (advance amount) (advance amount)
  readUntil : ∀ mark, R (readUntil mark) (readUntil mark)
  takeRest : R takeRest takeRest
  record : ∀ node, isRecordedKind node.kind → R (record node) (record node)
  recalled : ∀ position, R (recalled position) (recalled position)
  genericParamIndex : R genericParamIndex genericParamIndex

/-- A relation that is also preserved where a refusal is survived, as it is in a specialization. -/
structure Tolerant (R : ParserRelation) : Prop extends Congruence R where
  tolerate : ∀ {α : Type} {p q : Parser α}, R p q → R (tolerate p) (tolerate q)

/-- A relation that is also preserved where a refusal is survived and where what is recorded is
forgotten. Only what stands before the global of a symbol does this, and no production. -/
structure SymbolCongruence (R : ParserRelation) : Prop extends Congruence R where
  tolerate : ∀ {α : Type} {p q : Parser α}, R p q → R (tolerate p) (tolerate q)
  forget : R forget forget

lemma SymbolCongruence.tolerant {R : ParserRelation} (hR : SymbolCongruence R) : Tolerant R where
  toCongruence := hR.toCongruence
  tolerate := hR.tolerate

/-- A loop makes a number of rounds that the state decides. -/
lemma Related.iterate_of_rounds {R : OutcomeRelation} {α β : Type}
    {step step' : α → Parser (Round α β)} {value : α}
    (h : ∀ count, Related R (rounds step count value) (rounds step' count value)) :
    Related R (iterate step value) (iterate step' value) :=
  fun limit s => h (s.unread.length + 1) limit s

namespace Sequencing

variable {R : ParserRelation} {α : Type}

lemma ite (hR : Sequencing R) (mark : Text) {p p' q q' : Parser α} (hp : R p p') (hq : R q q') :
    R (do if ← Grammar.accept mark then p else q)
      (do if ← Grammar.accept mark then p' else q') := by
  refine hR.bind (hR.accept mark) fun found => ?_
  cases found with
  | true => exact hp
  | false => exact hq

lemma orRefuse (hR : Sequencing R) (value : Option α) :
    R (Grammar.orRefuse value) (Grammar.orRefuse value) := by
  cases value with
  | none => exact hR.refuse
  | some value => exact hR.pure _

lemma demand (hR : Sequencing R) (mark : Text) : R (Grammar.demand mark) (Grammar.demand mark) :=
  hR.ite mark (hR.pure _) hR.refuse

lemma afterMark (hR : Sequencing R) (mark : Text) {p q : Parser Node} (h : R p q) :
    R (Grammar.afterMark mark p) (Grammar.afterMark mark q) :=
  hR.ite mark (hR.bind h fun _ => hR.pure _) (hR.pure _)

lemma index (hR : Sequencing R) : R Grammar.index Grammar.index :=
  hR.ite _ (hR.pure _)
    (hR.bind hR.natural fun _ => hR.bind (hR.demand _) fun _ => hR.pure _)

lemma indexNode (hR : Sequencing R) : R Grammar.indexNode Grammar.indexNode :=
  hR.bind hR.index fun _ => hR.pure _

lemma builtinSize (hR : Sequencing R) : R Grammar.builtinSize Grammar.builtinSize :=
  hR.bind hR.natural fun _ => hR.bind (hR.demand _) fun _ => hR.pure _

/-- The parser of generic parameters is related to itself if an overlong number is. -/
lemma paramIndex (hR : Sequencing R)
    (hoverlong : R (stop .overlong : Parser Node) (stop .overlong)) :
    R Grammar.genericParamIndex Grammar.genericParamIndex := by
  refine hR.ite _ (hR.bind hR.index fun _ => hR.bind hR.index fun _ => ?_) <|
    hR.ite _ (hR.pure _) <| hR.bind hR.index fun _ => hR.pure _
  unfold writtenParam
  split
  · exact hR.pure _
  · exact hoverlong

end Sequencing

namespace Congruence

variable {R : ParserRelation} {α β : Type}

lemma unlessEnd (hR : Congruence R) {p p' : Parser α} (hp : R p p') :
    R (do if ← Grammar.atEnd then Grammar.refuse else p)
      (do if ← Grammar.atEnd then Grammar.refuse else p') := by
  refine hR.bind hR.atEnd fun ended => ?_
  cases ended with
  | true => exact hR.refuse
  | false => exact hp

lemma rounds (hR : Congruence R) {step step' : α → Parser (Round α β)}
    (h : ∀ value, R (step value) (step' value)) (count : Nat) (value : α) :
    R (Grammar.rounds step count value) (Grammar.rounds step' count value) := by
  induction count generalizing value with
  | zero => exact hR.refuse
  | succ count ih =>
    refine hR.bind (h value) fun round => ?_
    cases round with
    | again value => exact ih value
    | done result => exact hR.pure _

lemma iterate (hR : Congruence R) {step step' : α → Parser (Round α β)}
    (h : ∀ value, R (step value) (step' value)) (value : α) :
    R (Grammar.iterate step value) (Grammar.iterate step' value) :=
  hR.iterate_of_rounds fun count => hR.rounds h count value

lemma foldUntil (hR : Congruence R) {stop : Parser Bool} (hstop : R stop stop)
    {step step' : α → Parser α} (h : ∀ value, R (step value) (step' value)) (value : α) :
    R (Grammar.foldUntil stop step value) (Grammar.foldUntil stop step' value) := by
  refine hR.iterate (fun value => hR.bind hstop fun stopped => ?_) value
  cases stopped with
  | true => exact hR.pure _
  | false => exact hR.bind (h value) fun _ => hR.pure _

lemma gather (hR : Congruence R) {stop : Parser Bool} (hstop : R stop stop)
    {item item' : List α → Parser α} (h : ∀ earlier, R (item earlier) (item' earlier)) :
    R (Grammar.gather stop item) (Grammar.gather stop item') := by
  refine hR.iterate (fun earlier => hR.bind hstop fun stopped => ?_) []
  cases stopped with
  | true => exact hR.pure _
  | false => exact hR.bind (h earlier) fun _ => hR.pure _

end Congruence

lemma Tolerant.gatherFound {R : ParserRelation} {α : Type} (hR : Tolerant R)
    {stop : Parser Bool} (hstop : R stop stop) {item item' : Parser α} (h : R item item') :
    R (Grammar.gatherFound stop item) (Grammar.gatherFound stop item') := by
  refine hR.iterate (fun earlier => hR.bind hstop fun stopped => ?_) []
  cases stopped with
  | true => exact hR.pure _
  | false =>
    refine hR.bind (hR.tolerate h) fun found => ?_
    cases found with
    | some value => exact hR.pure _
    | none => exact hR.pure _

end SwiftMangling.Grammar
