import SwiftMangling.Proofs.GrammarCongruence

/-!
# Reading with more recorded

What a production finds it finds again where more is recorded, as long as the references that it met
still lead to the same nodes. It then records the same nodes once more, after those that are there.
-/

namespace SwiftMangling.Grammar

/-- What the first parser finds, the second finds in view of any table that begins with the one that
the first leaves behind, and both record the same. -/
def FoundAgain {α : Type} (p q : Parser α) : Prop :=
  ∀ {limit : Int} {bytes rest : Bytes} {table table' : References Node} {value : α},
    p limit ⟨bytes, table⟩ = .found value ⟨rest, table'⟩ →
    ∃ added, table' = table ++ added ∧ ∀ longer, table' <+: longer →
      q limit ⟨bytes, longer⟩ = .found value ⟨rest, longer ++ added⟩

def Outcome.withTable {α : Type} (table : References Node) : Outcome α → Outcome α
  | .found value s => .found value ⟨s.unread, table⟩
  | .refused s => .refused ⟨s.unread, table⟩
  | .stopped why => .stopped why

/-- A parser that neither looks at the table nor changes it. -/
def IgnoresTable {α : Type} (p : Parser α) : Prop :=
  ∀ limit bytes table, p limit ⟨bytes, table⟩ = (p limit ⟨bytes, []⟩).withTable table

lemma IgnoresTable.foundAgain {α : Type} {p : Parser α} (hp : IgnoresTable p) : FoundAgain p p := by
  intro limit bytes rest table table' value hfound
  rw [hp] at hfound
  cases hplain : p limit ⟨bytes, []⟩ with
  | found plain s =>
    rw [hplain] at hfound
    cases hfound
    refine ⟨[], (List.append_nil _).symm, fun longer _ => ?_⟩
    rw [hp, hplain, List.append_nil]
    rfl
  | refused s =>
    rw [hplain] at hfound
    cases hfound
  | stopped why =>
    rw [hplain] at hfound
    cases hfound

lemma sequencing_foundAgain : Sequencing FoundAgain where
  pure value := IgnoresTable.foundAgain fun _ _ _ => rfl
  bind {α β p q f g} hp hf := by
    intro limit bytes rest table table' result hfound
    obtain ⟨value, ⟨middle, table₁⟩, hfirst, hsecond⟩ := Parser.bind_found hfound
    obtain ⟨added, rfl, hagain⟩ := hp hfirst
    obtain ⟨added₂, rfl, hagain₂⟩ := hf value hsecond
    refine ⟨added ++ added₂, List.append_assoc .., fun longer hlonger => ?_⟩
    -- The first parser only adds to the table, so that the second one still finds its references.
    have hshort : table ++ added <+: longer := (List.prefix_append ..).trans hlonger
    have hlong : table ++ added ++ added₂ <+: longer ++ added :=
      hlonger.trans (List.prefix_append ..)
    rw [Parser.bind_apply, hagain longer hshort, ← List.append_assoc]
    exact hagain₂ _ hlong
  refuse := IgnoresTable.foundAgain fun _ _ _ => rfl
  accept mark := IgnoresTable.foundAgain fun limit bytes table => by
    unfold accept
    dsimp only
    split <;> rfl
  natural := IgnoresTable.foundAgain fun limit bytes table => by
    unfold natural
    dsimp only
    split
    · rfl
    · split <;> rfl

lemma foundAgain : Congruence FoundAgain where
  toSequencing := sequencing_foundAgain
  iterate_of_rounds h := fun hfound => h _ hfound
  atEnd := IgnoresTable.foundAgain fun _ _ _ => rfl
  peek := IgnoresTable.foundAgain fun limit bytes table => by
    cases bytes <;> rfl
  next := IgnoresTable.foundAgain fun limit bytes table => by
    cases bytes <;> rfl
  advance amount := IgnoresTable.foundAgain fun limit bytes table => by
    unfold advance
    dsimp only
    split <;> rfl
  readUntil mark := IgnoresTable.foundAgain fun limit bytes table => by
    unfold readUntil
    dsimp only
    split <;> rfl
  takeRest := IgnoresTable.foundAgain fun _ _ _ => rfl
  record node _ := by
    intro limit bytes rest table table' value hfound
    cases hfound
    exact ⟨[node], rfl, fun longer _ => rfl⟩
  recalled position := by
    intro limit bytes rest table table' node hfound
    unfold recalled at hfound
    split at hfound
    · next other hother =>
      cases hfound
      refine ⟨[], (List.append_nil _).symm, fun longer hlonger => ?_⟩
      have hnode : References.resolve? longer position = some node := by
        obtain ⟨more, rfl⟩ := hlonger
        have hlt : position < table.length := (List.getElem?_eq_some_iff.1 hother).1
        exact (List.getElem?_append_left hlt).trans hother
      simp only [recalled, hnode, List.append_nil]
    · cases hfound
  genericParamIndex := sequencing_foundAgain.paramIndex nofun

/-- A production finds again what it has found, within any larger budget. -/
theorem parse_foundAgain {budget budget' : Nat} (hle : budget ≤ budget') (production : Production) :
    FoundAgain (parse budget production) (parse budget' production) :=
  foundAgain.parse (fun _ => nofun) hle production

end SwiftMangling.Grammar
