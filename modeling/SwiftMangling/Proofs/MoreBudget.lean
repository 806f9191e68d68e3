import SwiftMangling.Demangle
import SwiftMangling.Proofs.GrammarCongruence

/-!
# More budget

The budget cuts reading off and has no other effect: what is read within a budget is read in the
same way within a larger one.
-/

namespace SwiftMangling

namespace Grammar

/-- The first outcome is that the budget is exhausted, or both are the same. -/
def UnlessExhausted : OutcomeRelation :=
  fun _ _ _ o o' => o = .stopped .exhausted ∨ o = o'

lemma unlessExhausted_self {α : Type} (p : Parser α) : Related UnlessExhausted p p :=
  fun _ _ => .inr rfl

lemma unlessExhausted : SymbolCongruence (Related UnlessExhausted) where
  pure value := unlessExhausted_self _
  bind {α β p q f g} hp hf := by
    intro limit s
    simp only [UnlessExhausted, Parser.bind_apply]
    obtain hexhausted | hsame := hp limit s
    · rw [hexhausted]
      exact .inl rfl
    · rw [hsame]
      cases q limit s with
      | found value s' => exact hf value limit s'
      | refused s' => exact .inr rfl
      | stopped why => exact .inr rfl
  refuse := unlessExhausted_self _
  iterate_of_rounds := Related.iterate_of_rounds
  tolerate {α p q} hp := by
    intro limit s
    simp only [UnlessExhausted, tolerate]
    obtain hexhausted | hsame := hp limit s
    · rw [hexhausted]
      exact .inl rfl
    · rw [hsame]
      exact .inr rfl
  atEnd := unlessExhausted_self _
  peek := unlessExhausted_self _
  next := unlessExhausted_self _
  accept mark := unlessExhausted_self _
  advance amount := unlessExhausted_self _
  readUntil mark := unlessExhausted_self _
  takeRest := unlessExhausted_self _
  natural := unlessExhausted_self _
  record node _ := unlessExhausted_self _
  recalled position := unlessExhausted_self _
  forget := unlessExhausted_self _
  genericParamIndex := unlessExhausted_self _

/-- Within a smaller budget a production comes to the same or exhausts it. -/
lemma parse_of_le {budget budget' : Nat} (hle : budget ≤ budget') (production : Production) :
    Related UnlessExhausted (parse budget production) (parse budget' production) :=
  unlessExhausted.parse (fun _ _ _ => .inl rfl) hle production

end Grammar

/-- Within a smaller budget a name comes to the same or exhausts it. -/
lemma parseBytes_of_le (form : Form) {budget budget' : Nat} (hle : budget ≤ budget') (limit : Int)
    (bytes : Bytes) :
    parseBytes form budget limit bytes = .stopped .exhausted ∨
      parseBytes form budget limit bytes = parseBytes form budget' limit bytes := by
  have hcall := Grammar.parse_of_le hle
  cases form with
  | symbol => exact Grammar.unlessExhausted.symbol hcall limit ⟨bytes, []⟩
  | type => exact hcall .type limit ⟨bytes, []⟩

/-- Reading a name exhausts the budget that the settings give. -/
def RunsOut (form : Form) (settings : Settings) (name : MangledName) : Prop :=
  parseBytes form settings.maxDepth.toInt.toNat settings.maxNatural.toInt name.toBytes =
    .stopped .exhausted

/-- A name exhausts the budget if its nesting is said to be too deep, and as far as a budget can be
written that is said. -/
lemma runsOut_iff {form : Form} {settings : Settings} {name : MangledName}
    (hwritable : Decimal.isWritable settings.maxDepth.toInt) :
    RunsOut form settings name ↔ demangle form settings name = .tooDeep := by
  unfold RunsOut demangle
  cases parseBytes form settings.maxDepth.toInt.toNat settings.maxNatural.toInt name.toBytes with
  | found root s => exact ⟨nofun, nofun⟩
  | refused s => exact ⟨nofun, nofun⟩
  | stopped why =>
    cases why with
    | exhausted => exact ⟨fun _ => if_pos hwritable, fun _ => rfl⟩
    | overlong => exact ⟨nofun, nofun⟩
    | broken breach => exact ⟨nofun, nofun⟩

/-- Two budgets under which a name comes to the same, which is not that they are exhausted, give the
same answer and the same line of diagnostics. -/
lemma demangle_of_parseBytes_eq {form : Form} {settings : Settings} {name : MangledName}
    {depth depth' : Setting} (hdepth : ¬RunsOut form (settings.set .maxDepth depth) name)
    (hsame : parseBytes form depth.toInt.toNat settings.maxNatural.toInt name.toBytes =
      parseBytes form depth'.toInt.toNat settings.maxNatural.toInt name.toBytes) :
    ¬RunsOut form (settings.set .maxDepth depth') name ∧
      demangle form (settings.set .maxDepth depth') name =
        demangle form (settings.set .maxDepth depth) name ∧
      (demangle form (settings.set .maxDepth depth') name).log (settings.set .maxDepth depth') name =
        (demangle form (settings.set .maxDepth depth) name).log (settings.set .maxDepth depth) name := by
  simp only [RunsOut, demangle, Settings.set, ← hsame] at hdepth ⊢
  refine ⟨hdepth, ?_⟩
  cases hfirst : parseBytes form depth.toInt.toNat settings.maxNatural.toInt name.toBytes with
  | found root s => exact ⟨rfl, rfl⟩
  | refused s => exact ⟨rfl, rfl⟩
  | stopped why =>
    cases why with
    | exhausted => exact absurd hfirst hdepth
    | overlong => exact ⟨rfl, rfl⟩
    | broken breach => exact ⟨rfl, rfl⟩

/-- The budget cuts reading off and changes no answer. A name that does not exhaust a budget does not
exhaust a larger one either, and has the same answer and the same line of diagnostics under it. So
what exhausts the larger one exhausts the smaller one. -/
theorem demangle_of_maxDepth_le (form : Form) (settings : Settings) (name : MangledName)
    (small large : Setting) (hle : small.toInt ≤ large.toInt) :
    (¬RunsOut form (settings.set .maxDepth small) name →
      ¬RunsOut form (settings.set .maxDepth large) name ∧
        demangle form (settings.set .maxDepth large) name =
          demangle form (settings.set .maxDepth small) name ∧
        (demangle form (settings.set .maxDepth large) name).log (settings.set .maxDepth large) name =
          (demangle form (settings.set .maxDepth small) name).log (settings.set .maxDepth small)
            name) ∧
      (RunsOut form (settings.set .maxDepth large) name →
        RunsOut form (settings.set .maxDepth small) name) := by
  have hkept : ¬RunsOut form (settings.set .maxDepth small) name →
      parseBytes form small.toInt.toNat settings.maxNatural.toInt name.toBytes =
        parseBytes form large.toInt.toNat settings.maxNatural.toInt name.toBytes := by
    intro hsmall
    obtain hexhausted | hsame := parseBytes_of_le form (Int.toNat_le_toNat hle)
      settings.maxNatural.toInt name.toBytes
    · exact absurd hexhausted hsmall
    · exact hsame
  constructor
  · intro hsmall
    exact demangle_of_parseBytes_eq hsmall (hkept hsmall)
  · intro hlarge
    by_contra hsmall
    exact (demangle_of_parseBytes_eq hsmall (hkept hsmall)).1 hlarge

/-- Three levels are enough for the symbol of the type of integers, so any more give the same. -/
theorem demangle_maxDepth_three :
    ¬RunsOut .symbol (Settings.set {} .maxDepth (.number 3)) (.text "_TtSi") ∧
      ¬RunsOut .symbol (Settings.set {} .maxDepth (.number 128)) (.text "_TtSi") ∧
      demangle .symbol (Settings.set {} .maxDepth (.number 128)) (.text "_TtSi") =
        demangle .symbol (Settings.set {} .maxDepth (.number 3)) (.text "_TtSi") := by
  have hthree : ¬RunsOut .symbol (Settings.set {} .maxDepth (.number 3)) (.text "_TtSi") := by
    have hfound : ∃ root s, parseBytes .symbol 3 (2 ^ 64 - 1) (MangledName.text "_TtSi").toBytes =
        .found root s := ⟨_, _, rfl⟩
    obtain ⟨root, s, hfound⟩ := hfound
    intro hexhausted
    cases hfound.symm.trans hexhausted
  have hmore := (demangle_of_maxDepth_le .symbol {} (.text "_TtSi") (.number 3) (.number 128)
    (by decide)).1 hthree
  exact ⟨hthree, hmore.1, hmore.2.1⟩

end SwiftMangling
