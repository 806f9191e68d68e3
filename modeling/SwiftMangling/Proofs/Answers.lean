import SwiftMangling.Demangle
import SwiftMangling.Proofs.GrammarCongruence
import SwiftMangling.Proofs.Numerals

/-!
# Every name has an answer

Reading stops for want of budget only, as long as the settings hold numbers that can be written. So
a name always has an answer: it is a tree, or it is no mangling, or its nesting is too deep.
-/

namespace SwiftMangling

namespace Grammar

/-- Where reading stops, the limit and the reason have a property. -/
def StopsOnly (P : Int → Stop → Prop) : OutcomeRelation :=
  fun _ limit _ o _ => ∀ why, o = .stopped why → P limit why

/-- A parser that finds or refuses does not stop. -/
lemma stopsOnly_of_cases {α : Type} {P : Int → Stop → Prop} {p : Parser α}
    (h : ∀ limit s, (∃ s', p limit s = .refused s') ∨ ∃ value s', p limit s = .found value s') :
    Related (StopsOnly P) p p := by
  intro limit s why hwhy
  obtain ⟨s', hrefused⟩ | ⟨value, s', hfound⟩ := h limit s
  · rw [hrefused] at hwhy
    cases hwhy
  · rw [hfound] at hwhy
    cases hwhy

lemma stopsOnly_sequencing {P : Int → Stop → Prop}
    (hnatural : Related (StopsOnly P) natural natural) : Sequencing (Related (StopsOnly P)) where
  pure value := stopsOnly_of_cases fun limit s => .inr ⟨value, s, rfl⟩
  bind {α β p q f g} hp hf := by
    intro limit s why hwhy
    rw [Parser.bind_apply] at hwhy
    cases hp' : p limit s with
    | found value s' =>
      rw [hp'] at hwhy
      exact hf value limit s' why hwhy
    | refused s' =>
      rw [hp'] at hwhy
      cases hwhy
    | stopped why' =>
      rw [hp'] at hwhy
      cases hwhy
      exact hp limit s why hp'
  refuse := stopsOnly_of_cases fun limit s => .inl ⟨s, rfl⟩
  accept mark := stopsOnly_of_cases fun limit s => by
    obtain ⟨rest, hmark⟩ | hmark := accept_cases mark limit s
    · exact .inr ⟨_, _, hmark⟩
    · exact .inr ⟨_, _, hmark⟩
  natural := hnatural

/-- Of the parsers that look at the state, only those of numbers and of generic parameters stop. -/
lemma stopsOnly {P : Int → Stop → Prop} (hnatural : Related (StopsOnly P) natural natural)
    (hparam : Related (StopsOnly P) genericParamIndex genericParamIndex) :
    SymbolCongruence (Related (StopsOnly P)) where
  toSequencing := stopsOnly_sequencing hnatural
  iterate_of_rounds := Related.iterate_of_rounds
  tolerate {α p q} hp := by
    intro limit s why hwhy
    unfold tolerate at hwhy
    cases hp' : p limit s with
    | found value s' =>
      rw [hp'] at hwhy
      cases hwhy
    | refused s' =>
      rw [hp'] at hwhy
      cases hwhy
    | stopped why' =>
      rw [hp'] at hwhy
      cases hwhy
      exact hp limit s why hp'
  atEnd := stopsOnly_of_cases fun limit s => .inr ⟨_, s, rfl⟩
  peek := stopsOnly_of_cases fun limit s => by
    unfold peek
    split
    · exact .inr ⟨_, s, rfl⟩
    · exact .inr ⟨_, s, rfl⟩
  next := stopsOnly_of_cases fun limit s => by
    unfold next
    split
    · exact .inr ⟨_, s, rfl⟩
    · exact .inr ⟨_, _, rfl⟩
  advance amount := stopsOnly_of_cases fun limit s => by
    unfold advance
    split
    · exact .inr ⟨_, _, rfl⟩
    · exact .inl ⟨s, rfl⟩
  readUntil mark := stopsOnly_of_cases fun limit s => by
    unfold readUntil
    split
    · exact .inr ⟨_, _, rfl⟩
    · exact .inl ⟨_, rfl⟩
  takeRest := stopsOnly_of_cases fun limit s => .inr ⟨_, _, rfl⟩
  record node _ := stopsOnly_of_cases fun limit s => .inr ⟨_, _, rfl⟩
  recalled position := stopsOnly_of_cases fun limit s => by
    unfold recalled
    split
    · exact .inr ⟨_, s, rfl⟩
    · exact .inl ⟨s, rfl⟩
  forget := stopsOnly_of_cases fun limit s => .inr ⟨_, _, rfl⟩
  genericParamIndex := hparam

/-- Where reading stops, the budget is exhausted. -/
def OnlyExhausted : OutcomeRelation :=
  fun _ limit _ o _ => Decimal.digitCount limit < Decimal.maxDigits →
    ∀ why, o = .stopped why → why = .exhausted

lemma onlyExhausted_eq : OnlyExhausted =
    StopsOnly fun limit why => Decimal.digitCount limit < Decimal.maxDigits → why = .exhausted := by
  funext α limit s o o'
  exact propext ⟨fun h why hwhy hlimit => h hlimit why hwhy, fun h hlimit why hwhy => h why hwhy hlimit⟩

lemma onlyExhausted : SymbolCongruence (Related OnlyExhausted) := by
  rw [onlyExhausted_eq]
  apply stopsOnly
  · intro limit s why hwhy hlimit
    obtain ⟨s', hrefused⟩ | ⟨n, s', hfound, -⟩ := natural_cases hlimit s
    · rw [hrefused] at hwhy
      cases hwhy
    · rw [hfound] at hwhy
      cases hwhy
  · intro limit s why hwhy hlimit
    obtain ⟨s', hrefused⟩ | ⟨node, s', hfound⟩ := genericParamIndex_cases hlimit s
    · rw [hrefused] at hwhy
      cases hwhy
    · rw [hfound] at hwhy
      cases hwhy

/-- Reading a production stops for want of budget only. -/
lemma parse_onlyExhausted (budget : Nat) (production : Production) :
    Related OnlyExhausted (parse budget production) (parse budget production) := by
  refine onlyExhausted.parse (fun p limit s _ why hwhy => ?_) (Nat.le_refl budget) production
  cases hwhy
  rfl

/-- Where reading stops, no rule of building trees is broken. -/
def Unbroken : OutcomeRelation :=
  StopsOnly fun _ why => ∀ breach, why ≠ .broken breach

lemma unbroken : SymbolCongruence (Related Unbroken) := by
  have hnatural : Related Unbroken natural natural := by
    intro limit s why hwhy breach hbroken
    rw [hbroken] at hwhy
    exact natural_ne_broken limit s breach hwhy
  apply stopsOnly hnatural
  apply (stopsOnly_sequencing hnatural).paramIndex
  intro limit s why hwhy breach
  cases hwhy
  nofun

lemma parse_unbroken (budget : Nat) (production : Production) :
    Related Unbroken (parse budget production) (parse budget production) := by
  refine unbroken.parse (fun p limit s why hwhy breach => ?_) (Nat.le_refl budget) production
  cases hwhy
  nofun

end Grammar

lemma parseBytes_onlyExhausted (form : Form) (budget : Nat) {limit : Int}
    (hlimit : Decimal.digitCount limit < Decimal.maxDigits) (bytes : Bytes) (why : Grammar.Stop)
    (hwhy : parseBytes form budget limit bytes = .stopped why) : why = .exhausted := by
  have hcall := Grammar.parse_onlyExhausted budget
  cases form with
  | symbol => exact Grammar.onlyExhausted.symbol hcall limit ⟨bytes, []⟩ hlimit why hwhy
  | type => exact hcall .type limit ⟨bytes, []⟩ hlimit why hwhy

/-- No rule of building trees is broken, whatever the limit. -/
lemma parseBytes_ne_broken (form : Form) (budget : Nat) (limit : Int) (bytes : Bytes)
    (breach : Grammar.Breach) : parseBytes form budget limit bytes ≠ .stopped (.broken breach) := by
  intro hbroken
  have hcall := Grammar.parse_unbroken budget
  cases form with
  | symbol => exact Grammar.unbroken.symbol hcall limit ⟨bytes, []⟩ _ hbroken breach rfl
  | type => exact hcall .type limit ⟨bytes, []⟩ _ hbroken breach rfl

/-- Under settings whose numbers can be written, any name is a tree, or no mangling, or too deep: no
rule of building trees is broken, and no number is overlong. -/
theorem demangle_answers (form : Form) (settings : Settings) (name : MangledName)
    (hdepth : Decimal.digitCount settings.maxDepth.toInt < 4000)
    (hnatural : Decimal.digitCount settings.maxNatural.toInt < 4000) :
    (∃ root, demangle form settings name = .tree root) ∨
      demangle form settings name = .notMangled ∨ demangle form settings name = .tooDeep := by
  have hlimit : Decimal.digitCount settings.maxNatural.toInt < Decimal.maxDigits :=
    Nat.lt_trans hnatural (by decide)
  have hwritable : Decimal.isWritable settings.maxDepth.toInt = true :=
    decide_eq_true (Nat.le_of_lt (Nat.lt_trans hdepth (by decide)))
  unfold demangle
  cases houtcome : parseBytes form settings.maxDepth.toInt.toNat settings.maxNatural.toInt
      name.toBytes with
  | found root s => exact .inl ⟨root, rfl⟩
  | refused s => exact .inr (.inl rfl)
  | stopped why =>
    obtain rfl := parseBytes_onlyExhausted form _ hlimit _ why houtcome
    exact .inr (.inr (if_pos hwritable))

/-- A lone surrogate after a symbol, under no budget at all. -/
theorem demangle_answers_surrogate :
    (∃ root, demangle .symbol { maxDepth := .number (-1) } (.text [0x5F, 0xD800]) = .tree root) ∨
      demangle .symbol { maxDepth := .number (-1) } (.text [0x5F, 0xD800]) = .notMangled ∨
      demangle .symbol { maxDepth := .number (-1) } (.text [0x5F, 0xD800]) = .tooDeep :=
  demangle_answers .symbol { maxDepth := .number (-1) } (.text [0x5F, 0xD800])
    (by decide) (by decide)

end SwiftMangling
