import SwiftMangling.Proofs.MoreBudget
import SwiftMangling.Proofs.Symbol
import SwiftMangling.Proofs.SymbolReads

/-!
# A budget that is always enough

Each unread byte asks for a few units of the budget: three for the productions that call one another
before a byte is taken, and one for each level that can take generic arguments, of which there are no
more than bytes. So the square of the number of bytes, with a little added, is enough for any name. What
is read within it is well formed, and therefore also what is read within a smaller budget.
-/

namespace SwiftMangling

namespace Grammar

variable {total bound budget : Nat}

/-- What is read within a budget is read within a larger one. -/
lemma Reads.moreBudget {post : Node → Nat → Prop} {budget' : Nat} {production : Production}
    (h : Reads total bound post (parse budget production)) (hle : budget ≤ budget') :
    Reads total bound post (parse budget' production) := by
  intro limit s hs
  have hcomes := h limit s hs
  obtain hexhausted | hsame := parse_of_le hle production limit s
  · rw [hexhausted] at hcomes
    exact absurd rfl hcomes
  · rwa [← hsame]

lemma Sufficient.moreBudget {budget' : Nat} (h : Sufficient total bound (parse budget))
    (hle : budget ≤ budget') : Sufficient total bound (parse budget') where
  settled := settled_parse budget'
  type := h.type.moreBudget hle
  bareType := h.bareType.moreBudget hle
  context := h.context.moreBudget hle
  entity := h.entity.moreBudget hle
  global := h.global.moreBudget hle
  archetype := h.archetype.moreBudget hle
  boundArguments nominal hnominal hlevels := (h.boundArguments nominal hnominal hlevels).moreBudget hle
  signature pseudogeneric := (h.signature pseudogeneric).moreBudget hle
  implFunction := h.implFunction.moreBudget hle

/-- Generic arguments take a unit for each level of what they are given to. -/
lemma reads_boundArguments (htype : Reads total bound (made (.isOf [.type])) (parse budget .type))
    (levels : Nat) {nominal : Node} (hnominal : Made (.isOf Kind.bindable) nominal)
    (hlevels : nominal.levels ≤ levels) :
    Reads total bound (fun result _ => Bound nominal result)
      (parse (budget + levels + 1) (.boundArguments nominal)) := by
  -- No byte is taken on the way outwards, so that the levels are what gets fewer.
  induction levels generalizing nominal with
  | zero =>
    exact Reads.boundArgumentsBody hnominal htype fun parent _ hless => absurd hless (by omega)
  | succ levels ih =>
    exact Reads.boundArgumentsBody hnominal (htype.moreBudget (by omega)) fun parent hparent hless =>
      ih hparent (by omega)

/-- One more byte is read within a budget that is larger by three and by the levels that there may
be. -/
lemma Sufficient.step (h : Sufficient total bound (parse budget)) :
    Sufficient total (bound + 1) (parse (budget + (total + 3))) := by
  have hone : Sufficient total bound (parse (budget + 1)) := h.moreBudget (by omega)
  -- A bare type and an entity take a byte first. A type, a context and a global may begin with one of
  -- them, and so need a unit more.
  have hbareType : Reads total (bound + 1) (made (.isOf Kind.bareTypes))
      (parse (budget + 1) .bareType) := Reads.bareType h
  have hentity : Reads total (bound + 1) (held total Kind.scopes) (parse (budget + 1) .entity) :=
    Reads.entityBody h
  have htype : Reads total (bound + 1) (made (.isOf [.type])) (parse (budget + 2) .type) :=
    Reads.typeNode hbareType
  have hcontext : Reads total (bound + 1) (held total Kind.scopes) (parse (budget + 2) .context) :=
    Reads.contextBody hone hentity
  have hglobal : Reads total (bound + 1) (made (.isOf Kind.globals)) (parse (budget + 2) .global) :=
    Reads.globalBody hone hentity
  have harchetype : Reads total (bound + 1) (held total [.associatedTypeRef])
      (parse (budget + 1) .archetype) := Reads.archetypeBody h
  have hsignature : ∀ pseudogeneric,
      Reads total (bound + 1) (made (.isOf [signatureKind pseudogeneric]))
        (parse (budget + 1) (.signature pseudogeneric)) := Reads.signatureBody h
  have himplFunction : Reads total (bound + 1) (made (.isOf [.implFunctionType]))
      (parse (budget + 1) .implFunction) := Reads.implFunctionBody h
  exact
    { settled := settled_parse _
      type := htype.moreBudget (by omega)
      bareType := hbareType.moreBudget (by omega)
      context := hcontext.moreBudget (by omega)
      entity := hentity.moreBudget (by omega)
      global := hglobal.moreBudget (by omega)
      archetype := harchetype.moreBudget (by omega)
      boundArguments := fun nominal hnominal hlevels =>
        (reads_boundArguments htype total hnominal hlevels).moreBudget (by omega)
      signature := fun pseudogeneric => (hsignature pseudogeneric).moreBudget (by omega)
      implFunction := himplFunction.moreBudget (by omega) }

/-- There is nothing to be read below a bound of no bytes. -/
lemma reads_zero {α : Type} {post : α → Nat → Prop} (p : Parser α) : Reads total 0 post p :=
  fun _ _ hs => absurd hs.below (Nat.not_lt_zero _)

/-- The budget that is enough grows with the unread bytes. -/
theorem sufficient_parse (total bound : Nat) : Sufficient total bound (parse (bound * (total + 3))) := by
  induction bound with
  | zero =>
    exact ⟨settled_parse _, reads_zero _, reads_zero _, reads_zero _, reads_zero _, reads_zero _,
      reads_zero _, fun _ _ _ => reads_zero _, fun _ => reads_zero _, reads_zero _⟩
  | succ bound ih =>
    rw [Nat.succ_mul]
    exact ih.step

end Grammar

/-- The kind of the root of what a name is read as. -/
def Form.rootKind : Form → Kind
  | symbol => .global
  | type => .type

/-- What a name comes to within a budget that is enough. -/
lemma parseBytes_comes (form : Form) {budget : Nat} (limit : Int) (bytes : Bytes)
    (henough : (bytes.length + 3) ^ 2 ≤ budget) :
    Grammar.Comes bytes.length bytes.length (Grammar.made (.isOf [form.rootKind]))
      (parseBytes form budget limit bytes) := by
  have hbudget : (bytes.length + 1) * (bytes.length + 3) ≤ budget :=
    calc
      (bytes.length + 1) * (bytes.length + 3) ≤ (bytes.length + 3) * (bytes.length + 3) :=
        Nat.mul_le_mul_right _ (by omega)
      _ = (bytes.length + 3) ^ 2 := (sq _).symm
      _ ≤ budget := henough
  have hcall := (Grammar.sufficient_parse bytes.length (bytes.length + 1)).moreBudget hbudget
  have hstart : Grammar.Sound bytes.length (bytes.length + 1) ⟨bytes, []⟩ :=
    ⟨Nat.lt_succ_self _, Nat.le_refl _, nofun⟩
  cases form with
  | symbol => exact Grammar.Reads.symbol hcall limit ⟨bytes, []⟩ hstart
  | type => exact hcall.type limit ⟨bytes, []⟩ hstart

lemma parseBytes_ne_exhausted (form : Form) {budget : Nat} (limit : Int) (bytes : Bytes)
    (henough : (bytes.length + 3) ^ 2 ≤ budget) :
    parseBytes form budget limit bytes ≠ .stopped .exhausted := by
  intro hexhausted
  have hcomes := parseBytes_comes form limit bytes henough
  rw [hexhausted] at hcomes
  exact hcomes rfl

/-- Budgets that are enough come to the same. -/
lemma parseBytes_eq_of_enough (form : Form) {budget : Nat} (limit : Int) (bytes : Bytes)
    (henough : (bytes.length + 3) ^ 2 ≤ budget) :
    parseBytes form budget limit bytes = parseBytes form ((bytes.length + 3) ^ 2) limit bytes := by
  obtain hexhausted | hsame := parseBytes_of_le form henough limit bytes
  · exact absurd hexhausted (parseBytes_ne_exhausted form limit bytes (Nat.le_refl _))
  · exact hsame.symm

/-- The grammar ends by itself. The square of the number of bytes, with a little added, is a budget that
no name exhausts, and beyond which neither the answer nor the line of diagnostics depends on it. -/
theorem demangle_of_sq_le (form : Form) (settings : Settings) (name : MangledName)
    (henough : ((name.toBytes.length + 3) ^ 2 : Nat) ≤ settings.maxDepth.toInt) :
    ¬RunsOut form settings name ∧
      ∀ depth : Setting, ((name.toBytes.length + 3) ^ 2 : Nat) ≤ depth.toInt →
        demangle form (settings.set .maxDepth depth) name = demangle form settings name ∧
        (demangle form (settings.set .maxDepth depth) name).log (settings.set .maxDepth depth) name =
          (demangle form settings name).log settings name := by
  have hbudget : ∀ depth : Setting, ((name.toBytes.length + 3) ^ 2 : Nat) ≤ depth.toInt →
      (name.toBytes.length + 3) ^ 2 ≤ depth.toInt.toNat := fun depth hdepth => by omega
  have hfinite : ¬RunsOut form (settings.set .maxDepth settings.maxDepth) name :=
    parseBytes_ne_exhausted form settings.maxNatural.toInt name.toBytes (hbudget _ henough)
  refine ⟨hfinite, fun depth hdepth => ?_⟩
  have hsame := (parseBytes_eq_of_enough form settings.maxNatural.toInt name.toBytes
    (hbudget _ henough)).trans (parseBytes_eq_of_enough form settings.maxNatural.toInt name.toBytes
      (hbudget depth hdepth)).symm
  exact (demangle_of_parseBytes_eq hfinite hsame).2

/-- The budget for the twenty-one bytes of a generic class that is given a tuple: any larger one gives
the same answer. -/
theorem demangle_genericClass_enough :
    (((MangledName.text "_TtGC4main3FooTSiSS__").toBytes.length + 3) ^ 2 : Nat) ≤
        (Settings.set {} .maxDepth (.number 576)).maxDepth.toInt ∧
      ¬RunsOut .symbol (Settings.set {} .maxDepth (.number 576)) (.text "_TtGC4main3FooTSiSS__") ∧
      demangle .symbol (Settings.set {} .maxDepth (.number 10000)) (.text "_TtGC4main3FooTSiSS__") =
        demangle .symbol (Settings.set {} .maxDepth (.number 576))
          (.text "_TtGC4main3FooTSiSS__") := by
  have hlength : (MangledName.text "_TtGC4main3FooTSiSS__").toBytes.length = 21 := rfl
  have henough : ∀ depth : Int, 576 ≤ depth →
      (((MangledName.text "_TtGC4main3FooTSiSS__").toBytes.length + 3) ^ 2 : Nat) ≤ depth := by
    intro depth hdepth
    rw [hlength]
    exact hdepth
  have hsame := demangle_of_sq_le .symbol (Settings.set {} .maxDepth (.number 576))
    (.text "_TtGC4main3FooTSiSS__") (henough 576 (Int.le_refl 576))
  exact ⟨henough 576 (Int.le_refl 576), hsame.1,
    (hsame.2 (.number 10000) (henough 10000 (by decide))).1⟩

/-- Every tree that a name is read as is well formed: each of its nodes carries what its kind says and
has children that fill a shape of its kind. The root says which form of name it was. -/
theorem demangle_wellFormed {form : Form} {settings : Settings} {name : MangledName} {root : Node}
    (htree : demangle form settings name = .tree root) :
    root.WellFormed ∧ root.kind = form.rootKind := by
  obtain ⟨s, hfound⟩ := demangle_eq_tree_iff.1 htree
  -- A smaller budget is not enough for all names, but it was enough for this one.
  have hcomes := parseBytes_comes form settings.maxNatural.toInt name.toBytes
    (le_max_right settings.maxDepth.toInt.toNat _)
  obtain hexhausted | hsame := parseBytes_of_le form (le_max_left settings.maxDepth.toInt.toNat
    ((name.toBytes.length + 3) ^ 2)) settings.maxNatural.toInt name.toBytes
  · rw [hfound] at hexhausted
    cases hexhausted
  · rw [← hsame, hfound] at hcomes
    have hroot : Made (.isOf [form.rootKind]) root := hcomes.2
    exact ⟨hroot.wellFormed, hroot.kind_eq⟩

/-- The tree of a generic class in a module, given a tuple, is well formed. -/
theorem demangle_genericClass_wellFormed :
    ∃ root, demangle .symbol {} (.text "_TtGC4main3FooTSiSS__") = .tree root ∧ root.WellFormed ∧
      root.kind = .global := by
  have hsome : (demangle .symbol {} (.text "_TtGC4main3FooTSiSS__")).tree?.isSome = true := by
    decide +kernel
  cases htree : demangle .symbol {} (.text "_TtGC4main3FooTSiSS__") with
  | tree root => exact ⟨root, rfl, demangle_wellFormed htree⟩
  | _ =>
    rw [htree] at hsome
    cases hsome

end SwiftMangling
