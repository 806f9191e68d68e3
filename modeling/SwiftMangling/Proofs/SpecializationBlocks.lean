import SwiftMangling.Proofs.Suffix
import Mathlib.Data.List.Basic

/-!
# Specializations before a symbol

A specialization is settled by the bytes that it takes, and what it records is forgotten. So blocks of
specializations put before a symbol add their nodes in front of its children and change nothing else,
and each node is the one that its block has on its own.
-/

namespace SwiftMangling

namespace Grammar

/-- A mark that the bytes do not begin with is not taken. -/
lemma accept_of_not_prefix (mark : Text) {front bytes : Bytes}
    (hmark : front.map UInt8.toNat = mark.map Fin.val) (hfront : ¬front <+: bytes) (limit : Int)
    (table : References Node) :
    accept mark limit ⟨bytes, table⟩ = .found false ⟨bytes, table⟩ := by
  unfold accept
  cases hstrip : Bytes.stripMark? (mark.map Fin.val) bytes with
  | none => rfl
  | some rest =>
    obtain ⟨front', hfront', rfl⟩ := Bytes.stripMark?_append hstrip
    obtain rfl : front' = front :=
      List.map_injective_iff.2 (fun _ _ => UInt8.toNat_inj.1) (hfront'.trans hmark.symm)
    exact absurd (List.prefix_append ..) hfront

lemma demand_append (mark : Text) (front : Bytes) (hmark : front.map UInt8.toNat = mark.map Fin.val)
    (rest : Bytes) (table : References Node) (limit : Int) :
    demand mark limit ⟨front ++ rest, table⟩ = .found () ⟨rest, table⟩ := by
  rw [demand, Parser.bind_apply, accept_append hmark]
  rfl

/-- The marks that stand between the prefix of a symbol and its global. -/
def preludeMarks : List String :=
  ["TS", "To", "TO", "TD", "Td", "TV"]

/-- Blocks, each behind the mark that announces it. -/
def announced (blocks : List (Bytes × Node)) : Bytes :=
  blocks.flatMap fun block => Mangle.ascii "_TTS" ++ block.1

/-- The bytes are a specialization on their own: where nothing is recorded they are taken whole. -/
def IsBlock (call : Calls) (limit : Int) (block : Bytes) (node : Node) : Prop :=
  ∃ table, specialization call limit ⟨block, []⟩ = .found node ⟨[], table⟩

variable {call : Calls} {limit : Int} {rest : Bytes}

/-- Where none of the marks comes next, nothing stands before the global. -/
lemma symbolPrelude_none (hrest : ∀ mark ∈ preludeMarks, ¬Mangle.ascii mark <+: rest)
    (table : References Node) :
    symbolPrelude call limit ⟨rest, table⟩ = .found [] ⟨rest, table⟩ := by
  have hmiss : ∀ mark ∈ preludeMarks,
      (Mangle.ascii mark).map UInt8.toNat = (Text.ofString mark).map Fin.val →
      accept mark limit ⟨rest, table⟩ = .found false ⟨rest, table⟩ := fun mark hmem hmark =>
    accept_of_not_prefix mark hmark (hrest mark hmem) limit table
  simp only [symbolPrelude, symbolAttributes, Parser.bind_apply, Bool.false_eq_true, if_false,
    hmiss "TS" (by decide) (by decide), hmiss "To" (by decide) (by decide),
    hmiss "TO" (by decide) (by decide), hmiss "TD" (by decide) (by decide),
    hmiss "Td" (by decide) (by decide), hmiss "TV" (by decide) (by decide)]
  rfl

/-- Before any bytes a block without closures is read as it is on its own, and leaves nothing
recorded. -/
lemma specializationRound_block (hcall : Settled call) {block : Bytes × Node}
    (hblock : IsBlock call limit block.1 block.2) (hclosure : NoClosure block.2)
    (earlier : List Node) (rest : Bytes) :
    specializationRound call earlier limit ⟨block.1 ++ rest, []⟩ =
      (do if ← accept "_TTS" then pure (Round.again (block.2 :: earlier))
          else pure (Round.done (block.2 :: earlier).reverse)) limit ⟨rest, []⟩ := by
  obtain ⟨table, hfound⟩ := hblock
  obtain ⟨taken, hbytes, -, hsame⟩ := (steady_specialization hcall).found hfound
  obtain rfl : block.1 = taken := by rw [hbytes, List.append_nil]
  have hfound' := hsame rest (.inl ⟨alike_zero _ _, .inl hclosure⟩)
  rw [specializationRound, Parser.bind_apply, hfound']
  rfl

/-- The rounds of the specializations read one block each, up to bytes that announce no other one. -/
lemma rounds_blocks (hcall : Settled call) (hrest : ¬Mangle.ascii "_TTS" <+: rest)
    (block : Bytes × Node) (blocks : List (Bytes × Node))
    (hblocks : ∀ b ∈ block :: blocks, IsBlock call limit b.1 b.2 ∧ NoClosure b.2)
    (earlier : List Node) {count : Nat} (hcount : blocks.length < count) :
    rounds (specializationRound call) count earlier limit ⟨block.1 ++ (announced blocks ++ rest), []⟩ =
      .found (earlier.reverse ++ (block :: blocks).map Prod.snd) ⟨rest, []⟩ := by
  induction blocks generalizing block earlier count with
  | nil =>
    obtain ⟨count, rfl⟩ := Nat.exists_eq_add_of_lt hcount
    obtain ⟨hblock, hclosure⟩ := hblocks block (List.mem_cons_self ..)
    have hmark := accept_of_not_prefix "_TTS" (by decide) hrest limit []
    rw [rounds, Parser.bind_apply, specializationRound_block hcall hblock hclosure]
    simp only [announced, List.flatMap_nil, List.nil_append, Parser.bind_apply, hmark]
    simp [Parser.pure_apply]
  | cons following blocks ih =>
    obtain ⟨count, rfl⟩ : ∃ c, count = c + 1 := ⟨count - 1, by omega⟩
    obtain ⟨hblock, hclosure⟩ := hblocks block (List.mem_cons_self ..)
    have hmark : accept "_TTS" limit ⟨announced (following :: blocks) ++ rest, []⟩ =
        .found true ⟨following.1 ++ (announced blocks ++ rest), []⟩ := by
      rw [announced, List.flatMap_cons, List.append_assoc, List.append_assoc]
      exact accept_append (by decide) _ _ _
    rw [rounds, Parser.bind_apply, specializationRound_block hcall hblock hclosure, Parser.bind_apply,
      hmark]
    have hmore := ih following (fun b hb => hblocks b (List.mem_cons_of_mem _ hb))
      (block.2 :: earlier) (Nat.lt_of_succ_lt_succ hcount)
    rw [List.reverse_cons, List.append_assoc] at hmore
    exact hmore

lemma length_le_announced (blocks : List (Bytes × Node)) :
    blocks.length ≤ (announced blocks).length := by
  induction blocks with
  | nil => exact Nat.le_refl 0
  | cons block blocks ih =>
    have hmark : (Mangle.ascii "_TTS").length = 4 := by decide
    simp only [announced, List.flatMap_cons, List.length_append, List.length_cons, hmark] at ih ⊢
    omega

/-- The end of a symbol, which follows what stands before its global. -/
def symbolAfter (call : Calls) (prelude : List Node) : Parser Node := do
  let body ← call .global
  let suffix ← trailing
  branch .global ((prelude ++ body :: suffix).map some)

/-- What stands before the global has no effect on the rest. -/
lemma symbolAfter_eq (call : Calls) (prelude : List Node) :
    symbolAfter call prelude = symbolAfter call [] >>= fun root =>
      pure (.branch .global (prelude ++ root.children)) := by
  simp only [symbolAfter, branch_map_some, bind_assoc, pure_bind, List.nil_append]
  rfl

lemma symbol_plain (call : Calls) (limit : Int)
    (hrest : ∀ mark ∈ preludeMarks, ¬Mangle.ascii mark <+: rest) :
    symbol call limit ⟨Mangle.ascii "_T" ++ rest, []⟩ = symbolAfter call [] limit ⟨rest, []⟩ := by
  rw [symbol, Parser.bind_apply, demand_append _ _ (by decide)]
  simp only [Parser.bind_apply, symbolPrelude_none hrest]
  rfl

/-- No further block is announced where the prefix of the symbol comes next. -/
lemma not_announced (hrest : ¬Mangle.ascii "TS" <+: rest) :
    ¬Mangle.ascii "_TTS" <+: Mangle.ascii "_T" ++ rest := by
  show ¬Mangle.ascii "_T" ++ Mangle.ascii "TS" <+: Mangle.ascii "_T" ++ rest
  rwa [List.prefix_append_right_inj]

/-- Specializations that are found before the prefix of a symbol stand before its global. -/
lemma symbol_of_specializations {bytes : Bytes} {nodes : List Node}
    (hnodes : specializations call limit ⟨bytes ++ (Mangle.ascii "_T" ++ rest), []⟩ =
      .found nodes ⟨Mangle.ascii "_T" ++ rest, []⟩) :
    symbol call limit ⟨Mangle.ascii "_TTS" ++ (bytes ++ (Mangle.ascii "_T" ++ rest)), []⟩ =
      symbolAfter call nodes limit ⟨rest, []⟩ := by
  have hprelude : symbolPrelude call limit
      ⟨Mangle.ascii "TS" ++ (bytes ++ (Mangle.ascii "_T" ++ rest)), []⟩ = .found nodes ⟨rest, []⟩ := by
    rw [symbolPrelude, Parser.bind_apply, accept_append (by decide)]
    simp only [if_true, Parser.bind_apply, hnodes, demand_append "_T" (Mangle.ascii "_T") (by decide)]
    rfl
  show symbol call limit
    ⟨Mangle.ascii "_T" ++ (Mangle.ascii "TS" ++ (bytes ++ (Mangle.ascii "_T" ++ rest))), []⟩ = _
  rw [symbol, Parser.bind_apply, demand_append _ _ (by decide)]
  simp only [Parser.bind_apply, hprelude]
  rfl

/-- Blocks stand before the global as their nodes. -/
lemma symbol_blocks (hcall : Settled call) {blocks : List (Bytes × Node)} (hne : blocks ≠ [])
    (hblocks : ∀ b ∈ blocks, IsBlock call limit b.1 b.2 ∧ NoClosure b.2)
    (hrest : ¬Mangle.ascii "TS" <+: rest) :
    symbol call limit ⟨announced blocks ++ (Mangle.ascii "_T" ++ rest), []⟩ =
      symbolAfter call (blocks.map Prod.snd) limit ⟨rest, []⟩ := by
  obtain ⟨block, blocks, rfl⟩ := List.exists_cons_of_ne_nil hne
  have hcount : blocks.length <
      (block.1 ++ (announced blocks ++ (Mangle.ascii "_T" ++ rest))).length + 1 := by
    have hlength := length_le_announced blocks
    simp only [List.length_append]
    omega
  have hnodes : specializations call limit
        ⟨block.1 ++ announced blocks ++ (Mangle.ascii "_T" ++ rest), []⟩ =
      .found ((block :: blocks).map Prod.snd) ⟨Mangle.ascii "_T" ++ rest, []⟩ := by
    rw [List.append_assoc]
    exact rounds_blocks hcall (not_announced hrest) block blocks hblocks [] hcount
  have hbytes : announced (block :: blocks) ++ (Mangle.ascii "_T" ++ rest) = Mangle.ascii "_TTS" ++
      (block.1 ++ announced blocks ++ (Mangle.ascii "_T" ++ rest)) := by
    simp only [announced, List.flatMap_cons, List.append_assoc]
  rw [hbytes]
  exact symbol_of_specializations hnodes

end Grammar

open Grammar

/-- Blocks of specializations put before a symbol do not influence it. Each of them is a specialization
on its own, without closures, and the symbol has no specializations or attributes. Then it is read with
the blocks exactly if it is read without them. If it is not, the verdict is the same. If it is, the nodes
of the blocks, which are those that they have on their own, stand in front of its children. -/
theorem demangle_blocks (settings : Settings) (blocks : List (Bytes × Node)) (rest : Bytes)
    (hne : blocks ≠ [])
    (hblocks : ∀ b ∈ blocks, IsBlock (parse settings.maxDepth.toInt.toNat) settings.maxNatural.toInt
      b.1 b.2 ∧ NoClosure b.2)
    (hrest : ∀ mark ∈ preludeMarks, ¬Mangle.ascii mark <+: rest) :
    ((demangle .symbol settings
          (.bytes (announced blocks ++ (Mangle.ascii "_T" ++ rest)))).tree? = none ↔
        (demangle .symbol settings (.bytes (Mangle.ascii "_T" ++ rest))).tree? = none) ∧
      ((demangle .symbol settings (.bytes (Mangle.ascii "_T" ++ rest))).tree? = none →
        demangle .symbol settings (.bytes (announced blocks ++ (Mangle.ascii "_T" ++ rest))) =
          demangle .symbol settings (.bytes (Mangle.ascii "_T" ++ rest))) ∧
      ∀ root, demangle .symbol settings (.bytes (Mangle.ascii "_T" ++ rest)) = .tree root →
        demangle .symbol settings (.bytes (announced blocks ++ (Mangle.ascii "_T" ++ rest))) =
          .tree (.branch .global (blocks.map Prod.snd ++ root.children)) := by
  have hwith := symbol_blocks (settled_parse settings.maxDepth.toInt.toNat) hne hblocks
    (hrest "TS" (by decide))
  have hplain := symbol_plain (parse settings.maxDepth.toInt.toNat) settings.maxNatural.toInt hrest
  rw [symbolAfter_eq, Parser.bind_apply] at hwith
  simp only [demangle, MangledName.toBytes, parseBytes, Form.parser, hwith, hplain]
  cases symbolAfter (parse settings.maxDepth.toInt.toNat) [] settings.maxNatural.toInt ⟨rest, []⟩ with
  | found root s =>
    refine ⟨⟨nofun, nofun⟩, nofun, fun root' hroot => ?_⟩
    cases hroot
    rfl
  | refused s => exact ⟨Iff.rfl, fun _ => rfl, nofun⟩
  | stopped why =>
    refine ⟨Iff.rfl, fun _ => rfl, fun root hroot => ?_⟩
    have hnone := Verdict.tree?_ofOutcome_stopped settings.maxDepth.toInt why
    rw [hroot] at hnone
    cases hnone

/-- A specialization for the type of integers. -/
def intSpecialization : Node :=
  .branch .genericSpecialization [.numbered .specializationPassID 5,
    .branch .genericSpecializationParam [(Mangle.TypeExpr.standard .int).tree]]

lemma intSpecialization_noClosure : NoClosure intSpecialization := by
  have hint : NoClosure (Mangle.TypeExpr.standard .int).tree :=
    (intSymbol_noClosure.of_mem (List.mem_cons_self ..)).of_mem (List.mem_cons_self ..)
  have hparam : NoClosure (.branch .genericSpecializationParam [(Mangle.TypeExpr.standard .int).tree]) :=
    noClosure_mk (fun h => absurd h.1 (by decide)) (by simpa using hint)
  have hpass : NoClosure (.numbered .specializationPassID 5) :=
    noClosure_mk (fun h => absurd h.1 (by decide)) nofun
  exact noClosure_mk (fun h => absurd h.1 (by decide)) (by simpa using ⟨hpass, hparam⟩)

/-- Two specializations before the symbol of the type of integers. -/
theorem demangle_twoBlocks :
    demangle .symbol {} (.bytes (Mangle.ascii "_TTSg5Si___TTSg5Si___TtSi")) =
      .tree (.branch .global (intSpecialization :: intSpecialization :: intSymbol.children)) := by
  have hletters : Mangle.ascii "g5Si__" = [0x67, 0x35, 0x53, 0x69, 0x5F, 0x5F] := rfl
  have hblock : IsBlock (parse 128) (2 ^ 64 - 1) (Mangle.ascii "g5Si__") intSpecialization := by
    rw [hletters]
    exact ⟨[], rfl⟩
  have hbytes : Mangle.ascii "_TTSg5Si___TTSg5Si___TtSi" =
      announced (List.replicate 2 (Mangle.ascii "g5Si__", intSpecialization)) ++
        (Mangle.ascii "_T" ++ Mangle.ascii "tSi") := rfl
  have hplain : demangle .symbol {} (.bytes (Mangle.ascii "_T" ++ Mangle.ascii "tSi")) =
      .tree intSymbol := rfl
  rw [hbytes]
  refine (demangle_blocks {} (List.replicate 2 (Mangle.ascii "g5Si__", intSpecialization))
    (Mangle.ascii "tSi") (by decide) (fun b hb => ?_) (by decide)).2.2 intSymbol hplain
  rw [List.eq_of_mem_replicate hb]
  exact ⟨hblock, intSpecialization_noClosure⟩

end SwiftMangling
