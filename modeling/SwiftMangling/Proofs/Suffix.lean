import SwiftMangling.Mangle.TypeExpr
import SwiftMangling.Proofs.GrammarSteady
import SwiftMangling.Proofs.Recorded
import SwiftMangling.Proofs.Symbol
import SwiftMangling.Proofs.Utf8

/-!
# Trailing bytes of a symbol

A symbol is settled by the bytes that it takes, up to the two exceptions of the grammar, so that
bytes put after it are trailing bytes and change nothing else. And where a symbol has trailing bytes,
it is the same symbol without them.
-/

namespace SwiftMangling

namespace Grammar

variable {call : Calls}

/-- What has no closures before the global and no open forwarder for it. -/
def PartsClosed (parts : List Node × Node) : Prop :=
  (∀ node ∈ parts.1, NoClosure node) ∧ ¬OpenForwarder parts.2

lemma steady_symbolParts (h : Settled call) :
    Steady PartsClosed (fun _ => 4) (fun _ => 0) (symbolParts call) := by
  have hbody : ∀ prelude : List Node, Steady PartsClosed (fun _ => 2) (fun _ => 0)
      (do let body ← call .global; pure (prelude, body)) := by
    intro prelude
    refine h.global.bind (fun body => (Settles.pure (prelude, body)).under) ?_
    intro body limit s parts s' hparts
    cases hparts
    exact ⟨And.right, Nat.le_refl _, Nat.le_refl _, Nat.le_refl _⟩
  refine (Settles.demand "_T").before (n := 2) ?_
  intro _
  refine (steady_symbolPrelude h).bind hbody fun prelude limit s parts s' hparts => ?_
  obtain ⟨body, s₁, -, hparts⟩ := Parser.bind_found hparts
  cases hparts
  exact ⟨And.left, Nat.le_refl _, Nat.le_refl _, Nat.le_refl _⟩

/-- What comes before trailing bytes is never the node that holds them. -/
lemma symbolParts_notSuffix {budget : Nat} {limit : Int} {bytes rest : Bytes}
    {table : References Node} {parts : List Node × Node}
    (hparts : symbolParts (parse budget) limit ⟨bytes, []⟩ = .found parts ⟨rest, table⟩) :
    NotSuffix parts.2 := by
  obtain ⟨_, s₁, hmark, hparts⟩ := Parser.bind_found hparts
  obtain ⟨prelude, s₂, hprelude, hparts⟩ := Parser.bind_found hparts
  obtain ⟨body, s₃, hbody, hparts⟩ := Parser.bind_found hparts
  cases hparts
  have hR := keepsRecorded
  have hcall := parse_keepsRecorded budget
  have hs₁ : AllRecorded s₁.recorded :=
    hR.demand "_T" limit _ (fun _ h => absurd h List.not_mem_nil) s₁ (.inr ⟨_, hmark⟩)
  have hs₂ : AllRecorded s₂.recorded :=
    hR.symbolPrelude hcall limit s₁ hs₁ s₂ (.inr ⟨_, hprelude⟩)
  exact parse_global_notSuffix budget limit s₂ body _ hs₂ hbody

lemma noClosure_mk {kind : Kind} {payload : Payload} {children : List Node}
    (hmark : ¬IsClosureMark (.mk kind payload children))
    (hchildren : ∀ child ∈ children, NoClosure child) : NoClosure (.mk kind payload children) := by
  intro inner hinner
  cases hinner with
  | here => exact hmark
  | inside hchild h => exact hchildren _ hchild inner h

end Grammar

open Grammar

/-- The parts of a symbol without trailing bytes take all the bytes there are. -/
lemma symbolParts_of_demangle {settings : Settings} {front : Bytes} {root : Node}
    (hfront : demangle .symbol settings (.bytes front) = .tree root)
    (hsuffix : ∀ child ∈ root.children, child.kind ≠ .suffix) :
    ∃ parts table, symbolParts (parse settings.maxDepth.toInt.toNat) settings.maxNatural.toInt
      ⟨front, []⟩ = .found parts ⟨[], table⟩ ∧ root = symbolTree parts [] := by
  obtain ⟨s, hsymbol⟩ := demangle_eq_tree_iff.1 hfront
  obtain ⟨parts, left, table, hparts, rfl⟩ := symbolParts_of_found hsymbol
  have hleft : left = [] := by
    by_contra hne
    refine hsuffix (.named .suffix (Utf8.decode left)) ?_ rfl
    show _ ∈ parts.1 ++ parts.2 :: suffixOf left
    rw [suffixOf_of_ne_nil hne]
    simp
  subst hleft
  exact ⟨parts, table, hparts, rfl⟩

/-- What the parts of a symbol leave are its trailing bytes. -/
lemma demangle_of_symbolParts {settings : Settings} {bytes rest : Bytes} {parts : List Node × Node}
    {table : References Node} (hrest : rest ≠ [])
    (hparts : symbolParts (parse settings.maxDepth.toInt.toNat) settings.maxNatural.toInt ⟨bytes, []⟩ =
      .found parts ⟨rest, table⟩) :
    demangle .symbol settings (.bytes bytes) =
      .tree ((symbolTree parts []).push (.named .suffix (Utf8.decode rest))) := by
  refine demangle_eq_tree_iff.2 ⟨⟨[], table⟩, ?_⟩
  rw [← symbolTree_eq_push parts hrest]
  exact symbol_found hparts

/-- Bytes that follow a symbol make one more child, which is the last and holds them, if the symbol
has no trailing bytes and no closures yet and its global is no open forwarder. -/
lemma demangle_append {settings : Settings} {front rest : Bytes} {root : Node} (hrest : rest ≠ [])
    (hfront : demangle .symbol settings (.bytes front) = .tree root)
    (hsuffix : ∀ child ∈ root.children, child.kind ≠ .suffix) (hclosure : NoClosure root)
    (hforwarder : ∀ body, root.children.getLast? = some body → ¬OpenForwarder body) :
    demangle .symbol settings (.bytes (front ++ rest)) =
      .tree (root.push (.named .suffix (Utf8.decode rest))) := by
  obtain ⟨parts, table, hparts, rfl⟩ := symbolParts_of_demangle hfront hsuffix
  have hclosed : PartsClosed parts := by
    refine ⟨fun node hnode => hclosure.of_mem ?_, hforwarder parts.2 ?_⟩
    · exact List.mem_append_left _ hnode
    · exact List.getLast?_concat
  have hsteady := steady_symbolParts (settled_parse settings.maxDepth.toInt.toNat)
  exact demangle_of_symbolParts hrest (hsteady.longer hparts hclosed (Nat.zero_le _) rest)

/-- A symbol that has trailing bytes is the same symbol without them. -/
lemma demangle_split {settings : Settings} {bytes : Bytes} {root suffix : Node}
    (hbytes : demangle .symbol settings (.bytes bytes) = .tree root)
    (hlast : root.children.getLast? = some suffix) (hkind : suffix.kind = .suffix) :
    ∃ front rest trunk, bytes = front ++ rest ∧ rest ≠ [] ∧
      suffix = .named .suffix (Utf8.decode rest) ∧
      demangle .symbol settings (.bytes front) = .tree trunk ∧ root = trunk.push suffix := by
  obtain ⟨s, hsymbol⟩ := demangle_eq_tree_iff.1 hbytes
  obtain ⟨parts, rest, table, hparts, rfl⟩ := symbolParts_of_found hsymbol
  have hrest : rest ≠ [] := by
    rintro rfl
    have hbody : (symbolTree parts []).children.getLast? = some parts.2 := List.getLast?_concat
    obtain rfl : parts.2 = suffix := Option.some.inj (hbody.symm.trans hlast)
    exact symbolParts_notSuffix hparts hkind
  have hsuffix : suffix = .named .suffix (Utf8.decode rest) := by
    have hpush : (symbolTree parts rest).children.getLast? =
        some (.named .suffix (Utf8.decode rest)) := by
      rw [symbolTree_eq_push parts hrest]
      exact List.getLast?_concat
    exact Option.some.inj (hlast.symm.trans hpush)
  obtain ⟨front, rfl, -, hsame⟩ := (steady_symbolParts (settled_parse _)).found hparts
  have hparts' := hsame [] (.inl ⟨alike_zero _ _, .inr List.nil_prefix⟩)
  rw [List.append_nil] at hparts'
  refine ⟨front, rest, symbolTree parts [], rfl, hrest, hsuffix, ?_, ?_⟩
  · exact demangle_eq_tree_iff.2 ⟨⟨[], table⟩, symbol_found hparts'⟩
  · rw [hsuffix, symbolTree_eq_push parts hrest]

/-- The law of trailing bytes, in both directions. Put after a symbol they add a child that holds
them and change nothing else. In a symbol that has them, they are what its last child holds, byte by
byte, and the symbol is the same without them. -/
theorem demangle_suffix (settings : Settings) :
    (∀ (front rest : Bytes) (root : Node), rest ≠ [] →
      demangle .symbol settings (.bytes front) = .tree root →
      (∀ child ∈ root.children, child.kind ≠ .suffix) → NoClosure root →
      (∀ body, root.children.getLast? = some body → ¬OpenForwarder body) →
      demangle .symbol settings (.bytes (front ++ rest)) =
        .tree (root.push (.named .suffix (Utf8.decode rest)))) ∧
    ∀ (bytes : Bytes) (root suffix : Node),
      demangle .symbol settings (.bytes bytes) = .tree root →
      root.children.getLast? = some suffix → suffix.kind = .suffix →
      ∃! split : Bytes × Bytes, bytes = split.1 ++ split.2 ∧ split.2 ≠ [] ∧
        suffix = .named .suffix (Utf8.decode split.2) ∧
        Utf8.encodeEscaped? (Utf8.decode split.2) = some split.2 ∧
        ∃ trunk, demangle .symbol settings (.bytes split.1) = .tree trunk ∧
          root = trunk.push suffix := by
  constructor
  · intro front rest root hrest hfront hsuffix hclosure hforwarder
    exact demangle_append hrest hfront hsuffix hclosure hforwarder
  · intro bytes root suffix hbytes hlast hkind
    obtain ⟨front, rest, trunk, rfl, hrest, rfl, hfront, hroot⟩ := demangle_split hbytes hlast hkind
    refine ⟨(front, rest), ⟨rfl, hrest, rfl, Utf8.encodeEscaped?_decode rest, trunk, hfront, hroot⟩, ?_⟩
    rintro ⟨front', rest'⟩ ⟨happend, -, hsuffix, -⟩
    obtain rfl : rest = rest' := by
      apply Utf8.decode_injective
      injection hsuffix with _ hpayload
      injection hpayload
    rw [List.append_cancel_right happend]

/-- The symbol of the type of integers. -/
def intSymbol : Node :=
  .branch .global [.branch .typeMangling [(Mangle.TypeExpr.standard .int).tree]]

lemma intSymbol_noClosure : NoClosure intSymbol := by
  have hleaf : ∀ (kind : Kind) (content : Text), NoClosure (.named kind content) := by
    intro kind content
    exact noClosure_mk (fun h => absurd h.2 nofun) nofun
  have hbranch : ∀ (kind : Kind) (children : List Node), (∀ child ∈ children, NoClosure child) →
      NoClosure (.branch kind children) := by
    intro kind children h
    exact noClosure_mk (fun h => absurd h.2 nofun) h
  refine hbranch .global _ fun child hchild => ?_
  rw [List.mem_singleton.1 hchild]
  refine hbranch .typeMangling _ fun child hchild => ?_
  rw [List.mem_singleton.1 hchild]
  refine hbranch .type _ fun child hchild => ?_
  rw [List.mem_singleton.1 hchild]
  refine hbranch .structureDecl _ fun child hchild => ?_
  obtain rfl | hchild := List.mem_cons.1 hchild
  · exact hleaf .moduleName "Swift"
  · rw [List.mem_singleton.1 hchild]
    exact hleaf .identifier "Int"

/-- A full stop and a byte that is no text, after the symbol of the type of integers. -/
theorem demangle_suffix_int :
    demangle .symbol {} (.bytes (Mangle.ascii "_TtSi" ++ [0x2E, 0xFF])) =
        .tree (intSymbol.push (.named .suffix (Utf8.decode [0x2E, 0xFF]))) ∧
      ∃! split : Bytes × Bytes, Mangle.ascii "_TtSi" ++ [0x2E, 0xFF] = split.1 ++ split.2 ∧
        split.2 ≠ [] ∧ .named .suffix (Utf8.decode [0x2E, 0xFF]) =
          Node.named .suffix (Utf8.decode split.2) ∧
        Utf8.encodeEscaped? (Utf8.decode split.2) = some split.2 ∧
        ∃ trunk, demangle .symbol {} (.bytes split.1) = .tree trunk ∧
          intSymbol.push (.named .suffix (Utf8.decode [0x2E, 0xFF])) =
            trunk.push (.named .suffix (Utf8.decode [0x2E, 0xFF])) := by
  have hint : demangle .symbol {} (.bytes (Mangle.ascii "_TtSi")) = .tree intSymbol := rfl
  have hsuffix : ∀ child ∈ intSymbol.children, child.kind ≠ .suffix := by
    intro child hchild
    rw [List.mem_singleton.1 hchild]
    decide
  have hforwarder : ∀ body, intSymbol.children.getLast? = some body → ¬OpenForwarder body := by
    rintro body hbody hopen
    cases hbody
    cases hopen with
    | outer hkind _ => exact hkind.elim nofun nofun
  have happend := (demangle_suffix {}).1 (Mangle.ascii "_TtSi") [0x2E, 0xFF] intSymbol (by decide)
    hint hsuffix intSymbol_noClosure hforwarder
  exact ⟨happend, (demangle_suffix {}).2 _ _ _ happend rfl rfl⟩

end SwiftMangling
