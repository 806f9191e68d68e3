import Mathlib.Data.List.TakeWhile
import SwiftMangling.Node.Basic
import SwiftMangling.Proofs.KindNames
import SwiftMangling.Proofs.Words

/-!
# Trees are read off their lines

A line tells the depth, the kind and the payload of its node. The children of a node are in the lines
below its own that stand deeper, up to the first one that does not. So the written form tells the tree,
whatever is in the texts, as long as no text breaks its line.
-/

namespace SwiftMangling

/-- A list splits in one way where a property stops. -/
lemma append_inj_of_stop {α : Type} {p : α → Bool} {as bs rest rest' : List α}
    (has : ∀ a ∈ as, p a = true) (hbs : ∀ b ∈ bs, p b = true)
    (hrest : ∀ c ∈ rest.head?, p c = false) (hrest' : ∀ c ∈ rest'.head?, p c = false)
    (h : as ++ rest = bs ++ rest') : as = bs ∧ rest = rest' := by
  have hstop : ∀ rest : List α, (∀ c ∈ rest.head?, p c = false) → rest.takeWhile p = [] := by
    intro rest hrest
    cases rest with
    | nil => rfl
    | cons c rest => simp [hrest c rfl]
  have hfront := congrArg (List.takeWhile p) h
  rw [List.takeWhile_append_of_pos has, List.takeWhile_append_of_pos hbs, hstop rest hrest,
    hstop rest' hrest', List.append_nil, List.append_nil] at hfront
  subst hfront
  exact ⟨rfl, List.append_cancel_left h⟩

namespace Decimal

lemma mem_ofInt {i : Int} {c : Char} (hc : c ∈ ofInt i) : c = '-' ∨ c.isDigit = true := by
  have hdigits : ∀ n, c ∈ Nat.toDigits 10 n → c.isDigit = true :=
    fun n => Nat.isDigit_of_mem_toDigits (by omega) (by omega)
  cases i with
  | ofNat n => exact .inr (hdigits n hc)
  | negSucc n => exact (List.mem_cons.1 hc).imp_right (hdigits (n + 1))

lemma toDigits_injective : Function.Injective (Nat.toDigits 10) := by
  intro n k h
  rw [← Nat.ofDigitChars_ten_toDigits (n := n), h, Nat.ofDigitChars_ten_toDigits]

lemma ofInt_injective : Function.Injective ofInt := by
  have hminus : ∀ n k, Nat.toDigits 10 n ≠ '-' :: Nat.toDigits 10 k := by
    intro n k h
    have hdigit : ('-').isDigit = true :=
      Nat.isDigit_of_mem_toDigits (by omega) (by omega) (h ▸ List.mem_cons_self)
    cases hdigit
  intro i j h
  cases i with
  | ofNat n =>
    cases j with
    | ofNat k => rw [toDigits_injective h]
    | negSucc k => exact absurd h (hminus n (k + 1))
  | negSucc n =>
    cases j with
    | ofNat k => exact absurd h.symm (hminus k (n + 1))
    | negSucc k => rw [Nat.succ_injective (toDigits_injective (List.cons.inj h).2)]

theorem text_injective : Function.Injective text := by
  intro i j h
  exact ofInt_injective (CodePoint.ofChar_injective.list_map h)

lemma ne_of_mem_text {i : Int} {c : CodePoint} (hc : c ∈ text i) {d : Char} (hminus : d ≠ '-')
    (hdigit : d.isDigit = false) : c ≠ .ofChar d := by
  obtain ⟨letter, hletter, rfl⟩ := List.mem_map.1 hc
  intro h
  obtain rfl := CodePoint.ofChar_injective h
  rcases mem_ofInt hletter with h | h
  · exact hminus h
  · rw [hdigit] at h
    cases h

end Decimal

namespace Payload

/-- The payload does not break its line. -/
def IsLine (payload : Payload) : Prop :=
  ∀ content, payload = .text content → Text.newline ∉ content

instance : DecidablePred IsLine
  | .empty => isTrue nofun
  | .text content =>
    decidable_of_iff (content.all fun c => c ≠ Text.newline) (by simp [IsLine, List.forall_mem_ne'])
  | .index _ => isTrue nofun

lemma head_suffix (payload : Payload) : ∀ c ∈ payload.suffix.head?, c = .ofChar ',' := by
  cases payload <;> simp [suffix, Text.ofString]

lemma suffix_injective : Function.Injective suffix := by
  have hletters : CodePoint.ofChar 't' ≠ .ofChar 'i' := by decide
  intro payload payload' h
  cases payload with
  | empty => cases payload' <;> simp [suffix, Text.ofString] at h ⊢
  | text content =>
    cases payload' with
    | empty => simp [suffix, Text.ofString] at h
    | text content' =>
      rw [List.append_cancel_left (List.append_cancel_right h)]
    | index number => simp [suffix, Text.ofString, hletters] at h
  | index number =>
    cases payload' with
    | empty => simp [suffix, Text.ofString] at h
    | text content => simp [suffix, Text.ofString, hletters.symm] at h
    | index number' => rw [Decimal.text_injective (List.append_cancel_left h)]

lemma newline_notMem_suffix {payload : Payload} (h : payload.IsLine) :
    Text.newline ∉ payload.suffix := by
  have hopen : Text.newline ∉ (", text=\"" : Text) := by decide
  have hclose : Text.newline ∉ ("\"" : Text) := by decide
  have hindex : Text.newline ∉ (", index=" : Text) := by decide
  cases payload with
  | empty => exact List.not_mem_nil
  | text content => simp [suffix, hopen, hclose, h content rfl]
  | index number =>
    have hnumber : Text.newline ∉ Decimal.text number := fun hmem =>
      Decimal.ne_of_mem_text hmem (by decide) (by decide) rfl
    simp [suffix, hindex, hnumber]

end Payload

namespace Node

lemma headLine_eq (depth : Nat) (kind : Kind) (payload : Payload) :
    headLine depth kind payload = List.replicate (2 * depth) CodePoint.space ++
      (Text.ofString "kind=" ++ (Text.ofString kind.name ++ payload.suffix)) := by
  simp [headLine]

/-- A line tells what it is the line of. -/
theorem headLine_inj {depth depth' : Nat} {kind kind' : Kind} {payload payload' : Payload}
    (h : headLine depth kind payload = headLine depth' kind' payload') :
    depth = depth' ∧ kind = kind' ∧ payload = payload' := by
  rw [headLine_eq, headLine_eq] at h
  have hspaces : ∀ n, ∀ c ∈ List.replicate (2 * n) CodePoint.space, (c = CodePoint.space : Bool) = true := by
    intro n c hc
    exact decide_eq_true (List.eq_of_mem_replicate hc)
  have hword : ∀ t : Text, ∀ c ∈ (Text.ofString "kind=" ++ t).head?,
      (c = CodePoint.space : Bool) = false := by
    intro t c hc
    obtain rfl : CodePoint.ofChar 'k' = c := Option.some.inj hc
    decide
  obtain ⟨hindent, hrest⟩ := append_inj_of_stop (hspaces depth) (hspaces depth') (hword _) (hword _) h
  have hdepth : 2 * depth = 2 * depth' := by simpa using congrArg List.length hindent
  have hnames : ∀ kind : Kind, ∀ c ∈ Text.ofString kind.name, (c ≠ .ofChar ',' : Bool) = true := by
    intro kind c hc
    exact decide_eq_true (Kind.ne_of_mem_name hc (by decide))
  have hsuffix : ∀ payload : Payload, ∀ c ∈ payload.suffix.head?, (c ≠ .ofChar ',' : Bool) = false := by
    intro payload c hc
    simp [payload.head_suffix c hc]
  obtain ⟨hname, hpayload⟩ := append_inj_of_stop (hnames kind) (hnames kind') (hsuffix payload)
    (hsuffix payload') (List.append_cancel_left hrest)
  exact ⟨by omega, Kind.name_injective (Text.ofString_injective hname),
    Payload.suffix_injective hpayload⟩

lemma newline_notMem_headLine (depth : Nat) (kind : Kind) {payload : Payload} (h : payload.IsLine) :
    Text.newline ∉ headLine depth kind payload := by
  have hspace : Text.newline ≠ CodePoint.space := by decide
  have hword : Text.newline ∉ Text.ofString "kind=" := by decide
  have hname : Text.newline ∉ Text.ofString kind.name := fun hmem =>
    Kind.ne_of_mem_name hmem (by decide) rfl
  simp [headLine_eq, List.mem_replicate, hspace, hword, hname, Payload.newline_notMem_suffix h]

/-- What a line of a written tree says. -/
structure Heading where
  depth : Nat
  kind : Kind
  payload : Payload

namespace Heading

def line (heading : Heading) : Text :=
  headLine heading.depth heading.kind heading.payload

lemma line_injective : Function.Injective line := by
  intro heading heading' h
  obtain ⟨depth, kind, payload⟩ := heading
  obtain ⟨depth', kind', payload'⟩ := heading'
  obtain ⟨rfl, rfl, rfl⟩ := headLine_inj h
  rfl

end Heading

mutual

/-- The nodes of a tree in the order of their lines. -/
def outline (depth : Nat) : Node → List Heading
  | mk kind payload children => ⟨depth, kind, payload⟩ :: outlineAll (depth + 1) children

def outlineAll (depth : Nat) : List Node → List Heading
  | [] => []
  | node :: nodes => outline depth node ++ outlineAll depth nodes

end

mutual

theorem map_line_outline (depth : Nat) (node : Node) :
    (node.outline depth).map Heading.line = node.lines depth := by
  obtain ⟨kind, payload, children⟩ := node
  rw [outline, List.map_cons, map_line_outlineAll, lines]
  rfl

theorem map_line_outlineAll (depth : Nat) (nodes : List Node) :
    (outlineAll depth nodes).map Heading.line = linesAll depth nodes := by
  cases nodes with
  | nil => rfl
  | cons node nodes =>
    rw [outlineAll, List.map_append, map_line_outline, map_line_outlineAll, linesAll]

end

lemma outlineAll_eq_flatMap (depth : Nat) (nodes : List Node) :
    outlineAll depth nodes = nodes.flatMap (outline depth) := by
  induction nodes with
  | nil => rfl
  | cons node nodes ih => rw [outlineAll, ih, List.flatMap_cons]

/-- The headings do not begin below a depth. -/
def EndsBefore (depth : Nat) (headings : List Heading) : Prop :=
  ∀ heading ∈ headings.head?, heading.depth < depth

lemma EndsBefore.outlineAll_append {depth : Nat} {headings : List Heading}
    (h : EndsBefore depth headings) (nodes : List Node) :
    EndsBefore (depth + 1) (outlineAll depth nodes ++ headings) := by
  cases nodes with
  | nil => exact fun heading hheading => Nat.lt_succ_of_lt (h heading hheading)
  | cons node nodes =>
    obtain ⟨kind, payload, children⟩ := node
    intro heading hheading
    obtain rfl := Option.some.inj hheading
    exact Nat.lt_succ_self depth

mutual

/-- A tree is told by its headings and by where the next ones stand. -/
theorem outline_append_inj {depth : Nat} (node node' : Node) {rest rest' : List Heading}
    (hrest : EndsBefore (depth + 1) rest) (hrest' : EndsBefore (depth + 1) rest')
    (h : node.outline depth ++ rest = node'.outline depth ++ rest') : node = node' ∧ rest = rest' := by
  obtain ⟨kind, payload, children⟩ := node
  obtain ⟨kind', payload', children'⟩ := node'
  simp only [outline, List.cons_append, List.cons.injEq, Heading.mk.injEq, true_and] at h
  obtain ⟨⟨rfl, rfl⟩, hbelow⟩ := h
  obtain ⟨rfl, hrests⟩ := outlineAll_append_inj children children' hrest hrest' hbelow
  exact ⟨rfl, hrests⟩

theorem outlineAll_append_inj {depth : Nat} (nodes nodes' : List Node) {rest rest' : List Heading}
    (hrest : EndsBefore depth rest) (hrest' : EndsBefore depth rest')
    (h : outlineAll depth nodes ++ rest = outlineAll depth nodes' ++ rest') :
    nodes = nodes' ∧ rest = rest' := by
  have hdeeper : ∀ node nodes (rest rest' : List Heading), EndsBefore depth rest →
      rest ≠ outlineAll depth (node :: nodes) ++ rest' := by
    intro node nodes rest rest' hrest h
    obtain ⟨kind, payload, children⟩ := node
    subst h
    exact Nat.lt_irrefl depth (hrest ⟨depth, kind, payload⟩ rfl)
  cases nodes with
  | nil =>
    cases nodes' with
    | nil => exact ⟨rfl, h⟩
    | cons node' nodes' => exact absurd h (hdeeper node' nodes' rest rest' hrest)
  | cons node nodes =>
    cases nodes' with
    | nil => exact absurd h.symm (hdeeper node nodes rest' rest hrest')
    | cons node' nodes' =>
      rw [outlineAll, outlineAll, List.append_assoc, List.append_assoc] at h
      obtain ⟨rfl, hothers⟩ := outline_append_inj node node' (hrest.outlineAll_append nodes)
        (hrest'.outlineAll_append nodes') h
      obtain ⟨rfl, hrests⟩ := outlineAll_append_inj nodes nodes' hrest hrest' hothers
      exact ⟨rfl, hrests⟩

end

theorem outline_injective (depth : Nat) : Function.Injective (outline depth) := by
  intro node node' h
  have hnil : EndsBefore (depth + 1) [] := fun _ hheading => nomatch hheading
  have happend : node.outline depth ++ [] = node'.outline depth ++ [] := by rw [h]
  exact (outline_append_inj node node' hnil hnil happend).1

/-- No text in the tree breaks its line. -/
def HasLines (node : Node) : Prop :=
  ∀ heading ∈ node.outline 0, heading.payload.IsLine

lemma splitOn_dump {node : Node} (h : node.HasLines) :
    Text.splitOn Text.newline node.dump = node.lines 0 := by
  rw [dump]
  apply Text.splitOn_join
  · obtain ⟨kind, payload, children⟩ := node
    exact List.cons_ne_nil _ _
  · intro line hline
    rw [← map_line_outline] at hline
    obtain ⟨heading, hheading, rfl⟩ := List.mem_map.1 hline
    exact newline_notMem_headLine _ _ (h heading hheading)

/-- Trees without line breaks in their texts are the same if they are written alike. -/
theorem eq_of_dump_eq {node node' : Node} (h : node.HasLines) (h' : node'.HasLines)
    (hdump : node.dump = node'.dump) : node = node' := by
  have hlines : node.lines 0 = node'.lines 0 := by
    rw [← splitOn_dump h, ← splitOn_dump h', hdump]
  rw [← map_line_outline, ← map_line_outline] at hlines
  exact outline_injective 0 (Heading.line_injective.list_map hlines)

end Node

end SwiftMangling
