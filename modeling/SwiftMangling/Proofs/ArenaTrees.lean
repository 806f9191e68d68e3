import Mathlib.Data.Fintype.Card
import Mathlib.Data.Set.List
import SwiftMangling.Node.Height
import SwiftMangling.Proofs.ArenaHistory
import SwiftMangling.Proofs.WrittenTrees

/-!
# Nodes of arenas as trees

What is below a node is a tree, with a node as often as there are ways to it, unless a node is below
itself. No such tree has more levels than its arena has nodes, so the bounds for unfolding a node and for
comparing two of them are never reached. Nodes of one arena or of two compare as their trees do, and as
their written forms do.
-/

namespace SwiftMangling

/-- The text of a node is a text, and does not break its line. -/
def Cell.IsLine (cell : Cell) : Prop :=
  cell.ofBytes = false ∧ cell.payload.IsLine

instance : DecidablePred Cell.IsLine := fun cell =>
  inferInstanceAs (Decidable (cell.ofBytes = false ∧ cell.payload.IsLine))

namespace Arenas

variable {arenas : Arenas} {ref : NodeRef} {tree : Node}

/-- A property of a node and of all nodes below it. They are there, and no node is below itself, so that
the levels come to an end. -/
inductive Throughout (arenas : Arenas) (P : Cell → Prop) : NodeRef → Prop
  | node {ref : NodeRef} {cell : Cell} (there : arenas.cell? ref = some cell) (own : P cell)
    (below : ∀ number ∈ cell.children, Throughout arenas P ⟨ref.arena, number⟩) :
    Throughout arenas P ref

/-- The tree below a node, however many levels it has. -/
def Unfolds (arenas : Arenas) (ref : NodeRef) (tree : Node) : Prop :=
  ∃ bound, arenas.treeWithin bound ref = .ok tree

lemma mapM_eq_ok_iff {α β : Type} (f : α → Except Fault β) (items : List α) (results : List β) :
    items.mapM f = .ok results ↔ items.map f = results.map .ok := by
  induction items generalizing results with
  | nil => cases results <;> simp [pure, Except.pure]
  | cons item items ih =>
    rw [List.mapM_cons]
    cases hitem : f item with
    | error fault => cases results <;> simp [bind, Except.bind, hitem]
    | ok first =>
      cases hitems : items.mapM f with
      | error fault =>
        have hnone : ∀ others : List β, items.map f ≠ others.map .ok := by
          intro others h
          rw [← ih, hitems] at h
          cases h
        cases results <;> simp [bind, Except.bind, hnone]
      | ok others =>
        have hothers : ∀ results, items.map f = results.map .ok ↔ others = results := by
          intro results
          rw [← ih, hitems, Except.ok.injEq]
        cases results <;> simp [bind, Except.bind, pure, Except.pure, hitem, hothers]

lemma map_eq_map_ok_congr {α β : Type} {f g : α → Except Fault β} (items : List α) (results : List β)
    (h : ∀ item result, f item = .ok result ↔ g item = .ok result) :
    items.map f = results.map .ok ↔ items.map g = results.map .ok := by
  induction items generalizing results with
  | nil => simp
  | cons item items ih => cases results <;> simp [h, ih]

/-- A node unfolds to its own part and to what its children unfold to within one level less. -/
lemma treeWithin_succ_eq_ok_iff {bound : Nat} :
    arenas.treeWithin (bound + 1) ref = .ok tree ↔
      ∃ cell trees, arenas.cell? ref = some cell ∧
        (cell.children.map fun number => arenas.treeWithin bound ⟨ref.arena, number⟩) = trees.map .ok ∧
        tree = .mk cell.kind cell.payload trees := by
  have hchild : ∀ number child, (arenas.childRef ref number >>= arenas.treeWithin bound) = .ok child ↔
      arenas.treeWithin bound ⟨ref.arena, number⟩ = .ok child := by
    intro number child
    cases hcell : arenas.cell? ⟨ref.arena, number⟩ with
    | some cell => simp [childRef, lookUp, hcell, Except.map, bind, Except.bind]
    | none =>
      -- without a node there is no tree either
      cases bound <;> simp [childRef, treeWithin, lookUp, hcell, Except.map, bind, Except.bind]
  cases hcell : arenas.cell? ref with
  | none => simp [treeWithin, lookUp, hcell, bind, Except.bind]
  | some cell =>
    have hbody : arenas.treeWithin (bound + 1) ref =
        (cell.children.mapM fun number => arenas.childRef ref number >>= arenas.treeWithin bound).map
          (Node.mk cell.kind cell.payload) := by
      rw [treeWithin, lookUp, hcell]
      rfl
    have hmap : ∀ below : Except Fault (List Node), below.map (Node.mk cell.kind cell.payload) = .ok tree ↔
        ∃ trees, below = .ok trees ∧ tree = .mk cell.kind cell.payload trees := by
      intro below
      cases below <;> simp [Except.map, eq_comm]
    rw [hbody, hmap]
    constructor
    · rintro ⟨trees, hbelow, htree⟩
      rw [mapM_eq_ok_iff, map_eq_map_ok_congr _ _ hchild] at hbelow
      exact ⟨cell, trees, rfl, hbelow, htree⟩
    · rintro ⟨_, trees, hsame, hbelow, htree⟩
      obtain rfl := Option.some.inj hsame
      refine ⟨trees, ?_, htree⟩
      rwa [mapM_eq_ok_iff, map_eq_map_ok_congr _ _ hchild]

namespace Unfolds

lemma height_le {bound : Nat} (h : arenas.treeWithin bound ref = .ok tree) : tree.height ≤ bound := by
  induction bound generalizing ref tree with
  | zero => cases h
  | succ bound ih =>
    obtain ⟨cell, trees, -, hbelow, rfl⟩ := treeWithin_succ_eq_ok_iff.1 h
    apply Node.height_le
    intro child hchild
    have hmem : (.ok child : Except Fault Node) ∈ trees.map .ok := List.mem_map_of_mem hchild
    rw [← hbelow, List.mem_map] at hmem
    obtain ⟨number, -, hnumber⟩ := hmem
    exact ih hnumber

/-- Within any bound that is not below its levels a tree is found. -/
lemma treeWithin_eq (h : arenas.Unfolds ref tree) {bound : Nat} (hbound : tree.height ≤ bound) :
    arenas.treeWithin bound ref = .ok tree := by
  obtain ⟨enough, h⟩ := h
  induction enough generalizing ref tree bound with
  | zero => cases h
  | succ enough ih =>
    obtain ⟨cell, trees, hcell, hbelow, rfl⟩ := treeWithin_succ_eq_ok_iff.1 h
    obtain ⟨less, rfl⟩ : ∃ less, bound = less + 1 :=
      Nat.exists_eq_add_one_of_ne_zero (Nat.ne_zero_of_lt (Nat.lt_of_succ_le hbound))
    rw [Node.height, Nat.succ_le_succ_iff, Node.heightAll_le_iff] at hbound
    refine treeWithin_succ_eq_ok_iff.2 ⟨cell, trees, hcell, ?_, rfl⟩
    rw [← hbelow]
    apply List.map_congr_left
    intro number hnumber
    have hmem := List.mem_map_of_mem (f := fun number => arenas.treeWithin enough ⟨ref.arena, number⟩) hnumber
    rw [hbelow, List.mem_map] at hmem
    obtain ⟨child, hchild, heq⟩ := hmem
    rw [← heq]
    exact ih (hbound child hchild) heq.symm

lemma unique (h : arenas.Unfolds ref tree) {tree' : Node} (h' : arenas.Unfolds ref tree') :
    tree = tree' := by
  have hmax := h.treeWithin_eq (Nat.le_max_left tree.height tree'.height)
  rw [h'.treeWithin_eq (Nat.le_max_right tree.height tree'.height)] at hmax
  exact (Except.ok.inj hmax).symm

/-- Down from the root of a tree to one of its lowest nodes, the number of levels goes through all
numbers, and each belongs to a node of the arena. -/
lemma exists_height_eq (h : arenas.Unfolds ref tree) {height : Nat} (hpos : 0 < height)
    (hle : height ≤ tree.height) :
    ∃ number < arenas.size ref.arena, ∃ below, arenas.Unfolds ⟨ref.arena, number⟩ below ∧
      below.height = height := by
  obtain ⟨bound, h⟩ := h
  induction bound generalizing ref tree with
  | zero => cases h
  | succ bound ih =>
    obtain ⟨cell, trees, hcell, hbelow, rfl⟩ := treeWithin_succ_eq_ok_iff.1 h
    by_cases hroot : height = (Node.mk cell.kind cell.payload trees).height
    · have hnumber : ref.cell < arenas.size ref.arena := (List.getElem?_eq_some_iff.1 hcell).1
      exact ⟨ref.cell, hnumber, _, ⟨bound + 1, h⟩, hroot.symm⟩
    · have hlower : ¬Node.heightAll trees ≤ height - 1 := by
        rw [Node.height] at hle hroot
        omega
      rw [Node.heightAll_le_iff] at hlower
      push Not at hlower
      obtain ⟨child, hchild, hhigh⟩ := hlower
      have hmem : (.ok child : Except Fault Node) ∈ trees.map .ok := List.mem_map_of_mem hchild
      rw [← hbelow, List.mem_map] at hmem
      obtain ⟨number, -, hnumber⟩ := hmem
      exact @ih ⟨ref.arena, number⟩ child (by omega) hnumber

/-- A tree has no more levels than the arena has nodes: nodes with different numbers of levels are
different nodes. -/
theorem height_le_size (h : arenas.Unfolds ref tree) : tree.height ≤ arenas.size ref.arena := by
  have hlevel : ∀ level : Fin tree.height, ∃ number < arenas.size ref.arena, ∃ below,
      arenas.Unfolds ⟨ref.arena, number⟩ below ∧ below.height = level + 1 :=
    fun level => h.exists_height_eq (Nat.succ_pos level) level.isLt
  choose number hnumber below hbelow hheight using hlevel
  have hinjective : Function.Injective fun level => (⟨number level, hnumber level⟩ : Fin _) := by
    intro level level' hsame
    have hunfolds := hbelow level
    rw [Fin.mk.inj hsame] at hunfolds
    have hheights := hheight level
    rw [hunfolds.unique (hbelow level'), hheight level'] at hheights
    exact Fin.ext (Nat.succ_injective hheights.symm)
  simpa using Fintype.card_le_of_injective _ hinjective

theorem tree_eq (h : arenas.Unfolds ref tree) : arenas.tree ref = .ok tree :=
  h.treeWithin_eq (Nat.le_succ_of_le h.height_le_size)

end Unfolds

lemma exists_trees {arena : Nat} {numbers : List Nat}
    (h : ∀ number ∈ numbers, ∃ tree, arenas.Unfolds ⟨arena, number⟩ tree) :
    ∃ trees : List Node, (numbers.map fun number => arenas.tree ⟨arena, number⟩) = trees.map .ok := by
  have hrange : (numbers.map fun number => arenas.tree ⟨arena, number⟩) ∈
      Set.range (List.map (Except.ok : Node → Except Fault Node)) := by
    rw [Set.range_list_map]
    intro child hchild
    obtain ⟨number, hnumber, rfl⟩ := List.mem_map.1 hchild
    obtain ⟨tree, htree⟩ := h number hnumber
    exact ⟨tree, htree.tree_eq.symm⟩
  obtain ⟨trees, htrees⟩ := hrange
  exact ⟨trees, htrees.symm⟩

lemma unfolds_of_trees {cell : Cell} {trees : List Node} (hcell : arenas.cell? ref = some cell)
    (htrees : (cell.children.map fun number => arenas.tree ⟨ref.arena, number⟩) = trees.map .ok) :
    arenas.Unfolds ref (.mk cell.kind cell.payload trees) :=
  ⟨arenas.size ref.arena + 2, treeWithin_succ_eq_ok_iff.2 ⟨cell, trees, hcell, htrees, rfl⟩⟩

/-- Where no node is below itself there is a tree. -/
theorem Throughout.exists_unfolds {P : Cell → Prop} (h : arenas.Throughout P ref) :
    ∃ tree, arenas.Unfolds ref tree := by
  induction h with
  | node there own below ih =>
    obtain ⟨trees, htrees⟩ := exists_trees ih
    exact ⟨_, unfolds_of_trees there htrees⟩

/-- A node with a tree is its own part and the trees of its children. -/
lemma Throughout.parts {P : Cell → Prop} (h : arenas.Throughout P ref) :
    ∃ cell trees, arenas.cell? ref = some cell ∧ P cell ∧
      (∀ number ∈ cell.children, arenas.Throughout P ⟨ref.arena, number⟩) ∧
      (cell.children.map fun number => arenas.tree ⟨ref.arena, number⟩) = trees.map .ok ∧
      arenas.tree ref = .ok (.mk cell.kind cell.payload trees) := by
  obtain ⟨there, own, below⟩ := h
  obtain ⟨trees, htrees⟩ := exists_trees fun number hnumber => (below number hnumber).exists_unfolds
  exact ⟨_, trees, there, own, below, htrees, (unfolds_of_trees there htrees).tree_eq⟩

/-- A comparison has an answer, which says whether a statement holds. -/
def Decides (comparison : Except Fault Bool) (statement : Prop) : Prop :=
  ∃ answer, comparison = .ok answer ∧ (answer = true ↔ statement)

/-- Lists are compared by what the comparison of their items compares. -/
lemma sameAll_decides {α : Type} {same : NodeRef → NodeRef → Except Fault Bool} {view : NodeRef → α}
    {refs refs' : List NodeRef}
    (h : ∀ ref ∈ refs, ∀ ref' ∈ refs', Decides (same ref ref') (view ref = view ref')) :
    Decides (sameAll same refs refs') (refs.map view = refs'.map view) := by
  induction refs generalizing refs' with
  | nil => cases refs' <;> exact ⟨_, rfl, by simp⟩
  | cons ref refs ih =>
    cases refs' with
    | nil => exact ⟨_, rfl, by simp⟩
    | cons ref' refs' =>
      obtain ⟨first, hfirst, hfirst_iff⟩ := h ref List.mem_cons_self ref' List.mem_cons_self
      have hrest : Decides (sameAll same refs refs') (refs.map view = refs'.map view) := by
        apply ih
        intro other hother other' hother'
        exact h other (List.mem_cons_of_mem _ hother) other' (List.mem_cons_of_mem _ hother')
      simp only [sameAll, hfirst, List.map_cons, List.cons.injEq, ← hfirst_iff]
      by_cases htrue : first = true
      · simpa [htrue, bind, Except.bind] using hrest
      · exact ⟨false, by simp [htrue, bind, Except.bind, pure, Except.pure], by simp [htrue]⟩

lemma children_eq {cell : Cell} (hcell : arenas.cell? ref = some cell)
    (hbelow : ∀ number ∈ cell.children, (arenas.cell? ⟨ref.arena, number⟩).isSome) :
    arenas.children ref = .ok (cell.children.map fun number => ⟨ref.arena, number⟩) := by
  have hall : arenas.children ref = cell.children.mapM (arenas.childRef ref) := by
    rw [children, lookUp, hcell]
    rfl
  rw [hall, mapM_eq_ok_iff, List.map_map]
  apply List.map_congr_left
  intro number hnumber
  obtain ⟨child, hchild⟩ := Option.isSome_iff_exists.1 (hbelow number hnumber)
  simp [childRef, lookUp, hchild, Except.map]

/-- Nodes are compared by their trees, within any bound that is not below the levels of the first. -/
theorem sameWithin_decides {bound : Nat} {a b : NodeRef} (ha : arenas.Throughout Cell.IsLine a)
    (hb : arenas.Throughout Cell.IsLine b) (htree : arenas.tree a = .ok tree)
    (hbound : tree.height ≤ bound) :
    Decides (arenas.sameWithin bound a b) (arenas.tree a = arenas.tree b) := by
  induction bound generalizing a b tree with
  | zero =>
    obtain ⟨kind, payload, children⟩ := tree
    exact absurd hbound (Nat.not_succ_le_zero _)
  | succ bound ih =>
    obtain ⟨cell, trees, hcell, hline, hbelow, htrees, hwhole⟩ := ha.parts
    obtain ⟨cell', trees', hcell', hline', hbelow', htrees', hwhole'⟩ := hb.parts
    have hthere : ∀ {ref}, arenas.Throughout Cell.IsLine ref → (arenas.cell? ref).isSome := by
      intro ref h
      obtain ⟨_, _, hcell, -⟩ := h.parts
      exact Option.isSome_of_eq_some hcell
    have hchildren := children_eq hcell fun number hnumber => hthere (hbelow number hnumber)
    have hchildren' := children_eq hcell' fun number hnumber => hthere (hbelow' number hnumber)
    rw [hwhole, hwhole', Except.ok.injEq, Node.mk.injEq]
    simp only [sameWithin, lookUp, hcell, hcell', bind, Except.bind, hline.1, hline'.1, hchildren,
      hchildren']
    by_cases hown : cell.kind = cell'.kind ∧ cell.payload = cell'.payload
    · have hall : Decides (sameAll (fun c d => if c = d then .ok true else arenas.sameWithin bound c d)
          (cell.children.map fun number => ⟨a.arena, number⟩)
          (cell'.children.map fun number => ⟨b.arena, number⟩))
          ((cell.children.map fun number => (⟨a.arena, number⟩ : NodeRef)).map arenas.tree =
            (cell'.children.map fun number => (⟨b.arena, number⟩ : NodeRef)).map arenas.tree) := by
        apply sameAll_decides
        intro c hc d hd
        obtain ⟨number, hnumber, rfl⟩ := List.mem_map.1 hc
        obtain ⟨number', hnumber', rfl⟩ := List.mem_map.1 hd
        by_cases hsame : (⟨a.arena, number⟩ : NodeRef) = ⟨b.arena, number'⟩
        · rw [if_pos hsame, hsame]
          exact ⟨true, rfl, by simp⟩
        · rw [if_neg hsame]
          have hmem := List.mem_map_of_mem (f := fun number => arenas.tree ⟨a.arena, number⟩) hnumber
          rw [htrees, List.mem_map] at hmem
          obtain ⟨child, hchild, htree_child⟩ := hmem
          rw [hwhole, Except.ok.injEq] at htree
          rw [← htree, Node.height, Nat.succ_le_succ_iff, Node.heightAll_le_iff] at hbound
          exact ih (hbelow number hnumber) (hbelow' number' hnumber') htree_child.symm
            (hbound child hchild)
      have hlists : ∀ {ref : NodeRef} {numbers : List Nat} {trees : List Node},
          (numbers.map fun number => arenas.tree ⟨ref.arena, number⟩) = trees.map .ok →
          (numbers.map fun number => (⟨ref.arena, number⟩ : NodeRef)).map arenas.tree = trees.map .ok := by
        intro ref numbers trees h
        rw [List.map_map]
        exact h
      rw [hlists htrees, hlists htrees', List.map_inj_right fun _ _ => Except.ok.inj] at hall
      simpa [hown] using hall
    · refine ⟨false, ?_, ?_⟩
      · rw [if_pos (by tauto)]
        rfl
      · simp only [Bool.false_eq_true, false_iff]
        tauto

lemma Throughout.hasLines (h : arenas.Throughout Cell.IsLine ref) (htree : arenas.tree ref = .ok tree) :
    tree.HasLines := by
  suffices hall : ∀ depth, ∀ heading ∈ tree.outline depth, heading.payload.IsLine from hall 0
  induction h generalizing tree with
  | @node ref cell there own below ih =>
    obtain ⟨cell', trees, hcell, -, -, htrees, hwhole⟩ := (Throughout.node there own below).parts
    obtain rfl := Option.some.inj (there.symm.trans hcell)
    obtain rfl := Except.ok.inj (hwhole.symm.trans htree)
    intro depth heading hheading
    rw [Node.outline, Node.outlineAll_eq_flatMap, List.mem_cons, List.mem_flatMap] at hheading
    rcases hheading with rfl | ⟨child, hchild, hheading⟩
    · exact own.2
    · have hmem : (.ok child : Except Fault Node) ∈ trees.map .ok := List.mem_map_of_mem hchild
      rw [← htrees, List.mem_map] at hmem
      obtain ⟨number, hnumber, htree_child⟩ := hmem
      exact ih number hnumber htree_child (depth + 1) heading hheading

lemma dump_of_tree (htree : arenas.tree ref = .ok tree) :
    arenas.dump ref = if tree.isWritable then .ok tree.dump else .error .overlong := by
  rw [dump, htree]
  by_cases hwritable : tree.isWritable = true <;>
    simp [bind, Except.bind, Node.dump?, hwritable, written]

/-- Two nodes of one arena or of two, with no node below itself and no text that breaks its line, compare
equal exactly if their trees are written alike. A tree is written unless it has an overlong number, so
where one of the two is written, the nodes are equal exactly if both are and to the same text. -/
theorem same_iff_dump_eq {a b : NodeRef} (ha : arenas.Throughout Cell.IsLine a)
    (hb : arenas.Throughout Cell.IsLine b) :
    ∃ x y, arenas.tree a = .ok x ∧ arenas.tree b = .ok y ∧
      (arenas.dump a = if x.isWritable then .ok x.dump else .error .overlong) ∧
      (arenas.dump b = if y.isWritable then .ok y.dump else .error .overlong) ∧
      arenas.same a b = .ok (decide (x.dump = y.dump)) ∧
      (x.isWritable ∨ y.isWritable → (arenas.same a b = .ok true ↔ arenas.dump a = arenas.dump b)) := by
  obtain ⟨x, hx⟩ := ha.exists_unfolds
  obtain ⟨y, hy⟩ := hb.exists_unfolds
  have hsame : arenas.same a b = .ok (decide (x.dump = y.dump)) := by
    have hbound : x.height ≤ arenas.size a.arena * arenas.size b.arena + 1 := by
      have hpos : 0 < arenas.size b.arena := Nat.lt_of_lt_of_le (Node.height_pos y) hy.height_le_size
      exact Nat.le_succ_of_le (hx.height_le_size.trans (Nat.le_mul_of_pos_right _ hpos))
    obtain ⟨answer, hanswer, hiff⟩ := sameWithin_decides ha hb hx.tree_eq hbound
    have hdump : x = y ↔ x.dump = y.dump :=
      ⟨congrArg Node.dump, Node.eq_of_dump_eq (ha.hasLines hx.tree_eq) (hb.hasLines hy.tree_eq)⟩
    rw [hx.tree_eq, hy.tree_eq, Except.ok.injEq, hdump] at hiff
    rw [same, hanswer]
    congr 1
    rw [Bool.eq_iff_iff, hiff, decide_eq_true_iff]
  refine ⟨x, y, hx.tree_eq, hy.tree_eq, dump_of_tree hx.tree_eq, dump_of_tree hy.tree_eq, hsame, ?_⟩
  intro hwritable
  rw [hsame, dump_of_tree hx.tree_eq, dump_of_tree hy.tree_eq, Except.ok.injEq, decide_eq_true_iff]
  constructor
  · intro hdump
    rw [Node.eq_of_dump_eq (ha.hasLines hx.tree_eq) (hb.hasLines hy.tree_eq) hdump]
  · intro hdumps
    by_cases hwritable_x : x.isWritable = true
    · by_cases hwritable_y : y.isWritable = true
      · simpa [hwritable_x, hwritable_y] using hdumps
      · simp [hwritable_x, hwritable_y] at hdumps
    · by_cases hwritable_y : y.isWritable = true
      · simp [hwritable_x, hwritable_y] at hdumps
      · simp [hwritable_x, hwritable_y] at hwritable

/-- A text that reads like the end of a line and another payload. -/
def lookalikeText : Text := "a\", index=1, \""

/-- A tuple that has one child twice, and one of another arena that has two children. -/
def lookalikes : Arenas :=
  (empty 2).run [.create 0 .tuple none none, .create 0 .identifier (some (.text lookalikeText)) none,
    .addChild 0 ⟨0, 0⟩ (some ⟨0, 1⟩), .addChild 0 ⟨0, 0⟩ (some ⟨0, 1⟩),
    .create 1 .identifier (some (.text lookalikeText)) none,
    .create 1 .identifier (some (.text lookalikeText)) none, .create 1 .tuple none none,
    .addChild 1 ⟨1, 2⟩ (some ⟨1, 0⟩), .addChild 1 ⟨1, 2⟩ (some ⟨1, 1⟩)]

/-- The tuples are written alike, so they are equal. -/
theorem same_lookalikes :
    (lookalikes.Throughout Cell.IsLine ⟨0, 0⟩ ∧ lookalikes.Throughout Cell.IsLine ⟨1, 2⟩) ∧
    lookalikes.dump ⟨0, 0⟩ = lookalikes.dump ⟨1, 2⟩ ∧ lookalikes.same ⟨0, 0⟩ ⟨1, 2⟩ = .ok true := by
  have hname : ∀ ref, lookalikes.cell? ref =
      some { kind := .identifier, payload := .text lookalikeText } →
      lookalikes.Throughout Cell.IsLine ref :=
    fun ref hcell => .node hcell (by decide) nofun
  have hshared : lookalikes.Throughout Cell.IsLine ⟨0, 0⟩ := by
    have hcell : lookalikes.cell? ⟨0, 0⟩ =
        some { kind := .tuple, payload := .empty, children := [1, 1] } := rfl
    exact .node hcell (by decide) (by simp [hname ⟨0, 1⟩ rfl])
  have hseparate : lookalikes.Throughout Cell.IsLine ⟨1, 2⟩ := by
    have hcell : lookalikes.cell? ⟨1, 2⟩ =
        some { kind := .tuple, payload := .empty, children := [0, 1] } := rfl
    exact .node hcell (by decide) (by simp [hname ⟨1, 0⟩ rfl, hname ⟨1, 1⟩ rfl])
  obtain ⟨x, y, hx, hy, hdump_x, hdump_y, -, hiff⟩ := same_iff_dump_eq hshared hseparate
  let tree : Node := .branch .tuple [.named .identifier lookalikeText, .named .identifier lookalikeText]
  have htree : lookalikes.tree ⟨0, 0⟩ = .ok tree := rfl
  have htree' : lookalikes.tree ⟨1, 2⟩ = .ok tree := rfl
  obtain rfl : tree = x := Except.ok.inj (htree.symm.trans hx)
  obtain rfl : tree = y := Except.ok.inj (htree'.symm.trans hy)
  have hwritable : tree.isWritable = true := rfl
  have hdump : lookalikes.dump ⟨0, 0⟩ = lookalikes.dump ⟨1, 2⟩ := hdump_x.trans hdump_y.symm
  exact ⟨⟨hshared, hseparate⟩, hdump, (hiff (.inl hwritable)).2 hdump⟩

end Arenas

end SwiftMangling
