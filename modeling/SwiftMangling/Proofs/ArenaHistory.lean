import Mathlib.Data.List.Basic
import SwiftMangling.Arena

/-!
# What becomes of the children that a node is given

A node keeps the numbers of the nodes it was given, in order, whatever is done on its own arena and on
others. The numbers are looked up in the arena of the parent. So a child is the node that was given
exactly if that node comes from the arena of its parent; the arena that a child is added through is not
compared with the parent's.
-/

namespace SwiftMangling

namespace Position

lemma item?_natCast {α : Type} (items : List α) (n : Nat) : item? items n = items[n]? := by
  have hfront : fromFront items.length n = Int.ofNat n := by
    simp [fromFront, show ¬(n : Int) < 0 by omega]
  rw [item?, hfront]

end Position

namespace Arenas

/-- A call on one of several arenas. -/
inductive Call where
  | create (number : Nat) (kind : Kind) (text : Option MangledName) (index : Option Int)
  | addChild (number : Nat) (parent : NodeRef) (child : Option NodeRef)
  deriving DecidableEq, Repr

/-- The arena is there, and so are the nodes that the call names. -/
def Call.Legal (arenas : Arenas) : Call → Prop
  | .create number _ _ _ => number < arenas.all.length
  | .addChild number parent child =>
    number < arenas.all.length ∧ (arenas.cell? parent).isSome ∧
      ∀ given ∈ child, (arenas.cell? given).isSome

instance (arenas : Arenas) (call : Call) : Decidable (call.Legal arenas) :=
  match call with
  | .create number _ _ _ => inferInstanceAs (Decidable (number < arenas.all.length))
  | .addChild number parent child =>
    inferInstanceAs (Decidable (number < arenas.all.length ∧ (arenas.cell? parent).isSome ∧
      ∀ given ∈ child, (arenas.cell? given).isSome))

/-- Two payloads at once, or no child, or one of another arena than that it is added through. -/
def Call.Refused : Call → Prop
  | .create _ _ text index => text.isSome ∧ index.isSome
  | .addChild number _ child => ∀ given ∈ child, given.arena ≠ number

def perform (arenas : Arenas) : Call → Except Fault Arenas
  | .create number kind text index => (arenas.create number kind text index).map Prod.snd
  | .addChild number parent child => arenas.addChild number parent child

/-- The arenas after a call. One that fails leaves them as they are. -/
def after (arenas : Arenas) (call : Call) : Arenas :=
  match arenas.perform call with
  | .ok arenas' => arenas'
  | .error _ => arenas

def run (arenas : Arenas) (calls : List Call) : Arenas :=
  calls.foldl after arenas

/-- Calls that are legal one after the other. -/
def LegalRun : Arenas → List Call → Prop
  | _, [] => True
  | arenas, call :: calls => call.Legal arenas ∧ LegalRun (arenas.after call) calls

instance decidableLegalRun : (arenas : Arenas) → (calls : List Call) →
    Decidable (LegalRun arenas calls)
  | _, [] => inferInstanceAs (Decidable True)
  | arenas, call :: calls =>
    have := decidableLegalRun (arenas.after call) calls
    inferInstanceAs (Decidable (call.Legal arenas ∧ LegalRun (arenas.after call) calls))

/-- The child that a call gives to a node, if it is such a call and succeeds. -/
def gift? (arenas : Arenas) (node : NodeRef) (call : Call) : Option NodeRef :=
  match call, arenas.perform call with
  | .addChild _ parent child, .ok _ => if parent = node then child else none
  | _, _ => none

/-- The children that calls give to a node, in order. -/
def gifts (node : NodeRef) : Arenas → List Call → List NodeRef
  | _, [] => []
  | arenas, call :: calls => (arenas.gift? node call).toList ++ gifts node (arenas.after call) calls

/-- The numbers that a node has for its children. -/
def numbers (arenas : Arenas) (node : NodeRef) : List Nat :=
  ((arenas.cell? node).map Cell.children).getD []

lemma perform_eq_error_iff (arenas : Arenas) (call : Call) :
    (∃ fault, arenas.perform call = .error fault) ↔ call.Refused := by
  cases call with
  | create number kind text index =>
    rcases text with - | ⟨content⟩ | ⟨content⟩ <;> rcases index with - | n <;>
      simp [perform, create, Call.Refused, Except.map]
  | addChild number parent child =>
    cases child with
    | none => simp [perform, addChild, Call.Refused]
    | some child =>
      by_cases howner : child.arena = number <;>
        simp [perform, addChild, Call.Refused, howner]

lemma cell?_empty (count : Nat) (node : NodeRef) : (empty count).cell? node = none := by
  simp only [cell?, arena, empty, List.getD_eq_getElem?_getD, List.getElem?_replicate]
  split <;> rfl

lemma cell?_add {arenas : Arenas} {number : Nat} (hnumber : number < arenas.all.length) (cell : Cell)
    (node : NodeRef) :
    (arenas.add number cell).2.cell? node =
      if node = ⟨number, arenas.size number⟩ then some cell else arenas.cell? node := by
  obtain ⟨owner, place⟩ := node
  by_cases howner : owner = number
  · subst howner
    simp only [add, cell?, arena, size, List.getD_eq_getElem?_getD, List.getElem?_modify, if_true,
      List.getElem?_eq_getElem hnumber, Option.map_eq_map, Option.map_some, Option.getD_some,
      NodeRef.mk.injEq, true_and]
    grind
  · simp [add, cell?, arena, List.getD_eq_getElem?_getD, howner, Ne.symm howner]

lemma cell?_push (arenas : Arenas) (parent : NodeRef) (change : Cell → Cell) (node : NodeRef) :
    (⟨arenas.all.modify parent.arena (·.modify parent.cell change)⟩ : Arenas).cell? node =
      if node = parent then (arenas.cell? node).map change else arenas.cell? node := by
  obtain ⟨owner, place⟩ := node
  obtain ⟨parentOwner, parentPlace⟩ := parent
  simp only [cell?, arena, List.getD_eq_getElem?_getD, List.getElem?_modify, NodeRef.mk.injEq]
  by_cases howner : parentOwner = owner
  · subst howner
    cases harena : arenas.all[parentOwner]? with
    | none => simp
    | some cells =>
      by_cases hplace : parentPlace = place
      · simp [hplace]
      · simp [hplace, Ne.symm hplace]
  · simp [howner, Ne.symm howner]

/-- The arenas when a node has got one more child. -/
def push (arenas : Arenas) (parent child : NodeRef) : Arenas :=
  ⟨arenas.all.modify parent.arena
    (·.modify parent.cell fun cell => { cell with children := cell.children ++ [child.cell] })⟩

/-- What a call can do: nothing, or add a node without children, or give one child to one node. -/
lemma after_cases (arenas : Arenas) (call : Call) :
    (arenas.after call = arenas ∧ ∀ node, arenas.gift? node call = none) ∨
    (∃ number kind text index cell, call = .create number kind text index ∧ cell.children = [] ∧
      arenas.after call = (arenas.add number cell).2 ∧ ∀ node, arenas.gift? node call = none) ∨
    ∃ number parent child, call = .addChild number parent (some child) ∧
      arenas.after call = arenas.push parent child ∧
      ∀ node, arenas.gift? node call = if parent = node then some child else none := by
  cases call with
  | create number kind text index =>
    rcases text with - | ⟨content⟩ | ⟨content⟩ <;> rcases index with - | n
    · exact .inr (.inl ⟨number, kind, _, _, { kind, payload := .empty }, rfl, rfl, rfl, fun _ => rfl⟩)
    · exact .inr (.inl ⟨number, kind, _, _, { kind, payload := .index n }, rfl, rfl, rfl, fun _ => rfl⟩)
    · exact .inr (.inl ⟨number, kind, _, _, { kind, payload := .text content }, rfl, rfl, rfl,
        fun _ => rfl⟩)
    · exact .inl ⟨rfl, fun _ => rfl⟩
    · exact .inr (.inl ⟨number, kind, _, _,
        { kind, payload := .text (Text.quotedBytes content), ofBytes := true }, rfl, rfl, rfl,
        fun _ => rfl⟩)
    · exact .inl ⟨rfl, fun _ => rfl⟩
  | addChild number parent child =>
    cases child with
    | none => exact .inl ⟨rfl, fun _ => rfl⟩
    | some child =>
      by_cases howner : child.arena = number
      · refine .inr (.inr ⟨number, parent, child, rfl, ?_, fun node => ?_⟩)
        · simp [after, perform, addChild, howner, push]
        · simp [gift?, perform, addChild, howner]
      · refine .inl ⟨?_, fun node => ?_⟩
        · simp [after, perform, addChild, howner]
        · simp [gift?, perform, addChild, howner]

/-- A call adds to the numbers that a node has that of the child it gives, if it gives one. -/
lemma numbers_after {arenas : Arenas} {call : Call} (hlegal : call.Legal arenas) (node : NodeRef) :
    (arenas.after call).numbers node =
      arenas.numbers node ++ (arenas.gift? node call).toList.map NodeRef.cell := by
  rcases after_cases arenas call with
    ⟨hafter, hgift⟩ | ⟨number, kind, text, index, cell, rfl, hchildren, hafter, hgift⟩ |
      ⟨number, parent, child, rfl, hafter, hgift⟩
  · simp [hafter, hgift]
  · rw [hafter, hgift, numbers, numbers, cell?_add hlegal]
    by_cases hnode : node = ⟨number, arenas.size number⟩
    · subst hnode
      have hnew : arenas.cell? ⟨number, arenas.size number⟩ = none := by
        simp [cell?, size]
      simp [hnew, hchildren]
    · simp [hnode]
  · obtain ⟨-, hparent, -⟩ := hlegal
    obtain ⟨cell, hcell⟩ := Option.isSome_iff_exists.1 hparent
    rw [hafter, hgift, numbers, numbers, push, cell?_push]
    by_cases hnode : node = parent
    · subst hnode
      simp [hcell]
    · simp [hnode, Ne.symm hnode]

lemma isSome_cell?_after {arenas : Arenas} {call : Call} (hlegal : call.Legal arenas) {node : NodeRef}
    (hnode : (arenas.cell? node).isSome) : ((arenas.after call).cell? node).isSome := by
  rcases after_cases arenas call with
    ⟨hafter, -⟩ | ⟨number, kind, text, index, cell, rfl, -, hafter, -⟩ |
      ⟨number, parent, child, rfl, hafter, -⟩
  · rwa [hafter]
  · rw [hafter, cell?_add hlegal]
    split
    · rfl
    · exact hnode
  · rw [hafter, push, cell?_push]
    split
    · rwa [Option.isSome_map]
    · exact hnode

/-- A child that a legal call gives is there. -/
lemma isSome_cell?_gift {arenas : Arenas} {call : Call} (hlegal : call.Legal arenas)
    {node child : NodeRef} (hgift : arenas.gift? node call = some child) :
    (arenas.cell? child).isSome := by
  rcases after_cases arenas call with
    ⟨-, hnone⟩ | ⟨number, kind, text, index, cell, rfl, -, -, hnone⟩ |
      ⟨number, parent, given, rfl, -, hgiven⟩
  · rw [hnone] at hgift
    cases hgift
  · rw [hnone] at hgift
    cases hgift
  · obtain ⟨-, -, hchild⟩ := hlegal
    rw [hgiven] at hgift
    split at hgift
    · exact hchild child hgift
    · cases hgift

/-- After any run a node has the numbers of the children it was given, in order. -/
theorem numbers_run {arenas : Arenas} {calls : List Call} (hlegal : arenas.LegalRun calls)
    (node : NodeRef) :
    (arenas.run calls).numbers node =
      arenas.numbers node ++ (gifts node arenas calls).map NodeRef.cell := by
  induction calls generalizing arenas with
  | nil => simp [run, gifts]
  | cons call calls ih =>
    obtain ⟨hcall, hcalls⟩ := hlegal
    have hrest := ih hcalls
    rw [numbers_after hcall, List.append_assoc, ← List.map_append] at hrest
    exact hrest

lemma isSome_cell?_run {arenas : Arenas} {calls : List Call} (hlegal : arenas.LegalRun calls)
    {node : NodeRef} (hnode : (arenas.cell? node).isSome) :
    ((arenas.run calls).cell? node).isSome := by
  induction calls generalizing arenas with
  | nil => exact hnode
  | cons call calls ih =>
    obtain ⟨hcall, hcalls⟩ := hlegal
    exact ih hcalls (isSome_cell?_after hcall hnode)

lemma isSome_cell?_of_mem_gifts {arenas : Arenas} {calls : List Call}
    (hlegal : arenas.LegalRun calls) {node child : NodeRef} (hchild : child ∈ gifts node arenas calls) :
    ((arenas.run calls).cell? child).isSome := by
  induction calls generalizing arenas with
  | nil => cases hchild
  | cons call calls ih =>
    obtain ⟨hcall, hcalls⟩ := hlegal
    rcases List.mem_append.1 hchild with hfirst | hlater
    · have hthere := isSome_cell?_gift hcall (Option.mem_toList.1 hfirst)
      exact isSome_cell?_run hcalls (isSome_cell?_after hcall hthere)
    · exact ih hcalls hlater

/-- A number that stands for a node is looked up as the node of that number in the parent's arena, which
is the node itself exactly if both are of one arena. -/
lemma childRef_eq_ok_iff {arenas : Arenas} {parent child : NodeRef}
    (hchild : (arenas.cell? child).isSome) :
    arenas.childRef parent child.cell = .ok child ↔ child.arena = parent.arena := by
  obtain ⟨owner, place⟩ := child
  constructor
  · intro h
    simp only [childRef] at h
    cases hlook : arenas.lookUp ⟨parent.arena, place⟩ with
    | error fault =>
      rw [hlook] at h
      cases h
    | ok cell =>
      rw [hlook] at h
      cases h
      rfl
  · intro howner
    simp only at howner
    subst howner
    obtain ⟨cell, hcell⟩ := Option.isSome_iff_exists.1 hchild
    simp [childRef, lookUp, hcell, Except.map]

lemma mapM_map_eq_ok_iff {α β : Type} (f : β → Except Fault α) (g : α → β) (items : List α) :
    (items.map g).mapM f = .ok items ↔ ∀ item ∈ items, f (g item) = .ok item := by
  induction items with
  | nil => simp [pure, Except.pure]
  | cons item items ih =>
    rw [List.map_cons, List.mapM_cons, List.forall_mem_cons, ← ih]
    cases f (g item) with
    | error fault => simp [bind, Except.bind]
    | ok first =>
      cases (items.map g).mapM f with
      | error fault => simp [bind, Except.bind]
      | ok others => simp [bind, Except.bind, pure, Except.pure]

/-- After any calls on any number of arenas, a node has as many children as it was given. Each is looked
up in the arena of the node by the number of the child that was given, and is that child exactly if it
comes from the same arena. The calls that fail are those that are refused, and they change nothing. -/
theorem children_run {count : Nat} {calls : List Call} (hlegal : (empty count).LegalRun calls)
    {parent : NodeRef} (hparent : (((empty count).run calls).cell? parent).isSome) :
    ((empty count).run calls).length parent = .ok (gifts parent (empty count) calls).length ∧
    (∀ (i : Nat) child, (gifts parent (empty count) calls)[i]? = some child →
      ((empty count).run calls).child parent i =
          ((empty count).run calls).childRef parent child.cell ∧
        (((empty count).run calls).child parent i = .ok child ↔ child.arena = parent.arena)) ∧
    (((empty count).run calls).children parent = .ok (gifts parent (empty count) calls) ↔
      ∀ child ∈ gifts parent (empty count) calls, child.arena = parent.arena) ∧
    ∀ call, ((∃ fault, ((empty count).run calls).perform call = .error fault) ↔ call.Refused) ∧
      (call.Refused → ((empty count).run calls).after call = (empty count).run calls) := by
  have hnumbers := numbers_run hlegal parent
  have hthere : ∀ child ∈ gifts parent (empty count) calls,
      (((empty count).run calls).cell? child).isSome :=
    fun _ => isSome_cell?_of_mem_gifts hlegal
  generalize (empty count).run calls = arenas at hparent hnumbers hthere ⊢
  generalize gifts parent (empty count) calls = given at hnumbers hthere ⊢
  obtain ⟨cell, hcell⟩ := Option.isSome_iff_exists.1 hparent
  have hlook : arenas.lookUp parent = .ok cell := by
    rw [lookUp, hcell]
  have hchildren : cell.children = given.map NodeRef.cell := by
    simpa [numbers, hcell, cell?_empty] using hnumbers
  refine ⟨?_, fun i child hgiven => ?_, ?_, fun call => ⟨arenas.perform_eq_error_iff call, ?_⟩⟩
  · rw [length, hlook]
    simp [Except.map, hchildren]
  · have hchild : arenas.child parent i = arenas.childRef parent child.cell := by
      rw [Arenas.child, hlook]
      simp [bind, Except.bind, hchildren, Position.item?_natCast, hgiven]
    refine ⟨hchild, ?_⟩
    rw [hchild]
    exact childRef_eq_ok_iff (hthere child (List.mem_of_getElem? hgiven))
  · have hall : arenas.children parent =
        (given.map NodeRef.cell).mapM (arenas.childRef parent) := by
      rw [children, hlook, ← hchildren]
      rfl
    rw [hall, mapM_map_eq_ok_iff]
    exact forall₂_congr fun child hmem => childRef_eq_ok_iff (hthere child hmem)
  · intro hrefused
    obtain ⟨fault, hfault⟩ := (arenas.perform_eq_error_iff call).2 hrefused
    rw [after, hfault]

/-- A node of one arena, one of another, and the second given to the first through its own arena. -/
def strayGift : List Call :=
  [.create 0 .type none none, .create 1 .tuple none none, .addChild 1 ⟨0, 0⟩ (some ⟨1, 0⟩)]

/-- The arena of a child is compared with the one it is added through, not with that of its parent. So a
node can be given a child and have another in its place, here itself. -/
theorem not_children_given :
    ¬∀ (count : Nat) (calls : List Call), (empty count).LegalRun calls →
      ∀ (parent : NodeRef) (i : Nat) (child : NodeRef),
        (gifts parent (empty count) calls)[i]? = some child →
        ((empty count).run calls).child parent i = .ok child := by
  intro h
  have hitself : ((empty 2).run strayGift).child ⟨0, 0⟩ (0 : Nat) = .ok ⟨0, 0⟩ := rfl
  have hgiven := h 2 strayGift (by decide) ⟨0, 0⟩ 0 ⟨1, 0⟩ rfl
  rw [hitself] at hgiven
  cases hgiven

/-- A node that is given the same child twice, with a child of another arena refused in between. -/
def sharedGift : List Call :=
  [.create 0 .tuple none none, .create 0 .type none none, .create 1 .type none none,
    .addChild 0 ⟨0, 0⟩ (some ⟨0, 1⟩), .addChild 0 ⟨0, 0⟩ (some ⟨1, 0⟩),
    .addChild 0 ⟨0, 0⟩ (some ⟨0, 1⟩)]

/-- The refused call leaves no child behind. -/
theorem children_sharedGift :
    ((empty 2).LegalRun sharedGift ∧ (((empty 2).run sharedGift).cell? ⟨0, 0⟩).isSome) ∧
    ((empty 2).run sharedGift).length ⟨0, 0⟩ = .ok 2 ∧
    ((empty 2).run sharedGift).children ⟨0, 0⟩ = .ok [⟨0, 1⟩, ⟨0, 1⟩] := by
  have hlegal : (empty 2).LegalRun sharedGift := by decide
  have hparent : (((empty 2).run sharedGift).cell? ⟨0, 0⟩).isSome := by decide
  obtain ⟨hlength, -, hchildren, -⟩ := children_run hlegal hparent
  exact ⟨⟨hlegal, hparent⟩, hlength, hchildren.2 (by decide)⟩

end Arenas

end SwiftMangling
