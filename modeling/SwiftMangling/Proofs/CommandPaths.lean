import Mathlib.Data.List.Nodup
import SwiftMangling.Command.Tree

/-!
# Commands by their paths

A tree of commands is known by what stands at the end of each path of words. Adding a command changes
the end of its own path, and makes sure that there are nodes on the way. So commands with different
paths may be added in any order.
-/

namespace SwiftMangling

variable {α : Type}

namespace Command

/-- The words of the expression. -/
def path (command : Command α) : List Text :=
  Text.splitOn CodePoint.space command.expression

end Command

namespace CommandTree

/-- The names of the children, in the order in which they were added. -/
def names (tree : CommandTree α) : List Text :=
  tree.children.map Prod.fst

def child? (tree : CommandTree α) (name : Text) : Option (CommandTree α) :=
  tree.children.lookup name

/-- The command at the end of a path, if there is a node and if it has a command. -/
def at? (tree : CommandTree α) : List Text → Option (Option (Command α))
  | [] => some tree.command?
  | word :: words => (tree.child? word).bind fun child => child.at? words

/-- No two children of a node have the same name, at any depth. -/
inductive NamesDistinct : CommandTree α → Prop
  | node {command : Option (Command α)} {children : List (Text × CommandTree α)}
    (names : (children.map Prod.fst).Nodup)
    (below : ∀ child ∈ children, NamesDistinct child.2) : NamesDistinct (.node command children)

/-- What stands at the ends of paths once a command is added at the end of one. -/
def place (command : Command α) (path : List Text) (ends : List Text → Option (Option (Command α))) :
    List Text → Option (Option (Command α)) :=
  fun words =>
    if words = path then some (some command)
    else if words <+: path then some (ends words).join
    else ends words

lemma at?_empty (words : List Text) :
    (empty : CommandTree α).at? words = if words = [] then some none else none := by
  cases words <;> rfl

lemma lookup_cons_entry (word key : Text) (child : CommandTree α) (rest : List (Text × CommandTree α)) :
    List.lookup word ((key, child) :: rest) = if word = key then some child else rest.lookup word := by
  by_cases hword : word = key
  · subst hword
    simp
  · rw [List.lookup_cons, beq_eq_false_iff_ne.2 hword, if_neg hword]

lemma lookup_changeChild (name word : Text) (change : CommandTree α → CommandTree α)
    (children : List (Text × CommandTree α)) :
    (changeChild name change children).lookup word =
      if word = name then some (change ((children.lookup name).getD empty))
      else children.lookup word := by
  induction children with
  | nil => by_cases hword : word = name <;> simp [changeChild, lookup_cons_entry, hword]
  | cons entry rest ih =>
    obtain ⟨key, child⟩ := entry
    by_cases hkey : key = name
    · subst hkey
      by_cases hword : word = key <;> simp [changeChild, lookup_cons_entry, hword]
    · by_cases hword : word = name
      · subst hword
        simp [changeChild, lookup_cons_entry, hkey, Ne.symm hkey, ih]
      · simp [changeChild, lookup_cons_entry, hkey, hword, ih]

/-- Adding a command changes the end of its path, and makes nodes on the way where there are none. -/
theorem at?_insertAt (command : Command α) (path : List Text) (tree : CommandTree α) :
    (tree.insertAt command path).at? = place command path tree.at? := by
  funext words
  induction path generalizing tree words with
  | nil =>
    obtain ⟨old, children⟩ := tree
    cases words with
    | nil => rfl
    | cons word words => simp [insertAt, place, at?, child?, CommandTree.children]
  | cons name path ih =>
    obtain ⟨old, children⟩ := tree
    cases words with
    | nil => simp [insertAt, place, at?, command?]
    | cons word words =>
      simp only [insertAt, place, at?, child?, CommandTree.children, lookup_changeChild]
      by_cases hword : word = name
      · subst hword
        cases hchild : children.lookup word with
        | some child => simp [ih, place]
        | none =>
          simp [ih, place, at?_empty]
          grind
      · simp [hword]

lemma place_comm {path path' : List Text} (h : path ≠ path') (command command' : Command α)
    (ends : List Text → Option (Option (Command α))) :
    place command path (place command' path' ends) =
      place command' path' (place command path ends) := by
  funext words
  simp only [place]
  grind

lemma at?_insert (tree : CommandTree α) (command : Command α) :
    (tree.insert command).at? = place command command.path tree.at? :=
  at?_insertAt command command.path tree

lemma at?_ofCommands (commands : List (Command α)) :
    (ofCommands commands).at? =
      commands.foldl (fun ends command => place command command.path ends) empty.at? := by
  symm
  apply List.foldl_hom
  intro tree command
  exact (at?_insert tree command).symm

/-- Commands with different paths come to stand at the same places in whatever order they are
added. -/
theorem at?_ofCommands_perm {commands commands' : List (Command α)} (h : commands.Perm commands')
    (hpaths : (commands.map Command.path).Nodup) :
    (ofCommands commands).at? = (ofCommands commands').at? := by
  rw [at?_ofCommands, at?_ofCommands]
  apply h.foldl_eq'
  intro command hcommand command' hcommand' ends
  by_cases hsame : command.path = command'.path
  · rw [List.inj_on_of_nodup_map hpaths hcommand hcommand' hsame]
  · exact place_comm (Ne.symm hsame) command' command ends

lemma namesDistinct_empty : (empty : CommandTree α).NamesDistinct :=
  .node List.nodup_nil (List.forall_mem_nil _)

/-- The names stay as they are, or the new one is added. -/
lemma map_fst_changeChild (name : Text) (change : CommandTree α → CommandTree α)
    (children : List (Text × CommandTree α)) :
    (changeChild name change children).map Prod.fst = children.map Prod.fst ∨
      name ∉ children.map Prod.fst ∧
        (changeChild name change children).map Prod.fst = children.map Prod.fst ++ [name] := by
  induction children with
  | nil => exact .inr ⟨List.not_mem_nil, rfl⟩
  | cons entry rest ih =>
    obtain ⟨key, child⟩ := entry
    by_cases hkey : key = name
    · exact .inl (by simp [changeChild, hkey])
    · have hchanged : (changeChild name change ((key, child) :: rest)).map Prod.fst =
          key :: (changeChild name change rest).map Prod.fst := by
        simp [changeChild, hkey]
      rw [hchanged]
      rcases ih with hsame | ⟨hnew, hadded⟩
      · exact .inl (by rw [hsame, List.map_cons])
      · refine .inr ⟨?_, by rw [hadded, List.map_cons, List.cons_append]⟩
        rw [List.map_cons, List.mem_cons, not_or]
        exact ⟨Ne.symm hkey, hnew⟩

lemma nodup_changeChild {name : Text} {change : CommandTree α → CommandTree α}
    {children : List (Text × CommandTree α)} (h : (children.map Prod.fst).Nodup) :
    ((changeChild name change children).map Prod.fst).Nodup := by
  rcases map_fst_changeChild name change children with hsame | ⟨hnew, hadded⟩
  · rw [hsame]
    exact h
  · rw [hadded, ← List.concat_eq_append]
    exact h.concat hnew

lemma forall_changeChild {P : CommandTree α → Prop} {name : Text}
    {change : CommandTree α → CommandTree α} {children : List (Text × CommandTree α)}
    (hall : ∀ child ∈ children, P child.2) (hempty : P empty) (hchange : ∀ tree, P tree → P (change tree)) :
    ∀ child ∈ changeChild name change children, P child.2 := by
  induction children with
  | nil => simpa [changeChild] using hchange empty hempty
  | cons entry rest ih =>
    obtain ⟨key, child⟩ := entry
    obtain ⟨hchild, hrest⟩ := List.forall_mem_cons.1 hall
    by_cases hkey : key = name
    · simp only [changeChild, hkey, if_true]
      exact List.forall_mem_cons.2 ⟨hchange child hchild, hrest⟩
    · simp only [changeChild, hkey, if_false]
      exact List.forall_mem_cons.2 ⟨hchild, ih hrest⟩

lemma NamesDistinct.insertAt (command : Command α) (path : List Text) {tree : CommandTree α}
    (h : tree.NamesDistinct) : (tree.insertAt command path).NamesDistinct := by
  induction path generalizing tree with
  | nil =>
    obtain ⟨hnames, hbelow⟩ := h
    exact .node hnames hbelow
  | cons name path ih =>
    obtain ⟨hnames, hbelow⟩ := h
    apply NamesDistinct.node
    · exact nodup_changeChild hnames
    · exact forall_changeChild hbelow namesDistinct_empty fun _ => ih

theorem namesDistinct_ofCommands (commands : List (Command α)) :
    (ofCommands commands).NamesDistinct := by
  apply List.foldlRecOn commands insert namesDistinct_empty
  intro tree htree command _
  exact htree.insertAt command command.path

end CommandTree

end SwiftMangling
