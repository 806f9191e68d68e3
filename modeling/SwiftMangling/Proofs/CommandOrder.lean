import SwiftMangling.Command.Program
import SwiftMangling.Proofs.CommandPaths
import SwiftMangling.Proofs.Words

/-!
# The order of registration does not show

Two trees with the same commands at the ends of the same paths select the same child for every word,
show the same help and find the same names ambiguous, since names are shown in order. So a command line
comes to the same command in both, or to the same text.
-/

namespace SwiftMangling

variable {α : Type}

namespace CommandTree

/-- Trees that differ at most in the order of children. -/
structure Alike (tree tree' : CommandTree α) : Prop where
  distinct : tree.NamesDistinct
  distinct' : tree'.NamesDistinct
  ends : tree.at? = tree'.at?

lemma NamesDistinct.nodup_names {tree : CommandTree α} (h : tree.NamesDistinct) :
    tree.names.Nodup := by
  obtain ⟨hnames, -⟩ := h
  exact hnames

lemma mem_of_child? {tree child : CommandTree α} {name : Text} (h : tree.child? name = some child) :
    (name, child) ∈ tree.children := by
  obtain ⟨before, after, heq, -⟩ := List.lookup_eq_some_iff.1 h
  rw [heq]
  exact List.mem_append_right before List.mem_cons_self

lemma NamesDistinct.child? {tree child : CommandTree α} {name : Text} (h : tree.NamesDistinct)
    (hchild : tree.child? name = some child) : child.NamesDistinct := by
  have hmem := mem_of_child? hchild
  obtain ⟨-, hbelow⟩ := h
  exact hbelow _ hmem

lemma lookup_of_mem {children : List (Text × CommandTree α)} {name : Text} {child : CommandTree α}
    (hnames : (children.map Prod.fst).Nodup) (hmem : (name, child) ∈ children) :
    children.lookup name = some child := by
  induction children with
  | nil => cases hmem
  | cons entry rest ih =>
    obtain ⟨key, first⟩ := entry
    obtain ⟨hnew, hrest⟩ := List.nodup_cons.1 hnames
    rw [lookup_cons_entry]
    rcases List.mem_cons.1 hmem with hfirst | hlater
    · cases hfirst
      rw [if_pos rfl]
    · have hkey : name ≠ key := by
        intro hname
        subst hname
        exact hnew (List.mem_map.2 ⟨(name, child), hlater, rfl⟩)
      rw [if_neg hkey, ih hrest hlater]

lemma NamesDistinct.child?_of_mem {tree child : CommandTree α} {name : Text} (h : tree.NamesDistinct)
    (hmem : (name, child) ∈ tree.children) : tree.child? name = some child :=
  lookup_of_mem h.nodup_names hmem

lemma at?_word (tree : CommandTree α) (word : Text) :
    tree.at? [word] = (tree.child? word).map command? := by
  cases h : tree.child? word <;> simp [at?, h]

lemma mem_names_iff (tree : CommandTree α) (name : Text) :
    name ∈ tree.names ↔ (tree.at? [name]).isSome = true := by
  rw [at?_word, Option.isSome_map, child?, names, List.mem_map]
  induction tree.children with
  | nil => simp
  | cons entry rest ih =>
    obtain ⟨key, child⟩ := entry
    rw [lookup_cons_entry]
    by_cases hname : name = key
    · simp [hname]
    · rw [if_neg hname, ← ih]
      simp [Ne.symm hname]

namespace Alike

variable {tree tree' : CommandTree α}

lemma command? (h : tree.Alike tree') : tree.command? = tree'.command? :=
  Option.some.inj (congrFun h.ends [])

lemma names_perm (h : tree.Alike tree') : tree.names.Perm tree'.names := by
  apply (List.perm_ext_iff_of_nodup h.distinct.nodup_names h.distinct'.nodup_names).2
  intro name
  rw [mem_names_iff, mem_names_iff, h.ends]

/-- A word names a child of both trees or of neither, and the children are again alike. -/
lemma child? (h : tree.Alike tree') (word : Text) :
    (tree.child? word = none ∧ tree'.child? word = none) ∨
      ∃ child child', tree.child? word = some child ∧ tree'.child? word = some child' ∧
        child.Alike child' := by
  have hword := congrFun h.ends [word]
  rw [at?_word, at?_word] at hword
  cases hchild : tree.child? word with
  | none =>
    rw [hchild, Option.map_none] at hword
    exact .inl ⟨rfl, Option.map_eq_none_iff.1 hword.symm⟩
  | some child =>
    rw [hchild, Option.map_some] at hword
    obtain ⟨child', hchild', -⟩ := Option.map_eq_some_iff.1 hword.symm
    refine .inr ⟨child, child', rfl, hchild', h.distinct.child? hchild, h.distinct'.child? hchild', ?_⟩
    funext words
    have hwords := congrFun h.ends (word :: words)
    simpa only [at?, hchild, hchild', Option.bind_some] using hwords

end Alike

lemma find?_name (tree : CommandTree α) (word : Text) :
    (tree.children.find? fun (name, _) => name = word) = (tree.child? word).map (word, ·) := by
  rw [child?]
  induction tree.children with
  | nil => rfl
  | cons entry rest ih =>
    obtain ⟨key, child⟩ := entry
    rw [lookup_cons_entry]
    by_cases hkey : word = key
    · simp [hkey]
    · rw [if_neg hkey, ← ih]
      simp [Ne.symm hkey]

/-- The children whose names a word begins. -/
lemma exists_candidates (tree : CommandTree α) (word : Text) :
    ∃ candidates, (tree.children.filter fun (name, _) => word.isPrefixOf name) = candidates ∧
      candidates.map Prod.fst = tree.names.filter (word.isPrefixOf ·) ∧
      ∀ entry ∈ candidates, entry ∈ tree.children := by
  refine ⟨_, rfl, ?_, fun entry => List.mem_of_mem_filter⟩
  rw [names, List.filter_map]
  rfl

/-- What a word selects, by the names alone. -/
lemma select_eq {tree : CommandTree α} (h : tree.NamesDistinct) (word : Text) :
    tree.select word =
      match tree.child? word with
      | some child => .child child
      | none =>
        match tree.names.filter (word.isPrefixOf ·) with
        | [] => .nothing
        | [name] => (tree.child? name).elim .nothing .child
        | candidates => .ambiguous (Text.sorted candidates) := by
  obtain ⟨candidates, hfilter, hnames, hmem⟩ := exists_candidates tree word
  rw [select, find?_name, hfilter, ← hnames]
  cases tree.child? word with
  | some child => rfl
  | none =>
    rcases candidates with - | ⟨⟨name, child⟩, - | ⟨other, others⟩⟩
    · rfl
    · have hchild := h.child?_of_mem (hmem _ List.mem_cons_self)
      simp [hchild]
    · rfl

/-- Alike trees select alike children for a word, or the same candidates, or neither selects
anything. -/
lemma Alike.select {tree tree' : CommandTree α} (h : tree.Alike tree') (word : Text) :
    (∃ child child', tree.select word = .child child ∧ tree'.select word = .child child' ∧
      child.Alike child') ∨
    (tree.select word = .nothing ∧ tree'.select word = .nothing) ∨
    ∃ names, tree.select word = .ambiguous names ∧ tree'.select word = .ambiguous names := by
  rw [select_eq h.distinct, select_eq h.distinct']
  rcases h.child? word with ⟨hnone, hnone'⟩ | ⟨child, child', hchild, hchild', halike⟩
  · rw [hnone, hnone']
    have hperm := h.names_perm.filter (word.isPrefixOf ·)
    rcases hcandidates : tree.names.filter (word.isPrefixOf ·) with - | ⟨name, - | ⟨other, others⟩⟩
    · rw [hcandidates, List.nil_perm] at hperm
      rw [hperm]
      exact .inr (.inl ⟨rfl, rfl⟩)
    · rw [hcandidates, List.singleton_perm] at hperm
      rw [← hperm]
      rcases h.child? name with ⟨hname, hname'⟩ | ⟨child, child', hchild, hchild', halike⟩
      · exact .inr (.inl (by simp [hname, hname']))
      · exact .inl ⟨child, child', by simp [hchild], by simp [hchild'], halike⟩
    · rw [hcandidates] at hperm
      rcases hcandidates' : tree'.names.filter (word.isPrefixOf ·) with
        - | ⟨name', - | ⟨other', others'⟩⟩
      · rw [hcandidates'] at hperm
        exact absurd hperm.length_eq (by simp)
      · rw [hcandidates'] at hperm
        exact absurd hperm.length_eq (by simp)
      · rw [hcandidates'] at hperm
        refine .inr (.inr ⟨_, rfl, ?_⟩)
        rw [Text.sorted_perm hperm]
  · rw [hchild, hchild']
    exact .inl ⟨child, child', rfl, rfl, halike⟩

lemma sortedChildren_perm (tree : CommandTree α) : tree.sortedChildren.Perm tree.children := by
  have hinsert : ∀ (entry : Text × CommandTree α) others,
      (insertByName entry others).Perm (entry :: others) := by
    intro entry others
    induction others with
    | nil => exact .refl _
    | cons other others ih =>
      simp only [insertByName]
      split
      · exact .refl _
      · exact (ih.cons other).trans (List.Perm.swap entry other others)
  rw [sortedChildren]
  induction tree.children with
  | nil => exact .refl _
  | cons entry rest ih => exact (hinsert entry _).trans (ih.cons entry)

lemma map_fst_sortedChildren (tree : CommandTree α) :
    tree.sortedChildren.map Prod.fst = Text.sorted tree.names := by
  have hinsert : ∀ (entry : Text × CommandTree α) others,
      (insertByName entry others).map Prod.fst = Text.insertSorted entry.1 (others.map Prod.fst) := by
    intro entry others
    induction others with
    | nil => rfl
    | cons other others ih =>
      simp only [insertByName, List.map_cons, Text.insertSorted]
      split
      · rfl
      · rw [List.map_cons, ih]
  rw [sortedChildren, names, Text.sorted]
  induction tree.children with
  | nil => rfl
  | cons entry rest ih =>
    rw [List.foldr_cons, hinsert, ih]
    rfl

/-- The line of help for a child, by what stands at its name. -/
def lineAt (tree : CommandTree α) (name : Text) : Text :=
  childLine name (.node (tree.at? [name]).join [])

lemma flatMap_childLine {tree : CommandTree α} (h : tree.NamesDistinct) :
    (tree.sortedChildren.flatMap fun (name, child) => childLine name child) =
      (Text.sorted tree.names).flatMap tree.lineAt := by
  rw [← map_fst_sortedChildren, List.flatMap_map]
  apply List.flatMap_congr
  intro entry hentry
  obtain ⟨name, child⟩ := entry
  have hchild := h.child?_of_mem (tree.sortedChildren_perm.mem_iff.1 hentry)
  simp [lineAt, at?_word, hchild, childLine, childTitle, command?]

lemma Alike.help {tree tree' : CommandTree α} (h : tree.Alike tree') : tree.help = tree'.help := by
  have hline : tree.lineAt = tree'.lineAt := by
    funext name
    rw [lineAt, lineAt, h.ends]
  have hempty : tree.children.isEmpty = tree'.children.isEmpty := by
    have hnames := h.names_perm.isEmpty_eq
    rwa [names, names, List.isEmpty_map, List.isEmpty_map] at hnames
  rw [CommandTree.help, CommandTree.help, h.command?, hempty, flatMap_childLine h.distinct,
    flatMap_childLine h.distinct', hline, Text.sorted_perm h.names_perm]

end CommandTree

namespace Resolution

/-- The command that is run, with its arguments. -/
def invoked? : Resolution α → Option (Command α × List Text)
  | invoke command arguments => some (command, arguments)
  | _ => none

/-- Resolutions between which nothing that is written or run tells. -/
structure Indistinct (resolution resolution' : Resolution α) : Prop where
  succeeded : resolution.succeeded = resolution'.succeeded
  written : ∀ settings words, resolution.written settings words = resolution'.written settings words
  invoked : resolution.invoked? = resolution'.invoked?

lemma Indistinct.refl (resolution : Resolution α) : resolution.Indistinct resolution :=
  ⟨rfl, fun _ _ => rfl, rfl⟩

lemma Indistinct.help {tree tree' : CommandTree α} (h : tree.Alike tree') :
    (help tree).Indistinct (help tree') := by
  refine ⟨rfl, fun settings words => ?_, rfl⟩
  show ({ out := tree.help } : Written) = { out := tree'.help }
  rw [h.help]

end Resolution

namespace CommandTree

lemma Alike.follow {tree tree' : CommandTree α} (h : tree.Alike tree') (words : List Text) :
    (tree.follow words).Indistinct (tree'.follow words) := by
  induction words generalizing tree tree' with
  | nil => exact .refl _
  | cons word words ih =>
    simp only [CommandTree.follow]
    by_cases hhelp : word = helpWord
    · rw [if_pos hhelp, if_pos hhelp]
      exact .help h
    · rw [if_neg hhelp, if_neg hhelp]
      rcases h.select word with
        ⟨child, child', hchild, hchild', halike⟩ | ⟨hnothing, hnothing'⟩ | ⟨names, hnames, hnames'⟩
      · rw [hchild, hchild']
        simp only [halike.command?]
        cases child'.command? with
        | none => exact ih halike
        | some command =>
          by_cases hasked : words.head? = some helpWord
          · simp only [hasked, if_true]
            exact .help halike
          · simp only [hasked, if_false]
            exact .refl _
      · rw [hnothing, hnothing']
        exact .refl _
      · rw [hnames, hnames']
        exact .refl _

lemma Alike.resolve {tree tree' : CommandTree α} (h : tree.Alike tree') (words : List Text) :
    (tree.resolve words).Indistinct (tree'.resolve words) := by
  unfold CommandTree.resolve
  cases words with
  | nil => exact .help h
  | cons word words => exact h.follow (word :: words)

lemma alike_ofCommands {commands commands' : List (Command α)} (h : commands.Perm commands')
    (hdistinct : (commands.map Command.expression).Nodup) :
    (ofCommands commands).Alike (ofCommands commands') := by
  refine ⟨namesDistinct_ofCommands commands, namesDistinct_ofCommands commands', ?_⟩
  apply at?_ofCommands_perm h
  have hpaths := hdistinct.map (Text.splitOn_injective CodePoint.space)
  rwa [List.map_map] at hpaths

/-- Commands with distinct expressions may be registered in any order: for every command line, the
trees agree on whether it comes to something, on what is written and on the command that is run, with
its arguments. -/
theorem resolve_ofCommands_perm {commands commands' : List (Command α)}
    (h : commands.Perm commands') (hdistinct : (commands.map Command.expression).Nodup)
    (words : List Text) :
    ((ofCommands commands).resolve words).Indistinct ((ofCommands commands').resolve words) :=
  (alike_ofCommands h hdistinct).resolve words

/-- The same commands in two orders: a word that begins one name runs that command in both. -/
theorem resolve_symbol_type :
    ([Program.symbolCommand, Program.typeCommand].Perm [Program.typeCommand, Program.symbolCommand] ∧
      ([Program.symbolCommand, Program.typeCommand].map Command.expression).Nodup) ∧
    (((ofCommands [Program.symbolCommand, Program.typeCommand]).resolve ["t", "Si"]).invoked? =
      some (Program.typeCommand, [("Si" : Text)])) ∧
    ((ofCommands [Program.symbolCommand, Program.typeCommand]).resolve ["t", "Si"]).Indistinct
      ((ofCommands [Program.typeCommand, Program.symbolCommand]).resolve ["t", "Si"]) := by
  have hperm : [Program.symbolCommand, Program.typeCommand].Perm
      [Program.typeCommand, Program.symbolCommand] := List.Perm.swap _ _ _
  have hdistinct :
      ([Program.symbolCommand, Program.typeCommand].map Command.expression).Nodup := by decide
  exact ⟨⟨hperm, hdistinct⟩, rfl, resolve_ofCommands_perm hperm hdistinct ["t", "Si"]⟩

end CommandTree

end SwiftMangling
