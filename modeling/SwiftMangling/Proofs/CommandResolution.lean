import Mathlib.Data.List.Induction
import SwiftMangling.Proofs.CommandOrder

/-!
# What a command line comes to

The nodes of a tree are the beginnings of the paths of its commands, so what a line of words comes to
can be said without the tree: from the paths alone, by the children that the words select one after
another. Following the words in the tree agrees with that at every node.
-/

namespace SwiftMangling

variable {α : Type}

namespace Command

variable (commands : List (Command α))

/-- The node at the end of a path has a child with a name: the path of some command goes on to it. -/
def HasChild (path : List Text) (name : Text) : Prop :=
  ∃ command ∈ commands, path ++ [name] <+: command.path

/-- The command that was added last for a path. -/
def lastFor? (path : List Text) : Option (Command α) :=
  (commands.filter fun command => command.path = path).getLast?

/-- A word selects a child of the node at the end of a path: the one that has the word as its name, or
the only one whose name the word begins if none has. -/
inductive Selects (path : List Text) (word : Text) : Text → Prop
  | exact (hword : HasChild commands path word) : Selects path word word
  | abbreviation {name : Text} (hword : ¬HasChild commands path word)
    (hname : HasChild commands path name) (hbegins : word <+: name)
    (honly : ∀ other, HasChild commands path other → word <+: other → other = name) :
    Selects path word name

/-- The words select one child after another, from the node at the end of a path to the node at the end
of a longer one, and no node before the last has a command. -/
inductive Leads : List Text → List Text → List Text → Prop
  | here {path : List Text} : Leads path [] path
  | step {path : List Text} {word name : Text} {words target : List Text}
    (hnone : lastFor? commands path = none) (hword : Selects commands path word name)
    (hwords : Leads (path ++ [name]) words target) : Leads path (word :: words) target

/-- From the node at the end of a path, words lead to a command, which is not asked for help: none of
the words up to the command asks for help, and neither does the first of the arguments. -/
def InvokedFrom (path words : List Text) (command : Command α) (arguments : List Text) : Prop :=
  ∃ taken target, words = taken ++ arguments ∧ CommandTree.helpWord ∉ taken ∧
    Leads commands path taken target ∧ lastFor? commands target = some command ∧
    arguments.head? ≠ some CommandTree.helpWord

/-- From the node at the end of a path, words lead to a node that is asked for help. -/
def AskedFrom (path words : List Text) : Prop :=
  ∃ taken rest target, words = taken ++ CommandTree.helpWord :: rest ∧
    Leads commands path taken target

variable {commands}

lemma path_ne_nil (command : Command α) : command.path ≠ [] :=
  Text.splitOn_ne_nil CodePoint.space command.expression

/-- The root has no command, since a path has at least one word. -/
lemma lastFor?_nil : lastFor? commands [] = none := by
  have hnone : (commands.filter fun command => command.path = []) = [] := by
    apply List.filter_eq_nil_iff.2
    intro command _
    simpa using command.path_ne_nil
  rw [lastFor?, hnone, List.getLast?_nil]

lemma lastFor?_concat (command : Command α) (path : List Text) :
    lastFor? (commands ++ [command]) path =
      if path = command.path then some command else lastFor? commands path := by
  by_cases hpath : path = command.path
  · simp [lastFor?, hpath]
  · simp [lastFor?, hpath, Ne.symm hpath]

lemma Selects.unique {path : List Text} {word name name' : Text}
    (h : Selects commands path word name) (h' : Selects commands path word name') : name = name' := by
  cases h with
  | exact hword =>
    cases h' with
    | exact _ => rfl
    | abbreviation hnew => exact absurd hword hnew
  | abbreviation hnew hname hbegins honly =>
    cases h' with
    | exact hword => exact absurd hword hnew
    | abbreviation _ hname' hbegins' _ => exact (honly _ hname' hbegins').symm

lemma Leads.of_command {command : Command α} {path words target : List Text}
    (hcommand : lastFor? commands path = some command) (h : Leads commands path words target) :
    words = [] ∧ target = path := by
  cases h with
  | here => exact ⟨rfl, rfl⟩
  | step hnone => exact absurd (hnone.symm.trans hcommand) (by simp)

/-- At a node with a command the words are its arguments, unless the first of them asks for help. -/
lemma invokedFrom_of_command {command command' : Command α} {path words arguments : List Text}
    (hcommand : lastFor? commands path = some command) :
    InvokedFrom commands path words command' arguments ↔
      words.head? ≠ some CommandTree.helpWord ∧ command = command' ∧ words = arguments := by
  constructor
  · rintro ⟨taken, target, hwords, -, hleads, hlast, hhead⟩
    obtain ⟨htaken, htarget⟩ := hleads.of_command hcommand
    subst htaken htarget
    rw [List.nil_append] at hwords
    subst hwords
    exact ⟨hhead, Option.some.inj (hcommand.symm.trans hlast), rfl⟩
  · rintro ⟨hhead, rfl, rfl⟩
    exact ⟨[], path, rfl, List.not_mem_nil, .here, hcommand, hhead⟩

lemma askedFrom_of_command {command : Command α} {path words : List Text}
    (hcommand : lastFor? commands path = some command) :
    AskedFrom commands path words ↔ words.head? = some CommandTree.helpWord := by
  constructor
  · rintro ⟨taken, rest, target, hwords, hleads⟩
    obtain ⟨htaken, -⟩ := hleads.of_command hcommand
    rw [hwords, htaken]
    rfl
  · intro hhead
    obtain ⟨rest, hrest⟩ := List.head?_eq_some_iff.1 hhead
    exact ⟨[], rest, path, hrest, .here⟩

lemma not_invokedFrom_nil {command : Command α} {path arguments : List Text}
    (hnone : lastFor? commands path = none) : ¬InvokedFrom commands path [] command arguments := by
  rintro ⟨taken, target, hwords, -, hleads, hlast, -⟩
  obtain ⟨rfl, -⟩ := List.append_eq_nil_iff.1 hwords.symm
  cases hleads
  exact absurd (hnone.symm.trans hlast) (by simp)

lemma not_askedFrom_nil {path : List Text} : ¬AskedFrom commands path [] := by
  rintro ⟨taken, rest, target, hwords, -⟩
  exact absurd hwords.symm (by simp)

/-- At a node without a command the first word selects a child, from which the other words go on. -/
lemma invokedFrom_cons {command : Command α} {path words arguments : List Text} {word : Text}
    (hnone : lastFor? commands path = none) :
    InvokedFrom commands path (word :: words) command arguments ↔
      word ≠ CommandTree.helpWord ∧ ∃ name, Selects commands path word name ∧
        InvokedFrom commands (path ++ [name]) words command arguments := by
  constructor
  · rintro ⟨taken, target, hwords, hhelp, hleads, hlast, hhead⟩
    cases hleads with
    | here => exact absurd (hnone.symm.trans hlast) (by simp)
    | step _ hword hleads =>
      obtain ⟨rfl, rfl⟩ := List.cons.inj hwords
      obtain ⟨hfirst, hhelp⟩ := List.ne_and_not_mem_of_not_mem_cons hhelp
      exact ⟨hfirst.symm, _, hword, _, target, rfl, hhelp, hleads, hlast, hhead⟩
  · rintro ⟨hfirst, name, hword, taken, target, rfl, hhelp, hleads, hlast, hhead⟩
    refine ⟨word :: taken, target, rfl, ?_, .step hnone hword hleads, hlast, hhead⟩
    exact List.not_mem_cons_of_ne_of_not_mem hfirst.symm hhelp

lemma askedFrom_cons {path words : List Text} {word : Text} (hnone : lastFor? commands path = none) :
    AskedFrom commands path (word :: words) ↔
      word = CommandTree.helpWord ∨ ∃ name, Selects commands path word name ∧
        AskedFrom commands (path ++ [name]) words := by
  constructor
  · rintro ⟨taken, rest, target, hwords, hleads⟩
    cases hleads with
    | here => exact .inl (List.cons.inj hwords).1
    | step _ hword hleads =>
      obtain ⟨rfl, rfl⟩ := List.cons.inj hwords
      exact .inr ⟨_, hword, _, rest, target, rfl, hleads⟩
  · rintro (rfl | ⟨name, hword, taken, rest, target, rfl, hleads⟩)
    · exact ⟨[], words, path, rfl, .here⟩
    · exact ⟨word :: taken, rest, target, rfl, .step hnone hword hleads⟩

/-- A word that selects a child leaves the other words to it. -/
lemma invokedFrom_of_selects {command : Command α} {path words arguments : List Text}
    {word name : Text} (hnone : lastFor? commands path = none) (hhelp : word ≠ CommandTree.helpWord)
    (hword : Selects commands path word name) :
    InvokedFrom commands path (word :: words) command arguments ↔
      InvokedFrom commands (path ++ [name]) words command arguments := by
  rw [invokedFrom_cons hnone]
  constructor
  · rintro ⟨-, name', hword', h⟩
    rwa [hword.unique hword']
  · exact fun h => ⟨hhelp, name, hword, h⟩

lemma askedFrom_of_selects {path words : List Text} {word name : Text}
    (hnone : lastFor? commands path = none) (hhelp : word ≠ CommandTree.helpWord)
    (hword : Selects commands path word name) :
    AskedFrom commands path (word :: words) ↔ AskedFrom commands (path ++ [name]) words := by
  rw [askedFrom_cons hnone]
  constructor
  · rintro (h | ⟨name', hword', h⟩)
    · exact absurd h hhelp
    · rwa [hword.unique hword']
  · exact fun h => .inr ⟨name, hword, h⟩

/-- A command that is not at the first node takes a word. -/
lemma InvokedFrom.length_lt {command : Command α} {path words arguments : List Text}
    (h : InvokedFrom commands path words command arguments) (hnone : lastFor? commands path = none) :
    arguments.length < words.length := by
  obtain ⟨taken, target, rfl, -, hleads, hlast, -⟩ := h
  cases hleads with
  | here => exact absurd (hnone.symm.trans hlast) (by simp)
  | step _ _ _ =>
    rw [List.length_append, List.length_cons]
    omega

end Command

namespace Resolution

open Command

lemma eq_invoke_of_invoked? {resolution : Resolution α} {command : Command α} {arguments : List Text}
    (h : resolution.invoked? = some (command, arguments)) : resolution = invoke command arguments := by
  cases resolution with
  | invoke _ _ =>
    cases h
    rfl
  | _ => cases h

/-- A resolution says what words come to from the node at the end of a path, as the paths of the
commands have it. -/
structure IsFrom (commands : List (Command α)) (path words : List Text) (resolution : Resolution α) :
    Prop where
  invoked : ∀ command arguments, resolution.invoked? = some (command, arguments) ↔
    InvokedFrom commands path words command arguments
  asked : resolution.succeeded = true ∧ resolution.invoked? = none ↔ AskedFrom commands path words

/-- What words come to from a child is what they come to with the word before them that selects it. -/
lemma IsFrom.of_selects {commands : List (Command α)} {path words : List Text} {word name : Text}
    {resolution : Resolution α} (hnone : lastFor? commands path = none)
    (hhelp : word ≠ CommandTree.helpWord) (hword : Selects commands path word name)
    (h : IsFrom commands (path ++ [name]) words resolution) :
    IsFrom commands path (word :: words) resolution := by
  refine ⟨fun command arguments => ?_, ?_⟩
  · exact (h.invoked command arguments).trans (invokedFrom_of_selects hnone hhelp hword).symm
  · exact h.asked.trans (askedFrom_of_selects hnone hhelp hword).symm

end Resolution

namespace CommandTree

open Command Resolution

variable {commands : List (Command α)}

/-- What stands at the end of a path is the command that was added last for it. -/
lemma join_at?_ofCommands (commands : List (Command α)) (path : List Text) :
    ((ofCommands commands).at? path).join = lastFor? commands path := by
  induction commands using List.reverseRecOn with
  | nil =>
    rw [at?_ofCommands, List.foldl_nil, at?_empty]
    split <;> rfl
  | append_singleton commands command ih =>
    rw [lastFor?_concat, ← ih, at?_ofCommands, List.foldl_concat, ← at?_ofCommands, place]
    by_cases hpath : path = command.path
    · rw [if_pos hpath, if_pos hpath]
      rfl
    · rw [if_neg hpath, if_neg hpath]
      split <;> rfl

/-- There is a node at the end of each beginning of a path. -/
lemma isSome_at?_ofCommands (commands : List (Command α)) (path : List Text) :
    ((ofCommands commands).at? path).isSome = true ↔
      path = [] ∨ ∃ command ∈ commands, path <+: command.path := by
  induction commands using List.reverseRecOn with
  | nil => simp [at?_ofCommands, at?_empty]
  | append_singleton commands command ih =>
    rw [at?_ofCommands, List.foldl_concat, ← at?_ofCommands, place]
    by_cases hpath : path = command.path
    · rw [if_pos hpath]
      simp [hpath]
    · rw [if_neg hpath]
      by_cases hbegins : path <+: command.path
      · rw [if_pos hbegins]
        simp [hbegins]
      · rw [if_neg hbegins, ih]
        simp [hbegins]

/-- A node of the tree of some commands, at the end of a path. -/
structure StandsAt (commands : List (Command α)) (node : CommandTree α) (path : List Text) : Prop where
  distinct : node.NamesDistinct
  ends : ∀ words, node.at? words = (ofCommands commands).at? (path ++ words)

namespace StandsAt

variable {node : CommandTree α} {path : List Text}

lemma root (commands : List (Command α)) : StandsAt commands (ofCommands commands) [] :=
  ⟨namesDistinct_ofCommands commands, fun _ => rfl⟩

lemma command?_eq (h : StandsAt commands node path) : node.command? = lastFor? commands path := by
  have hends := h.ends []
  rw [List.append_nil] at hends
  rw [← join_at?_ofCommands, ← hends]
  rfl

lemma mem_names (h : StandsAt commands node path) (name : Text) :
    name ∈ node.names ↔ HasChild commands path name := by
  rw [mem_names_iff, h.ends, isSome_at?_ofCommands]
  simp [HasChild]

lemma child (h : StandsAt commands node path) {name : Text} {child : CommandTree α}
    (hchild : node.child? name = some child) : StandsAt commands child (path ++ [name]) := by
  refine ⟨h.distinct.child? hchild, fun words => ?_⟩
  have hends := h.ends (name :: words)
  rw [at?, hchild, Option.bind_some] at hends
  rw [hends, List.append_assoc, List.singleton_append]

lemma hasChild_of_child? (h : StandsAt commands node path) {name : Text} {child : CommandTree α}
    (hchild : node.child? name = some child) : HasChild commands path name := by
  rw [← h.mem_names]
  exact List.mem_map_of_mem (mem_of_child? hchild)

lemma not_hasChild (h : StandsAt commands node path) {name : Text} (hnone : node.child? name = none) :
    ¬HasChild commands path name := by
  rw [← h.mem_names, mem_names_iff, at?_word, hnone]
  simp

lemma exists_child (h : StandsAt commands node path) {name : Text} (hname : HasChild commands path name) :
    ∃ child, node.child? name = some child := by
  cases hchild : node.child? name with
  | some child => exact ⟨child, rfl⟩
  | none => exact absurd hname (h.not_hasChild hchild)

lemma mem_filter_names (h : StandsAt commands node path) (word name : Text) :
    name ∈ node.names.filter (word.isPrefixOf ·) ↔ HasChild commands path name ∧ word <+: name := by
  rw [List.mem_filter, h.mem_names, List.isPrefixOf_iff_prefix]

/-- A word selects a node of the tree exactly where it selects a child by the paths. -/
lemma select (h : StandsAt commands node path) (word : Text) :
    (∃ child name, node.select word = .child child ∧ Selects commands path word name ∧
      StandsAt commands child (path ++ [name])) ∨
    ((node.select word = .nothing ∨ ∃ names, node.select word = .ambiguous names) ∧
      ∀ name, ¬Selects commands path word name) := by
  have hbegun := h.mem_filter_names word
  rw [select_eq h.distinct]
  cases hword : node.child? word with
  | some child => exact .inl ⟨child, word, rfl, .exact (h.hasChild_of_child? hword), h.child hword⟩
  | none =>
    -- The names that the word begins are none, one, or at least two, which differ.
    have hnew := h.not_hasChild hword
    rcases hnames : node.names.filter (word.isPrefixOf ·) with - | ⟨name, - | ⟨other, others⟩⟩
    · rw [hnames] at hbegun
      refine .inr ⟨.inl rfl, fun name hname => ?_⟩
      cases hname with
      | exact hword => exact hnew hword
      | abbreviation _ hname hbegins => exact absurd ((hbegun name).2 ⟨hname, hbegins⟩) List.not_mem_nil
    · rw [hnames] at hbegun
      obtain ⟨hname, hbegins⟩ := (hbegun name).1 List.mem_cons_self
      obtain ⟨child, hchild⟩ := h.exists_child hname
      have honly : ∀ other, HasChild commands path other → word <+: other → other = name :=
        fun other hother hbegins => List.mem_singleton.1 ((hbegun other).2 ⟨hother, hbegins⟩)
      refine .inl ⟨child, name, ?_, .abbreviation hnew hname hbegins honly, h.child hchild⟩
      simp [hchild]
    · have hne : name ≠ other := by
        have hnodup := h.distinct.nodup_names.filter (word.isPrefixOf ·)
        rw [hnames] at hnodup
        exact (List.nodup_cons.1 hnodup).1 ∘ (· ▸ List.mem_cons_self)
      rw [hnames] at hbegun
      obtain ⟨hname, hbegins⟩ := (hbegun name).1 List.mem_cons_self
      obtain ⟨hother, hbegins'⟩ := (hbegun other).1 (List.mem_cons_of_mem _ List.mem_cons_self)
      refine .inr ⟨.inr ⟨_, rfl⟩, fun selected hselected => ?_⟩
      cases hselected with
      | exact hword => exact hnew hword
      | abbreviation _ _ _ honly =>
        exact hne ((honly name hname hbegins).trans (honly other hother hbegins').symm)

/-- At a node with a command the words are its arguments, or ask for its help. -/
lemma isFrom_of_command {command : Command α} (words : List Text)
    (hcommand : lastFor? commands path = some command) :
    IsFrom commands path words
      (if words.head? = some helpWord then .help node else .invoke command words) := by
  by_cases hhead : words.head? = some helpWord
  · rw [if_pos hhead]
    refine ⟨fun command' arguments => ?_, ?_⟩
    · simp [invokedFrom_of_command hcommand, hhead, invoked?]
    · simp [askedFrom_of_command hcommand, hhead, invoked?, succeeded]
  · rw [if_neg hhead]
    refine ⟨fun command' arguments => ?_, ?_⟩
    · simp [invokedFrom_of_command hcommand, hhead, invoked?]
    · simp [askedFrom_of_command hcommand, hhead, invoked?]

/-- Where a word selects nothing, neither a command nor help is reached. -/
lemma isFrom_of_not_selects {words : List Text} {word : Text} {resolution : Resolution α}
    (hnone : lastFor? commands path = none) (hhelp : word ≠ helpWord)
    (hnot : ∀ name, ¬Selects commands path word name) (hfailed : resolution.succeeded = false) :
    IsFrom commands path (word :: words) resolution := by
  have hinvoked : resolution.invoked? = none := by
    cases resolution <;> simp [succeeded, invoked?] at hfailed ⊢
  refine ⟨fun command arguments => ?_, ?_⟩
  · simp [invokedFrom_cons hnone, hnot, hinvoked]
  · simp [askedFrom_cons hnone, hnot, hhelp, hfailed]

/-- Following words in the tree comes to what the paths say, from every node that is not passed by. -/
lemma follow (h : StandsAt commands node path) (hnone : lastFor? commands path = none)
    (words : List Text) : IsFrom commands path words (node.follow words) := by
  induction words generalizing node path with
  | nil =>
    refine ⟨fun command arguments => ?_, ?_⟩
    · simp [CommandTree.follow, invoked?, not_invokedFrom_nil hnone]
    · simp [CommandTree.follow, succeeded, not_askedFrom_nil]
  | cons word words ih =>
    rw [CommandTree.follow]
    by_cases hhelp : word = helpWord
    · rw [if_pos hhelp]
      refine ⟨fun command arguments => ?_, ?_⟩
      · simp [invokedFrom_cons hnone, hhelp, invoked?]
      · simp [askedFrom_cons hnone, hhelp, invoked?, succeeded]
    · -- A word that selects a child leaves the others to it, and the path grows by the child's name.
      rw [if_neg hhelp]
      rcases h.select word with ⟨child, name, hselect, hword, hchild⟩ | ⟨hfailed, hnot⟩
      · rw [hselect]
        apply IsFrom.of_selects hnone hhelp hword
        have hends := hchild.command?_eq
        cases hcommand : child.command? with
        | none =>
          simp only [hcommand]
          exact ih hchild (hends.symm.trans hcommand)
        | some command =>
          simp only [hcommand]
          exact isFrom_of_command words (hends.symm.trans hcommand)
      · rcases hfailed with hnothing | ⟨names, hnames⟩
        · rw [hnothing]
          exact isFrom_of_not_selects hnone hhelp hnot rfl
        · rw [hnames]
          exact isFrom_of_not_selects hnone hhelp hnot rfl

end StandsAt

/-- What a command line comes to, for commands that are added in any order and with any paths. A
command is invoked with the arguments after its words exactly where the paths say so; it has at least
one word, and nothing else is written. Otherwise no command is invoked, and only an empty line and one
that asks for help succeed. -/
theorem resolve_ofCommands (commands : List (Command α)) (words : List Text) :
    (∀ command arguments,
      ((ofCommands commands).resolve words).invoked? = some (command, arguments) ↔
        InvokedFrom commands [] words command arguments) ∧
    (∀ command arguments, InvokedFrom commands [] words command arguments →
      arguments.length < words.length ∧
      ((ofCommands commands).resolve words).succeeded = true ∧
      ∀ settings, ((ofCommands commands).resolve words).written settings words = {}) ∧
    ((∀ command arguments, ¬InvokedFrom commands [] words command arguments) →
      ((ofCommands commands).resolve words).invoked? = none ∧
      (((ofCommands commands).resolve words).succeeded = true ↔
        words = [] ∨ AskedFrom commands [] words)) := by
  have hinvoked : ∀ command arguments,
      ((ofCommands commands).resolve words).invoked? = some (command, arguments) ↔
        InvokedFrom commands [] words command arguments := by
    cases words with
    | nil => simp [resolve, invoked?, not_invokedFrom_nil lastFor?_nil]
    | cons word words => exact ((StandsAt.root commands).follow lastFor?_nil (word :: words)).invoked
  refine ⟨hinvoked, fun command arguments h => ?_, fun hnot => ?_⟩
  · have hresolution : (ofCommands commands).resolve words = .invoke command arguments :=
      eq_invoke_of_invoked? ((hinvoked command arguments).2 h)
    rw [hresolution]
    exact ⟨h.length_lt lastFor?_nil, rfl, fun _ => rfl⟩
  · have hnone : ((ofCommands commands).resolve words).invoked? = none := by
      rw [Option.eq_none_iff_forall_ne_some]
      intro invocation hsome
      exact hnot invocation.1 invocation.2 ((hinvoked _ _).1 hsome)
    refine ⟨hnone, ?_⟩
    cases words with
    | nil => simp [resolve, succeeded]
    | cons word words =>
      rw [← ((StandsAt.root commands).follow lastFor?_nil (word :: words)).asked]
      exact ⟨fun h => .inr ⟨h, hnone⟩, fun h => (h.resolve_left (List.cons_ne_nil _ _)).1⟩

end CommandTree

end SwiftMangling
