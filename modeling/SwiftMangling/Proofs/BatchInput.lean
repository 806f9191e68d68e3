import Mathlib.Data.List.DropRight
import SwiftMangling.Command.Program
import SwiftMangling.Proofs.BoundedNumbers
import SwiftMangling.Proofs.SettingsRoundTrip

/-!
# Names on the line and names in the input

A batch takes its names from the line, or from the lines of the standard input if there are none on the
line. The same names come to the same run either way, and a pair of carriage return and line feed ends a
line as a line feed does. What a batch prints is what each of its names prints alone, up to the first name
on which there is no answer.
-/

namespace SwiftMangling

lemma takeWhile_congr {α : Type} {l : List α} {p q : α → Bool} (h : ∀ a ∈ l, p a = q a) :
    l.takeWhile p = l.takeWhile q := by
  induction l with
  | nil => rfl
  | cons a l ih =>
    obtain ⟨ha, hl⟩ := List.forall_mem_cons.1 h
    rw [List.takeWhile_cons, List.takeWhile_cons, ha, ih hl]

namespace Text

variable (drop : CodePoint → Bool) (t : Text)

/-- There is nothing more to drop at the ends of what was trimmed. -/
lemma trim_trim : trim drop (trim drop t) = trim drop t := by
  have hback : trim drop t = (t.dropWhile drop).rdropWhile drop := rfl
  have hfront : (trim drop t).dropWhile drop = trim drop t := by
    cases htrim : trim drop t with
    | nil => rfl
    | cons c cs =>
      obtain ⟨dropped, hdropped⟩ := List.rdropWhile_prefix drop (t.dropWhile drop)
      rw [← hback, htrim] at hdropped
      have hhead := List.head?_dropWhile_not drop t
      rw [← hdropped] at hhead
      exact List.dropWhile_cons_of_neg (by simpa using hhead)
  calc trim drop (trim drop t) = ((trim drop t).dropWhile drop).rdropWhile drop := rfl
    _ = ((t.dropWhile drop).rdropWhile drop).rdropWhile drop := by rw [hfront, hback]
    _ = trim drop t := by rw [List.rdropWhile_idempotent, hback]

variable {drop t}

lemma mem_of_mem_trim {c : CodePoint} (hc : c ∈ trim drop t) : c ∈ t := by
  have hback : trim drop t = (t.dropWhile drop).rdropWhile drop := rfl
  rw [hback] at hc
  exact (List.dropWhile_sublist _).mem ((List.rdropWhile_prefix drop _).mem hc)

lemma trim_concat {c : CodePoint} (hc : drop c) : trim drop (t ++ [c]) = trim drop t := by
  show ((t ++ [c]).dropWhile drop).rdropWhile drop = (t.dropWhile drop).rdropWhile drop
  rw [List.dropWhile_append]
  split
  · next hempty =>
    rw [List.isEmpty_iff.1 hempty, List.dropWhile_cons_of_pos hc]
    rfl
  · exact List.rdropWhile_concat_pos drop _ c hc

/-- Each carriage return stands before a line feed. -/
def IsPaired (t : Text) : Prop :=
  ∀ front back, t = front ++ carriageReturn :: back → back.head? = some newline

lemma unifyLineEnds_cons_of_ne {c : CodePoint} (hc : c ≠ carriageReturn) (t : Text) :
    unifyLineEnds (c :: t) = c :: unifyLineEnds t :=
  if_pos hc

lemma unifyLineEnds_pair (t : Text) :
    unifyLineEnds (carriageReturn :: newline :: t) = newline :: unifyLineEnds t := by
  rw [unifyLineEnds, if_neg (not_not_intro rfl), List.head?_cons, if_pos rfl,
    unifyLineEnds_cons_of_ne (by decide)]

/-- Where line ends are paired, unifying them takes nothing from a line but a carriage return at its
end. -/
lemma splitOn_unifyLineEnds {t : Text} (h : t.IsPaired) :
    List.Forall₂ (fun line written => written = line ∨ written = line ++ [carriageReturn])
      (splitOn newline (unifyLineEnds t)) (splitOn newline t) := by
  induction t with
  | nil => exact .cons (.inl rfl) .nil
  | cons c t ih =>
    have hlines := ih fun front back ht => h (c :: front) back (congrArg (c :: ·) ht)
    by_cases hreturn : c = carriageReturn
    · subst hreturn
      obtain ⟨rest, rfl⟩ := List.head?_eq_some_iff.1 (h [] t rfl)
      rw [unifyLineEnds_cons_of_ne (by decide), splitOn_cons_self, splitOn_cons_self] at hlines
      have halone : newline ∉ [carriageReturn] := by decide
      have hsplit : splitOn newline (carriageReturn :: newline :: rest) =
          [carriageReturn] :: splitOn newline rest :=
        splitOn_append_cons halone rest
      rw [unifyLineEnds_pair, splitOn_cons_self, hsplit]
      exact .cons (.inr rfl) (List.forall₂_cons.1 hlines).2
    · rw [unifyLineEnds_cons_of_ne hreturn]
      by_cases hbreak : c = newline
      · subst hbreak
        rw [splitOn_cons_self, splitOn_cons_self]
        exact .cons (.inl rfl) hlines
      · obtain ⟨line, lines, hsplit, hcons⟩ := splitOn_cons_of_ne hbreak (unifyLineEnds t)
        obtain ⟨written, others, hsplit', hcons'⟩ := splitOn_cons_of_ne hbreak t
        rw [hsplit, hsplit'] at hlines
        obtain ⟨hline, hothers⟩ := List.forall₂_cons.1 hlines
        rw [hcons, hcons']
        exact .cons (hline.imp (congrArg (c :: ·)) (congrArg (c :: ·))) hothers

end Text

namespace Written

lemma isCut_concat (parts : List Written) : (concat parts).isCut = parts.any Written.isCut := by
  induction parts with
  | nil => rfl
  | cons part parts ih =>
    show (append part (concat parts)).isCut = _
    rw [List.any_cons, ← ih]
    unfold append
    split
    · next hcut => simp [hcut]
    · next hcut => simp [hcut]

/-- Where a part that is cut prints nothing, what is printed is what the parts before it print. -/
lemma out_concat {parts : List Written} (hcut : ∀ part ∈ parts, part.isCut → part.out = []) :
    (concat parts).out = (parts.takeWhile fun part => !part.isCut).flatMap Written.out := by
  induction parts with
  | nil => rfl
  | cons part parts ih =>
    obtain ⟨hpart, hparts⟩ := List.forall_mem_cons.1 hcut
    show (append part (concat parts)).out = _
    unfold append
    split
    · next h => simp [h, hpart h]
    · next h => simp [h, ih hparts]

/-- Lines on standard error after the other parts change nothing of what is printed. -/
lemma append_err (written : Written) (err : Text) : (written ++ { err := err }).out = written.out ∧
    (written ++ { err := err }).isCut = written.isCut := by
  show (append written { err := err }).out = _ ∧ (append written { err := err }).isCut = _
  unfold append
  split
  · exact ⟨rfl, rfl⟩
  · next hcut => exact ⟨List.append_nil _, (Bool.eq_false_iff.2 hcut).symm⟩

end Written

namespace Batch

/-- A name in a text is the only name in a text of its own. -/
lemma names_of_mem {input name : Text} (hname : name ∈ names input) : names name = [name] := by
  obtain ⟨hstripped, hsome⟩ := List.mem_filter.1 hname
  obtain ⟨line, hline, rfl⟩ := List.mem_map.1 hstripped
  have hbreak : Text.newline ∉ Text.strip line := fun hmem =>
    (Text.mem_of_mem_splitOn hline (Text.mem_of_mem_trim hmem)).2 rfl
  have hstrip : Text.strip (Text.strip line) = Text.strip line := Text.trim_trim _ _
  rw [names, Text.splitOn_of_notMem hbreak, List.map_singleton, hstrip]
  exact List.filter_cons_of_pos hsome

/-- A text whose lines end in a carriage return and a line feed has the same names as with line feeds
alone, so only a carriage return that stands alone is read differently where line ends are unified. -/
theorem names_unifyLineEnds {input : Text} (h : input.IsPaired) :
    names (Text.unifyLineEnds input) = names input := by
  have hstrip : ∀ line written : Text, written = line ∨ written = line ++ [Text.carriageReturn] →
      Text.strip line = Text.strip written := by
    rintro line written (rfl | rfl)
    · rfl
    · exact (Text.trim_concat (by decide)).symm
  have hlines := List.forall₂_map_left_iff.2
    (List.forall₂_map_right_iff.2 ((Text.splitOn_unifyLineEnds h).imp hstrip))
  rw [List.forall₂_eq_eq_eq] at hlines
  rw [names, names, hlines]

variable (form : Form) (settings : Settings)

/-- What is printed for a name: its tree, or that it is not known. There is nothing to print where there
is no answer, or where the tree has a number with too many digits to be written. -/
def printed? (name : Text) : Option Text :=
  match demangle form settings (.text name) with
  | .tree root => root.dump?.map fun lines => lines ++ [Text.newline]
  | .overlong => none
  | .broken _ => none
  | _ => some ("<unknown> " ++ name ++ [Text.newline])

lemma written_answer (name : Text) :
    (Answer.written settings (.ofName form settings name)).out = (printed? form settings name).getD [] ∧
      (Answer.written settings (.ofName form settings name)).isCut =
        (printed? form settings name).isNone := by
  unfold Answer.written Answer.ofName printed?
  cases demangle form settings (.text name) with
  | tree root =>
    dsimp only
    cases root.dump? <;> exact ⟨rfl, rfl⟩
  | _ => exact ⟨rfl, rfl⟩

lemma isCut_written (names : List Text) :
    (written form settings names).isCut = names.any fun name => (printed? form settings name).isNone := by
  rw [written, (Written.append_err _ _).2, Written.isCut_concat, List.map_map, List.any_map]
  congr 1
  funext name
  exact (written_answer form settings name).2

lemma out_written (names : List Text) :
    (written form settings names).out =
      (names.takeWhile fun name => (printed? form settings name).isSome).flatMap fun name =>
        (printed? form settings name).getD [] := by
  have hcut : ∀ part ∈ names.map (Answer.written settings ∘ Answer.ofName form settings),
      part.isCut → part.out = [] := by
    intro part hpart hcut
    obtain ⟨name, -, rfl⟩ := List.mem_map.1 hpart
    obtain ⟨hout, hisCut⟩ := written_answer form settings name
    have hnone := Option.isNone_iff_eq_none.1 (hisCut.symm.trans hcut)
    exact hout.trans (by rw [hnone, Option.getD_none])
  have huncut : ((fun part => !part.isCut) ∘ Answer.written settings ∘ Answer.ofName form settings) =
      fun name => (printed? form settings name).isSome := by
    funext name
    rw [Function.comp_apply, Function.comp_apply, (written_answer form settings name).2,
      Option.not_isNone]
  rw [written, (Written.append_err _ _).1, List.map_map, Written.out_concat hcut,
    List.takeWhile_map, huncut, List.flatMap_map]
  congr 1
  funext name
  exact (written_answer form settings name).1

end Batch

namespace CommandTree

variable {α : Type} {command : Command α} {arguments : List Text}

lemma follow_append (harguments : arguments.head? ≠ some helpWord) {tree : CommandTree α}
    {words : List Text} (hwords : tree.follow words = .invoke command []) :
    tree.follow (words ++ arguments) = .invoke command arguments := by
  induction words generalizing tree with
  | nil => cases hwords
  | cons word words ih =>
    rw [List.cons_append]
    simp only [follow] at hwords ⊢
    split at hwords
    · cases hwords
    · next hword =>
      rw [if_neg hword]
      cases hselect : tree.select word with
      | nothing => simp [hselect] at hwords
      | ambiguous names => simp [hselect] at hwords
      | child child =>
        rw [hselect] at hwords
        dsimp only at hwords ⊢
        cases hcommand : child.command? with
        | none =>
          rw [hcommand] at hwords
          exact ih hwords
        | some found =>
          rw [hcommand] at hwords
          dsimp only at hwords ⊢
          split at hwords
          · cases hwords
          · cases hwords
            exact if_neg harguments

/-- Words that come to a command without arguments come to it with the arguments that follow them, if
the first of these does not ask for help. -/
lemma resolve_append (harguments : arguments.head? ≠ some helpWord) {tree : CommandTree α}
    {words : List Text} (hwords : tree.resolve words = .invoke command []) :
    tree.resolve (words ++ arguments) = .invoke command arguments := by
  unfold resolve at hwords ⊢
  split at hwords
  · cases hwords
  · next hsome =>
    rw [if_neg (by simp_all), follow_append harguments hwords]

end CommandTree

namespace Program

def demangleCommand : Form → Command Action
  | .symbol => symbolCommand
  | .type => typeCommand

lemma action_demangleCommand (form : Form) : (demangleCommand form).action = .demangle form := by
  cases form <;> rfl

variable {form : Form} {words : List Text}
  (hwords : commands.resolve words = .invoke (demangleCommand form) [])

include hwords

lemma run_input {settings : Settings} {environment : Option Text}
    (hload : Settings.load {} (environment.getD []) = (settings, none)) (input : Text) :
    run words input environment = runDemangle form settings input [] := by
  rw [run, hload]
  simp only [runCommand, hwords, action_demangleCommand, runAction]

/-- The names of a run may stand on the line. -/
lemma run_arguments {input : Text} (hsome : Batch.names input ≠ [])
    (hhelp : (Batch.names input).head? ≠ some CommandTree.helpWord) (environment : Option Text)
    (other : Text) :
    run (words ++ Batch.names input) other environment = run words input environment := by
  have hresolve := CommandTree.resolve_append hhelp hwords
  have hnonempty : (Batch.names input).isEmpty = false := List.isEmpty_eq_false_iff.2 hsome
  unfold run
  split
  · simp only [runCommand, hwords, hresolve, action_demangleCommand, runAction, runDemangle, hnonempty,
      Bool.false_eq_true, if_false, List.isEmpty_nil, if_true]
  · rfl
  · rfl

/-- What a run on a text of names prints, and how it ends. -/
lemma run_names {settings : Settings} {environment : Option Text}
    (hload : Settings.load {} (environment.getD []) = (settings, none)) (input : Text) :
    (run words input environment).written.out =
        ((Batch.names input).takeWhile fun name => (Batch.printed? form settings name).isSome).flatMap
          (fun name => (Batch.printed? form settings name).getD []) ∧
      (run words input environment).ending =
        if (Batch.names input).any fun name => (Batch.printed? form settings name).isNone then .cut
        else .exit 0 := by
  rw [run_input hwords hload, ← Batch.out_written, ← Batch.isCut_written]
  simp only [runDemangle, List.isEmpty_nil, if_true, Report.ofWritten]
  split
  · exact ⟨rfl, rfl⟩
  · exact ⟨rfl, rfl⟩

/-- What a run on one of the names prints, and how it ends. -/
lemma run_name {settings : Settings} {environment : Option Text}
    (hload : Settings.load {} (environment.getD []) = (settings, none)) {input name : Text}
    (hname : name ∈ Batch.names input) :
    (run words name environment).written.out = (Batch.printed? form settings name).getD [] ∧
      (run words name environment).ending =
        if (Batch.printed? form settings name).isSome then .exit 0 else .cut := by
  obtain ⟨hout, hending⟩ := run_names hwords hload name
  rw [hout, hending, Batch.names_of_mem hname]
  cases hentry : Batch.printed? form settings name with
  | none => simp [hentry]
  | some entry => simp [hentry]

omit hwords

/-- The names of the standard input may as well stand on the line: the run is the same, whatever the
settings are. Under settings that are accepted, each name alone prints its tree, or that it is not known,
and ends well, unless there is no answer on it; and the run on all names prints what each of them prints
alone, in order, up to the first one that does not end well. -/
theorem run_batch (hwords : commands.resolve words = .invoke (demangleCommand form) []) {input : Text}
    (hsome : Batch.names input ≠ []) (hhelp : (Batch.names input).head? ≠ some CommandTree.helpWord)
    (environment : Option Text) :
    (∀ other, run (words ++ Batch.names input) other environment = run words input environment) ∧
    ∀ settings, Settings.load {} (environment.getD []) = (settings, none) →
      (∀ name ∈ Batch.names input,
        (run words name environment).written.out = (Batch.printed? form settings name).getD [] ∧
        (run words name environment).ending =
          if (Batch.printed? form settings name).isSome then .exit 0 else .cut) ∧
      (run words input environment).written.out =
        ((Batch.names input).takeWhile fun name => (run words name environment).ending = .exit 0).flatMap
          (fun name => (run words name environment).written.out) ∧
      (run words input environment).ending =
        if ∀ name ∈ Batch.names input, (run words name environment).ending = .exit 0 then .exit 0
        else .cut := by
  refine ⟨run_arguments hwords hsome hhelp environment, fun settings hload => ?_⟩
  have halone := fun name (hname : name ∈ Batch.names input) => run_name hwords hload hname
  have hends : ∀ name ∈ Batch.names input, (run words name environment).ending = .exit 0 ↔
      (Batch.printed? form settings name).isSome := by
    intro name hname
    rw [(halone name hname).2]
    split
    · next h => simp [h]
    · next h => simp [h]
  obtain ⟨hout, hending⟩ := run_names hwords hload input
  refine ⟨halone, ?_, ?_⟩
  · have hanswered : ∀ name ∈ Batch.names input,
        decide ((run words name environment).ending = .exit 0) =
          (Batch.printed? form settings name).isSome :=
      fun name hname => Bool.eq_iff_iff.2 (decide_eq_true_iff.trans (hends name hname))
    rw [hout, takeWhile_congr hanswered]
    refine List.flatMap_congr fun name hname => ?_
    exact (halone name ((List.takeWhile_sublist _).mem hname)).1.symm
  · have hcut : ((Batch.names input).any fun name => (Batch.printed? form settings name).isNone) ↔
        ¬∀ name ∈ Batch.names input, (run words name environment).ending = .exit 0 := by
      simp only [List.any_eq_true, not_forall, exists_prop]
      refine exists_congr fun name => and_congr_right fun hname => ?_
      rw [hends name hname, Option.isNone_iff_eq_none, Option.not_isSome_iff_eq_none]
    rw [hending]
    by_cases hall : ∀ name ∈ Batch.names input, (run words name environment).ending = .exit 0
    · rw [if_pos hall, if_neg fun h => hcut.1 h hall]
    · rw [if_neg hall, if_pos (hcut.2 hall)]

/-- A command may be abbreviated; a name that asks for help may stand behind another one. -/
theorem run_batch_abbreviated :
    Batch.names " Si\r\n\n?\n" = [("Si" : Text), ("?" : Text)] ∧
    (∀ other, run [("ty" : Text), ("Si" : Text), ("?" : Text)] other none =
      run [("ty" : Text)] " Si\r\n\n?\n" none) ∧
    (run [("ty" : Text)] " Si\r\n\n?\n" none).ending =
      if ∀ name ∈ Batch.names " Si\r\n\n?\n", (run [("ty" : Text)] name none).ending = .exit 0 then
        .exit 0
      else .cut := by
  have hnames : Batch.names " Si\r\n\n?\n" = [("Si" : Text), ("?" : Text)] := by decide +kernel
  have hresolve : commands.resolve [("ty" : Text)] = .invoke (demangleCommand .type) [] := rfl
  have hsome : Batch.names " Si\r\n\n?\n" ≠ [] := by decide +kernel
  have hbatch := run_batch hresolve hsome (by decide +kernel) none
  refine ⟨hnames, ?_, (hbatch.2 {} rfl).2.2⟩
  rw [hnames] at hbatch
  exact hbatch.1

/-- The text of an environment that sets the limit for numbers, in hexadecimal digits. -/
def hexadecimalLimit (limit : Nat) : Text :=
  Settings.item .maxNatural (Numeral.hexadecimal limit)

lemma load_hexadecimalLimit (limit : Nat) :
    Settings.load {} (hexadecimalLimit limit) = ({ maxNatural := .number limit }, none) := by
  have hplain : (Numeral.hexadecimal limit).IsPlain := by
    intro c hc
    obtain ⟨hlow, hhigh, hne⟩ := Numeral.of_mem_hexadecimal hc
    refine ⟨by omega, by omega, ?_, fun h => hne (congrArg Fin.val h)⟩
    rintro rfl
    exact absurd hlow (by decide)
  have hitem : ∀ c ∈ hexadecimalLimit limit, c.val ≠ 0 ∧ c ≠ Settings.comma :=
    fun c hc => Settings.of_mem_item hplain hc
  have hnull : ∀ part ∈ [hexadecimalLimit limit], ∀ c ∈ part, c.val ≠ 0 :=
    List.forall_mem_singleton.2 fun c hc => (hitem c hc).1
  have hload := Settings.load_join {} hnull (List.forall_mem_singleton.2 fun hc => (hitem _ hc).2 rfl)
  have hjoin : Text.join [Settings.comma] [hexadecimalLimit limit] = hexadecimalLimit limit :=
    List.append_nil _
  have hsplit : Settings.splitItem? (hexadecimalLimit limit) =
      some (Key.maxNatural.name, Numeral.hexadecimal limit) :=
    Settings.splitItem?_item Key.maxNatural.isPlain_name _
  have hread : Settings.read {} .maxNatural (Numeral.hexadecimal limit) = .ok (.number limit) := by
    show readNumber (Numeral.hexadecimal limit) = _
    rw [readNumber, Numeral.int?_hexadecimal]
  rw [← hjoin, hload]
  simp only [Settings.loadItems, hsplit, Key.maxNatural.isPlain_name.strip, hplain.strip,
    Settings.update, Settings.convert, Settings.assign, Key.ofName?_name, hread, Except.bind]
  rfl

/-- Under a limit with too many digits to be written, the size of a builtin type is not read. -/
lemma builtin_unwritten {limit : Nat} (hlimit : ¬Decimal.isWritable limit) (call : Grammar.Calls) :
    Grammar.bareType call limit ⟨Mangle.ascii "Bi8_", []⟩ = .stopped .overlong := by
  have hdigits : ∀ b ∈ Mangle.ascii "8", Bytes.isDigit b := List.all_eq_true.1 rfl
  have hmark : Mangle.ascii "_" = [] ∨ (Mangle.ascii "_").NoDigit := .inr rfl
  have hnatural : Grammar.natural limit ⟨Mangle.ascii "8_", []⟩ = .stopped .overlong :=
    Grammar.natural_unwritten [] hlimit hdigits (by decide) hmark
  have hsize : Grammar.builtinSize limit ⟨Mangle.ascii "8_", []⟩ = .stopped .overlong := by
    rw [Grammar.builtinSize, Grammar.Parser.bind_apply, hnatural]
  show (Grammar.builtinSize >>= fun size => pure (Grammar.builtin ("Int" ++ Grammar.natText size)))
    (limit : Int) ⟨Mangle.ascii "8_", []⟩ = _
  rw [Grammar.Parser.bind_apply, hsize]

lemma printed?_unwritten {limit : Nat} (hlimit : ¬Decimal.isWritable limit) :
    Batch.printed? .type { maxNatural := .number limit } "Bi8_" = none := by
  have hbare : Grammar.parse 127 .bareType limit ⟨Mangle.ascii "Bi8_", []⟩ = .stopped .overlong :=
    builtin_unwritten hlimit (Grammar.parse 126)
  have htype : Grammar.parse 128 .type limit ⟨Mangle.ascii "Bi8_", []⟩ = .stopped .overlong := by
    show Grammar.wrapped (Grammar.parse 127) .type .bareType limit ⟨Mangle.ascii "Bi8_", []⟩ = _
    rw [Grammar.wrapped, Grammar.Parser.bind_apply, hbare]
  have hverdict : demangle .type { maxNatural := .number limit } (.text "Bi8_") = .overlong := by
    show Verdict.ofOutcome 128 (Grammar.parse 128 .type limit ⟨Mangle.ascii "Bi8_", []⟩) = _
    rw [htype]
    rfl
  rw [Batch.printed?, hverdict]

/-- What is printed for the type of integers. -/
def intEntry : Text :=
  "kind=Type\n  kind=Structure\n    kind=Module, text=\"Swift\"\n    kind=Identifier, text=\"Int\"\n"

lemma printed?_int (limit : Nat) :
    Batch.printed? .type { maxNatural := .number limit } "Si" = some intEntry := by
  rfl

/-- The settings are accepted, but there is no answer on the first of two names: nothing is printed for
the second one, which prints its tree when it is alone. -/
theorem run_batch_cut :
    Batch.names "Bi8_\nSi" = [("Bi8_" : Text), ("Si" : Text)] ∧
    (Settings.load {} (hexadecimalLimit (10 ^ Decimal.maxDigits))).2 = none ∧
    (run [("type" : Text)] "Bi8_\nSi" (some (hexadecimalLimit (10 ^ Decimal.maxDigits)))).written.out = [] ∧
    (run [("type" : Text)] "Si" (some (hexadecimalLimit (10 ^ Decimal.maxDigits)))).written.out =
      intEntry := by
  have hload : Settings.load {} ((some (hexadecimalLimit (10 ^ Decimal.maxDigits))).getD []) =
      ({ maxNatural := .number (10 ^ Decimal.maxDigits : Nat) }, none) :=
    load_hexadecimalLimit (10 ^ Decimal.maxDigits)
  have hresolve : commands.resolve [("type" : Text)] = .invoke (demangleCommand .type) [] := rfl
  have hlimit : ¬Decimal.isWritable (10 ^ Decimal.maxDigits : Nat) :=
    not_isWritable_of_le (by simp only [Int.natAbs_natCast, Nat.le_refl])
  have hnames : Batch.names "Bi8_\nSi" = [("Bi8_" : Text), ("Si" : Text)] := by decide +kernel
  have hsingle : Batch.names "Si" = [("Si" : Text)] := by decide +kernel
  have hrun := fun input => (run_names hresolve hload input).1
  refine ⟨hnames, congrArg Prod.snd hload, ?_, ?_⟩
  · rw [hrun, hnames, List.takeWhile_cons_of_neg (by rw [printed?_unwritten hlimit]; decide)]
    rfl
  · rw [hrun, hsingle, List.takeWhile_cons_of_pos (by rw [printed?_int]; rfl)]
    rw [List.takeWhile_nil, List.flatMap_singleton, printed?_int, Option.getD_some]

end Program

end SwiftMangling
