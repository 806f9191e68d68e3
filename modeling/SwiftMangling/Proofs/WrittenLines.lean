import SwiftMangling.Command.Batch
import SwiftMangling.Proofs.Answers
import SwiftMangling.Proofs.MoreBudget
import SwiftMangling.Proofs.WrittenTrees

/-!
# What reading a name writes

Reading a name writes one line at most, to standard error: that the budget is exhausted, or that the
name is no mangling. The name is shortened in it, and it stays one line whatever the name is. Only a
budget with too many digits to be written is exhausted without a word.
-/

namespace SwiftMangling

namespace Text

/-- A text without line breaks. -/
def IsUnbroken (t : Text) : Prop :=
  ∀ c ∈ t, c ≠ .ofChar '\n' ∧ c ≠ .ofChar '\r'

instance (t : Text) : Decidable t.IsUnbroken :=
  List.decidableBAll _ t

lemma IsUnbroken.append {s t : Text} (hs : s.IsUnbroken) (ht : t.IsUnbroken) :
    (s ++ t).IsUnbroken :=
  List.forall_mem_append.2 ⟨hs, ht⟩

lemma isUnbroken_brief (limit : Int) (t : Text) : (brief limit t).IsUnbroken := by
  intro c hc
  simpa using (List.mem_filter.1 hc).2

lemma length_clip_le {limit : Int} (hlimit : 0 ≤ limit) (t : Text) :
    (clip limit t).length ≤ limit.toNat := by
  rw [clip, List.length_take, Position.before, Position.fromFront, if_neg (not_lt.2 hlimit)]
  omega

/-- Three dots may come on top of the limit. -/
lemma length_brief_le {limit : Int} (hlimit : 0 ≤ limit) (t : Text) :
    ((brief limit t).length : Int) ≤ limit + 3 := by
  have hfilter : (brief limit t).length ≤
      (if limit < t.length then clip limit t ++ "..." else t).length := List.length_filter_le _ _
  by_cases hlong : limit < t.length
  · rw [if_pos hlong, List.length_append] at hfilter
    have hclip := length_clip_le hlimit t
    have hdots : (("..." : String) : Text).length = 3 := rfl
    omega
  · rw [if_neg hlong] at hfilter
    omega

end Text

lemma Decimal.isUnbroken_text (i : Int) : (Decimal.text i).IsUnbroken :=
  fun _ hc => ⟨ne_of_mem_text hc (by decide) rfl, ne_of_mem_text hc (by decide) rfl⟩

namespace Diagnostics

/-- What sets the colour of a warning, and what takes it back. -/
def warningColor (settings : Settings) : Text × Text :=
  if settings.loggingColor.isOn then ("\x1b[33m", "\x1b[0m") else ([], [])

/-- A text is one line that shows a name between two other texts, in little more than the length that
is set. -/
structure IsLineFor (settings : Settings) (name : MangledName) (start rest line : Text) : Prop where
  text : line = start ++ brief settings name ++ rest ++ [Text.newline]
  unbroken : (start ++ brief settings name ++ rest).IsUnbroken
  length : 0 ≤ settings.shortLength.toInt →
    ((brief settings name).length : Int) ≤ settings.shortLength.toInt + 3

lemma brief_eq (settings : Settings) (name : MangledName) :
    brief settings name = Text.brief settings.shortLength.toInt name.shown := by
  rw [brief, MangledName.brief, if_pos (by decide)]

lemma IsLineFor.of_unbroken {settings : Settings} {name : MangledName} {start rest line : Text}
    (hline : line = start ++ brief settings name ++ rest ++ [Text.newline])
    (hstart : start.IsUnbroken) (hrest : rest.IsUnbroken) : IsLineFor settings name start rest line := by
  refine ⟨hline, ?_, fun hlength => ?_⟩
  · rw [brief_eq]
    exact (hstart.append (Text.isUnbroken_brief _ _)).append hrest
  · rw [brief_eq]
    exact Text.length_brief_le hlength _

lemma isUnbroken_warningColor (settings : Settings) :
    (warningColor settings).1.IsUnbroken ∧ (warningColor settings).2.IsUnbroken := by
  unfold warningColor
  split <;> decide

/-- A warning is shown where no level above its own is asked for. -/
lemma line_warning (settings : Settings) (message : Text) :
    line settings .warning message =
      if settings.loggingLevel.toInt ≤ 40 then
        (warningColor settings).1 ++ message ++ (warningColor settings).2 ++ [Text.newline]
      else [] := by
  have hrank : Level.warning.rank + 0 = 40 := rfl
  unfold line
  simp only [hrank]
  by_cases hlevel : settings.loggingLevel.toInt ≤ 40
  · rw [if_neg (by omega), if_pos hlevel]
    simp only [Level.color?]
    by_cases hcolor : settings.loggingColor.isOn
    · rw [if_pos hcolor, warningColor, if_pos hcolor]
      rfl
    · rw [if_neg hcolor, warningColor, if_neg hcolor, List.nil_append, List.append_nil]
  · rw [if_pos ⟨by decide, by omega⟩, if_neg hlevel]

lemma line_debug (settings : Settings) (message : Text) :
    line settings .debug message =
      if settings.loggingLevel.toInt ≤ 10 then message ++ [Text.newline] else [] := by
  have hrank : Level.debug.rank + 0 = 10 := rfl
  unfold line
  simp only [hrank]
  by_cases hlevel : settings.loggingLevel.toInt ≤ 10
  · rw [if_neg (by omega), if_pos hlevel]
    rfl
  · rw [if_pos ⟨by decide, by omega⟩, if_neg hlevel]

/-- The line for an exhausted budget is a warning that names the budget. -/
lemma tooDeep_spec (settings : Settings) (name : MangledName) (budget : Int) :
    (settings.loggingLevel.toInt ≤ 40 →
      IsLineFor settings name ((warningColor settings).1 ++ "DepthExceeded ")
        (" (limit " ++ Decimal.text budget ++ ")" ++ (warningColor settings).2)
        (tooDeep settings name budget)) ∧
    (40 < settings.loggingLevel.toInt → tooDeep settings name budget = []) := by
  rw [tooDeep, line_warning]
  constructor
  · intro hlevel
    obtain ⟨hopening, hclosing⟩ := isUnbroken_warningColor settings
    rw [if_pos hlevel]
    apply IsLineFor.of_unbroken
    · simp only [List.append_assoc]
    · exact hopening.append (by decide)
    · have hbudget := Decimal.isUnbroken_text budget
      exact (((by decide : Text.IsUnbroken (" (limit " : String)).append hbudget).append
        (by decide)).append hclosing
  · intro hlevel
    rw [if_neg (not_le.2 hlevel)]

lemma notMangled_spec (settings : Settings) (name : MangledName) :
    (settings.loggingLevel.toInt ≤ 10 →
      IsLineFor settings name "cannot demangle " [] (notMangled settings name)) ∧
    (10 < settings.loggingLevel.toInt → notMangled settings name = []) := by
  rw [notMangled, line_debug]
  constructor
  · intro hlevel
    rw [if_pos hlevel]
    apply IsLineFor.of_unbroken
    · rw [List.append_nil]
    · decide
    · decide
  · intro hlevel
    rw [if_neg (not_le.2 hlevel)]

end Diagnostics

namespace Verdict

/-- What is written when reading a name comes to a verdict: the diagnostics, to standard error. Where
there is no answer, writing is cut short. -/
def written (settings : Settings) (name : MangledName) (verdict : Verdict) : Written where
  err := verdict.log settings name
  isCut :=
    match verdict with
    | overlong => true
    | broken _ => true
    | _ => false

end Verdict

/-- What is written about a name, by the verdict on it. -/
structure Reported (form : Form) (settings : Settings) (name : MangledName) (verdict : Verdict)
    (written : Written) : Prop where
  /-- Nothing is written to standard output. -/
  out : written.out = []
  /-- Nothing is written about a tree. -/
  tree : ∀ root, verdict = .tree root → written.err = []
  /-- A name that is no mangling has its line where the level asks for it. -/
  notMangled : verdict = .notMangled →
    (settings.loggingLevel.toInt ≤ 10 →
      Diagnostics.IsLineFor settings name "cannot demangle " [] written.err) ∧
    (10 < settings.loggingLevel.toInt → written.err = [])
  /-- An exhausted budget that can be written has its line where the level asks for it. -/
  runsOut : RunsOut form settings name → Decimal.isWritable settings.maxDepth.toInt →
    verdict = .tooDeep ∧
    (settings.loggingLevel.toInt ≤ 40 →
      Diagnostics.IsLineFor settings name ((Diagnostics.warningColor settings).1 ++ "DepthExceeded ")
        (" (limit " ++ Decimal.text settings.maxDepth.toInt ++ ")" ++
          (Diagnostics.warningColor settings).2) written.err) ∧
    (40 < settings.loggingLevel.toInt → written.err = [])
  /-- An exhausted budget that cannot be written leaves no answer and has no line. -/
  runsOutOverlong : RunsOut form settings name → ¬Decimal.isWritable settings.maxDepth.toInt →
    verdict = .overlong ∧ written.err = []
  /-- Otherwise reading stops at an overlong number only, which takes a limit for numbers with about
  as many digits, and has no line. -/
  complete : (∃ root, verdict = .tree root) ∨ verdict = .notMangled ∨ RunsOut form settings name ∨
    Decimal.maxDigits ≤ Decimal.digitCount settings.maxNatural.toInt ∧ verdict = .overlong ∧
      written.err = []

/-- A budget runs out where reading stops for want of it, and the verdict is that of the budget. -/
lemma demangle_of_runsOut {form : Form} {settings : Settings} {name : MangledName}
    (h : RunsOut form settings name) :
    demangle form settings name =
      if Decimal.isWritable settings.maxDepth.toInt then .tooDeep else .overlong := by
  rw [demangle, h, Verdict.ofOutcome]

/-- For every name and all settings, nothing is written but one line to standard error, which tells an
exhausted budget from a name that is no mangling. -/
theorem demangle_reported (form : Form) (settings : Settings) (name : MangledName) :
    Reported form settings name (demangle form settings name)
      ((demangle form settings name).written settings name) where
  out := rfl
  tree root hroot := by
    rw [hroot]
    rfl
  notMangled hnone := by
    rw [hnone]
    exact Diagnostics.notMangled_spec settings name
  runsOut h hwritable := by
    have hdeep : demangle form settings name = .tooDeep := (runsOut_iff hwritable).1 h
    rw [hdeep]
    exact ⟨rfl, Diagnostics.tooDeep_spec settings name settings.maxDepth.toInt⟩
  runsOutOverlong h hwritable := by
    have hoverlong : demangle form settings name = .overlong := by
      rw [demangle_of_runsOut h, if_neg hwritable]
    rw [hoverlong]
    exact ⟨rfl, rfl⟩
  complete := by
    unfold RunsOut demangle
    cases houtcome : parseBytes form settings.maxDepth.toInt.toNat settings.maxNatural.toInt
        name.toBytes with
    | found root s => exact .inl ⟨root, rfl⟩
    | refused s => exact .inr (.inl rfl)
    | stopped why =>
      cases why with
      | exhausted => exact .inr (.inr (.inl rfl))
      | overlong =>
        -- With a shorter limit, reading stops for want of budget only.
        refine .inr (.inr (.inr ⟨?_, rfl, rfl⟩))
        by_contra hfew
        have hwhy := parseBytes_onlyExhausted form _ (not_le.1 hfew) _ _ houtcome
        cases hwhy
      | broken breach => exact absurd houtcome (parseBytes_ne_broken form _ _ _ breach)

/-- Every type exhausts a budget of nothing. -/
lemma runsOut_type_of_nonpos {settings : Settings} (h : settings.maxDepth.toInt ≤ 0)
    (name : MangledName) : RunsOut .type settings name := by
  unfold RunsOut
  rw [Int.toNat_of_nonpos h]
  rfl

/-- A negative budget that has too many digits to be written is exhausted by the type of integers, and
there is no line, though the level asks for one. -/
theorem runsOut_unwritten :
    RunsOut .type { maxDepth := .number (-(10 ^ Decimal.maxDigits : Nat)) } (.text "Si") ∧
    ({ maxDepth := .number (-(10 ^ Decimal.maxDigits : Nat)) } : Settings).loggingLevel.toInt ≤ 40 ∧
    ((demangle .type { maxDepth := .number (-(10 ^ Decimal.maxDigits : Nat)) } (.text "Si")).written
      { maxDepth := .number (-(10 ^ Decimal.maxDigits : Nat)) } (.text "Si")).err = [] := by
  have hruns : RunsOut .type { maxDepth := .number (-(10 ^ Decimal.maxDigits : Nat)) } (.text "Si") := by
    apply runsOut_type_of_nonpos
    simp only [Setting.toInt]
    exact Int.neg_nonpos_of_nonneg (Int.natCast_nonneg _)
  have hlong : ¬Decimal.isWritable
      ({ maxDepth := .number (-(10 ^ Decimal.maxDigits : Nat)) } : Settings).maxDepth.toInt :=
    not_isWritable_of_le (by simp only [Setting.toInt, Int.natAbs_neg, Int.natAbs_natCast, Nat.le_refl])
  refine ⟨hruns, by decide, ?_⟩
  rw [demangle_of_runsOut hruns, if_neg hlong]
  rfl

end SwiftMangling
