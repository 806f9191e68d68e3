import Mathlib.Data.List.Basic
import SwiftMangling.Cursor
import SwiftMangling.Grammar.Parser
import SwiftMangling.MangledName

/-!
# What is read through a cursor

A cursor that is only moved forwards stays inside its name. What a step answers then depends on the bytes
in front of the cursor alone, and the step moves it over some of them. Which ones is told by what was
asked for and what was answered. So what the steps consumed, one after the other, and what is left to
read make up the name. The parsers of the grammar keep what is left in place of a position, and do the
same steps on it.
-/

namespace SwiftMangling

/-- A mark that comes next is made of the first bytes. -/
lemma Text.ofBytes_take_mark {mark : Text} {bytes rest : Bytes}
    (h : Bytes.stripMark? (mark.map Fin.val) bytes = some rest) :
    ofBytes (bytes.take mark.length) = mark ∧ bytes.drop mark.length = rest := by
  obtain ⟨front, hfront, rfl⟩ := Bytes.stripMark?_append h
  have hnumbers : (ofBytes front).map Fin.val = mark.map Fin.val := by
    rw [← hfront, ofBytes, List.map_map]
    rfl
  have hmark : ofBytes front = mark := (List.map_inj_right fun _ _ => Fin.ext).1 hnumbers
  have hlength : front.length = mark.length := by
    rw [← hmark, length_ofBytes]
  rw [← hlength, List.take_left, List.drop_left]
  exact ⟨hmark, rfl⟩

lemma Text.length_take_mark {mark : Text} {bytes rest : Bytes}
    (h : Bytes.stripMark? (mark.map Fin.val) bytes = some rest) :
    (bytes.take mark.length).length = mark.length := by
  rw [← length_ofBytes, (ofBytes_take_mark h).1]

namespace Cursor

/-- A step of reading. -/
inductive Step where
  | peek
  | next
  | accept (mark : Text)
  | advance (amount : Nat)
  | digits
  | readUntil (mark : Text)
  | takeRest
  deriving DecidableEq, Repr

namespace Step

/-- What is answered to a step: the next byte, whether a mark came next, bytes if there are such, or bytes
and whether a mark comes after them. -/
abbrev Answer : Step → Type
  | peek => UInt8
  | next => UInt8
  | accept _ => Bool
  | advance _ => Option Bytes
  | digits => Option Bytes
  | readUntil _ => Bytes × Bool
  | takeRest => Bytes

/-- The answer says that there is no match, or that there are too few bytes. -/
def Misses : (step : Step) → step.Answer → Prop
  | peek, _ => False
  | next, _ => False
  | accept _, found => found = false
  | advance _, taken => taken = none
  | digits, taken => taken = none
  | readUntil _, answer => answer.2 = false
  | takeRest, _ => False

/-- Where a step that misses leaves the cursor: it is not moved, but a search goes on to the end. -/
def missed (c : Cursor) : Step → Cursor
  | readUntil _ => c.takeRest.2
  | _ => c

/-- What is answered to a step in front of bytes, and those of them that it takes. -/
def read (bytes : Bytes) : (step : Step) → step.Answer × Bytes
  | peek => (bytes.headD 0x2E, [])
  | next => (bytes.headD 0x2E, bytes.take 1)
  | accept mark =>
    if (Bytes.stripMark? (mark.map Fin.val) bytes).isSome then (true, bytes.take mark.length)
    else (false, [])
  | advance amount =>
    if amount ≤ bytes.length then (some (bytes.take amount), bytes.take amount) else (none, [])
  | digits =>
    if (Bytes.spanDigits bytes).1 = [] then (none, [])
    else (some (Bytes.spanDigits bytes).1, (Bytes.spanDigits bytes).1)
  | readUntil mark =>
    match Bytes.breakMark? (mark.map Fin.val) bytes with
    | some (before, _) => ((before, true), before)
    | none => ((bytes, false), bytes)
  | takeRest => (bytes, bytes)

lemma read_prefix (bytes : Bytes) (step : Step) : (step.read bytes).2 <+: bytes := by
  cases step with
  | peek => exact List.nil_prefix
  | next => exact List.take_prefix 1 bytes
  | accept mark =>
    rw [read]
    split
    · exact List.take_prefix mark.length bytes
    · exact List.nil_prefix
  | advance amount =>
    rw [read]
    split
    · exact List.take_prefix amount bytes
    · exact List.nil_prefix
  | digits =>
    rw [read]
    split
    · exact List.nil_prefix
    · exact ⟨_, Bytes.spanDigits_append bytes⟩
  | readUntil mark =>
    rw [read]
    split
    · next before rest hbreak => exact ⟨rest, Bytes.breakMark?_append hbreak⟩
    · exact List.prefix_rfl
  | takeRest => exact List.prefix_rfl

end Step

/-- The answer to a step, and the cursor after it. -/
def perform? (c : Cursor) : (step : Step) → Option (step.Answer × Cursor)
  | .peek => c.peek?.map fun b => (b, c)
  | .next => c.next?
  | .accept mark => some ((c.accept? mark).isSome, (c.accept? mark).getD c)
  | .advance amount =>
    some ((c.advance? amount).map Prod.fst, ((c.advance? amount).map Prod.snd).getD c)
  | .digits => some (c.digits?.map Prod.fst, (c.digits?.map Prod.snd).getD c)
  | .readUntil mark => some (c.readUntil mark)
  | .takeRest => some c.takeRest

/-- What a step consumed, by its answer: the byte that came next, unless the cursor was at the end, a
mark that was accepted, or the bytes that were answered. There is one character for each byte. -/
def consumed (c : Cursor) : (step : Step) → step.Answer → Text
  | .peek, _ => []
  | .next, b => if c.atEnd then [] else Text.ofBytes [b]
  | .accept mark, found => if found then mark else []
  | .advance _, taken => Text.ofBytes (taken.getD [])
  | .digits, taken => Text.ofBytes (taken.getD [])
  | .readUntil _, answer => Text.ofBytes answer.1
  | .takeRest, taken => Text.ofBytes taken

/-- What steps consumed, one after the other, and the cursor after them. -/
def run? (c : Cursor) : List Step → Option (Text × Cursor)
  | [] => some ([], c)
  | step :: steps => do
    let (answer, c') ← c.perform? step
    let (text, last) ← c'.run? steps
    return (c.consumed step answer ++ text, last)

/-- The cursor stands inside its name or at the end of it. -/
structure Within (c : Cursor) : Prop where
  front : 0 ≤ c.position
  back : c.position ≤ c.name.length

/-- The cursor moved over bytes. -/
def skip (c : Cursor) (taken : Bytes) : Cursor :=
  c.moveTo (c.position + taken.length)

lemma within_start (name : Bytes) : (start name).Within :=
  ⟨Int.le_refl 0, Int.natCast_nonneg name.length⟩

lemma skip_nil (c : Cursor) : c.skip [] = c := by
  rw [skip, List.length_nil, Int.natCast_zero, Int.add_zero]
  rfl

lemma skip_skip (c : Cursor) (taken taken' : Bytes) :
    (c.skip taken).skip taken' = c.skip (taken ++ taken') := by
  show c.moveTo (c.position + taken.length + taken'.length) = _
  rw [skip, List.length_append, Int.natCast_add, Int.add_assoc]

section Within

variable {c : Cursor} (h : c.Within)

include h

lemma Within.length_unread : (c.unread.length : Int) = c.name.length - c.position := by
  have hplace := place_of_nonneg h.front h.back
  have hback := h.back
  rw [unread, List.length_drop]
  omega

lemma Within.skip {taken : Bytes} (htaken : taken <+: c.unread) : (c.skip taken).Within := by
  have hlength := h.length_unread
  have hfew := htaken.length_le
  refine ⟨Int.add_nonneg h.front (Int.natCast_nonneg _), ?_⟩
  show c.position + taken.length ≤ c.name.length
  omega

/-- What is left after bytes that came next is what came after them. -/
lemma Within.unread_skip {taken : Bytes} (htaken : taken <+: c.unread) :
    (c.skip taken).unread = c.unread.drop taken.length := by
  have hthere := h.skip htaken
  have hplace : (c.skip taken).place = c.place + taken.length := by
    have hfrom := place_of_nonneg h.front h.back
    have hto := place_of_nonneg hthere.front hthere.back
    have hposition : (c.skip taken).position = c.position + taken.length := rfl
    omega
  show c.name.drop (c.skip taken).place = (c.name.drop c.place).drop taken.length
  rw [hplace, List.drop_drop]

lemma Within.atEnd : c.atEnd = c.unread.isEmpty := by
  have hlength := h.length_unread
  rw [Bool.eq_iff_iff, Cursor.atEnd, decide_eq_true_eq, List.isEmpty_iff_length_eq_zero]
  omega

lemma Within.moveTo_end : c.moveTo c.name.length = c.skip c.unread := by
  have hlength := h.length_unread
  have hend : c.position + c.unread.length = c.name.length := by omega
  rw [Cursor.skip, hend]

lemma Within.peek? : c.peek? = some (c.unread.headD 0x2E) := by
  rw [Cursor.peek?, h.atEnd]
  cases hunread : c.unread with
  | nil => rfl
  | cons b rest =>
    have hplace := place_of_nonneg h.front h.back
    rw [List.isEmpty_cons, if_neg Bool.false_ne_true, ← hplace, Position.item?, Position.fromFront,
      if_neg (by omega)]
    show c.name[c.place]? = some b
    rw [← List.head?_drop]
    show c.unread.head? = some b
    rw [hunread, List.head?_cons]

lemma Within.next? : c.next? = some (c.unread.headD 0x2E, c.skip (c.unread.take 1)) := by
  rw [Cursor.next?, h.peek?, h.atEnd]
  cases c.unread with
  | nil =>
    rw [List.take_nil, skip_nil]
    rfl
  | cons b rest => rfl

lemma Within.advance? (amount : Nat) : c.advance? amount =
    if amount ≤ c.unread.length then some (c.unread.take amount, c.skip (c.unread.take amount))
    else none := by
  have hlength := h.length_unread
  have hplace := place_of_nonneg h.front h.back
  by_cases hamount : amount ≤ c.unread.length
  · have hthere : c.position + amount = (c.place + amount : Nat) := by omega
    have hslice : Position.slice c.name c.position (c.place + amount : Nat) = c.unread.take amount := by
      rw [← hplace, Position.slice_natCast, unread, List.drop_take, Nat.add_sub_cancel_left]
    have henough : c.hasAtLeast amount = true := decide_eq_true (by omega)
    rw [if_pos hamount, Cursor.advance?, if_pos henough, Cursor.skip, List.length_take_of_le hamount]
    simp only [hthere, hslice]
  · have hfew : ¬c.hasAtLeast amount = true := by
      simp only [hasAtLeast, decide_eq_true_eq]
      omega
    rw [if_neg hamount, Cursor.advance?, if_neg hfew]

lemma Within.digits? : c.digits? =
    if (Bytes.spanDigits c.unread).1 = [] then none
    else some ((Bytes.spanDigits c.unread).1, c.skip (Bytes.spanDigits c.unread).1) := by
  have hplace := place_of_nonneg h.front h.back
  have hfirst : c.position.toNat = c.place := by omega
  have hunread : c.name.drop c.place = c.unread := rfl
  simp only [Cursor.digits?, hfirst, hunread]
  obtain ⟨digits, rest⟩ := Bytes.spanDigits c.unread
  cases digits with
  | nil => rfl
  | cons b digits => rw [if_neg (List.cons_ne_nil b digits), Cursor.skip, ← hplace]

/-- A step is answered by the bytes in front of the cursor, and moves it over those that are taken. -/
lemma Within.perform? (step : Step) :
    c.perform? step = some ((step.read c.unread).1, c.skip (step.read c.unread).2) := by
  have hplace := place_of_nonneg h.front h.back
  cases step with
  | peek =>
    rw [Cursor.perform?, h.peek?, Step.read, skip_nil]
    rfl
  | next => rw [Cursor.perform?, h.next?, Step.read]
  | accept mark =>
    rw [Cursor.perform?, Cursor.accept?, Step.read]
    cases hstrip : Bytes.stripMark? (mark.map Fin.val) c.unread with
    | none =>
      rw [if_neg nofun, skip_nil]
      rfl
    | some rest =>
      -- The cursor moves by the characters of the mark, which are as many as the bytes it takes.
      rw [if_pos Option.isSome_some, Cursor.skip, Text.length_take_mark hstrip]
      rfl
  | advance amount =>
    rw [Cursor.perform?, h.advance?, Step.read]
    by_cases hamount : amount ≤ c.unread.length
    · rw [if_pos hamount, if_pos hamount]
      rfl
    · rw [if_neg hamount, if_neg hamount, skip_nil]
      rfl
  | digits =>
    rw [Cursor.perform?, h.digits?, Step.read]
    by_cases hnone : (Bytes.spanDigits c.unread).1 = []
    · rw [if_pos hnone, if_pos hnone, skip_nil]
      rfl
    · rw [if_neg hnone, if_neg hnone]
      rfl
  | readUntil mark =>
    rw [Cursor.perform?, Cursor.readUntil, Step.read]
    cases Bytes.breakMark? (mark.map Fin.val) c.unread with
    | none => rw [h.moveTo_end]
    | some parts =>
      obtain ⟨before, rest⟩ := parts
      simp only [Cursor.skip, hplace]
  | takeRest => rw [Cursor.perform?, Cursor.takeRest, h.moveTo_end, Step.read]

/-- The answer tells the bytes that were taken. -/
lemma Within.consumed_read (step : Step) :
    c.consumed step (step.read c.unread).1 = Text.ofBytes (step.read c.unread).2 := by
  cases step with
  | peek => rfl
  | next =>
    rw [consumed, Step.read, h.atEnd]
    cases c.unread with
    | nil => rfl
    | cons b rest => rfl
  | accept mark =>
    rw [consumed, Step.read]
    cases hstrip : Bytes.stripMark? (mark.map Fin.val) c.unread with
    | none => rfl
    | some rest => exact (Text.ofBytes_take_mark hstrip).1.symm
  | advance amount =>
    rw [consumed, Step.read]
    split <;> rfl
  | digits =>
    rw [consumed, Step.read]
    split <;> rfl
  | readUntil mark =>
    rw [consumed, Step.read]
    split <;> rfl
  | takeRest => rfl

/-- A step that misses takes nothing, but for a search, which takes all. -/
lemma Within.skip_of_misses {step : Step} (hmiss : step.Misses (step.read c.unread).1) :
    c.skip (step.read c.unread).2 = step.missed c := by
  cases step with
  | peek => exact hmiss.elim
  | next => exact hmiss.elim
  | accept mark =>
    rw [Step.read] at hmiss ⊢
    split at hmiss
    · cases hmiss
    · next hnone =>
      rw [if_neg hnone]
      exact skip_nil c
  | advance amount =>
    rw [Step.read] at hmiss ⊢
    split at hmiss
    · cases hmiss
    · next hnone =>
      rw [if_neg hnone]
      exact skip_nil c
  | digits =>
    rw [Step.read] at hmiss ⊢
    split at hmiss
    · next hnone =>
      rw [if_pos hnone]
      exact skip_nil c
    · cases hmiss
  | readUntil mark =>
    rw [Step.missed, Cursor.takeRest, h.moveTo_end]
    rw [Step.read] at hmiss ⊢
    cases hbreak : Bytes.breakMark? (mark.map Fin.val) c.unread with
    | none => rfl
    | some parts =>
      rw [hbreak] at hmiss
      cases hmiss
  | takeRest => exact hmiss.elim

end Within

/-- Steps one after the other move the cursor over the bytes that they consumed. -/
lemma Within.run? {c : Cursor} (h : c.Within) (steps : List Step) : ∃ taken,
    taken <+: c.unread ∧ c.run? steps = some (Text.ofBytes taken, c.skip taken) := by
  induction steps generalizing c with
  | nil =>
    refine ⟨[], List.nil_prefix, ?_⟩
    rw [skip_nil]
    rfl
  | cons step steps ih =>
    -- The later steps begin behind what the first one takes, and take from what it leaves.
    have htaken := step.read_prefix c.unread
    obtain ⟨later, hlater, hrun⟩ := ih (h.skip htaken)
    rw [h.unread_skip htaken] at hlater
    refine ⟨(step.read c.unread).2 ++ later, ?_, ?_⟩
    · have hboth := (List.prefix_append_right_inj (step.read c.unread).2).2 hlater
      rwa [List.prefix_iff_eq_append.1 htaken] at hboth
    · simp only [Cursor.run?, h.perform?, hrun, h.consumed_read, Option.bind_eq_bind, Option.bind_some,
        Text.ofBytes_append, skip_skip, Option.pure_def]

/-- Nothing of a name is lost or read twice. Whatever the steps are, what they consumed and what is left
to read are the bytes of the name, and the cursor stands after as many bytes as were consumed. Every
further step has an answer and does not go back; one that misses leaves the cursor where it was, but for
a search, which goes to the end. -/
theorem run_history (name : MangledName) (steps : List Step) :
    ∃ text c, (start name.toBytes).run? steps = some (text, c) ∧
      text ++ Text.ofBytes c.unread = Text.ofBytes name.toBytes ∧
      c.position = text.length ∧ c.position ≤ name.toBytes.length ∧
      ∀ step : Step, ∃ answer c', c.perform? step = some (answer, c') ∧ c.position ≤ c'.position ∧
        (step.Misses answer → c' = step.missed c) := by
  have hstart := within_start name.toBytes
  obtain ⟨taken, htaken, hrun⟩ := hstart.run? steps
  have hlast := hstart.skip htaken
  refine ⟨Text.ofBytes taken, (start name.toBytes).skip taken, hrun, ?_, ?_, hlast.back, fun step => ?_⟩
  · rw [hstart.unread_skip htaken, ← Text.ofBytes_append, List.prefix_iff_eq_append.1 htaken]
    rfl
  · rw [Text.length_ofBytes]
    exact Int.zero_add _
  · refine ⟨_, _, hlast.perform? step, ?_, hlast.skip_of_misses⟩
    exact Int.le_add_of_nonneg_right (Int.natCast_nonneg _)

/-- At the end a full stop comes next and is not consumed, however often it is taken; a full stop of the
name is consumed. -/
example : (start [0x34, 0x2E]).run? [.digits, .next, .next, .accept ".", .next] =
    some (Text.ofString "4.", ⟨[0x34, 0x2E], 2⟩) := by
  decide

end Cursor

namespace Grammar

open Cursor

/-- What the parser of a step finds. -/
abbrev Value : Step → Type
  | .peek => Char
  | .next => Char
  | .accept _ => Bool
  | .advance _ => Bytes
  | .digits => Nat
  | .readUntil _ => Bytes
  | .takeRest => Bytes

/-- The parser of a step. -/
def parserOf : (step : Step) → Parser (Value step)
  | .peek => peek
  | .next => next
  | .accept mark => accept mark
  | .advance amount => advance amount
  | .digits => natural
  | .readUntil mark => readUntil mark
  | .takeRest => takeRest

/-- What a parser comes to by the answer to its step, in the state after it. A mark may be absent; where
other steps miss, the parser refuses. -/
def outcomeOf (limit : Int) (s : State) : (step : Step) → step.Answer → Outcome (Value step)
  | .peek, b => .found (Bytes.char b) s
  | .next, b => .found (Bytes.char b) s
  | .accept _, found => .found found s
  | .advance _, none => .refused s
  | .advance _, some taken => .found taken s
  | .digits, none => .refused s
  | .digits, some digits =>
    match Decimal.bounded limit digits with
    | .within n => .found n s
    | .beyond => .refused s
    | .overlong => .stopped .overlong
    | .malformed => .stopped (.broken .notNumeral)
  | .readUntil _, (before, found) => if found then .found before s else .refused s
  | .takeRest, rest => .found rest s

/-- In front of any bytes, a parser comes to what its step reads there. -/
lemma parserOf_read (limit : Int) (nodes : References Node) (bytes : Bytes) (step : Step) :
    parserOf step limit ⟨bytes, nodes⟩ =
      outcomeOf limit ⟨bytes.drop (step.read bytes).2.length, nodes⟩ step (step.read bytes).1 := by
  cases step with
  | peek => cases bytes <;> rfl
  | next => cases bytes <;> rfl
  | accept mark =>
    rw [parserOf, accept, outcomeOf, Step.read]
    cases hstrip : Bytes.stripMark? (mark.map Fin.val) bytes with
    | none => rfl
    | some rest =>
      rw [if_pos Option.isSome_some, Text.length_take_mark hstrip, (Text.ofBytes_take_mark hstrip).2]
  | advance amount =>
    rw [parserOf, advance, Step.read]
    by_cases hamount : amount ≤ bytes.length
    · rw [if_pos hamount, if_pos hamount, List.length_take_of_le hamount]
      rfl
    · rw [if_neg hamount, if_neg hamount]
      rfl
  | digits =>
    have hall := Bytes.spanDigits_append bytes
    rw [parserOf, natural, Step.read]
    cases hspan : Bytes.spanDigits bytes with
    | mk digits rest =>
      rw [hspan] at hall
      cases digits with
      | nil => rfl
      | cons b digits =>
        rw [if_neg (List.cons_ne_nil b digits), ← hall, List.drop_left]
        rfl
  | readUntil mark =>
    rw [parserOf, readUntil, Step.read]
    cases hbreak : Bytes.breakMark? (mark.map Fin.val) bytes with
    | none =>
      rw [List.drop_length]
      rfl
    | some parts =>
      obtain ⟨before, rest⟩ := parts
      have hall : before ++ rest = bytes := Bytes.breakMark?_append hbreak
      rw [← hall, List.drop_left]
      rfl
  | takeRest =>
    rw [Step.read, List.drop_length]
    rfl

/-- The parsers of the grammar read as a cursor in front of the same bytes does. -/
theorem parserOf_eq {c : Cursor} (h : c.Within) (limit : Int) (nodes : References Node) (step : Step) :
    ∃ answer c', c.perform? step = some (answer, c') ∧
      parserOf step limit ⟨c.unread, nodes⟩ = outcomeOf limit ⟨c'.unread, nodes⟩ step answer := by
  refine ⟨_, _, h.perform? step, ?_⟩
  rw [parserOf_read, h.unread_skip (step.read_prefix c.unread)]

end Grammar

end SwiftMangling
