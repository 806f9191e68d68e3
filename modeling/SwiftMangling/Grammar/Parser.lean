import SwiftMangling.Node.Basic
import SwiftMangling.References

/-!
Parsers of mangled names. A parser reads from the front of the unread bytes and may record nodes
for later references. It finds a value, or refuses, or stops all reading; a refusal keeps the state
in which it arose, because a list of closure types goes on from there.
-/

namespace SwiftMangling.Grammar

/-- What is left to read, and the nodes that the rest of the name can refer back to. -/
structure State where
  unread : Bytes
  recorded : References Node
  deriving Inhabited

/-- A rule of building trees that is broken. -/
inductive Breach where
  /-- A node is given a text and an index. -/
  | secondPayload
  /-- A child that is added to a node is missing. -/
  | missingChild
  /-- A node is asked for a child that it does not have. -/
  | noSuchChild
  /-- A character is taken for a byte and is none. -/
  | notByte
  /-- Bytes are taken for a numeral and are none. -/
  | notNumeral
  deriving DecidableEq, Repr

/-- Why all reading stops. -/
inductive Stop where
  /-- The nesting is deeper than the budget. -/
  | exhausted
  /-- A number has more digits than are written or read. -/
  | overlong
  | broken (breach : Breach)
  deriving DecidableEq, Repr

/-- What reading a part of a name comes to. -/
inductive Outcome (α : Type) where
  | found (value : α) (state : State)
  | refused (state : State)
  | stopped (why : Stop)

/-- Reads a part of a name; the first argument is the largest natural number that is accepted. -/
def Parser (α : Type) :=
  Int → State → Outcome α

namespace Parser

variable {α β : Type}

def pure (value : α) : Parser α :=
  fun _ s => .found value s

def bind (p : Parser α) (next : α → Parser β) : Parser β :=
  fun limit s =>
    match p limit s with
    | .found value s' => next value limit s'
    | .refused s' => .refused s'
    | .stopped why => .stopped why

instance : Monad Parser where
  pure := Parser.pure
  bind := Parser.bind

theorem pure_apply (value : α) (limit : Int) (s : State) :
    (Pure.pure value : Parser α) limit s = .found value s :=
  rfl

theorem bind_apply (p : Parser α) (next : α → Parser β) (limit : Int) (s : State) :
    (p >>= next) limit s =
      match p limit s with
      | .found value s' => next value limit s'
      | .refused s' => .refused s'
      | .stopped why => .stopped why :=
  rfl

/-- What is found in sequence is found in two steps. -/
theorem bind_found {p : Parser α} {next : α → Parser β} {limit : Int} {s s' : State} {result : β}
    (h : (p >>= next) limit s = .found result s') :
    ∃ value s₁, p limit s = .found value s₁ ∧ next value limit s₁ = .found result s' := by
  rw [bind_apply] at h
  cases hp : p limit s with
  | found value s₁ =>
    rw [hp] at h
    exact ⟨value, s₁, rfl, h⟩
  | refused s₁ =>
    rw [hp] at h
    cases h
  | stopped why =>
    rw [hp] at h
    cases h

/-- What is refused in sequence is refused in the first step or in the second. -/
theorem bind_refused {p : Parser α} {next : α → Parser β} {limit : Int} {s s' : State}
    (h : (p >>= next) limit s = .refused s') :
    p limit s = .refused s' ∨ ∃ value s₁, p limit s = .found value s₁ ∧
      next value limit s₁ = .refused s' := by
  rw [bind_apply] at h
  cases hp : p limit s with
  | found value s₁ =>
    rw [hp] at h
    exact .inr ⟨value, s₁, rfl, h⟩
  | refused s₁ =>
    rw [hp] at h
    cases h
    exact .inl rfl
  | stopped why =>
    rw [hp] at h
    cases h

instance : LawfulMonad Parser :=
  LawfulMonad.mk' Parser
    (by
      intro α p
      funext limit s
      show Parser.bind p (fun value => Parser.pure (id value)) limit s = p limit s
      unfold Parser.bind Parser.pure
      cases p limit s <;> rfl)
    (by
      intro α β value next
      rfl)
    (by
      intro α β γ p next last
      funext limit s
      show Parser.bind (Parser.bind p next) last limit s =
        Parser.bind p (fun value => Parser.bind (next value) last) limit s
      unfold Parser.bind
      cases p limit s <;> rfl)

end Parser

variable {α β : Type}

def refuse : Parser α :=
  fun _ s => .refused s

/-- Stops all reading; no parser goes on after this. -/
def stop (why : Stop) : Parser α :=
  fun _ _ => .stopped why

/-- Takes the value that there is, or refuses. -/
def orRefuse : Option α → Parser α
  | some value => pure value
  | none => refuse

/-- Takes the value that there has to be. -/
def orBreach (breach : Breach) : Option α → Parser α
  | some value => pure value
  | none => stop (.broken breach)

/-- Turns a refusal into an absent value and goes on where it arose. -/
def tolerate (p : Parser α) : Parser (Option α) :=
  fun limit s =>
    match p limit s with
    | .found value s' => .found (some value) s'
    | .refused s' => .found none s'
    | .stopped why => .stopped why

def atEnd : Parser Bool :=
  fun _ s => .found s.unread.isEmpty s

/-- The next character, or a full stop at the end: no production begins with one. -/
def peek : Parser Char :=
  fun _ s =>
    match s.unread with
    | [] => .found '.' s
    | b :: _ => .found (Bytes.char b) s

/-- Takes the next character; at the end there is a full stop, and nothing is taken. -/
def next : Parser Char :=
  fun _ s =>
    match s.unread with
    | [] => .found '.' s
    | b :: rest => .found (Bytes.char b) { s with unread := rest }

/-- Takes the mark if it comes next, and says whether it did. -/
def accept (mark : Text) : Parser Bool :=
  fun _ s =>
    match Bytes.stripMark? (mark.map Fin.val) s.unread with
    | some rest => .found true { s with unread := rest }
    | none => .found false s

theorem accept_append {mark : Text} {front : Bytes}
    (h : front.map UInt8.toNat = mark.map Fin.val) (rest : Bytes) (recorded : References Node)
    (limit : Int) :
    accept mark limit ⟨front ++ rest, recorded⟩ = .found true ⟨rest, recorded⟩ := by
  simp only [accept, ← h, Bytes.stripMark?_map_append]

/-- Takes the mark, or refuses. -/
def demand (mark : Text) : Parser Unit := do
  if ← accept mark then pure () else refuse

/-- Takes a number of bytes, or refuses and takes none if there are fewer. -/
def advance (amount : Nat) : Parser Bytes :=
  fun _ s =>
    if amount ≤ s.unread.length then
      .found (s.unread.take amount) { s with unread := s.unread.drop amount }
    else .refused s

/-- Takes the bytes before the first occurrence of the mark; without one, takes all and refuses. -/
def readUntil (mark : Text) : Parser Bytes :=
  fun _ s =>
    match Bytes.breakMark? (mark.map Fin.val) s.unread with
    | some (before, rest) => .found before { s with unread := rest }
    | none => .refused { s with unread := [] }

/-- Takes all that is left. -/
def takeRest : Parser Bytes :=
  fun _ s => .found s.unread { s with unread := [] }

/-- Takes the longest run of digits and reads it as a number; refuses a number above the limit
after its digits, and takes nothing if there are none. Where the limit is overlong, any digit stops
the reading. -/
def natural : Parser Nat :=
  fun limit s =>
    match Bytes.spanDigits s.unread with
    | ([], _) => .refused s
    | (digits, rest) =>
      match Decimal.bounded limit digits with
      | .within n => .found n { s with unread := rest }
      | .beyond => .refused { s with unread := rest }
      | .overlong => .stopped .overlong
      | .malformed => .stopped (.broken .notNumeral)

def record (node : Node) : Parser Unit :=
  fun _ s => .found () { s with recorded := s.recorded.record node }

/-- The node recorded at a position, counted from zero. -/
def recalled (position : Nat) : Parser Node :=
  fun _ s =>
    match s.recorded.resolve? position with
    | some node => .found node s
    | none => .refused s

/-- Forgets every recorded node. -/
def forget : Parser Unit :=
  fun _ s => .found () { s with recorded := [] }

/-- Whether a loop goes on, and with what. -/
inductive Round (α β : Type) where
  | again (value : α)
  | done (value : β)

/-- Repeats a step for at most a number of rounds. -/
def rounds (step : α → Parser (Round α β)) : Nat → α → Parser β
  | 0, _ => refuse
  | count + 1, value => do
    match ← step value with
    | .again value => rounds step count value
    | .done result => pure result

/-- Repeats a step until it is done. The rounds are one more than the unread bytes, which is enough
for a step that takes at least one byte whenever it goes on. -/
def iterate (step : α → Parser (Round α β)) (value : α) : Parser β :=
  fun limit s => rounds step (s.unread.length + 1) value limit s

/-- Changes a value by a step until the loop is to stop. -/
def foldUntil (stop : Parser Bool) (step : α → Parser α) (value : α) : Parser α :=
  iterate (fun value => do
    if ← stop then pure (.done value)
    else
      let value ← step value
      pure (.again value)) value

/-- Reads items until the list is to stop. An item is read in view of those before it, of which it
is given the last one first. -/
def gather (stop : Parser Bool) (item : List α → Parser α) : Parser (List α) :=
  iterate (fun earlier => do
    if ← stop then pure (.done earlier.reverse)
    else
      let value ← item earlier
      pure (.again (value :: earlier))) []

/-- Reads items as long as they are found; a refused item ends the list where it was refused. -/
def gatherFound (stop : Parser Bool) (item : Parser α) : Parser (List α) :=
  iterate (fun earlier => do
    if ← stop then pure (.done earlier.reverse)
    else
      match ← tolerate item with
      | some value => pure (.again (value :: earlier))
      | none => pure (.done earlier.reverse)) []

end SwiftMangling.Grammar
