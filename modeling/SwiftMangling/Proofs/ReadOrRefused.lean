import SwiftMangling.Proofs.ReadBack
import SwiftMangling.Proofs.SteadyParts

/-!
# What is read back or refused

Some of what is written is read back only in front of certain bytes, as a number is only in front of
something other than a digit, and some of it is refused. Both are said of a list when they are said of
each of its items, where an item is read in view of the items before it.
-/

namespace SwiftMangling.Grammar

open Mangle (Writer Scope)
open Mangle.Writer (emit)

variable {α β : Type} {limit : Int} {table : References Scope}

/-- The outcome is the value that there is, with the state after it, or it is a refusal. -/
def Outcome.Is (outcome : Outcome α) (value? : Option α) (s : State) : Prop :=
  match value? with
  | some value => outcome = .found value s
  | none => ∃ s', outcome = .refused s'

/-- In front of the bytes that may follow, the parser reads what the writer writes as the value that
there is, or refuses it. -/
def ReadsAs (follows : Bytes → Prop) (limit : Int) (table : References Scope) (p : Parser α)
    (w : Writer) (value? : Option α) : Prop :=
  ∀ rest, follows rest →
    (p limit ⟨(w table).1 ++ rest, table.map Scope.tree⟩).Is value? ⟨rest, (w table).2.map Scope.tree⟩

/-- Whatever follows. -/
def anyRest : Bytes → Prop :=
  fun _ => True

lemma ReadsBack.readsAs {p : Parser α} {w : Writer} {value : α} (h : ReadsBack limit table p w value)
    (follows : Bytes → Prop) : ReadsAs follows limit table p w (some value) :=
  fun rest _ => h rest

namespace ReadsAs

variable {follows : Bytes → Prop}

lemma readsBack {p : Parser α} {w : Writer} {value : α}
    (h : ReadsAs anyRest limit table p w (some value)) : ReadsBack limit table p w value :=
  fun rest => h rest trivial

lemma weaken {fewer : Bytes → Prop} {p : Parser α} {w : Writer} {value? : Option α}
    (hfewer : ∀ rest, fewer rest → follows rest) (h : ReadsAs follows limit table p w value?) :
    ReadsAs fewer limit table p w value? :=
  fun rest hrest => h rest (hfewer rest hrest)

/-- What is read in sequence is refused where one of the parts is. The first part may be followed by
whatever the second one begins with. -/
lemma bind {between : Bytes → Prop} {p : Parser α} {next : α → Parser β} {first second : Writer}
    {value? : Option α} {result? : α → Option β}
    (hp : ReadsAs between limit table p first value?)
    (hbetween : ∀ rest, follows rest → between ((second (first table).2).1 ++ rest))
    (hnext : ∀ value ∈ value?, ReadsAs follows limit (first table).2 (next value) second (result? value)) :
    ReadsAs follows limit table (p >>= next) (first ++ second) (value?.bind result?) := by
  intro rest hrest
  have hfirst := hp _ (hbetween rest hrest)
  show Outcome.Is ((p >>= next) limit
    ⟨(first table).1 ++ (second (first table).2).1 ++ rest, table.map Scope.tree⟩) _ _
  rw [List.append_assoc, Parser.bind_apply]
  cases value? with
  | none =>
    obtain ⟨s, hrefused⟩ := hfirst
    rw [hrefused]
    exact ⟨s, rfl⟩
  | some value =>
    rw [show p limit _ = _ from hfirst]
    exact hnext value rfl rest hrest

/-- What is found first may be followed by whatever comes second. -/
lemma bind_some {between : Bytes → Prop} {p : Parser α} {next : α → Parser β} {first second : Writer}
    {value : α} {result? : Option β} (hp : ReadsAs between limit table p first (some value))
    (hbetween : ∀ rest, follows rest → between ((second (first table).2).1 ++ rest))
    (hnext : ReadsAs follows limit (first table).2 (next value) second result?) :
    ReadsAs follows limit table (p >>= next) (first ++ second) result? := by
  show ReadsAs follows limit table (p >>= next) (first ++ second) ((some value).bind fun _ => result?)
  refine hp.bind hbetween fun found hfound => ?_
  cases hfound
  exact hnext

/-- What comes after the last of what is read may change the value, or refuse it. -/
lemma finish {p : Parser α} {next : α → Parser β} {w : Writer} {value? : Option α}
    {result? : α → Option β} (hp : ReadsAs follows limit table p w value?)
    (hnext : ∀ value ∈ value?, ∀ s, (next value limit s).Is (result? value) s) :
    ReadsAs follows limit table (p >>= next) w (value?.bind result?) := by
  intro rest hrest
  have hfirst := hp rest hrest
  rw [Parser.bind_apply]
  cases value? with
  | none =>
    obtain ⟨s, hrefused⟩ := hfirst
    rw [hrefused]
    exact ⟨s, rfl⟩
  | some value =>
    rw [show p limit _ = _ from hfirst]
    exact hnext value rfl _

lemma finish_some {p : Parser α} {next : α → Parser β} {w : Writer} {value : α} {result? : Option β}
    (hp : ReadsAs follows limit table p w (some value))
    (hnext : ∀ s, (next value limit s).Is result? s) :
    ReadsAs follows limit table (p >>= next) w result? := by
  show ReadsAs follows limit table (p >>= next) w ((some value).bind fun _ => result?)
  refine hp.finish fun found hfound => ?_
  cases hfound
  exact hnext

/-- The bytes in front decide how to go on. -/
lemma after {p q : Parser α} {w : Writer} {value? : Option α} (front : Bytes)
    (h : ∀ rest nodes, p limit ⟨front ++ rest, nodes⟩ = q limit ⟨rest, nodes⟩)
    (hq : ReadsAs follows limit table q w value?) :
    ReadsAs follows limit table p (emit front ++ w) value? := by
  intro rest hrest
  show Outcome.Is (p limit ⟨front ++ (w table).1 ++ rest, _⟩) _ _
  rw [List.append_assoc, h]
  exact hq rest hrest

/-- The byte in front decides how to go on, and is left there. -/
lemma before {p q : Parser α} {w : Writer} {value? : Option α} {letters : Bytes}
    (hw : (w table).1.Begins letters)
    (h : ∀ b ∈ letters, ∀ unread nodes, p limit ⟨b :: unread, nodes⟩ = q limit ⟨b :: unread, nodes⟩)
    (hq : ReadsAs follows limit table q w value?) : ReadsAs follows limit table p w value? := by
  intro rest hrest
  have hread := hq rest hrest
  obtain ⟨b, unread, hbytes, hb⟩ := hw.append rest
  rw [hbytes] at hread ⊢
  rw [h b hb]
  exact hread

end ReadsAs

section Lists

variable {follows between : Bytes → Prop} {stop : Parser Bool} {item : List α → Parser α}
  {earlier : List α}

/-- The rounds of a list read what is written as the items that there are, or refuse it. -/
def ReadsList (follows : Bytes → Prop) (limit : Int) (table : References Scope) (stop : Parser Bool)
    (item : List α → Parser α) (earlier : List α) (w : Writer) (values? : Option (List α)) : Prop :=
  ∀ count rest, follows rest → (w table).1.length < count →
    (rounds (listRound stop item) count earlier limit ⟨(w table).1 ++ rest, table.map Scope.tree⟩).Is
      (values?.map (earlier.reverse ++ ·)) ⟨rest, (w table).2.map Scope.tree⟩

/-- The list ends. -/
lemma readsList_nil {w : Writer} (hstop : ReadsAs follows limit table stop w (some true)) :
    ReadsList follows limit table stop item earlier w (some []) := by
  intro count rest hrest hcount
  obtain ⟨count, rfl⟩ := Nat.exists_eq_add_of_le' (Nat.zero_lt_of_lt hcount)
  show rounds (listRound stop item) (count + 1) earlier limit _ = .found (earlier.reverse ++ []) _
  rw [rounds, listRound, bind_assoc, Parser.bind_of_found (hstop rest hrest), List.append_nil]
  rfl

/-- The list goes on with an item that begins with one of the letters at which it does not stop. -/
lemma readsList_cons {first second : Writer} {value? : Option α} {values? : α → Option (List α)}
    {letters : Bytes} (hbegins : (first table).1.Begins letters)
    (hgo : ∀ b ∈ letters, ∀ unread nodes, stop limit ⟨b :: unread, nodes⟩ =
      .found false ⟨b :: unread, nodes⟩)
    (hitem : ReadsAs between limit table (item earlier) first value?)
    (hbetween : ∀ rest, follows rest → between ((second (first table).2).1 ++ rest))
    (hlater : ∀ value ∈ value?, ReadsList follows limit (first table).2 stop item (value :: earlier)
      second (values? value)) :
    ReadsList follows limit table stop item earlier (first ++ second)
      (value?.bind fun value => (values? value).map (value :: ·)) := by
  intro count rest hrest hcount
  have hlength : ((first ++ second) table).1.length =
      (first table).1.length + (second (first table).2).1.length := List.length_append
  obtain ⟨count, rfl⟩ := Nat.exists_eq_add_of_le' (Nat.zero_lt_of_lt hcount)
  have hread := hitem _ (hbetween rest hrest)
  show Outcome.Is (rounds (listRound stop item) (count + 1) earlier limit
    ⟨(first table).1 ++ (second (first table).2).1 ++ rest, table.map Scope.tree⟩) _ _
  rw [List.append_assoc]
  have hpos : 0 < (first table).1.length := by
    obtain ⟨b, back, hfront, -⟩ := hbegins
    rw [hfront]
    exact Nat.succ_pos _
  obtain ⟨b, unread, hbytes, hb⟩ := hbegins.append ((second (first table).2).1 ++ rest)
  rw [hbytes] at hread ⊢
  rw [rounds, listRound, bind_assoc, Parser.bind_of_found (hgo b hb unread _), if_neg Bool.false_ne_true,
    bind_assoc, Parser.bind_apply]
  cases value? with
  | none =>
    obtain ⟨s, hrefused⟩ := hread
    rw [hrefused]
    exact ⟨s, rfl⟩
  | some value =>
    rw [show item earlier limit _ = _ from hread]
    have hrounds := hlater value rfl count rest hrest (by omega)
    show Outcome.Is (rounds (listRound stop item) count (value :: earlier) limit _) _ _
    simp only [List.reverse_cons, List.append_assoc, List.singleton_append] at hrounds
    rw [Option.bind_some, Option.map_map]
    exact hrounds

/-- The list goes on with an item that is found. -/
lemma readsList_found {first second : Writer} {value : α} {values : List α} {letters : Bytes}
    (hbegins : (first table).1.Begins letters)
    (hgo : ∀ b ∈ letters, ∀ unread nodes, stop limit ⟨b :: unread, nodes⟩ =
      .found false ⟨b :: unread, nodes⟩)
    (hitem : ReadsAs between limit table (item earlier) first (some value))
    (hbetween : ∀ rest, follows rest → between ((second (first table).2).1 ++ rest))
    (hlater : ReadsList follows limit (first table).2 stop item (value :: earlier) second (some values)) :
    ReadsList follows limit table stop item earlier (first ++ second) (some (value :: values)) := by
  show ReadsList follows limit table stop item earlier (first ++ second)
    ((some value).bind fun value => (some values).map (value :: ·))
  refine readsList_cons hbegins hgo hitem hbetween fun found hfound => ?_
  cases hfound
  exact hlater

/-- A list whose rounds are read is read. -/
lemma gather_readsAs {w : Writer} {values? : Option (List α)}
    (h : ReadsList follows limit table stop item [] w values?) :
    ReadsAs follows limit table (gather stop item) w values? := by
  intro rest hrest
  have hrounds := h _ rest hrest (Nat.lt_succ_of_le (List.length_append ▸ Nat.le_add_right _ rest.length))
  simp only [List.reverse_nil, List.nil_append, Option.map_id'] at hrounds
  exact hrounds

end Lists

end SwiftMangling.Grammar
