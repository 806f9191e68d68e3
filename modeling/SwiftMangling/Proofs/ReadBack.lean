import SwiftMangling.Grammar.Budget
import SwiftMangling.Proofs.Spelling
import SwiftMangling.Proofs.WrittenNumbers

/-!
# Reading back what is written

A writer puts out bytes in view of a table of scopes, and a parser reads bytes in view of a table of
nodes. The parser reads back what the writer writes if it takes just those bytes, whatever follows
them, and leaves the table of nodes as far ahead as the writer leaves the table of scopes. Reading
in sequence reads back what is written in sequence.
-/

namespace SwiftMangling

namespace Mangle

lemma Writer.append_assoc (first second third : Writer) :
    first ++ second ++ third = first ++ (second ++ third) := by
  funext table
  show Writer.append (Writer.append first second) third table =
    Writer.append first (Writer.append second third) table
  simp only [Writer.append, List.append_assoc]

lemma Writer.emit_append (front back : Bytes) :
    Writer.emit (front ++ back) = Writer.emit front ++ Writer.emit back :=
  rfl

lemma Writer.append_nil (w : Writer) : w ++ Writer.emit [] = w := by
  funext table
  show ((w table).1 ++ [], (w table).2) = w table
  rw [List.append_nil]

/-- What comes after depends on what comes before by its effect on one table only. -/
lemma Writer.append_congr {first first' : Writer} {table : References Scope}
    (h : first table = first' table) (second : Writer) :
    (first ++ second) table = (first' ++ second) table := by
  show Writer.append first second table = Writer.append first' second table
  simp only [Writer.append, h]

/-- Adds a scope to the table and writes nothing. -/
def Writer.note (scope : Scope) : Writer :=
  fun table => ([], References.record table scope)

lemma refer_of_some {table : References Scope} {scope : Scope} {position : Nat}
    (h : table.idxOf? scope = some position) (spelled : Writer) :
    Writer.refer scope spelled table =
      (Writer.emit (ascii "S") ++ Writer.emit (index position)) table := by
  simp only [Writer.refer, h]
  rfl

lemma refer_of_none {table : References Scope} {scope : Scope}
    (h : table.idxOf? scope = none) (spelled : Writer) :
    Writer.refer scope spelled table = (spelled ++ Writer.note scope) table := by
  simp only [Writer.refer, h]
  show _ = ((spelled table).1 ++ [], _)
  rw [List.append_nil]

lemma index_begins (n : Nat) : (index n).Begins (0x5F :: digits) := by
  cases n with
  | zero => exact ⟨0x5F, [], rfl, List.mem_cons_self⟩
  | succ n =>
    obtain ⟨b, rest, h, hb⟩ := natural_begins n
    refine Bytes.Begins.append ⟨b, rest, h, ?_⟩ _
    exact List.mem_cons_of_mem _ hb

lemma identifier_begins (name : Bytes) : (identifier name).Begins digits :=
  (natural_begins name.length).append name

end Mangle

namespace Grammar

lemma Parser.bind_of_found {α β : Type} {p : Parser α} {next : α → Parser β} {limit : Int}
    {s s' : State} {value : α} (h : p limit s = .found value s') :
    (p >>= next) limit s = next value limit s' := by
  rw [Parser.bind_apply, h]

open Mangle (Writer Scope digits nameNode)
open Mangle.Writer (emit note)

variable {α β : Type} {limit : Int} {table : References Scope}

/-- The parser reads back what the writer writes. -/
def ReadsBack (limit : Int) (table : References Scope) (p : Parser α) (w : Writer) (value : α) :
    Prop :=
  ∀ rest, p limit ⟨(w table).1 ++ rest, table.map Scope.tree⟩ =
    .found value ⟨rest, (w table).2.map Scope.tree⟩

namespace ReadsBack

lemma pure (value : α) : ReadsBack limit table (Pure.pure value) (emit []) value :=
  fun _ => rfl

lemma bind {p : Parser α} {next : α → Parser β} {first second : Writer} {value : α} {result : β}
    (hp : ReadsBack limit table p first value)
    (hnext : ReadsBack limit (first table).2 (next value) second result) :
    ReadsBack limit table (p >>= next) (first ++ second) result := by
  intro rest
  show (p >>= next) limit ⟨(first table).1 ++ (second (first table).2).1 ++ rest, _⟩ = _
  rw [List.append_assoc, Parser.bind_apply, hp]
  exact hnext rest

/-- What comes after the last of what is read may change the value and nothing else. -/
lemma finish {p : Parser α} {next : α → Parser β} {w : Writer} {value : α} {result : β}
    (hp : ReadsBack limit table p w value)
    (hnext : ∀ s, next value limit s = .found result s) :
    ReadsBack limit table (p >>= next) w result := by
  intro rest
  rw [Parser.bind_apply, hp]
  exact hnext _

/-- The bytes in front decide how to go on. -/
lemma after {p q : Parser α} {w : Writer} {value : α} (front : Bytes)
    (h : ∀ rest nodes, p limit ⟨front ++ rest, nodes⟩ = q limit ⟨rest, nodes⟩)
    (hq : ReadsBack limit table q w value) :
    ReadsBack limit table p (emit front ++ w) value := by
  intro rest
  show p limit ⟨front ++ (w table).1 ++ rest, _⟩ = _
  rw [List.append_assoc, h]
  exact hq rest

/-- What is written in view of a table may be written in another way. -/
lemma of_eq {p : Parser α} {w w' : Writer} {value : α} (h : w table = w' table)
    (hp : ReadsBack limit table p w' value) : ReadsBack limit table p w value := by
  intro rest
  rw [h]
  exact hp rest

/-- The byte in front decides how to go on, and is left there. -/
lemma before {p q : Parser α} {w : Writer} {value : α} {letters : Bytes}
    (hw : (w table).1.Begins letters)
    (h : ∀ b ∈ letters, ∀ unread nodes, p limit ⟨b :: unread, nodes⟩ = q limit ⟨b :: unread, nodes⟩)
    (hq : ReadsBack limit table q w value) : ReadsBack limit table p w value := by
  intro rest
  have hread := hq rest
  obtain ⟨b, unread, hbytes, hb⟩ := hw.append rest
  rw [hbytes] at hread ⊢
  rw [h b hb]
  exact hread

end ReadsBack

lemma atEnd_cons (b : UInt8) (unread : Bytes) (limit : Int) (nodes : References Node) :
    atEnd limit ⟨b :: unread, nodes⟩ = .found false ⟨b :: unread, nodes⟩ :=
  rfl

lemma peek_cons (b : UInt8) (unread : Bytes) (limit : Int) (nodes : References Node) :
    peek limit ⟨b :: unread, nodes⟩ = .found (Bytes.char b) ⟨b :: unread, nodes⟩ :=
  rfl

section Items

variable {item : Parser α}

/-- A round of a list that ends in an underscore. -/
def collect (item : Parser α) (earlier : List α) : Parser (Round (List α) (List α)) := do
  if ← accept "_" then pure (.done earlier.reverse)
  else
    let value ← item
    pure (.again (value :: earlier))

/-- Where the next byte is not an underscore, an item is read and the list goes on. -/
lemma rounds_collect {b : UInt8} {letters : Bytes} (hb : b ∈ letters)
    (hletters : letters.all (misses · "_")) (count : Nat) (earlier : List α) (limit : Int)
    (unread : Bytes) (nodes : References Node) :
    rounds (collect item) (count + 1) earlier limit ⟨b :: unread, nodes⟩ =
      (item >>= fun value => rounds (collect item) count (value :: earlier)) limit
        ⟨b :: unread, nodes⟩ := by
  have hround : collect item earlier limit ⟨b :: unread, nodes⟩ =
      (item >>= fun value => pure (Round.again (value :: earlier))) limit ⟨b :: unread, nodes⟩ :=
    skip "_" hb hletters _ _ limit unread nodes
  rw [rounds, Parser.bind_apply, hround, Parser.bind_apply, Parser.bind_apply]
  cases item limit ⟨b :: unread, nodes⟩ with
  | found value s => rfl
  | refused s => rfl
  | stopped why => rfl

/-- Each item is read back in turn, up to the underscore after the last one. -/
def ReadsItems (limit : Int) (table : References Scope) (item : Parser α) (w : Writer)
    (values : List α) : Prop :=
  ∀ earlier count rest, (w table).1.length < count →
    rounds (collect item) count earlier limit ⟨(w table).1 ++ 0x5F :: rest, table.map Scope.tree⟩ =
      .found (earlier.reverse ++ values) ⟨rest, (w table).2.map Scope.tree⟩

lemma readsItems_nil : ReadsItems limit table item (emit []) [] := by
  intro earlier count rest hcount
  obtain ⟨count, rfl⟩ := Nat.exists_eq_add_of_le' hcount
  rw [List.append_nil]
  rfl

/-- An item that begins with something other than an underscore is taken, and something follows it. -/
lemma readsItems_cons {first second : Writer} {value : α} {values : List α} {letters : Bytes}
    (hbegins : (first table).1.Begins letters) (hletters : letters.all (misses · "_"))
    (hitem : ∀ b rest, item limit ⟨(first table).1 ++ b :: rest, table.map Scope.tree⟩ =
      .found value ⟨b :: rest, (first table).2.map Scope.tree⟩)
    (hrest : ReadsItems limit (first table).2 item second values) :
    ReadsItems limit table item (first ++ second) (value :: values) := by
  intro earlier count rest hcount
  have hlength : ((first ++ second) table).1.length =
      (first table).1.length + (second (first table).2).1.length := List.length_append
  obtain ⟨count, rfl⟩ := Nat.exists_eq_add_of_le' (Nat.zero_lt_of_lt hcount)
  obtain ⟨b, unread, hfollows⟩ : ∃ b unread, (second (first table).2).1 ++ 0x5F :: rest = b :: unread :=
    List.exists_cons_of_ne_nil (by simp)
  have hbytes : ((first ++ second) table).1 ++ 0x5F :: rest = (first table).1 ++ b :: unread := by
    rw [← hfollows, ← List.append_assoc]
    rfl
  have hpos : 0 < (first table).1.length := by
    obtain ⟨c, back, hfront, -⟩ := hbegins
    rw [hfront]
    exact Nat.succ_pos _
  have hlater := hrest (value :: earlier) count rest (by omega)
  rw [hfollows, List.reverse_cons, List.append_assoc] at hlater
  have hread := hitem b unread
  obtain ⟨c, back, hfront, hc⟩ := hbegins.append (b :: unread)
  rw [hbytes]
  rw [hfront] at hread ⊢
  rw [rounds_collect hc hletters, Parser.bind_of_found hread]
  exact hlater

lemma gather_read {w : Writer} {values : List α} (h : ReadsItems limit table item w values) :
    ReadsBack limit table (gather (accept "_") fun _ => item) (w ++ emit (Mangle.ascii "_")) values := by
  intro rest
  have hbytes : ((w ++ emit (Mangle.ascii "_")) table).1 ++ rest = (w table).1 ++ 0x5F :: rest :=
    List.append_assoc _ _ _
  rw [hbytes]
  apply h [] _ rest
  rw [List.length_append]
  omega

end Items

lemma identifierText_plain {name : Bytes} (hname : name.NoDigit) :
    identifierText false false name = pure (Utf8.decode name) := by
  cases name with
  | nil => exact hname.elim
  | cons b name => exact textOfChars_ofBytes (b :: name)

lemma identifierKind_plain (required : Option Kind) :
    identifierKind required false = pure (required.getD .identifier) := by
  cases required with
  | none => rfl
  | some kind => rfl

lemma advance_append (front rest : Bytes) (limit : Int) (nodes : References Node) :
    advance front.length limit ⟨front ++ rest, nodes⟩ = .found front ⟨rest, nodes⟩ := by
  unfold advance
  rw [if_pos (by simp)]
  simp

lemma noDigit_append {front : Bytes} (h : front.NoDigit) (rest : Bytes) :
    (front ++ rest).NoDigit := by
  cases front with
  | nil => exact h.elim
  | cons b front => exact h

/-- What is read after the number of an identifier. -/
def counted (kind : Kind) (punycoded operator : Bool) (length : Nat) : Parser Node := do
  let bytes ← advance length
  let text ← identifierText punycoded operator bytes
  named kind text

section Marked

variable {limit : Int} {nodes : References Node} {unread : Bytes}

lemma accept_punycode (punycoded : Bool) (hunread : unread.Begins (0x6F :: digits)) :
    accept "X" limit ⟨(if punycoded then [0x58] else []) ++ unread, nodes⟩ =
      .found punycoded ⟨unread, nodes⟩ := by
  cases punycoded with
  | false =>
    obtain ⟨b, back, rfl, hb⟩ := hunread
    exact accept_of_misses (misses_of_mem "X" hb rfl) limit back nodes
  | true => exact accept_append (show [(0x58 : UInt8)].map UInt8.toNat = _ from rfl) unread nodes limit

lemma accept_operator (fixity : Option UInt8) (hunread : unread.Begins digits) :
    accept "o" limit ⟨(fixity.elim [] fun letter => [0x6F, letter]) ++ unread, nodes⟩ =
      .found fixity.isSome ⟨fixity.toList ++ unread, nodes⟩ := by
  cases fixity with
  | none =>
    obtain ⟨b, back, rfl, hb⟩ := hunread
    exact accept_of_misses (misses_of_mem "o" hb rfl) limit back nodes
  | some letter =>
    exact accept_append (show [(0x6F : UInt8)].map UInt8.toNat = _ from rfl) (letter :: unread) nodes
      limit

/-- The marks of an identifier are taken in front of its number. -/
lemma identifier_marked (required : Option Kind) (spelling : Spelling) (hunread : unread.Begins digits) :
    identifier required limit ⟨spelling.marks ++ unread, nodes⟩ =
      (identifierKind required spelling.fixity.isSome >>= fun kind =>
        natural >>= counted kind spelling.punycoded spelling.fixity.isSome) limit
        ⟨spelling.fixity.toList ++ unread, nodes⟩ := by
  have hoperator : Bytes.Begins ((spelling.fixity.elim [] fun letter => [0x6F, letter]) ++ unread)
      (0x6F :: digits) := by
    cases spelling.fixity with
    | none =>
      obtain ⟨b, back, rfl, hb⟩ := hunread
      exact ⟨b, back, rfl, List.mem_cons_of_mem _ hb⟩
    | some letter => exact .cons rfl
  have hend : atEnd limit ⟨spelling.marks ++ unread, nodes⟩ =
      .found false ⟨spelling.marks ++ unread, nodes⟩ := by
    obtain ⟨b, back, rfl, -⟩ := hunread
    simp [atEnd]
  unfold identifier
  rw [Parser.bind_of_found hend, if_neg Bool.false_ne_true, Spelling.marks, List.append_assoc,
    Parser.bind_of_found (accept_punycode spelling.punycoded hoperator),
    Parser.bind_of_found (accept_operator spelling.fixity hunread)]
  rfl

/-- The text of the bytes that a number counts off. -/
lemma counted_append {punycoded operator : Bool} {name : Bytes} (kind : Kind) (rest : Bytes)
    {text : Text} (htext : identifierText punycoded operator name = pure text) :
    counted kind punycoded operator name.length limit ⟨name ++ rest, nodes⟩ =
      .found (.named kind text) ⟨rest, nodes⟩ := by
  unfold counted
  rw [Parser.bind_of_found (advance_append name rest limit nodes), htext]
  rfl

end Marked

section Names

variable (hlimit : Decimal.isWritable limit)
include hlimit

lemma identifier_read (required : Option Kind) {name : Bytes} (hname : name.NoDigit)
    (hlength : name.length ≤ limit) (rest : Bytes) (nodes : References Node) :
    identifier required limit ⟨Mangle.identifier name ++ rest, nodes⟩ =
      .found (nameNode (required.getD .identifier) name) ⟨rest, nodes⟩ := by
  have hnatural := natural_read hlimit nodes hlength (noDigit_append hname rest)
  have hbegins := (Mangle.natural_begins name.length).append (name ++ rest)
  have hmarked : identifier required limit ⟨Mangle.natural name.length ++ (name ++ rest), nodes⟩ =
      (identifierKind required false >>= fun kind => natural >>= counted kind false false) limit
        ⟨Mangle.natural name.length ++ (name ++ rest), nodes⟩ :=
    identifier_marked required ⟨false, none, Mangle.natural name.length, name⟩ hbegins
  rw [Mangle.identifier, List.append_assoc, hmarked, identifierKind_plain, pure_bind,
    Parser.bind_of_found hnatural, counted_append _ rest (identifierText_plain hname)]
  rfl

omit hlimit in
/-- The index of a substitution is looked up. -/
lemma substitution_index (position : Nat) (rest : Bytes) (nodes : References Node) :
    substitution limit ⟨Mangle.index position ++ rest, nodes⟩ =
      (index >>= recalled) limit ⟨Mangle.index position ++ rest, nodes⟩ := by
  obtain ⟨b, back, hindex, hb⟩ := Mangle.index_begins position
  rw [hindex, List.cons_append]
  generalize back ++ rest = unread
  have hletters : (0x5F :: digits).all fun b => (standardType? (Bytes.char b)).isNone := rfl
  have hstandard : standardType? (Bytes.char b) = none :=
    Option.isNone_iff_eq_none.1 (List.all_eq_true.1 hletters b hb)
  unfold substitution
  rw [Parser.bind_of_found (atEnd_cons b unread limit nodes), if_neg Bool.false_ne_true,
    skip "o" hb rfl, skip "C" hb rfl,
    Parser.bind_of_found (peek_cons b unread limit nodes), hstandard]

/-- The index of a recorded node is read back as that node. -/
lemma substitution_read {position : Nat} (hposition : IndexWithin limit position) {node : Node}
    {nodes : References Node} (hnode : nodes[position]? = some node) (rest : Bytes) :
    substitution limit ⟨Mangle.index position ++ rest, nodes⟩ = .found node ⟨rest, nodes⟩ := by
  have hresolve : References.resolve? nodes position = some node := hnode
  rw [substitution_index, Parser.bind_of_found (index_read hlimit nodes hposition rest)]
  simp only [recalled, hresolve]

lemma declName_read {name : Bytes} (hname : name.NoDigit) (hlength : name.length ≤ limit)
    (rest : Bytes) (nodes : References Node) :
    declName limit ⟨Mangle.identifier name ++ rest, nodes⟩ =
      .found (nameNode .identifier name) ⟨rest, nodes⟩ := by
  have hread := identifier_read hlimit none hname hlength rest nodes
  obtain ⟨b, unread, hbytes, hb⟩ := (Mangle.identifier_begins name).append rest
  rw [hbytes] at hread ⊢
  unfold declName
  rw [skip "L" hb rfl, skip "P" hb rfl]
  exact hread

end Names

end Grammar

end SwiftMangling
