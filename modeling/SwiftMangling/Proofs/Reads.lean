import SwiftMangling.Proofs.SteadyParts
import SwiftMangling.Proofs.WellFormed

/-!
# What a parser leaves and finds

Reading goes on from a sound state: what is recorded is well formed, and none of it has more levels than
bytes have been taken. A parser reads below a bound if from any sound state with fewer unread bytes it
does not run out of budget, leaves a sound state with no more of them, and finds only what a condition
allows. The condition sees how many bytes are left, which is the bound for what is read next.
-/

namespace SwiftMangling.Grammar

variable {α β : Type}

/-- A node of some kinds that has no more levels than there are bytes besides those that are left. -/
structure Held (total : Nat) (kinds : List Kind) (node : Node) (rest : Nat) : Prop where
  made : Made (.isOf kinds) node
  levels : node.levels + rest ≤ total

/-- Fewer bytes are unread than the bound says and not more than there are in total, and what is
recorded is held. -/
structure Sound (total bound : Nat) (s : State) : Prop where
  below : s.unread.length < bound
  inside : s.unread.length ≤ total
  recorded : ∀ node ∈ s.recorded, Held total Kind.referable node s.unread.length

/-- What reading from a state with a number of unread bytes comes to. -/
def Comes (total start : Nat) (post : α → Nat → Prop) : Outcome α → Prop
  | .found value s => Sound total (start + 1) s ∧ post value s.unread.length
  | .refused s => Sound total (start + 1) s
  | .stopped why => why ≠ .exhausted

/-- From a sound state below the bound a parser does not exhaust the budget, and finds what a condition
allows. -/
def Reads (total bound : Nat) (post : α → Nat → Prop) (p : Parser α) : Prop :=
  ∀ limit s, Sound total bound s → Comes total s.unread.length post (p limit s)

/-- Any value may be found. -/
abbrev anything : α → Nat → Prop :=
  fun _ _ => True

/-- A well-formed node that passes a test is found. -/
abbrev made (test : Test) : Node → Nat → Prop :=
  fun node _ => Made test node

/-- A node of some kinds with few levels is found. -/
abbrev held (total : Nat) (kinds : List Kind) : Node → Nat → Prop :=
  Held total kinds

/-- Only nodes that pass a test are found. -/
abbrev each (test : Test) : List Node → Nat → Prop :=
  fun nodes _ => ∀ node ∈ nodes, Made test node

section States

variable {total bound : Nat}

lemma Held.of_le {kinds : List Kind} {node : Node} {rest rest' : Nat}
    (h : Held total kinds node rest) (hrest : rest' ≤ rest) : Held total kinds node rest' :=
  ⟨h.made, by have := h.levels; omega⟩

lemma Held.among {kinds kinds' : List Kind} {node : Node} {rest : Nat}
    (h : Held total kinds node rest) (hkinds : ∀ kind ∈ kinds, kind ∈ kinds') :
    Held total kinds' node rest :=
  ⟨h.made.among hkinds, h.levels⟩

lemma Held.narrow {kinds : List Kind} {kind : Kind} {node : Node} {rest : Nat}
    (h : Held total kinds node rest) (hkind : node.kind = kind) : Held total [kind] node rest :=
  ⟨h.made.narrow hkind, h.levels⟩

lemma Sound.of_le {bound' : Nat} {s : State} (hs : Sound total bound s) (h : bound ≤ bound') :
    Sound total bound' s :=
  ⟨Nat.lt_of_lt_of_le hs.below h, hs.inside, hs.recorded⟩

/-- Bytes may be taken from a sound state. -/
lemma Sound.after {s : State} (hs : Sound total bound s) {rest : Bytes}
    (hrest : rest.length ≤ s.unread.length) :
    Sound total (s.unread.length + 1) ⟨rest, s.recorded⟩ :=
  ⟨Nat.lt_succ_of_le hrest, hrest.trans hs.inside,
    fun node hnode => (hs.recorded node hnode).of_le hrest⟩

lemma Sound.self {s : State} (hs : Sound total bound s) : Sound total (s.unread.length + 1) s :=
  hs.after (Nat.le_refl _)

/-- More may be said of a value that is known to be found. -/
lemma Comes.weaken {start start' : Nat} {post post' : α → Nat → Prop} {o : Outcome α}
    (h : Comes total start post o) (hstart : start ≤ start')
    (hpost : ∀ value s, o = .found value s → Sound total (start + 1) s →
      post value s.unread.length → post' value s.unread.length) :
    Comes total start' post' o := by
  cases o with
  | found value s =>
    exact ⟨h.1.of_le (Nat.succ_le_succ hstart), hpost value s rfl h.1 h.2⟩
  | refused s => exact Sound.of_le h (Nat.succ_le_succ hstart)
  | stopped why => exact h

end States

namespace Reads

variable {total bound : Nat} {post : α → Nat → Prop} {p q : Parser α}

section Rules

lemma below {bound' : Nat} (hp : Reads total bound' post p) (h : bound ≤ bound') :
    Reads total bound post p :=
  fun limit s hs => hp limit s (hs.of_le h)

/-- Less may be said of what is found. -/
lemma weaken {post' : α → Nat → Prop} (hp : Reads total bound post p)
    (h : ∀ value rest, rest < bound → rest ≤ total → post value rest → post' value rest) :
    Reads total bound post' p :=
  fun limit s hs => (hp limit s hs).weaken (Nat.le_refl _) fun value _ _ hs' hpost =>
    h value _ (Nat.lt_of_lt_of_le hs'.below hs.below) hs'.inside hpost

/-- Nodes of some kinds are nodes of more kinds. -/
lemma among {kinds kinds' : List Kind} {p : Parser Node}
    (hp : Reads total bound (made (.isOf kinds)) p) (hkinds : ∀ kind ∈ kinds, kind ∈ kinds') :
    Reads total bound (made (.isOf kinds')) p :=
  hp.weaken fun _ _ _ _ hnode => hnode.among hkinds

lemma heldAmong {kinds kinds' : List Kind} {p : Parser Node}
    (hp : Reads total bound (held total kinds) p) (hkinds : ∀ kind ∈ kinds, kind ∈ kinds') :
    Reads total bound (held total kinds') p :=
  hp.weaken fun _ _ _ _ hnode => hnode.among hkinds

/-- The levels of a node are of no account to those that do not refer back to it. -/
lemma released {kinds kinds' : List Kind} {p : Parser Node}
    (hp : Reads total bound (held total kinds) p) (hkinds : ∀ kind ∈ kinds, kind ∈ kinds') :
    Reads total bound (made (.isOf kinds')) p :=
  hp.weaken fun _ _ _ _ hnode => hnode.made.among hkinds

/-- The bound may be taken to be the number of unread bytes. -/
lemma exactly (h : ∀ count, count < bound → count ≤ total → Reads total (count + 1) post p) :
    Reads total bound post p :=
  fun limit s hs => h s.unread.length hs.below hs.inside limit s hs.self

lemma pure {value : α} (h : ∀ rest, rest < bound → rest ≤ total → post value rest) :
    Reads total bound post (Pure.pure value) :=
  fun _ s hs => ⟨hs.self, h s.unread.length hs.below hs.inside⟩

lemma refuse : Reads total bound post (refuse : Parser α) :=
  fun _ _ hs => hs.self

/-- What is read second is read below a bound that is given by what is left. -/
lemma bindAt {f : α → Parser β} {post' : β → Nat → Prop} (hp : Reads total bound post p)
    (hf : ∀ value rest, rest < bound → rest ≤ total → post value rest →
      Reads total (rest + 1) post' (f value)) :
    Reads total bound post' (p >>= f) := by
  intro limit s hs
  have hcomes := hp limit s hs
  rw [Parser.bind_apply]
  cases hp' : p limit s with
  | found value s' =>
    rw [hp'] at hcomes
    obtain ⟨hs', hpost⟩ := hcomes
    have hle : s'.unread.length ≤ s.unread.length := Nat.le_of_lt_succ hs'.below
    have hsecond := hf value s'.unread.length (Nat.lt_of_le_of_lt hle hs.below) hs'.inside hpost limit
      s' hs'.self
    exact hsecond.weaken hle fun _ _ _ _ => id
  | refused s' =>
    rw [hp'] at hcomes
    exact hcomes
  | stopped why =>
    rw [hp'] at hcomes
    exact hcomes

lemma bind {f : α → Parser β} {post' : β → Nat → Prop} (hp : Reads total bound post p)
    (hf : ∀ value rest, post value rest → Reads total bound post' (f value)) :
    Reads total bound post' (p >>= f) :=
  hp.bindAt fun value rest hrest _ hpost => (hf value rest hpost).below hrest

/-- After a parser that takes a byte the bound is one less. -/
lemma before {f : α → Parser β} {post' : β → Nat → Prop} {least ahead : Nat}
    (hp : Reads total (bound + 1) post p) (hleast : Settles (least + 1) ahead p)
    (hf : ∀ value rest, post value rest → Reads total bound post' (f value)) :
    Reads total (bound + 1) post' (p >>= f) := by
  have htaken : Reads total (bound + 1) (fun value rest => post value rest ∧ rest < bound) p := by
    intro limit s hs
    refine (hp limit s hs).weaken (Nat.le_refl _) fun value s' hfound _ hpost => ⟨hpost, ?_⟩
    have hshorter := hleast.shorter hfound
    have hbelow := hs.below
    omega
  exact htaken.bindAt fun value rest _ _ hpost => (hf value rest hpost.1).below hpost.2

/-- A refused item may be passed over. -/
lemma tolerate (hp : Reads total bound post p) :
    Reads total bound (fun value rest => ∀ inner, value = some inner → post inner rest)
      (tolerate p) := by
  intro limit s hs
  have hcomes := hp limit s hs
  unfold Grammar.tolerate
  cases hp' : p limit s with
  | found value s' =>
    rw [hp'] at hcomes
    refine ⟨hcomes.1, fun inner hinner => ?_⟩
    cases hinner
    exact hcomes.2
  | refused s' =>
    rw [hp'] at hcomes
    exact ⟨hcomes, nofun⟩
  | stopped why =>
    rw [hp'] at hcomes
    exact hcomes

end Rules

section Leaves

lemma atEnd : Reads total bound anything atEnd :=
  fun _ _ hs => ⟨hs.self, trivial⟩

lemma peek : Reads total bound anything peek := by
  intro limit s hs
  unfold Grammar.peek
  split
  · exact ⟨hs.self, trivial⟩
  · exact ⟨hs.self, trivial⟩

lemma next : Reads total bound anything next := by
  intro limit s hs
  unfold Grammar.next
  split
  · exact ⟨hs.self, trivial⟩
  · next b rest hunread => exact ⟨hs.after (by simp [hunread]), trivial⟩

lemma accept (mark : Text) : Reads total bound anything (accept mark) := by
  intro limit s hs
  unfold Grammar.accept
  split
  · next rest hstrip =>
    obtain ⟨front, -, hunread⟩ := Bytes.stripMark?_append hstrip
    exact ⟨hs.after (by simp [← hunread]), trivial⟩
  · exact ⟨hs.self, trivial⟩

lemma advance (amount : Nat) : Reads total bound anything (advance amount) := by
  intro limit s hs
  unfold Grammar.advance
  split
  · exact ⟨hs.after (by simp), trivial⟩
  · exact hs.self

lemma readUntil (mark : Text) : Reads total bound anything (readUntil mark) := by
  intro limit s hs
  unfold Grammar.readUntil
  split
  · next before rest hbreak =>
    have hunread := Bytes.breakMark?_append hbreak
    exact ⟨hs.after (by simp [← hunread]), trivial⟩
  · exact hs.after (by simp)

lemma takeRest : Reads total bound anything takeRest :=
  fun _ _ hs => ⟨hs.after (by simp), trivial⟩

lemma natural : Reads total bound anything natural := by
  intro limit s hs
  have hrest : (Bytes.spanDigits s.unread).2.length ≤ s.unread.length :=
    (List.dropWhile_suffix _).length_le
  unfold Grammar.natural
  split
  · exact hs.self
  · next digits rest hspan =>
    rw [hspan] at hrest
    split
    · exact ⟨hs.after hrest, trivial⟩
    · exact hs.after hrest
    · exact nofun
    · exact nofun

lemma record {node : Node}
    (hnode : ∀ rest, rest < bound → rest ≤ total → Held total Kind.referable node rest) :
    Reads total bound anything (record node) := by
  intro limit s hs
  refine ⟨⟨hs.self.below, hs.inside, fun other hother => ?_⟩, trivial⟩
  obtain hother | hother := List.mem_append.1 hother
  · exact hs.recorded other hother
  · rw [List.mem_singleton.1 hother]
    exact hnode _ hs.below hs.inside

lemma recalled (position : Nat) :
    Reads total bound (held total Kind.referable) (recalled position) := by
  intro limit s hs
  unfold Grammar.recalled
  split
  · next node hnode => exact ⟨hs.self, hs.recorded node (List.mem_of_getElem? hnode)⟩
  · exact hs.self

lemma forget : Reads total bound anything forget :=
  fun _ _ hs => ⟨⟨hs.self.below, hs.inside, nofun⟩, trivial⟩

lemma orRefuse (value : Option α) :
    Reads total bound (fun found _ => value = some found) (orRefuse value) := by
  cases value with
  | none => exact refuse
  | some value => exact pure fun _ _ _ => rfl

end Leaves

section Forms

/-- An alternative behind a mark. -/
lemma ite (mark : Text) (hp : Reads total bound post p) (hq : Reads total bound post q) :
    Reads total bound post (do if ← Grammar.accept mark then p else q) := by
  refine (accept mark).bind fun found _ _ => ?_
  cases found with
  | true => exact hp
  | false => exact hq

/-- An alternative behind a mark, where the bound is one less after the mark. -/
lemma iteBelow (mark : Text) (hmark : mark.isEmpty = false) (hp : Reads total bound post p)
    (hq : Reads total (bound + 1) post q) :
    Reads total (bound + 1) post (do if ← Grammar.accept mark then p else q) := by
  have htaken : Reads total (bound + 1) (fun found rest => found = true → rest < bound)
      (Grammar.accept mark) := by
    intro limit s hs
    refine (accept mark limit s hs).weaken (Nat.le_refl _) fun found s' hfound _ _ => ?_
    rintro rfl
    have hshorter := (steady_accept mark).shorter hfound
    have hpos : 0 < mark.length := List.length_pos_iff.2 (List.isEmpty_eq_false_iff.1 hmark)
    have hbelow := hs.below
    rw [if_pos rfl] at hshorter
    omega
  refine htaken.bindAt fun found rest hrest _ hbelow => ?_
  cases found with
  | true => exact hp.below (hbelow rfl)
  | false => exact hq.below hrest

lemma unlessEnd (hp : Reads total bound post p) :
    Reads total bound post (do if ← Grammar.atEnd then Grammar.refuse else p) := by
  refine atEnd.bind fun ended _ _ => ?_
  cases ended with
  | true => exact refuse
  | false => exact hp

lemma demand (mark : Text) : Reads total bound anything (demand mark) :=
  ite mark (pure fun _ _ _ => trivial) refuse

/-- After a byte the bound is one less. -/
lemma afterByte (hp : Reads total bound post p) (limit : Int) {s : State} {b : UInt8} {rest : Bytes}
    (hs : Sound total (bound + 1) s) (hunread : s.unread = b :: rest) :
    Comes total s.unread.length post (p limit ⟨rest, s.recorded⟩) := by
  have hlength : rest.length + 1 = s.unread.length := by rw [hunread, List.length_cons]
  have hafter := hs.after (Nat.le_of_succ_le hlength.le)
  have hbelow : rest.length < bound := by
    have hbelow := hs.below
    omega
  exact (hp limit _ ⟨hbelow, hafter.inside, hafter.recorded⟩).weaken (Nat.le_of_succ_le hlength.le)
    fun _ _ _ _ => id

/-- A letter that is taken, where a full stop is refused. -/
lemma nextBelow {f : Char → Parser α} (hf : ∀ c, Reads total bound post (f c))
    (hdot : f '.' = Grammar.refuse) : Reads total (bound + 1) post (Grammar.next >>= f) := by
  rintro limit ⟨_ | ⟨b, rest⟩, table⟩ hs
  · show Comes total _ post (f '.' limit _)
    rw [hdot]
    exact hs.self
  · exact (hf (Bytes.char b)).afterByte limit hs rfl

/-- A look at the next letter, which is not the end where it is taken then. -/
lemma onLetter {f : Char → Parser α} (hf : ∀ c, Reads total (bound + 1) post (f c) ∨
      c ≠ '.' ∧ ∃ rest : Parser α, (f c = do let _ ← Grammar.next; rest) ∧ Reads total bound post rest) :
    Reads total (bound + 1) post (Grammar.peek >>= f) := by
  rintro limit ⟨_ | ⟨b, rest⟩, table⟩ hs
  · obtain hdot | ⟨hne, -⟩ := hf '.'
    · exact hdot limit _ hs
    · exact absurd rfl hne
  · obtain hletter | ⟨-, q, hletter, hq⟩ := hf (Bytes.char b)
    · exact hletter limit _ hs
    · show Comes total _ post (f (Bytes.char b) limit _)
      rw [hletter]
      exact hq.afterByte limit hs rfl

lemma afterMark (mark : Text) {p : Parser Node} {test : Test} (hp : Reads total bound (made test) p) :
    Reads total bound (fun found _ => ∀ node ∈ found, Made test node) (Grammar.afterMark mark p) :=
  ite mark (hp.bind fun node _ hnode => pure fun _ _ _ => by simpa using hnode)
    (pure fun _ _ _ => nofun)

/-- A node that is put together of what is read. -/
lemma branch {test : Test} {kind : Kind} {children : List Node}
    (h : Made test (.branch kind children)) :
    Reads total bound (made test) (Grammar.branch kind (children.map some)) := by
  rw [branch_map_some]
  exact pure fun _ _ _ => h

lemma numbered {test : Test} {kind : Kind} {number : Int} {children : List Node}
    (h : Made test (.numbered kind number children)) :
    Reads total bound (made test) (Grammar.numbered kind number (children.map some)) := by
  rw [numbered_map_some]
  exact pure fun _ _ _ => h

end Forms

section Lists

variable {step : α → Parser (Round α β)}

/-- What a round leaves to the next one, or in the end. -/
def afterRound (kept : α → Prop) (post : β → Prop) : Round α β → Nat → Prop
  | .again value, _ => kept value
  | .done result, _ => post result

variable {kept : α → Prop} {result : β → Prop}

lemma rounds (hstep : ∀ value, kept value → Reads total bound (afterRound kept result) (step value))
    (count : Nat) {value : α} (hvalue : kept value) :
    Reads total bound (fun value _ => result value) (rounds step count value) := by
  induction count generalizing value with
  | zero => exact refuse
  | succ count ih =>
    refine (hstep value hvalue).bind fun round _ hround => ?_
    cases round with
    | again value' => exact ih hround
    | done value' => exact pure fun _ _ _ => hround

lemma iterate (hstep : ∀ value, kept value → Reads total bound (afterRound kept result) (step value))
    {value : α} (hvalue : kept value) :
    Reads total bound (fun value _ => result value) (iterate step value) :=
  fun limit s hs => rounds hstep (s.unread.length + 1) hvalue limit s hs

/-- A list that keeps a property as it grows. -/
lemma gather {stop : Parser Bool} {item : List α → Parser α} (kept : List α → Prop)
    (hstop : Reads total bound anything stop) (hnil : kept [])
    (hitem : ∀ earlier, kept earlier → Reads total bound (fun value _ => kept (value :: earlier))
      (item earlier)) :
    Reads total bound (fun items _ => kept items.reverse) (Grammar.gather stop item) := by
  refine iterate (fun earlier hearlier => hstop.bind fun stopped _ _ => ?_) hnil
  cases stopped with
  | true => exact pure fun _ _ _ => by simpa [afterRound] using hearlier
  | false => exact (hitem earlier hearlier).bind fun value _ hvalue => pure fun _ _ _ => hvalue

/-- A list of nodes that pass a test. -/
lemma gatherEach {stop : Parser Bool} {item : List Node → Parser Node} {test : Test}
    (hstop : Reads total bound anything stop)
    (hitem : ∀ earlier, Reads total bound (made test) (item earlier)) :
    Reads total bound (each test) (Grammar.gather stop item) := by
  have hlist : Reads total bound (fun nodes _ => ∀ node ∈ nodes.reverse, Made test node)
      (Grammar.gather stop item) :=
    gather (fun nodes => ∀ node ∈ nodes, Made test node) hstop (fun _ => nofun)
      fun earlier hearlier => (hitem earlier).weaken fun value _ _ _ hvalue =>
        List.forall_mem_cons.2 ⟨hvalue, hearlier⟩
  exact hlist.weaken fun nodes _ _ _ hnodes node hnode => hnodes node (List.mem_reverse.2 hnode)

/-- A change by steps that keeps a property. -/
lemma foldUntil {stop : Parser Bool} {step : α → Parser α} (hstop : Reads total bound anything stop)
    (hstep : ∀ value, kept value → Reads total bound (fun value _ => kept value) (step value))
    {value : α} (hvalue : kept value) :
    Reads total bound (fun value _ => kept value) (Grammar.foldUntil stop step value) := by
  refine iterate (fun value hvalue => hstop.bind fun stopped _ _ => ?_) hvalue
  cases stopped with
  | true => exact pure fun _ _ _ => hvalue
  | false => exact (hstep value hvalue).bind fun value' _ hvalue' => pure fun _ _ _ => hvalue'

/-- A list of what is found. -/
lemma gatherFound {stop : Parser Bool} {item : Parser Node} {test : Test}
    (hstop : Reads total bound anything stop) (hitem : Reads total bound (made test) item) :
    Reads total bound (each test) (Grammar.gatherFound stop item) := by
  refine iterate (fun earlier (hearlier : ∀ node ∈ earlier, Made test node) =>
    hstop.bind fun stopped _ _ => ?_) (fun _ => nofun)
  have hreverse : ∀ node ∈ earlier.reverse, Made test node :=
    fun node hnode => hearlier node (List.mem_reverse.1 hnode)
  cases stopped with
  | true => exact pure fun _ _ _ => hreverse
  | false =>
    refine hitem.tolerate.bind fun found _ hfound => ?_
    cases found with
    | some node =>
      exact pure fun _ _ _ => List.forall_mem_cons.2 ⟨hfound node rfl, hearlier⟩
    | none => exact pure fun _ _ _ => hreverse

end Lists

end Reads

end SwiftMangling.Grammar
