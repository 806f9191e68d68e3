import SwiftMangling.Node.Height
import SwiftMangling.Proofs.GrammarSteady
import SwiftMangling.Proofs.WrittenNumbers

/-!
# What a parser nests

A node that is put together is a level higher than its parts, and the budget bounds how often that
happens, but for two exceptions. A back-reference puts a whole recorded tree below what is read, and the
member types of a compound one nest without a use of a production. So levels are granted for each
back-reference and for each byte after the letter of a compound member type. What is granted for unread
bytes is still owed, and a parser is held to the levels that have been granted so far.
-/

namespace SwiftMangling

namespace Bytes

/-- Whether an index begins here: with a digit, or with the underscore that stands for zero. -/
def startsIndex : Bytes → Bool
  | [] => false
  | b :: _ => isDigit b || b = 0x5F

/-- How many back-references there can be: an `S` before an index. -/
def backReferences : Bytes → Nat
  | [] => 0
  | b :: rest => (if b = 0x53 ∧ startsIndex rest then 1 else 0) + backReferences rest

/-- The bytes from the first `W` on, with which every compound member type begins. -/
def fromCompound (bytes : Bytes) : Bytes :=
  bytes.dropWhile (· ≠ 0x57)

lemma backReferences_mono {rest bytes : Bytes} (h : rest <:+ bytes) :
    backReferences rest ≤ backReferences bytes := by
  obtain ⟨front, rfl⟩ := h
  induction front with
  | nil => exact Nat.le_refl _
  | cons b front ih => exact Nat.le_trans ih (Nat.le_add_left ..)

lemma length_le_fromCompound {rest bytes : Bytes} (h : 0x57 :: rest <:+ bytes) :
    rest.length + 1 ≤ (fromCompound bytes).length := by
  obtain ⟨front, rfl⟩ := h
  induction front with
  | nil => exact Nat.le_refl _
  | cons b front ih =>
    by_cases hb : b = 0x57
    · subst hb
      simp [fromCompound]
      omega
    · simpa [fromCompound, hb] using ih

end Bytes

namespace Grammar

variable {α β : Type}

/-- A name that is read, how many levels a back-reference grants, and how far above the levels granted
so far a recorded tree may reach. -/
structure Grants where
  name : Bytes
  grant : Nat
  reach : Nat

namespace Grants

variable (g : Grants)

/-- The levels that are granted for what is still to be read. -/
def owed (unread : Bytes) : Nat :=
  g.grant * Bytes.backReferences unread + 2 * min unread.length (Bytes.fromCompound g.name).length

def total : Nat :=
  g.owed g.name

variable {g}

lemma owed_mono {rest unread : Bytes} (h : rest <:+ unread) : g.owed rest ≤ g.owed unread := by
  have hreferences := Nat.mul_le_mul_left g.grant (Bytes.backReferences_mono h)
  have hlength := h.length_le
  unfold owed
  omega

/-- A back-reference is granted when its `S` is taken. -/
lemma owed_reference {rest : Bytes} (h : Bytes.startsIndex rest = true) :
    g.owed rest + g.grant ≤ g.owed (0x53 :: rest) := by
  have hcount : Bytes.backReferences (0x53 :: rest) = Bytes.backReferences rest + 1 := by
    rw [Bytes.backReferences, if_pos ⟨rfl, h⟩, Nat.add_comm]
  unfold owed
  rw [hcount, Nat.mul_succ, List.length_cons]
  omega

/-- Two levels are granted for a byte after the first compound member type. -/
lemma owed_compound {rest unread : Bytes} (h : rest <:+ unread) (hlength : rest.length < unread.length)
    (hcompound : unread.length ≤ (Bytes.fromCompound g.name).length) :
    g.owed rest + 2 ≤ g.owed unread := by
  have hreferences := Nat.mul_le_mul_left g.grant (Bytes.backReferences_mono h)
  unfold owed
  omega

end Grants

/-- What is unread is the end of the name, and what is recorded does not reach too far above the
levels granted so far. -/
structure Fits (g : Grants) (s : State) : Prop where
  suffix : s.unread <:+ g.name
  recorded : ∀ node ∈ s.recorded, node.height + g.owed s.unread ≤ g.total + g.reach

/-- What reading from a state comes to where so much is owed. -/
def Ends (g : Grants) (start : Nat) (post : α → Nat → Prop) : Outcome α → Prop
  | .found value s => (Fits g s ∧ g.owed s.unread ≤ start) ∧ post value (g.owed s.unread)
  | .refused s => Fits g s ∧ g.owed s.unread ≤ start
  | .stopped _ => True

/-- From where no more than so much is owed a parser finds only what a condition allows, in view of what
is owed then. -/
def Nests (g : Grants) (start : Nat) (post : α → Nat → Prop) (p : Parser α) : Prop :=
  ∀ limit s, Fits g s → g.owed s.unread ≤ start → Ends g (g.owed s.unread) post (p limit s)

/-- A parser that reads in this way once a byte is taken. -/
def NestsAfter (g : Grants) (start : Nat) (b : UInt8) (post : α → Nat → Prop) (p : Parser α) : Prop :=
  ∀ limit s rest, Fits g s → g.owed s.unread ≤ start → s.unread = b :: rest →
    Ends g (g.owed s.unread) post (p limit ⟨rest, s.recorded⟩)

/-- A node has so many levels more than were granted at most. -/
abbrev Within (g : Grants) (extra : Nat) : Node → Nat → Prop :=
  fun node owed => node.height + owed ≤ g.total + extra

/-- Every node of a list has so many levels more than were granted at most. -/
abbrev AllWithin (g : Grants) (extra : Nat) : List Node → Nat → Prop :=
  fun nodes owed => ∀ node ∈ nodes, node.height + owed ≤ g.total + extra

/-- Anything may be found. -/
abbrev Whatever : α → Nat → Prop :=
  fun _ _ => True

section States

variable {g : Grants} {start : Nat}

lemma Fits.owed_le {s : State} (hs : Fits g s) : g.owed s.unread ≤ g.total :=
  Grants.owed_mono hs.suffix

/-- Bytes may be taken. -/
lemma Fits.after {s : State} (hs : Fits g s) {rest : Bytes} (hrest : rest <:+ s.unread) :
    Fits g ⟨rest, s.recorded⟩ := by
  refine ⟨hrest.trans hs.suffix, fun node hnode => ?_⟩
  have hgranted := hs.recorded node hnode
  have howed := Grants.owed_mono (g := g) hrest
  show node.height + g.owed rest ≤ _
  omega

lemma Fits.taken {s : State} (hs : Fits g s) {rest : Bytes} (hrest : rest <:+ s.unread) :
    Fits g ⟨rest, s.recorded⟩ ∧ g.owed rest ≤ g.owed s.unread :=
  ⟨hs.after hrest, Grants.owed_mono hrest⟩

lemma Ends.weaken {start' : Nat} {post post' : α → Nat → Prop} {o : Outcome α} (h : Ends g start post o)
    (hstart : start ≤ start')
    (hpost : ∀ value owed, owed ≤ start → owed ≤ g.total → post value owed → post' value owed) :
    Ends g start' post' o := by
  cases o with
  | found value s =>
    obtain ⟨⟨hs, howed⟩, hvalue⟩ := h
    exact ⟨⟨hs, howed.trans hstart⟩, hpost value _ howed hs.owed_le hvalue⟩
  | refused s => exact ⟨h.1, h.2.trans hstart⟩
  | stopped why => trivial

/-- What holds where no recorded tree reaches above what was granted, holds in any case. -/
lemma Ends.ofGranted {post : α → Nat → Prop} {o : Outcome α} (h : Ends { g with reach := 0 } start post o) :
    Ends g start post o := by
  have hfits : ∀ {s : State}, Fits { g with reach := 0 } s → Fits g s := fun hs =>
    ⟨hs.suffix, fun node hnode => (hs.recorded node hnode).trans (Nat.add_le_add_left (Nat.zero_le _) _)⟩
  cases o with
  | found value s => exact ⟨⟨hfits h.1.1, h.1.2⟩, h.2⟩
  | refused s => exact ⟨hfits h.1, h.2⟩
  | stopped why => trivial

/-- What is read second begins with what is owed after the first. -/
lemma Ends.bind {post : α → Nat → Prop} {post' : β → Nat → Prop} {p : Parser α} {f : α → Parser β}
    {limit : Int} {s : State} (hp : Ends g start post (p limit s))
    (hf : ∀ value s', p limit s = .found value s' → Fits g s' → g.owed s'.unread ≤ start →
      post value (g.owed s'.unread) → Ends g (g.owed s'.unread) post' (f value limit s')) :
    Ends g start post' ((p >>= f) limit s) := by
  rw [Parser.bind_apply]
  cases hp' : p limit s with
  | found value s' =>
    rw [hp'] at hp
    obtain ⟨⟨hs', howed⟩, hpost⟩ := hp
    exact (hf value s' hp' hs' howed hpost).weaken howed fun _ _ _ _ => id
  | refused s' =>
    rw [hp'] at hp
    exact hp
  | stopped why => trivial

end States

namespace Nests

variable {g : Grants} {start : Nat} {post : α → Nat → Prop} {p q : Parser α}

section Rules

lemma below {start' : Nat} (hp : Nests g start' post p) (h : start ≤ start') : Nests g start post p :=
  fun limit s hs hstart => hp limit s hs (hstart.trans h)

lemma weaken {post' : α → Nat → Prop} (hp : Nests g start post p)
    (h : ∀ value owed, owed ≤ start → owed ≤ g.total → post value owed → post' value owed) :
    Nests g start post' p :=
  fun limit s hs hstart => (hp limit s hs hstart).weaken (Nat.le_refl _)
    fun value owed howed => h value owed (howed.trans hstart)

/-- A few levels more may be allowed. -/
lemma upTo {p : Parser Node} {extra extra' : Nat} (hp : Nests g start (Within g extra) p)
    (h : extra ≤ extra') : Nests g start (Within g extra') p :=
  hp.weaken fun node owed _ _ hnode => by omega

lemma pure {value : α} (h : ∀ owed, owed ≤ start → owed ≤ g.total → post value owed) :
    Nests g start post (Pure.pure value) :=
  fun _ _ hs hstart => ⟨⟨hs, Nat.le_refl _⟩, h _ hstart hs.owed_le⟩

lemma refuse : Nests g start post (refuse : Parser α) :=
  fun _ _ hs _ => ⟨hs, Nat.le_refl _⟩

lemma bind {f : α → Parser β} {post' : β → Nat → Prop} (hp : Nests g start post p)
    (hf : ∀ value owed, owed ≤ start → owed ≤ g.total → post value owed →
      Nests g owed post' (f value)) :
    Nests g start post' (p >>= f) :=
  fun limit s hs hstart => (hp limit s hs hstart).bind fun value s' _ hs' howed hpost =>
    hf value _ (howed.trans hstart) hs'.owed_le hpost limit s' hs' (Nat.le_refl _)

/-- What is read first is of no account. -/
lemma skip {f : α → Parser β} {post' : β → Nat → Prop} (hp : Nests g start Whatever p)
    (hf : ∀ value, Nests g start post' (f value)) : Nests g start post' (p >>= f) :=
  hp.bind fun value _ howed _ _ => (hf value).below howed

lemma tolerate (hp : Nests g start post p) :
    Nests g start (fun value owed => ∀ inner ∈ value, post inner owed) (tolerate p) := by
  intro limit s hs hstart
  have hends := hp limit s hs hstart
  unfold Grammar.tolerate
  cases hp' : p limit s with
  | found value s' =>
    rw [hp'] at hends
    refine ⟨hends.1, fun inner hinner => ?_⟩
    cases hinner
    exact hends.2
  | refused s' =>
    rw [hp'] at hends
    exact ⟨hends, nofun⟩
  | stopped why => trivial

end Rules

section Leaves

lemma atEnd : Nests g start Whatever atEnd :=
  fun _ _ hs _ => ⟨⟨hs, Nat.le_refl _⟩, trivial⟩

lemma peek : Nests g start Whatever peek := by
  intro limit s hs _
  unfold Grammar.peek
  split
  · exact ⟨⟨hs, Nat.le_refl _⟩, trivial⟩
  · exact ⟨⟨hs, Nat.le_refl _⟩, trivial⟩

lemma next : Nests g start Whatever next := by
  intro limit s hs _
  unfold Grammar.next
  split
  · exact ⟨⟨hs, Nat.le_refl _⟩, trivial⟩
  · next b rest hunread =>
    exact ⟨hs.taken (hunread ▸ List.suffix_cons b rest), trivial⟩

lemma accept (mark : Text) : Nests g start Whatever (accept mark) := by
  intro limit s hs _
  unfold Grammar.accept
  split
  · next rest hstrip =>
    obtain ⟨front, -, hunread⟩ := Bytes.stripMark?_append hstrip
    exact ⟨hs.taken ⟨front, hunread⟩, trivial⟩
  · exact ⟨⟨hs, Nat.le_refl _⟩, trivial⟩

lemma advance (amount : Nat) : Nests g start Whatever (advance amount) := by
  intro limit s hs _
  unfold Grammar.advance
  split
  · exact ⟨hs.taken (List.drop_suffix _ _), trivial⟩
  · exact ⟨hs, Nat.le_refl _⟩

lemma readUntil (mark : Text) : Nests g start Whatever (readUntil mark) := by
  intro limit s hs _
  unfold Grammar.readUntil
  split
  · next before rest hbreak =>
    exact ⟨hs.taken ⟨before, Bytes.breakMark?_append hbreak⟩, trivial⟩
  · exact hs.taken (List.nil_suffix)

lemma takeRest : Nests g start Whatever takeRest :=
  fun _ _ hs _ => ⟨hs.taken (List.nil_suffix), trivial⟩

lemma natural : Nests g start Whatever natural := by
  intro limit s hs _
  have hrest : (Bytes.spanDigits s.unread).2 <:+ s.unread := List.dropWhile_suffix _
  unfold Grammar.natural
  split
  · exact ⟨hs, Nat.le_refl _⟩
  · next hspan =>
    rw [hspan] at hrest
    split
    · exact ⟨hs.taken hrest, trivial⟩
    · exact hs.taken hrest
    · trivial
    · trivial

lemma record {node : Node} (hnode : node.height + start ≤ g.total + g.reach) :
    Nests g start Whatever (record node) := by
  intro limit s hs hstart
  refine ⟨⟨⟨hs.suffix, fun other hother => ?_⟩, Nat.le_refl _⟩, trivial⟩
  rcases List.mem_append.1 hother with hother | hother
  · exact hs.recorded other hother
  · rw [List.mem_singleton.1 hother]
    show node.height + g.owed s.unread ≤ _
    omega

lemma forget : Nests g start Whatever forget :=
  fun _ _ hs _ => ⟨⟨⟨hs.suffix, nofun⟩, Nat.le_refl _⟩, trivial⟩

lemma orRefuse (value : Option α) : Nests g start Whatever (orRefuse value) := by
  cases value with
  | none => exact refuse
  | some value => exact pure fun _ _ _ => trivial

lemma recalled (position : Nat) : Nests g start (Within g g.reach) (recalled position) := by
  intro limit s hs _
  unfold Grammar.recalled
  split
  · next node hnode =>
    exact ⟨⟨hs, Nat.le_refl _⟩, hs.recorded node (List.mem_of_getElem? hnode)⟩
  · exact ⟨hs, Nat.le_refl _⟩

/-- A node that is put together of parts is a level higher than these. -/
lemma build {kind : Kind} {payload : Payload} {children : List Node} {extra : Nat}
    (h : ∀ child ∈ children, child.height + start ≤ g.total + extra) :
    Nests g start (Within g (extra + 1)) (Pure.pure (.mk kind payload children)) := by
  refine pure fun owed hstart htotal => ?_
  have hheight : (Node.mk kind payload children).height ≤ g.total + extra - owed + 1 := by
    apply Node.height_le
    intro child hchild
    have hbelow := h child hchild
    omega
  omega

lemma branch {kind : Kind} (children : List Node) {extra : Nat}
    (h : ∀ child ∈ children, child.height + start ≤ g.total + extra) :
    Nests g start (Within g (extra + 1)) (Grammar.branch kind (children.map some)) := by
  rw [branch_map_some]
  exact build h

lemma numbered {kind : Kind} {number : Int} (children : List Node) {extra : Nat}
    (h : ∀ child ∈ children, child.height + start ≤ g.total + extra) :
    Nests g start (Within g (extra + 1)) (Grammar.numbered kind number (children.map some)) := by
  rw [numbered_map_some]
  exact build h

lemma single {kind : Kind} {child : Node} {extra : Nat} (h : child.height + start ≤ g.total + extra) :
    Nests g start (Within g (extra + 1)) (Grammar.branch kind [some child]) :=
  branch [child] (List.forall_mem_singleton.2 h)

lemma pair {kind : Kind} {first second : Node} {extra : Nat}
    (hfirst : first.height + start ≤ g.total + extra)
    (hsecond : second.height + start ≤ g.total + extra) :
    Nests g start (Within g (extra + 1)) (Grammar.branch kind [some first, some second]) :=
  branch [first, second] (List.forall_mem_cons.2 ⟨hfirst, List.forall_mem_singleton.2 hsecond⟩)

lemma triple {kind : Kind} {first second third : Node} {extra : Nat}
    (hfirst : first.height + start ≤ g.total + extra)
    (hsecond : second.height + start ≤ g.total + extra)
    (hthird : third.height + start ≤ g.total + extra) :
    Nests g start (Within g (extra + 1)) (Grammar.branch kind [some first, some second, some third]) :=
  branch [first, second, third] (List.forall_mem_cons.2 ⟨hfirst, List.forall_mem_cons.2
    ⟨hsecond, List.forall_mem_singleton.2 hthird⟩⟩)

/-- A node of few levels has these above whatever was granted. -/
lemma ofHeight {node : Node} {extra : Nat} (h : node.height ≤ extra) :
    Nests g start (Within g extra) (Pure.pure node) :=
  pure fun _ _ htotal => by omega

end Leaves

section Forms

/-- An alternative behind a mark. -/
lemma ite (mark : Text) (hp : Nests g start post p) (hq : Nests g start post q) :
    Nests g start post (do if ← Grammar.accept mark then p else q) := by
  refine (accept mark).skip fun found => ?_
  cases found with
  | true => exact hp
  | false => exact hq

lemma unlessEnd (hp : Nests g start post p) :
    Nests g start post (do if ← Grammar.atEnd then Grammar.refuse else p) := by
  refine atEnd.skip fun ended => ?_
  cases ended with
  | true => exact refuse
  | false => exact hp

lemma demand (mark : Text) : Nests g start Whatever (demand mark) :=
  ite mark (pure fun _ _ _ => trivial) refuse

lemma afterMark (mark : Text) {p : Parser Node} {extra : Nat} (hp : Nests g start (Within g extra) p) :
    Nests g start (fun found owed => ∀ node ∈ found, Within g extra node owed)
      (Grammar.afterMark mark p) := by
  refine ite mark (hp.bind fun node owed _ _ hnode => pure fun owed' howed _ inner hinner => ?_)
    (pure fun _ _ _ => nofun)
  cases hinner
  show node.height + owed' ≤ _
  omega

end Forms

section Letters

lemma after {b : UInt8} (hp : Nests g start post p) : NestsAfter g start b post p := by
  intro limit s rest hs hstart hunread
  have htaken := hs.taken (hunread ▸ List.suffix_cons b rest)
  exact (hp limit _ htaken.1 (htaken.2.trans hstart)).weaken htaken.2 fun _ _ _ _ => id

lemma bindAfter {b : UInt8} {f : α → Parser β} {post' : β → Nat → Prop}
    (hp : NestsAfter g start b post p)
    (hf : ∀ value owed, owed ≤ start → owed ≤ g.total → post value owed →
      Nests g owed post' (f value)) :
    NestsAfter g start b post' (p >>= f) :=
  fun limit s rest hs hstart hunread => (hp limit s rest hs hstart hunread).bind
    fun value s' _ hs' howed hpost =>
      hf value _ (howed.trans hstart) hs'.owed_le hpost limit s' hs' (Nat.le_refl _)

/-- An alternative behind a mark of one byte. -/
lemma iteAfter {mark : Text} {b : UInt8} (hmark : mark.map Fin.val = [b.toNat])
    (hp : NestsAfter g start b post p) (hq : Nests g start post q) :
    Nests g start post (do if ← Grammar.accept mark then p else q) := by
  intro limit s hs hstart
  rw [Parser.bind_apply, Grammar.accept, hmark]
  cases hstrip : Bytes.stripMark? [b.toNat] s.unread with
  | none => exact hq limit s hs hstart
  | some rest =>
    obtain ⟨front, hfront, hunread⟩ := Bytes.stripMark?_append hstrip
    obtain ⟨c, rfl, hc⟩ := List.map_eq_singleton_iff.1 hfront
    obtain rfl := UInt8.toNat_inj.1 hc
    exact hp limit s rest hs hstart hunread.symm

/-- A letter that is taken, where some letters are followed by what is granted for them. -/
lemma nextAfter {f : Char → Parser α} (hf : ∀ c, Nests g start post (f c) ∨
      c ≠ '.' ∧ ∀ b, Bytes.char b = c → NestsAfter g start b post (f c)) :
    Nests g start post (Grammar.next >>= f) := by
  rintro limit ⟨_ | ⟨b, rest⟩, table⟩ hs hstart
  · rcases hf '.' with hdot | ⟨hne, -⟩
    · exact hdot limit _ hs hstart
    · exact absurd rfl hne
  · rcases hf (Bytes.char b) with hletter | ⟨-, hletter⟩
    · exact hletter.after limit ⟨b :: rest, table⟩ rest hs hstart rfl
    · exact hletter b rfl limit ⟨b :: rest, table⟩ rest hs hstart rfl

/-- A look at the next letter, where some letters are taken then. -/
lemma peekAfter {f : Char → Parser α} (hf : ∀ c, Nests g start post (f c) ∨
      c ≠ '.' ∧ ∃ p : Parser α, (f c = do let _ ← Grammar.next; p) ∧
        ∀ b, Bytes.char b = c → NestsAfter g start b post p) :
    Nests g start post (Grammar.peek >>= f) := by
  rintro limit ⟨_ | ⟨b, rest⟩, table⟩ hs hstart
  · rcases hf '.' with hdot | ⟨hne, -⟩
    · exact hdot limit _ hs hstart
    · exact absurd rfl hne
  · rcases hf (Bytes.char b) with hletter | ⟨-, p, hletter, hp⟩
    · exact hletter limit _ hs hstart
    · show Ends g _ post (f (Bytes.char b) limit _)
      rw [hletter]
      exact hp b rfl limit ⟨b :: rest, table⟩ rest hs hstart rfl

end Letters

section Lists

variable {step : α → Parser (Round α β)}

/-- What a round leaves to the next one, or in the end. -/
def afterRound (kept : α → Nat → Prop) (post : β → Nat → Prop) : Round α β → Nat → Prop
  | .again value => kept value
  | .done result => post result

variable (kept : α → Nat → Prop) {result : β → Nat → Prop}

lemma rounds (hresult : ∀ value owed owed', owed' ≤ owed → result value owed → result value owed')
    (hstep : ∀ start value, kept value start → Nests g start (afterRound kept result) (step value))
    (count : Nat) {value : α} (hvalue : kept value start) :
    Nests g start result (rounds step count value) := by
  induction count generalizing value start with
  | zero => exact refuse
  | succ count ih =>
    refine (hstep start value hvalue).bind fun round owed _ _ hround => ?_
    cases round with
    | again value' => exact ih hround
    | done value' => exact pure fun owed' howed _ => hresult value' owed owed' howed hround

lemma iterate (hresult : ∀ value owed owed', owed' ≤ owed → result value owed → result value owed')
    (hstep : ∀ start value, kept value start → Nests g start (afterRound kept result) (step value))
    {value : α} (hvalue : kept value start) : Nests g start result (iterate step value) :=
  fun limit s hs => rounds kept hresult hstep (s.unread.length + 1) hvalue limit s hs

lemma gather {stop : Parser Bool} {item : List α → Parser α}
    (hpost : ∀ value owed owed', owed' ≤ owed → post value owed → post value owed')
    (hstop : ∀ start, Nests g start Whatever stop)
    (hitem : ∀ start earlier, Nests g start post (item earlier)) :
    Nests g start (fun items owed => ∀ value ∈ items, post value owed) (Grammar.gather stop item) := by
  refine iterate (fun earlier owed => ∀ value ∈ earlier, post value owed) ?_ ?_ nofun
  · intro items owed owed' howed hitems value hvalue
    exact hpost value owed owed' howed (hitems value hvalue)
  · intro start earlier hearlier
    refine (hstop start).skip fun stopped => ?_
    cases stopped with
    | true =>
      refine pure fun owed howed _ value hvalue => ?_
      exact hpost value start owed howed (hearlier value (List.mem_reverse.1 hvalue))
    | false =>
      refine (hitem start earlier).bind fun value owed howed _ hvalue => pure fun owed' howed' _ => ?_
      refine List.forall_mem_cons.2 ⟨hpost value owed owed' howed' hvalue, fun other hother => ?_⟩
      exact hpost other start owed' (howed'.trans howed) (hearlier other hother)

/-- A list of nodes with a few levels more than were granted. -/
lemma gatherEach {stop : Parser Bool} {item : List Node → Parser Node} {extra : Nat}
    (hstop : ∀ start, Nests g start Whatever stop)
    (hitem : ∀ start earlier, Nests g start (Within g extra) (item earlier)) :
    Nests g start (AllWithin g extra) (Grammar.gather stop item) :=
  gather (fun _ _ _ _ _ => by omega) hstop hitem

/-- A list of what is found. -/
lemma gatherFound {stop : Parser Bool} {item : Parser Node} {extra : Nat}
    (hstop : ∀ start, Nests g start Whatever stop)
    (hitem : ∀ start, Nests g start (Within g extra) item) :
    Nests g start (AllWithin g extra) (Grammar.gatherFound stop item) := by
  refine iterate (AllWithin g extra) ?_ ?_ nofun
  · intro items owed owed' howed hitems value hvalue
    have hwithin := hitems value hvalue
    omega
  · intro start earlier hearlier
    have hreverse : ∀ owed, owed ≤ start → AllWithin g extra earlier.reverse owed := by
      intro owed howed value hvalue
      have hwithin := hearlier value (List.mem_reverse.1 hvalue)
      omega
    refine (hstop start).skip fun stopped => ?_
    cases stopped with
    | true => exact pure fun owed howed _ => hreverse owed howed
    | false =>
      refine (hitem start).tolerate.bind fun found owed howed _ hfound => ?_
      cases found with
      | none => exact pure fun owed' howed' _ => hreverse owed' (howed'.trans howed)
      | some node =>
        have hnode : node.height + owed ≤ g.total + extra := hfound node rfl
        refine pure fun owed' howed' _ => List.forall_mem_cons.2 ⟨by omega, fun other hother => ?_⟩
        have hwithin := hearlier other hother
        omega

end Lists

section References

lemma index : Nests g start Whatever Grammar.index :=
  ite _ (pure fun _ _ _ => trivial) <| natural.skip fun _ => (demand _).skip fun _ =>
    pure fun _ _ _ => trivial

lemma height_stdlibType (kind : Kind) (name : String) : (stdlibType kind name).height = 2 :=
  rfl

lemma substitution : Nests g start (Within g (max 2 g.reach)) Grammar.substitution := by
  have hleaf : ∀ node : Node, node.height ≤ 2 →
      Nests g start (Within g (max 2 g.reach)) (Pure.pure node) :=
    fun node hnode => ofHeight (Nat.le_trans hnode (Nat.le_max_left ..))
  refine unlessEnd <| ite _ (hleaf _ (by decide)) <| ite _ (hleaf _ (by decide)) <|
    peek.skip fun c => ?_
  cases standardType? c with
  | some type => exact next.skip fun _ => hleaf _ (height_stdlibType type.1 type.2).le
  | none => exact index.skip fun position => (recalled position).upTo (Nat.le_max_right ..)

/-- Where no index begins, none is found. -/
lemma index_refused {b : UInt8} {rest : Bytes} (h : Bytes.startsIndex (b :: rest) = false)
    (table : References Node) (limit : Int) :
    Grammar.index limit ⟨b :: rest, table⟩ = .refused ⟨b :: rest, table⟩ := by
  obtain ⟨hdigit, hmark⟩ : Bytes.isDigit b = false ∧ b ≠ 0x5F := by
    simpa [Bytes.startsIndex] using h
  have haccept : Grammar.accept "_" limit ⟨b :: rest, table⟩ = .found false ⟨b :: rest, table⟩ := by
    apply accept_of_misses
    show (0x5F != b.toNat) = true
    exact bne_iff_ne.2 fun heq => hmark (UInt8.toNat_inj.1 heq.symm)
  have hnatural : Grammar.natural limit ⟨b :: rest, table⟩ = .refused ⟨b :: rest, table⟩ := by
    simp [Grammar.natural, Bytes.spanDigits, hdigit]
  simp [Grammar.index, Parser.bind_apply, haccept, hnatural]

/-- Where no index begins, nothing that is recorded is found. -/
lemma substitution_standard {levels : Nat} (hlevels : 2 ≤ levels) {s : State} (hs : Fits g s)
    (hindex : Bytes.startsIndex s.unread = false) (limit : Int) :
    Ends g (g.owed s.unread) (Within g levels) (Grammar.substitution limit s) := by
  obtain ⟨unread, table⟩ := s
  refine (atEnd limit _ hs (Nat.le_refl _)).bind fun ended s₁ hended _ _ _ => ?_
  cases unread with
  | nil =>
    cases hended
    exact ⟨hs, Nat.le_refl _⟩
  | cons b rest =>
    cases hended
    refine (accept "o" limit _ hs (Nat.le_refl _)).bind fun found s₂ hmark hs₂ _ _ => ?_
    cases found with
    | true => exact ofHeight (Nat.le_of_succ_le hlevels) limit s₂ hs₂ (Nat.le_refl _)
    | false =>
      obtain rfl := eq_of_accept_false hmark
      refine (accept "C" limit _ hs (Nat.le_refl _)).bind fun found s₃ hmark hs₃ _ _ => ?_
      cases found with
      | true => exact ofHeight (Nat.le_of_succ_le hlevels) limit s₃ hs₃ (Nat.le_refl _)
      | false =>
        obtain rfl := eq_of_accept_false hmark
        refine (peek limit _ hs (Nat.le_refl _)).bind fun c s₄ hpeek hs₄ _ _ => ?_
        cases hpeek
        cases standardType? (Bytes.char b) with
        | some type =>
          exact (next.skip fun _ => ofHeight ((height_stdlibType type.1 type.2).trans_le hlevels)) limit
            _ hs (Nat.le_refl _)
        | none =>
          show Ends g _ _ ((Grammar.index >>= Grammar.recalled) limit _)
          rw [Parser.bind_apply, index_refused hindex]
          exact ⟨hs, Nat.le_refl _⟩

/-- What follows the `S` of a substitution: two levels at most, or those of a recorded tree, which are
granted. -/
lemma substitution_after (hgrant : g.reach ≤ g.grant) {levels : Nat} (hlevels : 2 ≤ levels) :
    NestsAfter g start 0x53 (Within g levels) Grammar.substitution := by
  intro limit s rest hs _ hunread
  have hsuffix : rest <:+ s.unread := hunread ▸ List.suffix_cons _ _
  have hafter := hs.after hsuffix
  have howed := Grants.owed_mono (g := g) hsuffix
  cases hindex : Bytes.startsIndex rest with
  | true =>
    -- The reference is granted, so that no recorded tree has more levels than that.
    have hgranted := Grants.owed_reference (g := g) hindex
    have hnone : Fits { g with reach := 0 } ⟨rest, s.recorded⟩ := by
      refine ⟨hafter.suffix, fun node hnode => ?_⟩
      have hrecorded := hs.recorded node hnode
      rw [hunread] at hrecorded
      show node.height + g.owed rest ≤ g.total + 0
      omega
    have hends := substitution (g := { g with reach := 0 }) limit ⟨rest, s.recorded⟩ hnone
      (Nat.le_refl _)
    exact hends.ofGranted.weaken howed fun node owed _ _ (hnode : node.height + owed ≤ g.total + 2) => by
      omega
  | false => exact (substitution_standard hlevels hafter hindex limit).weaken howed fun _ _ _ _ => id

/-- A substitution behind its `S`. -/
lemma reference (hgrant : g.reach ≤ g.grant) {f : Node → Parser α}
    (hf : ∀ node owed, owed ≤ start → owed ≤ g.total → Within g 2 node owed →
      Nests g owed post (f node)) (hq : Nests g start post q) :
    Nests g start post (do if ← Grammar.accept "S" then (do let node ← Grammar.substitution; f node) else q) :=
  iteAfter rfl (bindAfter (substitution_after hgrant (Nat.le_refl 2)) hf) hq

end References

end Nests

end Grammar

end SwiftMangling
