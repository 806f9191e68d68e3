import SwiftMangling.Node.Size
import SwiftMangling.Proofs.GrammarReads

/-!
# What a parser pays for its nodes

A node is paid for with the bytes that it is read from. A back-reference is short and stands for a whole
tree, so a byte has to be dear enough for any tree that can be referred to. Such a tree was itself paid
for at the price of the time when it was recorded, and the price rises by a factor with each recorded
node. It stops rising at the last position that can be referred to, as there is a largest number.
-/

namespace SwiftMangling.Grammar

variable {α β : Type}

/-- The price of a byte in a name of so many bytes, where so many nodes are recorded. Nodes after the
last position that can be referred to do not raise it. -/
def price (bytes top recorded : Nat) : Nat :=
  (bytes + 16) ^ (min recorded (top + 1) + 1)

/-- What has to be paid for at which prices. -/
structure Tariff where
  /-- The bytes of a name. -/
  bytes : Nat
  /-- The last position that can be referred to. -/
  top : Nat
  /-- The lowest price of a byte where so many nodes are recorded. -/
  floor : Nat → Nat
  covers : ∀ recorded, price bytes top recorded ≤ floor recorded

section Prices

variable (bytes top : Nat)

lemma price_mono {recorded recorded' : Nat} (h : recorded ≤ recorded') :
    price bytes top recorded ≤ price bytes top recorded' := by
  unfold price
  exact Nat.pow_le_pow_right (by omega) (by omega)

lemma price_le_last (recorded : Nat) : price bytes top recorded ≤ price bytes top (top + 1) := by
  unfold price
  exact Nat.pow_le_pow_right (by omega) (by omega)

lemma toll_le_price (recorded : Nat) : 16 ≤ price bytes top recorded := by
  have hbase : bytes + 16 ≤ price bytes top recorded := Nat.le_self_pow (Nat.succ_ne_zero _) _
  omega

/-- All that can be bought at a price can be had for one byte at the next price. -/
lemma price_mul_le {recorded : Nat} (h : recorded ≤ top) :
    price bytes top recorded * bytes ≤ price bytes top (recorded + 1) := by
  have hrecorded : min recorded (top + 1) = recorded := Nat.min_eq_left (Nat.le_succ_of_le h)
  have hnext : min (recorded + 1) (top + 1) = recorded + 1 := Nat.min_eq_left (Nat.succ_le_succ h)
  unfold price
  rw [hrecorded, hnext, Nat.pow_succ _ (recorded + 1)]
  exact Nat.mul_le_mul_left _ (Nat.le_add_right _ _)

/-- A byte is as dear as it has to be. -/
def rising : Tariff where
  bytes := bytes
  top := top
  floor := price bytes top
  covers _ := Nat.le_refl _

/-- A byte is as dear from the beginning as it ever will be. -/
def flat : Tariff where
  bytes := bytes
  top := top
  floor _ := price bytes top (top + 1)
  covers := price_le_last bytes top

end Prices

/-- A tree that can be referred to costs no more than a byte from the next node on. -/
def Fair (g : Tariff) (s : State) : Prop :=
  ∀ position node, s.recorded[position]? = some node → position ≤ g.top →
    node.size ≤ price g.bytes g.top (position + 1)

/-- So much has been paid for with bytes that have been taken. -/
def Funded (g : Tariff) (credit : Nat) (s : State) : Prop :=
  ∀ price, g.floor s.recorded.length ≤ price →
    credit + price * s.unread.length ≤ price * g.bytes

/-- Reading goes on to a state. -/
structure Follows (g : Tariff) (s s' : State) : Prop where
  fair : Fair g s'
  unread : s'.unread.length ≤ s.unread.length
  floor : g.floor s.recorded.length ≤ g.floor s'.recorded.length

/-- What is found is worth no more than a credit and the bytes that are taken for it. -/
def Costs (g : Tariff) (credit : Nat) (worth : α → Nat) (s : State) : Outcome α → Prop
  | .found value s' => Follows g s s' ∧ ∀ price, g.floor s'.recorded.length ≤ price →
      worth value + price * s'.unread.length ≤ credit + price * s.unread.length
  | .refused s' => Follows g s s'
  | .stopped _ => True

/-- From any state in which its credit has been paid for, a parser pays for what it finds. -/
def Pays (g : Tariff) (credit : Nat) (worth : α → Nat) (p : Parser α) : Prop :=
  ∀ limit s, limit + 1 ≤ (g.top : Int) → Fair g s → Funded g credit s →
    Costs g credit worth s (p limit s)

/-- A parser that pays for the node that it finds, and for as many nodes more. -/
abbrev Buys (g : Tariff) (credit extra : Nat) (p : Parser Node) : Prop :=
  Pays g credit (fun node => node.size + extra) p

/-- Nothing is found that has to be paid for. -/
abbrev free : α → Nat :=
  fun _ => 0

section States

variable {g : Tariff} {credit credit' : Nat} {s s' s'' : State} {worth : α → Nat}

lemma Follows.refl (hs : Fair g s) : Follows g s s :=
  ⟨hs, Nat.le_refl _, Nat.le_refl _⟩

lemma Follows.trans (h : Follows g s s') (h' : Follows g s' s'') : Follows g s s'' :=
  ⟨h'.fair, h'.unread.trans h.unread, h.floor.trans h'.floor⟩

/-- Bytes may be taken. -/
lemma Follows.after (hs : Fair g s) {rest : Bytes} (hrest : rest.length ≤ s.unread.length) :
    Follows g s ⟨rest, s.recorded⟩ :=
  ⟨hs, hrest, Nat.le_refl _⟩

/-- A credit is kept where bytes are taken. -/
lemma Follows.keeps (h : Follows g s s') (price : Nat) :
    credit + price * s'.unread.length ≤ credit + price * s.unread.length :=
  Nat.add_le_add_left (Nat.mul_le_mul_left _ h.unread) _

lemma Tariff.toll_le (g : Tariff) (recorded : Nat) : 16 ≤ g.floor recorded :=
  (toll_le_price g.bytes g.top recorded).trans (g.covers recorded)

/-- A byte that is taken pays a toll. -/
lemma toll_paid (hless : s'.unread.length < s.unread.length) {price : Nat}
    (hprice : g.floor s'.recorded.length ≤ price) :
    16 + price * s'.unread.length ≤ 0 + price * s.unread.length := by
  have htoll := (g.toll_le _).trans hprice
  have hbytes := Nat.mul_le_mul_left price hless
  rw [Nat.mul_succ] at hbytes
  omega

lemma Funded.of_le (h : Funded g credit s) (hle : credit' ≤ credit) : Funded g credit' s :=
  fun price hprice => (Nat.add_le_add_right hle _).trans (h price hprice)

/-- What has been bought on the way to a state is funded there. -/
lemma Funded.after (h : Funded g credit s) (hfollows : Follows g s s')
    (hpaid : ∀ price, g.floor s'.recorded.length ≤ price →
      credit' + price * s'.unread.length ≤ credit + price * s.unread.length) : Funded g credit' s' :=
  fun price hprice => (hpaid price hprice).trans (h price (hfollows.floor.trans hprice))

/-- What is bought on the way to a state adds to the credit there. -/
lemma Costs.after {o : Outcome α} (h : Costs g credit' worth s' o) (hfollows : Follows g s s')
    (hpaid : ∀ price, g.floor s'.recorded.length ≤ price →
      credit' + price * s'.unread.length ≤ credit + price * s.unread.length) :
    Costs g credit worth s o := by
  cases o with
  | found value s'' =>
    exact ⟨hfollows.trans h.1, fun price hprice =>
      (h.2 price hprice).trans (hpaid price (h.1.floor.trans hprice))⟩
  | refused s'' => exact hfollows.trans h
  | stopped why => trivial

end States

namespace Pays

variable {g : Tariff} {credit : Nat} {worth : α → Nat} {p q : Parser α}

section Rules

lemma pure {value : α} (h : worth value ≤ credit) : Pays g credit worth (Pure.pure value) :=
  fun _ _ _ hs _ => ⟨.refl hs, fun _ _ => Nat.add_le_add_right h _⟩

lemma refuse : Pays g credit worth (refuse : Parser α) :=
  fun _ _ _ hs _ => .refl hs

lemma stop (why : Stop) : Pays g credit worth (stop why : Parser α) :=
  fun _ _ _ _ _ => trivial

/-- More credit may be given, and less be found. -/
lemma weaken {credit' : Nat} {worth' : α → Nat} (hp : Pays g credit worth p) (hcredit : credit ≤ credit')
    (hworth : ∀ value, worth' value ≤ worth value) : Pays g credit' worth' p := by
  intro limit s hlimit hs hfunded
  have hcosts := hp limit s hlimit hs (hfunded.of_le hcredit)
  cases hp' : p limit s with
  | found value s' =>
    rw [hp'] at hcosts
    refine ⟨hcosts.1, fun price hprice => ?_⟩
    have hpaid := hcosts.2 price hprice
    have hvalue := hworth value
    omega
  | refused s' =>
    rw [hp'] at hcosts
    exact hcosts
  | stopped why => trivial

/-- Credit that is not used is left over. -/
lemma frame (hp : Pays g credit worth p) (spare : Nat) :
    Pays g (spare + credit) (fun value => spare + worth value) p := by
  intro limit s hlimit hs hfunded
  have hcosts := hp limit s hlimit hs (hfunded.of_le (Nat.le_add_left _ _))
  cases hp' : p limit s with
  | found value s' =>
    rw [hp'] at hcosts
    refine ⟨hcosts.1, fun price hprice => ?_⟩
    have hpaid := hcosts.2 price hprice
    show spare + worth value + _ ≤ _
    omega
  | refused s' =>
    rw [hp'] at hcosts
    exact hcosts
  | stopped why => trivial

lemma bind {f : α → Parser β} {worth' : β → Nat} (hp : Pays g credit worth p)
    (hf : ∀ value, Pays g (worth value) worth' (f value)) : Pays g credit worth' (p >>= f) := by
  intro limit s hlimit hs hfunded
  have hcosts := hp limit s hlimit hs hfunded
  rw [Parser.bind_apply]
  cases hp' : p limit s with
  | found value s' =>
    rw [hp'] at hcosts
    obtain ⟨hfollows, hpaid⟩ := hcosts
    exact (hf value limit s' hlimit hfollows.fair (hfunded.after hfollows hpaid)).after hfollows hpaid
  | refused s' =>
    rw [hp'] at hcosts
    exact hcosts
  | stopped why => trivial

/-- What is found first adds to the credit. -/
lemma first {f : α → Parser β} {worth' : β → Nat} (hp : Pays g 0 worth p)
    (hf : ∀ value, Pays g (credit + worth value) worth' (f value)) : Pays g credit worth' (p >>= f) :=
  (hp.frame credit).bind hf

/-- What is read first is of no account. -/
lemma skip {f : α → Parser β} {worth' : β → Nat} (hp : Pays g 0 free p)
    (hf : ∀ value, Pays g credit worth' (f value)) : Pays g credit worth' (p >>= f) :=
  hp.first hf

/-- What is left of a larger credit pays for as many nodes more. -/
lemma within {p : Parser Node} {credit' extra extra' : Nat}
    (hp : Buys g credit' extra' p) (hcredit : credit' ≤ credit)
    (hextra : credit' + extra ≤ credit + extra') : Buys g credit extra p :=
  (hp.frame (credit - credit')).weaken (by omega) fun node => by omega

lemma tolerate (hp : Pays g 0 worth p) :
    Pays g 0 (fun found => (found.map worth).getD 0) (tolerate p) := by
  intro limit s hlimit hs hfunded
  have hcosts := hp limit s hlimit hs hfunded
  unfold Grammar.tolerate
  cases hp' : p limit s with
  | found value s' =>
    rw [hp'] at hcosts
    exact hcosts
  | refused s' =>
    rw [hp'] at hcosts
    exact ⟨hcosts, fun price _ => hcosts.keeps price⟩
  | stopped why => trivial

end Rules

section Leaves

/-- A parser that takes bytes and nothing else. -/
lemma ofTaken (h : ∀ limit s, (∃ value rest, p limit s = .found value ⟨rest, s.recorded⟩ ∧
      rest.length ≤ s.unread.length) ∨ (∃ rest, p limit s = .refused ⟨rest, s.recorded⟩ ∧
      rest.length ≤ s.unread.length) ∨ ∃ why, p limit s = .stopped why) : Pays g 0 free p := by
  intro limit s _ hs _
  obtain ⟨value, rest, hfound, hrest⟩ | ⟨rest, hrefused, hrest⟩ | ⟨why, hstopped⟩ := h limit s
  · rw [hfound]
    have hfollows := Follows.after hs hrest
    exact ⟨hfollows, fun price _ => hfollows.keeps price⟩
  · rw [hrefused]
    exact Follows.after hs hrest
  · rw [hstopped]
    trivial

/-- A parser that takes a byte pays a toll with it. -/
lemma ofLeast (hp : Pays g 0 free p) {least ahead : Nat} (hleast : Settles (least + 1) ahead p) :
    Pays g 0 (fun _ => 16) p := by
  intro limit s hlimit hs hfunded
  have hcosts := hp limit s hlimit hs hfunded
  cases hp' : p limit s with
  | found value s' =>
    rw [hp'] at hcosts
    have hless : s'.unread.length < s.unread.length := by
      have hshorter := hleast.shorter hp'
      omega
    exact ⟨hcosts.1, fun price hprice => toll_paid hless hprice⟩
  | refused s' =>
    rw [hp'] at hcosts
    exact hcosts
  | stopped why => trivial

lemma atEnd : Pays g 0 free atEnd :=
  ofTaken fun _ s => .inl ⟨_, s.unread, rfl, Nat.le_refl _⟩

lemma peek : Pays g 0 free peek := by
  refine ofTaken fun _ s => .inl ?_
  obtain ⟨_ | ⟨b, rest⟩, table⟩ := s
  · exact ⟨_, _, rfl, Nat.le_refl _⟩
  · exact ⟨_, _, rfl, Nat.le_refl _⟩

lemma next : Pays g 0 free next := by
  refine ofTaken fun _ s => .inl ?_
  obtain ⟨_ | ⟨b, rest⟩, table⟩ := s
  · exact ⟨_, _, rfl, Nat.le_refl _⟩
  · exact ⟨_, rest, rfl, Nat.le_succ _⟩

/-- A mark may be taken or not. -/
lemma optional (mark : Text) : Pays g 0 free (Grammar.accept mark) := by
  refine ofTaken fun limit s => ?_
  obtain ⟨rest, haccept⟩ | haccept := accept_cases mark limit s
  · have hshorter : rest.length + mark.length ≤ s.unread.length := (steady_accept mark).shorter haccept
    exact .inl ⟨true, rest, haccept, Nat.le_of_add_right_le hshorter⟩
  · exact .inl ⟨false, s.unread, haccept, Nat.le_refl _⟩

lemma advance (amount : Nat) : Pays g 0 free (advance amount) := by
  refine ofTaken fun _ s => ?_
  unfold Grammar.advance
  split
  · exact .inl ⟨_, _, rfl, by simp⟩
  · exact .inr (.inl ⟨_, rfl, Nat.le_refl _⟩)

lemma readUntil (mark : Text) : Pays g 0 free (readUntil mark) := by
  refine ofTaken fun _ s => ?_
  unfold Grammar.readUntil
  split
  · next before rest hbreak =>
    have hunread := Bytes.breakMark?_append hbreak
    exact .inl ⟨_, _, rfl, by simp [← hunread]⟩
  · exact .inr (.inl ⟨_, rfl, by simp⟩)

lemma takeRest : Pays g 0 free takeRest :=
  ofTaken fun _ _ => .inl ⟨_, [], rfl, Nat.zero_le _⟩

lemma natural : Pays g 0 (fun _ => 16) natural := by
  refine ofLeast (ofTaken fun limit s => ?_) Settles.natural
  have hrest : (Bytes.spanDigits s.unread).2.length ≤ s.unread.length :=
    (List.dropWhile_suffix _).length_le
  unfold Grammar.natural
  split
  · exact .inr (.inl ⟨_, rfl, Nat.le_refl _⟩)
  · next digits rest _ hspan =>
    rw [hspan] at hrest
    split
    · exact .inl ⟨_, _, rfl, hrest⟩
    · exact .inr (.inl ⟨_, rfl, hrest⟩)
    · exact .inr (.inr ⟨_, rfl⟩)
    · exact .inr (.inr ⟨_, rfl⟩)

lemma orRefuse (value : Option α) : Pays g 0 free (orRefuse value) := by
  cases value with
  | none => exact refuse
  | some value => exact pure (Nat.le_refl 0)

/-- A node that is recorded has been paid for at the price of that time. -/
lemma record {bytes top : Nat} {node : Node} (h : node.size ≤ credit) :
    Pays (rising bytes top) credit (fun _ => credit) (record node) := by
  intro limit s _ hs hfunded
  have hlength : (s.recorded ++ [node]).length = s.recorded.length + 1 := by simp
  refine ⟨⟨fun position other hother hposition => ?_, Nat.le_refl _, price_mono bytes top ?_⟩,
    fun _ _ => Nat.le_refl _⟩
  · replace hother : (s.recorded ++ [node])[position]? = some other := hother
    obtain hless | rfl | hmore := Nat.lt_trichotomy position s.recorded.length
    · rw [List.getElem?_append_left hless] at hother
      exact hs position other hother hposition
    · rw [List.getElem?_concat_length] at hother
      cases hother
      have hpaid : credit + price bytes top s.recorded.length * s.unread.length ≤
          price bytes top s.recorded.length * bytes := hfunded _ (Nat.le_refl _)
      have hbyte := price_mul_le bytes top hposition
      show node.size ≤ price bytes top (s.recorded.length + 1)
      omega
    · rw [List.getElem?_eq_none (by omega)] at hother
      cases hother
  · show s.recorded.length ≤ (s.recorded ++ [node]).length
    omega

end Leaves

section Forms

/-- A mark that is taken pays a toll. -/
lemma accept (mark : Text) (hmark : mark.isEmpty = false) :
    Pays g 0 (fun found => if found then 16 else 0) (Grammar.accept mark) := by
  intro limit s _ hs _
  obtain ⟨rest, haccept⟩ | haccept := accept_cases mark limit s
  · have hshorter : rest.length + mark.length ≤ s.unread.length := (steady_accept mark).shorter haccept
    have hpos : 0 < mark.length := List.length_pos_iff.2 (List.isEmpty_eq_false_iff.1 hmark)
    have hless : (⟨rest, s.recorded⟩ : State).unread.length < s.unread.length := by
      show rest.length < _
      omega
    rw [haccept]
    exact ⟨.after hs hless.le, fun _ hprice => toll_paid hless hprice⟩
  · rw [haccept]
    exact ⟨.refl hs, fun _ _ => Nat.le_refl _⟩

/-- An alternative behind a mark. -/
lemma ite (mark : Text) (hmark : mark.isEmpty = false) (hp : Pays g (credit + 16) worth p)
    (hq : Pays g credit worth q) : Pays g credit worth (do if ← Grammar.accept mark then p else q) := by
  refine (accept mark hmark).first fun found => ?_
  cases found with
  | true => exact hp
  | false => exact hq

lemma unlessEnd (hp : Pays g credit worth p) :
    Pays g credit worth (do if ← Grammar.atEnd then Grammar.refuse else p) := by
  refine atEnd.skip fun ended => ?_
  cases ended with
  | true => exact refuse
  | false => exact hp

lemma demand (mark : Text) (hmark : mark.isEmpty = false) :
    Pays g 0 (fun _ => 16) (demand mark) :=
  ite mark hmark (pure (Nat.le_refl _)) refuse

/-- Behind a byte there is the credit of its toll. -/
lemma afterByte (hp : Pays g (credit + 16) worth p) {limit : Int} {b : UInt8} {rest : Bytes}
    {table : References Node} (hlimit : limit + 1 ≤ (g.top : Int)) (hs : Fair g ⟨b :: rest, table⟩)
    (hfunded : Funded g credit ⟨b :: rest, table⟩) :
    Costs g credit worth ⟨b :: rest, table⟩ (p limit ⟨rest, table⟩) := by
  have hfollows : Follows g ⟨b :: rest, table⟩ ⟨rest, table⟩ := .after hs (Nat.le_succ rest.length)
  have hpaid : ∀ price, g.floor table.length ≤ price →
      credit + 16 + price * rest.length ≤ credit + price * (rest.length + 1) := by
    intro price hprice
    have htoll := (g.toll_le table.length).trans hprice
    rw [Nat.mul_succ]
    omega
  exact (hp limit _ hlimit hfollows.fair (hfunded.after hfollows hpaid)).after hfollows hpaid

/-- A letter that is taken, where a full stop is refused. -/
lemma nextLetter {f : Char → Parser α} (hf : ∀ c, Pays g (credit + 16) worth (f c))
    (hdot : f '.' = Grammar.refuse) : Pays g credit worth (Grammar.next >>= f) := by
  rintro limit ⟨_ | ⟨b, rest⟩, table⟩ hlimit hs hfunded
  · show Costs g credit worth _ (f '.' limit _)
    rw [hdot]
    exact .refl hs
  · exact (hf (Bytes.char b)).afterByte hlimit hs hfunded

/-- A look at the next letter, where some letters are taken then. -/
lemma onLetter {f : Char → Parser α} (hf : ∀ c, Pays g credit worth (f c) ∨
      c ≠ '.' ∧ ∃ rest : Parser α, (f c = do let _ ← Grammar.next; rest) ∧
        Pays g (credit + 16) worth rest) :
    Pays g credit worth (Grammar.peek >>= f) := by
  rintro limit ⟨_ | ⟨b, rest⟩, table⟩ hlimit hs hfunded
  · obtain hdot | ⟨hne, -⟩ := hf '.'
    · exact hdot limit _ hlimit hs hfunded
    · exact absurd rfl hne
  · obtain hletter | ⟨-, p, hletter, hp⟩ := hf (Bytes.char b)
    · exact hletter limit _ hlimit hs hfunded
    · show Costs g credit worth _ (f (Bytes.char b) limit _)
      rw [hletter]
      exact hp.afterByte hlimit hs hfunded

/-- A node that is put together is one more than its parts. -/
lemma branch {kind : Kind} (children : List Node) {extra : Nat}
    (h : Node.sizeAll children + 1 + extra ≤ credit) :
    Buys g credit extra (Grammar.branch kind (children.map some)) := by
  rw [branch_map_some]
  exact pure (by rw [Node.branch, Node.size_mk]; exact h)

lemma numbered {kind : Kind} {number : Int} (children : List Node) {extra : Nat}
    (h : Node.sizeAll children + 1 + extra ≤ credit) :
    Buys g credit extra (Grammar.numbered kind number (children.map some)) := by
  rw [numbered_map_some]
  exact pure (by rw [Node.numbered, Node.size_mk]; exact h)

lemma single {kind : Kind} {child : Node} {extra : Nat} (h : child.size + 1 + extra ≤ credit) :
    Buys g credit extra (Grammar.branch kind [some child]) :=
  branch [child] (by rwa [Node.sizeAll_singleton])

lemma pair {kind : Kind} {first second : Node} {extra : Nat}
    (h : first.size + second.size + 1 + extra ≤ credit) :
    Buys g credit extra (Grammar.branch kind [some first, some second]) :=
  branch [first, second] (by rwa [Node.sizeAll_cons, Node.sizeAll_singleton])

lemma triple {kind : Kind} {first second third : Node} {extra : Nat}
    (h : first.size + second.size + third.size + 1 + extra ≤ credit) :
    Buys g credit extra (Grammar.branch kind [some first, some second, some third]) :=
  branch [first, second, third] (by
    rwa [Node.sizeAll_cons, Node.sizeAll_cons, Node.sizeAll_singleton, ← Nat.add_assoc])

lemma afterMark (mark : Text) (hmark : mark.isEmpty = false) {p : Parser Node} {extra : Nat}
    (hp : Buys g 0 extra p) :
    Pays g 0 (fun found => Node.sizeAll found.toList) (Grammar.afterMark mark p) := by
  refine ite mark hmark (hp.first fun node => pure ?_) (pure (Nat.le_refl 0))
  rw [Option.toList_some, Node.sizeAll_singleton]
  omega

end Forms

section Lists

variable {step : α → Parser (Round α β)}

/-- What a round leaves to the next one, or in the end. -/
def afterRound (kept : α → Nat) (result : β → Nat) : Round α β → Nat
  | .again value => kept value
  | .done value => result value

variable (kept : α → Nat) {result : β → Nat}

lemma rounds (hstep : ∀ value, Pays g (kept value) (afterRound kept result) (step value)) (count : Nat)
    (value : α) : Pays g (kept value) result (rounds step count value) := by
  induction count generalizing value with
  | zero => exact refuse
  | succ count ih =>
    refine (hstep value).bind fun round => ?_
    cases round with
    | again value' => exact ih value'
    | done value' => exact pure (Nat.le_refl _)

lemma iterate (hstep : ∀ value, Pays g (kept value) (afterRound kept result) (step value))
    (value : α) : Pays g (kept value) result (iterate step value) :=
  fun limit s => rounds kept hstep (s.unread.length + 1) value limit s

/-- A list whose items are paid for one by one, and what pays for its end. -/
lemma collect {stop : Parser Bool} {item : List α → Parser α} (total : List α → Nat) {ended : Nat}
    (hstop : Pays g 0 (fun stopped => if stopped then ended else 0) stop)
    (hreverse : ∀ items, total items.reverse = total items)
    (hitem : ∀ earlier, Pays g (total earlier) (fun value => total (value :: earlier)) (item earlier)) :
    Pays g (total []) (fun items => total items + ended) (Grammar.gather stop item) := by
  refine iterate total (fun earlier => hstop.first fun stopped => ?_) []
  cases stopped with
  | true => exact pure (by rw [afterRound, hreverse, if_pos rfl])
  | false => exact (hitem earlier).bind fun value => pure (Nat.le_refl _)

/-- A list of nodes up to a mark, which pays a toll. -/
lemma gather (mark : Text) (hmark : mark.isEmpty = false) {item : List Node → Parser Node} {extra : Nat}
    (hitem : ∀ earlier, Buys g 0 extra (item earlier)) :
    Pays g 0 (fun nodes => Node.sizeAll nodes + 16)
      (Grammar.gather (Grammar.accept mark) item) := by
  refine collect Node.sizeAll (accept mark hmark) Node.sizeAll_reverse fun earlier => ?_
  refine ((hitem earlier).frame (Node.sizeAll earlier)).weaken (Nat.le_refl _) fun node => ?_
  rw [Node.sizeAll_cons]
  omega

/-- A list of what is found. -/
lemma gatherFound {stop : Parser Bool} {item : Parser Node} {extra : Nat} (hstop : Pays g 0 free stop)
    (hitem : Buys g 0 extra item) :
    Pays g 0 Node.sizeAll (Grammar.gatherFound stop item) := by
  refine iterate Node.sizeAll (fun earlier => hstop.skip fun stopped => ?_) []
  have hdone : Node.sizeAll earlier.reverse ≤ Node.sizeAll earlier := (Node.sizeAll_reverse _).le
  cases stopped with
  | true => exact pure hdone
  | false =>
    refine hitem.tolerate.first fun found => ?_
    cases found with
    | none => exact pure hdone
    | some node =>
      refine pure ?_
      show Node.sizeAll (node :: earlier) ≤ _ + (node.size + extra)
      rw [Node.sizeAll_cons]
      omega

/-- A change by steps that are paid for one by one. -/
lemma foldUntil {mark : Text} (hmark : mark.isEmpty = false) {step : α → Parser α}
    (hstep : ∀ value, Pays g (kept value) kept (step value)) (value : α) :
    Pays g (kept value) kept (Grammar.foldUntil (Grammar.accept mark) step value) :=
  iterate kept (fun value => ite mark hmark (pure (Nat.le_add_right _ _)) <|
    (hstep value).bind fun _ => pure (Nat.le_refl _)) value

end Lists

section References

lemma index : Pays g 0 (fun _ => 16) Grammar.index :=
  ite _ rfl (pure (Nat.le_refl _)) <| natural.first fun _ => (demand _ rfl).first fun _ =>
    pure (by decide)

/-- A tree that is referred to costs no more than a byte of its index. -/
lemma reference : Buys g 0 0 (Grammar.index >>= Grammar.recalled) := by
  intro limit s hlimit hs hfunded
  have hcosts := index limit s hlimit hs hfunded
  rw [Parser.bind_apply]
  cases hindex : Grammar.index limit s with
  | refused s' =>
    rw [hindex] at hcosts
    exact hcosts
  | stopped why => trivial
  | found position s' =>
    rw [hindex] at hcosts
    have hfollows := hcosts.1
    have htop : position ≤ g.top := by
      have hlow := le_of_index hindex
      omega
    have hshorter : s'.unread.length + 1 ≤ s.unread.length := Settles.index.shorter hindex
    dsimp only
    unfold Grammar.recalled
    split
    · next node hnode =>
      refine ⟨hfollows, fun price hprice => ?_⟩
      replace hnode : s'.recorded[position]? = some node := hnode
      have hlength := (List.getElem?_eq_some_iff.1 hnode).1
      have hsize : node.size ≤ Grammar.price g.bytes g.top position.succ :=
        hfollows.fair position node hnode htop
      have hrecorded : _ ≤ Grammar.price g.bytes g.top s'.recorded.length :=
        price_mono g.bytes g.top (Nat.succ_le_of_lt hlength)
      have hfloor := g.covers s'.recorded.length
      have hbytes := Nat.mul_le_mul_left price hshorter
      rw [Nat.mul_succ] at hbytes
      show node.size + _ ≤ _
      omega
    · exact hfollows

lemma substitution : Buys g 0 0 Grammar.substitution := by
  refine unlessEnd <| ite _ rfl (pure (by decide)) <| ite _ rfl (pure (by decide)) <|
    onLetter fun c => ?_
  cases htype : standardType? c with
  | none => exact .inl reference
  | some type =>
    have hsize : (stdlibType type.1 type.2).size = 3 := rfl
    exact .inr ⟨ne_dot_of_lookup htype rfl, _, rfl, pure (by omega)⟩

end References

end Pays

end SwiftMangling.Grammar
