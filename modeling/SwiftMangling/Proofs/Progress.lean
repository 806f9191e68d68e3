import SwiftMangling.Proofs.GrammarSteady
import SwiftMangling.Proofs.ReadingOrder

/-!
# Every loop of the grammar comes to an end

No loop of the grammar checks that it gets on. It ends all the same, because what it reads in a round
takes at least one byte and nothing gives a byte back. So it makes no more rounds than there are bytes
left, and the bound that is put on its rounds is never met.
-/

namespace SwiftMangling.Grammar

variable {α β : Type}

section Orders

/-- What is left is the end of what there was, and what was recorded still stands before what has been
recorded since. -/
structure Onward (s s' : State) : Prop where
  unread : s'.unread <:+ s.unread
  recorded : s.recorded <+: s'.recorded

lemma Onward.refl (s : State) : Onward s s :=
  ⟨List.suffix_rfl, List.prefix_rfl⟩

lemma Onward.trans {s s₁ s₂ : State} (h : Onward s s₁) (h' : Onward s₁ s₂) : Onward s s₂ :=
  ⟨h'.unread.trans h.unread, h.recorded.trans h'.recorded⟩

lemma readingOrder_onward : ReadingOrder Onward where
  refl := Onward.refl
  trans := Onward.trans
  take _ hrest := ⟨hrest, List.prefix_rfl⟩
  record _ _ _ _ := ⟨List.suffix_rfl, List.prefix_append ..⟩

lemma readingOrder_unread : ReadingOrder fun s s' => s'.unread <:+ s.unread where
  refl _ := List.suffix_rfl
  trans h h' := h'.trans h
  take _ hrest := hrest
  record _ _ _ _ := List.suffix_rfl

/-- A parser after which nothing is lost but the bytes that it took. -/
abbrev KeepsOnward (p : Parser α) : Prop :=
  Related (KeepsTo Onward) p p

lemma KeepsOnward.found {p : Parser α} (hp : KeepsOnward p) {limit : Int} {s s' : State} {value : α}
    (h : p limit s = .found value s') : Onward s s' :=
  hp limit s s' (by rw [h]; rfl)

lemma Rule.keepsOnward {budget : Nat} {p : Parser α} (hp : Rule (parse budget) p) : KeepsOnward p :=
  hp.related (ReadingOrder.tolerant readingOrder_onward) (ReadingOrder.parse readingOrder_onward budget)

end Orders

section Elements

variable {call : Calls}

/-- A parser that takes at least one byte for what it finds. -/
def Advances (p : Parser α) : Prop :=
  ∀ limit s value s', p limit s = .found value s' → s'.unread.length < s.unread.length

lemma Steady.advances {condition : α → Prop} {least ahead : α → Nat} {p : Parser α}
    (hp : Steady condition least ahead p) (hleast : ∀ value, 1 ≤ least value) : Advances p := by
  intro limit s value s' h
  have hshorter := hp.shorter h
  have htaken := hleast value
  omega

lemma Advances.bind {p : Parser α} {f : α → Parser β} (hp : Advances p)
    (hf : ∀ value, KeepsOnward (f value)) : Advances (p >>= f) := by
  intro limit s result s' h
  obtain ⟨value, s₁, hfirst, hsecond⟩ := Parser.bind_found h
  exact ((hf value).found hsecond).unread.length_le.trans_lt (hp limit s value s₁ hfirst)

lemma Advances.addItem {p : Parser α} (hp : Advances p) (earlier : List α) :
    Advances (addItem p earlier) := by
  have hR := ReadingOrder.sequencing readingOrder_onward
  exact hp.bind fun _ => hR.pure _

/-- A member type of a base that is not yet a type. -/
def member (call : Calls) (base : Node) : Parser Node := do
  let base ← branch .type [base]
  memberType call base

/-- What became of the parameter after others. -/
def changedParam (call : Calls) (earlier : List Node) : Parser Node := do
  let changes ← paramChange call
  numbered .functionSignatureSpecializationParam earlier.length (changes.map some)

/-- The rules that never find something without a byte: the productions, the names and references, and
what a loop reads in a round. -/
inductive Element (call : Calls) : {α : Type} → Parser α → Prop
  | production (production : Production) : Element call (call production)
  | declName : Element call declName
  | substitution : Element call substitution
  | protocol : Element call (protocol call)
  | protocolType : Element call (protocolType call)
  | genericParamIndex : Element call genericParamIndex
  | paramCount : Element call paramCount
  | requirement : Element call (requirement call)
  | conformance : Element call (conformance call)
  | argument : Element call (argument call)
  | member (base : Node) : Element call (member call base)
  | tupleElement : Element call (tupleElement call)
  | boxField : Element call (boxField call)
  | parameter : Element call (parameter call)
  | result (earlier : List Node) : Element call (result call earlier)
  | genericParamNode : Element call (genericParamNode call)
  | paramChange : Element call (paramChange call)
  | changedParam (earlier : List Node) : Element call (changedParam call earlier)
  | specialization : Element call (specialization call)

lemma advances_production (h : Settled call) (production : Production) : Advances (call production) := by
  cases production with
  | type => exact h.type.advances fun _ => Nat.le_refl 1
  | bareType => exact h.bareType.advances fun _ => Nat.le_refl 1
  | context => exact h.context.advances fun _ => Nat.le_refl 1
  | entity => exact h.entity.advances fun _ => Nat.le_succ 1
  | global => exact h.global.advances fun _ => Nat.le_succ 1
  | archetype => exact h.archetype.advances fun _ => Nat.le_refl 1
  | boundArguments nominal => exact (h.boundArguments nominal).advances fun _ => Nat.le_refl 1
  | signature pseudogeneric => exact (h.signature pseudogeneric).advances fun _ => Nat.le_refl 1
  | implFunction => exact h.implFunction.advances fun _ => Nat.le_refl 1

lemma advances_paramChange (h : Settled call) : Advances (paramChange call) :=
  (steady_paramChange h).advances fun _ => Nat.le_succ 1

/-- What an element is found in is not empty. -/
lemma Element.advances (h : Settled call) {p : Parser α} (hp : Element call p) : Advances p := by
  cases hp with
  | production production => exact advances_production h production
  | declName => exact Steady.advances Settles.declName fun _ => Nat.le_succ 1
  | substitution => exact Steady.advances Settles.substitution fun _ => Nat.le_refl 1
  | protocol => exact (Settles.protocol h).advances fun _ => Nat.le_succ 1
  | protocolType => exact (Settles.protocolType h).advances fun _ => Nat.le_succ 1
  | genericParamIndex => exact Steady.advances Settles.genericParamIndex fun _ => Nat.le_refl 1
  | paramCount => exact Steady.advances Settles.paramCount fun _ => Nat.le_refl 1
  | requirement => exact (Settles.requirement h).advances fun _ => Nat.le_succ 1
  | conformance => exact (Settles.conformance h).advances fun _ => Nat.succ_pos 3
  | argument => exact (Settles.argument h).advances fun _ => Nat.le_refl 1
  | member base =>
    have hmember : Settles 2 0 (Grammar.member call base) :=
      (Settles.branch .type [base]).bind fun base => Settles.memberType h base
    exact hmember.advances fun _ => Nat.le_succ 1
  | tupleElement => exact (Settles.tupleElement h).advances fun _ => Nat.le_refl 1
  | boxField => exact (Settles.boxField h).advances fun _ => Nat.le_succ 1
  | parameter => exact (Settles.parameter h).advances fun _ => Nat.le_succ 1
  | result earlier => exact (Settles.result h earlier).advances fun _ => Nat.le_succ 1
  | genericParamNode => exact (settles_genericParamNode h).advances fun _ => Nat.le_succ 1
  | paramChange => exact advances_paramChange h
  | changedParam earlier =>
    have hR := ReadingOrder.tolerant readingOrder_onward
    exact (advances_paramChange h).bind fun _ => hR.numbered _ _ _
  | specialization => exact (steady_specialization h).advances fun _ => Nat.succ_pos 2

end Elements

section Rounds

/-- A loop from a value on, with no bound on its rounds, and how often it goes through one. The round in
which the loop ends counts for `last`, which is 0 where that round only sees that it is to end. A round
that is refused or stopped is not gone through; it is the last one. -/
inductive Repeats (step : α → Parser (Round α β)) (limit : Int) (last : Nat) :
    Nat → α → State → Outcome β → Prop
  | done {value : α} {s s' : State} {result : β} (h : step value limit s = .found (.done result) s') :
    Repeats step limit last last value s (.found result s')
  | refused {value : α} {s s' : State} (h : step value limit s = .refused s') :
    Repeats step limit last 0 value s (.refused s')
  | stopped {value : α} {s : State} {why : Stop} (h : step value limit s = .stopped why) :
    Repeats step limit last 0 value s (.stopped why)
  | again {value value' : α} {s s₁ : State} {count : Nat} {o : Outcome β}
    (h : step value limit s = .found (.again value') s₁)
    (hrest : Repeats step limit last count value' s₁ o) :
    Repeats step limit last (count + 1) value s o

/-- A loop comes to its outcome after at most as many rounds as there are bytes left. -/
def EndsInTime (p : Parser β) (step : α → Parser (Round α β)) (start : α) (last : Nat) : Prop :=
  ∀ limit s, ∃ count ≤ s.unread.length, ∀ count' o,
    Repeats step limit last count' start s o ↔ count' = count ∧ o = p limit s

/-- Each round takes a byte if the loop goes on, and so many bytes if the loop ends. -/
def RoundsTake (last : Nat) (step : α → Parser (Round α β)) : Prop :=
  ∀ value limit s round s', step value limit s = .found round s' →
    s'.unread.length + perRound 1 last round ≤ s.unread.length

variable {step : α → Parser (Round α β)} {limit : Int} {last : Nat}

/-- From one value and state a loop goes in one way only. -/
lemma Repeats.unique {count count' : Nat} {value : α} {s : State} {o o' : Outcome β}
    (h : Repeats step limit last count value s o) (h' : Repeats step limit last count' value s o') :
    count' = count ∧ o' = o := by
  induction h generalizing count' with
  | done hround =>
    cases h' with
    | done hround' => cases hround.symm.trans hround'; exact ⟨rfl, rfl⟩
    | refused hround' => cases hround.symm.trans hround'
    | stopped hround' => cases hround.symm.trans hround'
    | again hround' hrest' => cases hround.symm.trans hround'
  | refused hround =>
    cases h' with
    | done hround' => cases hround.symm.trans hround'
    | refused hround' => cases hround.symm.trans hround'; exact ⟨rfl, rfl⟩
    | stopped hround' => cases hround.symm.trans hround'
    | again hround' hrest' => cases hround.symm.trans hround'
  | stopped hround =>
    cases h' with
    | done hround' => cases hround.symm.trans hround'
    | refused hround' => cases hround.symm.trans hround'
    | stopped hround' => cases hround.symm.trans hround'; exact ⟨rfl, rfl⟩
    | again hround' hrest' => cases hround.symm.trans hround'
  | again hround hrest ih =>
    cases h' with
    | done hround' => cases hround.symm.trans hround'
    | refused hround' => cases hround.symm.trans hround'
    | stopped hround' => cases hround.symm.trans hround'
    | again hround' hrest' =>
      cases hround.symm.trans hround'
      obtain ⟨rfl, rfl⟩ := ih hrest'
      exact ⟨rfl, rfl⟩

/-- With more rounds allowed than there are bytes left, none is missing. -/
lemma RoundsTake.repeats (hstep : RoundsTake last step) (limit : Int) {bound : Nat} (value : α)
    {s : State} (hbound : s.unread.length < bound) :
    ∃ count ≤ s.unread.length,
      Repeats step limit last count value s (rounds step bound value limit s) := by
  induction bound generalizing value s with
  | zero => omega
  | succ bound ih =>
    rw [rounds, Parser.bind_apply]
    cases hround : step value limit s with
    | found round s₁ =>
      have htaken := hstep value limit s round s₁ hround
      cases round with
      | done result => exact ⟨last, (Nat.le_add_left ..).trans htaken, .done hround⟩
      | again value' =>
        have hshorter : s₁.unread.length < s.unread.length := htaken
        have hleft : s₁.unread.length < bound := by omega
        obtain ⟨count, hcount, hrest⟩ := ih value' hleft
        exact ⟨count + 1, by omega, .again hround hrest⟩
    | refused s₁ => exact ⟨0, Nat.zero_le _, .refused hround⟩
    | stopped why => exact ⟨0, Nat.zero_le _, .stopped hround⟩

lemma RoundsTake.endsInTime (hstep : RoundsTake last step) (start : α) :
    EndsInTime (iterate step start) step start last := by
  intro limit s
  obtain ⟨count, hcount, hrun⟩ := hstep.repeats limit start (Nat.lt_succ_self s.unread.length)
  refine ⟨count, hcount, fun count' o => ⟨hrun.unique, ?_⟩⟩
  rintro ⟨rfl, rfl⟩
  exact hrun

lemma roundsTake_of_steady {condition : Round α β → Prop} {least : Nat} {ahead : Round α β → Nat}
    (hstep : ∀ value, Steady condition (perRound 1 least) ahead (step value)) (hlast : last ≤ least) :
    RoundsTake last step := by
  intro value limit s round s' h
  have hshorter := (hstep value).shorter h
  cases round with
  | again _ => exact hshorter
  | done _ => exact (Nat.add_le_add_left hlast _).trans hshorter

lemma roundsTake_roundUntil {stop : Parser Bool} (hstop : OnlyTakes stop) (result : α → β)
    {step : α → Parser α} (hstep : ∀ value, Advances (step value)) :
    RoundsTake 0 fun value => roundUntil stop (result value) (step value) := by
  intro value limit s round s' h
  obtain ⟨stopped, s₁, hstopped, h⟩ := Parser.bind_found h
  have hle : s₁.unread.length ≤ s.unread.length :=
    (hstop limit s s₁ (by rw [hstopped]; rfl)).1.length_le
  cases stopped with
  | true =>
    cases h
    exact hle
  | false =>
    obtain ⟨value', s₂, hvalue, h⟩ := Parser.bind_found h
    cases h
    exact (hstep value limit s₁ value' s' hvalue).trans_le hle

lemma roundsTake_listRound {stop : Parser Bool} (hstop : OnlyTakes stop) {item : List α → Parser α}
    (hitem : ∀ earlier, Advances (item earlier)) : RoundsTake 0 (listRound stop item) := by
  rw [funext (listRound_eq stop item)]
  exact roundsTake_roundUntil hstop _ fun earlier => (hitem earlier).addItem earlier

end Rounds

section Loops

variable {call : Calls}

/-- Whether the next character ends a loop, which leaves it. -/
def comesNext (ends : Char → Bool) : Parser Bool := do
  let c ← peek
  pure (ends c)

lemma onlyTakes_comesNext (ends : Char → Bool) : OnlyTakes (comesNext ends) := by
  rintro limit ⟨bytes, table⟩ s' hs'
  cases bytes with
  | nil =>
    cases hs'
    exact ⟨List.suffix_rfl, rfl⟩
  | cons b bytes =>
    cases hs'
    exact ⟨List.suffix_rfl, rfl⟩

/-- The loops that make a list, with the parser that ends each of them and the one of its items: generic
arguments, protocols, the counts of a signature and its requirements, the elements of a tuple, the
fields and the arguments of a box, the parameters and the results of a lowered function, the
conformances of a specialized type, the specialized types, and the parameters of a specialized
function. -/
inductive ListLoop (call : Calls) : {α : Type} → Parser Bool → (List α → Parser α) → Prop
  | arguments : ListLoop call (accept "_") fun _ => argument call
  | protocols : ListLoop call (accept "_") fun _ => protocolType call
  | counts : ListLoop call (comesNext fun c => c = 'R' || c = 'r') fun _ => paramCount
  | requirements : ListLoop call (accept "r") fun _ => requirement call
  | tupleElements : ListLoop call (accept "_") fun _ => tupleElement call
  | boxFields : ListLoop call (accept "_") fun _ => boxField call
  | boxArguments : ListLoop call (accept "_") fun _ => call .type
  | parameters : ListLoop call (accept "_") fun _ => parameter call
  | results : ListLoop call (accept "_") (result call)
  | conformances : ListLoop call (accept "_") fun _ => conformance call
  | specializedTypes : ListLoop call (accept "_") fun _ => genericParamNode call
  | changedParams : ListLoop call (accept "_") (changedParam call)

/-- The loops of the grammar, each with its rounds, the value that it begins with, and what the round
counts for in which it ends. Only the loop of the specializations of a symbol ends after it has read
something in that round. -/
inductive Loop (call : Calls) :
    {α β : Type} → Parser β → (α → Parser (Round α β)) → α → Nat → Prop
  | list {α : Type} {stop : Parser Bool} {item : List α → Parser α} (h : ListLoop call stop item) :
    Loop call (gather stop item) (listRound stop item) [] 0
  | members (param : Node) :
    Loop call (foldUntil (accept "_") (member call) param)
      (fun base => roundUntil (accept "_") base (member call base)) param 0
  | closureTypes :
    Loop call (gatherFound (comesNext fun c => c = '_') (call .type))
      (roundFound (comesNext fun c => c = '_') (call .type)) [] 0
  | specializations : Loop call (specializations call) (specializationRound call) [] 1

-- The rules in which the parts stand that have got names here.

example : argumentList call = gather (accept "_") fun _ => argument call := rfl

example : signatureParams call = gather (accept "_") (changedParam call) := rfl

example : compoundMemberType call = (do
    let param ← genericParamIndex
    foldUntil (accept "_") (member call) param) := rfl

example : paramCounts = (do
    let counts ← gather (comesNext fun c => c = 'R' || c = 'r') fun _ => paramCount
    pure (if counts.isEmpty then [1] else counts)) := rfl

example : closureChange call = (do
    let name ← identifier
    let payload ← payloadNode name.text?
    let types ← gatherFound (comesNext fun c => c = '_') (call .type)
    demand "_"
    pure (change .closure :: payload :: types)) := rfl

lemma ListLoop.onlyTakes {stop : Parser Bool} {item : List α → Parser α}
    (hloop : ListLoop call stop item) : OnlyTakes stop := by
  cases hloop with
  | counts => exact onlyTakes_comesNext _
  | _ => exact onlyTakes_accept _

lemma ListLoop.element {stop : Parser Bool} {item : List α → Parser α}
    (hloop : ListLoop call stop item) (earlier : List α) : Element call (item earlier) := by
  cases hloop with
  | arguments => exact .argument
  | protocols => exact .protocolType
  | counts => exact .paramCount
  | requirements => exact .requirement
  | tupleElements => exact .tupleElement
  | boxFields => exact .boxField
  | boxArguments => exact .production .type
  | parameters => exact .parameter
  | results => exact .result earlier
  | conformances => exact .conformance
  | specializedTypes => exact .genericParamNode
  | changedParams => exact .changedParam earlier

/-- A loop ends because its rounds take bytes. -/
lemma Loop.endsInTime (h : Settled call) {p : Parser β} {step : α → Parser (Round α β)} {start : α}
    {last : Nat} (hloop : Loop call p step start last) : EndsInTime p step start last := by
  cases hloop with
  | list hlist =>
    have hitem := fun earlier => (hlist.element earlier).advances h
    exact RoundsTake.endsInTime (roundsTake_listRound hlist.onlyTakes hitem) []
  | members param =>
    have hmember : ∀ base, Advances (member call base) := fun base => (Element.member base).advances h
    exact RoundsTake.endsInTime (roundsTake_roundUntil (onlyTakes_accept _) _ hmember) param
  | closureTypes =>
    have hstop : Settles 0 1 (comesNext fun c => c = '_') :=
      Settles.bind Settles.peek fun _ => Settles.pureAhead 1 _
    exact RoundsTake.endsInTime
      (roundsTake_of_steady (steady_roundFound hstop h.type) (Nat.le_refl 0)) []
  | specializations =>
    exact RoundsTake.endsInTime
      (roundsTake_of_steady (steady_specializationRound h) (Nat.succ_pos 2)) []

end Loops

section Blocks

variable {call : Calls} {limit : Int} {s s₁ s₂ s' : State}

/-- How the state changes while a whole symbol is read. The symbol may begin with blocks of
specializations. After each of them nothing is recorded any more, and in all else reading goes
onward. -/
inductive Blockwise (call : Calls) (limit : Int) : State → State → Prop
  | onward {s s' : State} (h : Onward s s') : Blockwise call limit s s'
  | block {s s₁ s₂ s' : State} {node : Node} (hmark : accept "_TTS" limit s = .found true s₁)
    (hblock : specialization call limit s₁ = .found node s₂)
    (hrest : Blockwise call limit { s₂ with recorded := [] } s') : Blockwise call limit s s'

lemma Blockwise.trans (h : Blockwise call limit s s₁) (h' : Onward s₁ s') :
    Blockwise call limit s s' := by
  induction h with
  | onward h => exact .onward (h.trans h')
  | block hmark hblock _ ih => exact .block hmark hblock (ih h')

lemma of_accept_true {mark : Text} (h : accept mark limit s = .found true s') :
    ∃ front : Bytes, front.map UInt8.toNat = mark.map Fin.val ∧
      s = ⟨front ++ s'.unread, s'.recorded⟩ := by
  unfold accept at h
  split at h
  · next rest hstrip =>
    cases h
    obtain ⟨front, hfront, hunread⟩ := Bytes.stripMark?_append hstrip
    exact ⟨front, hfront, by rw [hunread]⟩
  · cases h

/-- Two marks that are taken one after the other are taken as one. -/
lemma accept_join {mark mark' : Text} (h : accept mark limit s = .found true s₁)
    (h' : accept mark' limit s₁ = .found true s₂) :
    accept (mark ++ mark') limit s = .found true s₂ := by
  obtain ⟨front, hfront, rfl⟩ := of_accept_true h
  obtain ⟨front', hfront', rfl⟩ := of_accept_true h'
  have hboth : (front ++ front').map UInt8.toNat = (mark ++ mark').map Fin.val := by
    rw [List.map_append, List.map_append, hfront, hfront']
  rw [← List.append_assoc]
  exact accept_append hboth s₂.unread s₂.recorded limit

lemma keepsOnward_accept (mark : Text) : KeepsOnward (accept mark) :=
  (onlyTakes_accept mark).keepsTo readingOrder_onward

/-- After a specialization nothing is recorded, and another one follows its mark. -/
lemma specializationRound_of_found {node : Node} (h : specialization call limit s = .found node s₁)
    (earlier : List Node) :
    (∃ s₂, accept "_TTS" limit { s₁ with recorded := [] } = .found true s₂ ∧
      specializationRound call earlier limit s = .found (.again (node :: earlier)) s₂) ∨
    specializationRound call earlier limit s =
      .found (.done (node :: earlier).reverse) { s₁ with recorded := [] } := by
  have hround : specializationRound call earlier limit s = (do
      if ← accept "_TTS" then pure (.again (node :: earlier))
      else pure (.done (node :: earlier).reverse) : Parser (Round (List Node) (List Node))) limit
        { s₁ with recorded := [] } := by
    rw [specializationRound, Parser.bind_apply, h]
    rfl
  rw [hround, Parser.bind_apply]
  obtain ⟨rest, hmark⟩ | hmark := accept_cases "_TTS" limit { s₁ with recorded := [] }
  · exact .inl ⟨_, hmark, by rw [hmark]; rfl⟩
  · exact .inr (by rw [hmark]; rfl)

/-- The blocks are read in rounds, of which each one begins after a mark. -/
lemma blockwise_rounds (hkeeps : KeepsOnward (specialization call)) {bound : Nat} {earlier : List Node}
    (hmark : accept "_TTS" limit s = .found true s₁)
    (h : (rounds (specializationRound call) bound earlier limit s₁).state? = some s') :
    Blockwise call limit s s' := by
  induction bound generalizing earlier s s₁ with
  | zero =>
    cases h
    exact .onward ((keepsOnward_accept _).found hmark)
  | succ bound ih =>
    rw [rounds, Parser.bind_apply] at h
    cases hblock : specialization call limit s₁ with
    | found node s₂ =>
      obtain ⟨s₃, hnext, hround⟩ | hround := specializationRound_of_found hblock earlier
      · rw [hround] at h
        exact .block hmark hblock (ih hnext h)
      · rw [hround] at h
        cases h
        exact .block hmark hblock (.onward (Onward.refl _))
    | refused s₂ =>
      have hrefused : Onward s₁ s₂ := hkeeps limit s₁ s₂ (by rw [hblock]; rfl)
      rw [specializationRound, Parser.bind_apply, hblock] at h
      cases h
      exact .onward (((keepsOnward_accept _).found hmark).trans hrefused)
    | stopped why =>
      rw [specializationRound, Parser.bind_apply, hblock] at h
      cases h

lemma blockwise_symbolPrelude (hkeeps : KeepsOnward (specialization call))
    (hmark : accept "_T" limit s = .found true s₁)
    (h : (symbolPrelude call limit s₁).state? = some s') : Blockwise call limit s s' := by
  have hR := ReadingOrder.tolerant readingOrder_onward
  have hstart : Onward s s₁ := (keepsOnward_accept _).found hmark
  obtain hrefused | ⟨found, s₂, hfound, h⟩ := state?_bind h
  · exact absurd hrefused (accept_ne_refused _ _ _ _)
  cases found with
  | true =>
    have hblocks : accept "_TTS" limit s = .found true s₂ := accept_join hmark hfound
    obtain hrefused | ⟨nodes, s₃, hnodes, h⟩ := state?_bind h
    · exact blockwise_rounds hkeeps hblocks (congrArg Outcome.state? hrefused)
    · have hrest : KeepsOnward (do demand "_T"; pure nodes) := hR.bind (hR.demand _) fun _ => hR.pure _
      exact (blockwise_rounds hkeeps hblocks (congrArg Outcome.state? hnodes)).trans
        (hrest limit s₃ s' h)
  | false =>
    have hrest : Onward s₂ s' := hR.symbolAttributes limit s₂ s' h
    have hmiddle : Onward s₁ s₂ := (keepsOnward_accept _).found hfound
    exact .onward (hstart.trans (hmiddle.trans hrest))

lemma of_demand_found {mark : Text} (h : demand mark limit s = .found () s') :
    accept mark limit s = .found true s' := by
  obtain ⟨found, s₁, hfound, h⟩ := Parser.bind_found h
  cases found with
  | true =>
    cases h
    exact hfound
  | false => cases h

lemma blockwise_symbol {budget : Nat} (h : (symbol (parse budget) limit s).state? = some s') :
    Blockwise (parse budget) limit s s' := by
  have hR := ReadingOrder.tolerant readingOrder_onward
  have hspecialization : KeepsOnward (specialization (parse budget)) := Rule.specialization.keepsOnward
  obtain hrefused | ⟨_, s₁, hdemand, h⟩ := state?_bind h
  · exact .onward (hR.demand _ limit s s' (congrArg Outcome.state? hrefused))
  have hmark := of_demand_found hdemand
  obtain hrefused | ⟨nodes, s₂, hnodes, h⟩ := state?_bind h
  · exact blockwise_symbolPrelude hspecialization hmark (congrArg Outcome.state? hrefused)
  have hglobal : KeepsOnward (parse budget .global) := Rule.keepsOnward (.production .global)
  have hrest : KeepsOnward (do
      let body ← parse budget .global
      let suffix ← trailing
      branch .global ((nodes ++ body :: suffix).map some)) :=
    hR.bind hglobal fun body => hR.bind hR.trailing fun suffix =>
      hR.branch .global (nodes ++ body :: suffix)
  exact (blockwise_symbolPrelude hspecialization hmark (congrArg Outcome.state? hnodes)).trans
    (hrest limit s₂ s' h)

end Blocks

/-- Reading goes on and comes to an end, from every state and under every limit for numbers. -/
structure GoesOn (call : Calls) : Prop where
  /-- No rule goes back in the bytes or past their end, or removes or changes what is recorded. This
  holds where the rule is refused as well. -/
  rules : ∀ {α : Type} {p : Parser α}, Rule call p →
    ∀ limit s s', (p limit s).state? = some s' → Onward s s'
  /-- Nor does a whole symbol, but that each of the specializations at its beginning has recorded nodes of
  its own. -/
  symbol : ∀ limit s s', (symbol call limit s).state? = some s' →
    s'.unread <:+ s.unread ∧ Blockwise call limit s s'
  /-- What an element is found in is not empty. -/
  elements : ∀ {α : Type} {p : Parser α}, Element call p → Advances p
  /-- A loop goes through at most as many rounds as there are bytes left, and then it has the outcome that
  it has with no bound on its rounds. -/
  loops : ∀ {α β : Type} {p : Parser β} {step : α → Parser (Round α β)} {start : α} {last : Nat},
    Loop call p step start last → EndsInTime p step start last

/-- Within any budget, reading takes bytes from the front only, records behind what is recorded, and
takes at least one byte for each element, so that no loop goes through more rounds than there are bytes
left. -/
theorem goesOn_parse (budget : Nat) : GoesOn (parse budget) where
  rules hrule := hrule.keepsOnward
  symbol limit s s' h :=
    have hR := ReadingOrder.symbolCongruence readingOrder_unread fun _ => List.suffix_rfl
    ⟨hR.symbol (ReadingOrder.parse readingOrder_unread budget) limit s s' h, blockwise_symbol h⟩
  elements helement := helement.advances (settled_parse budget)
  loops hloop := hloop.endsInTime (settled_parse budget)

end SwiftMangling.Grammar
