import SwiftMangling.Proofs.SteadyParts

/-!
# Reading where more bytes follow

Bytes put after a name may change what a parser comes to only if it has read up to the end of the
name. As long as an underscore is left unread this has not happened: no mark reaches beyond an
underscore, and a number ends before one. A parser is firm if it then finds the same value, and
refuses at the same place unless the refusal was about a length. A length is read against all the
bytes that there are, so that the same length may be too large before more bytes follow and small
enough afterwards.
-/

namespace SwiftMangling.Grammar

variable {α β : Type}

/-- A length is cut short: it reaches beyond what is left, but not beyond the bytes that follow. -/
def CutShort (digits rest more : Bytes) : Prop :=
  digits ≠ [] ∧ (∀ b ∈ digits, Bytes.isDigit b) ∧ rest.length < Decimal.value digits ∧
    Decimal.value digits ≤ rest.length + more.length

instance (digits rest more : Bytes) : Decidable (CutShort digits rest more) :=
  inferInstanceAs (Decidable (_ ∧ _ ∧ _ ∧ _))

/-- Right before what is left stands a length that is cut short. -/
def Overruns (bytes rest more : Bytes) : Prop :=
  ∃ digits, digits ++ rest <:+ bytes ∧ CutShort digits rest more

/-- As long as an underscore is left unread, a parser comes to the same where more bytes follow, unless
it is refused for a length that these bytes make good. -/
structure Firm (more : Bytes) (p : Parser α) : Prop where
  found : ∀ {limit : Int} {bytes rest : Bytes} {table table' : References Node} {value : α},
    p limit ⟨bytes, table⟩ = .found value ⟨rest, table'⟩ →
    rest <:+ bytes ∧ (0x5F ∈ rest →
      p limit ⟨bytes ++ more, table⟩ = .found value ⟨rest ++ more, table'⟩)
  refused : ∀ {limit : Int} {bytes rest : Bytes} {table table' : References Node},
    p limit ⟨bytes, table⟩ = .refused ⟨rest, table'⟩ →
    rest <:+ bytes ∧ (0x5F ∈ rest →
      p limit ⟨bytes ++ more, table⟩ = .refused ⟨rest ++ more, table'⟩ ∨ Overruns bytes rest more)

/-- No underscore stands in a mark but at its end. -/
def reachesNoFurther (mark : Text) : Bool :=
  (mark.map Fin.val).dropLast.all (· != 0x5F)

variable {more : Bytes}

lemma Overruns.of_suffix {bytes middle rest : Bytes} (h : Overruns middle rest more)
    (hmiddle : middle <:+ bytes) : Overruns bytes rest more := by
  obtain ⟨digits, hsuffix, hshort⟩ := h
  exact ⟨digits, hsuffix.trans hmiddle, hshort⟩

/-- A run of digits that does not end the name is the same where more bytes follow. -/
lemma spanDigits_append_more {bytes digits rest : Bytes} (hspan : Bytes.spanDigits bytes = (digits, rest))
    (hrest : rest ≠ []) (more : Bytes) :
    Bytes.spanDigits (bytes ++ more) = (digits, rest ++ more) := by
  have happend := Bytes.spanDigits_append bytes
  have hdigits : ∀ b ∈ digits, Bytes.isDigit b := fun b hb =>
    Bytes.isDigit_of_mem_spanDigits (by rw [hspan]; exact hb)
  obtain ⟨b, left, rfl⟩ := List.exists_cons_of_ne_nil hrest
  have hb : ¬Bytes.isDigit b := Bytes.not_isDigit_of_spanDigits (by rw [hspan])
  rw [hspan] at happend
  rw [← happend, List.append_assoc, List.cons_append]
  exact Bytes.spanDigits_append_cons hdigits hb (left ++ more)

/-- A mark that does not come next before an underscore does not do so where more bytes follow. -/
lemma stripMark?_append_more {mark : List Nat} (hmark : mark.dropLast.all (· != 0x5F)) {bytes : Bytes}
    (h : Bytes.stripMark? mark bytes = none) (hbytes : 0x5F ∈ bytes) (more : Bytes) :
    Bytes.stripMark? mark (bytes ++ more) = none := by
  cases hstrip : Bytes.stripMark? mark (bytes ++ more) with
  | none => rfl
  | some left =>
    obtain ⟨front, hfront, happend⟩ := Bytes.stripMark?_append hstrip
    obtain ⟨between, rfl, -⟩ | ⟨between, rfl, hmore⟩ := List.append_eq_append_iff.1 happend
    · exact absurd h (stripMark?_ne_none hfront (List.prefix_append ..))
    -- The mark goes on behind the bytes, so that it has their underscore before its end.
    · cases between with
      | nil =>
        rw [List.append_nil] at hfront
        exact absurd h (stripMark?_ne_none hfront List.prefix_rfl)
      | cons b between =>
        have hlast : bytes.map UInt8.toNat <+: mark.dropLast := by
          rw [← hfront, List.map_append, List.dropLast_append_of_ne_nil (by simp)]
          exact List.prefix_append ..
        have hmem : 0x5F ∈ mark.dropLast := hlast.subset (List.mem_map_of_mem hbytes)
        exact absurd (List.all_eq_true.1 hmark _ hmem) (by decide)

namespace Firm

section Leaves

lemma of_ignoresBytes {p : Parser α} (hp : IgnoresBytes p) : Firm more p where
  found hfound := by
    obtain ⟨rfl, hsame⟩ := hp.found hfound
    exact ⟨List.suffix_rfl, fun _ => hsame _⟩
  refused hrefused := by
    obtain ⟨rfl, hsame⟩ := hp.refused hrefused
    exact ⟨List.suffix_rfl, fun _ => .inl (hsame _)⟩

lemma pure (value : α) : Firm more (Pure.pure value) :=
  of_ignoresBytes fun _ _ _ => rfl

lemma refuse : Firm more (Grammar.refuse : Parser α) :=
  of_ignoresBytes fun _ _ _ => rfl

lemma stop (why : Stop) : Firm more (Grammar.stop why : Parser α) :=
  of_ignoresBytes fun _ _ _ => rfl

lemma record (node : Node) : Firm more (Grammar.record node) :=
  of_ignoresBytes fun _ _ _ => rfl

lemma recalled (position : Nat) : Firm more (Grammar.recalled position) :=
  of_ignoresBytes (IgnoresBytes.recalled position)

/-- A parser that refuses nothing and looks no further than the next byte. -/
lemma of_settles {p : Parser α} {n : Nat} (hp : Settles n 1 p)
    (hrefused : ∀ limit s s', p limit s ≠ .refused s') : Firm more p where
  found hfound := by
    refine ⟨hp.suffix hfound, fun hrest => hp.longer hfound trivial ?_ more⟩
    exact List.length_pos_of_mem hrest
  refused h := absurd h (hrefused _ _ _)

lemma atEnd : Firm more Grammar.atEnd :=
  of_settles Settles.atEnd fun _ _ _ => nofun

lemma peek : Firm more Grammar.peek := by
  refine of_settles Settles.peek fun limit s s' h => ?_
  unfold Grammar.peek at h
  split at h <;> cases h

lemma next : Firm more Grammar.next where
  found {limit bytes rest table table' value} hfound := by
    cases bytes with
    | nil =>
      cases hfound
      exact ⟨List.suffix_rfl, fun hrest => absurd hrest List.not_mem_nil⟩
    | cons b bytes =>
      cases hfound
      exact ⟨List.suffix_cons .., fun _ => rfl⟩
  refused {limit bytes rest table table'} hrefused := by
    cases bytes with
    | nil => cases hrefused
    | cons b bytes => cases hrefused

lemma accept {mark : Text} (hmark : reachesNoFurther mark = true) : Firm more (Grammar.accept mark) where
  found {limit bytes rest table table' value} hfound := by
    refine ⟨(steady_accept mark).suffix hfound, fun hrest => ?_⟩
    cases value with
    | true => exact (steady_accept mark).longer hfound trivial (Nat.zero_le _) more
    | false =>
      cases eq_of_accept_false hfound
      unfold Grammar.accept at hfound ⊢
      cases hstrip : Bytes.stripMark? (mark.map Fin.val) bytes with
      | some left =>
        rw [hstrip] at hfound
        cases hfound
      | none => simp only [stripMark?_append_more hmark hstrip hrest more]
  refused hrefused := absurd hrefused (accept_ne_refused mark _ _ _)

lemma natural : Firm more Grammar.natural where
  found hfound := by
    refine ⟨Settles.natural.suffix hfound, fun hrest => ?_⟩
    exact Settles.natural.longer hfound trivial (List.length_pos_of_mem hrest) more
  refused {limit bytes rest table table'} hrefused := by
    cases hspan : Bytes.spanDigits bytes with
    | mk digits left =>
      have happend : digits ++ left = bytes := by
        rw [← Bytes.spanDigits_append bytes, hspan]
      have hmore : left ≠ [] → Bytes.spanDigits (bytes ++ more) = (digits, left ++ more) := fun hleft =>
        spanDigits_append_more hspan hleft more
      unfold Grammar.natural at hrefused ⊢
      rw [hspan] at hrefused
      cases digits with
      | nil =>
        cases hrefused
        rw [List.nil_append] at happend
        subst happend
        exact ⟨List.suffix_rfl, fun hrest => .inl (by rw [hmore (List.ne_nil_of_mem hrest)])⟩
      | cons digit digits =>
        cases hbounded : Decimal.bounded limit (digit :: digits) with
        | beyond =>
          simp only [hbounded] at hrefused
          cases hrefused
          refine ⟨⟨_, happend⟩, fun hrest => .inl ?_⟩
          simp only [hmore (List.ne_nil_of_mem hrest), hbounded]
        | within n => simp only [hbounded] at hrefused; cases hrefused
        | overlong => simp only [hbounded] at hrefused; cases hrefused
        | malformed => simp only [hbounded] at hrefused; cases hrefused

end Leaves

section Sequences

variable {p q : Parser α} {f : α → Parser β}

lemma bind (hp : Firm more p) (hf : ∀ value, Firm more (f value)) : Firm more (p >>= f) where
  found hfound := by
    obtain ⟨value, ⟨middle, table₁⟩, hfirst, hsecond⟩ := Parser.bind_found hfound
    obtain ⟨hmiddle, hsame⟩ := hp.found hfirst
    obtain ⟨hrest, hsame₂⟩ := (hf value).found hsecond
    refine ⟨hrest.trans hmiddle, fun hmem => ?_⟩
    rw [Parser.bind_apply, hsame (hrest.subset hmem)]
    exact hsame₂ hmem
  refused hrefused := by
    obtain hfirst | ⟨value, ⟨middle, table₁⟩, hfirst, hsecond⟩ := Parser.bind_refused hrefused
    · obtain ⟨hrest, hsame⟩ := hp.refused hfirst
      refine ⟨hrest, fun hmem => (hsame hmem).imp_left fun hmore => ?_⟩
      rw [Parser.bind_apply, hmore]
    · obtain ⟨hmiddle, hsame⟩ := hp.found hfirst
      obtain ⟨hrest, hsame₂⟩ := (hf value).refused hsecond
      refine ⟨hrest.trans hmiddle, fun hmem => (hsame₂ hmem).imp (fun hmore => ?_) ?_⟩
      · rw [Parser.bind_apply, hsame (hrest.subset hmem)]
        exact hmore
      · exact fun hoverruns => hoverruns.of_suffix hmiddle

/-- A length with the bytes that it counts: it is here that more bytes make a difference. -/
lemma counted : Firm more (Grammar.natural >>= advance) where
  found hfound := by
    have hsettles : Settles 1 1 (Grammar.natural >>= advance) :=
      (Settles.natural.bind fun length => (Settles.advance length).mono (n := 0) (k := 0)
        (decide_eq_true ⟨Nat.zero_le _, Nat.le_refl _⟩)).mono rfl
    refine ⟨hsettles.suffix hfound, fun hrest => ?_⟩
    exact hsettles.longer hfound trivial (List.length_pos_of_mem hrest) more
  refused {limit bytes rest table table'} hrefused := by
    obtain hlength | ⟨length, ⟨middle, table₁⟩, hlength, hbytes⟩ := Parser.bind_refused hrefused
    · obtain ⟨hrest, hsame⟩ := natural.refused hlength
      refine ⟨hrest, fun hmem => (hsame hmem).imp_left fun hmore => ?_⟩
      rw [Parser.bind_apply, hmore]
    · obtain ⟨digits, hne, hdigits, hvalue, hunread⟩ := natural_found hlength
      unfold advance at hbytes
      split at hbytes
      · cases hbytes
      · next hfew =>
        cases hbytes
        have hsuffix : digits ++ rest <:+ bytes := ⟨[], hunread.symm⟩
        refine ⟨(List.suffix_append ..).trans hsuffix, fun hmem => ?_⟩
        by_cases henough : length ≤ (rest ++ more).length
        · rw [List.length_append] at henough
          rw [← hvalue] at hfew henough
          exact .inr ⟨digits, hsuffix, hne, hdigits, Nat.not_le.1 hfew, henough⟩
        · have hnatural : Firm more Grammar.natural := natural
          have hlength' := (hnatural.found hlength).2 hmem
          refine .inl ?_
          simp only [Parser.bind_apply, hlength', advance, if_neg henough]

lemma afterCounted {f : Bytes → Parser α} (hf : ∀ bytes, Firm more (f bytes)) :
    Firm more (do let length ← Grammar.natural; let bytes ← advance length; f bytes) := by
  rw [← bind_assoc]
  exact counted.bind hf

lemma ite {mark : Text} (hmark : reachesNoFurther mark = true) (hp : Firm more p) (hq : Firm more q) :
    Firm more (do if ← Grammar.accept mark then p else q) := by
  refine (accept hmark).bind fun found => ?_
  cases found with
  | true => exact hp
  | false => exact hq

lemma unlessEnd (hp : Firm more p) :
    Firm more (do if ← Grammar.atEnd then Grammar.refuse else p) := by
  refine atEnd.bind fun ended => ?_
  cases ended with
  | true => exact refuse
  | false => exact hp

lemma orRefuse (value : Option α) : Firm more (Grammar.orRefuse value) := by
  cases value with
  | none => exact refuse
  | some value => exact pure value

lemma demand {mark : Text} (hmark : reachesNoFurther mark = true) : Firm more (Grammar.demand mark) :=
  ite hmark (pure ()) refuse

lemma afterMark {mark : Text} (hmark : reachesNoFurther mark = true) {p : Parser Node}
    (hp : Firm more p) : Firm more (Grammar.afterMark mark p) :=
  ite hmark (hp.bind fun _ => pure _) (pure _)

lemma index : Firm more Grammar.index :=
  ite rfl (pure _) (natural.bind fun _ => (demand rfl).bind fun _ => pure _)

lemma branch (kind : Kind) (children : List Node) :
    Firm more (Grammar.branch kind (children.map some)) := by
  rw [branch_map_some]
  exact pure _

lemma numbered (kind : Kind) (number : Int) (children : List Node) :
    Firm more (Grammar.numbered kind number (children.map some)) := by
  rw [numbered_map_some]
  exact pure _

lemma named (kind : Kind) (content : Text) : Firm more (Grammar.named kind content) :=
  pure _

lemma indexNode : Firm more Grammar.indexNode :=
  index.bind fun _ => numbered .number _ []

lemma builtinSize : Firm more Grammar.builtinSize :=
  natural.bind fun _ => (demand rfl).bind fun _ => pure _

lemma genericParamIndex : Firm more Grammar.genericParamIndex := by
  have hwritten : ∀ depth index, Firm more (writtenParam depth index) := by
    intro depth index
    unfold writtenParam
    split
    · exact pure _
    · exact stop _
  exact ite rfl (index.bind fun _ => index.bind fun _ => hwritten _ _) <|
    ite rfl (pure _) <| index.bind fun _ => pure _

end Sequences

section Loops

/-- Each round that is not the last takes a byte. -/
def Progresses (step : α → Parser (Round α β)) : Prop :=
  ∀ {value : α} {limit : Int} {s s' : State} {value' : α},
    step value limit s = .found (.again value') s' → s'.unread.length < s.unread.length

variable {step : α → Parser (Round α β)}

/-- The rounds of a loop are the same where more bytes follow, also if more rounds are allowed. -/
lemma rounds_found (hstep : ∀ value, Firm more (step value)) {count count' : Nat} (hle : count ≤ count')
    {value : α} {limit : Int} {bytes rest : Bytes} {table table' : References Node} {result : β}
    (h : rounds step count value limit ⟨bytes, table⟩ = .found result ⟨rest, table'⟩) :
    rest <:+ bytes ∧ (0x5F ∈ rest →
      rounds step count' value limit ⟨bytes ++ more, table⟩ = .found result ⟨rest ++ more, table'⟩) := by
  induction count generalizing count' value bytes table with
  | zero => cases h
  | succ count ih =>
    obtain ⟨count', rfl⟩ : ∃ c, count' = c + 1 := ⟨count' - 1, by omega⟩
    rw [rounds] at h
    obtain ⟨round, ⟨middle, table₁⟩, hround, hrest⟩ := Parser.bind_found h
    obtain ⟨hmiddle, hsame⟩ := (hstep value).found hround
    cases round with
    | done result =>
      cases hrest
      refine ⟨hmiddle, fun hmem => ?_⟩
      rw [rounds, Parser.bind_apply, hsame hmem]
      rfl
    | again value' =>
      obtain ⟨hsuffix, hsame₂⟩ := ih (Nat.le_of_succ_le_succ hle) hrest
      refine ⟨hsuffix.trans hmiddle, fun hmem => ?_⟩
      rw [rounds, Parser.bind_apply, hsame (hsuffix.subset hmem)]
      exact hsame₂ hmem

/-- A loop that has rounds enough refuses where more bytes follow what it has refused. -/
lemma rounds_refused (hstep : ∀ value, Firm more (step value)) (hprogress : Progresses step)
    {count count' : Nat} (hle : count ≤ count') {value : α} {limit : Int} {bytes rest : Bytes}
    {table table' : References Node} (hcount : bytes.length < count)
    (h : rounds step count value limit ⟨bytes, table⟩ = .refused ⟨rest, table'⟩) :
    rest <:+ bytes ∧ (0x5F ∈ rest →
      rounds step count' value limit ⟨bytes ++ more, table⟩ = .refused ⟨rest ++ more, table'⟩ ∨
        Overruns bytes rest more) := by
  induction count generalizing count' value bytes table with
  | zero => omega
  | succ count ih =>
    obtain ⟨count', rfl⟩ : ∃ c, count' = c + 1 := ⟨count' - 1, by omega⟩
    rw [rounds] at h
    obtain hround | ⟨round, ⟨middle, table₁⟩, hround, hrest⟩ := Parser.bind_refused h
    · obtain ⟨hsuffix, hsame⟩ := (hstep value).refused hround
      refine ⟨hsuffix, fun hmem => (hsame hmem).imp_left fun hmore => ?_⟩
      rw [rounds, Parser.bind_apply, hmore]
    · obtain ⟨hmiddle, hsame⟩ := (hstep value).found hround
      cases round with
      | done result => cases hrest
      | again value' =>
        have hshorter : middle.length < bytes.length := hprogress hround
        obtain ⟨hsuffix, hsame₂⟩ := ih (Nat.le_of_succ_le_succ hle) (by omega) hrest
        refine ⟨hsuffix.trans hmiddle, fun hmem => (hsame₂ hmem).imp (fun hmore => ?_) ?_⟩
        · rw [rounds, Parser.bind_apply, hsame (hsuffix.subset hmem)]
          exact hmore
        · exact fun hoverruns => hoverruns.of_suffix hmiddle

lemma iterate (hstep : ∀ value, Firm more (step value)) (hprogress : Progresses step) (value : α) :
    Firm more (Grammar.iterate step value) where
  found {limit bytes rest table table' result} hfound := by
    have hle : bytes.length + 1 ≤ (bytes ++ more).length + 1 := by
      rw [List.length_append]
      omega
    exact rounds_found hstep hle hfound
  refused {limit bytes rest table table'} hrefused := by
    have hle : bytes.length + 1 ≤ (bytes ++ more).length + 1 := by
      rw [List.length_append]
      omega
    exact rounds_refused hstep hprogress hle (Nat.lt_succ_self _) hrefused

/-- A round that goes on by a step which takes a byte. -/
lemma roundUntil {stop : Parser Bool} (hstop : Firm more stop) (last : β) {step : Parser α}
    (hstep : Firm more step) : Firm more (Grammar.roundUntil stop last step) := by
  refine hstop.bind fun stopped => ?_
  cases stopped with
  | true => exact pure _
  | false => exact hstep.bind fun _ => pure _

lemma progresses_roundUntil {stop : Parser Bool} (hstop : Firm more stop) (last : α → β)
    {step : α → Parser α} (hstep : ∀ value, Settles 1 1 (step value)) :
    Progresses fun value => Grammar.roundUntil stop (last value) (step value) := by
  intro value limit s s' value' h
  obtain ⟨stopped, s₁, hstopped, h⟩ := Parser.bind_found h
  have hle : s₁.unread.length ≤ s.unread.length := (hstop.found hstopped).1.length_le
  cases stopped with
  | true => cases h
  | false =>
    obtain ⟨value₂, s₂, hvalue, h⟩ := Parser.bind_found h
    cases h
    have := (hstep value).shorter hvalue
    omega

/-- A list that ends where a parser says so. -/
lemma gather {stop : Parser Bool} (hstop : Firm more stop) {item : List α → Parser α}
    (hitem : ∀ earlier, Firm more (item earlier)) (hleast : ∀ earlier, Settles 1 1 (item earlier)) :
    Firm more (Grammar.gather stop item) := by
  rw [gather_eq_iterate]
  have hfirm : ∀ earlier, Firm more (addItem (item earlier) earlier) := fun earlier =>
    (hitem earlier).bind fun _ => pure _
  have hsettles : ∀ earlier, Settles 1 1 (addItem (item earlier) earlier) := fun earlier =>
    (hleast earlier).bind fun _ => Settles.pureAhead 1 _
  exact iterate (fun earlier => roundUntil hstop _ (hfirm earlier))
    (progresses_roundUntil hstop _ hsettles) []

/-- A change by steps up to where a parser says so. -/
lemma foldUntil {stop : Parser Bool} (hstop : Firm more stop) {step : α → Parser α}
    (hstep : ∀ value, Firm more (step value)) (hleast : ∀ value, Settles 1 1 (step value))
    (value : α) : Firm more (Grammar.foldUntil stop step value) :=
  iterate (fun value => roundUntil hstop value (hstep value))
    (progresses_roundUntil hstop (fun value => value) hleast) value

end Loops

end Firm

end SwiftMangling.Grammar
