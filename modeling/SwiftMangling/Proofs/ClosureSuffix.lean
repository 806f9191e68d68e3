import SwiftMangling.Proofs.GrammarLonger
import SwiftMangling.Proofs.Suffix
import Mathlib.Data.List.Infix

/-!
# Trailing bytes of a symbol with closures

The types of a closure end where one is refused, and the closure is read on from there if an underscore
comes next. So it may depend on the reason of a refusal what a symbol is. There is one reason that lies
outside of the symbol: a length is compared with all the bytes that are left, trailing bytes among them.
Where no type of a closure is refused for such a length, trailing bytes change nothing.
-/

namespace SwiftMangling

namespace Grammar

variable {α β : Type}

/-- Somewhere in some bytes a type is refused before an underscore, and right after a length that
reaches beyond these bytes, but not beyond those that follow. -/
def Overreaches (type : Parser Node) (limit : Int) (bytes more : Bytes) : Prop :=
  ∃ span rest table table', span <:+ bytes ∧ type limit ⟨span, table⟩ = .refused ⟨rest, table'⟩ ∧
    rest.head? = some 0x5F ∧ Overruns span rest more

/-- A parser takes at least so many bytes. What it finds it finds where more bytes follow, if no type
overreaches and what is left meets a condition. -/
structure Lasts (type : Parser Node) (more : Bytes) (least : Nat) (ends : α → Bytes → Prop)
    (p : Parser α) : Prop where
  taken : ∀ {limit : Int} {bytes rest : Bytes} {table table' : References Node} {value : α},
    p limit ⟨bytes, table⟩ = .found value ⟨rest, table'⟩ →
    rest <:+ bytes ∧ rest.length + least ≤ bytes.length
  longer : ∀ {limit : Int} {bytes rest : Bytes} {table table' : References Node} {value : α},
    p limit ⟨bytes, table⟩ = .found value ⟨rest, table'⟩ → ¬Overreaches type limit bytes more →
    ends value rest → p limit ⟨bytes ++ more, table⟩ = .found value ⟨rest ++ more, table'⟩

/-- It is enough that so many bytes are left. -/
abbrev LastsBefore (type : Parser Node) (more : Bytes) (least ahead : Nat) (p : Parser α) : Prop :=
  Lasts type more least (fun _ rest => ahead ≤ rest.length) p

variable {type : Parser Node} {more : Bytes}

lemma Overreaches.of_suffix {limit : Int} {bytes rest : Bytes} (h : Overreaches type limit rest more)
    (hrest : rest <:+ bytes) : Overreaches type limit bytes more := by
  obtain ⟨span, left, table, table', hspan, hrefused⟩ := h
  exact ⟨span, left, table, table', hspan.trans hrest, hrefused⟩

/-- What is steady without a condition lasts if as many bytes are left as it looks at. -/
lemma Steady.lasts {least ahead : α → Nat} {p : Parser α} (hp : Steady (fun _ => True) least ahead p)
    {n : Nat} (hn : ∀ value, n ≤ least value) :
    Lasts type more n (fun value rest => ahead value ≤ rest.length) p where
  taken {limit bytes rest table table' value} hfound := by
    have hshorter := hp.shorter hfound
    have := hn value
    exact ⟨hp.suffix hfound, by simp only at hshorter; omega⟩
  longer hfound _ hahead := hp.longer hfound trivial hahead more

lemma Settles.lasts {n k : Nat} {p : Parser α} (hp : Settles n k p) : LastsBefore type more n k p :=
  Steady.lasts hp fun _ => Nat.le_refl n

/-- An underscore that is taken came next. -/
lemma head_of_demand {limit : Int} {s s' : State} (h : demand "_" limit s = .found () s') :
    s.unread.head? = some 0x5F := by
  obtain ⟨found, s₁, hmark, h⟩ := Parser.bind_found h
  cases found with
  | true =>
    rw [accept_found [0x5F] rfl hmark]
    rfl
  | false => cases h

namespace Lasts

section Sequences

variable {m n j k : Nat} {p q : Parser α}

/-- Two parsers in sequence. What the second one finds says how the first one ends. -/
lemma bindAt {ends : α → Bytes → Prop} {ends' : β → Bytes → Prop} {f : α → Parser β}
    (hp : Lasts type more m ends p) (hf : ∀ value, Lasts type more n ends' (f value))
    (hjoin : ∀ value limit s result s', f value limit s = .found result s' →
      ends' result s'.unread → ends value s.unread) : Lasts type more (m + n) ends' (p >>= f) where
  taken hfound := by
    obtain ⟨value, ⟨middle, table₁⟩, hfirst, hsecond⟩ := Parser.bind_found hfound
    obtain ⟨hmiddle, hlength⟩ := hp.taken hfirst
    obtain ⟨hrest, hlength₂⟩ := (hf value).taken hsecond
    exact ⟨hrest.trans hmiddle, by omega⟩
  longer hfound hreach hends := by
    obtain ⟨value, ⟨middle, table₁⟩, hfirst, hsecond⟩ := Parser.bind_found hfound
    have hmiddle := (hp.taken hfirst).1
    have hends₁ : ends value middle := hjoin value _ _ _ _ hsecond hends
    rw [Parser.bind_apply, hp.longer hfirst hreach hends₁]
    exact (hf value).longer hsecond (fun h => hreach (h.of_suffix hmiddle)) hends

lemma bind {f : α → Parser β} (hp : LastsBefore type more m j p)
    (hf : ∀ value, LastsBefore type more n k (f value)) :
    LastsBefore type more (m + n) (max (j - n) k) (p >>= f) := by
  have hf' : ∀ value, LastsBefore type more n (max (j - n) k) (f value) := fun value =>
    ⟨(hf value).taken, fun hfound hreach hends =>
      (hf value).longer hfound hreach ((Nat.le_max_right _ _).trans hends)⟩
  refine bindAt hp hf' fun value limit s result s' hfound hends => ?_
  have hlength := ((hf' value).taken hfound).2
  omega

lemma mono (hp : LastsBefore type more m j p) (h : decide (n ≤ m ∧ j ≤ k) = true) :
    LastsBefore type more n k p := by
  obtain ⟨hleast, hahead⟩ := of_decide_eq_true h
  refine ⟨fun hfound => ?_, fun hfound hreach hends => hp.longer hfound hreach (hahead.trans hends)⟩
  have hlength := (hp.taken hfound).2
  exact ⟨(hp.taken hfound).1, by omega⟩

lemma pure {ends : α → Bytes → Prop} (value : α) : Lasts type more 0 ends (Pure.pure value) where
  taken hfound := by
    cases hfound
    exact ⟨List.suffix_rfl, Nat.le_refl _⟩
  longer hfound _ _ := by
    cases hfound
    rfl

/-- An alternative behind a mark. What is read without the mark takes bytes of it, or they are left. -/
lemma ite (mark : Text) (hp : LastsBefore type more m j p) (hq : LastsBefore type more n k q) :
    LastsBefore type more (min (mark.length + m) n) (max j (max (mark.length - n) k))
      (do if ← Grammar.accept mark then p else q) where
  taken {limit bytes rest table table' value} hfound := by
    obtain ⟨found, ⟨middle, table₁⟩, hmark, hbranch⟩ := Parser.bind_found hfound
    have hmiddle := (steady_accept mark).suffix hmark
    have hlength := (steady_accept mark).shorter hmark
    cases found with
    | true =>
      obtain ⟨hrest, hlength₂⟩ := hp.taken hbranch
      simp only [if_true] at hlength
      exact ⟨hrest.trans hmiddle, by omega⟩
    | false =>
      obtain ⟨hrest, hlength₂⟩ := hq.taken hbranch
      simp only [Bool.false_eq_true, if_false] at hlength
      exact ⟨hrest.trans hmiddle, by omega⟩
  longer {limit bytes rest table table' value} hfound hreach hends := by
    obtain ⟨found, ⟨middle, table₁⟩, hmark, hbranch⟩ := Parser.bind_found hfound
    have hmiddle := (steady_accept mark).suffix hmark
    have hreach' : ¬Overreaches type limit middle more := fun h => hreach (h.of_suffix hmiddle)
    cases found with
    | true =>
      have hmark' := (steady_accept mark).longer hmark trivial (Nat.zero_le _) more
      rw [Parser.bind_apply, hmark']
      exact hp.longer hbranch hreach' (by omega)
    | false =>
      have hlength := (hq.taken hbranch).2
      have hahead : mark.length ≤ middle.length := by omega
      have hmark' := (steady_accept mark).longer hmark trivial hahead more
      rw [Parser.bind_apply, hmark']
      exact hq.longer hbranch hreach' (by omega)

end Sequences

section Loops

variable {step : α → Parser (Round α β)} {endsRound : Round α β → Bytes → Prop}
  {ends : β → Bytes → Prop}

/-- A loop makes the same rounds where more bytes follow, also if more rounds are allowed. -/
lemma rounds_longer (hstep : ∀ value, Lasts type more 0 endsRound (step value))
    (hdone : ∀ result rest, ends result rest → endsRound (.done result) rest)
    (hagain : ∀ value result rest middle, ends result rest → rest <:+ middle →
      endsRound (.again value) middle)
    {count count' : Nat} (hle : count ≤ count') {value : α} {limit : Int} {bytes rest : Bytes}
    {table table' : References Node} {result : β}
    (h : rounds step count value limit ⟨bytes, table⟩ = .found result ⟨rest, table'⟩) :
    rest <:+ bytes ∧ (¬Overreaches type limit bytes more → ends result rest →
      rounds step count' value limit ⟨bytes ++ more, table⟩ = .found result ⟨rest ++ more, table'⟩) := by
  induction count generalizing count' value bytes table with
  | zero => cases h
  | succ count ih =>
    obtain ⟨count', rfl⟩ : ∃ c, count' = c + 1 := ⟨count' - 1, by omega⟩
    rw [rounds] at h
    obtain ⟨round, ⟨middle, table₁⟩, hround, hrest⟩ := Parser.bind_found h
    have hmiddle := ((hstep value).taken hround).1
    cases round with
    | done result =>
      cases hrest
      refine ⟨hmiddle, fun hreach hends => ?_⟩
      rw [rounds, Parser.bind_apply, (hstep value).longer hround hreach (hdone _ _ hends)]
      rfl
    | again value' =>
      obtain ⟨hsuffix, hlonger⟩ := ih (Nat.le_of_succ_le_succ hle) hrest
      refine ⟨hsuffix.trans hmiddle, fun hreach hends => ?_⟩
      have hends₁ := hagain value' result rest middle hends hsuffix
      rw [rounds, Parser.bind_apply, (hstep value).longer hround hreach hends₁]
      exact hlonger (fun h => hreach (h.of_suffix hmiddle)) hends

lemma iterate (hstep : ∀ value, Lasts type more 0 endsRound (step value))
    (hdone : ∀ result rest, ends result rest → endsRound (.done result) rest)
    (hagain : ∀ value result rest middle, ends result rest → rest <:+ middle →
      endsRound (.again value) middle) (value : α) :
    Lasts type more 0 ends (Grammar.iterate step value) where
  taken {limit bytes rest table table' result} hfound := by
    have hsuffix := (rounds_longer hstep hdone hagain (Nat.le_refl _) hfound).1
    exact ⟨hsuffix, hsuffix.length_le⟩
  longer {limit bytes rest table table' result} hfound := by
    have hle : bytes.length + 1 ≤ (bytes ++ more).length + 1 := by
      rw [List.length_append]
      omega
    exact (rounds_longer hstep hdone hagain hle hfound).2

/-- A list up to a mark of one character. -/
lemma gather {mark : Text} (hmark : mark.length = 1) {item : List α → Parser α}
    (hitem : ∀ earlier, LastsBefore type more 1 0 (item earlier)) :
    LastsBefore type more 0 0 (Grammar.gather (Grammar.accept mark) item) := by
  rw [gather_eq_iterate]
  have hround : ∀ earlier : List α, LastsBefore type more 0 0
      (roundUntil (Grammar.accept mark) earlier.reverse (addItem (item earlier) earlier)) := by
    intro earlier
    have hadd : LastsBefore type more 1 0 (addItem (item earlier) earlier) :=
      ((hitem earlier).bind fun _ => (Settles.pure _).lasts).mono rfl
    refine (ite mark (Settles.pure _).lasts (hadd.bind fun _ => (Settles.pure _).lasts)).mono ?_
    rw [hmark]
    rfl
  exact iterate hround (fun _ _ => id) (fun _ _ _ _ _ _ => Nat.zero_le _) []

end Loops

section Closures

variable {call : Calls}

/-- A refusal that is tolerated before an underscore. -/
lemma tolerate (hsettled : Settles 1 0 type) (hfirm : Firm more type) :
    Lasts type more 0 (fun value rest => value = none → rest.head? = some 0x5F) (tolerate type) where
  taken {limit bytes rest table table' value} hfound := by
    unfold Grammar.tolerate at hfound
    cases htype : type limit ⟨bytes, table⟩ with
    | found node s =>
      rw [htype] at hfound
      cases hfound
      exact ⟨(hfirm.found htype).1, (hfirm.found htype).1.length_le⟩
    | refused s =>
      rw [htype] at hfound
      cases hfound
      exact ⟨(hfirm.refused htype).1, (hfirm.refused htype).1.length_le⟩
    | stopped why =>
      rw [htype] at hfound
      cases hfound
  longer {limit bytes rest table table' value} hfound hreach hends := by
    unfold Grammar.tolerate at hfound ⊢
    cases htype : type limit ⟨bytes, table⟩ with
    | found node s =>
      rw [htype] at hfound
      cases hfound
      rw [hsettled.longer htype trivial (Nat.zero_le _) more]
    | refused s =>
      rw [htype] at hfound
      cases hfound
      have hhead : rest.head? = some 0x5F := hends rfl
      obtain hmore | hoverruns := (hfirm.refused htype).2 (List.mem_of_head? hhead)
      · rw [hmore]
      · exact absurd ⟨bytes, rest, table, table', List.suffix_rfl, htype, hhead, hoverruns⟩ hreach
    | stopped why =>
      rw [htype] at hfound
      cases hfound

/-- A round of the types of a closure ends before an underscore, or it leaves something. -/
def endsRoundFound : Round (List Node) (List Node) → Bytes → Prop
  | .again _, rest => rest ≠ []
  | .done _, rest => rest.head? = some 0x5F

lemma ne_nil_of_endsRoundFound {round : Round (List Node) (List Node)} {rest : Bytes}
    (h : endsRoundFound round rest) : rest ≠ [] := by
  rintro rfl
  cases round with
  | again _ => exact h rfl
  | done _ => cases h

lemma roundFound (hsettled : Settles 1 0 type) (hfirm : Firm more type) {stop : Parser Bool}
    (hstop : Settles 0 1 stop) (earlier : List Node) :
    Lasts type more 0 endsRoundFound (roundFound stop type earlier) := by
  have hbranch : ∀ stopped : Bool, Lasts type more 0 endsRoundFound
      (if stopped then Pure.pure (.done earlier.reverse)
        else do let value ← Grammar.tolerate type; Pure.pure (withFound earlier value)) := by
    intro stopped
    cases stopped with
    | true => exact pure _
    | false =>
      refine bindAt (tolerate hsettled hfirm) (fun value => pure (withFound earlier value)) ?_
      rintro value limit s round s' hround hends rfl
      cases hround
      exact hends
  rw [roundFound_eq]
  refine bindAt hstop.lasts hbranch fun stopped limit s round s' hround hends => ?_
  have hsuffix := ((hbranch stopped).taken hround).1
  exact (List.length_pos_iff.2 (ne_nil_of_endsRoundFound hends)).trans_le hsuffix.length_le

/-- Types up to an underscore, which comes right after them. -/
lemma gatherFound (hsettled : Settles 1 0 type) (hfirm : Firm more type) {stop : Parser Bool}
    (hstop : Settles 0 1 stop) :
    Lasts type more 0 (fun _ rest => rest.head? = some 0x5F) (gatherFound stop type) := by
  refine iterate (roundFound hsettled hfirm hstop) (fun _ _ => id)
    (fun _ result rest middle hhead hsuffix => ?_) []
  rintro rfl
  rw [List.suffix_nil.1 hsuffix] at hhead
  cases hhead

lemma closureChange (h : FirmCalls more call) :
    LastsBefore (call .type) more 2 0 (Grammar.closureChange call) := by
  have hend : Settles 0 1 (do let c ← peek; Pure.pure (decide (c = '_'))) :=
    Settles.peek.bind fun _ => Settles.pureAhead 1 _
  have hrest : ∀ payload, LastsBefore (call .type) more 1 0 (do
      let types ← Grammar.gatherFound (do let c ← peek; Pure.pure (decide (c = '_'))) (call .type)
      demand "_"
      Pure.pure (change .closure :: payload :: types)) := by
    intro payload
    refine bindAt (gatherFound h.settled.type h.type hend) (fun types =>
      ((Settles.demand "_").bind fun _ => Settles.pure _).lasts) ?_
    intro types limit s changes s' hchanges _
    obtain ⟨_, s₁, hmark, -⟩ := Parser.bind_found hchanges
    exact head_of_demand hmark
  exact ((Settles.identifier none).lasts.bind fun name =>
    (Settles.payloadNode name.text?).lasts.bind hrest).mono rfl

lemma paramChange (h : FirmCalls more call) :
    LastsBefore (call .type) more 2 0 (Grammar.paramChange call) :=
  (ite _ (Settles.pure []).lasts <| ite _ Settles.constantChange.lasts <| ite _ (closureChange h) <|
    ite _ (Settles.pure _).lasts <| ite _ (Settles.pure _).lasts settles_flagChange.lasts).mono rfl

/-- The parameters of a specialization, in which closures may stand. -/
lemma signatureParams (h : FirmCalls more call) :
    LastsBefore (call .type) more 0 0 (Grammar.signatureParams call) :=
  gather rfl fun _ => ((paramChange h).bind fun changes =>
    (Settles.numbered _ _ changes).lasts).mono rfl

lemma specializationOf (kind : Kind) {params : Parser (List Node)}
    (hparams : LastsBefore type more 0 0 params) :
    LastsBefore type more 1 0 (Grammar.specializationOf kind params) := by
  have hnode : ∀ (mark : List Node) (pass : Node), LastsBefore type more 0 0 (do
      let params ← params
      branch kind ((mark ++ pass :: params).map some)) := fun mark pass =>
    hparams.bind fun params => (Settles.branch kind (mark ++ pass :: params)).lasts
  exact ((Settles.accept "q").lasts.bind fun serialized => settles_passNumber.lasts.bind fun pass =>
    hnode (if serialized then [.branch .isSerialized []] else []) pass).mono rfl

lemma specialization (h : FirmCalls more call) :
    LastsBefore (call .type) more 1 0 (Grammar.specialization call) := by
  have hgeneric : LastsBefore (call .type) more 0 0 (genericParams call) :=
    (settles_genericParams h.settled).lasts.mono rfl
  exact (ite _ (specializationOf _ hgeneric) <| ite _ (specializationOf _ hgeneric) <|
    ite _ (specializationOf _ (signatureParams h)) (Settles.refuse 1).lasts).mono rfl

/-- That there is one more specialization is seen from its mark. -/
lemma specializationRound (h : FirmCalls more call) (earlier : List Node) :
    Lasts (call .type) more 0 (fun round rest => perRound 0 4 round ≤ rest.length)
      (specializationRound call earlier) := by
  have hmark : ∀ node, Lasts (call .type) more 0 (fun round rest => perRound 0 4 round ≤ rest.length)
      (do
        forget
        if ← Grammar.accept "_TTS" then Pure.pure (.again (node :: earlier))
        else Pure.pure (.done (node :: earlier).reverse)) := by
    intro node
    refine bindAt Settles.forget.lasts (n := 0) (fun _ => ?_) fun _ _ _ _ _ _ _ => Nat.zero_le _
    refine bindAt ((steady_accept "_TTS").lasts fun _ => Nat.zero_le _) (n := 0) (fun found => ?_) ?_
    · cases found with
      | true => exact pure _
      | false => exact pure _
    · intro found limit s round s' hround hends
      cases found with
      | true => exact Nat.zero_le _
      | false =>
        cases hround
        exact hends
  exact bindAt ((specialization h).mono (n := 0) (k := 0) rfl) hmark fun _ _ _ _ _ _ _ => Nat.zero_le _

lemma specializations (h : FirmCalls more call) :
    LastsBefore (call .type) more 0 4 (Grammar.specializations call) :=
  iterate (specializationRound h) (fun _ _ => id) (fun _ _ _ _ _ _ => Nat.zero_le _) []

lemma symbolPrelude (h : FirmCalls more call) :
    LastsBefore (call .type) more 0 2 (Grammar.symbolPrelude call) :=
  (ite _ ((specializations h).bind fun nodes =>
      ((Settles.demand "_T").bind fun _ => Settles.pure nodes).lasts)
    settles_symbolAttributes.lasts).mono rfl

end Closures

end Lasts

/-- The parts of a symbol that takes all the bytes there are. -/
lemma symbolParts_longer {call : Calls} {more : Bytes} (h : FirmCalls more call) {limit : Int}
    {bytes : Bytes} {table : References Node} {parts : List Node × Node}
    (hparts : symbolParts call limit ⟨bytes, []⟩ = .found parts ⟨[], table⟩)
    (hreach : ¬Overreaches (call .type) limit bytes more) (hforwarder : ¬OpenForwarder parts.2) :
    symbolParts call limit ⟨bytes ++ more, []⟩ = .found parts ⟨more, table⟩ := by
  obtain ⟨_, ⟨middle, table₁⟩, hmark, hparts⟩ := Parser.bind_found hparts
  obtain ⟨prelude, ⟨middle₂, table₂⟩, hprelude, hparts⟩ := Parser.bind_found hparts
  obtain ⟨body, ⟨rest, table₃⟩, hbody, hparts⟩ := Parser.bind_found hparts
  cases hparts
  have hlength : 2 ≤ middle₂.length := by simpa using h.settled.global.shorter hbody
  have hreach' : ¬Overreaches (call .type) limit middle more := fun hover =>
    hreach (hover.of_suffix ((Settles.demand "_T").suffix hmark))
  have hmark' := (Settles.demand "_T").longer hmark trivial (Nat.zero_le _) more
  have hprelude' := (Lasts.symbolPrelude h).longer hprelude hreach' hlength
  have hbody' := h.settled.global.longer hbody hforwarder (Nat.zero_le _) more
  unfold symbolParts
  simp only [Parser.bind_apply, hmark', hprelude', hbody', List.nil_append]
  rfl

/-- No type overreaches where no number before an underscore is a length that is cut short. -/
lemma not_overreaches {limit : Int} {bytes : Bytes}
    (h : ∀ whole ∈ bytes.tails, ∀ count ∈ List.range (whole.length + 1),
      (whole.drop count).head? = some 0x5F → ¬CutShort (whole.take count) (whole.drop count) more) :
    ¬Overreaches type limit bytes more := by
  rintro ⟨span, rest, table, table', hspan, -, hhead, digits, hsuffix, hshort⟩
  have hwhole : digits ++ rest ∈ bytes.tails := (List.mem_tails _ _).2 (hsuffix.trans hspan)
  have hcount : digits.length ∈ List.range ((digits ++ rest).length + 1) := by
    rw [List.mem_range, List.length_append]
    omega
  refine h _ hwhole _ hcount ?_ ?_
  · rw [List.drop_left]
    exact hhead
  · rw [List.take_left, List.drop_left]
    exact hshort

end Grammar

open Grammar
open Mangle (ascii)

/-- In a symbol a type is refused before an underscore, for a length that the bytes after the symbol
would make good. -/
def TypeOverreaches (settings : Settings) (front rest : Bytes) : Prop :=
  Overreaches (parse settings.maxDepth.toInt.toNat .type) settings.maxNatural.toInt front rest

/-- Bytes that follow a symbol make one more child, which is the last and holds them, whether the symbol
has closures or not: if it has no trailing bytes yet, its global is no open forwarder, and none of its
types is refused for a length that only these bytes make good. -/
theorem demangle_closure_append {settings : Settings} {front rest : Bytes} {root : Node}
    (hrest : rest ≠ []) (hfront : demangle .symbol settings (.bytes front) = .tree root)
    (hsuffix : ∀ child ∈ root.children, child.kind ≠ .suffix)
    (hforwarder : ∀ body, root.children.getLast? = some body → ¬OpenForwarder body)
    (hreach : ¬TypeOverreaches settings front rest) :
    demangle .symbol settings (.bytes (front ++ rest)) =
      .tree (root.push (.named .suffix (Utf8.decode rest))) := by
  obtain ⟨parts, table, hparts, rfl⟩ := symbolParts_of_demangle hfront hsuffix
  have hbody : ¬OpenForwarder parts.2 := hforwarder parts.2 List.getLast?_concat
  have hfirm := firm_parse rest settings.maxDepth.toInt.toNat
  exact demangle_of_symbolParts hrest (symbolParts_longer hfirm hparts hreach hbody)

/-- A specialization for a closure whose type is refused for its length, before the type of integers. -/
lemma cutClosure_root :
    ∃ root, demangle .symbol {} (.bytes (ascii "_TTSf0cl1aV4main9___TtSi")) = .tree root ∧
      (∃ inner, Occurs inner root ∧ IsClosureMark inner) ∧
      (∀ child ∈ root.children, child.kind ≠ .suffix) ∧
      ∀ body, root.children.getLast? = some body → ¬OpenForwarder body := by
  have hkinds : (demangle .symbol {} (.bytes (ascii "_TTSf0cl1aV4main9___TtSi"))).tree?.map
      (fun root => root.children.map Node.kind) =
        some [.functionSignatureSpecialization, .typeMangling] := by decide +kernel
  have hmark : (demangle .symbol {} (.bytes (ascii "_TTSf0cl1aV4main9___TtSi"))).tree?.map
      (fun root => root.children.any fun special => special.children.any fun param =>
        param.children.any fun inner => decide (inner.kind = .functionSignatureSpecializationParamKind ∧
          inner.payload = .index ParamChange.closure.number)) = some true := by decide +kernel
  obtain ⟨root, htree, hroot⟩ := Option.map_eq_some_iff.1 hkinds
  rw [htree, Option.map_some] at hmark
  refine ⟨root, Verdict.eq_tree_of_tree? htree, ?_, fun child hchild => ?_, fun body hbody hopen => ?_⟩
  · simp only [Option.some.injEq, List.any_eq_true, decide_eq_true_eq] at hmark
    obtain ⟨special, hspecial, param, hparam, inner, hinner, hclosure⟩ := hmark
    exact ⟨inner, .inside hspecial (.inside hparam (.inside hinner .here)), hclosure⟩
  · have hmem := List.mem_map_of_mem (f := Node.kind) hchild
    rw [hroot] at hmem
    intro hkind
    rw [hkind] at hmem
    exact absurd hmem (by decide)
  · have hlast : (root.children.map Node.kind).getLast? = some body.kind := by
      rw [List.getLast?_map, hbody]
      rfl
    rw [hroot] at hlast
    cases hopen with
    | last hkind => cases hlast; exact hkind.elim nofun nofun
    | outer hkind _ => cases hlast; exact hkind.elim nofun nofun

/-- One byte more leaves the length of that type too large. -/
theorem demangle_cutClosure_append :
    ∃ root, demangle .symbol {} (.bytes (ascii "_TTSf0cl1aV4main9___TtSi")) = .tree root ∧
      (∃ inner, Occurs inner root ∧ IsClosureMark inner) ∧
      demangle .symbol {} (.bytes (ascii "_TTSf0cl1aV4main9___TtSi" ++ [0x61])) =
        .tree (root.push (.named .suffix (Utf8.decode [0x61]))) := by
  obtain ⟨root, hroot, hclosure, hsuffix, hforwarder⟩ := cutClosure_root
  refine ⟨root, hroot, hclosure, demangle_closure_append (by decide) hroot hsuffix hforwarder ?_⟩
  exact not_overreaches (by decide +kernel)

/-- Two bytes more make its length good, so that the closure goes on to the end of the name and the
symbol is none. -/
theorem not_demangle_closure_append :
    ¬∀ (front rest : Bytes) (root : Node), rest ≠ [] →
      demangle .symbol {} (.bytes front) = .tree root →
      (∃ inner, Occurs inner root ∧ IsClosureMark inner) →
      (∀ child ∈ root.children, child.kind ≠ .suffix) →
      (∀ body, root.children.getLast? = some body → ¬OpenForwarder body) →
      demangle .symbol {} (.bytes (front ++ rest)) =
        .tree (root.push (.named .suffix (Utf8.decode rest))) := by
  intro happend
  obtain ⟨root, hroot, hclosure, hsuffix, hforwarder⟩ := cutClosure_root
  have htree := happend _ [0x61, 0x61] root (by decide) hroot hclosure hsuffix hforwarder
  have hnone : (demangle .symbol {}
      (.bytes (ascii "_TTSf0cl1aV4main9___TtSi" ++ [0x61, 0x61]))).tree?.isSome = false := by
    decide +kernel
  rw [htree] at hnone
  cases hnone

end SwiftMangling
