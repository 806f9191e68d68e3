import SwiftMangling.Proofs.ReadBack

/-!
# Modules, declared types and protocols are read back

A scope that is in the table is read back as the node at its position, which is the tree of the scope
because both tables grow by the same entries in the same order. A scope that is spelled out is read
back from its parts, and is then recorded on both sides.
-/

namespace SwiftMangling

namespace Mangle

/-- The numbers are within the limit that are written for a scope: the index of a scope in the table,
or those of the spelling. -/
def ReferWithin (limit : Int) (table : References Scope) (scope : Scope) (spelled : Prop) : Prop :=
  match table.idxOf? scope with
  | some position => Grammar.IndexWithin limit position
  | none => spelled

instance (limit : Int) (table : References Scope) (scope : Scope) (spelled : Prop)
    [Decidable spelled] : Decidable (ReferWithin limit table scope spelled) :=
  show Decidable (match table.idxOf? scope with
    | some position => Grammar.IndexWithin limit position
    | none => spelled) from
  match table.idxOf? scope with
  | some position => inferInstanceAs (Decidable (Grammar.IndexWithin limit position))
  | none => inferInstanceAs (Decidable spelled)

namespace Scope

/-- Every name begins with something other than a digit. -/
def IsProper : Scope → Prop
  | root name => name.NoDigit
  | member parent _ name => parent.IsProper ∧ name.NoDigit

instance decideProper : DecidablePred IsProper
  | root name => inferInstanceAs (Decidable name.NoDigit)
  | member parent _ name =>
    have := decideProper parent
    inferInstanceAs (Decidable (parent.IsProper ∧ name.NoDigit))

/-- The numbers are within the limit that are written for a scope in view of a table. -/
def Fits (limit : Int) (table : References Scope) : Scope → Prop
  | root name => root name = stdlib ∨ ReferWithin limit table (root name) (name.length ≤ limit)
  | member parent kind name =>
    ReferWithin limit table (member parent kind name) (parent.Fits limit table ∧ name.length ≤ limit)

instance decideFits (limit : Int) (table : References Scope) : DecidablePred (Fits limit table)
  | root name =>
    inferInstanceAs (Decidable (root name = stdlib ∨
      ReferWithin limit table (root name) (name.length ≤ limit)))
  | member parent kind name =>
    have := decideFits limit table parent
    inferInstanceAs (Decidable (ReferWithin limit table (member parent kind name)
      (parent.Fits limit table ∧ name.length ≤ limit)))

/-- The budget that reading a scope as a context takes. -/
def nesting : Scope → Nat
  | root _ => 1
  | member parent _ _ => parent.nesting + 2

end Scope

lemma referWithin_of_some {limit : Int} {table : References Scope} {scope : Scope} {spelled : Prop}
    (h : ReferWithin limit table scope spelled) {position : Nat}
    (hposition : table.idxOf? scope = some position) : Grammar.IndexWithin limit position := by
  unfold ReferWithin at h
  rwa [hposition] at h

lemma referWithin_of_none {limit : Int} {table : References Scope} {scope : Scope} {spelled : Prop}
    (h : ReferWithin limit table scope spelled) (hnone : table.idxOf? scope = none) : spelled := by
  unfold ReferWithin at h
  rwa [hnone] at h

end Mangle

namespace Grammar

open Mangle (Writer Scope digits ascii nameNode)
open Mangle.Writer (emit note)

variable {call : Calls} {limit : Int} {table : References Scope}

lemma record_read (scope : Scope) : ReadsBack limit table (record scope.tree) (note scope) () := by
  intro rest
  show Outcome.found () _ = .found () ⟨rest, (References.record table scope).map Scope.tree⟩
  simp only [References.record, List.map_append, List.map_cons, List.map_nil]
  rfl

lemma contextBody_digit {b : UInt8} (hb : b ∈ digits) (unread : Bytes) (nodes : References Node) :
    contextBody call limit ⟨b :: unread, nodes⟩ = moduleName limit ⟨b :: unread, nodes⟩ := by
  have hdigits : digits.all fun b => !startsEntity (Bytes.char b) := rfl
  have hentity : startsEntity (Bytes.char b) = false :=
    Bool.not_eq_true' _ ▸ List.all_eq_true.1 hdigits b hb
  unfold contextBody
  rw [Parser.bind_of_found (atEnd_cons b unread limit nodes), if_neg Bool.false_ne_true,
    skip "E" hb rfl, skip "e" hb rfl, skip "S" hb rfl,
    skip "s" hb rfl, skip "G" hb rfl,
    Parser.bind_of_found (peek_cons b unread limit nodes), hentity, if_neg Bool.false_ne_true]

/-- A module that is spelled out, and is recorded. -/
def spelledModule : Parser Node := do
  let node ← identifier (some .moduleName)
  record node
  pure node

lemma moduleName_digit {b : UInt8} (hb : b ∈ digits) (unread : Bytes) (nodes : References Node) :
    moduleName limit ⟨b :: unread, nodes⟩ = spelledModule limit ⟨b :: unread, nodes⟩ := by
  unfold moduleName
  rw [skip "s" hb rfl, skip "S" hb rfl]
  rfl

lemma protocol_digit {b : UInt8} (hb : b ∈ digits) (unread : Bytes) (nodes : References Node) :
    protocol call limit ⟨b :: unread, nodes⟩ =
      declaration call .protocolDecl limit ⟨b :: unread, nodes⟩ := by
  unfold protocol
  rw [skip "S" hb rfl, skip "s" hb rfl]

/-- A protocol from a reference to it or to its module. -/
def recalledProtocol (node : Node) : Parser Node :=
  if node.kind = .protocolDecl then pure node
  else if node.kind = .moduleName then protocolInContext node
  else refuse

section Reads

variable (hlimit : Decimal.isWritable limit)
include hlimit

lemma reference_read {scope : Scope} {position : Nat} (h : table.idxOf? scope = some position)
    (hwithin : IndexWithin limit position) :
    ReadsBack limit table substitution (emit (Mangle.index position)) scope.tree := by
  intro rest
  refine substitution_read hlimit hwithin ?_ rest
  obtain ⟨hlt, hget, -⟩ := List.idxOf?_eq_some_iff.1 h
  rw [List.getElem?_map, List.getElem?_eq_getElem hlt, hget]
  rfl

lemma spelledModule_read {name : Bytes} (hname : name.NoDigit) (hlength : name.length ≤ limit) :
    ReadsBack limit table spelledModule (emit (Mangle.identifier name) ++ note (.root name))
      (Scope.root name).tree := by
  have hname : ReadsBack limit table (identifier (some .moduleName)) (emit (Mangle.identifier name))
      (Scope.root name).tree := fun rest =>
    identifier_read hlimit (some .moduleName) hname hlength rest _
  exact hname.bind ((record_read (.root name)).finish fun s => rfl)

/-- A module and what is read after it. Where a reference stands for the module there may be a check
of what it refers to. -/
lemma module_read {p : Parser Node} (next checked : Node → Parser Node) {name : Bytes} {w : Writer}
    {result : Node} (hproper : (Scope.root name).IsProper)
    (hfits : (Scope.root name).Fits limit table)
    (hstdlib : ∀ rest nodes, p limit ⟨ascii "s" ++ rest, nodes⟩ = next stdlibModule limit ⟨rest, nodes⟩)
    (hreference : ∀ rest nodes, p limit ⟨ascii "S" ++ rest, nodes⟩ =
      (substitution >>= checked) limit ⟨rest, nodes⟩)
    (hchecked : checked (Scope.root name).tree = next (Scope.root name).tree)
    (hdigit : ∀ b ∈ digits, ∀ unread nodes, p limit ⟨b :: unread, nodes⟩ =
      (spelledModule >>= next) limit ⟨b :: unread, nodes⟩)
    (hnext : ReadsBack limit ((Scope.root name).write table).2 (next (Scope.root name).tree) w result) :
    ReadsBack limit table p ((Scope.root name).write ++ w) result := by
  by_cases hstd : Scope.root name = Scope.stdlib
  · have hwrite : (Scope.root name).write = emit (ascii "s") := if_pos hstd
    rw [hwrite] at hnext ⊢
    refine .after (ascii "s") (fun rest nodes => ?_) hnext
    rw [hstdlib, hstd]
    rfl
  · have hwrite : (Scope.root name).write =
        Writer.refer (.root name) (emit (Mangle.identifier name)) := if_neg hstd
    have hrefer := hfits.resolve_left hstd
    rw [hwrite] at hnext ⊢
    cases h : table.idxOf? (.root name) with
    | some position =>
      have hwritten := Mangle.refer_of_some h (emit (Mangle.identifier name))
      rw [hwritten] at hnext
      refine .of_eq (Writer.append_congr hwritten w) ?_
      rw [Writer.append_assoc]
      refine .after (ascii "S") hreference ?_
      apply (reference_read hlimit h (Mangle.referWithin_of_some hrefer h)).bind
      rw [hchecked]
      exact hnext
    | none =>
      have hwritten := Mangle.refer_of_none h (emit (Mangle.identifier name))
      rw [hwritten] at hnext
      refine .of_eq (Writer.append_congr hwritten w) ?_
      refine .before (((Mangle.identifier_begins name).append _).append _) hdigit ?_
      exact (spelledModule_read hlimit hproper (Mangle.referWithin_of_none hrefer h)).bind hnext

lemma moduleName_read {name : Bytes} (hproper : (Scope.root name).IsProper)
    (hfits : (Scope.root name).Fits limit table) :
    ReadsBack limit table moduleName (Scope.root name).write (Scope.root name).tree := by
  rw [← Writer.append_nil (Scope.root name).write]
  refine module_read hlimit pure (fun node => if node.kind = .moduleName then pure node else refuse)
    hproper hfits (fun _ _ => rfl) (fun _ _ => rfl) (if_pos rfl) (fun b hb unread nodes => ?_) (.pure _)
  rw [bind_pure]
  exact moduleName_digit hb unread nodes

lemma plainName_read {name : Bytes} (hname : name.NoDigit) (hlength : name.length ≤ limit) :
    ReadsBack limit table declName (emit (Mangle.identifier name)) (nameNode .identifier name) :=
  fun rest => declName_read hlimit hname hlength rest _

/-- A declaration after its letter. -/
lemma declaration_read {parent : Scope} {kind : Mangle.DeclKind} {name : Bytes}
    (hcontext : ReadsBack limit table (call .context) parent.write parent.tree)
    (hname : name.NoDigit) (hlength : name.length ≤ limit) :
    ReadsBack limit table (declaration call kind.kind)
      (parent.write ++ (emit (Mangle.identifier name) ++ note (.member parent kind name)))
      (Scope.member parent kind name).tree := by
  refine hcontext.bind ((plainName_read hlimit hname hlength).bind ?_)
  rw [branch_pair, pure_bind]
  exact (record_read (.member parent kind name)).finish fun s => rfl

lemma protocolInContext_read {module name : Bytes} (hname : name.NoDigit)
    (hlength : name.length ≤ limit) :
    ReadsBack limit table (protocolInContext (Scope.root module).tree)
      (emit (Mangle.identifier name) ++ note (.member (.root module) .protocolDecl name))
      (Scope.member (.root module) .protocolDecl name).tree := by
  apply (plainName_read hlimit hname hlength).bind
  rw [branch_pair, pure_bind]
  exact (record_read (.member (.root module) .protocolDecl name)).finish fun s => rfl

/-- A declaration in the table or after its letter. -/
lemma member_read {p : Parser Node} {parent : Scope} {kind : Mangle.DeclKind} {name : Bytes}
    (hproper : (Scope.member parent kind name).IsProper)
    (hfits : (Scope.member parent kind name).Fits limit table)
    (hreference : ∀ rest nodes, p limit ⟨ascii "S" ++ rest, nodes⟩ = substitution limit ⟨rest, nodes⟩)
    (hletter : ∀ rest nodes, p limit ⟨kind.letter ++ rest, nodes⟩ =
      declaration call kind.kind limit ⟨rest, nodes⟩)
    (hcontext : parent.Fits limit table →
      ReadsBack limit table (call .context) parent.write parent.tree) :
    ReadsBack limit table p (Scope.member parent kind name).write
      (Scope.member parent kind name).tree := by
  cases h : table.idxOf? (.member parent kind name) with
  | some position =>
    refine .of_eq (Mangle.refer_of_some h _) (.after (ascii "S") hreference ?_)
    exact reference_read hlimit h (Mangle.referWithin_of_some hfits h)
  | none =>
    obtain ⟨hparent, hlength⟩ := Mangle.referWithin_of_none hfits h
    refine .of_eq (Mangle.refer_of_none h _) ?_
    rw [Writer.append_assoc, Writer.append_assoc]
    exact .after kind.letter hletter (declaration_read hlimit (hcontext hparent) hproper.2 hlength)

/-- A scope is read back where a context stands. The induction is on the path of declarations, whose
innermost one is read by one context and one entity. -/
lemma context_read {scope : Scope} (hproper : scope.IsProper) {budget : Nat}
    (hbudget : scope.nesting ≤ budget) (hfits : scope.Fits limit table) :
    ReadsBack limit table (parse budget .context) scope.write scope.tree := by
  induction scope generalizing budget with
  | root name =>
    obtain ⟨budget, rfl⟩ := Nat.exists_eq_add_of_le' hbudget
    rw [← Writer.append_nil (Scope.root name).write]
    refine module_read hlimit pure pure hproper hfits (fun _ _ => rfl) (fun rest nodes => ?_) rfl
      (fun b hb unread nodes => ?_) (.pure _)
    · rw [bind_pure]
      rfl
    · rw [bind_pure]
      exact (contextBody_digit hb unread nodes).trans (moduleName_digit hb unread nodes)
  | member parent kind name ih =>
    obtain ⟨extra, rfl⟩ := Nat.exists_eq_add_of_le' hbudget
    refine member_read hlimit hproper hfits (fun _ _ => rfl) (fun rest nodes => ?_)
      (ih hproper.1 (Nat.le_add_left _ extra))
    cases kind <;> rfl

/-- A protocol is read back where only a protocol can stand. -/
lemma protocol_read {module name : Bytes} {budget : Nat} (hbudget : 0 < budget)
    (hproper : (Scope.member (.root module) .protocolDecl name).IsProper)
    (hfits : (Scope.member (.root module) .protocolDecl name).Fits limit table) :
    ReadsBack limit table (protocol (parse budget)) (Scope.writeProtocol (.root module) name)
      (Scope.member (.root module) .protocolDecl name).tree := by
  have hreference : ∀ rest nodes, protocol (parse budget) limit ⟨ascii "S" ++ rest, nodes⟩ =
      (substitution >>= recalledProtocol) limit ⟨rest, nodes⟩ := fun _ _ => rfl
  cases h : table.idxOf? (.member (.root module) .protocolDecl name) with
  | some position =>
    refine .of_eq (Mangle.refer_of_some h _) (.after (ascii "S") hreference ?_)
    exact (reference_read hlimit h (Mangle.referWithin_of_some hfits h)).finish fun s => rfl
  | none =>
    obtain ⟨hroot, hlength⟩ := Mangle.referWithin_of_none hfits h
    obtain ⟨budget, rfl⟩ := Nat.exists_eq_add_of_le' hbudget
    refine .of_eq (Mangle.refer_of_none h _) ?_
    rw [Writer.append_assoc]
    refine module_read hlimit protocolInContext recalledProtocol hproper.1 hroot (fun _ _ => rfl)
      hreference rfl (fun b hb unread nodes => ?_)
      (protocolInContext_read hlimit hproper.2 hlength)
    have hmodule : parse (budget + 1) .context limit ⟨b :: unread, nodes⟩ =
        spelledModule limit ⟨b :: unread, nodes⟩ :=
      (contextBody_digit hb unread nodes).trans (moduleName_digit hb unread nodes)
    rw [protocol_digit hb, declaration, Parser.bind_apply, hmodule, Parser.bind_apply]
    rfl

end Reads

end Grammar

end SwiftMangling
