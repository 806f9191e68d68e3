import SwiftMangling.Mangle.Entity
import SwiftMangling.Proofs.Symbol
import SwiftMangling.Proofs.TypeRoundTrip
import SwiftMangling.Proofs.Utf8

/-!
# Entities are read back

The symbol of an entity is read back as its tree. A context is read before the member that stands in
it, and what follows the context is told apart by its first letter: a member without a name has a
letter of its own, and a name begins with a digit or with one of two letters that no member has.
-/

namespace SwiftMangling

namespace Mangle

namespace DeclName

/-- Identifiers begin with something other than a digit. -/
def IsProper : DeclName → Prop
  | plain name => name.NoDigit
  | numbered _ name => name.NoDigit
  | inFile file name => file.NoDigit ∧ name.NoDigit

/-- The numbers that are written for a name are within the limit. -/
def Fits (limit : Int) : DeclName → Prop
  | plain name => name.length ≤ limit
  | numbered number name => Grammar.IndexWithin limit number ∧ name.length ≤ limit
  | inFile file name => file.length ≤ limit ∧ name.length ≤ limit

end DeclName

namespace Member

def IsProper : Member → Prop
  | named name type => name.IsProper ∧ type.IsProper
  | accessor _ name type => name.IsProper ∧ type.IsProper
  | allocator type => type.IsProper
  | constructor type => type.IsProper
  | closure _ _ type => type.IsProper
  | _ => True

/-- The numbers that are written for a member in view of a table are within the limit. -/
def Fits (limit : Int) (table : References Scope) : Member → Prop
  | named name type => name.Fits limit ∧ type.Fits limit table
  | accessor _ name type => name.Fits limit ∧ type.Fits limit table
  | allocator type => type.Fits limit table
  | constructor type => type.Fits limit table
  | closure _ number type => Grammar.IndexWithin limit number ∧ type.Fits limit table
  | defaultArgument number => Grammar.IndexWithin limit number
  | _ => True

/-- The budget that reading the type of a member takes, if it has one. -/
def nesting : Member → Nat
  | named _ type => type.nesting + 1
  | accessor _ _ type => type.nesting + 1
  | allocator type => type.nesting + 1
  | constructor type => type.nesting + 1
  | closure _ _ type => type.nesting + 1
  | _ => 0

end Member

namespace Context

/-- Names begin with something other than a digit, and each entity admits its member. -/
def IsProper : Context → Prop
  | scope path => path.IsProper
  | extended definer context => definer.NoDigit ∧ context.IsProper
  | entity _ kind context member => context.IsProper ∧ member.IsProper ∧ kind.Admits member

/-- The numbers that are written for a context in view of a table are within the limit. -/
def Fits (limit : Int) : Context → References Scope → Prop
  | scope path, table => path.Fits limit table
  | extended definer context, table =>
    (Scope.root definer).Fits limit table ∧
      context.Fits limit ((Scope.root definer).write table).2
  | entity _ _ context member, table =>
    context.Fits limit table ∧ member.Fits limit (context.write table).2

/-- The budget that reading a context takes. -/
def nesting : Context → Nat
  | scope path => path.nesting
  | extended _ context => context.nesting + 1
  | entity _ _ context member => max context.nesting member.nesting + 2

end Context

end Mangle

namespace Grammar

open Mangle (Writer Scope TypeExpr DeclName Accessor Member EntityKind Context Entity digits ascii
  nameNode)
open Mangle.Writer (emit)

variable {limit : Int} {table : References Scope} {call : Calls}

/-- Only one identifier is read as the reserved name. -/
lemma isSubscriptName_nameNode (kind : Kind) (name : Bytes) :
    isSubscriptName (nameNode kind name) = decide (name = ascii "subscript") := by
  have htext : Utf8.decode (ascii "subscript") = "subscript" := by decide
  have hiff : (nameNode kind name).text? = some ("subscript" : Text) ↔ name = ascii "subscript" := by
    constructor
    · intro h
      apply Utf8.decode_injective
      rw [htext]
      exact Option.some.inj h
    · rintro rfl
      exact congrArg some htext
  unfold isSubscriptName
  exact decide_eq_decide.2 hiff

/-- The type of a variable, which is read after its name. -/
lemma variable_read {name : Node} (context declName : Node) {type : TypeExpr}
    (hname : accessedName name = pure (false, some declName))
    (htype : ReadsBack limit table (call .type) type.write type.tree) :
    ReadsBack limit table (accessedNode call context name) type.write
      (.branch .variableDecl [context, declName, type.tree]) := by
  unfold accessedNode
  rw [hname, pure_bind]
  exact htype.finish fun _ => rfl

/-- The type of a subscript, which is read before what is left of its name. -/
lemma subscript_read {name : Node} (context : Node) (file : Option Node) {type : TypeExpr}
    (hname : accessedName name = pure (true, file))
    (htype : ReadsBack limit table (call .type) type.write type.tree) :
    ReadsBack limit table (accessedNode call context name) type.write
      (.branch .subscript (context :: type.tree :: file.toList)) := by
  unfold accessedNode
  rw [hname, pure_bind]
  cases file with
  | none => exact htype.finish fun _ => rfl
  | some file => exact htype.finish fun _ => rfl

/-- The identifier of a name decides whether it is the one of a subscript. -/
lemma reservable_read {name : Node} (context : Node) {identifier : Bytes} (file : Option Node)
    {type : TypeExpr}
    (hname : accessedName name = if isSubscriptName (nameNode .identifier identifier) then
      pure (true, file) else pure (false, some name))
    (htype : ReadsBack limit table (call .type) type.write type.tree) :
    ReadsBack limit table (accessedNode call context name) type.write
      (if identifier = ascii "subscript" then
        .branch .subscript (context :: type.tree :: file.toList)
      else .branch .variableDecl [context, name, type.tree]) := by
  rw [isSubscriptName_nameNode] at hname
  by_cases hsubscript : identifier = ascii "subscript"
  · rw [if_pos (decide_eq_true hsubscript)] at hname
    rw [if_pos hsubscript]
    exact subscript_read context file hname htype
  · rw [if_neg (by simpa using hsubscript)] at hname
    rw [if_neg hsubscript]
    exact variable_read context name hname htype

lemma accessedNode_read (context : Node) (name : DeclName) {type : TypeExpr}
    (htype : ReadsBack limit table (call .type) type.write type.tree) :
    ReadsBack limit table (accessedNode call context name.tree) type.write
      (name.accessed context type.tree) := by
  cases name with
  | plain name =>
    refine reservable_read context none ?_ htype
    show pure (if _ then _ else _) = _
    exact apply_ite pure _ _ _
  | numbered number name => exact variable_read context _ rfl htype
  | inFile file name =>
    exact reservable_read context (some (.branch .privateDeclName [nameNode .identifier file])) rfl
      htype

/-- What a name begins with: no letter of a member without a name is among it. -/
def nameLetters : Bytes :=
  0x4C :: 0x50 :: digits

lemma declName_begins (name : DeclName) : name.code.Begins nameLetters := by
  cases name with
  | plain name =>
    obtain ⟨b, rest, hbytes, hb⟩ := Mangle.identifier_begins name
    exact ⟨b, rest, hbytes, List.mem_cons_of_mem _ (List.mem_cons_of_mem _ hb)⟩
  | numbered number name => exact .cons rfl
  | inFile file name => exact .cons rfl

/-- A name stands after the context of what is called by it. -/
lemma entityInContext_name {kind : Kind} (hkind : kind ≠ .initializer) {context : Node} {b : UInt8}
    (hb : b ∈ nameLetters) (unread : Bytes) (nodes : References Node) :
    entityInContext call kind context limit ⟨b :: unread, nodes⟩ =
      namedEntity call kind context limit ⟨b :: unread, nodes⟩ := by
  have hletters : nameLetters.all fun b => (entityName? (Bytes.char b)).isNone := rfl
  have hnone := Option.isNone_iff_eq_none.1 (List.all_eq_true.1 hletters b hb)
  unfold entityInContext
  rw [Parser.bind_of_found (peek_cons b unread limit nodes), hnone]
  exact congrFun (congrFun (if_neg hkind) limit) _

section Members

variable (hlimit : Decimal.isWritable limit)
include hlimit

lemma plainIdentifier_read {name : Bytes} (hname : name.NoDigit) (hlength : name.length ≤ limit) :
    ReadsBack limit table (identifier none) (emit (Mangle.identifier name))
      (nameNode .identifier name) :=
  fun rest => identifier_read hlimit none hname hlength rest _

lemma indexNode_read {number : Nat} (hnumber : IndexWithin limit number) :
    ReadsBack limit table indexNode (emit (Mangle.index number)) (.numbered .number number) := by
  have hindex : ReadsBack limit table index (emit (Mangle.index number)) number :=
    fun rest => index_read hlimit _ hnumber rest
  exact hindex.finish fun _ => rfl

lemma anyName_read {name : DeclName} (hproper : name.IsProper) (hfits : name.Fits limit) :
    ReadsBack limit table declName (emit name.code) name.tree := by
  cases name with
  | plain name => exact plainName_read hlimit hproper hfits
  | numbered number name =>
    have hparts : ReadsBack limit table
        (do
          let discriminator ← indexNode
          let name ← identifier
          branch .localDeclName [discriminator, name])
        (emit (Mangle.index number) ++ emit (Mangle.identifier name))
        (DeclName.numbered number name).tree :=
      (indexNode_read hlimit hfits.1).bind
        ((plainIdentifier_read hlimit hproper hfits.2).finish fun _ => rfl)
    rw [DeclName.code, List.append_assoc, Writer.emit_append, Writer.emit_append]
    exact .after (ascii "L") (fun _ _ => rfl) hparts
  | inFile file name =>
    have hparts : ReadsBack limit table
        (do
          let discriminator ← identifier
          let name ← identifier
          branch .privateDeclName [discriminator, name])
        (emit (Mangle.identifier file) ++ emit (Mangle.identifier name))
        (DeclName.inFile file name).tree :=
      (plainIdentifier_read hlimit hproper.1 hfits.1).bind
        ((plainIdentifier_read hlimit hproper.2 hfits.2).finish fun _ => rfl)
    rw [DeclName.code, List.append_assoc, Writer.emit_append, Writer.emit_append]
    exact .after (ascii "P") (fun _ _ => rfl) hparts

end Members

section Bodies

variable {kind : EntityKind} (context : Node) {type : TypeExpr}

lemma named_read (hlimit : Decimal.isWritable limit) {name : DeclName}
    (hadmits : kind.Admits (.named name type)) (hproper : name.IsProper) (hfits : name.Fits limit)
    (htype : ReadsBack limit table (call .type) type.write type.tree) :
    ReadsBack limit table (entityInContext call kind.kind context) (Member.named name type).write
      ((Member.named name type).tree kind.kind context) := by
  have hkind : kind.kind ≠ .initializer := by
    intro hkind
    cases kind with
    | initializer => exact hadmits
    | _ => cases hkind
  have hparts : ReadsBack limit table (namedEntity call kind.kind context)
      (emit name.code ++ type.write) (.branch kind.kind [context, name.tree, type.tree]) :=
    (anyName_read hlimit hproper hfits).bind (htype.finish fun _ => rfl)
  exact .before ((declName_begins name).append _) (fun b hb => entityInContext_name hkind hb) hparts

lemma accessor_read (hlimit : Decimal.isWritable limit) (which : Accessor) {name : DeclName}
    (hproper : name.IsProper) (hfits : name.Fits limit)
    (htype : ReadsBack limit table (call .type) type.write type.tree) :
    ReadsBack limit table (entityInContext call kind.kind context)
      (Member.accessor which name type).write
      ((Member.accessor which name type).tree kind.kind context) := by
  have hdispatch : ∀ rest nodes,
      entityInContext call kind.kind context limit ⟨which.code ++ rest, nodes⟩ =
        accessor call which.kind context limit ⟨rest, nodes⟩ := by
    intro rest nodes
    cases which with
    | addressor isMutable ownership => cases isMutable <;> cases ownership <;> rfl
    | _ => rfl
  have haccessed := accessedNode_read context name htype
  rw [Member.write, Writer.emit_append, Writer.append_assoc]
  exact .after which.code hdispatch
    ((anyName_read hlimit hproper hfits).bind (haccessed.finish fun _ => rfl))

/-- A member that has a letter and a type. -/
lemma typed_read {letter : Bytes} {typed : Kind}
    (hdispatch : ∀ rest nodes, entityInContext call kind.kind context limit ⟨letter ++ rest, nodes⟩ =
      (do let type ← call .type; branch typed [context, type]) limit ⟨rest, nodes⟩)
    (htype : ReadsBack limit table (call .type) type.write type.tree) :
    ReadsBack limit table (entityInContext call kind.kind context) (emit letter ++ type.write)
      (.branch typed [context, type.tree]) :=
  .after letter hdispatch (htype.finish fun _ => rfl)

lemma closure_read (hlimit : Decimal.isWritable limit) (isExplicit : Bool) {number : Nat}
    (hnumber : IndexWithin limit number)
    (htype : ReadsBack limit table (call .type) type.write type.tree) :
    ReadsBack limit table (entityInContext call kind.kind context)
      (Member.closure isExplicit number type).write
      ((Member.closure isExplicit number type).tree kind.kind context) := by
  have hparts : ReadsBack limit table
      (do
        let name ← indexNode
        let type ← call .type
        branch (if isExplicit then .explicitClosure else .implicitClosure) [context, name, type])
      (emit (Mangle.index number) ++ type.write)
      ((Member.closure isExplicit number type).tree kind.kind context) :=
    (indexNode_read hlimit hnumber).bind (htype.finish fun _ => rfl)
  rw [Member.write, Writer.emit_append, Writer.append_assoc]
  refine .after _ (fun rest nodes => ?_) hparts
  cases isExplicit <;> rfl

/-- Only an initializer is of an argument or of a variable. -/
lemma initializer_read (hlimit : Decimal.isWritable limit) {number : Nat}
    (hnumber : IndexWithin limit number) :
    ReadsBack limit table (entityInContext call .initializer context)
      (Member.defaultArgument number).write
      ((Member.defaultArgument number).tree .initializer context) := by
  have hparts : ReadsBack limit table
      (do let name ← indexNode; branch .defaultArgumentInitializer [context, name])
      (emit (Mangle.index number)) ((Member.defaultArgument number).tree .initializer context) :=
    (indexNode_read hlimit hnumber).finish fun _ => rfl
  rw [Member.write, Writer.emit_append]
  exact .after (ascii "A") (fun _ _ => rfl) hparts

end Bodies

/-- What follows a context is read back, if it has no type or its type is read within the budget. -/
lemma entityInContext_read (hfew : Decimal.digitCount limit < Decimal.maxDigits) {kind : EntityKind}
    {member : Member} (hproper : member.IsProper) (hfits : member.Fits limit table)
    (hadmits : kind.Admits member) (context : Node) {budget : Nat}
    (hbudget : member.nesting ≤ budget) :
    ReadsBack limit table (entityInContext (parse budget) kind.kind context) member.write
      (member.tree kind.kind context) := by
  have hlimit := isWritable_of_few hfew
  cases member with
  | named name type =>
    have htype := type_readsBack hfew hproper.2 hfits.2 hbudget
    exact named_read context hlimit hadmits hproper.1 hfits.1 htype
  | accessor which name type =>
    have htype := type_readsBack hfew hproper.2 hfits.2 hbudget
    exact accessor_read context hlimit which hproper.1 hfits.1 htype
  | allocator type =>
    exact typed_read context (fun _ _ => rfl) (type_readsBack hfew hproper hfits hbudget)
  | constructor type =>
    exact typed_read context (fun _ _ => rfl) (type_readsBack hfew hproper hfits hbudget)
  | deallocator => exact fun rest => rfl
  | destructor => exact fun rest => rfl
  | ivarInitializer => exact fun rest => rfl
  | ivarDestroyer => exact fun rest => rfl
  | closure isExplicit number type =>
    have htype := type_readsBack hfew hproper hfits.2 hbudget
    exact closure_read context hlimit isExplicit hfits.1 htype
  | defaultArgument number =>
    cases kind with
    | initializer => exact initializer_read context hlimit hfits
    | _ => exact hadmits.elim
  | initialValue =>
    cases kind with
    | initializer => exact fun rest => rfl
    | _ => exact hadmits.elim

/-- An entity is its letters, its context and its member. -/
lemma entityBody_read {isStatic : Bool} {kind : EntityKind} {context : Context} {member : Member}
    (hcontext : ReadsBack limit table (call .context) context.write context.tree)
    (hmember : ReadsBack limit (context.write table).2 (entityInContext call kind.kind context.tree)
      member.write (member.tree kind.kind context.tree)) :
    ReadsBack limit table (entityBody call) (Context.entity isStatic kind context member).write
      (Context.entity isStatic kind context member).tree := by
  have hparts : ReadsBack limit table
      (do
        let context ← call .context
        let entity ← entityInContext call kind.kind context
        if isStatic then branch .staticMember [entity] else pure entity)
      (context.write ++ member.write) (Context.entity isStatic kind context member).tree := by
    refine hcontext.bind (hmember.finish fun s => ?_)
    cases isStatic <;> rfl
  rw [Context.write, Writer.append_assoc]
  refine .after _ (fun rest nodes => ?_) hparts
  cases isStatic <;> cases kind <;> rfl

/-- The letters that an entity begins with. -/
def entityLetters : Bytes :=
  ascii "ZFvI"

lemma entity_begins (table : References Scope) (isStatic : Bool) (kind : EntityKind)
    (context : Context) (member : Member) :
    ((Context.entity isStatic kind context member).write table).1.Begins entityLetters := by
  cases isStatic with
  | true => exact .cons rfl
  | false =>
    cases kind with
    | function => exact .cons rfl
    | variableDecl => exact .cons rfl
    | initializer => exact .cons rfl

lemma contextBody_entity {b : UInt8} (hb : b ∈ entityLetters) (unread : Bytes)
    (nodes : References Node) :
    contextBody call limit ⟨b :: unread, nodes⟩ = call .entity limit ⟨b :: unread, nodes⟩ := by
  have hletters : entityLetters.all fun b => startsEntity (Bytes.char b) := rfl
  unfold contextBody
  rw [Parser.bind_of_found (atEnd_cons b unread limit nodes), if_neg Bool.false_ne_true,
    skip "E" hb rfl, skip "e" hb rfl, skip "S" hb rfl,
    skip "s" hb rfl, skip "G" hb rfl,
    Parser.bind_of_found (peek_cons b unread limit nodes),
    List.all_eq_true.1 hletters b hb, if_pos rfl]

/-- A context is read back. The induction is on the context: an entity is a context for the ones in
it, and shares one table with them. -/
lemma contextExpr_read (hfew : Decimal.digitCount limit < Decimal.maxDigits) {context : Context}
    (hproper : context.IsProper) (hfits : context.Fits limit table) {budget : Nat}
    (hbudget : context.nesting ≤ budget) :
    ReadsBack limit table (parse budget .context) context.write context.tree := by
  have hlimit := isWritable_of_few hfew
  induction context generalizing table budget with
  | scope path => exact context_read hlimit hproper hbudget hfits
  | extended definer context ih =>
    obtain ⟨extra, rfl⟩ := Nat.exists_eq_add_of_le' hbudget
    have hparts : ReadsBack limit table (extensionContext (parse (extra + context.nesting)))
        ((Scope.root definer).write ++ context.write) (Context.extended definer context).tree :=
      (moduleName_read hlimit hproper.1 hfits.1).bind
        ((ih hproper.2 hfits.2 (Nat.le_add_left _ extra)).finish fun _ => rfl)
    rw [Context.write, Writer.append_assoc]
    exact .after (ascii "E") (fun _ _ => rfl) hparts
  | entity isStatic kind context member ih =>
    obtain ⟨extra, rfl⟩ := Nat.exists_eq_add_of_le' hbudget
    have hcontext := ih hproper.1 hfits.1
      (Nat.le_trans (Nat.le_max_left _ member.nesting) (Nat.le_add_left _ extra))
    have hmember := entityInContext_read hfew hproper.2.1 hfits.2 hproper.2.2 context.tree
      (Nat.le_trans (Nat.le_max_right context.nesting _) (Nat.le_add_left _ extra))
    exact .before (entity_begins table isStatic kind context member)
      (fun b hb => contextBody_entity hb) (entityBody_read hcontext hmember)

lemma entity_readsBack (hfew : Decimal.digitCount limit < Decimal.maxDigits) {entity : Entity}
    (hproper : entity.asContext.IsProper) (hfits : entity.asContext.Fits limit table) {budget : Nat}
    (hbudget : entity.asContext.nesting ≤ budget + 1) :
    ReadsBack limit table (parse budget .entity) entity.write entity.tree := by
  obtain ⟨isStatic, kind, context, member⟩ := entity
  have hparts : max context.nesting member.nesting + 1 ≤ budget := Nat.le_of_succ_le_succ hbudget
  obtain ⟨extra, rfl⟩ := Nat.exists_eq_add_of_le' hparts
  refine entityBody_read ?_ ?_
  · exact contextExpr_read hfew hproper.1 hfits.1
      (Nat.le_trans (Nat.le_max_left _ member.nesting) (Nat.le_add_left _ extra))
  · exact entityInContext_read hfew hproper.2.1 hfits.2 hproper.2.2 context.tree
      (Nat.le_trans (Nat.le_max_right context.nesting _) (Nat.le_add_left _ extra))

/-- Nothing stands before the global where an entity begins. -/
lemma symbolPrelude_entity {b : UInt8} (hb : b ∈ entityLetters) (unread : Bytes)
    (nodes : References Node) :
    symbolPrelude call limit ⟨b :: unread, nodes⟩ = .found [] ⟨b :: unread, nodes⟩ := by
  unfold symbolPrelude symbolAttributes
  rw [skip "TS" hb rfl, skip "To" hb rfl, skip "TO" hb rfl,
    skip "TD" hb rfl, skip "Td" hb rfl, skip "TV" hb rfl]
  rfl

lemma globalBody_entity {b : UInt8} (hb : b ∈ entityLetters) (unread : Bytes)
    (nodes : References Node) :
    globalBody call limit ⟨b :: unread, nodes⟩ = call .entity limit ⟨b :: unread, nodes⟩ := by
  unfold globalBody
  rw [Parser.bind_of_found (atEnd_cons b unread limit nodes), if_neg Bool.false_ne_true,
    skip "M" hb rfl, skip "PA" hb rfl, skip "t" hb rfl,
    skip "w" hb rfl, skip "W" hb rfl, skip "T" hb rfl]

/-- An entity is the global of its symbol, and nothing stands before it. -/
lemma symbolParts_entity (hfew : Decimal.digitCount limit < Decimal.maxDigits) {entity : Entity}
    (hproper : entity.asContext.IsProper) (hfits : entity.asContext.Fits limit table) {budget : Nat}
    (hbudget : entity.asContext.nesting ≤ budget) :
    ReadsBack limit table (symbolParts (parse budget)) (emit (ascii "_T") ++ entity.write)
      ([], entity.tree) := by
  obtain ⟨budget, rfl⟩ := Nat.exists_eq_add_of_le' (Nat.zero_lt_of_lt hbudget)
  have hbegins : (entity.write table).1.Begins entityLetters :=
    entity_begins table entity.isStatic entity.kind entity.context entity.member
  have hglobal : ReadsBack limit table (parse (budget + 1) .global) entity.write entity.tree :=
    .before hbegins (fun b hb => globalBody_entity hb) (entity_readsBack hfew hproper hfits hbudget)
  have hbody : ReadsBack limit table
      (do let body ← parse (budget + 1) .global; pure (([] : List Node), body)) entity.write
      ([], entity.tree) := hglobal.finish fun _ => rfl
  have hprelude : ReadsBack limit table
      (do
        let prelude ← symbolPrelude (parse (budget + 1))
        let body ← parse (budget + 1) .global
        pure (prelude, body)) entity.write ([], entity.tree) := by
    refine .before hbegins (fun b hb unread nodes => ?_) hbody
    rw [Parser.bind_of_found (symbolPrelude_entity hb unread nodes)]
  exact .after (ascii "_T") (fun _ _ => rfl) hprelude

end Grammar

open Mangle (Entity Scope)

/-- The symbol of an entity is read as the tree of the entity alone, with nothing left and with the
nodes recorded that the references of the mangling count. Only a budget below the nesting of the
entity can cut this off. -/
theorem demangle_entity (settings : Settings) (entity : Entity)
    (hnatural : Decimal.digitCount settings.maxNatural.toInt < Decimal.maxDigits)
    (hproper : entity.asContext.IsProper)
    (hfits : entity.asContext.Fits settings.maxNatural.toInt []) :
    (parseBytes .symbol settings.maxDepth.toInt.toNat settings.maxNatural.toInt
          (Mangle.ascii "_T" ++ entity.mangle) =
        .found (.branch .global [entity.tree]) ⟨[], (entity.write []).2.map Scope.tree⟩ ∧
      demangle .symbol settings (.bytes (Mangle.ascii "_T" ++ entity.mangle)) =
        .tree (.branch .global [entity.tree])) ∨
    (parseBytes .symbol settings.maxDepth.toInt.toNat settings.maxNatural.toInt
          (Mangle.ascii "_T" ++ entity.mangle) = .stopped .exhausted ∧
      settings.maxDepth.toInt.toNat < entity.asContext.nesting) := by
  have hlarge : ∀ budget, entity.asContext.nesting ≤ budget →
      parseBytes .symbol budget settings.maxNatural.toInt (Mangle.ascii "_T" ++ entity.mangle) =
        .found (.branch .global [entity.tree]) ⟨[], (entity.write []).2.map Scope.tree⟩ := by
    intro budget hbudget
    have hparts := Grammar.symbolParts_entity hnatural hproper hfits hbudget []
    rw [List.append_nil] at hparts
    exact Grammar.symbol_found hparts
  obtain hfound | hexhausted := parseBytes_of_large hlarge
  · refine .inl ⟨hfound, ?_⟩
    unfold demangle MangledName.toBytes
    rw [hfound]
    rfl
  · exact .inr hexhausted

/-- The static subscript of a class in an extension by another module, with its getter. -/
def staticSubscript : Entity where
  isStatic := true
  kind := .function
  context := .extended (Mangle.ascii "e")
    (.scope (.member (.root (Mangle.ascii "m")) .classDecl (Mangle.ascii "C")))
  member := .accessor .getter (.plain (Mangle.ascii "subscript"))
    (.function .thick false (.declared (.root (Mangle.ascii "m")) .classDecl (Mangle.ascii "C"))
      (.standard .int))

/-- The type of the subscript refers to the class in its context. -/
theorem demangle_staticSubscript :
    parseBytes .symbol 128 18446744073709551615 (Mangle.ascii "_TZFE1eC1m1Cg9subscriptFS1_Si") =
        .found (.branch .global [staticSubscript.tree])
          ⟨[], (staticSubscript.write []).2.map Scope.tree⟩ ∧
      demangle .symbol {} (.bytes (Mangle.ascii "_TZFE1eC1m1Cg9subscriptFS1_Si")) =
        .tree (.branch .global [staticSubscript.tree]) := by
  have hclass : (Scope.member (.root (Mangle.ascii "m")) .classDecl (Mangle.ascii "C")).Fits
      18446744073709551615 [.root (Mangle.ascii "e")] := by decide
  have hlength : ((Mangle.ascii "subscript").length : Int) ≤ 18446744073709551615 := by decide
  have hproper : staticSubscript.asContext.IsProper :=
    ⟨⟨rfl, rfl, rfl⟩, ⟨rfl, by decide⟩, trivial⟩
  have hfits : staticSubscript.asContext.Fits 18446744073709551615 [] :=
    ⟨⟨by decide, hclass⟩, hlength, by decide⟩
  apply (demangle_entity {} staticSubscript (by decide) hproper hfits).resolve_right
  rintro ⟨-, hnesting⟩
  exact absurd hnesting (by decide)

end SwiftMangling
