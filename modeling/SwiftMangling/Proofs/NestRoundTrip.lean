import Mathlib.Data.List.Induction
import SwiftMangling.Mangle.Nest
import SwiftMangling.Proofs.GrammarReads
import SwiftMangling.Proofs.TypeRoundTrip
import SwiftMangling.Proofs.TypeSurroundings

/-!
# Nests of generic types are read back

The lists of arguments are written outermost first, behind the innermost type, and are read on the way
back from the outermost level. So each list reaches the level that it is written for, and what is
recorded is the nest without arguments.
-/

namespace SwiftMangling

namespace Mangle

open Writer

section Tables

/-- A writer that only adds to the table. -/
def Writer.Extends (w : Writer) : Prop :=
  ∀ table, table <+: (w table).2

lemma Writer.extends_emit (bytes : Bytes) : (emit bytes).Extends :=
  fun _ => List.prefix_rfl

lemma Writer.Extends.append {first second : Writer} (hfirst : first.Extends)
    (hsecond : second.Extends) : (first ++ second).Extends :=
  fun table => (hfirst table).trans (hsecond (first table).2)

lemma Writer.Extends.refer {spelled : Writer} (h : spelled.Extends) (scope : Scope) :
    (Writer.refer scope spelled).Extends := by
  intro table
  cases hposition : table.idxOf? scope with
  | some position =>
    rw [refer_of_some hposition]
    exact List.prefix_rfl
  | none =>
    rw [refer_of_none hposition]
    exact (h table).trans (List.prefix_append _ _)

lemma Scope.extends_write (scope : Scope) : scope.write.Extends := by
  induction scope with
  | root name =>
    unfold Scope.write
    split
    · exact extends_emit _
    · exact (extends_emit _).refer _
  | member parent kind name ih =>
    exact (((extends_emit _).append ih).append (extends_emit _)).refer _

lemma extends_writeProtocols (names : List (Bytes × Bytes)) : (writeProtocols names).Extends := by
  induction names with
  | nil => exact extends_emit []
  | cons path names ih =>
    exact ((((Scope.root path.1).extends_write.append (extends_emit _)).refer _).append ih)

mutual

/-- Writing a type adds to the table. -/
lemma TypeExpr.extends_write (type : TypeExpr) : type.write.Extends := by
  cases type with
  | builtin type => exact extends_emit _
  | standard type => exact extends_emit _
  | param depth index => exact extends_emit _
  | declared parent kind name => exact (Scope.member parent kind name).extends_write
  | protocols names =>
    exact ((extends_emit _).append (extends_writeProtocols names)).append (extends_emit _)
  | function kind throwing arguments result =>
    exact ((extends_emit _).append arguments.extends_write).append result.extends_write
  | tuple variadic elements =>
    exact ((extends_emit _).append (TypeExpr.extends_writeElements elements)).append (extends_emit _)
  | modified modifier type => exact (extends_emit _).append type.extends_write
  | inOut type => exact (extends_emit _).append type.extends_write
  | bound type arguments =>
    exact ((extends_emit _).append (TypeExpr.extends_writeAll arguments)).append (extends_emit _)
termination_by structural type

lemma TypeExpr.extends_writeElements (elements : List (Option Bytes × TypeExpr)) :
    (TypeExpr.writeElements elements).Extends := by
  cases elements with
  | nil => exact extends_emit []
  | cons element rest =>
    obtain ⟨label, type⟩ := element
    exact ((extends_emit _).append type.extends_write).append (TypeExpr.extends_writeElements rest)
termination_by structural elements

lemma TypeExpr.extends_writeAll (types : List TypeExpr) : (TypeExpr.writeAll types).Extends := by
  cases types with
  | nil => exact extends_emit []
  | cons type rest => exact type.extends_write.append (TypeExpr.extends_writeAll rest)
termination_by structural types

end

/-- The scopes that are spelled out where none has been: a module other than that of the standard
library, and each declaration on the path. -/
def Scope.spelled : Scope → References Scope
  | root name => if root name = stdlib then [] else [root name]
  | member parent kind name => parent.spelled ++ [member parent kind name]

lemma Scope.write_nil (scope : Scope) : (scope.write []).2 = scope.spelled := by
  induction scope with
  | root name =>
    unfold Scope.write Scope.spelled
    split <;> rfl
  | member parent kind name ih =>
    show References.record (parent.write []).2 _ = _
    rw [ih]
    rfl

end Tables

namespace Nest

/-- The module and the levels have names that do not begin with a digit, no level is a protocol, and the
arguments have manglings. -/
def IsProper (nest : Nest) : Prop :=
  nest.levels ≠ [] ∧ nest.scope.IsProper ∧
    ∀ level ∈ nest.levels, level.kind ≠ .protocolDecl ∧ TypeExpr.allProper level.arguments

/-- The numbers are within the limit that are written for lists of arguments. -/
def ArgumentsFit (limit : Int) : List NestLevel → References Scope → Prop
  | [], _ => True
  | level :: levels, table =>
    TypeExpr.allFit limit level.arguments table ∧
      ArgumentsFit limit levels (TypeExpr.writeAll level.arguments table).2

/-- The numbers are within the limit that are written for a nest. -/
def Fits (limit : Int) (nest : Nest) : Prop :=
  nest.scope.Fits limit [] ∧ ArgumentsFit limit nest.levels nest.scope.spelled

/-- The budget that reading the arguments of some levels takes: each level is read inside the next. -/
def argumentsNesting (levels : List NestLevel) : Nat :=
  levels.foldl (fun depth level => max depth (TypeExpr.allNesting level.arguments) + 1) 0

/-- The budget that reading a nest takes. -/
def nesting (nest : Nest) : Nat :=
  max nest.scope.nesting (argumentsNesting nest.levels + 2)

instance decideArgumentsFit (limit : Int) :
    (levels : List NestLevel) → (table : References Scope) → Decidable (ArgumentsFit limit levels table)
  | [], _ => isTrue trivial
  | level :: levels, table =>
    have := TypeExpr.decideAllFit limit level.arguments table
    have := decideArgumentsFit limit levels (TypeExpr.writeAll level.arguments table).2
    inferInstanceAs (Decidable (TypeExpr.allFit limit level.arguments table ∧
      ArgumentsFit limit levels (TypeExpr.writeAll level.arguments table).2))

instance (level : NestLevel) : Decidable (TypeExpr.allProper level.arguments) :=
  TypeExpr.decideAllProper level.arguments

instance (nest : Nest) : Decidable nest.IsProper :=
  inferInstanceAs (Decidable (nest.levels ≠ [] ∧ nest.scope.IsProper ∧
    ∀ level ∈ nest.levels, level.kind ≠ .protocolDecl ∧ TypeExpr.allProper level.arguments))

instance (limit : Int) (nest : Nest) : Decidable (nest.Fits limit) :=
  inferInstanceAs (Decidable (nest.scope.Fits limit [] ∧
    ArgumentsFit limit nest.levels nest.scope.spelled))

lemma extends_writeArguments (levels : List NestLevel) : (writeArguments levels).Extends := by
  induction levels with
  | nil => exact extends_emit []
  | cons level levels ih =>
    exact ((TypeExpr.extends_writeAll level.arguments).append (extends_emit _)).append ih

lemma writeArguments_concat (levels : List NestLevel) (level : NestLevel) :
    writeArguments (levels ++ [level]) =
      writeArguments levels ++ (TypeExpr.writeAll level.arguments ++ emit (ascii "_")) := by
  induction levels with
  | nil => exact append_nil _
  | cons outer levels ih =>
    show TypeExpr.writeAll outer.arguments ++ emit (ascii "_") ++ writeArguments (levels ++ [level]) = _
    rw [ih, ← append_assoc]
    rfl

lemma argumentsFit_concat {limit : Int} {levels : List NestLevel} {level : NestLevel}
    {table : References Scope} (h : ArgumentsFit limit (levels ++ [level]) table) :
    ArgumentsFit limit levels table ∧
      TypeExpr.allFit limit level.arguments (writeArguments levels table).2 := by
  induction levels generalizing table with
  | nil => exact ⟨trivial, h.1⟩
  | cons outer levels ih =>
    have hlater := ih h.2
    exact ⟨⟨h.1, hlater.1⟩, hlater.2⟩

lemma argumentsNesting_concat (levels : List NestLevel) (level : NestLevel) :
    argumentsNesting (levels ++ [level]) =
      max (argumentsNesting levels) (TypeExpr.allNesting level.arguments) + 1 := by
  simp only [argumentsNesting, List.foldl_append, List.foldl_cons, List.foldl_nil]

/-- The path to the last of some levels. -/
def path (module : Bytes) (levels : List NestLevel) : Scope :=
  scope ⟨module, levels⟩

/-- The last of some levels, with the arguments of all of them. -/
def innermost (module : Bytes) (levels : List NestLevel) : Node :=
  levels.foldl levelTree (nameNode .moduleName module)

lemma path_concat (module : Bytes) (levels : List NestLevel) (level : NestLevel) :
    path module (levels ++ [level]) = .member (path module levels) level.kind level.name := by
  simp only [path, scope, List.foldl_append, List.foldl_cons, List.foldl_nil]

lemma innermost_concat (module : Bytes) (levels : List NestLevel) (level : NestLevel) :
    innermost module (levels ++ [level]) = levelTree (innermost module levels) level := by
  simp only [innermost, List.foldl_append, List.foldl_cons, List.foldl_nil]

end Nest

end Mangle

namespace Grammar

open Mangle (Writer Scope TypeExpr Nest NestLevel DeclKind ascii nameNode)
open Mangle.Writer (emit)

variable {limit : Int} {table : References Scope} {budget : Nat}

/-- A level with its list of arguments. -/
lemma applyArguments_level (parent : Node) {level : NestLevel} (hkind : level.kind ≠ .protocolDecl) :
    applyArguments (.branch level.kind.kind [parent, nameNode .identifier level.name])
      (TypeExpr.trees level.arguments) = pure (Nest.levelTree parent level) := by
  obtain ⟨kind, name, arguments⟩ := level
  have hbound : boundKind? kind.kind = some (Nest.boundKind kind) := by
    cases kind with
    | protocolDecl => exact absurd rfl hkind
    | _ => rfl
  cases arguments with
  | nil => rfl
  | cons argument rest =>
    have hsome : (TypeExpr.trees (argument :: rest)).isEmpty = false := rfl
    rw [applyArguments, hsome]
    simp only [Node.branch, Node.kind, hbound, Bool.false_eq_true, if_false, orRefuse, pure_bind,
      branch_single, branch_pair, branch_map_some]
    rfl

lemma argumentList_read (hfew : Decimal.digitCount limit < Decimal.maxDigits)
    {arguments : List TypeExpr} (hproper : TypeExpr.allProper arguments)
    (hfits : TypeExpr.allFit limit arguments table) (hbudget : TypeExpr.allNesting arguments ≤ budget) :
    ReadsBack limit table (argumentList (parse budget))
      (TypeExpr.writeAll arguments ++ emit (ascii "_")) (TypeExpr.trees arguments) :=
  gather_read (arguments_read hfew arguments hproper hfits hbudget)

lemma isOutermost_declKind (kind : DeclKind) : isOutermost kind.kind = false := by
  cases kind <;> rfl

/-- A level on its parent, for which the lists of arguments of all levels outside are read. -/
lemma onBoundParent_read {module : Bytes} {levels : List NestLevel} (kind : DeclKind) (name : Bytes)
    (hparent : levels ≠ [] → ReadsBack limit table
      (parse budget (.boundArguments (Nest.path module levels).tree)) (Nest.writeArguments levels)
      (Nest.innermost module levels)) :
    ReadsBack limit table
      (onBoundParent (parse budget) (Scope.member (Nest.path module levels) kind name).tree)
      (Nest.writeArguments levels)
      (.branch kind.kind [Nest.innermost module levels, nameNode .identifier name]) := by
  obtain rfl | ⟨outer, level, hlevels⟩ := levels.eq_nil_or_concat
  · exact .pure _
  · rw [List.concat_eq_append] at hlevels
    subst hlevels
    have houter : isOutermost (Nest.path module (outer ++ [level])).tree.kind = false := by
      rw [Nest.path_concat]
      exact isOutermost_declKind level.kind
    rw [Scope.tree, Node.branch, Reads.onBoundParent_pair, houter, if_neg Bool.false_ne_true]
    refine (hparent (by simp)).finish fun s => ?_
    rw [branch_pair]
    rfl

/-- The lists of arguments are read outermost first. The induction is on the levels from the innermost
one: its own list comes last, when the lists of the levels outside have been read. -/
lemma boundArguments_read (hfew : Decimal.digitCount limit < Decimal.maxDigits) {module : Bytes}
    {levels : List NestLevel} (hlevels : levels ≠ [])
    (hproper : ∀ level ∈ levels, level.kind ≠ .protocolDecl ∧ TypeExpr.allProper level.arguments)
    (hfits : Nest.ArgumentsFit limit levels table) (hbudget : Nest.argumentsNesting levels ≤ budget) :
    ReadsBack limit table (parse budget (.boundArguments (Nest.path module levels).tree))
      (Nest.writeArguments levels) (Nest.innermost module levels) := by
  induction levels using List.reverseRecOn generalizing budget with
  | nil => exact absurd rfl hlevels
  | append_singleton levels level ih =>
    obtain ⟨hkind, harguments⟩ := hproper level (by simp)
    obtain ⟨hfitsOuter, hfitsOwn⟩ := Nest.argumentsFit_concat hfits
    rw [Nest.argumentsNesting_concat] at hbudget
    obtain ⟨budget, rfl⟩ := Nat.exists_eq_add_of_le' (Nat.zero_lt_of_lt hbudget)
    obtain ⟨hbudgetOuter, hbudgetOwn⟩ := Nat.max_le.1 (Nat.le_of_succ_le_succ hbudget)
    have hparent := onBoundParent_read level.kind level.name fun hsome =>
      ih hsome (fun outer houter => hproper outer (by simp [houter])) hfitsOuter hbudgetOuter
    have hlist := argumentList_read hfew harguments hfitsOwn hbudgetOwn
    rw [Nest.path_concat, Nest.innermost_concat, Nest.writeArguments_concat]
    refine hparent.bind (hlist.finish fun s => ?_)
    rw [applyArguments_level _ hkind]
    rfl

/-- A nest is its innermost type, and then the arguments of all levels. -/
lemma boundGeneric_read (hfew : Decimal.digitCount limit < Decimal.maxDigits) {nest : Nest}
    (hproper : nest.IsProper) (hfits : nest.Fits limit) (hbudget : nest.nesting ≤ budget + 2) :
    ReadsBack limit [] (boundGeneric (parse budget)) (nest.scope.write ++ Nest.writeArguments nest.levels)
      (Nest.innermost nest.module nest.levels) := by
  obtain ⟨module, levels⟩ := nest
  obtain ⟨hlevels, hnames, harguments⟩ := hproper
  obtain ⟨hscope, hlists⟩ := hfits
  obtain ⟨hbudgetScope, hbudgetLists⟩ := Nat.max_le.1 hbudget
  have hbound : ReadsBack limit (((Nest.path module levels).write []).2)
      (parse budget (.boundArguments (Nest.path module levels).tree)) (Nest.writeArguments levels)
      (Nest.innermost module levels) := by
    rw [Scope.write_nil]
    exact boundArguments_read hfew hlevels harguments hlists (Nat.le_of_add_le_add_right hbudgetLists)
  refine ReadsBack.bind ?_ hbound
  show ReadsBack limit [] (nominal (parse budget)) (Nest.path module levels).write
    (Nest.path module levels).tree
  have hpath : Nest.path module levels = Nest.scope ⟨module, levels⟩ := rfl
  rw [← hpath] at hnames hscope hbudgetScope
  obtain ⟨outer, level, hlast⟩ := levels.eq_nil_or_concat.resolve_left hlevels
  rw [List.concat_eq_append] at hlast
  subst hlast
  rw [Nest.path_concat] at hnames hscope hbudgetScope ⊢
  refine member_read (isWritable_of_few hfew) hnames hscope (fun _ _ => rfl) (fun rest nodes => ?_)
    (context_read (isWritable_of_few hfew) hnames.1 (Nat.le_of_add_le_add_right hbudgetScope))
  cases level.kind <;> rfl

/-- A nest is read back as a type. -/
lemma nest_readsBack (hfew : Decimal.digitCount limit < Decimal.maxDigits) {nest : Nest}
    (hproper : nest.IsProper) (hfits : nest.Fits limit) (hbudget : nest.nesting ≤ budget) :
    ReadsBack limit [] (parse budget .type) nest.write nest.tree := by
  have htwo : 2 ≤ budget := Nat.le_trans (Nat.le_trans (Nat.le_add_left _ _) (Nat.le_max_right _ _)) hbudget
  obtain ⟨budget, rfl⟩ := Nat.exists_eq_add_of_le' htwo
  rw [parse_type, Nest.write, Writer.append_assoc]
  refine ReadsBack.finish ?_ fun s => rfl
  exact .after (ascii "G") (fun _ _ => rfl) (boundGeneric_read hfew hproper hfits hbudget)

end Grammar

open Mangle (Nest NestLevel TypeExpr Scope ascii)

/-- The mangling of a nest of generic types is read as the nest with each list of arguments at its own
level, whatever follows it and up to there. Recorded are the module and the levels without arguments,
outermost first, and then what the arguments have spelled out. Only a budget below the nesting can cut
this off. -/
theorem demangle_nest (settings : Settings) (nest : Nest) (rest : Bytes)
    (hnatural : Decimal.digitCount settings.maxNatural.toInt < Decimal.maxDigits)
    (hproper : nest.IsProper) (hfits : nest.Fits settings.maxNatural.toInt) :
    (∃ later, (Nest.writeArguments nest.levels nest.scope.spelled).2 = nest.scope.spelled ++ later ∧
      parseBytes .type settings.maxDepth.toInt.toNat settings.maxNatural.toInt (nest.mangle ++ rest) =
        .found nest.tree ⟨rest, (nest.scope.spelled ++ later).map Scope.tree⟩ ∧
      demangle .type settings (.bytes (nest.mangle ++ rest)) = .tree nest.tree) ∨
    (parseBytes .type settings.maxDepth.toInt.toNat settings.maxNatural.toInt (nest.mangle ++ rest) =
        .stopped .exhausted ∧
      settings.maxDepth.toInt.toNat < nest.nesting) := by
  obtain ⟨later, hlater⟩ := Nest.extends_writeArguments nest.levels nest.scope.spelled
  have htable : (nest.write []).2 = nest.scope.spelled ++ later := by
    rw [hlater, ← Scope.write_nil]
    rfl
  have hlarge : ∀ budget, nest.nesting ≤ budget →
      parseBytes .type budget settings.maxNatural.toInt (nest.mangle ++ rest) =
        .found nest.tree ⟨rest, (nest.scope.spelled ++ later).map Scope.tree⟩ := by
    intro budget hbudget
    rw [← htable]
    exact Grammar.nest_readsBack hnatural hproper hfits hbudget rest
  obtain hfound | hexhausted := parseBytes_of_large hlarge
  · refine .inl ⟨later, hlater.symm, hfound, ?_⟩
    exact demangle_eq_tree_iff.2 ⟨_, hfound⟩
  · exact .inr hexhausted

/-- A structure without arguments in an array of itself in a class of integers: the lists stand in the
order of the levels, and the last one refers to the class without its arguments. -/
def sharedNest : Nest where
  module := ascii "m"
  levels := [
    { kind := .classDecl, name := ascii "A", arguments := [.standard .int] },
    { kind := .structureDecl, name := ascii "B", arguments := [] },
    { kind := .enumDecl, name := ascii "C",
      arguments := [.declared (.root (ascii "m")) .classDecl (ascii "A"), .standard .bool] }]

/-- The references of the last list are to the class as it is spelled out, and no level with its
arguments is recorded. -/
theorem demangle_sharedNest :
    demangle .type {} (.bytes (ascii "GOVC1m1A1B1CSi__S0_Sb_")) = .tree sharedNest.tree ∧
      parseBytes .type 128 18446744073709551615 (ascii "GOVC1m1A1B1CSi__S0_Sb_") =
        .found sharedNest.tree ⟨[], sharedNest.scope.spelled.map Scope.tree⟩ := by
  have hread := (demangle_nest {} sharedNest [] (by decide) (by decide) (by decide)).resolve_right
    fun hexhausted => absurd hexhausted.2 (by decide)
  obtain ⟨later, hlater, hfound, htree⟩ := hread
  have hnothing : (Nest.writeArguments sharedNest.levels sharedNest.scope.spelled).2 =
      sharedNest.scope.spelled := rfl
  rw [← hlater, hnothing] at hfound
  exact ⟨htree, hfound⟩

end SwiftMangling
