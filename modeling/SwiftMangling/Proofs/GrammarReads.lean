import SwiftMangling.Proofs.Reads

/-!
# Productions find well-formed nodes

Each production finds nodes of its kinds, well formed, and within a budget that is large enough for the
unread bytes it finds them without exhausting the budget. Declarations and associated types are recorded
with one level more than what they stand in, for which at least a byte is taken.
-/

namespace SwiftMangling.Grammar

/-- What a node becomes when it is given generic arguments. -/
structure Bound (node result : Node) : Prop where
  wellFormed : result.WellFormed
  kind : result.kind = node.kind ∨ result.kind ∈ Kind.boundGenerics
  levels : result.levels ≤ node.levels
  type : node.kind = .type → result = node

lemma Bound.refl {node : Node} (h : node.WellFormed) : Bound node node :=
  ⟨h, .inl rfl, Nat.le_refl _, fun _ => rfl⟩

lemma Bound.trans {node node' result : Node} (h : Bound node node') (hkind : node'.kind = node.kind)
    (h' : Bound node' result) : Bound node result where
  wellFormed := h'.wellFormed
  kind := by rw [← hkind]; exact h'.kind
  levels := h'.levels.trans h.levels
  type htype := (h'.type (hkind.trans htype)).trans (h.type htype)

lemma Bound.made {node result : Node} (h : Bound node result) {kinds : List Kind}
    (hnode : node.kind ∈ kinds) (hgenerics : ∀ kind ∈ Kind.boundGenerics, kind ∈ kinds) :
    Made (.isOf kinds) result := by
  refine ⟨h.wellFormed, decide_eq_true ?_⟩
  obtain hkind | hkind := h.kind
  · rwa [hkind]
  · exact hgenerics _ hkind

/-- Productions that find well-formed nodes below a bound for the unread bytes. -/
structure Sufficient (total bound : Nat) (call : Calls) : Prop where
  settled : Settled call
  type : Reads total bound (made (.isOf [.type])) (call .type)
  bareType : Reads total bound (made (.isOf Kind.bareTypes)) (call .bareType)
  context : Reads total bound (held total Kind.scopes) (call .context)
  entity : Reads total bound (held total Kind.scopes) (call .entity)
  global : Reads total bound (made (.isOf Kind.globals)) (call .global)
  archetype : Reads total bound (held total [.associatedTypeRef]) (call .archetype)
  boundArguments : ∀ nominal, Made (.isOf Kind.bindable) nominal → nominal.levels ≤ total →
    Reads total bound (fun result _ => Bound nominal result) (call (.boundArguments nominal))
  signature : ∀ pseudogeneric, Reads total bound (made (.isOf [signatureKind pseudogeneric]))
    (call (.signature pseudogeneric))
  implFunction : Reads total bound (made (.isOf [.implFunctionType])) (call .implFunction)

lemma Sufficient.below {total bound bound' : Nat} {call : Calls} (h : Sufficient total bound' call)
    (hbound : bound ≤ bound') : Sufficient total bound call where
  settled := h.settled
  type := h.type.below hbound
  bareType := h.bareType.below hbound
  context := h.context.below hbound
  entity := h.entity.below hbound
  global := h.global.below hbound
  archetype := h.archetype.below hbound
  boundArguments nominal hnominal hlevels := (h.boundArguments nominal hnominal hlevels).below hbound
  signature pseudogeneric := (h.signature pseudogeneric).below hbound
  implFunction := h.implFunction.below hbound

/-- A node that stands in a context takes a level more, and a byte is taken for it. -/
lemma Held.onto {total : Nat} {kinds kinds' : List Kind} {context node : Node} {rest : Nat}
    (hcontext : Held total kinds context (rest + 1)) (hnode : Made (.isOf kinds') node)
    (hlevels : node.levels ≤ context.levels + 1) : Held total kinds' node rest :=
  ⟨hnode, by have := hcontext.levels; omega⟩

namespace Reads

variable {total bound : Nat}

section Names

lemma index : Reads total bound anything Grammar.index :=
  ite _ (pure fun _ _ _ => trivial) <| natural.bind fun _ _ _ => (demand _).bind fun _ _ _ =>
    pure fun _ _ _ => trivial

lemma indexNode : Reads total bound (made (.isOf [.number])) Grammar.indexNode :=
  index.bind fun _ _ _ => numbered (made_numbered rfl (.head _) _)

lemma builtinSize : Reads total bound anything Grammar.builtinSize :=
  natural.bind fun _ _ _ => (demand _).bind fun _ _ _ => pure fun _ _ _ => trivial

lemma named {test : Test} {kind : Kind} {content : Text} (h : Made test (.named kind content)) :
    Reads total bound (made test) (Grammar.named kind content) :=
  pure fun _ _ _ => h

lemma identifierText (punycoded operator : Bool) (bytes : Bytes) :
    Reads total bound anything (Grammar.identifierText punycoded operator bytes) := by
  obtain h | ⟨text, h⟩ := identifierText_eq punycoded operator bytes
  · rw [h]
    exact refuse
  · rw [h]
    exact pure fun _ _ _ => trivial

lemma identifierKind (operator : Bool) :
    Reads total bound (fun kind _ => kind ∈ Kind.names) (Grammar.identifierKind none operator) := by
  cases operator with
  | false => exact pure fun _ _ _ => by decide
  | true =>
    refine next.bind fun letter _ _ => (orRefuse _).weaken fun kind _ _ _ hkind => ?_
    unfold Operator.fixity? at hkind
    split at hkind <;> cases hkind <;> decide

/-- A plain name is a leaf that carries its text. -/
lemma made_name {kind : Kind} (hkind : kind ∈ Kind.names) (content : Text) :
    Made (.isOf Kind.names) (.named kind content) := by
  have hleaf : ∀ kind ∈ Kind.names, kind.carried = .text ∧ [] ∈ kind.shapes := by decide
  obtain ⟨hcarried, hshape⟩ := hleaf kind hkind
  exact (made_named hcarried hshape content).among (by simpa using hkind)

lemma identifier : Reads total bound (made (.isOf Kind.names)) (Grammar.identifier none) :=
  unlessEnd <| (accept _).bind fun punycoded _ _ => (accept _).bind fun operator _ _ =>
    (identifierKind operator).bind fun _ _ hkind => natural.bind fun length _ _ =>
    (advance length).bind fun bytes _ _ => (identifierText punycoded operator bytes).bind fun text _ _ =>
    named (made_name hkind text)

lemma spelledText : Reads total bound anything Grammar.spelledText := by
  refine unlessEnd <| (accept _).bind fun punycoded _ _ => (accept _).bind fun operator _ _ => ?_
  cases operator with
  | true => exact refuse
  | false =>
    exact natural.bind fun length _ _ => (advance length).bind fun bytes _ _ =>
      identifierText punycoded false bytes

/-- An identifier of a required kind is a leaf with a text. -/
lemma identifierOf (kind : Kind) :
    Reads total bound (fun node _ => ∃ text, node = .named kind text)
      (Grammar.identifier (some kind)) := by
  rw [identifier_some]
  exact spelledText.bind fun text _ _ => pure fun _ _ _ => ⟨text, rfl⟩

lemma declName : Reads total bound (made (.isOf Kind.declNames)) Grammar.declName :=
  ite _ (indexNode.bind fun _ _ hnumber => identifier.bind fun _ _ hname =>
      branch (made_branch rfl (.head _) (.one hnumber (.one hname .nil)) rfl)) <|
    ite _ (identifier.bind fun _ _ hfile => identifier.bind fun _ _ hname =>
      branch (made_branch rfl (.head _) (.one hfile (.present hname .nil)) rfl)) <|
    identifier.among (by decide)

end Names

section Substitutions

/-- A leaf is held in any case. -/
lemma held_leaf {kinds : List Kind} {node : Node} (h : Made (.isOf kinds) node)
    (hlevels : node.levels = 0) {rest : Nat} (hrest : rest ≤ total) : Held total kinds node rest :=
  ⟨h, by omega⟩

lemma held_stdlibModule {rest : Nat} (hrest : rest ≤ total) :
    Held total [.moduleName] stdlibModule rest :=
  held_leaf (made_named rfl (.head _) _) (Node.levels_named _ _) hrest

/-- A declared type has a context and a name. -/
lemma made_declared {kind : Kind} (hkind : kind ∈ Kind.declared) {context name : Node}
    (hcontext : Made (.isOf Kind.scopes) context) (hname : Made (.isOf Kind.declNames) name) :
    Made (.isOf [kind]) (.branch kind [context, name]) := by
  have hmade : Made (.isOf Kind.declared) (.branch kind [context, name]) :=
    made_family (by decide) hkind (.one hcontext (.one hname .nil))
  exact hmade.narrow rfl

lemma made_stdlibType {c : Char} {kind : Kind} {name : String}
    (h : standardType? c = some (kind, name)) :
    Made (.isOf Kind.referable) (stdlibType kind name) := by
  have hkind : kind ∈ Kind.declared := by
    unfold standardType? at h
    split at h <;> cases h <;> decide
  have hmodule : Made (.isOf Kind.scopes) stdlibModule :=
    (made_named rfl (.head _) _).among (by decide)
  have hname : Made (.isOf Kind.declNames) (.named .identifier name) :=
    (made_name (by decide) name).among (by decide)
  exact (made_declared hkind hmodule hname).among
    (List.forall_mem_singleton.2 (List.mem_append_left _ hkind))

/-- A node that is held is given back. -/
lemma give {kinds : List Kind} {node : Node} {rest : Nat} (h : Held total kinds node rest) :
    Reads total (rest + 1) (held total kinds) (Pure.pure node) :=
  pure fun _ hrest _ => h.of_le (Nat.le_of_lt_succ hrest)

lemma substitution : Reads total bound (held total Kind.referable) Grammar.substitution := by
  have hleaf : ∀ {bound : Nat} (name : Text),
      Reads total bound (held total Kind.referable) (Pure.pure (.named .moduleName name)) := fun name =>
    pure fun _ _ hrest =>
      (held_leaf (made_named rfl (.head _) _) (Node.levels_named _ _) hrest).among (by decide)
  refine exactly fun count _ hinside => unlessEnd <| ite _ (hleaf _) <| ite _ (hleaf _) <|
    onLetter fun c => ?_
  cases htype : standardType? c with
  | none => exact .inl (index.bind fun position _ _ => recalled position)
  | some type =>
    -- A well-known type has one level, for which the letter is taken.
    refine .inr ⟨ne_dot_of_lookup htype rfl, _, rfl, pure fun rest hrest _ => ?_⟩
    have hlevels : (stdlibType type.1 type.2).levels = 1 := Node.levels_pair _ _ _ _ _
    exact ⟨made_stdlibType htype, by omega⟩

/-- A node that is recorded and given back. -/
lemma recorded {kinds : List Kind} {node : Node} (hkinds : ∀ kind ∈ kinds, kind ∈ Kind.referable)
    (hnode : ∀ rest, rest < bound → rest ≤ total → Held total kinds node rest) :
    Reads total bound (held total kinds) (do Grammar.record node; Pure.pure node) :=
  (record fun rest hrest hinside => (hnode rest hrest hinside).among hkinds).bind fun _ _ _ =>
    pure hnode

lemma moduleName : Reads total bound (held total [.moduleName]) Grammar.moduleName := by
  refine ite _ (pure fun _ _ => held_stdlibModule) <|
    ite _ (substitution.bindAt fun node rest _ _ hnode => ?_) <|
    (identifierOf _).bind fun node _ hnode => ?_
  · split
    · next hkind => exact give (hnode.narrow hkind)
    · exact refuse
  · obtain ⟨text, rfl⟩ := hnode
    exact recorded (by decide) fun _ _ =>
      held_leaf (made_named rfl (.head _) text) (Node.levels_named _ _)

end Substitutions

section Nominals

variable {call : Calls}

/-- What is made of a context and a name, and recorded, takes a level more than the context. -/
lemma recordedOnto {kind : Kind} {test : Test} {context : Node} {rest least ahead : Nat}
    {p : Parser Node} (hkind : kind ∈ Kind.referable) (hcontext : Held total Kind.scopes context rest)
    (hp : Reads total (rest + 1) (made test) p) (hleast : Settles (least + 1) ahead p)
    (hmade : ∀ name, Made test name → Made (.isOf [kind]) (.branch kind [context, name])) :
    Reads total (rest + 1) (held total [kind]) (do
      let name ← p
      let node ← Grammar.branch kind [context, name]
      Grammar.record node
      Pure.pure node) := by
  refine hp.before hleast fun name _ hname => ?_
  rw [branch_pair, pure_bind]
  exact recorded (List.forall_mem_singleton.2 hkind) fun rest' hrest' _ =>
    (hcontext.of_le hrest').onto (hmade name hname) (Node.levels_pair _ _ _ _ _).le

/-- A declaration in a context. -/
lemma inContext {kind : Kind} (hkind : kind ∈ Kind.declared) {context : Node} {rest : Nat}
    (hcontext : Held total Kind.scopes context rest) :
    Reads total (rest + 1) (held total [kind]) (do
      let name ← Grammar.declName
      let node ← Grammar.branch kind [context, name]
      Grammar.record node
      Pure.pure node) :=
  recordedOnto (List.mem_append_left _ hkind) hcontext declName Settles.declName
    fun _ hname => made_declared hkind hcontext.made hname

lemma protocolInContext {context : Node} {rest : Nat} (hcontext : Held total Kind.scopes context rest) :
    Reads total (rest + 1) (held total [.protocolDecl]) (Grammar.protocolInContext context) :=
  inContext (by decide) hcontext

variable (h : Sufficient total bound call)
include h

lemma declaration {kind : Kind} (hkind : kind ∈ Kind.declared) :
    Reads total bound (held total [kind]) (Grammar.declaration call kind) :=
  h.context.bindAt fun _ _ _ _ hcontext => inContext hkind hcontext

lemma protocol : Reads total bound (held total [.protocolDecl]) (Grammar.protocol call) := by
  refine ite _ (substitution.bindAt fun node rest _ _ hnode => ?_) <|
    ite _ (exactly fun count _ hinside => ?_) (declaration h (by decide))
  · split
    · next hprotocol => exact give (hnode.narrow hprotocol)
    · split
      · next hmodule => exact protocolInContext ((hnode.narrow hmodule).among (by decide))
      · exact refuse
  · exact protocolInContext ((held_stdlibModule hinside).among (by decide))

lemma protocolType :
    Reads total bound (made (.isTypeOf [.protocolDecl])) (Grammar.protocolType call) :=
  (protocol h).bind fun node _ hnode => branch (made_branch rfl (.head _)
    (.one (hnode.made.among (by decide)) .nil) hnode.made.passes)

lemma nominal : Reads total (bound + 1) (held total Kind.referable) (Grammar.nominal call) := by
  have hdeclared : ∀ kind ∈ Kind.declared,
      Reads total bound (held total Kind.referable) (Grammar.declaration call kind) := fun kind hkind =>
    (declaration h hkind).heldAmong (List.forall_mem_singleton.2 (List.mem_append_left _ hkind))
  exact iteBelow _ rfl substitution <| iteBelow _ rfl (hdeclared _ (by decide)) <|
    iteBelow _ rfl (hdeclared _ (by decide)) <| iteBelow _ rfl (hdeclared _ (by decide)) <|
    iteBelow _ rfl (hdeclared _ (by decide)) refuse

end Nominals

section GenericArguments

variable {call : Calls}

/-- A node with two children or more on its parent, with the parent's arguments. -/
lemma onBoundParent_pair (kind : Kind) (payload : Payload) (parent name : Node) (rest : List Node) :
    Grammar.onBoundParent call (.mk kind payload (parent :: name :: rest)) =
      if isOutermost parent.kind then Pure.pure (.mk kind payload (parent :: name :: rest))
      else call (.boundArguments parent) >>= fun parent => Grammar.branch kind [parent, name] :=
  rfl

/-- A node that is put together again on a parent that was given arguments. -/
lemma bound_rebuilt {kind : Kind} {payload : Payload} {parent parent' name : Node} {rest : List Node}
    (hnode : (Node.mk kind payload (parent :: name :: rest)).WellFormed) (hparent : Bound parent parent')
    (hresult : (Node.branch kind [parent', name]).WellFormed) :
    Bound (.mk kind payload (parent :: name :: rest)) (.branch kind [parent', name]) where
  wellFormed := hresult
  kind := .inl rfl
  levels := by
    rw [Node.branch, Node.levels_pair, Node.levels_pair]
    exact Nat.succ_le_succ hparent.levels
  type htype := by
    obtain rfl : kind = .type := htype
    obtain ⟨bare, hbare⟩ := type_parts hnode
    cases hbare

lemma onBoundParent {node : Node} (hnode : Made (.isOf Kind.bindable) node)
    (hparent : ∀ parent, Made (.isOf Kind.bindable) parent → parent.levels < node.levels →
      Reads total bound (fun result _ => Bound parent result) (call (.boundArguments parent))) :
    Reads total bound (fun result _ => Bound node result ∧ result.kind = node.kind)
      (Grammar.onBoundParent call node) := by
  have hself : Reads total bound (fun result _ => Bound node result ∧ result.kind = node.kind)
      (Pure.pure node) := pure fun _ _ _ => ⟨.refl hnode.wellFormed, rfl⟩
  obtain ⟨kind, payload, children⟩ := node
  match children with
  | [] => exact refuse
  | [parent] =>
    show Reads _ _ _ (if isOutermost parent.kind then _ else _)
    split
    · exact hself
    · exact refuse
  | parent :: name :: rest =>
    rw [onBoundParent_pair]
    split
    · exact hself
    · next houter =>
      have hlevels := Node.levels_pair kind payload parent name rest
      obtain ⟨hscope, hrebuilt⟩ | ⟨hunbound, hwell⟩ := onParent hnode.kind_mem hnode.wellFormed
      · have hbindable : parent.kind ∈ Kind.bindable := by
          refine Kind.mem_bindable_of_scope _ hscope.kind_mem ?_ ?_ <;> rintro heq <;>
            simp [isOutermost, heq] at houter
        refine (hparent parent ⟨hscope.wellFormed, decide_eq_true hbindable⟩ (by omega)).bind
          fun parent' _ hparent' => ?_
        have hresult := hrebuilt parent' (hparent'.made hscope.kind_mem (by decide))
        rw [branch_pair]
        exact pure fun _ _ _ => ⟨bound_rebuilt hnode.wellFormed hparent' hresult, rfl⟩
      · -- Arguments do not change a type.
        refine (hparent parent (hunbound.among (by decide)) (by omega)).bind
          fun parent' _ hparent' => ?_
        obtain rfl := hparent'.type hunbound.kind_eq
        rw [branch_pair]
        exact pure fun _ _ _ => ⟨bound_rebuilt hnode.wellFormed hparent' hwell, rfl⟩

lemma argumentList (htype : Reads total bound (made (.isOf [.type])) (call .type)) :
    Reads total bound (each (.isOf [.type])) (Grammar.argumentList call) := by
  refine gatherEach (accept _) fun _ =>
    htype.bind fun argument _ hargument => atEnd.bind fun ended _ _ => ?_
  cases ended with
  | true => exact refuse
  | false => exact pure fun _ _ _ => hargument

/-- What has a bound kind is a declared type, and the bound kind is for types of its kind. -/
lemma boundKind_shapes {kind bound : Kind} (h : boundKind? kind = some bound) :
    kind ∈ Kind.declared ∧ bound ∈ Kind.boundGenerics ∧ bound.carried = .nothing ∧
      [.one (.isTypeOf [kind]), .one .isArguments] ∈ bound.shapes := by
  unfold boundKind? at h
  split at h <;> cases h <;> decide

/-- A declared type that is given arguments takes a single level. -/
lemma made_boundGeneric {node : Node} {kind : Kind} (hnode : node.WellFormed)
    (hkind : boundKind? node.kind = some kind) {arguments : List Node} (hne : arguments ≠ [])
    (harguments : ∀ argument ∈ arguments, Made (.isOf [.type]) argument) :
    Bound node (.branch kind [.branch .type [node], .branch .typeList arguments]) := by
  obtain ⟨argument, arguments, rfl⟩ := List.exists_cons_of_ne_nil hne
  obtain ⟨hdeclared, hgeneric, hcarried, hshape⟩ := boundKind_shapes hkind
  have hbare : ∀ kind ∈ Kind.declared, kind ∈ Kind.bareTypes ∧ kind ≠ .type := by decide
  have hunbound : Made (.isTypeOf [node.kind]) (.branch .type [node]) :=
    ⟨(Made.type ⟨hnode, decide_eq_true (hbare _ hdeclared).1⟩).wellFormed,
      decide_eq_true (List.mem_singleton_self _)⟩
  have hlevels : 1 ≤ node.levels := by
    obtain ⟨kind, payload, children⟩ := node
    obtain ⟨context, name, rfl⟩ := declared_parts hdeclared hnode
    rw [Node.levels_pair]
    exact Nat.le_add_left ..
  refine ⟨wellFormed_mk hcarried.symm hshape
    (.one hunbound (.one ⟨(Made.typeList harguments).wellFormed, rfl⟩ .nil)), .inr hgeneric, ?_,
    fun htype => absurd htype (hbare _ hdeclared).2⟩
  rw [Node.branch, Node.levels_pair, Node.branch, Node.levels_single]
  exact hlevels

/-- A nominal type with an argument list. -/
lemma applyArguments {node : Node} (hnode : node.WellFormed) {arguments : List Node}
    (harguments : ∀ argument ∈ arguments, Made (.isOf [.type]) argument) :
    Reads total bound (fun result _ => Bound node result) (Grammar.applyArguments node arguments) := by
  unfold Grammar.applyArguments
  split
  · exact pure fun _ _ _ => .refl hnode
  · next hne =>
    refine (orRefuse _).bind fun kind _ hkind => ?_
    rw [branch_single, pure_bind, branch_map_some, pure_bind, branch_pair]
    exact pure fun _ _ _ => made_boundGeneric hnode hkind (by simpa using hne) harguments

lemma boundArgumentsBody {node : Node} (hnode : Made (.isOf Kind.bindable) node)
    (htype : Reads total bound (made (.isOf [.type])) (call .type))
    (hparent : ∀ parent, Made (.isOf Kind.bindable) parent → parent.levels < node.levels →
      Reads total bound (fun result _ => Bound parent result) (call (.boundArguments parent))) :
    Reads total bound (fun result _ => Bound node result) (Grammar.boundArgumentsBody call node) :=
  (onBoundParent hnode hparent).bind fun _ _ hkept => (argumentList htype).bind
    fun _ _ harguments => (applyArguments hkept.1.wellFormed harguments).weaken
    fun _ _ _ _ hresult => hkept.1.trans hkept.2 hresult

lemma boundGeneric (h : Sufficient total bound call) :
    Reads total bound (held total (Kind.referable ++ Kind.boundGenerics))
      (Grammar.boundGeneric call) := by
  refine ((nominal h).below (Nat.le_succ bound)).bindAt fun node rest hrest _ hnode => ?_
  have hbindable : Made (.isOf Kind.bindable) node := hnode.made.among (by decide)
  have hlevels : node.levels ≤ total := (Nat.le_add_right _ _).trans hnode.levels
  refine ((h.boundArguments node hbindable hlevels).below hrest).weaken
    fun result rest' hrest' _ hresult => ?_
  have hrest : node.levels + rest ≤ total := hnode.levels
  have hless : result.levels ≤ node.levels := hresult.levels
  exact ⟨hresult.made (List.mem_append_left _ hnode.made.kind_mem) (by decide), by omega⟩

end GenericArguments

section Contexts

variable {call : Calls}

/-- A node has a level more at most than the context that it stands in. -/
abbrev madeOnto (context : Node) (kinds : List Kind) : Node → Nat → Prop :=
  fun node _ => Made (.isOf kinds) node ∧ node.levels ≤ context.levels + 1

/-- What stands in a context takes a level more at most, and a byte. -/
lemma onto {α : Type} {kinds kinds' : List Kind} {context : Node} {rest least ahead : Nat}
    {post : α → Nat → Prop} {p : Parser α} {f : α → Parser Node}
    (hcontext : Held total kinds context rest) (hp : Reads total (rest + 1) post p)
    (hleast : Settles (least + 1) ahead p)
    (hf : ∀ value rest', post value rest' →
      Reads total rest (madeOnto context kinds') (f value)) :
    Reads total (rest + 1) (held total kinds') (p >>= f) :=
  hp.before hleast fun value rest' hvalue => (hf value rest' hvalue).weaken
    fun _ _ hrest _ hnode => (hcontext.of_le hrest).onto hnode.1 hnode.2

/-- A node on a context. -/
lemma branchOnto {kinds : List Kind} {kind : Kind} {context name : Node} {others : List Node}
    (h : Made (.isOf kinds) (.branch kind (context :: name :: others))) :
    Reads total bound (madeOnto context kinds)
      (Grammar.branch kind ((context :: name :: others).map some)) := by
  rw [branch_map_some]
  exact pure fun _ _ _ => ⟨h, (Node.levels_pair ..).le⟩

/-- A node with a single child has no levels. -/
lemma branchSingle {kinds : List Kind} {kind : Kind} {context child : Node}
    (h : Made (.isOf kinds) (.branch kind [child])) :
    Reads total bound (madeOnto context kinds) (Grammar.branch kind [child]) := by
  rw [branch_single]
  exact pure fun _ _ _ => ⟨h, (Node.levels_single ..).trans_le (Nat.zero_le _)⟩

variable (h : Sufficient total bound call)
include h

lemma extensionContext : Reads total bound (held total Kind.scopes) (Grammar.extensionContext call) :=
  moduleName.bindAt fun _ _ hrest _ hdefiner => onto hdefiner (h.context.below hrest)
    h.settled.context fun _ _ hextended => branchOnto
      (made_branch rfl (.head _) (.one hdefiner.made (.one hextended.made (.absent .nil))) rfl)

lemma constrainedExtension :
    Reads total bound (held total Kind.scopes) (Grammar.constrainedExtension call) :=
  moduleName.bindAt fun _ _ hrest _ hdefiner => onto hdefiner ((h.signature false).below hrest)
    (h.settled.signature false) fun _ _ hsignature => (h.context.below hrest.le).bind
      fun _ _ hextended => branchOnto
        (made_branch rfl (.head _)
          (.one hdefiner.made (.one hextended.made (.present hsignature .nil))) rfl)

lemma contextBody (hentity : Reads total (bound + 1) (held total Kind.scopes) (call .entity)) :
    Reads total (bound + 1) (held total Kind.scopes) (Grammar.contextBody call) := by
  refine unlessEnd <| iteBelow _ rfl (extensionContext h) <|
    iteBelow _ rfl (constrainedExtension h) <|
    iteBelow _ rfl (substitution.heldAmong (by decide)) <|
    iteBelow _ rfl (pure fun _ _ hrest => (held_stdlibModule hrest).among (by decide)) <|
    iteBelow _ rfl ((boundGeneric h).heldAmong (by decide)) <|
    peek.bind fun c _ _ => ?_
  split
  · exact hentity
  · exact moduleName.heldAmong (by decide)

lemma protocolList : Reads total bound (made (.isOf [.protocolList])) (Grammar.protocolList call) := by
  refine (gatherEach (accept _) fun _ => protocolType h).bind fun protocols _ hprotocols => ?_
  rw [branch_map_some, pure_bind]
  have htypes : Made .isProtocolTypes (.branch .typeList protocols) := by
    refine ⟨(Made.typeList fun type htype => (hprotocols type htype).kind_of_isTypeOf).wellFormed, ?_⟩
    exact List.all_eq_true.2 fun type htype => (hprotocols type htype).passes
  exact branch (made_branch rfl (.head _) (.one htypes .nil) rfl)

lemma conformance :
    Reads total bound (made (.isOf [.protocolConformance])) (Grammar.conformance call) :=
  h.type.bind fun _ _ hconforming => (protocolType h).bind fun _ _ hprotocol =>
    h.context.bind fun _ _ hcontext => branch (made_branch rfl (.head _)
      (.one hconforming (.one hprotocol (.one hcontext.made .nil))) rfl)

end Contexts

section Entities

variable {call : Calls}

/-- What is left of a subscript's name is that of a file. -/
lemma accessedName_made {name : Node} (hname : Made (.isOf Kind.declNames) name) :
    (∃ rest : Option Node, accessedName name = Pure.pure (true, rest) ∧
      ∀ file ∈ rest, Made (.isOf [.privateDeclName]) file) ∨
    accessedName name = Pure.pure (false, some name) := by
  unfold accessedName
  by_cases hplain : name.kind = .identifier
  · rw [if_pos hplain]
    split
    · exact .inl ⟨none, rfl, nofun⟩
    · exact .inr rfl
  · rw [if_neg hplain]
    split
    · next hprivate =>
      obtain ⟨kind, payload, children⟩ := name
      obtain ⟨rfl, hlength⟩ := hprivate
      obtain ⟨file, own, rfl, hfile⟩ := privateDeclName_parts hname.wellFormed hlength
      by_cases hsubscript : isSubscriptName own
      · refine .inl ⟨some (.branch .privateDeclName [file]), if_pos hsubscript, fun other hother => ?_⟩
        rw [← Option.some.inj hother]
        exact made_branch rfl (.head _) (.one hfile (.absent .nil)) rfl
      · exact .inr (if_neg hsubscript)
    · exact .inr rfl

/-- The kinds that the letters after a context stand for. -/
lemma entityName_kinds {c : Char} {name : EntityName} (h : entityName? c = some name) :
    match name with
    | .untyped kind => kind ∈ Kind.untypedMembers
    | .typed kind => kind ∈ Kind.unnamedMembers
    | .addressor kind? => ∀ letter kind, kind? letter = some kind → kind ∈ Kind.accessors
    | .accessor kind => kind ∈ Kind.accessors
    | .closure kind => kind ∈ Kind.closures := by
  unfold entityName? at h
  split at h <;> cases h
  case h_7 =>
    intro letter kind hkind
    unfold mutableAddressor? at hkind
    split at hkind <;> cases hkind <;> decide
  case h_8 =>
    intro letter kind hkind
    unfold addressor? at hkind
    split at hkind <;> cases hkind <;> decide
  all_goals decide

variable (h : Sufficient total bound call) {context : Node}
  (hcontext : Made (.isOf Kind.scopes) context)

include hcontext in
lemma initializerName : Reads total bound (madeOnto context Kind.members) (Grammar.initializerName context) :=
  ite _ (indexNode.bind fun _ _ hnumber => branchOnto
      (made_branch rfl (.head _) (.one hcontext (.one hnumber .nil)) rfl)) <|
    ite _ (branchSingle (made_branch rfl (.head _) (.one hcontext .nil) rfl)) refuse

include h hcontext

lemma accessedNode {name : Node} (hname : Made (.isOf Kind.declNames) name) :
    Reads total bound (made (.isOf [.variableDecl, .subscript]))
      (Grammar.accessedNode call context name) := by
  unfold Grammar.accessedNode
  obtain ⟨rest, haccessed, hrest⟩ | haccessed := accessedName_made hname
  · rw [haccessed, pure_bind]
    refine h.type.bind fun type _ htype => ?_
    cases rest with
    | none =>
      exact branch (made_branch rfl (.tail _ (.head _))
        (.one hcontext (.one htype (.absent .nil))) rfl)
    | some file =>
      exact branch (made_branch rfl (.tail _ (.head _))
        (.one hcontext (.one htype (.present (hrest file rfl) .nil))) rfl)
  · rw [haccessed, pure_bind]
    show Reads _ _ _ (Grammar.branch .variableDecl [some context, some name] >>= _)
    rw [branch_pair, pure_bind]
    refine h.type.bind fun type _ htype => pure fun _ _ _ => ?_
    exact made_branch rfl (.head _) (.one hcontext (.one hname (.present htype .nil))) rfl

lemma accessor {kind : Kind} (hkind : kind ∈ Kind.accessors) :
    Reads total bound (madeOnto context Kind.members) (Grammar.accessor call kind context) :=
  declName.bind fun _ _ hname => (accessedNode h hcontext hname).bind fun _ _ haccessed =>
    branchSingle (made_family (by decide) hkind (.one haccessed .nil))

lemma namedEntity {kind : Kind} (hkind : kind ∈ [.function, .variableDecl, .subscript]) :
    Reads total bound (madeOnto context Kind.members) (Grammar.namedEntity call kind context) := by
  refine declName.bind fun name _ hname => h.type.bind fun type _ htype => ?_
  simp only [List.mem_cons, List.not_mem_nil, or_false] at hkind
  obtain rfl | rfl | rfl := hkind
  · exact branchOnto
      (made_branch rfl (.head _) (.one hcontext (.one hname (.one htype .nil))) rfl)
  · exact branchOnto
      (made_branch rfl (.head _) (.one hcontext (.one hname (.present htype .nil))) rfl)
  · exact branchOnto
      (made_branch rfl (.head _) (.one hcontext (.one hname (.present htype .nil))) rfl)

lemma entityInContext {kind : Kind}
    (hkind : kind ∈ [.function, .variableDecl, .initializer, .subscript]) :
    Reads total bound (madeOnto context Kind.members) (Grammar.entityInContext call kind context) := by
  refine peek.bind fun c _ _ => ?_
  cases hname : entityName? c with
  | none =>
    dsimp only
    split
    · exact initializerName hcontext
    · next hinitializer => exact namedEntity h hcontext (by simp_all)
  | some name =>
    have hkinds := entityName_kinds hname
    cases name with
    | untyped kind =>
      exact next.bind fun _ _ _ => branchSingle (made_family (by decide) hkinds (.one hcontext .nil))
    | typed kind =>
      exact next.bind fun _ _ _ => h.type.bind fun _ _ htype => branchOnto
        (made_family (by decide) hkinds (.one hcontext (.one htype .nil)))
    | addressor kind? =>
      exact next.bind fun _ _ _ => next.bind fun letter _ _ => (orRefuse _).bind fun kind _ hkind =>
        accessor h hcontext (hkinds letter kind hkind)
    | accessor kind => exact next.bind fun _ _ _ => accessor h hcontext hkinds
    | closure kind =>
      exact next.bind fun _ _ _ => indexNode.bind fun _ _ hnumber => h.type.bind fun _ _ htype =>
        branchOnto (made_family (by decide) hkinds (.one hcontext (.one hnumber (.present htype .nil))))

omit hcontext in
lemma entityBody : Reads total (bound + 1) (held total Kind.scopes) (Grammar.entityBody call) := by
  refine (accept _).bind fun isStatic _ _ => onLetter fun c => ?_
  cases hkind : entityKind? c with
  | none => exact .inl ((nominal h).heldAmong (by decide))
  | some kind =>
    have hkinds : kind ∈ [.function, .variableDecl, .initializer, .subscript] := by
      unfold entityKind? at hkind
      split at hkind <;> cases hkind <;> decide
    refine .inr ⟨ne_dot_of_lookup hkind rfl, _, rfl, h.context.bindAt
      fun context rest hrest _ hcontext => onto hcontext
        (entityInContext (h.below hrest) hcontext.made hkinds)
        (Settles.entityInContext h.settled kind context) fun entity _ hentity => ?_⟩
    cases isStatic with
    | true => exact branchSingle (made_branch rfl (.head _) (.one hentity.1 .nil) rfl)
    | false => exact pure fun _ _ _ => ⟨hentity.1.among (by decide), hentity.2⟩

end Entities

section Generics

variable {call : Calls}

lemma made_genericParam (depth index : Nat) :
    Made (.isOf [.dependentGenericParamType]) (genericParam depth index) := by
  have hindex : ∀ number : Nat, Made (.isOf [.index]) (.numbered .index number) :=
    fun number => made_numbered rfl (.head _) number
  exact ⟨wellFormed_mk rfl (.head _) (.one (hindex depth) (.one (hindex index) .nil)), rfl⟩

lemma writtenParam (depth index : Nat) :
    Reads total bound (made (.isOf [.dependentGenericParamType])) (Grammar.writtenParam depth index) := by
  unfold Grammar.writtenParam
  split
  · exact pure fun _ _ _ => made_genericParam depth index
  · exact fun _ _ _ => nofun

lemma genericParamIndex :
    Reads total bound (made (.isOf [.dependentGenericParamType])) Grammar.genericParamIndex :=
  ite _ (index.bind fun _ _ _ => index.bind fun _ _ _ => writtenParam _ _) <|
    ite _ (pure fun _ _ _ => made_genericParam 0 0) <|
    index.bind fun _ _ _ => pure fun _ _ _ => made_genericParam 0 _

/-- The name of an associated type is recorded, and has no levels. -/
lemma recordedRef {name : Text} {children : List Node}
    (hfilled : Filled [.optional (.isTypeOf [.protocolDecl])] children) :
    Reads total bound (made (.isOf [.dependentAssociatedTypeRef])) (do
      let node ← (Pure.pure (.named .dependentAssociatedTypeRef name children) : Parser Node)
      Grammar.record node
      Pure.pure node) := by
  have hmade : Made (.isOf [.dependentAssociatedTypeRef])
      (.named .dependentAssociatedTypeRef name children) := ⟨wellFormed_mk rfl (.head _) hfilled, rfl⟩
  have hlevels : (Node.named .dependentAssociatedTypeRef name children).levels = 0 := by
    cases hfilled with
    | absent hrest => cases hrest; exact Node.levels_named _ _
    | present _ hrest => cases hrest; exact Node.levels_single _ _ _
  rw [pure_bind]
  exact (recorded (by decide) fun _ _ => held_leaf hmade hlevels).released fun _ => id

variable (h : Sufficient total bound call)
include h

lemma associatedTypeRef :
    Reads total bound (made (.isOf [.dependentAssociatedTypeRef])) (Grammar.associatedTypeRef call) := by
  refine ite _ (substitution.bind fun node _ hnode => ?_) <|
    (afterMark _ (protocolType h)).bind fun protocol _ hprotocol =>
    (identifierOf _).bind fun name _ hname => ?_
  · split
    · next hkind => exact pure fun _ _ _ => hnode.made.narrow hkind
    · exact refuse
  · obtain ⟨text, rfl⟩ := hname
    cases protocol with
    | none => exact recordedRef (.absent .nil)
    | some protocol => exact recordedRef (.present (hprotocol protocol rfl) .nil)

lemma memberType {base : Node} (hbase : Made (.isOf [.type]) base) :
    Reads total bound (made (.isOf [.dependentMemberType])) (Grammar.memberType call base) :=
  (associatedTypeRef h).bind fun _ _ hname =>
    branch (made_branch rfl (.head _) (.one hbase (.one hname .nil)) rfl)

lemma simpleMemberType :
    Reads total bound (made (.isOf [.dependentMemberType])) (Grammar.simpleMemberType call) := by
  refine genericParamIndex.bind fun param _ hparam => ?_
  rw [branch_single, pure_bind]
  exact memberType h (Made.type (hparam.among (by decide)))

lemma compoundMemberType :
    Reads total bound (made (.isOf Kind.dependents)) (Grammar.compoundMemberType call) := by
  refine genericParamIndex.bind fun param _ hparam => foldUntil (accept _)
    (fun base (hbase : Made (.isOf Kind.dependents) base) => ?_) (hparam.among (by decide))
  rw [branch_single, pure_bind]
  exact (memberType h (Made.type (hbase.among (by decide)))).among (by decide)

lemma dependentType :
    Reads total bound (made (.isOf Kind.dependents)) (Grammar.dependentType call) := by
  refine unlessEnd <| peek.bind fun c _ _ => ?_
  split
  · exact h.type.bind fun _ _ hbase => (memberType h hbase).among (by decide)
  · exact genericParamIndex.among (by decide)

lemma constrainedType : Reads total bound (made (.isOf [.type])) (Grammar.constrainedType call) := by
  have hdependent : Reads total bound (made (.isOf Kind.dependents)) (Grammar.paramOrMember call) :=
    ite _ ((simpleMemberType h).among (by decide)) <|
      ite _ (compoundMemberType h) <|
      genericParamIndex.among (by decide)
  refine hdependent.bind fun type _ htype => ?_
  rw [branch_single]
  exact pure fun _ _ _ => Made.type (htype.among (by decide))

omit h in
lemma layoutNumbers (count : Nat) :
    Reads total bound (fun numbers _ => numbers.length ≤ 2) (Grammar.layoutNumbers count) := by
  unfold Grammar.layoutNumbers
  split
  · exact pure fun _ _ _ => Nat.zero_le 2
  · exact natural.bind fun _ _ _ => pure fun _ _ _ => Nat.le_succ 1
  · exact natural.bind fun _ _ _ => (demand _).bind fun _ _ _ => natural.bind fun _ _ _ =>
      pure fun _ _ _ => Nat.le_refl 2

omit h in
lemma layoutRequirement {constrained : Node} (hconstrained : Made (.isOf [.type]) constrained) :
    Reads total bound (made (.isOf Kind.requirements)) (Grammar.layoutRequirement constrained) := by
  refine next.bind fun letter _ _ => (orRefuse _).bind fun count _ _ =>
    (layoutNumbers count).bind fun numbers _ hlength => ?_
  have hletter : Made (.isOf [.identifier]) (.named .identifier [CodePoint.ofChar letter]) :=
    made_named rfl (.head _) _
  have hnumber : ∀ n : Nat, Made (.isOf [.number]) (.numbered .number n) :=
    fun n => made_numbered rfl (.head _) n
  have hnumbers : Filled [.optional (.isOf [.number]), .optional (.isOf [.number])]
      (numbers.map fun (n : Nat) => .numbered .number n) := by
    match numbers with
    | [] => exact .absent (.absent .nil)
    | [size] => exact .present (hnumber size) (.absent .nil)
    | [size, alignment] => exact .present (hnumber size) (.present (hnumber alignment) .nil)
    | _ :: _ :: _ :: _ => simp at hlength
  exact branch (made_branch rfl (.head _) (.one hconstrained (.one hletter hnumbers)) rfl)

omit h in
lemma substitutedConstraint :
    Reads total bound (made (.isOf [.type])) Grammar.substitutedConstraint := by
  refine substitution.bindAt fun node rest _ _ hnode => ?_
  split
  · rw [branch_single]
    exact pure fun _ _ _ => Made.type (hnode.made.among (by decide))
  · split
    · next hmodule =>
      have hscope : Held total Kind.scopes node rest := hnode.among (by decide)
      refine (protocolInContext hscope).bind fun protocol _ hprotocol => ?_
      rw [branch_single]
      exact pure fun _ _ _ => Made.type (hprotocol.made.among (by decide))
    · exact refuse

lemma conformanceConstraint :
    Reads total bound (made (.isOf [.type])) (Grammar.conformanceConstraint call) := by
  refine unlessEnd <| peek.bind fun c _ _ => ?_
  split
  · exact h.type
  · exact next.bind fun _ _ _ => substitutedConstraint
  · exact (protocolType h).weaken fun _ _ _ _ hprotocol => hprotocol.kind_of_isTypeOf

lemma requirement : Reads total bound (made (.isOf Kind.requirements)) (Grammar.requirement call) :=
  (constrainedType h).bind fun _ _ hconstrained =>
    ite _ (h.type.bind fun _ _ htype =>
      branch (made_branch rfl (.head _) (.one hconstrained (.one htype .nil)) rfl)) <|
    ite _ (layoutRequirement hconstrained) <|
    (conformanceConstraint h).bind fun _ _ hconstraint =>
      branch (made_branch rfl (.head _) (.one hconstrained (.one hconstraint .nil)) rfl)

omit h in
/-- The counts of a signature are never an empty list. -/
lemma paramCounts : Reads total bound (fun counts _ => counts ≠ []) Grammar.paramCounts := by
  have hcount : Reads total bound anything Grammar.paramCount :=
    ite _ (pure fun _ _ _ => trivial) <| index.bind fun _ _ _ => pure fun _ _ _ => trivial
  have hcounts : Reads total bound anything (Grammar.gather (do
      let c ← Grammar.peek
      Pure.pure (c = 'R' || c = 'r')) fun _ => Grammar.paramCount) :=
    gather (fun _ => True) (peek.bind fun _ _ _ => pure fun _ _ _ => trivial) trivial
      fun _ _ => hcount
  refine hcounts.bind fun counts _ _ => pure fun _ _ _ => ?_
  cases counts <;> simp

/-- A mark is taken before the first requirement. -/
lemma requirements :
    Reads total (bound + 1) (each (.isOf Kind.requirements)) (Grammar.requirements call) := by
  have hmark : Settles 1 0 (Grammar.demand "R") := Settles.demand "R"
  exact iteBelow _ rfl (pure fun _ _ _ => nofun) <|
    (demand _).before hmark fun _ _ _ => gatherEach (accept _) fun _ => requirement h

lemma signatureBody (pseudogeneric : Bool) :
    Reads total (bound + 1) (made (.isOf [signatureKind pseudogeneric]))
      (Grammar.signatureBody call pseudogeneric) := by
  refine paramCounts.bind fun counts _ hne => (requirements h).bind fun requirements _ hrequirements =>
    ?_
  obtain ⟨count, counts, rfl⟩ := List.exists_cons_of_ne_nil hne
  have hcount : ∀ n : Nat,
      Made (.isOf [.dependentGenericParamCount]) (.numbered .dependentGenericParamCount n) :=
    fun n => made_numbered rfl (.head _) n
  have hfilled := Filled.one (hcount count) (.many (List.forall_mem_map.2 fun n (_ : n ∈ counts) =>
    hcount n) (Filled.all hrequirements .nil))
  cases pseudogeneric with
  | false => exact branch (made_branch rfl (.head _) hfilled rfl)
  | true => exact branch (made_branch rfl (.head _) hfilled rfl)

omit h in
lemma associatedType {root : Node} {rest : Nat} (hroot : Held total Kind.scopes root rest) :
    Reads total (rest + 1) (held total [.associatedTypeRef]) (Grammar.associatedType root) :=
  recordedOnto (by decide) hroot identifier (Settles.identifier none)
    fun _ hname => made_branch rfl (.head _) (.one hroot.made (.one hname .nil)) rfl

lemma archetypeBody :
    Reads total (bound + 1) (held total [.associatedTypeRef]) (Grammar.archetypeBody call) :=
  iteBelow _ rfl (h.archetype.bindAt fun _ _ _ _ hroot => associatedType (hroot.among (by decide))) <|
    ite _ (substitution.bindAt fun _ _ _ _ hroot => associatedType (hroot.among (by decide))) <|
    ite _ (exactly fun _ _ hinside =>
      associatedType ((held_stdlibModule hinside).among (by decide))) refuse

end Generics

end Reads

end SwiftMangling.Grammar
