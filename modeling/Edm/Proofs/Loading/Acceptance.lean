import Edm.Proofs.Description.Reading

/-!
# What can be loaded

The values that a program can be loaded from are those that the grammar describes
(`Program.load_succeeds_iff`).  Declaring never fails and only adds to what is left to do
(`Declarations.Adds`); whether a reference can be resolved depends on the declared types, and not on the
graph that has come about so far (`Declarations.yields_settle`).
-/

namespace Edm

/-! ### What declarations add -/

/-- A reference leads to a type, or to a model if it is the base of one. -/
def Reference.IsMet (types : List (Text × Kind)) (r : Reference) : Prop :=
  match r.pending with
  | .base _ type => type.ResolvesToModel types r.scope
  | .property _ type => type.Resolves types r.scope
  | .options _ options => ∀ option ∈ options, option.Resolves types r.scope
  | .result _ type => type.Resolves types r.scope

namespace Declarations

/-- The names of some nodes with the kinds of the nodes. -/
def kindsOf (nodes : List (Text × Node)) : List (Text × Option Kind) := nodes.map fun t => (t.1, t.2.kind?)

/-- What is left to do can be done. -/
def Sound (types : List (Text × Kind)) (d : Declarations) : Prop :=
  (∀ r ∈ d.references, r.IsMet types) ∧ ∀ c ∈ d.decorations, ∀ x ∈ c.decorators, IsDecorator x

/-- What a step of declaring adds: types, and something left to do that can be done under a condition. -/
structure Adds (types : List (Text × Kind)) (d d' : Declarations) (declared : List (Text × Kind))
    (condition : Prop) : Prop where
  builtIns : d'.builtIns = d.builtIns
  kinds : kindsOf d'.types = (declared.map fun t => (t.1, some t.2)).reverse ++ kindsOf d.types
  sound : d'.Sound types ↔ d.Sound types ∧ condition

section

variable {types declared more : List (Text × Kind)} {d d' d'' : Declarations} {p q : Prop}

namespace Adds

theorem refl (d : Declarations) : Adds types d d [] True := ⟨rfl, rfl, (and_iff_left trivial).symm⟩

theorem trans (h : Adds types d d' declared p) (h' : Adds types d' d'' more q) :
    Adds types d d'' (declared ++ more) (p ∧ q) := by
  refine ⟨h'.builtIns.trans h.builtIns, ?_, ?_⟩
  · rw [h'.kinds, h.kinds, List.map_append, List.reverse_append, List.append_assoc]
  · rw [h'.sound, h.sound, and_assoc]

theorem congr (h : Adds types d d' declared p) (hd : declared = more) (hp : p ↔ q) :
    Adds types d d' more q :=
  ⟨h.builtIns, hd ▸ h.kinds, by rw [h.sound, hp]⟩

/-- The steps for the items of a list, one after the other. -/
theorem foldl {α : Type} {f : Declarations → α → Declarations} {t : α → List (Text × Kind)} {c : α → Prop}
    (h : ∀ d a, Adds types d (f d a) (t a) (c a)) (d : Declarations) (l : List α) :
    Adds types d (l.foldl f d) (l.flatMap t) (∀ a ∈ l, c a) := by
  induction l generalizing d with
  | nil => exact (refl d).congr rfl (by simp)
  | cons a l ih => exact ((h d a).trans (ih (f d a))).congr rfl (by simp)

end Adds

theorem adds_graph (d : Declarations) (g : Graph) : Adds types d { d with graph := g } [] True :=
  ⟨rfl, rfl, (and_iff_left trivial).symm⟩

theorem adds_store (d : Declarations) (s : AnnotationStore) : Adds types d { d with store := s } [] True :=
  ⟨rfl, rfl, (and_iff_left trivial).symm⟩

theorem adds_register (d : Declarations) (site : Text) {node : Node} {kind : Kind}
    (h : node.kind? = some kind) : Adds types d (d.register site node) [(site, kind)] True := by
  refine ⟨rfl, ?_, (and_iff_left trivial).symm⟩
  show (site, node.kind?) :: kindsOf d.types = _
  rw [h]
  rfl

theorem adds_refer (d : Declarations) (scope : List Text) (site : Text) (pending : Pending) :
    Adds types d (d.refer scope site pending) [] (Reference.IsMet types { pending, scope, site }) := by
  refine ⟨rfl, rfl, ?_⟩
  simp only [Sound, refer, List.forall_mem_append, List.forall_mem_singleton]
  tauto

theorem adds_decorate (d : Declarations) (site : Text) (target : Node) (decorators : List Json) :
    Adds types d (d.decorate site target decorators) [] (∀ x ∈ decorators, IsDecorator x) := by
  refine ⟨rfl, rfl, ?_⟩
  simp only [Sound, decorate, List.forall_mem_append, List.forall_mem_singleton]
  tauto

/-! ### Declarations -/

theorem adds_enum (space : NamespaceId) (path : List Text) (d : Declarations) (e : EnumEntry) :
    Adds types d (declareEnum space path d e) [(siteOf (Graph.dotted path) e.name, .enum)] True :=
  ((adds_graph d _).trans (adds_register _ _ rfl)).congr rfl (by simp)

theorem adds_property (owner : ModelId) (path : List Text) (site : Text) (d : Declarations)
    (e : PropertyEntry) : Adds types d (declareProperty owner path site d e) [] (e.Sound types path) :=
  ((adds_graph d _).trans ((adds_decorate _ _ _ _).trans (adds_refer _ _ _ _))).congr rfl
    (by simp only [PropertyEntry.Sound, Reference.IsMet]; tauto)

theorem adds_model (space : NamespaceId) (path : List Text) (d : Declarations) (e : ModelEntry) :
    Adds types d (declareModel space path d e) [(siteOf (Graph.dotted path) e.name, .model)]
      (e.Sound types path) := by
  unfold declareModel ModelEntry.Sound
  have hproperties : ∀ (owner : ModelId) (site : Text) (d : Declarations),
      Adds types d (e.properties.foldl (declareProperty owner path site) d) []
        (∀ q ∈ e.properties, q.Sound types path) := by
    intro owner site d
    exact (Adds.foldl (adds_property owner path site) d e.properties).congr (by simp) Iff.rfl
  cases e.base with
  | none =>
    refine (((adds_graph d _).trans ((adds_register _ _ rfl).trans (adds_decorate _ _ _ _))).trans
      (hproperties _ _ _)).congr rfl ?_
    simp
  | some base =>
    refine (((adds_graph d _).trans ((adds_register _ _ rfl).trans (adds_decorate _ _ _ _))).trans
      ((adds_refer _ _ _ _).trans (hproperties _ _ _))).congr rfl ?_
    simp [Reference.IsMet]

theorem adds_union (space : NamespaceId) (path : List Text) (d : Declarations) (e : UnionEntry) :
    Adds types d (declareUnion space path d e) [(siteOf (Graph.dotted path) e.name, .union)]
      (e.Sound types path) :=
  ((adds_graph d _).trans ((adds_register _ _ rfl).trans (adds_refer _ _ _ _))).congr rfl
    (by simp [UnionEntry.Sound, Reference.IsMet])

theorem adds_operation (path : List Text) (outer : Text) (d : Declarations) (e : OperationEntry) :
    Adds types d (declareOperation path outer d e).2 [] (e.Sound types path) :=
  ((adds_graph d _).trans ((Adds.foldl (adds_property _ path _) _ e.parameters).trans
    (adds_refer _ _ _ _))).congr (by simp) (by simp [OperationEntry.Sound, Reference.IsMet])

theorem adds_listed (interface : InterfaceId) (path : List Text) (outer : Text) (d : Declarations)
    (e : OperationEntry) : Adds types d (declareListed interface path outer d e) [] (e.Sound types path) :=
  ((adds_operation path outer d e).trans (adds_graph _ _)).congr rfl (by simp)

theorem adds_interface (space : NamespaceId) (path : List Text) (d : Declarations) (e : InterfaceEntry) :
    Adds types d (declareInterface space path d e) [(siteOf (Graph.dotted path) e.name, .interface)]
      (e.Sound types path) := by
  have hoperations : ∀ (interface : InterfaceId) (site : Text) (d : Declarations),
      Adds types d (e.operations.foldl (declareListed interface path site) d) []
        (∀ o ∈ e.operations, o.Sound types path) := by
    intro interface site d
    exact (Adds.foldl (adds_listed interface path site) d e.operations).congr (by simp) Iff.rfl
  unfold declareInterface InterfaceEntry.Sound
  cases e.route with
  | none =>
    refine ((adds_graph d _).trans ((adds_register _ _ rfl).trans (hoperations _ _ _))).congr (by simp) ?_
    simp
  | some route =>
    refine (((adds_graph d _).trans ((adds_register _ _ rfl).trans (hoperations _ _ _))).trans
      (adds_store _ _)).congr (by simp) ?_
    simp

theorem adds_ownOperation (space : NamespaceId) (path : List Text) (d : Declarations) (e : OperationEntry) :
    Adds types d (declareOwnOperation space path d e) [(siteOf (Graph.dotted path) e.name, .operation)]
      (e.Sound types path) :=
  ((adds_operation path _ d e).trans ((adds_graph _ _).trans (adds_register _ _ rfl))).congr rfl (by simp)

theorem adds_entries (space : NamespaceId) (path : List Text) (d : Declarations) (e : DeclarationEntries) :
    Adds types d (declareEntries space path d e) (e.types path) (e.Sound types path) := by
  refine ((Adds.foldl (adds_enum space path) d e.enums).trans
    ((Adds.foldl (adds_model space path) _ e.models).trans
      ((Adds.foldl (adds_union space path) _ e.unions).trans
        ((Adds.foldl (adds_interface space path) _ e.interfaces).trans
          (Adds.foldl (adds_ownOperation space path) _ e.operations))))).congr ?_ ?_
  · simp [DeclarationEntries.types, List.map_eq_flatMap]
  · simp [DeclarationEntries.Sound]

mutual

theorem adds_namespace (outer : NamespaceId) (path : List Text) (d : Declarations) :
    (n : NamespaceEntry) → Adds types d (declareNamespace outer path d n) (n.types path) (n.Sound types path)
  | .entry name declarations children => by
    rw [declareNamespace]
    refine ((adds_graph d _).trans ((adds_entries _ _ _ declarations).trans
      (adds_namespaces _ _ _ children))).congr ?_ ?_
    · simp [NamespaceEntry.types]
    · simp [NamespaceEntry.Sound]

/-- Declaring namespaces makes their types known, and leaves to do what can be done if they are sound. -/
theorem adds_namespaces (outer : NamespaceId) (path : List Text) (d : Declarations) :
    (ns : List NamespaceEntry) → Adds types d (declareNamespaces outer path d ns)
      (NamespaceEntry.typesOf path ns) (NamespaceEntry.AllSound types path ns)
  | [] => Adds.refl d
  | n :: ns => by
    rw [declareNamespaces]
    exact (adds_namespace outer path d n).trans (adds_namespaces outer path _ ns)

end

end

/-! ### Names -/

theorem find_kind (name : Text) (nodes : List (Text × Node)) :
    (find name nodes).map Node.kind? = ((kindsOf nodes).find? fun t => t.1 = name).map Prod.snd := by
  induction nodes with
  | nil => rfl
  | cons t nodes ih =>
    obtain ⟨n, node⟩ := t
    by_cases h : n = name
    · simp [find, kindsOf, h]
    · rw [find, if_neg h, ih]
      simp [kindsOf, h]

theorem dotted_cons_cons (n m : Text) (path : List Text) :
    Graph.dotted (n :: m :: path) = n ++ "." ++ Graph.dotted (m :: path) := rfl

theorem dotted_append_singleton {path : List Text} (h : path ≠ []) (name : Text) :
    Graph.dotted (path ++ [name]) = Graph.dotted path ++ "." ++ name := by
  induction path with
  | nil => exact absurd rfl h
  | cons n path ih =>
    cases path with
    | nil => rfl
    | cons m path =>
      have ih := ih (by simp)
      rw [List.cons_append, List.cons_append, dotted_cons_cons, ← List.cons_append, ih, dotted_cons_cons]
      simp only [List.append_assoc]

/-- What the names of a description refer to is what the grammar says. -/
structure Knows (types : List (Text × Kind)) (d : Declarations) : Prop where
  builtIns : kindsOf d.builtIns = builtInModels.map fun name => (name, some .model)
  types : kindsOf d.types = (types.map fun t => (t.1, some t.2)).reverse

section

variable {types : List (Text × Kind)} {d : Declarations}

theorem Knows.find_types (h : d.Knows types) (site : Text) :
    (find site d.types).map Node.kind? = (kindAt? types site).map some := by
  rw [find_kind, h.types, ← List.map_reverse, kindAt?, List.find?_map]
  simp [Function.comp_def]

theorem Knows.findFrom (h : d.Knows types) (name : Text) (inward : List Text) :
    (findFrom d.types name inward).map Node.kind?
      = ((sitesNamed inward.reverse name).findSome? (kindAt? types)).map some := by
  induction inward with
  | nil =>
    rw [Declarations.findFrom, h.find_types]
    simp [sitesNamed, Graph.dotted, Text.join]
  | cons n outer ih =>
    -- names are looked up from the inside out, so the innermost name is the first site
    have hsites : sitesNamed (n :: outer).reverse name
        = (Graph.dotted (outer.reverse ++ [n]) ++ "." ++ name) :: sitesNamed outer.reverse name := by
      rw [sitesNamed, List.reverse_cons, List.inits_append, ← dotted_append_singleton (by simp)]
      simp [sitesNamed]
    -- what is found at the first site is a declared type exactly if the grammar knows one there
    have hfound := h.find_types (Graph.dotted (outer.reverse ++ [n]) ++ "." ++ name)
    rw [hsites, List.findSome?_cons, Declarations.findFrom]
    split
    next node hnode =>
      rw [hnode] at hfound
      cases hkind : kindAt? types (Graph.dotted (outer.reverse ++ [n]) ++ "." ++ name) with
      | none =>
        rw [hkind] at hfound
        cases hfound
      | some kind =>
        rw [hkind] at hfound
        exact hfound
    next hnone =>
      rw [hnone] at hfound
      cases hkind : kindAt? types (Graph.dotted (outer.reverse ++ [n]) ++ "." ++ name) with
      | none => exact ih
      | some kind =>
        rw [hkind] at hfound
        cases hfound

theorem Knows.find_builtIn (h : d.Knows types) (name : Text) :
    (find name d.builtIns).map Node.kind? = if name ∈ builtInModels then some (some .model) else none := by
  rw [find_kind, h.builtIns]
  generalize builtInModels = names
  induction names with
  | nil => rfl
  | cons n names ih =>
    by_cases hn : n = name
    · simp [hn]
    · rw [List.map_cons, List.find?_cons_of_neg (by simpa using hn), ih]
      simp [Ne.symm hn]

/-! ### References -/

variable {scope : List Text} {site : Text}

/-- Whether a name can be resolved, and to what kind of node, does not depend on the graph. -/
theorem Knows.yields_resolveName (h : d.Knows types) {P : Option Kind → Prop} {name : Text} {g : Graph} :
    (Yields (d.resolveName scope site name g) fun r => P r.1.kind?)
      ↔ ∃ kind, kindNamed? types scope name = some kind ∧ P (some kind) := by
  have hbuiltIn := h.find_builtIn name
  have hdeclared := h.findFrom name scope.reverse
  rw [List.reverse_reverse] at hdeclared
  unfold resolveName kindNamed?
  by_cases hintrinsic : name ∈ intrinsicTypes
  · rw [if_pos (List.contains_iff_mem.2 hintrinsic), if_pos hintrinsic]
    simp [Graph.newType, Node.kind?]
  · rw [if_neg (by simpa using hintrinsic), if_neg hintrinsic]
    by_cases hmember : name ∈ builtInModels
    · rw [if_pos hmember] at hbuiltIn ⊢
      obtain ⟨node, hnode, hkind⟩ := Option.map_eq_some_iff.1 hbuiltIn
      simp [hnode, hkind]
    · rw [if_neg hmember] at hbuiltIn ⊢
      rw [Option.map_eq_none_iff.1 hbuiltIn]
      cases hfound : Declarations.findFrom d.types name scope.reverse with
      | none =>
        rw [hfound] at hdeclared
        rw [Option.map_eq_none_iff.1 hdeclared.symm]
        simp
      | some node =>
        rw [hfound] at hdeclared
        obtain ⟨kind, hkind, hnode⟩ := Option.map_eq_some_iff.1 hdeclared.symm
        simp [hkind, ← hnode]

mutual

/-- Whether an expression can be resolved does not depend on the graph. -/
theorem Knows.yields_resolve (h : d.Knows types) : (e : TypeExpr) → (g : Graph) →
    ((Yields (d.resolve scope site e g) fun _ => True) ↔ e.Resolves types scope)
  | .named name, g => by
    rw [Declarations.resolve, TypeExpr.Resolves, Option.isSome_iff_exists]
    refine (h.yields_resolveName (P := fun _ => True)).trans ?_
    simp only [and_true]
  | .array element, g => by
    simp only [Declarations.resolve, Yields.bind_iff, Yields.pure_iff, TypeExpr.Resolves]
    exact h.yields_resolve element g
  | .union options, g => by
    simp only [Declarations.resolve, Yields.bind_iff, Yields.pure_iff, TypeExpr.Resolves]
    exact h.yields_resolveAll options g
  | .parameter _, _ | .intrinsic _, _ | .literal _ _, _ => by
    simp [Declarations.resolve, TypeExpr.Resolves]
  | .invalid _, _ | .optionsNotList, _ | .unnamed, _ => by
    simp [Declarations.resolve, TypeExpr.Resolves]

theorem Knows.yields_resolveAll (h : d.Knows types) : (es : List TypeExpr) → (g : Graph) →
    ((Yields (d.resolveAll scope site es g) fun _ => True) ↔ TypeExpr.AllResolve types scope es)
  | [], g => by
    simp [Declarations.resolveAll, TypeExpr.AllResolve]
  | e :: es, g => by
    have he := h.yields_resolve e g
    have hes := fun g => h.yields_resolveAll es g
    simp only [Declarations.resolveAll, Yields.bind_iff, Yields.pure_iff, TypeExpr.AllResolve, hes]
    rw [← he, ← Yields.and_right]
    simp only [true_and]

end

theorem toKind_ne_model (kind : LiteralKind) : kind.toKind ≠ .model := by
  cases kind <;> decide

/-- Whether an expression can be resolved to a model does not depend on the graph. -/
theorem Knows.yields_resolve_model (h : d.Knows types) (e : TypeExpr) (g : Graph) :
    (Yields (d.resolve scope site e g) fun r => r.1.kind? = some .model) ↔ e.ResolvesToModel types scope := by
  cases e with
  | named name =>
    rw [Declarations.resolve, TypeExpr.ResolvesToModel]
    refine (h.yields_resolveName (P := fun kind => kind = some .model)).trans ?_
    simp
  | array element =>
    refine iff_of_false ?_ id
    rintro ⟨r, hr, hkind⟩
    rw [Declarations.resolve] at hr
    obtain ⟨_, _, hr⟩ := bind_eq_ok hr
    cases hr
    cases hkind
  | union options =>
    refine iff_of_false ?_ id
    rintro ⟨r, hr, hkind⟩
    rw [Declarations.resolve] at hr
    obtain ⟨_, _, hr⟩ := bind_eq_ok hr
    cases hr
    cases hkind
  | _ => simp [Declarations.resolve, TypeExpr.ResolvesToModel, Graph.newType, Node.kind?, toKind_ne_model]

/-- Whether a reference can be resolved does not depend on the graph. -/
theorem Knows.yields_settle (h : d.Knows types) (g : Graph) (r : Reference) :
    (Yields (d.settle g r) fun _ => True) ↔ r.IsMet types := by
  unfold Declarations.settle Reference.IsMet
  cases r.pending with
  | base model type =>
    show _ ↔ type.ResolvesToModel types r.scope
    rw [Yields.bind_iff]
    refine Iff.trans (Yields.congr fun a => ?_) (h.yields_resolve_model type g)
    obtain ⟨node, g⟩ := a
    cases node <;> simp [Node.kind?, toKind_ne_model]
  | property id type =>
    simp only [Yields.bind_iff, Yields.pure_iff]
    exact h.yields_resolve type g
  | options union options =>
    simp only [Yields.bind_iff, Yields.pure_iff]
    rw [← TypeExpr.allResolve_iff]
    exact h.yields_resolveAll options g
  | result operation type =>
    simp only [Yields.bind_iff, Yields.pure_iff]
    exact h.yields_resolve type g

theorem Knows.yields_settleAll (h : d.Knows types) :
    (Yields d.settleAll fun _ => True) ↔ ∀ r ∈ d.references, r.IsMet types :=
  Yields.foldlM_iff h.yields_settle d.graph d.references

end

/-! ### What is there before a description is read -/

private theorem Acceptance.declareBuiltIn_eq (space : NamespaceId) (d : Declarations) (names : List Text) :
    kindsOf (names.foldl (declareBuiltIn space) d).builtIns
        = kindsOf d.builtIns ++ names.map (fun name => (name, some .model))
      ∧ (names.foldl (declareBuiltIn space) d).types = d.types
      ∧ (names.foldl (declareBuiltIn space) d).references = d.references
      ∧ (names.foldl (declareBuiltIn space) d).decorations = d.decorations := by
  induction names generalizing d with
  | nil => exact ⟨by simp, rfl, rfl, rfl⟩
  | cons name names ih =>
    obtain ⟨hbuiltIns, htypes, hreferences, hdecorations⟩ := ih (declareBuiltIn space d name)
    refine ⟨?_, htypes, hreferences, hdecorations⟩
    rw [List.foldl_cons, hbuiltIns]
    simp [declareBuiltIn, kindsOf, Node.kind?]

theorem knows_initial : initial.Knows [] := by
  have htypes : initial.types = [] := (Acceptance.declareBuiltIn_eq _ _ _).2.1
  refine ⟨(Acceptance.declareBuiltIn_eq _ _ _).1, ?_⟩
  rw [htypes]
  rfl

theorem sound_initial (types : List (Text × Kind)) : initial.Sound types := by
  have hreferences : initial.references = [] := (Acceptance.declareBuiltIn_eq _ _ _).2.2.1
  have hdecorations : initial.decorations = [] := (Acceptance.declareBuiltIn_eq _ _ _).2.2.2
  rw [Sound, hreferences, hdecorations]
  simp

/-- After the declarations of a description, what names refer to is what the grammar says. -/
theorem knows_declareNamespaces (es : List NamespaceEntry) :
    (declareNamespaces Graph.root [] initial es).Knows (NamespaceEntry.typesOf [] es) := by
  have h : Adds (NamespaceEntry.typesOf [] es) initial _ _ _ := adds_namespaces Graph.root [] initial es
  refine ⟨?_, ?_⟩
  · rw [h.builtIns, knows_initial.builtIns]
  · rw [h.kinds, knows_initial.types]
    simp

end Declarations

/-! ### Decorators -/

private theorem Acceptance.decoratorCall_of_named {site name : Text} {data : Json}
    (hname : data.field? "name" = some (.string name)) :
    (Yields (decoratorCall site data) fun _ => True) ↔ ∃ arguments, data.listed? "args" = some arguments := by
  cases data with
  | object fields =>
    unfold decoratorCall Json.listed?
    simp only [hname]
    cases hargs : (Json.object fields).field? "args" with
    | none => simp
    | some arguments => cases arguments <;> simp
  | _ => cases hname

theorem yields_decoratorCall {site : Text} {data : Json} :
    (Yields (decoratorCall site data) fun _ => True) ↔ IsDecorator data := by
  by_cases hname : ∃ name, data.field? "name" = some (.string name)
  · obtain ⟨name, hname⟩ := hname
    rw [Acceptance.decoratorCall_of_named hname, IsDecorator]
    cases data with
    | object fields => simp [hname]
    | _ => cases hname
  · rw [IsDecorator, or_iff_left fun h => hname h.1]
    unfold decoratorCall
    split
    next name => simp
    next hstring =>
      split
      next name h => exact absurd ⟨name, h⟩ hname
      next =>
        refine iff_of_false (fun h => Yields.error_iff.1 h) ?_
        rintro ⟨name, rfl⟩
        exact hstring name rfl

namespace Program

theorem yields_decorateAll (p : Program) (d : Decoration) :
    (Yields (p.decorateAll d) fun _ => True) ↔ ∀ x ∈ d.decorators, IsDecorator x := by
  refine Yields.foldlM_iff (fun p x => ?_) p d.decorators
  simp only [Yields.bind_iff, Yields.pure_iff]
  exact yields_decoratorCall

/-- Loading succeeds if reading yields entries with which all that is left to do can be done. -/
theorem Acceptance.yields_load (data : Json) : (Yields (load data) fun _ => True)
    ↔ Yields (readDescription data) fun es => NamespaceEntry.AllSound (NamespaceEntry.typesOf [] es) [] es := by
  unfold load
  rw [Yields.bind_iff]
  refine Yields.congr fun es => ?_
  have hadds : Declarations.Adds (NamespaceEntry.typesOf [] es) Declarations.initial _ _ _ :=
    Declarations.adds_namespaces Graph.root [] Declarations.initial es
  have hsettle := (Declarations.knows_declareNamespaces es).yields_settleAll
  have hsound := hadds.sound
  rw [and_iff_right (Declarations.sound_initial _)] at hsound
  rw [Yields.bind_iff, ← hsound, Declarations.Sound, ← hsettle, ← Yields.and_right]
  refine Yields.congr fun graph => ?_
  rw [Yields.foldlM_iff yields_decorateAll, true_and]

/-- A program can be loaded from a value exactly if the grammar describes the value. -/
theorem load_succeeds_iff (data : Json) : (∃ p, load data = .ok p) ↔ IsDescription data := by
  have hload : (∃ p, load data = .ok p) ↔ Yields (load data) fun _ => True := by
    simp [Yields]
  rw [hload, Acceptance.yields_load, IsDescription, ← yields_readDescription]
  -- the types that the entries declare are those of the outline, since reading gives nothing else
  constructor
  · rintro ⟨es, hes, hsound⟩
    rw [← readDescription_eq hes]
    exact ⟨es, hes, hsound⟩
  · rintro ⟨es, hes, hsound⟩
    rw [← readDescription_eq hes] at hsound
    exact ⟨es, hes, hsound⟩

end Program

end Edm
