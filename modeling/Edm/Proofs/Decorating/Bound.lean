import Edm.Proofs.Decorating.Outcome
import Edm.Proofs.Loading.Built
import Edm.Proofs.Loading.Loaded

/-!
# What a loaded program has bound

Declaring binds the routes of interfaces and nothing else (`Declarations.hasOnlyRoutes_declareNamespaces`).  After
that a program applies the decorators that were left, so what is bound to a node is what the last accepted one of
its own decorators binds (`Program.get?_of_load`).
-/

namespace Edm

/-! ### Routes -/

/-- Whether nothing but routes is bound. -/
def AnnotationStore.HasOnlyRoutes (s : AnnotationStore) : Prop :=
  ∀ k n, k.id ≠ AnnotationKind.route.id → s.get? k n = none

namespace Declarations

section

variable {d : Declarations} {space : NamespaceId} {path : List Text} {site outer : Text}

theorem store_declareProperties (m : ModelId) (path : List Text) (site : Text) (d : Declarations)
    (es : List PropertyEntry) : (es.foldl (declareProperty m path site) d).store = d.store :=
  List.foldlRecOn (motive := fun d' : Declarations => d'.store = d.store) es _ rfl fun _ h _ _ => h

theorem store_declareModel (e : ModelEntry) : (declareModel space path d e).store = d.store := by
  unfold declareModel
  dsimp only
  rw [store_declareProperties]
  cases e.base <;> rfl

theorem store_declareOperation (e : OperationEntry) : (declareOperation path outer d e).2.store = d.store := by
  unfold declareOperation
  dsimp only
  exact store_declareProperties ..

theorem store_declareAllListed (i : InterfaceId) (path : List Text) (outer : Text) (d : Declarations)
    (es : List OperationEntry) : (es.foldl (declareListed i path outer) d).store = d.store :=
  List.foldlRecOn (motive := fun d' : Declarations => d'.store = d.store) es _ rfl fun _ h e _ =>
    (store_declareOperation e).trans h

theorem hasOnlyRoutes_declareInterface (h : d.store.HasOnlyRoutes) (e : InterfaceEntry) :
    (declareInterface space path d e).store.HasOnlyRoutes := by
  unfold declareInterface
  dsimp only
  cases e.route with
  | none => rwa [store_declareAllListed]
  | some route =>
    intro k n hk
    dsimp only
    rw [AnnotationStore.get?_put, if_neg fun heq => hk heq.1.symm, store_declareAllListed]
    exact h k n hk

theorem hasOnlyRoutes_declareEntries (h : d.store.HasOnlyRoutes) (e : DeclarationEntries) :
    (declareEntries space path d e).store.HasOnlyRoutes := by
  have h₁ := List.foldlRecOn (motive := fun d => d.store.HasOnlyRoutes) e.enums (declareEnum space path) h
    fun _ h _ _ => h
  have h₂ := List.foldlRecOn (motive := fun d => d.store.HasOnlyRoutes) e.models (declareModel space path) h₁
    fun _ h _ _ => by rwa [store_declareModel]
  have h₃ := List.foldlRecOn (motive := fun d => d.store.HasOnlyRoutes) e.unions (declareUnion space path) h₂
    fun _ h _ _ => h
  have h₄ := List.foldlRecOn (motive := fun d => d.store.HasOnlyRoutes) e.interfaces
    (declareInterface space path) h₃ fun _ h e _ => hasOnlyRoutes_declareInterface h e
  exact List.foldlRecOn (motive := fun d => d.store.HasOnlyRoutes) e.operations (declareOwnOperation space path) h₄
    fun _ h e _ => by
      rw [declareOwnOperation]
      exact (store_declareOperation e).symm ▸ h

end

mutual

theorem hasOnlyRoutes_declareNamespace {d : Declarations} (i : NamespaceId) (path : List Text)
    (h : d.store.HasOnlyRoutes) : (e : NamespaceEntry) → (declareNamespace i path d e).store.HasOnlyRoutes
  | .entry name x cs => by
    rw [declareNamespace]
    have hopened : { d with graph := (d.graph.openNamespace i (.text name)).2 }.store.HasOnlyRoutes := h
    exact hasOnlyRoutes_declareNamespaces _ _ (hasOnlyRoutes_declareEntries hopened x) cs

theorem hasOnlyRoutes_declareNamespaces {d : Declarations} (i : NamespaceId) (path : List Text)
    (h : d.store.HasOnlyRoutes) : (es : List NamespaceEntry) → (declareNamespaces i path d es).store.HasOnlyRoutes
  | [] => h
  | e :: es => by
    rw [declareNamespaces]
    exact hasOnlyRoutes_declareNamespaces _ _ (hasOnlyRoutes_declareNamespace _ _ h e) es

end

theorem store_initial : initial.store = {} := by
  unfold initial
  exact List.foldlRecOn (motive := fun d : Declarations => d.store = {}) builtInModels _ rfl fun _ h _ _ => h

theorem hasOnlyRoutes_ofDescription (es : List NamespaceEntry) : (ofDescription es).store.HasOnlyRoutes := by
  refine hasOnlyRoutes_declareNamespaces _ _ (fun k n _ => ?_) es
  rw [store_initial]
  rfl

end Declarations

/-! ### Decorators as they are written -/

/-- The name of a decorator: a text, or a field of an object. -/
def Json.decoratorName (x : Json) : Text :=
  match x with
  | .string name => name
  | x => match x.field? "name" with
    | some (.string name) => name
    | _ => []

theorem decoratorCall_eq {site : Text} {x : Json} {call : Text × List Json} (h : decoratorCall site x = .ok call) :
    call = (x.decoratorName, x.items "args") := by
  unfold decoratorCall at h
  split at h
  next name =>
    cases h
    rfl
  next _ hx =>
    split at h
    next name hname =>
      have hdecorator : x.decoratorName = name := by
        unfold Json.decoratorName
        split
        · exact (hx _ rfl).elim
        · rw [hname]
      split at h
      next hargs =>
        cases h
        rw [hdecorator, Json.items, Json.listed?, hargs]
        rfl
      next hargs =>
        cases h
        rw [hdecorator, Json.items, Json.listed?, hargs]
        rfl
      next => cases h
    next => cases h

/-- The decorators of a declaration as they are applied. -/
def Decoration.applications (c : Decoration) : List Application :=
  c.decorators.map fun x =>
    { site := .text c.site, name := x.decoratorName, target := c.target, arguments := x.items "args" }

/-- What the decorator with a name binds to a target for a kind, if it is accepted. -/
def Graph.valueFor? (g : Graph) (k : AnnotationKind) (name : Text) (target : Node) (arguments : List Json) :
    Option Json :=
  (g.binding? name target arguments).bind fun b => if b.1.id = k.id then some b.2 else none

/-- What a decorator that is written at a node binds to it for a kind, if it is accepted. -/
def Json.valueFor? (x : Json) (g : Graph) (k : AnnotationKind) (n : Node) : Option Json :=
  g.valueFor? k x.decoratorName n (x.items "args")

namespace Program

section

variable {p p' : Program} {c : Decoration}

theorem graph_applyAll (p : Program) (as : List Application) : (p.applyAll as).2.graph = p.graph := by
  induction as generalizing p with
  | nil => rfl
  | cons a as ih => exact (ih _).trans (p.graph_apply a)

theorem applyAll_append (p : Program) (as bs : List Application) :
    (p.applyAll (as ++ bs)).2 = ((p.applyAll as).2.applyAll bs).2 := by
  induction as generalizing p with
  | nil => rfl
  | cons a as ih => exact ih _

theorem decorateAll_eq (h : p.decorateAll c = .ok p') : p' = (p.applyAll c.applications).2 := by
  obtain ⟨site, target, decorators⟩ := c
  unfold decorateAll at h
  induction decorators generalizing p with
  | nil =>
    cases h
    rfl
  | cons x xs ih =>
    rw [List.foldlM_cons] at h
    obtain ⟨q, hq, h⟩ := bind_eq_ok h
    obtain ⟨call, hcall, hq⟩ := bind_eq_ok hq
    cases decoratorCall_eq hcall
    cases hq
    exact ih h

theorem decorateEach_eq {cs : List Decoration} (h : cs.foldlM decorateAll p = .ok p') :
    p' = (p.applyAll (cs.flatMap Decoration.applications)).2 := by
  induction cs generalizing p with
  | nil =>
    cases h
    rfl
  | cons c cs ih =>
    rw [List.foldlM_cons] at h
    obtain ⟨q, hq, h⟩ := bind_eq_ok h
    rw [List.flatMap_cons, applyAll_append, ← decorateAll_eq hq]
    exact ih h

/-- A program is loaded by applying the decorators that are left when all types are settled. -/
theorem load_eq {data : Json} (h : load data = .ok p) :
    let d := Declarations.ofDescription data.outline
    let before : Program := { graph := p.graph, store := d.store }
    p = (before.applyAll (d.decorations.flatMap Decoration.applications)).2 := by
  obtain ⟨hread, hsettle⟩ := settleAll_of_load h
  unfold load at h
  rw [hread] at h
  obtain ⟨es, hes, h⟩ := bind_eq_ok h
  cases hes
  obtain ⟨g, hg, h⟩ := bind_eq_ok h
  cases hsettle.symm.trans hg
  exact decorateEach_eq h

/-- What is bound to a node for a kind after a sequence of decorators: what the last one binds of those that bind
it, or else what was bound before. -/
theorem get?_applyAll (p : Program) (as : List Application) (k : AnnotationKind) (n : Node) :
    (p.applyAll as).2.store.get? k n
      = (as.filterMap fun a =>
          if a.target = n then p.graph.valueFor? k a.name a.target a.arguments else none).getLast?.or
            (p.store.get? k n) := by
  induction as generalizing p with
  | nil => rfl
  | cons a as ih =>
    have hdoes := p.does_apply a
    have hfirst : (p.apply a).2.store.get? k n
        = (if a.target = n then p.graph.valueFor? k a.name a.target a.arguments else none).or
            (p.store.get? k n) := by
      rw [Graph.valueFor?, ← Application.binding?]
      generalize a.binding? p.graph = binding at hdoes
      generalize p.apply a = result at hdoes
      cases hdoes with
      | rejected => simp
      | bound kind value =>
        rw [AnnotationStore.get?_put]
        by_cases htarget : a.target = n <;> by_cases hkind : kind.id = k.id <;> simp [htarget, hkind]
    rw [applyAll, ih, graph_apply, hfirst, ← Option.or_assoc, List.filterMap_cons]
    congr 1
    cases if a.target = n then p.graph.valueFor? k a.name a.target a.arguments else none with
    | none => rw [Option.or_none]
    | some v =>
      dsimp only
      rw [List.getLast?_cons]
      cases (as.filterMap _).getLast? <;> rfl

/-- Of all decorators that are left when everything is declared, those of a node as they are applied. -/
theorem filter_applications (d : Declarations) (n : Node) :
    (d.decorations.flatMap Decoration.applications).filter (fun a => a.target = n)
      = (d.view n).decorators.map fun x =>
          { site := .text x.1, name := x.2.decoratorName, target := n, arguments := x.2.items "args" } := by
  rw [Declarations.view]
  dsimp only
  induction d.decorations with
  | nil => rfl
  | cons c cs ih =>
    rw [List.flatMap_cons, List.filter_append, ih, Decoration.applications, List.filter_map]
    by_cases hc : c.target = n
    · subst hc
      simp [Function.comp_def]
    · simp [Function.comp_def, hc]

/-- What is bound to a node of a loaded program is what the last of its decorators binds that is accepted, or else what
was bound when it was declared. -/
theorem get?_or_of_load {data : Json} (h : load data = .ok p) (k : AnnotationKind) (n : Node) : p.store.get? k n
    = (((Declarations.ofDescription data.outline).view n).decorators.filterMap
        fun x => x.2.valueFor? p.graph k n).getLast?.or ((Declarations.ofDescription data.outline).store.get? k n) := by
  rw [load_eq h, get?_applyAll]
  dsimp only
  rw [graph_applyAll]
  refine congrArg (fun l : List Json => l.getLast?.or _) ?_
  generalize Declarations.ofDescription data.outline = d
  have hown := List.filterMap_filter (f := fun a : Application => p.graph.valueFor? k a.name a.target a.arguments)
    (p := fun a => a.target = n) (l := d.decorations.flatMap Decoration.applications)
  simp only [decide_eq_true_eq] at hown
  rw [← hown, filter_applications, List.filterMap_map]
  rfl

/-- Apart from routes, nothing is bound when a node is declared. -/
theorem get?_of_load {data : Json} (h : load data = .ok p) {k : AnnotationKind} (hk : k.id ≠ AnnotationKind.route.id)
    (n : Node) : p.store.get? k n
      = (((Declarations.ofDescription data.outline).view n).decorators.filterMap
          fun x => x.2.valueFor? p.graph k n).getLast? := by
  rw [get?_or_of_load h, Declarations.hasOnlyRoutes_ofDescription data.outline k n hk, Option.or_none]

end

end Program

end Edm
