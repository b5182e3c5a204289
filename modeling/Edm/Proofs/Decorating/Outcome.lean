import Edm.Proofs.Loading.Bindings
import Mathlib.Data.List.Forall2

/-!
# What a decorator does

Whether a decorator is accepted, and what it binds, depends on the graph, its name, its target and its arguments
(`Graph.binding?`), and not on what was declared before.  An accepted one makes this binding and does nothing else;
a rejected one leaves a diagnostic and does nothing else (`Program.does_apply`).  So of a sequence of decorators
the rejected ones can be left out (`Program.applyAll_isolates`).
-/

namespace Edm

/-! ### Bindings of decorators -/

namespace Decorator

/-- The kind of annotation that a decorator binds. -/
def kind : Decorator → AnnotationKind
  | id => .key
  | openModel => .openType
  | contains => .contains
  | references => .references

/-- The name of the key that a property becomes: the argument of the decorator, or the name of the property where
the argument is left out, null or empty. -/
def keyValue? (name : Label) : List Json → Option Json
  | [] | [.null] | [.string []] => if name.toJson.isNonEmptyText then some name.toJson else none
  | [.string given] => some (.string given)
  | _ => none

/-- What a decorator binds to a target, if it is accepted there. -/
def value? (g : Graph) : Decorator → Node → List Json → Option Json
  | id, .property i, arguments => keyValue? (g.properties.get i).name arguments
  | openModel, .model _, [] => some (.boolean true)
  | contains, .property _, [] => some (.boolean true)
  | references, .property _, [] => some (.boolean true)
  | _, _, _ => none

end Decorator

/-- The kind and the value that the decorator with a name binds to a target, if it is accepted there. -/
def Graph.binding? (g : Graph) (name : Text) (target : Node) (arguments : List Json) :
    Option (AnnotationKind × Json) :=
  (Decorator.ofName? (Program.bareName name)).bind fun d => (d.value? g target arguments).map fun v => (d.kind, v)

/-- A decorator as it is applied: where, by which name, to what, and with which arguments. -/
structure Application where
  site : Label
  name : Text
  target : Node
  arguments : List Json

/-- What an application binds, if it is accepted. -/
def Application.binding? (a : Application) (g : Graph) : Option (AnnotationKind × Json) :=
  g.binding? a.name a.target a.arguments

namespace Program

/-- Applies a decorator, and says whether it was accepted. -/
def apply (p : Program) (a : Application) : Bool × Program := p.decorate a.site a.name a.target a.arguments

/-- Applies decorators one after the other, and says of each whether it was accepted. -/
def applyAll (p : Program) : List Application → List Bool × Program
  | [] => ([], p)
  | a :: as => ((p.apply a).1 :: ((p.apply a).2.applyAll as).1, ((p.apply a).2.applyAll as).2)

/-- What becomes of a program when a decorator binds something, or nothing: a binding is made, or an error at the
site is reported, and all else is as it was. -/
inductive Does (p : Program) (site : Label) (target : Node) :
    Option (AnnotationKind × Json) → Bool × Program → Prop
  | bound (kind : AnnotationKind) (value : Json) :
      Does p site target (some (kind, value)) (true, { p with store := p.store.put kind target value })
  | rejected {e : Diagnostic} : e.severity = .error → e.site = site →
      Does p site target none (false, { p with diagnostics := p.diagnostics ++ [e] })

section

variable {p : Program} {site : Label} {target : Node} {arguments : List Json}

theorem does_reject (p : Program) (site : Label) (target : Node) (code : DiagnosticCode) (message : Text) :
    p.Does site target none (p.reject site code message) :=
  .rejected rfl rfl

theorem does_bind (p : Program) (site : Label) (kind : AnnotationKind) (target : Node) (value : Json) :
    p.Does site target (if kind.acceptsTarget target && kind.accepts value then some (kind, value) else none)
      (p.bind site kind target value) := by
  rw [bind, AnnotationStore.set]
  cases htarget : kind.acceptsTarget target with
  | false => exact does_reject ..
  | true =>
    cases hvalue : kind.accepts value with
    | false => exact does_reject ..
    | true => exact .bound kind value

/-- Binding a key makes the binding that the decorator stands for with its argument. -/
theorem does_bindKey (p : Program) (site : Label) (target : Node) (argument : Json) :
    p.Does site target ((Decorator.id.value? p.graph target [argument]).map fun v => (.key, v))
      (p.bindKey site target argument) := by
  cases target with
  | property i =>
    have hown : p.Does site (.property i)
        ((Decorator.keyValue? (p.graph.properties.get i).name []).map fun v => (.key, v))
        (p.bind site .key (.property i) (p.graph.properties.get i).name.toJson) := by
      rw [Decorator.keyValue?, apply_ite (Option.map _)]
      exact p.does_bind site .key (.property i) _
    cases argument with
    | null => exact hown
    | string t =>
      cases t with
      | nil => exact hown
      | cons c t => exact p.does_bind site .key (.property i) (.string (c :: t))
    | boolean _ | number _ | array _ | object _ => exact does_reject ..
  | literal serial kind value => cases kind <;> exact p.does_bind site .key _ argument
  | _ => exact p.does_bind site .key _ argument

theorem value?_id_nil (g : Graph) (target : Node) :
    Decorator.id.value? g target [] = Decorator.id.value? g target [.null] := by
  cases target <;> rfl

/-- A decorator with too many arguments binds nothing. -/
theorem value?_of_applyDecorator? : {d : Decorator} → {arguments : List Json} →
    p.applyDecorator? site d target arguments = none → d.value? p.graph target arguments = none
  | .id, [], h | .id, [_], h | .openModel, [], h | .contains, [], h | .references, [], h => by cases h
  | .id, _ :: _ :: _, _ | .openModel, _ :: _, _ | .contains, _ :: _, _ | .references, _ :: _, _ => by
    cases target <;> simp [Decorator.value?, Decorator.keyValue?]

theorem does_applyDecorator {d : Decorator} {result : Bool × Program}
    (h : p.applyDecorator? site d target arguments = some result) :
    p.Does site target ((d.value? p.graph target arguments).map fun v => (d.kind, v)) result := by
  have hmark := fun kind => p.does_bind site kind target (.boolean true)
  unfold applyDecorator? at h
  split at h <;> cases h
  · rw [value?_id_nil]
    exact p.does_bindKey site target .null
  · exact p.does_bindKey site target _
  · cases target with
    | literal serial kind value => cases kind <;> exact hmark .openType
    | _ => exact hmark .openType
  · cases target with
    | literal serial kind value => cases kind <;> exact hmark .contains
    | _ => exact hmark .contains
  · cases target with
    | literal serial kind value => cases kind <;> exact hmark .references
    | _ => exact hmark .references

/-- A decorator makes the binding that it stands for, or is reported. -/
theorem does_apply (p : Program) (a : Application) : p.Does a.site a.target (a.binding? p.graph) (p.apply a) := by
  rw [Application.binding?, Graph.binding?, apply, decorate]
  cases hname : Decorator.ofName? (bareName a.name) with
  | none => exact does_reject ..
  | some d =>
    dsimp only
    rw [Option.bind_some]
    cases hresult : p.applyDecorator? a.site d a.target a.arguments with
    | some result => exact does_applyDecorator hresult
    | none =>
      rw [value?_of_applyDecorator? hresult]
      exact does_reject ..

/-- Nothing but the store and the diagnostics is changed. -/
theorem Does.graph_eq {binding : Option (AnnotationKind × Json)} {result : Bool × Program}
    (h : p.Does site target binding result) : result.2.graph = p.graph := by
  cases h <;> rfl

theorem Does.fst_eq {binding : Option (AnnotationKind × Json)} {result : Bool × Program}
    (h : p.Does site target binding result) : result.1 = binding.isSome := by
  cases h <;> rfl

/-! ### Sequences -/

theorem graph_apply (p : Program) (a : Application) : (p.apply a).2.graph = p.graph := (p.does_apply a).graph_eq

/-- Which decorators of a sequence are accepted can be told in advance. -/
theorem fst_applyAll (p : Program) (as : List Application) :
    (p.applyAll as).1 = as.map fun a => (a.binding? p.graph).isSome := by
  induction as generalizing p with
  | nil => rfl
  | cons a as ih =>
    rw [applyAll, List.map_cons, ih, graph_apply, (p.does_apply a).fst_eq]

/-- The decorators of a sequence that are accepted when all of it is applied. -/
def accepted (p : Program) (as : List Application) : List Application :=
  ((as.zip (p.applyAll as).1).filter Prod.snd).map Prod.fst

theorem accepted_eq (p : Program) (as : List Application) :
    p.accepted as = as.filter fun a => (a.binding? p.graph).isSome := by
  rw [accepted, fst_applyAll]
  induction as with
  | nil => rfl
  | cons a as ih => cases h : (a.binding? p.graph).isSome <;> simp [h, ih]

/-- A program with other diagnostics. -/
def withDiagnostics (p : Program) (ds : List Diagnostic) : Program := { p with diagnostics := ds }

/-- What is bound does not depend on what is reported. -/
theorem applyAll_kept (p : Program) (ds : List Diagnostic) (as : List Application) :
    ((p.withDiagnostics ds).applyAll (as.filter fun a => (a.binding? p.graph).isSome)).2
      = (p.applyAll as).2.withDiagnostics ds := by
  induction as generalizing p with
  | nil => rfl
  | cons a as ih =>
    have hdoes := p.does_apply a
    have hkept := (p.withDiagnostics ds).does_apply a
    rw [show (p.withDiagnostics ds).graph = p.graph from rfl] at hkept
    rw [applyAll]
    generalize p.apply a = result at hdoes
    cases hbinding : a.binding? p.graph with
    | none =>
      rw [List.filter_cons_of_neg (by simp [hbinding])]
      rw [hbinding] at hdoes
      cases hdoes with
      | @rejected e _ _ => exact ih (p.withDiagnostics (p.diagnostics ++ [e]))
    | some b =>
      rw [List.filter_cons_of_pos (by simp [hbinding]), applyAll]
      rw [hbinding] at hdoes hkept
      cases hdoes with
      | bound kind value =>
        generalize (p.withDiagnostics ds).apply a = result at hkept
        cases hkept with
        | bound => exact ih { p with store := p.store.put kind a.target value }

/-- Each rejected decorator of a sequence adds one error at its site, in their order, and no other adds any. -/
theorem reports_applyAll (p : Program) (as : List Application) :
    ∃ added, (p.applyAll as).2.diagnostics = p.diagnostics ++ added
      ∧ List.Forall₂ (fun a e => e.severity = .error ∧ e.site = a.site)
          (as.filter fun a => (a.binding? p.graph).isNone) added := by
  induction as generalizing p with
  | nil => exact ⟨[], by simp [applyAll], .nil⟩
  | cons a as ih =>
    have hdoes := p.does_apply a
    rw [applyAll]
    obtain ⟨added, hadded, hreports⟩ := ih (p.apply a).2
    rw [graph_apply] at hreports
    generalize p.apply a = result at hdoes hadded
    cases hbinding : a.binding? p.graph with
    | some b =>
      rw [hbinding] at hdoes
      rw [List.filter_cons_of_neg (by simp [hbinding])]
      cases hdoes with
      | bound kind value => exact ⟨added, hadded, hreports⟩
    | none =>
      rw [hbinding] at hdoes
      rw [List.filter_cons_of_pos (by simp [hbinding])]
      cases hdoes with
      | @rejected e herror hsite =>
        exact ⟨e :: added, by simpa using hadded, .cons ⟨herror, hsite⟩ hreports⟩

/-- Each rejected decorator of a sequence adds one diagnostic, and no other does. -/
theorem diagnostics_applyAll (p : Program) (as : List Application) :
    ∃ added, (p.applyAll as).2.diagnostics = p.diagnostics ++ added
      ∧ added.length = (p.applyAll as).1.count false := by
  obtain ⟨added, hadded, hreports⟩ := p.reports_applyAll as
  refine ⟨added, hadded, ?_⟩
  rw [← hreports.length_eq, fst_applyAll, List.count, List.countP_map, List.countP_eq_length_filter]
  refine congrArg List.length (List.filter_congr fun a _ => ?_)
  rw [Function.comp_apply]
  cases a.binding? p.graph <;> rfl

/-- A decorator either is accepted and makes one binding, of its kind to its target, or is rejected and leaves one
error at its site; nothing else is changed.  So the rejected ones of a sequence can be left out, and their number is
the number of new diagnostics. -/
theorem applyAll_isolates (p : Program) :
    (∀ a : Application,
      (∃ d v, Decorator.ofName? (bareName a.name) = some d
          ∧ p.apply a = (true, { p with store := p.store.put d.kind a.target v })
          ∧ ∀ k n, (p.store.put d.kind a.target v).get? k n
              = if d.kind.id = k.id ∧ a.target = n then some v else p.store.get? k n)
        ∨ ∃ e, p.apply a = (false, { p with diagnostics := p.diagnostics ++ [e] })
            ∧ e.severity = .error ∧ e.site = a.site)
      ∧ ∀ as : List Application,
          (p.applyAll (p.accepted as)).1 = (p.applyAll as).1.filter id
            ∧ (p.applyAll (p.accepted as)).2 = { (p.applyAll as).2 with diagnostics := p.diagnostics }
            ∧ ∃ added, (p.applyAll as).2.diagnostics = p.diagnostics ++ added
                ∧ added.length = (p.applyAll as).1.count false := by
  refine ⟨fun a => ?_, fun as => ⟨?_, ?_, p.diagnostics_applyAll as⟩⟩
  · have hdoes := p.does_apply a
    generalize p.apply a = result at hdoes
    cases hbinding : a.binding? p.graph with
    | none =>
      rw [hbinding] at hdoes
      cases hdoes with
      | rejected herror hsite => exact .inr ⟨_, rfl, herror, hsite⟩
    | some b =>
      rw [hbinding] at hdoes
      obtain ⟨d, hd, hvalue⟩ := Option.bind_eq_some_iff.1 hbinding
      obtain ⟨v, -, rfl⟩ := Option.map_eq_some_iff.1 hvalue
      cases hdoes with
      | bound => exact .inl ⟨d, v, hd, rfl, fun k n => AnnotationStore.get?_put ..⟩
  · rw [accepted_eq, fst_applyAll, fst_applyAll, List.filter_map]
    rfl
  · rw [accepted_eq]
    exact p.applyAll_kept p.diagnostics as

end

end Program

end Edm
