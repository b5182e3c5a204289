import Edm.Proofs.Document.Decorated
import Edm.Proofs.Loading.Decorations
import Edm.Proofs.Loading.Resolved

/-!
# Rejected decorators

What a loaded program has to report is about decorators that were rejected, each of which is one error
(`Program.onlyRejects_of_load`).  Which decorators of a description these are can be read off the description: whether
one is accepted depends on its name, its arguments, and the kind and the name of the declaration that it stands at
(`DecoratorEntry.isAccepted`, `Program.length_diagnostics_of_load`).
-/

namespace Edm

/-! ### Decorators of a description -/

/-- A decorator of a description, with the kind and the name of the declaration that it stands at. -/
structure DecoratorEntry where
  kind : Kind
  name : Label
  decorator : Json

namespace DecoratorEntry

/-- Whether a property can be named as a key by the arguments of an `id` decorator: by a text that is not empty, or
else by its own name. -/
def isNamed (own : Label) : List Json → Bool
  | [] | [.null] => own.toJson.isNonEmptyText
  | [.string given] => !given.isEmpty || own.toJson.isNonEmptyText
  | _ => false

/-- Whether a decorator is accepted where it stands. -/
def isAccepted (e : DecoratorEntry) : Bool :=
  let name := Program.bareName e.decorator.decoratorName
  let arguments := e.decorator.items "args"
  match e.kind with
  | .model => name = "openModel" && arguments.isEmpty
  | .property =>
    name = "id" && isNamed e.name arguments || (name = "contains" || name = "references") && arguments.isEmpty
  | _ => false

end DecoratorEntry

/-- The decorators of a declaration. -/
def Decorable.entries (x : Decorable) : List DecoratorEntry := x.decorators.map fun v => ⟨x.kind, x.name, v⟩

/-- All decorators of a description. -/
def Json.decoratorEntries (data : Json) : List DecoratorEntry :=
  (NamespaceEntry.decorablesOf data.outline).flatMap Decorable.entries

/-- How many decorators of a description are rejected. -/
def Json.rejectedCount (data : Json) : Nat := data.decoratorEntries.countP fun e => !e.isAccepted

/-! ### Acceptance -/

theorem Graph.isSome_binding? (g : Graph) (name : Text) (target : Node) (arguments : List Json) :
    (g.binding? name target arguments).isSome = true
      ↔ ∃ d : Decorator, Program.bareName name = d.word ∧ (d.value? g target arguments).isSome = true := by
  rw [binding?, Option.isSome_bind, Option.any_eq_true]
  simp only [Option.isSome_map]
  refine exists_congr fun d => and_congr_left fun _ => ⟨Decorator.word_of_ofName?, fun h => ?_⟩
  rw [h, Decorator.ofName?_word]

namespace Decorator

theorem exists_iff {P : Decorator → Prop} : (∃ d, P d) ↔ P .id ∨ P .openModel ∨ P .contains ∨ P .references := by
  constructor
  · rintro ⟨d, hd⟩
    cases d <;> tauto
  · rintro (h | h | h | h) <;> exact ⟨_, h⟩

theorem isSome_keyValue? (own : Label) : (arguments : List Json) →
    (keyValue? own arguments).isSome = DecoratorEntry.isNamed own arguments
  | [] | [.null] | [.string []] => by
    rw [keyValue?]
    cases h : own.toJson.isNonEmptyText <;> simp [DecoratorEntry.isNamed, h]
  | [.string (_ :: _)] => by simp [keyValue?, DecoratorEntry.isNamed]
  | [.boolean _] | [.number _] | [.array _] | [.object _] => rfl
  | _ :: _ :: _ => by simp [keyValue?, DecoratorEntry.isNamed]

end Decorator

namespace Declarations

/-- A decorator that is left for a declaration is accepted if its entry is. -/
theorem IsLeft.binding?_eq {d g : Graph} {x : Decorable} {c : Decoration} (h : IsLeft d x c)
    (hg : ∀ i q, d.properties.get? i = some q → (g.properties.get i).name = q.name) :
    c.applications.map (fun a => (a.binding? g).isSome) = x.entries.map DecoratorEntry.isAccepted := by
  have haccepted : ∀ v : Json, (g.binding? v.decoratorName c.target (v.items "args")).isSome
      = DecoratorEntry.isAccepted ⟨x.kind, x.name, v⟩ := by
    intro v
    rw [Bool.eq_iff_iff, Graph.isSome_binding?, Decorator.exists_iff, DecoratorEntry.isAccepted]
    dsimp only
    generalize v.items "args" = arguments
    cases h with
    | model => cases arguments <;> simp [Decorator.value?, Decorator.word]
    | @property q site i decorators hq =>
      have hname := hg i q hq
      cases arguments <;> simp [Decorator.value?, Decorator.word, hname, Decorator.isSome_keyValue?]
  have hsame : c.decorators = x.decorators := by
    cases h <;> rfl
  rw [Decoration.applications, Decorable.entries, hsame, List.map_map, List.map_map]
  exact List.map_congr_left fun v _ => haccepted v

theorem map_isSome_binding? {d g : Graph} {xs : List Decorable} {cs : List Decoration}
    (h : List.Forall₂ (IsLeft d) xs cs)
    (hg : ∀ i q, d.properties.get? i = some q → (g.properties.get i).name = q.name) :
    (cs.flatMap Decoration.applications).map (fun a => (a.binding? g).isSome)
      = (xs.flatMap Decorable.entries).map DecoratorEntry.isAccepted := by
  induction h with
  | nil => rfl
  | cons hx _ ih =>
    rw [List.flatMap_cons, List.flatMap_cons, List.map_append, List.map_append, ih, hx.binding?_eq hg]

end Declarations

/-! ### Reports -/

namespace Program

/-- Whether a program reports nothing but rejected decorators. -/
def OnlyRejects (p : Program) : Prop := ∀ d ∈ p.diagnostics, d.severity = .error ∧ d.code ≠ .unrenderableType

section

variable {p : Program} {site : Label} {n : Node} (h : p.OnlyRejects)

include h

theorem onlyRejects_reject {code : DiagnosticCode} (hcode : code ≠ .unrenderableType) (message : Text) :
    (p.reject site code message).2.OnlyRejects :=
  List.forall_mem_append.2 ⟨h, List.forall_mem_singleton.2 ⟨rfl, hcode⟩⟩

theorem onlyRejects_bind (k : AnnotationKind) (v : Json) : (p.bind site k n v).2.OnlyRejects := by
  unfold bind
  split
  next => exact h
  next e _ =>
    refine onlyRejects_reject h ?_ _
    cases e <;> simp [AnnotationError.code]

theorem onlyRejects_bindKey (argument : Json) : (p.bindKey site n argument).2.OnlyRejects := by
  unfold bindKey
  split
  next =>
    dsimp only
    split
    · exact onlyRejects_bind h _ _
    · exact onlyRejects_bind h _ _
    · exact onlyRejects_reject h (by decide) _
  next => exact onlyRejects_bind h _ _

theorem onlyRejects_applyDecorator {d : Decorator} {arguments : List Json} {result : Bool × Program}
    (happly : p.applyDecorator? site d n arguments = some result) : result.2.OnlyRejects := by
  unfold applyDecorator? at happly
  split at happly
  · cases happly
    exact onlyRejects_bindKey h _
  · cases happly
    exact onlyRejects_bindKey h _
  · cases happly
    exact onlyRejects_bind h _ _
  · cases happly
    exact onlyRejects_bind h _ _
  · cases happly
    exact onlyRejects_bind h _ _
  · cases happly

theorem onlyRejects_apply (a : Application) : (p.apply a).2.OnlyRejects := by
  unfold apply decorate
  dsimp only
  split
  · exact onlyRejects_reject h (by decide) _
  · split
    next result happly => exact onlyRejects_applyDecorator h happly
    next => exact onlyRejects_reject h (by decide) _

theorem onlyRejects_applyAll (as : List Application) : (p.applyAll as).2.OnlyRejects := by
  induction as generalizing p with
  | nil => exact h
  | cons a as ih => exact ih (onlyRejects_apply h a)

end

variable {data : Json} {p : Program}

/-- A loaded program reports nothing but rejected decorators. -/
theorem onlyRejects_of_load (h : load data = .ok p) : p.OnlyRejects := by
  rw [load_eq h]
  exact onlyRejects_applyAll (fun _ hd => (List.not_mem_nil hd).elim) _

/-- A loaded program has one report for each decorator that is rejected. -/
theorem length_diagnostics_of_load (h : load data = .ok p) : p.diagnostics.length = data.rejectedCount := by
  obtain ⟨hconsistent, -⟩ := consistent_of_load h
  obtain ⟨-, hsettle⟩ := settleAll_of_load h
  have hnames : ∀ i q, (Declarations.ofDescription data.outline).graph.properties.get? i = some q →
      (p.graph.properties.get i).name = q.name := by
    intro i q hq
    obtain ⟨c, hc, hname, -⟩ := hconsistent.carries hsettle (.property i) (.property q)
      (congrArg (Option.map Cell.property) hq)
    obtain ⟨q', hq', rfl⟩ := Option.map_eq_some_iff.1 hc
    rw [Table.get_of_get? hq']
    exact hname
  have hverdicts := Declarations.map_isSome_binding? (Declarations.isLeft_ofDescription data.outline) hnames
  obtain ⟨added, hadded, hlength⟩ := Program.diagnostics_applyAll { graph := p.graph, store := _ }
    ((Declarations.ofDescription data.outline).decorations.flatMap Decoration.applications)
  have hreports : p.diagnostics = added := by
    rw [load_eq h, hadded]
    rfl
  rw [hreports, hlength, fst_applyAll, hverdicts, List.count, List.countP_map, Json.rejectedCount]
  exact List.countP_congr fun e _ => by simp

end Program

end Edm
