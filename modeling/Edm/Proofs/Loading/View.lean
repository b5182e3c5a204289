import Edm.Loading
import Edm.Proofs.Graph.Cell

/-!
# What is known of a node

While declarations are made, a node has a record in the graph, references that it waits for, and decorators.
`Declarations.view` reads all three.  A step of declaring keeps what is known of all nodes that it does not
touch (`Declarations.Keeps`), and nothing waits for a node that is not there (`Declarations.Tidy`).
-/

namespace Edm

/-- The node that waits for a type. -/
def Pending.target : Pending → Node
  | base model _ => .model model
  | property id _ => .property id
  | options union _ => .union union
  | result operation _ => .operation operation

/-- What is known of a node: its record, the references that it waits for, and its decorators, each with its
site. -/
@[ext] structure View where
  cell : Option Cell
  waiting : List Reference := []
  decorators : List (Text × Json) := []

namespace View

/-- With another record. -/
def withCell (v : View) (c : Option Cell) : View := { v with cell := c }

/-- With one more reference to wait for. -/
def awaiting (v : View) (r : Reference) : View := { v with waiting := v.waiting ++ [r] }

/-- With more decorators, all of one site. -/
def decorated (v : View) (site : Text) (decorators : List Json) : View :=
  { v with decorators := v.decorators ++ decorators.map fun x => (site, x) }

end View

namespace Declarations

/-- What is known of a node. -/
def view (d : Declarations) (n : Node) : View where
  cell := d.graph.cell? n
  waiting := d.references.filter fun r => r.pending.target = n
  decorators := (d.decorations.filter fun c => c.target = n).flatMap fun c =>
    c.decorators.map fun x => (c.site, x)

/-- Whether a node has a record. -/
def Has (d : Declarations) (n : Node) : Prop := (d.graph.cell? n).isSome = true

/-- Only nodes with a record wait for something or have decorators. -/
structure Tidy (d : Declarations) : Prop where
  references : ∀ r ∈ d.references, d.Has r.pending.target
  decorations : ∀ c ∈ d.decorations, d.Has c.target

/-- What is known of the nodes that are there stays, except for the touched ones. -/
def Keeps (touched : Node → Prop) (d d' : Declarations) : Prop :=
  ∀ n, d.Has n → ¬ touched n → d'.view n = d.view n

section

variable {touched touched' : Node → Prop} {d d' d'' : Declarations} {n : Node}

theorem cell_view (d : Declarations) (n : Node) : (d.view n).cell = d.graph.cell? n := rfl

theorem has_of_cell {c : Cell} (h : d.graph.cell? n = some c) : d.Has n := by
  rw [Has, h]
  rfl

/-- Nothing is known of a node that is not there. -/
theorem Tidy.view_of_not_has (h : d.Tidy) (hn : ¬ d.Has n) : d.view n = { cell := none } := by
  have hcell : d.graph.cell? n = none := by simpa [Has] using hn
  have hwaiting : d.references.filter (fun r => r.pending.target = n) = [] := by
    rw [List.filter_eq_nil_iff]
    intro r hr hrn
    have hrn : r.pending.target = n := by simpa using hrn
    exact hn (hrn ▸ h.references r hr)
  have hdecorators : d.decorations.filter (fun c => c.target = n) = [] := by
    rw [List.filter_eq_nil_iff]
    intro c hc hcn
    have hcn : c.target = n := by simpa using hcn
    exact hn (hcn ▸ h.decorations c hc)
  rw [view, hcell, hwaiting, hdecorators]
  rfl

/-! ### Kept nodes -/

namespace Keeps

theorem refl (touched : Node → Prop) (d : Declarations) : Keeps touched d d := fun _ _ _ => rfl

theorem has (h : Keeps touched d d') (hn : d.Has n) (ht : ¬ touched n) : d'.Has n := by
  have hview := congrArg View.cell (h n hn ht)
  rw [cell_view, cell_view] at hview
  rwa [Has, hview]

theorem trans (h : Keeps touched d d') (h' : Keeps touched d' d'') : Keeps touched d d'' := by
  intro n hn ht
  rw [h' n (h.has hn ht) ht, h n hn ht]

/-- A node that is not there yet need not be counted as touched. -/
theorem weaken (h : Keeps touched d d') (hT : ∀ n, touched n → d.Has n → touched' n) : Keeps touched' d d' :=
  fun n hn ht => h n hn fun htn => ht (hT n htn hn)

end Keeps

/-! ### Steps -/

theorem view_graph (d : Declarations) (g : Graph) (n : Node) :
    ({ d with graph := g } : Declarations).view n = (d.view n).withCell (g.cell? n) := rfl

theorem view_register (d : Declarations) (site : Text) (node n : Node) :
    (d.register site node).view n = d.view n := rfl

theorem view_refer_self {pending : Pending} (h : pending.target = n) (scope : List Text) (site : Text) :
    (d.refer scope site pending).view n = (d.view n).awaiting { pending, scope, site } := by
  simp [view, refer, View.awaiting, List.filter_append, h]

theorem view_refer_ne {pending : Pending} (h : pending.target ≠ n) (scope : List Text) (site : Text) :
    (d.refer scope site pending).view n = d.view n := by
  simp [view, refer, List.filter_append, h]

theorem view_decorate_self {target : Node} (h : target = n) (site : Text) (decorators : List Json) :
    (d.decorate site target decorators).view n = (d.view n).decorated site decorators := by
  simp [view, decorate, View.decorated, List.filter_append, h]

theorem view_decorate_ne {target : Node} (h : target ≠ n) (site : Text) (decorators : List Json) :
    (d.decorate site target decorators).view n = d.view n := by
  simp [view, decorate, List.filter_append, h]

theorem keeps_graph {g : Graph} (h : ∀ n, d.Has n → ¬ touched n → g.cell? n = d.graph.cell? n) :
    Keeps touched d { d with graph := g } := by
  intro n hn ht
  rw [view_graph, h n hn ht]
  rfl

theorem keeps_register (site : Text) (node : Node) : Keeps touched d (d.register site node) :=
  fun _ _ _ => rfl

theorem keeps_refer {scope : List Text} {site : Text} {pending : Pending} (h : touched pending.target) :
    Keeps touched d (d.refer scope site pending) := by
  intro n _ ht
  refine view_refer_ne ?_ scope site
  rintro rfl
  exact ht h

theorem keeps_decorate {site : Text} {target : Node} {decorators : List Json} (h : touched target) :
    Keeps touched d (d.decorate site target decorators) := by
  intro n _ ht
  refine view_decorate_ne ?_ site decorators
  rintro rfl
  exact ht h

/-- A change of the graph that loses no node keeps things tidy. -/
theorem Tidy.graph (h : d.Tidy) {g : Graph} (hg : ∀ n, d.Has n → (g.cell? n).isSome = true) :
    Tidy { d with graph := g } :=
  ⟨fun r hr => hg _ (h.references r hr), fun c hc => hg _ (h.decorations c hc)⟩

theorem Tidy.register (h : d.Tidy) (site : Text) (node : Node) : (d.register site node).Tidy :=
  ⟨h.references, h.decorations⟩

theorem Tidy.refer (h : d.Tidy) {scope : List Text} {site : Text} {pending : Pending}
    (ht : d.Has pending.target) : (d.refer scope site pending).Tidy := by
  refine ⟨fun r hr => ?_, h.decorations⟩
  rcases List.mem_append.1 hr with hr | hr
  · exact h.references r hr
  · rw [List.mem_singleton.1 hr]
    exact ht

theorem Tidy.decorate (h : d.Tidy) {site : Text} {target : Node} {decorators : List Json}
    (ht : d.Has target) : (d.decorate site target decorators).Tidy := by
  refine ⟨h.references, fun c hc => ?_⟩
  rcases List.mem_append.1 hc with hc | hc
  · exact h.decorations c hc
  · rw [List.mem_singleton.1 hc]
    exact ht

/-! ### Runs -/

/-- What some steps of declaring leave as it was, if things were tidy before: all nodes but the touched ones,
and the number of namespaces. -/
structure Grows (touched : Node → Prop) (d d' : Declarations) : Prop where
  keeps : Keeps touched d d'
  tidy : d'.Tidy
  size : d'.graph.namespaces.size = d.graph.namespaces.size

namespace Grows

theorem refl (h : d.Tidy) : Grows touched d d := ⟨Keeps.refl touched d, h, rfl⟩

theorem trans (h : Grows touched d d') (h' : Grows touched d' d'') : Grows touched d d'' :=
  ⟨h.keeps.trans h'.keeps, h'.tidy, h'.size.trans h.size⟩

theorem weaken (h : Grows touched d d') (hT : ∀ n, touched n → d.Has n → touched' n) :
    Grows touched' d d' :=
  ⟨h.keeps.weaken hT, h.tidy, h.size⟩

end Grows

theorem grows_graph (hd : d.Tidy) {g : Graph} (hkeep : ∀ n, d.Has n → ¬ touched n → g.cell? n = d.graph.cell? n)
    (htouched : ∀ n, d.Has n → touched n → (g.cell? n).isSome = true)
    (hsize : g.namespaces.size = d.graph.namespaces.size) : Grows touched d { d with graph := g } := by
  refine ⟨keeps_graph hkeep, hd.graph fun n hn => ?_, hsize⟩
  by_cases ht : touched n
  · exact htouched n hn ht
  · rw [hkeep n hn ht]
    exact hn

theorem grows_register (hd : d.Tidy) (site : Text) (node : Node) : Grows touched d (d.register site node) :=
  ⟨keeps_register site node, hd.register site node, rfl⟩

theorem grows_refer (hd : d.Tidy) {scope : List Text} {site : Text} {pending : Pending}
    (ht : touched pending.target) (hn : d.Has pending.target) :
    Grows touched d (d.refer scope site pending) :=
  ⟨keeps_refer ht, hd.refer hn, rfl⟩

theorem grows_decorate (hd : d.Tidy) {site : Text} {target : Node} {decorators : List Json}
    (ht : touched target) (hn : d.Has target) : Grows touched d (d.decorate site target decorators) :=
  ⟨keeps_decorate ht, hd.decorate hn, rfl⟩

end

end Declarations

end Edm
