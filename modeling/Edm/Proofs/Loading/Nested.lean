import Edm.Proofs.Graph.Growing
import Edm.Proofs.Loading.Resolved

/-!
# Namespaces that are loaded or called for

Only opening a namespace changes how namespaces are nested; declaring what is in them does not
(`Declarations.sameSpaces_declareEntries`), and neither does anything after that.  So the namespaces of a loaded
program are nested, whatever the names of its declarations are (`Program.isArranged_of_load`).  Flattening is exact for
these, and for what calls build from them, or from nodes that belong to nothing, if the links agree in the end
(`Graph.IsBuilt.flatten_exact`).
-/

namespace Edm

open Relation Edm.Graph

namespace Declarations

/-! ### Declaring -/

section

variable (space : NamespaceId) (path : List Text) (site : Text) (d : Declarations)

theorem sameSpaces_foldl {β : Type} {f : Declarations → β → Declarations}
    (hf : ∀ d b, SameSpaces d.graph (f d b).graph) (d : Declarations) (bs : List β) :
    SameSpaces d.graph (bs.foldl f d).graph := by
  induction bs generalizing d with
  | nil => exact .of_eq rfl
  | cons b bs ih => exact (hf d b).trans (ih (f d b))

theorem sameSpaces_declareProperties (owner : ModelId) (es : List PropertyEntry) :
    SameSpaces d.graph (es.foldl (declareProperty owner path site) d).graph := by
  refine sameSpaces_foldl (fun d e => ?_) d es
  exact .of_eq rfl

/-- A node that is no namespace is listed once it is made. -/
theorem sameSpaces_listed {g : Graph} (made : Graph) (n : Node) (h : made.namespaces = g.namespaces)
    (hn : ∀ j, n ≠ .nameSpace j) : SameSpaces g (made.list space n) :=
  (SameSpaces.of_eq h).trans (.list made space hn)

theorem sameSpaces_declareBuiltIn (name : Text) : SameSpaces d.graph (declareBuiltIn space d name).graph :=
  sameSpaces_listed space (d.graph.newModel { name := .text name }).2 (.model d.graph.models.size) rfl (by simp)

theorem sameSpaces_declareEnum (e : EnumEntry) : SameSpaces d.graph (declareEnum space path d e).graph := by
  refine SameSpaces.trans ?_ (.foldl (fun g m => ?_) _ e.members)
  · exact sameSpaces_listed space (d.graph.newEnum { name := e.name }).2 (.enum d.graph.enums.size) rfl (by simp)
  · exact .of_eq rfl

theorem sameSpaces_declareModel (e : ModelEntry) : SameSpaces d.graph (declareModel space path d e).graph := by
  have hlist := sameSpaces_listed space (g := d.graph) (d.graph.newModel { name := e.name }).2
    (.model d.graph.models.size) rfl (by simp)
  unfold declareModel
  dsimp only
  refine .trans ?_ (sameSpaces_declareProperties path _ _ _ e.properties)
  cases e.base <;> exact hlist

theorem sameSpaces_declareUnion (e : UnionEntry) : SameSpaces d.graph (declareUnion space path d e).graph :=
  sameSpaces_listed space (d.graph.newUnion { name := e.name }).2 (.union d.graph.unions.size) rfl (by simp)

theorem sameSpaces_declareOperation (e : OperationEntry) :
    SameSpaces d.graph (declareOperation path site d e).2.graph := by
  have hnew : SameSpaces d.graph (d.graph.newOperation e.name none).2 := .of_eq rfl
  unfold declareOperation
  dsimp only
  refine .trans ?_ (sameSpaces_declareProperties path _ _ _ e.parameters)
  exact hnew

theorem sameSpaces_declareListed (i : InterfaceId) (e : OperationEntry) :
    SameSpaces d.graph (declareListed i path site d e).graph := by
  have hlisted : SameSpaces (declareOperation path site d e).2.graph (declareListed i path site d e).graph :=
    .of_eq rfl
  exact (sameSpaces_declareOperation path site d e).trans hlisted

theorem sameSpaces_declareInterface (e : InterfaceEntry) :
    SameSpaces d.graph (declareInterface space path d e).graph := by
  have hlist := sameSpaces_listed space (g := d.graph) (d.graph.newInterface { name := e.name }).2
    (.interface d.graph.interfaces.size) rfl (by simp)
  have hlisted := fun i site d => sameSpaces_foldl (fun d e => sameSpaces_declareListed path site d i e) d e.operations
  unfold declareInterface
  dsimp only
  cases e.route with
  | none =>
    refine .trans ?_ (hlisted _ _ _)
    exact hlist
  | some route =>
    refine .trans ?_ (hlisted _ _ _)
    exact hlist

theorem sameSpaces_declareOwnOperation (e : OperationEntry) :
    SameSpaces d.graph (declareOwnOperation space path d e).graph := by
  have hlist := (sameSpaces_declareOperation path (dotted path) d e).trans
    (.list _ space (n := .operation (declareOperation path (dotted path) d e).1) (by simp))
  exact hlist

/-- Declaring what is in a namespace leaves all namespaces where they are. -/
theorem sameSpaces_declareEntries (e : DeclarationEntries) :
    SameSpaces d.graph (declareEntries space path d e).graph :=
  ((((sameSpaces_foldl (sameSpaces_declareEnum space path) d e.enums).trans
    (sameSpaces_foldl (sameSpaces_declareModel space path) _ e.models)).trans
    (sameSpaces_foldl (sameSpaces_declareUnion space path) _ e.unions)).trans
    (sameSpaces_foldl (sameSpaces_declareInterface space path) _ e.interfaces)).trans
    (sameSpaces_foldl (sameSpaces_declareOwnOperation space path) _ e.operations)

end

/-! ### Opening -/

/-- Namespaces are listed under their names by the ones that they refer back to. -/
def IsArranged (d : Declarations) : Prop := d.graph.IsKeyed ∧ d.graph.IsBacked

theorem IsArranged.congr {d d' : Declarations} (h : d.IsArranged) (hsame : SameSpaces d.graph d'.graph) :
    d'.IsArranged :=
  ⟨h.1.congr hsame, h.2.congr hsame⟩

theorem size_le_openNamespace (g : Graph) (outer : NamespaceId) (name : Label) :
    g.namespaces.size ≤ (g.openNamespace outer name).2.namespaces.size := by
  rw [Graph.openNamespace]
  split
  · exact Nat.le_refl _
  · rw [size_list]
    exact Nat.le_of_lt (lt_size_newNamespace g _)

mutual

theorem IsArranged.declareNamespace {d : Declarations} {outer : NamespaceId} (h : d.IsArranged)
    (houter : outer < d.graph.namespaces.size) (path : List Text) : (e : NamespaceEntry) →
    (Declarations.declareNamespace outer path d e).IsArranged
      ∧ d.graph.namespaces.size ≤ (Declarations.declareNamespace outer path d e).graph.namespaces.size
  | .entry name x children => by
    rw [Declarations.declareNamespace]
    obtain ⟨hkeyed, hspace⟩ := h.1.openNamespace houter (show (Label.text name).isText = true from rfl)
    have hopen : IsArranged { d with graph := (d.graph.openNamespace outer (.text name)).2 } :=
      ⟨hkeyed, h.2.openNamespace h.1 houter _⟩
    have hle := size_le_openNamespace d.graph outer (.text name)
    dsimp only
    generalize d.graph.openNamespace outer (.text name) = opened at hspace hopen hle
    have hsame := sameSpaces_declareEntries opened.1 (path ++ [name]) { d with graph := opened.2 } x
    rw [← hsame.size_eq] at hspace hle
    obtain ⟨hall, hle'⟩ := (hopen.congr hsame).declareNamespaces hspace (path ++ [name]) children
    exact ⟨hall, Nat.le_trans hle hle'⟩

theorem IsArranged.declareNamespaces {d : Declarations} {outer : NamespaceId} (h : d.IsArranged)
    (houter : outer < d.graph.namespaces.size) (path : List Text) : (es : List NamespaceEntry) →
    (Declarations.declareNamespaces outer path d es).IsArranged
      ∧ d.graph.namespaces.size ≤ (Declarations.declareNamespaces outer path d es).graph.namespaces.size
  | [] => by
    rw [Declarations.declareNamespaces]
    exact ⟨h, Nat.le_refl _⟩
  | e :: es => by
    rw [Declarations.declareNamespaces]
    obtain ⟨hfirst, hle⟩ := h.declareNamespace houter path e
    obtain ⟨hrest, hle'⟩ := hfirst.declareNamespaces (Nat.lt_of_lt_of_le houter hle) path es
    exact ⟨hrest, Nat.le_trans hle hle'⟩

end

theorem isArranged_initial : initial.IsArranged := by
  have hget : ∀ i, ({} : Graph).namespaces.get i = {} := by
    intro i
    cases i <;> rfl
  have hkeyed : IsKeyed {} := by
    refine ⟨fun i => ?_, fun i => ?_, fun i x hx => ?_, fun i p hp => ?_⟩
    · rw [hget]
      rfl
    · rw [hget]
      exact List.nodup_nil
    · rw [hget] at hx
      cases hx
    · rw [hget] at hp
      cases hp
  have hbacked : IsBacked {} := by
    intro i j hj
    have hmem : j ∈ (({} : Graph).namespaces.get i).namespaces.values := hj
    rw [hget] at hmem
    cases hmem
  have hroot : root < ({} : Graph).namespaces.size := Nat.one_pos
  have hopen : IsArranged { graph := (openNamespace {} root (.text builtInNamespace)).2 } :=
    ⟨(hkeyed.openNamespace hroot rfl).1, hbacked.openNamespace hkeyed hroot _⟩
  unfold initial
  dsimp only
  generalize openNamespace {} root (.text builtInNamespace) = opened at hopen
  exact hopen.congr (sameSpaces_foldl (sameSpaces_declareBuiltIn opened.1) _ builtInModels)

end Declarations

/-! ### Loaded programs -/

namespace Program

open Declarations

variable {data : Json} {p : Program}

theorem isArranged_of_load (h : load data = .ok p) : p.graph.IsKeyed ∧ p.graph.IsTree := by
  obtain ⟨hd, hroot⟩ := consistent_of_load h
  obtain ⟨-, hsettle⟩ := settleAll_of_load h
  have hsame : SameSpaces (ofDescription data.outline).graph p.graph :=
    .of_eq (namespaces_of_settleAll hd.tidy hsettle)
  have hsize : Graph.root < initial.graph.namespaces.size := by decide +kernel
  obtain ⟨⟨hkeyed, hback⟩, -⟩ := isArranged_initial.declareNamespaces hsize [] data.outline
  refine ⟨hkeyed.congr hsame, fun i j hj => ?_, ?_⟩
  · rw [Encloses, space_nameSpace]
    exact hback.congr hsame i j hj
  · have hencloses : p.graph.Encloses = fun j i => (p.graph.namespaces.get i).parent = some j := by
      funext j i
      rw [Encloses, space_nameSpace]
    rw [hencloses]
    exact (hd.isOrdered hsettle).walksEnd.outward

end Program

/-! ### Flattening -/

namespace Graph

/-- Graphs that calls come to from a loaded program, or from nodes that belong to nothing. -/
inductive IsGrown : Graph → Prop
  | load {data : Json} {p : Program} : Program.load data = .ok p → IsGrown p.graph
  | loose {g : Graph} : (∀ n c, g.cell? n = some c → c.items = [] ∧ c.owner = none) →
      (∀ i, (g.namespaces.get i).name.isText = true) → IsGrown g
  | call {g : Graph} {call : Call} : IsGrown g → g.IsProper call → call.HasTextName → IsGrown (g.after call)

/-- Graphs that loading comes to, and those that calls come to if the links between their namespaces agree. -/
inductive IsBuilt : Graph → Prop
  | load {data : Json} {p : Program} : Program.load data = .ok p → IsBuilt p.graph
  | calls {g : Graph} : g.IsGrown → g.IsTree → IsBuilt g

section

variable {g : Graph} {excluded : List Text} {i j k : NamespaceId}

theorem IsGrown.isKeyed (h : g.IsGrown) : g.IsKeyed := by
  induction h with
  | load h => exact (Program.isArranged_of_load h).1
  | loose hloose htext => exact isKeyed_of_records hloose htext
  | call _ hproper htext ih => exact ih.after hproper htext

theorem IsBuilt.isNested (h : g.IsBuilt) : g.IsNested := by
  cases h with
  | load h =>
    obtain ⟨hkeyed, htree⟩ := Program.isArranged_of_load h
    exact hkeyed.isNested htree
  | calls hgrown htree => exact hgrown.isKeyed.isNested htree

theorem mem_flatten_iff (h : g.WalksEnd) : j ∈ g.flatten excluded i
    ↔ ReflTransGen g.Holds i j ∧ g.namespaceName j ≠ [] ∧ g.HasEntries j ∧ ¬ g.Excludes excluded j := by
  rw [mem_flatten, h.mem_expand_iff, isIncluded_iff]

/-- Flattening gives exactly the namespaces inside a given one, itself included, that have a dotted name and declare
something, and whose dotted name starts with none of the excluded prefixes: each once, in pre-order.  What is inside a
namespace that is excluded is not given, at any depth. -/
theorem IsBuilt.flatten_exact (h : g.IsBuilt) (excluded : List Text) (i : NamespaceId) :
    ∃ order, (∀ l, g.PreOrder i l ↔ l = order) ∧ order.Nodup ∧ (∀ j, j ∈ order ↔ ReflTransGen g.Holds i j)
      ∧ (∀ j ∈ order, g.hasTextPath j = true)
      ∧ (g.flatten excluded i).Sublist order
      ∧ (∀ j, j ∈ g.flatten excluded i
        ↔ ReflTransGen g.Holds i j ∧ g.namespaceName j ≠ [] ∧ g.HasEntries j ∧ ¬ g.Excludes excluded j)
      ∧ ∀ j k, g.Excludes excluded j → ReflTransGen g.Holds j k → k ∉ g.flatten excluded i := by
  have hnested := h.isNested
  have hwalks := hnested.walks
  refine ⟨g.expand i, fun l => ⟨hwalks.eq_expand, ?_⟩, hnested.nodup_expand i, fun j => hwalks.mem_expand_iff,
    fun j _ => hnested.hasTextPath j, List.filter_sublist, fun j => mem_flatten_iff hwalks, fun j k hj hk hmem => ?_⟩
  · rintro rfl
    exact hwalks.preOrder_expand i
  · obtain ⟨-, -, -, hincluded⟩ := (mem_flatten_iff hwalks).1 hmem
    exact hincluded (hnested.excludes hj hk)

/-- A description with a namespace that declares nothing and one that is to be excluded, each with one inside it. -/
def layered : Json := .object [("namespaces", .array [
  .object [("name", .string "A"), ("namespaces", .array [
    .object [("name", .string "B"), ("models", .array [.object [("name", .string "M")]])]])],
  .object [("name", .string "X"), ("models", .array [.object [("name", .string "N")]]), ("namespaces", .array [
    .object [("name", .string "Y"), ("models", .array [.object [("name", .string "O")]])]])]])]

/-- Of two namespaces inside others, the one inside a namespace without declarations is given, and the one inside an
excluded namespace is not.  A call on nodes that belong to nothing builds a graph, too. -/
theorem flatten_exact_layered :
    (∃ p, Program.load layered = .ok p ∧ p.graph.flatten ["Cadl", "X"] root = [3]
      ∧ (p.graph.Holds 2 3 ∧ ¬ p.graph.HasEntries 2) ∧ (p.graph.Holds 4 5 ∧ p.graph.HasEntries 5)
      ∧ p.graph.Excludes ["Cadl", "X"] 4 ∧ 5 ∉ p.graph.flatten ["Cadl", "X"] root)
    ∧ ∃ order : List NamespaceId, order.Nodup
      ∧ ∀ j, j ∈ order ↔ ReflTransGen (detached.after (.child 1 (.text "C"))).Holds 1 j := by
  have hfound : ∀ p ∈ (Program.load layered).toOption, p.graph.flatten ["Cadl", "X"] root = [3]
      ∧ 3 ∈ (p.graph.namespaces.get 2).namespaces.values ∧ (p.graph.namespaces.get 2).isRenderable = false
      ∧ 5 ∈ (p.graph.namespaces.get 4).namespaces.values ∧ (p.graph.namespaces.get 5).isRenderable = true
      ∧ isExcluded ["Cadl", "X"] (p.graph.namespaceName 4) = true := by
    decide +kernel
  obtain ⟨p, hload⟩ : ∃ p, Program.load layered = .ok p := Yields.exists_ok (by decide +kernel)
  constructor
  · obtain ⟨hflat, houter, hempty, hinner, hentries, hexcluded⟩ := hfound p (by rw [hload]; rfl)
    obtain ⟨-, -, -, -, -, -, -, hinherited⟩ := (IsBuilt.load hload).flatten_exact ["Cadl", "X"] root
    have hempty : ¬ p.graph.HasEntries 2 := by rw [hasEntries_iff, hempty]; decide
    have hexcludes := excludes_iff.2 hexcluded
    exact ⟨p, hload, hflat, ⟨houter, hempty⟩, ⟨hinner, hasEntries_iff.2 hentries⟩, hexcludes,
      hinherited 4 5 hexcludes (.single hinner)⟩
  · have hproper : detached.IsProper (.child 1 (.text "C")) := rfl
    have hcontained := (contained_after_iff contained_detached hproper).2 trivial
    have htext : ∀ i, (detached.namespaces.get i).name.isText = true := by
      rintro (_ | _ | _ | i) <;> rfl
    have hbuilt : IsBuilt (detached.after (.child 1 (.text "C"))) :=
      .calls (.call (.loose loose_detached htext) hproper rfl) hcontained.isTree
    obtain ⟨order, -, hnodup, hinside, -⟩ := hbuilt.flatten_exact [] 1
    exact ⟨order, hnodup, hinside⟩

end

end Graph

end Edm
