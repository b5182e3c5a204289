import Edm.Proofs.Document.Consulted
import Edm.Proofs.Document.Decorated
import Edm.Proofs.Document.Rendered

/-!
# Decorators in another order

All decorators but `id` bind the same value whenever they are accepted, and acceptance does not depend on what was
declared before.  So two sequences with the same decorators, in any order that leaves the `id` decorators of each
property as they follow each other, bind the same, reject the same, and lead to the same document
(`Program.applyAll_interleaved`), although the store lists its bindings in another order.
-/

namespace Edm

/-! ### Keys and marks -/

/-- Whether a decorator is an `id` at a property. -/
def Application.isKeyOf (i : PropertyId) (a : Application) : Bool :=
  Program.bareName a.name = Decorator.id.word && a.target = .property i

/-- What a decorator binds to a node for a kind, if it is accepted there. -/
def Application.valueFor? (g : Graph) (k : AnnotationKind) (n : Node) (a : Application) : Option Json :=
  if a.target = n then g.valueFor? k a.name a.target a.arguments else none

theorem Application.valueFor?_eq_some {g : Graph} {k : AnnotationKind} {n : Node} {a : Application} {v : Json} :
    a.valueFor? g k n = some v ↔ a.target = n ∧ g.valueFor? k a.name a.target a.arguments = some v := by
  rw [valueFor?]
  split
  next h => simp [h]
  next h => simp [h]

/-- What is bound for a kind is what the decorator of this kind binds. -/
theorem Graph.exists_of_valueFor? {g : Graph} {k : AnnotationKind} {name : Text} {n : Node} {arguments : List Json}
    {v : Json} (h : g.valueFor? k name n arguments = some v) :
    ∃ d : Decorator, d.kind.id = k.id ∧ Program.bareName name = d.word ∧ d.value? g n arguments = some v := by
  obtain ⟨b, hb, h⟩ := Option.bind_eq_some_iff.1 h
  obtain ⟨d, hd, hvalue⟩ := Option.bind_eq_some_iff.1 hb
  obtain ⟨w, hw, rfl⟩ := Option.map_eq_some_iff.1 hvalue
  split at h
  next hkind =>
    cases h
    exact ⟨d, hkind, Decorator.word_of_ofName? hd, hw⟩
  next => cases h

namespace Decorator

variable {g : Graph} {d : Decorator} {n : Node} {arguments : List Json} {v : Json}

/-- Only properties have keys. -/
theorem exists_property (h : id.value? g n arguments = some v) : ∃ i, n = .property i := by
  cases n with
  | property i => exact ⟨i, rfl⟩
  | _ => cases h

/-- All decorators but `id` are marks. -/
theorem value?_eq_true (hd : d ≠ id) (h : d.value? g n arguments = some v) : v = .boolean true := by
  cases d with
  | id => exact absurd rfl hd
  | openModel | contains | references => cases n <;> cases arguments <;> cases h; rfl

end Decorator

namespace Program

variable {p : Program} {as bs : List Application}

/-! ### What is bound -/

theorem exists_isKeyOf (g : Graph) {k : AnnotationKind} (hk : k.id = AnnotationKind.key.id) (n : Node) :
    ∃ i, ∀ a : Application, (a.valueFor? g k n).isSome = true → a.isKeyOf i = true := by
  have hbound : ∀ a : Application, (a.valueFor? g k n).isSome = true →
      bareName a.name = Decorator.id.word ∧ a.target = n ∧ ∃ i, n = .property i := by
    intro a ha
    obtain ⟨v, hv⟩ := Option.isSome_iff_exists.1 ha
    obtain ⟨htarget, hbinds⟩ := Application.valueFor?_eq_some.1 hv
    obtain ⟨d, hkind, hname, hvalue⟩ := Graph.exists_of_valueFor? hbinds
    obtain rfl : d = .id := Decorator.kind_inj (hkind.trans hk)
    rw [htarget] at hvalue
    exact ⟨hname, htarget, Decorator.exists_property hvalue⟩
  by_cases hn : ∃ i, n = .property i
  · obtain ⟨i, rfl⟩ := hn
    refine ⟨i, fun a ha => ?_⟩
    obtain ⟨hname, htarget, -⟩ := hbound a ha
    simp [Application.isKeyOf, hname, htarget]
  · exact ⟨0, fun a ha => (hn (hbound a ha).2.2).elim⟩

/-- What is bound for any other kind is the same each time. -/
theorem eq_true_of_valueFor? {g : Graph} {k : AnnotationKind} (hk : k.id ≠ AnnotationKind.key.id) {n : Node}
    {a : Application} {v : Json} (hv : a.valueFor? g k n = some v) : v = .boolean true := by
  obtain ⟨-, hv⟩ := Application.valueFor?_eq_some.1 hv
  obtain ⟨d, hkind, -, hvalue⟩ := Graph.exists_of_valueFor? hv
  refine Decorator.value?_eq_true (fun hd => hk ?_) hvalue
  rw [← hkind, hd]
  rfl

/-- Keys are bound to a node by the `id` decorators of one property, whose order is kept; of other kinds only the
number of bindings counts. -/
theorem filterMap_valueFor? (g : Graph) (hperm : as.Perm bs)
    (hkeys : ∀ i, as.filter (Application.isKeyOf i) = bs.filter (Application.isKeyOf i))
    (k : AnnotationKind) (n : Node) :
    as.filterMap (Application.valueFor? g k n) = bs.filterMap (Application.valueFor? g k n) := by
  by_cases hk : k.id = AnnotationKind.key.id
  · obtain ⟨i, hi⟩ := exists_isKeyOf g hk n
    have hfilter : ∀ cs : List Application, cs.filterMap (Application.valueFor? g k n)
        = (cs.filter (Application.isKeyOf i)).filterMap (Application.valueFor? g k n) := by
      intro cs
      rw [List.filterMap_filter]
      refine List.filterMap_congr fun a _ => ?_
      split
      next => rfl
      next hnot => exact Option.not_isSome_iff_eq_none.1 fun ha => hnot (hi a ha)
    rw [hfilter as, hfilter bs, hkeys i]
  · have htrue : ∀ cs : List Application, ∀ v ∈ cs.filterMap (Application.valueFor? g k n), v = .boolean true := by
      intro cs v hv
      obtain ⟨a, -, ha⟩ := List.mem_filterMap.1 hv
      exact eq_true_of_valueFor? hk ha
    have hlength := (hperm.filterMap (Application.valueFor? g k n)).length_eq
    rw [List.eq_replicate_iff.2 ⟨hlength, htrue as⟩, List.eq_replicate_iff.2 ⟨rfl, htrue bs⟩, List.length_replicate]

theorem agreesAt_applyAll (hperm : as.Perm bs)
    (hkeys : ∀ i, as.filter (Application.isKeyOf i) = bs.filter (Application.isKeyOf i)) (n : Node) :
    (p.applyAll as).2.store.AgreesAt (p.applyAll bs).2.store n := by
  intro k
  rw [get?_applyAll, get?_applyAll]
  exact congrArg (fun l : List Json => l.getLast?.or (p.store.get? k n)) (filterMap_valueFor? p.graph hperm hkeys k n)

/-! ### Documents -/

theorem accepted_applyAll (h : p.store.Accepted) (as : List Application) : (p.applyAll as).2.store.Accepted := by
  induction as generalizing p with
  | nil => exact h
  | cons a as ih => exact ih (accepted_decorate h a.name a.arguments)

/-- Decorators leave a program fit for a document. -/
theorem IsFit.applyAll (h : p.IsFit) (as : List Application) : (p.applyAll as).2.IsFit := by
  have hgraph := p.graph_applyAll as
  exact {
    texts := hgraph ▸ h.texts
    bases := hgraph ▸ h.bases
    results := hgraph ▸ h.results
    bindings := accepted_applyAll h.bindings as }

/-- Two sequences with the same decorators, in which the `id` decorators of each property follow each other in the same
order, have the same effect: they bind the same, the same decorators are rejected, and the document is the same.  It is
there if the program is fit for one. -/
theorem applyAll_interleaved (p : Program) {as bs : List Application} (hperm : as.Perm bs)
    (hkeys : ∀ i, as.filter (Application.isKeyOf i) = bs.filter (Application.isKeyOf i)) :
    (∀ k n, (p.applyAll as).2.store.has k n = (p.applyAll bs).2.store.has k n
        ∧ (p.applyAll as).2.store.get? k n = (p.applyAll bs).2.store.get? k n)
      ∧ (as.zip (p.applyAll as).1).Perm (bs.zip (p.applyAll bs).1)
      ∧ (p.applyAll as).2.routes = (p.applyAll bs).2.routes
      ∧ ∀ options routes,
          ((p.applyAll as).2.render options routes).map RenderResult.text
              = ((p.applyAll bs).2.render options routes).map RenderResult.text
            ∧ (p.IsFit → AreRoutes routes →
                ∃ text, ((p.applyAll as).2.render options routes).map RenderResult.text = .ok text) := by
  have hagree := agreesAt_applyAll (p := p) hperm hkeys
  have hgraph : (p.applyAll as).2.graph = (p.applyAll bs).2.graph := by
    rw [graph_applyAll, graph_applyAll]
  refine ⟨fun k n => ⟨(hagree n).has_eq k, hagree n k⟩, ?_, routes_congr fun i => hagree _, fun options routes =>
    ⟨render_congr hgraph hagree options routes, fun hfit hroutes => ?_⟩⟩
  · rw [fst_applyAll, fst_applyAll, ← List.map_prod_left_eq_zip, ← List.map_prod_left_eq_zip]
    exact hperm.map _
  · obtain ⟨text, -, hrender⟩ := (hfit.applyAll as).render_eq hroutes options
    exact ⟨text, by rw [hrender]; rfl⟩

/-- A program with a model that has a value and a way to other models. -/
def shelf : Program :=
  let (space, g) := ({} : Graph).openNamespace Graph.root (.text "A")
  let (m, g) := g.newModel { name := .text "M" }
  let g := g.list space (.model m)
  let (_, g) := g.addProperty m (.text "code") (.intrinsic 1 (.text "unknown")) false
  let (_, g) := g.addProperty m (.text "next") (.model m) true
  { graph := g }

/-- A key is declared twice; the second time it is renamed. -/
def keyStream : List Application :=
  [⟨.text "A.M.code", "@id", .property 0, []⟩, ⟨.text "A.M.code", "id", .property 0, [.string "shelfmark"]⟩]

/-- Two marks are declared, and one that is refused. -/
def markStream : List Application :=
  [⟨.text "A.M.next", "contains", .property 1, []⟩, ⟨.text "A.M", "contains", .model 0, []⟩,
    ⟨.text "A.M", "openModel", .model 0, []⟩]

theorem applyAll_interleaved_streams :
    (keyStream ++ markStream).Perm (markStream ++ keyStream)
      ∧ (∀ i, (keyStream ++ markStream).filter (Application.isKeyOf i)
          = (markStream ++ keyStream).filter (Application.isKeyOf i))
      ∧ (shelf.applyAll (keyStream ++ markStream)).2.store.get? .key (.property 0)
          = (shelf.applyAll (markStream ++ keyStream)).2.store.get? .key (.property 0)
      ∧ ∃ text, ((shelf.applyAll (keyStream ++ markStream)).2.render {} none).map RenderResult.text = .ok text
          ∧ ((shelf.applyAll (markStream ++ keyStream)).2.render {} none).map RenderResult.text = .ok text := by
  have hperm : (keyStream ++ markStream).Perm (markStream ++ keyStream) := List.perm_append_comm
  have hkeys : ∀ i, (keyStream ++ markStream).filter (Application.isKeyOf i)
      = (markStream ++ keyStream).filter (Application.isKeyOf i) := by
    intro i
    have hmarks : markStream.filter (Application.isKeyOf i) = [] := rfl
    rw [List.filter_append, List.filter_append, hmarks, List.append_nil, List.nil_append]
  have hfit : shelf.IsFit := {
    texts := Graph.hasTextNames_of_closed (l := [.nameSpace 0, .nameSpace 1, .model 0, .property 0, .property 1,
      .intrinsic 1 (.text "unknown")]) (by decide) (by decide +kernel)
    bases := by decide +kernel
    results := by decide +kernel
    bindings := AnnotationStore.accepted_empty }
  obtain ⟨hbound, -, -, hrender⟩ := applyAll_interleaved shelf hperm hkeys
  obtain ⟨hsame, htext⟩ := hrender {} none
  obtain ⟨text, htext⟩ := htext hfit fun r hr => by cases hr
  exact ⟨hperm, hkeys, (hbound ..).2, text, htext, hsame.symm.trans htext⟩

end Program

end Edm
