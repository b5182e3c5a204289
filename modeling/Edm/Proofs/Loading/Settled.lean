import Edm.Proofs.Description.Outline
import Edm.Proofs.Loading.View

/-!
# What references lead to

`Declarations.Denotes` says which node a type expression stands for.  Resolving an expression makes nodes and
changes none (`Declarations.resolve_spec`); settling a reference changes the one node that waits for it, to what
the reference stands for (`Declarations.settle_spec`).  So after all references are settled, a node that waits
for nothing is as it was declared, and one that waits for a single reference has what it waits for
(`Declarations.cell_of_settleAll`, `Declarations.meets_of_settleAll`).
-/

namespace Edm

/-! ### Larger graphs -/

namespace Graph

/-- A graph with new nodes, or none, that are no namespaces. -/
structure Extends (g g' : Graph) : Prop where
  cell : ∀ n, (g.cell? n).isSome = true → g'.cell? n = g.cell? n
  namespaces : g'.namespaces = g.namespaces

theorem Extends.refl (g : Graph) : g.Extends g := ⟨fun _ _ => rfl, rfl⟩

theorem Extends.trans {g g' g'' : Graph} (h : g.Extends g') (h' : g'.Extends g'') : g.Extends g'' := by
  refine ⟨fun n hn => ?_, h'.namespaces.trans h.namespaces⟩
  rw [h'.cell n (by rwa [h.cell n hn]), h.cell n hn]

theorem extends_newType (g : Graph) (make : Nat → Node) : g.Extends (g.newType make).2 :=
  ⟨fun n _ => cell?_newType g n make, rfl⟩

theorem extends_newUnion (g : Graph) (u : Union) : g.Extends (g.newUnion u).2 := by
  refine ⟨fun n hn => ?_, rfl⟩
  rw [cell?_newUnion, if_neg]
  rintro rfl
  rw [cell?, Table.get?_size] at hn
  cases hn

end Graph

namespace Declarations

/-! ### Known types -/

theorem mem_of_find {name : Text} {n : Node} {nodes : List (Text × Node)} (h : find name nodes = some n) :
    (name, n) ∈ nodes := by
  induction nodes with
  | nil => cases h
  | cons x nodes ih =>
    obtain ⟨s, m⟩ := x
    rw [find] at h
    split at h
    next hs =>
      cases h
      rw [hs]
      exact List.mem_cons_self ..
    next => exact List.mem_cons_of_mem _ (ih h)

theorem mem_of_findFrom {types : List (Text × Node)} {name : Text} {n : Node} {inward : List Text}
    (h : findFrom types name inward = some n) : ∃ site, (site, n) ∈ types := by
  induction inward with
  | nil =>
    rw [findFrom] at h
    exact ⟨name, mem_of_find h⟩
  | cons m outer ih =>
    rw [findFrom] at h
    split at h
    next node hfind =>
      cases h
      exact ⟨_, mem_of_find hfind⟩
    next => exact ih h

/-! ### Meaning of expressions -/

/-- The declared type that a name refers to in the namespace at a path. -/
def known? (d : Declarations) (scope : List Text) (name : Text) : Option Node :=
  (find name d.builtIns).or (findFrom d.types name scope.reverse)

mutual

/-- Which nodes an expression stands for in the namespace at a path.  Types that are written in place have
nodes of their own, which no declaration has. -/
inductive Denotes (d : Declarations) (g : Graph) (scope : List Text) : TypeExpr → Node → Prop
  | intrinsicName {name : Text} (serial : Nat) : intrinsicTypes.contains name = true →
      Denotes d g scope (.named name) (.intrinsic serial (.text name))
  | named {name : Text} {n : Node} : intrinsicTypes.contains name = false → d.known? scope name = some n →
      Denotes d g scope (.named name) n
  | array {element : TypeExpr} {n : Node} (serial : Nat) : Denotes d g scope element n →
      Denotes d g scope (.array element) (.array serial n)
  | union {options : List TypeExpr} {nodes : List Node} {i : UnionId} : ¬ d.Has (.union i) →
      g.cell? (.union i) = some (.union { options := nodes }) → DenoteAll d g scope options nodes →
      Denotes d g scope (.union options) (.union i)
  | parameter {name : Label} (serial : Nat) : Denotes d g scope (.parameter name) (.parameter serial name)
  | intrinsic {name : Label} (serial : Nat) : Denotes d g scope (.intrinsic name) (.intrinsic serial name)
  | literal {kind : LiteralKind} {value : Json} (serial : Nat) :
      Denotes d g scope (.literal kind value) (.literal serial kind value)

/-- Which nodes expressions stand for, one by one. -/
inductive DenoteAll (d : Declarations) (g : Graph) (scope : List Text) : List TypeExpr → List Node → Prop
  | nil : DenoteAll d g scope [] []
  | cons {e : TypeExpr} {es : List TypeExpr} {n : Node} {ns : List Node} : Denotes d g scope e n →
      DenoteAll d g scope es ns → DenoteAll d g scope (e :: es) (n :: ns)

end

section

variable {d : Declarations} {g g' : Graph} {scope : List Text} {site : Text}

mutual

/-- Later nodes do not change what an expression stands for. -/
theorem Denotes.mono (hg : ∀ n, ¬ d.Has n → (g.cell? n).isSome = true → g'.cell? n = g.cell? n)
    {e : TypeExpr} {n : Node} : d.Denotes g scope e n → d.Denotes g' scope e n
  | .intrinsicName k h => .intrinsicName k h
  | .named h hn => .named h hn
  | .array k h => .array k (h.mono hg)
  | .union hi hcell h => .union hi (by rw [hg _ hi (by rw [hcell]; rfl), hcell]) (h.mono hg)
  | .parameter k => .parameter k
  | .intrinsic k => .intrinsic k
  | .literal k => .literal k

theorem DenoteAll.mono (hg : ∀ n, ¬ d.Has n → (g.cell? n).isSome = true → g'.cell? n = g.cell? n)
    {es : List TypeExpr} {ns : List Node} : d.DenoteAll g scope es ns → d.DenoteAll g' scope es ns
  | .nil => .nil
  | .cons h hs => .cons (h.mono hg) (hs.mono hg)

end

/-- A graph that has the declared nodes. -/
def Holds (d : Declarations) (g : Graph) : Prop := ∀ n, d.Has n → (g.cell? n).isSome = true

theorem Holds.extend (h : d.Holds g) (hg : g.Extends g') : d.Holds g' := by
  intro n hn
  rw [hg.cell n (h n hn)]
  exact h n hn

theorem resolveName_spec {name : Text} {n : Node} (h : d.resolveName scope site name g = .ok (n, g')) :
    g.Extends g' ∧ d.Denotes g' scope (.named name) n := by
  unfold resolveName at h
  split at h
  next hintrinsic =>
    cases h
    exact ⟨Graph.extends_newType g fun i => .intrinsic i (.text name), .intrinsicName g.serial hintrinsic⟩
  next hintrinsic =>
    have hnot : intrinsicTypes.contains name = false := by simpa using hintrinsic
    split at h
    next node hfind =>
      cases h
      exact ⟨Graph.Extends.refl g, .named hnot (by rw [known?, hfind, Option.some_or])⟩
    next hfind =>
      split at h
      next node hfrom =>
        cases h
        exact ⟨Graph.Extends.refl g, .named hnot (by rw [known?, hfind, Option.none_or, hfrom])⟩
      next => cases h

mutual

/-- Resolving an expression gives a node that it stands for. -/
theorem resolve_spec {g g' : Graph} {n : Node} (hd : d.Holds g) : (e : TypeExpr) →
    d.resolve scope site e g = .ok (n, g') → g.Extends g' ∧ d.Denotes g' scope e n
  | .named name, h => by
    rw [resolve] at h
    exact resolveName_spec h
  | .array element, h => by
    rw [resolve] at h
    obtain ⟨⟨m, g₁⟩, hm, h⟩ := bind_eq_ok h
    obtain ⟨hextends, hdenotes⟩ := resolve_spec hd element hm
    cases h
    have hnew := Graph.extends_newType g₁ fun i => .array i m
    exact ⟨hextends.trans hnew, .array _ (hdenotes.mono fun k _ hk => hnew.cell k hk)⟩
  | .union options, h => by
    rw [resolve] at h
    obtain ⟨⟨nodes, g₁⟩, hnodes, h⟩ := bind_eq_ok h
    obtain ⟨hextends, hdenotes⟩ := resolveAll_spec hd options hnodes
    cases h
    have hnew := Graph.extends_newUnion g₁ { options := nodes }
    refine ⟨hextends.trans hnew, .union (fun hi => ?_) ?_ (hdenotes.mono fun k _ hk => hnew.cell k hk)⟩
    -- the new union is the next one of the graph, which has the declared nodes already
    · have hsome : (g₁.cell? (.union g₁.unions.size)).isSome = true := hd.extend hextends _ hi
      rw [Graph.cell?, Table.get?_size] at hsome
      cases hsome
    · exact (Graph.cell?_newUnion g₁ _ _).trans (if_pos rfl)
  | .parameter name, h => by
    rw [resolve] at h
    cases h
    exact ⟨Graph.extends_newType g fun i => .parameter i name, .parameter g.serial⟩
  | .intrinsic name, h => by
    rw [resolve] at h
    cases h
    exact ⟨Graph.extends_newType g fun i => .intrinsic i name, .intrinsic g.serial⟩
  | .literal kind value, h => by
    rw [resolve] at h
    cases h
    exact ⟨Graph.extends_newType g fun i => .literal i kind value, .literal g.serial⟩
  | .invalid value, h => by
    rw [resolve] at h
    cases h
  | .optionsNotList, h => by
    rw [resolve] at h
    cases h
  | .unnamed, h => by
    rw [resolve] at h
    cases h

theorem resolveAll_spec {g g' : Graph} {ns : List Node} (hd : d.Holds g) : (es : List TypeExpr) →
    d.resolveAll scope site es g = .ok (ns, g') → g.Extends g' ∧ d.DenoteAll g' scope es ns
  | [], h => by
    rw [resolveAll] at h
    cases h
    exact ⟨Graph.Extends.refl g, .nil⟩
  | e :: es, h => by
    rw [resolveAll] at h
    obtain ⟨⟨m, g₁⟩, hm, h⟩ := bind_eq_ok h
    obtain ⟨⟨ms, g₂⟩, hms, h⟩ := bind_eq_ok h
    obtain ⟨hextends, hdenotes⟩ := resolve_spec hd e hm
    obtain ⟨hextends', hdenotes'⟩ := resolveAll_spec (hd.extend hextends) es hms
    cases h
    exact ⟨hextends.trans hextends', .cons (hdenotes.mono fun k _ hk => hextends'.cell k hk) hdenotes'⟩

end

/-! ### Settled references -/

/-- A record becomes another one when its node gets what it waits for. -/
inductive Meets (d : Declarations) (g : Graph) (r : Reference) : Cell → Cell → Prop
  | base {model : ModelId} {type : TypeExpr} {m : Model} {i : ModelId} : r.pending = .base model type →
      d.Denotes g r.scope type (.model i) → Meets d g r (.model m) (.model { m with base := some (.model i) })
  | property {id : PropertyId} {type : TypeExpr} {q : Property} {n : Node} : r.pending = .property id type →
      d.Denotes g r.scope type n → Meets d g r (.property q) (.property { q with type := n })
  | options {union : UnionId} {types : List TypeExpr} {u : Union} {ns : List Node} :
      r.pending = .options union types → d.DenoteAll g r.scope types ns →
      Meets d g r (.union u) (.union { u with options := ns })
  | result {operation : OperationId} {type : TypeExpr} {o : Operation} {n : Node} :
      r.pending = .result operation type → d.Denotes g r.scope type n →
      Meets d g r (.operation o) (.operation { o with result := some n })

theorem Meets.mono {r : Reference} {c c' : Cell} (h : d.Meets g r c c')
    (hg : ∀ n, ¬ d.Has n → (g.cell? n).isSome = true → g'.cell? n = g.cell? n) : d.Meets g' r c c' := by
  cases h with
  | base hr h => exact .base hr (h.mono hg)
  | property hr h => exact .property hr (h.mono hg)
  | options hr h => exact .options hr (h.mono hg)
  | result hr h => exact .result hr (h.mono hg)

/-- What a node gets changes neither its name nor its owner. -/
theorem Meets.frame {r : Reference} {c c' : Cell} (h : d.Meets g r c c') : c'.name = c.name ∧ c'.owner = c.owner := by
  cases h <;> exact ⟨rfl, rfl⟩

/-- What a node got first is replaced. -/
theorem Meets.trans {r r' : Reference} {c c₁ c' : Cell} (h : d.Meets g r c c₁) (h' : d.Meets g' r' c₁ c') :
    d.Meets g' r' c c' := by
  cases h with
  | base hr hn =>
    cases h' with
    | base hr' hn' => exact .base hr' hn'
  | property hr hn =>
    cases h' with
    | property hr' hn' => exact .property hr' hn'
  | options hr hn =>
    cases h' with
    | options hr' hn' => exact .options hr' hn'
  | result hr hn =>
    cases h' with
    | result hr' hn' => exact .result hr' hn'

/-- What settling a reference does to a graph. -/
structure Settles (d : Declarations) (r : Reference) (g g' : Graph) : Prop where
  other : ∀ n, (g.cell? n).isSome = true → n ≠ r.pending.target → g'.cell? n = g.cell? n
  target : ∃ c c', g.cell? r.pending.target = some c ∧ g'.cell? r.pending.target = some c' ∧ d.Meets g' r c c'
  namespaces : g'.namespaces = g.namespaces

/-- Changing the record of the node that waits, once what it waits for is known. -/
theorem Settles.change {r : Reference} {g₁ : Graph} {c c' : Cell} (hextends : g.Extends g₁)
    (hhas : d.Has r.pending.target) (hc : g.cell? r.pending.target = some c) (hmeets : d.Meets g₁ r c c')
    (hother : ∀ n, n ≠ r.pending.target → g'.cell? n = g₁.cell? n)
    (htarget : g'.cell? r.pending.target = some c') (hnamespaces : g'.namespaces = g₁.namespaces) :
    d.Settles r g g' := by
  -- the node that waits is a declared one, and the nodes of expressions are not
  refine ⟨fun n hn hne => ?_, ⟨c, c', hc, htarget, hmeets.mono fun n hn _ => ?_⟩,
    hnamespaces.trans hextends.namespaces⟩
  · rw [hother n hne, hextends.cell n hn]
  · refine hother n ?_
    rintro rfl
    exact hn hhas

/-- Settling a reference changes the node that waits for it and no other one that is there. -/
theorem settle_spec {r : Reference} (hd : d.Holds g) (hhas : d.Has r.pending.target)
    (h : d.settle g r = .ok g') : d.Settles r g g' := by
  have htarget := hd _ hhas
  obtain ⟨pending, scope, site⟩ := r
  unfold settle at h
  cases pending with
  | base i type =>
    obtain ⟨⟨n, g₁⟩, hn, h⟩ := bind_eq_ok h
    obtain ⟨hextends, hdenotes⟩ := resolve_spec hd type hn
    obtain ⟨m, hm⟩ := Graph.exists_model htarget
    have hm₁ : g₁.cell? (.model i) = some (.model m) := (hextends.cell _ htarget).trans hm
    dsimp only at h
    split at h
    next j =>
      cases h
      exact .change hextends hhas hm (.base rfl hdenotes) (fun n hn => Graph.cell?_modifyModel_ne hn _)
        (Graph.cell?_modifyModel_self hm₁ _) rfl
    next => cases h
  | property i type =>
    obtain ⟨⟨n, g₁⟩, hn, h⟩ := bind_eq_ok h
    obtain ⟨hextends, hdenotes⟩ := resolve_spec hd type hn
    obtain ⟨q, hq⟩ := Graph.exists_property htarget
    have hq₁ : g₁.cell? (.property i) = some (.property q) := (hextends.cell _ htarget).trans hq
    cases h
    exact .change hextends hhas hq (.property rfl hdenotes) (fun n hn => Graph.cell?_modifyProperty_ne hn _)
      (Graph.cell?_modifyProperty_self hq₁ _) rfl
  | options i types =>
    obtain ⟨⟨ns, g₁⟩, hns, h⟩ := bind_eq_ok h
    obtain ⟨hextends, hdenotes⟩ := resolveAll_spec hd types hns
    obtain ⟨u, hu⟩ := Graph.exists_union htarget
    have hu₁ : g₁.cell? (.union i) = some (.union u) := (hextends.cell _ htarget).trans hu
    cases h
    exact .change hextends hhas hu (.options rfl hdenotes) (fun n hn => Graph.cell?_modifyUnion_ne hn _)
      (Graph.cell?_modifyUnion_self hu₁ _) rfl
  | result i type =>
    obtain ⟨⟨n, g₁⟩, hn, h⟩ := bind_eq_ok h
    obtain ⟨hextends, hdenotes⟩ := resolve_spec hd type hn
    obtain ⟨o, ho⟩ := Graph.exists_operation htarget
    have ho₁ : g₁.cell? (.operation i) = some (.operation o) := (hextends.cell _ htarget).trans ho
    cases h
    exact .change hextends hhas ho (.result rfl hdenotes) (fun n hn => Graph.cell?_modifyOperation_ne hn _)
      (Graph.cell?_modifyOperation_self ho₁ _) rfl

theorem Settles.holds {r : Reference} (h : d.Settles r g g') (hd : d.Holds g) : d.Holds g' := by
  intro n hn
  by_cases ht : n = r.pending.target
  · obtain ⟨c, c', -, hc', -⟩ := h.target
    rw [ht, hc']
    rfl
  · rw [h.other n (hd n hn) ht]
    exact hd n hn

/-! ### All references -/

theorem settleEach_namespaces {rs : List Reference} (hd : d.Holds g) (hrs : ∀ r ∈ rs, d.Has r.pending.target)
    (h : rs.foldlM d.settle g = .ok g') : g'.namespaces = g.namespaces := by
  induction rs generalizing g with
  | nil =>
    cases h
    rfl
  | cons r rs ih =>
    rw [List.foldlM_cons] at h
    obtain ⟨g₁, hr, h⟩ := bind_eq_ok h
    have hsettles := settle_spec hd (hrs r (List.mem_cons_self ..)) hr
    exact (ih (hsettles.holds hd) (fun r hr => hrs r (List.mem_cons_of_mem _ hr)) h).trans hsettles.namespaces

/-- Settling references one after the other: a node that is there stays as it is, unless it waits for some of
them; then it has what one of these stands for. -/
theorem settleEach_cell {rs : List Reference} (hd : d.Holds g) (hrs : ∀ r ∈ rs, d.Has r.pending.target)
    (h : rs.foldlM d.settle g = .ok g') {n : Node} {c : Cell} (hc : g.cell? n = some c) :
    ∃ c', g'.cell? n = some c' ∧ ((c' = c ∧ ∀ r ∈ rs, r.pending.target ≠ n)
      ∨ ∃ r ∈ rs, r.pending.target = n ∧ d.Meets g' r c c') := by
  induction rs generalizing g n c with
  | nil =>
    cases h
    exact ⟨c, hc, .inl ⟨rfl, fun r hr => (List.not_mem_nil hr).elim⟩⟩
  | cons x rs ih =>
    rw [List.foldlM_cons] at h
    obtain ⟨g₁, hx, h⟩ := bind_eq_ok h
    have hsettles := settle_spec hd (hrs x (List.mem_cons_self ..)) hx
    have hrs' : ∀ r ∈ rs, d.Has r.pending.target := fun r hr => hrs r (List.mem_cons_of_mem _ hr)
    by_cases hn : x.pending.target = n
    · obtain ⟨c₀, c₁, hc₀, hc₁, hmeets⟩ := hsettles.target
      rw [hn] at hc₀ hc₁
      cases hc.symm.trans hc₀
      obtain ⟨c', hc', ⟨rfl, -⟩ | ⟨r, hr, htarget, hlater⟩⟩ := ih (hsettles.holds hd) hrs' h hc₁
      · refine ⟨_, hc', .inr ⟨x, List.mem_cons_self .., hn, hmeets.mono fun m hm hsome => ?_⟩⟩
        -- no reference is for a node that is not declared
        obtain ⟨e, he⟩ := Option.isSome_iff_exists.1 hsome
        obtain ⟨e', he', ⟨rfl, -⟩ | ⟨r, hr, rfl, -⟩⟩ := ih (hsettles.holds hd) hrs' h he
        · rw [he', he]
        · exact absurd (hrs' r hr) hm
      · exact ⟨c', hc', .inr ⟨r, List.mem_cons_of_mem _ hr, htarget, hmeets.trans hlater⟩⟩
    · have hfirst := hsettles.other n (by rw [hc]; rfl) (Ne.symm hn)
      obtain ⟨c', hc', ⟨heq, hnone⟩ | ⟨r, hr, htarget, hmeets⟩⟩ := ih (hsettles.holds hd) hrs' h (hfirst.trans hc)
      · exact ⟨c', hc', .inl ⟨heq, List.forall_mem_cons.2 ⟨hn, hnone⟩⟩⟩
      · exact ⟨c', hc', .inr ⟨r, List.mem_cons_of_mem _ hr, htarget, hmeets⟩⟩

theorem holds_graph (d : Declarations) : d.Holds d.graph := fun _ hn => hn

theorem namespaces_of_settleAll (hd : d.Tidy) (h : d.settleAll = .ok g) : g.namespaces = d.graph.namespaces :=
  settleEach_namespaces (holds_graph d) hd.references h

/-- A node that waits for nothing is as it was declared. -/
theorem cell_of_settleAll (hd : d.Tidy) (h : d.settleAll = .ok g) {n : Node} {v : View} {c : Cell}
    (hview : d.view n = v) (hc : v.cell = some c) (hwaiting : v.waiting = []) : g.cell? n = some c := by
  subst hview
  obtain ⟨c', hc', ⟨rfl, -⟩ | ⟨r, hr, htarget, -⟩⟩ := settleEach_cell (holds_graph d) hd.references h hc
  · exact hc'
  · exact absurd (by simpa using htarget) (List.filter_eq_nil_iff.1 hwaiting r hr)

/-- A node that waits for a single reference has what this one stands for. -/
theorem meets_of_settleAll (hd : d.Tidy) (h : d.settleAll = .ok g) {n : Node} {v : View} {r : Reference}
    {c : Cell} (hview : d.view n = v) (hc : v.cell = some c) (hwaiting : v.waiting = [r]) :
    ∃ c', g.cell? n = some c' ∧ d.Meets g r c c' := by
  subst hview
  have hmem : ∀ x, x ∈ d.references ∧ x.pending.target = n ↔ x = r := by
    intro x
    rw [← List.mem_singleton (a := x), ← hwaiting, view, List.mem_filter, decide_eq_true_iff]
  obtain ⟨c', hc', ⟨-, hnone⟩ | ⟨x, hx, htarget, hmeets⟩⟩ := settleEach_cell (holds_graph d) hd.references h hc
  · have hr := (hmem r).2 rfl
    exact absurd hr.2 (hnone r hr.1)
  · rw [← (hmem x).1 ⟨hx, htarget⟩]
    exact ⟨c', hc', hmeets⟩

end

end Declarations

end Edm
