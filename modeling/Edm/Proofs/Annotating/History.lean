import Edm.Proofs.Loading.Bindings
import Mathlib.Data.List.Induction
import Mathlib.Data.List.Nodup

/-!
# The history of a store

A store is filled by a sequence of calls, each of which is accepted or rejected.  What it shows afterwards can be
told from the accepted calls alone (`AnnotationStore.Records`): its kinds in the order of their first use, for each
kind its nodes in the order in which they were first bound, and for each kind and node the last value
(`AnnotationStore.records_afterAll`).  From this the observers follow (`AnnotationStore.isOutcomeOf_afterAll`), and
the order in which the annotated nodes are listed, which is that of their first bindings kind by kind and not that
of all first bindings (`AnnotationStore.annotatedNodes_afterAll`).
-/

namespace Edm

/-! ### First places -/

section

variable {α β : Type} [DecidableEq β] (f : α → β)

/-- The entries of a list at which `f` takes a value for the first time. -/
def firsts : List α → List α
  | [] => []
  | a :: as => a :: (firsts as).filter fun x => f x ≠ f a

variable {f}

theorem mem_of_mem_firsts {as : List α} {x : α} (h : x ∈ firsts f as) : x ∈ as := by
  induction as with
  | nil => cases h
  | cons a as ih =>
    rcases List.mem_cons.1 h with rfl | h
    · exact List.mem_cons_self ..
    · exact List.mem_cons_of_mem _ (ih (List.mem_filter.1 h).1)

theorem mem_map_firsts {as : List α} {b : β} : b ∈ (firsts f as).map f ↔ b ∈ as.map f := by
  induction as with
  | nil => rfl
  | cons a as ih =>
    have hrest : b ∈ ((firsts f as).filter fun x => f x ≠ f a).map f ↔ b ≠ f a ∧ b ∈ as.map f := by
      rw [← ih]
      simp only [List.mem_map, List.mem_filter, decide_eq_true_eq]
      constructor
      · rintro ⟨x, ⟨hx, hne⟩, rfl⟩
        exact ⟨hne, x, hx, rfl⟩
      · rintro ⟨hne, x, hx, rfl⟩
        exact ⟨x, ⟨hx, hne⟩, rfl⟩
    rw [firsts, List.map_cons, List.mem_cons, hrest, List.map_cons, List.mem_cons]
    by_cases hb : b = f a <;> simp [hb]

theorem nodup_map_firsts (as : List α) : ((firsts f as).map f).Nodup := by
  induction as with
  | nil => exact List.nodup_nil
  | cons a as ih =>
    rw [firsts, List.map_cons, List.nodup_cons]
    refine ⟨fun hmem => ?_, ih.sublist (List.filter_sublist.map f)⟩
    obtain ⟨x, hx, heq⟩ := List.mem_map.1 hmem
    simp [heq] at hx

/-- One more entry counts if its value is new. -/
theorem firsts_concat (as : List α) (a : α) :
    firsts f (as ++ [a]) = if f a ∈ as.map f then firsts f as else firsts f as ++ [a] := by
  induction as with
  | nil => rfl
  | cons x as ih =>
    rw [List.cons_append, firsts, ih, List.map_cons]
    by_cases hmem : f a ∈ as.map f
    · rw [if_pos hmem, if_pos (List.mem_cons_of_mem _ hmem)]
      rfl
    · rw [if_neg hmem, List.filter_append]
      by_cases hx : f a = f x
      · rw [if_pos (by simp [hx])]
        simp [firsts, hx]
      · rw [if_neg (by simpa [hx] using hmem)]
        simp [firsts, hx]

theorem firsts_of_same {a : α} {as : List α} {b : β} (h : ∀ x ∈ a :: as, f x = b) :
    firsts f (a :: as) = [a] := by
  rw [firsts, List.filter_eq_nil_iff.2]
  intro x hx
  simp [h x (List.mem_cons_of_mem _ (mem_of_mem_firsts hx)), h a (List.mem_cons_self ..)]

end

namespace AnnotationStore

theorem distinct_eq_firsts (ns : List Node) : distinct ns = firsts (fun n => n) ns := by
  induction ns with
  | nil => rfl
  | cons n ns ih =>
    rw [distinct, firsts, ih]
    refine congrArg (n :: ·) (List.filter_congr fun x _ => ?_)
    by_cases h : x = n <;> simp [h]

theorem mem_distinct {ns : List Node} {n : Node} : n ∈ distinct ns ↔ n ∈ ns := by
  have h : n ∈ (firsts (fun n : Node => n) ns).map (fun n => n) ↔ n ∈ ns.map fun n => n := mem_map_firsts
  rwa [List.map_id', List.map_id', ← distinct_eq_firsts] at h

theorem nodup_distinct (ns : List Node) : (distinct ns).Nodup := by
  have h := nodup_map_firsts (f := fun n : Node => n) ns
  rwa [List.map_id', ← distinct_eq_firsts] at h

theorem distinct_concat (ns : List Node) (n : Node) :
    distinct (ns ++ [n]) = if n ∈ distinct ns then distinct ns else distinct ns ++ [n] := by
  have h := firsts_concat (f := fun n : Node => n) ns n
  rw [List.map_id', ← distinct_eq_firsts, ← distinct_eq_firsts] at h
  simpa only [mem_distinct] using h

theorem distinct_of_nodup {ns : List Node} (h : ns.Nodup) : distinct ns = ns := by
  induction ns with
  | nil => rfl
  | cons n ns ih =>
    rw [List.nodup_cons] at h
    have hkeep : ∀ m ∈ ns, (m != n) = true := fun m hm => bne_iff_ne.2 (ne_of_mem_of_not_mem hm h.1)
    rw [distinct, ih h.2, List.filter_eq_self.2 hkeep]

theorem distinct_append (ms ns : List Node) :
    distinct (ms ++ ns) = distinct ms ++ (distinct ns).filter fun n => n ∉ ms := by
  induction ms with
  | nil => simp [distinct]
  | cons m ms ih =>
    rw [List.cons_append, distinct, ih, List.filter_append, List.filter_filter, distinct, List.cons_append]
    refine congrArg (fun rest => m :: ((distinct ms).filter (· != m) ++ rest)) (List.filter_congr fun n _ => ?_)
    by_cases h : n = m <;> simp [h]

/-- Repetitions can be left out part by part. -/
theorem distinct_flatMap {α : Type} (f : α → List Node) (l : List α) :
    distinct (l.flatMap fun a => distinct (f a)) = distinct (l.flatMap f) := by
  induction l with
  | nil => rfl
  | cons a l ih =>
    rw [List.flatMap_cons, List.flatMap_cons, distinct_append, distinct_append, ih,
      distinct_of_nodup (nodup_distinct (f a))]
    simp only [mem_distinct]

/-! ### Calls -/

/-- A binding that is asked for, or that a store holds. -/
structure Binding where
  kind : AnnotationKind
  node : Node
  value : Json

namespace Binding

/-- Whether the kind accepts the node and the value. -/
def isAccepted (b : Binding) : Bool := b.kind.acceptsTarget b.node && b.kind.accepts b.value

/-- Whether a binding is one of a kind and a node.  Kinds are told apart by their number, whatever their names. -/
def isFor (b : Binding) (k : AnnotationKind) (n : Node) : Bool := b.kind.id = k.id ∧ b.node = n

/-- The number of the kind and the node that a binding is for. -/
def place (b : Binding) : Nat × Node := (b.kind.id, b.node)

end Binding

/-- A store after a call; one that is rejected leaves it as it is. -/
def after (s : AnnotationStore) (b : Binding) : AnnotationStore :=
  match s.set b.kind b.node b.value with
  | .ok s' => s'
  | .error _ => s

/-- A store after some calls. -/
def afterAll (s : AnnotationStore) (bs : List Binding) : AnnotationStore := bs.foldl after s

section

variable {s : AnnotationStore} {b : Binding} {k : AnnotationKind} {n : Node} {v : Json}

theorem set_of_accepted (h : b.isAccepted = true) :
    s.set b.kind b.node b.value = .ok (s.put b.kind b.node b.value) := by
  rw [Binding.isAccepted, Bool.and_eq_true] at h
  simp [set, h.1, h.2]

theorem set_of_rejected (h : b.isAccepted = false) : ∃ e, s.set b.kind b.node b.value = .error e := by
  rw [Binding.isAccepted, Bool.and_eq_false_iff] at h
  unfold set
  cases htarget : b.kind.acceptsTarget b.node with
  | false => exact ⟨_, rfl⟩
  | true =>
    have hvalue : b.kind.accepts b.value = false := h.resolve_left (by simp [htarget])
    exact ⟨.value b.kind b.value, by simp [hvalue]⟩

theorem after_eq (s : AnnotationStore) (b : Binding) :
    s.after b = if b.isAccepted then s.put b.kind b.node b.value else s := by
  rw [after]
  cases h : b.isAccepted with
  | true => rw [set_of_accepted h]; rfl
  | false =>
    obtain ⟨e, he⟩ := set_of_rejected (s := s) h
    rw [he]
    rfl

/-! ### What a store has recorded -/

/-- The kinds in use, in order. -/
def kinds (s : AnnotationStore) : List AnnotationKind := s.maps.map Prod.fst

/-- All bindings, kind by kind. -/
def bindings (s : AnnotationStore) : List Binding := s.maps.flatMap fun m => m.2.map fun x => ⟨m.1, x.1, x.2⟩

/-- The bindings that are listed node by node. -/
def listed (s : AnnotationStore) : List Binding :=
  s.annotatedNodes.flatMap fun n => (s.annotationsFor n).map fun x => ⟨x.1, n, x.2⟩

/-- What a store holds after some calls that were all accepted. -/
structure Records (s : AnnotationStore) (bs : List Binding) : Prop where
  kinds : s.kinds = firsts AnnotationKind.id (bs.map Binding.kind)
  nodes : ∀ k, (s.bindingsOf k).map Prod.fst
    = distinct ((bs.filter fun b => b.kind.id = k.id).map Binding.node)
  values : ∀ k n, s.get? k n = ((bs.filter fun b => b.isFor k n).map Binding.value).getLast?

theorem map_fst_bindNode (n : Node) (v : Json) (l : List (Node × Json)) :
    (bindNode n v l).map Prod.fst = if n ∈ l.map Prod.fst then l.map Prod.fst else l.map Prod.fst ++ [n] := by
  induction l with
  | nil => rfl
  | cons x l ih =>
    obtain ⟨m, w⟩ := x
    rw [bindNode]
    by_cases hm : m = n
    · rw [if_pos hm, if_pos (by simp [hm])]
      rfl
    · rw [if_neg hm, List.map_cons, List.map_cons, ih]
      by_cases hmem : n ∈ l.map Prod.fst
      · rw [if_pos hmem, if_pos (List.mem_cons_of_mem _ hmem)]
      · rw [if_neg hmem, if_neg (by simpa [Ne.symm hm] using hmem)]
        rfl

theorem map_fst_bindKind (k : AnnotationKind) (n : Node) (v : Json)
    (maps : List (AnnotationKind × List (Node × Json))) :
    (bindKind k n v maps).map Prod.fst = if k.id ∈ (maps.map Prod.fst).map AnnotationKind.id then maps.map Prod.fst
      else maps.map Prod.fst ++ [k] := by
  induction maps with
  | nil => rfl
  | cons m maps ih =>
    obtain ⟨x, l⟩ := m
    rw [bindKind, beq_kind]
    by_cases hx : x.id = k.id
    · rw [if_pos (by simpa using hx), if_pos (by simp [hx])]
      rfl
    · rw [if_neg (by simpa using hx), List.map_cons, List.map_cons, List.map_cons, ih]
      by_cases hmem : k.id ∈ (maps.map Prod.fst).map AnnotationKind.id
      · rw [if_pos hmem, if_pos (List.mem_cons_of_mem _ hmem)]
      · rw [if_neg hmem, if_neg (by simpa [Ne.symm hx] using hmem)]
        rfl

theorem records_empty : Records {} [] := ⟨rfl, fun _ => rfl, fun _ _ => rfl⟩

/-- One more binding is recorded at the end of the history. -/
theorem Records.put {bs : List Binding} (h : s.Records bs) (b : Binding) :
    (s.put b.kind b.node b.value).Records (bs ++ [b]) where
  kinds := by
    have hput : (s.put b.kind b.node b.value).kinds
        = if b.kind.id ∈ s.kinds.map AnnotationKind.id then s.kinds else s.kinds ++ [b.kind] :=
      map_fst_bindKind b.kind b.node b.value s.maps
    rw [hput, h.kinds, List.map_append, List.map_singleton, firsts_concat]
    simp only [mem_map_firsts]
  nodes := by
    intro k
    rw [bindingsOf_put, List.filter_append, List.map_append]
    by_cases hk : b.kind.id = k.id
    · have hlast : [b].filter (fun b => b.kind.id = k.id) = [b] := by simp [hk]
      rw [if_pos hk, map_fst_bindNode, h.nodes k, hlast, List.map_singleton, distinct_concat]
    · have hlast : [b].filter (fun b => b.kind.id = k.id) = [] := by simp [hk]
      rw [if_neg hk, h.nodes k, hlast, List.map_nil, List.append_nil]
  values := by
    intro k n
    rw [get?_put, h.values k n, List.filter_append, List.map_append]
    by_cases hb : b.kind.id = k.id ∧ b.node = n
    · simp [Binding.isFor, hb]
    · have hlast : [b].filter (fun b => b.isFor k n) = [] := by simp [Binding.isFor, hb]
      rw [if_neg hb, hlast, List.map_nil, List.append_nil]

/-- A store has recorded what was accepted. -/
theorem records_afterAll (bs : List Binding) :
    (afterAll {} bs).Records (bs.filter Binding.isAccepted) := by
  induction bs using List.reverseRecOn with
  | nil => exact records_empty
  | append_singleton bs b ih =>
    rw [afterAll, List.foldl_concat, List.filter_append]
    change ((afterAll {} bs).after b).Records _
    rw [after_eq]
    cases hb : b.isAccepted with
    | true => simpa [hb] using ih.put b
    | false => simpa [hb] using ih

/-! ### Bindings of kinds and nodes -/

theorem valueOf_eq_some {l : List (Node × Json)} (hl : (l.map Prod.fst).Nodup) :
    valueOf n l = some v ↔ (n, v) ∈ l := by
  induction l with
  | nil => simp [valueOf]
  | cons x l ih =>
    obtain ⟨m, w⟩ := x
    rw [List.map_cons, List.nodup_cons] at hl
    rw [valueOf, List.mem_cons, Prod.mk.injEq]
    by_cases hm : m = n
    · -- the node is not bound again
      have hlater : (n, v) ∉ l := fun h => hl.1 (hm ▸ List.mem_map.2 ⟨(n, v), h, rfl⟩)
      simp [hm, hlater, eq_comm]
    · simp [hm, Ne.symm hm, ih hl.2]

theorem bindingsOf_of_mem {m : AnnotationKind × List (Node × Json)} (hs : (s.kinds.map AnnotationKind.id).Nodup)
    (hm : m ∈ s.maps) : s.bindingsOf m.1 = m.2 := by
  obtain ⟨maps⟩ := s
  simp only [kinds, bindingsOf] at hs hm ⊢
  induction maps with
  | nil => cases hm
  | cons x maps ih =>
    simp only [List.map_cons, List.nodup_cons] at hs
    rcases List.mem_cons.1 hm with rfl | hm
    · simp [beq_kind]
    · have hne : x.1.id ≠ m.1.id := fun h => hs.1 (h ▸ List.mem_map_of_mem (List.mem_map_of_mem hm))
      rw [List.find?_cons_of_neg (by simpa [beq_kind] using hne)]
      exact ih hs.2 hm

theorem length_bindings (s : AnnotationStore) : s.bindings.length = s.size := by
  simp only [bindings, size, List.length_flatMap, List.length_map]

section

variable {bs : List Binding} (h : s.Records bs)

include h

theorem Records.nodup_kinds : (s.kinds.map AnnotationKind.id).Nodup := h.kinds ▸ nodup_map_firsts _

theorem Records.nodup_nodes (k : AnnotationKind) : ((s.bindingsOf k).map Prod.fst).Nodup :=
  h.nodes k ▸ nodup_distinct _

theorem Records.mem_bindingsOf : (n, v) ∈ s.bindingsOf k ↔ s.get? k n = some v :=
  (valueOf_eq_some (h.nodup_nodes k)).symm

/-- The maps of a store are those of its kinds. -/
theorem Records.maps : s.maps = s.kinds.map fun k => (k, s.bindingsOf k) := by
  rw [AnnotationStore.kinds, List.map_map]
  refine (List.map_id _).symm.trans (List.map_congr_left fun m hm => ?_)
  exact Prod.ext rfl (bindingsOf_of_mem h.nodup_kinds hm).symm

theorem Records.bindings : s.bindings = s.kinds.flatMap fun k => (s.bindingsOf k).map fun x => ⟨k, x.1, x.2⟩ := by
  conv_lhs => rw [AnnotationStore.bindings, h.maps, List.flatMap_map]

theorem Records.annotationsFor (n : Node) :
    s.annotationsFor n = s.kinds.filterMap fun k => (s.get? k n).map fun v => (k, v) := by
  conv_lhs => rw [AnnotationStore.annotationsFor, h.maps, List.filterMap_map]
  rfl

theorem Records.annotatedNodes :
    s.annotatedNodes = distinct (s.kinds.flatMap fun k => (s.bindingsOf k).map Prod.fst) := by
  conv_lhs => rw [AnnotationStore.annotatedNodes, h.maps, List.flatMap_map]

theorem Records.mem_bindings : b ∈ s.bindings ↔ b.kind ∈ s.kinds ∧ s.get? b.kind b.node = some b.value := by
  rw [h.bindings, List.mem_flatMap]
  constructor
  · rintro ⟨k, hk, hb⟩
    obtain ⟨x, hx, rfl⟩ := List.mem_map.1 hb
    exact ⟨hk, h.mem_bindingsOf.1 hx⟩
  · rintro ⟨hk, hb⟩
    exact ⟨b.kind, hk, List.mem_map.2 ⟨(b.node, b.value), h.mem_bindingsOf.2 hb, rfl⟩⟩

theorem Records.mem_annotatedNodes : n ∈ s.annotatedNodes ↔ ∃ b ∈ s.bindings, b.node = n := by
  rw [h.annotatedNodes, mem_distinct, h.bindings]
  simp only [List.mem_flatMap, List.mem_map]
  constructor
  · rintro ⟨k, hk, x, hx, rfl⟩
    exact ⟨⟨k, x.1, x.2⟩, ⟨k, hk, x, hx, rfl⟩, rfl⟩
  · rintro ⟨b, ⟨k, hk, x, hx, rfl⟩, rfl⟩
    exact ⟨k, hk, x, hx, rfl⟩

theorem Records.mem_listed : b ∈ s.listed ↔ b ∈ s.bindings := by
  rw [listed, List.mem_flatMap]
  simp only [h.annotationsFor, List.mem_map, List.mem_filterMap, Option.map_eq_some_iff]
  constructor
  · rintro ⟨n, -, x, ⟨k, hk, v, hv, rfl⟩, rfl⟩
    exact h.mem_bindings.2 ⟨hk, hv⟩
  · intro hb
    obtain ⟨hk, hv⟩ := h.mem_bindings.1 hb
    exact ⟨b.node, h.mem_annotatedNodes.2 ⟨b, hb, rfl⟩, (b.kind, b.value), ⟨b.kind, hk, b.value, hv, rfl⟩, rfl⟩

theorem Records.nodup_annotationsFor (n : Node) : ((s.annotationsFor n).map fun x => x.1.id).Nodup := by
  rw [h.annotationsFor]
  refine h.nodup_kinds.sublist ?_
  generalize s.kinds = ks
  induction ks with
  | nil => exact List.Sublist.refl _
  | cons k ks ih =>
    rw [List.filterMap_cons, List.map_cons]
    cases s.get? k n with
    | none => exact ih.cons _
    | some v => exact ih.cons_cons _

theorem Records.nodup_bindings : (s.bindings.map Binding.place).Nodup := by
  rw [h.bindings, List.map_flatMap, List.nodup_flatMap]
  constructor
  · intro k _
    rw [List.map_map]
    exact List.Nodup.of_map Prod.snd (by simpa [Function.comp_def, Binding.place] using h.nodup_nodes k)
  · refine (List.pairwise_map.1 h.nodup_kinds).imp fun {k k'} hne => ?_
    intro p hp hp'
    simp only [List.mem_map] at hp hp'
    obtain ⟨_, ⟨x, -, rfl⟩, rfl⟩ := hp
    obtain ⟨_, ⟨y, -, rfl⟩, heq⟩ := hp'
    exact hne (congrArg Prod.fst heq).symm

theorem Records.nodup_listed : (s.listed.map Binding.place).Nodup := by
  rw [listed, List.map_flatMap, List.nodup_flatMap]
  constructor
  · intro n _
    rw [List.map_map]
    exact List.Nodup.of_map Prod.fst (by simpa [Function.comp_def, Binding.place] using h.nodup_annotationsFor n)
  · refine (nodup_distinct _).imp fun {n n'} hne => ?_
    intro p hp hp'
    simp only [List.mem_map] at hp hp'
    obtain ⟨_, ⟨x, -, rfl⟩, rfl⟩ := hp
    obtain ⟨_, ⟨y, -, rfl⟩, heq⟩ := hp'
    exact hne (congrArg Prod.snd heq).symm

/-- Listing the annotations of all annotated nodes lists every binding once. -/
theorem Records.listed_perm : s.listed.Perm s.bindings :=
  (List.perm_ext_iff_of_nodup h.nodup_listed.of_map h.nodup_bindings.of_map).2 fun _ => h.mem_listed

end

/-! ### What a store shows -/

/-- A store shows the outcome of some calls. -/
structure IsOutcomeOf (s : AnnotationStore) (bs : List Binding) : Prop where
  accepted : ∀ b ∈ s.bindings, b.isAccepted = true
  has : ∀ k n, s.has k n = true ↔ ∃ b ∈ bs, b.isAccepted = true ∧ b.isFor k n = true
  /-- The last accepted value counts, and a default if there is none. -/
  get : ∀ k n default, (s.get? k n).getD default
    = ((bs.filter fun b => b.isAccepted && b.isFor k n).map Binding.value).getLastD default
  /-- One more call succeeds if it is accepted, and affects only what it is for. -/
  next : ∀ b : Binding, match s.set b.kind b.node b.value with
    | .ok s' => b.isAccepted = true ∧ ∀ k n, s'.get? k n = if b.isFor k n then some b.value else s.get? k n
    | .error _ => b.isAccepted = false
  /-- The kinds that are bound on a node are listed in the order of their first use, on whatever node. -/
  annotationsFor : ∀ n, s.annotationsFor n
      = (firsts AnnotationKind.id ((bs.filter Binding.isAccepted).map Binding.kind)).filterMap
          (fun k => (s.get? k n).map fun v => (k, v))
    ∧ ((s.annotationsFor n).map fun x => x.1.id).Nodup
  annotatedNodes : s.annotatedNodes.Nodup ∧ ∀ n, n ∈ s.annotatedNodes ↔ ∃ k, s.has k n = true
  /-- Every binding is listed once with the nodes. -/
  listed : s.listed.Perm s.bindings ∧ (s.listed.map Binding.place).Nodup ∧ s.listed.length = s.size

section

variable {bs : List Binding} (h : s.Records (bs.filter Binding.isAccepted))

include h

theorem Records.get?_eq (k : AnnotationKind) (n : Node) :
    s.get? k n = ((bs.filter fun b => b.isAccepted && b.isFor k n).map Binding.value).getLast? := by
  simp only [h.values, List.filter_filter, Bool.and_comm]

theorem Records.exists_of_get? (hv : s.get? k n = some v) :
    ∃ b ∈ bs, b.isAccepted = true ∧ b.isFor k n = true ∧ b.value = v := by
  rw [h.get?_eq] at hv
  obtain ⟨b, hb, hbv⟩ := List.mem_map.1 (List.mem_of_getLast? hv)
  obtain ⟨hbs, hp⟩ := List.mem_filter.1 hb
  rw [Bool.and_eq_true] at hp
  exact ⟨b, hbs, hp.1, hp.2, hbv⟩

theorem Records.has_iff : s.has k n = true ↔ ∃ b ∈ bs, b.isAccepted = true ∧ b.isFor k n = true := by
  rw [has, Option.isSome_iff_exists]
  constructor
  · rintro ⟨v, hv⟩
    obtain ⟨b, hbs, hb, hfor, -⟩ := h.exists_of_get? hv
    exact ⟨b, hbs, hb, hfor⟩
  · rintro ⟨b, hbs, hb, hfor⟩
    have hmem : b.value ∈ (bs.filter fun b => b.isAccepted && b.isFor k n).map Binding.value :=
      List.mem_map_of_mem (List.mem_filter.2 ⟨hbs, by simp [hb, hfor]⟩)
    exact ⟨_, (h.get?_eq k n).trans (List.getLast?_eq_some_getLast (List.ne_nil_of_mem hmem))⟩

/-- A kind that is in use is found by its number. -/
theorem Records.exists_kind (hk : s.has k n = true) : ∃ k' ∈ s.kinds, k'.id = k.id := by
  obtain ⟨b, hbs, hb, hfor⟩ := h.has_iff.1 hk
  have hmem : k.id ∈ s.kinds.map AnnotationKind.id := by
    rw [h.kinds, mem_map_firsts, List.map_map]
    simp only [Binding.isFor, decide_eq_true_eq] at hfor
    exact List.mem_map.2 ⟨b, List.mem_filter.2 ⟨hbs, hb⟩, hfor.1⟩
  exact List.mem_map.1 hmem

end

theorem get?_eq_of_id_eq {k' : AnnotationKind} (h : k'.id = k.id) : s.get? k' n = s.get? k n := by
  simp only [get?, bindingsOf, beq_kind, h]

/-- What a store shows after some calls.  Kinds are told apart by their numbers, so calls with the same number are
taken to be for the same kind. -/
theorem isOutcomeOf_afterAll {bs : List Binding}
    (hbs : ∀ b ∈ bs, ∀ c ∈ bs, b.kind.id = c.kind.id → b.kind = c.kind) : (afterAll {} bs).IsOutcomeOf bs := by
  have h : (afterAll {} bs).Records (bs.filter Binding.isAccepted) := records_afterAll bs
  generalize afterAll {} bs = s at h
  refine ⟨?_, fun k n => h.has_iff, ?_, ?_, fun n => ⟨?_, h.nodup_annotationsFor n⟩, ⟨nodup_distinct _, ?_⟩,
    h.listed_perm, h.nodup_listed, ?_⟩
  · intro b hb
    obtain ⟨hk, hv⟩ := h.mem_bindings.1 hb
    obtain ⟨c, hc, hacc, hfor, hval⟩ := h.exists_of_get? hv
    simp only [Binding.isFor, decide_eq_true_eq] at hfor
    -- the kind that the store holds is that of some call, and so that of the call that made the binding
    have hkind : c.kind = b.kind := by
      rw [h.kinds] at hk
      obtain ⟨d, hd, heq⟩ := List.mem_map.1 (mem_of_mem_firsts hk)
      rw [← heq] at hfor ⊢
      exact hbs c hc d (List.mem_filter.1 hd).1 hfor.1
    rwa [Binding.isAccepted, ← hkind, ← hfor.2, ← hval]
  · intro k n default
    rw [h.get?_eq, List.getLastD_eq_getLast?]
  · intro b
    cases hb : b.isAccepted with
    | true =>
      rw [set_of_accepted hb]
      refine ⟨rfl, fun k n => ?_⟩
      simp only [get?_put, Binding.isFor, decide_eq_true_eq]
    | false =>
      obtain ⟨e, he⟩ := set_of_rejected (s := s) hb
      rw [he]
  · rw [h.annotationsFor, h.kinds]
  · intro n
    rw [h.mem_annotatedNodes]
    constructor
    · rintro ⟨b, hb, rfl⟩
      exact ⟨b.kind, by rw [has, (h.mem_bindings.1 hb).2]; rfl⟩
    · rintro ⟨k, hk⟩
      obtain ⟨k', hk', hid⟩ := h.exists_kind hk
      obtain ⟨v, hv⟩ := Option.isSome_iff_exists.1 hk
      exact ⟨⟨k', n, v⟩, h.mem_bindings.2 ⟨hk', (get?_eq_of_id_eq hid).trans hv⟩, rfl⟩
  · rw [h.listed_perm.length_eq, length_bindings]

/-- Calls for two kinds of one name, some of which are rejected: a literal is no model, and a number is no text. -/
def mixed : List Binding :=
  let label : AnnotationKind :=
    { id := 0, name := .text "note", targets := [.model], accepts := fun v => v matches .string _ }
  let flag : AnnotationKind := { id := 1, name := .text "note", targets := [.model, .enum] }
  [⟨label, .literal 0 .text (.string "a"), .string "a"⟩, ⟨label, .model 0, .string "a"⟩, ⟨flag, .enum 0, .null⟩,
    ⟨label, .model 1, .null⟩, ⟨flag, .model 0, .null⟩, ⟨label, .model 0, .string "b"⟩]

theorem isOutcomeOf_afterAll_mixed :
    mixed.map Binding.isAccepted = [false, true, true, false, true, true] ∧ (afterAll {} mixed).size = 3 ∧
      (afterAll {} mixed).IsOutcomeOf mixed := by
  refine ⟨by decide, by decide, isOutcomeOf_afterAll fun b hb c hc heq => ?_⟩
  simp only [mixed, List.mem_cons, List.not_mem_nil, or_false] at hb hc
  rcases hb with rfl | rfl | rfl | rfl | rfl | rfl <;> rcases hc with rfl | rfl | rfl | rfl | rfl | rfl <;>
    first | rfl | exact absurd heq (by decide)

/-! ### The order of annotated nodes -/

/-- Annotated nodes are listed kind by kind, in the order in which the kinds were first used, and for each kind in
the order in which they were first bound for it.  This is the order in which they were first bound if all bindings
are of one kind. -/
theorem annotatedNodes_afterAll (bs : List Binding) :
    (afterAll {} bs).annotatedNodes
        = distinct ((firsts AnnotationKind.id ((bs.filter Binding.isAccepted).map Binding.kind)).flatMap fun k =>
            ((bs.filter Binding.isAccepted).filter fun b => b.kind.id = k.id).map Binding.node)
      ∧ ∀ i, (∀ b ∈ bs, b.isAccepted = true → b.kind.id = i) →
        (afterAll {} bs).annotatedNodes = distinct ((bs.filter Binding.isAccepted).map Binding.node) := by
  have h : (afterAll {} bs).Records (bs.filter Binding.isAccepted) := records_afterAll bs
  have horder := h.annotatedNodes
  simp only [h.nodes, h.kinds, distinct_flatMap] at horder
  refine ⟨horder, fun i hi => ?_⟩
  rw [horder]
  have hone : ∀ b ∈ bs.filter Binding.isAccepted, b.kind.id = i := fun b hb =>
    hi b (List.mem_filter.1 hb).1 (List.mem_filter.1 hb).2
  generalize bs.filter Binding.isAccepted = accepted at hone
  cases accepted with
  | nil => rfl
  | cons b rest =>
    have hkinds : firsts AnnotationKind.id ((b :: rest).map Binding.kind) = [b.kind] :=
      firsts_of_same (by simpa using hone)
    have hall : (b :: rest).filter (fun c => c.kind.id = b.kind.id) = b :: rest :=
      List.filter_eq_self.2 fun c hc => by simp [hone c hc, hone b (List.mem_cons_self ..)]
    rw [hkinds, List.flatMap_singleton, hall]

/-- Two kinds that are used in turn on three models. -/
def inTurn : List Binding :=
  let first : AnnotationKind := { id := 0, name := .text "K1", targets := [.model] }
  let second : AnnotationKind := { id := 1, name := .text "K2", targets := [.model] }
  [⟨first, .model 0, .boolean true⟩, ⟨second, .model 1, .boolean true⟩, ⟨first, .model 2, .boolean true⟩]

theorem annotatedNodes_afterAll_inTurn :
    annotatedNodes (afterAll {} inTurn) = [.model 0, .model 2, .model 1]
      ∧ (∀ b ∈ inTurn.take 1, b.isAccepted = true → b.kind.id = 0)
      ∧ annotatedNodes (afterAll {} (inTurn.take 1)) = [.model 0] := by
  have hone : ∀ b ∈ inTurn.take 1, b.isAccepted = true → b.kind.id = 0 := by decide
  exact ⟨(annotatedNodes_afterAll inTurn).1.trans (by decide), hone,
    ((annotatedNodes_afterAll (inTurn.take 1)).2 0 hone).trans (by decide)⟩

/-- The nodes are not listed in the order in which they were first bound. -/
theorem annotatedNodes_inTurn_ne :
    annotatedNodes (afterAll {} inTurn) ≠ distinct ((inTurn.filter Binding.isAccepted).map Binding.node) := by
  decide

end

end AnnotationStore

end Edm
