import Mathlib.Data.List.Forall2
import Edm.Proofs.Document.EntitySets

/-!
# The names of entity sets

A route is read in two ways: a scan for a slash after its first character says whether its interface backs an entity
set, and two scans from its end put together the name of the set.  The name is the last of the segments of the route,
the pieces between its slashes that hold anything, and nothing if there is no such piece (`getLast?_segments`).  So the
sets of a namespace are those of its interfaces that have a slash after the first character of their route, in order,
each named by the last segment (`Program.entitySets_of_routes`).  A route of slashes alone gets past the scan, and its
set has no name (`Program.nameless_of_load_slashes`).
-/

namespace Edm

/-! ### Segments -/

/-- The code point between the segments of a route. -/
abbrev slash : CodePoint := '/'

/-- The pieces of a route between its slashes that hold anything. -/
def segments (path : Text) : List Text := (path.splitOn slash).filter fun piece => !piece.isEmpty

namespace Text

variable {c : CodePoint} {t : Text}

/-- A text is what follows the last copy of a code point, or ends in such a copy and what follows it. -/
theorem eq_afterLast_or_append (c : CodePoint) (t : Text) :
    t = afterLast c t ∨ ∃ front, t = front ++ c :: afterLast c t := by
  have happend : (t.reverse.dropWhile (· != c)).reverse ++ afterLast c t = t := by
    rw [afterLast, ← List.reverse_append, List.takeWhile_append_dropWhile, List.reverse_reverse]
  cases hrest : t.reverse.dropWhile (· != c) with
  | nil =>
    rw [hrest] at happend
    exact .inl happend.symm
  | cons d front =>
    have hd : d = c := by simpa [hrest] using List.head?_dropWhile_not (· != c) t.reverse
    rw [hrest, List.reverse_cons, List.append_assoc, hd] at happend
    exact .inr ⟨front.reverse, happend.symm⟩

theorem trimRight_append_self (c : CodePoint) (t : Text) : trimRight c (t ++ [c]) = trimRight c t := by
  simp [trimRight]

theorem trimRight_append_of_ne {d : CodePoint} (h : d ≠ c) (t : Text) : trimRight c (t ++ [d]) = t ++ [d] := by
  simp [trimRight, h]

end Text

theorem segments_append_slash (front rest : Text) :
    segments (front ++ slash :: rest) = segments front ++ segments rest := by
  rw [segments, List.splitOn_append_cons_self, List.filter_append]
  rfl

theorem segments_nil : segments [] = [] := rfl

theorem segments_of_not_mem {t : Text} (hslash : slash ∉ t) (hne : t ≠ []) : segments t = [t] := by
  rw [segments, List.splitOn_eq_singleton hslash]
  simp [hne]

/-! ### The name that a route gives -/

theorem lastSegment_append_slash (path : Text) : lastSegment (path ++ [slash]) = lastSegment path := by
  rw [lastSegment, lastSegment, Text.trimRight_append_self]

theorem lastSegment_append_of_ne {c : CodePoint} (h : c ≠ slash) (path : Text) :
    lastSegment (path ++ [c]) = Text.afterLast slash (path ++ [c]) ∧ lastSegment (path ++ [c]) ≠ [] := by
  rw [lastSegment, Text.trimRight_append_of_ne h]
  exact ⟨rfl, by simp [Text.afterLast, h]⟩

/-- The name that a route gives is its last segment. -/
theorem getLast?_segments (path : Text) :
    (segments path).getLast? = if lastSegment path = [] then none else some (lastSegment path) := by
  induction path using List.reverseRecOn with
  | nil => rfl
  | append_singleton path c ih =>
    by_cases hc : c = slash
    · rw [hc, lastSegment_append_slash, segments_append_slash, segments_nil, List.append_nil, ih]
    · -- nothing is trimmed, so the name is what follows the last slash
      obtain ⟨hlast, hne⟩ := lastSegment_append_of_ne hc path
      have hslash := Text.not_mem_afterLast slash (path ++ [c])
      have hsplit := Text.eq_afterLast_or_append slash (path ++ [c])
      rw [← hlast] at hslash hsplit
      have hsegment := segments_of_not_mem hslash hne
      rw [if_neg hne]
      obtain heq | ⟨front, heq⟩ := hsplit
      · rw [← heq] at hsegment ⊢
        rw [hsegment, List.getLast?_singleton]
      · rw [heq, segments_append_slash, ← heq, hsegment, List.getLast?_append]
        rfl

/-- Routes of slashes alone are those that give no name. -/
theorem lastSegment_eq_nil_iff {path : Text} : lastSegment path = [] ↔ ∀ c ∈ path, c = slash := by
  induction path using List.reverseRecOn with
  | nil => exact ⟨fun _ => by simp, fun _ => rfl⟩
  | append_singleton path c ih =>
    rw [List.forall_mem_append, List.forall_mem_singleton]
    by_cases hc : c = slash
    · rw [hc, lastSegment_append_slash, ih]
      simp
    · exact iff_of_false (lastSegment_append_of_ne hc path).2 fun h => hc h.2

theorem hasSegment_iff {path : Text} : hasSegment path = true ↔ ∃ n, 0 < n ∧ path[n]? = some slash := by
  rw [hasSegment, List.contains_iff_mem, List.mem_iff_getElem?]
  constructor
  · rintro ⟨n, hn⟩
    rw [List.getElem?_drop] at hn
    exact ⟨1 + n, by omega, hn⟩
  · rintro ⟨n, hpos, hn⟩
    refine ⟨n - 1, ?_⟩
    rwa [List.getElem?_drop, Nat.add_sub_cancel' hpos]

example : lastSegment ("/api//pets//" : String) = ("pets" : String) := by decide

/-! ### The sets of a namespace -/

namespace Graph

/-- An entity set comes from a route and from what the `Get` operation of its interface returns.  Unless the route is
of slashes alone, it is named by the last segment. -/
structure Backs (g : Graph) (path : Text) (returned : Node) (s : EntitySet) : Prop where
  path_eq : s.path = path
  entityType : s.entityType = g.idLabel returned.itemType
  no_slash : slash ∉ s.name
  name_ne_nil : s.name ≠ [] ↔ ∃ c ∈ path, c ≠ slash
  getLast? : s.name ≠ [] → (segments path).getLast? = some s.name

section

variable {g : Graph} {routes : Routes} {i : InterfaceId} {path : Text} {returned : Node} {s : EntitySet}

theorem entitySet?_eq (hroute : routes i = .text path) (hresult : g.getResult? i = some returned) :
    g.entitySet? routes i
      = if hasSegment path then some ⟨lastSegment path, path, g.idLabel returned.itemType⟩ else none := by
  rw [entitySet?, hroute, hresult]
  rfl

theorem isSome_entitySet?_iff (hroute : routes i = .text path) (hresult : g.getResult? i = some returned) :
    (g.entitySet? routes i).isSome = true ↔ ∃ n, 0 < n ∧ path[n]? = some slash := by
  rw [← hasSegment_iff, entitySet?_eq hroute hresult]
  split <;> simp_all

theorem backs_of_entitySet? (h : g.entitySet? routes i = some s) :
    ∃ path returned, routes i = .text path ∧ g.getResult? i = some returned ∧ g.Backs path returned s := by
  obtain ⟨returned, hresult, -⟩ := entitySet?_eq_some h
  obtain ⟨path, hpath, -⟩ := Option.bind_eq_some_iff.1 h
  have hroute : routes i = .text path := by
    cases hi : routes i <;> simp_all [Label.text?]
  rw [entitySet?_eq hroute hresult] at h
  obtain ⟨-, h⟩ := Option.ite_none_right_eq_some.1 h
  cases h
  refine ⟨path, returned, hroute, hresult, rfl, rfl, Text.not_mem_afterLast slash _, ?_, fun hname => ?_⟩
  · show lastSegment path ≠ [] ↔ _
    rw [ne_eq, lastSegment_eq_nil_iff]
    push Not
    rfl
  · rw [getLast?_segments, if_neg hname]

theorem forall₂_filterMap {α β : Type} {f : α → Option β} {R : α → β → Prop} (h : ∀ a b, f a = some b → R a b)
    (as : List α) : List.Forall₂ R (as.filter fun a => (f a).isSome) (as.filterMap f) := by
  induction as with
  | nil => exact .nil
  | cons a as ih =>
    cases hf : f a with
    | none => simpa [hf] using ih
    | some b => simpa [hf] using ⟨h a b hf, ih⟩

end

end Graph

namespace Program

theorem names_of_containerElement? {p : Program} {routes : Routes} {space : NamespaceId} {e : Element}
    (h : p.containerElement? routes space = some e) :
    e.children.map (Element.get? "Name") = (p.graph.entitySets routes space).map fun s => some (.text s.name) := by
  rw [containerElement?] at h
  split at h
  · cases h
  · cases h
    rw [Element.build, Element.children, List.map_map]
    exact List.map_congr_left fun s _ => Element.get?_build [] (by simp)

/-- The entity sets of a namespace, and their elements, are those of its interfaces, in their order and at most one for
each.  An interface whose `Get` operation returns something backs one if there is a slash after the first character of
its route. -/
theorem entitySets_of_routes (p : Program) (routes : Routes) (space : NamespaceId) :
    List.Forall₂ (fun i s => ∃ path returned, routes i = .text path ∧ p.graph.getResult? i = some returned
        ∧ p.graph.Backs path returned s)
      ((p.graph.namespaces.get space).interfaces.values.filter fun i => (p.graph.entitySet? routes i).isSome)
      (p.graph.entitySets routes space)
    ∧ (∀ i path returned, routes i = .text path → p.graph.getResult? i = some returned →
      ((p.graph.entitySet? routes i).isSome = true ↔ ∃ n, 0 < n ∧ path[n]? = some slash))
    ∧ ∀ e, p.containerElement? routes space = some e →
      e.children.map (Element.get? "Name") = (p.graph.entitySets routes space).map fun s => some (.text s.name) :=
  ⟨Graph.forall₂_filterMap (fun _ _ => Graph.backs_of_entitySet?) _,
    fun _ _ _ => Graph.isSome_entitySet?_iff,
    fun _ => names_of_containerElement?⟩

/-- A description with an interface whose route is of slashes alone, and with one whose route has a segment. -/
def slashes : Json := .object [("namespaces", .array [.object [("name", .string "A"),
  ("models", .array [.object [("name", .string "M"), ("properties", .array [
    .object [("name", .string "p"), ("type", .string "string")]])]]),
  ("interfaces", .array [
    .object [("name", .string "I"), ("route", .string "//"),
      ("operations", .array [.object [("name", .string "Get"), ("returnType", .string "M")]])],
    .object [("name", .string "J"), ("route", .string "/api/ms/"),
      ("operations", .array [.object [("name", .string "Get"), ("returnType", .string "M[]")]])]])]])]

/-- The route of slashes alone has no segment, and gives a set without a name. -/
theorem nameless_of_load_slashes : ∃ p path returned s e, load slashes = .ok p ∧ p.routes 0 = .text path
    ∧ p.graph.getResult? 0 = some returned ∧ segments path = []
    ∧ p.graph.setsFault? p.routes 2 = none ∧ p.graph.entitySet? p.routes 0 = some s
    ∧ s ∈ p.graph.entitySets p.routes 2 ∧ s.name = []
    ∧ p.containerElement? p.routes 2 = some e ∧ some (.text []) ∈ e.children.map (Element.get? "Name") := by
  have hfound : ∀ p ∈ (load slashes).toOption, p.routes 0 = .text ("//" : String)
      ∧ p.graph.getResult? 0 = some (.model 22) ∧ p.graph.setsFault? p.routes 2 = none
      ∧ p.graph.entitySet? p.routes 0 = some ⟨[], ("//" : String), .text ("A.M" : String)⟩
      ∧ ⟨[], ("//" : String), .text ("A.M" : String)⟩ ∈ p.graph.entitySets p.routes 2
      ∧ ∃ e ∈ p.containerElement? p.routes 2, some (.text []) ∈ e.children.map (Element.get? "Name") := by
    decide +kernel
  obtain ⟨p, hload⟩ : ∃ p, load slashes = .ok p := Yields.exists_ok (by decide +kernel)
  obtain ⟨hroute, hresult, hfault, hset, hmem, e, he, hname⟩ := hfound p (by rw [hload]; rfl)
  exact ⟨p, _, _, _, e, hload, hroute, hresult, by decide, hfault, hset, hmem, rfl, he, hname⟩

end Program

end Edm
