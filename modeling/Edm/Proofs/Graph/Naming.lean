import Edm.Proofs.Graph.Walks

/-!
# Names worked out step by step

The name of a type for a scalar property and its identifier are worked out position by position, and at a position
without a rule the word for the kind stands in.  `Graph.Naming` and `Graph.Identifying` say how, with one rule for
each kind of node, and keep the nodes at which a word stands in.  On types that are finite there is exactly one way
to work out each (`Graph.IsFinite.exists_naming`, `Graph.exists_identifying`): what comes out is `Graph.typeName` and
`Graph.idLabel`, and the separate recursions `Graph.isUnnameable` and `Node.hasIdentifier` tell whether a word stands
in anywhere.
-/

namespace Edm

open Relation

namespace Graph

/-! ### Rules -/

section

variable (g : Graph)

mutual

/-- The name of a type comes out as a label; the words for the kinds of some nodes stand in. -/
inductive Naming : Node → Label → List Node → Prop
  | array {serial : Nat} {element : Node} {l : Label} {lacking : List Node} : Naming element l lacking →
      Naming (.array serial element) (l.enclose "Collection(" ")") lacking
  | union {i : UnionId} {ls : List Label} {lacking : List Node} : NamingAll (g.unions.get i).options ls lacking →
      Naming (.union i) (Label.join " | " ls) lacking
  | parameter (serial : Nat) (name : Label) : Naming (.parameter serial name) name []
  | literal (serial : Nat) (kind : LiteralKind) (value : Json) :
      Naming (.literal serial kind value) (.text value.schemaText) []
  | nameSpace (i : NamespaceId) : Naming (.nameSpace i) (g.namespaces.get i).name []
  | operation (i : OperationId) : Naming (.operation i) (g.operations.get i).name []
  | interface (i : InterfaceId) : Naming (.interface i) (g.interfaces.get i).name []
  | enum (i : EnumId) : Naming (.enum i) (g.enums.get i).name []
  | model (i : ModelId) : Naming (.model i) (modelTypeName (g.models.get i).name) []
  | property (i : PropertyId) : Naming (.property i) (.text (Node.property i).tag) [.property i]
  | member (i : MemberId) : Naming (.member i) (.text (Node.member i).tag) [.member i]
  | intrinsic (serial : Nat) (name : Label) :
      Naming (.intrinsic serial name) (.text (Node.intrinsic serial name).tag) [.intrinsic serial name]
  | foreign (className : Text) : Naming (.foreign className) (.text (Node.foreign className).tag) [.foreign className]

/-- The names of types come out one after the other. -/
inductive NamingAll : List Node → List Label → List Node → Prop
  | nil : NamingAll [] [] []
  | cons {n : Node} {ns : List Node} {l : Label} {ls : List Label} {lacking lacking' : List Node} :
      Naming n l lacking → NamingAll ns ls lacking' → NamingAll (n :: ns) (l :: ls) (lacking ++ lacking')

end

/-- The identifier of a declaration, if the names that lead to its owner are texts. -/
def declarationLabel (owner : Option NamespaceId) (name : Label) : Label :=
  if owner.all g.hasTextPath then .text (g.declarationId owner name) else .unformed

/-- The identifier of a node comes out as a label; the words for the kinds of some nodes stand in. -/
inductive Identifying : Node → Label → List Node → Prop
  | array {serial : Nat} {element : Node} {l : Label} {lacking : List Node} : Identifying element l lacking →
      Identifying (.array serial element) (l.enclose "Collection(" ")") lacking
  | nameSpace (i : NamespaceId) :
      Identifying (.nameSpace i) (if g.hasTextPath i then .text (g.namespaceName i) else .unformed) []
  | model (i : ModelId) :
      Identifying (.model i) (g.declarationLabel (g.models.get i).owner (g.models.get i).name) []
  | enum (i : EnumId) : Identifying (.enum i) (g.declarationLabel (g.enums.get i).owner (g.enums.get i).name) []
  | union (i : UnionId) :
      Identifying (.union i) (g.declarationLabel (g.unions.get i).owner (g.unions.get i).name) []
  | operation (i : OperationId) :
      Identifying (.operation i) (g.declarationLabel (g.operations.get i).owner (g.operations.get i).name) []
  | interface (i : InterfaceId) :
      Identifying (.interface i) (g.declarationLabel (g.interfaces.get i).owner (g.interfaces.get i).name) []
  | literal (serial : Nat) (kind : LiteralKind) (value : Json) :
      Identifying (.literal serial kind value) (.text value.schemaText) []
  | property (i : PropertyId) : Identifying (.property i) (.text (Node.property i).tag) [.property i]
  | member (i : MemberId) : Identifying (.member i) (.text (Node.member i).tag) [.member i]
  | parameter (serial : Nat) (name : Label) :
      Identifying (.parameter serial name) (.text (Node.parameter serial name).tag) [.parameter serial name]
  | intrinsic (serial : Nat) (name : Label) :
      Identifying (.intrinsic serial name) (.text (Node.intrinsic serial name).tag) [.intrinsic serial name]
  | foreign (className : Text) :
      Identifying (.foreign className) (.text (Node.foreign className).tag) [.foreign className]

end

section

variable {g : Graph} {n : Node} {l l' : Label} {ns : List Node} {ls ls' : List Label} {lacking lacking' : List Node}

/-! ### One outcome -/

mutual

-- The recursion is on the first derivation; the rule of the second one is the same, since the node is.
theorem Naming.unique {n : Node} {l : Label} {lacking : List Node} : g.Naming n l lacking →
    ∀ {l' : Label} {lacking' : List Node}, g.Naming n l' lacking' → l' = l ∧ lacking' = lacking
  | .array h, _, _, .array h' => by
    obtain ⟨rfl, rfl⟩ := h.unique h'
    exact ⟨rfl, rfl⟩
  | .union h, _, _, .union h' => by
    obtain ⟨rfl, rfl⟩ := h.unique h'
    exact ⟨rfl, rfl⟩
  | .parameter _ _, _, _, .parameter _ _ => ⟨rfl, rfl⟩
  | .literal _ _ _, _, _, .literal _ _ _ => ⟨rfl, rfl⟩
  | .nameSpace _, _, _, .nameSpace _ => ⟨rfl, rfl⟩
  | .operation _, _, _, .operation _ => ⟨rfl, rfl⟩
  | .interface _, _, _, .interface _ => ⟨rfl, rfl⟩
  | .enum _, _, _, .enum _ => ⟨rfl, rfl⟩
  | .model _, _, _, .model _ => ⟨rfl, rfl⟩
  | .property _, _, _, .property _ => ⟨rfl, rfl⟩
  | .member _, _, _, .member _ => ⟨rfl, rfl⟩
  | .intrinsic _ _, _, _, .intrinsic _ _ => ⟨rfl, rfl⟩
  | .foreign _, _, _, .foreign _ => ⟨rfl, rfl⟩

theorem NamingAll.unique {ns : List Node} {ls : List Label} {lacking : List Node} : g.NamingAll ns ls lacking →
    ∀ {ls' : List Label} {lacking' : List Node}, g.NamingAll ns ls' lacking' → ls' = ls ∧ lacking' = lacking
  | .nil, _, _, .nil => ⟨rfl, rfl⟩
  | .cons h hs, _, _, .cons h' hs' => by
    obtain ⟨rfl, rfl⟩ := h.unique h'
    obtain ⟨rfl, rfl⟩ := hs.unique hs'
    exact ⟨rfl, rfl⟩

end

theorem Identifying.unique (h : g.Identifying n l lacking) (h' : g.Identifying n l' lacking') :
    l' = l ∧ lacking' = lacking := by
  induction h generalizing l' lacking' with
  | array _ ih =>
    cases h' with
    | array h' =>
      obtain ⟨rfl, rfl⟩ := ih h'
      exact ⟨rfl, rfl⟩
  | _ =>
    cases h'
    exact ⟨rfl, rfl⟩

/-! ### Finite types -/

/-- A type is finite if going to items and options comes to an end, and all unions on the way are those of the
graph. -/
structure IsFinite (g : Graph) (n : Node) : Prop where
  acc : Acc g.IsPartOf n
  unions : ∀ i, ReflTransGen g.IsPartOf (.union i) n → i < g.unions.size

theorem isParts_core (g : Graph) (n : Node) : ReflTransGen g.IsPartOf n.core n := by
  induction n with
  | array _ element ih => exact ih.tail rfl
  | _ => exact .refl

theorem HoldsUnion.isParts {i j : UnionId} (h : g.HoldsUnion i j) : TransGen g.IsPartOf (.union j) (.union i) := by
  obtain ⟨m, hm, hcore⟩ := h
  exact TransGen.tail' (hcore ▸ g.isParts_core m) hm

theorem isParts_of_holdsUnions {i j : UnionId} (h : ReflTransGen g.HoldsUnion i j) :
    ReflTransGen g.IsPartOf (.union j) (.union i) := by
  induction h with
  | refl => exact .refl
  | tail _ hstep ih => exact hstep.isParts.to_reflTransGen.trans ih

namespace IsFinite

variable {m : Node} {i : UnionId}

theorem part (h : g.IsFinite n) (hm : g.IsPartOf m n) : g.IsFinite m :=
  ⟨h.acc.inv hm, fun i hi => h.unions i (hi.tail hm)⟩

theorem parts (h : g.IsFinite n) (hm : ReflTransGen g.IsPartOf m n) : g.IsFinite m := by
  induction hm using ReflTransGen.head_induction_on with
  | refl => exact h
  | head hstep _ ih => exact ih.part hstep

/-- No way from a finite union comes back to a union, so each meets no more unions than there are. -/
theorem endsWithin (h : g.IsFinite (.union i)) : g.EndsWithin g.unions.size i := by
  refine endsWithin_size fun j hij => ?_
  have hparts := isParts_of_holdsUnions hij
  refine ⟨h.unions j hparts, fun hcycle => ?_⟩
  have hback : TransGen g.IsPartOf (.union j) (.union j) := by
    obtain ⟨k, hjk, hkj⟩ := TransGen.tail'_iff.1 hcycle
    exact hkj.isParts.trans_left (isParts_of_holdsUnions hjk)
  exact not_self_of_acc (h.parts hparts).acc.transGen hback

end IsFinite

/-! ### Every outcome -/

theorem exists_namingAll
    (h : ∀ n ∈ ns, ∃ lacking, g.Naming n (g.typeName n) lacking ∧ (g.isUnnameable n = true ↔ lacking ≠ [])) :
    ∃ lacking, g.NamingAll ns (ns.map g.typeName) lacking ∧ (ns.any g.isUnnameable = true ↔ lacking ≠ []) := by
  induction ns with
  | nil => exact ⟨[], .nil, by simp⟩
  | cons n ns ih =>
    obtain ⟨lacking, hn, hfirst⟩ := h n (List.mem_cons_self ..)
    obtain ⟨lacking', hns, hrest⟩ := ih fun m hm => h m (List.mem_cons_of_mem _ hm)
    refine ⟨lacking ++ lacking', .cons hn hns, ?_⟩
    rw [List.any_cons, Bool.or_eq_true, hfirst, hrest]
    simp only [ne_eq, List.append_eq_nil_iff, not_and_or]

/-- The name of a finite type can be worked out, and a word stands in for a rule where `isUnnameable` says so. -/
theorem IsFinite.exists_naming (h : g.IsFinite n) :
    ∃ lacking, g.Naming n (g.typeName n) lacking ∧ (g.isUnnameable n = true ↔ lacking ≠ []) := by
  have hacc := h.acc
  -- the induction is on the items and options: those of a union are named by the equations for its name
  induction hacc with
  | intro n _ ih =>
    have hpart : ∀ m, g.IsPartOf m n → _ := fun m hm => ih m hm (h.part hm)
    cases n with
    | array serial element =>
      obtain ⟨lacking, helement, hfalls⟩ := hpart element rfl
      exact ⟨lacking, .array helement, hfalls⟩
    | union i =>
      obtain ⟨lacking, hoptions, hfalls⟩ := exists_namingAll hpart
      refine ⟨lacking, ?_, ?_⟩
      · rw [h.endsWithin.typeName_union]
        exact .union hoptions
      · rw [h.endsWithin.isUnnameable_union]
        exact hfalls
    | parameter _ _ | literal _ _ _ | nameSpace _ | operation _ | interface _ | enum _ | model _ =>
      exact ⟨[], by constructor, by simp [isUnnameable, isUnnameableWith]⟩
    | property _ | member _ | intrinsic _ _ | foreign _ =>
      exact ⟨[_], by constructor, by simp [isUnnameable, isUnnameableWith]⟩

/-- The identifier of a node can be worked out, and a word stands in for a rule where there is none. -/
theorem exists_identifying (g : Graph) (n : Node) :
    ∃ lacking, g.Identifying n (g.idLabel n) lacking ∧ (n.hasIdentifier = false ↔ lacking ≠ []) := by
  induction n with
  | array serial element ih =>
    obtain ⟨lacking, helement, hfalls⟩ := ih
    rw [idLabel_array]
    exact ⟨lacking, .array helement, hfalls⟩
  | nameSpace _ | model _ | enum _ | union _ | operation _ | interface _ | literal _ _ _ =>
    exact ⟨[], by constructor, by simp [Node.hasIdentifier]⟩
  | property _ | member _ | parameter _ _ | intrinsic _ _ | foreign _ =>
    exact ⟨[_], by constructor, by simp [Node.hasIdentifier]⟩

/-- The identifier of a node is worked out in one way. -/
theorem of_identifying (hn : g.Identifying n l lacking) :
    l = g.idLabel n ∧ (n.hasIdentifier = false ↔ lacking ≠ []) := by
  obtain ⟨lacking', hidentifying, hfalls⟩ := g.exists_identifying n
  obtain ⟨rfl, rfl⟩ := hidentifying.unique hn
  exact ⟨rfl, hfalls⟩

end

end Graph

end Edm
