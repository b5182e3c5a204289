import Edm.Proofs.Document.Elements
import Edm.Proofs.Loading.Resolved
import Edm.Proofs.Xml.Plain

/-!
# Elements that can be written

The tags and the names of attributes in a document are fixed, and each value is a text or is left out.  The texts
come from what a program says: names of declarations, identifiers and names of types, and names of keys, of which only
texts are bound (`AnnotationStore.isText_keyName`).  So every element of the document of a program that is fit for one
is plain (`Program.IsFit.isPlain`), and loaded programs are (`Program.isFit_of_load`).
-/

namespace Edm

/-! ### Values of attributes -/

/-- A value that an element is given: a text, or nothing. -/
def Label.IsValue (l : Label) : Prop := l.isText = true ∨ l.isAbsent = true

theorem Label.isValue_text (t : Text) : IsValue (.text t) := .inl rfl

theorem Label.isAbsent_iff {l : Label} : l.isAbsent = true ↔ l = .raw .null := by
  cases l with
  | raw v => cases v <;> simp [isAbsent]
  | _ => simp [isAbsent]

theorem Program.isValue_mark (isSet : Bool) (t : Text) : (mark isSet t).IsValue := by
  cases isSet with
  | true => exact .inl rfl
  | false => exact .inr rfl

namespace Element

/-- A tag and names of attributes that a document can hold. -/
def IsShape (tag : Text) (names : List Text) : Prop :=
  (Xml.name? tag).isSome = true ∧ (∀ n ∈ names, (Xml.name? n).isSome = true ∧ n ≠ "xmlns") ∧ names.Nodup

instance (tag : Text) (names : List Text) : Decidable (IsShape tag names) := inferInstanceAs (Decidable (_ ∧ _ ∧ _))

/-- An element with values in a shape that a document can hold is plain. -/
theorem isPlain_build {tag : Text} {attributes : List (Text × Label)} {children : List Element} (names : List Text)
    (hattributes : attributes.map Prod.fst = names) (hshape : IsShape tag names)
    (hvalues : ∀ a ∈ attributes, a.2.IsValue) : (build tag attributes children).IsPlain := by
  subst hattributes
  obtain ⟨htag, hnames, hnodup⟩ := hshape
  have hmem : ∀ a ∈ (build tag attributes children).attributes, a ∈ attributes ∧ a.2.isAbsent = false := by
    intro a ha
    have ha : a ∈ attributes.filter fun a => !a.2.isAbsent := ha
    rwa [List.mem_filter, Bool.not_eq_true'] at ha
  refine ⟨htag, fun a ha => ?_, fun a ha => ?_, fun a ha => ?_, ?_⟩
  · exact (hnames _ (List.mem_map_of_mem (hmem a ha).1)).1
  · exact (hnames _ (List.mem_map_of_mem (hmem a ha).1)).2
  · rcases hvalues a (hmem a ha).1 with htext | habsent
    · exact htext
    · rw [(hmem a ha).2] at habsent
      cases habsent
  · exact hnodup.sublist (List.filter_sublist.map Prod.fst)

end Element

/-! ### Keys -/

namespace AnnotationStore

variable {s : AnnotationStore} {m : Model} {i : PropertyId}

/-- A property that is a key has a text for the name of the key. -/
theorem isText_keyName (h : s.Accepted) (hi : s.isKey i = true) (own : Label) : (s.keyName i own).isText = true := by
  obtain ⟨v, hv⟩ := Option.isSome_iff_exists.1 hi
  obtain ⟨-, haccepts⟩ := h .key (List.mem_cons_self ..) _ v hv
  rw [keyName, hv]
  cases v with
  | string t =>
    have htruthy : (Json.string t).truthy = true := haccepts
    dsimp only
    rw [if_pos htruthy]
    rfl
  | _ => cases haccepts

theorem keyProperty?_eq_some (h : s.keyProperty? m = some i) : i ∈ m.properties.values ∧ s.isKey i = true :=
  ⟨List.mem_of_find?_eq_some h, List.find?_some h⟩

theorem exists_keyProperty (h : s.modelClass m = .entity) : ∃ i, s.keyProperty? m = some i := by
  unfold modelClass at h
  split at h
  next hkey => exact Option.isSome_iff_exists.1 hkey
  next => cases h

end AnnotationStore

/-! ### Programs that can be written -/

namespace Graph

variable {g : Graph} {n : Node}

theorem Reaches.itemType (h : g.Reaches n) : g.Reaches n.itemType := by
  cases n with
  | array _ _ => exact h.element
  | _ => exact h

theorem Reaches.getResult? (h : g.Reaches (.interface i)) (hn : g.getResult? i = some n) : g.Reaches n := by
  obtain ⟨j, hj, hresult⟩ := Option.bind_eq_some_iff.1 hn
  have hoperation : g.Reaches (.operation j) :=
    h.member rfl (List.mem_map_of_mem (Members.mem_values_of_lookup hj))
  exact hoperation.type rfl (Option.mem_toList.2 hresult)

theorem isText_idLabel (h : g.HasTextNames) (hn : g.Reaches n) : (g.idLabel n).isText = true := by
  rw [h.idLabel_eq hn]
  rfl

theorem isValue_nameOf (h : g.HasTextNames) (hn : g.Reaches n) (hname : (g.name? n).isSome = true) :
    (g.nameOf n).IsValue := by
  obtain ⟨l, hl⟩ := Option.isSome_iff_exists.1 hname
  have htext := h n hn
  rw [nameOf, hl, Option.getD_some]
  cases n with
  | union i =>
    cases hl
    exact htext
  | _ => exact .inl (htext l hl)

end Graph

namespace Program

/-- Whether a document can be made of a program: names are texts, bases have names, what operations return are nodes,
and every annotation is one that its kind accepts. -/
structure IsFit (p : Program) : Prop where
  texts : p.graph.HasTextNames
  bases : ∀ space ∈ p.graph.expand Graph.root, ∀ i ∈ (p.graph.namespaces.get space).models.values,
    ∀ b ∈ (p.graph.models.get i).base, (p.graph.name? b).isSome = true
  results : ∀ space ∈ p.graph.expand Graph.root, ∀ i ∈ (p.graph.namespaces.get space).interfaces.values,
    ∀ n ∈ p.graph.getResult? i, n.kind?.isSome = true
  bindings : p.store.Accepted

variable {p : Program} {routes : Option Routes} {excluded : List Text} {space : NamespaceId} {e : Element}

theorem reaches_of_mem_expand (hspace : space ∈ p.graph.expand Graph.root) : p.graph.Reaches (.nameSpace space) :=
  (Graph.reaches_root _).expandWithin _ hspace

theorem reaches_model {i : ModelId} (hspace : p.graph.Reaches (.nameSpace space))
    (hi : i ∈ (p.graph.namespaces.get space).models.values) : p.graph.Reaches (.model i) :=
  hspace.member rfl (by simpa [Cell.members, Namespace.members])

theorem reaches_property {i : ModelId} {j : PropertyId} (hi : p.graph.Reaches (.model i))
    (hj : j ∈ (p.graph.models.get i).properties.values) : p.graph.Reaches (.property j) :=
  hi.member rfl (List.mem_map_of_mem hj)

theorem reaches_interface {i : InterfaceId} (hspace : p.graph.Reaches (.nameSpace space))
    (hi : i ∈ (p.graph.namespaces.get space).interfaces.values) : p.graph.Reaches (.interface i) :=
  hspace.member rfl (by simpa [Cell.members, Namespace.members])

/-- The element of a property has the identifier of its type for a value, or the name of the type. -/
theorem isPlain_propertyElement {i : PropertyId} (hname : (p.graph.properties.get i).name.isText = true)
    (hid : (p.graph.idLabel (p.graph.properties.get i).type).isText = true)
    (htype : (p.graph.typeName (p.graph.properties.get i).type).isText = true) : (p.propertyElement i).IsPlain := by
  rw [propertyElement]
  split
  next =>
    refine Element.isPlain_build ["Name", "Type", "ContainsTarget"] rfl (by decide) ?_
    refine List.forall_mem_cons.2 ⟨.inl hname, ?_⟩
    exact List.forall_mem_cons.2 ⟨.inl hid, List.forall_mem_singleton.2 (isValue_mark ..)⟩
  next =>
    refine Element.isPlain_build ["Name", "Type", "Nullable"] rfl (by decide) ?_
    refine List.forall_mem_cons.2 ⟨.inl hname, ?_⟩
    exact List.forall_mem_cons.2 ⟨.inl htype, List.forall_mem_singleton.2 (isValue_mark ..)⟩

theorem isPlain_modelElement {i : ModelId} (hname : (p.graph.models.get i).name.isText = true)
    (hbase : ∀ b ∈ (p.graph.models.get i).base, (p.graph.nameOf b).IsValue) : (p.modelElement i).IsPlain := by
  have hplain : ∀ tag base children, Element.IsShape tag ["Name", "BaseType", "OpenType"] → Label.IsValue base →
      (Element.build tag [("Name", (p.graph.models.get i).name), ("BaseType", base),
        ("OpenType", mark (p.store.isOpen i) "true")] children).IsPlain := by
    intro tag base children hshape hvalue
    refine Element.isPlain_build _ rfl hshape (List.forall_mem_cons.2 ⟨.inl hname, ?_⟩)
    exact List.forall_mem_cons.2 ⟨hvalue, List.forall_mem_singleton.2 (isValue_mark ..)⟩
  rw [modelElement]
  cases hb : (p.graph.models.get i).base with
  | none =>
    split
    · exact hplain _ _ _ (by decide) (.inr rfl)
    · exact hplain _ _ _ (by decide) (.inr rfl)
  | some b =>
    split
    · exact hplain _ _ _ (by decide) (hbase b hb)
    · exact hplain _ _ _ (by decide) (hbase b hb)

theorem isPlain_memberElement {i : MemberId} (hname : (p.graph.members.get i).name.isText = true) :
    (p.memberElement i).IsPlain := by
  rw [memberElement]
  refine Element.isPlain_build ["Name", "Value"] rfl (by decide) ?_
  refine List.forall_mem_cons.2 ⟨.inl hname, List.forall_mem_singleton.2 ?_⟩
  dsimp only
  split
  · exact .inr rfl
  · exact .inl rfl

/-- Each element for what a namespace declares is plain. -/
theorem IsFit.isPlain_of_shows (h : p.IsFit) (hspace : space ∈ p.graph.expand Graph.root)
    (he : p.Shows routes space e) : e.IsPlain := by
  have hreaches := reaches_of_mem_expand hspace
  cases he with
  | schema =>
    have hid := Graph.isText_idLabel h.texts hreaches
    exact Element.isPlain_build ["Namespace"] rfl (by decide) (List.forall_mem_singleton.2 (.inl hid))
  | @enum i hi =>
    have henum : p.graph.Reaches (.enum i) := hreaches.member rfl (by simpa [Cell.members, Namespace.members])
    have hname := h.texts.isText_of_name? henum (by simp) rfl
    exact Element.isPlain_build ["Name"] rfl (by decide) (List.forall_mem_singleton.2 (.inl hname))
  | @member i j hi hj =>
    have henum : p.graph.Reaches (.enum i) := hreaches.member rfl (by simpa [Cell.members, Namespace.members])
    have hmember := henum.member rfl (List.mem_map_of_mem hj)
    exact isPlain_memberElement (h.texts.isText_of_name? hmember (by simp) rfl)
  | @model i hi =>
    have hmodel := reaches_model hreaches hi
    refine isPlain_modelElement (h.texts.isText_of_name? hmodel (by simp) rfl) fun b hb => ?_
    exact Graph.isValue_nameOf h.texts (hmodel.type rfl (Option.mem_toList.2 hb)) (h.bases _ hspace _ hi _ hb)
  | key _ _ => exact Element.isPlain_build [] rfl (by decide) (by simp)
  | keyReference _ hj =>
    have hkey := AnnotationStore.keyProperty?_eq_some hj
    have hname := AnnotationStore.isText_keyName h.bindings hkey.2
    exact Element.isPlain_build ["Name"] rfl (by decide) (List.forall_mem_singleton.2 (.inl (hname _)))
  | property hi hj =>
    have hproperty := reaches_property (reaches_model hreaches hi) hj
    have htype := hproperty.type rfl (List.mem_singleton_self _)
    have hname := h.texts.isText_of_name? hproperty (by simp) rfl
    exact isPlain_propertyElement hname (Graph.isText_idLabel h.texts htype) (h.texts.isText_typeName htype)
  | container _ hc =>
    unfold containerElement? at hc
    split at hc
    · cases hc
    · cases hc
      exact Element.isPlain_build ["Name"] rfl (by decide) (List.forall_mem_singleton.2 (Label.isValue_text _))
  | @entitySet r i s _ hi hs =>
    obtain ⟨result, hresult, hset⟩ := Graph.entitySet?_eq_some hs
    have htype := ((reaches_interface hreaches hi).getResult? hresult).itemType
    have hvalue : s.entityType.isText = true := by
      rw [hset]
      exact Graph.isText_idLabel h.texts htype
    refine Element.isPlain_build ["Name", "EntityType"] rfl (by decide) ?_
    refine List.forall_mem_cons.2 ⟨Label.isValue_text _, ?_⟩
    exact List.forall_mem_singleton.2 (.inl hvalue)

theorem IsFit.isPlain (h : p.IsFit) (he : e ∈ Element.descendantsOf (p.schemas routes excluded Graph.root)) :
    e.IsPlain := by
  obtain ⟨space, hspace, hshows⟩ := shows_of_mem he
  exact h.isPlain_of_shows (Graph.mem_flatten.1 hspace).1 hshows

/-! ### Loaded programs -/

/-- A loaded program with texts for names is one that a document can be made of. -/
theorem isFit_of_load {data : Json} (h : load data = .ok p) (htexts : p.graph.HasTextNames) : p.IsFit := by
  have hd := (consistent_of_load h).1
  have hsettle := (settleAll_of_load h).2
  refine ⟨htexts, fun space hspace i hi b hb => ?_, fun space hspace i hi n hn => ?_, accepted_of_load h⟩
  · have hmodel := hd.reached_model hsettle (reached_of_mem_expand h hspace) hi
    obtain ⟨-, j, rfl⟩ := hd.reached_base hsettle hmodel hb
    rfl
  · have hinterface := hd.reached_interface hsettle (reached_of_mem_expand h hspace) hi
    obtain ⟨k, hk⟩ := hd.kind_of_isMade (hd.reached_result hsettle hinterface hn).isMade
    exact Option.isSome_iff_exists.2 ⟨k, hk⟩

theorem isPlain_of_load {data : Json} (h : load data = .ok p) (htexts : p.graph.HasTextNames)
    (he : e ∈ Element.descendantsOf (p.schemas routes excluded Graph.root)) : e.IsPlain :=
  (isFit_of_load h htexts).isPlain he

end Program

end Edm
