import Edm.Proofs.Xml.Tags

/-!
# Plain elements

An element is plain if its tag and the names of its attributes are names, no two attributes have one name
and none declares a vocabulary, and its values are texts.  A tree of plain elements can always be written:
`Element.seen` is the tree that comes about, and a document with such schemas is its declaration followed by
the tags of the envelope around these trees, one to a line (`Envelope.text_eq_lines`).
-/

namespace Edm

namespace Element

/-- An element that a document can hold. -/
structure IsPlain (e : Element) : Prop where
  tag_ok : (Xml.name? e.tag).isSome = true
  name_ok : ∀ a ∈ e.attributes, (Xml.name? a.1).isSome = true
  name_ne : ∀ a ∈ e.attributes, a.1 ≠ "xmlns"
  value_ok : ∀ a ∈ e.attributes, a.2.isText = true
  distinct : (e.attributes.map Prod.fst).Nodup

instance (e : Element) : Decidable e.IsPlain :=
  decidable_of_iff
    ((Xml.name? e.tag).isSome = true ∧
      (∀ a ∈ e.attributes, (Xml.name? a.1).isSome = true ∧ a.1 ≠ "xmlns" ∧ a.2.isText = true) ∧
      (e.attributes.map Prod.fst).Nodup)
    ⟨fun ⟨ht, ha, hd⟩ => ⟨ht, fun a h => (ha a h).1, fun a h => (ha a h).2.1, fun a h => (ha a h).2.2, hd⟩,
      fun h => ⟨h.tag_ok, fun a ha => ⟨h.name_ok a ha, h.name_ne a ha, h.value_ok a ha⟩, h.distinct⟩⟩

/-! ### What is written -/

/-- The characters of a value, those that a document cannot hold replaced. -/
def valueSeen : Label → List Char
  | .text t => Xml.safe t
  | _ => []

/-- The characters of an attribute. -/
def attributeSeen (a : Text × Label) : List Char × List Char := (a.1.toChars, valueSeen a.2)

mutual

/-- The tree that stands for an element in a document: the same tags and attributes in the same order, with
`declarations` in front of the attributes of the outermost. -/
def seen (declarations : List (List Char × List Char)) : Element → Markup
  | node tag attributes children =>
    .node tag.toChars (declarations ++ attributes.map attributeSeen) (seenList children)

/-- The trees that stand for the elements of a list. -/
def seenList : List Element → List Markup
  | [] => []
  | e :: es => seen [] e :: seenList es

end

private theorem name?_eq {t : Text} (h : (Xml.name? t).isSome = true) : Xml.name? t = some t.toChars := by
  unfold Xml.name? at h ⊢
  dsimp only at h ⊢
  split
  · rfl
  · rename_i hn
    simp [hn] at h

theorem isName_of_isSome {t : Text} (h : (Xml.name? t).isSome = true) :
    Text.ofChars t.toChars = t ∧ Xml.isName t.toChars = true := by
  unfold Xml.name? at h
  dsimp only at h
  split at h
  · assumption
  · cases h

private theorem writeAttribute_eq {a : Text × Label} (hn : (Xml.name? a.1).isSome = true)
    (hv : a.2.isText = true) : writeAttribute a = .ok (attributeSeen a) := by
  obtain ⟨name, value⟩ := a
  cases value with
  | text t => simp only [writeAttribute, name?_eq hn, attributeSeen, valueSeen]
  | raw v => cases hv
  | unformed => cases hv

private theorem mapM_writeAttribute {as : List (Text × Label)}
    (hn : ∀ a ∈ as, (Xml.name? a.1).isSome = true) (hv : ∀ a ∈ as, a.2.isText = true) :
    as.mapM writeAttribute = .ok (as.map attributeSeen) := by
  induction as with
  | nil => rfl
  | cons a as ih =>
    rw [List.mapM_cons, writeAttribute_eq (hn a (by simp)) (hv a (by simp)),
      ih (fun b hb => hn b (by simp [hb])) fun b hb => hv b (by simp [hb])]
    rfl

mutual

/-- Every tree of plain elements can be written. -/
theorem toMarkupWith_eq_seen (declarations : List (List Char × List Char)) :
    ∀ e : Element, (∀ d ∈ e.descendants, d.IsPlain) → toMarkupWith declarations e = .ok (seen declarations e)
  | node tag attributes children, h => by
    rw [descendants] at h
    have hp : IsPlain (node tag attributes children) := h _ (by simp)
    have ht : Xml.name? tag = some tag.toChars := name?_eq hp.tag_ok
    have ha : attributes.mapM writeAttribute = .ok (attributes.map attributeSeen) :=
      mapM_writeAttribute hp.name_ok hp.value_ok
    rw [toMarkupWith, ht, ha, toMarkupList_eq_seenList children fun d hd => h d (by simp [hd])]
    rfl

theorem toMarkupList_eq_seenList :
    ∀ es : List Element, (∀ d ∈ descendantsOf es, d.IsPlain) → toMarkupList es = .ok (seenList es)
  | [], _ => rfl
  | e :: es, h => by
    rw [descendantsOf] at h
    rw [toMarkupList, toMarkupWith_eq_seen [] e fun d hd => h d (by simp [hd]),
      toMarkupList_eq_seenList es fun d hd => h d (by simp [hd])]
    rfl

end

/-! ### What is written is legal -/

private theorem isChar_of_mem_valueSeen {l : Label} {c : Char} (h : c ∈ valueSeen l) : Xml.isChar c = true := by
  cases l with
  | text t => exact Xml.isChar_of_mem_safe h
  | raw v => cases h
  | unformed => cases h

/-- A text that is a name can be told from its characters. -/
private theorem eq_of_toChars_eq {s t : Text} (hs : (Xml.name? s).isSome = true)
    (ht : (Xml.name? t).isSome = true) (h : s.toChars = t.toChars) : s = t := by
  rw [← (isName_of_isSome hs).1, ← (isName_of_isSome ht).1, h]

private theorem nodup_toChars {as : List (Text × Label)} (hn : ∀ a ∈ as, (Xml.name? a.1).isSome = true)
    (hd : (as.map Prod.fst).Nodup) : ((as.map attributeSeen).map Prod.fst).Nodup := by
  induction as with
  | nil => simp
  | cons a as ih =>
    simp only [List.map_cons, List.nodup_cons] at hd ⊢
    refine ⟨fun hm => hd.1 ?_, ih (fun b hb => hn b (by simp [hb])) hd.2⟩
    simp only [List.mem_map] at hm
    obtain ⟨_, ⟨b, hb, rfl⟩, he⟩ := hm
    have hab : b.1 = a.1 := eq_of_toChars_eq (hn b (by simp [hb])) (hn a (by simp)) he
    exact hab ▸ List.mem_map_of_mem hb

/-- The names in front are those of declarations, which no plain element has among its own. -/
private theorem isLegal_seen {e : Element} (h : e.IsPlain) {declarations : List (List Char × List Char)}
    (hd : declarations = [] ∨ declarations = Envelope.schemaDeclarations) :
    Markup.IsLegal e.tag.toChars (declarations ++ e.attributes.map attributeSeen) := by
  have hattr : ∀ a ∈ e.attributes.map attributeSeen,
      Xml.isQualifiedName a.1 = true ∧ (∀ c ∈ a.2, Xml.isChar c = true) ∧ a.1 ≠ "xmlns".toList := by
    intro a ha
    obtain ⟨b, hb, rfl⟩ := List.mem_map.1 ha
    have hn := isName_of_isSome (h.name_ok b hb)
    refine ⟨Xml.isQualifiedName_of_isName hn.2, fun c hc => isChar_of_mem_valueSeen hc, fun he => ?_⟩
    exact h.name_ne b hb (by rw [← hn.1, show b.1.toChars = _ from he]; rfl)
  have hdecl : ∀ a ∈ declarations,
      Xml.isQualifiedName a.1 = true ∧ (∀ c ∈ a.2, Xml.isChar c = true) ∧ a.1 = "xmlns".toList := by
    rcases hd with rfl | rfl
    · simp
    · simp only [Envelope.schemaDeclarations, List.mem_singleton]
      rintro a rfl
      exact ⟨by decide, List.all_eq_true.1 (by decide), rfl⟩
  refine ⟨Xml.isQualifiedName_of_isName (isName_of_isSome h.tag_ok).2, ?_, ?_, ?_⟩
  · intro a ha
    rcases List.mem_append.1 ha with ha | ha
    · exact (hdecl a ha).1
    · exact (hattr a ha).1
  · intro a ha
    rcases List.mem_append.1 ha with ha | ha
    · exact (hdecl a ha).2.1
    · exact (hattr a ha).2.1
  · rw [List.map_append, List.nodup_append]
    refine ⟨by rcases hd with rfl | rfl <;> decide, nodup_toChars h.name_ok h.distinct, ?_⟩
    intro n hn m hm
    obtain ⟨a, ha, rfl⟩ := List.mem_map.1 hn
    obtain ⟨b, hb, rfl⟩ := List.mem_map.1 hm
    rw [(hdecl a ha).2.2]
    exact Ne.symm (hattr b hb).2.2

mutual

/-- What a tree of plain elements gives is legal. -/
theorem all_isLegal_seen {declarations : List (List Char × List Char)}
    (hd : declarations = [] ∨ declarations = Envelope.schemaDeclarations) :
    ∀ e : Element, (∀ d ∈ e.descendants, d.IsPlain) → (seen declarations e).All Markup.IsLegal
  | node tag attributes children, h => by
    rw [descendants] at h
    have hp : IsPlain (node tag attributes children) := h _ (by simp)
    rw [seen, Markup.All]
    exact ⟨isLegal_seen hp hd, allList_isLegal_seen children fun d hd => h d (by simp [hd])⟩

theorem allList_isLegal_seen :
    ∀ es : List Element, (∀ d ∈ descendantsOf es, d.IsPlain) → Markup.AllList Markup.IsLegal (seenList es)
  | [], _ => trivial
  | e :: es, h => by
    rw [descendantsOf] at h
    rw [seenList, Markup.AllList]
    exact ⟨all_isLegal_seen (Or.inl rfl) e fun d hd => h d (by simp [hd]),
      allList_isLegal_seen es fun d hd => h d (by simp [hd])⟩

end

end Element

/-! ### Documents -/

namespace Envelope

/-- The envelope around the trees that stand for schemas. -/
def seen (schemas : List Element) : Markup := wrap (schemas.map (Element.seen schemaDeclarations))

/-- The declaration of a document without its brackets. -/
def declarationTag : List Char := "?xml version=\"1.0\" encoding=\"utf-8\"?".toList

theorem tree_eq_seen {schemas : List Element} (h : ∀ e ∈ Element.descendantsOf schemas, e.IsPlain) :
    tree schemas = .ok (seen schemas) := by
  have hm : schemas.mapM (Element.toMarkupWith schemaDeclarations)
      = .ok (schemas.map (Element.seen schemaDeclarations)) := by
    induction schemas with
    | nil => rfl
    | cons e es ih =>
      rw [Element.descendantsOf] at h
      rw [List.mapM_cons, Element.toMarkupWith_eq_seen _ e fun d hd => h d (by simp [hd]),
        ih fun d hd => h d (by simp [hd])]
      rfl
  rw [tree, hm]
  rfl

theorem all_isLegal_seen {schemas : List Element} (h : ∀ e ∈ Element.descendantsOf schemas, e.IsPlain) :
    (seen schemas).All Markup.IsLegal := by
  have hs : Markup.AllList Markup.IsLegal (schemas.map (Element.seen schemaDeclarations)) := by
    rw [Markup.allList_iff]
    intro m hm
    obtain ⟨e, he, rfl⟩ := List.mem_map.1 hm
    refine Element.all_isLegal_seen (Or.inr rfl) e fun d hd => h d ?_
    rw [Element.descendantsOf_eq]
    exact List.mem_flatMap.2 ⟨e, he, hd⟩
  refine ⟨⟨by decide, ?_, ?_, by decide⟩, ⟨⟨by decide, by simp, by simp, by simp⟩, hs⟩, trivial⟩
  · simp only [List.mem_cons, List.not_mem_nil, or_false]
    rintro a (rfl | rfl | rfl) <;> decide
  · simp only [List.mem_cons, List.not_mem_nil, or_false]
    rintro a (rfl | rfl | rfl) <;> exact List.all_eq_true.1 (by decide)

/-- A document is its declaration followed by the tags of its tree. -/
theorem markup_eq_bracketed {schemas : List Element} (h : ∀ e ∈ Element.descendantsOf schemas, e.IsPlain) :
    markup schemas = .ok (Markup.bracketed (declarationTag :: (seen schemas).tags)) := by
  rw [markup, tree_eq_seen h]
  show Except.ok _ = Except.ok _
  rw [Markup.compact_eq]
  rfl

theorem not_mem_tags {schemas : List Element} (h : ∀ e ∈ Element.descendantsOf schemas, e.IsPlain) :
    ∀ t ∈ declarationTag :: (seen schemas).tags, '>' ∉ t := by
  intro t ht
  rcases List.mem_cons.1 ht with rfl | ht
  · decide
  · exact Markup.not_mem_tags _ (all_isLegal_seen h) t ht

/-- The lines of a document are its declaration and the tags of its tree. -/
theorem text_eq_lines (indent newline : List Char) {schemas : List Element}
    (h : ∀ e ∈ Element.descendantsOf schemas, e.IsPlain) :
    text indent newline schemas
      = .ok (newline.intercalate (Layout.lines indent 0 (declarationTag :: (seen schemas).tags))) := by
  rw [text, markup_eq_bracketed h]
  show Except.ok _ = Except.ok _
  rw [Layout.format_bracketed indent newline (by simp) (not_mem_tags h)]

/-- Schemas with values that end like a single tag, hold brackets and marks, and hold what a document cannot; with
names of one letter; and with an element without children next to one that has some. -/
def awkward : List Element :=
  [.node "Schema" [("Namespace", .text "Zoo/")]
    [.node "T" [("Name", .text "/><a b=\"&\"/>\n"), ("OpenType", .text [.surrogate (Fin.last 0x7FF), Char.ofNat 1])]
        [.node "U" [] [], .node "V" [] []],
      .node "T" [] []]]

end Envelope

end Edm
