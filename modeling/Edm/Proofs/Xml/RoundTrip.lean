import Mathlib.Data.List.Forall2
import Mathlib.Data.List.TakeWhile
import Edm.Proofs.Xml.Plain
import Edm.Proofs.Xml.Reader

/-!
# Written documents can be read

Each tag of a legal tree is read as what it was written from (`Xml.Reader.Reads`), whatever its values hold, and
white space between tags makes no difference (`Xml.Reader.events_lines`).  So reading a document gives the
envelope around the trees that stand for its schemas, for every indentation and line end that consist of white
space (`Envelope.read?_text`).
-/

namespace Edm

namespace Xml

namespace Reader

/-! ### Values -/

private theorem value?_escape {c : Char} (hc : isChar c = true) (rest : List Char) :
    value? none (Markup.escape c ++ rest) = (value? none rest).map (c :: ·) := by
  unfold Markup.escape
  split
  -- the references are read character by character
  case h_8 _ hamp hlt hgt hquot htab hlf hcr =>
    have hs : (if isSpace c then ' ' else c) = c := by
      by_cases h : c = ' '
      · simp [h]
      · simp_all [isSpace]
    rw [List.cons_append, List.nil_append, value?, if_neg hamp, if_neg (by simpa [hc] using hlt), hs]
  all_goals simp [value?, reference?, natural?, digit?, character?, isChar, charRanges, Ranges.holds]

/-- A value is read back from what is written between the marks. -/
theorem value?_flatMap_escape {v : List Char} (h : ∀ c ∈ v, isChar c = true) :
    value? none (v.flatMap Markup.escape) = some v := by
  induction v with
  | nil => rfl
  | cons c v ih =>
    rw [List.flatMap_cons, value?_escape (h c (by simp)), ih fun d hd => h d (by simp [hd])]
    rfl

/-! ### Tags -/

private theorem takeWhile_append_cons {p : Char → Bool} {cs : List Char} (h : ∀ c ∈ cs, p c = true) {d : Char}
    (hd : p d = false) (rest : List Char) : (cs ++ d :: rest).takeWhile p = cs := by
  rw [List.takeWhile_append_of_pos h, List.takeWhile_cons_of_neg (by simp [hd]), List.append_nil]

private theorem dropWhile_append_cons {p : Char → Bool} {cs : List Char} (h : ∀ c ∈ cs, p c = true) {d : Char}
    (hd : p d = false) (rest : List Char) : (cs ++ d :: rest).dropWhile p = d :: rest := by
  rw [List.dropWhile_append_of_pos h, List.dropWhile_cons_of_neg (by simp [hd])]

/-- A name ends at the first character that names do not hold. -/
theorem name?_append {name : List Char} (h : isQualifiedName name = true) {d : Char}
    (hd : isQualifiedChar d = false) (rest : List Char) :
    name? (name ++ d :: rest) = some (name, d :: rest) := by
  have hc : ∀ c ∈ name, isQualifiedChar c = true := fun c hc => isQualifiedChar_of_mem h hc
  unfold name?
  rw [takeWhile_append_cons hc hd, dropWhile_append_cons hc hd]
  simp [h]

private theorem quoted?_escape {v : List Char} (h : ∀ c ∈ v, isChar c = true) (rest : List Char) :
    quoted? ('"' :: (v.flatMap Markup.escape ++ '"' :: rest)) = some (v, rest) := by
  have hq : ∀ c ∈ v.flatMap Markup.escape, (c != '"') = true := by
    intro c hc
    have := (Markup.not_mem_flatMap_escape v).2.2
    simp only [bne_iff_ne]
    rintro rfl
    exact this hc
  rw [quoted?, if_pos (Or.inl rfl), dropWhile_append_cons hq (by decide), takeWhile_append_cons hq (by decide)]
  simp only [value?_flatMap_escape h, Option.map_some]

/-- An attribute is read back from what is written. -/
theorem attribute?_attributeText {a : List Char × List Char} (hn : isQualifiedName a.1 = true)
    (hv : ∀ c ∈ a.2, isChar c = true) (rest : List Char) :
    attribute? (Markup.attributeText a ++ rest) = some (a, rest) := by
  have he : Markup.attributeText a ++ rest
      = [' '] ++ (a.1 ++ '=' :: '"' :: (a.2.flatMap Markup.escape ++ '"' :: rest)) := by
    simp [Markup.attributeText]
  obtain ⟨c, cs, hcs⟩ := List.exists_cons_of_ne_nil (ne_nil_of_isQualifiedName hn)
  have hc : isSpace c = false := by
    have hq := isQualifiedChar_of_mem hn (c := c) (by simp [hcs])
    cases hs : isSpace c with
    | false => rfl
    | true =>
      simp only [isSpace, Bool.or_eq_true, beq_iff_eq] at hs
      rcases hs with ((rfl | rfl) | rfl) | rfl <;> exact absurd hq (by decide)
  have hsp : ∀ d ∈ [' '], isSpace d = true := List.all_eq_true.1 (by decide)
  have hcons : ∀ more : List Char, a.1 ++ more = c :: (cs ++ more) := by simp [hcs]
  rw [he, attribute?, hcons, takeWhile_append_cons hsp hc, dropWhile_append_cons hsp hc, ← hcons,
    name?_append hn (by decide)]
  show Option.map _ (quoted? (List.dropWhile isSpace ('"' :: _))) = some (a, rest)
  rw [List.dropWhile_cons_of_neg (by decide), quoted?_escape hv]
  rfl

/-- The attributes of a tag are read back, up to a character that is no white space. -/
theorem attributes_flatMap {as : List (List Char × List Char)}
    (hn : ∀ a ∈ as, isQualifiedName a.1 = true) (hv : ∀ a ∈ as, ∀ c ∈ a.2, isChar c = true) {d : Char}
    (hd : isSpace d = false) (rest : List Char) :
    attributes (as.flatMap Markup.attributeText ++ d :: rest) = (as, d :: rest) := by
  induction as with
  | nil =>
    have hnone : attribute? (d :: rest) = none := by
      rw [attribute?, List.takeWhile_cons_of_neg (by simp [hd])]
      rfl
    rw [List.flatMap_nil, List.nil_append, attributes, hnone]
  | cons a as ih =>
    -- reading goes on only if something was read, so that it comes to an end
    have hlt : (as.flatMap Markup.attributeText ++ d :: rest).length
        < (Markup.attributeText a ++ (as.flatMap Markup.attributeText ++ d :: rest)).length := by
      have hpos : 0 < (Markup.attributeText a).length := by simp [Markup.attributeText]
      generalize as.flatMap Markup.attributeText ++ d :: rest = more
      rw [List.length_append]
      omega
    rw [List.flatMap_cons, List.append_assoc, attributes,
      attribute?_attributeText (hn a (by simp)) (hv a (by simp))]
    dsimp only
    rw [dif_pos hlt, ih (fun b hb => hn b (by simp [hb])) fun b hb => hv b (by simp [hb])]

/-- What a tag is read as, whatever follows it. -/
def Reads (tag : List Char) (event : Event) : Prop := ∀ rest, tag? (tag ++ '>' :: rest) = some (event, rest)

private theorem ne_slash_of_start {name : List Char} (h : isQualifiedName name = true) :
    ∃ c cs, name = c :: cs ∧ c ≠ '/' := by
  obtain ⟨c, cs, rfl⟩ := List.exists_cons_of_ne_nil (ne_nil_of_isQualifiedName h)
  refine ⟨c, cs, rfl, ?_⟩
  rintro rfl
  exact absurd (isQualifiedChar_of_mem h (c := '/') (by simp)) (by decide)

/-- What an opening or a single tag starts with: its name and its attributes, up to a character that is neither
white space nor part of a name. -/
private theorem tag?_head {name : List Char} {as : List (List Char × List Char)} (h : Markup.IsLegal name as)
    {d : Char} (hd : isSpace d = false) (hq : isQualifiedChar d = false) (rest : List Char) :
    tag? (Markup.head name as ++ d :: rest) = ending? name as (d :: rest) := by
  obtain ⟨c, cs, hcs, hc⟩ := ne_slash_of_start h.name_ok
  have hname : name? (Markup.head name as ++ d :: rest)
      = some (name, as.flatMap Markup.attributeText ++ d :: rest) := by
    rw [Markup.head, List.append_assoc]
    cases as with
    | nil => exact name?_append h.name_ok hq rest
    | cons a as => exact name?_append h.name_ok (by decide) _
  unfold tag?
  split
  · rename_i he
    rw [Markup.head, hcs, List.cons_append, List.cons_append] at he
    exact absurd (List.cons_eq_cons.1 he).1 hc
  · rw [hname, Option.bind_some]
    dsimp only
    rw [attributes_flatMap h.attribute_ok h.value_ok hd]
    dsimp only
    rw [if_pos h.distinct, List.dropWhile_cons_of_neg (by simp [hd])]

theorem reads_opening {name : List Char} {as : List (List Char × List Char)} (h : Markup.IsLegal name as) :
    Reads (Markup.head name as) (.opening name as) :=
  fun rest => tag?_head h (by decide) (by decide) rest

theorem reads_single {name : List Char} {as : List (List Char × List Char)} (h : Markup.IsLegal name as) :
    Reads (Markup.head name as ++ ['/']) (.single name as) := by
  intro rest
  rw [List.append_assoc]
  exact tag?_head h (by decide) (by decide) _

theorem reads_closing {name : List Char} (h : isQualifiedName name = true) :
    Reads ('/' :: name) (.closing name) := by
  intro rest
  show (name? (name ++ '>' :: rest)).bind _ = _
  rw [name?_append h (by decide)]
  rfl

/-! ### Texts -/

/-- White space in front of a tag makes no difference. -/
theorem events_tag {pad tag : List Char} {event : Event} (hpad : ∀ c ∈ pad, isSpace c = true)
    (h : Reads tag event) (rest : List Char) :
    events (pad ++ '<' :: (tag ++ '>' :: rest)) = (events rest).map (event :: ·) := by
  have hlt : rest.length < (pad ++ '<' :: (tag ++ '>' :: rest)).length := by
    simp only [List.length_append, List.length_cons]
    omega
  rw [events, dropWhile_append_cons hpad (by decide)]
  simp only [h rest]
  exact dif_pos hlt

private theorem mem_replicate_flatten {indent : List Char} {depth : Nat} {c : Char}
    (h : c ∈ (List.replicate depth indent).flatten) : c ∈ indent := by
  obtain ⟨l, hl, hc⟩ := List.mem_flatten.1 h
  rwa [(List.mem_replicate.1 hl).2] at hc

/-- The lines of tags are read as these tags, at whatever depth they stand. -/
theorem events_lines {indent newline : List Char} (hi : ∀ c ∈ indent, isSpace c = true)
    (hn : ∀ c ∈ newline, isSpace c = true) {tags : List (List Char)} {es : List Event}
    (h : List.Forall₂ Reads tags es) (pad : List Char) (hpad : ∀ c ∈ pad, isSpace c = true) (depth : Nat) :
    events (pad ++ newline.intercalate (Layout.lines indent depth tags)) = some es := by
  -- the depth changes from tag to tag; the white space in front is the line end after the tag before
  induction h generalizing pad depth with
  | nil =>
    have hd : pad.dropWhile isSpace = [] := List.dropWhile_eq_nil_iff.2 hpad
    rw [Layout.lines, List.intercalate_nil, List.append_nil, events, hd]
  | @cons tag event tags es ht _ ih =>
    rw [Layout.lines]
    generalize (if Layout.isClosing tag then depth - 1 else depth) = here
    generalize (if Layout.isOpening tag then here + 1 else here) = next
    have hp : ∀ c ∈ pad ++ (List.replicate here indent).flatten, isSpace c = true := by
      intro c hc
      rcases List.mem_append.1 hc with hc | hc
      · exact hpad c hc
      · exact hi c (mem_replicate_flatten hc)
    have hlast := ih newline hn next
    have hnil := ih [] (by simp) next
    cases hl : Layout.lines indent next tags with
    | nil =>
      rw [hl] at hnil
      have := events_tag hp ht []
      simp_all
    | cons l ls =>
      rw [hl] at hlast
      have := events_tag hp ht (newline ++ newline.intercalate (l :: ls))
      rw [hlast] at this
      simpa [List.intercalate_cons_cons] using this

end Reader

end Xml

/-! ### Trees -/

namespace Markup

mutual

/-- The tags of a tree as they are read. -/
def events : Markup → List Xml.Event
  | node name attributes [] => [.single name attributes]
  | node name attributes (c :: cs) => .opening name attributes :: (eventsList (c :: cs) ++ [.closing name])

/-- The tags of trees as they are read. -/
def eventsList : List Markup → List Xml.Event
  | [] => []
  | m :: ms => events m ++ eventsList ms

end

/-- Each tag of a legal tree is read as what it was written from. -/
theorem reads_tags (m : Markup) (h : m.All IsLegal) : List.Forall₂ Xml.Reader.Reads (tags m) (events m) := by
  induction m using induction with
  | node name attributes children ih =>
    have hlist : ∀ ms : List Markup, (∀ c ∈ ms, c ∈ children) → AllList IsLegal ms →
        List.Forall₂ Xml.Reader.Reads (tagsList ms) (eventsList ms) := by
      intro ms hms hl
      induction ms with
      | nil => exact .nil
      | cons m ms ihm =>
        exact List.rel_append (ih m (hms m (by simp)) hl.1) (ihm (fun c hc => hms c (by simp [hc])) hl.2)
    obtain ⟨hl, hc⟩ := h
    cases children with
    | nil => exact .cons (Xml.Reader.reads_single hl) .nil
    | cons c cs =>
      refine .cons (Xml.Reader.reads_opening hl) (List.rel_append (hlist _ (fun _ hc => hc) hc) ?_)
      exact .cons (Xml.Reader.reads_closing hl.name_ok) .nil

/-- The tags of a tree make up this tree, whatever is open and whatever follows. -/
theorem grow_events (m : Markup) (opened : List Xml.Reader.Frame) (before : List Markup)
    (rest : List Xml.Event) :
    Xml.Reader.grow opened before (events m ++ rest) = Xml.Reader.grow opened (before ++ [m]) rest := by
  induction m using induction generalizing opened before rest with
  | node name attributes children ih =>
    -- the closing tag of a node finds the children of this node in order, on top of what was open
    have hlist : ∀ ms : List Markup, (∀ c ∈ ms, c ∈ children) → ∀ opened before rest,
        Xml.Reader.grow opened before (eventsList ms ++ rest) = Xml.Reader.grow opened (before ++ ms) rest := by
      intro ms hms opened before rest
      induction ms generalizing before with
      | nil => simp [eventsList]
      | cons m ms ihm =>
        rw [eventsList, List.append_assoc, ih m (hms m (by simp)), ihm fun c hc => hms c (by simp [hc])]
        simp
    cases children with
    | nil =>
      cases opened with
      | nil => rfl
      | cons f fs => rfl
    | cons c cs =>
      have hopen : ∀ es, Xml.Reader.grow opened before (.opening name attributes :: es)
          = Xml.Reader.grow ((name, attributes, before) :: opened) [] es := by
        intro es
        cases opened with
        | nil => rfl
        | cons f fs => rfl
      rw [events, List.cons_append, hopen, List.append_assoc, hlist _ fun _ hc => hc]
      simp [Xml.Reader.grow]

end Markup

/-! ### Documents -/

namespace Element

/-- The attributes of a plain element declare nothing: their names hold no colon. -/
private theorem isDeclaration_attributeSeen {a : Text × Label} (hn : (Xml.name? a.1).isSome = true)
    (hne : a.1 ≠ "xmlns") : Markup.isDeclaration (attributeSeen a) = false := by
  obtain ⟨hchars, hname⟩ := isName_of_isSome hn
  have hcolon : ':' ∉ a.1.toChars := by
    intro hm
    cases hcs : a.1.toChars with
    | nil => simp [hcs] at hm
    | cons c cs =>
      rw [hcs] at hm hname
      simp only [Xml.isName, Bool.and_eq_true, List.all_eq_true] at hname
      rcases List.mem_cons.1 hm with rfl | hm
      · exact absurd hname.1 (by decide)
      · exact absurd (hname.2 _ hm) (by decide)
  have hxmlns : a.1.toChars ≠ "xmlns".toList := by
    intro he
    rw [he] at hchars
    exact hne hchars.symm
  simp only [Markup.isDeclaration, attributeSeen, Bool.or_eq_false_iff, beq_eq_false_iff_ne]
  refine ⟨hxmlns, ?_⟩
  rw [Bool.eq_false_iff]
  intro hpre
  exact hcolon ((List.isPrefixOf_iff_prefix.1 hpre).subset (by decide))

mutual

/-- A reader that takes declarations of vocabularies for what they are sees a plain element as it is. -/
private theorem undeclared_seen {declarations : List (List Char × List Char)}
    (hd : ∀ a ∈ declarations, Markup.isDeclaration a = true) :
    ∀ e : Element, (∀ d ∈ e.descendants, d.IsPlain) → (seen declarations e).undeclared = seen [] e
  | node tag attributes children, h => by
    rw [descendants] at h
    have hp : IsPlain (node tag attributes children) := h _ (by simp)
    -- the declarations come first, and none of the attributes after them looks like one
    have hnone : declarations.filter (fun a => !Markup.isDeclaration a) = [] := by
      rw [List.filter_eq_nil_iff]
      intro a ha
      simp [hd a ha]
    have hall : (attributes.map attributeSeen).filter (fun a => !Markup.isDeclaration a)
        = attributes.map attributeSeen := by
      rw [List.filter_eq_self]
      intro a ha
      obtain ⟨b, hb, rfl⟩ := List.mem_map.1 ha
      simp [isDeclaration_attributeSeen (hp.name_ok b hb) (hp.name_ne b hb)]
    rw [seen, Markup.undeclared, List.filter_append, hnone, hall,
      undeclaredList_seenList children fun d hd => h d (by simp [hd]), seen]

private theorem undeclaredList_seenList :
    ∀ es : List Element, (∀ d ∈ descendantsOf es, d.IsPlain) →
      Markup.undeclaredList (seenList es) = seenList es
  | [], _ => rfl
  | e :: es, h => by
    rw [descendantsOf] at h
    rw [seenList, Markup.undeclaredList, undeclared_seen (by simp) e fun d hd => h d (by simp [hd]),
      undeclaredList_seenList es fun d hd => h d (by simp [hd])]

end

end Element

namespace Envelope

private theorem undeclared_seen {schemas : List Element}
    (h : ∀ e ∈ Element.descendantsOf schemas, e.IsPlain) :
    (seen schemas).undeclared
      = .node "edmx:Edmx".toList [("Version".toList, "4.0".toList)]
          [.node "edmx:DataServices".toList [] (schemas.map (Element.seen []))] := by
  have hs : Markup.undeclaredList (schemas.map (Element.seen schemaDeclarations))
      = schemas.map (Element.seen []) := by
    induction schemas with
    | nil => rfl
    | cons e es ih =>
      rw [Element.descendantsOf] at h
      rw [List.map_cons, Markup.undeclaredList, ih fun d hd => h d (by simp [hd]),
        Element.undeclared_seen (by decide) e fun d hd => h d (by simp [hd]), List.map_cons]
  simp only [seen, wrap, Markup.undeclared, Markup.undeclaredList, hs]
  rfl

/-- The declaration of a document is read past. -/
private theorem body?_declaration (rest : List Char) : Xml.Reader.body? (declaration ++ rest) = some rest := by
  have he : declaration ++ rest = '<' :: '?' :: 'x' :: 'm' :: 'l' ::
      ([("version".toList, "1.0".toList), ("encoding".toList, "utf-8".toList)].flatMap Markup.attributeText
        ++ '?' :: '>' :: rest) := rfl
  have hvalues : ∀ a ∈ [("version".toList, "1.0".toList), ("encoding".toList, "utf-8".toList)],
      ∀ c ∈ a.2, Xml.isChar c = true := by
    simp only [List.mem_cons, List.not_mem_nil, or_false]
    rintro a (rfl | rfl) <;> exact List.all_eq_true.1 (by decide)
  rw [he, Xml.Reader.body?, Xml.Reader.attributes_flatMap (by decide) hvalues (by decide)]
  rfl

/-- Reading a document gives the envelope around the trees that stand for its schemas.  Without the declarations
of vocabularies these are the schemas themselves: the same tags, the same attributes in the same order, the same
children in the same order, and each value as it is but for what a document cannot hold. -/
theorem read?_text (indent newline : List Char) (schemas : List Element)
    (hi : ∀ c ∈ indent, Xml.isSpace c = true) (hn : ∀ c ∈ newline, Xml.isSpace c = true)
    (hp : ∀ e ∈ Element.descendantsOf schemas, e.IsPlain) :
    ∃ cs, text indent newline schemas = .ok cs ∧ Xml.read? cs = some (seen schemas) ∧
      (seen schemas).undeclared
        = .node "edmx:Edmx".toList [("Version".toList, "4.0".toList)]
            [.node "edmx:DataServices".toList [] (schemas.map (Element.seen []))] := by
  refine ⟨_, text_eq_lines indent newline hp, ?_, undeclared_seen hp⟩
  have hlines : Layout.lines indent 0 (declarationTag :: (seen schemas).tags)
      = declaration :: Layout.lines indent 0 (seen schemas).tags := rfl
  have hreads := Markup.reads_tags (seen schemas) (all_isLegal_seen hp)
  have hevents : Xml.Reader.events (newline ++ newline.intercalate (Layout.lines indent 0 (seen schemas).tags))
      = some (seen schemas).events := Xml.Reader.events_lines hi hn hreads newline hn 0
  have hgrow := Markup.grow_events (seen schemas) [] [] []
  rw [List.append_nil] at hgrow
  obtain ⟨t, ts, hts⟩ : ∃ t ts, (seen schemas).tags = t :: ts := by
    cases schemas <;> exact ⟨_, _, rfl⟩
  rw [hts, Layout.lines] at hevents
  rw [hlines, hts, Layout.lines, List.intercalate_cons_cons, List.append_assoc, Xml.read?, body?_declaration,
    Option.bind_some, hevents, Option.bind_some, hgrow]
  rfl

theorem read?_text_awkward :
    (∀ c ∈ ['\t', ' '], Xml.isSpace c = true) ∧ (∀ c ∈ ['\r', '\n'], Xml.isSpace c = true) ∧
      (∀ e ∈ Element.descendantsOf awkward, e.IsPlain) ∧
      ∃ cs, text ['\t', ' '] ['\r', '\n'] awkward = .ok cs ∧ Xml.read? cs = some (seen awkward) ∧
        (seen awkward).undeclared
          = .node "edmx:Edmx".toList [("Version".toList, "4.0".toList)]
              [.node "edmx:DataServices".toList [] (awkward.map (Element.seen []))] := by
  have hi : ∀ c ∈ ['\t', ' '], Xml.isSpace c = true := List.all_eq_true.1 (by decide)
  have hn : ∀ c ∈ ['\r', '\n'], Xml.isSpace c = true := List.all_eq_true.1 (by decide)
  have hp : ∀ e ∈ Element.descendantsOf awkward, e.IsPlain := by decide
  exact ⟨hi, hn, hp, read?_text ['\t', ' '] ['\r', '\n'] awkward hi hn hp⟩

end Envelope

end Edm
