import Edm.Xml.Envelope

/-!
# The tags of a document

The compact form of a tree is its tags in order (`Markup.compact_eq`), and cutting it where tags meet gives
back exactly these (`Layout.fragments_bracketed`): no name and no written value holds a closing bracket.
So a text that consists of tags is laid out tag by tag (`Layout.format_bracketed`).
-/

namespace Edm

namespace Xml

/-- The white space of XML. -/
def isSpace (c : Char) : Bool := c == ' ' || c == '\t' || c == '\n' || c == '\r'

/-- Whether a qualified name may start with a character. -/
def isQualifiedStart (c : Char) : Bool := isNameStart c || c == ':'

/-- Whether a qualified name may hold a character. -/
def isQualifiedChar (c : Char) : Bool := isNameChar c || c == ':'

/-- Whether characters are a name, perhaps with colons in it. -/
def isQualifiedName : List Char → Bool
  | [] => false
  | c :: cs => isQualifiedStart c && cs.all isQualifiedChar

theorem isQualifiedChar_of_start {c : Char} (h : isQualifiedStart c = true) : isQualifiedChar c = true := by
  simp only [isQualifiedStart, Bool.or_eq_true] at h
  simp only [isQualifiedChar, isNameChar, Bool.or_eq_true]
  rcases h with h | h
  · exact Or.inl (Or.inl h)
  · exact Or.inr h

theorem isQualifiedName_of_isName {cs : List Char} (h : isName cs = true) : isQualifiedName cs = true := by
  cases cs with
  | nil => exact h
  | cons c cs =>
    simp only [isName, Bool.and_eq_true, List.all_eq_true] at h
    simp only [isQualifiedName, isQualifiedStart, Bool.and_eq_true, Bool.or_eq_true, List.all_eq_true]
    refine ⟨Or.inl h.1, fun d hd => ?_⟩
    simp [isQualifiedChar, h.2 d hd]

theorem ne_nil_of_isQualifiedName {cs : List Char} (h : isQualifiedName cs = true) : cs ≠ [] := by
  rintro rfl
  exact absurd h (by decide)

theorem isQualifiedChar_of_mem {cs : List Char} (h : isQualifiedName cs = true) {c : Char} (hc : c ∈ cs) :
    isQualifiedChar c = true := by
  cases cs with
  | nil => cases hc
  | cons d ds =>
    simp only [isQualifiedName, Bool.and_eq_true, List.all_eq_true] at h
    rcases List.mem_cons.1 hc with rfl | hc
    · exact isQualifiedChar_of_start h.1
    · exact h.2 c hc

/-- A character that names do not hold is not in a name. -/
theorem not_mem_of_isQualifiedName {cs : List Char} (h : isQualifiedName cs = true) {c : Char}
    (hc : isQualifiedChar c = false) : c ∉ cs := by
  intro hm
  rw [isQualifiedChar_of_mem h hm] at hc
  cases hc

end Xml

namespace Markup

/-! ### Trees -/

/-- What holds of a tree if it holds of each node whose children have it. -/
theorem induction {P : Markup → Prop}
    (node : ∀ name attributes children, (∀ c ∈ children, P c) → P (node name attributes children)) :
    ∀ m, P m
  | .node name attributes children => node name attributes children fun c _ => induction node c

mutual

/-- Whether the name and the attributes of each node of a tree have a property. -/
def All (P : List Char → List (List Char × List Char) → Prop) : Markup → Prop
  | node name attributes children => P name attributes ∧ AllList P children

/-- Whether the name and the attributes of each node of the trees in a list have a property. -/
def AllList (P : List Char → List (List Char × List Char) → Prop) : List Markup → Prop
  | [] => True
  | m :: ms => All P m ∧ AllList P ms

end

theorem allList_iff {P : List Char → List (List Char × List Char) → Prop} {ms : List Markup} :
    AllList P ms ↔ ∀ m ∈ ms, All P m := by
  induction ms with
  | nil => simp [AllList]
  | cons m ms ih => simp [AllList, ih]

mutual

/-- The tags of a tree in order, without their brackets. -/
def tags : Markup → List (List Char)
  | node name attributes [] => [head name attributes ++ ['/']]
  | node name attributes (c :: cs) => head name attributes :: (tagsList (c :: cs) ++ ['/' :: name])

/-- The tags of trees, one after the other. -/
def tagsList : List Markup → List (List Char)
  | [] => []
  | m :: ms => tags m ++ tagsList ms

end

/-- Tags with their brackets, one after the other. -/
def bracketed (ts : List (List Char)) : List Char := ts.flatMap fun t => '<' :: t ++ ['>']

theorem bracketed_append (ts us : List (List Char)) : bracketed (ts ++ us) = bracketed ts ++ bracketed us := by
  simp [bracketed]

/-- The compact form of a tree is its tags in order. -/
theorem compact_eq (m : Markup) : compact m = bracketed (tags m) := by
  induction m using induction with
  | node name attributes children ih =>
    have hlist : ∀ ms : List Markup, (∀ c ∈ ms, compact c = bracketed (tags c)) →
        compactList ms = bracketed (tagsList ms) := by
      intro ms h
      induction ms with
      | nil => rfl
      | cons m ms ihm =>
        rw [compactList, tagsList, bracketed_append, h m (by simp), ihm fun c hc => h c (by simp [hc])]
    cases children with
    | nil => simp [compact, tags, bracketed]
    | cons c cs =>
      rw [compact, tags, hlist _ ih]
      simp [bracketed]

/-! ### Legal trees -/

/-- What a document can hold of a node: its names are names and each attribute has a name of its own; its
values consist of characters that a document can hold. -/
structure IsLegal (name : List Char) (attributes : List (List Char × List Char)) : Prop where
  name_ok : Xml.isQualifiedName name = true
  attribute_ok : ∀ a ∈ attributes, Xml.isQualifiedName a.1 = true
  value_ok : ∀ a ∈ attributes, ∀ c ∈ a.2, Xml.isChar c = true
  distinct : (attributes.map Prod.fst).Nodup

theorem not_mem_escape (c : Char) : '<' ∉ escape c ∧ '>' ∉ escape c ∧ '"' ∉ escape c := by
  unfold escape
  split <;> simp_all [eq_comm]

/-- No character that ends a tag or a value is written inside a value. -/
theorem not_mem_flatMap_escape (v : List Char) :
    '<' ∉ v.flatMap escape ∧ '>' ∉ v.flatMap escape ∧ '"' ∉ v.flatMap escape := by
  simp only [List.mem_flatMap, not_exists, not_and]
  exact ⟨fun c _ => (not_mem_escape c).1, fun c _ => (not_mem_escape c).2.1, fun c _ => (not_mem_escape c).2.2⟩

theorem not_mem_attributeText {a : List Char × List Char} (h : Xml.isQualifiedName a.1 = true) :
    '>' ∉ attributeText a := by
  have hn := Xml.not_mem_of_isQualifiedName h (c := '>') (by decide)
  have hv := (not_mem_flatMap_escape a.2).2.1
  simp [attributeText, hn, hv]

/-- The only closing bracket of a tag is the one that ends it. -/
theorem not_mem_head {name : List Char} {attributes : List (List Char × List Char)}
    (h : IsLegal name attributes) : '>' ∉ head name attributes := by
  have hn := Xml.not_mem_of_isQualifiedName h.name_ok (c := '>') (by decide)
  simp only [head, List.mem_append, List.mem_flatMap, not_or, not_exists, not_and]
  exact ⟨hn, fun a ha => not_mem_attributeText (h.attribute_ok a ha)⟩

/-- What holds of the opening, the single and the closing tags of legal nodes holds of all tags of a legal tree. -/
theorem forall_tags {P : List Char → Prop}
    (hopening : ∀ {name attributes}, IsLegal name attributes → P (head name attributes))
    (hsingle : ∀ {name attributes}, IsLegal name attributes → P (head name attributes ++ ['/']))
    (hclosing : ∀ {name attributes}, IsLegal name attributes → P ('/' :: name)) (m : Markup) (h : m.All IsLegal) :
    ∀ t ∈ tags m, P t := by
  induction m using induction with
  | node name attributes children ih =>
    have hlist : ∀ ms : List Markup, (∀ c ∈ ms, All IsLegal c → ∀ t ∈ tags c, P t) → AllList IsLegal ms →
        ∀ t ∈ tagsList ms, P t := by
      intro ms hms hall
      induction ms with
      | nil => simp [tagsList]
      | cons m ms ihm =>
        intro t ht
        rw [tagsList, List.mem_append] at ht
        rcases ht with ht | ht
        · exact hms m (by simp) hall.1 t ht
        · exact ihm (fun c hc => hms c (by simp [hc])) hall.2 t ht
    obtain ⟨hl, hc⟩ := h
    intro t ht
    cases children with
    | nil =>
      rw [tags, List.mem_singleton] at ht
      rw [ht]
      exact hsingle hl
    | cons c cs =>
      simp only [tags, List.mem_cons, List.mem_append, List.not_mem_nil, or_false] at ht
      rcases ht with rfl | ht | rfl
      · exact hopening hl
      · exact hlist _ ih hc t ht
      · exact hclosing hl

theorem not_mem_tags (m : Markup) (h : m.All IsLegal) : ∀ t ∈ tags m, '>' ∉ t := by
  refine forall_tags not_mem_head (fun hl => ?_) (fun hl => ?_) m h
  · have hh := not_mem_head hl
    simp [hh]
  · have hn := Xml.not_mem_of_isQualifiedName hl.name_ok (c := '>') (by decide)
    simp [hn]

end Markup

/-! ### Cutting -/

namespace Layout

/-- The pieces of a text, less the outermost brackets: what `format` puts on lines. -/
def fragments (cs : List Char) : List (List Char) := dropOuter (pieces (Blank.trim cs))

theorem pieces_cons_of_ne {c : Char} (hc : c ≠ '>') (cs : List Char) :
    pieces (c :: cs) = consFirst c (pieces cs) := by
  rw [pieces, if_neg hc]

private theorem pieces_append {t : List Char} (ht : '>' ∉ t) {rest first : List Char} {more : List (List Char)}
    (h : pieces rest = first :: more) : pieces (t ++ rest) = (t ++ first) :: more := by
  induction t with
  | nil => simpa using h
  | cons c t ih =>
    simp only [List.mem_cons, not_or] at ht
    rw [List.cons_append, pieces_cons_of_ne (Ne.symm ht.1), ih ht.2]
    rfl

/-- What follows the opening bracket of the first of some tags is cut into these tags; the last one keeps its
closing bracket. -/
private theorem pieces_bracketed (t : List Char) (ts : List (List Char)) (h : ∀ u ∈ t :: ts, '>' ∉ u) :
    ∃ front last, t :: ts = front ++ [last] ∧
      pieces (t ++ '>' :: Markup.bracketed ts) = front ++ [last ++ ['>']] := by
  induction ts generalizing t with
  | nil =>
    refine ⟨[], t, rfl, ?_⟩
    exact pieces_append (h t (by simp)) (by simp [Markup.bracketed, pieces, piecesAfterGap, consFirst])
  | cons u us ih =>
    -- the brackets between two tags are the gap that the text is cut at
    obtain ⟨front, last, hts, hp⟩ := ih u fun v hv => h v (by simp_all)
    refine ⟨t :: front, last, by simp [hts], ?_⟩
    have hb : Markup.bracketed (u :: us) = '<' :: (u ++ '>' :: Markup.bracketed us) := by
      simp [Markup.bracketed]
    have hg : pieces ('>' :: Markup.bracketed (u :: us)) = [] :: (front ++ [last ++ ['>']]) := by
      rw [hb, pieces, if_pos rfl, piecesAfterGap, if_pos rfl, hp]
    simpa using pieces_append (h t (by simp)) hg

theorem dropOuter_concat (front : List (List Char)) (last : List Char) :
    dropOuter (front ++ [last]) = match front with
      | [] => [dropClosing (dropOpening last)]
      | first :: rest => dropOpening first :: rest ++ [dropClosing last] := by
  cases front <;> simp [dropOuter]

theorem dropClosing_concat (t : List Char) : dropClosing (t ++ ['>']) = t := by
  simp [dropClosing]

theorem isBlank_opening : Blank.isBlank '<' = false := by decide

theorem isBlank_closing : Blank.isBlank '>' = false := by decide

/-- Text between a bracket and a bracket is not trimmed. -/
theorem trim_enclosed (body : List Char) : Blank.trim ('<' :: body ++ ['>']) = '<' :: body ++ ['>'] := by
  simp [Blank.trim, isBlank_opening, isBlank_closing]

theorem trim_bracketed {ts : List (List Char)} (h : ts ≠ []) :
    Blank.trim (Markup.bracketed ts) = Markup.bracketed ts := by
  obtain ⟨front, last, rfl⟩ := List.eq_nil_or_concat ts |>.resolve_left h
  have hbody : ∃ body, Markup.bracketed (front ++ [last]) = '<' :: body ++ ['>'] := by
    cases front with
    | nil => exact ⟨last, by simp [Markup.bracketed]⟩
    | cons t ts => exact ⟨t ++ '>' :: Markup.bracketed ts ++ '<' :: last, by simp [Markup.bracketed]⟩
  obtain ⟨body, hbody⟩ := hbody
  rw [List.concat_eq_append, hbody, trim_enclosed]

/-- Cutting the tags of a document apart gives these tags. -/
theorem fragments_bracketed {ts : List (List Char)} (hne : ts ≠ []) (h : ∀ t ∈ ts, '>' ∉ t) :
    fragments (Markup.bracketed ts) = ts := by
  unfold fragments
  rw [trim_bracketed hne]
  cases ts with
  | nil => exact absurd rfl hne
  | cons t ts =>
    obtain ⟨front, last, hts, hp⟩ := pieces_bracketed t ts h
    have hb : Markup.bracketed (t :: ts) = ['<'] ++ (t ++ '>' :: Markup.bracketed ts) := by
      simp [Markup.bracketed]
    -- the first and the last piece may be the same, and then both brackets come off it
    cases front with
    | nil =>
      obtain ⟨rfl, rfl⟩ : t = last ∧ ts = [] := by simpa using hts
      rw [hb, pieces_append (by decide) hp, ← List.nil_append [_], dropOuter_concat]
      simp [dropOpening, dropClosing_concat]
    | cons first front =>
      obtain ⟨rfl, rfl⟩ : t = first ∧ ts = front ++ [last] := by simpa using hts
      rw [hb, pieces_append (by decide) hp]
      exact (dropOuter_concat (('<' :: t) :: front) (last ++ ['>'])).trans
        (by simp [dropOpening, dropClosing_concat])

/-- A text that consists of tags is laid out tag by tag. -/
theorem format_bracketed (indent newline : List Char) {ts : List (List Char)} (hne : ts ≠ [])
    (h : ∀ t ∈ ts, '>' ∉ t) :
    format indent newline (Markup.bracketed ts) = newline.intercalate (lines indent 0 ts) := by
  have hf := fragments_bracketed hne h
  unfold fragments at hf
  unfold format
  split
  · rename_i he
    rw [he] at hf
    -- only a text that is empty or blank has a single empty piece
    have : ts = [[]] := by simpa [dropOuter, dropOpening, dropClosing] using hf.symm
    subst this
    rw [trim_bracketed (by simp)] at he
    simp [Markup.bracketed, pieces, piecesAfterGap, consFirst] at he
  · rw [hf]

end Layout

end Edm
