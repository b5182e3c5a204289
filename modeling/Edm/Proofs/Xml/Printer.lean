import Edm.Proofs.Xml.Plain

/-!
# Layout as a walk of the tree

`Layout.format` guesses from the ends of a piece whether a tag opens or closes an element.  For a document
whose tags start with a word character the guesses are right: its lines are those that a walk of the tree
writes (`Markup.printed`), no closing tag meets the depth zero, and the depth is zero at the end
(`Envelope.text_eq_printed`).
-/

namespace Edm

/-! ### The depth of a line -/

namespace Layout

/-- A tag on a line at a depth. -/
def line (indent : List Char) (depth : Nat) (tag : List Char) : List Char :=
  (List.replicate depth indent).flatten ++ '<' :: tag ++ ['>']

/-- The depth of the line of a piece, given the depth before it. -/
def depthOf (depth : Nat) (piece : List Char) : Nat := if isClosing piece then depth - 1 else depth

/-- The depth after a piece, given the depth before it. -/
def depthPast (depth : Nat) (piece : List Char) : Nat :=
  if isOpening piece then depthOf depth piece + 1 else depthOf depth piece

/-- The depth after some pieces. -/
def depthAfter (depth : Nat) (pieces : List (List Char)) : Nat := pieces.foldl depthPast depth

/-- No closing tag among the pieces meets the depth zero. -/
def NeverClamped : Nat → List (List Char) → Prop
  | _, [] => True
  | depth, piece :: rest =>
    (isClosing piece = true → 0 < depth) ∧ NeverClamped (depthPast depth piece) rest

theorem lines_cons (indent : List Char) (depth : Nat) (piece : List Char) (rest : List (List Char)) :
    lines indent depth (piece :: rest)
      = line indent (depthOf depth piece) piece :: lines indent (depthPast depth piece) rest := rfl

theorem lines_append (indent : List Char) (depth : Nat) (ps qs : List (List Char)) :
    lines indent depth (ps ++ qs) = lines indent depth ps ++ lines indent (depthAfter depth ps) qs := by
  induction ps generalizing depth with
  | nil => rfl
  | cons p ps ih => rw [List.cons_append, lines_cons, lines_cons, ih]; rfl

theorem depthAfter_append (depth : Nat) (ps qs : List (List Char)) :
    depthAfter depth (ps ++ qs) = depthAfter (depthAfter depth ps) qs := by
  exact List.foldl_append

theorem neverClamped_append {depth : Nat} {ps qs : List (List Char)} :
    NeverClamped depth (ps ++ qs) ↔ NeverClamped depth ps ∧ NeverClamped (depthAfter depth ps) qs := by
  induction ps generalizing depth with
  | nil => simp [NeverClamped, depthAfter]
  | cons p ps ih => simp only [List.cons_append, NeverClamped, ih, and_assoc]; rfl

/-- What some pieces do if they are the tags of whole elements: they are laid out as `printed`, no closing tag
meets the depth zero, and the depth is the same afterwards. -/
structure Balanced (indent : List Char) (depth : Nat) (pieces printed : List (List Char)) : Prop where
  lines_eq : lines indent depth pieces = printed
  unclamped : NeverClamped depth pieces
  depth_eq : depthAfter depth pieces = depth

namespace Balanced

variable {indent : List Char} {depth : Nat}

theorem nil : Balanced indent depth [] [] := ⟨rfl, trivial, rfl⟩

theorem append {ps qs printedP printedQ : List (List Char)} (hp : Balanced indent depth ps printedP)
    (hq : Balanced indent depth qs printedQ) : Balanced indent depth (ps ++ qs) (printedP ++ printedQ) := by
  refine ⟨?_, ?_, ?_⟩
  · rw [lines_append, hp.depth_eq, hp.lines_eq, hq.lines_eq]
  · rw [neverClamped_append, hp.depth_eq]
    exact ⟨hp.unclamped, hq.unclamped⟩
  · rw [depthAfter_append, hp.depth_eq, hq.depth_eq]

/-- A tag that neither opens nor closes an element. -/
theorem single {tag : List Char} (ho : isOpening tag = false) (hc : isClosing tag = false) :
    Balanced indent depth [tag] [line indent depth tag] := by
  have hd : depthOf depth tag = depth := by simp [depthOf, hc]
  have hp : depthPast depth tag = depth := by simp [depthPast, ho, hd]
  refine ⟨?_, ⟨by simp [hc], trivial⟩, hp⟩
  rw [lines_cons, hd]
  rfl

/-- An opening and a closing tag around whole elements, which are one level deeper. -/
theorem enclose {opening closing : List Char} {ps printed : List (List Char)}
    (ho : isOpening opening = true) (hoc : isClosing opening = false) (hc : isClosing closing = true)
    (hco : isOpening closing = false) (h : Balanced indent (depth + 1) ps printed) :
    Balanced indent depth (opening :: (ps ++ [closing]))
      (line indent depth opening :: (printed ++ [line indent depth closing])) := by
  -- the opening tag stands at the depth and leaves one more; the closing tag takes it back
  have hd : depthOf depth opening = depth := by simp [depthOf, hoc]
  have hp : depthPast depth opening = depth + 1 := by simp [depthPast, ho, hd]
  have hd' : depthOf (depth + 1) closing = depth := by simp [depthOf, hc]
  have hp' : depthPast (depth + 1) closing = depth := by simp [depthPast, hco, hd']
  refine ⟨?_, ⟨by simp [hoc], ?_⟩, ?_⟩
  · rw [lines_cons, hd, hp, lines_append, h.lines_eq, h.depth_eq, lines_cons, hd']
    rfl
  · rw [hp, neverClamped_append, h.depth_eq]
    exact ⟨h.unclamped, ⟨fun _ => by omega, trivial⟩⟩
  · show depthAfter (depthPast depth opening) (ps ++ [closing]) = depth
    rw [hp, depthAfter_append, h.depth_eq]
    exact hp'

end Balanced

end Layout

/-! ### Walking a tree -/

namespace Markup

mutual

/-- The lines of a tree: an element without children has one line; any other has a line for its opening tag,
the lines of its children one level deeper, and a line for its closing tag. -/
def printed (indent : List Char) (depth : Nat) : Markup → List (List Char)
  | node name attributes [] => [Layout.line indent depth (head name attributes ++ ['/'])]
  | node name attributes (c :: cs) =>
    Layout.line indent depth (head name attributes) ::
      (printedList indent (depth + 1) (c :: cs) ++ [Layout.line indent depth ('/' :: name)])

/-- The lines of trees, one after the other. -/
def printedList (indent : List Char) (depth : Nat) : List Markup → List (List Char)
  | [] => []
  | m :: ms => printed indent depth m ++ printedList indent depth ms

end

/-- Whether a name starts with a word character. -/
def startsWithWord : List Char → Bool
  | [] => false
  | c :: _ => Word.isWord c

private theorem last_attributeText (a : List Char × List Char) : (attributeText a).getLast? = some '"' := by
  unfold attributeText
  exact List.getLast?_concat

private theorem last_head_ne {name : List Char} {attributes : List (List Char × List Char)}
    (h : IsLegal name attributes) : (head name attributes).getLast? ≠ some '/' := by
  unfold head
  rcases List.eq_nil_or_concat attributes with rfl | ⟨as, a, rfl⟩
  · intro hl
    rw [List.flatMap_nil, List.append_nil] at hl
    exact Xml.not_mem_of_isQualifiedName h.name_ok (c := '/') (by decide) (List.mem_of_getLast? hl)
  · rw [List.concat_eq_append, List.flatMap_append, List.flatMap_singleton, ← List.append_assoc,
      List.getLast?_append, last_attributeText]
    simp

private theorem isClosing_of_word {c : Char} (hc : Word.isWord c = true) (cs : List Char) :
    Layout.isClosing (c :: cs) = false := by
  unfold Layout.isClosing
  split
  · rename_i he
    obtain ⟨rfl, -⟩ := List.cons_eq_cons.1 he
    exact absurd hc (by decide)
  · rfl

private theorem isOpening_head {name : List Char} {attributes : List (List Char × List Char)}
    (h : IsLegal name attributes) (hw : startsWithWord name = true) :
    Layout.isOpening (head name attributes) = true := by
  have hb := not_mem_head h
  have hl := last_head_ne h
  cases hh : head name attributes with
  | nil =>
    have := Xml.ne_nil_of_isQualifiedName h.name_ok
    simp_all [head]
  | cons c body =>
    have hc : Word.isWord c = true := by
      cases name with
      | nil => cases hw
      | cons d ds =>
        obtain ⟨rfl, -⟩ := List.cons_eq_cons.1 hh
        exact hw
    rw [hh] at hb hl
    have hopen : Layout.isOpenBody body = true := by
      cases body with
      | nil => rfl
      | cons d ds =>
        rw [List.getLast?_cons_cons] at hl
        have hm : '>' ∉ (d :: ds).dropLast :=
          fun hm => hb (List.mem_cons_of_mem _ ((List.dropLast_sublist _).subset hm))
        simp [Layout.isOpenBody, hl, hm]
    simp [Layout.isOpening, hc, hopen]

private theorem isOpening_single (tag : List Char) : Layout.isOpening (tag ++ ['/']) = false := by
  cases tag with
  | nil => decide
  | cons c cs => simp [Layout.isOpening, Layout.isOpenBody]

/-- The tags of a tree whose names start with a word character are laid out as a walk of the tree writes
them. -/
theorem balanced_tags (indent : List Char) (m : Markup) (hl : m.All IsLegal)
    (hw : m.All fun name _ => startsWithWord name = true) (depth : Nat) :
    Layout.Balanced indent depth (tags m) (printed indent depth m) := by
  induction m using induction generalizing depth with
  | node name attributes children ih =>
    have hlist : ∀ ms : List Markup, (∀ c ∈ ms, c ∈ children) → AllList IsLegal ms →
        AllList (fun name _ => startsWithWord name = true) ms → ∀ depth,
        Layout.Balanced indent depth (tagsList ms) (printedList indent depth ms) := by
      intro ms hms hl hw depth
      induction ms with
      | nil => exact .nil
      | cons m ms ihm =>
        exact (ih m (hms m (by simp)) hl.1 hw.1 depth).append
          (ihm (fun c hc => hms c (by simp [hc])) hl.2 hw.2)
    obtain ⟨hl, hcl⟩ := hl
    obtain ⟨hw, hcw⟩ := hw
    obtain ⟨c, rest, rfl⟩ : ∃ c rest, name = c :: rest := by
      cases name with
      | nil => cases hw
      | cons c rest => exact ⟨c, rest, rfl⟩
    have hclosing : ∀ cs : List Char, Layout.isClosing (c :: cs) = false := isClosing_of_word hw
    cases children with
    | nil => exact .single (isOpening_single _) (hclosing _)
    | cons d ds =>
      -- a slash is no word character, so that a closing tag does not look like an opening one
      have hslash : Layout.isOpening ('/' :: c :: rest) = false := by
        simp [Layout.isOpening, show Word.isWord '/' = false by decide]
      exact .enclose (isOpening_head hl hw) (hclosing _) hw hslash (hlist _ (fun _ hc => hc) hcl hcw _)

end Markup

/-! ### Documents -/

namespace Element

mutual

private theorem all_startsWithWord_seen (declarations : List (List Char × List Char)) :
    ∀ e : Element, (∀ d ∈ e.descendants, Markup.startsWithWord d.tag.toChars = true) →
      (seen declarations e).All fun name _ => Markup.startsWithWord name = true
  | node tag attributes children, h => by
    rw [descendants] at h
    rw [seen, Markup.All]
    exact ⟨h (node tag attributes children) (by simp),
      allList_startsWithWord_seen children fun d hd => h d (by simp [hd])⟩

private theorem allList_startsWithWord_seen :
    ∀ es : List Element, (∀ d ∈ descendantsOf es, Markup.startsWithWord d.tag.toChars = true) →
      Markup.AllList (fun name _ => Markup.startsWithWord name = true) (seenList es)
  | [], _ => trivial
  | e :: es, h => by
    rw [descendantsOf] at h
    rw [seenList, Markup.AllList]
    exact ⟨all_startsWithWord_seen [] e fun d hd => h d (by simp [hd]),
      allList_startsWithWord_seen es fun d hd => h d (by simp [hd])⟩

end

end Element

namespace Envelope

private theorem all_startsWithWord_seen {schemas : List Element}
    (h : ∀ e ∈ Element.descendantsOf schemas, Markup.startsWithWord e.tag.toChars = true) :
    (seen schemas).All fun name _ => Markup.startsWithWord name = true := by
  refine ⟨by decide, ⟨by decide, ?_⟩, trivial⟩
  rw [Markup.allList_iff]
  intro m hm
  obtain ⟨e, he, rfl⟩ := List.mem_map.1 hm
  refine Element.all_startsWithWord_seen schemaDeclarations e fun d hd => h d ?_
  rw [Element.descendantsOf_eq]
  exact List.mem_flatMap.2 ⟨e, he, hd⟩

/-- A document whose tags start with a word character is its declaration and the lines that a walk of the
envelope writes; no closing tag meets the depth zero, and the depth is zero at the end. -/
theorem text_eq_printed (indent newline : List Char) (schemas : List Element)
    (hp : ∀ e ∈ Element.descendantsOf schemas, e.IsPlain)
    (hw : ∀ e ∈ Element.descendantsOf schemas, Markup.startsWithWord e.tag.toChars = true) :
    text indent newline schemas
        = .ok (newline.intercalate (declaration :: (seen schemas).printed indent 0)) ∧
      ∃ cs, markup schemas = .ok cs ∧ Layout.NeverClamped 0 (Layout.fragments cs) ∧
        Layout.depthAfter 0 (Layout.fragments cs) = 0 := by
  have hfirst : Layout.Balanced indent 0 [declarationTag] [declaration] := .single (by decide) (by decide)
  have h := hfirst.append
    (Markup.balanced_tags indent (seen schemas) (all_isLegal_seen hp) (all_startsWithWord_seen hw) 0)
  refine ⟨?_, _, markup_eq_bracketed hp, ?_⟩
  · rw [text_eq_lines indent newline hp]
    exact congrArg (fun ls => Except.ok (newline.intercalate ls)) h.lines_eq
  · rw [Layout.fragments_bracketed (by simp) (not_mem_tags hp)]
    exact ⟨h.unclamped, h.depth_eq⟩

theorem text_eq_printed_awkward :
    (∀ e ∈ Element.descendantsOf awkward, e.IsPlain) ∧
      (∀ e ∈ Element.descendantsOf awkward, Markup.startsWithWord e.tag.toChars = true) ∧
      text ['\t'] ['\n'] awkward
        = .ok (['\n'].intercalate (declaration :: (seen awkward).printed ['\t'] 0)) ∧
      ∃ cs, markup awkward = .ok cs ∧ Layout.NeverClamped 0 (Layout.fragments cs) ∧
        Layout.depthAfter 0 (Layout.fragments cs) = 0 := by
  have hp : ∀ e ∈ Element.descendantsOf awkward, e.IsPlain := by decide
  have hw : ∀ e ∈ Element.descendantsOf awkward, Markup.startsWithWord e.tag.toChars = true := by decide
  exact ⟨hp, hw, text_eq_printed ['\t'] ['\n'] awkward hp hw⟩

end Envelope

end Edm
