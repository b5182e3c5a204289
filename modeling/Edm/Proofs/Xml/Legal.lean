import Edm.Proofs.Xml.Plain

/-!
# The characters of a document

Names, written values and brackets consist of characters that a document may hold.  So does the text of a
document with plain schemas, if the indentation and the line separator do (`Envelope.isChar_text`).
-/

namespace Edm

namespace Xml

theorem isChar_of_isQualifiedChar {c : Char} (h : isQualifiedChar c = true) : isChar c = true := by
  simp only [isQualifiedChar, isNameChar, isNameStart, Bool.or_eq_true, beq_iff_eq] at h
  rcases h with (h | h) | rfl
  · simp only [Ranges.holds_iff, nameStartRanges, List.mem_cons, List.not_mem_nil, or_false] at h
    simp only [isChar, Ranges.holds_iff, charRanges, List.mem_cons, List.not_mem_nil, or_false, exists_eq_or_imp,
      exists_eq_left]
    obtain ⟨r, hr, hfirst, hlast⟩ := h
    rcases hr with rfl | rfl | rfl | rfl | rfl | rfl | rfl | rfl | rfl | rfl | rfl | rfl | rfl | rfl | rfl <;>
      dsimp only at hfirst hlast ⊢ <;> omega
  · simp only [Ranges.holds_iff, nameRestRanges, List.mem_cons, List.not_mem_nil, or_false] at h
    simp only [isChar, Ranges.holds_iff, charRanges, List.mem_cons, List.not_mem_nil, or_false, exists_eq_or_imp,
      exists_eq_left]
    obtain ⟨r, hr, hfirst, hlast⟩ := h
    rcases hr with rfl | rfl | rfl | rfl | rfl <;> dsimp only at hfirst hlast ⊢ <;> omega
  · decide

theorem isChar_of_isQualifiedName {cs : List Char} (h : isQualifiedName cs = true) : ∀ c ∈ cs, isChar c = true :=
  fun _ hc => isChar_of_isQualifiedChar (isQualifiedChar_of_mem h hc)

end Xml

namespace Markup

theorem isChar_escape {c : Char} (h : Xml.isChar c = true) : ∀ x ∈ escape c, Xml.isChar x = true := by
  unfold escape
  split
  all_goals first
    | exact List.all_eq_true.1 (by decide)
    | exact List.forall_mem_singleton.2 h

theorem isChar_head {name : List Char} {attributes : List (List Char × List Char)} (h : IsLegal name attributes) :
    ∀ c ∈ head name attributes, Xml.isChar c = true := by
  intro c hc
  rcases List.mem_append.1 hc with hc | hc
  · exact Xml.isChar_of_isQualifiedName h.name_ok c hc
  · obtain ⟨a, ha, hc⟩ := List.mem_flatMap.1 hc
    have hname := Xml.isChar_of_isQualifiedName (h.attribute_ok a ha)
    have hvalue : ∀ c ∈ a.2.flatMap escape, Xml.isChar c = true := by
      intro c hc
      obtain ⟨x, hx, hc⟩ := List.mem_flatMap.1 hc
      exact isChar_escape (h.value_ok a ha x hx) c hc
    simp only [attributeText, List.mem_cons, List.mem_append, List.not_mem_nil, or_false] at hc
    rcases hc with (((rfl | hc) | rfl | rfl | hc) | rfl)
    · decide
    · exact hname c hc
    · decide
    · decide
    · exact hvalue c hc
    · decide

theorem isChar_tags (m : Markup) (h : m.All IsLegal) : ∀ t ∈ tags m, ∀ c ∈ t, Xml.isChar c = true := by
  refine forall_tags isChar_head (fun hl c hc => ?_) (fun hl c hc => ?_) m h
  · rcases List.mem_append.1 hc with hc | hc
    · exact isChar_head hl c hc
    · rw [List.mem_singleton.1 hc]
      decide
  · rcases List.mem_cons.1 hc with rfl | hc
    · decide
    · exact Xml.isChar_of_isQualifiedName hl.name_ok c hc

end Markup

namespace Layout

theorem isChar_lines {indent : List Char} (hi : ∀ c ∈ indent, Xml.isChar c = true) (depth : Nat)
    {ps : List (List Char)} (hp : ∀ p ∈ ps, ∀ c ∈ p, Xml.isChar c = true) :
    ∀ l ∈ lines indent depth ps, ∀ c ∈ l, Xml.isChar c = true := by
  induction ps generalizing depth with
  | nil =>
    intro l hl
    cases hl
  | cons p ps ih =>
    intro l hl c hc
    rw [lines] at hl
    rcases List.mem_cons.1 hl with rfl | hl
    · simp only [List.mem_append, List.mem_cons, List.not_mem_nil, or_false] at hc
      rcases hc with (hc | rfl | hc) | rfl
      · obtain ⟨x, hx, hc⟩ := List.mem_flatten.1 hc
        rw [List.eq_of_mem_replicate hx] at hc
        exact hi c hc
      · decide
      · exact hp p (List.mem_cons_self ..) c hc
      · decide
    · exact ih _ (fun q hq => hp q (List.mem_cons_of_mem _ hq)) l hl c hc

end Layout

private theorem Legal.mem_intercalate {c : Char} {separator : List Char} {ls : List (List Char)}
    (h : c ∈ separator.intercalate ls) : c ∈ separator ∨ ∃ l ∈ ls, c ∈ l := by
  induction ls with
  | nil => cases h
  | cons l ls ih =>
    cases ls with
    | nil =>
      rw [List.intercalate_singleton] at h
      exact .inr ⟨l, List.mem_cons_self .., h⟩
    | cons m ls =>
      rw [List.intercalate_cons_cons, List.mem_append, List.mem_append] at h
      rcases h with (h | h) | h
      · exact .inr ⟨l, List.mem_cons_self .., h⟩
      · exact .inl h
      · exact (ih h).imp_right fun ⟨x, hx, hc⟩ => ⟨x, List.mem_cons_of_mem _ hx, hc⟩

namespace Envelope

/-- A document consists of characters that a document may hold. -/
theorem isChar_text {indent newline text : List Char} {schemas : List Element}
    (h : ∀ e ∈ Element.descendantsOf schemas, e.IsPlain) (hi : ∀ c ∈ indent, Xml.isChar c = true)
    (hn : ∀ c ∈ newline, Xml.isChar c = true) (htext : Envelope.text indent newline schemas = .ok text) :
    ∀ c ∈ text, Xml.isChar c = true := by
  rw [text_eq_lines indent newline h] at htext
  cases htext
  have htags : ∀ t ∈ declarationTag :: (seen schemas).tags, ∀ c ∈ t, Xml.isChar c = true := by
    refine List.forall_mem_cons.2 ⟨List.all_eq_true.1 (by decide), ?_⟩
    exact Markup.isChar_tags _ (all_isLegal_seen h)
  have hlines := Layout.isChar_lines hi 0 htags
  intro c hc
  rcases Legal.mem_intercalate hc with hc | ⟨l, hl, hc⟩
  · exact hn c hc
  · exact hlines l hl c hc

end Envelope

end Edm
