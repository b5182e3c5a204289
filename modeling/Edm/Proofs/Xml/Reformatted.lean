import Edm.Proofs.Xml.Printer

/-!
# Laying a text out again

A layout puts blanks into the gaps between the tags of a text and nowhere else, and another layout takes them out
again.  Cutting a text is finding its gaps (`Layout.isCut_pieces`, `Layout.IsCut.pieces_eq`), so what stands on the
lines of a layout is cut as the text was (`Layout.exists_format_eq`).  Hence only the last of several layouts
counts, and between the gaps no character is lost, for texts of any kind (`Layout.format_format`).
-/

namespace Edm

namespace Layout

/-! ### Gaps -/

/-- Whether a closing bracket, blanks or nothing, and an opening bracket follow each other in a text. -/
def HasGap (cs : List Char) : Prop :=
  ∃ before gap after, (∀ c ∈ gap, Blank.isBlank c = true) ∧ cs = before ++ '>' :: gap ++ '<' :: after

theorem HasGap.mono {cs ds : List Char} (h : HasGap cs) (hpart : cs <:+: ds) : HasGap ds := by
  obtain ⟨before, gap, after, hgap, rfl⟩ := h
  obtain ⟨front, back, rfl⟩ := hpart
  exact ⟨front ++ before, gap, after ++ back, hgap, by simp⟩

/-- One more character in front makes a gap only if it is a closing bracket. -/
theorem hasGap_cons {c : Char} {cs : List Char} (h : HasGap (c :: cs)) :
    HasGap cs ∨ c = '>' ∧ ∃ gap after, (∀ d ∈ gap, Blank.isBlank d = true) ∧ cs = gap ++ '<' :: after := by
  obtain ⟨before, gap, after, hgap, heq⟩ := h
  cases before with
  | nil =>
    obtain ⟨rfl, rfl⟩ := List.cons.inj heq
    exact .inr ⟨rfl, gap, after, hgap, rfl⟩
  | cons b before =>
    obtain ⟨rfl, rfl⟩ := List.cons.inj heq
    exact .inl ⟨before, gap, after, hgap, by simp⟩

/-- A closing bracket at the end makes no gap. -/
theorem hasGap_concat {cs : List Char} (h : HasGap (cs ++ ['>'])) : HasGap cs := by
  obtain ⟨before, gap, after, hgap, heq⟩ := h
  rcases List.eq_nil_or_concat after with rfl | ⟨after, c, rfl⟩
  · have hlast := (List.append_inj' heq rfl).2
    exact absurd hlast (by decide)
  · have hsplit : cs ++ ['>'] = (before ++ '>' :: gap ++ '<' :: after) ++ [c] := by simpa using heq
    exact ⟨before, gap, after, hgap, (List.append_inj' hsplit rfl).1⟩

/-! ### Cutting at the gaps -/

/-- A text is cut into pieces without a gap, at gaps. -/
inductive IsCut : List Char → List (List Char) → Prop
  | last {p : List Char} : ¬ HasGap p → IsCut p [p]
  | gap {p gap rest : List Char} {ps : List (List Char)} : ¬ HasGap p → (∀ c ∈ gap, Blank.isBlank c = true) →
      IsCut rest ps → IsCut (p ++ '>' :: gap ++ '<' :: rest) (p :: ps)

theorem piecesAfterGap_append {gap : List Char} (hgap : ∀ c ∈ gap, Blank.isBlank c = true) (rest : List Char) :
    piecesAfterGap (gap ++ '<' :: rest) = some (pieces rest) := by
  induction gap with
  | nil => simp [piecesAfterGap]
  | cons c gap ih =>
    have hc : Blank.isBlank c = true := hgap c (by simp)
    have hne : c ≠ '<' := by
      rintro rfl
      rw [isBlank_opening] at hc
      cases hc
    rw [List.cons_append, piecesAfterGap, if_neg hne, if_pos hc]
    exact ih fun d hd => hgap d (by simp [hd])

theorem exists_of_piecesAfterGap {cs : List Char} {ps : List (List Char)} (h : piecesAfterGap cs = some ps) :
    ∃ gap rest, (∀ c ∈ gap, Blank.isBlank c = true) ∧ cs = gap ++ '<' :: rest ∧ ps = pieces rest := by
  induction cs with
  | nil => simp [piecesAfterGap] at h
  | cons c cs ih =>
    rw [piecesAfterGap] at h
    split at h
    next hc =>
      cases h
      exact ⟨[], cs, by simp, by simp [hc], rfl⟩
    next =>
      split at h
      next hblank =>
        obtain ⟨gap, rest, hgap, rfl, rfl⟩ := ih h
        exact ⟨c :: gap, rest, by simpa [hblank] using hgap, rfl, rfl⟩
      next => cases h

/-- No gap begins at a closing bracket if none does in what stands up to the next one, or up to the end. -/
private theorem Gap.piecesAfterGap_eq_none {p rest : List Char} (hp : ¬ HasGap ('>' :: p))
    (hrest : rest = [] ∨ ∃ cs, rest = '>' :: cs) : piecesAfterGap (p ++ rest) = none := by
  rw [Option.eq_none_iff_forall_ne_some]
  intro ps hps
  obtain ⟨gap, after, hgap, heq, -⟩ := exists_of_piecesAfterGap hps
  rcases List.append_eq_append_iff.1 heq with ⟨mid, rfl, hmid⟩ | ⟨mid, rfl, hmid⟩
  · -- the gap goes beyond `p`, so the next closing bracket is one of its blanks
    rcases hrest with rfl | ⟨cs, rfl⟩
    · simp at hmid
    · cases mid with
      | nil => simp at hmid
      | cons d mid =>
        obtain ⟨rfl, -⟩ := List.cons.inj hmid
        have hblank := hgap '>' (by simp)
        rw [isBlank_closing] at hblank
        cases hblank
  · cases mid with
    | nil => rcases hrest with rfl | ⟨cs, rfl⟩ <;> simp at hmid
    | cons d mid =>
      obtain ⟨rfl, -⟩ := List.cons.inj hmid
      exact hp ⟨[], gap, mid, hgap, rfl⟩

/-- A text without a gap that is followed by a closing bracket, or by nothing, goes to the first piece. -/
private theorem Gap.pieces_append {p rest first : List Char} {more : List (List Char)} (hp : ¬ HasGap p)
    (hrest : rest = [] ∨ ∃ cs, rest = '>' :: cs) (h : pieces rest = first :: more) :
    pieces (p ++ rest) = (p ++ first) :: more := by
  induction p with
  | nil => exact h
  | cons c p ih =>
    have htail : ¬ HasGap p := fun hgap => hp (hgap.mono (List.suffix_cons c p).isInfix)
    by_cases hc : c = '>'
    · subst hc
      rw [List.cons_append, pieces, if_pos rfl, Gap.piecesAfterGap_eq_none hp hrest, ih htail]
      rfl
    · rw [List.cons_append, pieces_cons_of_ne hc, ih htail]
      rfl

/-- Pieces without a gap that are put together with gaps between them are what the text is cut into. -/
theorem IsCut.pieces_eq {cs : List Char} {ps : List (List Char)} (h : IsCut cs ps) : pieces cs = ps := by
  induction h with
  | @last p hp =>
    have hcut := Gap.pieces_append hp (.inl rfl) (show pieces [] = [] :: [] from rfl)
    simpa using hcut
  | @gap p gap rest ps hp hgap _ ih =>
    have hrest : pieces ('>' :: (gap ++ '<' :: rest)) = [] :: ps := by
      rw [pieces, if_pos rfl, piecesAfterGap_append hgap, ih]
    simpa using Gap.pieces_append hp (.inr ⟨_, rfl⟩) hrest

/-- A character that does not end a gap goes to the first piece. -/
theorem IsCut.cons {c : Char} {cs : List Char} {ps : List (List Char)} (h : IsCut cs ps)
    (hc : c = '>' → piecesAfterGap cs = none) : IsCut (c :: cs) (consFirst c ps) := by
  have hfirst : ∀ p rest, cs = p ++ rest → ¬ HasGap p → ¬ HasGap (c :: p) := by
    rintro p rest rfl hp hgap
    rcases hasGap_cons hgap with hgap | ⟨rfl, gap, after, hblank, rfl⟩
    · exact hp hgap
    · have hsome := piecesAfterGap_append hblank (after ++ rest)
      rw [← List.cons_append, ← List.append_assoc, hc rfl] at hsome
      cases hsome
  cases h with
  | last hp => exact .last (hfirst _ [] (by simp) hp)
  | @gap p gap rest ps hp hgap hrest =>
    rw [← List.cons_append, ← List.cons_append]
    exact .gap (hfirst p _ (List.append_assoc ..) hp) hgap hrest

/-- A text is cut at all its gaps. -/
theorem isCut_pieces (cs : List Char) : IsCut cs (pieces cs) := by
  -- what follows a gap is shorter, but not the tail of the text
  induction hlength : cs.length using Nat.strongRecOn generalizing cs with
  | _ n ih =>
    cases cs with
    | nil =>
      refine .last ?_
      rintro ⟨before, gap, after, -, heq⟩
      simp at heq
    | cons c cs =>
      rw [List.length_cons] at hlength
      have htail : IsCut cs (pieces cs) := ih cs.length (by omega) cs rfl
      by_cases hc : c = '>'
      · subst hc
        rw [pieces, if_pos rfl]
        cases hafter : piecesAfterGap cs with
        | none => exact htail.cons fun _ => hafter
        | some ps =>
          obtain ⟨gap, rest, hgap, rfl, rfl⟩ := exists_of_piecesAfterGap hafter
          rw [List.length_append, List.length_cons] at hlength
          have hnil : ¬ HasGap [] := by
            rintro ⟨before, gap, after, -, heq⟩
            simp at heq
          exact .gap hnil hgap (ih rest.length (by omega) rest rfl)
      · rw [pieces_cons_of_ne hc]
        exact htail.cons fun h => absurd h hc

theorem IsCut.not_hasGap {cs : List Char} {ps : List (List Char)} (h : IsCut cs ps) : ∀ p ∈ ps, ¬ HasGap p := by
  induction h with
  | last hp => simpa using hp
  | gap hp _ _ ih => exact List.forall_mem_cons.2 ⟨hp, ih⟩

theorem IsCut.ne_nil {cs : List Char} {ps : List (List Char)} (h : IsCut cs ps) : ps ≠ [] := by
  cases h <;> simp

theorem pieces_ne_nil (cs : List Char) : pieces cs ≠ [] := (isCut_pieces cs).ne_nil

/-! ### Taking the gaps out -/

mutual

/-- A text in which each gap is replaced by its two brackets. -/
def collapse : List Char → List Char
  | [] => []
  | c :: cs =>
    if c = '>' then
      match collapseAfterGap cs with
      | some rest => '>' :: '<' :: rest
      | none => c :: collapse cs
    else c :: collapse cs

/-- What follows blanks and `<` without its gaps, if a text starts with these. -/
def collapseAfterGap : List Char → Option (List Char)
  | [] => none
  | c :: cs =>
    if c = '<' then some (collapse cs)
    else if Blank.isBlank c then collapseAfterGap cs
    else none

end

private theorem Gap.intercalate_consFirst (c : Char) {ps : List (List Char)} (hps : ps ≠ []) :
    ['>', '<'].intercalate (consFirst c ps) = c :: ['>', '<'].intercalate ps := by
  cases ps with
  | nil => exact absurd rfl hps
  | cons p ps => cases ps <;> simp [consFirst, List.intercalate]

mutual

/-- Without its gaps a text consists of its pieces with two brackets between any two of them. -/
theorem collapse_eq : (cs : List Char) → collapse cs = ['>', '<'].intercalate (pieces cs)
  | [] => rfl
  | c :: cs => by
    have hcons := Gap.intercalate_consFirst c (pieces_ne_nil cs)
    rw [collapse, pieces, collapseAfterGap_eq cs, collapse_eq cs]
    by_cases hc : c = '>'
    · rw [if_pos hc, if_pos hc]
      cases hafter : piecesAfterGap cs with
      | none => exact hcons.symm
      | some ps =>
        obtain ⟨-, rest, -, -, rfl⟩ := exists_of_piecesAfterGap hafter
        obtain ⟨p, more, hps⟩ := List.exists_cons_of_ne_nil (pieces_ne_nil rest)
        simp [hps, List.intercalate]
    · rw [if_neg hc, if_neg hc, hcons]

theorem collapseAfterGap_eq : (cs : List Char) →
    collapseAfterGap cs = (piecesAfterGap cs).map (['>', '<'].intercalate ·)
  | [] => rfl
  | c :: cs => by
    rw [collapseAfterGap, piecesAfterGap, collapse_eq cs, collapseAfterGap_eq cs]
    split
    · rfl
    · split <;> rfl

end

example : collapse "<a> \n <b> x </b><c/>".toList = "<a><b> x </b><c/>".toList := by decide

/-! ### Outer brackets -/

/-- Pieces with a closing bracket at the end of the last. -/
def closeLast : List (List Char) → List (List Char)
  | [] => []
  | [p] => [p ++ ['>']]
  | p :: q :: ps => p :: closeLast (q :: ps)

theorem closeLast_concat (front : List (List Char)) (last : List Char) :
    closeLast (front ++ [last]) = front ++ [last ++ ['>']] := by
  induction front with
  | nil => rfl
  | cons p front ih =>
    have hne : front ++ [last] ≠ [] := List.append_ne_nil_of_right_ne_nil front (List.cons_ne_nil last [])
    obtain ⟨q, qs, hqs⟩ := List.exists_cons_of_ne_nil hne
    rw [List.cons_append, hqs, closeLast, ← hqs, ih]
    rfl

theorem IsCut.concat {cs : List Char} {ps : List (List Char)} (h : IsCut cs ps) :
    IsCut (cs ++ ['>']) (closeLast ps) := by
  induction h with
  | last hp => exact .last fun hgap => hp (hasGap_concat hgap)
  | @gap p gap rest ps hp hgap hrest ih =>
    obtain ⟨q, qs, rfl⟩ := List.exists_cons_of_ne_nil hrest.ne_nil
    rw [List.append_assoc, List.cons_append]
    exact .gap hp hgap ih

/-- A text between brackets is cut as the text inside. -/
theorem pieces_enclosed (body : List Char) :
    pieces ('<' :: body ++ ['>']) = consFirst '<' (closeLast (pieces body)) := by
  rw [List.cons_append, pieces_cons_of_ne (by decide), (isCut_pieces body).concat.pieces_eq]

/-- The outer brackets of a text are not part of what stands on lines. -/
theorem dropOuter_enclosed {ps : List (List Char)} (hps : ps ≠ []) :
    dropOuter (consFirst '<' (closeLast ps)) = ps := by
  obtain ⟨front, last, rfl⟩ := (List.eq_nil_or_concat ps).resolve_left hps
  rw [List.concat_eq_append, closeLast_concat]
  cases front with
  | nil => exact congrArg (· :: []) (dropClosing_concat last)
  | cons p front => simp [consFirst, dropOuter, dropOpening, dropClosing_concat]

theorem fragments_enclosed (body : List Char) : fragments ('<' :: body ++ ['>']) = pieces body := by
  rw [fragments, trim_enclosed, pieces_enclosed, dropOuter_enclosed (pieces_ne_nil body)]

/-- A text that starts with an opening and ends with a closing bracket stands between them. -/
theorem exists_enclosed {cs : List Char} (hhead : cs.head? = some '<') (hlast : cs.getLast? = some '>') :
    ∃ body, cs = '<' :: body ++ ['>'] := by
  obtain ⟨rest, rfl⟩ := List.head?_eq_some_iff.1 hhead
  obtain ⟨front, hfront⟩ := List.getLast?_eq_some_iff.1 hlast
  cases front with
  | nil => cases hfront
  | cons c body =>
    obtain ⟨rfl, rfl⟩ := List.cons.inj hfront
    exact ⟨body, rfl⟩

theorem fragments_ne_nil (cs : List Char) : fragments cs ≠ [] := by
  obtain ⟨front, last, hps⟩ := (List.eq_nil_or_concat _).resolve_left (pieces_ne_nil (Blank.trim cs))
  rw [fragments, hps, List.concat_eq_append, dropOuter_concat]
  cases front <;> simp

theorem not_hasGap_of_mem_fragments {cs p : List Char} (hp : p ∈ fragments cs) : ¬ HasGap p := by
  have hpieces : ∀ q ∈ pieces (Blank.trim cs), ¬ HasGap q := (isCut_pieces _).not_hasGap
  have hopening : ∀ q, dropOpening q <:+: q := by
    intro q
    unfold dropOpening
    split
    · exact (List.suffix_cons ..).isInfix
    · exact List.infix_rfl
  have hclosing : ∀ q, dropClosing q <:+: q := by
    intro q
    unfold dropClosing
    split
    · exact (List.dropLast_prefix q).isInfix
    · exact List.infix_rfl
  obtain ⟨front, last, hps⟩ := (List.eq_nil_or_concat _).resolve_left (pieces_ne_nil (Blank.trim cs))
  rw [List.concat_eq_append] at hps
  rw [fragments, hps, dropOuter_concat] at hp
  rw [hps] at hpieces
  intro hgap
  cases front with
  | nil =>
    rw [List.mem_singleton.1 hp] at hgap
    exact hpieces last (by simp) (hgap.mono ((hclosing _).trans (hopening last)))
  | cons first rest =>
    change p ∈ dropOpening first :: (rest ++ [dropClosing last]) at hp
    rw [List.mem_cons, List.mem_append, List.mem_singleton] at hp
    rcases hp with rfl | hp | rfl
    · exact hpieces first (by simp) (hgap.mono (hopening first))
    · exact hpieces p (by simp [hp]) hgap
    · exact hpieces last (by simp) (hgap.mono (hclosing last))

/-! ### Lines -/

/-- A text that is not blank is laid out piece by piece. -/
theorem format_eq {cs : List Char} (h : Blank.trim cs ≠ []) (indent newline : List Char) :
    format indent newline cs = newline.intercalate (lines indent 0 (fragments cs)) := by
  unfold format
  split
  next hpieces =>
    have hcut := isCut_pieces (Blank.trim cs)
    rw [hpieces] at hcut
    generalize Blank.trim cs = trimmed at h hcut
    cases hcut with
    | last => exact absurd rfl h
    | gap _ _ hrest => exact absurd rfl hrest.ne_nil
  next => rfl

section

variable {indent newline : List Char} (hindent : ∀ c ∈ indent, Blank.isBlank c = true)
  (hnewline : ∀ c ∈ newline, Blank.isBlank c = true)

include hindent hnewline

/-- Lines that are put together are cut into what stands on them. -/
theorem isCut_lines {p : List Char} {ps : List (List Char)} (h : ∀ q ∈ p :: ps, ¬ HasGap q) (depth : Nat) :
    ∃ body, newline.intercalate (lines indent depth (p :: ps))
        = (List.replicate (depthOf depth p) indent).flatten ++ '<' :: body ++ ['>']
      ∧ IsCut body (p :: ps) := by
  induction ps generalizing p depth with
  | nil =>
    refine ⟨p, ?_, .last (h p (by simp))⟩
    rw [lines_cons]
    simp [lines, line, List.intercalate]
  | cons q qs ih =>
    obtain ⟨body, hbody, hcut⟩ := ih (fun r hr => h r (List.mem_cons_of_mem p hr)) (depthPast depth p)
    have hpad : ∀ c ∈ newline ++ (List.replicate (depthOf (depthPast depth p) q) indent).flatten,
        Blank.isBlank c = true := by
      intro c hc
      rcases List.mem_append.1 hc with hc | hc
      · exact hnewline c hc
      · obtain ⟨l, hl, hc⟩ := List.mem_flatten.1 hc
        rw [List.eq_of_mem_replicate hl] at hc
        exact hindent c hc
    refine ⟨_, ?_, .gap (h p (by simp)) hpad hcut⟩
    rw [lines_cons, lines_cons, List.intercalate_cons_cons, ← lines_cons, hbody, line]
    simp

/-- A layout of a text that is not blank stands between brackets, and what is inside is cut as the text was. -/
theorem exists_format_eq {cs : List Char} (h : Blank.trim cs ≠ []) :
    ∃ body, format indent newline cs = '<' :: body ++ ['>'] ∧ pieces body = fragments cs := by
  obtain ⟨p, ps, hps⟩ := List.exists_cons_of_ne_nil (fragments_ne_nil cs)
  have hgaps : ∀ q ∈ p :: ps, ¬ HasGap q := by
    rw [← hps]
    exact fun q hq => not_hasGap_of_mem_fragments hq
  obtain ⟨body, hbody, hcut⟩ := isCut_lines hindent hnewline hgaps 0
  have hdepth : depthOf 0 p = 0 := by
    unfold depthOf
    split <;> rfl
  rw [hdepth] at hbody
  exact ⟨body, by rw [format_eq h, hps, hbody]; rfl, by rw [hcut.pieces_eq, hps]⟩

end

/-! ### Layouts of layouts -/

/-- Of two layouts of any text only the last one counts if the first one indents and breaks lines with blanks.  Where
the text stands between brackets, the layout is the same text but for its gaps. -/
theorem format_format {indent newline : List Char} (hindent : ∀ c ∈ indent, Blank.isBlank c = true)
    (hnewline : ∀ c ∈ newline, Blank.isBlank c = true) (cs : List Char) :
    (∀ indent' newline', format indent' newline' (format indent newline cs) = format indent' newline' cs) ∧
      ((Blank.trim cs).head? = some '<' → (Blank.trim cs).getLast? = some '>' →
        collapse (format indent newline cs) = collapse (Blank.trim cs)) := by
  by_cases h : Blank.trim cs = []
  · have hempty : ∀ indent newline, format indent newline cs = [] := by
      intro indent newline
      rw [format, h]
      rfl
    refine ⟨fun indent' newline' => ?_, fun hhead => ?_⟩
    · rw [hempty, hempty]
      rfl
    · rw [h] at hhead
      cases hhead
  · obtain ⟨body, hbody, hpieces⟩ := exists_format_eq hindent hnewline h
    refine ⟨fun indent' newline' => ?_, fun hhead hlast => ?_⟩
    · have hne : Blank.trim ('<' :: body ++ ['>']) ≠ [] := by
        rw [trim_enclosed]
        simp
      rw [hbody, format_eq hne, fragments_enclosed, hpieces, format_eq h]
    · obtain ⟨inside, hinside⟩ := exists_enclosed hhead hlast
      have hsame : pieces body = pieces inside := by
        rw [hpieces, fragments, hinside, pieces_enclosed, dropOuter_enclosed (pieces_ne_nil inside)]
      rw [hbody, hinside, collapse_eq, collapse_eq, pieces_enclosed, pieces_enclosed, hsame]

/-- A text that is no document: a bracket too many, a closing tag before its opening tag, words between tags, and
blanks in and between tags. -/
def unbalanced : List Char := " </a ><<b>\n\t<c> x </c>y>\u2003\n<d e=' > '/><f \t>\n".toList

theorem format_format_unbalanced :
    (∀ c ∈ ['\t'], Blank.isBlank c = true) ∧ (∀ c ∈ ['\r', '\n'], Blank.isBlank c = true) ∧
      (Blank.trim unbalanced).head? = some '<' ∧ (Blank.trim unbalanced).getLast? = some '>' ∧
      format [' ', ' '] ['\n'] (format ['\t'] ['\r', '\n'] unbalanced) = format [' ', ' '] ['\n'] unbalanced ∧
      collapse (format ['\t'] ['\r', '\n'] unbalanced) = collapse (Blank.trim unbalanced) := by
  have hindent : ∀ c ∈ ['\t'], Blank.isBlank c = true := List.forall_mem_singleton.2 rfl
  have hnewline : ∀ c ∈ ['\r', '\n'], Blank.isBlank c = true :=
    List.forall_mem_cons.2 ⟨rfl, List.forall_mem_singleton.2 rfl⟩
  have hhead : (Blank.trim unbalanced).head? = some '<' := by decide +kernel
  have hlast : (Blank.trim unbalanced).getLast? = some '>' := by decide +kernel
  obtain ⟨hagain, hcollapse⟩ := format_format hindent hnewline unbalanced
  exact ⟨hindent, hnewline, hhead, hlast, hagain _ _, hcollapse hhead hlast⟩

end Layout

end Edm
