import Mathlib.Data.List.TakeWhile
import Brew.Proofs.Formatting
import Brew.Proofs.Token.Joining

/-!
# White space around a source

A line typed at the prompt is freed of white space before it is compiled, and there is more white
space than the blanks that may stand between lexemes.  If the line has tokens, this makes no
difference.  No lexeme begins or ends with white space, so trimming stops at the first and at the
last lexeme; and what stands outside of them is nothing but blanks.  The source that is left has the
same tokens, further up by what was cut off in front.  In a single line there is no line end in front
of a lexeme, and therefore all tokens stay on their line.

## Main definitions

* `Text.Visible`, `Text.Tight`: a text that does not begin with white space, or neither begins nor
  ends with it

## Main results

* `Lexeme.tight`: no lexeme begins or ends with white space
* `Lexicon.Munches.exists_core`: a text that has tokens is tight, up to a gap on either side
* `exists_tokenize_trim`: trimming a source that has tokens takes away nothing but gaps
* `compile_trim`: trimming a line that has tokens does not change what it compiles to
-/

namespace Brew

/-! ## Tight texts -/

namespace Text

/-- A text that begins with something other than white space. -/
def Visible (w : List Char) : Prop := ∃ c ∈ w.head?, isWhiteSpace c = false

instance : DecidablePred Visible := fun w =>
  decidable_of_iff (w.head?.any fun c => !isWhiteSpace c) (by simp [Visible, Option.any_eq_true])

theorem Visible.ne_nil {w : List Char} (h : Visible w) : w ≠ [] := by
  rintro rfl
  obtain ⟨c, hc, -⟩ := h
  exact nomatch hc

theorem Visible.append {w : List Char} (h : Visible w) (rest : List Char) :
    Visible (w ++ rest) := by
  obtain ⟨c, hc, hvisible⟩ := h
  refine ⟨c, ?_, hvisible⟩
  rw [List.head?_append, hc]
  rfl

theorem visible_reverse_iff {w : List Char} :
    Visible w.reverse ↔ ∃ c ∈ w.getLast?, isWhiteSpace c = false := by
  rw [Visible, List.head?_reverse]

/-- White space is dropped up to the first character that is none. -/
theorem Visible.dropWhile_append {space w : List Char} (h : Visible w)
    (hspace : ∀ c ∈ space, isWhiteSpace c) : (space ++ w).dropWhile isWhiteSpace = w := by
  obtain ⟨c, hc, hvisible⟩ := h
  obtain ⟨tail, rfl⟩ := List.head?_eq_some_iff.mp hc
  rw [List.dropWhile_append_of_pos hspace, List.dropWhile_cons_of_neg (by simp [hvisible])]

/-- **A text that neither begins nor ends with white space.** -/
structure Tight (w : List Char) : Prop where
  front : Visible w
  back : Visible w.reverse

instance : DecidablePred Tight := fun w =>
  decidable_of_iff (Visible w ∧ Visible w.reverse) ⟨fun h => ⟨h.1, h.2⟩, fun h => ⟨h.front, h.back⟩⟩

/-- Two tight texts, with anything between them. -/
theorem Tight.append {u v : List Char} (hu : Tight u) (hv : Tight v) (between : List Char) :
    Tight (u ++ (between ++ v)) where
  front := hu.front.append _
  back := by
    rw [List.reverse_append, List.reverse_append, List.append_assoc]
    exact hv.back.append _

/-- **Trimming a tight text between white space** leaves the text. -/
theorem Tight.trim_eq {source : String} {front w back : List Char} (h : Tight w)
    (hsource : source.toList = front ++ (w ++ back)) (hfront : ∀ c ∈ front, isWhiteSpace c)
    (hback : ∀ c ∈ back, isWhiteSpace c) : trim source = String.ofList w := by
  have hreverse : ∀ c ∈ back.reverse, isWhiteSpace c := fun c hc => hback c (List.mem_reverse.mp hc)
  rw [trim, hsource, (h.front.append back).dropWhile_append hfront, trimEnd, List.reverse_append,
    h.back.dropWhile_append hreverse, List.reverse_reverse]

/-- Trimming white space leaves nothing. -/
theorem trim_eq_empty {source : String} (h : ∀ c ∈ source.toList, isWhiteSpace c) :
    trim source = "" := by
  have hnone : source.toList.dropWhile isWhiteSpace = [] := List.dropWhile_eq_nil_iff.mpr h
  rw [trim, hnone]
  rfl

end Text

open Text

theorem Gap.isWhiteSpace {gap : List Char} (h : Gap gap) : ∀ c ∈ gap, isWhiteSpace c :=
  fun c hc => isWhiteSpace_of_isBlank (h c hc)

/-! ## Lexemes -/

/-- What names and numbers are made of is no white space. -/
theorem Pattern.isWhiteSpace_eq_false_of_isNamePart {c : Char} (h : isNamePart c ∨ c = '.') :
    isWhiteSpace c = false := by
  -- These characters are ASCII, and there the two classes can be compared one by one.
  have hall : ∀ n ≤ 127, isNamePart (Char.ofNat n) → isWhiteSpace (Char.ofNat n) = false := by
    decide +kernel
  rcases h with h | rfl
  · have hascii := Char.utf8Size_eq_one_iff.mp (Cursor.utf8Size_of_isNamePart h)
    have hc := hall c.toNat (UInt32.le_iff_toNat_le.mp hascii)
    rw [Char.ofNat_toNat] at hc
    exact hc h
  · decide

/-- A text of what names and numbers are made of does not end with white space. -/
theorem Pattern.visible_reverse_of_isNamePart {w : List Char} (hne : w ≠ [])
    (h : ∀ c ∈ w, isNamePart c ∨ c = '.') : Visible w.reverse :=
  visible_reverse_iff.mpr ⟨w.getLast hne, List.getLast?_eq_some_getLast hne,
    isWhiteSpace_eq_false_of_isNamePart (h _ (List.getLast_mem hne))⟩

/-- A member of a class is a mark of its pattern, or it ends with something other than white
space. -/
theorem Pattern.mem_marks_or_visible_reverse {p : Pattern} {w : List Char} (h : p.Describes w)
    (hne : w ≠ []) : w ∈ p.marks ∨ Visible w.reverse := by
  cases p with
  | words spellings =>
    obtain ⟨spelling, hmem, rfl⟩ := h
    exact .inl (List.mem_map_of_mem hmem)
  | identifier =>
    have hparts : ∀ c ∈ w, isNamePart c ∨ c = '.' :=
      fun c hc => .inl (isNamePart_of_describes_identifier h hc)
    exact .inr (visible_reverse_of_isNamePart hne hparts)
  | number =>
    have hparts : ∀ c ∈ w, isNamePart c ∨ c = '.' :=
      fun c hc => isNamePart_of_describes_number h hc
    exact .inr (visible_reverse_of_isNamePart hne hparts)
  | quotedText =>
    obtain ⟨content, -, rfl⟩ := h
    exact .inr (visible_reverse_iff.mpr ⟨'"', List.getLast?_concat, rfl⟩)
  | quotedChar =>
    obtain ⟨c, -, rfl⟩ := h
    exact .inr (visible_reverse_iff.mpr ⟨'\x27', rfl, rfl⟩)
  | oneOf chars =>
    obtain ⟨c, hc, rfl⟩ := h
    exact .inl (List.mem_map_of_mem hc)

theorem tight_of_mem_marks : ∀ mark ∈ lexicon.marks, Tight mark := by decide +kernel

/-- **No lexeme begins or ends with white space.** -/
theorem Lexeme.tight {l : Lexeme} (hl : lexicon.Contains l) : Tight l.text.toList := by
  obtain ⟨p, hmem, hdescribes⟩ := hl
  have hmarks : ∀ mark ∈ p.marks, Tight mark :=
    fun mark hmark => tight_of_mem_marks mark (List.mem_flatMap.mpr ⟨_, hmem, hmark⟩)
  -- A lexeme begins with a mark, and so it begins as the mark does.
  have hfront : Visible l.text.toList := by
    obtain ⟨mark, hmark, rest, htext⟩ := Pattern.exists_mark_of_describes hdescribes
    rw [← htext]
    exact (hmarks mark hmark).front.append rest
  rcases Pattern.mem_marks_or_visible_reverse hdescribes hfront.ne_nil with hmark | hback
  · exact hmarks _ hmark
  · exact ⟨hfront, hback⟩

/-! ## Trimming -/

/-- **A text that has tokens is tight, up to a gap on either side**, and without the gaps it has the
same tokens. -/
theorem Lexicon.Munches.exists_core {p : Position} {cs : List Char} {s : Scan}
    (h : lexicon.Munches p cs s) (hs : s.error = none) :
    (Gap cs ∧ s = Scan.empty) ∨ ∃ front core back, cs = front ++ (core ++ back) ∧ Gap front ∧
      Gap back ∧ Tight core ∧ lexicon.Munches (p.advance front) core s := by
  induction h with
  | stuck => exact nomatch hs
  | finished hgap => exact .inl ⟨hgap, rfl⟩
  | @token p gap rest l pattern s hgap hmem hlongest _ ih =>
    have htight := Lexeme.tight ⟨pattern, hmem, hlongest.describes⟩
    right
    rcases ih hs with ⟨hback, rfl⟩ | ⟨front, core, back, rfl, hfront, hback, hcore, hmunches⟩
    · -- The lexeme is the last one.
      refine ⟨gap, l.text.toList, rest, rfl, hgap, hback, htight, ?_⟩
      have hlast := Munches.token (p := p.advance gap) gap_nil hmem
        (hlongest.cut List.nil_prefix) (.finished gap_nil)
      rwa [List.nil_append, List.append_nil] at hlast
    · refine ⟨gap, l.text.toList ++ (front ++ core), back, ?_, hgap, hback,
        htight.append hcore front, ?_⟩
      · simp only [List.append_assoc]
      · have hshorter : front ++ core <+: front ++ (core ++ back) := by
          rw [← List.append_assoc]
          exact List.prefix_append _ _
        rw [Position.advance_append] at hmunches
        exact Munches.token gap_nil hmem (hlongest.cut hshorter)
          (hmunches.gap_append hfront)

/-- **Trimming a source that has tokens takes away nothing but gaps**, and the tokens move up by the
gap in front. -/
theorem exists_tokenize_trim {source : String} {tokens : List Token}
    (h : tokenize source = .ok tokens) :
    ∃ front back us, source.toList = front ++ ((trim source).toList ++ back) ∧ Gap front ∧
      Gap back ∧ (trim source = "" → front = []) ∧ tokenize (trim source) = .ok us ∧
      tokens = us.map (Token.raise (String.ofList front).utf8ByteSize (front.count '\n')) := by
  rcases (tokenize_eq_ok_iff.mp h).exists_core rfl with
    ⟨hgap, hempty⟩ | ⟨front, core, back, hsource, hfront, hback, hcore, hmunches⟩
  · cases hempty
    rw [trim_eq_empty hgap.isWhiteSpace]
    exact ⟨[], source.toList, [], rfl, gap_nil, hgap, fun _ => rfl, rfl, rfl⟩
  · rw [hcore.trim_eq hsource hfront.isWhiteSpace hback.isWhiteSpace, String.toList_ofList]
    rw [Position.start_advance_eq_raise] at hmunches
    obtain ⟨⟨us, error⟩, hfresh, hraised⟩ := hmunches.exists_raise lexicon_unambiguous
    obtain ⟨htokens, herror⟩ := Scan.mk.inj hraised
    cases Option.map_eq_none_iff.mp herror.symm
    refine ⟨front, back, us, hsource, hfront, hback, ?_, ?_, htokens⟩
    · intro hempty
      exact absurd (String.ofList_eq_empty_iff.mp hempty) hcore.front.ne_nil
    · rw [tokenize_eq_ok_iff, String.toList_ofList]
      exact hfresh

/-- Moving tokens within their lines makes no difference to the parser. -/
theorem parse_map_raise (bytes : Nat) (tokens : List Token) :
    parse (tokens.map (Token.raise bytes 0)) = parse tokens := by
  have hmatches : List.Forall₂ (Token.Matches (· = ·)) (tokens.map (Token.raise bytes 0)) tokens :=
    List.forall₂_map_left_iff.mpr (List.forall₂_same.mpr fun _ _ => ⟨rfl, rfl⟩)
  exact (parse_agree hmatches rfl).eq

/-- **Trimming a line that has tokens does not change what it compiles to.** -/
theorem compile_trim {line : String} {tokens : List Token} (htokens : tokenize line = .ok tokens)
    (hline : '\n' ∉ line.toList.dropLast) : compile (trim line) = compile line := by
  obtain ⟨front, back, us, hsource, -, -, hfront, hus, rfl⟩ := exists_tokenize_trim htokens
  have hlines : front.count '\n' = 0 := by
    refine List.count_eq_zero.mpr fun hmem => hline ?_
    by_cases hempty : trim line = ""
    · rw [hfront hempty] at hmem
      exact absurd hmem List.not_mem_nil
    · -- Something is left of the line, so its last character does not belong to the gap in front.
      have hne : (trim line).toList ++ back ≠ [] :=
        List.append_ne_nil_of_left_ne_nil (mt String.toList_eq_nil_iff.mp hempty) back
      rw [hsource, List.dropLast_append_of_ne_nil hne]
      exact List.mem_append_left _ hmem
  rw [hlines] at htokens
  rw [compile, compile, statements_eq hus, statements_eq htokens, parse_map_raise]

/-- A line with blanks around it, and a text at its end that begins and ends with white space.  What
it lacks is reported on the same line. -/
theorem compile_trim_blanks :
    trim "\t spit_it_out \"\u00a0x \" \r\n" = "spit_it_out \"\u00a0x \"" ∧
      compile "\t spit_it_out \"\u00a0x \" \r\n" =
        .error (.syntactic ⟨1, .endOfInput .printEnd⟩) ∧
      compile "spit_it_out \"\u00a0x \"" =
        .error (.syntactic ⟨1, .endOfInput .printEnd⟩) := by
  have htokens : tokenize "\t spit_it_out \"\u00a0x \" \r\n" = .ok
      [⟨⟨.print, "spit_it_out"⟩, ⟨2, 1⟩⟩, ⟨⟨.string, "\"\u00a0x \""⟩, ⟨14, 1⟩⟩] := by
    decide +kernel
  have htrim : trim "\t spit_it_out \"\u00a0x \" \r\n" = "spit_it_out \"\u00a0x \"" := by
    decide +kernel
  have hcompile : compile "\t spit_it_out \"\u00a0x \" \r\n" =
      .error (.syntactic ⟨1, .endOfInput .printEnd⟩) := by decide +kernel
  have hsame := compile_trim htokens (by decide)
  rw [htrim] at hsame
  exact ⟨htrim, hcompile, hsame.trans hcompile⟩

/-- A line without tokens may gain some, since more than blanks is trimmed; and where a line end is
trimmed in front, errors move up. -/
example : compile (trim "gimme_that\u00a0") ≠ compile "gimme_that\u00a0" ∧
    compile (trim "\ngimme_that") ≠ compile "\ngimme_that" := by decide +kernel

end Brew
