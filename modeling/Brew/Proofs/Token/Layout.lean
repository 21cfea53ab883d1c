import Brew.Proofs.Token.Munch

/-!
# Where the tokens of a source stand

A source that has tokens consists of them and of the gaps around them, and every token says where it
stands: how many UTF-8 bytes are before it, and on which line.  A source that has no tokens is cut
by its error.  What stands before the offending character has exactly the tokens that were found up
to there, because the lexemes found were the longest ones and a shorter text cannot offer longer
ones.

## Main definitions

* `Piece`, `Piece.spell`: a gap with the token behind it

## Main results

* `Lexicon.Munches.exists_pieces`: the text of a scan that comes to its end
* `Lexicon.Munches.exists_cut`: the text of a scan that gets stuck
* `tokenize_exact`: nothing of a source is lost, and every position is right
-/

namespace Brew

/-- A gap with the token behind it. -/
structure Piece where
  gap : List Char
  token : Token
deriving DecidableEq, Repr

/-- The characters of a piece. -/
def Piece.spell (piece : Piece) : List Char := piece.gap ++ piece.token.text.toList

/-- A piece that begins at a place is right if it begins with a gap, and its token has some text and
knows where this text begins. -/
structure Piece.Placed (p : Position) (piece : Piece) : Prop where
  gap : Gap piece.gap
  text_ne : piece.token.text ≠ ""
  position : piece.token.toPosition = p.advance piece.gap

namespace Lexicon.Munches

variable {lexicon : Lexicon} {p : Position} {cs : List Char} {s : Scan}

/-- **The text of a scan that comes to its end** is made of the pieces of its tokens and of a last
gap. -/
theorem exists_pieces (hlexicon : lexicon.Unambiguous) (h : lexicon.Munches p cs s)
    (hs : s.error = none) :
    ∃ pieces last, s.tokens = pieces.map Piece.token ∧ cs = pieces.flatMap Piece.spell ++ last ∧
      Gap last ∧ ∀ before piece after, pieces = before ++ piece :: after →
        piece.Placed (p.advance (before.flatMap Piece.spell)) := by
  induction h with
  | finished hgap =>
    refine ⟨[], _, rfl, rfl, hgap, fun before piece after hsplit => ?_⟩
    exact absurd hsplit (List.append_ne_nil_of_right_ne_nil before (List.cons_ne_nil _ _)).symm
  | stuck => exact nomatch hs
  | @token p gap rest l pattern s hgap hmem hlongest _ ih =>
    obtain ⟨pieces, last, htokens, rfl, hlast, hplaced⟩ := ih hs
    have htext : l.text ≠ "" := by
      obtain ⟨c, tail, htext, -⟩ := hlexicon.exists_cons hmem hlongest.describes
      rintro hempty
      rw [hempty] at htext
      exact nomatch htext
    refine ⟨⟨gap, l, p.advance gap⟩ :: pieces, last, congrArg _ htokens, ?_, hlast, ?_⟩
    · rw [List.flatMap_cons, Piece.spell, List.append_assoc, List.append_assoc]
    · intro before piece after hsplit
      -- The piece in question is the new one or one of the others, which stand behind it.
      rcases List.cons_eq_append_iff.mp hsplit with ⟨rfl, hcons⟩ | ⟨before, rfl, hrest⟩
      · obtain ⟨rfl, -⟩ := List.cons.inj hcons
        exact ⟨hgap, htext, rfl⟩
      · rw [List.flatMap_cons, Position.advance_append]
        exact hplaced before piece after hrest

/-- **The text of a scan that gets stuck**, cut at the offending character, has exactly the tokens
found before. -/
theorem exists_cut (h : lexicon.Munches p cs s) {e : LexError} (hs : s.error = some e) :
    ∃ front back, cs = front ++ e.found :: back ∧ e.toPosition = p.advance front ∧
      Text.isBlank e.found = false ∧
      (∀ entry ∈ lexicon, ∀ w, w <+: e.found :: back → ¬ entry.2.Describes w) ∧
      lexicon.Munches p front ⟨s.tokens, none⟩ := by
  induction h with
  | finished => exact nomatch hs
  | @stuck p gap rest c hgap hvisible hnone =>
    obtain rfl : (⟨p.advance gap, c⟩ : LexError) = e := Option.some.inj hs
    exact ⟨gap, rest, rfl, rfl, hvisible, hnone, .finished hgap⟩
  | @token p gap rest l pattern s hgap hmem hlongest _ ih =>
    obtain ⟨front, back, rfl, hposition, hvisible, hnone, hfront⟩ := ih hs
    refine ⟨gap ++ (l.text.toList ++ front), back, by simp, ?_, hvisible, hnone, ?_⟩
    · rw [hposition, ← List.append_assoc, Position.advance_append _ (gap ++ _)]
    · -- The lexeme is still the longest one if the text ends before the offending character.
      exact .token hgap hmem (hlongest.cut (List.prefix_append _ _)) hfront

end Lexicon.Munches

/-- The place behind the beginning of a source, counted out. -/
theorem Position.start_advance (front : List Char) :
    (Position.start.advance front).offset = (String.ofList front).utf8ByteSize ∧
      (Position.start.advance front).line = 1 + front.count '\n' := by
  rw [offset_advance, line_advance]
  exact ⟨Nat.zero_add _, rfl⟩

/-- **Nothing of a source is lost, and every position is right.** -/
theorem tokenize_exact (source : String) :
    (∀ tokens, tokenize source = .ok tokens →
      ∃ pieces last, tokens = pieces.map Piece.token ∧
        source.toList = pieces.flatMap Piece.spell ++ last ∧ Gap last ∧
        ∀ before piece after, pieces = before ++ piece :: after →
          Gap piece.gap ∧ piece.token.text ≠ "" ∧
          piece.token.offset =
            (String.ofList (before.flatMap Piece.spell ++ piece.gap)).utf8ByteSize ∧
          piece.token.line = 1 + (before.flatMap Piece.spell ++ piece.gap).count '\n') ∧
    ∀ e, tokenize source = .error e →
      ∃ front back, source.toList = front ++ e.found :: back ∧
        e.offset = (String.ofList front).utf8ByteSize ∧ e.line = 1 + front.count '\n' ∧
        Text.isBlank e.found = false ∧
        (∀ entry ∈ lexicon, entry.2.lexeme? (e.found :: back) = none) ∧
        tokenize (String.ofList front) = .ok (lexicon.scan source).tokens := by
  constructor
  · intro tokens h
    obtain ⟨pieces, last, htokens, hsource, hlast, hplaced⟩ :=
      (tokenize_eq_ok_iff.mp h).exists_pieces lexicon_unambiguous rfl
    refine ⟨pieces, last, htokens, hsource, hlast, fun before piece after hsplit => ?_⟩
    obtain ⟨hgap, htext, hposition⟩ := hplaced before piece after hsplit
    rw [← Position.advance_append] at hposition
    obtain ⟨hoffset, hline⟩ := Position.start_advance (before.flatMap Piece.spell ++ piece.gap)
    rw [← hposition] at hoffset hline
    exact ⟨hgap, htext, hoffset, hline⟩
  · intro e h
    obtain ⟨tokens, hstuck⟩ := tokenize_eq_error_iff.mp h
    have hscan := (Lexicon.scan_eq_iff_munches lexicon_unambiguous).mpr hstuck
    obtain ⟨front, back, hsource, hposition, hvisible, hnone, hfront⟩ := hstuck.exists_cut rfl
    obtain ⟨hoffset, hline⟩ := Position.start_advance front
    rw [← hposition] at hoffset hline
    refine ⟨front, back, hsource, hoffset, hline, hvisible, fun entry hentry => ?_, ?_⟩
    · have hpattern := lexicon_unambiguous.pattern hentry
      exact (Pattern.lexeme?_eq_none_iff hpattern).mpr (hnone entry hentry)
    · rw [hscan, tokenize_eq_ok_iff, String.toList_ofList]
      exact hfront

/-- A text over two lines, with a character of two bytes, before a number and a stray point. -/
theorem tokenize_exact_two_lines :
    (tokenize "\"é\n\"7 " = .ok [⟨⟨.string, "\"é\n\""⟩, ⟨0, 1⟩⟩, ⟨⟨.number, "7"⟩, ⟨5, 2⟩⟩] ∧
      ∃ (pieces : List Piece) (last : List Char),
        [⟨⟨.string, "\"é\n\""⟩, ⟨0, 1⟩⟩, ⟨⟨.number, "7"⟩, ⟨5, 2⟩⟩] = pieces.map Piece.token ∧
        "\"é\n\"7 ".toList = pieces.flatMap Piece.spell ++ last ∧ Gap last) ∧
    (tokenize "\"é\n\"7 ." = .error ⟨⟨7, 2⟩, '.'⟩ ∧
      ∃ front back, "\"é\n\"7 .".toList = front ++ '.' :: back ∧
        7 = (String.ofList front).utf8ByteSize ∧ 2 = 1 + front.count '\n' ∧
        tokenize (String.ofList front) = .ok (lexicon.scan "\"é\n\"7 .").tokens) := by
  have hok : tokenize "\"é\n\"7 " =
      .ok [⟨⟨.string, "\"é\n\""⟩, ⟨0, 1⟩⟩, ⟨⟨.number, "7"⟩, ⟨5, 2⟩⟩] := by decide +kernel
  have herror : tokenize "\"é\n\"7 ." = .error ⟨⟨7, 2⟩, '.'⟩ := by decide +kernel
  obtain ⟨pieces, last, htokens, hsource, hlast, -⟩ := (tokenize_exact _).1 _ hok
  obtain ⟨front, back, hcut, hoffset, hline, -, -, hfront⟩ := (tokenize_exact _).2 _ herror
  exact ⟨⟨hok, pieces, last, htokens, hsource, hlast⟩,
    herror, front, back, hcut, hoffset, hline, hfront⟩

end Brew
