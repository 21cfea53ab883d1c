import Brew.Proofs.Token.Munch

/-!
# Scanning joined texts

A scan that has come to the end of a text can go on behind a gap as if the rest stood alone.  The
lexemes of the first text stay the longest ones, since no lexeme is prolonged over a blank, and the
rest is scanned from a place that is further down by the bytes and the lines of what precedes it.

## Main definitions

* `Position.raise`, `Token.raise`, `LexError.raise`, `Scan.raise`: further down in a source
* `Scan.prepend`: a scan that finds some more tokens first

## Main results

* `Lexicon.Munches.raise`, `Lexicon.Munches.exists_raise`: what is found does not depend on the place
* `Lexicon.Munches.join`: maximal munch goes on behind a gap
* `Lexicon.scan_join`: the scan of two texts joined by a gap
* `tokenize_append_gap`: behind a gap the scan starts afresh
-/

namespace Brew

/-- A place further down in a source. -/
def Position.raise (bytes lines : Nat) (p : Position) : Position :=
  ⟨p.offset + bytes, p.line + lines⟩

/-- A token further down in a source. -/
def Token.raise (bytes lines : Nat) (t : Token) : Token :=
  ⟨t.toLexeme, t.toPosition.raise bytes lines⟩

/-- An error further down in a source. -/
def LexError.raise (bytes lines : Nat) (e : LexError) : LexError :=
  ⟨e.toPosition.raise bytes lines, e.found⟩

/-- The outcome of a scan further down in a source. -/
def Scan.raise (bytes lines : Nat) (s : Scan) : Scan :=
  ⟨s.tokens.map (Token.raise bytes lines), s.error.map (LexError.raise bytes lines)⟩

/-- The outcome of a scan that finds some more tokens first. -/
def Scan.prepend (tokens : List Token) (s : Scan) : Scan := ⟨tokens ++ s.tokens, s.error⟩

theorem Position.advance_raise (bytes lines : Nat) (p : Position) (cs : List Char) :
    (p.raise bytes lines).advance cs = (p.advance cs).raise bytes lines := by
  induction cs generalizing p with
  | nil => rfl
  | cons c cs ih =>
    have hnext : (p.raise bytes lines).next c = (p.next c).raise bytes lines := by
      rw [next, next, raise, raise, Nat.add_right_comm]
      split
      · rw [Nat.add_right_comm p.line]
      · rfl
    rw [advance_cons, advance_cons, hnext, ih]

/-- The place behind a text, as a place further down than the first one. -/
theorem Position.start_advance_eq_raise (cs : List Char) :
    Position.start.advance cs =
      Position.start.raise (String.ofList cs).utf8ByteSize (cs.count '\n') := by
  have hoffset := offset_advance start cs
  have hline := line_advance start cs
  generalize start.advance cs = p at hoffset hline
  obtain ⟨offset, line⟩ := p
  rw [raise, ← hoffset, ← hline]

namespace Lexicon

variable {lexicon : Lexicon} {p : Position} {cs : List Char} {s : Scan}

/-- **What is found does not depend on the place.** -/
theorem Munches.raise (h : lexicon.Munches p cs s) (bytes lines : Nat) :
    lexicon.Munches (p.raise bytes lines) cs (s.raise bytes lines) := by
  induction h with
  | finished hgap => exact .finished hgap
  | @stuck p gap rest c hgap hvisible hnone =>
    have h := Munches.stuck (p := p.raise bytes lines) hgap hvisible hnone
    rwa [Position.advance_raise] at h
  | token hgap hmem hlongest _ ih =>
    rw [← Position.advance_raise] at ih
    have h := Munches.token hgap hmem hlongest ih
    rwa [Position.advance_raise] at h

/-- What is found further down is what would be found here, further down. -/
theorem Munches.exists_raise (hlexicon : lexicon.Unambiguous) {bytes lines : Nat}
    (h : lexicon.Munches (p.raise bytes lines) cs s) :
    ∃ s', lexicon.Munches p cs s' ∧ s = s'.raise bytes lines := by
  have hhere := munches_scanFrom hlexicon p cs
  have hdown := (hhere.raise bytes lines).scanFrom_eq hlexicon
  exact ⟨_, hhere, (h.scanFrom_eq hlexicon).symm.trans hdown⟩

/-- **Maximal munch goes on behind a gap.** -/
theorem Munches.join (hlexicon : lexicon.Unambiguous) (h : lexicon.Munches p cs s)
    (hs : s.error = none) {gap rest : List Char} {s' : Scan} (hgap : Gap gap) (hne : gap ≠ [])
    (hrest : lexicon.Munches (p.advance (cs ++ gap)) rest s') :
    lexicon.Munches p (cs ++ (gap ++ rest)) (s'.prepend s.tokens) := by
  induction h with
  | stuck => exact nomatch hs
  | finished hfirst =>
    rw [← List.append_assoc]
    exact Munches.gap_append (hfirst.append hgap) hrest
  | @token p first behind l pattern s hfirst hmem hlongest _ ih =>
    obtain ⟨b, gap, rfl⟩ := List.exists_cons_of_ne_nil hne
    -- The blank keeps the lexeme from growing into what follows.
    have hblank := (List.forall_mem_cons.mp hgap).1
    have hlongest' := hlongest.append_blank (hlexicon.pattern hmem) hblank (gap ++ rest)
    rw [List.append_assoc] at hlongest'
    have hbehind : lexicon.Munches (p.advance (first ++ l.text.toList))
        (behind ++ (b :: gap ++ rest)) (s'.prepend s.tokens) := by
      refine ih hs ?_
      rw [← Position.advance_append]
      simpa only [List.append_assoc] using hrest
    rw [List.append_assoc first, List.append_assoc l.text.toList]
    exact Munches.token hfirst hmem hlongest' hbehind

/-- **The scan of two texts joined by a gap** finds the tokens of the first and then, further down,
what the scan of the second finds. -/
theorem scan_join (hlexicon : lexicon.Unambiguous) {a b gap : String} {tokens : List Token}
    (ha : lexicon.scan a = ⟨tokens, none⟩) (hgap : Gap gap.toList) (hne : gap ≠ "") :
    lexicon.scan (a ++ gap ++ b) =
      ((lexicon.scan b).raise (a ++ gap).utf8ByteSize ((a ++ gap).toList.count '\n')).prepend
        tokens := by
  have hfirst := (scan_eq_iff_munches hlexicon).mp ha
  have hrest := (munches_scanFrom hlexicon Position.start b.toList).raise (a ++ gap).utf8ByteSize
    ((a ++ gap).toList.count '\n')
  have hplace : Position.start.advance (a.toList ++ gap.toList) =
      Position.start.raise (a ++ gap).utf8ByteSize ((a ++ gap).toList.count '\n') := by
    rw [← String.toList_append, Position.start_advance_eq_raise, String.ofList_toList]
  rw [← hplace] at hrest
  have hjoin := hfirst.join hlexicon rfl hgap (mt String.toList_eq_nil_iff.mp hne) hrest
  have htext : (a ++ gap ++ b).toList = a.toList ++ (gap.toList ++ b.toList) := by
    rw [String.toList_append, String.toList_append, List.append_assoc]
  rw [scan_eq_iff_munches hlexicon, htext]
  exact hjoin

end Lexicon

/-- The tokens of two sources joined by a gap. -/
theorem tokenize_join {a b gap : String} {ts us : List Token} (ha : tokenize a = .ok ts)
    (hb : tokenize b = .ok us) (hgap : Gap gap.toList) (hne : gap ≠ "") :
    tokenize (a ++ gap ++ b) = .ok
      (ts ++ us.map (Token.raise (a ++ gap).utf8ByteSize ((a ++ gap).toList.count '\n'))) := by
  rw [tokenize_eq_ok_iff, ← Lexicon.scan_eq_iff_munches lexicon_unambiguous] at ha hb ⊢
  rw [Lexicon.scan_join lexicon_unambiguous ha hgap hne, hb]
  rfl

/-- **Behind a gap the scan starts afresh.**  Where a source that has tokens is followed by a gap and
by another source, it keeps its tokens, and the tokens or the error of the other source are found
further down, by the bytes and the line ends of all that precedes it. -/
theorem tokenize_append_gap {a gap : String} {ts : List Token} (ha : tokenize a = .ok ts)
    (hgap : Gap gap.toList) (hne : gap ≠ "") (b : String) :
    (∀ us, tokenize b = .ok us →
      tokenize (a ++ gap ++ b) = .ok (ts ++ us.map
        (Token.raise (a ++ gap).utf8ByteSize ((a ++ gap).toList.count '\n')))) ∧
    ∀ e, tokenize b = .error e →
      tokenize (a ++ gap ++ b) = .error
        (e.raise (a ++ gap).utf8ByteSize ((a ++ gap).toList.count '\n')) := by
  refine ⟨fun us hb => tokenize_join ha hb hgap hne, fun e hb => ?_⟩
  -- The scan of the second source gets stuck behind some tokens, and so does the one further down.
  obtain ⟨us, hstuck⟩ := tokenize_eq_error_iff.mp hb
  rw [tokenize_eq_ok_iff, ← Lexicon.scan_eq_iff_munches lexicon_unambiguous] at ha
  rw [← Lexicon.scan_eq_iff_munches lexicon_unambiguous] at hstuck
  have hscan := Lexicon.scan_join (b := b) lexicon_unambiguous ha hgap hne
  rw [hstuck] at hscan
  exact tokenize_eq_error_iff.mpr
    ⟨_, (Lexicon.scan_eq_iff_munches lexicon_unambiguous).mp hscan⟩

/-- Behind a text of two lines, with a character of two bytes, and a gap with another line end. -/
theorem tokenize_append_gap_lines :
    tokenize "\"é\n\"" = .ok [⟨⟨.string, "\"é\n\""⟩, ⟨0, 1⟩⟩] ∧
      tokenize ("\"é\n\"" ++ "\r\n" ++ "7 wtl_x") = .ok [⟨⟨.string, "\"é\n\""⟩, ⟨0, 1⟩⟩,
        ⟨⟨.number, "7"⟩, ⟨7, 3⟩⟩, ⟨⟨.identifier, "wtl_x"⟩, ⟨9, 3⟩⟩] ∧
      tokenize ("\"é\n\"" ++ "\r\n" ++ "7\n.5") = .error ⟨⟨9, 4⟩, '.'⟩ := by
  have ha : tokenize "\"é\n\"" = .ok [⟨⟨.string, "\"é\n\""⟩, ⟨0, 1⟩⟩] := by decide +kernel
  have hb : tokenize "7 wtl_x" =
      .ok [⟨⟨.number, "7"⟩, ⟨0, 1⟩⟩, ⟨⟨.identifier, "wtl_x"⟩, ⟨2, 1⟩⟩] := by decide +kernel
  have herror : tokenize "7\n.5" = .error ⟨⟨2, 2⟩, '.'⟩ := by decide +kernel
  exact ⟨ha, (tokenize_append_gap ha (by decide) (by decide) _).1 _ hb,
    (tokenize_append_gap ha (by decide) (by decide) _).2 _ herror⟩

end Brew
