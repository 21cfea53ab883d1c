import Brew.Proofs.Token.Longest
import Brew.Token.Scan

/-!
# Maximal munch

The scan can be described without saying how lexemes are searched for.  A source is a **gap** of
blanks, then the longest lexeme that fits, then the rest; or it ends after a gap; or behind the gap
there is a character at which no lexeme of any kind begins.  This module states that description as
a relation between a text and the outcome of its scan, and shows that the scan is the one outcome
that the description allows.

## Main definitions

* `Gap`: nothing but blanks
* `Lexicon.Munches`: the description of a scan

## Main results

* `Lexicon.munches_scanFrom`, `Lexicon.Munches.scanFrom_eq`: the scan follows the description, and
  nothing else does
* `tokenize_munches`: the tokens of a source are its longest lexemes, whatever the order of the
  lexicon
-/

namespace Brew

/-- A gap between lexemes: nothing but blanks. -/
def Gap (cs : List Char) : Prop := ∀ c ∈ cs, Text.isBlank c

instance : DecidablePred Gap := fun cs => decidable_of_iff (cs.all Text.isBlank) List.all_eq_true

theorem gap_nil : Gap [] := fun _ h => absurd h List.not_mem_nil

theorem gap_singleton {c : Char} (hc : Text.isBlank c) : Gap [c] := by
  rw [Gap, List.forall_mem_singleton]
  exact hc

theorem Gap.append {gap gap' : List Char} (h : Gap gap) (h' : Gap gap') : Gap (gap ++ gap') :=
  List.forall_mem_append.mpr ⟨h, h'⟩

namespace Lexicon

/-- **Maximal munch.**  The outcome of a scan from a place on: gaps are skipped, behind a gap the
longest lexeme that fits is taken, and the scan ends with the text or at a character at which no
lexeme begins. -/
inductive Munches (lexicon : Lexicon) : Position → List Char → Scan → Prop where
  | finished {p : Position} {gap : List Char} : Gap gap → Munches lexicon p gap Scan.empty
  | stuck {p : Position} {gap rest : List Char} {c : Char} :
      Gap gap → Text.isBlank c = false →
      (∀ entry ∈ lexicon, ∀ w, w <+: c :: rest → ¬ entry.2.Describes w) →
      Munches lexicon p (gap ++ c :: rest) (Scan.stuck ⟨p.advance gap, c⟩)
  | token {p : Position} {gap rest : List Char} {l : Lexeme} {pattern : Pattern} {s : Scan} :
      Gap gap → (l.kind, pattern) ∈ lexicon →
      pattern.Longest (l.text.toList ++ rest) l.text.toList →
      Munches lexicon (p.advance (gap ++ l.text.toList)) rest s →
      Munches lexicon p (gap ++ (l.text.toList ++ rest)) (s.cons ⟨l, p.advance gap⟩)

variable {lexicon lexicon' : Lexicon} {p : Position} {cs : List Char} {s : Scan}

/-! ## Beginnings of lexemes -/

/-- Every lexeme begins with a character that is no blank. -/
theorem Unambiguous.exists_cons (h : lexicon.Unambiguous) {kind : Lexeme.Kind} {pattern : Pattern}
    {w : List Char} (hmem : (kind, pattern) ∈ lexicon) (hw : pattern.Describes w) :
    ∃ c rest, w = c :: rest ∧ Text.isBlank c = false := by
  obtain ⟨mark, hmark, rest, rfl⟩ := Pattern.exists_mark_of_describes hw
  obtain ⟨c, hc, hvisible⟩ := h.visible mark (List.mem_flatMap.mpr ⟨_, hmem, hmark⟩)
  obtain ⟨tail, rfl⟩ := List.head?_eq_some_iff.mp hc
  exact ⟨c, tail ++ rest, rfl, hvisible⟩

theorem Unambiguous.proper (h : lexicon.Unambiguous) : lexicon.Proper := by
  rintro ⟨kind, pattern⟩ hmem
  cases pattern with
  | words spellings =>
    intro hempty
    obtain ⟨c, rest, hnil, -⟩ := h.exists_cons hmem ⟨"", hempty, rfl⟩
    exact nomatch hnil
  | _ => trivial

/-! ## The scan follows the description -/

theorem scanFrom_gap (p : Position) {gap : List Char} (hgap : Gap gap) (cs : List Char) :
    lexicon.scanFrom p 0 (gap ++ cs) = lexicon.scanFrom (p.advance gap) 0 cs := by
  induction gap generalizing p with
  | nil => rfl
  | cons c gap ih =>
    obtain ⟨hc, hgap⟩ := List.forall_mem_cons.mp hgap
    rw [List.cons_append, scanFrom_blank p hc, ih (p.next c) hgap, Position.advance_cons]

/-- **The description allows one outcome**, that of the scan. -/
theorem Munches.scanFrom_eq (hlexicon : lexicon.Unambiguous) (h : lexicon.Munches p cs s) :
    lexicon.scanFrom p 0 cs = s := by
  induction h with
  | @finished p gap hgap =>
    have hscan : lexicon.scanFrom p 0 (gap ++ []) = lexicon.scanFrom (p.advance gap) 0 [] :=
      scanFrom_gap p hgap []
    rwa [List.append_nil, scanFrom_nil] at hscan
  | stuck hgap hvisible hnone =>
    rw [scanFrom_gap _ hgap]
    exact scanFrom_stuck _ hvisible ((lexeme?_eq_none_iff hlexicon).mpr hnone)
  | @token p gap rest l pattern s hgap hmem hlongest _ ih =>
    have hl := (lexeme?_eq_some_iff hlexicon).mpr ⟨pattern, hmem, hlongest⟩
    obtain ⟨c, tail, htext, hvisible⟩ := hlexicon.exists_cons hmem hlongest.describes
    rw [scanFrom_gap _ hgap, ← ih, Position.advance_append]
    have hsplit : c :: (tail ++ rest) = l.text.toList ++ rest := by rw [htext, List.cons_append]
    rw [← hsplit] at hl ⊢
    exact scanFrom_lexeme hlexicon.proper (p.advance gap) hvisible hl hsplit

/-- A gap in front is skipped. -/
theorem Munches.gap_append {gap : List Char} (hgap : Gap gap)
    (h : lexicon.Munches (p.advance gap) cs s) : lexicon.Munches p (gap ++ cs) s := by
  cases h with
  | finished hgap' => exact .finished (hgap.append hgap')
  | stuck hgap' hvisible hnone =>
    rw [← List.append_assoc, ← Position.advance_append]
    exact .stuck (hgap.append hgap') hvisible hnone
  | token hgap' hmem hlongest hrest =>
    rw [← List.append_assoc, ← Position.advance_append]
    rw [← Position.advance_append, ← List.append_assoc] at hrest
    exact .token (hgap.append hgap') hmem hlongest hrest

/-- **The scan follows the description.** -/
theorem munches_scanFrom (hlexicon : lexicon.Unambiguous) (p : Position) (cs : List Char) :
    lexicon.Munches p cs (lexicon.scanFrom p 0 cs) := by
  -- Induction on the length: a blank or a lexeme leaves a shorter text.
  induction hn : cs.length using Nat.strongRecOn generalizing p cs with
  | ind n ih =>
    subst hn
    cases cs with
    | nil =>
      rw [scanFrom_nil]
      exact .finished gap_nil
    | cons c rest =>
      cases hc : Text.isBlank c with
      | true =>
        have hrest := ih rest.length (Nat.lt_succ_self _) (p.next c) rest rfl
        rw [scanFrom_blank p hc]
        exact Munches.gap_append (List.forall_mem_singleton.mpr hc) hrest
      | false =>
        cases hl : lexicon.lexeme? (c :: rest) with
        | none =>
          rw [scanFrom_stuck p hc hl]
          exact Munches.stuck gap_nil hc ((lexeme?_eq_none_iff hlexicon).mp hl)
        | some l =>
          obtain ⟨pattern, hmem, hlongest⟩ := (lexeme?_eq_some_iff hlexicon).mp hl
          obtain ⟨behind, hbehind⟩ := hlongest.isPrefix
          have hshorter : behind.length < (c :: rest).length := by
            have hpos := List.length_pos_iff.mpr (ne_nil_of_lexeme? hlexicon.proper hl)
            rw [← hbehind, List.length_append]
            omega
          have hrest := ih behind.length hshorter (p.advance l.text.toList) behind rfl
          rw [scanFrom_lexeme hlexicon.proper p hc hl hbehind.symm, ← hbehind]
          rw [← hbehind] at hlongest
          exact Munches.token gap_nil hmem hlongest hrest

theorem scan_eq_iff_munches (hlexicon : lexicon.Unambiguous) {source : String} :
    lexicon.scan source = s ↔ lexicon.Munches Position.start source.toList s := by
  constructor
  · rintro rfl
    exact munches_scanFrom hlexicon _ _
  · exact Munches.scanFrom_eq hlexicon

/-- The scan depends on the lexicon only through the lexemes that are found. -/
theorem scanFrom_congr (h : ∀ cs, lexicon'.lexeme? cs = lexicon.lexeme? cs) (p : Position) (n : Nat)
    (cs : List Char) : lexicon'.scanFrom p n cs = lexicon.scanFrom p n cs := by
  induction cs generalizing p n with
  | nil => rw [scanFrom_nil, scanFrom_nil]
  | cons c cs ih =>
    cases n with
    | succ n => rw [scanFrom, scanFrom, ih]
    | zero => simp only [scanFrom, h, ih]

end Lexicon

/-! ## The tokens of a source -/

/-- A source has tokens exactly if its scan comes to the end. -/
theorem tokenize_eq_ok_iff {source : String} {tokens : List Token} :
    tokenize source = .ok tokens ↔
      lexicon.Munches Position.start source.toList ⟨tokens, none⟩ := by
  rw [← Lexicon.scan_eq_iff_munches lexicon_unambiguous, tokenize, Lexicon.tokenize]
  obtain ⟨tokens', error⟩ := lexicon.scan source
  cases error <;> simp [Scan.toExcept]

/-- A source has an error exactly if its scan gets stuck. -/
theorem tokenize_eq_error_iff {source : String} {e : LexError} :
    tokenize source = .error e ↔
      ∃ tokens, lexicon.Munches Position.start source.toList ⟨tokens, some e⟩ := by
  simp only [← Lexicon.scan_eq_iff_munches lexicon_unambiguous, tokenize, Lexicon.tokenize]
  obtain ⟨tokens', error⟩ := lexicon.scan source
  cases error <;> simp [Scan.toExcept]

/-- **The tokens of a source are its longest lexemes.**  At most one entry of the lexicon fits at a
place, and at most one of its words, so their order does not matter; the tokens and the error of a
source are those of maximal munch. -/
theorem tokenize_munches (source : String) :
    (∀ cs : List Char,
      (lexicon.Pairwise fun e e' => e.2.lexeme? cs = none ∨ e'.2.lexeme? cs = none) ∧
      ∀ kind spellings, (kind, Pattern.words spellings) ∈ lexicon →
        spellings.Pairwise fun u v => ¬ (u.toList <+: cs ∧ v.toList <+: cs)) ∧
    (∀ lexicon', lexicon.Rearranged lexicon' →
      Lexicon.tokenize lexicon' source = tokenize source) ∧
    (∀ tokens, tokenize source = .ok tokens ↔
      lexicon.Munches Position.start source.toList ⟨tokens, none⟩) ∧
    ∀ e, tokenize source = .error e ↔
      ∃ tokens, lexicon.Munches Position.start source.toList ⟨tokens, some e⟩ := by
  refine ⟨fun cs => ⟨lexicon_unambiguous.pairwise cs, fun kind spellings hmem => ?_⟩,
    fun lexicon' h => ?_, fun _ => tokenize_eq_ok_iff, fun _ => tokenize_eq_error_iff⟩
  · exact lexicon_unambiguous.pairwise_words hmem cs
  · have hlexeme := Lexicon.lexeme?_rearranged h lexicon_unambiguous
    exact congrArg Scan.toExcept (Lexicon.scanFrom_congr hlexeme _ _ _)

/-- A pattern with its words in the opposite order. -/
def Pattern.backwards : Pattern → Pattern
  | words spellings => words spellings.reverse
  | p => p

/-- A lexicon in the opposite order, with the words of each entry in the opposite order too. -/
def Lexicon.backwards (lexicon : Lexicon) : Lexicon :=
  lexicon.reverse.map fun entry => (entry.1, entry.2.backwards)

theorem Lexicon.rearranged_backwards (lexicon : Lexicon) : lexicon.Rearranged lexicon.backwards := by
  refine ⟨lexicon.reverse, (List.reverse_perm lexicon).symm, ?_⟩
  refine List.forall₂_map_right_iff.mpr (List.forall₂_same.mpr ?_)
  rintro ⟨kind, p⟩ -
  cases p with
  | words spellings => exact ⟨rfl, .words (List.reverse_perm spellings).symm⟩
  | _ => exact ⟨rfl, .same _⟩

/-- The tokens of a source in which most lexemes touch, with the lexicon in either order. -/
theorem tokenize_munches_backwards :
    lexicon.Rearranged lexicon.backwards ∧
      Lexicon.tokenize lexicon.backwards "FRint wtl_a1=1.5;spill'\"'" =
        tokenize "FRint wtl_a1=1.5;spill'\"'" ∧
      tokenize "FRint wtl_a1=1.5;spill'\"'" =
        .ok [⟨⟨.declare, "FR"⟩, ⟨0, 1⟩⟩, ⟨⟨.dataType, "int"⟩, ⟨2, 1⟩⟩,
          ⟨⟨.identifier, "wtl_a1"⟩, ⟨6, 1⟩⟩, ⟨⟨.assign, "="⟩, ⟨12, 1⟩⟩,
          ⟨⟨.number, "1.5"⟩, ⟨13, 1⟩⟩, ⟨⟨.semicolon, ";"⟩, ⟨16, 1⟩⟩,
          ⟨⟨.ret, "spill"⟩, ⟨17, 1⟩⟩, ⟨⟨.character, "'\"'"⟩, ⟨22, 1⟩⟩] := by
  refine ⟨lexicon.rearranged_backwards, ?_, by decide +kernel⟩
  exact (tokenize_munches _).2.1 lexicon.backwards lexicon.rearranged_backwards

end Brew
