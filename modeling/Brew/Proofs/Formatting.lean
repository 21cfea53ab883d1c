import Mathlib.Data.List.Forall2
import Brew.Proofs.Safety

/-!
# Layout does not matter

The parser carries the line of the last token along and puts it into its errors.  That is all it
does with a place: in which state it is depends on the lexemes alone.  So two runs over tokens with
the same lexemes go through the same states and end in the same way, up to the line that an error
names; and what relates the lines of all tokens relates these two lines as well.  Since the checker
and the generator see only statements, the layout of a source has no influence on anything but the
line of a syntax error.

## Main definitions

* `Token.Matches`: the same lexeme, on related lines
* `Parse.Agree`: the same outcome, up to related lines

## Main results

* `Parse.State.run_agree`, `parse_agree`: tokens that match have outcomes that agree
* `compile_of_lexemes_eq`: sources with the same lexemes compile to the same code or have the same
  error, up to the line of a syntax error
-/

namespace Brew

variable {R : Nat → Nat → Prop} {ts us : List Token}

/-- The same lexeme, on related lines. -/
def Token.Matches (R : Nat → Nat → Prop) (t u : Token) : Prop :=
  t.toLexeme = u.toLexeme ∧ R t.line u.line

/-- Tokens with the same lexemes match if any two lines may be related. -/
theorem Token.forall₂_matches (h : ts.map Token.toLexeme = us.map Token.toLexeme) :
    List.Forall₂ (Token.Matches fun _ _ => True) ts us := by
  rw [← List.forall₂_eq_eq_eq, List.forall₂_map_left_iff, List.forall₂_map_right_iff] at h
  exact h.imp fun _ _ hlexeme => ⟨hlexeme, trivial⟩

namespace Parse

/-- **The same outcome, up to related lines**: the same statements, or the same fault. -/
inductive Agree (R : Nat → Nat → Prop) :
    Except ParseError (List Stmt) → Except ParseError (List Stmt) → Prop where
  | ok (program : List Stmt) : Agree R (.ok program) (.ok program)
  | error (fault : Fault) {line line' : Nat} :
      R line line' → Agree R (.error (fault.onLine line)) (.error (fault.onLine line'))

/-- Outcomes that agree up to equal lines are equal. -/
theorem Agree.eq {x y : Except ParseError (List Stmt)} (h : Agree (· = ·) x y) : x = y := by
  cases h with
  | ok => rfl
  | error fault hline => rw [hline]

/-- **Two runs from one state over tokens that match** have outcomes that agree. -/
theorem State.run_agree (h : List.Forall₂ (Token.Matches R) ts us) (st : State) {line line' : Nat}
    (hline : R line line') : Agree R (st.run line ts) (st.run line' us) := by
  -- Both runs are in the same state throughout, and only the lines they carry differ.
  induction h generalizing st line line' with
  | nil =>
    rw [run, run]
    cases st.finish with
    | ok program => exact .ok program
    | error fault => exact .error fault hline
  | @cons t u ts us hmatches _ ih =>
    obtain ⟨hlexeme, hlines⟩ := hmatches
    rw [run, run, ← hlexeme]
    cases st.step t.toLexeme with
    | ok next => exact ih next hlines
    | error fault => exact .error fault hlines

end Parse

/-- Tokens that match are parsed with outcomes that agree. -/
theorem parse_agree (h : List.Forall₂ (Token.Matches R) ts us) (hfirst : R 1 1) :
    Parse.Agree R (parse ts) (parse us) :=
  Parse.State.initial.run_agree h hfirst

/-- **Sources with the same lexemes** compile to the same code, or break the same rule, or have the
same problem of syntax, which may show on different lines. -/
theorem compile_of_lexemes_eq {a b : String} (ha : tokenize a = .ok ts) (hb : tokenize b = .ok us)
    (h : ts.map Token.toLexeme = us.map Token.toLexeme) :
    (∃ code, compile a = .ok code ∧ compile b = .ok code) ∨
    (∃ v, compile a = .error (.semantic v) ∧ compile b = .error (.semantic v)) ∨
    ∃ problem line line', compile a = .error (.syntactic ⟨line, problem⟩) ∧
      compile b = .error (.syntactic ⟨line', problem⟩) := by
  have hstatements := statements_eq ha
  have hstatements' := statements_eq hb
  have hknown := parse_ne_unknownWord (containsAll_of_tokenize ha)
  have hagree := parse_agree (Token.forall₂_matches h) trivial
  generalize parse ts = x at hstatements hknown hagree
  generalize parse us = y at hstatements' hagree
  cases hagree with
  | ok program =>
    rw [compile_eq hstatements, compile_eq hstatements']
    cases check program with
    | ok _ => exact .inl ⟨lower program, rfl, rfl⟩
    | error v => exact .inr (.inl ⟨v, rfl, rfl⟩)
  | @error fault line line' =>
    cases fault with
    | problem p =>
      exact .inr (.inr ⟨p, line, line', compile_eq_error hstatements, compile_eq_error hstatements'⟩)
    | unknownWord w => exact absurd rfl (hknown w)

/-- A declaration without an end, on one line and on three. -/
theorem compile_of_lexemes_eq_unfinished :
    compile "FR int wtl_x" = .error (.syntactic ⟨1, .endOfInput .declareEnd⟩) ∧
      ∃ line, compile "FR\nint\n\twtl_x " =
        .error (.syntactic ⟨line, .endOfInput .declareEnd⟩) := by
  have ha : tokenize "FR int wtl_x" = .ok [⟨⟨.declare, "FR"⟩, ⟨0, 1⟩⟩, ⟨⟨.dataType, "int"⟩, ⟨3, 1⟩⟩,
      ⟨⟨.identifier, "wtl_x"⟩, ⟨7, 1⟩⟩] := by decide +kernel
  have hb : tokenize "FR\nint\n\twtl_x " = .ok [⟨⟨.declare, "FR"⟩, ⟨0, 1⟩⟩,
      ⟨⟨.dataType, "int"⟩, ⟨3, 2⟩⟩, ⟨⟨.identifier, "wtl_x"⟩, ⟨8, 3⟩⟩] := by decide +kernel
  have hcompile : compile "FR int wtl_x" = .error (.syntactic ⟨1, .endOfInput .declareEnd⟩) := by
    decide +kernel
  refine ⟨hcompile, ?_⟩
  rcases compile_of_lexemes_eq ha hb rfl with
    ⟨code, hcode, -⟩ | ⟨v, hv, -⟩ | ⟨problem, line, line', hproblem, hother⟩
  · exact nomatch hcompile.symm.trans hcode
  · exact nomatch hcompile.symm.trans hv
  · cases hcompile.symm.trans hproblem
    exact ⟨line', hother⟩

end Brew
