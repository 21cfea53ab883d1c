import Brew.Proofs.Code.Renumbering
import Brew.Proofs.Parse.Soundness
import Brew.Proofs.Scope.Extension
import Brew.Proofs.Stages
import Brew.Proofs.Token.Joining
import Brew.Proofs.Token.Lexemes

/-!
# Joined sources

Two sources that compile can be put one behind the other, with a line break between them, and every
stage goes on where the first source ends.  No lexeme crosses the line break; no statement of the
first source takes in a token of the second; the names of the second mean what they meant, with older
names around them; and its code is the same up to the numbering.  The one thing that can go wrong is
that both sources declare the same name globally.

## Main results

* `statements_join`: the statements of joined sources
* `compile_join`: the code of joined sources, or the first name that is declared twice
-/

namespace Brew

variable {a b : String}

/-- **The statements of joined sources** are those of the first and then those of the second. -/
theorem statements_join {xs ys : List Stmt} (ha : statements a = .ok xs)
    (hb : statements b = .ok ys) : statements (a ++ "\n" ++ b) = .ok (xs ++ ys) := by
  obtain ⟨ts, hts, hxs⟩ := statements_eq_ok_iff.mp ha
  obtain ⟨us, hus, hys⟩ := statements_eq_ok_iff.mp hb
  have hgap : Gap "\n".toList := gap_singleton rfl
  refine statements_eq_ok_iff.mpr ⟨_, tokenize_join hts hus hgap (by decide), parse_of_program ?_⟩
  -- Tokens further down have the same lexemes, and so they spell the same statements.
  have hlexemes : ∀ bytes lines, (us.map (Token.raise bytes lines)).map Token.toLexeme =
      us.map Token.toLexeme := by
    intro bytes lines
    rw [List.map_map]
    rfl
  rw [List.map_append, hlexemes]
  exact (program_of_parse (quoted_of_tokenize hts) hxs).append
    (program_of_parse (quoted_of_tokenize hus) hys)

/-- **Joining sources joins their code.**  If the sources declare different names globally, the code
of the second follows that of the first, with its temporaries and labels numbered on from there.
Otherwise the first name of the second source that the first one declares too is reported. -/
theorem compile_join {p q : List Instr} (ha : compile a = .ok p) (hb : compile b = .ok q) :
    ∃ xs ys, statements a = .ok xs ∧ statements b = .ok ys ∧
      compile (a ++ "\n" ++ b) =
        match (declaredNames ys).find? (· ∈ declaredNames xs) with
        | none => .ok (p ++ q.map (Instr.shift (tempsIn p).card (labelsIn p).card))
        | some name => .error (.semantic (.duplicate name)) := by
  obtain ⟨xs, hxs, hcheckx, rfl⟩ := exists_of_compile_eq_ok ha
  obtain ⟨ys, hys, hchecky, rfl⟩ := exists_of_compile_eq_ok hb
  refine ⟨xs, ys, hxs, hys, ?_⟩
  rw [compile_eq (statements_join hxs hys), check_append hcheckx hchecky, ← lower_append]
  cases (declaredNames ys).find? (· ∈ declaredNames xs) with
  | none => rfl
  | some name => rfl

/-- A branch follows another one with raised numbers, also if it declares the global name of the
first source in its own scope; but the first source cannot follow itself. -/
theorem compile_join_branches :
    compile "FR int wtl_x = 1; Lowkey(2) \x7b\x7d" = .ok
        [.assign (.temp ⟨1⟩) (.number "1"), .assign (.ident "wtl_x") (.temp ⟨1⟩),
          .gotoIf (.number "2") ⟨1⟩, .goto ⟨2⟩, .label ⟨1⟩, .goto ⟨3⟩, .label ⟨2⟩, .label ⟨3⟩] ∧
      compile "Lowkey(3) \x7b FR int wtl_x = 4; \x7d" = .ok
        [.gotoIf (.number "3") ⟨1⟩, .goto ⟨2⟩, .label ⟨1⟩, .assign (.temp ⟨1⟩) (.number "4"),
          .assign (.ident "wtl_x") (.temp ⟨1⟩), .goto ⟨3⟩, .label ⟨2⟩, .label ⟨3⟩] ∧
      compile ("FR int wtl_x = 1; Lowkey(2) \x7b\x7d" ++ "\n" ++
          "Lowkey(3) \x7b FR int wtl_x = 4; \x7d") = .ok
        [.assign (.temp ⟨1⟩) (.number "1"), .assign (.ident "wtl_x") (.temp ⟨1⟩),
          .gotoIf (.number "2") ⟨1⟩, .goto ⟨2⟩, .label ⟨1⟩, .goto ⟨3⟩, .label ⟨2⟩, .label ⟨3⟩,
          .gotoIf (.number "3") ⟨4⟩, .goto ⟨5⟩, .label ⟨4⟩, .assign (.temp ⟨2⟩) (.number "4"),
          .assign (.ident "wtl_x") (.temp ⟨2⟩), .goto ⟨6⟩, .label ⟨5⟩, .label ⟨6⟩] ∧
      compile ("FR int wtl_x = 1; Lowkey(2) \x7b\x7d" ++ "\n" ++
          "FR int wtl_x = 1; Lowkey(2) \x7b\x7d") = .error (.semantic (.duplicate "wtl_x")) := by
  have ha : compile "FR int wtl_x = 1; Lowkey(2) \x7b\x7d" = .ok
      [.assign (.temp ⟨1⟩) (.number "1"), .assign (.ident "wtl_x") (.temp ⟨1⟩),
        .gotoIf (.number "2") ⟨1⟩, .goto ⟨2⟩, .label ⟨1⟩, .goto ⟨3⟩, .label ⟨2⟩, .label ⟨3⟩] := by
    decide +kernel
  have hb : compile "Lowkey(3) \x7b FR int wtl_x = 4; \x7d" = .ok
      [.gotoIf (.number "3") ⟨1⟩, .goto ⟨2⟩, .label ⟨1⟩, .assign (.temp ⟨1⟩) (.number "4"),
        .assign (.ident "wtl_x") (.temp ⟨1⟩), .goto ⟨3⟩, .label ⟨2⟩, .label ⟨3⟩] := by
    decide +kernel
  have hglobal : (statements "FR int wtl_x = 1; Lowkey(2) \x7b\x7d").map declaredNames =
      .ok ["wtl_x"] := by decide +kernel
  have hlocal : (statements "Lowkey(3) \x7b FR int wtl_x = 4; \x7d").map declaredNames =
      .ok [] := by decide +kernel
  refine ⟨ha, hb, ?_, ?_⟩
  · obtain ⟨xs, ys, -, hys, hjoin⟩ := compile_join ha hb
    rw [hys] at hlocal
    rw [hjoin, Except.ok.inj hlocal]
    rfl
  · obtain ⟨xs, ys, hxs, hys, hjoin⟩ := compile_join ha ha
    cases hxs.symm.trans hys
    rw [hxs] at hglobal
    rw [hjoin, Except.ok.inj hglobal]
    rfl

end Brew
