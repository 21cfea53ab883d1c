import Brew.Compile
import Brew.Proofs.Parse.Completeness

/-!
# The stages of a compilation

A compilation is a chain of stages, each of which may fail.  What a later stage is about is only
ever the outcome of the stages before it, so a statement about compilation starts from the
statements of the source, or from its tokens.

## Main results

* `statements_eq_ok_iff`: the statements of a source are the parse of its tokens
* `compile_eq`, `compile_eq_error`: the outcome of a compilation whose statements are known, or
  known to be missing
* `exists_of_compile_eq_ok`: code is the code of statements that pass the check
-/

namespace Brew

/-- The outcome of parsing a source whose tokens are known. -/
theorem statements_eq {source : String} {tokens : List Token} (h : tokenize source = .ok tokens) :
    statements source = (parse tokens).mapError CompileError.ofParse := by
  rw [statements, h]
  rfl

theorem statements_eq_ok_iff {source : String} {program : List Stmt} :
    statements source = .ok program ↔
      ∃ tokens, tokenize source = .ok tokens ∧ parse tokens = .ok program := by
  cases htokens : tokenize source with
  | error e =>
    rw [statements, htokens]
    exact iff_of_false (fun h => nomatch h) fun ⟨_, h, _⟩ => nomatch h
  | ok tokens =>
    rw [statements_eq htokens, mapError_eq_ok_iff]
    constructor
    · intro h
      exact ⟨tokens, rfl, h⟩
    · rintro ⟨_, ⟨⟩, h⟩
      exact h

/-- The outcome of a compilation whose statements are known. -/
theorem compile_eq {source : String} {program : List Stmt} (h : statements source = .ok program) :
    compile source =
      match check program with
      | .ok _ => .ok (lower program)
      | .error v => .error (.semantic v) := by
  rw [compile, h]
  change ((check program).mapError CompileError.semantic >>= fun _ => pure (lower program)) = _
  cases check program <;> rfl

/-- A source without statements fails to compile for the same reason. -/
theorem compile_eq_error {source : String} {e : CompileError} (h : statements source = .error e) :
    compile source = .error e := by
  rw [compile, h]
  rfl

theorem exists_of_compile_eq_ok {source : String} {code : List Instr}
    (h : compile source = .ok code) :
    ∃ program, statements source = .ok program ∧ check program = .ok () ∧
      lower program = code := by
  cases hstatements : statements source with
  | error e =>
    rw [compile_eq_error hstatements] at h
    exact nomatch h
  | ok program =>
    rw [compile_eq hstatements] at h
    cases hcheck : check program with
    | error v =>
      rw [hcheck] at h
      exact nomatch h
    | ok u =>
      rw [hcheck] at h
      exact ⟨program, rfl, hcheck, Except.ok.inj h⟩

end Brew
