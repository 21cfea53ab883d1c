import Brew.Code.Lower
import Brew.Error
import Brew.Parse.Program
import Brew.Scope.Check

/-!
# Compiling a source

A source is cut into tokens, read as statements, checked and lowered.  The first stage that fails
decides the error.

## Main definitions

* `statements`: the statements of a source
* `compile`: the code of a source
* `View`, `View.render`: a source as tokens, as statements or as code
-/

namespace Brew

/-- The statements of a source, unchecked. -/
def statements (source : String) : Except CompileError (List Stmt) := do
  let tokens ← (tokenize source).mapError .lexical
  (parse tokens).mapError .ofParse

/-- **The code of a source.** -/
def compile (source : String) : Except CompileError (List Instr) := do
  let program ← statements source
  (check program).mapError .semantic
  return lower program

/-- The forms in which a source can be shown. -/
inductive View where
  | tokens | tree | code
deriving DecidableEq, Repr

/-- A source in one of its forms, one item on each line.  Only code requires the source to pass the
check. -/
def View.render (view : View) (source : String) : Except CompileError String :=
  match view with
  | .tokens => do
    let tokens ← (tokenize source).mapError .lexical
    return "\n".intercalate (tokens.map fun t => t.toLexeme.render)
  | .tree => do
    let program ← statements source
    return "\n".intercalate (program.map Stmt.render)
  | .code => do
    let code ← compile source
    return listing code

end Brew
