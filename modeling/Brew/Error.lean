import Brew.Parse.Error
import Brew.Scope.Basic
import Brew.Token.Scan

/-!
# Why a compilation fails

Each stage has errors of its own and the first error ends the compilation.  This module joins them
and says which stage an error comes from.

## Main definitions

* `CompileError`: the error of some stage
* `CompileError.message`: what the user is told
-/

namespace Brew

/-- What fails for reasons other than the source. -/
inductive InternalError where
  | unknownWord (w : UnknownWord)
  /-- A file cannot be read as text. -/
  | unreadable (path : String)
deriving DecidableEq, Repr

/-- What is said about an internal error. -/
def InternalError.message : InternalError → String
  | unknownWord w => w.message
  | unreadable path => "Failed open source file " ++ path

/-- Why a compilation fails. -/
inductive CompileError where
  | lexical (e : LexError)
  | syntactic (e : SyntaxError)
  | semantic (v : Violation)
  | internal (e : InternalError)
deriving DecidableEq, Repr

namespace CompileError

/-- How the user is told which stage failed. -/
def stage : CompileError → String
  | lexical _ => "Lex error"
  | syntactic _ => "Parse error"
  | semantic _ => "Semantic error"
  | internal _ => "CompilerInternalError"

/-- What the stage itself says. -/
def detail : CompileError → String
  | lexical e => e.message
  | syntactic e => e.message
  | semantic v => v.message
  | internal e => e.message

/-- What the user is told. -/
def message (e : CompileError) : String := e.stage ++ ": " ++ e.detail

/-- The error of a compilation whose tokens are no program. -/
def ofParse : ParseError → CompileError
  | .malformed e => syntactic e
  | .unknownWord w => internal (.unknownWord w)

end CompileError

end Brew
