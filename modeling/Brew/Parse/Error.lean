import Brew.Syntax.Vocabulary
import Brew.Token.Basic

/-!
# What can go wrong in parsing

The parser stops at the first lexeme that no program can have at its place, or at the end of an
unfinished program.  In both cases it says what it was waiting for, and every such expectation has
one fixed phrase.

## Main definitions

* `Expectation`: what the parser was waiting for
* `Problem`: how the input disappointed it
* `SyntaxError`: a problem with its line
* `ParseError`: a syntax error, or a data type that is none
-/

namespace Brew

/-- The three blocks of the language. -/
inductive BlockRole where
  | functionBody | thenBlock | elseBlock
deriving DecidableEq, Repr

/-- How messages call a block. -/
def BlockRole.phrase : BlockRole → String
  | functionBody => "function body"
  | thenBlock => "'then' block"
  | elseBlock => "'else' block"

/-- What the parser may be waiting for. -/
inductive Expectation where
  | dataType
  | variableName
  | scanName
  | functionName
  | parameterName
  | functionParen
  | condParen
  | condEnd
  | groupEnd
  | expression
  | assignMark
  | declareEnd
  | scanEnd
  | printEnd
  | returnEnd
  | assignEnd
  | blockStart (role : BlockRole)
  | blockEnd (role : BlockRole)
deriving DecidableEq, Repr

/-- How messages call what the parser was waiting for. -/
def Expectation.phrase : Expectation → String
  | dataType => "data type"
  | variableName => "variable name"
  | scanName => "variable name after 'gimme_that'"
  | functionName => "function name"
  | parameterName => "parameter name"
  | functionParen => "'(' after function name"
  | condParen => "'(' after 'Lowkey'"
  | condEnd => "')' after condition"
  | groupEnd => "')' after expression"
  | expression => "expression"
  | assignMark => "'=' after variable name"
  | declareEnd => "';' after variable declaration"
  | scanEnd => "';' after input statement"
  | printEnd => "';' after print statement"
  | returnEnd => "';' after return value"
  | assignEnd => "';' after assignment"
  | blockStart role => "'\x7b' to start " ++ role.phrase
  | blockEnd role => "'\x7d' after " ++ role.phrase

/-- How the input can fail to be a program. -/
inductive Problem where
  /-- Another lexeme was needed. -/
  | expected (what : Expectation) (found : Lexeme)
  /-- The input ended too early. -/
  | endOfInput (what : Expectation)
  /-- Neither a statement nor an operand starts with this lexeme. -/
  | unexpected (found : Lexeme)
deriving DecidableEq, Repr

/-- What is said about a problem. -/
def Problem.message : Problem → String
  | expected what found => "Expected " ++ what.phrase ++ ", found " ++ found.describe
  | endOfInput what => "Expected " ++ what.phrase ++ ", found end of input"
  | unexpected found => "Unexpected token " ++ found.describe

/-- A problem, and the line where it shows: that of the lexeme found, or of the last lexeme of an
input that ended too early. -/
structure SyntaxError where
  line : Nat
  problem : Problem
deriving DecidableEq, Repr

/-- What is said about a syntax error. -/
def SyntaxError.message (e : SyntaxError) : String :=
  "line " ++ toString e.line ++ ": " ++ e.problem.message

/-- Why a single lexeme is refused. -/
inductive Fault where
  | problem (p : Problem)
  | unknownWord (w : UnknownWord)
deriving DecidableEq, Repr

/-- Why a list of tokens is no program. -/
inductive ParseError where
  /-- The lexemes do not follow the grammar. -/
  | malformed (e : SyntaxError)
  /-- A lexeme claims to be a data type and is none.  No source has such a lexeme. -/
  | unknownWord (w : UnknownWord)
deriving DecidableEq, Repr

/-- What is said about a list of tokens that is no program. -/
def ParseError.message : ParseError → String
  | malformed e => e.message
  | unknownWord w => w.message

/-- The error of a lexeme that is refused on a line. -/
def Fault.onLine (line : Nat) : Fault → ParseError
  | problem p => .malformed ⟨line, p⟩
  | unknownWord w => .unknownWord w

end Brew
