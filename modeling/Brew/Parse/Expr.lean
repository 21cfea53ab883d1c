import Brew.Parse.Error
import Brew.Syntax.Expr
import Brew.Token.Meaning

/-!
# Reading an expression

Expressions are read one lexeme at a time.  Between two lexemes the reader either waits for an
**operand** or stands behind one, where an **operator** may follow.  In both cases all it has to
remember are the operators whose right side is still open: at each level of parentheses at most one
of each precedence, because an operator of the same or of a weaker precedence closes the one before
it.  This is what makes operators associate to the left.

## Main definitions

* `sumSymbols`, `productSymbols`: the operators of each precedence
* `Waiting`, `Level`: the open operators of one level of parentheses
* `ExprState`: the state of the reader between two lexemes
* `ExprState.step`: what one lexeme does
-/

namespace Brew

namespace Parse

/-- The operators between the terms of a sum. -/
def sumSymbols : List String := ["+", "-"]

/-- The operators between the factors of a term. -/
def productSymbols : List String := ["*", "/", "%"]

/-- An operator with its left operand, waiting for the right one, if there is one. -/
abbrev Waiting := Option (Expr × BinaryOp)

/-- The expression that arises when the right operand arrives. -/
def Waiting.close : Waiting → Expr → Expr
  | none, e => e
  | some (left, op), e => .binary op left e

/-- The open operators of one level of parentheses: a sum that waits for a term, and a term that
waits for a factor. -/
structure Level where
  sum : Waiting
  product : Waiting
deriving DecidableEq, Repr

/-- A level on which nothing was read yet. -/
def Level.fresh : Level := ⟨none, none⟩

/-- The state of the expression reader between two lexemes.  The levels of all parentheses that are
open around the current one are kept with the innermost first. -/
inductive ExprState where
  /-- An operand has to follow. -/
  | operand (here : Level) (outer : List Level)
  /-- A factor was read, and `term` is the product it completes. -/
  | operator (sum : Waiting) (term : Expr) (outer : List Level)
deriving DecidableEq, Repr

/-- What a lexeme does to the expression reader. -/
inductive ExprStep where
  /-- It belongs to the expression, which goes on. -/
  | more (state : ExprState)
  /-- The expression ended before it. -/
  | complete (e : Expr)
  /-- It fits nowhere. -/
  | refused (fault : Fault)
deriving DecidableEq, Repr

namespace ExprState

/-- The state before the first lexeme of an expression. -/
def start : ExprState := operand Level.fresh []

/-- The state behind a factor. -/
def behind (here : Level) (factor : Expr) (outer : List Level) : ExprState :=
  operator here.sum (here.product.close factor) outer

/-- What a lexeme behind the sum `e` does if it is no operator: it closes the innermost parenthesis,
or the expression is over. -/
def leave (l : Lexeme) (e : Expr) : List Level → ExprStep
  | [] => .complete e
  | here :: outer =>
    if l.kind = .rightParen then .more (behind here e outer)
    else .refused (.problem (.expected .groupEnd l))

/-- What one lexeme does. -/
def step (l : Lexeme) : ExprState → ExprStep
  | operand here outer =>
    match l.kind with
    | .number => .more (behind here (.number l.text) outer)
    | .identifier => .more (behind here (.ident l.text) outer)
    | .leftParen => .more (operand Level.fresh (here :: outer))
    | _ => .refused (.problem (.unexpected l))
  | operator sum term outer =>
    -- The term comes first: only an operator that does not continue it closes it.
    match l.operatorAmong productSymbols with
    | .error w => .refused (.unknownWord w)
    | .ok (some op) => .more (operand ⟨sum, some (term, op)⟩ outer)
    | .ok none =>
      match l.operatorAmong sumSymbols with
      | .error w => .refused (.unknownWord w)
      | .ok (some op) => .more (operand ⟨some (sum.close term, op), none⟩ outer)
      | .ok none => leave l (sum.close term) outer

/-- What the reader waits for, given what has to follow the whole expression. -/
def awaits (ending : Expectation) : ExprState → Expectation
  | operand _ _ => .expression
  | operator _ _ [] => ending
  | operator _ _ (_ :: _) => .groupEnd

end ExprState

end Parse

end Brew
