import Brew.Syntax.Vocabulary

/-!
# Expressions

An expression is a tree of operators over literals and names.  How it was grouped in the source is
visible in the shape of the tree only.  Literals keep their spelling, because no stage computes with
them.

## Main definitions

* `Expr`: the tree
* `Expr.render`: an expression in operator-first form
* `Expr.names`: the names an expression reads, from left to right
* `Expr.operations`: how many operators it applies
-/

namespace Brew

/-- An arithmetic expression. -/
inductive Expr where
  /-- A number as it is spelled. -/
  | number (spelling : String)
  /-- The value of a variable. -/
  | ident (name : String)
  /-- A text, without its quotes. -/
  | text (content : String)
  /-- An operator applied to two operands. -/
  | binary (op : BinaryOp) (left right : Expr)
deriving DecidableEq, Repr

namespace Expr

/-- An expression in operator-first form, with one pair of parentheses for each operator. -/
def render : Expr → String
  | number spelling => spelling
  | ident name => name
  | text content => "\"" ++ content ++ "\""
  | binary op left right =>
    "(" ++ op.symbol ++ " " ++ left.render ++ " " ++ right.render ++ ")"

/-- The names that an expression reads, from left to right and with repetitions. -/
def names : Expr → List String
  | number _ | text _ => []
  | ident name => [name]
  | binary _ left right => left.names ++ right.names

/-- The number of operators in an expression. -/
def operations : Expr → Nat
  | number _ | ident _ | text _ => 0
  | binary _ left right => left.operations + right.operations + 1

end Expr

end Brew
