import Brew.Code.Lower

/-!
# What lowering looks at

Much of a program leaves no trace in its code: data types, declarations without a value, functions
and returns, and the difference between a missing block and an empty one.  The **core** of a program
is what remains when all this is dropped.

## Main definitions

* `Core`: statements that have code
* `Stmt.coreAll`: the core of a program
* `Stmt.withoutFunctionsAll`: a program without its functions
-/

namespace Brew

/-- A statement that has code. -/
inductive Core where
  /-- A declaration with a first value. -/
  | initialise (name : String) (value : Expr)
  | assign (name : String) (value : Expr)
  | print (value : Expr)
  | scan (name : String)
  | branch (cond : Expr) (thenBlock elseBlock : List Core)
deriving Repr

/-- What is printed, as an expression. -/
def Printed.expr : Printed → Expr
  | text content => .text content
  | value e => e

mutual

/-- The core of a statement, which is one statement or none. -/
def Stmt.core : Stmt → List Core
  | .declare _ _ none => []
  | .declare _ name (some e) => [.initialise name e]
  | .assign name e => [.assign name e]
  | .print what => [.print what.expr]
  | .scan name => [.scan name]
  | .branch cond thenBlock none => [.branch cond (Stmt.coreAll thenBlock) []]
  | .branch cond thenBlock (some elseBlock) =>
    [.branch cond (Stmt.coreAll thenBlock) (Stmt.coreAll elseBlock)]
  | .function _ _ => []
  | .ret _ => []

/-- The core of some statements. -/
def Stmt.coreAll : List Stmt → List Core
  | [] => []
  | s :: rest => s.core ++ Stmt.coreAll rest

end

mutual

/-- A statement without functions: none if it is one, and without those inside its blocks. -/
def Stmt.withoutFunctions : Stmt → List Stmt
  | .branch cond thenBlock none => [.branch cond (Stmt.withoutFunctionsAll thenBlock) none]
  | .branch cond thenBlock (some elseBlock) =>
    [.branch cond (Stmt.withoutFunctionsAll thenBlock)
      (some (Stmt.withoutFunctionsAll elseBlock))]
  | .function _ _ => []
  | s@(.declare ..) | s@(.assign ..) | s@(.print _) | s@(.scan _) | s@(.ret _) => [s]

/-- Some statements without functions. -/
def Stmt.withoutFunctionsAll : List Stmt → List Stmt
  | [] => []
  | s :: rest => s.withoutFunctions ++ Stmt.withoutFunctionsAll rest

end

end Brew
