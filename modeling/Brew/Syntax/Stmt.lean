import Brew.Syntax.Expr

/-!
# Statements

A program is a list of statements.  Two kinds of statement hold further lists: a branch has one or
two blocks, and a function has a body.

## Main definitions

* `Stmt`: the seven kinds of statement
* `Stmt.render`: a statement as one S-expression

## Main results

* `Stmt.block_induction`: to prove something of all statements and of all blocks, one may assume it
  of the blocks inside a statement
-/

namespace Brew

/-- A parameter of a function. -/
structure Param where
  type : DataType
  name : String
deriving DecidableEq, Repr

/-- What a function declares about itself. -/
structure Signature where
  type : DataType
  name : String
  params : List Param
deriving DecidableEq, Repr

/-- The signature with one more parameter. -/
def Signature.addParam (signature : Signature) (param : Param) : Signature :=
  { signature with params := signature.params ++ [param] }

/-- What a print statement prints. -/
inductive Printed where
  /-- A text, without its quotes. -/
  | text (content : String)
  /-- The value of an expression. -/
  | value (e : Expr)
deriving DecidableEq, Repr

/-- A statement. -/
inductive Stmt where
  /-- Introduces a variable, possibly with a first value. -/
  | declare (type : DataType) (name : String) (value : Option Expr)
  /-- Gives a variable a new value. -/
  | assign (name : String) (value : Expr)
  /-- Writes to the output. -/
  | print (what : Printed)
  /-- Reads the next input into a variable. -/
  | scan (name : String)
  /-- Runs one of two blocks; the second may be missing. -/
  | branch (cond : Expr) (thenBlock : List Stmt) (elseBlock : Option (List Stmt))
  /-- Introduces a function. -/
  | function (signature : Signature) (body : List Stmt)
  /-- Leaves a function, possibly with a value. -/
  | ret (value : Option Expr)
deriving Repr

/-! ## Rendering -/

/-- A parameter as the S-expression of its function shows it. -/
def Param.render (p : Param) : String := p.type.keyword ++ " " ++ p.name

mutual

/-- A statement as one S-expression. -/
def Stmt.render : Stmt → String
  | .declare type name none => "(var " ++ type.keyword ++ " " ++ name ++ ")"
  | .declare type name (some e) =>
    "(var " ++ type.keyword ++ " " ++ name ++ " " ++ e.render ++ ")"
  | .assign name e => "(= " ++ name ++ " " ++ e.render ++ ")"
  | .print (.text content) => "(print \"" ++ content ++ "\")"
  | .print (.value e) => "(print " ++ e.render ++ ")"
  | .scan name => "(scan " ++ name ++ ")"
  | .branch cond thenBlock none =>
    "(if " ++ cond.render ++ " (then " ++ " ".intercalate (Stmt.renderAll thenBlock) ++ "))"
  | .branch cond thenBlock (some elseBlock) =>
    "(if " ++ cond.render ++ " (then " ++ " ".intercalate (Stmt.renderAll thenBlock) ++
      ") (else " ++ " ".intercalate (Stmt.renderAll elseBlock) ++ "))"
  | .function signature body =>
    "(fn " ++ signature.type.keyword ++ " " ++ signature.name ++ " [" ++
      ", ".intercalate (signature.params.map Param.render) ++ "] " ++
      " ".intercalate (Stmt.renderAll body) ++ ")"
  | .ret none => "(return)"
  | .ret (some e) => "(return " ++ e.render ++ ")"

/-- The S-expressions of some statements. -/
def Stmt.renderAll : List Stmt → List String
  | [] => []
  | s :: rest => s.render :: Stmt.renderAll rest

end

theorem Stmt.renderAll_eq_map (stmts : List Stmt) :
    Stmt.renderAll stmts = stmts.map Stmt.render := by
  induction stmts with
  | nil => rfl
  | cons s rest ih => rw [Stmt.renderAll, ih, List.map_cons]

/-! ## Induction -/

/-- **Induction over statements and blocks together.**  A statement is proved from the blocks inside
it, a block from its statements. -/
theorem Stmt.block_induction {P : Stmt → Prop} {Q : List Stmt → Prop}
    (declare : ∀ type name value, P (.declare type name value))
    (assign : ∀ name value, P (.assign name value))
    (print : ∀ what, P (.print what))
    (scan : ∀ name, P (.scan name))
    (branch : ∀ cond thenBlock elseBlock, Q thenBlock → (∀ block ∈ elseBlock, Q block) →
      P (.branch cond thenBlock elseBlock))
    (function : ∀ signature body, Q body → P (.function signature body))
    (ret : ∀ value, P (.ret value))
    (nil : Q [])
    (cons : ∀ s rest, P s → Q rest → Q (s :: rest)) :
    (∀ s, P s) ∧ ∀ block, Q block := by
  have hstmt : ∀ s, P s := fun s =>
    @Stmt.rec P Q (fun elseBlock => ∀ block ∈ elseBlock, Q block)
      declare assign print scan branch function ret nil cons
      (fun _ h => nomatch h) (fun _ hblock _ h => Option.some.inj h ▸ hblock) s
  refine ⟨hstmt, fun block => ?_⟩
  induction block with
  | nil => exact nil
  | cons s rest ih => exact cons s rest (hstmt s) ih

end Brew
