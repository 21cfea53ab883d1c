import Brew.Semantics.Interpretation
import Brew.Syntax.Stmt

/-!
# Running statements

Statements run one after the other on a single store in which each name has one value.  Operands are
evaluated from left to right.  A declaration with a first value stores it; a declaration without
one, and a function, do nothing.

## Main definitions

* `Expr.eval`: the value of an expression, if all its operators have one
* `Stmt.exec`, `Stmt.execAll`: runs of statements
* `Exec.outcome`: how a run ends
-/

namespace Brew

variable {V : Type}

/-- The value of an expression, given the values of variables. -/
def Expr.eval (I : Interpretation V) (store : String → V) : Expr → Option V
  | number spelling => some (I.number spelling)
  | ident name => some (store name)
  | text content => some (I.text content)
  | binary op left right => do
    let a ← left.eval I store
    let b ← right.eval I store
    I.apply op a b

/-- A run that acts on a world and may fail.  The world stays as it was when the run failed. -/
abbrev Exec (V : Type) := EStateM Failure (World V)

namespace Exec

/-- The value of an expression in the current world. -/
def value (I : Interpretation V) (e : Expr) : Exec V V := fun w =>
  match e.eval I w.store with
  | some v => .ok v w
  | none => .error .operator w

/-- The next input. -/
def receive : Exec V V := fun w =>
  match w.input with
  | v :: rest => .ok v { w with input := rest }
  | [] => .error .input w

/-- Gives a variable a value. -/
def write (name : String) (v : V) : Exec V Unit := fun w => .ok () (w.write name v)

/-- Prints a value. -/
def print (v : V) : Exec V Unit := fun w => .ok () (w.print v)

end Exec

mutual

/-- Runs a statement. -/
def Stmt.exec (I : Interpretation V) : Stmt → Exec V Unit
  | .declare _ _ none => pure ()
  | .declare _ name (some e) => do
    let v ← Exec.value I e
    Exec.write name v
  | .assign name e => do
    let v ← Exec.value I e
    Exec.write name v
  | .print (.text content) => Exec.print (I.text content)
  | .print (.value e) => do
    let v ← Exec.value I e
    Exec.print v
  | .scan name => do
    let v ← Exec.receive
    Exec.write name v
  | .branch cond thenBlock none => do
    let v ← Exec.value I cond
    if I.truthy v then Stmt.execAll I thenBlock else pure ()
  | .branch cond thenBlock (some elseBlock) => do
    let v ← Exec.value I cond
    if I.truthy v then Stmt.execAll I thenBlock else Stmt.execAll I elseBlock
  | .function _ _ => pure ()
  | .ret _ => pure ()

/-- Runs statements one after the other. -/
def Stmt.execAll (I : Interpretation V) : List Stmt → Exec V Unit
  | [] => pure ()
  | s :: rest => do
    s.exec I
    Stmt.execAll I rest

end

/-- How a run ends: its final world, and the failure if it ended early. -/
def Exec.outcome (x : Exec V Unit) (w : World V) : World V × Option Failure :=
  match x.run w with
  | .ok _ w' => (w', none)
  | .error failure w' => (w', some failure)

end Brew
