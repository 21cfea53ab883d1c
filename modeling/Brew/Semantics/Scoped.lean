import Brew.Semantics.Interpretation
import Brew.Syntax.Stmt

/-!
# Running statements with scopes

In this reading of a program each block has variables of its own.  A declaration makes a new
variable in the innermost block, with or without a value; a name stands for the variable that the
innermost block with that name has; and at the end of a block its variables are gone.  Reading a
variable that was given no value ends the run.

Variables of one name in different blocks may be kept apart or not.  In **separate** memory each of
them keeps its value until it is given another one, which is what scopes mean.  In **shared** memory
they get in each other's way: giving a value to one of them takes away the values of the others.

## Main definitions

* `Scoped.World`: the variables of the open blocks, the input and the output
* `Scoped.Memory`: separate or shared memory
* `Stmt.execScoped`, `Stmt.execAllScoped`: runs of statements
* `Scoped.outcome`: how the run of a program ends
* `Scoped.Initialized`: a run reads only variables that have a value
-/

namespace Brew

variable {V : Type}

namespace Scoped

/-- The variables of one block, newest first; a variable may have no value yet. -/
abbrev Block (V : Type) := List (String × Option V)

/-- What a run acts on. -/
structure World (V : Type) where
  /-- The open blocks, innermost first. -/
  blocks : List (Block V)
  input : List V
  output : List V

/-- How a run can end before the end of its program. -/
inductive Failure where
  | failed (f : Brew.Failure)
  /-- A variable is read that has no value. -/
  | unset (name : String)
deriving DecidableEq, Repr

/-- The world in which a program starts. -/
def World.initial (input : List V) : World V := ⟨[[]], input, []⟩

/-- The value of the variable that a name stands for. -/
def find? (blocks : List (Block V)) (name : String) : Option V :=
  (blocks.findSome? fun block => block.lookup name).join

/-- A block with a new value for one of its variables. -/
def Block.set (block : Block V) (name : String) (v : V) : Block V :=
  match block with
  | [] => []
  | entry :: rest =>
    if entry.1 = name then (name, some v) :: rest else entry :: Block.set rest name v

/-- The blocks with a new value for the variable that a name stands for. -/
def set (blocks : List (Block V)) (name : String) (v : V) : List (Block V) :=
  match blocks with
  | [] => []
  | block :: rest =>
    if (block.lookup name).isSome then block.set name v :: rest else block :: set rest name v

/-- The blocks with a new variable in the innermost one. -/
def declare (blocks : List (Block V)) (name : String) (v : Option V) : List (Block V) :=
  match blocks with
  | [] => [[(name, v)]]
  | block :: rest => ((name, v) :: block) :: rest

/-- How variables of one name share their storage. -/
inductive Memory where
  /-- Every variable keeps its value until it is given another one. -/
  | separate
  /-- A value given to one variable takes away the values of the others of its name. -/
  | shared
deriving DecidableEq, Repr

/-- A block in which the variables of one name have no value. -/
def Block.clear (block : Block V) (name : String) : Block V :=
  block.map fun entry => if entry.1 = name then (name, none) else entry

/-- The blocks just before a value is stored under a name. -/
def Memory.release (memory : Memory) (blocks : List (Block V)) (name : String) : List (Block V) :=
  match memory with
  | separate => blocks
  | shared => blocks.map fun block => block.clear name

/-- A run that acts on a world and may fail. -/
abbrev Exec (V : Type) := EStateM Failure (World V)

/-- The value of an expression. -/
def eval (I : Interpretation V) (blocks : List (Block V)) : Expr → Except Failure V
  | .number spelling => .ok (I.number spelling)
  | .ident name =>
    match find? blocks name with
    | some v => .ok v
    | none => .error (.unset name)
  | .text content => .ok (I.text content)
  | .binary op left right => do
    let a ← eval I blocks left
    let b ← eval I blocks right
    match I.apply op a b with
    | some v => .ok v
    | none => .error (.failed .operator)

namespace Exec

/-- The value of an expression in the current world. -/
def value (I : Interpretation V) (e : Expr) : Exec V V := fun w =>
  match eval I w.blocks e with
  | .ok v => .ok v w
  | .error f => .error f w

/-- The next input. -/
def receive : Exec V V := fun w =>
  match w.input with
  | v :: rest => .ok v { w with input := rest }
  | [] => .error (.failed .input) w

/-- Changes the variables. -/
def onBlocks (f : List (Block V) → List (Block V)) : Exec V Unit := fun w =>
  .ok () { w with blocks := f w.blocks }

/-- Gives a value to the variable that a name stands for. -/
def assign (memory : Memory) (name : String) (v : V) : Exec V Unit :=
  onBlocks fun blocks => set (memory.release blocks name) name v

/-- Makes a new variable with a value. -/
def introduce (memory : Memory) (name : String) (v : V) : Exec V Unit :=
  onBlocks fun blocks => declare (memory.release blocks name) name (some v)

/-- Prints a value. -/
def print (v : V) : Exec V Unit := fun w => .ok () { w with output := w.output ++ [v] }

/-- Runs something inside a new block. -/
def inBlock (body : Exec V Unit) : Exec V Unit := do
  onBlocks ([] :: ·)
  body
  onBlocks List.tail

end Exec

end Scoped

mutual

/-- Runs a statement with scopes. -/
def Stmt.execScoped (memory : Scoped.Memory) (I : Interpretation V) : Stmt → Scoped.Exec V Unit
  | .declare _ name none => Scoped.Exec.onBlocks (Scoped.declare · name none)
  | .declare _ name (some e) => do
    let v ← Scoped.Exec.value I e
    Scoped.Exec.introduce memory name v
  | .assign name e => do
    let v ← Scoped.Exec.value I e
    Scoped.Exec.assign memory name v
  | .print (.text content) => Scoped.Exec.print (I.text content)
  | .print (.value e) => do
    let v ← Scoped.Exec.value I e
    Scoped.Exec.print v
  | .scan name => do
    let v ← Scoped.Exec.receive
    Scoped.Exec.assign memory name v
  | .branch cond thenBlock none => do
    let v ← Scoped.Exec.value I cond
    if I.truthy v then Scoped.Exec.inBlock (Stmt.execAllScoped memory I thenBlock) else pure ()
  | .branch cond thenBlock (some elseBlock) => do
    let v ← Scoped.Exec.value I cond
    if I.truthy v then Scoped.Exec.inBlock (Stmt.execAllScoped memory I thenBlock)
    else Scoped.Exec.inBlock (Stmt.execAllScoped memory I elseBlock)
  | .function _ _ => pure ()
  | .ret _ => pure ()

/-- Runs statements with scopes, one after the other. -/
def Stmt.execAllScoped (memory : Scoped.Memory) (I : Interpretation V) :
    List Stmt → Scoped.Exec V Unit
  | [] => pure ()
  | s :: rest => do
    s.execScoped memory I
    Stmt.execAllScoped memory I rest

end

/-- How the run of a program with scopes ends: its final world, and the failure if it ended
early. -/
def Scoped.outcome (memory : Scoped.Memory) (I : Interpretation V) (program : List Stmt)
    (input : List V) : Scoped.World V × Option Scoped.Failure :=
  match (Stmt.execAllScoped memory I program).run (Scoped.World.initial input) with
  | .ok _ w => (w, none)
  | .error failure w => (w, some failure)

/-- Every variable that the run of a program reads has a value at that moment.  In shared memory
this says that it was the last variable of its name to be given one. -/
def Scoped.Initialized (memory : Scoped.Memory) (I : Interpretation V) (program : List Stmt)
    (input : List V) : Prop :=
  ∀ name, (Scoped.outcome memory I program input).2 ≠ some (.unset name)

instance (memory : Scoped.Memory) (I : Interpretation V) (program : List Stmt) (input : List V) :
    Decidable (Scoped.Initialized memory I program input) :=
  match h : (Scoped.outcome memory I program input).2 with
  | some (.unset name) => .isFalse fun hinit => hinit name h
  | some (.failed _) => .isTrue fun _ hunset => nomatch h.symm.trans hunset
  | none => .isTrue fun _ hunset => nomatch h.symm.trans hunset

end Brew
