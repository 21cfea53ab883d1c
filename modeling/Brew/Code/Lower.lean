import Brew.Code.Instr
import Brew.Syntax.Stmt

/-!
# Lowering statements to code

Temporaries and labels are numbered through the whole program, from one on.  How many of each a
statement takes can be read off the statement alone, so the code of a statement is a function of the
statement and of the **counters** before it: the numbers of temporaries and labels already taken.
There is no state to thread.

* An expression is lowered bottom-up.  Literals and names are operands as they stand; each operator
  takes one temporary, after those of its two operands
* The first value of a declaration is copied through a temporary of its own
* A branch has the same shape with and without a second block.  Its three labels are taken after
  the condition and before the blocks:

  ```text
  if cond goto L1
  goto L2
  L1:
    first block
  goto L3
  L2:
    second block
  L3:
  ```
* Functions and returns have no code

## Main definitions

* `Counters`: how many temporaries and labels are taken; counters add up
* `Expr.operandAt`, `Expr.codeAt`: the operand that holds an expression, and the code that puts it
  there
* `Stmt.usage`, `Stmt.codeAt`: what a statement takes, and its code
* `lower`: the code of a program

## Main results

* `Stmt.usageAll_append`, `Stmt.codeAll_append`: joined blocks take the sum of what the blocks take,
  and their code is the code of the first followed by that of the second, with the counters the
  first one leaves behind
-/

namespace Brew

/-- How many temporaries and labels are taken. -/
@[ext]
structure Counters where
  temps : Nat
  labels : Nat
deriving DecidableEq, Repr

namespace Counters

/-- Nothing is taken. -/
instance : Zero Counters := ⟨⟨0, 0⟩⟩

/-- Counters add up componentwise. -/
instance : Add Counters := ⟨fun a b => ⟨a.temps + b.temps, a.labels + b.labels⟩⟩

@[simp]
theorem temps_zero : (0 : Counters).temps = 0 := rfl

@[simp]
theorem labels_zero : (0 : Counters).labels = 0 := rfl

@[simp]
theorem temps_add (a b : Counters) : (a + b).temps = a.temps + b.temps := rfl

@[simp]
theorem labels_add (a b : Counters) : (a + b).labels = a.labels + b.labels := rfl

@[simp]
protected theorem add_zero (a : Counters) : a + 0 = a := rfl

@[simp]
protected theorem zero_add (a : Counters) : 0 + a = a := by
  ext <;> simp

protected theorem add_assoc (a b c : Counters) : a + b + c = a + (b + c) := by
  ext <;> simp [Nat.add_assoc]

end Counters

/-! ## Expressions -/

/-- The operand that holds an expression after its code ran; `n` temporaries are taken before. -/
def Expr.operandAt (n : Nat) : Expr → Operand
  | number spelling => .number spelling
  | ident name => .ident name
  | text content => .text content
  | e@(binary ..) => .temp ⟨n + e.operations⟩

/-- The code of an expression; `n` temporaries are taken before. -/
def Expr.codeAt (n : Nat) : Expr → List Instr
  | number _ | ident _ | text _ => []
  | e@(binary op left right) =>
    left.codeAt n ++ right.codeAt (n + left.operations) ++
      [.binary ⟨n + e.operations⟩ op (left.operandAt n) (right.operandAt (n + left.operations))]

/-! ## Branches -/

/-- The three labels of a branch that is lowered when `n` labels are taken. -/
structure Fork where
  onTrue : Label
  onFalse : Label
  join : Label
deriving DecidableEq, Repr

namespace Fork

/-- The next three labels. -/
def after (n : Nat) : Fork := ⟨⟨n + 1⟩, ⟨n + 2⟩, ⟨n + 3⟩⟩

/-- What stands between the condition and the first block. -/
def head (f : Fork) (cond : Operand) : List Instr :=
  [.gotoIf cond f.onTrue, .goto f.onFalse, .label f.onTrue]

/-- What stands between the two blocks. -/
def middle (f : Fork) : List Instr := [.goto f.join, .label f.onFalse]

/-- What stands behind the second block. -/
def last (f : Fork) : List Instr := [.label f.join]

end Fork

/-! ## Statements -/

mutual

/-- What a statement takes. -/
def Stmt.usage : Stmt → Counters
  | .declare _ _ none => 0
  | .declare _ _ (some e) => ⟨e.operations + 1, 0⟩
  | .assign _ e => ⟨e.operations, 0⟩
  | .print (.text _) => 0
  | .print (.value e) => ⟨e.operations, 0⟩
  | .scan _ => 0
  | .branch cond thenBlock none => ⟨cond.operations, 3⟩ + Stmt.usageAll thenBlock
  | .branch cond thenBlock (some elseBlock) =>
    ⟨cond.operations, 3⟩ + Stmt.usageAll thenBlock + Stmt.usageAll elseBlock
  | .function _ _ => 0
  | .ret _ => 0

/-- What some statements take together. -/
def Stmt.usageAll : List Stmt → Counters
  | [] => 0
  | s :: rest => s.usage + Stmt.usageAll rest

end

mutual

/-- The code of a statement; `c` is what is taken before. -/
def Stmt.codeAt (c : Counters) : Stmt → List Instr
  | .declare _ _ none => []
  | .declare _ name (some e) =>
    e.codeAt c.temps ++
      [.assign (.temp ⟨c.temps + e.operations + 1⟩) (e.operandAt c.temps),
       .assign (.ident name) (.temp ⟨c.temps + e.operations + 1⟩)]
  | .assign name e => e.codeAt c.temps ++ [.assign (.ident name) (e.operandAt c.temps)]
  | .print (.text content) => [.print (.text content)]
  | .print (.value e) => e.codeAt c.temps ++ [.print (e.operandAt c.temps)]
  | .scan name => [.scan name]
  | .branch cond thenBlock none =>
    cond.codeAt c.temps ++ (Fork.after c.labels).head (cond.operandAt c.temps) ++
      Stmt.codeAll (c + ⟨cond.operations, 3⟩) thenBlock ++
      (Fork.after c.labels).middle ++ (Fork.after c.labels).last
  | .branch cond thenBlock (some elseBlock) =>
    cond.codeAt c.temps ++ (Fork.after c.labels).head (cond.operandAt c.temps) ++
      Stmt.codeAll (c + ⟨cond.operations, 3⟩) thenBlock ++
      (Fork.after c.labels).middle ++
      Stmt.codeAll (c + ⟨cond.operations, 3⟩ + Stmt.usageAll thenBlock) elseBlock ++
      (Fork.after c.labels).last
  | .function _ _ => []
  | .ret _ => []

/-- The code of some statements; `c` is what is taken before. -/
def Stmt.codeAll (c : Counters) : List Stmt → List Instr
  | [] => []
  | s :: rest => s.codeAt c ++ Stmt.codeAll (c + s.usage) rest

end

/-- The code of a program. -/
def lower (program : List Stmt) : List Instr := Stmt.codeAll 0 program

@[simp]
theorem Stmt.usageAll_append (xs ys : List Stmt) :
    Stmt.usageAll (xs ++ ys) = Stmt.usageAll xs + Stmt.usageAll ys := by
  induction xs with
  | nil => simp [Stmt.usageAll]
  | cons s rest ih => simp [Stmt.usageAll, ih, Counters.add_assoc]

/-- **Code of joined blocks.** -/
theorem Stmt.codeAll_append (c : Counters) (xs ys : List Stmt) :
    Stmt.codeAll c (xs ++ ys) = Stmt.codeAll c xs ++ Stmt.codeAll (c + Stmt.usageAll xs) ys := by
  induction xs generalizing c with
  | nil => simp [Stmt.codeAll, Stmt.usageAll]
  | cons s rest ih => simp [Stmt.codeAll, Stmt.usageAll, ih, Counters.add_assoc]

end Brew
