import Brew.Syntax.Vocabulary

/-!
# What programs compute with

The language says nothing about its values.  An **interpretation** supplies them: what literals
mean, what the operators do, where they may fail, and which values count as true.  Everything about
the meaning of programs is said for an arbitrary interpretation.

## Main definitions

* `Interpretation`: values, operators and truth
* `World`: the variables, the input still to come and the output so far
* `Failure`: the two ways in which a run can end early
-/

namespace Brew

/-- The meaning of literals, operators and conditions over some values. -/
structure Interpretation (V : Type) where
  number : String → V
  text : String → V
  /-- An operator may have no result, as division by zero. -/
  apply : BinaryOp → V → V → Option V
  truthy : V → Bool

/-- How a run can end before the end of its program. -/
inductive Failure where
  /-- An operator has no result. -/
  | operator
  /-- There is no input left to read. -/
  | input
deriving DecidableEq, Repr

/-- What a run acts on. -/
@[ext]
structure World (V : Type) where
  /-- The value of each variable. -/
  store : String → V
  /-- The input still to come. -/
  input : List V
  /-- The output so far, in the order in which it was printed. -/
  output : List V

namespace World

variable {V : Type}

/-- Gives a variable a value. -/
def write (w : World V) (name : String) (v : V) : World V :=
  { w with store := fun other => if other = name then v else w.store other }

/-- Prints a value. -/
def print (w : World V) (v : V) : World V := { w with output := w.output ++ [v] }

@[simp]
theorem store_write_self (w : World V) (name : String) (v : V) :
    (w.write name v).store name = v := if_pos rfl

theorem store_write_of_ne (w : World V) {name other : String} (h : other ≠ name) (v : V) :
    (w.write name v).store other = w.store other := if_neg h

@[simp]
theorem store_print (w : World V) (v : V) : (w.print v).store = w.store := rfl

end World

end Brew
