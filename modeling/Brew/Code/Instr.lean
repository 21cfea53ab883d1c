import Brew.Syntax.Vocabulary

/-!
# Three-address code

The target of compilation is a list of simple instructions over variables, numbered temporaries and
numbered labels.

## Main definitions

* `Temp`, `Label`, `Operand`, `Place`, `Instr`
* `listing`: code as text, one line for each instruction
-/

namespace Brew

/-- A storage slot made by the compiler. -/
structure Temp where
  number : Nat
deriving DecidableEq, Repr

/-- A place in the code that jumps lead to. -/
structure Label where
  number : Nat
deriving DecidableEq, Repr

/-- What an instruction can read. -/
inductive Operand where
  /-- A number as it is spelled. -/
  | number (spelling : String)
  /-- A text, without its quotes. -/
  | text (content : String)
  | ident (name : String)
  | temp (t : Temp)
deriving DecidableEq, Repr

/-- What an instruction can write. -/
inductive Place where
  | ident (name : String)
  | temp (t : Temp)
deriving DecidableEq, Repr

/-- One instruction. -/
inductive Instr where
  /-- Copies a value. -/
  | assign (dest : Place) (value : Operand)
  /-- Applies an operator. -/
  | binary (dest : Temp) (op : BinaryOp) (left right : Operand)
  /-- Writes a value to the output. -/
  | print (value : Operand)
  /-- Reads the next input into a variable. -/
  | scan (name : String)
  /-- Marks its own place for jumps. -/
  | label (l : Label)
  /-- Jumps. -/
  | goto (target : Label)
  /-- Jumps if a value counts as true. -/
  | gotoIf (cond : Operand) (target : Label)
deriving DecidableEq, Repr

/-! ## Rendering -/

/-- A temporary in the listing. -/
def Temp.render (t : Temp) : String := "t" ++ toString t.number

/-- A label in the listing. -/
def Label.render (l : Label) : String := "L" ++ toString l.number

/-- An operand in the listing. -/
def Operand.render : Operand → String
  | number spelling => spelling
  | text content => "\"" ++ content ++ "\""
  | ident name => name
  | temp t => t.render

/-- The target of an assignment in the listing. -/
def Place.render : Place → String
  | ident name => name
  | temp t => t.render

/-- An instruction in the listing. -/
def Instr.render : Instr → String
  | assign dest value => dest.render ++ " = " ++ value.render
  | binary dest op left right =>
    dest.render ++ " = " ++ left.render ++ " " ++ op.symbol ++ " " ++ right.render
  | print value => "print " ++ value.render
  | scan name => "scan " ++ name
  | label l => l.render ++ ":"
  | goto target => "goto " ++ target.render
  | gotoIf cond target => "if " ++ cond.render ++ " goto " ++ target.render

/-- Code as text: the instructions on lines of their own, without a line end after the last. -/
def listing (code : List Instr) : String := "\n".intercalate (code.map Instr.render)

end Brew
