import Brew.Code.Instr

/-!
# Data and control flow of code

What an instruction reads and writes, which label it defines, and where control can go from it.

## Main definitions

* `Instr.operands`, `Instr.readTemps`, `Instr.writtenTemp?`: data flow of an instruction
* `Instr.label?`, `Instr.target?`: the label an instruction defines, and the one it jumps to
* `Flows`, `Reachable`: control flow of code
* `Instr.shift`: an instruction with all its temporaries and labels renumbered
-/

namespace Brew

/-- The temporary that an operand reads. -/
def Operand.temp? : Operand → Option Temp
  | temp t => some t
  | number _ | text _ | ident _ => none

namespace Instr

/-- What an instruction reads. -/
def operands : Instr → List Operand
  | assign _ value => [value]
  | binary _ _ left right => [left, right]
  | print value => [value]
  | gotoIf cond _ => [cond]
  | scan _ | label _ | goto _ => []

/-- The temporaries that an instruction reads. -/
def readTemps (i : Instr) : List Temp := i.operands.filterMap Operand.temp?

/-- The temporary that an instruction writes. -/
def writtenTemp? : Instr → Option Temp
  | assign (.temp t) _ => some t
  | binary t _ _ _ => some t
  | assign (.ident _) _ | print _ | scan _ | label _ | goto _ | gotoIf _ _ => none

/-- The label that an instruction defines. -/
def label? : Instr → Option Label
  | label l => some l
  | assign _ _ | binary _ _ _ _ | print _ | scan _ | goto _ | gotoIf _ _ => none

/-- The label that an instruction jumps to. -/
def target? : Instr → Option Label
  | goto l | gotoIf _ l => some l
  | assign _ _ | binary _ _ _ _ | print _ | scan _ | label _ => none

/-- Whether control can pass from an instruction to the next one. -/
def fallsThrough : Instr → Bool
  | goto _ => false
  | assign _ _ | binary _ _ _ _ | print _ | scan _ | label _ | gotoIf _ _ => true

end Instr

/-- Control can pass from the instruction at `i` to the one at `j`. -/
inductive Flows (code : List Instr) (i j : Nat) : Prop where
  | next {instr : Instr} : code[i]? = some instr → instr.fallsThrough → j = i + 1 → Flows code i j
  | jump {instr : Instr} {l : Label} :
      code[i]? = some instr → instr.target? = some l → code[j]? = some (.label l) → Flows code i j

/-- Control can come to an instruction from the first one. -/
inductive Reachable (code : List Instr) : Nat → Prop where
  | first : Reachable code 0
  | step {i j : Nat} : Reachable code i → Flows code i j → Reachable code j

/-! ## Renumbering -/

/-- A temporary with its number raised. -/
def Temp.shift (n : Nat) (t : Temp) : Temp := ⟨t.number + n⟩

/-- A label with its number raised. -/
def Label.shift (n : Nat) (l : Label) : Label := ⟨l.number + n⟩

/-- An operand with the numbers of temporaries raised. -/
def Operand.shift (n : Nat) : Operand → Operand
  | temp t => temp (t.shift n)
  | number spelling => number spelling
  | text content => text content
  | ident name => ident name

/-- A place with the numbers of temporaries raised. -/
def Place.shift (n : Nat) : Place → Place
  | temp t => temp (t.shift n)
  | ident name => ident name

/-- An instruction with the numbers of temporaries and of labels raised. -/
def Instr.shift (temps labels : Nat) : Instr → Instr
  | assign dest value => assign (dest.shift temps) (value.shift temps)
  | binary dest op left right =>
    binary (dest.shift temps) op (left.shift temps) (right.shift temps)
  | print value => print (value.shift temps)
  | scan name => scan name
  | label l => label (l.shift labels)
  | goto l => goto (l.shift labels)
  | gotoIf cond l => gotoIf (cond.shift temps) (l.shift labels)

end Brew
