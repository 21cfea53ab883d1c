import Brew.Code.Lower

/-!
# The order of emission

Lowering goes through a program from front to back.  For most purposes the code is all that matters,
but the journal of a compilation also shows where a function declaration was passed over.  This
module lists both in the order in which they happen.

## Main definitions

* `Emission`: an instruction, or a function passed over
* `Stmt.emissionsAt`, `emissions`
-/

namespace Brew

/-- What happens in lowering. -/
inductive Emission where
  | instr (i : Instr)
  | passedOver (function : String)
deriving DecidableEq, Repr

mutual

/-- What happens when a statement is lowered; `c` is what is taken before. -/
def Stmt.emissionsAt (c : Counters) : Stmt → List Emission
  | .branch cond thenBlock none =>
    (cond.codeAt c.temps ++ (Fork.after c.labels).head (cond.operandAt c.temps)).map .instr ++
      Stmt.emissionsAll (c + ⟨cond.operations, 3⟩) thenBlock ++
      ((Fork.after c.labels).middle ++ (Fork.after c.labels).last).map .instr
  | .branch cond thenBlock (some elseBlock) =>
    (cond.codeAt c.temps ++ (Fork.after c.labels).head (cond.operandAt c.temps)).map .instr ++
      Stmt.emissionsAll (c + ⟨cond.operations, 3⟩) thenBlock ++
      (Fork.after c.labels).middle.map .instr ++
      Stmt.emissionsAll (c + ⟨cond.operations, 3⟩ + Stmt.usageAll thenBlock) elseBlock ++
      (Fork.after c.labels).last.map .instr
  | .function signature _ => [.passedOver signature.name]
  | s@(.declare ..) | s@(.assign ..) | s@(.print _) | s@(.scan _) | s@(.ret _) =>
    (s.codeAt c).map .instr

/-- What happens when some statements are lowered; `c` is what is taken before. -/
def Stmt.emissionsAll (c : Counters) : List Stmt → List Emission
  | [] => []
  | s :: rest => s.emissionsAt c ++ Stmt.emissionsAll (c + s.usage) rest

end

/-- What happens when a program is lowered. -/
def emissions (program : List Stmt) : List Emission := Stmt.emissionsAll 0 program

end Brew
