import Brew.Code.Instr
import Brew.Semantics.Interpretation

/-!
# Running code

A machine runs code from its first instruction on.  It has a program counter, the variables, and a
store of its own for temporaries, which are empty at the start.  A jump goes to the first place
where its label is defined.  The machine halts behind the last instruction, or when an operator has
no result, or when input is wanted and there is none.  Code that reads an empty temporary or jumps
to a label that it does not define gets **stuck**, which is neither of these.

## Main definitions

* `Machine`: the state of the machine
* `Machine.step`: one instruction
* `Machine.run`: so many instructions
-/

namespace Brew

variable {V : Type}

/-- The state of the machine. -/
structure Machine (V : Type) where
  /-- The index of the next instruction. -/
  pc : Nat
  world : World V
  temps : Temp → Option V

namespace Machine

/-- The machine before its first instruction. -/
def initial (w : World V) : Machine V := ⟨0, w, fun _ => none⟩

/-- What a step leads to. -/
inductive Step (V : Type) where
  | next (m : Machine V)
  | halted (w : World V) (failure : Option Failure)
  | stuck

/-- The value of an operand. -/
def read (I : Interpretation V) (m : Machine V) : Operand → Option V
  | .number spelling => some (I.number spelling)
  | .text content => some (I.text content)
  | .ident name => some (m.world.store name)
  | .temp t => m.temps t

/-- The machine with a value in a temporary. -/
def setTemp (m : Machine V) (t : Temp) (v : V) : Machine V :=
  { m with temps := fun other => if other = t then some v else m.temps other }

/-- The machine with a value in a place. -/
def write (m : Machine V) (dest : Place) (v : V) : Machine V :=
  match dest with
  | .ident name => { m with world := m.world.write name v }
  | .temp t => m.setTemp t v

/-- The machine at the next instruction. -/
def advance (m : Machine V) : Machine V := { m with pc := m.pc + 1 }

/-- Where a label is defined. -/
def target? (code : List Instr) (l : Label) : Option Nat := code.findIdx? (· = .label l)

/-- A jump. -/
def jump (code : List Instr) (m : Machine V) (l : Label) : Step V :=
  match target? code l with
  | some pc => .next { m with pc }
  | none => .stuck

/-- One instruction. -/
def step (I : Interpretation V) (code : List Instr) (m : Machine V) : Step V :=
  match code[m.pc]? with
  | none => .halted m.world none
  | some (.assign dest value) =>
    match m.read I value with
    | some v => .next (m.write dest v).advance
    | none => .stuck
  | some (.binary dest op left right) =>
    match m.read I left, m.read I right with
    | some a, some b =>
      match I.apply op a b with
      | some v => .next (m.setTemp dest v).advance
      | none => .halted m.world (some .operator)
    | _, _ => .stuck
  | some (.print value) =>
    match m.read I value with
    | some v => .next { m with world := m.world.print v }.advance
    | none => .stuck
  | some (.scan name) =>
    match m.world.input with
    | v :: rest => .next { m with world := { m.world with input := rest }.write name v }.advance
    | [] => .halted m.world (some .input)
  | some (.label _) => .next m.advance
  | some (.goto l) => jump code m l
  | some (.gotoIf cond l) =>
    match m.read I cond with
    | some v => if I.truthy v then jump code m l else .next m.advance
    | none => .stuck

/-- Runs at most so many instructions. -/
def run (I : Interpretation V) (code : List Instr) : Nat → Machine V → Step V
  | 0, m => .next m
  | n + 1, m =>
    match m.step I code with
    | .next m => run I code n m
    | .halted w failure => .halted w failure
    | .stuck => .stuck

/-- **Code halts on a world** with a final world, and normally or with a failure. -/
def Halts (I : Interpretation V) (code : List Instr) (start : World V) (final : World V)
    (failure : Option Failure) : Prop :=
  ∃ n, run I code n (initial start) = .halted final failure

/-- More steps do not change how a run halts. -/
theorem run_halted_add {I : Interpretation V} {code : List Instr} {n : Nat} {m : Machine V}
    {w : World V} {failure : Option Failure} (h : run I code n m = .halted w failure) (k : Nat) :
    run I code (n + k) m = .halted w failure := by
  induction n generalizing m with
  | zero => cases h
  | succ n ih =>
    rw [Nat.succ_add]
    simp only [run] at h ⊢
    cases hstep : m.step I code with
    | next m' =>
      rw [hstep] at h
      exact ih h
    | halted w' failure' =>
      rw [hstep] at h
      exact h
    | stuck =>
      rw [hstep] at h
      cases h

/-- Code halts in one way only. -/
theorem Halts.unique {I : Interpretation V} {code : List Instr} {start w₁ w₂ : World V}
    {f₁ f₂ : Option Failure} (h₁ : Halts I code start w₁ f₁) (h₂ : Halts I code start w₂ f₂) :
    w₁ = w₂ ∧ f₁ = f₂ := by
  obtain ⟨n₁, hn₁⟩ := h₁
  obtain ⟨n₂, hn₂⟩ := h₂
  have h := (run_halted_add hn₁ n₂).symm.trans (Nat.add_comm n₂ n₁ ▸ run_halted_add hn₂ n₁)
  cases h
  exact ⟨rfl, rfl⟩

end Machine

end Brew
