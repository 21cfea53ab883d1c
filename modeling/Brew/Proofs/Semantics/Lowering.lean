import Brew.Proofs.Semantics.Runs
import Brew.Semantics.Direct

/-!
# Lowering preserves meaning

The code of a program, run on the machine, does what the program does when its statements are run
directly.  The argument follows the shape of the code.  The code of an expression ends with the
value of the expression in its operand, and touches no temporary that was taken before it; so an
operand still has its value when the code of a later operand has run.  The code of a statement is a
stretch that completes the run of the statement, wherever in the program it stands.

## Main definitions

* `Machine.Evaluated`: what the code of an expression leaves behind
* `Stmt.Lowers`, `Stmt.LowersAll`: what the code of a statement or of a block has to do

## Main results

* `Expr.reaches_codeAt`, `Expr.haltsFrom_codeAt`: the code of an expression finds its value, or
  halts if an operator has no result
* `Stmt.lowers_all`: the code of a block completes the run of the block
* `halts_lower`: the code of a program halts as the program ends
* `halts_lower_iff`: and it halts in no other way
-/

namespace Brew

variable {V : Type} {I : Interpretation V} {code : List Instr} {m m' : Machine V}

/-! ## Expressions -/

/-- Some steps put a value into an operand: the world is as before, and so are the first `n`
temporaries. -/
structure Machine.Evaluated (I : Interpretation V) (n : Nat) (m m' : Machine V)
    (operand : Operand) (v : V) : Prop where
  world : m'.world = m.world
  value : m'.read I operand = some v
  kept : ∀ t : Temp, t.number ≤ n → m'.temps t = m.temps t

/-- An operand that holds an expression is no temporary taken after the expression. -/
theorem Machine.read_operandAt {n : Nat} (e : Expr) (hworld : m'.world = m.world)
    (htemps : ∀ t : Temp, t.number ≤ n + e.operations → m'.temps t = m.temps t) :
    m'.read I (e.operandAt n) = m.read I (e.operandAt n) := by
  cases e with
  | number | text => rfl
  | ident name => simp only [Expr.operandAt, Machine.read, hworld]
  | binary op left right => exact htemps _ (Nat.le_refl _)

/-- An operand survives the code of an expression that takes later temporaries. -/
theorem Machine.Evaluated.survives {n : Nat} {e : Expr} {operand : Operand} {m₁ m₂ : Machine V}
    {a b : V} (h₁ : Evaluated I n m m₁ (e.operandAt n) a)
    (h₂ : Evaluated I (n + e.operations) m₁ m₂ operand b) :
    m₂.read I (e.operandAt n) = some a :=
  (Machine.read_operandAt e h₂.world h₂.kept).trans h₁.value

theorem Machine.step_binary {dest : Temp} {op : BinaryOp} {left right : Operand} {a b : V}
    (hcode : code[m.pc]? = some (.binary dest op left right)) (ha : m.read I left = some a)
    (hb : m.read I right = some b) :
    m.step I code =
      match I.apply op a b with
      | some v => .next (m.setTemp dest v).advance
      | none => .halted m.world (some .operator) := by
  cases happly : I.apply op a b <;> simp only [Machine.step, hcode, ha, hb, happly]

/-- **The code of an expression finds its value**: it reaches its end with the value in the operand
of the expression. -/
theorem Expr.reaches_codeAt (e : Expr) {n : Nat} {m : Machine V} {v : V}
    (hcode : CodeAt code m.pc (e.codeAt n)) (hv : e.eval I m.world.store = some v) :
    ∃ m', Machine.Reaches I code m m' ∧ m'.pc = m.pc + (e.codeAt n).length ∧
      Machine.Evaluated I n m m' (e.operandAt n) v := by
  induction e generalizing n m v with
  | number | ident | text => exact ⟨m, .refl, rfl, rfl, hv, fun _ _ => rfl⟩
  | binary op left right ihl ihr =>
    simp only [Expr.eval, Option.bind_eq_bind, Option.bind_eq_some_iff] at hv
    obtain ⟨a, ha, b, hb, hv⟩ := hv
    rw [Expr.codeAt] at hcode
    -- The code of the left operand, and behind it that of the right one.
    obtain ⟨m₁, hreach₁, hpc₁, h₁⟩ := ihl hcode.left.left ha
    have hcode₂ := hcode.left.right
    rw [← hpc₁] at hcode₂
    obtain ⟨m₂, hreach₂, hpc₂, h₂⟩ := ihr hcode₂ (by rw [h₁.world]; exact hb)
    -- The operator, which stands behind both and finds both values.
    have hpc : m₂.pc = m.pc + (left.codeAt n ++ right.codeAt (n + left.operations)).length := by
      rw [hpc₂, hpc₁, List.length_append, Nat.add_assoc]
    have hcode₃ := hcode.right.head
    rw [← hpc] at hcode₃
    have hstep := Machine.step_binary hcode₃ (h₁.survives h₂) h₂.value
    rw [hv] at hstep
    refine ⟨_, (hreach₁.trans hreach₂).trans (.single hstep), ?_, h₂.world.trans h₁.world, ?_, ?_⟩
    · simp only [Machine.advance, Machine.setTemp, hpc, Expr.codeAt, List.length_append,
        List.length_singleton, Nat.add_assoc]
    · simp [Machine.advance, Machine.setTemp, Expr.operandAt, Machine.read]
    · -- The result goes into a temporary that was not taken before.
      intro t ht
      have hne : t ≠ ⟨n + (Expr.binary op left right).operations⟩ := by
        rintro rfl
        simp only [Expr.operations] at ht
        omega
      simp only [Machine.advance, Machine.setTemp, if_neg hne]
      rw [h₂.kept t (by omega), h₁.kept t ht]

/-- **The code of an expression without a value halts** where the operator has no result. -/
theorem Expr.haltsFrom_codeAt (e : Expr) {n : Nat} {m : Machine V}
    (hcode : CodeAt code m.pc (e.codeAt n)) (hv : e.eval I m.world.store = none) :
    Machine.HaltsFrom I code m m.world (some .operator) := by
  induction e generalizing n m with
  | number | ident | text => cases hv
  | binary op left right ihl ihr =>
    rw [Expr.codeAt] at hcode
    -- The operators are tried from left to right; the first one without a result is found.
    cases ha : left.eval I m.world.store with
    | none => exact ihl hcode.left.left ha
    | some a =>
      obtain ⟨m₁, hreach₁, hpc₁, h₁⟩ := left.reaches_codeAt hcode.left.left ha
      have hcode₂ := hcode.left.right
      rw [← hpc₁] at hcode₂
      rw [← h₁.world]
      refine Machine.HaltsFrom.of_reaches hreach₁ ?_
      cases hb : right.eval I m.world.store with
      | none => exact ihr hcode₂ (by rw [h₁.world]; exact hb)
      | some b =>
        obtain ⟨m₂, hreach₂, hpc₂, h₂⟩ :=
          right.reaches_codeAt hcode₂ (by rw [h₁.world]; exact hb)
        have hcode₃ := hcode.right.head
        rw [List.length_append, ← Nat.add_assoc, ← hpc₁, ← hpc₂] at hcode₃
        have hstep := Machine.step_binary hcode₃ (h₁.survives h₂) h₂.value
        -- Both operands have values, so it is this operator that has no result.
        have happly : I.apply op a b = none := by simpa [Expr.eval, ha, hb] using hv
        rw [happly] at hstep
        rw [← h₂.world]
        exact Machine.HaltsFrom.of_reaches hreach₂ (.of_step_halted hstep)

/-- The code of an expression, followed by a stretch that uses its operand. -/
theorem Machine.Completes.value {n k : Nat} (e : Expr) {next : V → Exec V Unit}
    (hcode : CodeAt code m.pc (e.codeAt n))
    (hnext : ∀ (m' : Machine V) (v : V), m'.pc = m.pc + (e.codeAt n).length →
      m'.read I (e.operandAt n) = some v → Completes I code m' k ((next v).run m'.world)) :
    Completes I code m ((e.codeAt n).length + k) ((Exec.value I e >>= next).run m.world) := by
  rw [EStateM.run_bind]
  cases hv : e.eval I m.world.store with
  | none =>
    have hrun : (Exec.value I e).run m.world = .error .operator m.world := by
      simp only [EStateM.run, Exec.value, hv]
    rw [hrun]
    exact e.haltsFrom_codeAt hcode hv
  | some v =>
    have hrun : (Exec.value I e).run m.world = .ok v m.world := by
      simp only [EStateM.run, Exec.value, hv]
    rw [hrun]
    obtain ⟨m', hreach, hpc, h⟩ := e.reaches_codeAt hcode hv
    have hcomp := hnext m' v hpc h.value
    rw [h.world] at hcomp
    exact .of_reaches hreach hpc hcomp

/-! ## Statements -/

theorem Machine.reaches_assign {dest : Place} {value : Operand} {v : V}
    (hcode : code[m.pc]? = some (.assign dest value)) (hv : m.read I value = some v) :
    Machine.Reaches I code m (m.write dest v).advance :=
  .single (by simp only [Machine.step, hcode, hv])

theorem Machine.reaches_print {value : Operand} {v : V}
    (hcode : code[m.pc]? = some (.print value)) (hv : m.read I value = some v) :
    Machine.Reaches I code m { m with world := m.world.print v }.advance :=
  .single (by simp only [Machine.step, hcode, hv])

theorem Machine.reaches_label {l : Label} (hcode : code[m.pc]? = some (.label l)) :
    Machine.Reaches I code m m.advance :=
  .single (by simp only [Machine.step, hcode])

theorem Machine.reaches_goto {l : Label} {pc : Nat} (hnodup : (definedLabels code).Nodup)
    (hcode : code[m.pc]? = some (.goto l)) (htarget : code[pc]? = some (.label l)) :
    Machine.Reaches I code m { m with pc := pc + 1 } := by
  have hjump : m.step I code = .next { m with pc } := by
    simp only [Machine.step, hcode, Machine.jump_eq hnodup htarget]
  exact (Machine.Reaches.single hjump).trans (Machine.reaches_label htarget)

theorem Machine.reaches_gotoIf {l : Label} {pc : Nat} {cond : Operand} {v : V}
    (hnodup : (definedLabels code).Nodup) (hcode : code[m.pc]? = some (.gotoIf cond l))
    (htarget : code[pc]? = some (.label l)) (hv : m.read I cond = some v) (htrue : I.truthy v) :
    Machine.Reaches I code m { m with pc := pc + 1 } := by
  have hjump : m.step I code = .next { m with pc } := by
    simp only [Machine.step, hcode, hv, htrue, if_true, Machine.jump_eq hnodup htarget]
  exact (Machine.Reaches.single hjump).trans (Machine.reaches_label htarget)

theorem Machine.reaches_pass {l : Label} {cond : Operand} {v : V}
    (hcode : code[m.pc]? = some (.gotoIf cond l)) (hv : m.read I cond = some v)
    (hfalse : ¬ I.truthy v) : Machine.Reaches I code m m.advance :=
  .single (by simp only [Machine.step, hcode, hv, if_neg hfalse])

theorem Machine.completes_scan {name : String} (hcode : code[m.pc]? = some (.scan name)) :
    Machine.Completes I code m 1 ((Exec.receive >>= Exec.write name).run m.world) := by
  rw [EStateM.run_bind]
  cases hinput : m.world.input with
  | nil =>
    have hrun : Exec.receive.run m.world = .error .input m.world := by
      simp only [EStateM.run, Exec.receive, hinput]
    rw [hrun]
    exact .of_step_halted (by simp only [Machine.step, hcode, hinput])
  | cons v rest =>
    have hrun : Exec.receive.run m.world = .ok v { m.world with input := rest } := by
      simp only [EStateM.run, Exec.receive, hinput]
    rw [hrun]
    exact ⟨m.temps, .single (by simp only [Machine.step, hcode, hinput]; rfl)⟩

/-- A copy into a variable. -/
theorem Machine.completes_assign {name : String} {value : Operand} {v : V}
    (hcode : code[m.pc]? = some (.assign (.ident name) value)) (hv : m.read I value = some v) :
    Machine.Completes I code m 1 ((Exec.write name v).run m.world) :=
  ⟨m.temps, Machine.reaches_assign hcode hv⟩

/-- **A branch** between two stretches of code that complete two runs. -/
theorem Machine.completes_branch {f : Fork} {cond : Operand} {v : V} {xs ys : List Instr}
    {x y : Exec V Unit} (hnodup : (definedLabels code).Nodup)
    (hcode : CodeAt code m.pc (f.head cond ++ xs ++ f.middle ++ ys ++ f.last))
    (hv : m.read I cond = some v)
    (hx : ∀ m' : Machine V, m'.pc = m.pc + 3 →
      Completes I code m' xs.length (x.run m'.world))
    (hy : ∀ m' : Machine V, m'.pc = m.pc + 3 + xs.length + 2 →
      Completes I code m' ys.length (y.run m'.world)) :
    Completes I code m (f.head cond ++ xs ++ f.middle ++ ys ++ f.last).length
      ((if I.truthy v then x else y).run m.world) := by
  -- The parts of the branch, and where they stand.
  have hhead := hcode.left.left.left.left
  have hmiddle := hcode.left.left.right
  have hlast := hcode.right.head
  have hlength : (f.head cond ++ xs ++ f.middle ++ ys ++ f.last).length =
      3 + (xs.length + 2 + ys.length + 1) := by
    simp only [List.length_append, Fork.head, Fork.middle, Fork.last, List.length_cons,
      List.length_nil]
    omega
  have hmiddle_pc : m.pc + (f.head cond ++ xs).length = m.pc + 3 + xs.length := by
    simp only [List.length_append, Fork.head, List.length_cons, List.length_nil]
    omega
  have hlast_pc : m.pc + (f.head cond ++ xs ++ f.middle ++ ys).length =
      m.pc + 3 + xs.length + 2 + ys.length := by
    simp only [List.length_append, Fork.head, Fork.middle, List.length_cons, List.length_nil]
    omega
  rw [hmiddle_pc] at hmiddle
  rw [hlast_pc] at hlast
  rw [hlength]
  by_cases htrue : I.truthy v
  · -- Over the second jump into the first block, and from its end over the second block.
    rw [if_pos htrue]
    have hin := Machine.reaches_gotoIf hnodup hhead.head hhead.tail.tail.head hv htrue
    refine Completes.of_reaches hin (n := 3) rfl ?_
    refine (hx _ rfl).extend (m.pc + 3 + xs.length + 2 + ys.length + 1) ?_ fun m' hm' => ?_
    · show _ = m.pc + 3 + (xs.length + 2 + ys.length + 1)
      omega
    · have hgoto := hmiddle.head
      rw [← hm'] at hgoto
      exact Machine.reaches_goto hnodup hgoto hlast
  · -- Over the first block, and through the second one to its end.
    rw [if_neg htrue]
    have hpass := Machine.reaches_pass hhead.head hv htrue
    have hin : Reaches I code m.advance { m with pc := m.pc + 3 + xs.length + 1 + 1 } :=
      Machine.reaches_goto hnodup hhead.tail.head hmiddle.tail.head
    have hrest : Completes I code { m with pc := m.pc + 3 + xs.length + 1 + 1 } (ys.length + 1)
        (y.run m.world) := by
      refine (hy _ rfl).extend _ rfl fun m' hm' => ?_
      rw [← hm'] at hlast
      have hout := Machine.reaches_label (I := I) hlast
      rwa [Machine.advance, hm'] at hout
    have hall := Completes.of_reaches (n := 3 + xs.length + 2) (hpass.trans hin)
      (by simp only [Nat.add_assoc]) hrest
    rwa [Nat.add_assoc 3, Nat.add_assoc 3] at hall

/-- What the code of a statement does, wherever it stands in code that defines no label twice. -/
def Stmt.Lowers (I : Interpretation V) (s : Stmt) : Prop :=
  ∀ (code : List Instr) (c : Counters) (m : Machine V), (definedLabels code).Nodup →
    CodeAt code m.pc (s.codeAt c) →
    Machine.Completes I code m (s.codeAt c).length ((s.exec I).run m.world)

/-- What the code of a block does, wherever it stands in code that defines no label twice. -/
def Stmt.LowersAll (I : Interpretation V) (block : List Stmt) : Prop :=
  ∀ (code : List Instr) (c : Counters) (m : Machine V), (definedLabels code).Nodup →
    CodeAt code m.pc (Stmt.codeAll c block) →
    Machine.Completes I code m (Stmt.codeAll c block).length ((Stmt.execAll I block).run m.world)

theorem Stmt.lowers_declare (type : DataType) (name : String) (value : Option Expr) :
    (Stmt.declare type name value).Lowers I := by
  intro code c m hnodup hcode
  cases value with
  | none => exact .refl m
  | some e =>
    simp only [Stmt.codeAt] at hcode ⊢
    rw [List.length_append]
    refine Machine.Completes.value e hcode.left fun m' v hpc hv => ?_
    have hcopy := hcode.right
    rw [← hpc] at hcopy
    -- The copy through a temporary, and then the copy into the variable.
    have hreach := Machine.reaches_assign hcopy.head hv
    refine Machine.Completes.of_reaches (n := 1) hreach rfl ?_
    exact Machine.completes_assign hcopy.tail.head
      (by simp [Machine.read, Machine.advance, Machine.write, Machine.setTemp])

theorem Stmt.lowers_assign (name : String) (e : Expr) : (Stmt.assign name e).Lowers I := by
  intro code c m hnodup hcode
  simp only [Stmt.codeAt] at hcode ⊢
  rw [List.length_append]
  refine Machine.Completes.value e hcode.left fun m' v hpc hv => ?_
  have hcopy := hcode.right.head
  rw [← hpc] at hcopy
  exact Machine.completes_assign hcopy hv

theorem Stmt.lowers_print (what : Printed) : (Stmt.print what).Lowers I := by
  intro code c m hnodup hcode
  cases what with
  | text content => exact ⟨m.temps, Machine.reaches_print hcode.head rfl⟩
  | value e =>
    simp only [Stmt.codeAt] at hcode ⊢
    rw [List.length_append]
    refine Machine.Completes.value e hcode.left fun m' v hpc hv => ?_
    have hprint := hcode.right.head
    rw [← hpc] at hprint
    exact ⟨m'.temps, Machine.reaches_print hprint hv⟩

theorem Stmt.lowers_branch (cond : Expr) {thenBlock elseBlock : List Stmt}
    (hthen : Stmt.LowersAll I thenBlock) (helse : Stmt.LowersAll I elseBlock) :
    (Stmt.branch cond thenBlock (some elseBlock)).Lowers I := by
  intro code c m hnodup hcode
  simp only [Stmt.codeAt, List.append_assoc] at hcode ⊢
  rw [List.length_append]
  refine Machine.Completes.value cond hcode.left fun m' v hpc hv => ?_
  have hfork := hcode.right
  rw [← hpc] at hfork
  simp only [← List.append_assoc] at hfork ⊢
  refine Machine.completes_branch hnodup hfork hv ?_ ?_
  · -- The first block stands behind the head of the branch.
    intro m₁ hm₁
    refine hthen code _ m₁ hnodup ?_
    rw [hm₁]
    exact hfork.left.left.left.right
  · -- The second block stands behind the first one and the middle of the branch.
    intro m₁ hm₁
    refine helse code _ m₁ hnodup ?_
    have hblock := hfork.left.right
    simp only [List.length_append, Fork.head, Fork.middle, List.length_cons, List.length_nil,
      ← Nat.add_assoc, Nat.add_zero] at hblock
    rw [hm₁]
    exact hblock

/-- A missing second block is lowered as an empty one. -/
theorem Stmt.lowers_branch_none {cond : Expr} {thenBlock : List Stmt}
    (h : (Stmt.branch cond thenBlock (some [])).Lowers I) :
    (Stmt.branch cond thenBlock none).Lowers I := by
  intro code c m hnodup hcode
  have hempty : (Stmt.branch cond thenBlock none).codeAt c =
      (Stmt.branch cond thenBlock (some [])).codeAt c := by
    simp [Stmt.codeAt, Stmt.codeAll]
  rw [hempty] at hcode ⊢
  exact h code c m hnodup hcode

/-- **The code of a statement completes the run of the statement**, and the code of a block that of
the block. -/
theorem Stmt.lowers_all (I : Interpretation V) :
    (∀ s : Stmt, s.Lowers I) ∧ ∀ block : List Stmt, Stmt.LowersAll I block := by
  apply Stmt.block_induction
  case declare => exact Stmt.lowers_declare
  case assign => exact Stmt.lowers_assign
  case print => exact Stmt.lowers_print
  case scan =>
    intro name code c m hnodup hcode
    exact Machine.completes_scan hcode.head
  case branch =>
    intro cond thenBlock elseBlock hthen helse
    cases elseBlock with
    | some elseBlock => exact Stmt.lowers_branch cond hthen (helse elseBlock rfl)
    | none =>
      -- The empty block has no code and does nothing.
      refine Stmt.lowers_branch_none (Stmt.lowers_branch cond hthen ?_)
      intro code c m _ _
      exact .refl m
  case function =>
    intro signature body _ code c m _ _
    exact .refl m
  case ret =>
    intro value code c m _ _
    exact .refl m
  case nil =>
    intro code c m _ _
    exact .refl m
  case cons =>
    intro s rest hs hrest code c m hnodup hcode
    simp only [Stmt.codeAll, Stmt.execAll, List.length_append] at hcode ⊢
    refine Machine.Completes.append (hs code c m hnodup hcode.left) ?_
    -- The rest of the block is run from the end of the code of its first statement.
    intro m' hpc
    refine hrest code _ m' hnodup ?_
    rw [hpc]
    exact hcode.right

/-! ## Programs -/

/-- **The code of a program halts as the program ends**, in the same world and with the same
failure. -/
theorem halts_lower (I : Interpretation V) (program : List Stmt) (w : World V) :
    Machine.Halts I (lower program) w (Exec.outcome (Stmt.execAll I program) w).1
      (Exec.outcome (Stmt.execAll I program) w).2 := by
  have h := (Stmt.lowers_all I).2 program (lower program) 0 (Machine.initial w)
    (nodup_definedLabels_lower program) (CodeAt.self _)
  unfold Exec.outcome
  change Machine.Completes I (lower program) (Machine.initial w) (lower program).length
    ((Stmt.execAll I program).run w) at h
  cases hrun : (Stmt.execAll I program).run w with
  | ok _ w' =>
    rw [hrun] at h
    obtain ⟨temps, hreach⟩ := h
    -- The machine comes to stand behind the last instruction, where it halts.
    refine Machine.HaltsFrom.of_reaches hreach (.of_step_halted (Machine.step_end ?_))
    exact Nat.le_add_left _ _
  | error failure w' =>
    rw [hrun] at h
    exact h

/-- **Lowering preserves meaning.**  For every interpretation, store and input, the code of a
program halts, and it halts exactly as the direct run of the program ends: with the same variables,
the same input left, the same output, and normally or with the same failure. -/
theorem halts_lower_iff (I : Interpretation V) (program : List Stmt) (w w' : World V)
    (failure : Option Failure) :
    Machine.Halts I (lower program) w w' failure ↔
      Exec.outcome (Stmt.execAll I program) w = (w', failure) := by
  constructor
  · -- The machine halts in one way only, and one way is known.
    intro h
    obtain ⟨hworld, hfailure⟩ := (halts_lower I program w).unique h
    exact Prod.ext hworld hfailure
  · intro h
    have hlower := halts_lower I program w
    rwa [h] at hlower

end Brew
