import Brew.Proofs.Code.Labels
import Brew.Semantics.Machine
import Mathlib.Logic.Relation

/-!
# Runs of the machine through a stretch of code

A statement is lowered to a stretch of instructions that stands somewhere inside the code of the
whole program.  What such a stretch does is said by two relations: the machine **reaches** one state
from another, or it **halts** from a state on.  Jumps leave the stretch-by-stretch view only
through the place where their label is defined, and that place is the only one when no label is
defined twice.

## Main definitions

* `CodeAt code pc block`: the block stands in the code at `pc`
* `Machine.Reaches`, `Machine.HaltsFrom`: what running can lead to
* `Machine.Completes`: a stretch of code has the effect of a structured run

## Main results

* `Machine.target?_eq_some`: where a jump goes when no label is defined twice
* `Machine.Completes.append`: stretches that stand behind each other do what the runs do one after
  the other
-/

namespace Brew

/-! ## Code inside of code -/

/-- A block of instructions stands in some code, from the index `pc` on. -/
def CodeAt (code : List Instr) (pc : Nat) (block : List Instr) : Prop :=
  ∀ i instr, block[i]? = some instr → code[pc + i]? = some instr

namespace CodeAt

variable {code xs ys : List Instr} {pc : Nat} {instr : Instr}

theorem self (code : List Instr) : CodeAt code 0 code := by
  intro i instr h
  rwa [Nat.zero_add]

theorem head (h : CodeAt code pc (instr :: xs)) : code[pc]? = some instr :=
  h 0 instr rfl

theorem tail (h : CodeAt code pc (instr :: xs)) : CodeAt code (pc + 1) xs := by
  intro i other hi
  rw [Nat.add_assoc, Nat.add_comm 1 i]
  exact h (i + 1) other hi

theorem left (h : CodeAt code pc (xs ++ ys)) : CodeAt code pc xs := by
  intro i instr hi
  refine h i instr ?_
  rw [List.getElem?_append_left (List.getElem?_eq_some_iff.mp hi).1]
  exact hi

theorem right (h : CodeAt code pc (xs ++ ys)) : CodeAt code (pc + xs.length) ys := by
  intro i instr hi
  rw [Nat.add_assoc]
  refine h (xs.length + i) instr ?_
  rwa [List.getElem?_append_right (Nat.le_add_right _ _), Nat.add_sub_cancel_left]

end CodeAt

namespace Machine

variable {V : Type} {I : Interpretation V} {code : List Instr} {m m' : Machine V} {w : World V}

/-! ## Reaching and halting -/

/-- The machine comes from one state to another by some number of steps. -/
def Reaches (I : Interpretation V) (code : List Instr) : Machine V → Machine V → Prop :=
  Relation.ReflTransGen fun m m' => m.step I code = .next m'

/-- The machine halts from a state on, with a final world, and normally or with a failure. -/
def HaltsFrom (I : Interpretation V) (code : List Instr) (m : Machine V) (w : World V)
    (failure : Option Failure) : Prop :=
  ∃ n, run I code n m = .halted w failure

theorem Reaches.single (h : m.step I code = .next m') : Reaches I code m m' :=
  Relation.ReflTransGen.single h

theorem HaltsFrom.of_step_halted {failure : Option Failure}
    (h : m.step I code = .halted w failure) : HaltsFrom I code m w failure :=
  ⟨1, by rw [run, h]⟩

theorem HaltsFrom.of_step {failure : Option Failure} (hstep : m.step I code = .next m')
    (h : HaltsFrom I code m' w failure) : HaltsFrom I code m w failure := by
  obtain ⟨n, hn⟩ := h
  refine ⟨n + 1, ?_⟩
  rw [run, hstep]
  exact hn

theorem HaltsFrom.of_reaches {failure : Option Failure} (hreach : Reaches I code m m')
    (h : HaltsFrom I code m' w failure) : HaltsFrom I code m w failure := by
  -- Induction on the way to `m'`, from its first step on.
  induction hreach using Relation.ReflTransGen.head_induction_on with
  | refl => exact h
  | head hstep _ ih => exact ih.of_step hstep

/-- Behind its last instruction code halts normally. -/
theorem step_end (h : code.length ≤ m.pc) : m.step I code = .halted m.world none := by
  rw [step, List.getElem?_eq_none h]

/-! ## Jumps -/

/-- **Where a label is defined**, if no label is defined twice. -/
theorem target?_eq_some {l : Label} {pc : Nat} (hnodup : (definedLabels code).Nodup)
    (h : code[pc]? = some (.label l)) : target? code l = some pc := by
  obtain ⟨hlt, hget⟩ := List.getElem?_eq_some_iff.mp h
  unfold target?
  rw [List.findIdx?_eq_some_iff_getElem]
  refine ⟨hlt, by simp [hget], ?_⟩
  -- It remains to see that no earlier instruction defines the label.
  intro j hj hlabel
  -- Two definitions at different places would show up as a repetition among the defined labels.
  have hpairs := List.pairwise_filterMap.mp hnodup
  have hne := List.pairwise_iff_getElem.mp hpairs j pc (Nat.lt_trans hj hlt) hlt hj
  rw [of_decide_eq_true hlabel, hget] at hne
  exact hne l rfl l rfl rfl

/-- A jump to a label that is defined once. -/
theorem jump_eq {l : Label} {pc : Nat} (hnodup : (definedLabels code).Nodup)
    (h : code[pc]? = some (.label l)) : jump code m l = .next { m with pc } := by
  rw [jump, target?_eq_some hnodup h]

/-! ## Stretches of code -/

/-- A stretch of `n` instructions has the effect of a structured run: if the run comes to its end,
the machine comes to the end of the stretch in the same world; if the run fails, the machine halts
with the same failure in the same world. -/
def Completes (I : Interpretation V) (code : List Instr) (m : Machine V) (n : Nat) :
    EStateM.Result Failure (World V) Unit → Prop
  | .ok _ w => ∃ temps, Reaches I code m ⟨m.pc + n, w, temps⟩
  | .error failure w => HaltsFrom I code m w (some failure)

theorem Completes.refl (m : Machine V) : Completes I code m 0 (.ok () m.world) :=
  ⟨m.temps, Relation.ReflTransGen.refl⟩

/-- A stretch that starts with some steps that leave the world alone. -/
theorem Completes.of_reaches {n k : Nat} {r : EStateM.Result Failure (World V) Unit}
    (hreach : Reaches I code m m') (hpc : m'.pc = m.pc + n) (h : Completes I code m' k r) :
    Completes I code m (n + k) r := by
  cases r with
  | ok _ w =>
    obtain ⟨temps, htemps⟩ := h
    rw [hpc, Nat.add_assoc] at htemps
    exact ⟨temps, hreach.trans htemps⟩
  | error failure w => exact HaltsFrom.of_reaches hreach h

/-- A stretch that ends with some steps that leave the world alone, possibly with a jump. -/
theorem Completes.extend {n k : Nat} {r : EStateM.Result Failure (World V) Unit}
    (h : Completes I code m n r) (pc : Nat) (hpc : pc = m.pc + k)
    (hreach : ∀ m' : Machine V, m'.pc = m.pc + n → Reaches I code m' { m' with pc }) :
    Completes I code m k r := by
  subst hpc
  cases r with
  | ok _ w =>
    obtain ⟨temps, htemps⟩ := h
    exact ⟨temps, htemps.trans (hreach _ rfl)⟩
  | error failure w => exact h

/-- **Stretches one behind the other** do what the runs do one after the other. -/
theorem Completes.append {n k : Nat} {x y : EStateM Failure (World V) Unit}
    (hx : Completes I code m n (x.run m.world))
    (hy : ∀ m' : Machine V, m'.pc = m.pc + n → Completes I code m' k (y.run m'.world)) :
    Completes I code m (n + k) ((x >>= fun _ => y).run m.world) := by
  rw [EStateM.run_bind]
  cases hrun : x.run m.world with
  | ok _ w =>
    rw [hrun] at hx
    obtain ⟨temps, hreach⟩ := hx
    exact Completes.of_reaches hreach rfl (hy ⟨m.pc + n, w, temps⟩ rfl)
  | error failure w =>
    -- The first run fails, and the machine halts before it comes to the second stretch.
    rw [hrun] at hx
    exact hx

end Machine

end Brew
