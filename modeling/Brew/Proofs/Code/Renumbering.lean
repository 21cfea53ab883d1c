import Brew.Code.Flow
import Brew.Code.Lower
import Mathlib.Data.Finset.Image
import Mathlib.Order.Interval.Finset.Nat

/-!
# Code under other counters

The counters before a block are where its numbering starts and nothing else.  The code of a block
under raised counters is the same code with all numbers raised, and the numbers that occur in it are
those from the first one taken to the last one, without a gap.  So the counters behind a program can
be read off its code: they are the numbers of temporaries and of labels that occur in it.

## Main definitions

* `occurring`, `tempsIn`, `labelsIn`: what occurs in code, and the temporaries and labels that do

## Main results

* `Stmt.codeAll_add`: raised counters raise the numbers in the code
* `Stmt.mem_tempsIn_all`, `Stmt.mem_labelsIn_all`: the numbers that occur in the code of a block
* `card_tempsIn_lower`, `card_labelsIn_lower`: what a program takes can be counted in its code
* `lower_append`: the code of joined programs
-/

namespace Brew

/-! ## Raised counters -/

theorem Counters.add_right_comm (a b c : Counters) : a + b + c = a + c + b := by
  ext
  · exact Nat.add_right_comm ..
  · exact Nat.add_right_comm ..

theorem Expr.operandAt_add (n t : Nat) (e : Expr) :
    e.operandAt (n + t) = (e.operandAt n).shift t := by
  cases e with
  | number | ident | text => rfl
  | binary op left right => rw [operandAt, operandAt, Operand.shift, Temp.shift, Nat.add_right_comm]

theorem Expr.codeAt_add (n t l : Nat) (e : Expr) :
    e.codeAt (n + t) = (e.codeAt n).map (Instr.shift t l) := by
  induction e generalizing n with
  | number | ident | text => rfl
  | binary op left right ihl ihr =>
    -- The right operand starts behind the left one, and so behind the raise.
    have hright : n + t + left.operations = n + left.operations + t := Nat.add_right_comm ..
    simp only [codeAt, List.map_append, List.map_cons, List.map_nil, Instr.shift, Temp.shift,
      hright, ihl, ihr, operandAt_add, Nat.add_right_comm n t]

theorem Fork.head_add (n t l : Nat) (cond : Operand) :
    (Fork.after (n + l)).head (cond.shift t) =
      ((Fork.after n).head cond).map (Instr.shift t l) := by
  simp only [head, after, List.map_cons, List.map_nil, Instr.shift, Label.shift,
    Nat.add_right_comm n l]

theorem Fork.middle_add (n t l : Nat) :
    (Fork.after (n + l)).middle = (Fork.after n).middle.map (Instr.shift t l) := by
  simp only [middle, after, List.map_cons, List.map_nil, Instr.shift, Label.shift,
    Nat.add_right_comm n l]

theorem Fork.last_add (n t l : Nat) :
    (Fork.after (n + l)).last = (Fork.after n).last.map (Instr.shift t l) := by
  simp only [last, after, List.map_cons, List.map_nil, Instr.shift, Label.shift,
    Nat.add_right_comm n l]

/-- **Raised counters raise the numbers in the code**, and do nothing else to it. -/
theorem Stmt.codeAll_add (d : Counters) :
    (∀ (s : Stmt) (c : Counters),
      s.codeAt (c + d) = (s.codeAt c).map (Instr.shift d.temps d.labels)) ∧
    ∀ (block : List Stmt) (c : Counters),
      Stmt.codeAll (c + d) block = (Stmt.codeAll c block).map (Instr.shift d.temps d.labels) := by
  apply Stmt.block_induction
  case branch =>
    intro cond thenBlock elseBlock hthen helse c
    have hexpr := Expr.codeAt_add c.temps d.temps d.labels cond
    cases elseBlock with
    | none =>
      simp only [Stmt.codeAt, List.map_append, Counters.temps_add, Counters.labels_add, hexpr,
        Expr.operandAt_add, Fork.head_add, Fork.middle_add _ d.temps, Fork.last_add _ d.temps,
        Counters.add_right_comm c d, hthen]
    | some elseBlock =>
      simp only [Stmt.codeAt, List.map_append, Counters.temps_add, Counters.labels_add, hexpr,
        Expr.operandAt_add, Fork.head_add, Fork.middle_add _ d.temps, Fork.last_add _ d.temps,
        Counters.add_right_comm c d, Counters.add_right_comm _ d, hthen, helse elseBlock rfl]
  case cons =>
    intro s rest hs hrest c
    rw [Stmt.codeAll, Stmt.codeAll, List.map_append, hs, Counters.add_right_comm, hrest]
  case declare =>
    intro type name value c
    cases value with
    | none => rfl
    | some e =>
      simp only [Stmt.codeAt, Counters.temps_add, Expr.codeAt_add c.temps d.temps d.labels,
        Expr.operandAt_add, List.map_append, List.map_cons, List.map_nil, Instr.shift, Place.shift,
        Operand.shift, Temp.shift, Nat.add_right_comm c.temps d.temps,
        Nat.add_right_comm _ d.temps 1]
  case assign =>
    intro name e c
    simp only [Stmt.codeAt, Counters.temps_add, Expr.codeAt_add c.temps d.temps d.labels,
      Expr.operandAt_add, List.map_append, List.map_cons, List.map_nil, Instr.shift, Place.shift]
  case print =>
    intro what c
    cases what with
    | text content => rfl
    | value e =>
      simp only [Stmt.codeAt, Counters.temps_add, Expr.codeAt_add c.temps d.temps d.labels,
        Expr.operandAt_add, List.map_append, List.map_cons, List.map_nil, Instr.shift]
  all_goals
    intros
    rfl

/-! ## Occurrences -/

/-- What occurs in code, given what occurs in each instruction. -/
def occurring {α : Type} [DecidableEq α] (f : Instr → List α) (code : List Instr) : Finset α :=
  (code.flatMap f).toFinset

/-- The temporaries that occur in an instruction. -/
def Instr.temps (i : Instr) : List Temp := i.writtenTemp?.toList ++ i.readTemps

/-- The labels that occur in an instruction. -/
def Instr.labels (i : Instr) : List Label := i.label?.toList ++ i.target?.toList

/-- The temporaries that occur in code. -/
abbrev tempsIn (code : List Instr) : Finset Temp := occurring Instr.temps code

/-- The labels that occur in code. -/
abbrev labelsIn (code : List Instr) : Finset Label := occurring Instr.labels code

section Occurring

variable {α : Type} [DecidableEq α] {f : Instr → List α} {x : α} {i : Instr} {xs ys : List Instr}

@[simp] theorem not_mem_occurring_nil : x ∉ occurring f [] := by simp [occurring]

@[simp] theorem mem_occurring_cons :
    x ∈ occurring f (i :: xs) ↔ x ∈ f i ∨ x ∈ occurring f xs := by
  simp only [occurring, List.mem_toFinset, List.flatMap_cons, List.mem_append]

@[simp] theorem mem_occurring_append :
    x ∈ occurring f (xs ++ ys) ↔ x ∈ occurring f xs ∨ x ∈ occurring f ys := by
  simp only [occurring, List.mem_toFinset, List.flatMap_append, List.mem_append]

theorem Instr.mem_temps {t : Temp} :
    t ∈ i.temps ↔ i.writtenTemp? = some t ∨ ∃ o ∈ i.operands, o.temp? = some t := by
  rw [temps, List.mem_append, Option.mem_toList, readTemps, List.mem_filterMap]

theorem Instr.mem_labels {l : Label} :
    l ∈ i.labels ↔ i.label? = some l ∨ i.target? = some l := by
  rw [labels, List.mem_append, Option.mem_toList, Option.mem_toList]

end Occurring

/-! ### Temporaries -/

/-- The operand that holds an expression is the last temporary of the expression, or none. -/
theorem Expr.temp?_operandAt (n : Nat) (e : Expr) (t : Temp) :
    (e.operandAt n).temp? = some t ↔ 0 < e.operations ∧ t.number = n + e.operations := by
  cases e with
  | number | ident | text => simp [operandAt, Operand.temp?, operations]
  | binary op left right =>
    obtain ⟨k⟩ := t
    simp only [operandAt, Operand.temp?, Option.some.injEq, Temp.mk.injEq, operations]
    omega

theorem Expr.mem_tempsIn (n : Nat) (e : Expr) (t : Temp) :
    t ∈ tempsIn (e.codeAt n) ↔ n < t.number ∧ t.number ≤ n + e.operations := by
  induction e generalizing n with
  | number | ident | text =>
    simp only [codeAt, not_mem_occurring_nil, operations, false_iff]
    omega
  | binary op left right ihl ihr =>
    obtain ⟨k⟩ := t
    simp only [codeAt, mem_occurring_append, mem_occurring_cons, not_mem_occurring_nil, ihl, ihr,
      Instr.mem_temps, Instr.writtenTemp?, Instr.operands, Option.some.injEq, Temp.mk.injEq,
      List.mem_cons, List.not_mem_nil, or_false, exists_eq_or_imp, exists_eq_left, temp?_operandAt,
      operations]
    omega

/-- An instruction that reads an expression names no temporary beyond those of the expression and
the one it writes. -/
theorem Expr.mem_tempsIn_read {n : Nat} {e : Expr} {i : Instr} (hi : i.operands = [e.operandAt n])
    {rest : List Instr} {t : Temp} :
    t ∈ tempsIn (e.codeAt n ++ i :: rest) ↔
      (n < t.number ∧ t.number ≤ n + e.operations) ∨ i.writtenTemp? = some t ∨
        t ∈ tempsIn rest := by
  simp only [mem_occurring_append, mem_occurring_cons, mem_tempsIn, Instr.mem_temps, hi,
    List.mem_singleton, exists_eq_left, temp?_operandAt]
  constructor
  · rintro (h | (h | ⟨hpos, hlast⟩) | h)
    · exact .inl h
    · exact .inr (.inl h)
    · exact .inl (by omega)
    · exact .inr (.inr h)
  · rintro (h | h | h)
    · exact .inl h
    · exact .inr (.inl (.inl h))
    · exact .inr (.inr h)

/-- The jumps and labels of a branch name no temporary beyond those of the condition. -/
theorem Fork.mem_tempsIn_head (f : Fork) (n : Nat) (cond : Expr) (t : Temp) :
    t ∈ tempsIn (cond.codeAt n) ∨ t ∈ tempsIn (f.head (cond.operandAt n)) ↔
      n < t.number ∧ t.number ≤ n + cond.operations := by
  rw [← mem_occurring_append, head, Expr.mem_tempsIn_read rfl]
  simp [Instr.mem_temps, Instr.writtenTemp?, Instr.operands]

theorem Fork.not_mem_tempsIn_middle (f : Fork) (t : Temp) : t ∉ tempsIn f.middle := by
  simp [middle, Instr.mem_temps, Instr.writtenTemp?, Instr.operands]

theorem Fork.not_mem_tempsIn_last (f : Fork) (t : Temp) : t ∉ tempsIn f.last := by
  simp [last, Instr.mem_temps, Instr.writtenTemp?, Instr.operands]

/-- **The temporaries in the code of a block** are those from the first one taken to the last. -/
theorem Stmt.mem_tempsIn_all (t : Temp) :
    (∀ (s : Stmt) (c : Counters), t ∈ tempsIn (s.codeAt c) ↔
      c.temps < t.number ∧ t.number ≤ c.temps + s.usage.temps) ∧
    ∀ (block : List Stmt) (c : Counters), t ∈ tempsIn (Stmt.codeAll c block) ↔
      c.temps < t.number ∧ t.number ≤ c.temps + (Stmt.usageAll block).temps := by
  apply Stmt.block_induction
  case branch =>
    intro cond thenBlock elseBlock hthen helse c
    cases elseBlock with
    | none =>
      simp only [Stmt.codeAt, Stmt.usage, mem_occurring_append, Fork.mem_tempsIn_head, hthen,
        Fork.not_mem_tempsIn_middle, Fork.not_mem_tempsIn_last, or_false, Counters.temps_add]
      omega
    | some elseBlock =>
      simp only [Stmt.codeAt, Stmt.usage, mem_occurring_append, Fork.mem_tempsIn_head, hthen,
        helse elseBlock rfl, Fork.not_mem_tempsIn_middle, Fork.not_mem_tempsIn_last, or_false,
        Counters.temps_add]
      omega
  case cons =>
    intro s rest hs hrest c
    -- The rest begins where the statement ends, so the two ranges make one.
    rw [Stmt.codeAll, Stmt.usageAll, mem_occurring_append, hs, hrest, Counters.temps_add,
      Counters.temps_add]
    omega
  case declare =>
    intro type name value c
    cases value with
    | none => simp [Stmt.codeAt, Stmt.usage]
    | some e =>
      -- The copy takes one more temporary, behind those of the value.
      obtain ⟨k⟩ := t
      rw [Stmt.codeAt, Expr.mem_tempsIn_read rfl]
      simp only [Stmt.usage, mem_occurring_cons, not_mem_occurring_nil, Instr.mem_temps,
        Instr.writtenTemp?, Instr.operands, Operand.temp?, List.mem_singleton, exists_eq_left,
        Option.some.injEq, Temp.mk.injEq, reduceCtorEq, false_or, or_false]
      omega
  case assign =>
    intro name e c
    rw [Stmt.codeAt, Expr.mem_tempsIn_read rfl]
    simp [Stmt.usage, Instr.writtenTemp?]
  case print =>
    intro what c
    cases what with
    | text content =>
      simp [Stmt.codeAt, Stmt.usage, Instr.mem_temps, Instr.writtenTemp?, Instr.operands,
        Operand.temp?]
    | value e =>
      rw [Stmt.codeAt, Expr.mem_tempsIn_read rfl]
      simp [Stmt.usage, Instr.writtenTemp?]
  all_goals
    intros
    simp [Stmt.codeAt, Stmt.codeAll, Stmt.usageAll, Stmt.usage, Instr.mem_temps,
      Instr.writtenTemp?, Instr.operands]

/-! ### Labels -/

theorem Expr.not_mem_labelsIn (n : Nat) (e : Expr) (l : Label) : l ∉ labelsIn (e.codeAt n) := by
  induction e generalizing n with
  | number | ident | text => exact not_mem_occurring_nil
  | binary op left right ihl ihr =>
    simp [codeAt, ihl, ihr, Instr.mem_labels, Instr.label?, Instr.target?]

theorem Fork.mem_labelsIn_head (n : Nat) (cond : Operand) (l : Label) :
    l ∈ labelsIn ((Fork.after n).head cond) ↔ l.number = n + 1 ∨ l.number = n + 2 := by
  obtain ⟨k⟩ := l
  simp only [head, after, mem_occurring_cons, not_mem_occurring_nil, Instr.mem_labels,
    Instr.label?, Instr.target?, Option.some.injEq, Label.mk.injEq, reduceCtorEq, false_or, or_false]
  omega

theorem Fork.mem_labelsIn_middle (n : Nat) (l : Label) :
    l ∈ labelsIn (Fork.after n).middle ↔ l.number = n + 2 ∨ l.number = n + 3 := by
  obtain ⟨k⟩ := l
  simp only [middle, after, mem_occurring_cons, not_mem_occurring_nil, Instr.mem_labels,
    Instr.label?, Instr.target?, Option.some.injEq, Label.mk.injEq, reduceCtorEq, false_or, or_false]
  omega

theorem Fork.mem_labelsIn_last (n : Nat) (l : Label) :
    l ∈ labelsIn (Fork.after n).last ↔ l.number = n + 3 := by
  obtain ⟨k⟩ := l
  simp only [last, after, mem_occurring_cons, not_mem_occurring_nil, Instr.mem_labels,
    Instr.label?, Instr.target?, Option.some.injEq, Label.mk.injEq, reduceCtorEq, or_false]
  omega

/-- **The labels in the code of a block** are those from the first one taken to the last. -/
theorem Stmt.mem_labelsIn_all (l : Label) :
    (∀ (s : Stmt) (c : Counters), l ∈ labelsIn (s.codeAt c) ↔
      c.labels < l.number ∧ l.number ≤ c.labels + s.usage.labels) ∧
    ∀ (block : List Stmt) (c : Counters), l ∈ labelsIn (Stmt.codeAll c block) ↔
      c.labels < l.number ∧ l.number ≤ c.labels + (Stmt.usageAll block).labels := by
  apply Stmt.block_induction
  case branch =>
    intro cond thenBlock elseBlock hthen helse c
    cases elseBlock with
    | none =>
      simp only [Stmt.codeAt, Stmt.usage, mem_occurring_append, Expr.not_mem_labelsIn, false_or,
        Fork.mem_labelsIn_head, Fork.mem_labelsIn_middle, Fork.mem_labelsIn_last, hthen,
        Counters.labels_add]
      omega
    | some elseBlock =>
      simp only [Stmt.codeAt, Stmt.usage, mem_occurring_append, Expr.not_mem_labelsIn, false_or,
        Fork.mem_labelsIn_head, Fork.mem_labelsIn_middle, Fork.mem_labelsIn_last, hthen,
        helse elseBlock rfl, Counters.labels_add]
      omega
  case cons =>
    intro s rest hs hrest c
    rw [Stmt.codeAll, Stmt.usageAll, mem_occurring_append, hs, hrest, Counters.labels_add,
      Counters.labels_add]
    omega
  case declare =>
    intro type name value c
    cases value <;> simp [Stmt.codeAt, Stmt.usage, Expr.not_mem_labelsIn, Instr.mem_labels,
      Instr.label?, Instr.target?]
  case print =>
    intro what c
    cases what <;> simp [Stmt.codeAt, Stmt.usage, Expr.not_mem_labelsIn, Instr.mem_labels,
      Instr.label?, Instr.target?]
  all_goals
    intros
    simp [Stmt.codeAt, Stmt.usage, Stmt.codeAll, Stmt.usageAll, Expr.not_mem_labelsIn,
      Instr.mem_labels, Instr.label?, Instr.target?]

/-! ## Counting -/

/-- Things that are numbered from one on are as many as their last number. -/
theorem card_of_numbered {α : Type} [DecidableEq α] {number : Nat → α}
    (hnumber : number.Injective) {s : Finset α} {n : Nat}
    (h : s = (Finset.Ioc 0 n).image number) : s.card = n := by
  rw [h, Finset.card_image_of_injective _ hnumber, Nat.card_Ioc, Nat.sub_zero]

/-- The number of temporaries in the code of a program is the number it takes. -/
theorem card_tempsIn_lower (program : List Stmt) :
    (tempsIn (lower program)).card = (Stmt.usageAll program).temps := by
  refine card_of_numbered (fun _ _ h => congrArg Temp.number h) ?_
  ext ⟨k⟩
  rw [lower, (Stmt.mem_tempsIn_all ⟨k⟩).2, Finset.mem_image]
  simp [Finset.mem_Ioc]

/-- The number of labels in the code of a program is the number it takes. -/
theorem card_labelsIn_lower (program : List Stmt) :
    (labelsIn (lower program)).card = (Stmt.usageAll program).labels := by
  refine card_of_numbered (fun _ _ h => congrArg Label.number h) ?_
  ext ⟨k⟩
  rw [lower, (Stmt.mem_labelsIn_all ⟨k⟩).2, Finset.mem_image]
  simp [Finset.mem_Ioc]

/-- **The code of joined programs**: the code of the first, and that of the second with its numbers
raised by the numbers of temporaries and labels in the first. -/
theorem lower_append (xs ys : List Stmt) :
    lower (xs ++ ys) = lower xs ++
      (lower ys).map (Instr.shift (tempsIn (lower xs)).card (labelsIn (lower xs)).card) := by
  rw [card_tempsIn_lower, card_labelsIn_lower, lower, lower, lower, Stmt.codeAll_append,
    (Stmt.codeAll_add _).2]

end Brew
