import Brew.Code.Core
import Brew.Proofs.Code.Sites
import Mathlib.Data.List.Basic

/-!
# What lowering forgets

Two programs have the same code exactly if they have the same core.  What is outside of the core
leaves no trace, neither in the instructions nor in the numbers of temporaries and labels.  What is
inside of it can be read back, although code has no brackets:

* the code of an expression is made of operators, and it ends where another instruction reads the
  outcome
* the last operator names the temporaries of its two operands, and the number of the first one says
  how much of the code before it belongs to the first operand
* a block ends where a jump or a label stands that no statement begins with

## Main definitions

* `Core.stmt`, `Core.stmts`: a core as statements of the language
* `Closed`: code that does not go on with a statement

## Main results

* `Stmt.code_core_all`: the core of a block has the code of the block
* `Expr.eq_of_codeAt_eq`: an expression is read back from its code and its operand
* `Core.readBack_all`: a core is read back from its code
* `lower_eq_lower_iff`: two programs have the same code if and only if they have the same core
-/

namespace Brew

/-! ## The code of a core -/

/-- **Induction over the statements of a core and its blocks together.** -/
theorem Core.block_induction {P : Core → Prop} {Q : List Core → Prop}
    (initialise : ∀ name value, P (.initialise name value))
    (assign : ∀ name value, P (.assign name value))
    (print : ∀ value, P (.print value))
    (scan : ∀ name, P (.scan name))
    (branch : ∀ cond thenBlock elseBlock, Q thenBlock → Q elseBlock →
      P (.branch cond thenBlock elseBlock))
    (nil : Q [])
    (cons : ∀ s rest, P s → Q rest → Q (s :: rest)) :
    (∀ s, P s) ∧ ∀ block, Q block := by
  have hcore : ∀ s, P s := fun s =>
    @Core.rec P Q initialise assign print scan branch nil cons s
  refine ⟨hcore, fun block => ?_⟩
  induction block with
  | nil => exact nil
  | cons s rest ih => exact cons s rest (hcore s) ih

mutual

/-- A statement of a core as a statement of the language: of some data type, if it is a declaration,
and with both blocks, if it is a branch. -/
def Core.stmt : Core → Stmt
  | .initialise name e => .declare .int name (some e)
  | .assign name e => .assign name e
  | .print e => .print (.value e)
  | .scan name => .scan name
  | .branch cond thenBlock elseBlock =>
    .branch cond (Core.stmts thenBlock) (some (Core.stmts elseBlock))

/-- The statements of a core as statements of the language. -/
def Core.stmts : List Core → List Stmt
  | [] => []
  | s :: rest => s.stmt :: Core.stmts rest

end

theorem Core.stmts_append (xs ys : List Core) :
    Core.stmts (xs ++ ys) = Core.stmts xs ++ Core.stmts ys := by
  induction xs with
  | nil => rfl
  | cons s rest ih => rw [List.cons_append, Core.stmts, Core.stmts, ih, List.cons_append]

theorem Stmt.codeAll_singleton (c : Counters) (s : Stmt) : Stmt.codeAll c [s] = s.codeAt c :=
  List.append_nil _

/-- The core of a branch, whether or not it has a second block. -/
theorem Stmt.core_branch (cond : Expr) (thenBlock : List Stmt) (elseBlock : Option (List Stmt)) :
    (Stmt.branch cond thenBlock elseBlock).core =
      [.branch cond (Stmt.coreAll thenBlock) (Stmt.coreAll (elseBlock.getD []))] := by
  cases elseBlock with
  | none => rw [Stmt.core, Option.getD_none, Stmt.coreAll]
  | some elseBlock => rw [Stmt.core, Option.getD_some]

/-- **The core of a block takes what the block takes**, and so it is for a statement. -/
theorem Stmt.usage_core_all :
    (∀ s : Stmt, Stmt.usageAll (Core.stmts s.core) = s.usage) ∧
      ∀ block : List Stmt,
        Stmt.usageAll (Core.stmts (Stmt.coreAll block)) = Stmt.usageAll block := by
  apply Stmt.code_induction
  case branch =>
    intro cond thenBlock elseBlock hthen helse
    rw [Stmt.usage_branch, Stmt.core_branch, ← hthen, ← helse]
    rfl
  case cons =>
    intro s rest hs hrest
    rw [Stmt.usageAll, Stmt.coreAll, Core.stmts_append, Stmt.usageAll_append, hs, hrest]
  case declare =>
    intro type name value
    cases value <;> rfl
  case print =>
    intro what
    cases what <;> rfl
  all_goals
    intros
    rfl

/-- **The core of a block has the code of the block**, and so it is for a statement. -/
theorem Stmt.code_core_all :
    (∀ (s : Stmt) (c : Counters), Stmt.codeAll c (Core.stmts s.core) = s.codeAt c) ∧
      ∀ (block : List Stmt) (c : Counters),
        Stmt.codeAll c (Core.stmts (Stmt.coreAll block)) = Stmt.codeAll c block := by
  apply Stmt.code_induction
  case branch =>
    intro cond thenBlock elseBlock hthen helse c
    rw [Stmt.codeAt_branch, Stmt.core_branch, Core.stmts, Core.stmts, Core.stmt,
      Stmt.codeAll_singleton, Stmt.codeAt, hthen, helse, Stmt.usage_core_all.2 thenBlock]
  case cons =>
    intro s rest hs hrest c
    rw [Stmt.codeAll, Stmt.coreAll, Core.stmts_append, Stmt.codeAll_append, hs, hrest,
      Stmt.usage_core_all.1 s]
  case declare =>
    intro type name value c
    cases value with
    | none => rfl
    | some e => exact Stmt.codeAll_singleton c (.declare .int name (some e))
  case assign =>
    intro name e c
    exact Stmt.codeAll_singleton c (.assign name e)
  case print =>
    intro what c
    cases what with
    | text content => rfl
    | value e => exact Stmt.codeAll_singleton c (.print (.value e))
  all_goals
    intros
    rfl

/-- The core of a program has the code of the program. -/
theorem lower_core (program : List Stmt) :
    lower (Core.stmts (Stmt.coreAll program)) = lower program :=
  Stmt.code_core_all.2 program 0

/-! ## Reading expressions back -/

namespace Expr

variable {n : Nat} {e e' : Expr} {i i' : Instr} {rest rest' : List Instr}

theorem length_codeAt (n : Nat) (e : Expr) : (e.codeAt n).length = e.operations := by
  induction e generalizing n with
  | number | ident | text => rfl
  | binary op left right ihl ihr =>
    rw [codeAt, operations, List.length_append, List.length_append, ihl, ihr]
    rfl

/-- An operand says how many operators its expression has. -/
theorem operations_eq_of_operandAt_eq (h : e.operandAt n = e'.operandAt n) :
    e.operations = e'.operations := by
  cases e with
  | binary op left right =>
    cases e' with
    | binary op' left' right' =>
      have hnumber := congrArg Temp.number (Operand.temp.inj h)
      exact Nat.add_left_cancel hnumber
    | number | ident | text => exact nomatch h
  | number | ident | text =>
    cases e' with
    | binary op' left' right' => exact nomatch h
    | number | ident | text => rfl

/-- **An expression is read back from its code and its operand.** -/
theorem eq_of_codeAt_eq (hcode : e.codeAt n = e'.codeAt n)
    (hoperand : e.operandAt n = e'.operandAt n) : e = e' := by
  induction e generalizing n e' with
  | binary op left right ihl ihr =>
    cases e' with
    | number | ident | text => exact nomatch hoperand
    | binary op' left' right' =>
      rw [codeAt, codeAt] at hcode
      obtain ⟨hfront, hlast⟩ := List.append_inj' hcode rfl
      -- The operator names its two operands, ...
      obtain ⟨-, rfl, hl, hr⟩ := Instr.binary.inj (List.singleton_inj.mp hlast)
      have hoperations := operations_eq_of_operandAt_eq hl
      rw [hoperations] at hfront hr
      -- ... and the first of them says where its code ends.
      have hlength : (left.codeAt n).length = (left'.codeAt n).length := by
        rw [length_codeAt, length_codeAt, hoperations]
      obtain ⟨hleft, hright⟩ := List.append_inj hfront hlength
      rw [ihl hleft hl, ihr hright hr]
  | number | ident | text =>
    cases e' <;> cases hoperand
    rfl

/-- The code of an expression is made of operators. -/
theorem exists_binary_of_mem_codeAt (h : i ∈ e.codeAt n) :
    ∃ t op left right, i = .binary t op left right := by
  induction e generalizing n with
  | number | ident | text => exact absurd h List.not_mem_nil
  | binary op left right ihl ihr =>
    rw [codeAt, List.mem_append, List.mem_append, List.mem_singleton] at h
    rcases h with (h | h) | rfl
    · exact ihl h
    · exact ihr h
    · exact ⟨_, _, _, _, rfl⟩

end Expr

/-! ## Reading statements back -/

/-- Where something stands for the first time, everything is determined. -/
theorem append_cons_inj {α : Type} {xs ys rest rest' : List α} {a b : α} (ha : a ∉ ys) (hb : b ∉ xs)
    (h : xs ++ a :: rest = ys ++ b :: rest') : xs = ys ∧ a = b ∧ rest = rest' := by
  rcases List.append_eq_append_iff.mp h with ⟨zs, rfl, hzs⟩ | ⟨zs, rfl, hzs⟩
  · cases zs with
    | nil =>
      obtain ⟨rfl, rfl⟩ := List.cons.inj hzs
      exact ⟨(List.append_nil xs).symm, rfl, rfl⟩
    | cons z zs =>
      obtain ⟨rfl, -⟩ := List.cons.inj hzs
      exact absurd (List.mem_append_right xs List.mem_cons_self) ha
  · cases zs with
    | nil =>
      obtain ⟨rfl, rfl⟩ := List.cons.inj hzs
      exact ⟨List.append_nil ys, rfl, rfl⟩
    | cons z zs =>
      obtain ⟨rfl, -⟩ := List.cons.inj hzs
      exact absurd (List.mem_append_right ys List.mem_cons_self) hb

namespace Core

/-- The operators that a statement begins with. -/
def operators (c : Counters) : Core → List Instr
  | .initialise _ e | .assign _ e | .print e | .branch e _ _ => e.codeAt c.temps
  | .scan _ => []

/-- The first instruction of a statement that is no operator. -/
def turn (c : Counters) : Core → Instr
  | .initialise _ e => .assign (.temp ⟨c.temps + e.operations + 1⟩) (e.operandAt c.temps)
  | .assign name e => .assign (.ident name) (e.operandAt c.temps)
  | .print e => .print (e.operandAt c.temps)
  | .scan name => .scan name
  | .branch cond _ _ => .gotoIf (cond.operandAt c.temps) (Fork.after c.labels).onTrue

/-- What follows the first instruction of a statement that is no operator. -/
def remainder (c : Counters) : Core → List Instr
  | .initialise name e => [.assign (.ident name) (.temp ⟨c.temps + e.operations + 1⟩)]
  | .assign _ _ | .print _ | .scan _ => []
  | .branch cond thenBlock elseBlock =>
    .goto (Fork.after c.labels).onFalse :: .label (Fork.after c.labels).onTrue ::
      (Stmt.codeAll (c + ⟨cond.operations, 3⟩) (Core.stmts thenBlock) ++
      ((Fork.after c.labels).middle ++
      (Stmt.codeAll (c + ⟨cond.operations, 3⟩ + Stmt.usageAll (Core.stmts thenBlock))
        (Core.stmts elseBlock) ++ (Fork.after c.labels).last)))

variable {c : Counters} {s s' : Core} {rest rest' : List Instr}

theorem codeAt_eq (c : Counters) (s : Core) :
    s.stmt.codeAt c = s.operators c ++ s.turn c :: s.remainder c := by
  cases s <;> simp [stmt, Stmt.codeAt, operators, turn, remainder, Fork.head]

theorem exists_binary_of_mem_operators {i : Instr} (h : i ∈ s.operators c) :
    ∃ t op left right, i = .binary t op left right := by
  cases s with
  | scan => exact absurd h List.not_mem_nil
  | initialise | assign | print | branch => exact Expr.exists_binary_of_mem_codeAt h

theorem turn_not_mem_operators (s s' : Core) : s.turn c ∉ s'.operators c := by
  intro h
  obtain ⟨t, op, left, right, hbinary⟩ := exists_binary_of_mem_operators h
  cases s <;> cases hbinary

/-- Where the operators of a statement end is plain from its code. -/
theorem cut (h : s.stmt.codeAt c ++ rest = s'.stmt.codeAt c ++ rest') :
    s.operators c = s'.operators c ∧ s.turn c = s'.turn c ∧
      s.remainder c ++ rest = s'.remainder c ++ rest' := by
  rw [codeAt_eq, codeAt_eq, List.append_assoc, List.append_assoc, List.cons_append,
    List.cons_append] at h
  exact append_cons_inj (turn_not_mem_operators s s') (turn_not_mem_operators s' s) h

end Core

/-- **Code that does not go on with a statement**: it ends, or a jump or a label stands there. -/
def Closed (code : List Instr) : Prop := ∀ i ∈ code.head?, ∃ l, i = .goto l ∨ i = .label l

theorem closed_nil : Closed [] := fun _ h => nomatch h

theorem Fork.closed_middle (f : Fork) (rest : List Instr) : Closed (f.middle ++ rest) := by
  rintro i ⟨⟩
  exact ⟨_, .inl rfl⟩

theorem Fork.closed_last (f : Fork) (rest : List Instr) : Closed (f.last ++ rest) := by
  rintro i ⟨⟩
  exact ⟨_, .inr rfl⟩

namespace Core

/-- No statement begins with a jump or a label. -/
theorem not_closed_codeAt (c : Counters) (s : Core) (rest : List Instr) :
    ¬ Closed (s.stmt.codeAt c ++ rest) := by
  intro h
  rw [codeAt_eq, List.append_assoc, List.cons_append] at h
  cases hoperators : s.operators c with
  | nil =>
    rw [hoperators] at h
    obtain ⟨l, hl⟩ := h (s.turn c) rfl
    cases s <;> rcases hl with hl | hl <;> cases hl
  | cons i is =>
    rw [hoperators] at h
    obtain ⟨l, hl⟩ := h i rfl
    have hmem : i ∈ s.operators c := hoperators ▸ List.mem_cons_self
    obtain ⟨t, op, left, right, rfl⟩ := exists_binary_of_mem_operators hmem
    rcases hl with hl | hl <;> cases hl

/-- **A statement of a core is read back from its code**, whatever comes behind it, and a block is
read back where it is closed. -/
theorem readBack_all :
    (∀ (s : Core) (c : Counters) (s' : Core) (rest rest' : List Instr),
      s.stmt.codeAt c ++ rest = s'.stmt.codeAt c ++ rest' → s = s' ∧ rest = rest') ∧
    ∀ (block : List Core) (c : Counters) (block' : List Core) (rest rest' : List Instr),
      Closed rest → Closed rest' →
      Stmt.codeAll c (stmts block) ++ rest = Stmt.codeAll c (stmts block') ++ rest' →
      block = block' ∧ rest = rest' := by
  apply Core.block_induction
  case initialise =>
    intro name e c s' rest rest' h
    obtain ⟨hoperators, hturn, hremainder⟩ := cut h
    cases s' with
    | initialise name' e' =>
      obtain ⟨-, hoperand⟩ := Instr.assign.inj hturn
      obtain rfl := Expr.eq_of_codeAt_eq hoperators hoperand
      obtain ⟨hcopy, hrest⟩ := List.cons.inj hremainder
      cases hcopy
      exact ⟨rfl, hrest⟩
    | assign | print | scan | branch => exact nomatch hturn
  case assign =>
    intro name e c s' rest rest' h
    obtain ⟨hoperators, hturn, hrest⟩ := cut h
    cases s' with
    | assign name' e' =>
      obtain ⟨hdest, hoperand⟩ := Instr.assign.inj hturn
      obtain rfl := Expr.eq_of_codeAt_eq hoperators hoperand
      cases hdest
      exact ⟨rfl, hrest⟩
    | initialise | print | scan | branch => exact nomatch hturn
  case print =>
    intro e c s' rest rest' h
    obtain ⟨hoperators, hturn, hrest⟩ := cut h
    cases s' with
    | print e' =>
      obtain rfl := Expr.eq_of_codeAt_eq hoperators (Instr.print.inj hturn)
      exact ⟨rfl, hrest⟩
    | initialise | assign | scan | branch => exact nomatch hturn
  case scan =>
    intro name c s' rest rest' h
    obtain ⟨-, hturn, hrest⟩ := cut h
    cases s' with
    | scan name' =>
      cases hturn
      exact ⟨rfl, hrest⟩
    | initialise | assign | print | branch => exact nomatch hturn
  case branch =>
    intro cond thenBlock elseBlock hthen helse c s' rest rest' h
    obtain ⟨hoperators, hturn, hremainder⟩ := cut h
    cases s' with
    | branch cond' thenBlock' elseBlock' =>
      obtain ⟨hoperand, -⟩ := Instr.gotoIf.inj hturn
      obtain rfl := Expr.eq_of_codeAt_eq hoperators hoperand
      -- The first block ends at the jump over the second one, which ends at the last label.
      simp only [remainder, List.cons_append, List.append_assoc, List.cons.injEq, true_and]
        at hremainder
      obtain ⟨rfl, hbehind⟩ := hthen _ _ _ _ (Fork.closed_middle _ _) (Fork.closed_middle _ _)
        hremainder
      obtain ⟨rfl, hlast⟩ := helse _ _ _ _ (Fork.closed_last _ _) (Fork.closed_last _ _)
        (List.append_cancel_left hbehind)
      exact ⟨rfl, List.append_cancel_left hlast⟩
    | initialise | assign | print | scan => exact nomatch hturn
  case nil =>
    intro c block' rest rest' hrest hrest' h
    cases block' with
    | nil => exact ⟨rfl, h⟩
    | cons s' block' =>
      rw [stmts, stmts, Stmt.codeAll, Stmt.codeAll, List.nil_append, List.append_assoc] at h
      exact absurd (h ▸ hrest) (not_closed_codeAt c s' _)
  case cons =>
    intro s block hs hblock c block' rest rest' hrest hrest' h
    cases block' with
    | nil =>
      rw [stmts, stmts, Stmt.codeAll, Stmt.codeAll, List.nil_append, List.append_assoc] at h
      exact absurd (h ▸ hrest') (not_closed_codeAt c s _)
    | cons s' block' =>
      rw [stmts, stmts, Stmt.codeAll, Stmt.codeAll, List.append_assoc, List.append_assoc] at h
      obtain ⟨rfl, hbehind⟩ := hs c s' _ _ h
      obtain ⟨rfl, hrest⟩ := hblock _ _ _ _ hrest hrest' hbehind
      exact ⟨rfl, hrest⟩

end Core

/-- **Lowering forgets what is outside of the core, and nothing else.** -/
theorem lower_eq_lower_iff (a b : List Stmt) :
    lower a = lower b ↔ Stmt.coreAll a = Stmt.coreAll b := by
  constructor
  · intro h
    rw [← lower_core a, ← lower_core b] at h
    exact (Core.readBack_all.2 _ _ _ _ _ closed_nil closed_nil (congrArg (· ++ []) h)).1
  · intro h
    rw [← lower_core a, h, lower_core]

/-- A first value is copied through a temporary, so a declaration is told from an assignment. -/
example : lower [.declare .int "wtl_x" (some (.number "7"))] ≠
    lower [.assign "wtl_x" (.number "7")] := by decide

end Brew
