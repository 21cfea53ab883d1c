import Brew.Proofs.Code.Labels
import Brew.Proofs.Code.Sites
import Mathlib.Algebra.Ring.Nat
import Mathlib.Data.List.Nodup
import Mathlib.Data.List.Perm.Basic

/-!
# The life of a temporary

A temporary is written once, and read once soon after.  It never lives across a label or a jump, so
one straight stretch of code holds all that happens to it.  The reason is the order of allocation:
an operator takes its temporary behind those of its operands, and the copy of a first value takes
one behind those of the value, so the numbers of temporaries grow with the code.

What a program takes is one temporary for each operator and one for each first value, in the
statements outside of all functions.  **A return has no code**, wherever it stands, so the operators
in its value take nothing.

## Main definitions

* `writtenTemps`, `readTemps`: the temporaries that code writes and reads, in the order of the code
* `Live`: a temporary was written in the straight stretch that some code ends with
* `ReadsLive`: code reads live temporaries only
* `operationsIn`, `firstValuesIn`: what takes temporaries, counted in the source

## Main results

* `Stmt.writtenTemps_all`, `Stmt.readTemps_all`: the temporaries that a block writes and reads are
  the ones it takes
* `Stmt.readsLive_all`: a block reads live temporaries only
* `temps_lower`: temporaries are written once, read once, and live within one straight stretch
-/

namespace Brew

variable {code xs ys front : List Instr} {i : Instr} {t : Temp} {n : Nat}

/-! ## Written and read temporaries -/

/-- The temporaries that code writes, in the order of the code. -/
def writtenTemps (code : List Instr) : List Temp := code.filterMap Instr.writtenTemp?

/-- The temporaries that code reads, in the order of the code. -/
def readTemps (code : List Instr) : List Temp := code.flatMap Instr.readTemps

@[simp] theorem writtenTemps_nil : writtenTemps [] = [] := rfl

@[simp] theorem writtenTemps_append :
    writtenTemps (xs ++ ys) = writtenTemps xs ++ writtenTemps ys := List.filterMap_append

@[simp] theorem writtenTemps_cons :
    writtenTemps (i :: code) = i.writtenTemp?.toList ++ writtenTemps code := by
  cases h : i.writtenTemp? <;> simp [writtenTemps, h]

@[simp] theorem readTemps_nil : readTemps [] = [] := rfl

@[simp] theorem readTemps_append : readTemps (xs ++ ys) = readTemps xs ++ readTemps ys :=
  List.flatMap_append

@[simp] theorem readTemps_cons : readTemps (i :: code) = i.readTemps ++ readTemps code :=
  List.flatMap_cons

/-! ### Expressions -/

theorem Expr.writtenTemps_codeAt (n : Nat) (e : Expr) :
    writtenTemps (e.codeAt n) = fresh Temp.mk n e.operations := by
  induction e generalizing n with
  | number | ident | text => rfl
  | binary op left right ihl ihr =>
    -- The temporary of the operator follows those of both operands.
    rw [codeAt, operations, fresh_add, fresh_add, fresh_one, writtenTemps_append,
      writtenTemps_append, ihl, ihr]
    rfl

/-- The code of an expression reads all its temporaries but the one that holds the outcome. -/
theorem Expr.readTemps_codeAt (n : Nat) (e : Expr) :
    (readTemps (e.codeAt n) ++ (e.operandAt n).temp?.toList).Perm
      (fresh Temp.mk n e.operations) := by
  induction e generalizing n with
  | number | ident | text => exact .refl _
  | binary op left right ihl ihr =>
    have hread : readTemps [Instr.binary ⟨n + (left.operations + right.operations + 1)⟩ op
        (left.operandAt n) (right.operandAt (n + left.operations))] =
        (left.operandAt n).temp?.toList ++
          (right.operandAt (n + left.operations)).temp?.toList := by
      cases h : (left.operandAt n).temp? <;>
        cases h' : (right.operandAt (n + left.operations)).temp? <;>
        simp [Instr.readTemps, Instr.operands, h, h']
    rw [codeAt, operations, fresh_add, fresh_add, fresh_one, readTemps_append,
      readTemps_append, hread]
    refine List.Perm.append ?_ (.refl _)
    -- Each operand is read by the operator, and not by the code that puts it there.
    refine List.perm_iff_count.mpr fun t => ?_
    have hleft := (ihl n).count_eq t
    have hright := (ihr (n + left.operations)).count_eq t
    simp only [List.count_append] at hleft hright ⊢
    omega

/-- Code that reads an expression once reads all the temporaries of the expression. -/
theorem Expr.readTemps_read {e : Expr} (hi : i.operands = [e.operandAt n]) (rest : List Instr) :
    (readTemps (e.codeAt n ++ i :: rest)).Perm
      (fresh Temp.mk n e.operations ++ readTemps rest) := by
  have hread : i.readTemps = (e.operandAt n).temp?.toList := by
    cases h : (e.operandAt n).temp? <;> simp [Instr.readTemps, hi, h]
  rw [readTemps_append, readTemps_cons, hread, ← List.append_assoc]
  exact (e.readTemps_codeAt n).append_right _

/-! ### Statements -/

/-- **A block writes the temporaries it takes**, in the order of their numbers, and so does a
statement. -/
theorem Stmt.writtenTemps_all :
    (∀ (s : Stmt) (c : Counters), writtenTemps (s.codeAt c) = fresh Temp.mk c.temps s.usage.temps) ∧
    ∀ (block : List Stmt) (c : Counters),
      writtenTemps (Stmt.codeAll c block) = fresh Temp.mk c.temps (Stmt.usageAll block).temps := by
  apply Stmt.code_induction
  case branch =>
    intro cond thenBlock elseBlock hthen helse c
    rw [Stmt.codeAt_branch, Stmt.usage_branch]
    simp only [writtenTemps_append, Expr.writtenTemps_codeAt, hthen, helse, Counters.temps_add,
      fresh_add, ← Nat.add_assoc]
    simp [Fork.head, Fork.middle, Fork.last, Instr.writtenTemp?]
  case cons =>
    intro s rest hs hrest c
    rw [Stmt.codeAll, Stmt.usageAll, writtenTemps_append, hs, hrest, Counters.temps_add,
      Counters.temps_add, fresh_add]
  case declare =>
    intro type name value c
    cases value with
    | none => rfl
    | some e =>
      rw [Stmt.codeAt, Stmt.usage, writtenTemps_append, Expr.writtenTemps_codeAt, fresh_add]
      rfl
  case print =>
    intro what c
    cases what with
    | text content => rfl
    | value e => simp [Stmt.codeAt, Stmt.usage, Expr.writtenTemps_codeAt, Instr.writtenTemp?]
  case assign =>
    intro name e c
    simp [Stmt.codeAt, Stmt.usage, Expr.writtenTemps_codeAt, Instr.writtenTemp?]
  all_goals
    intros
    rfl

/-- **A block reads the temporaries it takes**, each of them once, and so does a statement. -/
theorem Stmt.readTemps_all :
    (∀ (s : Stmt) (c : Counters),
      (readTemps (s.codeAt c)).Perm (fresh Temp.mk c.temps s.usage.temps)) ∧
    ∀ (block : List Stmt) (c : Counters),
      (readTemps (Stmt.codeAll c block)).Perm
        (fresh Temp.mk c.temps (Stmt.usageAll block).temps) := by
  apply Stmt.code_induction
  case branch =>
    intro cond thenBlock elseBlock hthen helse c
    have hcond : (readTemps (cond.codeAt c.temps ++
        (Fork.after c.labels).head (cond.operandAt c.temps))).Perm
        (fresh Temp.mk c.temps cond.operations) := by
      have h := Expr.readTemps_read (e := cond) (n := c.temps)
        (i := .gotoIf (cond.operandAt c.temps) (Fork.after c.labels).onTrue) rfl
        [.goto (Fork.after c.labels).onFalse, .label (Fork.after c.labels).onTrue]
      exact h.trans (.of_eq (List.append_nil _))
    have hmiddle : readTemps (Fork.after c.labels).middle = [] := rfl
    have hlast : readTemps (Fork.after c.labels).last = [] := rfl
    rw [Stmt.codeAt_branch, Stmt.usage_branch]
    simp only [Counters.temps_add, fresh_add, ← Nat.add_assoc]
    rw [readTemps_append, hlast, List.append_nil, readTemps_append, readTemps_append, hmiddle,
      List.append_nil, readTemps_append]
    exact (hcond.append (hthen _)).append (helse _)
  case cons =>
    intro s rest hs hrest c
    rw [Stmt.codeAll, Stmt.usageAll, readTemps_append, Counters.temps_add, fresh_add]
    exact (hs c).append (hrest (c + s.usage))
  case declare =>
    intro type name value c
    cases value with
    | none => exact .refl _
    | some e =>
      rw [Stmt.codeAt, Stmt.usage, fresh_add]
      exact Expr.readTemps_read rfl _
  case print =>
    intro what c
    cases what with
    | text content => exact .refl _
    | value e =>
      have h := Expr.readTemps_read (e := e) (i := .print (e.operandAt c.temps)) rfl []
      rwa [readTemps_nil, List.append_nil] at h
  case assign =>
    intro name e c
    have h := Expr.readTemps_read (e := e) (i := .assign (.ident name) (e.operandAt c.temps)) rfl []
    rwa [readTemps_nil, List.append_nil] at h
  all_goals
    intros
    exact .refl _

/-! ## Live temporaries -/

/-- An instruction that neither marks a place nor jumps. -/
def Instr.Straight (i : Instr) : Prop := i.label? = none ∧ i.target? = none

/-- **A temporary is live behind some code** if it was written there, and neither a label nor a jump
stands behind the write. -/
def Live (t : Temp) (front : List Instr) : Prop :=
  ∃ before w between, front = before ++ w :: between ∧ w.writtenTemp? = some t ∧
    ∀ i ∈ between, i.Straight

/-- Code reads live temporaries only, given the code before it. -/
def ReadsLive : List Instr → List Instr → Prop
  | _, [] => True
  | front, i :: code => (∀ t ∈ i.readTemps, Live t front) ∧ ReadsLive (front ++ [i]) code

theorem Live.straight (h : Live t front) (hcode : ∀ i ∈ code, i.Straight) :
    Live t (front ++ code) := by
  obtain ⟨before, w, between, rfl, hw, hbetween⟩ := h
  refine ⟨before, w, between ++ code, by rw [List.append_assoc]; rfl, hw, ?_⟩
  exact List.forall_mem_append.mpr ⟨hbetween, hcode⟩

theorem Live.written (hi : i.writtenTemp? = some t) : Live t (front ++ [i]) :=
  ⟨front, i, [], rfl, hi, fun _ h => absurd h List.not_mem_nil⟩

theorem readsLive_append :
    ReadsLive front (xs ++ ys) ↔ ReadsLive front xs ∧ ReadsLive (front ++ xs) ys := by
  induction xs generalizing front with
  | nil => simp [ReadsLive]
  | cons i xs ih => rw [List.cons_append, ReadsLive, ReadsLive, ih, and_assoc, ← List.append_cons]

/-- Wherever code is cut, the next instruction reads what is live there. -/
theorem ReadsLive.live_take (h : ReadsLive [] code) (hj : code[j]? = some i)
    (ht : t ∈ i.readTemps) : Live t (code.take j) := by
  obtain ⟨hlt, rfl⟩ := List.getElem?_eq_some_iff.mp hj
  rw [← List.take_append_drop j code, readsLive_append, List.drop_eq_getElem_cons hlt] at h
  exact h.2.1 t ht

theorem Expr.straight_codeAt (n : Nat) (e : Expr) : ∀ i ∈ e.codeAt n, i.Straight := by
  induction e generalizing n with
  | number | ident | text => exact fun i hi => absurd hi List.not_mem_nil
  | binary op left right ihl ihr =>
    simp only [codeAt, List.forall_mem_append, List.forall_mem_singleton]
    exact ⟨⟨ihl n, ihr _⟩, rfl, rfl⟩

/-- Behind the code of an expression its outcome is live. -/
theorem Expr.live_operandAt {e : Expr} (ht : (e.operandAt n).temp? = some t) :
    Live t (front ++ e.codeAt n) := by
  cases e with
  | number | ident | text => exact nomatch ht
  | binary op left right =>
    rw [codeAt, ← List.append_assoc]
    exact Live.written ht

theorem Expr.readsLive_codeAt (n : Nat) (e : Expr) (front : List Instr) :
    ReadsLive front (e.codeAt n) := by
  induction e generalizing n front with
  | number | ident | text => trivial
  | binary op left right ihl ihr =>
    rw [codeAt, readsLive_append, readsLive_append]
    refine ⟨⟨ihl n front, ihr _ _⟩, ?_, trivial⟩
    intro t ht
    obtain ⟨o, ho, hot⟩ := List.mem_filterMap.mp ht
    rw [← List.append_assoc]
    rcases List.mem_cons.mp ho with rfl | ho
    · -- The code of the right operand stands between, and it is straight.
      exact (live_operandAt hot).straight (right.straight_codeAt _)
    · cases List.mem_singleton.mp ho
      exact live_operandAt hot

/-- The code of an expression and the instruction behind it that reads the outcome. -/
theorem Expr.readsLive_read {e : Expr} (hi : i.operands = [e.operandAt n]) {rest : List Instr}
    (hrest : ReadsLive (front ++ (e.codeAt n ++ [i])) rest) :
    ReadsLive front (e.codeAt n ++ i :: rest) := by
  rw [readsLive_append]
  refine ⟨e.readsLive_codeAt n front, ?_, by rwa [List.append_assoc]⟩
  intro t ht
  obtain ⟨o, ho, hot⟩ := List.mem_filterMap.mp ht
  rw [hi] at ho
  cases List.mem_singleton.mp ho
  exact live_operandAt hot

/-- Code that reads no temporaries. -/
theorem readsLive_of_readTemps_eq_nil (h : readTemps code = []) : ReadsLive front code := by
  induction code generalizing front with
  | nil => trivial
  | cons i code ih =>
    rw [readTemps_cons, List.append_eq_nil_iff] at h
    refine ⟨?_, ih h.2⟩
    rw [h.1]
    exact fun t ht => absurd ht List.not_mem_nil

/-- **A block reads live temporaries only**, whatever stands before it, and so does a statement. -/
theorem Stmt.readsLive_all :
    (∀ (s : Stmt) (c : Counters) (front : List Instr), ReadsLive front (s.codeAt c)) ∧
    ∀ (block : List Stmt) (c : Counters) (front : List Instr),
      ReadsLive front (Stmt.codeAll c block) := by
  apply Stmt.code_induction
  case branch =>
    intro cond thenBlock elseBlock hthen helse c front
    rw [Stmt.codeAt_branch]
    -- The condition is read by the jump behind its code; all other jumps and labels read nothing.
    have hhead : ReadsLive front (cond.codeAt c.temps ++
        (Fork.after c.labels).head (cond.operandAt c.temps)) :=
      Expr.readsLive_read rfl (readsLive_of_readTemps_eq_nil rfl)
    have hmiddle : readTemps (Fork.after c.labels).middle = [] := rfl
    have hlast : readTemps (Fork.after c.labels).last = [] := rfl
    refine readsLive_append.mpr ⟨?_, readsLive_of_readTemps_eq_nil hlast⟩
    refine readsLive_append.mpr ⟨?_, helse _ _⟩
    refine readsLive_append.mpr ⟨?_, readsLive_of_readTemps_eq_nil hmiddle⟩
    exact readsLive_append.mpr ⟨hhead, hthen _ _⟩
  case cons =>
    intro s rest hs hrest c front
    rw [Stmt.codeAll, readsLive_append]
    exact ⟨hs c front, hrest _ _⟩
  case declare =>
    intro type name value c front
    cases value with
    | none => trivial
    | some e =>
      refine Expr.readsLive_read rfl ⟨?_, trivial⟩
      -- The copy is read by the very next instruction.
      intro t ht
      rw [← List.append_assoc]
      exact Live.written (List.mem_singleton.mp ht ▸ rfl)
  case print =>
    intro what c front
    cases what with
    | text content => exact readsLive_of_readTemps_eq_nil rfl
    | value e => exact Expr.readsLive_read rfl trivial
  case assign =>
    intro name e c front
    exact Expr.readsLive_read rfl trivial
  all_goals
    intros
    exact readsLive_of_readTemps_eq_nil rfl

/-- **Where a live temporary is written**, in code that writes no temporary twice: before the read,
with straight code between the two. -/
theorem ReadsLive.write_before_read (hlive : ReadsLive [] code)
    (honce : (writtenTemps code).Nodup) {i j : Nat} {w r : Instr} (hi : code[i]? = some w)
    (hw : w.writtenTemp? = some t) (hj : code[j]? = some r) (hr : t ∈ r.readTemps) :
    i < j ∧ ∀ p x, i < p → p < j → code[p]? = some x → x.Straight := by
  obtain ⟨before, w', between, htake, hw', hbetween⟩ := hlive.live_take hj hr
  -- The write that is live at the read is the only one there is.
  have hget : ∀ p, p < j → code[p]? = (before ++ w' :: between)[p]? := by
    intro p hp
    rw [← htake, List.getElem?_take_of_lt hp]
  have hlength : before.length < j := by
    have h := congrArg List.length htake
    rw [List.length_take, List.length_append, List.length_cons] at h
    omega
  have hwrite : code[before.length]? = some w' := by
    rw [hget _ hlength, List.getElem?_append_right (Nat.le_refl _), Nat.sub_self]
    rfl
  obtain rfl := index_unique honce hi hw hwrite hw'
  refine ⟨hlength, fun p x hlt hgt hp => hbetween x ?_⟩
  rw [hget p hgt, List.getElem?_append_right (Nat.le_of_lt hlt)] at hp
  obtain ⟨d, hd⟩ := Nat.exists_eq_add_of_lt hlt
  rw [hd, show before.length + d + 1 - before.length = d + 1 by omega] at hp
  exact List.mem_of_getElem? hp

/-! ## Counting in the source -/

/-- A declaration with a first value. -/
def Stmt.hasFirstValue : Stmt → Bool
  | .declare _ _ value => value.isSome
  | .assign _ _ | .print _ | .scan _ | .branch _ _ _ | .function _ _ | .ret _ => false

/-- A return. -/
def Stmt.isReturn : Stmt → Bool
  | .ret _ => true
  | .declare _ _ _ | .assign _ _ | .print _ | .scan _ | .branch _ _ _ | .function _ _ => false

/-- The number of operators in the expressions of some statements. -/
def operationsIn (ss : List Site) : Nat :=
  ((ss.flatMap fun site => site.stmt.exprs).map Expr.operations).sum

/-- The number of declarations with a first value among some statements. -/
def firstValuesIn (ss : List Site) : Nat := ss.countP fun site => site.stmt.hasFirstValue

/-- Those of some statements that are no returns. -/
def withoutReturns (ss : List Site) : List Site := ss.filter fun site => !site.stmt.isReturn

/-- The number of temporaries that some statements take for themselves. -/
def tempsFor (ss : List Site) : Nat := operationsIn (withoutReturns ss) + firstValuesIn ss

@[simp] theorem tempsFor_append (ss tt : List Site) :
    tempsFor (ss ++ tt) = tempsFor ss + tempsFor tt := by
  simp only [tempsFor, operationsIn, firstValuesIn, withoutReturns, List.filter_append,
    List.flatMap_append, List.map_append, List.sum_append, List.countP_append]
  omega

@[simp] theorem tempsFor_cons (site : Site) (ss : List Site) :
    tempsFor (site :: ss) = tempsFor [site] + tempsFor ss :=
  tempsFor_append [site] ss

/-- **What a block takes can be counted in the source**, and so can what a statement takes. -/
theorem Stmt.temps_usage_all :
    (∀ (s : Stmt) (scope : Address) (index : Nat), s.usage.temps = tempsFor (s.sites scope index)) ∧
    ∀ (block : List Stmt) (scope : Address) (index : Nat),
      (Stmt.usageAll block).temps = tempsFor (Stmt.sitesAll scope index block) := by
  apply Stmt.code_induction
  case branch =>
    intro cond thenBlock elseBlock hthen helse scope index
    rw [Stmt.usage_branch, Stmt.sites_branch, tempsFor_cons, tempsFor_append, Counters.temps_add,
      Counters.temps_add, hthen, helse, Nat.add_assoc]
    rfl
  case cons =>
    intro s rest hs hrest scope index
    rw [Stmt.usageAll, Stmt.sitesAll, tempsFor_append, Counters.temps_add, hs, hrest]
  case declare =>
    intro type name value scope index
    cases value <;> rfl
  case print =>
    intro what scope index
    cases what <;> rfl
  all_goals
    intros
    rfl

/-! ## Programs -/

/-- **The life of a temporary.**  The code of a program writes `t1`, `t2` and so on in this order,
one for each operator and each first value outside of all functions and returns.  It reads each of
them exactly once, behind the write, and neither a label nor a jump stands between the two. -/
theorem temps_lower (program : List Stmt) :
    writtenTemps (lower program) =
        fresh Temp.mk 0 (operationsIn (withoutReturns (sites program)) +
          firstValuesIn (sites program)) ∧
      (readTemps (lower program)).Perm (writtenTemps (lower program)) ∧
      ∀ (i j : Nat) (w r : Instr) (t : Temp), (lower program)[i]? = some w →
        w.writtenTemp? = some t → (lower program)[j]? = some r → t ∈ r.readTemps →
        i < j ∧ ∀ p x, i < p → p < j → (lower program)[p]? = some x →
          x.label? = none ∧ x.target? = none := by
  have hwritten : writtenTemps (lower program) = fresh Temp.mk 0 (Stmt.usageAll program).temps :=
    Stmt.writtenTemps_all.2 program 0
  have hread : (readTemps (lower program)).Perm (fresh Temp.mk 0 (Stmt.usageAll program).temps) :=
    Stmt.readTemps_all.2 program 0
  have honce : (writtenTemps (lower program)).Nodup := by
    rw [hwritten]
    exact nodup_fresh Temp.mk_injective
  refine ⟨?_, ?_, ?_⟩
  · rw [hwritten, Stmt.temps_usage_all.2 program [] 0]
    rfl
  · rwa [hwritten]
  · intro i j w r t hi hw hj hr
    exact (Stmt.readsLive_all.2 program 0 []).write_before_read honce hi hw hj hr

/-- A return outside of all functions has an operator but no code, and so no temporary. -/
theorem temps_lower_stray_return :
    writtenTemps (lower [.ret (some (.binary .add (.number "1") (.number "2")))]) ≠
      fresh Temp.mk 0
        (operationsIn (sites [.ret (some (.binary .add (.number "1") (.number "2")))]) +
          firstValuesIn (sites [.ret (some (.binary .add (.number "1") (.number "2")))])) := by
  decide

end Brew
