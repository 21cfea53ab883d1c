import Brew.Proofs.Code.Sites
import Brew.Proofs.Semantics.Runs

/-!
# Control flow of lowered code

All jumps in the code of a program come from its branches, and a branch is laid out in one way only.
So control flow is **structured**: every jump leads forward, to a label that no other jump leads to;
the blocks of a branch are ranges of code that can be entered at their beginning only; and there is
no instruction that control does not come to.

That labels are taken before the blocks and defined around and behind them is what makes this more
than a fact about single branches.  The invariant of a block is that it **closes its labels**: it
jumps to exactly the labels that it defines.  A jump from outside into a block would then be a
second jump to one of its labels.

## Main definitions

* `jumpTargets`: the labels that code jumps to, in the order of the code
* `branches`: the branches outside of all functions, in the order of the text
* `Forward`: every jump of some code leads to a label behind it
* `Sealed`: no jump from outside of a range leads into it
* `HasBranch`: a branch stands in some code
* `Covered`: control comes to all instructions of a range, and to the place behind it

## Main results

* `Stmt.jumpTargets_perm`: a block jumps to the labels it takes, to each of them once
* `Stmt.exists_code_branch`: the `k`-th branch stands in the code, with the labels from `3 * k` on
* `Stmt.covered_all`: control comes to all of a block if it comes to its beginning
* `lower_structured`: control flow of lowered code is structured, forward and without dead code
-/

namespace Brew

variable {code xs ys : List Instr} {i : Instr} {l : Label}

/-! ## Jumps -/

/-- The labels that code jumps to, in the order of the code. -/
def jumpTargets (code : List Instr) : List Label := code.filterMap Instr.target?

@[simp] theorem jumpTargets_nil : jumpTargets [] = [] := rfl

@[simp] theorem jumpTargets_append : jumpTargets (xs ++ ys) = jumpTargets xs ++ jumpTargets ys :=
  List.filterMap_append

@[simp] theorem jumpTargets_cons :
    jumpTargets (i :: code) = i.target?.toList ++ jumpTargets code := by
  cases h : i.target? <;> simp [jumpTargets, h]

@[simp] theorem Expr.jumpTargets_codeAt (n : Nat) (e : Expr) : jumpTargets (e.codeAt n) = [] := by
  induction e generalizing n with
  | number | ident | text => rfl
  | binary op left right ihl ihr => simp [Expr.codeAt, ihl, ihr, Instr.target?]

/-- The three labels of a branch, in the order in which it jumps to them around its blocks, are the
next three labels. -/
theorem Fork.jumpTargets_perm (n : Nat) (cond : Operand) (xs ys : List Label) :
    (jumpTargets ((Fork.after n).head cond) ++ xs ++ jumpTargets (Fork.after n).middle ++ ys ++
        jumpTargets (Fork.after n).last).Perm (fresh Label.mk n 3 ++ (xs ++ ys)) := by
  have hfresh : fresh Label.mk n 3 =
      [(Fork.after n).onTrue, (Fork.after n).onFalse, (Fork.after n).join] := rfl
  rw [hfresh]
  simp only [Fork.head, Fork.middle, Fork.last, jumpTargets_cons, jumpTargets_nil, Instr.target?,
    Option.toList_none, Option.toList_some, List.nil_append, List.append_nil, List.cons_append,
    List.append_assoc]
  -- The first two labels are in front already; the third one moves forward over the first block.
  exact List.Perm.cons _ (List.Perm.cons _ List.perm_middle)

/-- **A block jumps to the labels it takes**, to each of them once, and so does a statement. -/
theorem Stmt.jumpTargets_perm :
    (∀ (s : Stmt) (c : Counters),
      (jumpTargets (s.codeAt c)).Perm (fresh Label.mk c.labels s.usage.labels)) ∧
    ∀ (block : List Stmt) (c : Counters),
      (jumpTargets (Stmt.codeAll c block)).Perm
        (fresh Label.mk c.labels (Stmt.usageAll block).labels) := by
  apply Stmt.code_induction
  case branch =>
    intro cond thenBlock elseBlock hthen helse c
    rw [Stmt.codeAt_branch, Stmt.usage_branch]
    simp only [jumpTargets_append, Expr.jumpTargets_codeAt, List.nil_append, Counters.labels_add]
    refine (Fork.jumpTargets_perm ..).trans ?_
    -- The blocks take their labels behind the three of the branch, one block after the other.
    rw [Nat.add_assoc, fresh_add, fresh_add]
    exact ((hthen _).append (helse _)).append_left _
  case cons =>
    intro s rest hs hrest c
    rw [Stmt.codeAll, Stmt.usageAll, jumpTargets_append, Counters.labels_add, fresh_add]
    exact (hs c).append (hrest (c + s.usage))
  case declare =>
    intro type name value c
    cases value <;> simp [Stmt.codeAt, Stmt.usage, Instr.target?]
  case print =>
    intro what c
    cases what <;> simp [Stmt.codeAt, Stmt.usage, Instr.target?]
  -- All other statements have no branch in their code.
  all_goals
    intros
    simp [Stmt.codeAt, Stmt.usage, Stmt.codeAll, Stmt.usageAll, Instr.target?]

/-- **A block closes its labels**: it jumps to exactly the labels that it defines. -/
theorem Stmt.jumpTargets_perm_definedLabels (c : Counters) (block : List Stmt) :
    (jumpTargets (Stmt.codeAll c block)).Perm (definedLabels (Stmt.codeAll c block)) :=
  (Stmt.jumpTargets_perm.2 block c).trans (Stmt.definedLabels_perm.2 block c).symm

/-! ## Jumps lead forward -/

/-- Every jump of some code leads to a label behind it. -/
def Forward : List Instr → Prop
  | [] => True
  | i :: code => (∀ l ∈ i.target?, l ∈ definedLabels code) ∧ Forward code

theorem Forward.append (hxs : Forward xs) (hys : Forward ys) : Forward (xs ++ ys) := by
  induction xs with
  | nil => exact hys
  | cons i xs ih =>
    rw [List.cons_append]
    refine ⟨fun l hl => ?_, ih hxs.2⟩
    rw [definedLabels_append]
    exact List.mem_append_left _ (hxs.1 l hl)

theorem forward_of_jumpTargets_eq_nil (h : jumpTargets code = []) : Forward code := by
  induction code with
  | nil => trivial
  | cons i code ih =>
    rw [jumpTargets_cons, List.append_eq_nil_iff] at h
    refine ⟨fun l hl => ?_, ih h.2⟩
    have hmem := Option.mem_toList.mpr hl
    rw [h.1] at hmem
    exact absurd hmem List.not_mem_nil

/-- The jumps of a branch lead over what stands between them and their labels. -/
theorem Fork.forward (f : Fork) (cond : Operand) (hxs : Forward xs) (hys : Forward ys) :
    Forward (f.head cond ++ xs ++ f.middle ++ ys ++ f.last) := by
  have hlast : Forward f.last := forward_of_jumpTargets_eq_nil rfl
  -- Behind the first block, the jump leads over the second block.
  have hmiddle : Forward (.goto f.join :: .label f.onFalse :: (ys ++ f.last)) := by
    refine ⟨?_, fun l hl => absurd hl (Option.not_mem_none l), hys.append hlast⟩
    rintro l ⟨⟩
    simp [last, Instr.label?]
  -- In front, the first jump leads over the second one, and the second one over the first block.
  have hhead : Forward (.gotoIf cond f.onTrue :: .goto f.onFalse :: .label f.onTrue ::
      (xs ++ .goto f.join :: .label f.onFalse :: (ys ++ f.last))) := by
    refine ⟨?_, ?_, fun l hl => absurd hl (Option.not_mem_none l), hxs.append hmiddle⟩
    · rintro l ⟨⟩
      simp [Instr.label?]
    · rintro l ⟨⟩
      simp [Instr.label?]
  simpa only [head, middle, List.append_assoc, List.cons_append, List.nil_append] using hhead

theorem Stmt.forward_all :
    (∀ (s : Stmt) (c : Counters), Forward (s.codeAt c)) ∧
    ∀ (block : List Stmt) (c : Counters), Forward (Stmt.codeAll c block) := by
  apply Stmt.code_induction
  case branch =>
    intro cond thenBlock elseBlock hthen helse c
    have hcond : Forward (cond.codeAt c.temps) :=
      forward_of_jumpTargets_eq_nil (cond.jumpTargets_codeAt c.temps)
    have hfork := (Fork.after c.labels).forward (cond.operandAt c.temps)
      (hthen (c + ⟨cond.operations, 3⟩))
      (helse (c + ⟨cond.operations, 3⟩ + Stmt.usageAll thenBlock))
    rw [Stmt.codeAt_branch]
    simpa only [List.append_assoc] using hcond.append hfork
  case nil =>
    intro c
    trivial
  case cons =>
    intro s rest hs hrest c
    exact (hs c).append (hrest (c + s.usage))
  case declare =>
    intro type name value c
    refine forward_of_jumpTargets_eq_nil ?_
    cases value <;> simp [Stmt.codeAt, Instr.target?]
  case print =>
    intro what c
    refine forward_of_jumpTargets_eq_nil ?_
    cases what <;> simp [Stmt.codeAt, Instr.target?]
  all_goals
    intros
    exact forward_of_jumpTargets_eq_nil (by simp [Stmt.codeAt, Instr.target?])

/-- A label that code defines stands somewhere in it. -/
theorem exists_getElem?_label (h : l ∈ definedLabels code) :
    ∃ j : Nat, code[j]? = some (Instr.label l) := by
  obtain ⟨x, hx, hlabel⟩ := List.mem_filterMap.mp h
  obtain ⟨j, hj⟩ := List.mem_iff_getElem?.mp hx
  cases x with
  | label l' =>
    cases hlabel
    exact ⟨j, hj⟩
  | assign | binary | print | scan | goto | gotoIf => exact nomatch hlabel

/-- The label of a jump is defined behind the jump. -/
theorem Forward.exists_lt (h : Forward code) {p : Nat} (hp : code[p]? = some i)
    (hl : i.target? = some l) : ∃ j : Nat, p < j ∧ code[j]? = some (.label l) := by
  induction code generalizing p with
  | nil => exact nomatch hp
  | cons x code ih =>
    cases p with
    | zero =>
      cases hp
      obtain ⟨j, hj⟩ := exists_getElem?_label (h.1 l hl)
      exact ⟨j + 1, Nat.succ_pos j, hj⟩
    | succ p =>
      obtain ⟨j, hlt, hj⟩ := ih h.2 hp
      exact ⟨j + 1, Nat.succ_lt_succ hlt, hj⟩

/-! ## Branches -/

/-- A branch. -/
def Stmt.isBranch : Stmt → Bool
  | .branch _ _ _ => true
  | .declare _ _ _ | .assign _ _ | .print _ | .scan _ | .function _ _ | .ret _ => false

/-- The branches among some statements. -/
def branchesIn (ss : List Site) : List Stmt := (ss.map Site.stmt).filter Stmt.isBranch

/-- **The branches of a program outside of all functions**, in the order of the text. -/
def branches (program : List Stmt) : List Stmt := branchesIn (sites program)

theorem branchesIn_append (ss tt : List Site) :
    branchesIn (ss ++ tt) = branchesIn ss ++ branchesIn tt := by
  rw [branchesIn, List.map_append, List.filter_append]
  rfl

theorem Stmt.branchesIn_sites_branch (scope : Address) (index : Nat) (cond : Expr)
    (thenBlock : List Stmt) (elseBlock : Option (List Stmt)) :
    branchesIn ((Stmt.branch cond thenBlock elseBlock).sites scope index) =
      .branch cond thenBlock elseBlock ::
        (branchesIn (Stmt.sitesAll (2 * index :: scope) 0 thenBlock) ++
          branchesIn (Stmt.sitesAll ((2 * index + 1) :: scope) 0 (elseBlock.getD []))) := by
  rw [Stmt.sites_branch, ← branchesIn_append]
  rfl

/-- A block takes three labels for each of its branches, and so does a statement. -/
theorem Stmt.labels_usage_all :
    (∀ (s : Stmt) (scope : Address) (index : Nat),
      s.usage.labels = 3 * (branchesIn (s.sites scope index)).length) ∧
    ∀ (block : List Stmt) (scope : Address) (index : Nat),
      (Stmt.usageAll block).labels = 3 * (branchesIn (Stmt.sitesAll scope index block)).length := by
  apply Stmt.code_induction
  case branch =>
    intro cond thenBlock elseBlock hthen helse scope index
    rw [Stmt.usage_branch, Stmt.branchesIn_sites_branch, Counters.labels_add, Counters.labels_add,
      hthen (2 * index :: scope) 0, helse ((2 * index + 1) :: scope) 0, List.length_cons,
      List.length_append]
    dsimp only
    omega
  case cons =>
    intro s rest hs hrest scope index
    rw [Stmt.usageAll, Stmt.sitesAll, branchesIn_append, List.length_append, Counters.labels_add,
      hs, hrest, Nat.mul_add]
  case declare =>
    intro type name value scope index
    cases value <;> rfl
  case print =>
    intro what scope index
    cases what <;> rfl
  all_goals
    intros
    rfl

/-- The code of the first block stands in the code of a branch. -/
theorem Stmt.codeAll_then_infix (c : Counters) (cond : Expr) (thenBlock : List Stmt)
    (elseBlock : Option (List Stmt)) :
    Stmt.codeAll (c + ⟨cond.operations, 3⟩) thenBlock <:+:
      (Stmt.branch cond thenBlock elseBlock).codeAt c := by
  rw [Stmt.codeAt_branch, List.append_assoc _ (Fork.middle _), List.append_assoc _ (_ ++ _)]
  exact List.infix_append _ _ _

/-- The code of the second block stands in the code of a branch. -/
theorem Stmt.codeAll_else_infix (c : Counters) (cond : Expr) (thenBlock : List Stmt)
    (elseBlock : Option (List Stmt)) :
    Stmt.codeAll (c + ⟨cond.operations, 3⟩ + Stmt.usageAll thenBlock) (elseBlock.getD []) <:+:
      (Stmt.branch cond thenBlock elseBlock).codeAt c := by
  rw [Stmt.codeAt_branch]
  exact List.infix_append _ _ _

/-- **The `k`-th branch of a block stands in the code of the block**, with the three labels that
follow those of the branches before it, and likewise for a statement. -/
theorem Stmt.exists_code_branch {b : Stmt} :
    (∀ (s : Stmt) (c : Counters) (scope : Address) (index k : Nat),
      (branchesIn (s.sites scope index))[k]? = some b →
        ∃ c', b.codeAt c' <:+: s.codeAt c ∧ c'.labels = c.labels + 3 * k) ∧
    ∀ (block : List Stmt) (c : Counters) (scope : Address) (index k : Nat),
      (branchesIn (Stmt.sitesAll scope index block))[k]? = some b →
        ∃ c', b.codeAt c' <:+: Stmt.codeAll c block ∧ c'.labels = c.labels + 3 * k := by
  apply Stmt.code_induction
  case branch =>
    intro cond thenBlock elseBlock hthen helse c scope index k hk
    rw [Stmt.branchesIn_sites_branch] at hk
    cases k with
    | zero =>
      cases hk
      exact ⟨c, List.infix_rfl, rfl⟩
    | succ k =>
      rw [List.getElem?_cons_succ, List.getElem?_append] at hk
      split at hk
      case isTrue =>
        obtain ⟨c', hcode, hlabels⟩ := hthen (c + ⟨cond.operations, 3⟩) _ _ k hk
        refine ⟨c', hcode.trans (Stmt.codeAll_then_infix ..), ?_⟩
        rw [hlabels, Counters.labels_add]
        dsimp only
        omega
      case isFalse hge =>
        -- The labels of the second block come behind all those of the first one.
        have hcount := Stmt.labels_usage_all.2 thenBlock (2 * index :: scope) 0
        obtain ⟨c', hcode, hlabels⟩ :=
          helse (c + ⟨cond.operations, 3⟩ + Stmt.usageAll thenBlock) _ _ _ hk
        refine ⟨c', hcode.trans (Stmt.codeAll_else_infix ..), ?_⟩
        rw [hlabels, Counters.labels_add, Counters.labels_add, hcount]
        dsimp only
        omega
  case cons =>
    intro s rest hs hrest c scope index k hk
    rw [Stmt.sitesAll, branchesIn_append, List.getElem?_append] at hk
    rw [Stmt.codeAll]
    split at hk
    case isTrue =>
      obtain ⟨c', hcode, hlabels⟩ := hs c _ _ k hk
      exact ⟨c', hcode.trans (List.prefix_append _ _).isInfix, hlabels⟩
    case isFalse hge =>
      have hcount := Stmt.labels_usage_all.1 s scope index
      obtain ⟨c', hcode, hlabels⟩ := hrest (c + s.usage) _ _ _ hk
      refine ⟨c', hcode.trans (List.suffix_append _ _).isInfix, ?_⟩
      rw [hlabels, Counters.labels_add, hcount]
      omega
  all_goals
    intros
    rename_i hk
    cases hk

/-! ## Ranges of code -/

/-- **No jump from outside of a range of code leads into it.** -/
def Sealed (before range after : List Instr) : Prop :=
  ∀ i ∈ before ++ after, ∀ l ∈ i.target?, l ∉ definedLabels range

/-- A range that closes its labels is sealed, if no two jumps lead to one label. -/
theorem sealed_of_perm {before range after : List Instr}
    (honce : (jumpTargets (before ++ range ++ after)).Nodup)
    (hclosed : (jumpTargets range).Perm (definedLabels range)) : Sealed before range after := by
  intro i hi l hl hdefined
  have hinside : l ∈ jumpTargets range := hclosed.mem_iff.mpr hdefined
  have hmem : ∀ {code : List Instr}, i ∈ code → l ∈ jumpTargets code := fun hcode =>
    List.mem_filterMap.mpr ⟨i, hcode, hl⟩
  rw [jumpTargets_append, jumpTargets_append] at honce
  rcases List.mem_append.mp hi with hbefore | hafter
  · exact List.disjoint_of_nodup_append honce.of_append_left (hmem hbefore) hinside
  · exact List.disjoint_of_nodup_append honce (List.mem_append_right _ hinside) (hmem hafter)

/-- **A branch stands in some code.**  Its two blocks are ranges of the code, each between two of
the three labels or the jumps around them, and no jump from outside leads into either. -/
structure HasBranch (code : List Instr) (f : Fork) (cond : Operand) (first second : List Instr)
    (front back : List Instr) : Prop where
  layout : code = front ++ f.head cond ++ first ++ f.middle ++ second ++ f.last ++ back
  first_sealed : Sealed (front ++ f.head cond) first (f.middle ++ second ++ f.last ++ back)
  second_sealed : Sealed (front ++ f.head cond ++ first ++ f.middle) second (f.last ++ back)

/-- A branch in code that jumps to no label twice. -/
theorem Stmt.hasBranch {c : Counters} {cond : Expr} {thenBlock : List Stmt}
    {elseBlock : Option (List Stmt)} (honce : (jumpTargets code).Nodup)
    (hcode : (Stmt.branch cond thenBlock elseBlock).codeAt c <:+: code) :
    ∃ front back, HasBranch code (Fork.after c.labels) (cond.operandAt c.temps)
      (Stmt.codeAll (c + ⟨cond.operations, 3⟩) thenBlock)
      (Stmt.codeAll (c + ⟨cond.operations, 3⟩ + Stmt.usageAll thenBlock) (elseBlock.getD []))
      front back := by
  obtain ⟨front, back, rfl⟩ := hcode
  rw [Stmt.codeAt_branch] at honce ⊢
  refine ⟨front ++ cond.codeAt c.temps, back, ?_, ?_, ?_⟩
  · simp only [List.append_assoc]
  · refine sealed_of_perm ?_ (Stmt.jumpTargets_perm_definedLabels _ _)
    simpa only [List.append_assoc] using honce
  · refine sealed_of_perm ?_ (Stmt.jumpTargets_perm_definedLabels _ _)
    simpa only [List.append_assoc] using honce

/-! ## Reachability -/

/-- **Control comes to all of a range** of `n` instructions, and to the place behind it. -/
def Covered (code : List Instr) (pc n : Nat) : Prop := ∀ i ≤ n, Reachable code (pc + i)

namespace Covered

variable {pc n m : Nat}

theorem zero (h : Reachable code pc) : Covered code pc 0 := by
  intro i hi
  rwa [Nat.le_zero.mp hi]

theorem behind (h : Covered code pc n) : Reachable code (pc + n) := h n (Nat.le_refl n)

theorem append (hn : Covered code pc n) (hm : Covered code (pc + n) m) :
    Covered code pc (n + m) := by
  intro i hi
  by_cases hle : i ≤ n
  · exact hn i hle
  · have h := hm (i - n) (by omega)
    rwa [show pc + n + (i - n) = pc + i by omega] at h

/-- Control comes to one more place. -/
theorem snoc (h : Covered code pc n) (hnext : Reachable code (pc + n + 1)) :
    Covered code pc (n + 1) := by
  intro i hi
  rcases Nat.le_succ_iff.mp hi with hle | rfl
  · exact h i hle
  · exact hnext

/-- Control passes on to the next place. -/
theorem next (h : Covered code pc n) (hi : code[pc + n]? = some i) (hfalls : i.fallsThrough) :
    Covered code pc (n + 1) :=
  h.snoc (.step h.behind (.next hi hfalls rfl))

/-- Control passes through a range without jumps that leave it no choice. -/
theorem of_fallsThrough (hcode : CodeAt code pc xs) (hxs : ∀ i ∈ xs, i.fallsThrough)
    (h : Reachable code pc) : Covered code pc xs.length := by
  induction xs generalizing pc with
  | nil => exact zero h
  | cons i xs ih =>
    obtain ⟨hi, hxs⟩ := List.forall_mem_cons.mp hxs
    have hfirst := (zero h).next hcode.head hi
    rw [List.length_cons, Nat.add_comm]
    exact hfirst.append (ih hcode.tail hxs hfirst.behind)

/-- **A branch is covered** if its blocks are.  The first label is reached by the first jump, the
second label by the second one. -/
theorem fork {f : Fork} {cond : Operand}
    (hcode : CodeAt code pc (f.head cond ++ xs ++ f.middle ++ ys ++ f.last))
    (h : Reachable code pc)
    (hxs : Reachable code (pc + 3) → Covered code (pc + 3) xs.length)
    (hys : Reachable code (pc + (3 + xs.length + 2)) →
      Covered code (pc + (3 + xs.length + 2)) ys.length) :
    Covered code pc (3 + xs.length + 2 + ys.length + 1) := by
  have hhead := hcode.left.left.left.left
  have hmiddle : CodeAt code (pc + (3 + xs.length)) f.middle := by
    have hm := hcode.left.left.right
    rwa [List.length_append] at hm
  have hlast : code[pc + (3 + xs.length + 2 + ys.length)]? = some (.label f.join) := by
    have hl := hcode.right.head
    rwa [List.length_append, List.length_append, List.length_append] at hl
  -- The second jump follows the first one; the label behind it is reached by the first one only.
  have htwo : Covered code pc 1 := (zero h).next hhead.head rfl
  have hthree : Covered code pc 2 := htwo.snoc (.step h (.jump hhead.head rfl hhead.tail.tail.head))
  have hfirst := hthree.next hhead.tail.tail.head rfl
  have hgoto := hfirst.append (hxs hfirst.behind)
  -- The first block is left by a jump, so its successor in the code is reached from the front.
  have hfalse := hgoto.snoc (.step htwo.behind (.jump hhead.tail.head rfl hmiddle.tail.head))
  have hsecond := hfalse.next hmiddle.tail.head rfl
  exact (hsecond.append (hys hsecond.behind)).next hlast rfl

end Covered

theorem Expr.fallsThrough_codeAt (n : Nat) (e : Expr) : ∀ i ∈ e.codeAt n, i.fallsThrough := by
  induction e generalizing n with
  | number | ident | text => exact fun i hi => absurd hi List.not_mem_nil
  | binary op left right ihl ihr =>
    simp only [codeAt, List.forall_mem_append, List.forall_mem_singleton]
    exact ⟨⟨ihl n, ihr _⟩, rfl⟩

/-- **Control comes to all of a block if it comes to its beginning**, wherever the block stands, and
likewise for a statement. -/
theorem Stmt.covered_all {code : List Instr} :
    (∀ (s : Stmt) (c : Counters) (pc : Nat), CodeAt code pc (s.codeAt c) → Reachable code pc →
      Covered code pc (s.codeAt c).length) ∧
    ∀ (block : List Stmt) (c : Counters) (pc : Nat), CodeAt code pc (Stmt.codeAll c block) →
      Reachable code pc → Covered code pc (Stmt.codeAll c block).length := by
  apply Stmt.code_induction
  case branch =>
    intro cond thenBlock elseBlock hthen helse c pc hcode h
    rw [Stmt.codeAt_branch] at hcode ⊢
    simp only [List.append_assoc] at hcode ⊢
    rw [List.length_append]
    have hcond := Covered.of_fallsThrough hcode.left (cond.fallsThrough_codeAt _) h
    refine hcond.append ?_
    -- What is left behind the condition is the fork with its two blocks.
    have hfork := hcode.right
    simp only [← List.append_assoc] at hfork ⊢
    have hsecond := hfork.left.right
    rw [List.length_append, List.length_append] at hsecond
    simp only [List.length_append]
    exact Covered.fork hfork hcond.behind (hthen _ _ hfork.left.left.left.right)
      (helse _ _ hsecond)
  case nil =>
    intro c pc _ h
    exact .zero h
  case cons =>
    intro s rest hs hrest c pc hcode h
    rw [Stmt.codeAll] at hcode ⊢
    rw [List.length_append]
    have hfirst := hs c pc hcode.left h
    exact hfirst.append (hrest _ _ hcode.right hfirst.behind)
  case declare =>
    intro type name value c pc hcode h
    refine .of_fallsThrough hcode ?_ h
    cases value with
    | none => exact fun i hi => absurd hi List.not_mem_nil
    | some e =>
      refine List.forall_mem_append.mpr ⟨e.fallsThrough_codeAt _, ?_⟩
      simp [Instr.fallsThrough]
  case print =>
    intro what c pc hcode h
    refine .of_fallsThrough hcode ?_ h
    cases what with
    | text content => simp [Stmt.codeAt, Instr.fallsThrough]
    | value e =>
      refine List.forall_mem_append.mpr ⟨e.fallsThrough_codeAt _, ?_⟩
      simp [Instr.fallsThrough]
  case assign =>
    intro name e c pc hcode h
    refine .of_fallsThrough hcode (List.forall_mem_append.mpr ⟨e.fallsThrough_codeAt _, ?_⟩) h
    simp [Instr.fallsThrough]
  all_goals
    intros
    rename_i hcode h
    exact .of_fallsThrough hcode (by simp [Stmt.codeAt, Instr.fallsThrough]) h

/-! ## Programs -/

/-- **Control flow of lowered code.**  A program with `m` branches outside of all functions defines
the labels from `L1` to `L(3m)`, each of them once, and jumps to each of them once, from before its
definition.  The `k`-th branch has the labels behind `L(3k)`; the code of its first block is what
stands between the first of them and the jump to the third, the code of its second block is what
stands between the second and the third, and no jump from outside leads into either.  Control comes
to every instruction. -/
theorem lower_structured (program : List Stmt) :
    (definedLabels (lower program)).Perm (fresh Label.mk 0 (3 * (branches program).length)) ∧
    (jumpTargets (lower program)).Perm (fresh Label.mk 0 (3 * (branches program).length)) ∧
    (∀ (i j : Nat) (x : Instr) (l : Label), (lower program)[i]? = some x → x.target? = some l →
      (lower program)[j]? = some (.label l) → i < j) ∧
    (∀ (k : Nat) (cond : Expr) (thenBlock : List Stmt) (elseBlock : Option (List Stmt)),
      (branches program)[k]? = some (.branch cond thenBlock elseBlock) →
      ∃ c : Counters, c.labels = 3 * k ∧ ∃ front back,
        HasBranch (lower program) (Fork.after (3 * k)) (cond.operandAt c.temps)
          (Stmt.codeAll (c + ⟨cond.operations, 3⟩) thenBlock)
          (Stmt.codeAll (c + ⟨cond.operations, 3⟩ + Stmt.usageAll thenBlock) (elseBlock.getD []))
          front back) ∧
    ∀ i < (lower program).length, Reachable (lower program) i := by
  have hlabels : (Stmt.usageAll program).labels = 3 * (branches program).length :=
    Stmt.labels_usage_all.2 program [] 0
  have hdefined := Stmt.definedLabels_perm.2 program 0
  have htargets := Stmt.jumpTargets_perm.2 program 0
  rw [hlabels] at hdefined htargets
  refine ⟨hdefined, htargets, ?_, ?_, ?_⟩
  · intro i j x l hi hx hj
    obtain ⟨j', hlt, hj'⟩ := (Stmt.forward_all.2 program 0).exists_lt hi hx
    rwa [index_unique (nodup_definedLabels_lower program) hj rfl hj' rfl]
  · intro k cond thenBlock elseBlock hk
    obtain ⟨c, hcode, hc⟩ := Stmt.exists_code_branch.2 program 0 [] 0 k hk
    rw [Counters.labels_zero, Nat.zero_add] at hc
    have hbranch := Stmt.hasBranch (htargets.nodup_iff.mpr (nodup_fresh Label.mk_injective)) hcode
    rw [hc] at hbranch
    exact ⟨c, hc, hbranch⟩
  · intro i hi
    have hall := Stmt.covered_all.2 program 0 0 (CodeAt.self _) .first i (Nat.le_of_lt hi)
    rwa [Nat.zero_add] at hall

end Brew
