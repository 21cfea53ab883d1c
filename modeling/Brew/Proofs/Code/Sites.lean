import Brew.Code.Flow
import Brew.Code.Lower
import Brew.Scope.Event

/-!
# Where code comes from

Lowering goes into the blocks of a branch but not into the body of a function.  The statements that
it comes to are the ones outside of all functions, and each of them stands at a **site**: in a
scope, which is known by its address, and as one of the statements of the block there.  Every
instruction is emitted for the statement at one of these sites.

## Main definitions

* `Site`, `sites`: the statements outside of all functions, in the order of the text
* `traced`: the code of a program, with the site that each instruction is emitted for
* `Stmt.exprs`: the expressions of a statement, without those in its blocks

## Main results

* `Stmt.code_induction`: induction over statements and blocks as lowering sees them
* `map_snd_traced`: the traced code is the code
* `mem_traced`: it is traced to the statements outside of all functions
-/

namespace Brew

/-! ## Sites -/

/-- A statement, with the scope in which it stands and its index in its block. -/
structure Site where
  scope : Address
  index : Nat
  stmt : Stmt
deriving Repr

mutual

/-- The sites of a statement and of the statements in its blocks.  As for events, the statement with
index `i` owns the scopes numbered `2 * i` and `2 * i + 1` of its block. -/
def Stmt.sites (scope : Address) (index : Nat) : Stmt → List Site
  | s@(.branch _ thenBlock none) =>
    ⟨scope, index, s⟩ :: Stmt.sitesAll (2 * index :: scope) 0 thenBlock
  | s@(.branch _ thenBlock (some elseBlock)) =>
    ⟨scope, index, s⟩ :: Stmt.sitesAll (2 * index :: scope) 0 thenBlock ++
      Stmt.sitesAll ((2 * index + 1) :: scope) 0 elseBlock
  | s@(.declare ..) | s@(.assign ..) | s@(.print _) | s@(.scan _) | s@(.function ..)
  | s@(.ret _) => [⟨scope, index, s⟩]

/-- The sites of statements, given the index of the first one. -/
def Stmt.sitesAll (scope : Address) (index : Nat) : List Stmt → List Site
  | [] => []
  | s :: rest => s.sites scope index ++ Stmt.sitesAll scope (index + 1) rest

end

/-- **The statements of a program outside of all functions**, in the order of the text. -/
def sites (program : List Stmt) : List Site := Stmt.sitesAll [] 0 program

/-- The expressions of a statement, without those in its blocks. -/
def Stmt.exprs : Stmt → List Expr
  | .declare _ _ value => value.toList
  | .assign _ e => [e]
  | .print (.text _) => []
  | .print (.value e) => [e]
  | .scan _ => []
  | .branch cond _ _ => [cond]
  | .function _ _ => []
  | .ret value => value.toList

/-! ## Induction -/

/-- **Induction over statements and blocks as lowering sees them**: a missing block counts as an
empty one, and nothing is known of the body of a function. -/
theorem Stmt.code_induction {P : Stmt → Prop} {Q : List Stmt → Prop}
    (declare : ∀ type name value, P (.declare type name value))
    (assign : ∀ name value, P (.assign name value))
    (print : ∀ what, P (.print what))
    (scan : ∀ name, P (.scan name))
    (branch : ∀ cond thenBlock elseBlock, Q thenBlock → Q (elseBlock.getD []) →
      P (.branch cond thenBlock elseBlock))
    (function : ∀ signature body, P (.function signature body))
    (ret : ∀ value, P (.ret value))
    (nil : Q [])
    (cons : ∀ s rest, P s → Q rest → Q (s :: rest)) :
    (∀ s, P s) ∧ ∀ block, Q block := by
  refine Stmt.block_induction declare assign print scan ?_ (fun signature body _ =>
    function signature body) ret nil cons
  intro cond thenBlock elseBlock hthen helse
  refine branch cond thenBlock elseBlock hthen ?_
  cases elseBlock with
  | none => exact nil
  | some elseBlock => exact helse elseBlock rfl

/-- The code of a branch, whether or not it has a second block. -/
theorem Stmt.codeAt_branch (c : Counters) (cond : Expr) (thenBlock : List Stmt)
    (elseBlock : Option (List Stmt)) :
    (Stmt.branch cond thenBlock elseBlock).codeAt c =
      cond.codeAt c.temps ++ (Fork.after c.labels).head (cond.operandAt c.temps) ++
        Stmt.codeAll (c + ⟨cond.operations, 3⟩) thenBlock ++ (Fork.after c.labels).middle ++
        Stmt.codeAll (c + ⟨cond.operations, 3⟩ + Stmt.usageAll thenBlock) (elseBlock.getD []) ++
        (Fork.after c.labels).last := by
  cases elseBlock with
  | none => rw [Stmt.codeAt, Option.getD_none, Stmt.codeAll, List.append_nil]
  | some elseBlock => rw [Stmt.codeAt, Option.getD_some]

/-- What a branch takes, whether or not it has a second block. -/
theorem Stmt.usage_branch (cond : Expr) (thenBlock : List Stmt) (elseBlock : Option (List Stmt)) :
    (Stmt.branch cond thenBlock elseBlock).usage =
      ⟨cond.operations, 3⟩ + Stmt.usageAll thenBlock + Stmt.usageAll (elseBlock.getD []) := by
  cases elseBlock with
  | none => rw [Stmt.usage, Option.getD_none, Stmt.usageAll, Counters.add_zero]
  | some elseBlock => rw [Stmt.usage, Option.getD_some]

/-- The sites of a branch, whether or not it has a second block. -/
theorem Stmt.sites_branch (scope : Address) (index : Nat) (cond : Expr) (thenBlock : List Stmt)
    (elseBlock : Option (List Stmt)) :
    (Stmt.branch cond thenBlock elseBlock).sites scope index =
      ⟨scope, index, .branch cond thenBlock elseBlock⟩ ::
        (Stmt.sitesAll (2 * index :: scope) 0 thenBlock ++
          Stmt.sitesAll ((2 * index + 1) :: scope) 0 (elseBlock.getD [])) := by
  cases elseBlock with
  | none => rw [Stmt.sites, Option.getD_none, Stmt.sitesAll, List.append_nil]
  | some elseBlock => rw [Stmt.sites, Option.getD_some, List.cons_append]

/-! ## Traced code -/

mutual

/-- The code of a statement with the site that each instruction is emitted for; `c` is what is taken
before. -/
def Stmt.tracedAt (c : Counters) (scope : Address) (index : Nat) : Stmt → List (Site × Instr)
  | s@(.branch cond thenBlock none) =>
    (cond.codeAt c.temps ++ (Fork.after c.labels).head (cond.operandAt c.temps)).map
        (⟨scope, index, s⟩, ·) ++
      Stmt.tracedAll (c + ⟨cond.operations, 3⟩) (2 * index :: scope) 0 thenBlock ++
      (Fork.after c.labels).middle.map (⟨scope, index, s⟩, ·) ++
      (Fork.after c.labels).last.map (⟨scope, index, s⟩, ·)
  | s@(.branch cond thenBlock (some elseBlock)) =>
    (cond.codeAt c.temps ++ (Fork.after c.labels).head (cond.operandAt c.temps)).map
        (⟨scope, index, s⟩, ·) ++
      Stmt.tracedAll (c + ⟨cond.operations, 3⟩) (2 * index :: scope) 0 thenBlock ++
      (Fork.after c.labels).middle.map (⟨scope, index, s⟩, ·) ++
      Stmt.tracedAll (c + ⟨cond.operations, 3⟩ + Stmt.usageAll thenBlock)
        ((2 * index + 1) :: scope) 0 elseBlock ++
      (Fork.after c.labels).last.map (⟨scope, index, s⟩, ·)
  | s@(.declare ..) | s@(.assign ..) | s@(.print _) | s@(.scan _) | s@(.function ..)
  | s@(.ret _) => (s.codeAt c).map (⟨scope, index, s⟩, ·)

/-- The code of statements with the site that each instruction is emitted for; `c` is what is taken
before. -/
def Stmt.tracedAll (c : Counters) (scope : Address) (index : Nat) :
    List Stmt → List (Site × Instr)
  | [] => []
  | s :: rest =>
    s.tracedAt c scope index ++ Stmt.tracedAll (c + s.usage) scope (index + 1) rest

end

/-- **The code of a program with the site that each instruction is emitted for.** -/
def traced (program : List Stmt) : List (Site × Instr) := Stmt.tracedAll 0 [] 0 program

/-- The traced code of a branch, whether or not it has a second block. -/
theorem Stmt.tracedAt_branch (c : Counters) (scope : Address) (index : Nat) (cond : Expr)
    (thenBlock : List Stmt) (elseBlock : Option (List Stmt)) :
    (Stmt.branch cond thenBlock elseBlock).tracedAt c scope index =
      (cond.codeAt c.temps ++ (Fork.after c.labels).head (cond.operandAt c.temps)).map
          (⟨scope, index, .branch cond thenBlock elseBlock⟩, ·) ++
        Stmt.tracedAll (c + ⟨cond.operations, 3⟩) (2 * index :: scope) 0 thenBlock ++
        (Fork.after c.labels).middle.map (⟨scope, index, .branch cond thenBlock elseBlock⟩, ·) ++
        Stmt.tracedAll (c + ⟨cond.operations, 3⟩ + Stmt.usageAll thenBlock)
          ((2 * index + 1) :: scope) 0 (elseBlock.getD []) ++
        (Fork.after c.labels).last.map (⟨scope, index, .branch cond thenBlock elseBlock⟩, ·) := by
  cases elseBlock with
  | none => rw [Stmt.tracedAt, Option.getD_none, Stmt.tracedAll, List.append_nil]
  | some elseBlock => rw [Stmt.tracedAt, Option.getD_some]

/-- The code that is emitted for a statement itself, without the code of its blocks. -/
def Stmt.ownCodeAt (c : Counters) : Stmt → List Instr
  | .branch cond _ _ =>
    cond.codeAt c.temps ++ (Fork.after c.labels).head (cond.operandAt c.temps) ++
      (Fork.after c.labels).middle ++ (Fork.after c.labels).last
  | s@(.declare ..) | s@(.assign ..) | s@(.print _) | s@(.scan _) | s@(.function ..)
  | s@(.ret _) => s.codeAt c

theorem map_snd_emittedFor (site : Site) (code : List Instr) :
    (code.map ((site, ·) : Instr → Site × Instr)).map Prod.snd = code := by
  rw [List.map_map]
  exact List.map_id code

theorem mem_emittedFor {site other : Site} {i : Instr} {code : List Instr} :
    (site, i) ∈ code.map ((other, ·) : Instr → Site × Instr) ↔ site = other ∧ i ∈ code := by
  simp only [List.mem_map, Prod.mk.injEq]
  constructor
  · rintro ⟨j, hj, rfl, rfl⟩
    exact ⟨rfl, hj⟩
  · rintro ⟨rfl, hi⟩
    exact ⟨i, hi, rfl, rfl⟩

/-- The traced code of a statement is its code, and so it is for a block. -/
theorem Stmt.map_snd_traced_all :
    (∀ (s : Stmt) (c : Counters) (scope : Address) (index : Nat),
      (s.tracedAt c scope index).map Prod.snd = s.codeAt c) ∧
    ∀ (block : List Stmt) (c : Counters) (scope : Address) (index : Nat),
      (Stmt.tracedAll c scope index block).map Prod.snd = Stmt.codeAll c block := by
  apply Stmt.code_induction
  case branch =>
    intro cond thenBlock elseBlock hthen helse c scope index
    rw [Stmt.tracedAt_branch, Stmt.codeAt_branch]
    simp only [List.map_append, map_snd_emittedFor, hthen, helse]
  case nil =>
    intro c scope index
    rfl
  case cons =>
    intro s rest hs hrest c scope index
    rw [Stmt.tracedAll, Stmt.codeAll, List.map_append, hs, hrest]
  all_goals
    intros
    rw [Stmt.tracedAt, map_snd_emittedFor]

/-- **The traced code of a program is its code.** -/
theorem map_snd_traced (program : List Stmt) : (traced program).map Prod.snd = lower program :=
  Stmt.map_snd_traced_all.2 program 0 [] 0

/-- A statement is traced to its own site, with its own code, and to the sites in its blocks; a
block is traced to the sites of its statements. -/
theorem Stmt.mem_traced_all {site : Site} {i : Instr} :
    (∀ (s : Stmt) (c : Counters) (scope : Address) (index : Nat),
      (site, i) ∈ s.tracedAt c scope index →
        site ∈ s.sites scope index ∧ ∃ c, i ∈ site.stmt.ownCodeAt c) ∧
    ∀ (block : List Stmt) (c : Counters) (scope : Address) (index : Nat),
      (site, i) ∈ Stmt.tracedAll c scope index block →
        site ∈ Stmt.sitesAll scope index block ∧ ∃ c, i ∈ site.stmt.ownCodeAt c := by
  apply Stmt.code_induction
  case branch =>
    intro cond thenBlock elseBlock hthen helse c scope index hmem
    rw [Stmt.tracedAt_branch] at hmem
    rw [Stmt.sites_branch, List.mem_cons, List.mem_append]
    simp only [List.mem_append, mem_emittedFor] at hmem
    -- The instruction belongs to the branch itself, or to one of its two blocks.
    rcases hmem with (((⟨rfl, hi⟩ | hmem) | ⟨rfl, hi⟩) | hmem) | ⟨rfl, hi⟩
    · have hhead := List.mem_append.mpr hi
      exact ⟨.inl rfl, c, List.mem_append_left _ (List.mem_append_left _ hhead)⟩
    · exact ⟨.inr (.inl (hthen _ _ _ hmem).1), (hthen _ _ _ hmem).2⟩
    · exact ⟨.inl rfl, c, List.mem_append_left _ (List.mem_append_right _ hi)⟩
    · exact ⟨.inr (.inr (helse _ _ _ hmem).1), (helse _ _ _ hmem).2⟩
    · exact ⟨.inl rfl, c, List.mem_append_right _ hi⟩
  case nil =>
    intro c scope index hmem
    exact absurd hmem List.not_mem_nil
  case cons =>
    intro s rest hs hrest c scope index hmem
    rw [Stmt.sitesAll, List.mem_append]
    rcases List.mem_append.mp hmem with hmem | hmem
    · exact ⟨.inl (hs _ _ _ hmem).1, (hs _ _ _ hmem).2⟩
    · exact ⟨.inr (hrest _ _ _ hmem).1, (hrest _ _ _ hmem).2⟩
  -- All other statements have no code but their own.
  all_goals
    intros
    rename_i c scope index hmem
    rw [Stmt.tracedAt, mem_emittedFor] at hmem
    obtain ⟨rfl, hi⟩ := hmem
    exact ⟨List.mem_singleton_self _, c, hi⟩

/-- **Code is traced to the statements outside of all functions**, and each instruction to a
statement that emits it. -/
theorem mem_traced {program : List Stmt} {site : Site} {i : Instr}
    (h : (site, i) ∈ traced program) :
    site ∈ sites program ∧ ∃ c, i ∈ site.stmt.ownCodeAt c :=
  Stmt.mem_traced_all.2 program 0 [] 0 h

end Brew
