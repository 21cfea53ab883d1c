import Mathlib.Data.List.Nodup
import Brew.Semantics.Scoped

/-!
# Programs without shadowing

A program has no shadowing if no declaration repeats a name of its own block or of a block around
it.  Blocks that do not contain each other may use the same names.  While such a program runs, the
variables of the open blocks have different names, so it makes no difference whether variables of
one name share their memory.

## Main definitions

* `Stmt.Unshadowed`, `Stmt.UnshadowedAll`: no declaration repeats a visible name
* `Scoped.names`: the names of the variables of some blocks

## Main results

* `Scoped.outcome_shared`: without shadowing, a program ends in shared memory as in separate memory
-/

namespace Brew

variable {V : Type}

/-- The names that a statement adds to its block. -/
def Stmt.introduced : Stmt → List String
  | .declare _ name _ => [name]
  | _ => []

mutual

/-- No declaration that a statement can run repeats one of the visible names. -/
def Stmt.Unshadowed (visible : List String) : Stmt → Prop
  | .declare _ name _ => name ∉ visible
  | .branch _ thenBlock none => Stmt.UnshadowedAll visible thenBlock
  | .branch _ thenBlock (some elseBlock) =>
    Stmt.UnshadowedAll visible thenBlock ∧ Stmt.UnshadowedAll visible elseBlock
  | _ => True

/-- The same for statements one after the other. -/
def Stmt.UnshadowedAll (visible : List String) : List Stmt → Prop
  | [] => True
  | s :: rest => s.Unshadowed visible ∧ Stmt.UnshadowedAll (s.introduced ++ visible) rest

end

namespace Scoped

/-! ## Memory -/

/-- The names of the variables of some blocks. -/
def names (blocks : List (Block V)) : List (List String) := blocks.map (·.map Prod.fst)

theorem Block.names_set (block : Block V) (name : String) (v : V) :
    (block.set name v).map Prod.fst = block.map Prod.fst := by
  induction block with
  | nil => rfl
  | cons entry rest ih =>
    rw [Block.set]
    split
    next h => rw [List.map_cons, List.map_cons, h]
    next => rw [List.map_cons, List.map_cons, ih]

theorem names_set (blocks : List (Block V)) (name : String) (v : V) :
    names (set blocks name v) = names blocks := by
  induction blocks with
  | nil => rfl
  | cons block rest ih =>
    rw [set]
    split
    · exact congrArg (· :: names rest) (block.names_set name v)
    · exact congrArg (block.map Prod.fst :: ·) ih

theorem names_declare {blocks : List (Block V)} {top : List String} {rest : List (List String)}
    (h : names blocks = top :: rest) (name : String) (value : Option V) :
    names (declare blocks name value) = (name :: top) :: rest := by
  cases blocks with
  | nil => exact nomatch h
  | cons block blocks =>
    obtain ⟨rfl, rfl⟩ := List.cons.inj h
    rfl

/-- Shared memory takes nothing away under a new name. -/
theorem Block.clear_of_notMem {block : Block V} {name : String} (h : name ∉ block.map Prod.fst) :
    block.clear name = block := by
  have hentry : ∀ entry ∈ block, (if entry.1 = name then (name, none) else entry) = entry := by
    intro entry hentry
    refine if_neg fun hname => h ?_
    rw [← hname]
    exact List.mem_map_of_mem hentry
  exact (List.map_congr_left hentry).trans (List.map_id block)

theorem release_of_notMem {blocks : List (Block V)} {name : String}
    (h : name ∉ (names blocks).flatten) : Memory.release .shared blocks name = blocks := by
  have hblock : ∀ block ∈ blocks, block.clear name = block := fun block hblock =>
    Block.clear_of_notMem fun hname =>
      h (List.mem_flatten.2 ⟨_, List.mem_map_of_mem hblock, hname⟩)
  exact (List.map_congr_left hblock).trans (List.map_id blocks)

theorem Block.names_clear (block : Block V) (name : String) :
    (block.clear name).map Prod.fst = block.map Prod.fst := by
  rw [Block.clear, List.map_map]
  refine List.map_congr_left fun entry _ => ?_
  rw [Function.comp_apply]
  split
  next h => exact h.symm
  next => rfl

theorem Block.isSome_lookup (block : Block V) (name : String) :
    (block.lookup name).isSome = true ↔ name ∈ block.map Prod.fst := by
  rw [List.lookup_isSome_iff, List.mem_map]
  refine exists_congr fun entry => and_congr_right fun _ => ?_
  rw [beq_iff_eq, eq_comm]

/-- In a block without repeated names, what is taken away is what is given next. -/
theorem Block.set_clear {block : Block V} (h : (block.map Prod.fst).Nodup) (name : String) (v : V) :
    (block.clear name).set name v = block.set name v := by
  induction block with
  | nil => rfl
  | cons entry rest ih =>
    obtain ⟨hnew, hrest⟩ := List.nodup_cons.1 h
    change Block.set ((if entry.1 = name then (name, none) else entry) :: Block.clear rest name)
      name v = _
    by_cases hname : entry.1 = name
    · -- The rest of the block has no such name, so nothing is taken away there.
      subst hname
      rw [if_pos rfl, Block.set, Block.set, if_pos rfl, if_pos rfl, Block.clear_of_notMem hnew]
    · rw [if_neg hname, Block.set, Block.set, if_neg hname, if_neg hname, ih hrest]

/-- **Giving a variable a value** is the same in both memories if no name is repeated. -/
theorem set_release {blocks : List (Block V)} (h : (names blocks).flatten.Nodup) (name : String)
    (v : V) : set (Memory.release .shared blocks name) name v = set blocks name v := by
  induction blocks with
  | nil => rfl
  | cons block rest ih =>
    obtain ⟨hblock, hrest, hdisjoint⟩ := List.nodup_append'.1 h
    change set (block.clear name :: Memory.release .shared rest name) name v = _
    rw [set, set]
    by_cases hname : name ∈ block.map Prod.fst
    · -- The variable is in this block, and no other block has one of its name.
      have hclear : ((block.clear name).lookup name).isSome = true := by
        rw [Block.isSome_lookup, Block.names_clear]
        exact hname
      rw [if_pos hclear, if_pos (block.isSome_lookup name |>.2 hname), Block.set_clear hblock,
        release_of_notMem (hdisjoint hname)]
    · -- The block is left as it is, and the variable is looked for further out.
      rw [Block.clear_of_notMem hname, if_neg (hname <| block.isSome_lookup name |>.1 ·),
        if_neg (hname <| block.isSome_lookup name |>.1 ·), ih hrest]

/-! ## Runs -/

/-- Two runs are the same from every world with the given names, and they end in a world with the
given other names. -/
structure Coincide {α : Type} (x y : Exec V α) (before after : List (List String)) : Prop where
  run_eq : ∀ w : World V, names w.blocks = before → y.run w = x.run w
  names_eq : ∀ {w w' : World V} {a : α}, names w.blocks = before → x.run w = .ok a w' →
    names w'.blocks = after

namespace Coincide

variable {α β : Type} {before between after : List (List String)}

theorem pure (a : α) : Coincide (V := V) (Pure.pure a) (Pure.pure a) before before where
  run_eq _ _ := rfl
  names_eq hbefore hrun := by
    cases hrun
    exact hbefore

theorem bind {x y : Exec V α} {f g : α → Exec V β} (h : Coincide x y before between)
    (hnext : ∀ a, Coincide (f a) (g a) between after) :
    Coincide (x >>= f) (y >>= g) before after where
  run_eq w hbefore := by
    rw [EStateM.run_bind, EStateM.run_bind, h.run_eq w hbefore]
    cases hrun : x.run w with
    | ok a w' => exact (hnext a).run_eq w' (h.names_eq hbefore hrun)
    | error failure w' => rfl
  names_eq {w w' b} hbefore hrun := by
    rw [EStateM.run_bind] at hrun
    cases hfirst : x.run w with
    | ok a w₁ =>
      rw [hfirst] at hrun
      exact (hnext a).names_eq (h.names_eq hbefore hfirst) hrun
    | error failure w₁ =>
      rw [hfirst] at hrun
      exact nomatch hrun

/-- A run that leaves the variables alone. -/
theorem of_blocks_eq {x : Exec V α} (h : ∀ w a w', x.run w = .ok a w' → w'.blocks = w.blocks) :
    Coincide x x before before where
  run_eq _ _ := rfl
  names_eq {w w' a} hbefore hrun := by
    rw [h w a w' hrun]
    exact hbefore

theorem onBlocks {f g : List (Block V) → List (Block V)}
    (hsame : ∀ blocks, names blocks = before → g blocks = f blocks)
    (hnames : ∀ blocks, names blocks = before → names (f blocks) = after) :
    Coincide (Exec.onBlocks f) (Exec.onBlocks g) before after where
  run_eq w hbefore := by
    change EStateM.Result.ok () { w with blocks := g w.blocks } = _
    rw [hsame w.blocks hbefore]
    rfl
  names_eq {w w' a} hbefore hrun := by
    cases hrun
    exact hnames w.blocks hbefore

theorem value (I : Interpretation V) (e : Expr) :
    Coincide (Exec.value I e) (Exec.value I e) before before := by
  refine of_blocks_eq fun w v w' hrun => ?_
  simp only [Exec.value, EStateM.run] at hrun
  split at hrun
  · cases hrun
    rfl
  · exact nomatch hrun

theorem receive : Coincide (V := V) Exec.receive Exec.receive before before := by
  refine of_blocks_eq fun w v w' hrun => ?_
  simp only [Exec.receive, EStateM.run] at hrun
  split at hrun
  · cases hrun
    rfl
  · exact nomatch hrun

theorem print (v : V) : Coincide (Exec.print v) (Exec.print v) before before := by
  refine of_blocks_eq fun w a w' hrun => ?_
  cases hrun
  rfl

variable {top : List String} {rest : List (List String)}

theorem assign (h : (top ++ rest.flatten).Nodup) (name : String) (v : V) :
    Coincide (Exec.assign .separate name v) (Exec.assign .shared name v) (top :: rest)
      (top :: rest) := by
  refine onBlocks (fun blocks hbefore => ?_) (fun blocks hbefore => ?_)
  · exact set_release (hbefore ▸ h) name v
  · exact (names_set blocks name v).trans hbefore

theorem introduce {name : String} (h : name ∉ top ++ rest.flatten) (v : V) :
    Coincide (Exec.introduce .separate name v) (Exec.introduce .shared name v) (top :: rest)
      ((name :: top) :: rest) := by
  -- No open block has the name, so there is nothing to take away.
  refine onBlocks (fun blocks hbefore => ?_) (fun blocks hbefore => ?_)
  · rw [release_of_notMem (hbefore ▸ h)]
    rfl
  · exact names_declare hbefore name (some v)

theorem inBlock {x y : Exec V Unit} {after : List String} (h : Coincide x y ([] :: before)
    (after :: before)) : Coincide (Exec.inBlock x) (Exec.inBlock y) before before := by
  have henter : Coincide (V := V) (Exec.onBlocks ([] :: ·)) (Exec.onBlocks ([] :: ·)) before
      ([] :: before) :=
    onBlocks (fun _ _ => rfl) fun _ hbefore => congrArg ([] :: ·) hbefore
  have hleave : Coincide (V := V) (Exec.onBlocks List.tail) (Exec.onBlocks List.tail)
      (after :: before) before :=
    onBlocks (fun _ _ => rfl) fun blocks hafter => by
      rw [names, List.map_tail]
      exact congrArg List.tail hafter
  exact henter.bind fun _ => h.bind fun _ => hleave

end Coincide

end Scoped

/-! ## Statements -/

open Scoped (Coincide)

theorem Stmt.Unshadowed.nodup {s : Stmt} {visible : List String} (h : s.Unshadowed visible)
    (hnodup : visible.Nodup) : (s.introduced ++ visible).Nodup := by
  cases s with
  | declare type name value => exact List.nodup_cons.2 ⟨h, hnodup⟩
  | _ => exact hnodup

/-- **Without shadowing, both memories give the same run**, of a statement and of a block. -/
theorem Stmt.coincide_all (I : Interpretation V) :
    (∀ s : Stmt, ∀ top rest, (top ++ rest.flatten).Nodup → s.Unshadowed (top ++ rest.flatten) →
      Coincide (s.execScoped .separate I) (s.execScoped .shared I) (top :: rest)
        ((s.introduced ++ top) :: rest)) ∧
    ∀ block : List Stmt, ∀ top rest, (top ++ rest.flatten).Nodup →
      Stmt.UnshadowedAll (top ++ rest.flatten) block →
      ∃ after, Coincide (Stmt.execAllScoped .separate I block)
        (Stmt.execAllScoped .shared I block) (top :: rest) (after :: rest) := by
  apply Stmt.block_induction
  case declare =>
    intro type name value top rest hnodup hnew
    cases value with
    | none =>
      exact .onBlocks (fun _ _ => rfl) fun _ hbefore => Scoped.names_declare hbefore name none
    | some e => exact (Coincide.value I e).bind fun v => .introduce hnew v
  case assign =>
    intro name e top rest hnodup _
    exact (Coincide.value I e).bind fun v => .assign hnodup name v
  case print =>
    intro what top rest _ _
    cases what with
    | text content => exact .print (I.text content)
    | value e => exact (Coincide.value I e).bind fun v => .print v
  case scan =>
    intro name top rest hnodup _
    exact Coincide.receive.bind fun v => .assign hnodup name v
  case branch =>
    intro cond thenBlock elseBlock hthen helse top rest hnodup hblocks
    -- A block starts with no names of its own, so the visible names are those outside of it.
    cases elseBlock with
    | none =>
      obtain ⟨after, hrun⟩ := hthen [] (top :: rest) hnodup hblocks
      refine (Coincide.value I cond).bind fun v => ?_
      split
      · exact hrun.inBlock
      · exact .pure ()
    | some elseBlock =>
      obtain ⟨after, hrun⟩ := hthen [] (top :: rest) hnodup hblocks.1
      obtain ⟨after', hrun'⟩ := helse elseBlock rfl [] (top :: rest) hnodup hblocks.2
      refine (Coincide.value I cond).bind fun v => ?_
      split
      · exact hrun.inBlock
      · exact hrun'.inBlock
  case function =>
    intro signature body _ top rest _ _
    exact .pure ()
  case ret =>
    intro value top rest _ _
    exact .pure ()
  case nil =>
    intro top rest _ _
    exact ⟨top, .pure ()⟩
  case cons =>
    intro s block hs hblock top rest hnodup h
    -- The names that the statement introduces are new, so they are still pairwise different.
    obtain ⟨after, hrun⟩ := hblock (s.introduced ++ top) rest
      (by rw [List.append_assoc]; exact h.1.nodup hnodup)
      (by rw [List.append_assoc]; exact h.2)
    exact ⟨after, (hs top rest hnodup h.1).bind fun _ => hrun⟩

/-- A program without shadowing ends in shared memory as in separate memory. -/
theorem Scoped.outcome_shared (I : Interpretation V) {program : List Stmt}
    (h : Stmt.UnshadowedAll [] program) (input : List V) :
    Scoped.outcome .shared I program input = Scoped.outcome .separate I program input := by
  obtain ⟨after, hrun⟩ := (Stmt.coincide_all I).2 program [] [] List.nodup_nil h
  unfold Scoped.outcome
  rw [hrun.run_eq (Scoped.World.initial input) rfl]

end Brew
