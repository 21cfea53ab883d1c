import Brew.Proofs.Semantics.Lowering
import Brew.Proofs.Semantics.Unshadowed
import Brew.Scope.Check

/-!
# Scopes and the flat store

The code of a program keeps one value for each name.  Blocks may have variables of one name at the
same time, an inner one that shadows an outer one, and then the code mixes them up: what it stores
for the inner variable is what it reads for the outer one when the inner block has ended.

The run in shared memory tells when this matters.  It takes the value of a variable away as soon as
another variable of the same name is given one, so a value that is still there is the value of the
flat store.  The three runs, in separate memory, in shared memory and on the flat store, go in
lockstep until the one in shared memory reads a variable that has lost its value.

## Main definitions

* `Scoped.Tracks`: what shared memory still holds is held by separate memory and by the store
* `Scoped.Lockstep`: three runs that agree until the second one reads a variable without a value

## Main results

* `Stmt.lockstep_all`: statements and blocks run in lockstep
* `output_lower_eq_output_scoped`: the code prints what the program with scopes prints, up to the
  first read of a lost value
* `output_lower_shadowed`: with such a read it may print something else
-/

namespace Brew

variable {V : Type}

namespace Scoped

/-! ## Memory -/

/-- A variable of separate memory and the same variable of shared memory: a value that the second
one holds is held by the first one and by the store. -/
def Tracked (store : String → V) (kept held : String × Option V) : Prop :=
  kept.1 = held.1 ∧ ∀ v, held.2 = some v → kept.2 = some v ∧ store held.1 = v

/-- **Tracking.**  Separate and shared memory have the same variables, and every value that shared
memory still holds is the value that the store has under this name. -/
def Tracks (store : String → V) : List (Block V) → List (Block V) → Prop :=
  List.Forall₂ (List.Forall₂ (Tracked store))

section Memory

variable {store : String → V} {name : String} {v : V}

theorem Tracked.refl_of_store (h : store name = v) :
    Tracked store (name, some v) (name, some v) := by
  refine ⟨rfl, fun u hu => ⟨hu, ?_⟩⟩
  rw [h]
  exact Option.some.inj hu

theorem Tracked.unset (store : String → V) (name : String) :
    Tracked store (name, none) (name, none) := ⟨rfl, fun _ h => nomatch h⟩

/-- Tracked blocks have variables of the same names, which are tracked. -/
theorem lookup_tracked {block block' : Block V} (h : List.Forall₂ (Tracked store) block block')
    (name : String) :
    block.lookup name = none ∧ block'.lookup name = none ∨
      ∃ kept held, block.lookup name = some kept ∧ block'.lookup name = some held ∧
        Tracked store (name, kept) (name, held) := by
  induction h with
  | nil => exact .inl ⟨rfl, rfl⟩
  | @cons entry entry' _ _ hentry hrest ih =>
    obtain ⟨key, kept⟩ := entry
    obtain ⟨key', held⟩ := entry'
    obtain rfl : key = key' := hentry.1
    rw [List.lookup_cons, List.lookup_cons]
    by_cases hname : name = key
    · subst hname
      rw [beq_self_eq_true]
      exact .inr ⟨kept, held, rfl, rfl, hentry⟩
    · rw [beq_eq_false_iff_ne.2 hname]
      exact ih

/-- A name for which shared memory holds a value stands for this value everywhere. -/
theorem Tracks.find? {kept held : List (Block V)} (h : Tracks store kept held)
    (hheld : Scoped.find? held name = some v) :
    Scoped.find? kept name = some v ∧ store name = v := by
  induction h with
  | nil => exact nomatch hheld
  | cons hblock hrest ih =>
    unfold Scoped.find? at hheld ih ⊢
    rw [List.findSome?_cons] at hheld ⊢
    rcases lookup_tracked hblock name with ⟨hkept, hnone⟩ | ⟨u, u', hkept, hsome, htracked⟩
    · rw [hnone] at hheld
      rw [hkept]
      exact ih hheld
    · rw [hsome] at hheld
      rw [hkept]
      exact htracked.2 v hheld

/-- A value stored under a name leaves the other names alone, and what shared memory held under
this name is gone. -/
theorem Tracked.release {kept held : String × Option V} {w : Brew.World V}
    (h : Tracked w.store kept held) :
    Tracked (w.write name v).store kept (if held.1 = name then (name, none) else held) := by
  obtain ⟨hname, hvalue⟩ := h
  by_cases hheld : held.1 = name
  · -- The variable has lost its value, and there is nothing left to track.
    rw [if_pos hheld]
    exact ⟨hname.trans hheld, fun _ hu => nomatch hu⟩
  · rw [if_neg hheld]
    refine ⟨hname, fun u hu => ?_⟩
    rw [World.store_write_of_ne w hheld]
    exact hvalue u hu

theorem Tracks.release {kept held : List (Block V)} {w : Brew.World V}
    (h : Tracks w.store kept held) :
    Tracks (w.write name v).store (Memory.release .separate kept name)
      (Memory.release .shared held name) := by
  refine List.forall₂_map_right_iff.2 (h.imp fun block block' hblock => ?_)
  exact List.forall₂_map_right_iff.2 (hblock.imp fun entry entry' hentry => hentry.release)

/-- A new variable. -/
theorem Tracks.declare {kept held : List (Block V)} (h : Tracks store kept held)
    {value : Option V} (hentry : Tracked store (name, value) (name, value)) :
    Tracks store (Scoped.declare kept name value) (Scoped.declare held name value) := by
  cases h with
  | nil => exact .cons (.cons hentry .nil) .nil
  | cons hblock hrest => exact .cons (.cons hentry hblock) hrest

/-- A new value for a variable, in both memories and in the store. -/
theorem Tracks.set {kept held : List (Block V)} (h : Tracks store kept held)
    (hstore : store name = v) : Tracks store (Scoped.set kept name v) (Scoped.set held name v) := by
  -- Both blocks have the name at the same place.
  have hset : ∀ {block block' : Block V}, List.Forall₂ (Tracked store) block block' →
      List.Forall₂ (Tracked store) (block.set name v) (block'.set name v) := by
    intro block block' hblock
    induction hblock with
    | nil => exact .nil
    | cons hentry hrest ih =>
      rw [Block.set, Block.set, hentry.1]
      split
      · exact .cons (.refl_of_store hstore) hrest
      · exact .cons hentry ih
  induction h with
  | nil => exact .nil
  | cons hblock hrest ih =>
    rw [Scoped.set, Scoped.set]
    rcases lookup_tracked hblock name with ⟨hkept, hheld⟩ | ⟨u, u', hkept, hheld, -⟩
    · rw [hkept, hheld]
      exact .cons hblock ih
    · rw [hkept, hheld]
      exact .cons (hset hblock) hrest

end Memory

/-! ## Expressions -/

/-- An expression has the same value in separate memory, in shared memory and on the store, or
fails in all three, or reads a variable of which shared memory has no value. -/
theorem eval_tracks (I : Interpretation V) {store : String → V} {kept held : List (Block V)}
    (h : Tracks store kept held) (e : Expr) :
    (∃ name, eval I held e = .error (.unset name)) ∨
    (∃ v, eval I held e = .ok v ∧ eval I kept e = .ok v ∧ e.eval I store = some v) ∨
    (eval I held e = .error (.failed .operator) ∧ eval I kept e = .error (.failed .operator) ∧
      e.eval I store = none) := by
  induction e with
  | number spelling => exact .inr (.inl ⟨_, rfl, rfl, rfl⟩)
  | text content => exact .inr (.inl ⟨_, rfl, rfl, rfl⟩)
  | ident name =>
    simp only [eval, Expr.eval]
    -- This is the only place where the three can come apart.
    cases hheld : Scoped.find? held name with
    | none => exact .inl ⟨name, rfl⟩
    | some v =>
      obtain ⟨hkept, hstore⟩ := h.find? hheld
      rw [hkept, hstore]
      exact .inr (.inl ⟨v, rfl, rfl, rfl⟩)
  | binary op left right ihleft ihright =>
    simp only [eval, Expr.eval]
    -- The operands are evaluated from left to right, on all three sides.
    rcases ihleft with ⟨name, hheld⟩ | ⟨a, hheld, hkept, hstore⟩ | ⟨hheld, hkept, hstore⟩
    · rw [hheld]
      exact .inl ⟨name, rfl⟩
    · rw [hheld, hkept, hstore]
      rcases ihright with ⟨name, hheld⟩ | ⟨b, hheld, hkept, hstore⟩ | ⟨hheld, hkept, hstore⟩
      · rw [hheld]
        exact .inl ⟨name, rfl⟩
      · rw [hheld, hkept, hstore]
        simp only [bind, Except.bind, Option.bind]
        cases I.apply op a b with
        | none => exact .inr (.inr ⟨rfl, rfl, rfl⟩)
        | some v => exact .inr (.inl ⟨v, rfl, rfl, rfl⟩)
      · rw [hheld, hkept, hstore]
        exact .inr (.inr ⟨rfl, rfl, rfl⟩)
    · rw [hheld, hkept, hstore]
      exact .inr (.inr ⟨rfl, rfl, rfl⟩)

/-! ## Runs that only add to the output -/

section Output

variable {ε σ α β : Type}

/-- The state in which a run ends. -/
def final : EStateM.Result ε σ α → σ
  | .ok _ s => s
  | .error _ s => s

/-- What was printed before a run stays there. -/
def Grows (output : σ → List V) (x : EStateM ε σ α) : Prop :=
  ∀ s, output s <+: output (final (x.run s))

variable {output : σ → List V}

theorem Grows.bind {x : EStateM ε σ α} {f : α → EStateM ε σ β} (hx : Grows output x)
    (hf : ∀ a, Grows output (f a)) : Grows output (x >>= f) := by
  intro s
  have hgrows := hx s
  rw [EStateM.run_bind]
  cases hrun : x.run s with
  | ok a s' =>
    rw [hrun] at hgrows
    exact hgrows.trans (hf a s')
  | error e s' =>
    rw [hrun] at hgrows
    exact hgrows

end Output

/-! ## Three runs in lockstep -/

/-- Three worlds that agree: the variables are tracked, input and output are the same. -/
structure Agrees (kept held : World V) (w : Brew.World V) : Prop where
  tracks : Tracks w.store kept.blocks held.blocks
  input : held.input = kept.input ∧ w.input = kept.input
  output : held.output = kept.output ∧ w.output = kept.output

/-- Three results that agree, or the second run has read a variable without a value and has printed
nothing that the other two have not. -/
inductive Follows {α : Type} : EStateM.Result Failure (World V) α →
    EStateM.Result Failure (World V) α → EStateM.Result Brew.Failure (Brew.World V) α → Prop
  | done {a : α} {kept held : World V} {w : Brew.World V} (h : Agrees kept held w) :
    Follows (.ok a kept) (.ok a held) (.ok a w)
  | failed {f : Brew.Failure} {kept held : World V} {w : Brew.World V} (h : Agrees kept held w) :
    Follows (.error (.failed f) kept) (.error (.failed f) held) (.error f w)
  | lost {name : String} {held : World V} {r : EStateM.Result Failure (World V) α}
    {r' : EStateM.Result Brew.Failure (Brew.World V) α} (hkept : held.output <+: (final r).output)
    (hflat : held.output <+: (final r').output) : Follows r (.error (.unset name) held) r'

/-- **Lockstep.**  A run in separate memory, the run in shared memory and the run on the store
follow each other from worlds that agree. -/
structure Lockstep {α : Type} (x y : Exec V α) (z : Brew.Exec V α) : Prop where
  grows : Grows World.output x
  growsFlat : Grows Brew.World.output z
  follows : ∀ {kept held : World V} {w : Brew.World V}, Agrees kept held w →
    Follows (x.run kept) (y.run held) (z.run w)

namespace Lockstep

variable {α β : Type}

theorem pure (a : α) :
    Lockstep (Pure.pure a : Exec V α) (Pure.pure a) (Pure.pure a : Brew.Exec V α) where
  grows _ := List.prefix_rfl
  growsFlat _ := List.prefix_rfl
  follows h := .done h

/-- Runs one after the other. -/
theorem bind {x y : Exec V α} {z : Brew.Exec V α} {f g : α → Exec V β} {k : α → Brew.Exec V β}
    (h : Lockstep x y z) (hnext : ∀ a, Lockstep (f a) (g a) (k a)) :
    Lockstep (x >>= f) (y >>= g) (z >>= k) where
  grows := h.grows.bind fun a => (hnext a).grows
  growsFlat := h.growsFlat.bind fun a => (hnext a).growsFlat
  follows := by
    intro kept held w hagrees
    rw [EStateM.run_bind, EStateM.run_bind, EStateM.run_bind]
    have hfollows := h.follows hagrees
    generalize x.run kept = r, y.run held = s, z.run w = t at hfollows
    cases hfollows with
    | done hagrees' => exact (hnext _).follows hagrees'
    | failed hagrees' => exact .failed hagrees'
    | lost hkept hflat =>
      -- The other two runs may go on, but they never take back what they have printed.
      refine .lost (hkept.trans ?_) (hflat.trans ?_)
      · cases r with
        | ok a kept' => exact (hnext a).grows kept'
        | error failure kept' => exact List.prefix_rfl
      · cases t with
        | ok a w' => exact (hnext a).growsFlat w'
        | error failure w' => exact List.prefix_rfl

theorem value (I : Interpretation V) (e : Expr) :
    Lockstep (Exec.value I e) (Exec.value I e) (Brew.Exec.value I e) where
  grows kept := by
    simp only [Exec.value, EStateM.run]
    cases eval I kept.blocks e <;> exact List.prefix_rfl
  growsFlat w := by
    simp only [Brew.Exec.value, EStateM.run]
    cases e.eval I w.store <;> exact List.prefix_rfl
  follows {kept held w} h := by
    simp only [Exec.value, Brew.Exec.value, EStateM.run]
    rcases eval_tracks I h.tracks e with ⟨name, hheld⟩ | ⟨v, hheld, hkept, hflat⟩ |
      ⟨hheld, hkept, hflat⟩
    · -- Evaluation prints nothing, so the outputs are still the same.
      rw [hheld]
      refine .lost ?_ ?_
      · rw [h.output.1]
        cases eval I kept.blocks e <;> exact List.prefix_rfl
      · rw [h.output.1, ← h.output.2]
        cases e.eval I w.store <;> exact List.prefix_rfl
    · rw [hheld, hkept, hflat]
      exact .done h
    · rw [hheld, hkept, hflat]
      exact .failed h

theorem receive : Lockstep (V := V) Exec.receive Exec.receive Brew.Exec.receive where
  grows kept := by
    simp only [Exec.receive, EStateM.run]
    cases kept.input <;> exact List.prefix_rfl
  growsFlat w := by
    simp only [Brew.Exec.receive, EStateM.run]
    cases w.input <;> exact List.prefix_rfl
  follows {kept held w} h := by
    simp only [Exec.receive, Brew.Exec.receive, EStateM.run]
    rw [h.input.1, h.input.2]
    cases kept.input with
    | nil => exact .failed h
    | cons v rest => exact .done ⟨h.tracks, ⟨rfl, rfl⟩, h.output⟩

theorem print (v : V) : Lockstep (Exec.print v) (Exec.print v) (Brew.Exec.print v) where
  grows kept := List.prefix_append kept.output [v]
  growsFlat w := List.prefix_append w.output [v]
  follows h := by
    refine .done ⟨h.tracks, h.input, ?_, ?_⟩
    · exact congrArg (· ++ [v]) h.output.1
    · exact congrArg (· ++ [v]) h.output.2

/-- A change of the variables that keeps them tracked. -/
theorem onBlocks {f g : List (Block V) → List (Block V)} (next : Brew.World V → Brew.World V)
    (houtput : ∀ w, (next w).output = w.output) (hinput : ∀ w, (next w).input = w.input)
    (htracks : ∀ {kept held : List (Block V)} {w : Brew.World V}, Tracks w.store kept held →
      Tracks (next w).store (f kept) (g held)) :
    Lockstep (Exec.onBlocks f) (Exec.onBlocks g) (fun w => .ok () (next w)) where
  grows _ := List.prefix_rfl
  growsFlat w := ⟨[], (List.append_nil _).trans (houtput w).symm⟩
  follows {kept held w} h := by
    refine .done ⟨htracks h.tracks, ⟨h.input.1, ?_⟩, ⟨h.output.1, ?_⟩⟩
    · exact (hinput w).trans h.input.2
    · exact (houtput w).trans h.output.2

theorem introduce (name : String) (v : V) : Lockstep (Exec.introduce .separate name v)
    (Exec.introduce .shared name v) (Brew.Exec.write name v) :=
  onBlocks (·.write name v) (fun _ => rfl) (fun _ => rfl) fun {_ _ w} h =>
    h.release.declare (.refl_of_store (w.store_write_self name v))

theorem assign (name : String) (v : V) : Lockstep (Exec.assign .separate name v)
    (Exec.assign .shared name v) (Brew.Exec.write name v) :=
  onBlocks (·.write name v) (fun _ => rfl) (fun _ => rfl) fun {_ _ w} h =>
    h.release.set (w.store_write_self name v)

theorem inBlock {x y : Exec V Unit} {z : Brew.Exec V Unit} (h : Lockstep x y z) :
    Lockstep (Exec.inBlock x) (Exec.inBlock y) z := by
  have henter : Lockstep (V := V) (Exec.onBlocks ([] :: ·)) (Exec.onBlocks ([] :: ·))
      (Pure.pure ()) :=
    onBlocks id (fun _ => rfl) (fun _ => rfl) fun htracks => .cons .nil htracks
  have hleave : Lockstep (V := V) (Exec.onBlocks List.tail) (Exec.onBlocks List.tail)
      (Pure.pure ()) :=
    onBlocks id (fun _ => rfl) (fun _ => rfl) fun htracks => by
      cases htracks with
      | nil => exact .nil
      | cons _ hrest => exact hrest
  -- On the flat store a block is entered and left without a trace.
  have hblock := henter.bind fun _ => h.bind fun _ => hleave
  rwa [pure_bind, bind_pure_unit] at hblock

end Lockstep

end Scoped

/-! ## Statements -/

open Scoped (Lockstep)

/-- **The three runs of a statement go in lockstep**, and so do the three runs of a block. -/
theorem Stmt.lockstep_all (I : Interpretation V) :
    (∀ s : Stmt, Lockstep (s.execScoped .separate I) (s.execScoped .shared I) (s.exec I)) ∧
    ∀ block : List Stmt, Lockstep (Stmt.execAllScoped .separate I block)
      (Stmt.execAllScoped .shared I block) (Stmt.execAll I block) := by
  apply Stmt.block_induction
  case declare =>
    intro type name value
    cases value with
    | none => exact .onBlocks id (fun _ => rfl) (fun _ => rfl) fun h => h.declare (.unset _ name)
    | some e => exact (Lockstep.value I e).bind fun v => .introduce name v
  case assign =>
    intro name e
    exact (Lockstep.value I e).bind fun v => .assign name v
  case print =>
    intro what
    cases what with
    | text content => exact .print (I.text content)
    | value e => exact (Lockstep.value I e).bind fun v => .print v
  case scan =>
    intro name
    exact Lockstep.receive.bind fun v => .assign name v
  case branch =>
    intro cond thenBlock elseBlock hthen helse
    cases elseBlock with
    | none =>
      refine (Lockstep.value I cond).bind fun v => ?_
      split
      · exact hthen.inBlock
      · exact .pure ()
    | some elseBlock =>
      refine (Lockstep.value I cond).bind fun v => ?_
      split
      · exact hthen.inBlock
      · exact (helse elseBlock rfl).inBlock
  case function =>
    intro signature body _
    exact .pure ()
  case ret =>
    intro value
    exact .pure ()
  case nil => exact .pure ()
  case cons =>
    intro s rest hs hrest
    exact hs.bind fun _ => hrest

/-! ## Programs -/

theorem Scoped.agrees_initial (store : String → V) (input : List V) :
    Scoped.Agrees (.initial input) (.initial input) ⟨store, input, []⟩ :=
  ⟨.cons .nil .nil, ⟨rfl, rfl⟩, ⟨rfl, rfl⟩⟩

/-- The three runs of a program, from their start to their ends. -/
theorem Scoped.outcome_follows (I : Interpretation V) (program : List Stmt) (store : String → V)
    (input : List V) :
    (Scoped.outcome .shared I program input).1.output <+:
        (Exec.outcome (Stmt.execAll I program) ⟨store, input, []⟩).1.output ∧
      (Scoped.outcome .shared I program input).1.output <+:
        (Scoped.outcome .separate I program input).1.output ∧
      (Scoped.Initialized .shared I program input →
        (Exec.outcome (Stmt.execAll I program) ⟨store, input, []⟩).1.output =
          (Scoped.outcome .separate I program input).1.output ∧
        (Exec.outcome (Stmt.execAll I program) ⟨store, input, []⟩).1.input =
          (Scoped.outcome .separate I program input).1.input ∧
        (Exec.outcome (Stmt.execAll I program) ⟨store, input, []⟩).2.map .failed =
          (Scoped.outcome .separate I program input).2) := by
  have hfollows := ((Stmt.lockstep_all I).2 program).follows (Scoped.agrees_initial store input)
  unfold Scoped.Initialized Scoped.outcome Exec.outcome
  -- From here on only the results of the three runs matter.
  generalize (Stmt.execAllScoped .separate I program).run _ = r,
    (Stmt.execAllScoped .shared I program).run _ = s,
    (Stmt.execAll I program).run _ = t at hfollows ⊢
  cases hfollows with
  | done h =>
    obtain ⟨hheld, hflat⟩ := h.output
    rw [hheld, hflat]
    exact ⟨List.prefix_rfl, List.prefix_rfl, fun _ => ⟨rfl, h.input.2, rfl⟩⟩
  | failed h =>
    obtain ⟨hheld, hflat⟩ := h.output
    rw [hheld, hflat]
    exact ⟨List.prefix_rfl, List.prefix_rfl, fun _ => ⟨rfl, h.input.2, rfl⟩⟩
  | @lost name held _ _ hkept hflat =>
    refine ⟨?_, ?_, fun hinit => absurd rfl (hinit name)⟩
    · cases t <;> exact hflat
    · cases r <;> exact hkept

/-- **Scopes are respected as long as names are not mixed up.**  The code of a program halts.  What
it prints and what the program with scopes prints both start with what is printed before the first
read of a variable that has no value, or whose value was lost to another variable of its name.  If
there is no such read, in particular if no variable is read without a value and the program has no
shadowing, then the code prints what the program with scopes prints, leaves the same input, and ends
normally or with the same failure. -/
theorem output_lower_eq_output_scoped (I : Interpretation V) (program : List Stmt)
    (store : String → V) (input : List V) :
    ∃ w failure, Machine.Halts I (lower program) ⟨store, input, []⟩ w failure ∧
      (Scoped.outcome .shared I program input).1.output <+: w.output ∧
      (Scoped.outcome .shared I program input).1.output <+:
        (Scoped.outcome .separate I program input).1.output ∧
      (Scoped.Initialized .shared I program input ∨
          Stmt.UnshadowedAll [] program ∧ Scoped.Initialized .separate I program input →
        w.output = (Scoped.outcome .separate I program input).1.output ∧
        w.input = (Scoped.outcome .separate I program input).1.input ∧
        failure.map .failed = (Scoped.outcome .separate I program input).2) := by
  have hinitialized : Scoped.Initialized .shared I program input ∨
      Stmt.UnshadowedAll [] program ∧ Scoped.Initialized .separate I program input →
      Scoped.Initialized .shared I program input := by
    rintro (h | ⟨hunshadowed, h⟩)
    · exact h
    · -- Without shadowing, both memories end in the same way.
      unfold Scoped.Initialized at h ⊢
      rwa [Scoped.outcome_shared I hunshadowed]
  refine ⟨_, _, halts_lower I program ⟨store, input, []⟩, ?_⟩
  obtain ⟨hflat, hkept, hsame⟩ := Scoped.outcome_follows I program store input
  exact ⟨hflat, hkept, fun h => hsame (hinitialized h)⟩

/-- Numbers and texts stand for themselves, operators have no results, and everything is true. -/
def Interpretation.literal : Interpretation String := ⟨id, id, fun _ _ _ => none, fun _ => true⟩

/-- A variable is given a value, a variable of its name in an inner block is given another one and
printed, and the outer one is given a third value and printed. -/
def reassigned : List Stmt :=
  [.declare .int "wtl_x" (some (.number "1")),
    .branch (.number "1")
      [.declare .int "wtl_x" (some (.number "2")), .print (.value (.ident "wtl_x"))] none,
    .assign "wtl_x" (.number "3"),
    .print (.value (.ident "wtl_x"))]

/-- Shadowing does no harm when the outer variable is given a new value before it is read. -/
theorem output_lower_reassigned :
    Scoped.Initialized .shared .literal reassigned [] ∧
      ∃ w failure, Machine.Halts .literal (lower reassigned) ⟨fun _ => "", [], []⟩ w failure ∧
        w.output = ["2", "3"] := by
  have hinit : Scoped.Initialized .shared .literal reassigned [] := by decide
  obtain ⟨w, failure, hhalts, -, -, h⟩ :=
    output_lower_eq_output_scoped .literal reassigned (fun _ => "") []
  exact ⟨hinit, w, failure, hhalts, (h (.inl hinit)).1.trans (by decide)⟩

/-- A variable is given a value, a variable of its name in an inner block is given another one, and
the outer one is printed. -/
def shadowed : List Stmt :=
  [.declare .int "wtl_x" (some (.number "1")),
    .branch (.number "1") [.declare .int "wtl_x" (some (.number "2"))] none,
    .print (.value (.ident "wtl_x"))]

/-- **The inner variable overwrites the outer one.**  The rules about names allow the program, and
with scopes it reads no variable without a value and prints the outer value; its code prints the
inner one. -/
theorem output_lower_shadowed :
    check shadowed = .ok () ∧ Scoped.Initialized .separate .literal shadowed [] ∧
      (Scoped.outcome .separate .literal shadowed []).1.output = ["1"] ∧
      ∃ w, Machine.Halts .literal (lower shadowed) ⟨fun _ => "", [], []⟩ w none ∧
        w.output = ["2"] :=
  ⟨by decide, by decide, by decide, _, ⟨20, rfl⟩, by decide⟩

end Brew
