import Brew.Proofs.Scope.Frame
import Brew.Proofs.Scope.Simulation

/-!
# Checking below older declarations

A program that passes the check passes it also behind other declarations, as long as it declares
none of their names again.  Older names at the bottom of the global scope change nothing for the
names that already have a meaning: the chain of scopes is searched from the inside out, and each
table from its newest entry.  The inner scopes may declare whatever they like.

If the program does declare an older name again, the first time it does so is where the check
stops.

## Main definitions

* `Scopes.Extends`: a chain of scopes with older names at the bottom of its global scope
* `CheckM.Carries`: what a part of the walk passes, it passes also above older names
* `CheckM.Clashes`: above older names, a part of the walk stops at the redeclaration of one
* `declaredNames`: the names that a block declares in its own scope

## Main results

* `Stmt.carries_all`: a block passes above older names unless it redeclares one globally
* `Stmt.clashes_all`: the first global redeclaration stops the check
* `check_append`: the check of joined programs
-/

namespace Brew

variable {older : Table} {name : String} {n : Nat}

/-! ## Chains with older names -/

/-- **A chain of scopes with older names at the bottom of its global scope**, which lies `n` scopes
further out. -/
inductive Scopes.Extends (older : Table) : Nat → Scopes → Scopes → Prop where
  | global {table : Table} : Extends older 0 ⟨table, []⟩ ⟨table ++ older, []⟩
  | inner {n : Nat} {table : Table} {s s' : Scopes} : Extends older n s s' →
      Extends older (n + 1) ⟨table, s.innermost :: s.enclosing⟩
        ⟨table, s'.innermost :: s'.enclosing⟩

namespace Scopes.Extends

variable {s s' t : Scopes} {symbol : Symbol}

/-- A meaning is not changed by older names. -/
theorem find? (h : Extends older n s s') (hfind : s.find? name = some symbol) :
    s'.find? name = some symbol := by
  induction h with
  | global =>
    unfold Scopes.find? at hfind ⊢
    rw [List.findSome?_singleton] at hfind ⊢
    rw [List.lookup_append, hfind, Option.some_or]
  | @inner n table s s' _ ih =>
    unfold Scopes.find? at hfind ih ⊢
    rw [List.findSome?_cons] at hfind ⊢
    cases hname : table.lookup name with
    | some other => rwa [hname] at hfind
    | none =>
      rw [hname] at hfind
      exact ih hfind

theorem enter (h : Extends older n s s') : Extends older (n + 1) s.enter s'.enter := .inner h

theorem leave (h : Extends older (n + 1) s s') : Extends older n s.leave s'.leave := by
  cases h with
  | inner h => exact h

/-- A name that is no older one can be declared as before; in an inner scope, so can any name. -/
theorem define (h : Extends older n s s') (hname : n = 0 → older.lookup name = none)
    (hdefine : s.define name symbol = some t) :
    ∃ t', s'.define name symbol = some t' ∧ Extends older n t t' := by
  obtain ⟨hnone, rfl⟩ := define_eq_some_iff.mp hdefine
  cases h with
  | @global table =>
    refine ⟨_, define_eq_some_iff.mpr ⟨?_, rfl⟩, .global⟩
    dsimp only at hnone ⊢
    rw [List.lookup_append, hnone, hname rfl, Option.none_or]
  | inner h => exact ⟨_, define_eq_some_iff.mpr ⟨hnone, rfl⟩, .inner h⟩

/-- An older name cannot be declared again in the global scope. -/
theorem define_eq_none (h : Extends older 0 s s') (hname : older.lookup name ≠ none) :
    s'.define name symbol = none := by
  cases h with
  | @global table =>
    rw [define_eq_none_iff, ← Option.ne_none_iff_exists']
    dsimp only
    rw [List.lookup_append]
    cases table.lookup name with
    | none => exact hname
    | some other => exact Option.some_ne_none other

end Scopes.Extends

/-- The checker above older names. -/
structure Checker.Extends (older : Table) (n : Nat) (c c' : Checker) : Prop where
  scopes : c.scopes.Extends older n c'.scopes
  depth_eq : c'.functionDepth = c.functionDepth

/-! ## Parts of the walk -/

namespace CheckM

/-- **What a part of the walk passes, it passes also above older names**, and the checker is above
them afterwards as well. -/
def Carries (older : Table) (n : Nat) (x : CheckM Unit) : Prop :=
  ∀ ⦃c c' d : Checker⦄, c.Extends older n c' → x.run c = .ok () d →
    ∃ d', x.run c' = .ok () d' ∧ d.Extends older n d'

theorem carries_iff_simulates {x : CheckM Unit} :
    x.Carries older n ↔ Simulates (Scopes.Extends older n) x x := by
  have hrelated : ∀ c c' : Checker,
      c.Extends older n c' ↔ c.Related (Scopes.Extends older n) c' := fun _ _ =>
    ⟨fun h => ⟨h.scopes, h.depth_eq⟩, fun h => ⟨h.scopes, h.depth_eq⟩⟩
  simp only [Carries, Simulates, hrelated]

namespace Carries

variable {x y : CheckM Unit}

theorem pure : Carries older n (Pure.pure ()) := carries_iff_simulates.mpr .pure

/-- Two parts of the walk, one after the other. -/
theorem bind (hx : x.Carries older n) (hy : y.Carries older n) :
    Carries older n (x >>= fun _ => y) :=
  carries_iff_simulates.mpr ((carries_iff_simulates.mp hx).bind (carries_iff_simulates.mp hy))

/-- Something is done for each member of a list. -/
theorem forM {α : Type} {f : α → CheckM Unit} (l : List α) (h : ∀ a, (f a).Carries older n) :
    Carries older n (l.forM f) :=
  carries_iff_simulates.mpr (.forM l fun a => carries_iff_simulates.mp (h a))

theorem declare (symbol : Symbol) (hname : n = 0 → older.lookup name = none) :
    Carries older n (CheckM.declare name symbol) :=
  carries_iff_simulates.mpr (.declare fun _ _ _ h hdefine => h.define hname hdefine)

theorem resolve (name : String) : Carries older n (CheckM.resolve name) :=
  carries_iff_simulates.mpr (.resolve fun _ _ _ h hfind _ => h.find? hfind)

theorem requireFunction : Carries older n CheckM.requireFunction :=
  carries_iff_simulates.mpr .requireFunction

/-- A part of the walk inside a new scope. -/
theorem inScope (h : x.Carries older (n + 1)) : Carries older n (CheckM.inScope x) :=
  carries_iff_simulates.mpr ((carries_iff_simulates.mp h).inScope
    (fun _ _ hs => hs.enter) fun _ _ hs => hs.leave)

/-- A part of the walk inside one more function. -/
theorem inFunction (h : x.Carries older n) : Carries older n (CheckM.inFunction x) :=
  carries_iff_simulates.mpr (carries_iff_simulates.mp h).inFunction

end Carries

/-- A part of the walk passes, but above older names it stops at the redeclaration of one. -/
def Clashes (older : Table) (name : String) (x : CheckM Unit) : Prop :=
  ∀ ⦃c c' d : Checker⦄, c.Extends older 0 c' → x.run c = .ok () d →
    ∃ d', x.run c' = .error (.duplicate name) d'

namespace Clashes

variable {x y : CheckM Unit}

theorem declare (symbol : Symbol) (hname : older.lookup name ≠ none) :
    Clashes older name (CheckM.declare name symbol) := by
  intro c c' d h hrun
  refine ⟨c', ?_⟩
  rw [run_declare, h.scopes.define_eq_none hname]

theorem left (hx : x.Clashes older name) (y : CheckM Unit) :
    Clashes older name (x >>= fun _ => y) := by
  intro c c' d h hrun
  obtain ⟨e, hfirst, -⟩ := run_bind_eq_ok_iff.mp hrun
  obtain ⟨e', hstop⟩ := hx h hfirst
  refine ⟨e', ?_⟩
  rw [EStateM.run_bind, hstop]

theorem right (hx : x.Carries older 0) (hy : y.Clashes older name) :
    Clashes older name (x >>= fun _ => y) := by
  intro c c' d h hrun
  obtain ⟨e, hfirst, hsecond⟩ := run_bind_eq_ok_iff.mp hrun
  obtain ⟨e', hfirst', he⟩ := hx h hfirst
  obtain ⟨d', hstop⟩ := hy he hsecond
  refine ⟨d', ?_⟩
  rw [EStateM.run_bind, hfirst']
  exact hstop

end Clashes

end CheckM

/-! ## Statements -/

open CheckM (Carries Clashes)

/-- The names that a block declares in its own scope, in order. -/
def declaredNames (block : List Stmt) : List String :=
  (block.filterMap Stmt.binding?).map Prod.fst

theorem declaredNames_cons (s : Stmt) (rest : List Stmt) :
    declaredNames (s :: rest) = (s.binding?.map Prod.fst).toList ++ declaredNames rest := by
  cases h : s.binding? <;> simp [declaredNames, h]

theorem Expr.carries (e : Expr) : Carries older n e.check := Carries.forM e.names Carries.resolve

/-- **A statement passes above older names unless it redeclares one globally**, and so does a
block. -/
theorem Stmt.carries_all :
    (∀ (s : Stmt) (n : Nat),
      (n = 0 → ∀ binding ∈ s.binding?, older.lookup binding.1 = none) →
        Carries older n s.check) ∧
    ∀ (block : List Stmt) (n : Nat),
      (n = 0 → ∀ name ∈ declaredNames block, older.lookup name = none) →
        Carries older n (Stmt.checkAll block) := by
  apply Stmt.block_induction
  case declare =>
    intro type name value n hname
    have hdeclare := Carries.declare ⟨type, .stored⟩ fun hn => hname hn _ rfl
    cases value with
    | none => exact hdeclare
    | some e => exact e.carries.bind hdeclare
  case assign =>
    intro name e n _
    exact (Carries.resolve name).bind e.carries
  case print =>
    intro what n _
    cases what with
    | text content => exact .pure
    | value e => exact e.carries
  case scan =>
    intro name n _
    exact .resolve name
  case branch =>
    intro cond thenBlock elseBlock hthen helse n _
    -- The blocks stand in scopes of their own, where nothing is forbidden.
    have hthen' := (hthen (n + 1) fun hn => nomatch hn).inScope
    cases elseBlock with
    | none => exact cond.carries.bind hthen'
    | some elseBlock =>
      have helse' := (helse elseBlock rfl (n + 1) fun hn => nomatch hn).inScope
      exact cond.carries.bind (hthen'.bind helse')
  case function =>
    intro signature body hbody n hname
    have hparams : Carries older (n + 1) (CheckM.declareAll signature.bindings) :=
      Carries.forM _ fun binding => .declare binding.2 fun hn => nomatch hn
    have hinner := (hparams.bind (hbody (n + 1) fun hn => nomatch hn)).inScope.inFunction
    exact (Carries.declare _ fun hn => hname hn _ rfl).bind hinner
  case ret =>
    intro value n _
    cases value with
    | none => exact .requireFunction
    | some e => exact Carries.requireFunction.bind e.carries
  case nil =>
    intro n _
    exact .pure
  case cons =>
    intro s rest hs hrest n hnames
    simp only [declaredNames_cons, List.forall_mem_append, Option.mem_toList] at hnames
    refine (hs n fun hn binding hbinding => ?_).bind (hrest n fun hn => (hnames hn).2)
    exact (hnames hn).1 _ (Option.mem_map_of_mem Prod.fst hbinding)

/-- A statement that declares an older name again stops there. -/
theorem Stmt.clashes {s : Stmt} {binding : String × Symbol} (hs : s.binding? = some binding)
    (hname : older.lookup binding.1 ≠ none) : Clashes older binding.1 s.check := by
  cases s with
  | declare type name value =>
    cases hs
    cases value with
    | none => exact .declare _ hname
    | some e => exact .right e.carries (.declare _ hname)
  | function signature body =>
    cases hs
    exact .left (.declare _ hname) _
  | assign | print | scan | branch | ret => exact nomatch hs

/-- **The first global redeclaration of an older name stops the check.** -/
theorem Stmt.clashes_all {block : List Stmt} {before after : List String}
    (hnames : declaredNames block = before ++ name :: after)
    (hbefore : ∀ other ∈ before, older.lookup other = none) (hname : older.lookup name ≠ none) :
    Clashes older name (Stmt.checkAll block) := by
  induction block generalizing before with
  | nil =>
    have hne : before ++ name :: after ≠ [] :=
      List.append_ne_nil_of_right_ne_nil before (List.cons_ne_nil name after)
    exact absurd hnames.symm hne
  | cons s rest ih =>
    rw [declaredNames_cons] at hnames
    cases hs : s.binding? with
    | none =>
      rw [hs] at hnames
      refine .right (Stmt.carries_all.1 s 0 ?_) (ih hnames hbefore)
      rw [hs]
      exact fun _ _ h => nomatch h
    | some binding =>
      rw [hs, Option.map_some, Option.toList_some, List.singleton_append] at hnames
      cases before with
      | nil =>
        obtain ⟨rfl, -⟩ := List.cons.inj hnames
        exact .left (Stmt.clashes hs hname) _
      | cons other before =>
        -- The statement declares another name, so it passes.
        obtain ⟨rfl, hrest⟩ := List.cons.inj hnames
        obtain ⟨hother, hbefore⟩ := List.forall_mem_cons.mp hbefore
        refine .right (Stmt.carries_all.1 s 0 ?_) (ih hrest hbefore)
        rw [hs]
        rintro _ _ ⟨⟩
        exact hother

/-! ## Programs -/

theorem lookup_eq_none_iff_not_mem_declaredNames {program : List Stmt} :
    (program.filterMap Stmt.binding?).reverse.lookup name = none ↔
      name ∉ declaredNames program := by
  rw [List.lookup_eq_none_iff, declaredNames, List.mem_map]
  simp only [List.mem_reverse, bne_iff_ne]
  constructor
  · rintro h ⟨binding, hbinding, rfl⟩
    exact h binding hbinding rfl
  · intro h binding hbinding heq
    exact h ⟨binding, hbinding, heq.symm⟩

/-- A program that passes leaves the names it declares in the global scope, and nothing else. -/
theorem extends_of_run_eq_ok {program : List Stmt} {c : Checker}
    (h : (Stmt.checkAll program).run Checker.initial = .ok () c) :
    Checker.Extends (program.filterMap Stmt.binding?).reverse 0 Checker.initial c := by
  have hgrown := Stmt.adds_all.2 program Checker.initial
  rw [h] at hgrown
  have hscopes : c.scopes = ⟨(program.filterMap Stmt.binding?).reverse ++ [], []⟩ :=
    hgrown.scopes_eq
  refine ⟨?_, hgrown.depth_eq⟩
  rw [hscopes, List.append_nil]
  exact .global

/-- **The check of joined programs** that pass alone: the second one passes behind the first, unless
it declares a name again, and then the first such name is reported. -/
theorem check_append {xs ys : List Stmt} (hxs : check xs = .ok ()) (hys : check ys = .ok ()) :
    check (xs ++ ys) =
      match (declaredNames ys).find? (· ∈ declaredNames xs) with
      | none => .ok ()
      | some name => .error (.duplicate name) := by
  obtain ⟨c, hc⟩ := check_eq_ok_iff_run.mp hxs
  obtain ⟨d, hd⟩ := check_eq_ok_iff_run.mp hys
  have hextends := extends_of_run_eq_ok hc
  have hmem : ∀ name, (xs.filterMap Stmt.binding?).reverse.lookup name = none ↔
      name ∉ declaredNames xs := fun _ => lookup_eq_none_iff_not_mem_declaredNames
  have hrun := Stmt.run_checkAll_append xs ys Checker.initial
  rw [hc] at hrun
  dsimp only at hrun
  split
  case h_1 hnone =>
    have hfree : ∀ name ∈ declaredNames ys, name ∉ declaredNames xs := by simpa using hnone
    have hcarries := Stmt.carries_all.2 ys 0 fun _ name hname => (hmem name).mpr (hfree name hname)
    obtain ⟨d', hd', -⟩ := hcarries hextends hd
    rw [check, hrun, hd']
  case h_2 name hsome =>
    obtain ⟨hname, before, after, hnames, hbefore⟩ := List.find?_eq_some_iff_append.mp hsome
    have hfree : ∀ other ∈ before, other ∉ declaredNames xs := by simpa using hbefore
    have htaken : ¬ name ∉ declaredNames xs := by simpa using hname
    have hclashes := Stmt.clashes_all hnames
      (fun other hother => (hmem other).mpr (hfree other hother)) (mt (hmem name).mp htaken)
    obtain ⟨d', hd'⟩ := hclashes hextends hd
    rw [check, hrun, hd']

end Brew
