import Brew.Scope.Check

/-!
# Two walks side by side

Some facts about checking compare two runs: of the same statements with and without older names
below them, or of a program with and without its functions.  The chains of scopes of the two runs
stay in a **relation**, which says how the second run may differ, and the second run passes whatever
the first one passes.  This module says what the relation has to respect for each part of the walk.

## Main definitions

* `Checker.Related`: two checkers with related chains of scopes, inside as many functions
* `CheckM.Simulates`: what one part of the walk passes, another one passes from a related checker

## Main results

* `CheckM.Simulates.bind`, `CheckM.Simulates.inScope`, `CheckM.Simulates.inFunction`: walks that are
  put together
* `CheckM.Simulates.declare`, `CheckM.Simulates.resolve`: what a relation has to respect
-/

namespace Brew

/-- Two checkers with related chains of scopes, inside as many functions. -/
structure Checker.Related (R : Scopes → Scopes → Prop) (c c' : Checker) : Prop where
  scopes : R c.scopes c'.scopes
  depth_eq : c'.functionDepth = c.functionDepth

namespace CheckM

theorem run_bind_eq_ok_iff {x y : CheckM Unit} {c d : Checker} :
    (x >>= fun _ => y).run c = .ok () d ↔ ∃ e, x.run c = .ok () e ∧ y.run e = .ok () d := by
  rw [EStateM.run_bind]
  cases x.run c with
  | error v e => simp
  | ok _ e => simp

/-- **What one part of the walk passes, another one passes from a related checker**, and the two
checkers are related afterwards as well. -/
def Simulates (R : Scopes → Scopes → Prop) (x y : CheckM Unit) : Prop :=
  ∀ ⦃c c' d : Checker⦄, c.Related R c' → x.run c = .ok () d →
    ∃ d', y.run c' = .ok () d' ∧ d.Related R d'

namespace Simulates

variable {R R' : Scopes → Scopes → Prop} {x x' y y' : CheckM Unit} {name : String}

theorem pure : Simulates R (Pure.pure ()) (Pure.pure ()) := by
  rintro c c' d h ⟨⟩
  exact ⟨c', rfl, h⟩

/-- Two parts of the walk, one after the other. -/
theorem bind (hx : Simulates R x x') (hy : Simulates R y y') :
    Simulates R (x >>= fun _ => y) (x' >>= fun _ => y') := by
  intro c c' d h hrun
  obtain ⟨e, hfirst, hsecond⟩ := run_bind_eq_ok_iff.mp hrun
  obtain ⟨e', hfirst', he⟩ := hx h hfirst
  obtain ⟨d', hsecond', hd⟩ := hy he hsecond
  exact ⟨d', run_bind_eq_ok_iff.mpr ⟨e', hfirst', hsecond'⟩, hd⟩

/-- Something is done for each member of a list. -/
theorem forM {α : Type} {f : α → CheckM Unit} (l : List α) (h : ∀ a, Simulates R (f a) (f a)) :
    Simulates R (l.forM f) (l.forM f) := by
  induction l with
  | nil => exact pure
  | cons a l ih => exact (h a).bind ih

/-- A name that can be declared in the first chain can be declared in the second one. -/
theorem declare {symbol : Symbol} (h : ∀ ⦃s s' t⦄, R s s' → s.define name symbol = some t →
      ∃ t', s'.define name symbol = some t' ∧ R t t') :
    Simulates R (CheckM.declare name symbol) (CheckM.declare name symbol) := by
  intro c c' d hc hrun
  rw [run_declare] at hrun
  cases hdefine : c.scopes.define name symbol with
  | none =>
    rw [hdefine] at hrun
    exact nomatch hrun
  | some scopes =>
    rw [hdefine] at hrun
    cases hrun
    obtain ⟨scopes', hdefine', hscopes⟩ := h hc.scopes hdefine
    refine ⟨{ c' with scopes := scopes' }, ?_, hscopes, hc.depth_eq⟩
    rw [run_declare, hdefine']

/-- A name that stands for a variable or a parameter in the first chain does so in the second. -/
theorem resolve (h : ∀ ⦃s s' symbol⦄, R s s' → s.find? name = some symbol →
      symbol.kind ≠ .function → s'.find? name = some symbol) :
    Simulates R (CheckM.resolve name) (CheckM.resolve name) := by
  intro c c' d hc hrun
  rw [run_resolve] at hrun
  cases hfind : c.scopes.find? name with
  | none =>
    rw [hfind] at hrun
    exact nomatch hrun
  | some symbol =>
    rw [hfind] at hrun
    dsimp only at hrun
    by_cases hfunction : symbol.kind = .function
    · rw [if_pos hfunction] at hrun
      exact nomatch hrun
    · rw [if_neg hfunction] at hrun
      cases hrun
      refine ⟨{ c' with notes := .resolved name symbol :: c'.notes }, ?_, hc.scopes, hc.depth_eq⟩
      rw [run_resolve, h hc.scopes hfind hfunction]
      exact if_neg hfunction

theorem requireFunction : Simulates R CheckM.requireFunction CheckM.requireFunction := by
  intro c c' d h hrun
  rw [run_requireFunction] at hrun
  by_cases hdepth : c.functionDepth = 0
  · rw [if_pos hdepth] at hrun
    exact nomatch hrun
  · rw [if_neg hdepth] at hrun
    cases hrun
    refine ⟨c', ?_, h⟩
    rw [run_requireFunction, h.depth_eq, if_neg hdepth]

/-- A part of the walk inside a new scope, where another relation may hold. -/
theorem inScope (h : Simulates R' x y) (henter : ∀ ⦃s s'⦄, R s s' → R' s.enter s'.enter)
    (hleave : ∀ ⦃s s'⦄, R' s s' → R s.leave s'.leave) :
    Simulates R (CheckM.inScope x) (CheckM.inScope y) := by
  intro c c' d hc hrun
  rw [run_inScope] at hrun
  split at hrun
  case h_2 => exact nomatch hrun
  case h_1 e hinside =>
    cases hrun
    have hentered : Checker.Related R'
        { c with scopes := c.scopes.enter, notes := .entered c.scopes.enter.depth :: c.notes }
        { c' with scopes := c'.scopes.enter, notes := .entered c'.scopes.enter.depth :: c'.notes } :=
      ⟨henter hc.scopes, hc.depth_eq⟩
    obtain ⟨e', hinside', he⟩ := h hentered hinside
    refine ⟨{ e' with scopes := e'.scopes.leave }, ?_, hleave he.scopes, he.depth_eq⟩
    rw [run_inScope, hinside']

/-- A part of the walk inside one more function. -/
theorem inFunction (h : Simulates R x y) :
    Simulates R (CheckM.inFunction x) (CheckM.inFunction y) := by
  intro c c' d hc hrun
  rw [run_inFunction] at hrun
  split at hrun
  case h_2 => exact nomatch hrun
  case h_1 e hinside =>
    cases hrun
    have hentered : Checker.Related R { c with functionDepth := c.functionDepth + 1 }
        { c' with functionDepth := c'.functionDepth + 1 } :=
      ⟨hc.scopes, congrArg (· + 1) hc.depth_eq⟩
    obtain ⟨e', hinside', he⟩ := h hentered hinside
    refine ⟨{ e' with functionDepth := e'.functionDepth - 1 }, ?_, he.scopes, ?_⟩
    · rw [run_inFunction, hinside']
    · exact congrArg (· - 1) he.depth_eq

end Simulates

end CheckM

theorem check_eq_ok_iff_run {program : List Stmt} :
    check program = .ok () ↔ ∃ c, (Stmt.checkAll program).run Checker.initial = .ok () c := by
  unfold check
  cases (Stmt.checkAll program).run Checker.initial with
  | ok _ c => simp
  | error v c => simp

end Brew
