import Brew.Scope.Check

/-!
# What checking leaves behind

The checker goes in and out of scopes, but all that a statement leaves behind is its own name in the
scope where it stands.  The scopes around that one, the names already in it and the count of
functions are what they were, **whether or not a rule is broken** on the way.

## Main definitions

* `Stmt.binding?`: the name that a statement declares, with what it stands for
* `Checker.Grown`: the innermost scope has some more names, and all else is as before
* `CheckM.Adds`: a part of the walk adds some names to the innermost scope
* `CheckM.leaves`: the checker that a part of the walk leaves behind, on success and on failure

## Main results

* `Stmt.adds_all`: the checks of a statement and of a block add the names that these declare
* `Stmt.checkAll_append`: joined blocks are checked one after the other
-/

namespace Brew

/-- The name that a statement declares in the scope where it stands, with what it stands for. -/
def Stmt.binding? : Stmt → Option (String × Symbol)
  | .declare type name _ => some (name, ⟨type, .stored⟩)
  | .function signature _ => some (signature.name, ⟨signature.type, .function⟩)
  | .assign _ _ | .print _ | .scan _ | .branch _ _ _ | .ret _ => none

/-- The checker has some more names in its innermost scope, newest first, and all else is as
before. -/
structure Checker.Grown (c : Checker) (new : Table) (c' : Checker) : Prop where
  scopes_eq : c'.scopes = ⟨new ++ c.scopes.innermost, c.scopes.enclosing⟩
  depth_eq : c'.functionDepth = c.functionDepth

namespace Checker.Grown

variable {c c' c'' : Checker} {new newer : Table}

theorem refl (c : Checker) : c.Grown [] c := ⟨rfl, rfl⟩

theorem trans (h : c.Grown new c') (h' : c'.Grown newer c'') : c.Grown (newer ++ new) c'' where
  scopes_eq := by rw [h'.scopes_eq, h.scopes_eq, List.append_assoc]
  depth_eq := h'.depth_eq.trans h.depth_eq

end Checker.Grown

namespace CheckM

/-- Where a part of the walk that adds some names may leave the checker: with all of them if it
comes to its end, with the first few of them if it stops. -/
def Result.Adds (c : Checker) (added : Table) : EStateM.Result Violation Checker Unit → Prop
  | .ok _ c' => c.Grown added c'
  | .error _ c' => ∃ new, new <:+ added ∧ c.Grown new c'

/-- **A part of the walk adds some names to the innermost scope**, and changes nothing else. -/
def Adds (x : CheckM Unit) (added : Table) : Prop := ∀ c, Result.Adds c added (x.run c)

/-- The checker that a part of the walk leaves behind, whether or not a rule is broken. -/
def leaves (x : CheckM Unit) (c : Checker) : Checker :=
  match x.run c with
  | .ok _ c' | .error _ c' => c'

namespace Adds

variable {x y : CheckM Unit} {added later : Table}

/-- Some of the names are there afterwards, whether or not a rule is broken. -/
theorem exists_grown (h : x.Adds added) (c : Checker) :
    ∃ new, new <:+ added ∧ c.Grown new (x.leaves c) := by
  have hc := h c
  unfold leaves
  cases hrun : x.run c with
  | ok _ c' =>
    rw [hrun] at hc
    exact ⟨added, List.suffix_rfl, hc⟩
  | error v c' =>
    rw [hrun] at hc
    exact hc

theorem pure : Adds (Pure.pure ()) [] := fun c => .refl c

/-- Two parts of the walk, one after the other. -/
theorem bind (hx : x.Adds added) (hy : y.Adds later) :
    Adds (x >>= fun _ => y) (later ++ added) := by
  intro c
  have hfirst := hx c
  rw [EStateM.run_bind]
  cases hrun : x.run c with
  | error v c' =>
    rw [hrun] at hfirst
    obtain ⟨new, hnew, hgrown⟩ := hfirst
    exact ⟨new, hnew.trans (List.suffix_append later added), hgrown⟩
  | ok _ c' =>
    rw [hrun] at hfirst
    have hsecond := hy c'
    dsimp only
    cases hrun' : y.run c' with
    | error v c'' =>
      rw [hrun'] at hsecond
      obtain ⟨new, ⟨rest, hnew⟩, hgrown⟩ := hsecond
      refine ⟨new ++ added, ⟨rest, ?_⟩, hfirst.trans hgrown⟩
      rw [← List.append_assoc, hnew]
    | ok _ c'' =>
      rw [hrun'] at hsecond
      exact hfirst.trans hsecond

/-- Nothing is added for any member of a list. -/
theorem forM {α : Type} {f : α → CheckM Unit} (l : List α) (h : ∀ a, (f a).Adds []) :
    Adds (l.forM f) [] := by
  induction l with
  | nil => exact pure
  | cons a l ih => exact (h a).bind ih

theorem declare (name : String) (symbol : Symbol) :
    Adds (CheckM.declare name symbol) [(name, symbol)] := by
  intro c
  rw [run_declare]
  cases hdefine : c.scopes.define name symbol with
  | none => exact ⟨[], List.nil_suffix, .refl c⟩
  | some scopes =>
    obtain ⟨-, hscopes⟩ := Scopes.define_eq_some_iff.mp hdefine
    exact ⟨hscopes, rfl⟩

/-- The names of a table are declared in order, so the last one ends up first. -/
theorem declareAll (bindings : Table) : Adds (CheckM.declareAll bindings) bindings.reverse := by
  induction bindings with
  | nil => exact pure
  | cons binding bindings ih =>
    rw [List.reverse_cons]
    exact (declare binding.1 binding.2).bind ih

theorem resolve (name : String) : Adds (CheckM.resolve name) [] := by
  intro c
  rw [run_resolve]
  cases c.scopes.find? name with
  | none => exact ⟨[], List.nil_suffix, .refl c⟩
  | some symbol =>
    dsimp only
    split
    · exact ⟨[], List.nil_suffix, .refl c⟩
    · exact ⟨rfl, rfl⟩

theorem requireFunction : Adds CheckM.requireFunction [] := by
  intro c
  rw [run_requireFunction]
  split
  · exact ⟨[], List.nil_suffix, .refl c⟩
  · exact .refl c

/-- **A scope takes its names with it.** -/
theorem inScope (h : x.Adds added) : Adds (CheckM.inScope x) [] := by
  intro c
  have hinside := h { c with
    scopes := c.scopes.enter, notes := .entered c.scopes.enter.depth :: c.notes }
  rw [run_inScope]
  cases hrun : x.run { c with
      scopes := c.scopes.enter, notes := .entered c.scopes.enter.depth :: c.notes } with
  | error v c' =>
    rw [hrun] at hinside
    obtain ⟨new, -, hscopes, hdepth⟩ := hinside
    refine ⟨[], List.nil_suffix, ?_, hdepth⟩
    dsimp only
    rw [hscopes]
    rfl
  | ok _ c' =>
    rw [hrun] at hinside
    obtain ⟨hscopes, hdepth⟩ := hinside
    refine ⟨?_, hdepth⟩
    dsimp only
    rw [hscopes]
    rfl

theorem inFunction (h : x.Adds added) : Adds (CheckM.inFunction x) added := by
  intro c
  have hinside := h { c with functionDepth := c.functionDepth + 1 }
  rw [run_inFunction]
  cases hrun : x.run { c with functionDepth := c.functionDepth + 1 } with
  | error v c' =>
    rw [hrun] at hinside
    obtain ⟨new, hnew, hscopes, hdepth⟩ := hinside
    exact ⟨new, hnew, hscopes, by simp only [hdepth, Nat.add_sub_cancel]⟩
  | ok _ c' =>
    rw [hrun] at hinside
    obtain ⟨hscopes, hdepth⟩ := hinside
    exact ⟨hscopes, by simp only [hdepth, Nat.add_sub_cancel]⟩

end Adds

end CheckM

open CheckM (Adds)

theorem Expr.adds (e : Expr) : Adds e.check [] := Adds.forM e.names Adds.resolve

/-- **Checking leaves behind what is declared**: a statement adds its own name, if it declares one,
and a block adds the names that its statements declare. -/
theorem Stmt.adds_all :
    (∀ s : Stmt, Adds s.check s.binding?.toList) ∧
      ∀ block : List Stmt, Adds (Stmt.checkAll block) (block.filterMap Stmt.binding?).reverse := by
  apply Stmt.block_induction
  case declare =>
    intro type name value
    cases value with
    | none => exact .declare name ⟨type, .stored⟩
    | some e => exact e.adds.bind (.declare name ⟨type, .stored⟩)
  case assign =>
    intro name e
    exact (Adds.resolve name).bind e.adds
  case print =>
    intro what
    cases what with
    | text content => exact .pure
    | value e => exact e.adds
  case scan =>
    intro name
    exact .resolve name
  case branch =>
    intro cond thenBlock elseBlock hthen helse
    cases elseBlock with
    | none => exact cond.adds.bind hthen.inScope
    | some elseBlock => exact cond.adds.bind (hthen.inScope.bind (helse elseBlock rfl).inScope)
  case function =>
    intro signature body hbody
    -- The parameters go with the scope of the body; the name stays.
    have hinner := ((Adds.declareAll signature.bindings).bind hbody).inScope.inFunction
    exact (Adds.declare signature.name ⟨signature.type, .function⟩).bind hinner
  case ret =>
    intro value
    cases value with
    | none => exact .requireFunction
    | some e => exact Adds.requireFunction.bind e.adds
  case nil => exact .pure
  case cons =>
    intro s rest hs hrest
    have hlist : ((s :: rest).filterMap Stmt.binding?).reverse =
        (rest.filterMap Stmt.binding?).reverse ++ s.binding?.toList := by
      cases h : s.binding? <;> simp [h]
    rw [hlist]
    exact hs.bind hrest

/-- Joined blocks are checked one after the other. -/
theorem Stmt.checkAll_append (xs ys : List Stmt) :
    Stmt.checkAll (xs ++ ys) = Stmt.checkAll xs >>= fun _ => Stmt.checkAll ys := by
  induction xs with
  | nil => rw [List.nil_append, Stmt.checkAll, pure_bind]
  | cons s rest ih => rw [List.cons_append, Stmt.checkAll, Stmt.checkAll, ih, bind_assoc]

theorem Stmt.run_checkAll_append (xs ys : List Stmt) (c : Checker) :
    (Stmt.checkAll (xs ++ ys)).run c =
      match (Stmt.checkAll xs).run c with
      | .ok _ c' => (Stmt.checkAll ys).run c'
      | .error v c' => .error v c' := by
  rw [Stmt.checkAll_append, EStateM.run_bind]
  cases (Stmt.checkAll xs).run c <;> rfl

end Brew
