import Brew.Proofs.Scope.Frame

/-!
# The chain of scopes is restored

A block is checked in a scope of its own, which begins with some bindings: the parameters of a
function, or nothing.  The scope is left on every path, so a block **changes nothing** in the chain
of scopes, wherever in it the walk may stop.  A statement changes the scope in which it stands, and
only by its own name.  That name is new there, so all older entries still mean what they meant.

## Main definitions

* `Stmt.checkBlock`: the check of a block in a scope of its own
* `Signature.checkBody`: the check of the body of a function
* `CheckM.Fresh`: whatever names a part of the walk adds are new to the innermost scope

## Main results

* `Stmt.check_branch_eq`, `Stmt.check_function`: branches and functions check their blocks so
* `Stmt.fresh_check`: a statement adds a new name or none
* `check_restores_scopes`: a block leaves the checker as it was, a statement adds at most its name
-/

namespace Brew

/-! ## Blocks -/

/-- Checks a block in a scope of its own, which holds some bindings at first. -/
def Stmt.checkBlock (bindings : Table) (block : List Stmt) : CheckM Unit :=
  CheckM.inScope do
    CheckM.declareAll bindings
    Stmt.checkAll block

/-- The blocks of a branch begin without bindings. -/
theorem Stmt.check_branch_eq (cond : Expr) (thenBlock : List Stmt)
    (elseBlock : Option (List Stmt)) :
    (Stmt.branch cond thenBlock elseBlock).check =
      (cond.check >>= fun _ => Stmt.checkBlock [] thenBlock >>= fun _ =>
        elseBlock.elim (pure ()) (Stmt.checkBlock [])) := by
  cases elseBlock with
  | none => exact congrArg (cond.check >>= ·) (funext fun _ => bind_pure_unit.symm)
  | some elseBlock => rfl

/-- The body of a function is a block that begins with the parameters. -/
def Signature.checkBody (signature : Signature) (body : List Stmt) : CheckM Unit :=
  Stmt.checkBlock signature.bindings body

/-- A function is declared, and its body is walked through as that of one more function. -/
theorem Stmt.check_function (signature : Signature) (body : List Stmt) :
    (Stmt.function signature body).check =
      (CheckM.declare signature.name ⟨signature.type, .function⟩ >>= fun _ =>
        CheckM.inFunction (signature.checkBody body)) :=
  rfl

theorem Stmt.adds_checkBlock (bindings : Table) (block : List Stmt) :
    (Stmt.checkBlock bindings block).Adds [] :=
  ((CheckM.Adds.declareAll bindings).bind (Stmt.adds_all.2 block)).inScope

/-! ## New names -/

theorem Checker.Grown.unique {c c' : Checker} {new new' : Table} (h : c.Grown new c')
    (h' : c.Grown new' c') : new = new' := by
  have hscopes := h.scopes_eq.symm.trans h'.scopes_eq
  exact List.append_cancel_right (congrArg Scopes.innermost hscopes)

namespace CheckM

/-- A part of the walk that adds nothing leaves the chain of scopes and the count of functions as
they were. -/
theorem Adds.grown_nil {x : CheckM Unit} (h : x.Adds []) (c : Checker) : c.Grown [] (x.leaves c) := by
  obtain ⟨new, hnew, hgrown⟩ := h.exists_grown c
  rwa [List.suffix_nil.mp hnew] at hgrown

theorem leaves_bind (x y : CheckM Unit) (c : Checker) :
    (x >>= fun _ => y).leaves c =
      match x.run c with
      | .ok _ c' => y.leaves c'
      | .error _ c' => c' := by
  rw [leaves, EStateM.run_bind]
  cases x.run c <;> rfl

/-- **Whatever names a part of the walk adds are new** to the innermost scope. -/
def Fresh (x : CheckM Unit) : Prop :=
  ∀ ⦃c : Checker⦄ ⦃new : Table⦄, c.Grown new (x.leaves c) →
    ∀ binding ∈ new, c.scopes.innermost.lookup binding.1 = none

namespace Fresh

variable {x y : CheckM Unit}

theorem of_adds (h : x.Adds []) : x.Fresh := by
  intro c new hgrown binding hbinding
  rw [hgrown.unique (h.grown_nil c)] at hbinding
  exact absurd hbinding List.not_mem_nil

theorem declare (name : String) (symbol : Symbol) : (CheckM.declare name symbol).Fresh := by
  intro c new hgrown binding hbinding
  rw [leaves, run_declare] at hgrown
  cases hdefine : c.scopes.define name symbol with
  | none =>
    rw [hdefine] at hgrown
    rw [hgrown.unique (.refl c)] at hbinding
    exact absurd hbinding List.not_mem_nil
  | some scopes =>
    rw [hdefine] at hgrown
    obtain ⟨hname, hscopes⟩ := Scopes.define_eq_some_iff.mp hdefine
    have hadded : c.Grown [(name, symbol)] { c with scopes } := ⟨hscopes, rfl⟩
    rw [hgrown.unique hadded, List.mem_singleton] at hbinding
    rw [hbinding]
    exact hname

/-- Nothing is added before. -/
theorem adds_bind (hx : x.Adds []) (hy : y.Fresh) : Fresh (x >>= fun _ => y) := by
  intro c new hgrown binding hbinding
  rw [leaves_bind] at hgrown
  have hfirst := hx.grown_nil c
  unfold leaves at hfirst
  cases hrun : x.run c with
  | error v d =>
    rw [hrun] at hgrown hfirst
    rw [hgrown.unique hfirst] at hbinding
    exact absurd hbinding List.not_mem_nil
  | ok _ d =>
    rw [hrun] at hgrown hfirst
    have hscopes : d.scopes = c.scopes := hfirst.scopes_eq
    have hgrown' : d.Grown new (y.leaves d) :=
      ⟨by rw [hgrown.scopes_eq, hscopes], by rw [hgrown.depth_eq, hfirst.depth_eq]⟩
    rw [← hscopes]
    exact hy hgrown' binding hbinding

/-- Nothing is added behind. -/
theorem bind_adds (hx : x.Fresh) (hy : y.Adds []) : Fresh (x >>= fun _ => y) := by
  intro c new hgrown
  refine hx ?_
  rw [leaves_bind] at hgrown
  unfold leaves
  cases hrun : x.run c with
  | error v d =>
    rw [hrun] at hgrown
    exact hgrown
  | ok _ d =>
    rw [hrun] at hgrown
    have hsecond := hy.grown_nil d
    have hscopes : (y.leaves d).scopes = d.scopes := hsecond.scopes_eq
    exact ⟨by rw [← hscopes, hgrown.scopes_eq], by rw [← hsecond.depth_eq, hgrown.depth_eq]⟩

end Fresh

end CheckM

open CheckM (Fresh)

/-- **A statement adds a new name or none.** -/
theorem Stmt.fresh_check (s : Stmt) : s.check.Fresh := by
  cases s with
  | declare type name value =>
    cases value with
    | none => exact .declare name ⟨type, .stored⟩
    | some e => exact .adds_bind e.adds (.declare name ⟨type, .stored⟩)
  | function signature body =>
    rw [Stmt.check_function]
    exact .bind_adds (.declare _ _) (Stmt.adds_checkBlock signature.bindings body).inFunction
  | assign name e => exact .of_adds (Stmt.adds_all.1 (.assign name e))
  | print what => exact .of_adds (Stmt.adds_all.1 (.print what))
  | scan name => exact .of_adds (Stmt.adds_all.1 (.scan name))
  | branch cond thenBlock elseBlock =>
    exact .of_adds (Stmt.adds_all.1 (.branch cond thenBlock elseBlock))
  | ret value => exact .of_adds (Stmt.adds_all.1 (.ret value))

/-! ## What is left behind -/

section Lookup

variable {new old : Table} {name : String} {symbol : Symbol}

/-- Entries with new names hide nothing. -/
theorem Table.lookup_append_of_fresh (hnew : ∀ binding ∈ new, old.lookup binding.1 = none)
    (h : old.lookup name = some symbol) : (new ++ old).lookup name = some symbol := by
  have hnone : new.lookup name = none := by
    rw [List.lookup_eq_none_iff]
    intro binding hbinding
    rw [bne_iff_ne]
    rintro rfl
    rw [hnew binding hbinding] at h
    exact nomatch h
  rw [List.lookup_append, hnone, Option.none_or, h]

/-- What is found among new and old entries is one of them. -/
theorem Table.lookup_append_cases (h : (new ++ old).lookup name = some symbol) :
    old.lookup name = some symbol ∨ (name, symbol) ∈ new := by
  rw [List.lookup_append, Option.or_eq_some_iff] at h
  rcases h with h | ⟨-, h⟩
  · obtain ⟨newer, older, rfl, -⟩ := List.lookup_eq_some_iff.mp h
    exact .inr (List.mem_append_right newer List.mem_cons_self)
  · exact .inl h

end Lookup

/-- **The chain of scopes is restored on every path.**  A block leaves all scopes and the count of
functions as they were, whether or not a rule is broken in it.  A statement leaves the scopes around
its own and the count of functions alone, keeps the entries of its own scope, and adds to them at
most the name that it declares; if it passes, it has added this name, with what it stands for. -/
theorem check_restores_scopes (c : Checker) :
    (∀ (bindings : Table) (block : List Stmt),
      ((Stmt.checkBlock bindings block).leaves c).scopes = c.scopes ∧
        ((Stmt.checkBlock bindings block).leaves c).functionDepth = c.functionDepth) ∧
    ∀ s : Stmt,
      (s.check.leaves c).scopes.enclosing = c.scopes.enclosing ∧
      (s.check.leaves c).functionDepth = c.functionDepth ∧
      (∀ name symbol, c.scopes.innermost.lookup name = some symbol →
        (s.check.leaves c).scopes.innermost.lookup name = some symbol) ∧
      (∀ name symbol, (s.check.leaves c).scopes.innermost.lookup name = some symbol →
        c.scopes.innermost.lookup name = some symbol ∨ s.binding? = some (name, symbol)) ∧
      ∀ d, s.check.run c = .ok () d → ∀ name symbol, s.binding? = some (name, symbol) →
        c.scopes.innermost.lookup name = none ∧ d.scopes.innermost.lookup name = some symbol := by
  constructor
  · intro bindings block
    have hgrown := (Stmt.adds_checkBlock bindings block).grown_nil c
    exact ⟨hgrown.scopes_eq, hgrown.depth_eq⟩
  · intro s
    obtain ⟨new, hnew, hgrown⟩ := (Stmt.adds_all.1 s).exists_grown c
    have hfresh := s.fresh_check hgrown
    rw [hgrown.scopes_eq]
    refine ⟨rfl, hgrown.depth_eq, fun name symbol hold => ?_, fun name symbol hfound => ?_, ?_⟩
    · exact Table.lookup_append_of_fresh hfresh hold
    · rcases Table.lookup_append_cases hfound with hold | hmem
      · exact .inl hold
      · exact .inr (Option.mem_toList.mp (hnew.subset hmem))
    · intro d hrun name symbol hbinding
      have hadded : c.Grown [(name, symbol)] d := by
        have hadds := Stmt.adds_all.1 s c
        rwa [hrun, hbinding] at hadds
      have hleaves : s.check.leaves c = d := by rw [CheckM.leaves, hrun]
      rw [← hleaves] at hadded
      refine ⟨s.fresh_check hadded (name, symbol) (List.mem_singleton_self _), ?_⟩
      rw [← hleaves, hadded.scopes_eq]
      exact List.lookup_cons_self

/-- A function with a rule broken two scopes further in, and a function that passes and hides a
variable of the scope around it. -/
theorem check_restores_scopes_nested :
    ((∃ d, (Stmt.function ⟨.int, "wtl_f", [⟨.int, "wtl_a"⟩]⟩
          [.branch (.ident "wtl_a") [.declare .int "wtl_b" none, .scan "wtl_z"] none]).check.run
        ⟨⟨[("wtl_x", ⟨.int, .stored⟩)], [[("wtl_f", ⟨.float, .stored⟩)]]⟩, 1, []⟩ =
          .error (.undeclared "wtl_z") d) ∧
      ((Stmt.function ⟨.int, "wtl_f", [⟨.int, "wtl_a"⟩]⟩
          [.branch (.ident "wtl_a") [.declare .int "wtl_b" none, .scan "wtl_z"] none]).check.leaves
        ⟨⟨[("wtl_x", ⟨.int, .stored⟩)], [[("wtl_f", ⟨.float, .stored⟩)]]⟩, 1, []⟩).scopes.enclosing =
          [[("wtl_f", ⟨.float, .stored⟩)]]) ∧
    ∃ d, (Stmt.function ⟨.int, "wtl_f", []⟩ []).check.run
        ⟨⟨[("wtl_x", ⟨.int, .stored⟩)], [[("wtl_f", ⟨.float, .stored⟩)]]⟩, 1, []⟩ = .ok () d ∧
      d.scopes.innermost.lookup "wtl_f" = some ⟨.int, .function⟩ := by
  have hrestores := check_restores_scopes
    ⟨⟨[("wtl_x", ⟨.int, .stored⟩)], [[("wtl_f", ⟨.float, .stored⟩)]]⟩, 1, []⟩
  obtain ⟨henclosing, -⟩ := hrestores.2 (.function ⟨.int, "wtl_f", [⟨.int, "wtl_a"⟩]⟩
    [.branch (.ident "wtl_a") [.declare .int "wtl_b" none, .scan "wtl_z"] none])
  obtain ⟨-, -, -, -, hpasses⟩ := hrestores.2 (.function ⟨.int, "wtl_f", []⟩ [])
  refine ⟨⟨⟨_, rfl⟩, henclosing⟩, _, rfl, ?_⟩
  exact (hpasses _ rfl "wtl_f" ⟨.int, .function⟩ rfl).2

end Brew
