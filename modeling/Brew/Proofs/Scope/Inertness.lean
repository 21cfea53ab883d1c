import Brew.Proofs.Code.Forgetting
import Brew.Proofs.Scope.Frame
import Brew.Proofs.Scope.Simulation

/-!
# Functions are inert

A function has no code, and nothing outside of it can refer to what is inside.  But its name is
declared like any other: it may hide a variable of an outer scope, and it may not stand beside
another declaration of the same name.  So the check of a program without its functions goes through
other tables than the check of the program itself.  It passes nevertheless, because in a program
that passes a name is **never used** where it stands for a function, and one name less in a scope
clashes with nothing.

## Main definitions

* `Scopes.withoutFunctions`: a chain of scopes without the names of functions

## Main results

* `Scopes.find?_withoutFunctions`: variables and parameters keep their meaning
* `Stmt.simulates_withoutFunctions_all`: a block that passes does so without its functions
* `check_withoutFunctions`: a program that passes does so without its functions, and its code is the
  same
-/

namespace Brew

variable {name : String} {symbol : Symbol}

/-! ## Scopes without functions -/

/-- A table without the names of functions. -/
def Table.withoutFunctions (table : Table) : Table :=
  table.filter fun entry => entry.2.kind ≠ .function

/-- A chain of scopes without the names of functions. -/
def Scopes.withoutFunctions (s : Scopes) : Scopes :=
  ⟨s.innermost.withoutFunctions, s.enclosing.map Table.withoutFunctions⟩

namespace Table

variable {table : Table}

theorem withoutFunctions_cons (hkind : symbol.kind ≠ .function) :
    withoutFunctions ((name, symbol) :: table) = (name, symbol) :: table.withoutFunctions :=
  List.filter_cons_of_pos (decide_eq_true hkind)

theorem lookup_withoutFunctions_eq_none (h : table.lookup name = none) :
    table.withoutFunctions.lookup name = none := by
  rw [List.lookup_eq_none_iff] at h ⊢
  intro entry hentry
  exact h entry (List.mem_of_mem_filter hentry)

theorem lookup_withoutFunctions_eq_some (h : table.lookup name = some symbol)
    (hkind : symbol.kind ≠ .function) : table.withoutFunctions.lookup name = some symbol := by
  rw [List.lookup_eq_some_iff] at h ⊢
  obtain ⟨newer, older, rfl, hnewer⟩ := h
  refine ⟨withoutFunctions newer, withoutFunctions older, ?_, fun entry hentry => ?_⟩
  · rw [← withoutFunctions_cons hkind]
    exact List.filter_append newer _
  · exact hnewer entry (List.mem_of_mem_filter hentry)

end Table

namespace Scopes

variable {s t : Scopes}

/-- **Variables and parameters keep their meaning.** -/
theorem find?_withoutFunctions (h : s.find? name = some symbol) (hkind : symbol.kind ≠ .function) :
    s.withoutFunctions.find? name = some symbol := by
  -- Induction on the chain: the tables further in do not have the name, with or without functions.
  have htables : ∀ tables : List Table, tables.findSome? (List.lookup name) = some symbol →
      (tables.map Table.withoutFunctions).findSome? (List.lookup name) = some symbol := by
    intro tables
    induction tables with
    | nil => exact id
    | cons table tables ih =>
      intro hfind
      rw [List.findSome?_cons] at hfind
      rw [List.map_cons, List.findSome?_cons]
      cases hname : table.lookup name with
      | none =>
        rw [hname] at hfind
        rw [Table.lookup_withoutFunctions_eq_none hname]
        exact ih hfind
      | some other =>
        rw [hname] at hfind
        cases hfind
        rw [Table.lookup_withoutFunctions_eq_some hname hkind]
  exact htables (s.innermost :: s.enclosing) h

/-- A name that is no function can be declared as before. -/
theorem define_withoutFunctions (h : s.define name symbol = some t)
    (hkind : symbol.kind ≠ .function) :
    s.withoutFunctions.define name symbol = some t.withoutFunctions := by
  obtain ⟨hname, rfl⟩ := define_eq_some_iff.mp h
  refine define_eq_some_iff.mpr ⟨Table.lookup_withoutFunctions_eq_none hname, ?_⟩
  rw [withoutFunctions, Table.withoutFunctions_cons hkind]
  rfl

theorem leave_withoutFunctions (s : Scopes) :
    s.withoutFunctions.leave = s.leave.withoutFunctions := by
  obtain ⟨innermost, enclosing⟩ := s
  cases enclosing <;> rfl

end Scopes

/-! ## Checking without functions -/

open CheckM (Simulates)

/-- The second chain of scopes is the first one without the names of functions. -/
def Scopes.Sheds (s s' : Scopes) : Prop := s' = s.withoutFunctions

theorem CheckM.Simulates.declare_sheds (hkind : symbol.kind ≠ .function) :
    Simulates Scopes.Sheds (CheckM.declare name symbol) (CheckM.declare name symbol) := by
  refine .declare fun s s' t hs hdefine => ?_
  cases hs
  exact ⟨_, Scopes.define_withoutFunctions hdefine hkind, rfl⟩

theorem CheckM.Simulates.resolve_sheds (name : String) :
    Simulates Scopes.Sheds (CheckM.resolve name) (CheckM.resolve name) := by
  refine .resolve fun s s' symbol hs hfind hkind => ?_
  cases hs
  exact Scopes.find?_withoutFunctions hfind hkind

theorem CheckM.Simulates.inScope_sheds {x y : CheckM Unit} (h : Simulates Scopes.Sheds x y) :
    Simulates Scopes.Sheds (CheckM.inScope x) (CheckM.inScope y) := by
  refine h.inScope (fun s s' hs => ?_) (fun s s' hs => ?_)
  · cases hs
    rfl
  · cases hs
    exact s.leave_withoutFunctions

theorem Expr.simulates_sheds (e : Expr) : Simulates Scopes.Sheds e.check e.check :=
  .forM e.names .resolve_sheds

/-- **A function leaves nothing behind but its name.** -/
theorem Stmt.simulates_function (signature : Signature) (body : List Stmt) :
    Simulates Scopes.Sheds (Stmt.function signature body).check (pure ()) := by
  intro c c' d hc hrun
  have hgrown : c.Grown [(signature.name, ⟨signature.type, .function⟩)] d := by
    have hadds := Stmt.adds_all.1 (.function signature body) c
    rwa [hrun] at hadds
  refine ⟨c', rfl, ?_, ?_⟩
  · rw [Scopes.Sheds, hc.scopes, hgrown.scopes_eq]
    rfl
  · rw [hc.depth_eq, hgrown.depth_eq]

theorem Stmt.checkAll_singleton (s : Stmt) : Stmt.checkAll [s] = s.check := bind_pure_unit

/-- **A block that passes does so without its functions**, and so does a statement. -/
theorem Stmt.simulates_withoutFunctions_all :
    (∀ s : Stmt, Simulates Scopes.Sheds s.check (Stmt.checkAll s.withoutFunctions)) ∧
      ∀ block : List Stmt, Simulates Scopes.Sheds (Stmt.checkAll block)
        (Stmt.checkAll (Stmt.withoutFunctionsAll block)) := by
  apply Stmt.block_induction
  case declare =>
    intro type name value
    have hdeclare : Simulates Scopes.Sheds (CheckM.declare name ⟨type, .stored⟩)
        (CheckM.declare name ⟨type, .stored⟩) := .declare_sheds nofun
    rw [Stmt.withoutFunctions, Stmt.checkAll_singleton]
    cases value with
    | none => exact hdeclare
    | some e => exact e.simulates_sheds.bind hdeclare
  case assign =>
    intro name e
    rw [Stmt.withoutFunctions, Stmt.checkAll_singleton]
    exact (Simulates.resolve_sheds name).bind e.simulates_sheds
  case print =>
    intro what
    rw [Stmt.withoutFunctions, Stmt.checkAll_singleton]
    cases what with
    | text content => exact .pure
    | value e => exact e.simulates_sheds
  case scan =>
    intro name
    rw [Stmt.withoutFunctions, Stmt.checkAll_singleton]
    exact .resolve_sheds name
  case branch =>
    intro cond thenBlock elseBlock hthen helse
    cases elseBlock with
    | none =>
      rw [Stmt.withoutFunctions, Stmt.checkAll_singleton]
      exact cond.simulates_sheds.bind hthen.inScope_sheds
    | some elseBlock =>
      rw [Stmt.withoutFunctions, Stmt.checkAll_singleton]
      have helse' := (helse elseBlock rfl).inScope_sheds
      exact cond.simulates_sheds.bind (hthen.inScope_sheds.bind helse')
  case function =>
    intro signature body _
    exact Stmt.simulates_function signature body
  case ret =>
    intro value
    rw [Stmt.withoutFunctions, Stmt.checkAll_singleton]
    cases value with
    | none => exact .requireFunction
    | some e => exact Simulates.requireFunction.bind e.simulates_sheds
  case nil => exact .pure
  case cons =>
    intro s rest hs hrest
    rw [Stmt.withoutFunctionsAll, Stmt.checkAll_append]
    exact hs.bind hrest

/-! ## Code without functions -/

theorem Stmt.coreAll_append (xs ys : List Stmt) :
    Stmt.coreAll (xs ++ ys) = Stmt.coreAll xs ++ Stmt.coreAll ys := by
  induction xs with
  | nil => rfl
  | cons s rest ih =>
    rw [List.cons_append, Stmt.coreAll, Stmt.coreAll, ih, List.append_assoc]

theorem Stmt.coreAll_singleton (s : Stmt) : Stmt.coreAll [s] = s.core := List.append_nil _

/-- Functions are no part of the core of a block, nor of that of a statement. -/
theorem Stmt.core_withoutFunctions_all :
    (∀ s : Stmt, Stmt.coreAll s.withoutFunctions = s.core) ∧
      ∀ block : List Stmt, Stmt.coreAll (Stmt.withoutFunctionsAll block) = Stmt.coreAll block := by
  apply Stmt.block_induction
  case branch =>
    intro cond thenBlock elseBlock hthen helse
    cases elseBlock with
    | none =>
      rw [Stmt.withoutFunctions, Stmt.coreAll_singleton, Stmt.core, Stmt.core, hthen]
    | some elseBlock =>
      rw [Stmt.withoutFunctions, Stmt.coreAll_singleton, Stmt.core, Stmt.core, hthen,
        helse elseBlock rfl]
  case function =>
    intro signature body _
    rfl
  case nil => rfl
  case cons =>
    intro s rest hs hrest
    rw [Stmt.withoutFunctionsAll, Stmt.coreAll_append, hs, hrest, Stmt.coreAll]
  all_goals
    intros
    rw [Stmt.withoutFunctions, Stmt.coreAll_singleton]

/-! ## Programs -/

/-- **Functions are inert.**  Without its functions, at any depth, a program that passes the check
passes it again, and it has the same code. -/
theorem check_withoutFunctions {program : List Stmt} (h : check program = .ok ()) :
    check (Stmt.withoutFunctionsAll program) = .ok () ∧
      lower (Stmt.withoutFunctionsAll program) = lower program := by
  constructor
  · obtain ⟨c, hrun⟩ := check_eq_ok_iff_run.mp h
    have hinitial : Checker.initial.Related Scopes.Sheds Checker.initial := ⟨rfl, rfl⟩
    obtain ⟨c', hrun', -⟩ := Stmt.simulates_withoutFunctions_all.2 program hinitial hrun
    exact check_eq_ok_iff_run.mpr ⟨c', hrun'⟩
  · rw [← lower_core, Stmt.core_withoutFunctions_all.2, lower_core]

/-- A function in a block that hides a variable of the scope around it. -/
theorem check_withoutFunctions_hiding :
    check [.declare .int "wtl_x" none,
        .branch (.number "1") [.function ⟨.int, "wtl_x", [⟨.int, "wtl_a"⟩]⟩
          [.ret (some (.ident "wtl_a"))]] none,
        .print (.value (.ident "wtl_x"))] = .ok () ∧
      check [.declare .int "wtl_x" none, .branch (.number "1") [] none,
        .print (.value (.ident "wtl_x"))] = .ok () ∧
      lower [.declare .int "wtl_x" none, .branch (.number "1") [] none,
          .print (.value (.ident "wtl_x"))] =
        lower [.declare .int "wtl_x" none,
          .branch (.number "1") [.function ⟨.int, "wtl_x", [⟨.int, "wtl_a"⟩]⟩
            [.ret (some (.ident "wtl_a"))]] none,
          .print (.value (.ident "wtl_x"))] := by
  have h : check [.declare .int "wtl_x" none,
      .branch (.number "1") [.function ⟨.int, "wtl_x", [⟨.int, "wtl_a"⟩]⟩
        [.ret (some (.ident "wtl_a"))]] none,
      .print (.value (.ident "wtl_x"))] = .ok () := by decide
  exact ⟨h, check_withoutFunctions h⟩

end Brew
