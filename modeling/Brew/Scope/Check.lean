import Brew.Scope.Basic
import Brew.Syntax.Stmt

/-!
# Checking a program against its scopes

The checker walks over the statements in order and keeps the chain of scopes of the current place.
It stops at the first broken rule.  Each block has a scope of its own, and the parameters of a
function share the scope of its body.  A block's scope is left again **whether or not the block
passes**, and the same holds for the count of functions around the current statement.

On its way the checker notes the scopes it enters and the meanings it finds; the journal of a
compilation shows these notes.

## Main definitions

* `Checker`: where the checker stands
* `Stmt.check`, `Stmt.checkAll`: the walk
* `check`: whether a program breaks a rule, and which one first

## Main results

* `CheckM.run_declare`, `CheckM.run_resolve`, `CheckM.run_inScope`, `CheckM.run_inFunction`,
  `CheckM.run_requireFunction`: where each part of the walk leaves the checker
-/

namespace Brew

/-- What the checker notes on its way. -/
inductive CheckNote where
  | entered (depth : Nat)
  | resolved (name : String) (symbol : Symbol)
deriving DecidableEq, Repr

/-- Where the checker stands. -/
structure Checker where
  scopes : Scopes
  /-- The number of function bodies around the current statement. -/
  functionDepth : Nat
  /-- What was noted so far, newest first. -/
  notes : List CheckNote
deriving DecidableEq, Repr

/-- The checker at the start of a program. -/
def Checker.initial : Checker := ⟨Scopes.global, 0, []⟩

/-- A part of the walk.  It knows where the checker stands afterwards also if a rule is broken. -/
abbrev CheckM := EStateM Violation Checker

namespace CheckM

/-- Notes something. -/
def note (n : CheckNote) : CheckM Unit := modify fun c => { c with notes := n :: c.notes }

/-- Declares a name in the innermost scope. -/
def declare (name : String) (symbol : Symbol) : CheckM Unit := do
  match (← get).scopes.define name symbol with
  | some scopes => modify fun c => { c with scopes }
  | none => throw (.duplicate name)

/-- Makes sure that a name stands for a variable or a parameter. -/
def resolve (name : String) : CheckM Unit := do
  match (← get).scopes.find? name with
  | none => throw (.undeclared name)
  | some symbol =>
    if symbol.kind = .function then throw (.notAVariable name) else note (.resolved name symbol)

/-- Declares some names in the innermost scope, in order. -/
def declareAll (bindings : Table) : CheckM Unit :=
  bindings.forM fun binding => declare binding.1 binding.2

/-- Walks through something inside a new scope. -/
def inScope (body : CheckM Unit) : CheckM Unit := do
  modify fun c => { c with scopes := c.scopes.enter }
  note (.entered (← get).scopes.depth)
  try
    body
  finally
    modify fun c => { c with scopes := c.scopes.leave }

/-- Walks through something that stands inside one more function. -/
def inFunction (body : CheckM Unit) : CheckM Unit := do
  modify fun c => { c with functionDepth := c.functionDepth + 1 }
  try
    body
  finally
    modify fun c => { c with functionDepth := c.functionDepth - 1 }

/-- Makes sure that the current statement stands inside a function. -/
def requireFunction : CheckM Unit := do
  if (← get).functionDepth = 0 then throw .strayReturn

/-! ### What the parts do -/

theorem run_declare (name : String) (symbol : Symbol) (c : Checker) :
    (declare name symbol).run c =
      match c.scopes.define name symbol with
      | some scopes => .ok () { c with scopes }
      | none => .error (.duplicate name) c := by
  simp only [declare, EStateM.run_bind, EStateM.run_get]
  cases c.scopes.define name symbol <;> rfl

theorem run_resolve (name : String) (c : Checker) :
    (resolve name).run c =
      match c.scopes.find? name with
      | none => .error (.undeclared name) c
      | some symbol =>
        if symbol.kind = .function then .error (.notAVariable name) c
        else .ok () { c with notes := .resolved name symbol :: c.notes } := by
  simp only [resolve, EStateM.run_bind, EStateM.run_get]
  cases c.scopes.find? name with
  | none => rfl
  | some symbol => by_cases h : symbol.kind = .function <;> simp only [h] <;> rfl

/-- A scope is left on success and on failure. -/
theorem run_inScope (body : CheckM Unit) (c : Checker) :
    (inScope body).run c =
      match body.run { c with
          scopes := c.scopes.enter, notes := .entered c.scopes.enter.depth :: c.notes } with
      | .ok _ c' => .ok () { c' with scopes := c'.scopes.leave }
      | .error v c' => .error v { c' with scopes := c'.scopes.leave } := by
  simp only [inScope, note, EStateM.run_bind, EStateM.run_modify, EStateM.run_get]
  simp only [EStateM.run, tryFinally, Functor.map, tryFinally', EStateM.map]
  cases body _ <;> rfl

/-- A function is left on success and on failure. -/
theorem run_inFunction (body : CheckM Unit) (c : Checker) :
    (inFunction body).run c =
      match body.run { c with functionDepth := c.functionDepth + 1 } with
      | .ok _ c' => .ok () { c' with functionDepth := c'.functionDepth - 1 }
      | .error v c' => .error v { c' with functionDepth := c'.functionDepth - 1 } := by
  simp only [inFunction, EStateM.run_bind, EStateM.run_modify]
  simp only [EStateM.run, tryFinally, Functor.map, tryFinally', EStateM.map]
  cases body _ <;> rfl

theorem run_requireFunction (c : Checker) :
    requireFunction.run c =
      if c.functionDepth = 0 then .error .strayReturn c else .ok () c := by
  simp only [requireFunction, EStateM.run_bind, EStateM.run_get]
  split <;> rfl

end CheckM

/-- The names that a function binds in the scope of its body. -/
def Signature.bindings (signature : Signature) : Table :=
  signature.params.map fun p => (p.name, ⟨p.type, .parameter⟩)

/-- Checks the names that an expression reads. -/
def Expr.check (e : Expr) : CheckM Unit := e.names.forM CheckM.resolve

mutual

/-- Checks a statement.  A variable is not yet declared in its own first value. -/
def Stmt.check : Stmt → CheckM Unit
  | .declare type name none => CheckM.declare name ⟨type, .stored⟩
  | .declare type name (some e) => do
    e.check
    CheckM.declare name ⟨type, .stored⟩
  | .assign name e => do
    CheckM.resolve name
    e.check
  | .print (.text _) => pure ()
  | .print (.value e) => e.check
  | .scan name => CheckM.resolve name
  | .branch cond thenBlock none => do
    cond.check
    CheckM.inScope (Stmt.checkAll thenBlock)
  | .branch cond thenBlock (some elseBlock) => do
    cond.check
    CheckM.inScope (Stmt.checkAll thenBlock)
    CheckM.inScope (Stmt.checkAll elseBlock)
  | .function signature body => do
    CheckM.declare signature.name ⟨signature.type, .function⟩
    CheckM.inFunction (CheckM.inScope (do
      CheckM.declareAll signature.bindings
      Stmt.checkAll body))
  | .ret none => CheckM.requireFunction
  | .ret (some e) => do
    CheckM.requireFunction
    e.check

/-- Checks statements in order. -/
def Stmt.checkAll : List Stmt → CheckM Unit
  | [] => pure ()
  | s :: rest => do
    s.check
    Stmt.checkAll rest

end

/-- Checks a whole program; the error is the first rule that the walk finds broken. -/
def check (program : List Stmt) : Except Violation Unit :=
  match (Stmt.checkAll program).run Checker.initial with
  | .ok _ _ => .ok ()
  | .error v _ => .error v

/-- What the checker notes about a whole program, in the order of the walk and up to the first
broken rule. -/
def checkNotes (program : List Stmt) : List CheckNote :=
  match (Stmt.checkAll program).run Checker.initial with
  | .ok _ c | .error _ c => c.notes.reverse

end Brew
