import Brew.Syntax.Vocabulary

/-!
# Scopes

A name means what the innermost scope around it says.  A scope is a table of the names declared in
it so far; the scopes that are open at a point of the program form a chain, from the innermost one
out to the global scope.  A name may be declared again in an inner scope, but only once in each.

## Main definitions

* `Symbol`: what a name stands for
* `Scopes`: the chain of open scopes, with `find?`, `define`, `enter` and `leave`
* `Violation`: the rules about names and returns that a program can break

## Main results

* `Scopes.leave_enter`: leaving a scope just entered restores the chain
* `Scopes.find?_define_self`, `Scopes.find?_define_of_ne`: a declaration changes the meaning of its
  own name, and of no other
-/

namespace Brew

/-- What a declared name can be. -/
inductive Symbol.Kind where
  | stored | parameter | function
deriving DecidableEq, Repr

/-- How the journal calls what a name is. -/
def Symbol.Kind.name : Symbol.Kind → String
  | stored => "Variable"
  | parameter => "Parameter"
  | function => "Function"

/-- What a name stands for. -/
structure Symbol where
  type : DataType
  kind : Symbol.Kind
deriving DecidableEq, Repr

/-- The names declared in one scope, newest first. -/
abbrev Table := List (String × Symbol)

/-- The chain of open scopes. -/
structure Scopes where
  innermost : Table
  /-- The tables of the scopes around the innermost one, from the inside out. -/
  enclosing : List Table
deriving DecidableEq, Repr

namespace Scopes

/-- The chain at the start of a program: the global scope alone. -/
def global : Scopes := ⟨[], []⟩

/-- The number of open scopes. -/
def depth (s : Scopes) : Nat := s.enclosing.length + 1

/-- What a name means: its entry in the innermost scope that has one. -/
def find? (s : Scopes) (name : String) : Option Symbol :=
  (s.innermost :: s.enclosing).findSome? fun table => table.lookup name

/-- The chain with one more name in its innermost scope, unless that scope has the name already. -/
def define (s : Scopes) (name : String) (symbol : Symbol) : Option Scopes :=
  match s.innermost.lookup name with
  | some _ => none
  | none => some { s with innermost := (name, symbol) :: s.innermost }

/-- The chain inside a new scope. -/
def enter (s : Scopes) : Scopes := ⟨[], s.innermost :: s.enclosing⟩

/-- The chain outside the innermost scope.  The global scope is never left. -/
def leave (s : Scopes) : Scopes :=
  match s.enclosing with
  | [] => s
  | table :: tables => ⟨table, tables⟩

@[simp]
theorem leave_enter (s : Scopes) : s.enter.leave = s := rfl

@[simp]
theorem depth_enter (s : Scopes) : s.enter.depth = s.depth + 1 := rfl

@[simp]
theorem find?_enter (s : Scopes) (name : String) : s.enter.find? name = s.find? name := rfl

theorem define_eq_some_iff {s t : Scopes} {name : String} {symbol : Symbol} :
    s.define name symbol = some t ↔
      s.innermost.lookup name = none ∧
        t = { s with innermost := (name, symbol) :: s.innermost } := by
  unfold define
  cases s.innermost.lookup name with
  | none => simp [eq_comm]
  | some _ => simp

theorem define_eq_none_iff {s : Scopes} {name : String} {symbol : Symbol} :
    s.define name symbol = none ↔ ∃ other, s.innermost.lookup name = some other := by
  unfold define
  cases s.innermost.lookup name with
  | none => simp
  | some other => simp

/-- A declaration gives its name a meaning. -/
theorem find?_define_self {s t : Scopes} {name : String} {symbol : Symbol}
    (h : s.define name symbol = some t) : t.find? name = some symbol := by
  obtain ⟨-, rfl⟩ := define_eq_some_iff.mp h
  simp [find?]

/-- A declaration leaves the meaning of all other names alone. -/
theorem find?_define_of_ne {s t : Scopes} {name other : String} {symbol : Symbol}
    (h : s.define name symbol = some t) (hne : other ≠ name) : t.find? other = s.find? other := by
  obtain ⟨-, rfl⟩ := define_eq_some_iff.mp h
  have hlookup : ((name, symbol) :: s.innermost).lookup other = s.innermost.lookup other := by
    rw [List.lookup_cons, beq_false_of_ne hne]
  rw [find?, find?, List.findSome?_cons, List.findSome?_cons, hlookup]

end Scopes

/-- The rules that a program can break. -/
inductive Violation where
  /-- A name is declared twice in one scope. -/
  | duplicate (name : String)
  /-- A name is used that no open scope declares. -/
  | undeclared (name : String)
  /-- The name of a function is used as a variable. -/
  | notAVariable (name : String)
  /-- A return statement stands outside of all functions. -/
  | strayReturn
deriving DecidableEq, Repr

namespace Violation

/-- What is said about a broken rule. -/
def message : Violation → String
  | duplicate name => "Variable '" ++ name ++ "' already declared in this scope"
  | undeclared name => "Variable '" ++ name ++ "' is not declared"
  | notAVariable name => "'" ++ name ++ "' names a function, not a variable"
  | strayReturn => "Return statement outside of a function body"

/-- The name a broken rule is about. -/
def name? : Violation → Option String
  | duplicate name | undeclared name | notAVariable name => some name
  | strayReturn => none

end Violation

end Brew
