import Brew.Scope.Basic
import Brew.Syntax.Stmt

/-!
# Declarations and uses in the order of the walk

The rules about names can be stated without a checker.  A program, walked from front to back, is a
sequence of **events**: a name is declared, a name is used, a function is returned from.  Each event
happens in a scope, and a scope is known by its **address**, the way that leads to it from the
global scope.  Whether an event breaks a rule depends on the events before it and on nothing else.

The order of the walk is that of the text, with two things to note: a variable is declared after its
own first value, and an assignment names its target before its value is looked at.

## Main definitions

* `Event`, `Stmt.eventsAll`: the events of a program
* `Event.Means`: what a name means at a place
* `Event.Breaks`: an event breaks a rule
* `Event.FirstBroken`: the rule that is broken first
* `WellScoped`: a program declares its names once, and before it uses them
-/

namespace Brew

/-- The way from the global scope to a scope, with the last step first.  The scopes around a scope
are the ones whose addresses are suffixes of its address. -/
abbrev Address := List Nat

/-- What can happen in a scope. -/
inductive Act where
  | declares (name : String) (kind : Symbol.Kind)
  | uses (name : String)
  /-- A return statement, inside of some function or not. -/
  | returns (inside : Bool)
deriving DecidableEq, Repr

/-- Something that happens in a scope. -/
structure Event where
  scope : Address
  act : Act
deriving DecidableEq, Repr

/-- An expression uses its names from left to right. -/
def Expr.events (scope : Address) : Expr → List Event
  | .number _ | .text _ => []
  | .ident name => [⟨scope, .uses name⟩]
  | .binary _ left right => left.events scope ++ right.events scope

/-- The parameters of a function are declared in order. -/
def Signature.events (scope : Address) (signature : Signature) : List Event :=
  signature.params.map fun p => ⟨scope, .declares p.name .parameter⟩

mutual

/-- The events of a statement, given the scope it stands in, its index in its block, and whether it
stands inside of a function.  The statement with index `i` owns the scopes numbered `2 * i` and
`2 * i + 1` of its block. -/
def Stmt.events (scope : Address) (index : Nat) (inside : Bool) : Stmt → List Event
  | .declare _ name none => [⟨scope, .declares name .stored⟩]
  | .declare _ name (some e) => e.events scope ++ [⟨scope, .declares name .stored⟩]
  | .assign name e => ⟨scope, .uses name⟩ :: e.events scope
  | .print (.text _) => []
  | .print (.value e) => e.events scope
  | .scan name => [⟨scope, .uses name⟩]
  | .branch cond thenBlock none =>
    cond.events scope ++ Stmt.eventsAll (2 * index :: scope) 0 inside thenBlock
  | .branch cond thenBlock (some elseBlock) =>
    cond.events scope ++ Stmt.eventsAll (2 * index :: scope) 0 inside thenBlock ++
      Stmt.eventsAll ((2 * index + 1) :: scope) 0 inside elseBlock
  | .function signature body =>
    ⟨scope, .declares signature.name .function⟩ :: signature.events (2 * index :: scope) ++
      Stmt.eventsAll (2 * index :: scope) 0 true body
  | .ret none => [⟨scope, .returns inside⟩]
  | .ret (some e) => ⟨scope, .returns inside⟩ :: e.events scope

/-- The events of statements, given the index of the first one. -/
def Stmt.eventsAll (scope : Address) (index : Nat) (inside : Bool) : List Stmt → List Event
  | [] => []
  | s :: rest => s.events scope index inside ++ Stmt.eventsAll scope (index + 1) inside rest

end

/-- The events of a program. -/
def events (program : List Stmt) : List Event := Stmt.eventsAll [] 0 false program

namespace Event

/-- A name was declared in a scope. -/
def Declared (earlier : List Event) (scope : Address) (name : String) (kind : Symbol.Kind) : Prop :=
  ⟨scope, .declares name kind⟩ ∈ earlier

/-- **What a name means at a place**: its declaration in the innermost scope around the place that
has declared it so far. -/
def Means (earlier : List Event) (scope : Address) (name : String) (kind : Symbol.Kind) : Prop :=
  ∃ home, home <:+ scope ∧ Declared earlier home name kind ∧
    ∀ inner, inner <:+ scope → home.length < inner.length →
      ∀ other, ¬ Declared earlier inner name other

/-- An event breaks a rule, given the events before it. -/
inductive Breaks (earlier : List Event) : Event → Violation → Prop where
  | duplicate {scope : Address} {name : String} {kind other : Symbol.Kind} :
      Declared earlier scope name other →
      Breaks earlier ⟨scope, .declares name kind⟩ (.duplicate name)
  | undeclared {scope : Address} {name : String} :
      (∀ home, home <:+ scope → ∀ kind, ¬ Declared earlier home name kind) →
      Breaks earlier ⟨scope, .uses name⟩ (.undeclared name)
  | notAVariable {scope : Address} {name : String} :
      Means earlier scope name .function →
      Breaks earlier ⟨scope, .uses name⟩ (.notAVariable name)
  | strayReturn {scope : Address} : Breaks earlier ⟨scope, .returns false⟩ .strayReturn

/-- The rule that is broken first in a sequence of events. -/
def FirstBroken (all : List Event) (v : Violation) : Prop :=
  ∃ earlier e later, all = earlier ++ e :: later ∧ Breaks earlier e v ∧
    ∀ front e' back, earlier = front ++ e' :: back → ∀ v', ¬ Breaks front e' v'

/-- The name that an event declares in a scope. -/
def declaredIn? (scope : Address) (e : Event) : Option String :=
  match e.act with
  | .declares name _ => if e.scope = scope then some name else none
  | _ => none

end Event

/-- **Lexical scoping.**  No scope declares a name twice; a name that is used has a meaning there,
which is not a function; and every return stands inside of a function. -/
structure WellScoped (program : List Stmt) : Prop where
  declaresOnce (scope : Address) :
    ((events program).filterMap (Event.declaredIn? scope)).Nodup
  usesVisible (earlier later : List Event) (scope : Address) (name : String) :
    events program = earlier ++ ⟨scope, .uses name⟩ :: later →
      ∃ kind, kind ≠ .function ∧ Event.Means earlier scope name kind
  returnsInside (scope : Address) (inside : Bool) :
    ⟨scope, .returns inside⟩ ∈ events program → inside = true

end Brew
