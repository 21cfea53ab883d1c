import Brew.Syntax.Stmt
import Brew.Token.Class

/-!
# Trees that a source can spell

Not every tree of statements comes from a source: a name has to look like a name, a number like a
number, a printed text must not contain a quote, and a text cannot be an operand.  Nothing else is
asked for.

## Main definitions

* `Expr.Readable`, `Stmt.Readable`, `Stmt.ReadableAll`
-/

namespace Brew

/-- A text that can be a name. -/
def IsName (name : String) : Prop := Pattern.identifier.Describes name.toList

/-- A text that can be a number. -/
def IsNumber (spelling : String) : Prop := Pattern.number.Describes spelling.toList

/-- An expression that a source can spell. -/
def Expr.Readable : Expr → Prop
  | number spelling => IsNumber spelling
  | ident name => IsName name
  | text _ => False
  | binary _ left right => left.Readable ∧ right.Readable

/-- Something printed that a source can spell. -/
def Printed.Readable : Printed → Prop
  | text content => '"' ∉ content.toList
  | value e => e.Readable

/-- A signature that a source can spell. -/
def Signature.Readable (signature : Signature) : Prop :=
  IsName signature.name ∧ ∀ p ∈ signature.params, IsName p.name

mutual

/-- A statement that a source can spell. -/
def Stmt.Readable : Stmt → Prop
  | .declare _ name none => IsName name
  | .declare _ name (some e) => IsName name ∧ e.Readable
  | .assign name e => IsName name ∧ e.Readable
  | .print what => what.Readable
  | .scan name => IsName name
  | .branch cond thenBlock none => cond.Readable ∧ Stmt.ReadableAll thenBlock
  | .branch cond thenBlock (some elseBlock) =>
    cond.Readable ∧ Stmt.ReadableAll thenBlock ∧ Stmt.ReadableAll elseBlock
  | .function signature body => signature.Readable ∧ Stmt.ReadableAll body
  | .ret none => True
  | .ret (some e) => e.Readable

/-- Statements that a source can spell. -/
def Stmt.ReadableAll : List Stmt → Prop
  | [] => True
  | s :: rest => s.Readable ∧ Stmt.ReadableAll rest

end

end Brew
