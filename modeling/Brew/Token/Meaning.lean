import Brew.Syntax.Vocabulary
import Brew.Token.Basic

/-!
# What a lexeme stands for

Most lexemes matter by their kind alone.  Data types, operators and texts also have a meaning that
is read off the text of the lexeme.

## Main definitions

* `Lexeme.operatorAmong`: the operator that a lexeme spells, out of some symbols
* `Lexeme.content`: the text between the quotes of a lexeme
* `Lexeme.Quoted`: a text stands between its quotes
-/

namespace Brew.Lexeme

/-- The operator that a lexeme spells, if it is one of some symbols.  A symbol that is listed must
also be known. -/
def operatorAmong (symbols : List String) (l : Lexeme) : Except UnknownWord (Option BinaryOp) :=
  if l.kind = .operator ∧ l.text ∈ symbols then (BinaryOp.ofSymbol l.text).map some else .ok none

/-- The text between the quotes of a lexeme. -/
def content (l : Lexeme) : String := String.ofList l.text.toList.tail.dropLast

/-- If a lexeme is a text, it stands between double quotes. -/
def Quoted (l : Lexeme) : Prop := l.kind = .string → ∃ content, l.text = "\"" ++ content ++ "\""

theorem content_eq {l : Lexeme} {content : String} (h : l.text = "\"" ++ content ++ "\"") :
    l.content = content := by
  simp [Lexeme.content, h]

end Brew.Lexeme
