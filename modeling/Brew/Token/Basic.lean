/-!
# Lexemes, positions and tokens

A source is read as a sequence of **lexemes**: a piece of text together with the kind of word it
is.  A **token** is a lexeme at the position where it starts.  The two halves are kept apart because
all stages after lexing look at lexemes only, and use positions for nothing but to say where
something went wrong.

## Main definitions

* `Lexeme.Kind`: the nineteen kinds of word
* `Lexeme`, `Position`, `Token`
* `Position.advance`: the position after some characters
* `Lexeme.render`, `Lexeme.describe`: the two ways a lexeme is shown

## Main results

* `Position.offset_advance`, `Position.line_advance`: an offset counts UTF-8 bytes, a line number
  counts line feeds
-/

namespace Brew

/-- The kinds of word of the language. -/
inductive Lexeme.Kind where
  | print | scan | declare | dataType | function | ret | cond | otherwise
  | identifier | number | string | character
  | assign | semicolon | leftParen | rightParen | leftBrace | rightBrace | operator
deriving DecidableEq, Repr

namespace Lexeme.Kind

/-- The name under which a kind is shown. -/
def name : Kind → String
  | print => "PRINT"
  | scan => "SCAN"
  | declare => "DECL_KEYWORD"
  | dataType => "DATATYPE"
  | function => "FUNCTION"
  | ret => "RETURN"
  | cond => "IF"
  | otherwise => "ELSE"
  | identifier => "IDENTIFIER"
  | number => "NUMBER"
  | string => "STRING"
  | character => "CHAR"
  | assign => "ASSIGN"
  | semicolon => "SEMICOLON"
  | leftParen => "LPAREN"
  | rightParen => "RPAREN"
  | leftBrace => "LBRACE"
  | rightBrace => "RBRACE"
  | operator => "OPERATOR"

/-- All kinds. -/
def all : List Kind :=
  [print, scan, declare, dataType, function, ret, cond, otherwise, identifier, number, string,
   character, assign, semicolon, leftParen, rightParen, leftBrace, rightBrace, operator]

/-- The kind shown under a name. -/
def ofName? (word : String) : Option Kind := all.find? fun kind => kind.name = word

@[simp]
theorem ofName?_name (kind : Kind) : ofName? kind.name = some kind := by
  cases kind <;> decide

/-- No two kinds are shown under one name. -/
theorem name_injective {a b : Kind} (h : a.name = b.name) : a = b := by
  have hab : some a = some b := by rw [← ofName?_name a, ← ofName?_name b, h]
  exact Option.some.inj hab

end Lexeme.Kind

/-- A word of the source: its kind and its exact text, quotes included. -/
structure Lexeme where
  kind : Lexeme.Kind
  text : String
deriving DecidableEq, Repr

namespace Lexeme

/-- A lexeme as the token listing shows it. -/
def render (l : Lexeme) : String := "(" ++ l.kind.name ++ ", " ++ l.text ++ ")"

/-- A lexeme as error messages name it. -/
def describe (l : Lexeme) : String := "'" ++ l.text ++ "' (" ++ l.kind.name ++ ")"

end Lexeme

/-! ## Positions -/

/-- A place in a source: how many UTF-8 bytes stand before it, and its line, counted from one. -/
structure Position where
  offset : Nat
  line : Nat
deriving DecidableEq, Repr

namespace Position

/-- The first place of a source. -/
def start : Position := ⟨0, 1⟩

/-- The place after one more character. -/
def next (p : Position) (c : Char) : Position :=
  ⟨p.offset + c.utf8Size, if c = '\n' then p.line + 1 else p.line⟩

/-- The place after some more characters. -/
def advance (p : Position) (cs : List Char) : Position := cs.foldl next p

@[simp]
theorem advance_nil (p : Position) : p.advance [] = p := rfl

@[simp]
theorem advance_cons (p : Position) (c : Char) (cs : List Char) :
    p.advance (c :: cs) = (p.next c).advance cs := rfl

@[simp]
theorem advance_append (p : Position) (xs ys : List Char) :
    p.advance (xs ++ ys) = (p.advance xs).advance ys := List.foldl_append

/-- Offsets count UTF-8 bytes. -/
theorem offset_advance (p : Position) (cs : List Char) :
    (p.advance cs).offset = p.offset + (String.ofList cs).utf8ByteSize := by
  induction cs generalizing p with
  | nil => rfl
  | cons c cs ih =>
    rw [advance_cons, ih, String.ofList_cons, String.utf8ByteSize_append,
      String.utf8ByteSize_singleton, next, Nat.add_assoc]

/-- Line numbers count line feeds. -/
theorem line_advance (p : Position) (cs : List Char) :
    (p.advance cs).line = p.line + cs.count '\n' := by
  induction cs generalizing p with
  | nil => rfl
  | cons c cs ih =>
    rw [advance_cons, ih, List.count_cons, next]
    by_cases h : c = '\n' <;> simp [h, Nat.add_assoc, Nat.add_comm 1]

end Position

/-- A lexeme at the place where it starts. -/
structure Token extends Lexeme, Position
deriving DecidableEq, Repr

end Brew
