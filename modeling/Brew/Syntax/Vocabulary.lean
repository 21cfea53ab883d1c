import Brew.Text.Quoted

/-!
# The closed vocabularies of Brew

Two kinds of word have a fixed list of spellings: the data types and the arithmetic operators.  A
word is written in one table and read back in another, and the lexicon and the parser have lists of
their own on top of these.  No table is computed from another one, so there is something to prove
about how they agree: here for writing and reading, and for the other lists where these are used.

## Main definitions

* `DataType`, `DataType.keyword`, `DataType.ofKeyword?`: the seven data types
* `BinaryOp`, `BinaryOp.symbol`, `BinaryOp.ofSymbol?`: the five operators
* `UnknownWord`: a word that is none of the spellings

## Main results

* `DataType.ofKeyword?_eq_some_iff`, `BinaryOp.ofSymbol?_eq_some_iff`: reading a word succeeds
  exactly on the spellings, and gives back what was spelled
-/

namespace Brew

/-- A word that belongs to none of the spellings it was read against. -/
inductive UnknownWord where
  | dataType (word : String)
  | operator (word : String)
deriving DecidableEq, Repr

/-- What is said about a word that is not known. -/
def UnknownWord.message : UnknownWord → String
  | .dataType word => "Unknown data type " ++ Text.quoted word
  | .operator word => "Cannot convert " ++ Text.quoted word ++ " to BinaryOperator"

/-! ## Data types -/

/-- The data types that a declaration may name.  They are recorded and never compared. -/
inductive DataType where
  | int | char | float | double | string | noCap | tbh
deriving DecidableEq, Repr

namespace DataType

/-- The spelling of a data type. -/
def keyword : DataType → String
  | int => "int"
  | char => "char"
  | float => "float"
  | double => "double"
  | string => "string"
  | noCap => "NoCap"
  | tbh => "Tbh"

/-- The data type of a spelling. -/
def ofKeyword? : String → Option DataType
  | "int" => some int
  | "char" => some char
  | "float" => some float
  | "double" => some double
  | "string" => some string
  | "NoCap" => some noCap
  | "Tbh" => some tbh
  | _ => none

/-- The data type of a spelling, or the word as unknown. -/
def ofKeyword (word : String) : Except UnknownWord DataType :=
  match ofKeyword? word with
  | some type => .ok type
  | none => .error (.dataType word)

@[simp]
theorem ofKeyword?_keyword (type : DataType) : ofKeyword? type.keyword = some type := by
  cases type <;> decide

/-- A word reads as a data type exactly if it spells it. -/
theorem ofKeyword?_eq_some_iff {word : String} {type : DataType} :
    ofKeyword? word = some type ↔ type.keyword = word := by
  constructor
  · intro h
    unfold ofKeyword? at h
    split at h <;> cases h <;> rfl
  · rintro rfl
    exact ofKeyword?_keyword type

/-- No two data types are spelled alike. -/
theorem keyword_injective {s t : DataType} (h : s.keyword = t.keyword) : s = t :=
  Option.some.inj ((ofKeyword?_eq_some_iff.mpr h).symm.trans (ofKeyword?_keyword t))

end DataType

/-! ## Operators -/

/-- The arithmetic operators. -/
inductive BinaryOp where
  | add | subtract | multiply | divide | modulo
deriving DecidableEq, Repr

namespace BinaryOp

/-- The spelling of an operator. -/
def symbol : BinaryOp → String
  | add => "+"
  | subtract => "-"
  | multiply => "*"
  | divide => "/"
  | modulo => "%"

/-- The operator of a spelling. -/
def ofSymbol? : String → Option BinaryOp
  | "+" => some add
  | "-" => some subtract
  | "*" => some multiply
  | "/" => some divide
  | "%" => some modulo
  | _ => none

/-- The operator of a spelling, or the word as unknown. -/
def ofSymbol (word : String) : Except UnknownWord BinaryOp :=
  match ofSymbol? word with
  | some op => .ok op
  | none => .error (.operator word)

@[simp]
theorem ofSymbol?_symbol (op : BinaryOp) : ofSymbol? op.symbol = some op := by
  cases op <;> decide

/-- A word reads as an operator exactly if it spells it. -/
theorem ofSymbol?_eq_some_iff {word : String} {op : BinaryOp} :
    ofSymbol? word = some op ↔ op.symbol = word := by
  constructor
  · intro h
    unfold ofSymbol? at h
    split at h <;> cases h <;> rfl
  · rintro rfl
    exact ofSymbol?_symbol op

/-- No two operators are spelled alike. -/
theorem symbol_injective {a b : BinaryOp} (h : a.symbol = b.symbol) : a = b :=
  Option.some.inj ((ofSymbol?_eq_some_iff.mpr h).symm.trans (ofSymbol?_symbol b))

end BinaryOp

end Brew
