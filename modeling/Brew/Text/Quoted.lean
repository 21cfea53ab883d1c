import Brew.Text.Printable

/-!
# Quoted words

A diagnostic shows a word it does not know between double quotes.  Inside them the two characters
that would confuse the reader, the double quote and the backslash, carry a backslash; the common
controls have a letter of their own; every other character that does not show by itself is written
as its number in hexadecimal, between braces.  All else, an apostrophe included, stands as it is.

## Main definitions

* `escape`: how one character is written inside the quotes
* `quoted`: a word between its quotes
-/

namespace Brew.Text

/-- The number of a character, as it is written in place of one that does not show. -/
def numbered (c : Char) : List Char :=
  ['\\', 'u', '\x7b'] ++ Nat.toDigits 16 c.toNat ++ ['\x7d']

/-- How one character is written inside the quotes. -/
def escape (c : Char) : List Char :=
  match c with
  | '\x00' => ['\\', '0']
  | '\t' => ['\\', 't']
  | '\r' => ['\\', 'r']
  | '\n' => ['\\', 'n']
  | '\\' => ['\\', '\\']
  | '"' => ['\\', '"']
  | _ => if extendsGrapheme c || !isPrintable c then numbered c else [c]

/-- A word between double quotes, as diagnostics show it. -/
def quoted (word : String) : String :=
  String.ofList ('"' :: word.toList.flatMap escape ++ ['"'])

@[simp]
theorem toList_quoted (word : String) :
    (quoted word).toList = '"' :: word.toList.flatMap escape ++ ['"'] := by
  simp [quoted]

example : quoted "it's \"a\\b\"" = "\"it's \\\"a\\\\b\\\"\"" := by decide +kernel

example : quoted "\t\x7f" = "\"\\t\\u\x7b7f\x7d\"" := by decide +kernel

end Brew.Text
