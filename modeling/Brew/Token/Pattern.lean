import Brew.Token.Basic

/-!
# The lexicon

Every kind of lexeme has a **pattern**, which looks at the characters ahead and says which of them,
if any, form a lexeme of that kind.  Patterns are greedy: an identifier, a number or a text goes on
for as long as it can.  Words are plain spellings, with no regard to what follows them, so `FRint`
begins with the word `FR`.

The **lexicon** lists the patterns in the order in which they are tried.  It is an ordinary list and
a parameter of everything built on it, since the order is a choice that no result depends on.

## Main definitions

* `Pattern`, `Pattern.lexeme?`: the characters a pattern takes from the front of a text
* `Lexicon`, `Lexicon.lexeme?`: the first lexeme of a text
* `lexicon`: the patterns of the language

## Main results

* `Pattern.isPrefix_of_lexeme?`, `Pattern.ne_nil_of_lexeme?`: a pattern takes a nonempty piece from
  the front of the text, and nothing else
-/

namespace Brew

/-- How the lexemes of one kind are recognised. -/
inductive Pattern where
  /-- One of some spellings. -/
  | words (spellings : List String)
  /-- A name. -/
  | identifier
  /-- Digits, with an optional fraction. -/
  | number
  /-- A text between double quotes. -/
  | quotedText
  /-- One character between apostrophes. -/
  | quotedChar
  /-- One out of some characters. -/
  | oneOf (chars : String)
deriving DecidableEq, Repr

namespace Pattern

/-- The characters a name may go on with after its mark `wtl_`: an ASCII letter or an underscore. -/
def isNameStart (c : Char) : Bool := c.isAlpha || c = '_'

/-- The characters inside a name: ASCII letters, digits and underscores. -/
def isNamePart (c : Char) : Bool := c.isAlphanum || c = '_'

/-- The first of some spellings that the text begins with. -/
def word? (spellings : List String) (cs : List Char) : Option (List Char) :=
  (spellings.map String.toList).find? fun word => word.isPrefixOf cs

/-- A name is the mark `wtl_`, a letter or an underscore, and all name characters after it. -/
def identifier? : List Char → Option (List Char)
  | 'w' :: 't' :: 'l' :: '_' :: c :: cs =>
    if isNameStart c then some ('w' :: 't' :: 'l' :: '_' :: c :: cs.takeWhile isNamePart) else none
  | _ => none

/-- A fraction is a point followed by at least one digit; otherwise the point is left alone. -/
def fraction : List Char → List Char
  | '.' :: d :: cs => if d.isDigit then '.' :: d :: cs.takeWhile Char.isDigit else []
  | _ => []

/-- A number is a run of digits with the fraction that follows it. -/
def number? : List Char → Option (List Char)
  | d :: cs =>
    if d.isDigit then
      some (d :: cs.takeWhile Char.isDigit ++ fraction (cs.dropWhile Char.isDigit))
    else none
  | [] => none

/-- A text runs from one double quote to the next, over line ends as well. -/
def quotedText? : List Char → Option (List Char)
  | '"' :: cs => if '"' ∈ cs then some ('"' :: cs.takeWhile (· ≠ '"') ++ ['"']) else none
  | _ => none

/-- A character stands between two apostrophes; it may be anything but a line feed. -/
def quotedChar? : List Char → Option (List Char)
  | '\x27' :: c :: '\x27' :: _ => if c = '\n' then none else some ['\x27', c, '\x27']
  | _ => none

/-- One of the listed characters. -/
def oneOf? (chars : String) : List Char → Option (List Char)
  | c :: _ => if c ∈ chars.toList then some [c] else none
  | [] => none

/-- The characters that a pattern takes from the front of a text, if the text begins with a lexeme
of its kind. -/
def lexeme? : Pattern → List Char → Option (List Char)
  | words spellings => word? spellings
  | identifier => identifier?
  | number => number?
  | quotedText => quotedText?
  | quotedChar => quotedChar?
  | oneOf chars => oneOf? chars

/-- A pattern is proper if none of its spellings is empty: an empty word would be found anywhere. -/
def Proper : Pattern → Prop
  | words spellings => "" ∉ spellings
  | _ => True

instance : DecidablePred Proper
  | words _ => inferInstanceAs (Decidable (_ ∉ _))
  | identifier | number | quotedText | quotedChar | oneOf _ => inferInstanceAs (Decidable True)

/-! ## What a pattern takes -/

theorem isPrefix_fraction (cs : List Char) : fraction cs <+: cs := by
  fun_cases fraction cs with
  | case1 d cs hd =>
    exact List.cons_prefix_cons.mpr ⟨rfl, List.cons_prefix_cons.mpr
      ⟨rfl, List.takeWhile_prefix _⟩⟩
  | case2 => exact List.nil_prefix
  | case3 => exact List.nil_prefix

theorem isPrefix_takeWhile_ne {q : Char} {cs : List Char} (h : q ∈ cs) :
    cs.takeWhile (· ≠ q) ++ [q] <+: cs := by
  induction cs with
  | nil => cases h
  | cons c cs ih =>
    by_cases hc : c = q
    · simp [hc]
    · have hmem : q ∈ cs := (List.mem_cons.mp h).resolve_left fun e => hc e.symm
      have := ih hmem
      simpa [hc] using this

/-- **A pattern takes a piece from the front of the text.** -/
theorem isPrefix_of_lexeme? {p : Pattern} {cs taken : List Char} (h : p.lexeme? cs = some taken) :
    taken <+: cs := by
  cases p with
  | words spellings =>
    have := List.find?_some h
    exact List.isPrefixOf_iff_prefix.mp this
  | identifier =>
    revert h
    simp only [lexeme?]
    fun_cases identifier? cs with
    | case1 c cs hc =>
      rintro ⟨⟩
      simp [List.cons_prefix_cons, List.takeWhile_prefix]
    | case2 => rintro ⟨⟩
    | case3 => rintro ⟨⟩
  | number =>
    revert h
    simp only [lexeme?]
    fun_cases number? cs with
    | case1 d cs hd =>
      rintro ⟨⟩
      rw [List.cons_append, List.cons_prefix_cons]
      refine ⟨rfl, ?_⟩
      conv => rhs; rw [← List.takeWhile_append_dropWhile (p := Char.isDigit) (l := cs)]
      exact List.prefix_append_right_inj _ |>.mpr (isPrefix_fraction _)
    | case2 => rintro ⟨⟩
    | case3 => rintro ⟨⟩
  | quotedText =>
    revert h
    simp only [lexeme?]
    fun_cases quotedText? cs with
    | case1 cs hq =>
      rintro ⟨⟩
      rw [List.cons_append, List.cons_prefix_cons]
      exact ⟨rfl, isPrefix_takeWhile_ne hq⟩
    | case2 => rintro ⟨⟩
    | case3 => rintro ⟨⟩
  | quotedChar =>
    revert h
    simp only [lexeme?]
    fun_cases quotedChar? cs with
    | case1 => rintro ⟨⟩
    | case2 c cs hc =>
      rintro ⟨⟩
      simp [List.cons_prefix_cons]
    | case3 => rintro ⟨⟩
  | oneOf chars =>
    revert h
    simp only [lexeme?]
    fun_cases oneOf? chars cs with
    | case1 c cs hc =>
      rintro ⟨⟩
      simp [List.cons_prefix_cons]
    | case2 => rintro ⟨⟩
    | case3 => rintro ⟨⟩

/-- **A proper pattern takes at least one character.** -/
theorem ne_nil_of_lexeme? {p : Pattern} (hp : p.Proper) {cs taken : List Char}
    (h : p.lexeme? cs = some taken) : taken ≠ [] := by
  cases p with
  | words spellings =>
    rintro rfl
    obtain ⟨word, hword, hnil⟩ := List.mem_map.mp (List.mem_of_find?_eq_some h)
    exact hp (String.toList_eq_nil_iff.mp hnil ▸ hword)
  | identifier =>
    revert h
    simp only [lexeme?]
    fun_cases identifier? cs <;> rintro ⟨⟩
    exact List.cons_ne_nil _ _
  | number =>
    revert h
    simp only [lexeme?]
    fun_cases number? cs <;> rintro ⟨⟩
    exact List.cons_ne_nil _ _
  | quotedText =>
    revert h
    simp only [lexeme?]
    fun_cases quotedText? cs <;> rintro ⟨⟩
    exact List.cons_ne_nil _ _
  | quotedChar =>
    revert h
    simp only [lexeme?]
    fun_cases quotedChar? cs <;> rintro ⟨⟩
    exact List.cons_ne_nil _ _
  | oneOf chars =>
    revert h
    simp only [lexeme?]
    fun_cases oneOf? chars cs <;> rintro ⟨⟩
    exact List.cons_ne_nil _ _

end Pattern

/-! ## The lexicon -/

/-- Kinds of lexeme with their patterns, in the order in which they are tried. -/
abbrev Lexicon := List (Lexeme.Kind × Pattern)

/-- The first lexeme of a text: the lexeme of the first pattern that takes something. -/
def Lexicon.lexeme? (lexicon : Lexicon) (cs : List Char) : Option Lexeme :=
  lexicon.findSome? fun entry =>
    (entry.2.lexeme? cs).map fun taken => ⟨entry.1, String.ofList taken⟩

/-- A lexicon is proper if all its patterns are. -/
def Lexicon.Proper (lexicon : Lexicon) : Prop := ∀ entry ∈ lexicon, entry.2.Proper

instance : DecidablePred Lexicon.Proper := fun _ => inferInstanceAs (Decidable (∀ _ ∈ _, _))

/-- A lexeme found at the front of a text comes from an entry of the lexicon. -/
theorem Lexicon.exists_of_lexeme? {lexicon : Lexicon} {cs : List Char} {l : Lexeme}
    (h : lexicon.lexeme? cs = some l) :
    ∃ entry ∈ lexicon, entry.1 = l.kind ∧ entry.2.lexeme? cs = some l.text.toList := by
  obtain ⟨entry, hentry, hl⟩ := List.exists_of_findSome?_eq_some h
  obtain ⟨taken, htaken, rfl⟩ := Option.map_eq_some_iff.mp hl
  exact ⟨entry, hentry, rfl, by simpa using htaken⟩

theorem Lexicon.ne_nil_of_lexeme? {lexicon : Lexicon} (hlexicon : lexicon.Proper)
    {cs : List Char} {l : Lexeme} (h : lexicon.lexeme? cs = some l) : l.text.toList ≠ [] := by
  obtain ⟨entry, hentry, -, htaken⟩ := exists_of_lexeme? h
  exact Pattern.ne_nil_of_lexeme? (hlexicon entry hentry) htaken

/-- The words for data types. -/
def dataTypeWords : List String := ["int", "char", "float", "double", "string", "NoCap", "Tbh"]

/-- The patterns of the language. -/
def lexicon : Lexicon :=
  [(.print, .words ["spit_it_out"]),
   (.scan, .words ["gimme_that"]),
   (.declare, .words ["FR"]),
   (.dataType, .words dataTypeWords),
   (.function, .words ["Brew"]),
   (.ret, .words ["spill"]),
   (.cond, .words ["Lowkey"]),
   (.otherwise, .words ["orNah"]),
   (.identifier, .identifier),
   (.number, .number),
   (.string, .quotedText),
   (.character, .quotedChar),
   (.assign, .oneOf "="),
   (.semicolon, .oneOf ";"),
   (.leftParen, .oneOf "("),
   (.rightParen, .oneOf ")"),
   (.leftBrace, .oneOf "\x7b"),
   (.rightBrace, .oneOf "\x7d"),
   (.operator, .oneOf "+-*/%")]

end Brew
