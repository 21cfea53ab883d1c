import Brew.Token.Pattern

/-!
# Lexical classes

A pattern says how to find a lexeme at the front of a text.  What it looks for can be said without
any searching: the lexemes of a pattern form a class of texts.  A name, for instance, is the mark
`wtl_` followed by a letter or an underscore and then by any letters, digits and underscores.

## Main definitions

* `Pattern.Describes`: the class of a pattern

## Main results

* `Pattern.describes_of_lexeme?`: what a pattern takes belongs to its class
-/

namespace Brew

namespace Pattern

/-- A nonempty run of ASCII digits. -/
def Digits (w : List Char) : Prop := w ≠ [] ∧ ∀ c ∈ w, c.isDigit

/-- The class of texts that a pattern is meant to find. -/
def Describes : Pattern → List Char → Prop
  | words spellings, w => ∃ spelling ∈ spellings, spelling.toList = w
  | identifier, w =>
    ∃ c cs, isNameStart c ∧ (∀ d ∈ cs, isNamePart d) ∧ w = 'w' :: 't' :: 'l' :: '_' :: c :: cs
  | number, w => Digits w ∨ ∃ whole part, Digits whole ∧ Digits part ∧ w = whole ++ '.' :: part
  | quotedText, w => ∃ content, '"' ∉ content ∧ w = '"' :: content ++ ['"']
  | quotedChar, w => ∃ c, c ≠ '\n' ∧ w = ['\x27', c, '\x27']
  | oneOf chars, w => ∃ c ∈ chars.toList, w = [c]

theorem digits_cons_takeWhile {d : Char} (hd : d.isDigit) (cs : List Char) :
    Digits (d :: cs.takeWhile Char.isDigit) := by
  refine ⟨List.cons_ne_nil _ _, fun c hc => ?_⟩
  rcases List.mem_cons.mp hc with rfl | hc
  · exact hd
  · exact List.all_eq_true.mp List.all_takeWhile c hc

/-- A fraction is empty, or a point and a run of digits. -/
theorem fraction_eq (cs : List Char) :
    fraction cs = [] ∨ ∃ part, Digits part ∧ fraction cs = '.' :: part := by
  fun_cases fraction cs with
  | case1 d cs hd => exact Or.inr ⟨_, digits_cons_takeWhile hd cs, rfl⟩
  | case2 => exact Or.inl rfl
  | case3 => exact Or.inl rfl

/-- **What a pattern takes belongs to its class.** -/
theorem describes_of_lexeme? {p : Pattern} {cs taken : List Char}
    (h : p.lexeme? cs = some taken) : p.Describes taken := by
  cases p with
  | words spellings =>
    obtain ⟨spelling, hmem, heq⟩ := List.mem_map.mp (List.mem_of_find?_eq_some h)
    exact ⟨spelling, hmem, heq⟩
  | identifier =>
    revert h
    simp only [lexeme?]
    fun_cases identifier? cs <;> rintro ⟨⟩
    case case1 c cs hc =>
      exact ⟨c, _, hc, fun d hd => List.all_eq_true.mp List.all_takeWhile d hd, rfl⟩
  | number =>
    revert h
    simp only [lexeme?]
    fun_cases number? cs <;> rintro ⟨⟩
    case case1 d cs hd =>
      have hwhole := digits_cons_takeWhile hd cs
      rcases fraction_eq (cs.dropWhile Char.isDigit) with hnone | ⟨part, hpart, hsome⟩
      · rw [hnone, List.append_nil]
        exact Or.inl hwhole
      · rw [hsome]
        exact Or.inr ⟨_, part, hwhole, hpart, rfl⟩
  | quotedText =>
    revert h
    simp only [lexeme?]
    fun_cases quotedText? cs <;> rintro ⟨⟩
    case case1 cs hq =>
      refine ⟨_, fun hmem => ?_, rfl⟩
      have hne := List.all_eq_true.mp List.all_takeWhile '"' hmem
      simp at hne
  | quotedChar =>
    revert h
    simp only [lexeme?]
    fun_cases quotedChar? cs <;> rintro ⟨⟩
    case case2 c _ hc => exact ⟨c, hc, rfl⟩
  | oneOf chars =>
    revert h
    simp only [lexeme?]
    fun_cases oneOf? chars cs <;> rintro ⟨⟩
    case case1 c _ hc => exact ⟨c, hc, rfl⟩

end Pattern

end Brew
