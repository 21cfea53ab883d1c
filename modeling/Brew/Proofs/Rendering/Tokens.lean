import Brew.Compile
import Brew.Proofs.Rendering.Delimited

/-!
# Reading a token listing back

The token listing shows every lexeme on a line of its own, as its kind and its text between
parentheses.  Nothing is escaped, so the text of a lexeme may contain whole lines of a listing, or
be a parenthesis itself.  Still the lexemes can be told from the listing, because the kind comes
first and says what the text looks like: a text between quotes ends at the next quote, a character
between apostrophes is three characters long, and whatever else there is ends before a parenthesis
that it cannot contain.

## Main results

* `Pattern.Describes.cut`: a member of a class is read back where a parenthesis is closed behind it
* `Lexeme.readBack`: a lexeme of the language is read back, with anything behind it
* `tokens_unambiguous`: sources have the same token listing exactly if they have the same lexemes
-/

namespace Brew

open Text

/-! ## Lexemes -/

/-- A closing parenthesis does not prolong a member of a class. -/
theorem Pattern.eq_nil_of_describes_append_paren {p : Pattern} {w more r r' : List Char}
    (hp : p.marks.Pairwise Apart) (hw : p.Describes w) (hmore : p.Describes (w ++ more))
    (h : ')' :: r = more ++ ')' :: r') : more = [] := by
  cases more with
  | nil => rfl
  | cons c more =>
    obtain ⟨rfl, -⟩ := List.cons.inj h
    have hpart := isNamePart_of_describes_append hp hw hmore List.mem_cons_self
    exact absurd hpart (by decide)

/-- **A member of a class is read back** where a parenthesis is closed behind it. -/
theorem Pattern.Describes.cut {p : Pattern} {w w' r r' : List Char} (hp : p.marks.Pairwise Apart)
    (hw : p.Describes w) (hw' : p.Describes w') (h : w ++ ')' :: r = w' ++ ')' :: r') :
    w = w' ∧ r = r' := by
  -- One of the two is the beginning of the other, and there is no room for more.
  rcases List.append_eq_append_iff.mp h with ⟨more, rfl, hrest⟩ | ⟨more, rfl, hrest⟩
  · obtain rfl := eq_nil_of_describes_append_paren hp hw hw' hrest
    exact ⟨(List.append_nil w).symm, (List.cons.inj hrest).2⟩
  · obtain rfl := eq_nil_of_describes_append_paren hp hw' hw hrest
    exact ⟨List.append_nil w', (List.cons.inj hrest).2.symm⟩

theorem Lexeme.Kind.word_name (kind : Kind) : Word kind.name.toList := by
  cases kind <;> simp [Word, name, isMark]

theorem Lexeme.toList_render (l : Lexeme) :
    l.render.toList = '(' :: (l.kind.name.toList ++ ',' :: ' ' :: (l.text.toList ++ [')'])) := by
  simp [render]

/-- **A lexeme of the language is read back**, with anything behind it. -/
theorem Lexeme.readBack {l : Lexeme} (hl : lexicon.Contains l) :
    ReadBack (fun l : Lexeme => l.render.toList) lexicon.Contains (fun _ => True) l := by
  obtain ⟨kind, text⟩ := l
  rintro ⟨kind', text'⟩ hl' r r' - - h
  simp only [toList_render, List.cons_append, List.append_assoc, List.nil_append, List.cons.injEq,
    true_and] at h
  obtain ⟨hname, hbehind⟩ :=
    kind.word_name.cut kind'.word_name (stops_cons.mpr rfl) (stops_cons.mpr rfl) h
  -- The kinds are the same, so both texts belong to one class.
  obtain rfl : kind = kind' := Kind.name_injective (String.toList_inj.mp hname)
  obtain ⟨p, hmem, hdescribes⟩ := hl
  have hdescribes' : p.Describes text'.toList := (contains_iff (l := ⟨kind, text'⟩) hmem).mp hl'
  obtain ⟨htext, hrest⟩ := hdescribes.cut (lexicon_unambiguous.pattern hmem) hdescribes'
    (List.cons.inj (List.cons.inj hbehind).2).2
  obtain rfl : text = text' := String.toList_inj.mp htext
  exact ⟨rfl, hrest⟩

/-! ## Listings -/

/-- Lexemes of the language are determined by their listing. -/
theorem Lexeme.lines_injective {ls ms : List Lexeme} (hls : lexicon.ContainsAll ls)
    (hms : lexicon.ContainsAll ms)
    (h : "\n".intercalate (ls.map Lexeme.render) = "\n".intercalate (ms.map Lexeme.render)) :
    ls = ms := by
  have hne : ∀ l : Lexeme, lexicon.Contains l → l.render.toList ≠ [] := by
    intro l _
    rw [toList_render]
    exact List.cons_ne_nil _ _
  exact Text.lines_injective (separates_lines trivial (fun _ => trivial) hne)
    (fun _ => Lexeme.readBack) hls hms h

theorem View.render_tokens {source : String} {tokens : List Token}
    (h : tokenize source = .ok tokens) :
    View.tokens.render source =
      .ok ("\n".intercalate ((tokens.map Token.toLexeme).map Lexeme.render)) := by
  rw [View.render, h, List.map_map]
  rfl

/-- **Sources have the same token listing exactly if they have the same lexemes.** -/
theorem tokens_unambiguous {a b : String} {ts us : List Token} (ha : tokenize a = .ok ts)
    (hb : tokenize b = .ok us) :
    View.tokens.render a = View.tokens.render b ↔
      ts.map Token.toLexeme = us.map Token.toLexeme := by
  rw [View.render_tokens ha, View.render_tokens hb]
  constructor
  · intro h
    exact Lexeme.lines_injective (containsAll_of_tokenize ha) (containsAll_of_tokenize hb)
      (Except.ok.inj h)
  · intro h
    rw [h]

/-- A text that reads like the rest of its line and a line behind it, next to the two lexemes that
it imitates, each of them followed by a parenthesis between apostrophes. -/
theorem tokens_unambiguous_imitation :
    tokenize "\"a)\n(STRING, b\" ')'" = .ok [⟨⟨.string, "\"a)\n(STRING, b\""⟩, ⟨0, 1⟩⟩,
        ⟨⟨.character, "')'"⟩, ⟨16, 2⟩⟩] ∧
      tokenize "\"a\"\"b\"')'" = .ok [⟨⟨.string, "\"a\""⟩, ⟨0, 1⟩⟩, ⟨⟨.string, "\"b\""⟩, ⟨3, 1⟩⟩,
        ⟨⟨.character, "')'"⟩, ⟨6, 1⟩⟩] ∧
      View.tokens.render "\"a)\n(STRING, b\" ')'" ≠ View.tokens.render "\"a\"\"b\"')'" := by
  have ha : tokenize "\"a)\n(STRING, b\" ')'" = .ok [⟨⟨.string, "\"a)\n(STRING, b\""⟩, ⟨0, 1⟩⟩,
      ⟨⟨.character, "')'"⟩, ⟨16, 2⟩⟩] := by decide +kernel
  have hb : tokenize "\"a\"\"b\"')'" = .ok [⟨⟨.string, "\"a\""⟩, ⟨0, 1⟩⟩,
      ⟨⟨.string, "\"b\""⟩, ⟨3, 1⟩⟩, ⟨⟨.character, "')'"⟩, ⟨6, 1⟩⟩] := by decide +kernel
  exact ⟨ha, hb, fun h => absurd ((tokens_unambiguous ha hb).mp h) (by decide)⟩

end Brew
