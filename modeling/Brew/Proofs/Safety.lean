import Brew.Proofs.Parse.Viability
import Brew.Proofs.Scope.Restoration
import Brew.Proofs.Stages
import Brew.Proofs.Token.Cursor

/-!
# Compilation fails for reasons of the source only

A stage of the compiler relies on what the stages before it leave behind.  The parser takes the
quotes off a text without looking, reads the word of a data type or of an operator without expecting
a failure, and the checker leaves a function without asking whether it is inside one.  Each of these
is safe for a reason that lies elsewhere: in the patterns of the lexicon, in the words that the
lexicon shares with the vocabularies, in the way the checker comes back to where it started.  So a
source compiles, or it has an error of one of the three stages.

## Main results

* `Lexeme.slice_content`: the quotes of a text can be cut off
* `parse_ne_unknownWord`: no source has a word that is in no vocabulary
* `Signature.functionDepth_leaves`: the count of functions is what it was when a body is left
* `compile_safe`: no stage does what it must not do
-/

namespace Brew

open Lexeme

/-! ## Words and texts -/

/-- **The quotes of a text can be cut off**: they are its first and its last byte. -/
theorem Lexeme.slice_content {l : Lexeme} (hkind : l.kind = .string) (hl : lexicon.Contains l) :
    2 ≤ l.text.utf8ByteSize ∧ l.text.toList.head? = some '"' ∧ l.text.toList.getLast? = some '"' ∧
      Cursor.slice l.text 1 (l.text.utf8ByteSize - 1) = .ok l.content := by
  obtain ⟨content, hquotes⟩ := quoted_of_contains hl hkind
  have htext : l.text.toList = '"' :: content.toList ++ ['"'] := by
    rw [hquotes]
    simp
  have hsize : l.text.utf8ByteSize = 1 + content.utf8ByteSize + 1 := by
    rw [hquotes, String.utf8ByteSize_append, String.utf8ByteSize_append]
    rfl
  refine ⟨by omega, by rw [htext]; rfl, by rw [htext]; exact List.getLast?_concat, ?_⟩
  rw [hsize, Nat.add_sub_cancel, content_eq hquotes, hquotes]
  exact Cursor.slice_append "\"" content "\""

theorem Lexeme.exists_ofKeyword {l : Lexeme} (hkind : l.kind = .dataType)
    (hl : lexicon.Contains l) : ∃ type, DataType.ofKeyword l.text = .ok type := by
  obtain ⟨type, htype⟩ := (contains_dataType hkind).mp hl
  refine ⟨type, ?_⟩
  rw [DataType.ofKeyword, DataType.ofKeyword?_eq_some_iff.mpr htype]

theorem Lexeme.exists_ofSymbol {l : Lexeme} (hkind : l.kind = .operator)
    (hl : lexicon.Contains l) : ∃ op, BinaryOp.ofSymbol l.text = .ok op := by
  obtain ⟨op, hop⟩ := (contains_operator hkind).mp hl
  refine ⟨op, ?_⟩
  rw [BinaryOp.ofSymbol, BinaryOp.ofSymbol?_eq_some_iff.mpr hop]

/-! ## Parsing -/

/-- **No source has a word that is in no vocabulary.** -/
theorem parse_ne_unknownWord {tokens : List Token}
    (htokens : lexicon.ContainsAll (tokens.map Token.toLexeme)) (w : UnknownWord) :
    parse tokens ≠ .error (.unknownWord w) := by
  intro herror
  rcases Parse.State.initial.feed_cases tokens with
    ⟨st, hfeed⟩ | ⟨before, t, after, st, fault, rfl, hfeed, hstep⟩
  · obtain ⟨what, last, -, hmalformed⟩ := exists_of_parse_eq_error hfeed herror
    cases hmalformed
  · -- The token at fault is a data type by its kind, and so by its text.
    have hfault := Except.error.inj ((parse_of_refused hfeed hstep after).symm.trans herror)
    have ht : lexicon.Contains t.toLexeme := by
      simp only [List.map_append, List.map_cons, Lexicon.containsAll_append,
        Lexicon.containsAll_cons] at htokens
      exact htokens.2.1
    cases Parse.State.blames_of_step hstep with
    | expected what => cases hfault
    | unexpected => cases hfault
    | unknownWord hkind hword =>
      obtain ⟨type, htype⟩ := (contains_dataType hkind).mp ht
      rw [DataType.ofKeyword?_eq_some_iff.mpr htype] at hword
      cases hword

/-- A source compiles, or it has an error of one of the three stages. -/
theorem compile_cases (source : String) :
    (∃ code, compile source = .ok code) ∨ (∃ e, compile source = .error (.lexical e)) ∨
      (∃ e, compile source = .error (.syntactic e)) ∨
      ∃ v, compile source = .error (.semantic v) := by
  cases htokens : tokenize source with
  | error e =>
    refine .inr (.inl ⟨e, ?_⟩)
    rw [compile, statements, htokens]
    rfl
  | ok tokens =>
    cases hparse : parse tokens with
    | error e =>
      cases e with
      | malformed e =>
        refine .inr (.inr (.inl ⟨e, compile_eq_error ?_⟩))
        rw [statements_eq htokens, hparse]
        rfl
      | unknownWord w =>
        exact absurd hparse (parse_ne_unknownWord (containsAll_of_tokenize htokens) w)
    | ok program =>
      rw [compile_eq (statements_eq_ok_iff.mpr ⟨tokens, htokens, hparse⟩)]
      cases check program with
      | ok _ => exact .inl ⟨lower program, rfl⟩
      | error v => exact .inr (.inr (.inr ⟨v, rfl⟩))

/-! ## Checking -/

/-- A part of the walk that adds names leaves the count of functions alone. -/
theorem CheckM.Adds.functionDepth_leaves {x : CheckM Unit} {added : Table} (h : x.Adds added)
    (c : Checker) : (x.leaves c).functionDepth = c.functionDepth := by
  obtain ⟨new, -, hgrown⟩ := h.exists_grown c
  exact hgrown.depth_eq

/-- **A body leaves the count of functions as it was**, whether or not a rule is broken in it. -/
theorem Signature.functionDepth_leaves (signature : Signature) (body : List Stmt) (c : Checker) :
    ((signature.checkBody body).leaves c).functionDepth = c.functionDepth := by
  have hadds : (signature.checkBody body).Adds [] :=
    Stmt.adds_checkBlock signature.bindings body
  exact hadds.functionDepth_leaves c

/-! ## Compiling -/

/-- The tokens of a scan are lexemes of the language, also if it gets stuck. -/
theorem contains_of_mem_scan {source : String} {t : Token}
    (ht : t ∈ (lexicon.scan source).tokens) : lexicon.Contains t.toLexeme :=
  (Lexicon.munches_scanFrom lexicon_unambiguous Position.start source.toList).contains t ht

/-- **No stage does what it must not do.**  Going by byte offsets, the scan takes no slice that is
out of range or cuts through a character, and no match is empty.  A text has two quotes of one byte
each to be cut off, a data type and an operator are words of their vocabularies, and the checker
leaves a function only where it is inside one.  So a source compiles, or it has an error of one of
the three stages. -/
theorem compile_safe (source : String) :
    Cursor.scan lexicon source = .ok (lexicon.scan source) ∧
    (∀ t ∈ (lexicon.scan source).tokens,
      (t.kind = .string →
        2 ≤ t.text.utf8ByteSize ∧
        (∃ c ∈ t.text.toList.head?, c.utf8Size = 1) ∧
        (∃ c ∈ t.text.toList.getLast?, c.utf8Size = 1) ∧
        Cursor.slice t.text 1 (t.text.utf8ByteSize - 1) = .ok t.content) ∧
      (t.kind = .dataType → ∃ type, DataType.ofKeyword t.text = .ok type) ∧
      (t.kind = .operator → ∃ op, BinaryOp.ofSymbol t.text = .ok op)) ∧
    (∀ (signature : Signature) (body : List Stmt),
      (Stmt.function signature body).check =
        (CheckM.declare signature.name ⟨signature.type, .function⟩ >>= fun _ =>
          CheckM.inFunction (signature.checkBody body)) ∧
      ∀ c : Checker, 0 < ((signature.checkBody body).leaves
        { c with functionDepth := c.functionDepth + 1 }).functionDepth) ∧
    ((∃ code, compile source = .ok code) ∨ (∃ e, compile source = .error (.lexical e)) ∨
      (∃ e, compile source = .error (.syntactic e)) ∨
      ∃ v, compile source = .error (.semantic v)) := by
  refine ⟨Cursor.scan_eq lexicon_unambiguous source, ?_, ?_, compile_cases source⟩
  · intro t ht
    have hcontains := contains_of_mem_scan ht
    refine ⟨fun hkind => ?_, fun hkind => exists_ofKeyword hkind hcontains,
      fun hkind => exists_ofSymbol hkind hcontains⟩
    obtain ⟨hsize, hfirst, hlast, hslice⟩ := slice_content hkind hcontains
    exact ⟨hsize, ⟨'"', hfirst, rfl⟩, ⟨'"', hlast, rfl⟩, hslice⟩
  · intro signature body
    refine ⟨Stmt.check_function signature body, fun c => ?_⟩
    rw [Signature.functionDepth_leaves]
    exact Nat.succ_pos c.functionDepth

/-- A text with characters of several bytes, behind a word that it touches. -/
theorem compile_safe_bytes :
    Cursor.scan lexicon "spit_it_out\"é→\";" = .ok ⟨[⟨⟨.print, "spit_it_out"⟩, ⟨0, 1⟩⟩,
        ⟨⟨.string, "\"é→\""⟩, ⟨11, 1⟩⟩, ⟨⟨.semicolon, ";"⟩, ⟨18, 1⟩⟩], none⟩ ∧
      Cursor.slice "\"é→\"" 1 6 = .ok "é→" := by
  obtain ⟨hscan, htokens, -⟩ := compile_safe "spit_it_out\"é→\";"
  have hfound : lexicon.scan "spit_it_out\"é→\";" = ⟨[⟨⟨.print, "spit_it_out"⟩, ⟨0, 1⟩⟩,
      ⟨⟨.string, "\"é→\""⟩, ⟨11, 1⟩⟩, ⟨⟨.semicolon, ";"⟩, ⟨18, 1⟩⟩], none⟩ := by decide +kernel
  rw [hfound] at hscan htokens
  have htext := (htokens ⟨⟨.string, "\"é→\""⟩, ⟨11, 1⟩⟩ (by decide)).1 rfl
  exact ⟨hscan, htext.2.2.2⟩

end Brew
