import Mathlib.Data.List.Nodup
import Brew.Proofs.Token.Munch
import Brew.Syntax.Readable
import Brew.Token.Meaning

/-!
# The lexemes of the language

A lexeme belongs to the language if its text is in the class of its kind.  Everything that a scan
finds belongs to the language, also in a source that it does not get through.  Conversely, lexemes
of the language can be written one after the other, and a blank between them is all it takes for the
scan to find them again, wherever they come from.

## Main definitions

* `Lexicon.Contains`, `Lexicon.ContainsAll`: lexemes belong to the language of a lexicon
* `Lexeme.spaced`: lexemes with gaps behind them, as one text

## Main results

* `Lexicon.Munches.contains`: a scan finds lexemes of the language
* `Lexicon.Munches.lexeme_gap`: a lexeme before a gap is found again
* `exists_tokenize_eq_ok`: lexemes of the language are the lexemes of some source
* `tokenize_spaced`: lexemes of any sources, with gaps between them, are found again
* `Lexeme.contains_iff`: what the lexemes of a kind look like
* `Lexeme.contains_dataType`, `Lexeme.contains_operator`: the words of the lexicon are those of the
  vocabularies
* `quoted_of_tokenize`: the texts of a source stand between their quotes
-/

namespace Brew

/-- A member of a class is the longest one at the front of itself. -/
theorem Pattern.Describes.longest {pattern : Pattern} {w : List Char}
    (h : pattern.Describes w) : pattern.Longest w w :=
  ⟨h, List.prefix_rfl, fun _ _ hfront => hfront.length_le⟩

/-- Lexemes, each with what stands behind it, as one text. -/
def Lexeme.spaced (items : List (Lexeme × String)) : String :=
  String.join (items.map fun item => item.1.text ++ item.2)

theorem Lexeme.toList_spaced_cons (l : Lexeme) (gap : String) (items : List (Lexeme × String)) :
    (Lexeme.spaced ((l, gap) :: items)).toList =
      l.text.toList ++ (gap.toList ++ (Lexeme.spaced items).toList) := by
  rw [spaced, List.map_cons, String.join_cons, String.toList_append, String.toList_append,
    List.append_assoc, ← spaced]

namespace Lexicon

variable {lexicon : Lexicon} {p : Position} {cs : List Char} {s : Scan} {l : Lexeme}

/-- **A lexeme belongs to the language** of a lexicon if its text is in the class of its kind. -/
def Contains (lexicon : Lexicon) (l : Lexeme) : Prop :=
  ∃ pattern, (l.kind, pattern) ∈ lexicon ∧ pattern.Describes l.text.toList

/-- All of some lexemes belong to the language of a lexicon. -/
def ContainsAll (lexicon : Lexicon) (ls : List Lexeme) : Prop := ∀ l ∈ ls, lexicon.Contains l

@[simp]
theorem containsAll_nil : lexicon.ContainsAll [] := fun _ h => absurd h List.not_mem_nil

@[simp]
theorem containsAll_cons {ls : List Lexeme} :
    lexicon.ContainsAll (l :: ls) ↔ lexicon.Contains l ∧ lexicon.ContainsAll ls :=
  List.forall_mem_cons

@[simp]
theorem containsAll_append {ls ms : List Lexeme} :
    lexicon.ContainsAll (ls ++ ms) ↔ lexicon.ContainsAll ls ∧ lexicon.ContainsAll ms :=
  List.forall_mem_append

/-- **A scan finds lexemes of the language**, whether or not it gets stuck. -/
theorem Munches.contains (h : lexicon.Munches p cs s) :
    ∀ t ∈ s.tokens, lexicon.Contains t.toLexeme := by
  induction h with
  | finished => exact fun t ht => absurd ht List.not_mem_nil
  | stuck => exact fun t ht => absurd ht List.not_mem_nil
  | token _ hmem hlongest _ ih =>
    exact List.forall_mem_cons.mpr ⟨⟨_, hmem, hlongest.describes⟩, ih⟩

/-- **A lexeme before a gap is found again**, and the scan goes on behind the gap. -/
theorem Munches.lexeme_gap (hlexicon : lexicon.Unambiguous) (hl : lexicon.Contains l)
    {gap rest : List Char} (hgap : Gap gap) (hne : gap ≠ [])
    (hrest : lexicon.Munches (p.advance (l.text.toList ++ gap)) rest s) :
    lexicon.Munches p (l.text.toList ++ (gap ++ rest)) (s.cons ⟨l, p⟩) := by
  obtain ⟨pattern, hmem, hdescribes⟩ := hl
  obtain ⟨b, gap, rfl⟩ := List.exists_cons_of_ne_nil hne
  -- The blank keeps the lexeme from growing into what follows.
  have hblank := (List.forall_mem_cons.mp hgap).1
  have hlongest : pattern.Longest (l.text.toList ++ (b :: gap ++ rest)) l.text.toList :=
    hdescribes.longest.append_blank (hlexicon.pattern hmem) hblank (gap ++ rest)
  rw [Position.advance_append] at hrest
  exact Munches.token gap_nil hmem hlongest (hrest.gap_append hgap)

/-- A lexeme with nothing but a gap behind it is found again, also if the gap is empty. -/
theorem Munches.lexeme_last (hlexicon : lexicon.Unambiguous) (hl : lexicon.Contains l)
    {gap : List Char} (hgap : Gap gap) :
    lexicon.Munches p (l.text.toList ++ gap) (Scan.empty.cons ⟨l, p⟩) := by
  by_cases hne : gap = []
  · obtain ⟨pattern, hmem, hdescribes⟩ := hl
    rw [hne]
    refine Munches.token gap_nil hmem ?_ (.finished gap_nil)
    rw [List.append_nil]
    exact hdescribes.longest
  · have h := lexeme_gap hlexicon hl hgap hne (.finished (p := p.advance _) gap_nil)
    rwa [List.append_nil] at h

/-- **Lexemes of the language are found again** if there is a gap behind each of them, which may be
empty behind the last. -/
theorem exists_munches (hlexicon : lexicon.Unambiguous) {items : List (Lexeme × String)}
    (hcontains : lexicon.ContainsAll (items.map Prod.fst))
    (hgaps : ∀ item ∈ items, Gap item.2.toList) (hapart : ∀ item ∈ items.dropLast, item.2 ≠ "")
    (p : Position) :
    ∃ tokens, lexicon.Munches p (Lexeme.spaced items).toList ⟨tokens, none⟩ ∧
      tokens.map Token.toLexeme = items.map Prod.fst := by
  induction items generalizing p with
  | nil => exact ⟨[], .finished gap_nil, rfl⟩
  | cons item items ih =>
    obtain ⟨l, gap⟩ := item
    obtain ⟨hl, hcontains⟩ := containsAll_cons.mp hcontains
    obtain ⟨hgap, hgaps⟩ := List.forall_mem_cons.mp hgaps
    rw [Lexeme.toList_spaced_cons]
    cases items with
    | nil =>
      have hnothing : (Lexeme.spaced []).toList = [] := rfl
      rw [hnothing, List.append_nil]
      exact ⟨[⟨l, p⟩], .lexeme_last hlexicon hl hgap, rfl⟩
    | cons next items =>
      rw [List.dropLast_cons_cons] at hapart
      obtain ⟨hne, hapart⟩ := List.forall_mem_cons.mp hapart
      obtain ⟨tokens, hmunches, hlexemes⟩ :=
        ih hcontains hgaps hapart (p.advance (l.text.toList ++ gap.toList))
      refine ⟨⟨l, p⟩ :: tokens, ?_, congrArg (l :: ·) hlexemes⟩
      exact Munches.lexeme_gap hlexicon hl hgap (mt String.toList_eq_nil_iff.mp hne) hmunches

end Lexicon

/-! ## Sources and their lexemes -/

/-- The lexemes of a source belong to the language. -/
theorem containsAll_of_tokenize {source : String} {tokens : List Token}
    (h : tokenize source = .ok tokens) : lexicon.ContainsAll (tokens.map Token.toLexeme) :=
  List.forall_mem_map.mpr (tokenize_eq_ok_iff.mp h).contains

/-- **Lexemes of the language are the lexemes of some source.** -/
theorem exists_tokenize_eq_ok {ls : List Lexeme} (hls : lexicon.ContainsAll ls) :
    ∃ source tokens, tokenize source = .ok tokens ∧ tokens.map Token.toLexeme = ls := by
  have hlexemes : (ls.map fun l => (l, " ")).map Prod.fst = ls := by
    rw [List.map_map]
    exact List.map_id ls
  have hspaces : ∀ item ∈ ls.map fun l => (l, " "), item.2 = " " :=
    List.forall_mem_map.mpr fun _ _ => rfl
  rw [← hlexemes] at hls ⊢
  obtain ⟨tokens, hmunches, htokens⟩ := Lexicon.exists_munches lexicon_unambiguous hls
    (fun item hitem => hspaces item hitem ▸ gap_singleton rfl)
    (fun item hitem => hspaces item (List.dropLast_subset _ hitem) ▸ by decide) Position.start
  exact ⟨_, tokens, tokenize_eq_ok_iff.mpr hmunches, htokens⟩

/-- **Lexemes are found again.**  Lexemes that occur in any sources can be written one after the
other, with gaps between them, and these lexemes are what the text consists of. -/
theorem tokenize_spaced (first : String) (items : List (Lexeme × String))
    (hoccur : ∀ item ∈ items, ∃ source tokens, tokenize source = .ok tokens ∧
      item.1 ∈ tokens.map Token.toLexeme)
    (hfirst : Gap first.toList) (hgaps : ∀ item ∈ items, Gap item.2.toList)
    (hapart : ∀ item ∈ items.dropLast, item.2 ≠ "") :
    ∃ tokens, tokenize (first ++ Lexeme.spaced items) = .ok tokens ∧
      tokens.map Token.toLexeme = items.map Prod.fst := by
  have hcontains : lexicon.ContainsAll (items.map Prod.fst) := by
    refine List.forall_mem_map.mpr fun item hitem => ?_
    obtain ⟨source, tokens, htokens, hmem⟩ := hoccur item hitem
    exact containsAll_of_tokenize htokens item.1 hmem
  obtain ⟨tokens, hmunches, hlexemes⟩ := Lexicon.exists_munches lexicon_unambiguous hcontains hgaps
    hapart (Position.start.advance first.toList)
  refine ⟨tokens, ?_, hlexemes⟩
  rw [tokenize_eq_ok_iff, String.toList_append]
  exact hmunches.gap_append hfirst

/-- Lexemes that touch each other in their source, the last of them over two lines. -/
theorem tokenize_spaced_apart :
    tokenize "1wtl_x\"a\nb\"" = .ok [⟨⟨.number, "1"⟩, ⟨0, 1⟩⟩, ⟨⟨.identifier, "wtl_x"⟩, ⟨1, 1⟩⟩,
        ⟨⟨.string, "\"a\nb\""⟩, ⟨6, 1⟩⟩] ∧
      ∃ tokens, tokenize "\t1 wtl_x\r\n\"a\nb\"" = .ok tokens ∧ tokens.map Token.toLexeme =
        [⟨.number, "1"⟩, ⟨.identifier, "wtl_x"⟩, ⟨.string, "\"a\nb\""⟩] := by
  have hsource : tokenize "1wtl_x\"a\nb\"" = .ok [⟨⟨.number, "1"⟩, ⟨0, 1⟩⟩,
      ⟨⟨.identifier, "wtl_x"⟩, ⟨1, 1⟩⟩, ⟨⟨.string, "\"a\nb\""⟩, ⟨6, 1⟩⟩] := by decide +kernel
  refine ⟨hsource, tokenize_spaced "\t" [(⟨.number, "1"⟩, " "), (⟨.identifier, "wtl_x"⟩, "\r\n"),
    (⟨.string, "\"a\nb\""⟩, "")] ?_ (by decide) (by decide) (by decide)⟩
  intro item hitem
  refine ⟨_, _, hsource, ?_⟩
  revert item
  decide

/-! ## What the lexemes of a kind look like -/

theorem Pattern.isNamePart_of_isNameStart {c : Char} (h : isNameStart c) : isNamePart c := by
  rw [isNameStart, Bool.or_eq_true] at h
  rcases h with h | h
  · simp [isNamePart, Char.isAlphanum, h]
  · simp [isNamePart, h]

theorem Pattern.isNamePart_of_isDigit {c : Char} (h : c.isDigit) : isNamePart c := by
  simp [isNamePart, Char.isAlphanum, h]

theorem Pattern.isNamePart_of_describes_identifier {w : List Char} {c : Char}
    (h : identifier.Describes w) (hc : c ∈ w) : isNamePart c := by
  obtain ⟨d, cs, hd, hcs, rfl⟩ := h
  have hall : ∀ e ∈ 'w' :: 't' :: 'l' :: '_' :: d :: cs, isNamePart e := by
    simp only [List.forall_mem_cons]
    exact ⟨rfl, rfl, rfl, rfl, isNamePart_of_isNameStart hd, hcs⟩
  exact hall c hc

theorem nodup_kinds : (lexicon.map Prod.fst).Nodup := by decide

namespace Lexeme

variable {l : Lexeme}

/-- What the lexemes of a kind look like is said by one entry of the lexicon. -/
theorem contains_iff {p : Pattern} (hmem : (l.kind, p) ∈ lexicon) :
    lexicon.Contains l ↔ p.Describes l.text.toList := by
  constructor
  · rintro ⟨other, hother, hdescribes⟩
    obtain ⟨-, rfl⟩ := Prod.mk.inj (List.inj_on_of_nodup_map nodup_kinds hother hmem rfl)
    exact hdescribes
  · intro hdescribes
    exact ⟨p, hmem, hdescribes⟩

theorem contains_identifier (hkind : l.kind = .identifier) :
    lexicon.Contains l ↔ IsName l.text :=
  contains_iff (by rw [hkind]; decide)

theorem contains_number (hkind : l.kind = .number) : lexicon.Contains l ↔ IsNumber l.text :=
  contains_iff (by rw [hkind]; decide)

theorem contains_string (hkind : l.kind = .string) :
    lexicon.Contains l ↔ ∃ content, '"' ∉ content ∧ l.text.toList = '"' :: content ++ ['"'] :=
  contains_iff (p := .quotedText) (by rw [hkind]; decide)

/-- A text of the language stands between its quotes. -/
theorem quoted_of_contains (h : lexicon.Contains l) : l.Quoted := by
  intro hkind
  obtain ⟨content, -, htext⟩ := (contains_string hkind).mp h
  refine ⟨String.ofList content, ?_⟩
  rw [← String.toList_inj, htext]
  simp

theorem contains_dataType (hkind : l.kind = .dataType) :
    lexicon.Contains l ↔ ∃ type, DataType.keyword type = l.text := by
  rw [contains_iff (p := .words dataTypeWords) (by rw [hkind]; decide), Pattern.Describes]
  constructor
  · rintro ⟨word, hword, htext⟩
    have htype : ∃ type, DataType.keyword type = word := by
      simp only [dataTypeWords, List.mem_cons, List.not_mem_nil, or_false] at hword
      rcases hword with rfl | rfl | rfl | rfl | rfl | rfl | rfl
      exacts [⟨.int, rfl⟩, ⟨.char, rfl⟩, ⟨.float, rfl⟩, ⟨.double, rfl⟩, ⟨.string, rfl⟩,
        ⟨.noCap, rfl⟩, ⟨.tbh, rfl⟩]
    obtain ⟨type, rfl⟩ := htype
    exact ⟨type, String.toList_inj.mp htext⟩
  · rintro ⟨type, hword⟩
    refine ⟨type.keyword, ?_, by rw [hword]⟩
    cases type <;> decide

theorem contains_operator (hkind : l.kind = .operator) :
    lexicon.Contains l ↔ ∃ op, BinaryOp.symbol op = l.text := by
  have hsymbols : "+-*/%".toList = ['+', '-', '*', '/', '%'] := by decide
  rw [contains_iff (p := .oneOf "+-*/%") (by rw [hkind]; decide), Pattern.Describes, hsymbols]
  constructor
  · rintro ⟨c, hc, htext⟩
    -- Every operator is spelled by one character.
    have hop : ∃ op : BinaryOp, op.symbol.toList = [c] := by
      simp only [List.mem_cons, List.not_mem_nil, or_false] at hc
      rcases hc with rfl | rfl | rfl | rfl | rfl
      exacts [⟨.add, rfl⟩, ⟨.subtract, rfl⟩, ⟨.multiply, rfl⟩, ⟨.divide, rfl⟩, ⟨.modulo, rfl⟩]
    obtain ⟨op, hop⟩ := hop
    exact ⟨op, String.toList_inj.mp (hop.trans htext.symm)⟩
  · rintro ⟨op, hop⟩
    rw [← hop]
    cases op <;> simp [BinaryOp.symbol]

end Lexeme

/-- The texts of a source stand between their quotes. -/
theorem quoted_of_tokenize {source : String} {tokens : List Token}
    (h : tokenize source = .ok tokens) : ∀ t ∈ tokens, t.Quoted :=
  fun t ht => Lexeme.quoted_of_contains ((tokenize_eq_ok_iff.mp h).contains t ht)

end Brew
