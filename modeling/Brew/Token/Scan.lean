import Brew.Text.Blank
import Brew.Token.Pattern

/-!
# Cutting a source into tokens

The scan goes through the characters of a source once, from left to right.  Blanks are skipped; at
any other character the lexicon is asked for a lexeme, which becomes a token at this place, and the
characters it covers are passed over.  The scan ends with the source, or at the first character at
which the lexicon has nothing to offer.

The scan is structural in the characters: the ones that a lexeme still covers are counted down
rather than cut off.

## Main definitions

* `LexError`: a character at which no lexeme starts
* `Scan`: the tokens of a source up to its end, or up to an error
* `Lexicon.scan`, `Lexicon.tokenize`, `tokenize`

## Main results

* `Lexicon.scanFrom_skip`: counting characters down is the same as cutting them off
* `Lexicon.scanFrom_blank`, `Lexicon.scanFrom_lexeme`, `Lexicon.scanFrom_stuck`: the three things a
  scan does
-/

namespace Brew

/-- A character at which no lexeme starts, and its place. -/
structure LexError extends Position where
  found : Char
deriving DecidableEq, Repr

/-- What is said about a character at which no lexeme starts. -/
def LexError.message (e : LexError) : String :=
  "line " ++ toString e.line ++ ", offset " ++ toString e.offset ++ ": Unrecognized input '" ++
    e.found.toString ++ "'"

/-- The outcome of a scan: the tokens before the end, and the error if the end is one. -/
structure Scan where
  tokens : List Token
  error : Option LexError
deriving DecidableEq, Repr

namespace Scan

/-- The scan of nothing. -/
def empty : Scan := ⟨[], none⟩

/-- A scan that stops before its first token. -/
def stuck (e : LexError) : Scan := ⟨[], some e⟩

/-- A scan that finds one more token first. -/
def cons (t : Token) (s : Scan) : Scan := ⟨t :: s.tokens, s.error⟩

/-- The tokens of a source that was scanned to its end. -/
def toExcept (s : Scan) : Except LexError (List Token) :=
  match s.error with
  | none => .ok s.tokens
  | some e => .error e

end Scan

namespace Lexicon

variable (lexicon : Lexicon)

/-- Scans characters from a place on, passing over the first `covered` of them, which belong to a
lexeme already found. -/
def scanFrom (p : Position) (covered : Nat) : List Char → Scan
  | [] => Scan.empty
  | c :: cs =>
    match covered with
    | n + 1 => scanFrom (p.next c) n cs
    | 0 =>
      if Text.isBlank c then scanFrom (p.next c) 0 cs
      else
        match lexicon.lexeme? (c :: cs) with
        | none => Scan.stuck ⟨p, c⟩
        | some l => (scanFrom (p.next c) (l.text.length - 1) cs).cons ⟨l, p⟩

/-- Scans a source. -/
def scan (source : String) : Scan := lexicon.scanFrom Position.start 0 source.toList

/-- The tokens of a source, or the first character at which no lexeme starts. -/
def tokenize (source : String) : Except LexError (List Token) := (lexicon.scan source).toExcept

/-! ## The three things a scan does -/

variable {lexicon}

@[simp]
theorem scanFrom_nil (p : Position) (n : Nat) : lexicon.scanFrom p n [] = Scan.empty := by
  rw [scanFrom]

/-- Counting covered characters down is the same as cutting them off. -/
theorem scanFrom_skip (p : Position) (n : Nat) (cs : List Char) :
    lexicon.scanFrom p n cs = lexicon.scanFrom (p.advance (cs.take n)) 0 (cs.drop n) := by
  induction cs generalizing p n with
  | nil => simp
  | cons c cs ih =>
    cases n with
    | zero => rfl
    | succ n => rw [scanFrom, ih, List.take_succ_cons, List.drop_succ_cons, Position.advance_cons]

theorem scanFrom_blank (p : Position) {c : Char} (hc : Text.isBlank c) (cs : List Char) :
    lexicon.scanFrom p 0 (c :: cs) = lexicon.scanFrom (p.next c) 0 cs := by
  rw [scanFrom, if_pos hc]

theorem scanFrom_stuck (p : Position) {c : Char} (hc : Text.isBlank c = false) {cs : List Char}
    (h : lexicon.lexeme? (c :: cs) = none) :
    lexicon.scanFrom p 0 (c :: cs) = Scan.stuck ⟨p, c⟩ := by
  rw [scanFrom, if_neg (by simp [hc]), h]

/-- A lexeme becomes a token at its place, and the scan goes on behind it. -/
theorem scanFrom_lexeme (hlexicon : lexicon.Proper) (p : Position) {c : Char}
    (hc : Text.isBlank c = false) {cs rest : List Char} {l : Lexeme}
    (h : lexicon.lexeme? (c :: cs) = some l) (hrest : c :: cs = l.text.toList ++ rest) :
    lexicon.scanFrom p 0 (c :: cs) =
      (lexicon.scanFrom (p.advance l.text.toList) 0 rest).cons ⟨l, p⟩ := by
  obtain ⟨d, ds, hl⟩ := List.exists_cons_of_ne_nil (ne_nil_of_lexeme? hlexicon h)
  rw [hl, List.cons_append, List.cons.injEq] at hrest
  obtain ⟨rfl, rfl⟩ := hrest
  have hlength : l.text.length - 1 = ds.length := by
    rw [← String.length_toList, hl, List.length_cons, Nat.add_sub_cancel]
  rw [scanFrom, if_neg (by simp [hc]), h]
  simp only
  rw [hlength, scanFrom_skip, List.take_left, List.drop_left, hl, Position.advance_cons]

end Lexicon

/-- The tokens of a source, or the first character at which no lexeme of the language starts. -/
def tokenize (source : String) : Except LexError (List Token) := lexicon.tokenize source

end Brew
