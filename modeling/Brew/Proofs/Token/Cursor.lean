import Brew.Proofs.Token.Lexemes
import Mathlib.Data.String.Basic

/-!
# Scanning by byte offsets

A scanner that keeps its source in one piece goes by byte offsets: it remembers where it is, takes
slices of the source, and moves on by the length of what it found.  Such a scanner can go wrong in
ways that the scan of characters cannot.  A slice may reach beyond the end or cut through a
character, and a lexeme without a byte would be found forever.  This module spells out the scanner,
with each of these as a **breach**, and shows that no breach occurs in any source.

How a length is computed differs from pattern to pattern: some count characters and some count
bytes, and a slice is right only if the characters counted have one byte each.

## Main definitions

* `Cursor.Breach`, `Cursor.slice`: what a scanner must not do, and a slice that is checked
* `Cursor.byteLength`: the length of the lexeme that a pattern finds
* `Cursor.scan`: the scan by byte offsets

## Main results

* `Cursor.byteLength_eq`: every pattern finds the length of its lexeme
* `Cursor.scan_eq`: the scan by byte offsets is free of breaches and finds what the scan of
  characters finds
-/

namespace Brew

/-- The place behind a piece of text, by its bytes and its line ends. -/
theorem Position.advance_eq (p : Position) (s : String) :
    p.advance s.toList = ⟨p.offset + s.utf8ByteSize, p.line + s.toList.count '\n'⟩ := by
  have hoffset := p.offset_advance s.toList
  have hline := p.line_advance s.toList
  rw [String.ofList_toList] at hoffset
  rw [← hoffset, ← hline]

namespace Cursor

/-- What a scanner that goes by byte offsets must not do. -/
inductive Breach where
  /-- A slice is out of range, or one of its ends is inside a character. -/
  | badSlice (start stop : Nat)
  /-- A lexeme has no byte. -/
  | emptyMatch
  /-- There is no character to complain about. -/
  | nothingLeft
deriving DecidableEq, Repr

/-! ## Slices -/

/-- The part of a text between two byte offsets. -/
def slice (s : String) (start stop : Nat) : Except Breach String :=
  if start ≤ stop ∧ String.Pos.Raw.IsValid s ⟨start⟩ ∧ String.Pos.Raw.IsValid s ⟨stop⟩ then
    .ok (String.Pos.Raw.extract s ⟨start⟩ ⟨stop⟩)
  else .error (.badSlice start stop)

/-- A slice between two ends of characters is what stands there. -/
theorem slice_append (a m b : String) :
    slice (a ++ m ++ b) a.utf8ByteSize (a.utf8ByteSize + m.utf8ByteSize) = .ok m := by
  have hstart : String.Pos.Raw.IsValid (a ++ m ++ b) ⟨a.utf8ByteSize⟩ :=
    String.Pos.Raw.isValid_iff_exists_append.mpr ⟨a, m ++ b, String.append_assoc, rfl⟩
  have hstop : String.Pos.Raw.IsValid (a ++ m ++ b) ⟨a.utf8ByteSize + m.utf8ByteSize⟩ :=
    String.Pos.Raw.isValid_iff_exists_append.mpr
      ⟨a ++ m, b, rfl, by simp [String.rawEndPos]⟩
  rw [slice, if_pos ⟨Nat.le_add_right .., hstart, hstop⟩]
  have hextract := String.extract_of_valid a.toList m.toList b.toList
  simp only [← String.utf8ByteSize_ofList, String.ofList_append, String.ofList_toList] at hextract
  exact congrArg Except.ok hextract

/-- A slice up to the end. -/
theorem slice_back (a b : String) :
    slice (a ++ b) a.utf8ByteSize (a ++ b).utf8ByteSize = .ok b := by
  have h := slice_append a b ""
  rwa [String.append_empty, ← String.utf8ByteSize_append] at h

/-- A slice from the start. -/
theorem slice_front (a b : String) : slice (a ++ b) 0 a.utf8ByteSize = .ok a := by
  have h := slice_append "" a b
  rwa [String.empty_append, String.utf8ByteSize_empty, Nat.zero_add] at h

theorem le_of_slice_eq_ok {s t : String} {start stop : Nat} (h : slice s start stop = .ok t) :
    stop ≤ s.utf8ByteSize := by
  unfold slice at h
  split at h
  · next hvalid => exact hvalid.2.2.le_rawEndPos
  · cases h

/-! ## Lengths -/

/-- Whether a byte is an ASCII digit. -/
def isDigitByte (b : UInt8) : Bool := 48 ≤ b && b ≤ 57

/-- The number of ASCII digits among the first bytes of a text. -/
def leadingDigits (text : String) : Nat :=
  (text.toByteArray.data.toList.takeWhile isDigitByte).length

/-- The number of digits behind a point. -/
def fractionDigits : List Char → Nat
  | '.' :: cs => leadingDigits (String.ofList cs)
  | _ => 0

/-- The length of a number: its bytes are counted, and a slice is taken behind the first digits. -/
def numberLength (rest : String) : Except Breach (Option Nat) := do
  let whole := leadingDigits rest
  if whole = 0 then
    return none
  let behind ← slice rest whole rest.utf8ByteSize
  let part := fractionDigits behind.toList
  return some (if 0 < part then whole + 1 + part else whole)

/-- The length of a name: the characters behind its mark are counted. -/
def identifierLength : List Char → Option Nat
  | 'w' :: 't' :: 'l' :: '_' :: c :: cs =>
    if Pattern.isNameStart c then some (4 + 1 + (cs.takeWhile Pattern.isNamePart).length) else none
  | _ => none

/-- The length of a quoted text: the offset of the second quote, and the two quotes. -/
def textLength : List Char → Option Nat
  | '"' :: cs =>
    if '"' ∈ cs then some ((String.ofList (cs.takeWhile (· ≠ '"'))).utf8ByteSize + 2) else none
  | _ => none

/-- The length of a quoted character: its own length, and the two apostrophes. -/
def charLength : List Char → Option Nat
  | '\x27' :: c :: '\x27' :: _ => if c = '\n' then none else some (2 + c.utf8Size)
  | _ => none

/-- The length of one of some characters. -/
def oneOfLength (chars : String) : List Char → Option Nat
  | c :: _ => if c ∈ chars.toList then some c.utf8Size else none
  | [] => none

/-- The length of one of some words. -/
def wordLength (spellings : List String) (cs : List Char) : Option Nat :=
  (spellings.find? fun word => word.toList.isPrefixOf cs).map String.utf8ByteSize

/-- **The number of bytes that a pattern takes** from the front of a text. -/
def byteLength (rest : String) : Pattern → Except Breach (Option Nat)
  | .words spellings => .ok (wordLength spellings rest.toList)
  | .identifier => .ok (identifierLength rest.toList)
  | .number => numberLength rest
  | .quotedText => .ok (textLength rest.toList)
  | .quotedChar => .ok (charLength rest.toList)
  | .oneOf chars => .ok (oneOfLength chars rest.toList)

/-- The kind and the length of the first lexeme of a text. -/
def firstMatch (lexicon : Lexicon) (rest : String) : Except Breach (Option (Lexeme.Kind × Nat)) :=
  lexicon.findSomeM? fun entry => do
    let length ← byteLength rest entry.2
    return length.map fun n => (entry.1, n)

/-! ## The scanner -/

/-- Moves on over some bytes, and counts the lines. -/
def advance (source : String) (p : Position) (length : Nat) : Except Breach Position := do
  let consumed ← slice source p.offset (p.offset + length)
  return ⟨p.offset + length, p.line + consumed.toList.count '\n'⟩

/-- Moves on over blanks, and says whether anything is left behind them. -/
def skipBlanks (source : String) (p : Position) : Except Breach (Position × Bool) := do
  let rest ← slice source p.offset source.utf8ByteSize
  let trimmed := String.ofList (rest.toList.dropWhile Text.isBlank)
  let p ← advance source p (rest.utf8ByteSize - trimmed.utf8ByteSize)
  return (p, trimmed ≠ "")

/-- The next token and the place behind it, or the character at which there is none. -/
def nextToken (lexicon : Lexicon) (source : String) (p : Position) :
    Except Breach (Except LexError (Token × Position)) := do
  let rest ← slice source p.offset source.utf8ByteSize
  match ← firstMatch lexicon rest with
  | none =>
    match rest.toList with
    | [] => throw .nothingLeft
    | c :: _ => return .error ⟨p, c⟩
  | some (kind, length) =>
    if length = 0 then
      throw .emptyMatch
    let text ← slice rest 0 length
    let next ← advance source p length
    return .ok (⟨⟨kind, text⟩, p⟩, next)

/-- What a scanner finds at a place, behind the blanks. -/
inductive Found where
  | finished
  | stuck (e : LexError)
  | token (t : Token) (next : Position)
deriving DecidableEq, Repr

/-- What the scanner finds at a place. -/
def find (lexicon : Lexicon) (source : String) (p : Position) : Except Breach Found := do
  let (p, left) ← skipBlanks source p
  if left then
    match ← nextToken lexicon source p with
    | .error e => return .stuck e
    | .ok (t, next) => return .token t next
  else return .finished

@[simp]
theorem ok_bind {α β : Type} (a : α) (f : α → Except Breach β) : Except.ok a >>= f = f a := rfl

theorem exists_of_bind_eq_ok {α β : Type} {x : Except Breach α} {f : α → Except Breach β} {b : β}
    (h : x >>= f = .ok b) : ∃ a, x = .ok a ∧ f a = .ok b := by
  cases x with
  | error breach => cases h
  | ok a => exact ⟨a, rfl, h⟩

section Progress

variable {lexicon : Lexicon} {source : String} {p q next : Position} {n : Nat} {t : Token}

theorem advance_eq_ok (h : advance source p n = .ok q) :
    q.offset = p.offset + n ∧ q.offset ≤ source.utf8ByteSize := by
  obtain ⟨consumed, hslice, h⟩ := exists_of_bind_eq_ok h
  cases h
  exact ⟨rfl, le_of_slice_eq_ok hslice⟩

theorem le_of_skipBlanks {left : Bool} (h : skipBlanks source p = .ok (q, left)) :
    p.offset ≤ q.offset := by
  obtain ⟨rest, -, h⟩ := exists_of_bind_eq_ok h
  obtain ⟨q', hadvance, h⟩ := exists_of_bind_eq_ok h
  cases h
  rw [(advance_eq_ok hadvance).1]
  exact Nat.le_add_right ..

theorem lt_of_nextToken (h : nextToken lexicon source p = .ok (.ok (t, next))) :
    p.offset < next.offset ∧ next.offset ≤ source.utf8ByteSize := by
  obtain ⟨rest, -, h⟩ := exists_of_bind_eq_ok h
  obtain ⟨found, -, h⟩ := exists_of_bind_eq_ok h
  split at h
  · split at h
    · cases h
    · cases h
  · next kind length =>
    split at h
    · cases h
    · next hlength =>
      obtain ⟨text, -, h⟩ := exists_of_bind_eq_ok h
      obtain ⟨next', hadvance, h⟩ := exists_of_bind_eq_ok h
      cases h
      obtain ⟨hoffset, hle⟩ := advance_eq_ok hadvance
      exact ⟨by omega, hle⟩

/-- A token takes the scanner further. -/
theorem lt_of_find (h : find lexicon source p = .ok (.token t next)) :
    p.offset < next.offset ∧ next.offset ≤ source.utf8ByteSize := by
  obtain ⟨⟨q, left⟩, hskip, h⟩ := exists_of_bind_eq_ok h
  cases left with
  | false => cases h
  | true =>
    obtain ⟨found, hnext, h⟩ := exists_of_bind_eq_ok h
    cases found with
    | error e => cases h
    | ok found =>
      cases h
      obtain ⟨hlt, hle⟩ := lt_of_nextToken hnext
      exact ⟨Nat.lt_of_le_of_lt (le_of_skipBlanks hskip) hlt, hle⟩

end Progress

/-- **The scan by byte offsets**, from a place on. -/
def scanFrom (lexicon : Lexicon) (source : String) (p : Position) : Except Breach Scan :=
  match _hfind : find lexicon source p with
  | .error b => .error b
  | .ok .finished => .ok Scan.empty
  | .ok (.stuck e) => .ok (Scan.stuck e)
  | .ok (.token t next) => (scanFrom lexicon source next).map (Scan.cons t)
termination_by source.utf8ByteSize - p.offset
decreasing_by
  have hprogress := lt_of_find _hfind
  omega

/-- The scan of a source by byte offsets. -/
def scan (lexicon : Lexicon) (source : String) : Except Breach Scan :=
  scanFrom lexicon source Position.start

/-! ## Lengths of lexemes -/

/-- A run of characters of one byte each has as many bytes as characters. -/
theorem utf8Len_eq_length {cs : List Char} (h : ∀ c ∈ cs, c.utf8Size = 1) :
    String.utf8Len cs = cs.length := by
  induction cs with
  | nil => rfl
  | cons c cs ih =>
    obtain ⟨hc, hcs⟩ := List.forall_mem_cons.mp h
    rw [String.utf8Len_cons, ih hcs, hc, List.length_cons]

theorem utf8Size_of_isNamePart {c : Char} (h : Pattern.isNamePart c) : c.utf8Size = 1 := by
  rw [Char.utf8Size_eq_one_iff, UInt32.le_iff_toNat_le]
  change (decide (c.val ≥ 'A'.val ∧ c.val ≤ 'Z'.val) || (c.val ≥ 'a'.val && c.val ≤ 'z'.val) ||
    (c.val ≥ '0'.val && c.val ≤ '9'.val) || c = '_') = true at h
  simp only [Bool.or_eq_true, Bool.and_eq_true, decide_eq_true_eq, UInt32.le_iff_toNat_le] at h
  rcases h with ((h | h) | h) | rfl
  · exact h.2.trans (by decide)
  · exact h.2.trans (by decide)
  · exact h.2.trans (by decide)
  · decide

theorem utf8Size_of_isDigit {c : Char} (h : c.isDigit) : c.utf8Size = 1 :=
  utf8Size_of_isNamePart (Pattern.isNamePart_of_isDigit h)

theorem wordLength_eq (spellings : List String) (cs : List Char) :
    wordLength spellings cs = (Pattern.word? spellings cs).map String.utf8Len := by
  rw [wordLength, Pattern.word?, List.find?_map, Option.map_map]
  congr 1
  funext word
  rw [Function.comp_apply, ← String.utf8ByteSize_ofList, String.ofList_toList]

theorem identifierLength_eq (cs : List Char) :
    identifierLength cs = (Pattern.identifier? cs).map String.utf8Len := by
  fun_cases identifierLength cs with
  | case1 c cs hc =>
    have hstart : c.utf8Size = 1 := utf8Size_of_isNamePart (Pattern.isNamePart_of_isNameStart hc)
    have htail : String.utf8Len (cs.takeWhile Pattern.isNamePart) =
        (cs.takeWhile Pattern.isNamePart).length := utf8Len_eq_length fun d hd =>
      utf8Size_of_isNamePart (List.all_eq_true.mp List.all_takeWhile d hd)
    rw [Pattern.identifier?, if_pos hc, Option.map_some, Option.some_inj]
    simp only [String.utf8Len_cons, htail, hstart]
    have hmark : 'w'.utf8Size + 't'.utf8Size + 'l'.utf8Size + '_'.utf8Size = 4 := rfl
    omega
  | case2 c cs hc => rw [Pattern.identifier?, if_neg hc, Option.map_none]
  | case3 cs hcs => rw [Pattern.identifier?.eq_2 cs hcs, Option.map_none]

theorem textLength_eq (cs : List Char) :
    textLength cs = (Pattern.quotedText? cs).map String.utf8Len := by
  fun_cases textLength cs with
  | case1 cs hq =>
    rw [Pattern.quotedText?, if_pos hq, Option.map_some, Option.some_inj, List.cons_append,
      String.utf8Len_cons, String.utf8Len_append, String.utf8ByteSize_ofList]
    rfl
  | case2 cs hq => rw [Pattern.quotedText?, if_neg hq, Option.map_none]
  | case3 => simp [Pattern.quotedText?]

theorem charLength_eq (cs : List Char) :
    charLength cs = (Pattern.quotedChar? cs).map String.utf8Len := by
  fun_cases charLength cs with
  | case1 => simp [Pattern.quotedChar?]
  | case2 c cs hc =>
    rw [Pattern.quotedChar?, if_neg hc, Option.map_some, Option.some_inj]
    simp only [String.utf8Len_cons, String.utf8Len_nil]
    have hmarks : '\x27'.utf8Size = 1 := rfl
    omega
  | case3 => simp [Pattern.quotedChar?]

theorem oneOfLength_eq (chars : String) (cs : List Char) :
    oneOfLength chars cs = (Pattern.oneOf? chars cs).map String.utf8Len := by
  fun_cases oneOfLength chars cs with
  | case1 c cs hc => simp [Pattern.oneOf?, hc]
  | case2 c cs hc => simp [Pattern.oneOf?, hc]
  | case3 => rfl

/-! ### Numbers -/

theorem isDigitByte_iff {b : UInt8} : isDigitByte b ↔ 48 ≤ b.toNat ∧ b.toNat ≤ 57 := by
  simp [isDigitByte, UInt8.le_iff_toNat_le]

theorem isDigit_iff {c : Char} : c.isDigit ↔ 48 ≤ c.toNat ∧ c.toNat ≤ 57 := by
  simp [Char.isDigit, UInt32.le_iff_toNat_le]

/-- The first byte of a character that is not ASCII is not ASCII either. -/
theorem exists_firstByte_of_large {c : Char} (h : 127 < c.toNat) :
    ∃ b bs, String.utf8EncodeChar c = b :: bs ∧ 128 ≤ b.toNat := by
  have hlarge : ¬ c.val.toNat ≤ 127 := Nat.not_le.mpr h
  rw [String.utf8EncodeChar]
  simp only [hlarge, if_false]
  split
  · refine ⟨_, _, rfl, ?_⟩
    rw [UInt8.toNat_ofNat']
    omega
  · split
    · refine ⟨_, _, rfl, ?_⟩
      rw [UInt8.toNat_ofNat']
      omega
    · refine ⟨_, _, rfl, ?_⟩
      rw [UInt8.toNat_ofNat']
      omega

/-- A digit can be told by its first byte, which is all of it. -/
theorem exists_firstByte (c : Char) :
    ∃ b bs, String.utf8EncodeChar c = b :: bs ∧ isDigitByte b = c.isDigit ∧
      (c.isDigit → bs = []) := by
  rcases Nat.lt_or_ge 127 c.toNat with hlarge | hsmall
  · obtain ⟨b, bs, hencode, hb⟩ := exists_firstByte_of_large hlarge
    have hbyte : isDigitByte b = false := by
      rw [Bool.eq_false_iff, ne_eq, isDigitByte_iff]
      omega
    have hdigit : c.isDigit = false := by
      rw [Bool.eq_false_iff, ne_eq, isDigit_iff]
      omega
    exact ⟨b, bs, hencode, hbyte.trans hdigit.symm, fun h => absurd h (Bool.eq_false_iff.mp hdigit)⟩
  · refine ⟨UInt8.ofNat c.toNat, [], if_pos hsmall, ?_, fun _ => rfl⟩
    rw [Bool.eq_iff_iff, isDigitByte_iff, isDigit_iff, UInt8.toNat_ofNat']
    omega

/-- Counting the bytes that are digits counts the characters that are digits. -/
theorem leadingDigits_eq (text : String) :
    leadingDigits text = (text.toList.takeWhile Char.isDigit).length := by
  rw [leadingDigits, ← String.utf8Encode_toList, List.utf8Encode, List.data_toByteArray]
  induction text.toList with
  | nil => rfl
  | cons c cs ih =>
    obtain ⟨b, bs, hencode, hbyte, hrest⟩ := exists_firstByte c
    rw [List.flatMap_cons, hencode]
    cases hc : c.isDigit with
    | true =>
      rw [hrest hc, List.singleton_append, List.takeWhile_cons_of_pos (hbyte.trans hc),
        List.takeWhile_cons_of_pos hc, List.length_cons, List.length_cons, ih]
    | false =>
      rw [List.cons_append, List.takeWhile_cons_of_neg (by simp [hbyte, hc]),
        List.takeWhile_cons_of_neg (by simp [hc])]
      rfl

theorem utf8Len_takeWhile_isDigit (cs : List Char) :
    String.utf8Len (cs.takeWhile Char.isDigit) = (cs.takeWhile Char.isDigit).length :=
  utf8Len_eq_length fun d hd => utf8Size_of_isDigit (List.all_eq_true.mp List.all_takeWhile d hd)

/-- The bytes of a fraction: none without a digit, else the point and the digits. -/
theorem utf8Len_fraction (cs : List Char) :
    String.utf8Len (Pattern.fraction cs) =
      if 0 < fractionDigits cs then 1 + fractionDigits cs else 0 := by
  have hpoint : '.'.utf8Size = 1 := rfl
  fun_cases Pattern.fraction cs with
  | case1 d cs hd =>
    have hdigits : fractionDigits ('.' :: d :: cs) = (cs.takeWhile Char.isDigit).length + 1 := by
      rw [fractionDigits, leadingDigits_eq, String.toList_ofList, List.takeWhile_cons_of_pos hd,
        List.length_cons]
    rw [hdigits, if_pos (Nat.succ_pos _), String.utf8Len_cons, String.utf8Len_cons,
      utf8Len_takeWhile_isDigit, utf8Size_of_isDigit hd, hpoint, Nat.add_comm]
  | case2 d cs hd =>
    have hdigits : fractionDigits ('.' :: d :: cs) = 0 := by
      rw [fractionDigits, leadingDigits_eq, String.toList_ofList, List.takeWhile_cons_of_neg hd]
      rfl
    rw [hdigits]
    rfl
  | case3 cs hcs =>
    have hdigits : fractionDigits cs = 0 := by
      unfold fractionDigits
      split
      · next ds =>
        cases ds with
        | nil => rfl
        | cons d ds => exact absurd rfl (hcs d ds)
      · rfl
    rw [hdigits]
    rfl

/-- The slice that is taken behind the first digits of a number. -/
theorem slice_behind_digits (rest : String) :
    slice rest (rest.toList.takeWhile Char.isDigit).length rest.utf8ByteSize =
      .ok (String.ofList (rest.toList.dropWhile Char.isDigit)) := by
  have hsplit : String.ofList (rest.toList.takeWhile Char.isDigit) ++
      String.ofList (rest.toList.dropWhile Char.isDigit) = rest := by
    rw [← String.ofList_append, List.takeWhile_append_dropWhile, String.ofList_toList]
  have hslice := slice_back (String.ofList (rest.toList.takeWhile Char.isDigit))
    (String.ofList (rest.toList.dropWhile Char.isDigit))
  rwa [hsplit, String.utf8ByteSize_ofList, utf8Len_takeWhile_isDigit] at hslice

theorem numberLength_eq (rest : String) :
    numberLength rest = .ok ((Pattern.number? rest.toList).map String.utf8Len) := by
  have hslice := slice_behind_digits rest
  rw [numberLength, leadingDigits_eq]
  cases hcs : rest.toList with
  | nil => rfl
  | cons d cs =>
    rw [hcs] at hslice
    cases hd : d.isDigit with
    | false =>
      have hnumber : Pattern.number? (d :: cs) = none := by
        rw [Pattern.number?, if_neg (Bool.eq_false_iff.mp hd)]
      rw [List.takeWhile_cons_of_neg (Bool.eq_false_iff.mp hd), hnumber]
      rfl
    | true =>
      rw [List.takeWhile_cons_of_pos hd, List.dropWhile_cons_of_pos hd] at hslice
      have hrun : String.utf8Len (d :: cs.takeWhile Char.isDigit) =
          (d :: cs.takeWhile Char.isDigit).length := by
        rw [← List.takeWhile_cons_of_pos hd, utf8Len_takeWhile_isDigit]
      have hnumber : (Pattern.number? (d :: cs)).map String.utf8Len =
          some ((d :: cs.takeWhile Char.isDigit).length +
            String.utf8Len (Pattern.fraction (cs.dropWhile Char.isDigit))) := by
        rw [Pattern.number?, if_pos hd, Option.map_some, String.utf8Len_append, hrun]
      rw [List.takeWhile_cons_of_pos hd, hnumber, utf8Len_fraction]
      rw [if_neg (by simp), hslice]
      simp only [ok_bind, String.toList_ofList]
      split
      · rw [Nat.add_assoc]
        rfl
      · rfl

/-- **Every pattern finds the length of its lexeme**, without a breach. -/
theorem byteLength_eq (rest : String) (pattern : Pattern) :
    byteLength rest pattern = .ok ((pattern.lexeme? rest.toList).map String.utf8Len) := by
  cases pattern with
  | words spellings => exact congrArg Except.ok (wordLength_eq spellings rest.toList)
  | identifier => exact congrArg Except.ok (identifierLength_eq rest.toList)
  | number => exact numberLength_eq rest
  | quotedText => exact congrArg Except.ok (textLength_eq rest.toList)
  | quotedChar => exact congrArg Except.ok (charLength_eq rest.toList)
  | oneOf chars => exact congrArg Except.ok (oneOfLength_eq chars rest.toList)

theorem firstMatch_eq (lexicon : Lexicon) (rest : String) :
    firstMatch lexicon rest =
      .ok ((lexicon.lexeme? rest.toList).map fun l => (l.kind, l.text.utf8ByteSize)) := by
  induction lexicon with
  | nil => rfl
  | cons entry lexicon ih =>
    rw [firstMatch, List.findSomeM?_cons, byteLength_eq, Lexicon.lexeme?, List.findSome?_cons]
    cases hl : entry.2.lexeme? rest.toList with
    | none => exact ih
    | some taken =>
      simp only [Option.map_some, ← String.utf8ByteSize_ofList]
      rfl

/-! ## The scanner is free of breaches -/

section Faithful

variable {lexicon : Lexicon} {before after rest : String} {p : Position} {cs : List Char} {s : Scan}

/-- Moving on over a piece of the source. -/
theorem advance_piece (hp : p.offset = before.utf8ByteSize) (piece : String) :
    advance (before ++ piece ++ after) p piece.utf8ByteSize = .ok (p.advance piece.toList) := by
  rw [advance, hp, slice_append, Position.advance_eq, hp]
  rfl

/-- Moving on over a gap of blanks. -/
theorem skipBlanks_gap (hp : p.offset = before.utf8ByteSize) {gap : String} (hgap : Gap gap.toList)
    (hrest : ∀ c ∈ rest.toList.head?, Text.isBlank c = false) :
    skipBlanks (before ++ gap ++ rest) p =
      .ok (p.advance gap.toList, decide (rest ≠ "")) := by
  have hslice : slice (before ++ gap ++ rest) p.offset (before ++ gap ++ rest).utf8ByteSize =
      .ok (gap ++ rest) := by
    rw [hp, String.append_assoc]
    exact slice_back before (gap ++ rest)
  have htrimmed : String.ofList ((gap ++ rest).toList.dropWhile Text.isBlank) = rest := by
    rw [String.toList_append, List.dropWhile_append_of_pos hgap]
    cases hcs : rest.toList with
    | nil => rw [List.dropWhile_nil, ← hcs, String.ofList_toList]
    | cons c cs =>
      have hc : Text.isBlank c = false := hrest c (by rw [hcs]; rfl)
      rw [List.dropWhile_cons_of_neg (Bool.eq_false_iff.mp hc), ← hcs, String.ofList_toList]
  have hlength : (gap ++ rest).utf8ByteSize - rest.utf8ByteSize = gap.utf8ByteSize := by
    rw [String.utf8ByteSize_append, Nat.add_sub_cancel]
  rw [skipBlanks, hslice, ok_bind, htrimmed]
  simp only [hlength, advance_piece hp]
  rfl

/-- The character at which there is no lexeme. -/
theorem nextToken_stuck (hp : p.offset = before.utf8ByteSize) {c : Char}
    (hrest : rest.toList = c :: cs) (hnone : lexicon.lexeme? (c :: cs) = none) :
    nextToken lexicon (before ++ rest) p = .ok (.error ⟨p, c⟩) := by
  rw [nextToken, hp, slice_back, ok_bind, firstMatch_eq, hrest, hnone]
  rfl

/-- The next token and the place behind it. -/
theorem nextToken_lexeme (hp : p.offset = before.utf8ByteSize) {l : Lexeme} (hne : l.text ≠ "")
    (hl : lexicon.lexeme? (l.text ++ after).toList = some l) :
    nextToken lexicon (before ++ (l.text ++ after)) p =
      .ok (.ok (⟨l, p⟩, p.advance l.text.toList)) := by
  have hlength : l.text.utf8ByteSize ≠ 0 := by
    rwa [ne_eq, String.utf8ByteSize_eq_zero_iff]
  rw [nextToken, hp, slice_back, ok_bind, firstMatch_eq, hl, Option.map_some, ok_bind]
  simp only [hlength, if_false]
  rw [slice_front, ok_bind, ← String.append_assoc, advance_piece hp]
  rfl

theorem find_finished (hp : p.offset = before.utf8ByteSize) {gap : String}
    (hgap : Gap gap.toList) : find lexicon (before ++ gap) p = .ok .finished := by
  have hskip : skipBlanks (before ++ gap ++ "") p = .ok (p.advance gap.toList, false) :=
    skipBlanks_gap hp hgap fun _ h => nomatch h
  rw [String.append_empty] at hskip
  rw [find, hskip]
  rfl

/-- What is found behind a gap is what stands there. -/
theorem find_gap (hp : p.offset = before.utf8ByteSize) {gap : String} (hgap : Gap gap.toList)
    {c : Char} (hrest : rest.toList = c :: cs) (hc : Text.isBlank c = false) :
    find lexicon (before ++ gap ++ rest) p =
      nextToken lexicon (before ++ gap ++ rest) (p.advance gap.toList) >>= fun
        | .error e => .ok (.stuck e)
        | .ok (t, next) => .ok (.token t next) := by
  have hne : rest ≠ "" := by
    rintro rfl
    exact nomatch hrest
  have hhead : ∀ d ∈ rest.toList.head?, Text.isBlank d = false := by
    rw [hrest]
    rintro d ⟨⟩
    exact hc
  rw [find, skipBlanks_gap hp hgap hhead, ok_bind]
  simp only [hne, ne_eq, not_false_eq_true, decide_true, if_true]
  rfl

theorem offset_advance_append (hp : p.offset = before.utf8ByteSize) (piece : String) :
    (p.advance piece.toList).offset = (before ++ piece).utf8ByteSize := by
  rw [Position.advance_eq, hp, String.utf8ByteSize_append]

theorem find_stuck (hp : p.offset = before.utf8ByteSize) {gap : String} (hgap : Gap gap.toList)
    {c : Char} (hrest : rest.toList = c :: cs) (hc : Text.isBlank c = false)
    (hnone : lexicon.lexeme? (c :: cs) = none) :
    find lexicon (before ++ gap ++ rest) p = .ok (.stuck ⟨p.advance gap.toList, c⟩) := by
  rw [find_gap hp hgap hrest hc, nextToken_stuck (offset_advance_append hp gap) hrest hnone]
  rfl

theorem find_lexeme (hp : p.offset = before.utf8ByteSize) {gap : String} (hgap : Gap gap.toList)
    {l : Lexeme} {c : Char} (htext : l.text.toList = c :: cs) (hc : Text.isBlank c = false)
    (hl : lexicon.lexeme? (l.text ++ after).toList = some l) :
    find lexicon (before ++ gap ++ (l.text ++ after)) p =
      .ok (.token ⟨l, p.advance gap.toList⟩ ((p.advance gap.toList).advance l.text.toList)) := by
  have hne : l.text ≠ "" := by
    intro hempty
    rw [hempty] at htext
    exact nomatch htext
  have hrest : (l.text ++ after).toList = c :: (cs ++ after.toList) := by
    rw [String.toList_append, htext, List.cons_append]
  rw [find_gap hp hgap hrest hc, nextToken_lexeme (offset_advance_append hp gap) hne hl]
  rfl

/-- The scan goes on behind what it finds. -/
theorem scanFrom_eq (lexicon : Lexicon) (source : String) (p : Position) :
    scanFrom lexicon source p = find lexicon source p >>= fun
      | .finished => .ok Scan.empty
      | .stuck e => .ok (Scan.stuck e)
      | .token t next => (scanFrom lexicon source next).map (Scan.cons t) := by
  rw [scanFrom]
  split
  all_goals
    rename_i hfind
    rw [hfind]
    rfl

/-- **The scan by byte offsets follows the description of the scan.** -/
theorem scanFrom_of_munches (hlexicon : lexicon.Unambiguous) (h : lexicon.Munches p cs s)
    (hp : p.offset = before.utf8ByteSize) :
    scanFrom lexicon (before ++ String.ofList cs) p = .ok s := by
  have hofList : ∀ {gap : List Char}, Gap gap → Gap (String.ofList gap).toList := by
    intro gap hgap
    rwa [String.toList_ofList]
  induction h generalizing before with
  | finished hgap =>
    rw [scanFrom_eq, find_finished hp (hofList hgap)]
    rfl
  | @stuck p gap rest c hgap hvisible hnone =>
    have hfind : find lexicon (before ++ String.ofList gap ++ String.ofList (c :: rest)) p = _ :=
      find_stuck hp (hofList hgap) String.toList_ofList hvisible
        ((Lexicon.lexeme?_eq_none_iff hlexicon).mpr hnone)
    rw [String.append_assoc, ← String.ofList_append, String.toList_ofList] at hfind
    rw [scanFrom_eq, hfind]
    rfl
  | @token p gap rest l pattern s hgap hmem hlongest _ ih =>
    obtain ⟨c, tail, htext, hvisible⟩ := hlexicon.exists_cons hmem hlongest.describes
    have hl : lexicon.lexeme? (l.text ++ String.ofList rest).toList = some l := by
      rw [String.toList_append, String.toList_ofList]
      exact (Lexicon.lexeme?_eq_some_iff hlexicon).mpr ⟨pattern, hmem, hlongest⟩
    have hfind := find_lexeme hp (hofList hgap) htext hvisible hl
    have hpieces : (String.ofList gap ++ l.text).toList = gap ++ l.text.toList := by
      rw [String.toList_append, String.toList_ofList]
    have hoffset := offset_advance_append hp (String.ofList gap ++ l.text)
    rw [hpieces] at hoffset
    -- The scan goes on behind the gap and the lexeme.
    have hrest := ih hoffset
    have hsource : before ++ (String.ofList gap ++ l.text) ++ String.ofList rest =
        before ++ String.ofList (gap ++ (l.text.toList ++ rest)) := by
      simp only [String.ofList_append, String.ofList_toList, String.append_assoc]
    have hsource' : before ++ String.ofList gap ++ (l.text ++ String.ofList rest) =
        before ++ String.ofList (gap ++ (l.text.toList ++ rest)) := by
      simp only [String.ofList_append, String.ofList_toList, String.append_assoc]
    rw [hsource', String.toList_ofList, ← Position.advance_append] at hfind
    rw [hsource] at hrest
    rw [scanFrom_eq, hfind]
    exact congrArg (Except.map (Scan.cons _)) hrest

/-- **The scan by byte offsets is free of breaches**, and it is the scan of characters. -/
theorem scan_eq (hlexicon : lexicon.Unambiguous) (source : String) :
    scan lexicon source = .ok (lexicon.scan source) := by
  have hmunches := Lexicon.munches_scanFrom hlexicon Position.start source.toList
  have hstart : Position.start.offset = "".utf8ByteSize := rfl
  have hscan := scanFrom_of_munches hlexicon hmunches hstart
  rwa [String.empty_append, String.ofList_toList] at hscan

end Faithful

end Cursor

end Brew
