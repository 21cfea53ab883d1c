import Brew.Session

/-!
# Every line is answered on its own

`converse` cuts the whole input into lines and answers each of them by itself, so that there is
nothing one line could do to another.  The conversation is held by a loop, however, and the loop has
a memory.  It keeps one buffer for all lines, it reads each line *behind* what the buffer holds, and
only while it reads does it learn where the line ends and whether it is text.  If the buffer were
not cleared, an earlier line would stand in front of the next one; and a line that is not text could
be left in the input, to be met again.

This module spells out the loop.  A round forgets the buffer and takes one line from the input, be
it text or not.  So the loop comes to its end from every state, and it writes what `converse` says.
It follows that an input may be cut into two at a line end, and that the second conversation goes on
where the first one would have closed.

## Main definitions

* `cutLine`: an input, cut behind its first line feed
* `EndsLine`: an input that does not stop within a line
* `Terminal`, `Terminal.round`, `Terminal.loop`: what the loop works on, one round, and all rounds

## Main results

* `Terminal.round_cases`: a round answers one line, whatever the buffer held, or it is the last
* `Terminal.loop_eq`: the loop writes what the conversation says
* `converse_append`: a conversation is the conversations of its parts, one behind the other
-/

namespace Brew.Session

/-! ## Lines -/

/-- Cuts an input behind its first line feed, or at its end if it has none. -/
def cutLine : List UInt8 → List UInt8 × List UInt8
  | [] => ([], [])
  | b :: bytes =>
    if b = lineFeed then ([b], bytes)
    else
      let (first, rest) := cutLine bytes
      (b :: first, rest)

theorem cutLine_fst_ne_nil {input : List UInt8} (h : input ≠ []) : (cutLine input).1 ≠ [] := by
  cases input with
  | nil => exact absurd rfl h
  | cons b bytes =>
    rw [cutLine]
    split <;> exact List.cons_ne_nil _ _

theorem length_cutLine_snd_lt {input : List UInt8} (h : input ≠ []) :
    (cutLine input).2.length < input.length := by
  induction input with
  | nil => exact absurd rfl h
  | cons b bytes ih =>
    by_cases hb : b = lineFeed
    · simp [cutLine, hb]
    · simp only [cutLine, hb, if_false, List.length_cons]
      by_cases hbytes : bytes = []
      · simp [hbytes, cutLine]
      · have hrest := ih hbytes
        omega

/-- The lines of an input are the first one and those of the rest. -/
theorem splitLines_eq_cons {input : List UInt8} (h : input ≠ []) :
    splitLines input = (cutLine input).1 :: splitLines (cutLine input).2 := by
  induction input with
  | nil => exact absurd rfl h
  | cons b bytes ih =>
    by_cases hb : b = lineFeed
    · simp only [splitLines, cutLine, hb, if_true]
    · simp only [splitLines, cutLine, hb, if_false]
      by_cases hbytes : bytes = []
      · rw [hbytes]
        rfl
      · rw [ih hbytes]

/-- An input that does not stop within a line. -/
def EndsLine (input : List UInt8) : Prop := input = [] ∨ input.getLast? = some lineFeed

instance : DecidablePred EndsLine := fun input =>
  inferInstanceAs (Decidable (input = [] ∨ input.getLast? = some lineFeed))

theorem EndsLine.splitLines_append {front : List UInt8} (hfront : EndsLine front)
    (back : List UInt8) : splitLines (front ++ back) = splitLines front ++ splitLines back := by
  rcases hfront with rfl | hlast
  · rfl
  · obtain ⟨start, rfl⟩ := List.getLast?_eq_some_iff.mp hlast
    rw [List.append_assoc, List.singleton_append, splitLines_append_lineFeed]

/-! ## Conversations -/

theorem spoken_append (first second : List Reply) :
    spoken (first ++ second) = spoken first ++ spoken second := by
  rw [spoken, List.map_append, String.join_append]
  rfl

theorem complaints_append (first second : List Reply) :
    complaints (first ++ second) = complaints first ++ complaints second := by
  rw [complaints, List.map_append, String.join_append]
  rfl

/-- What a session writes when it finds nothing more to read. -/
def closing : String := prompt ++ farewell

theorem converse_eq (input : List UInt8) :
    converse input = ⟨0, spoken ((splitLines input).map reply) ++ closing,
      complaints ((splitLines input).map reply)⟩ := by
  rw [closing, ← String.append_assoc]
  rfl

/-- A conversation answers the first line, and goes on with the rest. -/
theorem converse_eq_cons {input : List UInt8} (h : input ≠ []) :
    converse input = ⟨0,
      prompt ++ (reply (cutLine input).1).stdout ++ (converse (cutLine input).2).stdout,
      (reply (cutLine input).1).stderr ++ (converse (cutLine input).2).stderr⟩ := by
  simp only [converse_eq, splitLines_eq_cons h, List.map_cons, spoken, complaints,
    String.join_cons, String.append_assoc]

/-- Up to a line end, a conversation says what it says whatever comes behind. -/
theorem EndsLine.exists_told {front : List UInt8} (hfront : EndsLine front) :
    ∃ told, (converse front).stdout = told ++ closing ∧ ∀ back,
      (converse (front ++ back)).stdout = told ++ (converse back).stdout ∧
      (converse (front ++ back)).stderr = (converse front).stderr ++ (converse back).stderr := by
  refine ⟨spoken ((splitLines front).map reply), by rw [converse_eq], fun back => ?_⟩
  simp only [converse_eq, hfront.splitLines_append, List.map_append, spoken_append,
    complaints_append, String.append_assoc, and_self]

/-! ## The loop -/

/-- What the loop at the prompt works on. -/
structure Terminal where
  /-- The text of the line that was read.  All lines share this buffer. -/
  buffer : String
  /-- What is left of the input. -/
  unread : List UInt8
  stdout : String
  stderr : String
deriving DecidableEq, Repr

namespace Terminal

/-- Empties the buffer. -/
def clear (t : Terminal) : Terminal := { t with buffer := "" }

/-- Writes to standard output. -/
def print (t : Terminal) (text : String) : Terminal := { t with stdout := t.stdout ++ text }

/-- Writes to standard error. -/
def complain (t : Terminal) (text : String) : Terminal := { t with stderr := t.stderr ++ text }

/-- Reads a line behind what the buffer holds, and counts its bytes.  Bytes that are not text are
taken from the input as well, but do not get into the buffer. -/
def readLine (t : Terminal) : Option Nat × Terminal :=
  let (bytes, rest) := cutLine t.unread
  match String.fromUTF8? ⟨bytes.toArray⟩ with
  | none => (none, { t with unread := rest })
  | some text => (some bytes.length, { t with buffer := t.buffer ++ text, unread := rest })

/-- Compiles what the buffer holds, and shows the code or the reason why there is none. -/
def answer (t : Terminal) : Terminal :=
  match compile (Text.trim t.buffer) with
  | .ok code => if code = [] then t else t.print (line (listing code))
  | .error e => t.complain (line ("Failed compile line: " ++ e.message))

/-- One round of the loop, and whether another one follows. -/
def round (t : Terminal) : Bool × Terminal :=
  match (t.clear.print prompt).readLine with
  | (some 0, t) => (false, t.print farewell)
  | (some _, t) => (true, t.answer)
  | (none, t) => (true, t.complain (line "Failed read line: stream did not contain valid UTF-8"))

theorem round_of_unread_eq_nil {t : Terminal} (h : t.unread = []) :
    t.round = (false, ⟨"", [], t.stdout ++ closing, t.stderr⟩) := by
  have htext : String.fromUTF8? ⟨#[]⟩ = some "" := by decide +kernel
  have hread : (t.clear.print prompt).readLine =
      (some 0, ⟨"", [], t.stdout ++ prompt, t.stderr⟩) := by
    simp only [readLine, clear, print, h, cutLine, htext, List.length_nil, String.append_empty]
  rw [round, hread, closing, ← String.append_assoc]
  rfl

/-- The answer to what is in the buffer is the answer to the bytes that it was read from. -/
theorem answer_eq {t : Terminal} {bytes : List UInt8}
    (h : String.fromUTF8? ⟨bytes.toArray⟩ = some t.buffer) :
    t.answer = ⟨t.buffer, t.unread, t.stdout ++ (reply bytes).stdout,
      t.stderr ++ (reply bytes).stderr⟩ := by
  rw [answer, reply, h]
  cases hcompile : compile (Text.trim t.buffer) with
  | error e => simp only [hcompile, complain, String.append_empty]
  | ok code =>
    by_cases hcode : code = []
    · simp only [hcompile, hcode, if_true, String.append_empty]
    · simp only [hcompile, hcode, if_false, print, String.append_empty]

theorem round_of_unread_ne_nil {t : Terminal} (h : t.unread ≠ []) :
    ∃ buffer, t.round = (true, ⟨buffer, (cutLine t.unread).2,
      t.stdout ++ (prompt ++ (reply (cutLine t.unread).1).stdout),
      t.stderr ++ (reply (cutLine t.unread).1).stderr⟩) := by
  cases htext : String.fromUTF8? ⟨(cutLine t.unread).1.toArray⟩ with
  | none =>
    refine ⟨"", ?_⟩
    simp only [round, readLine, clear, print, complain, reply, htext, String.append_empty]
  | some text =>
    obtain ⟨n, hn⟩ := Nat.exists_eq_succ_of_ne_zero
      (mt List.length_eq_zero_iff.mp (cutLine_fst_ne_nil h))
    -- The buffer was cleared, and so it holds this line and nothing else.
    have hread : (t.clear.print prompt).readLine =
        (some (n + 1), ⟨text, (cutLine t.unread).2, t.stdout ++ prompt, t.stderr⟩) := by
      simp only [readLine, clear, print, htext, hn, String.empty_append]
    refine ⟨text, ?_⟩
    rw [round, hread, ← String.append_assoc]
    exact congrArg (Prod.mk true) (answer_eq htext)

/-- **A round answers one line**, whatever the buffer held, or it is the last one. -/
theorem round_cases (t : Terminal) :
    (t.unread = [] ∧ t.round = (false, ⟨"", [], t.stdout ++ closing, t.stderr⟩)) ∨
    t.unread ≠ [] ∧ ∃ buffer, t.round = (true, ⟨buffer, (cutLine t.unread).2,
      t.stdout ++ (prompt ++ (reply (cutLine t.unread).1).stdout),
      t.stderr ++ (reply (cutLine t.unread).1).stderr⟩) := by
  by_cases h : t.unread = []
  · exact .inl ⟨h, round_of_unread_eq_nil h⟩
  · exact .inr ⟨h, round_of_unread_ne_nil h⟩

theorem length_unread_lt_of_round {t next : Terminal} (h : t.round = (true, next)) :
    next.unread.length < t.unread.length := by
  rcases t.round_cases with ⟨-, hround⟩ | ⟨hunread, buffer, hround⟩
  · cases hround.symm.trans h
  · cases hround.symm.trans h
    exact length_cutLine_snd_lt hunread

/-- All rounds of the loop. -/
def loop (t : Terminal) : Terminal :=
  match _hround : t.round with
  | (false, last) => last
  | (true, next) => next.loop
termination_by t.unread.length
decreasing_by exact length_unread_lt_of_round _hround

/-- **The loop writes what the conversation says**, behind what was written before. -/
theorem loop_eq (t : Terminal) :
    t.loop = ⟨"", [], t.stdout ++ (converse t.unread).stdout,
      t.stderr ++ (converse t.unread).stderr⟩ := by
  -- Along the rounds.  What is left in the buffer is of no account to the rounds that follow.
  fun_induction loop t with
  | case1 t last h =>
    rcases t.round_cases with ⟨hunread, hround⟩ | ⟨-, buffer, hround⟩
    · cases hround.symm.trans h
      rw [hunread, converse_eq]
      simp [splitLines, spoken, complaints]
    · cases hround.symm.trans h
  | case2 t next h ih =>
    rcases t.round_cases with ⟨-, hround⟩ | ⟨hunread, buffer, hround⟩
    · cases hround.symm.trans h
    · cases hround.symm.trans h
      rw [ih, converse_eq_cons hunread]
      simp only [String.append_assoc]

/-- What a session has written when its loop has come to its end. -/
def output (t : Terminal) : Output := ⟨0, t.stdout, t.stderr⟩

end Terminal

/-! ## Sessions -/

/-- **A conversation is the conversations of its parts, one behind the other.**  It is what the loop
does, whatever the buffer holds at the start, and what a session does that is asked for it.  If an
input is cut at a line end, the whole says what the first part says before it closes, and then all
that the second part says.  So some lines between others, be they wrong or empty or no text, add
their own answers and change no other. -/
theorem converse_append {front : List UInt8} (hfront : EndsLine front) :
    (∀ buffer input, (Terminal.loop ⟨buffer, input, "", ""⟩).output = converse input) ∧
    (∀ file? input, run ["repl"] file? input = converse input) ∧
    ∃ told,
      (converse front).stdout = told ++ closing ∧
      (∀ back,
        (converse (front ++ back)).stdout = told ++ (converse back).stdout ∧
        (converse (front ++ back)).stderr = (converse front).stderr ++ (converse back).stderr) ∧
      ∀ between, EndsLine between → ∃ answers,
        (converse between).stdout = answers ++ closing ∧
        ∀ back,
          (converse (front ++ between ++ back)).stdout =
            told ++ answers ++ (converse back).stdout ∧
          (converse (front ++ between ++ back)).stderr =
            (converse front).stderr ++ (converse between).stderr ++ (converse back).stderr := by
  obtain ⟨told, hclosing, htold⟩ := hfront.exists_told
  refine ⟨fun buffer input => ?_, fun _ _ => rfl, told, hclosing, htold,
    fun between hbetween => ?_⟩
  · rw [Terminal.loop_eq, Terminal.output, String.empty_append, String.empty_append]
    rfl
  · obtain ⟨answers, hanswers, hbehind⟩ := hbetween.exists_told
    refine ⟨answers, hanswers, fun back => ?_⟩
    obtain ⟨hstdout, hstderr⟩ := htold (between ++ back)
    rw [List.append_assoc, hstdout, hstderr, (hbehind back).1, (hbehind back).2,
      String.append_assoc, String.append_assoc]
    exact ⟨rfl, rfl⟩

/-- Between a declaration and the use of its name stand a line that is no text and an empty one.
The name is not known, since no line knows the names of another. -/
theorem converse_append_undeclared :
    EndsLine "FR int wtl_x=1;\n".toUTF8.toList ∧ EndsLine [0xff, lineFeed, lineFeed] ∧
    (converse ("FR int wtl_x=1;\n".toUTF8.toList ++ [0xff, lineFeed, lineFeed] ++
        "wtl_x=2;".toUTF8.toList)).stdout =
      "> t1 = 1\nwtl_x = t1\n" ++ "> > " ++ ("> " ++ closing) ∧
    (converse ("FR int wtl_x=1;\n".toUTF8.toList ++ [0xff, lineFeed, lineFeed] ++
        "wtl_x=2;".toUTF8.toList)).stderr =
      "" ++ "Failed read line: stream did not contain valid UTF-8\n" ++
        "Failed compile line: Semantic error: Variable 'wtl_x' is not declared\n" := by
  have hfront : EndsLine "FR int wtl_x=1;\n".toUTF8.toList := by decide +kernel
  have hbetween : EndsLine [0xff, lineFeed, lineFeed] := by decide
  obtain ⟨-, -, told, htold, -, hlines⟩ := converse_append hfront
  obtain ⟨answers, hanswers, hwhole⟩ := hlines _ hbetween
  obtain ⟨hstdout, hstderr⟩ := hwhole "wtl_x=2;".toUTF8.toList
  have hfirst : converse "FR int wtl_x=1;\n".toUTF8.toList =
      ⟨0, "> t1 = 1\nwtl_x = t1\n" ++ closing, ""⟩ := by decide +kernel
  have hsecond : converse [0xff, lineFeed, lineFeed] =
      ⟨0, "> > " ++ closing, "Failed read line: stream did not contain valid UTF-8\n"⟩ := by
    decide +kernel
  have hlast : converse "wtl_x=2;".toUTF8.toList =
      ⟨0, "> " ++ closing,
        "Failed compile line: Semantic error: Variable 'wtl_x' is not declared\n"⟩ := by
    decide +kernel
  rw [hfirst] at htold hstderr
  rw [hsecond] at hanswers hstderr
  rw [hlast] at hstdout hstderr
  rw [(String.append_left_inj closing).mp htold, (String.append_left_inj closing).mp hanswers]
  exact ⟨hfront, hbetween, hstdout, hstderr⟩

end Brew.Session
