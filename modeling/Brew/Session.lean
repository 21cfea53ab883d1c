import Brew.Compile
import Brew.Text.Blank

/-!
# Sessions

A session is one run of the command line.  It either shows a source file in one of its forms, or
holds a conversation at a prompt, where each line typed is compiled on its own.  Everything a
session writes and its exit code are a function of its arguments, of the files it can read and of
the bytes on its standard input; the program around it only moves bytes.  The arguments are read by
`Command.ofArgs`, and nothing else here depends on how that is done.

## Main definitions

* `Command`, `Command.ofArgs`: what the arguments ask for
* `Session.showFile`: a source file in one of its forms
* `Session.splitLines`, `Session.reply`, `Session.converse`: the conversation at the prompt
* `Session.run`: a whole session

## Main results

* `Session.flatten_splitLines`: cutting an input into lines loses nothing
* `Session.splitLines_append_lineFeed`: an input may be cut at any line end
-/

namespace Brew

/-- What the arguments of a session can ask for. -/
inductive Command where
  | showFile (view : View) (path : String)
  | converse
deriving DecidableEq, Repr

/-- What can be wrong with the arguments of a session. -/
inductive UsageError where
  | noCommand
  | unknownCommand (word : String)
  | noPath
  | extraArgument (word : String)
deriving DecidableEq, Repr

/-- What is said about wrong arguments. -/
def UsageError.message : UsageError → String
  | noCommand => "the subcommand is required but not provided"
  | unknownCommand word => "unrecognized subcommand '" ++ word ++ "'"
  | noPath => "the argument '<PATH>' is required but not provided"
  | extraArgument word => "unexpected argument '" ++ word ++ "'"

/-- The form of a source that a command word asks for. -/
def View.ofCommand? (word : String) : Option View :=
  match word with
  | "compile" => some .code
  | "tokens" => some .tokens
  | "ast" => some .tree
  | _ => none

/-- What the arguments of a session ask for. -/
def Command.ofArgs : List String → Except UsageError Command
  | [] => .error .noCommand
  | word :: args =>
    match View.ofCommand? word, args with
    | some _, [] => .error .noPath
    | some view, [path] => .ok (.showFile view path)
    | some _, _ :: extra :: _ => .error (.extraArgument extra)
    | none, args =>
      if word = "repl" then
        match args with
        | [] => .ok .converse
        | extra :: _ => .error (.extraArgument extra)
      else .error (.unknownCommand word)

namespace Session

/-- Everything a session leaves behind. -/
structure Output where
  exit : Nat
  stdout : String
  stderr : String
deriving DecidableEq, Repr

/-- A text as a line of its own. -/
def line (text : String) : String := text ++ "\n"

/-! ## Files -/

/-- A source file in one of its forms.  A file without content is missing or cannot be read, and a
file that is not UTF-8 is treated like one. -/
def renderFile (view : View) (path : String) (content : Option ByteArray) :
    Except CompileError String :=
  match content.bind String.fromUTF8? with
  | none => .error (.internal (.unreadable path))
  | some source => view.render source

/-- Shows a source file.  Nothing is written for an empty form. -/
def showFile (view : View) (path : String) (content : Option ByteArray) : Output :=
  match renderFile view path content with
  | .ok text => ⟨0, if text = "" then "" else line text, ""⟩
  | .error e => ⟨1, "", line ("Failed compile file: " ++ e.message)⟩

/-! ## The prompt -/

/-- What is written before each line is read. -/
def prompt : String := "> "

/-- What is written at the end of the conversation. -/
def farewell : String := "\nExited brewc repl\n"

/-- The byte that ends a line. -/
def lineFeed : UInt8 := 10

/-- Cuts an input behind each line feed.  The last line may lack one, and no line is empty. -/
def splitLines : List UInt8 → List (List UInt8)
  | [] => []
  | b :: bytes =>
    if b = lineFeed then [b] :: splitLines bytes
    else
      match splitLines bytes with
      | [] => [[b]]
      | first :: rest => (b :: first) :: rest

/-- What the session writes in answer to one line, on its two outputs. -/
structure Reply where
  stdout : String
  stderr : String
deriving DecidableEq, Repr

/-- Answers one line: with its code, with the reason why it has none, or not at all if the code is
empty.  White space at the ends of the line is dropped first. -/
def reply (bytes : List UInt8) : Reply :=
  match String.fromUTF8? ⟨bytes.toArray⟩ with
  | none => ⟨"", line "Failed read line: stream did not contain valid UTF-8"⟩
  | some text =>
    match compile (Text.trim text) with
    | .ok code => ⟨if code = [] then "" else line (listing code), ""⟩
    | .error e => ⟨"", line ("Failed compile line: " ++ e.message)⟩

/-- What a session writes to standard output for some replies, each behind its prompt. -/
def spoken (replies : List Reply) : String :=
  String.join (replies.map fun r => prompt ++ r.stdout)

/-- What a session writes to standard error for some replies. -/
def complaints (replies : List Reply) : String := String.join (replies.map Reply.stderr)

/-- Holds a conversation over an input. -/
def converse (input : List UInt8) : Output :=
  let replies := (splitLines input).map reply
  ⟨0, spoken replies ++ prompt ++ farewell, complaints replies⟩

/-- Cutting an input into lines loses nothing. -/
theorem flatten_splitLines (input : List UInt8) : (splitLines input).flatten = input := by
  fun_induction splitLines input with
  | case1 => rfl
  | case2 bytes ih => simp [ih]
  | case3 b bytes hb hnil ih =>
    rw [hnil] at ih
    simp [← ih]
  | case4 b bytes hb first rest hcons ih =>
    rw [hcons] at ih
    simp [← ih]

/-- An input may be cut at any line end. -/
theorem splitLines_append_lineFeed (front back : List UInt8) :
    splitLines (front ++ lineFeed :: back) =
      splitLines (front ++ [lineFeed]) ++ splitLines back := by
  induction front with
  | nil => simp [splitLines]
  | cons b front ih =>
    by_cases hb : b = lineFeed
    · simp only [List.cons_append, splitLines, hb, if_true, ih]
    · simp only [List.cons_append, splitLines, hb, if_false, ih]
      cases h : splitLines (front ++ [lineFeed]) with
      | nil =>
        have hflat := flatten_splitLines (front ++ [lineFeed])
        rw [h] at hflat
        simp at hflat
      | cons first rest => simp

/-! ## A whole session -/

/-- **A whole session**, given its arguments, the contents of the files that can be read, and the
bytes on its standard input. -/
def run (args : List String) (file? : String → Option ByteArray) (input : List UInt8) : Output :=
  match Command.ofArgs args with
  | .error e => ⟨1, "", line e.message⟩
  | .ok (.showFile view path) => showFile view path (file? path)
  | .ok .converse => converse input

end Session

end Brew
