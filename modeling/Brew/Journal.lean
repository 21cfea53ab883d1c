import Brew.Code.Emission
import Brew.Compile

/-!
# The journal of a compilation

A compilation can be followed in a journal: each stage that succeeds leaves one summary, and in more
detail every token, every scope, every name that was looked up and every instruction.  The entries
stand in the order in which things happen, and what happened before an error is still told.

## Main definitions

* `Journal.Level`: summaries only, or every detail
* `Journal.Entry`: one line of the journal
* `journal`: the journal of compiling a source
-/

namespace Brew

namespace Journal

/-- How much detail an entry gives. -/
inductive Level where
  | debug | trace
deriving DecidableEq, Repr

/-- One line of the journal. -/
structure Entry where
  level : Level
  message : String
deriving DecidableEq, Repr

/-- Whether entries of the second level are kept when the first is asked for. -/
def Level.keeps : Level → Level → Bool
  | trace, _ => true
  | debug, debug => true
  | debug, trace => false

/-- The entry of a token. -/
def ofToken (t : Token) : Entry :=
  ⟨.trace, "token " ++ t.toLexeme.render ++ " at line " ++ toString t.line⟩

/-- The entry of something the checker noted. -/
def ofCheckNote : CheckNote → Entry
  | .entered depth => ⟨.trace, "entered scope at depth " ++ toString depth⟩
  | .resolved name symbol =>
    ⟨.trace, name ++ " resolves to a " ++ symbol.kind.name ++ " of type " ++ symbol.type.keyword⟩

/-- The entry of something that happens in lowering. -/
def ofEmission : Emission → Entry
  | .instr i => ⟨.trace, "emit " ++ i.render⟩
  | .passedOver function =>
    ⟨.debug, "function " ++ function ++ " is not lowered, its body emits no instructions"⟩

/-- The summary of lexing. -/
def tokenized (bytes tokens : Nat) : Entry :=
  ⟨.debug, "tokenized " ++ toString bytes ++ " bytes into " ++ toString tokens ++ " tokens"⟩

/-- The summary of parsing. -/
def parsed (statements : Nat) : Entry :=
  ⟨.debug, "parsed " ++ toString statements ++ " top-level statements"⟩

/-- The summary of checking. -/
def checked (statements : Nat) : Entry :=
  ⟨.debug, "semantic check passed for " ++ toString statements ++ " top-level statements"⟩

/-- The summary of lowering. -/
def lowered (instructions : Nat) (taken : Counters) : Entry :=
  ⟨.debug, "generated " ++ toString instructions ++ " instructions using " ++
    toString taken.temps ++ " temporaries and " ++ toString taken.labels ++ " labels"⟩

/-- The summary of a whole compilation. -/
def compiled (bytes instructions : Nat) : Entry :=
  ⟨.debug, "compiled " ++ toString bytes ++ " bytes of source into " ++ toString instructions ++
    " instructions"⟩

/-- What is told about statements from their check on; `bytes` is the size of their source. -/
def ofProgram (bytes : Nat) (program : List Stmt) : List Entry :=
  (checkNotes program).map ofCheckNote ++
    match check program with
    | .error _ => []
    | .ok () =>
      checked program.length :: (emissions program).map ofEmission ++
        [lowered (lower program).length (Stmt.usageAll program),
         compiled bytes (lower program).length]

/-- What is told about tokens from their parsing on; `bytes` is the size of their source. -/
def ofTokens (bytes : Nat) (tokens : List Token) : List Entry :=
  match parse tokens with
  | .error _ => []
  | .ok program => parsed program.length :: ofProgram bytes program

/-- What is told about a source. -/
def ofSource (source : String) : List Entry :=
  let scan := lexicon.scan source
  scan.tokens.map ofToken ++
    match scan.error with
    | some _ => []
    | none =>
      tokenized source.utf8ByteSize scan.tokens.length ::
        ofTokens source.utf8ByteSize scan.tokens

end Journal

/-- **The journal of compiling a source**, in the detail asked for. -/
def journal (level : Journal.Level) (source : String) : List Journal.Entry :=
  (Journal.ofSource source).filter fun entry => level.keeps entry.level

end Brew
