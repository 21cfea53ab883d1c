import Brew.Parse.Expr
import Brew.Syntax.Stmt

/-!
# Reading a program

A program is read one lexeme at a time, and one lexeme always decides what happens.  The state of
the reader has three parts: how far it is inside the current statement (the `Focus`), the statements
that precede it in the same block, and the blocks that are open around this one.

Nothing here depends on positions.  They come in at the very end, where `parse` puts the line of the
lexeme at fault, or of the last lexeme if the input ended too early, into the error.

```text
program    = statement*
statement  = declare | scan | print | function | branch | return | assign
declare    = "FR" TYPE NAME ( "=" expr )? ";"
scan       = "gimme_that" NAME ";"
print      = "spit_it_out" ( TEXT | expr ) ";"
function   = "Brew" TYPE NAME "(" ( TYPE NAME )* ")" block
branch     = "Lowkey" "(" expr ")" block ( "orNah" block )?
return     = "spill" expr? ";"
assign     = NAME "=" expr ";"
block      = "{" statement* "}"
expr       = term ( ( "+" | "-" ) term )*
term       = factor ( ( "*" | "/" | "%" ) factor )*
factor     = NUMBER | NAME | "(" expr ")"
```

## Main definitions

* `Parse.Focus`, `Parse.State`: what was read so far
* `Parse.State.step`: what one lexeme does
* `Parse.State.finish`: what the end of the input does
* `parse`: the statements of a list of tokens
-/

namespace Brew

namespace Parse

/-- What an expression is read for. -/
inductive Goal where
  | declare (type : DataType) (name : String)
  | assign (name : String)
  | print
  | ret
  | cond
deriving DecidableEq, Repr

/-- What has to follow the expression. -/
def Goal.ending : Goal → Expectation
  | declare _ _ => .declareEnd
  | assign _ => .assignEnd
  | print => .printEnd
  | ret => .returnEnd
  | cond => .condEnd

/-- How far the reader is inside the current statement. -/
inductive Focus where
  /-- Before a statement, or at the end of a block. -/
  | start
  | declareType
  | declareName (type : DataType)
  | declareValue (type : DataType) (name : String)
  | scanName
  | scanEnd (name : String)
  | printWhat
  | printEnd (content : String)
  | functionType
  | functionName (type : DataType)
  | functionParen (type : DataType) (name : String)
  /-- Before a parameter, or at the end of the parameters. -/
  | params (signature : Signature)
  | paramName (signature : Signature) (type : DataType)
  | functionBody (signature : Signature)
  | condParen
  | thenBlock (cond : Expr)
  /-- Behind the first block of a branch, where the second may follow. -/
  | afterThen (cond : Expr) (block : List Stmt)
  | elseBlock (cond : Expr) (block : List Stmt)
  | returnValue
  | assignMark (name : String)
  /-- Inside an expression. -/
  | expr (goal : Goal) (state : ExprState)
deriving Repr

/-- What the reader waits for inside a statement.  There is nothing to wait for where a statement
may as well be complete. -/
def Focus.awaits : Focus → Option Expectation
  | start => none
  | declareType | functionType | params _ => some .dataType
  | declareName _ => some .variableName
  | declareValue _ _ => some .declareEnd
  | scanName => some .scanName
  | scanEnd _ => some .scanEnd
  | printWhat | returnValue => some .expression
  | printEnd _ => some .printEnd
  | functionName _ => some .functionName
  | functionParen _ _ => some .functionParen
  | paramName _ _ => some .parameterName
  | functionBody _ => some (.blockStart .functionBody)
  | condParen => some .condParen
  | thenBlock _ => some (.blockStart .thenBlock)
  | afterThen _ _ => none
  | elseBlock _ _ => some (.blockStart .elseBlock)
  | assignMark _ => some .assignMark
  | expr goal state => some (state.awaits goal.ending)

/-- What an open block belongs to. -/
inductive Owner where
  | thenOf (cond : Expr)
  | elseOf (cond : Expr) (thenBlock : List Stmt)
  | bodyOf (signature : Signature)
deriving Repr

/-- The kind of block that an owner has. -/
def Owner.role : Owner → BlockRole
  | thenOf _ => .thenBlock
  | elseOf _ _ => .elseBlock
  | bodyOf _ => .functionBody

/-- An open block: what it belongs to, and the statements before its owner, newest first. -/
structure Frame where
  owner : Owner
  before : List Stmt
deriving Repr

/-- The state of the reader between two lexemes. -/
structure State where
  focus : Focus
  /-- The complete statements of the current block, newest first. -/
  done : List Stmt
  /-- The open blocks around the current statement, innermost first. -/
  frames : List Frame
deriving Repr

/-- A lexeme of one kind is needed to go on. -/
def expect (kind : Lexeme.Kind) (what : Expectation) (l : Lexeme) (next : State) :
    Except Fault State :=
  if l.kind = kind then .ok next else .error (.problem (.expected what l))

/-- A data type is needed to go on. -/
def expectType (l : Lexeme) (next : DataType → State) : Except Fault State :=
  if l.kind = .dataType then
    match DataType.ofKeyword l.text with
    | .ok type => .ok (next type)
    | .error w => .error (.unknownWord w)
  else .error (.problem (.expected .dataType l))

namespace State

/-- The state before the first lexeme. -/
def initial : State := ⟨.start, [], []⟩

/-- The same state at another point of the current statement. -/
def focusOn (st : State) (focus : Focus) : State := { st with focus }

/-- The state behind a complete statement. -/
def push (st : State) (s : Stmt) : State := ⟨.start, s :: st.done, st.frames⟩

/-- The state at the start of a block. -/
def openBlock (st : State) (owner : Owner) : State := ⟨.start, [], ⟨owner, st.done⟩ :: st.frames⟩

/-- What a closing brace does where a statement could start.  A first block may be followed by a
second one, so its branch is not complete yet. -/
def closeBlock (st : State) (l : Lexeme) : Except Fault State :=
  match st.frames with
  | [] => .error (.problem (.unexpected l))
  | ⟨.thenOf cond, before⟩ :: frames => .ok ⟨.afterThen cond st.done.reverse, before, frames⟩
  | ⟨.elseOf cond thenBlock, before⟩ :: frames =>
    .ok ⟨.start, .branch cond thenBlock (some st.done.reverse) :: before, frames⟩
  | ⟨.bodyOf signature, before⟩ :: frames =>
    .ok ⟨.start, .function signature st.done.reverse :: before, frames⟩

/-- What a lexeme does where a statement could start. -/
def begin (st : State) (l : Lexeme) : Except Fault State :=
  match l.kind with
  | .declare => .ok (st.focusOn .declareType)
  | .scan => .ok (st.focusOn .scanName)
  | .print => .ok (st.focusOn .printWhat)
  | .function => .ok (st.focusOn .functionType)
  | .cond => .ok (st.focusOn .condParen)
  | .ret => .ok (st.focusOn .returnValue)
  | .identifier => .ok (st.focusOn (.assignMark l.text))
  | .rightBrace => st.closeBlock l
  | _ => .error (.problem (.unexpected l))

/-- What a lexeme does behind a complete expression. -/
def endExpr (st : State) (goal : Goal) (e : Expr) (l : Lexeme) : Except Fault State :=
  match goal with
  | .declare type name =>
    expect .semicolon .declareEnd l (st.push (.declare type name (some e)))
  | .assign name => expect .semicolon .assignEnd l (st.push (.assign name e))
  | .print => expect .semicolon .printEnd l (st.push (.print (.value e)))
  | .ret => expect .semicolon .returnEnd l (st.push (.ret (some e)))
  | .cond => expect .rightParen .condEnd l (st.focusOn (.thenBlock e))

/-- What a lexeme does inside an expression. -/
def stepExpr (st : State) (goal : Goal) (state : ExprState) (l : Lexeme) : Except Fault State :=
  match state.step l with
  | .more state => .ok (st.focusOn (.expr goal state))
  | .complete e => st.endExpr goal e l
  | .refused fault => .error fault

/-- **What one lexeme does.** -/
def step (st : State) (l : Lexeme) : Except Fault State :=
  match st.focus with
  | .start => st.begin l
  | .declareType => expectType l fun type => st.focusOn (.declareName type)
  | .declareName type =>
    expect .identifier .variableName l (st.focusOn (.declareValue type l.text))
  | .declareValue type name =>
    if l.kind = .assign then .ok (st.focusOn (.expr (.declare type name) .start))
    else expect .semicolon .declareEnd l (st.push (.declare type name none))
  | .scanName => expect .identifier .scanName l (st.focusOn (.scanEnd l.text))
  | .scanEnd name => expect .semicolon .scanEnd l (st.push (.scan name))
  | .printWhat =>
    if l.kind = .string then .ok (st.focusOn (.printEnd l.content))
    else st.stepExpr .print .start l
  | .printEnd content => expect .semicolon .printEnd l (st.push (.print (.text content)))
  | .functionType => expectType l fun type => st.focusOn (.functionName type)
  | .functionName type =>
    expect .identifier .functionName l (st.focusOn (.functionParen type l.text))
  | .functionParen type name =>
    expect .leftParen .functionParen l (st.focusOn (.params ⟨type, name, []⟩))
  | .params signature =>
    if l.kind = .rightParen then .ok (st.focusOn (.functionBody signature))
    else expectType l fun type => st.focusOn (.paramName signature type)
  | .paramName signature type =>
    expect .identifier .parameterName l (st.focusOn (.params (signature.addParam ⟨type, l.text⟩)))
  | .functionBody signature =>
    expect .leftBrace (.blockStart .functionBody) l (st.openBlock (.bodyOf signature))
  | .condParen => expect .leftParen .condParen l (st.focusOn (.expr .cond .start))
  | .thenBlock cond => expect .leftBrace (.blockStart .thenBlock) l (st.openBlock (.thenOf cond))
  | .afterThen cond block =>
    if l.kind = .otherwise then .ok (st.focusOn (.elseBlock cond block))
    else (st.push (.branch cond block none)).begin l
  | .elseBlock cond block =>
    expect .leftBrace (.blockStart .elseBlock) l (st.openBlock (.elseOf cond block))
  | .returnValue =>
    if l.kind = .semicolon then .ok (st.push (.ret none))
    else st.stepExpr .ret .start l
  | .assignMark name => expect .assign .assignMark l (st.focusOn (.expr (.assign name) .start))
  | .expr goal state => st.stepExpr goal state l

/-- The state in which a branch without a second block counts as complete. -/
def settle (st : State) : State :=
  match st.focus with
  | .afterThen cond block => st.push (.branch cond block none)
  | _ => st

/-- **What the end of the input does.**  A statement must not be left in the middle, nor a block
left open. -/
def finish (st : State) : Except Fault (List Stmt) :=
  match st.focus.awaits, st.frames with
  | some what, _ => .error (.problem (.endOfInput what))
  | none, frame :: _ => .error (.problem (.endOfInput (.blockEnd frame.owner.role)))
  | none, [] => .ok st.settle.done.reverse

/-- Reads tokens from a state on; `line` is the line of the token before them. -/
def run (st : State) (line : Nat) : List Token → Except ParseError (List Stmt)
  | [] => st.finish.mapError (Fault.onLine line)
  | t :: rest =>
    match st.step t.toLexeme with
    | .ok st => run st t.line rest
    | .error fault => .error (fault.onLine t.line)

end State

end Parse

/-- The statements of a list of tokens.  An input without any token ends on line one. -/
def parse (tokens : List Token) : Except ParseError (List Stmt) :=
  Parse.State.initial.run 1 tokens

end Brew
