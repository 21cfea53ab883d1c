import Brew.Parse.Program
import Brew.Syntax.Grammar

/-!
# The parser accepts what the grammar spells

The parser works one lexeme at a time, so what it does with a spelling is a walk through its states.
A factor, a term and a sum each lead the expression reader from a known state to a known state, and
a statement leads the parser from one place between statements to the next.  The only place between
statements that does not look like the start of a statement is the one behind the first block of a
branch, where a second block may follow; it **settles** as soon as the next lexeme is known.

## Main definitions

* `Parse.State.feed`: what several lexemes do
* `Parse.State.Between`: the parser stands between two statements

## Main results

* `Parse.ExprState.step_operator_cases`, `Parse.expectType_eq`: the lists of words that the parser
  has are those of the grammar
* `parse_eq_ok_iff_feed`: a parse is a walk that may end
* `Grammar.Program.feeds`: the walk along a spelling of a program
* `parse_of_program`: what the grammar spells is accepted, with the tree that it spells
-/

namespace Brew

/-- What errors are called changes nothing about success. -/
theorem mapError_eq_ok_iff {ε ε' α : Type} {f : ε → ε'} {x : Except ε α} {r : α} :
    x.mapError f = .ok r ↔ x = .ok r := by
  cases x with
  | error e => exact iff_of_false (fun h => nomatch h) fun h => nomatch h
  | ok s =>
    constructor
    · rintro ⟨⟩
      rfl
    · rintro ⟨⟩
      rfl

namespace Parse.State

/-! ## Several lexemes -/

/-- What several lexemes do. -/
def feed (st : State) : List Lexeme → Except Fault State
  | [] => .ok st
  | l :: rest =>
    match st.step l with
    | .ok st => st.feed rest
    | .error fault => .error fault

@[simp] theorem feed_nil (st : State) : st.feed [] = .ok st := rfl

theorem feed_cons {st st' : State} {l : Lexeme} (h : st.step l = .ok st') (rest : List Lexeme) :
    st.feed (l :: rest) = st'.feed rest := by
  rw [feed, h]

/-- One lexeme and then the others. -/
theorem feed_step {st st' : State} {l : Lexeme} {rest : List Lexeme} {r : Except Fault State}
    (h : st.step l = .ok st') (hrest : st'.feed rest = r) : st.feed (l :: rest) = r :=
  (feed_cons h rest).trans hrest

theorem feed_append {st st' : State} {ls : List Lexeme} (h : st.feed ls = .ok st')
    (rest : List Lexeme) : st.feed (ls ++ rest) = st'.feed rest := by
  induction ls generalizing st with
  | nil =>
    cases h
    rfl
  | cons l ls ih =>
    rw [feed] at h
    cases hstep : st.step l with
    | error fault =>
      rw [hstep] at h
      cases h
    | ok next =>
      rw [hstep] at h
      rw [List.cons_append, feed_cons hstep]
      exact ih h

theorem run_eq_ok_iff {st : State} {line : Nat} {tokens : List Token} {program : List Stmt} :
    st.run line tokens = .ok program ↔
      ∃ last, st.feed (tokens.map Token.toLexeme) = .ok last ∧ last.finish = .ok program := by
  induction tokens generalizing st line with
  | nil =>
    rw [run, mapError_eq_ok_iff]
    simp
  | cons t rest ih =>
    rw [run, List.map_cons, feed]
    cases hstep : st.step t.toLexeme with
    | ok next => exact ih
    | error fault => simp

end Parse.State

/-- **A parse is a walk** along the lexemes to a state in which the input may end. -/
theorem parse_eq_ok_iff_feed {tokens : List Token} {program : List Stmt} :
    parse tokens = .ok program ↔
      ∃ st, Parse.State.initial.feed (tokens.map Token.toLexeme) = .ok st ∧
        st.finish = .ok program :=
  Parse.State.run_eq_ok_iff

/-! ## The words of the parser -/

section Words

open Grammar Parse

variable {l : Lexeme} {op : BinaryOp} {sum : Waiting} {term : Expr} {outer : List Level}

/-- A product sign opens a term behind the term so far. -/
theorem Parse.ExprState.step_product (h : ProductSign l op) :
    ExprState.step l (.operator sum term outer) =
      .more (.operand ⟨sum, some (term, op)⟩ outer) := by
  cases h <;> rfl

/-- A sum sign closes the sum so far, and opens the next one. -/
theorem Parse.ExprState.step_sum (h : SumSign l op) :
    ExprState.step l (.operator sum term outer) =
      .more (.operand ⟨some (sum.close term, op), none⟩ outer) := by
  cases h <;> rfl

theorem Parse.ExprState.step_leave (h : l.kind ≠ .operator) :
    ExprState.step l (.operator sum term outer) = ExprState.leave l (sum.close term) outer := by
  simp [ExprState.step, Lexeme.operatorAmong, h]

/-- If all of some symbols are known, and are signs of some kind, then a lexeme is such a sign or it
is passed over. -/
theorem Lexeme.operatorAmong_cases {symbols : List String} {Sign : Lexeme → BinaryOp → Prop}
    (hsymbols : ∀ word ∈ symbols, ∃ op, Sign ⟨.operator, word⟩ op ∧
      BinaryOp.ofSymbol word = .ok op) (l : Lexeme) :
    l.operatorAmong symbols = .ok none ∨
      ∃ op, Sign l op ∧ l.operatorAmong symbols = .ok (some op) := by
  by_cases h : l.kind = .operator ∧ l.text ∈ symbols
  · obtain ⟨op, hsign, hword⟩ := hsymbols l.text h.2
    rw [← h.1] at hsign
    refine .inr ⟨op, hsign, ?_⟩
    rw [operatorAmong, if_pos h, hword]
    rfl
  · exact .inl (if_neg h)

/-- The symbols that the parser lists for products are product signs, and it knows them all. -/
theorem Parse.exists_productSign :
    ∀ word ∈ productSymbols, ∃ op, ProductSign ⟨.operator, word⟩ op ∧
      BinaryOp.ofSymbol word = .ok op := by
  simp only [productSymbols, List.forall_mem_cons]
  exact ⟨⟨_, .times, rfl⟩, ⟨_, .over, rfl⟩, ⟨_, .rem, rfl⟩, fun _ h => nomatch h⟩

/-- The symbols that the parser lists for sums are sum signs, and it knows them all. -/
theorem Parse.exists_sumSign :
    ∀ word ∈ sumSymbols, ∃ op, SumSign ⟨.operator, word⟩ op ∧
      BinaryOp.ofSymbol word = .ok op := by
  simp only [sumSymbols, List.forall_mem_cons]
  exact ⟨⟨_, .plus, rfl⟩, ⟨_, .minus, rfl⟩, fun _ h => nomatch h⟩

/-- **What a lexeme can do behind an operand**: continue the term, continue the sum, or leave it. -/
theorem Parse.ExprState.step_operator_cases (l : Lexeme) (sum : Waiting) (term : Expr)
    (outer : List Level) :
    (∃ op, ProductSign l op ∧ ExprState.step l (.operator sum term outer) =
      .more (.operand ⟨sum, some (term, op)⟩ outer)) ∨
    (∃ op, SumSign l op ∧ ExprState.step l (.operator sum term outer) =
      .more (.operand ⟨some (sum.close term, op), none⟩ outer)) ∨
    ExprState.step l (.operator sum term outer) = ExprState.leave l (sum.close term) outer := by
  rcases l.operatorAmong_cases exists_productSign with hproduct | ⟨op, hop, hproduct⟩
  · rcases l.operatorAmong_cases exists_sumSign with hsum | ⟨op, hop, hsum⟩
    · refine .inr (.inr ?_)
      simp only [ExprState.step, hproduct, hsum]
    · refine .inr (.inl ⟨op, hop, ?_⟩)
      simp only [ExprState.step, hproduct, hsum]
  · refine .inl ⟨op, hop, ?_⟩
    simp only [ExprState.step, hproduct]

/-- The parser reads the data types of the grammar. -/
theorem Parse.expectType_eq {type : DataType} {next : DataType → State} (h : TypeWord l type) :
    expectType l next = .ok (next type) := by
  cases h <;> rfl

end Words

/-! ## Expressions -/

section Expressions

open Parse Parse.State

variable {ls : List Lexeme} {e : Expr} {l : Lexeme}

/-- Inside an expression a lexeme does what it does to the expression reader. -/
theorem Parse.State.step_expr {st : State} {goal : Goal} {state state' : ExprState}
    (h : state.step l = .more state') :
    (st.focusOn (.expr goal state)).step l = .ok (st.focusOn (.expr goal state')) := by
  simp only [State.step, State.focusOn, State.stepExpr, h]

/-- A lexeme that is no operator ends an expression in which no parenthesis is open. -/
theorem Parse.State.step_expr_end {st : State} {goal : Goal} {sum : Waiting} {term : Expr}
    (h : l.kind ≠ .operator) :
    (st.focusOn (.expr goal (.operator sum term []))).step l =
      st.endExpr goal (sum.close term) l := by
  simp only [State.step, State.focusOn, State.stepExpr, ExprState.step_leave h, ExprState.leave]
  cases goal <;> rfl

/-- A factor completes the term that is open before it. -/
def Parse.FeedsFactor (ls : List Lexeme) (e : Expr) : Prop :=
  ∀ (st : State) (goal : Goal) (here : Level) (outer : List Level),
    (st.focusOn (.expr goal (.operand here outer))).feed ls =
      .ok (st.focusOn (.expr goal (.behind here e outer)))

/-- A term is read behind an open sum. -/
def Parse.FeedsTerm (ls : List Lexeme) (e : Expr) : Prop :=
  ∀ (st : State) (goal : Goal) (sum : Waiting) (outer : List Level),
    (st.focusOn (.expr goal (.operand ⟨sum, none⟩ outer))).feed ls =
      .ok (st.focusOn (.expr goal (.operator sum e outer)))

/-- A sum is read on a fresh level.  Its last term is still separate at the end. -/
def Parse.FeedsSum (ls : List Lexeme) (e : Expr) : Prop :=
  ∀ (st : State) (goal : Goal) (outer : List Level), ∃ sum term, Waiting.close sum term = e ∧
    (st.focusOn (.expr goal (.operand Level.fresh outer))).feed ls =
      .ok (st.focusOn (.expr goal (.operator sum term outer)))

/-- **The walk along a spelling of an expression.** -/
theorem Grammar.Sum.feeds (h : Grammar.Sum ls e) : FeedsSum ls e := by
  -- Induction on the derivation, with a statement of its own for factors, for terms and for sums.
  refine Grammar.expr_induction (F := FeedsFactor) (T := FeedsTerm) ?_ ?_ ?_ ?_ ?_ ?_ ?_ h
  · -- A number is a factor.
    intro l hl st goal here outer
    exact feed_cons (step_expr (by simp only [ExprState.step, hl])) []
  · -- A name is a factor.
    intro l hl st goal here outer
    exact feed_cons (step_expr (by simp only [ExprState.step, hl])) []
  · -- A group is a sum on a level of its own.
    intro l r ls e hl hsum hr st goal here outer
    obtain ⟨sum, term, rfl, hfeed⟩ := hsum st goal (here :: outer)
    have hopen : ExprState.step l (.operand here outer) =
        .more (.operand Level.fresh (here :: outer)) := by
      simp only [ExprState.step, hl]
    have hclose : ExprState.step r (.operator sum term (here :: outer)) =
        .more (.behind here (sum.close term) outer) := by
      rw [ExprState.step_leave (by simp [hr]), ExprState.leave, if_pos hr]
    rw [List.cons_append, feed_cons (step_expr hopen), feed_append hfeed,
      feed_cons (step_expr hclose), feed_nil]
  · -- A factor alone is a term.
    intro ls e hfactor st goal sum outer
    exact hfactor st goal ⟨sum, none⟩ outer
  · -- The term so far waits with its operator for one more factor.
    intro o op ls ms a b hterm ho hfactor st goal sum outer
    rw [feed_append (hterm st goal sum outer), feed_cons (step_expr (ExprState.step_product ho))]
    exact hfactor st goal ⟨sum, some (a, op)⟩ outer
  · -- A term alone is a sum, with nothing waiting before it.
    intro ls e hterm st goal outer
    exact ⟨none, e, rfl, hterm st goal none outer⟩
  · -- The sum so far is closed, and waits with its operator for one more term.
    intro o op ls ms a b hsum ho hterm st goal outer
    obtain ⟨sum, term, rfl, hfeed⟩ := hsum st goal outer
    refine ⟨some (sum.close term, op), b, rfl, ?_⟩
    rw [feed_append hfeed, feed_cons (step_expr (ExprState.step_sum ho))]
    exact hterm st goal (some (sum.close term, op)) outer

/-- An expression together with the lexeme behind it. -/
theorem Grammar.Sum.feed_ending (h : Grammar.Sum ls e) (hl : l.kind ≠ .operator) (st : State)
    (goal : Goal) {st' : State} (hend : st.endExpr goal e l = .ok st') (rest : List Lexeme) :
    (st.focusOn (.expr goal .start)).feed (ls ++ l :: rest) = st'.feed rest := by
  obtain ⟨sum, term, rfl, hfeed⟩ := h.feeds st goal []
  have hstep : (st.focusOn (.expr goal (.operator sum term []))).step l =
      st.endExpr goal (sum.close term) l := step_expr_end hl
  rw [ExprState.start, feed_append hfeed, feed_cons (hstep.trans hend)]

/-- Some lexemes start as an expression does: with a number, a name or a parenthesis. -/
def Parse.StartExpr (ls : List Lexeme) : Prop :=
  ∃ l rest, ls = l :: rest ∧ (l.kind = .number ∨ l.kind = .identifier ∨ l.kind = .leftParen)

theorem Parse.StartExpr.append (h : StartExpr ls) (ms : List Lexeme) : StartExpr (ls ++ ms) := by
  obtain ⟨l, rest, rfl, hl⟩ := h
  exact ⟨l, rest ++ ms, rfl, hl⟩

theorem Grammar.Sum.startExpr (h : Grammar.Sum ls e) : StartExpr ls := by
  refine Grammar.expr_induction (F := fun ls _ => StartExpr ls) (T := fun ls _ => StartExpr ls)
    (S := fun ls _ => StartExpr ls) ?_ ?_ ?_ (fun _ _ h => h) ?_ (fun _ _ h => h) ?_ h
  · intro l hl
    exact ⟨l, [], rfl, .inl hl⟩
  · intro l hl
    exact ⟨l, [], rfl, .inr (.inl hl)⟩
  · intro l r ls e hl _ _
    exact ⟨l, ls ++ [r], rfl, .inr (.inr hl)⟩
  · intro o op ls ms a b hls _ _
    exact hls.append (o :: ms)
  · intro o op ls ms a b hls _ _
    exact hls.append (o :: ms)

/-- Behind the word for printing, an expression is read as everywhere else. -/
theorem Parse.State.feed_printWhat (h : StartExpr ls) (st : State) :
    (st.focusOn .printWhat).feed ls = (st.focusOn (.expr .print .start)).feed ls := by
  obtain ⟨l, rest, rfl, hl⟩ := h
  have hkind : l.kind ≠ .string := by
    rcases hl with h | h | h <;> simp [h]
  have hstep : (st.focusOn .printWhat).step l = (st.focusOn (.expr .print .start)).step l :=
    if_neg hkind
  rw [feed, feed, hstep]

/-- Behind the word for returning, an expression is read as everywhere else. -/
theorem Parse.State.feed_returnValue (h : StartExpr ls) (st : State) :
    (st.focusOn .returnValue).feed ls = (st.focusOn (.expr .ret .start)).feed ls := by
  obtain ⟨l, rest, rfl, hl⟩ := h
  have hkind : l.kind ≠ .semicolon := by
    rcases hl with h | h | h <;> simp [h]
  have hstep : (st.focusOn .returnValue).step l = (st.focusOn (.expr .ret .start)).step l :=
    if_neg hkind
  rw [feed, feed, hstep]

end Expressions

/-! ## Between statements -/

section Statements

open Parse Parse.State

variable {st : State} {done : List Stmt} {frames : List Frame} {l : Lexeme} {ls : List Lexeme}

/-- The parser stands between two statements of a block. -/
def Parse.State.Between (st : State) (done : List Stmt) (frames : List Frame) : Prop :=
  st.settle = ⟨.start, done, frames⟩

theorem Parse.State.between_start (done : List Stmt) (frames : List Frame) :
    Between ⟨.start, done, frames⟩ done frames := rfl

/-- Where a second block may follow, every other lexeme is read as the start of a statement. -/
theorem Parse.State.Between.step (h : Between st done frames) (hl : l.kind ≠ .otherwise) :
    st.step l = State.begin ⟨.start, done, frames⟩ l := by
  obtain ⟨focus, before, outer⟩ := st
  cases focus with
  | start =>
    cases h
    rfl
  | afterThen cond block =>
    cases h
    exact if_neg hl
  | _ => cases h

/-- Between statements, with no block open, the input may end. -/
theorem Parse.State.Between.finish (h : Between st done []) : st.finish = .ok done.reverse := by
  obtain ⟨focus, before, outer⟩ := st
  cases focus with
  | start =>
    cases h
    rfl
  | afterThen cond block =>
    cases h
    rfl
  | _ => cases h

/-- The state behind a closed block. -/
def Parse.Owner.closed (owner : Owner) (block before : List Stmt) (frames : List Frame) : State :=
  match owner with
  | .thenOf cond => ⟨.afterThen cond block, before, frames⟩
  | .elseOf cond thenBlock => ⟨.start, .branch cond thenBlock (some block) :: before, frames⟩
  | .bodyOf signature => ⟨.start, .function signature block :: before, frames⟩

theorem Parse.State.closeBlock_eq (focus : Focus) (owner : Owner) (before : List Stmt) :
    State.closeBlock ⟨focus, done, ⟨owner, before⟩ :: frames⟩ l =
      .ok (owner.closed done.reverse before frames) := by
  cases owner <;> rfl

/-! ## Statements -/

theorem Parse.expect_eq {kind : Lexeme.Kind} {what : Expectation} {next : State}
    (h : l.kind = kind) : expect kind what l next = .ok next := if_pos h

/-- A statement leads from one place between statements to the next. -/
def Parse.FeedsStatement (ls : List Lexeme) (s : Stmt) : Prop :=
  ∀ (st : State) (done : List Stmt) (frames : List Frame), Between st done frames →
    ∃ st', st.feed ls = .ok st' ∧ Between st' (s :: done) frames

/-- A block is read wherever its brace opens it for an owner. -/
def Parse.FeedsBlock (ls : List Lexeme) (block : List Stmt) : Prop :=
  ∀ (st : State) (owner : Owner),
    (∀ l : Lexeme, l.kind = .leftBrace → st.step l = .ok (st.openBlock owner)) →
    st.feed ls = .ok (owner.closed block st.done st.frames)

/-- Statements lead from one place between statements to another. -/
def Parse.FeedsProgram (ls : List Lexeme) (program : List Stmt) : Prop :=
  ∀ (st : State) (done : List Stmt) (frames : List Frame), Between st done frames →
    ∃ st', st.feed ls = .ok st' ∧ Between st' (program.reverse ++ done) frames

/-- A statement is read once its first lexeme is. -/
theorem Parse.FeedsStatement.of_begin (focus : Focus) {s : Stmt}
    (hbegin : ∀ st : State, st.begin l = .ok (st.focusOn focus))
    (hrest : ∀ st : State, ∃ st', (st.focusOn focus).feed ls = .ok st' ∧
      Between st' (s :: st.done) st.frames) : FeedsStatement (l :: ls) s := by
  intro st done frames hst
  -- A lexeme that begins a statement cannot be taken for the start of a second block.
  have hl : l.kind ≠ .otherwise := by
    intro hkind
    have hstart := hbegin State.initial
    simp only [State.begin, hkind] at hstart
    cases hstart
  obtain ⟨st', hfeed, hst'⟩ := hrest ⟨.start, done, frames⟩
  exact ⟨st', feed_step ((hst.step hl).trans (hbegin _)) hfeed, hst'⟩

/-- A branch up to the end of its first block. -/
theorem Parse.State.feed_cond {p r : Lexeme} {bs : List Lexeme} {cond : Expr}
    {thenBlock : List Stmt} (hp : p.kind = .leftParen) (hsum : Grammar.Sum ls cond)
    (hr : r.kind = .rightParen) (hblock : FeedsBlock bs thenBlock) (st : State)
    (rest : List Lexeme) :
    (st.focusOn .condParen).feed (p :: ls ++ r :: bs ++ rest) =
      (st.focusOn (.afterThen cond thenBlock)).feed rest := by
  have hthen := hblock (st.focusOn (.thenBlock cond)) (.thenOf cond) fun l hl => expect_eq hl
  rw [List.append_assoc, List.cons_append, List.cons_append]
  refine feed_step (expect_eq hp) ?_
  refine (hsum.feed_ending (by simp [hr]) st .cond (expect_eq hr) _).trans ?_
  exact feed_append hthen rest

/-- A function up to its body. -/
theorem Parse.State.feed_params {ps : List Lexeme} {params : List Param}
    (h : Grammar.Params ps params) (st : State) (signature : Signature) (rest : List Lexeme) :
    (st.focusOn (.params signature)).feed (ps ++ rest) =
      (st.focusOn (.params { signature with params := signature.params ++ params })).feed rest := by
  induction h generalizing signature with
  | nil => rw [List.append_nil]; rfl
  | @cons t n type ps params ht hn _ ih =>
    have hkind : t.kind ≠ .rightParen := by simp [ht.kind]
    have htype : (st.focusOn (.params signature)).step t =
        .ok (st.focusOn (.paramName signature type)) :=
      (if_neg hkind).trans (expectType_eq ht)
    refine feed_step htype (feed_step (expect_eq hn) ?_)
    refine (ih (signature.addParam ⟨type, n.text⟩)).trans ?_
    simp only [Signature.addParam, List.append_assoc, List.singleton_append]

/-- A statement that ends with an expression and a semicolon. -/
theorem Parse.FeedsStatement.of_expr (focus : Focus) (goal : Goal) (ks : List Lexeme) {s : Stmt}
    {e : Expr} {kw semi : Lexeme} (hsum : Grammar.Sum ls e)
    (hbegin : ∀ st : State, st.begin kw = .ok (st.focusOn focus))
    (hgoal : ∀ (st : State) (rest : List Lexeme), StartExpr rest →
      (st.focusOn focus).feed (ks ++ rest) = (st.focusOn (.expr goal .start)).feed rest)
    (hsemi : semi.kind = .semicolon)
    (hend : ∀ st : State, st.endExpr goal e semi = .ok (st.push s)) :
    FeedsStatement (kw :: ks ++ ls ++ [semi]) s := by
  rw [List.append_assoc, List.cons_append]
  refine FeedsStatement.of_begin focus hbegin fun st => ⟨st.push s, ?_, rfl⟩
  rw [hgoal st _ (hsum.startExpr.append [semi])]
  exact hsum.feed_ending (by simp [hsemi]) st goal (hend st) []

/-- **The walk along a spelling of a program.** -/
theorem Grammar.Program.feeds {program : List Stmt} (h : Grammar.Program ls program) :
    FeedsProgram ls program := by
  refine @Grammar.Program.rec (fun ls s _ => FeedsStatement ls s)
    (fun ls block _ => FeedsBlock ls block) (fun ls program _ => FeedsProgram ls program)
    ?declare ?declareValue ?assign ?printText ?printValue ?scan ?branch ?branchElse ?function ?ret
    ?retValue ?braces ?nil ?cons ls program h
  case declare =>
    intro kw t n semi type hkw ht hn hsemi
    -- Behind the name there is no sign of a first value, so the declaration ends.
    refine .of_begin .declareType (fun st => by simp only [State.begin, hkw]) fun st => ?_
    have hend : (st.focusOn (.declareValue type n.text)).step semi =
        .ok (st.push (.declare type n.text none)) :=
      (if_neg (by simp [hsemi])).trans (expect_eq hsemi)
    exact ⟨_, feed_step (expectType_eq ht) (feed_step (expect_eq hn) (feed_step hend rfl)), rfl⟩
  case declareValue =>
    intro kw t n eq semi type ls e hkw ht hn heq hsum hsemi
    refine .of_expr .declareType (.declare type n.text) [t, n, eq] hsum
      (fun st => by simp only [State.begin, hkw]) (fun st rest _ => ?_) hsemi
      fun st => expect_eq hsemi
    exact feed_step (expectType_eq ht) (feed_step (expect_eq hn) (feed_step (if_pos heq) rfl))
  case assign =>
    intro n eq semi ls e hn heq hsum hsemi
    refine .of_expr (.assignMark n.text) (.assign n.text) [eq] hsum
      (fun st => by simp only [State.begin, hn]) (fun st rest _ => ?_) hsemi
      fun st => expect_eq hsemi
    exact feed_step (expect_eq heq) rfl
  case printText =>
    intro kw t semi content hkw ht htext hsemi
    refine .of_begin .printWhat (fun st => by simp only [State.begin, hkw]) fun st => ?_
    -- The parser takes the quotes off again.
    rw [← Lexeme.content_eq htext]
    exact ⟨_, feed_step (if_pos ht) (feed_step (expect_eq hsemi) rfl), rfl⟩
  case printValue =>
    intro kw semi ls e hkw hsum hsemi
    exact .of_expr .printWhat .print [] hsum (fun st => by simp only [State.begin, hkw])
      (fun st rest hrest => feed_printWhat hrest st) hsemi fun st => expect_eq hsemi
  case scan =>
    intro kw n semi hkw hn hsemi
    refine .of_begin .scanName (fun st => by simp only [State.begin, hkw]) fun st => ?_
    exact ⟨_, feed_step (expect_eq hn) (feed_step (expect_eq hsemi) rfl), rfl⟩
  case branch =>
    intro kw p r ls bs cond thenBlock hkw hp hsum hr _ hthen
    refine .of_begin .condParen (fun st => by simp only [State.begin, hkw]) fun st => ?_
    -- The parser still waits for a second block; that it stands between statements is `rfl`.
    refine ⟨st.focusOn (.afterThen cond thenBlock), ?_, rfl⟩
    have hfeed := feed_cond hp hsum hr hthen st []
    rwa [List.append_nil] at hfeed
  case branchElse =>
    intro kw p r o ls bs cs cond thenBlock elseBlock hkw hp hsum hr _ ho _ hthen helse
    refine .of_begin .condParen (fun st => by simp only [State.begin, hkw]) fun st => ?_
    have hopen : (st.focusOn (.afterThen cond thenBlock)).step o =
        .ok (st.focusOn (.elseBlock cond thenBlock)) := if_pos ho
    have hblock := helse (st.focusOn (.elseBlock cond thenBlock)) (.elseOf cond thenBlock)
      fun l hl => expect_eq hl
    exact ⟨_, (feed_cond hp hsum hr hthen st (o :: cs)).trans (feed_step hopen hblock), rfl⟩
  case function =>
    intro kw t n p r type ps bs params body hkw ht hn hp hparams hr _ hbody
    refine .of_begin .functionType (fun st => by simp only [State.begin, hkw]) fun st => ?_
    have hblock := hbody (st.focusOn (.functionBody ⟨type, n.text, params⟩))
      (.bodyOf ⟨type, n.text, params⟩) fun l hl => expect_eq hl
    have hhead := (feed_params hparams st ⟨type, n.text, []⟩ (r :: bs)).trans
      (feed_step (if_pos hr) hblock)
    exact ⟨_, feed_step (expectType_eq ht) (feed_step (expect_eq hn)
      (feed_step (expect_eq hp) hhead)), rfl⟩
  case ret =>
    intro kw semi hkw hsemi
    refine .of_begin .returnValue (fun st => by simp only [State.begin, hkw]) fun st => ?_
    exact ⟨_, feed_step (if_pos hsemi) rfl, rfl⟩
  case retValue =>
    intro kw semi ls e hkw hsum hsemi
    exact .of_expr .returnValue .ret [] hsum (fun st => by simp only [State.begin, hkw])
      (fun st rest hrest => feed_returnValue hrest st) hsemi fun st => expect_eq hsemi
  case braces =>
    intro l r ls block hl _ hr hprogram st owner hopen
    -- The statements of the block are collected afresh and handed to the owner at its end.
    obtain ⟨last, hfeed, hlast⟩ := hprogram (st.openBlock owner) [] _ (between_start _ _)
    have hclose : last.step r = .ok (owner.closed block st.done st.frames) := by
      rw [hlast.step (by simp [hr]), State.begin, hr]
      simp only [closeBlock_eq, List.append_nil, List.reverse_reverse]
    rw [List.cons_append]
    refine feed_step (hopen l hl) ?_
    rw [feed_append hfeed]
    exact feed_step hclose rfl
  case nil =>
    intro st done frames hst
    exact ⟨st, rfl, hst⟩
  case cons =>
    intro ls ms s program _ _ hs hrest st done frames hst
    obtain ⟨st₁, hfeed₁, hst₁⟩ := hs st done frames hst
    obtain ⟨st₂, hfeed₂, hst₂⟩ := hrest st₁ (s :: done) frames hst₁
    refine ⟨st₂, (feed_append hfeed₁ ms).trans hfeed₂, ?_⟩
    rwa [List.reverse_cons, List.append_assoc]

/-- **What the grammar spells is accepted**, with the tree that it spells. -/
theorem parse_of_program {tokens : List Token} {program : List Stmt}
    (h : Grammar.Program (tokens.map Token.toLexeme) program) : parse tokens = .ok program := by
  obtain ⟨st, hfeed, hst⟩ := h.feeds State.initial [] [] (between_start [] [])
  rw [List.append_nil] at hst
  refine parse_eq_ok_iff_feed.mpr ⟨st, hfeed, ?_⟩
  rw [hst.finish, List.reverse_reverse]

end Statements

end Brew
