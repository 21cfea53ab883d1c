import Brew.Proofs.Parse.Completeness

/-!
# Where the parser fails

Tokens are **viable** if a program begins with them.  The parser never reads on once its tokens have
stopped being viable: every state that it can be in leads to the end of some program, and a lexeme
that a state refuses is refused whatever follows.  So a failed parse either ends too early, and then
its tokens are viable, or it blames the first token that no program can have at its place.

## Main definitions

* `Viable`: tokens that some program begins with
* `Fault.Blames`: why one lexeme is refused
* `Token.ShownIn`: what a message says about a token
* `Parse.State.Completable`: a state that some lexemes lead to the end of a program

## Main results

* `Parse.State.completable`: every state can be completed
* `Parse.State.blames_of_step`: a step fails for reasons of its own lexeme
* `ParseError.Blames.shownIn`: an error shows the token that it blames
* `parse_error_exact`: a failed parse names the first token that is not viable, or the end
-/

namespace Brew

/-- Tokens that some program begins with. -/
def Viable (tokens : List Token) : Prop :=
  ∃ more program, parse (tokens ++ more) = .ok program

/-- **A fault blames a lexeme**: another one was needed in its place, or nothing starts with it, or
it claims to be a data type and is none. -/
inductive Fault.Blames (l : Lexeme) : Fault → Prop where
  | expected (what : Expectation) : Blames l (.problem (.expected what l))
  | unexpected : Blames l (.problem (.unexpected l))
  | unknownWord : l.kind = .dataType → DataType.ofKeyword? l.text = none →
      Blames l (.unknownWord (.dataType l.text))

/-- An error blames a token: it is a fault of the lexeme, on the line of the token. -/
def ParseError.Blames (t : Token) (e : ParseError) : Prop :=
  ∃ fault : Fault, fault.Blames t.toLexeme ∧ e = fault.onLine t.line

/-- **What is said about a token that is refused.**  A message has the line of the token and shows
its text and its kind; a word that is no data type is only quoted. -/
inductive Token.ShownIn (t : Token) : String → Prop where
  | expected (what : Expectation) :
      ShownIn t ("line " ++ toString t.line ++ ": " ++ ("Expected " ++ what.phrase ++ ", found " ++
        ("'" ++ t.text ++ "' (" ++ t.kind.name ++ ")")))
  | unexpected :
      ShownIn t ("line " ++ toString t.line ++ ": " ++ ("Unexpected token " ++
        ("'" ++ t.text ++ "' (" ++ t.kind.name ++ ")")))
  | unknownWord : t.kind = .dataType → ShownIn t ("Unknown data type " ++ Text.quoted t.text)

namespace Parse

variable {st st' last : State} {l : Lexeme} {ls : List Lexeme} {fault : Fault}

/-! ## Refused lexemes -/

section Refused

theorem blames_of_expect {kind : Lexeme.Kind} {what : Expectation} {next : State}
    (h : expect kind what l next = .error fault) : fault.Blames l := by
  unfold expect at h
  split at h
  · cases h
  · cases h
    exact .expected what

theorem blames_of_expectType {next : DataType → State} (h : expectType l next = .error fault) :
    fault.Blames l := by
  unfold expectType DataType.ofKeyword at h
  split at h
  · next hkind =>
    cases hword : DataType.ofKeyword? l.text with
    | some type =>
      rw [hword] at h
      cases h
    | none =>
      rw [hword] at h
      cases h
      exact .unknownWord hkind hword
  · cases h
    exact .expected .dataType

theorem State.blames_of_begin (h : st.begin l = .error fault) : fault.Blames l := by
  unfold State.begin at h
  split at h
  case h_8 =>
    -- A closing brace is refused only where no block is open.
    unfold State.closeBlock at h
    split at h
    · cases h
      exact .unexpected
    · cases h
    · cases h
    · cases h
  case h_9 =>
    cases h
    exact .unexpected
  all_goals cases h

theorem State.blames_of_endExpr {goal : Goal} {e : Expr} (h : st.endExpr goal e l = .error fault) :
    fault.Blames l := by
  cases goal <;> exact blames_of_expect h

theorem ExprState.blames_of_leave {e : Expr} {outer : List Level}
    (h : ExprState.leave l e outer = .refused fault) : fault.Blames l := by
  cases outer with
  | nil => cases h
  | cons here outer =>
    simp only [ExprState.leave] at h
    split at h <;> cases h
    exact .expected .groupEnd

theorem ExprState.blames_of_step {state : ExprState} (h : state.step l = .refused fault) :
    fault.Blames l := by
  cases state with
  | operand here outer =>
    simp only [ExprState.step] at h
    split at h <;> cases h
    exact .unexpected
  | operator sum term outer =>
    -- An operator that the parser lists is never refused: the parser knows all of them.
    rcases step_operator_cases l sum term outer with ⟨_, _, hmore⟩ | ⟨_, _, hmore⟩ | hleave
    · cases hmore.symm.trans h
    · cases hmore.symm.trans h
    · exact blames_of_leave (hleave.symm.trans h)

theorem State.blames_of_stepExpr {goal : Goal} {state : ExprState}
    (h : st.stepExpr goal state l = .error fault) : fault.Blames l := by
  unfold State.stepExpr at h
  split at h
  · cases h
  · exact blames_of_endExpr h
  · next hrefused =>
    cases h
    exact ExprState.blames_of_step hrefused

/-- Where one kind of lexeme is always welcome, it is not the one that is refused. -/
theorem error_of_ite {welcome : Prop} [Decidable welcome] {r : Except Fault State}
    (h : (if welcome then .ok st' else r) = .error fault) : r = .error fault := by
  split at h
  · cases h
  · exact h

/-- **A step fails for reasons of its own lexeme.** -/
theorem State.blames_of_step (h : st.step l = .error fault) : fault.Blames l := by
  obtain ⟨focus, done, frames⟩ := st
  cases focus with
  | start => exact blames_of_begin h
  | declareType | functionType => exact blames_of_expectType h
  | declareName | scanName | scanEnd | printEnd | functionName | functionParen | paramName
  | functionBody | condParen | thenBlock | elseBlock | assignMark => exact blames_of_expect h
  | declareValue => exact blames_of_expect (error_of_ite h)
  | params => exact blames_of_expectType (error_of_ite h)
  | printWhat | returnValue => exact blames_of_stepExpr (error_of_ite h)
  | afterThen => exact blames_of_begin (error_of_ite h)
  | expr => exact blames_of_stepExpr h

end Refused

/-! ## Completing a state -/

/-- Some lexemes lead from a state to the end of a program. -/
def State.Completable (st : State) : Prop :=
  ∃ ls last program, st.feed ls = .ok last ∧ last.finish = .ok program

namespace State

theorem Completable.of_step (hstep : st.step l = .ok st') (h : st'.Completable) :
    st.Completable := by
  obtain ⟨ls, last, program, hfeed, hfinish⟩ := h
  exact ⟨l :: ls, last, program, feed_step hstep hfeed, hfinish⟩

/-- Behind a closed block the parser stands between statements. -/
theorem between_closed (owner : Owner) (block before : List Stmt) (frames : List Frame) :
    ∃ s, Between (owner.closed block before frames) (s :: before) frames := by
  cases owner with
  | thenOf cond => exact ⟨.branch cond block none, rfl⟩
  | elseOf cond thenBlock => exact ⟨.branch cond thenBlock (some block), rfl⟩
  | bodyOf signature => exact ⟨.function signature block, rfl⟩

/-- Between statements, closing braces complete the program. -/
theorem Between.completable {done : List Stmt} {frames : List Frame}
    (h : Between st done frames) : st.Completable := by
  -- Induction on the open blocks: each of them needs one brace.
  induction frames generalizing st done with
  | nil => exact ⟨[], st, done.reverse, rfl, h.finish⟩
  | cons frame frames ih =>
    obtain ⟨owner, before⟩ := frame
    obtain ⟨s, hclosed⟩ := between_closed owner done.reverse before frames
    have hstep : st.step ⟨.rightBrace, "\x7d"⟩ = .ok (owner.closed done.reverse before frames) :=
      (h.step (by decide)).trans (closeBlock_eq .start owner before)
    exact .of_step hstep (ih hclosed)

theorem completable_push (st : State) (s : Stmt) : (st.push s).Completable :=
  (between_start (s :: st.done) st.frames).completable

theorem completable_openBlock (st : State) (owner : Owner) : (st.openBlock owner).Completable :=
  (between_start [] (⟨owner, st.done⟩ :: st.frames)).completable

theorem completable_thenBlock (st : State) (cond : Expr) :
    (st.focusOn (.thenBlock cond)).Completable :=
  .of_step (l := ⟨.leftBrace, "\x7b"⟩) (expect_eq rfl) (completable_openBlock _ _)

/-- Behind a complete expression there is a lexeme to go on with. -/
theorem exists_endExpr (st : State) (goal : Goal) (e : Expr) :
    ∃ l st', l.kind ≠ .operator ∧ st.endExpr goal e l = .ok st' ∧ st'.Completable := by
  cases goal with
  | cond =>
    exact ⟨⟨.rightParen, ")"⟩, _, by decide, expect_eq rfl, completable_thenBlock st e⟩
  | _ => exact ⟨⟨.semicolon, ";"⟩, _, by decide, expect_eq rfl, completable_push st _⟩

/-- Behind an operand, closing parentheses complete the expression. -/
theorem completable_operator (st : State) (goal : Goal) (sum : Waiting) (term : Expr)
    (outer : List Level) : (st.focusOn (.expr goal (.operator sum term outer))).Completable := by
  -- Induction on the open levels: each of them needs one parenthesis.
  induction outer generalizing sum term with
  | nil =>
    obtain ⟨l, st', hl, hend, hst'⟩ := exists_endExpr st goal (sum.close term)
    exact .of_step ((step_expr_end hl).trans hend) hst'
  | cons here outer ih =>
    have hstep : ExprState.step ⟨.rightParen, ")"⟩ (.operator sum term (here :: outer)) =
      .more (.behind here (sum.close term) outer) := rfl
    exact .of_step (step_expr hstep) (ih here.sum (here.product.close (sum.close term)))

theorem completable_expr (st : State) (goal : Goal) (state : ExprState) :
    (st.focusOn (.expr goal state)).Completable := by
  cases state with
  | operator sum term outer => exact completable_operator st goal sum term outer
  | operand here outer =>
    have hstep : ExprState.step ⟨.number, "1"⟩ (.operand here outer) =
      .more (.behind here (.number "1") outer) := rfl
    exact .of_step (step_expr hstep) (completable_operator st goal _ _ _)

/-- A statement that a semicolon completes. -/
theorem completable_of_semicolon {s : Stmt} (h : st.step ⟨.semicolon, ";"⟩ = .ok (st.push s)) :
    st.Completable :=
  .of_step h (completable_push st s)

/-- A declaration can end behind the name it declares. -/
theorem completable_declareName (st : State) (type : DataType) :
    (st.focusOn (.declareName type)).Completable := by
  refine .of_step (l := ⟨.identifier, "wtl_x"⟩) rfl ?_
  exact completable_of_semicolon (s := .declare type "wtl_x" none) rfl

/-- A function can go on with no further parameter and an empty body. -/
theorem completable_params (st : State) (signature : Signature) :
    (st.focusOn (.params signature)).Completable := by
  have hbody : (st.focusOn (.functionBody signature)).Completable :=
    .of_step (l := ⟨.leftBrace, "\x7b"⟩) rfl (completable_openBlock _ _)
  exact .of_step (l := ⟨.rightParen, ")"⟩) rfl hbody

theorem completable_functionName (st : State) (type : DataType) :
    (st.focusOn (.functionName type)).Completable := by
  refine .of_step (l := ⟨.identifier, "wtl_f"⟩) rfl ?_
  exact .of_step (l := ⟨.leftParen, "("⟩) rfl (completable_params st _)

/-- **Every state can be completed.** -/
theorem completable (st : State) : st.Completable := by
  obtain ⟨focus, done, frames⟩ := st
  cases focus with
  | start => exact (between_start done frames).completable
  | afterThen cond block =>
    have hbetween : Between ⟨.afterThen cond block, done, frames⟩
        (.branch cond block none :: done) frames := rfl
    exact hbetween.completable
  | declareType =>
    exact .of_step (expectType_eq .int) (completable_declareName ⟨.start, done, frames⟩ .int)
  | declareName type => exact completable_declareName ⟨.start, done, frames⟩ type
  | declareValue type name =>
    exact completable_of_semicolon (s := .declare type name none) rfl
  | scanName =>
    refine .of_step (l := ⟨.identifier, "wtl_x"⟩) rfl ?_
    exact completable_of_semicolon (s := .scan "wtl_x") rfl
  | scanEnd name => exact completable_of_semicolon (s := .scan name) rfl
  | printEnd content =>
    exact completable_of_semicolon (s := .print (.text content)) rfl
  | returnValue => exact completable_of_semicolon (s := .ret none) rfl
  | functionType =>
    exact .of_step (expectType_eq .int) (completable_functionName ⟨.start, done, frames⟩ .int)
  | functionName type => exact completable_functionName ⟨.start, done, frames⟩ type
  | functionParen type name =>
    exact .of_step (l := ⟨.leftParen, "("⟩) rfl
      (completable_params ⟨.start, done, frames⟩ _)
  | params signature => exact completable_params ⟨.start, done, frames⟩ signature
  | paramName signature type =>
    exact .of_step (l := ⟨.identifier, "wtl_p"⟩) rfl
      (completable_params ⟨.start, done, frames⟩ _)
  | functionBody signature =>
    exact .of_step (l := ⟨.leftBrace, "\x7b"⟩) rfl (completable_openBlock _ _)
  | thenBlock cond => exact completable_thenBlock ⟨.start, done, frames⟩ cond
  | elseBlock cond block =>
    exact .of_step (l := ⟨.leftBrace, "\x7b"⟩) rfl (completable_openBlock _ _)
  | condParen =>
    exact .of_step (l := ⟨.leftParen, "("⟩) rfl
      (completable_expr ⟨.start, done, frames⟩ .cond .start)
  | printWhat =>
    exact .of_step (l := ⟨.number, "1"⟩) rfl
      (completable_expr ⟨.start, done, frames⟩ .print (.operator none (.number "1") []))
  | assignMark name =>
    exact .of_step (l := ⟨.assign, "="⟩) rfl
      (completable_expr ⟨.start, done, frames⟩ (.assign name) .start)
  | expr goal state => exact completable_expr ⟨.start, done, frames⟩ goal state

/-! ## Where a walk fails -/

/-- The line of the last of some tokens, given the line before them. -/
def lastLine (line : Nat) (tokens : List Token) : Nat :=
  (tokens.getLast?.map fun t => t.line).getD line

/-- A walk goes along all tokens, or it fails at one of them. -/
theorem feed_cases (st : State) (tokens : List Token) :
    (∃ last, st.feed (tokens.map Token.toLexeme) = .ok last) ∨
      ∃ before t after st' fault, tokens = before ++ t :: after ∧
        st.feed (before.map Token.toLexeme) = .ok st' ∧ st'.step t.toLexeme = .error fault := by
  induction tokens generalizing st with
  | nil => exact .inl ⟨st, rfl⟩
  | cons t tokens ih =>
    cases hstep : st.step t.toLexeme with
    | error fault => exact .inr ⟨[], t, tokens, st, fault, rfl, rfl, hstep⟩
    | ok next =>
      rcases ih next with ⟨last, hfeed⟩ | ⟨before, t', after, st', fault, rfl, hfeed, hfault⟩
      · exact .inl ⟨last, feed_step hstep hfeed⟩
      · exact .inr ⟨t :: before, t', after, st', fault, rfl, feed_step hstep hfeed, hfault⟩

/-- Reading tokens along which a walk goes. -/
theorem run_append {tokens : List Token} (h : st.feed (tokens.map Token.toLexeme) = .ok last)
    (line : Nat) (more : List Token) :
    st.run line (tokens ++ more) = last.run (lastLine line tokens) more := by
  induction tokens generalizing st line with
  | nil =>
    cases h
    rfl
  | cons t tokens ih =>
    rw [List.map_cons, feed] at h
    cases hstep : st.step t.toLexeme with
    | error fault =>
      rw [hstep] at h
      cases h
    | ok next =>
      rw [hstep] at h
      have hline : lastLine line (t :: tokens) = lastLine t.line tokens := by
        rw [lastLine, lastLine, List.getLast?_cons]
        cases tokens.getLast? <;> rfl
      rw [List.cons_append, run, hstep, hline]
      exact ih h t.line

/-- The end of the input fails for want of something. -/
theorem exists_of_finish_eq_error (h : st.finish = .error fault) :
    ∃ what, fault = .problem (.endOfInput what) := by
  unfold finish at h
  split at h
  · cases h
    exact ⟨_, rfl⟩
  · cases h
    exact ⟨_, rfl⟩
  · cases h

end State

end Parse

/-! ## Errors -/

section Errors

open Parse

variable {tokens before : List Token} {t : Token} {st : State} {fault : Fault} {e : ParseError}

/-- Tokens along which the walk goes are viable. -/
theorem viable_of_feed (h : State.initial.feed (tokens.map Token.toLexeme) = .ok st) :
    Viable tokens := by
  obtain ⟨ls, last, program, hfeed, hfinish⟩ := st.completable
  -- Where the missing tokens stand does not matter.
  refine ⟨ls.map fun l => ⟨l, Position.start⟩, program, parse_eq_ok_iff_feed.mpr ⟨last, ?_, hfinish⟩⟩
  have hlexemes : (ls.map fun l => (⟨l, Position.start⟩ : Token)).map Token.toLexeme = ls := by
    rw [List.map_map]
    exact List.map_id ls
  rw [List.map_append, hlexemes, State.feed_append h]
  exact hfeed

/-- A refused token decides the outcome, whatever follows it. -/
theorem parse_of_refused (h : State.initial.feed (before.map Token.toLexeme) = .ok st)
    (hstep : st.step t.toLexeme = .error fault) (more : List Token) :
    parse (before ++ t :: more) = .error (fault.onLine t.line) := by
  rw [parse, State.run_append h, State.run, hstep]

/-- The outcome of tokens along which the walk goes, if it is an error. -/
theorem exists_of_parse_eq_error (h : State.initial.feed (tokens.map Token.toLexeme) = .ok st)
    (herror : parse tokens = .error e) :
    ∃ what, ∃ last ∈ tokens.getLast?, e = .malformed ⟨last.line, .endOfInput what⟩ := by
  have hrun := State.run_append h 1 []
  rw [List.append_nil] at hrun
  rw [parse, hrun, State.run] at herror
  cases hfinish : st.finish with
  | ok program =>
    rw [hfinish] at herror
    cases herror
  | error fault =>
    obtain ⟨what, rfl⟩ := State.exists_of_finish_eq_error hfinish
    rw [hfinish] at herror
    cases hlast : tokens.getLast? with
    | none =>
      -- Without any token there is no error.
      rw [List.getLast?_eq_none_iff.mp hlast] at h
      cases h
      cases hfinish
    | some last =>
      refine ⟨what, last, rfl, ?_⟩
      rw [State.lastLine, hlast] at herror
      exact (Except.error.inj herror).symm

theorem ParseError.Blames.ne_endOfInput (h : e.Blames t) (line : Nat) (what : Expectation) :
    e ≠ .malformed ⟨line, .endOfInput what⟩ := by
  obtain ⟨fault, hblames, rfl⟩ := h
  cases hblames <;> simp [Fault.onLine]

/-- An error shows the token that it blames. -/
theorem ParseError.Blames.shownIn (h : e.Blames t) : t.ShownIn e.message := by
  obtain ⟨fault, hblames, rfl⟩ := h
  cases hblames with
  | expected what => exact .expected what
  | unexpected => exact .unexpected
  | unknownWord hkind _ => exact .unknownWord hkind

/-- **A failed parse is exact.**  It reports the end of the input, on the line of the last token,
exactly if its tokens are viable.  Otherwise it blames the first token that makes them not viable,
shows this token in its message, and says the same of it whatever follows. -/
theorem parse_error_exact (h : parse tokens = .error e) :
    ((∃ line what, e = .malformed ⟨line, .endOfInput what⟩) ↔ Viable tokens) ∧
    (∀ line what, e = .malformed ⟨line, .endOfInput what⟩ →
      ∃ last ∈ tokens.getLast?, line = last.line) ∧
    (¬ Viable tokens → ∃ before t after, tokens = before ++ t :: after ∧
      Viable before ∧ ¬ Viable (before ++ [t]) ∧ e.Blames t ∧ t.ShownIn e.message ∧
      ∀ more, parse (before ++ t :: more) = .error e) := by
  rcases State.initial.feed_cases tokens with
    ⟨st, hfeed⟩ | ⟨before, t, after, st, fault, rfl, hfeed, hstep⟩
  · obtain ⟨what, last, hlast, rfl⟩ := exists_of_parse_eq_error hfeed h
    have hviable := viable_of_feed hfeed
    refine ⟨iff_of_true ⟨_, what, rfl⟩ hviable, fun line what' heq => ⟨last, hlast, ?_⟩,
      fun hnot => absurd hviable hnot⟩
    cases heq
    rfl
  · have hrefused := parse_of_refused hfeed hstep
    obtain rfl : fault.onLine t.line = e := Except.error.inj ((hrefused after).symm.trans h)
    have hblames : (fault.onLine t.line).Blames t := ⟨fault, State.blames_of_step hstep, rfl⟩
    have hnot : ∀ rest, ¬ Viable (before ++ t :: rest) := by
      rintro rest ⟨more, program, hok⟩
      rw [List.append_assoc, List.cons_append] at hok
      exact nomatch (hrefused (rest ++ more)).symm.trans hok
    refine ⟨iff_of_false ?_ (hnot after), fun line what heq => ?_, fun _ => ?_⟩
    · rintro ⟨line, what, heq⟩
      exact hblames.ne_endOfInput line what heq
    · exact absurd heq (hblames.ne_endOfInput line what)
    · exact ⟨before, t, after, rfl, viable_of_feed hfeed, hnot [], hblames, hblames.shownIn,
        hrefused⟩

/-- A declaration that stops behind its first word, and one whose second word is no data type. -/
theorem parse_error_exact_declare :
    (parse [⟨⟨.declare, "FR"⟩, ⟨0, 3⟩⟩] = .error (.malformed ⟨3, .endOfInput .dataType⟩) ∧
      Viable [⟨⟨.declare, "FR"⟩, ⟨0, 3⟩⟩]) ∧
    (parse [⟨⟨.declare, "FR"⟩, ⟨0, 3⟩⟩, ⟨⟨.identifier, "wtl_x"⟩, ⟨3, 4⟩⟩] =
        .error (.malformed ⟨4, .expected .dataType ⟨.identifier, "wtl_x"⟩⟩) ∧
      ParseError.message (.malformed ⟨4, .expected .dataType ⟨.identifier, "wtl_x"⟩⟩) =
        "line 4: Expected data type, found 'wtl_x' (IDENTIFIER)" ∧
      ¬ Viable [⟨⟨.declare, "FR"⟩, ⟨0, 3⟩⟩, ⟨⟨.identifier, "wtl_x"⟩, ⟨3, 4⟩⟩]) := by
  have hshort : parse [⟨⟨.declare, "FR"⟩, ⟨0, 3⟩⟩] =
      .error (.malformed ⟨3, .endOfInput .dataType⟩) := rfl
  have hwrong : parse [⟨⟨.declare, "FR"⟩, ⟨0, 3⟩⟩, ⟨⟨.identifier, "wtl_x"⟩, ⟨3, 4⟩⟩] =
      .error (.malformed ⟨4, .expected .dataType ⟨.identifier, "wtl_x"⟩⟩) := rfl
  refine ⟨⟨hshort, (parse_error_exact hshort).1.mp ⟨3, .dataType, rfl⟩⟩, hwrong, by decide,
    fun hviable => ?_⟩
  obtain ⟨line, what, heq⟩ := (parse_error_exact hwrong).1.mpr hviable
  cases heq

end Errors

end Brew
