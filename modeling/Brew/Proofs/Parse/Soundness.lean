import Brew.Proofs.Parse.Completeness

/-!
# The parser builds only what the grammar spells

What the parser has read is spread over its state: the statements that are complete, the blocks that
are open, and a statement that has begun.  The invariant says of each of these parts which lexemes
it stands for, in terms of the grammar alone.  One lexeme keeps it, so it holds along every walk,
and at the end of the input it says that the lexemes spell the program.  The parser takes the quotes
off a text without looking at them, so texts have to come with their quotes.

## Main definitions

* `Parse.ReadExpr`: what the expression reader has read
* `Parse.ReadFocus`: what was read of the current statement
* `Parse.ReadFrames`: what was read up to the current block
* `Parse.ReadState`: what the parser has read

## Main results

* `Parse.ReadExpr.step`, `Parse.ReadState.step`: one lexeme keeps the invariant
* `program_of_parse`: what is accepted is spelled by the grammar
* `parse_eq_ok_iff`: the parser accepts exactly what the grammar spells
-/

namespace Brew

open Grammar

namespace Parse

/-! ## Expressions -/

section Expressions

variable {ls ms ns ks : List Lexeme} {e : Expr} {l : Lexeme} {outer : List Level}

/-- What was read of a sum that waits for a term. -/
inductive OpenSum : List Lexeme → Waiting → Prop where
  | none : OpenSum [] none
  | some {ls : List Lexeme} {o : Lexeme} {op : BinaryOp} {e : Expr} :
      Sum ls e → SumSign o op → OpenSum (ls ++ [o]) (some (e, op))

/-- What was read of a term that waits for a factor. -/
inductive OpenTerm : List Lexeme → Waiting → Prop where
  | none : OpenTerm [] none
  | some {ls : List Lexeme} {o : Lexeme} {op : BinaryOp} {e : Expr} :
      Term ls e → ProductSign o op → OpenTerm (ls ++ [o]) (some (e, op))

/-- What was read up to the innermost open parenthesis. -/
inductive OpenLevels : List Lexeme → List Level → Prop where
  | nil : OpenLevels [] []
  | cons {ls ms ns : List Lexeme} {l : Lexeme} {here : Level} {outer : List Level} :
      OpenLevels ls outer → OpenSum ms here.sum → OpenTerm ns here.product →
      l.kind = .leftParen → OpenLevels (ls ++ ms ++ ns ++ [l]) (here :: outer)

/-- **What the expression reader has read.** -/
inductive ReadExpr : List Lexeme → ExprState → Prop where
  | operand {ls ms ns : List Lexeme} {here : Level} {outer : List Level} :
      OpenLevels ls outer → OpenSum ms here.sum → OpenTerm ns here.product →
      ReadExpr (ls ++ ms ++ ns) (.operand here outer)
  | operator {ls ms ns : List Lexeme} {sum : Waiting} {term : Expr} {outer : List Level} :
      OpenLevels ls outer → OpenSum ms sum → Term ns term →
      ReadExpr (ls ++ ms ++ ns) (.operator sum term outer)

theorem ReadExpr.start : ReadExpr [] .start :=
  @ReadExpr.operand [] [] [] Level.fresh [] .nil .none .none

theorem OpenSum.close {sum : Waiting} (hsum : OpenSum ms sum) (hterm : Term ns e) :
    Sum (ms ++ ns) (sum.close e) := by
  cases hsum with
  | none => exact Sum.term hterm
  | some hls ho =>
    rw [List.append_assoc]
    exact Sum.apply hls ho hterm

theorem OpenTerm.close {product : Waiting} (hproduct : OpenTerm ns product)
    (hfactor : Factor ks e) : Term (ns ++ ks) (product.close e) := by
  cases hproduct with
  | none => exact Term.factor hfactor
  | some hls ho =>
    rw [List.append_assoc]
    exact Term.apply hls ho hfactor

/-- A factor completes the open term. -/
theorem ReadExpr.behind {here : Level} (houter : OpenLevels ls outer)
    (hsum : OpenSum ms here.sum) (hproduct : OpenTerm ns here.product) (hfactor : Factor ks e) :
    ReadExpr (ls ++ ms ++ ns ++ ks) (.behind here e outer) := by
  rw [List.append_assoc (ls ++ ms)]
  exact ReadExpr.operator houter hsum (hproduct.close hfactor)

/-- A product sign opens a term behind the term that was read. -/
theorem ReadExpr.product {sum : Waiting} {term : Expr} {op : BinaryOp}
    (houter : OpenLevels ls outer) (hsum : OpenSum ms sum) (hterm : Term ns term)
    (hop : ProductSign l op) :
    ReadExpr (ls ++ ms ++ ns ++ [l]) (.operand ⟨sum, some (term, op)⟩ outer) := by
  rw [List.append_assoc (ls ++ ms)]
  exact ReadExpr.operand houter hsum (OpenTerm.some hterm hop)

/-- A sum sign opens a sum behind all that is open on its level. -/
theorem ReadExpr.sum {sum : Waiting} {term : Expr} {op : BinaryOp}
    (houter : OpenLevels ls outer) (hsum : OpenSum ms sum) (hterm : Term ns term)
    (hop : SumSign l op) :
    ReadExpr (ls ++ ms ++ ns ++ [l]) (.operand ⟨some (sum.close term, op), none⟩ outer) := by
  have hopen := OpenSum.some (hsum.close hterm) hop
  have hread : ReadExpr _ (.operand ⟨some (sum.close term, op), none⟩ outer) :=
    ReadExpr.operand houter hopen OpenTerm.none
  simpa only [List.append_assoc, List.append_nil] using hread

/-- A closing parenthesis makes the group a factor of the level around it. -/
theorem ReadExpr.leave {state : ExprState} (houter : OpenLevels ls outer) (hsum : Sum ms e)
    (hstep : ExprState.leave l e outer = .more state) : ReadExpr (ls ++ ms ++ [l]) state := by
  cases houter with
  | nil => cases hstep
  | cons houter hsum' hproduct hopen =>
    simp only [ExprState.leave] at hstep
    split at hstep
    · next hkind =>
      cases hstep
      have hread := ReadExpr.behind houter hsum' hproduct (Factor.group hopen hsum hkind)
      simpa only [List.append_assoc, List.cons_append, List.nil_append] using hread
    · cases hstep

/-- **One lexeme of an expression** keeps what the reader has read. -/
theorem ReadExpr.step {state state' : ExprState} (h : ReadExpr ls state)
    (hstep : state.step l = .more state') : ReadExpr (ls ++ [l]) state' := by
  cases h with
  | operand houter hsum hproduct =>
    -- An operand is due: a number, a name or a parenthesis.
    simp only [ExprState.step] at hstep
    split at hstep
    · next hkind =>
      cases hstep
      exact ReadExpr.behind houter hsum hproduct (Factor.number hkind)
    · next hkind =>
      cases hstep
      exact ReadExpr.behind houter hsum hproduct (Factor.ident hkind)
    · next hkind =>
      cases hstep
      -- Nothing has been read yet on the level inside the parenthesis.
      have hread : ReadExpr _ (.operand Level.fresh (_ :: _)) :=
        ReadExpr.operand (OpenLevels.cons houter hsum hproduct hkind) OpenSum.none OpenTerm.none
      simpa only [List.append_nil] using hread
    · cases hstep
  | @operator ls _ _ sum term outer houter hsum hterm =>
    -- An operator or a closing parenthesis is due.
    rcases ExprState.step_operator_cases l sum term outer with
      ⟨op, hop, hmore⟩ | ⟨op, hop, hmore⟩ | hleave
    · cases hmore.symm.trans hstep
      exact ReadExpr.product houter hsum hterm hop
    · cases hmore.symm.trans hstep
      exact ReadExpr.sum houter hsum hterm hop
    · rw [List.append_assoc ls]
      exact ReadExpr.leave houter (hsum.close hterm) (hleave.symm.trans hstep)

/-- An expression that is complete was spelled. -/
theorem ReadExpr.complete {state : ExprState} (h : ReadExpr ls state)
    (hstep : state.step l = .complete e) : Sum ls e := by
  cases h with
  | operand houter hsum hproduct =>
    simp only [ExprState.step] at hstep
    split at hstep <;> cases hstep
  | @operator _ _ _ sum term outer houter hsum hterm =>
    rcases ExprState.step_operator_cases l sum term outer with
      ⟨_, _, hmore⟩ | ⟨_, _, hmore⟩ | hleave
    · cases hmore.symm.trans hstep
    · cases hmore.symm.trans hstep
    · cases houter with
      | nil =>
        -- No parenthesis is open, so nothing was read before the sum.
        cases hleave.symm.trans hstep
        exact hsum.close hterm
      | cons =>
        rw [hleave, ExprState.leave] at hstep
        split at hstep <;> cases hstep

end Expressions

/-! ## Statements -/

section Statements

variable {ls ms ns ks : List Lexeme} {l : Lexeme} {st st' : State}

/-- What was read before an expression, given what the expression is for. -/
inductive ReadGoal : List Lexeme → Goal → Prop where
  | declare {kw t n eq : Lexeme} {type : DataType} :
      kw.kind = .declare → TypeWord t type → n.kind = .identifier → eq.kind = .assign →
      ReadGoal [kw, t, n, eq] (.declare type n.text)
  | assign {n eq : Lexeme} :
      n.kind = .identifier → eq.kind = .assign → ReadGoal [n, eq] (.assign n.text)
  | print {kw : Lexeme} : kw.kind = .print → ReadGoal [kw] .print
  | ret {kw : Lexeme} : kw.kind = .ret → ReadGoal [kw] .ret
  | cond {kw l : Lexeme} : kw.kind = .cond → l.kind = .leftParen → ReadGoal [kw, l] .cond

/-- What was read of a function up to its parameters. -/
inductive ReadSignature : List Lexeme → Signature → Prop where
  | params {kw t n l : Lexeme} {type : DataType} {ps : List Lexeme} {params : List Param} :
      kw.kind = .function → TypeWord t type → n.kind = .identifier →
      l.kind = .leftParen → Params ps params →
      ReadSignature (kw :: t :: n :: l :: ps) ⟨type, n.text, params⟩

/-- What was read of a branch up to the end of its condition. -/
inductive ReadCond : List Lexeme → Expr → Prop where
  | cond {kw l r : Lexeme} {ls : List Lexeme} {cond : Expr} :
      kw.kind = .cond → l.kind = .leftParen → Sum ls cond → r.kind = .rightParen →
      ReadCond (kw :: l :: ls ++ [r]) cond

/-- **What was read of the current statement.** -/
inductive ReadFocus : List Lexeme → Focus → Prop where
  | start : ReadFocus [] .start
  | declareType {kw : Lexeme} : kw.kind = .declare → ReadFocus [kw] .declareType
  | declareName {kw t : Lexeme} {type : DataType} :
      kw.kind = .declare → TypeWord t type → ReadFocus [kw, t] (.declareName type)
  | declareValue {kw t n : Lexeme} {type : DataType} :
      kw.kind = .declare → TypeWord t type → n.kind = .identifier →
      ReadFocus [kw, t, n] (.declareValue type n.text)
  | scanName {kw : Lexeme} : kw.kind = .scan → ReadFocus [kw] .scanName
  | scanEnd {kw n : Lexeme} :
      kw.kind = .scan → n.kind = .identifier → ReadFocus [kw, n] (.scanEnd n.text)
  | printWhat {kw : Lexeme} : kw.kind = .print → ReadFocus [kw] .printWhat
  | printEnd {kw t : Lexeme} {content : String} :
      kw.kind = .print → t.kind = .string → t.text = "\"" ++ content ++ "\"" →
      ReadFocus [kw, t] (.printEnd content)
  | functionType {kw : Lexeme} : kw.kind = .function → ReadFocus [kw] .functionType
  | functionName {kw t : Lexeme} {type : DataType} :
      kw.kind = .function → TypeWord t type → ReadFocus [kw, t] (.functionName type)
  | functionParen {kw t n : Lexeme} {type : DataType} :
      kw.kind = .function → TypeWord t type → n.kind = .identifier →
      ReadFocus [kw, t, n] (.functionParen type n.text)
  | params {ls : List Lexeme} {signature : Signature} :
      ReadSignature ls signature → ReadFocus ls (.params signature)
  | paramName {ls : List Lexeme} {t : Lexeme} {signature : Signature} {type : DataType} :
      ReadSignature ls signature → TypeWord t type →
      ReadFocus (ls ++ [t]) (.paramName signature type)
  | functionBody {ls : List Lexeme} {r : Lexeme} {signature : Signature} :
      ReadSignature ls signature → r.kind = .rightParen →
      ReadFocus (ls ++ [r]) (.functionBody signature)
  | condParen {kw : Lexeme} : kw.kind = .cond → ReadFocus [kw] .condParen
  | thenBlock {ls : List Lexeme} {cond : Expr} : ReadCond ls cond → ReadFocus ls (.thenBlock cond)
  | afterThen {ls bs : List Lexeme} {cond : Expr} {block : List Stmt} :
      ReadCond ls cond → Block bs block → ReadFocus (ls ++ bs) (.afterThen cond block)
  | elseBlock {ls bs : List Lexeme} {o : Lexeme} {cond : Expr} {block : List Stmt} :
      ReadCond ls cond → Block bs block → o.kind = .otherwise →
      ReadFocus (ls ++ bs ++ [o]) (.elseBlock cond block)
  | returnValue {kw : Lexeme} : kw.kind = .ret → ReadFocus [kw] .returnValue
  | assignMark {n : Lexeme} : n.kind = .identifier → ReadFocus [n] (.assignMark n.text)
  | expr {ks ls : List Lexeme} {goal : Goal} {state : ExprState} :
      ReadGoal ks goal → ReadExpr ls state → ReadFocus (ks ++ ls) (.expr goal state)

theorem ReadFocus.goal {goal : Goal} (h : ReadGoal ks goal) : ReadFocus ks (.expr goal .start) := by
  have hfocus := ReadFocus.expr h ReadExpr.start
  rwa [List.append_nil] at hfocus

/-- What was read of the statement that an open block belongs to, the opening brace included. -/
inductive ReadOwner : List Lexeme → Owner → Prop where
  | thenOf {ls : List Lexeme} {l : Lexeme} {cond : Expr} :
      ReadCond ls cond → l.kind = .leftBrace → ReadOwner (ls ++ [l]) (.thenOf cond)
  | elseOf {ls bs : List Lexeme} {o l : Lexeme} {cond : Expr} {block : List Stmt} :
      ReadCond ls cond → Block bs block → o.kind = .otherwise → l.kind = .leftBrace →
      ReadOwner (ls ++ bs ++ [o] ++ [l]) (.elseOf cond block)
  | bodyOf {ls : List Lexeme} {r l : Lexeme} {signature : Signature} :
      ReadSignature ls signature → r.kind = .rightParen → l.kind = .leftBrace →
      ReadOwner (ls ++ [r] ++ [l]) (.bodyOf signature)

/-- **What was read up to the current block.** -/
inductive ReadFrames : List Lexeme → List Frame → Prop where
  | nil : ReadFrames [] []
  | cons {ls ms ns : List Lexeme} {owner : Owner} {before : List Stmt} {frames : List Frame} :
      ReadFrames ls frames → Program ms before.reverse → ReadOwner ns owner →
      ReadFrames (ls ++ ms ++ ns) (⟨owner, before⟩ :: frames)

/-- **What the parser has read**: the blocks that are open, the complete statements of the current
block, and the current statement as far as it goes. -/
inductive ReadState : List Lexeme → State → Prop where
  | parts {ks ms ns : List Lexeme} {focus : Focus} {done : List Stmt} {frames : List Frame} :
      ReadFrames ks frames → Program ms done.reverse → ReadFocus ns focus →
      ReadState (ks ++ ms ++ ns) ⟨focus, done, frames⟩

/-! ### What a step can do -/

theorem expect_eq_ok {kind : Lexeme.Kind} {what : Expectation} {next : State}
    (h : expect kind what l next = .ok st') : l.kind = kind ∧ st' = next := by
  unfold expect at h
  split at h
  · next hkind =>
    cases h
    exact ⟨hkind, rfl⟩
  · cases h

theorem expectType_eq_ok {next : DataType → State} (h : expectType l next = .ok st') :
    ∃ type, TypeWord l type ∧ st' = next type := by
  unfold expectType DataType.ofKeyword at h
  split at h
  · next hkind =>
    cases hword : DataType.ofKeyword? l.text with
    | none =>
      rw [hword] at h
      cases h
    | some type =>
      rw [hword] at h
      cases h
      refine ⟨type, typeWord_iff.mpr ?_, rfl⟩
      rw [DataType.ofKeyword?_eq_some_iff.mp hword, ← hkind]
  · cases h

theorem ReadState.push {s : Stmt} (hframes : ReadFrames ks st.frames)
    (hdone : Program ms st.done.reverse) (hs : Statement ns s) :
    ReadState (ks ++ (ms ++ ns)) (st.push s) := by
  have hprogram := hdone.snoc hs
  rw [← List.reverse_cons] at hprogram
  have hread := ReadState.parts hframes hprogram ReadFocus.start
  rwa [List.append_nil] at hread

theorem ReadState.openBlock {owner : Owner} (hframes : ReadFrames ks st.frames)
    (hdone : Program ms st.done.reverse) (howner : ReadOwner ns owner) :
    ReadState (ks ++ (ms ++ ns)) (st.openBlock owner) := by
  have hread : ReadState _ ⟨.start, [], ⟨owner, st.done⟩ :: st.frames⟩ :=
    ReadState.parts (hframes.cons hdone howner) Program.nil ReadFocus.start
  rwa [List.append_nil, List.append_nil, List.append_assoc] at hread

theorem ReadState.focusOn {focus : Focus} (hframes : ReadFrames ks st.frames)
    (hdone : Program ms st.done.reverse) (hfocus : ReadFocus ns focus) :
    ReadState (ks ++ (ms ++ ns)) (st.focusOn focus) := by
  rw [← List.append_assoc]
  exact ReadState.parts hframes hdone hfocus

theorem ReadCond.branch {cond : Expr} {block : List Stmt} (hcond : ReadCond ls cond)
    (hblock : Block ms block) : Statement (ls ++ ms) (.branch cond block none) := by
  obtain ⟨hkw, hl, hsum, hr⟩ := hcond
  have hs := Statement.branch hkw hl hsum hr hblock
  simpa only [List.append_assoc, List.cons_append, List.nil_append] using hs

theorem ReadCond.branchElse {cond : Expr} {block other : List Stmt} (hcond : ReadCond ls cond)
    (hblock : Block ms block) (ho : l.kind = .otherwise) (hother : Block ns other) :
    Statement (ls ++ ms ++ l :: ns) (.branch cond block (some other)) := by
  obtain ⟨hkw, hl, hsum, hr⟩ := hcond
  have hs := Statement.branchElse hkw hl hsum hr hblock ho hother
  simpa only [List.append_assoc, List.cons_append, List.nil_append] using hs

theorem ReadSignature.function {signature : Signature} {body : List Stmt}
    (hsignature : ReadSignature ls signature) (hr : l.kind = .rightParen)
    (hbody : Block ms body) : Statement (ls ++ l :: ms) (.function signature body) := by
  obtain ⟨hkw, ht, hn, hl, hparams⟩ := hsignature
  exact Statement.function hkw ht hn hl hparams hr hbody

/-- A closing brace completes a block, and with it the function or the branch it ends. -/
theorem ReadState.closeBlock {owner : Owner} {before done : List Stmt} {frames : List Frame}
    {os : List Lexeme} (hframes : ReadFrames ks frames) (hbefore : Program ms before.reverse)
    (howner : ReadOwner os owner) (hdone : Program ns done.reverse) (hl : l.kind = .rightBrace) :
    ReadState (ks ++ (ms ++ (os ++ ns ++ [l]))) (owner.closed done.reverse before frames) := by
  cases howner with
  | thenOf hcond hopen =>
    have hfocus := ReadFocus.afterThen hcond (Block.braces hopen hdone hl)
    have hread := ReadState.parts hframes hbefore hfocus
    simp only [List.append_assoc, List.cons_append, List.nil_append] at hread ⊢
    exact hread
  | elseOf hcond hblock ho hopen =>
    have hs := hcond.branchElse hblock ho (Block.braces hopen hdone hl)
    have hread : ReadState _ (State.push ⟨.start, before, frames⟩ _) := .push hframes hbefore hs
    simp only [List.append_assoc, List.cons_append, List.nil_append] at hread ⊢
    exact hread
  | bodyOf hsignature hr hopen =>
    have hs := hsignature.function hr (Block.braces hopen hdone hl)
    have hread : ReadState _ (State.push ⟨.start, before, frames⟩ _) := .push hframes hbefore hs
    simp only [List.append_assoc, List.cons_append, List.nil_append] at hread ⊢
    exact hread

/-- **One lexeme between statements.** -/
theorem ReadState.begin (hframes : ReadFrames ks st.frames) (hdone : Program ms st.done.reverse)
    (hstep : st.begin l = .ok st') : ReadState (ks ++ (ms ++ [l])) st' := by
  unfold State.begin at hstep
  split at hstep
  · next hkind =>
    cases hstep
    exact .focusOn hframes hdone (.declareType hkind)
  · next hkind =>
    cases hstep
    exact .focusOn hframes hdone (.scanName hkind)
  · next hkind =>
    cases hstep
    exact .focusOn hframes hdone (.printWhat hkind)
  · next hkind =>
    cases hstep
    exact .focusOn hframes hdone (.functionType hkind)
  · next hkind =>
    cases hstep
    exact .focusOn hframes hdone (.condParen hkind)
  · next hkind =>
    cases hstep
    exact .focusOn hframes hdone (.returnValue hkind)
  · next hkind =>
    cases hstep
    exact .focusOn hframes hdone (.assignMark hkind)
  · next hkind =>
    -- A closing brace ends the innermost open block, if there is one.
    obtain ⟨focus, done, frames⟩ := st
    cases hframes with
    | nil => cases hstep
    | @cons ks ms' os owner before frames hframes hbefore howner =>
      rw [State.closeBlock_eq focus owner before] at hstep
      cases hstep
      have hread := ReadState.closeBlock hframes hbefore howner hdone hkind
      simpa only [List.append_assoc] using hread
  · cases hstep

/-- One lexeme behind a complete expression. -/
theorem ReadState.endExpr {goal : Goal} {e : Expr} {gs es : List Lexeme}
    (hframes : ReadFrames ks st.frames) (hdone : Program ms st.done.reverse)
    (hgoal : ReadGoal gs goal) (hsum : Sum es e) (hstep : st.endExpr goal e l = .ok st') :
    ReadState (ks ++ (ms ++ (gs ++ es ++ [l]))) st' := by
  -- A semicolon completes the statement, and a parenthesis the condition of a branch.
  cases hgoal with
  | declare hkw ht hn heq =>
    obtain ⟨hl, rfl⟩ := expect_eq_ok hstep
    exact .push hframes hdone (.declareValue hkw ht hn heq hsum hl)
  | assign hn heq =>
    obtain ⟨hl, rfl⟩ := expect_eq_ok hstep
    exact .push hframes hdone (.assign hn heq hsum hl)
  | print hkw =>
    obtain ⟨hl, rfl⟩ := expect_eq_ok hstep
    exact .push hframes hdone (.printValue hkw hsum hl)
  | ret hkw =>
    obtain ⟨hl, rfl⟩ := expect_eq_ok hstep
    exact .push hframes hdone (.retValue hkw hsum hl)
  | cond hkw hopen =>
    obtain ⟨hl, rfl⟩ := expect_eq_ok hstep
    exact .focusOn hframes hdone (.thenBlock (.cond hkw hopen hsum hl))

/-- One lexeme inside an expression, or behind it. -/
theorem ReadState.stepExpr {goal : Goal} {state : ExprState} {gs es : List Lexeme}
    (hframes : ReadFrames ks st.frames) (hdone : Program ms st.done.reverse)
    (hgoal : ReadGoal gs goal) (hexpr : ReadExpr es state)
    (hstep : st.stepExpr goal state l = .ok st') :
    ReadState (ks ++ (ms ++ (gs ++ es ++ [l]))) st' := by
  unfold State.stepExpr at hstep
  split at hstep
  · next state' hmore =>
    cases hstep
    rw [List.append_assoc gs]
    exact .focusOn hframes hdone (.expr hgoal (hexpr.step hmore))
  · next e hcomplete => exact .endExpr hframes hdone hgoal (hexpr.complete hcomplete) hstep
  · cases hstep

/-- One lexeme of the current statement, whatever was read of it. -/
theorem ReadState.stepFocus {focus : Focus} {done : List Stmt} {frames : List Frame}
    (hl : l.Quoted) (hframes : ReadFrames ks frames) (hdone : Program ms done.reverse)
    (hfocus : ReadFocus ns focus) (hstep : State.step ⟨focus, done, frames⟩ l = .ok st') :
    ReadState (ks ++ (ms ++ (ns ++ [l]))) st' := by
  cases hfocus with
  | start => exact ReadState.begin hframes hdone hstep
  | declareType hkw =>
    obtain ⟨type, ht, rfl⟩ := expectType_eq_ok hstep
    exact .focusOn hframes hdone (.declareName hkw ht)
  | declareName hkw ht =>
    obtain ⟨hn, rfl⟩ := expect_eq_ok hstep
    exact .focusOn hframes hdone (.declareValue hkw ht hn)
  | declareValue hkw ht hn =>
    -- A first value follows, or the declaration ends here.
    simp only [State.step] at hstep
    split at hstep
    · next heq =>
      cases hstep
      exact .focusOn hframes hdone (.goal (.declare hkw ht hn heq))
    · obtain ⟨hl, rfl⟩ := expect_eq_ok hstep
      exact .push hframes hdone (.declare hkw ht hn hl)
  | scanName hkw =>
    obtain ⟨hn, rfl⟩ := expect_eq_ok hstep
    exact .focusOn hframes hdone (.scanEnd hkw hn)
  | scanEnd hkw hn =>
    obtain ⟨hl, rfl⟩ := expect_eq_ok hstep
    exact .push hframes hdone (.scan hkw hn hl)
  | printWhat hkw =>
    -- A text follows, or the lexeme is the first one of an expression.
    simp only [State.step] at hstep
    split at hstep
    · next ht =>
      cases hstep
      obtain ⟨content, htext⟩ := hl ht
      rw [Lexeme.content_eq htext]
      exact .focusOn hframes hdone (.printEnd hkw ht htext)
    · exact .stepExpr hframes hdone (.print hkw) .start hstep
  | printEnd hkw ht htext =>
    obtain ⟨hl, rfl⟩ := expect_eq_ok hstep
    exact .push hframes hdone (.printText hkw ht htext hl)
  | functionType hkw =>
    obtain ⟨type, ht, rfl⟩ := expectType_eq_ok hstep
    exact .focusOn hframes hdone (.functionName hkw ht)
  | functionName hkw ht =>
    obtain ⟨hn, rfl⟩ := expect_eq_ok hstep
    exact .focusOn hframes hdone (.functionParen hkw ht hn)
  | functionParen hkw ht hn =>
    obtain ⟨hl, rfl⟩ := expect_eq_ok hstep
    exact .focusOn hframes hdone (.params (.params hkw ht hn hl .nil))
  | params hsignature =>
    -- The parameters end, or one more begins with its type.
    simp only [State.step] at hstep
    split at hstep
    · next hr =>
      cases hstep
      exact .focusOn hframes hdone (.functionBody hsignature hr)
    · obtain ⟨type, ht, rfl⟩ := expectType_eq_ok hstep
      exact .focusOn hframes hdone (.paramName hsignature ht)
  | paramName hsignature ht =>
    obtain ⟨hn, rfl⟩ := expect_eq_ok hstep
    obtain ⟨hkw, ht', hn', hl, hparams⟩ := hsignature
    have hread := ReadSignature.params hkw ht' hn' hl (hparams.snoc ht hn)
    rw [List.append_assoc]
    exact .focusOn hframes hdone (.params hread)
  | functionBody hsignature hr =>
    obtain ⟨hl, rfl⟩ := expect_eq_ok hstep
    exact .openBlock hframes hdone (.bodyOf hsignature hr hl)
  | condParen hkw =>
    obtain ⟨hl, rfl⟩ := expect_eq_ok hstep
    exact .focusOn hframes hdone (.goal (.cond hkw hl))
  | thenBlock hcond =>
    obtain ⟨hl, rfl⟩ := expect_eq_ok hstep
    exact .openBlock hframes hdone (.thenOf hcond hl)
  | @afterThen ls bs cond block hcond hblock =>
    simp only [State.step] at hstep
    split at hstep
    · next ho =>
      cases hstep
      exact .focusOn hframes hdone (.elseBlock hcond hblock ho)
    · -- The branch turns out to be complete, and the lexeme belongs to what follows it.
      have hprogram := hdone.snoc (hcond.branch hblock)
      rw [← List.reverse_cons] at hprogram
      rw [← List.append_assoc ms]
      exact ReadState.begin hframes hprogram hstep
  | elseBlock hcond hblock ho =>
    obtain ⟨hl, rfl⟩ := expect_eq_ok hstep
    exact .openBlock hframes hdone (.elseOf hcond hblock ho hl)
  | returnValue hkw =>
    -- Nothing is returned, or the lexeme is the first one of an expression.
    simp only [State.step] at hstep
    split at hstep
    · next hl =>
      cases hstep
      exact .push hframes hdone (.ret hkw hl)
    · exact .stepExpr hframes hdone (.ret hkw) .start hstep
  | assignMark hn =>
    obtain ⟨hl, rfl⟩ := expect_eq_ok hstep
    exact .focusOn hframes hdone (.goal (.assign hn hl))
  | expr hgoal hexpr => exact .stepExpr hframes hdone hgoal hexpr hstep

/-- **One lexeme keeps the invariant.** -/
theorem ReadState.step (h : ReadState ls st) (hl : l.Quoted) (hstep : st.step l = .ok st') :
    ReadState (ls ++ [l]) st' := by
  obtain ⟨hframes, hdone, hfocus⟩ := h
  rw [List.append_assoc, List.append_assoc]
  exact .stepFocus hl hframes hdone hfocus hstep

/-- The invariant holds along every walk. -/
theorem ReadState.feed (h : ReadState ls st) (hms : ∀ l ∈ ms, l.Quoted)
    (hfeed : st.feed ms = .ok st') : ReadState (ls ++ ms) st' := by
  induction ms generalizing ls st with
  | nil =>
    cases hfeed
    rwa [List.append_nil]
  | cons l ms ih =>
    rw [State.feed] at hfeed
    split at hfeed
    · next next hstep =>
      obtain ⟨hl, hms⟩ := List.forall_mem_cons.mp hms
      have hread := ih (h.step hl hstep) hms hfeed
      rwa [List.append_assoc] at hread
    · cases hfeed

theorem ReadState.initial : ReadState [] State.initial :=
  @ReadState.parts [] [] [] .start [] [] .nil .nil .start

/-- **At the end of the input the lexemes spell the program.** -/
theorem ReadState.finish {program : List Stmt} (h : ReadState ls st)
    (hfinish : st.finish = .ok program) : Program ls program := by
  obtain ⟨hframes, hdone, hfocus⟩ := h
  -- The input may end at the start of a statement or behind a first block, and only if no block is
  -- open.
  cases hfocus with
  | start =>
    cases hframes with
    | nil =>
      cases hfinish
      rwa [List.nil_append, List.append_nil]
    | cons => cases hfinish
  | afterThen hcond hblock =>
    cases hframes with
    | nil =>
      cases hfinish
      have hprogram := hdone.snoc (hcond.branch hblock)
      rwa [← List.reverse_cons] at hprogram
    | cons => cases hfinish
  | _ => cases hfinish

end Statements

end Parse

/-- What is accepted is spelled by the grammar. -/
theorem program_of_parse {tokens : List Token} {program : List Stmt}
    (hquoted : ∀ t ∈ tokens, t.Quoted) (h : parse tokens = .ok program) :
    Program (tokens.map Token.toLexeme) program := by
  obtain ⟨st, hfeed, hfinish⟩ := parse_eq_ok_iff_feed.mp h
  have hlexemes : ∀ l ∈ tokens.map Token.toLexeme, l.Quoted := List.forall_mem_map.mpr hquoted
  exact (Parse.ReadState.initial.feed hlexemes hfeed).finish hfinish

/-- The grammar gives lexemes at most one tree. -/
theorem Grammar.Program.unique {ls : List Lexeme} {xs ys : List Stmt} (hxs : Program ls xs)
    (hys : Program ls ys) : xs = ys := by
  -- Both trees are what the parser holds at the end of the same walk.
  obtain ⟨st, hfeed, hst⟩ := hxs.feeds Parse.State.initial [] [] rfl
  obtain ⟨st', hfeed', hst'⟩ := hys.feeds Parse.State.initial [] [] rfl
  have hsame : st = st' := Except.ok.inj (hfeed.symm.trans hfeed')
  subst hsame
  have hdone := congrArg Parse.State.done (hst.symm.trans hst')
  simpa using hdone

/-- **The parser accepts exactly what the grammar spells**, and builds the tree that it spells; no
lexemes spell two trees.  Texts are supposed to stand between their quotes, as they do in every
source. -/
theorem parse_eq_ok_iff (tokens : List Token) (hquoted : ∀ t ∈ tokens, t.Quoted) :
    (∀ program : List Stmt,
      parse tokens = .ok program ↔ Program (tokens.map Token.toLexeme) program) ∧
    ∀ xs ys : List Stmt, Program (tokens.map Token.toLexeme) xs →
      Program (tokens.map Token.toLexeme) ys → xs = ys :=
  ⟨fun _ => ⟨program_of_parse hquoted, parse_of_program⟩, fun _ _ hxs hys => hxs.unique hys⟩

/-- A remainder binds tighter than a sum, and the lexemes spell nothing else. -/
theorem parse_eq_ok_iff_remainder :
    let lexemes : List Lexeme :=
      [⟨.declare, "FR"⟩, ⟨.dataType, "NoCap"⟩, ⟨.identifier, "wtl_b"⟩, ⟨.assign, "="⟩,
        ⟨.number, "1"⟩, ⟨.operator, "+"⟩, ⟨.number, "2"⟩, ⟨.operator, "%"⟩, ⟨.number, "3"⟩,
        ⟨.semicolon, ";"⟩, ⟨.print, "spit_it_out"⟩, ⟨.string, "\"a\""⟩, ⟨.semicolon, ";"⟩]
    Program lexemes
      [.declare .noCap "wtl_b" (some (.binary .add (.number "1")
        (.binary .modulo (.number "2") (.number "3")))), .print (.text "a")] ∧
    ¬ Program lexemes
      [.declare .noCap "wtl_b" (some (.binary .modulo
        (.binary .add (.number "1") (.number "2")) (.number "3"))), .print (.text "a")] := by
  intro lexemes
  have hquoted : ∀ t ∈ lexemes.map fun l => (⟨l, Position.start⟩ : Token), t.Quoted := by
    have htext : ∃ content, "\"a\"" = "\"" ++ content ++ "\"" := ⟨"a", rfl⟩
    simpa [lexemes, Lexeme.Quoted] using htext
  obtain ⟨haccepts, hunique⟩ := parse_eq_ok_iff _ hquoted
  have hspells := (haccepts _).mp rfl
  refine ⟨hspells, fun hother => ?_⟩
  have hsame := hunique _ _ hspells hother
  cases hsame

end Brew
