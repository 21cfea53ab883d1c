import Brew.Syntax.Stmt
import Brew.Token.Basic

/-!
# The grammar

What it means for lexemes to spell an expression, a statement or a program, said without any
reading.  The rules follow the grammar one by one.  Most lexemes count by their kind; an operator or
a data type counts only if it is one of the words that the grammar lists, and a text stands between
its quotes.  Operators of one precedence associate to the left, which the rules for terms and sums
express by having their own kind on the left side.

## Main definitions

* `Grammar.ProductSign`, `Grammar.SumSign`, `Grammar.TypeWord`: the words that the grammar lists
* `Grammar.Factor`, `Grammar.Term`, `Grammar.Sum`: spellings of expressions
* `Grammar.Params`: spellings of parameters
* `Grammar.Statement`, `Grammar.Block`, `Grammar.Program`: spellings of statements

## Main results

* `Grammar.productSign_or_sumSign_iff`, `Grammar.typeWord_iff`: the words of the grammar are those
  by which operators and data types are shown
* `Grammar.Program.append`: spellings of programs can be joined
* `Grammar.expr_induction`: induction over factors, terms and sums together
-/

namespace Brew.Grammar

/-! ## Words -/

/-- The operators between the factors of a term. -/
inductive ProductSign : Lexeme → BinaryOp → Prop where
  | times : ProductSign ⟨.operator, "*"⟩ .multiply
  | over : ProductSign ⟨.operator, "/"⟩ .divide
  | rem : ProductSign ⟨.operator, "%"⟩ .modulo

/-- The operators between the terms of a sum. -/
inductive SumSign : Lexeme → BinaryOp → Prop where
  | plus : SumSign ⟨.operator, "+"⟩ .add
  | minus : SumSign ⟨.operator, "-"⟩ .subtract

/-- The words for data types. -/
inductive TypeWord : Lexeme → DataType → Prop where
  | int : TypeWord ⟨.dataType, "int"⟩ .int
  | char : TypeWord ⟨.dataType, "char"⟩ .char
  | float : TypeWord ⟨.dataType, "float"⟩ .float
  | double : TypeWord ⟨.dataType, "double"⟩ .double
  | string : TypeWord ⟨.dataType, "string"⟩ .string
  | noCap : TypeWord ⟨.dataType, "NoCap"⟩ .noCap
  | tbh : TypeWord ⟨.dataType, "Tbh"⟩ .tbh

/-- The signs of both precedences together spell the operators as they are shown. -/
theorem productSign_or_sumSign_iff {o : Lexeme} {op : BinaryOp} :
    ProductSign o op ∨ SumSign o op ↔ o = ⟨.operator, op.symbol⟩ := by
  constructor
  · rintro (h | h) <;> cases h <;> rfl
  · rintro rfl
    cases op with
    | add => exact .inr .plus
    | subtract => exact .inr .minus
    | multiply => exact .inl .times
    | divide => exact .inl .over
    | modulo => exact .inl .rem

/-- The words for data types are the ones by which data types are shown. -/
theorem typeWord_iff {t : Lexeme} {type : DataType} :
    TypeWord t type ↔ t = ⟨.dataType, type.keyword⟩ := by
  constructor
  · intro h
    cases h <;> rfl
  · rintro rfl
    cases type <;> constructor

theorem TypeWord.kind {t : Lexeme} {type : DataType} (h : TypeWord t type) :
    t.kind = .dataType := by
  rw [typeWord_iff.mp h]

/-! ## Expressions -/

mutual

/-- Lexemes that spell a factor. -/
inductive Factor : List Lexeme → Expr → Prop where
  | number {l : Lexeme} : l.kind = .number → Factor [l] (.number l.text)
  | ident {l : Lexeme} : l.kind = .identifier → Factor [l] (.ident l.text)
  | group {l r : Lexeme} {ls : List Lexeme} {e : Expr} :
      l.kind = .leftParen → Sum ls e → r.kind = .rightParen → Factor (l :: ls ++ [r]) e

/-- Lexemes that spell a product of factors. -/
inductive Term : List Lexeme → Expr → Prop where
  | factor {ls : List Lexeme} {e : Expr} : Factor ls e → Term ls e
  | apply {o : Lexeme} {op : BinaryOp} {ls ms : List Lexeme} {a b : Expr} :
      Term ls a → ProductSign o op → Factor ms b → Term (ls ++ o :: ms) (.binary op a b)

/-- Lexemes that spell a sum of terms. -/
inductive Sum : List Lexeme → Expr → Prop where
  | term {ls : List Lexeme} {e : Expr} : Term ls e → Sum ls e
  | apply {o : Lexeme} {op : BinaryOp} {ls ms : List Lexeme} {a b : Expr} :
      Sum ls a → SumSign o op → Term ms b → Sum (ls ++ o :: ms) (.binary op a b)

end

/-! ## Statements -/

/-- Lexemes that spell the parameters of a function, which nothing separates. -/
inductive Params : List Lexeme → List Param → Prop where
  | nil : Params [] []
  | cons {t n : Lexeme} {type : DataType} {ls : List Lexeme} {params : List Param} :
      TypeWord t type → n.kind = .identifier → Params ls params →
      Params (t :: n :: ls) (⟨type, n.text⟩ :: params)

mutual

/-- Lexemes that spell a statement. -/
inductive Statement : List Lexeme → Stmt → Prop where
  | declare {kw t n semi : Lexeme} {type : DataType} :
      kw.kind = .declare → TypeWord t type → n.kind = .identifier →
      semi.kind = .semicolon → Statement [kw, t, n, semi] (.declare type n.text none)
  | declareValue {kw t n eq semi : Lexeme} {type : DataType} {ls : List Lexeme} {e : Expr} :
      kw.kind = .declare → TypeWord t type → n.kind = .identifier → eq.kind = .assign →
      Sum ls e → semi.kind = .semicolon →
      Statement (kw :: t :: n :: eq :: ls ++ [semi]) (.declare type n.text (some e))
  | assign {n eq semi : Lexeme} {ls : List Lexeme} {e : Expr} :
      n.kind = .identifier → eq.kind = .assign → Sum ls e → semi.kind = .semicolon →
      Statement (n :: eq :: ls ++ [semi]) (.assign n.text e)
  | printText {kw t semi : Lexeme} {content : String} :
      kw.kind = .print → t.kind = .string → t.text = "\"" ++ content ++ "\"" →
      semi.kind = .semicolon → Statement [kw, t, semi] (.print (.text content))
  | printValue {kw semi : Lexeme} {ls : List Lexeme} {e : Expr} :
      kw.kind = .print → Sum ls e → semi.kind = .semicolon →
      Statement (kw :: ls ++ [semi]) (.print (.value e))
  | scan {kw n semi : Lexeme} :
      kw.kind = .scan → n.kind = .identifier → semi.kind = .semicolon →
      Statement [kw, n, semi] (.scan n.text)
  | branch {kw l r : Lexeme} {ls bs : List Lexeme} {cond : Expr} {thenBlock : List Stmt} :
      kw.kind = .cond → l.kind = .leftParen → Sum ls cond → r.kind = .rightParen →
      Block bs thenBlock →
      Statement (kw :: l :: ls ++ r :: bs) (.branch cond thenBlock none)
  | branchElse {kw l r o : Lexeme} {ls bs cs : List Lexeme} {cond : Expr}
      {thenBlock elseBlock : List Stmt} :
      kw.kind = .cond → l.kind = .leftParen → Sum ls cond → r.kind = .rightParen →
      Block bs thenBlock → o.kind = .otherwise → Block cs elseBlock →
      Statement (kw :: l :: ls ++ r :: bs ++ o :: cs) (.branch cond thenBlock (some elseBlock))
  | function {kw t n l r : Lexeme} {type : DataType} {ps bs : List Lexeme} {params : List Param}
      {body : List Stmt} :
      kw.kind = .function → TypeWord t type → n.kind = .identifier →
      l.kind = .leftParen → Params ps params → r.kind = .rightParen → Block bs body →
      Statement (kw :: t :: n :: l :: ps ++ r :: bs) (.function ⟨type, n.text, params⟩ body)
  | ret {kw semi : Lexeme} :
      kw.kind = .ret → semi.kind = .semicolon → Statement [kw, semi] (.ret none)
  | retValue {kw semi : Lexeme} {ls : List Lexeme} {e : Expr} :
      kw.kind = .ret → Sum ls e → semi.kind = .semicolon →
      Statement (kw :: ls ++ [semi]) (.ret (some e))

/-- Lexemes that spell a block. -/
inductive Block : List Lexeme → List Stmt → Prop where
  | braces {l r : Lexeme} {ls : List Lexeme} {stmts : List Stmt} :
      l.kind = .leftBrace → Program ls stmts → r.kind = .rightBrace →
      Block (l :: ls ++ [r]) stmts

/-- Lexemes that spell statements one after the other. -/
inductive Program : List Lexeme → List Stmt → Prop where
  | nil : Program [] []
  | cons {ls ms : List Lexeme} {s : Stmt} {stmts : List Stmt} :
      Statement ls s → Program ms stmts → Program (ls ++ ms) (s :: stmts)

end

/-! ## Joining -/

/-- One more parameter can follow. -/
theorem Params.snoc {ls : List Lexeme} {params : List Param} {t n : Lexeme} {type : DataType}
    (h : Params ls params) (ht : TypeWord t type) (hn : n.kind = .identifier) :
    Params (ls ++ [t, n]) (params ++ [⟨type, n.text⟩]) := by
  induction h with
  | nil => exact Params.cons ht hn Params.nil
  | cons ht' hn' _ ih => exact Params.cons ht' hn' ih

/-- Spellings of programs can be joined. -/
theorem Program.append {ls ms : List Lexeme} {xs ys : List Stmt} (hxs : Program ls xs)
    (hys : Program ms ys) : Program (ls ++ ms) (xs ++ ys) := by
  induction xs generalizing ls with
  | nil =>
    cases hxs
    exact hys
  | cons s xs ih =>
    cases hxs with
    | cons hs hrest =>
      rw [List.append_assoc, List.cons_append]
      exact Program.cons hs (ih hrest)

/-- One more statement can follow. -/
theorem Program.snoc {ls ms : List Lexeme} {xs : List Stmt} {s : Stmt} (hxs : Program ls xs)
    (hs : Statement ms s) : Program (ls ++ ms) (xs ++ [s]) := by
  have hlast := Program.cons hs Program.nil
  rw [List.append_nil] at hlast
  exact hxs.append hlast

/-! ## Induction -/

/-- **Induction over spellings of expressions.**  Something is proved of factors, of terms and of
sums together. -/
theorem expr_induction {F T S : List Lexeme → Expr → Prop}
    (number : ∀ l : Lexeme, l.kind = .number → F [l] (.number l.text))
    (ident : ∀ l : Lexeme, l.kind = .identifier → F [l] (.ident l.text))
    (group : ∀ (l r : Lexeme) (ls : List Lexeme) (e : Expr), l.kind = .leftParen → S ls e →
      r.kind = .rightParen → F (l :: ls ++ [r]) e)
    (factor : ∀ ls e, F ls e → T ls e)
    (product : ∀ (o : Lexeme) (op : BinaryOp) ls ms a b, T ls a → ProductSign o op →
      F ms b → T (ls ++ o :: ms) (.binary op a b))
    (term : ∀ ls e, T ls e → S ls e)
    (sum : ∀ (o : Lexeme) (op : BinaryOp) ls ms a b, S ls a → SumSign o op →
      T ms b → S (ls ++ o :: ms) (.binary op a b)) :
    ∀ {ls e}, Sum ls e → S ls e :=
  @Sum.rec (fun ls e _ => F ls e) (fun ls e _ => T ls e) (fun ls e _ => S ls e)
    (number _) (ident _) (fun hl _ hr ih => group _ _ _ _ hl ih hr) (fun _ ih => factor _ _ ih)
    (fun _ ho _ iha ihb => product _ _ _ _ _ _ iha ho ihb) (fun _ ih => term _ _ ih)
    (fun _ ho _ iha ihb => sum _ _ _ _ _ _ iha ho ihb)

end Brew.Grammar
