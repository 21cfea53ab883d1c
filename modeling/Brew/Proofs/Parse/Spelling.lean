import Brew.Proofs.Parse.Soundness
import Brew.Proofs.Stages
import Brew.Proofs.Token.Lexemes

/-!
# Which trees a source can spell

A tree that comes from a source is **readable**: its names are names, its numbers are numbers, no
text is an operand and no printed text contains a quote.  This is all there is to say, for every
readable tree has a spelling.  The spelling puts each operator and its operands into parentheses of
their own, so that precedence and association have no say in how it is read.

## Main definitions

* `Lexeme.sample`: some lexeme of each kind
* `Expr.spell`, `Stmt.spell`, `Stmt.spellAll`: the lexemes that spell a tree

## Main results

* `Grammar.Sum.readable`, `Grammar.Program.readable`: lexemes of the language spell readable trees
* `Expr.factor_spell`, `Stmt.statement_spell`: a readable tree is spelled by its spelling
* `exists_statements_iff_readableAll`: the trees of sources are the readable ones
-/

namespace Brew

open Grammar

/-! ## Sources have readable trees -/

section Readable

variable {ls : List Lexeme}

/-- Lexemes of the language spell readable expressions. -/
theorem Grammar.Sum.readable {e : Expr} (h : Grammar.Sum ls e)
    (hls : lexicon.ContainsAll ls) : e.Readable := by
  refine Grammar.expr_induction
    (F := fun ls e => lexicon.ContainsAll ls → e.Readable)
    (T := fun ls e => lexicon.ContainsAll ls → e.Readable)
    (S := fun ls e => lexicon.ContainsAll ls → e.Readable)
    ?_ ?_ ?_ (fun _ _ ih => ih) ?_ (fun _ _ ih => ih) ?_ h hls
  · intro l hkind hl
    exact (Lexeme.contains_number hkind).mp (Lexicon.containsAll_cons.mp hl).1
  · intro l hkind hl
    exact (Lexeme.contains_identifier hkind).mp (Lexicon.containsAll_cons.mp hl).1
  · intro l r ls e _ ih _ hls
    simp only [Lexicon.containsAll_append, Lexicon.containsAll_cons] at hls
    exact ih hls.1.2
  · intro o op ls ms a b iha _ ihb hls
    simp only [Lexicon.containsAll_append, Lexicon.containsAll_cons] at hls
    exact ⟨iha hls.1, ihb hls.2.2⟩
  · intro o op ls ms a b iha _ ihb hls
    simp only [Lexicon.containsAll_append, Lexicon.containsAll_cons] at hls
    exact ⟨iha hls.1, ihb hls.2.2⟩

theorem Grammar.Params.isName {params : List Param} (h : Grammar.Params ls params)
    (hls : lexicon.ContainsAll ls) : ∀ p ∈ params, IsName p.name := by
  induction h with
  | nil => exact fun p hp => absurd hp List.not_mem_nil
  | cons _ hn _ ih =>
    simp only [Lexicon.containsAll_cons] at hls
    exact List.forall_mem_cons.mpr ⟨(Lexeme.contains_identifier hn).mp hls.2.1, ih hls.2.2⟩

/-- A text of the language has no quote between its quotes. -/
theorem Lexeme.quote_not_mem_content {l : Lexeme} (hkind : l.kind = .string)
    (hl : lexicon.Contains l) : '"' ∉ l.content.toList := by
  obtain ⟨content, hcontent, htext⟩ := (contains_string hkind).mp hl
  rwa [Lexeme.content, String.toList_ofList, htext, List.cons_append, List.tail_cons,
    List.dropLast_concat]

/-- **Lexemes of the language spell readable programs.** -/
theorem Grammar.Program.readable {program : List Stmt} (h : Grammar.Program ls program)
    (hls : lexicon.ContainsAll ls) : Stmt.ReadableAll program := by
  refine @Grammar.Program.rec
    (fun ls s _ => lexicon.ContainsAll ls → s.Readable)
    (fun ls block _ => lexicon.ContainsAll ls → Stmt.ReadableAll block)
    (fun ls program _ => lexicon.ContainsAll ls → Stmt.ReadableAll program)
    ?declare ?declareValue ?assign ?printText ?printValue ?scan ?branch ?branchElse ?function ?ret
    ?retValue ?braces ?nil ?cons ls program h hls
  case declare =>
    intro kw t n semi type _ _ hn _ hls
    simp only [Lexicon.containsAll_cons] at hls
    exact (Lexeme.contains_identifier hn).mp hls.2.2.1
  case declareValue =>
    intro kw t n eq semi type ls e _ _ hn _ hsum _ hls
    simp only [Lexicon.containsAll_append, Lexicon.containsAll_cons] at hls
    exact ⟨(Lexeme.contains_identifier hn).mp hls.1.2.2.1, hsum.readable hls.1.2.2.2.2⟩
  case assign =>
    intro n eq semi ls e hn _ hsum _ hls
    simp only [Lexicon.containsAll_append, Lexicon.containsAll_cons] at hls
    exact ⟨(Lexeme.contains_identifier hn).mp hls.1.1, hsum.readable hls.1.2.2⟩
  case printText =>
    intro kw t semi content _ ht htext _ hls
    simp only [Lexicon.containsAll_cons] at hls
    have hquote := Lexeme.quote_not_mem_content ht hls.2.1
    rwa [Lexeme.content_eq htext] at hquote
  case printValue =>
    intro kw semi ls e _ hsum _ hls
    simp only [Lexicon.containsAll_append, Lexicon.containsAll_cons] at hls
    exact hsum.readable hls.1.2
  case scan =>
    intro kw n semi _ hn _ hls
    simp only [Lexicon.containsAll_cons] at hls
    exact (Lexeme.contains_identifier hn).mp hls.2.1
  case branch =>
    intro kw l r ls bs cond thenBlock _ _ hsum _ _ hthen hls
    simp only [Lexicon.containsAll_append, Lexicon.containsAll_cons] at hls
    exact ⟨hsum.readable hls.1.2.2, hthen hls.2.2⟩
  case branchElse =>
    intro kw l r o ls bs cs cond thenBlock elseBlock _ _ hsum _ _ _ _ hthen helse hls
    simp only [Lexicon.containsAll_append, Lexicon.containsAll_cons] at hls
    exact ⟨hsum.readable hls.1.1.2.2, hthen hls.1.2.2, helse hls.2.2⟩
  case function =>
    intro kw t n l r type ps bs params body _ _ hn _ hparams _ _ hbody hls
    simp only [Lexicon.containsAll_append, Lexicon.containsAll_cons] at hls
    exact ⟨⟨(Lexeme.contains_identifier hn).mp hls.1.2.2.1, hparams.isName hls.1.2.2.2.2⟩,
      hbody hls.2.2⟩
  case ret =>
    intros
    trivial
  case retValue =>
    intro kw semi ls e _ hsum _ hls
    simp only [Lexicon.containsAll_append, Lexicon.containsAll_cons] at hls
    exact hsum.readable hls.1.2
  case braces =>
    intro l r ls block _ _ _ hprogram hls
    simp only [Lexicon.containsAll_append, Lexicon.containsAll_cons] at hls
    exact hprogram hls.1.2
  case nil =>
    intros
    trivial
  case cons =>
    intro ls ms s program _ _ hs hrest hls
    rw [Lexicon.containsAll_append] at hls
    exact ⟨hs hls.1, hrest hls.2⟩

end Readable

/-! ## Readable trees have sources -/

/-- Some text that a pattern takes as a whole. -/
def Pattern.sample : Pattern → String
  | words spellings => spellings.headD ""
  | identifier => "wtl_x"
  | number => "1"
  | quotedText => "\"\""
  | quotedChar => "' '"
  | oneOf chars => String.ofList (chars.toList.take 1)

/-- **Some lexeme of each kind.**  Where a kind has only one text, this is it. -/
def Lexeme.sample (kind : Kind) : Lexeme :=
  ⟨kind, ((lexicon.lookup kind).map Pattern.sample).getD ""⟩

/-- A text that the lexicon takes as a whole belongs to the language. -/
theorem Lexeme.contains_of_lexeme? {l : Lexeme} (h : lexicon.lexeme? l.text.toList = some l) :
    lexicon.Contains l := by
  obtain ⟨pattern, hmem, hlongest⟩ := (Lexicon.lexeme?_eq_some_iff lexicon_unambiguous).mp h
  exact ⟨pattern, hmem, hlongest.describes⟩

theorem Lexeme.contains_sample (kind : Kind) : lexicon.Contains (sample kind) := by
  cases kind <;> exact contains_of_lexeme? (by decide)

/-- The lexeme of a name. -/
def Lexeme.ofName (name : String) : Lexeme := ⟨.identifier, name⟩

/-- The lexeme of a number. -/
def Lexeme.ofNumber (spelling : String) : Lexeme := ⟨.number, spelling⟩

/-- The lexeme of a data type. -/
def Lexeme.ofDataType (type : DataType) : Lexeme := ⟨.dataType, type.keyword⟩

/-- The lexeme of an operator. -/
def Lexeme.ofOperator (op : BinaryOp) : Lexeme := ⟨.operator, op.symbol⟩

/-- The lexeme of a text. -/
def Lexeme.ofText (content : String) : Lexeme := ⟨.string, "\"" ++ content ++ "\""⟩

/-- **The lexemes that spell an expression**, with one pair of parentheses for each operator. -/
def Expr.spell : Expr → List Lexeme
  | number spelling => [.ofNumber spelling]
  | ident name => [.ofName name]
  | text content => [.ofText content]
  | binary op left right =>
    .sample .leftParen :: (left.spell ++ .ofOperator op :: right.spell) ++ [.sample .rightParen]

/-- The lexemes that spell a parameter. -/
def Param.spell (p : Param) : List Lexeme := [.ofDataType p.type, .ofName p.name]

mutual

/-- **The lexemes that spell a statement.** -/
def Stmt.spell : Stmt → List Lexeme
  | .declare type name none =>
    [.sample .declare, .ofDataType type, .ofName name, .sample .semicolon]
  | .declare type name (some e) =>
    .sample .declare :: .ofDataType type :: .ofName name :: .sample .assign :: e.spell ++
      [.sample .semicolon]
  | .assign name e => .ofName name :: .sample .assign :: e.spell ++ [.sample .semicolon]
  | .print (.text content) => [.sample .print, .ofText content, .sample .semicolon]
  | .print (.value e) => .sample .print :: e.spell ++ [.sample .semicolon]
  | .scan name => [.sample .scan, .ofName name, .sample .semicolon]
  | .branch cond thenBlock none =>
    .sample .cond :: .sample .leftParen :: cond.spell ++ .sample .rightParen ::
      (.sample .leftBrace :: Stmt.spellAll thenBlock ++ [.sample .rightBrace])
  | .branch cond thenBlock (some elseBlock) =>
    .sample .cond :: .sample .leftParen :: cond.spell ++ .sample .rightParen ::
      (.sample .leftBrace :: Stmt.spellAll thenBlock ++ [.sample .rightBrace]) ++
      .sample .otherwise ::
        (.sample .leftBrace :: Stmt.spellAll elseBlock ++ [.sample .rightBrace])
  | .function signature body =>
    .sample .function :: .ofDataType signature.type :: .ofName signature.name ::
      .sample .leftParen :: signature.params.flatMap Param.spell ++ .sample .rightParen ::
      (.sample .leftBrace :: Stmt.spellAll body ++ [.sample .rightBrace])
  | .ret none => [.sample .ret, .sample .semicolon]
  | .ret (some e) => .sample .ret :: e.spell ++ [.sample .semicolon]

/-- The lexemes that spell some statements. -/
def Stmt.spellAll : List Stmt → List Lexeme
  | [] => []
  | s :: rest => s.spell ++ Stmt.spellAll rest

end

section Spelling

open Lexeme

theorem Lexeme.contains_ofName {name : String} (h : IsName name) : lexicon.Contains (ofName name) :=
  (contains_identifier rfl).mpr h

theorem Lexeme.contains_ofNumber {spelling : String} (h : IsNumber spelling) :
    lexicon.Contains (ofNumber spelling) :=
  (contains_number rfl).mpr h

theorem Lexeme.contains_ofDataType (type : DataType) : lexicon.Contains (ofDataType type) :=
  (contains_dataType rfl).mpr ⟨type, rfl⟩

theorem Lexeme.contains_ofOperator (op : BinaryOp) : lexicon.Contains (ofOperator op) :=
  (contains_operator rfl).mpr ⟨op, rfl⟩

theorem Lexeme.contains_ofText {content : String} (h : '"' ∉ content.toList) :
    lexicon.Contains (ofText content) :=
  (contains_string rfl).mpr ⟨content.toList, h, by simp [ofText]⟩

theorem Lexeme.typeWord_ofDataType (type : DataType) : TypeWord (ofDataType type) type :=
  typeWord_iff.mpr rfl

/-- **The spelling of a readable expression spells it**, as a single factor. -/
theorem Expr.factor_spell {e : Expr} (h : e.Readable) : Factor e.spell e := by
  induction e with
  | number spelling => exact .number rfl
  | ident name => exact .ident rfl
  | text content => exact absurd h id
  | binary op left right ihl ihr =>
    obtain ⟨hl, hr⟩ := h
    refine .group rfl ?_ rfl
    -- Inside the parentheses stands one operator between two factors.
    have hop : ProductSign (ofOperator op) op ∨ SumSign (ofOperator op) op :=
      productSign_or_sumSign_iff.mpr rfl
    rcases hop with hop | hop
    · exact .term (.apply (.factor (ihl hl)) hop (ihr hr))
    · exact .apply (.term (.factor (ihl hl))) hop (.factor (ihr hr))

theorem Expr.sum_spell {e : Expr} (h : e.Readable) : Grammar.Sum e.spell e :=
  .term (.factor (factor_spell h))

theorem Expr.contains_spell {e : Expr} (h : e.Readable) : lexicon.ContainsAll e.spell := by
  induction e with
  | number spelling => simp [spell, contains_ofNumber h]
  | ident name => simp [spell, contains_ofName h]
  | text content => exact absurd h id
  | binary op left right ihl ihr =>
    simp [spell, contains_sample, contains_ofOperator, ihl h.1, ihr h.2]

theorem Param.params_spell (params : List Param) : Params (params.flatMap Param.spell) params := by
  induction params with
  | nil => exact .nil
  | cons p params ih => exact .cons (typeWord_ofDataType p.type) rfl ih

theorem Param.contains_spell {params : List Param} (h : ∀ p ∈ params, IsName p.name) :
    lexicon.ContainsAll (params.flatMap Param.spell) := by
  induction params with
  | nil => exact Lexicon.containsAll_nil
  | cons p params ih =>
    obtain ⟨hp, hparams⟩ := List.forall_mem_cons.mp h
    simp [spell, contains_ofDataType, contains_ofName hp, ih hparams]

/-- **The spelling of a readable statement spells it**, and that of readable statements spells
them. -/
theorem Stmt.statement_spell :
    (∀ s : Stmt, s.Readable → Statement s.spell s) ∧
      ∀ block : List Stmt, Stmt.ReadableAll block → Program (Stmt.spellAll block) block := by
  apply Stmt.block_induction
  case declare =>
    intro type name value h
    cases value with
    | none => exact .declare rfl (typeWord_ofDataType type) rfl rfl
    | some e => exact .declareValue rfl (typeWord_ofDataType type) rfl rfl (Expr.sum_spell h.2) rfl
  case assign =>
    intro name e h
    exact .assign rfl rfl (Expr.sum_spell h.2) rfl
  case print =>
    intro what h
    cases what with
    | text content => exact .printText rfl rfl rfl rfl
    | value e => exact .printValue rfl (Expr.sum_spell h) rfl
  case scan =>
    intro name _
    exact .scan rfl rfl rfl
  case branch =>
    intro cond thenBlock elseBlock hthen helse h
    cases elseBlock with
    | none => exact .branch rfl rfl (Expr.sum_spell h.1) rfl (.braces rfl (hthen h.2) rfl)
    | some elseBlock =>
      exact .branchElse rfl rfl (Expr.sum_spell h.1) rfl (.braces rfl (hthen h.2.1) rfl) rfl
        (.braces rfl (helse elseBlock rfl h.2.2) rfl)
  case function =>
    intro signature body hbody h
    exact .function rfl (typeWord_ofDataType signature.type) rfl rfl
      (Param.params_spell signature.params) rfl (.braces rfl (hbody h.2) rfl)
  case ret =>
    intro value h
    cases value with
    | none => exact .ret rfl rfl
    | some e => exact .retValue rfl (Expr.sum_spell h) rfl
  case nil =>
    intro _
    exact .nil
  case cons =>
    intro s rest hs hrest h
    exact .cons (hs h.1) (hrest h.2)

/-- The spelling of readable statements consists of lexemes of the language. -/
theorem Stmt.contains_spell :
    (∀ s : Stmt, s.Readable → lexicon.ContainsAll s.spell) ∧
      ∀ block : List Stmt, Stmt.ReadableAll block → lexicon.ContainsAll (Stmt.spellAll block) := by
  apply Stmt.block_induction
  case declare =>
    intro type name value h
    cases value with
    | none => simp [Stmt.spell, contains_sample, contains_ofDataType, contains_ofName h]
    | some e =>
      simp [Stmt.spell, contains_sample, contains_ofDataType, contains_ofName h.1,
        Expr.contains_spell h.2]
  case assign =>
    intro name e h
    simp [Stmt.spell, contains_sample, contains_ofName h.1, Expr.contains_spell h.2]
  case print =>
    intro what h
    cases what with
    | text content => simp [Stmt.spell, contains_sample, contains_ofText h]
    | value e => simp [Stmt.spell, contains_sample, Expr.contains_spell h]
  case scan =>
    intro name h
    simp [Stmt.spell, contains_sample, contains_ofName h]
  case branch =>
    intro cond thenBlock elseBlock hthen helse h
    cases elseBlock with
    | none => simp [Stmt.spell, contains_sample, Expr.contains_spell h.1, hthen h.2]
    | some elseBlock =>
      simp [Stmt.spell, contains_sample, Expr.contains_spell h.1, hthen h.2.1,
        helse elseBlock rfl h.2.2]
  case function =>
    intro signature body hbody h
    simp [Stmt.spell, contains_sample, contains_ofDataType, contains_ofName h.1.1,
      Param.contains_spell h.1.2, hbody h.2]
  case ret =>
    intro value h
    cases value with
    | none => simp [Stmt.spell, contains_sample]
    | some e => simp [Stmt.spell, contains_sample, Expr.contains_spell h]
  case nil =>
    intro _
    exact Lexicon.containsAll_nil
  case cons =>
    intro s rest hs hrest h
    exact Lexicon.containsAll_append.mpr ⟨hs h.1, hrest h.2⟩

end Spelling

/-! ## The trees of sources -/

/-- The statements of a source are readable. -/
theorem readableAll_of_statements {source : String} {program : List Stmt}
    (h : statements source = .ok program) : Stmt.ReadableAll program := by
  obtain ⟨tokens, htokens, hparse⟩ := statements_eq_ok_iff.mp h
  have hprogram := program_of_parse (quoted_of_tokenize htokens) hparse
  exact hprogram.readable (containsAll_of_tokenize htokens)

/-- **The trees of sources are the readable ones.** -/
theorem exists_statements_iff_readableAll (program : List Stmt) :
    (∃ source, statements source = .ok program) ↔ Stmt.ReadableAll program := by
  constructor
  · rintro ⟨source, h⟩
    exact readableAll_of_statements h
  · intro h
    obtain ⟨source, tokens, htokens, hlexemes⟩ :=
      exists_tokenize_eq_ok (Stmt.contains_spell.2 program h)
    refine ⟨source, statements_eq_ok_iff.mpr ⟨tokens, htokens, parse_of_program ?_⟩⟩
    rw [hlexemes]
    exact Stmt.statement_spell.2 program h

end Brew
