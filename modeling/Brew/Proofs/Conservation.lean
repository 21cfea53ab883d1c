import Brew.Proofs.Code.Branching
import Brew.Proofs.Parse.Spelling
import Brew.Proofs.Scope.Resolution

/-!
# Nothing is lost between tokens and code

A number, a text or an operator of a source becomes a part of the tree, and the part of the tree
becomes an operand or an operator of one instruction; a branch becomes a conditional jump with three
labels around it.  What a source holds in this sense is a list of **items**.  The tree has the items
of the lexemes in the same order.  Lowering changes the order, since the code of an operand comes
before the operator that stands between the operands; but it neither drops nor copies an item, and
it keeps the texts in order.

This holds for a source without functions.  A function has no code, so its items are not in the
code.  A return has none either, but outside of functions it does not pass the check.

## Main definitions

* `Item`: what is carried from a source to its code
* `Lexeme.item?`, `Stmt.items`, `Instr.items`: the items of a lexeme, a statement and an instruction
* `Holds`: code with given items, whose texts are in order and are printed

## Main results

* `Grammar.Program.items_sites`: lexemes spell trees with the same items
* `Stmt.holds_all`: the code of a block holds the items of the block
* `compile_conserves`: the numbers, texts, operators and branches of the code of a source
-/

namespace Brew

/-- **What is carried from a source to its code.** -/
inductive Item where
  /-- A number as it is spelled. -/
  | number (spelling : String)
  /-- A text, without its quotes. -/
  | text (content : String)
  | operator (symbol : String)
  | branch
deriving DecidableEq, Repr

/-! ## Items of a source -/

/-- The item of a lexeme. -/
def Lexeme.item? (l : Lexeme) : Option Item :=
  match l.kind with
  | .number => some (.number l.text)
  | .string => some (.text l.content)
  | .operator => some (.operator l.text)
  | .cond => some .branch
  | .print | .scan | .declare | .dataType | .function | .ret | .otherwise | .identifier
  | .character | .assign | .semicolon | .leftParen | .rightParen | .leftBrace | .rightBrace => none

/-- The items of some lexemes. -/
def lexemeItems (ls : List Lexeme) : List Item := ls.filterMap Lexeme.item?

@[simp] theorem lexemeItems_nil : lexemeItems [] = [] := rfl

@[simp] theorem lexemeItems_append (ls ms : List Lexeme) :
    lexemeItems (ls ++ ms) = lexemeItems ls ++ lexemeItems ms := List.filterMap_append

@[simp] theorem lexemeItems_cons (l : Lexeme) (ls : List Lexeme) :
    lexemeItems (l :: ls) = l.item?.toList ++ lexemeItems ls := by
  cases h : l.item? <;> simp [lexemeItems, h]

/-! ## Items of a tree -/

/-- The items of an expression. -/
def Expr.items : Expr → List Item
  | number spelling => [.number spelling]
  | ident _ => []
  | text content => [.text content]
  | binary op left right => left.items ++ .operator op.symbol :: right.items

/-- The items of a statement, without those in its blocks. -/
def Stmt.items : Stmt → List Item
  | .declare _ _ none => []
  | .declare _ _ (some e) => e.items
  | .assign _ e => e.items
  | .print (.text content) => [.text content]
  | .print (.value e) => e.items
  | .scan _ => []
  | .branch cond _ _ => .branch :: cond.items
  | .function _ _ => []
  | .ret none => []
  | .ret (some e) => e.items

/-- The items of some statements outside of functions. -/
def siteItems (ss : List Site) : List Item := ss.flatMap fun site => site.stmt.items

@[simp] theorem siteItems_nil : siteItems [] = [] := rfl

@[simp] theorem siteItems_append (ss tt : List Site) :
    siteItems (ss ++ tt) = siteItems ss ++ siteItems tt := List.flatMap_append

@[simp] theorem siteItems_cons (site : Site) (ss : List Site) :
    siteItems (site :: ss) = site.stmt.items ++ siteItems ss := List.flatMap_cons

theorem siteItems_singleton (site : Site) : siteItems [site] = site.stmt.items := by
  rw [siteItems_cons, siteItems_nil, List.append_nil]

/-! ## From lexemes to trees -/

section Spelled

variable {ls : List Lexeme}

theorem Lexeme.item?_operator {o : Lexeme} {op : BinaryOp}
    (h : Grammar.ProductSign o op ∨ Grammar.SumSign o op) :
    o.item? = some (.operator op.symbol) := by
  rw [Grammar.productSign_or_sumSign_iff.mp h]
  rfl

/-- Lexemes that spell an expression have its items. -/
theorem Grammar.Sum.items {e : Expr} (h : Grammar.Sum ls e) : lexemeItems ls = e.items := by
  refine Grammar.expr_induction
    (F := fun ls e => lexemeItems ls = e.items) (T := fun ls e => lexemeItems ls = e.items)
    (S := fun ls e => lexemeItems ls = e.items)
    ?_ ?_ ?_ (fun _ _ ih => ih) ?_ (fun _ _ ih => ih) ?_ h
  · intro l hl
    simp [Lexeme.item?, hl, Expr.items]
  · intro l hl
    simp [Lexeme.item?, hl, Expr.items]
  · intro l r ls e hl ih hr
    simp [Lexeme.item?, hl, hr, ih]
  · intro o op ls ms a b iha ho ihb
    simp [Lexeme.item?_operator (.inl ho), iha, ihb, Expr.items]
  · intro o op ls ms a b iha ho ihb
    simp [Lexeme.item?_operator (.inr ho), iha, ihb, Expr.items]

/-- **Lexemes without functions spell statements with the same items, in the same order.** -/
theorem Grammar.Program.items_sites {program : List Stmt} (h : Grammar.Program ls program)
    (hls : ∀ l ∈ ls, l.kind ≠ .function) : lexemeItems ls = siteItems (sites program) := by
  refine @Grammar.Program.rec
    (fun ls s _ => ∀ scope index, (∀ l ∈ ls, l.kind ≠ .function) →
      lexemeItems ls = siteItems (s.sites scope index))
    (fun ls block _ => ∀ scope index, (∀ l ∈ ls, l.kind ≠ .function) →
      lexemeItems ls = siteItems (Stmt.sitesAll scope index block))
    (fun ls program _ => ∀ scope index, (∀ l ∈ ls, l.kind ≠ .function) →
      lexemeItems ls = siteItems (Stmt.sitesAll scope index program))
    ?declare ?declareValue ?assign ?printText ?printValue ?scan ?branch ?branchElse ?function ?ret
    ?retValue ?braces ?nil ?cons ls program h [] 0 hls
  case declare =>
    intro kw t n semi type hkw ht hn hsemi scope index _
    simp [Lexeme.item?, hkw, ht.kind, hn, hsemi, Stmt.sites, Stmt.items]
  case declareValue =>
    intro kw t n eq semi type ls e hkw ht hn heq hsum hsemi scope index _
    simp [Lexeme.item?, hkw, ht.kind, hn, heq, hsum.items, hsemi, Stmt.sites, Stmt.items]
  case assign =>
    intro n eq semi ls e hn heq hsum hsemi scope index _
    simp [Lexeme.item?, hn, heq, hsum.items, hsemi, Stmt.sites, Stmt.items]
  case printText =>
    intro kw t semi content hkw ht htext hsemi scope index _
    simp [Lexeme.item?, hkw, ht, Lexeme.content_eq htext, hsemi, Stmt.sites, Stmt.items]
  case printValue =>
    intro kw semi ls e hkw hsum hsemi scope index _
    simp [Lexeme.item?, hkw, hsum.items, hsemi, Stmt.sites, Stmt.items]
  case scan =>
    intro kw n semi hkw hn hsemi scope index _
    simp [Lexeme.item?, hkw, hn, hsemi, Stmt.sites, Stmt.items]
  case branch =>
    intro kw l r ls bs cond thenBlock hkw hl hsum hr _ hthen scope index hls
    simp only [List.forall_mem_append, List.forall_mem_cons] at hls
    simp [Lexeme.item?, hkw, hl, hsum.items, hr, hthen (2 * index :: scope) 0 hls.2.2, Stmt.sites,
      Stmt.items]
  case branchElse =>
    intro kw l r o ls bs cs cond thenBlock elseBlock hkw hl hsum hr _ ho _ hthen helse scope
      index hls
    simp only [List.forall_mem_append, List.forall_mem_cons] at hls
    simp [Lexeme.item?, hkw, hl, hsum.items, hr, ho, hthen (2 * index :: scope) 0 hls.1.2.2,
      helse ((2 * index + 1) :: scope) 0 hls.2.2, Stmt.sites, Stmt.items]
  case function =>
    intro kw t n l r type ps bs params body hkw _ _ _ _ _ _ _ scope index hls
    exact absurd hkw (hls kw List.mem_cons_self)
  case ret =>
    intro kw semi hkw hsemi scope index _
    simp [Lexeme.item?, hkw, hsemi, Stmt.sites, Stmt.items]
  case retValue =>
    intro kw semi ls e hkw hsum hsemi scope index _
    simp [Lexeme.item?, hkw, hsum.items, hsemi, Stmt.sites, Stmt.items]
  case braces =>
    intro l r ls block hl _ hr hblock scope index hls
    simp only [List.forall_mem_append, List.forall_mem_cons] at hls
    simp [Lexeme.item?, hl, hr, hblock scope index hls.1.2]
  case nil =>
    intro scope index _
    rfl
  case cons =>
    intro ls ms s program _ _ hs hrest scope index hls
    rw [List.forall_mem_append] at hls
    rw [lexemeItems_append, hs scope index hls.1, hrest scope (index + 1) hls.2, Stmt.sitesAll,
      siteItems_append]

end Spelled

/-! ## Items of code -/

/-- The number that an operand is. -/
def Operand.number? : Operand → Option String
  | number spelling => some spelling
  | text _ | ident _ | temp _ => none

/-- The text that an operand is. -/
def Operand.text? : Operand → Option String
  | text content => some content
  | number _ | ident _ | temp _ => none

/-- The operator that an instruction applies. -/
def Instr.operator? : Instr → Option BinaryOp
  | binary _ op _ _ => some op
  | assign _ _ | print _ | scan _ | label _ | goto _ | gotoIf _ _ => none

/-- The items of an operand. -/
def Operand.items : Operand → List Item
  | number spelling => [.number spelling]
  | text content => [.text content]
  | ident _ | temp _ => []

/-- The items of an instruction. -/
def Instr.items : Instr → List Item
  | assign _ value | print value => value.items
  | binary _ op left right => left.items ++ .operator op.symbol :: right.items
  | gotoIf cond _ => .branch :: cond.items
  | scan _ | label _ | goto _ => []

/-- The items of some code. -/
def codeItems (code : List Instr) : List Item := code.flatMap Instr.items

@[simp] theorem codeItems_nil : codeItems [] = [] := rfl

@[simp] theorem codeItems_append (xs ys : List Instr) :
    codeItems (xs ++ ys) = codeItems xs ++ codeItems ys := List.flatMap_append

@[simp] theorem codeItems_cons (i : Instr) (code : List Instr) :
    codeItems (i :: code) = i.items ++ codeItems code := List.flatMap_cons

/-- A text that is an operand is an item. -/
theorem Instr.text_mem_items {i : Instr} {content : String} (h : .text content ∈ i.operands) :
    .text content ∈ i.items := by
  cases i with
  | assign dest value | print value | gotoIf value target =>
    cases List.mem_singleton.mp h
    simp [items, Operand.items]
  | binary dest op left right =>
    rcases List.mem_pair.mp h with rfl | rfl <;> simp [items, Operand.items]
  | scan | label | goto => exact absurd h List.not_mem_nil

/-! ## From trees to code -/

/-- The text that an item is. -/
def Item.text? : Item → Option String
  | text content => some content
  | number _ | operator _ | branch => none

/-- **Code holds some items**: it has these items and no others, with the texts in this order, and
each of its texts is printed. -/
structure Holds (code : List Instr) (items : List Item) : Prop where
  perm : (codeItems code).Perm items
  texts : (codeItems code).filterMap Item.text? = items.filterMap Item.text?
  printed : ∀ i ∈ code, ∀ content, .text content ∈ i.operands → i = .print (.text content)

namespace Holds

variable {code code' : List Instr} {items items' : List Item}

theorem nil : Holds [] [] := ⟨.nil, rfl, fun _ h => absurd h List.not_mem_nil⟩

/-- An instruction that reads nothing holds nothing. -/
theorem cons (h : Holds code items) {i : Instr} (hi : i.operands = []) :
    Holds (i :: code) items := by
  have hitems : codeItems (i :: code) = codeItems code := by
    cases i with
    | scan | label | goto => rfl
    | assign | binary | print | gotoIf => exact nomatch hi
  refine ⟨?_, ?_, List.forall_mem_cons.mpr ⟨?_, h.printed⟩⟩
  · rw [hitems]
    exact h.perm
  · rw [hitems]
    exact h.texts
  · intro content hcontent
    rw [hi] at hcontent
    exact absurd hcontent List.not_mem_nil

/-- Code that follows other code. -/
theorem append (h : Holds code items) (h' : Holds code' items') :
    Holds (code ++ code') (items ++ items') where
  perm := by
    rw [codeItems_append]
    exact h.perm.append h'.perm
  texts := by
    rw [codeItems_append, List.filterMap_append, List.filterMap_append, h.texts, h'.texts]
  printed := List.forall_mem_append.mpr ⟨h.printed, h'.printed⟩

/-- Where there are no texts, the order does not matter. -/
theorem of_perm (h : (codeItems code).Perm items) (hitems : ∀ content, .text content ∉ items) :
    Holds code items where
  perm := h
  texts := by
    have hnil : items.filterMap Item.text? = [] := by
      refine List.filterMap_eq_nil_iff.mpr fun item hitem => ?_
      cases item with
      | text content => exact absurd hitem (hitems content)
      | number | operator | branch => rfl
    have hperm := h.filterMap Item.text?
    rw [hnil] at hperm ⊢
    exact hperm.eq_nil
  printed i hi content hcontent := by
    have hmem : .text content ∈ codeItems code :=
      List.mem_flatMap.mpr ⟨i, hi, Instr.text_mem_items hcontent⟩
    exact absurd (h.mem_iff.mp hmem) (hitems content)

end Holds

/-- **The items of an expression are in its code**, or in the operand that holds its value. -/
theorem Expr.codeItems_perm (e : Expr) (n : Nat) :
    (codeItems (e.codeAt n) ++ (e.operandAt n).items).Perm e.items := by
  induction e generalizing n with
  | number | ident | text => rfl
  | binary op left right ihl ihr =>
    have hl := ihl n
    have hr := ihr (n + left.operations)
    refine List.Perm.trans ?_ (hl.append (hr.cons (.operator op.symbol)))
    -- The code of both operands comes first, and then the operator with what is left of them.
    rw [List.perm_iff_count]
    intro item
    simp only [codeAt, operandAt, codeItems_append, codeItems_cons, codeItems_nil, Instr.items,
      Operand.items, List.count_append, List.count_cons, List.count_nil]
    omega

theorem Expr.text_not_mem_items {e : Expr} (h : e.Readable) (content : String) :
    .text content ∉ e.items := by
  induction e with
  | number | ident => simp [items]
  | text => exact absurd h id
  | binary op left right ihl ihr => simp [items, ihl h.1, ihr h.2]

/-- The code of an expression holds its items together with the code that reads the outcome. -/
theorem Expr.holds {e : Expr} (h : e.Readable) {n : Nat} {rest : List Instr} (own : List Item)
    (hown : ∀ content, .text content ∉ own)
    (hrest : codeItems rest = own ++ (e.operandAt n).items) :
    Holds (e.codeAt n ++ rest) (own ++ e.items) := by
  refine .of_perm ?_ fun content hcontent => ?_
  · rw [codeItems_append, hrest]
    exact (List.perm_append_comm_assoc _ _ _).trans ((e.codeItems_perm n).append_left own)
  · rcases List.mem_append.mp hcontent with hmem | hmem
    · exact hown content hmem
    · exact text_not_mem_items h content hmem

/-- A branch can be read if its parts can, whether or not it has a second block. -/
theorem Stmt.Readable.branch {cond : Expr} {thenBlock : List Stmt}
    {elseBlock : Option (List Stmt)} (h : (Stmt.branch cond thenBlock elseBlock).Readable) :
    cond.Readable ∧ Stmt.ReadableAll thenBlock ∧ Stmt.ReadableAll (elseBlock.getD []) := by
  cases elseBlock with
  | none => exact ⟨h.1, h.2, trivial⟩
  | some elseBlock => exact h

/-- **The code of a block holds the items of the block**, and so it is for a statement: every
statement but a return gives its items to its code. -/
theorem Stmt.holds_all :
    (∀ (s : Stmt) (c : Counters) (scope : Address) (index : Nat), s.Readable →
      (∀ site ∈ s.sites scope index, ∀ value, site.stmt ≠ .ret value) →
        Holds (s.codeAt c) (siteItems (s.sites scope index))) ∧
    ∀ (block : List Stmt) (c : Counters) (scope : Address) (index : Nat), Stmt.ReadableAll block →
      (∀ site ∈ Stmt.sitesAll scope index block, ∀ value, site.stmt ≠ .ret value) →
        Holds (Stmt.codeAll c block) (siteItems (Stmt.sitesAll scope index block)) := by
  apply Stmt.code_induction
  case declare =>
    intro type name value c scope index h _
    cases value with
    | none => exact .nil
    | some e =>
      -- The second assignment copies a temporary, so the first one alone holds the value.
      rw [Stmt.sites, siteItems_singleton]
      exact Expr.holds h.2 [] (by simp) (by simp [Instr.items, Operand.items])
  case assign =>
    intro name e c scope index h _
    rw [Stmt.sites, siteItems_singleton]
    exact Expr.holds h.2 [] (by simp) (by simp [Instr.items])
  case print =>
    intro what c scope index h _
    rw [Stmt.sites, siteItems_singleton]
    cases what with
    | text content =>
      refine ⟨.rfl, rfl, ?_⟩
      simp [Stmt.codeAt, Instr.operands]
    | value e => exact Expr.holds h [] (by simp) (by simp [Instr.items])
  case scan =>
    intro name c scope index _ _
    exact Holds.nil.cons rfl
  case branch =>
    intro cond thenBlock elseBlock hthen helse c scope index h hreturn
    obtain ⟨hcond, hreadThen, hreadElse⟩ := h.branch
    rw [Stmt.sites_branch, List.forall_mem_cons, List.forall_mem_append] at hreturn
    rw [Stmt.sites_branch, Stmt.codeAt_branch, siteItems_cons, siteItems_append,
      ← List.append_assoc]
    -- The jump on the condition stands for the branch; the other jumps and the labels hold nothing.
    have hhead : Holds (cond.codeAt c.temps ++ (Fork.after c.labels).head (cond.operandAt c.temps))
        (.branch :: cond.items) :=
      Expr.holds hcond [.branch] (by simp) (by simp [Fork.head, Instr.items])
    have hmiddle : Holds (Fork.after c.labels).middle [] := (Holds.nil.cons rfl).cons rfl
    have hlast : Holds (Fork.after c.labels).last [] := Holds.nil.cons rfl
    have hthen' := hthen (c + ⟨cond.operations, 3⟩) (2 * index :: scope) 0 hreadThen hreturn.2.1
    have helse' := helse (c + ⟨cond.operations, 3⟩ + Stmt.usageAll thenBlock)
      ((2 * index + 1) :: scope) 0 hreadElse hreturn.2.2
    have hall := (((hhead.append hthen').append hmiddle).append helse').append hlast
    rwa [List.append_nil, List.append_nil] at hall
  case function =>
    intro signature body c scope index _ _
    exact .nil
  case ret =>
    intro value c scope index _ hreturn
    exact absurd rfl (hreturn _ List.mem_cons_self value)
  case nil =>
    intro c scope index _ _
    exact .nil
  case cons =>
    intro s rest hs hrest c scope index h hreturn
    rw [Stmt.sitesAll, List.forall_mem_append] at hreturn
    rw [Stmt.sitesAll, siteItems_append]
    exact (hs c scope index h.1 hreturn.1).append (hrest _ scope (index + 1) h.2 hreturn.2)

/-! ## Reading items -/

/-- The number that an item is. -/
def Item.number? : Item → Option String
  | number spelling => some spelling
  | text _ | operator _ | branch => none

/-- The operator that an item is. -/
def Item.operator? : Item → Option String
  | operator symbol => some symbol
  | number _ | text _ | branch => none

/-- What the items of tokens show is what the tokens of one kind show. -/
theorem filterMap_lexemeItems {f : Item → Option String} {kind : Lexeme.Kind}
    {g : Lexeme → String}
    (h : ∀ l : Lexeme, l.item?.bind f = if l.kind = kind then some (g l) else none)
    (tokens : List Token) :
    (lexemeItems (tokens.map Token.toLexeme)).filterMap f =
      (tokens.filter fun t => t.kind = kind).map fun t => g t.toLexeme := by
  simp only [lexemeItems, List.filterMap_filterMap, List.filterMap_map, Function.comp_def, h]
  induction tokens with
  | nil => rfl
  | cons t tokens ih => by_cases hkind : t.kind = kind <;> simp [hkind, ih]

theorem numbers_lexemeItems (tokens : List Token) :
    (lexemeItems (tokens.map Token.toLexeme)).filterMap Item.number? =
      (tokens.filter fun t => t.kind = .number).map fun t => t.text :=
  filterMap_lexemeItems (fun ⟨kind, _⟩ => by cases kind <;> rfl) tokens

theorem texts_lexemeItems (tokens : List Token) :
    (lexemeItems (tokens.map Token.toLexeme)).filterMap Item.text? =
      (tokens.filter fun t => t.kind = .string).map fun t => t.content :=
  filterMap_lexemeItems (fun ⟨kind, _⟩ => by cases kind <;> rfl) tokens

theorem operators_lexemeItems (tokens : List Token) :
    (lexemeItems (tokens.map Token.toLexeme)).filterMap Item.operator? =
      (tokens.filter fun t => t.kind = .operator).map fun t => t.text :=
  filterMap_lexemeItems (fun ⟨kind, _⟩ => by cases kind <;> rfl) tokens

theorem branches_lexemeItems (tokens : List Token) :
    (lexemeItems (tokens.map Token.toLexeme)).count .branch =
      tokens.countP fun t => t.kind = .cond := by
  rw [lexemeItems, List.count, List.countP_filterMap, List.countP_map]
  refine List.countP_congr fun t _ => ?_
  obtain ⟨⟨kind, text⟩, position⟩ := t
  cases kind <;> simp [Lexeme.item?]

/-- What the items of code show, other than operators and branches, is what its operands show. -/
theorem filterMap_codeItems {f : Item → Option String} {g : Operand → Option String}
    (hoperand : ∀ o : Operand, o.items.filterMap f = (g o).toList)
    (hoperator : ∀ symbol, f (.operator symbol) = none) (hbranch : f .branch = none)
    (code : List Instr) :
    (codeItems code).filterMap f = (code.flatMap Instr.operands).filterMap g := by
  rw [codeItems, List.filterMap_flatMap, List.filterMap_flatMap]
  refine List.flatMap_congr fun i _ => ?_
  cases i <;>
    simp [Instr.items, Instr.operands, hoperand, hoperator, hbranch,
      List.filterMap_eq_flatMap_toList g]

theorem numbers_codeItems (code : List Instr) :
    (codeItems code).filterMap Item.number? =
      (code.flatMap Instr.operands).filterMap Operand.number? :=
  filterMap_codeItems (fun o => by cases o <;> rfl) (fun _ => rfl) rfl code

theorem texts_codeItems (code : List Instr) :
    (codeItems code).filterMap Item.text? =
      (code.flatMap Instr.operands).filterMap Operand.text? :=
  filterMap_codeItems (fun o => by cases o <;> rfl) (fun _ => rfl) rfl code

theorem operators_codeItems (code : List Instr) :
    (codeItems code).filterMap Item.operator? =
      (code.filterMap Instr.operator?).map BinaryOp.symbol := by
  have hoperand (o : Operand) : o.items.filterMap Item.operator? = [] := by cases o <;> rfl
  rw [codeItems, List.filterMap_flatMap, List.filterMap_eq_flatMap_toList, List.map_flatMap]
  refine List.flatMap_congr fun i _ => ?_
  cases i <;> simp [Instr.items, Instr.operator?, hoperand, List.filterMap_cons, Item.operator?]

theorem Expr.branch_not_mem_items (e : Expr) : .branch ∉ e.items := by
  induction e with
  | number | ident | text => simp [items]
  | binary op left right ihl ihr => simp [items, ihl, ihr]

/-- A statement has one item for being a branch. -/
theorem Stmt.count_branch_items (s : Stmt) :
    s.items.count .branch = if s.isBranch then 1 else 0 := by
  have hexpr (e : Expr) : e.items.count .branch = 0 :=
    List.count_eq_zero.mpr e.branch_not_mem_items
  cases s with
  | declare type name value => cases value <;> simp [items, isBranch, hexpr]
  | print what => cases what <;> simp [items, isBranch, hexpr]
  | ret value => cases value <;> simp [items, isBranch, hexpr]
  | assign | scan | branch | function => simp [items, isBranch, hexpr]

/-- The branches among some statements are the branches among their items. -/
theorem branches_siteItems (ss : List Site) :
    (siteItems ss).count .branch = (branchesIn ss).length := by
  induction ss with
  | nil => rfl
  | cons site ss ih =>
    rw [siteItems_cons, List.count_append, ih, Stmt.count_branch_items]
    cases hbranch : site.stmt.isBranch <;> simp [branchesIn, hbranch, Nat.add_comm]

/-! ## Programs -/

/-- **Nothing is lost between tokens and code.**  If a source without functions compiles, then its
numbers are the number operands of its code, each as it is spelled; its texts are the text operands,
in the same order, and each of these is printed; its operators are those that the code applies; and
for each of its branches the code defines three labels. -/
theorem compile_conserves {source : String} {tokens : List Token} {code : List Instr}
    (htokens : tokenize source = .ok tokens) (hcompile : compile source = .ok code)
    (hfunction : ∀ t ∈ tokens, t.kind ≠ .function) :
    ((tokens.filter fun t => t.kind = .number).map fun t => t.text).Perm
        ((code.flatMap Instr.operands).filterMap Operand.number?) ∧
      ((tokens.filter fun t => t.kind = .string).map fun t => t.content) =
        (code.flatMap Instr.operands).filterMap Operand.text? ∧
      (∀ i ∈ code, ∀ content, .text content ∈ i.operands → i = .print (.text content)) ∧
      ((tokens.filter fun t => t.kind = .operator).map fun t => t.text).Perm
        ((code.filterMap Instr.operator?).map BinaryOp.symbol) ∧
      (definedLabels code).length = 3 * tokens.countP fun t => t.kind = .cond := by
  obtain ⟨program, hstatements, hcheck, rfl⟩ := exists_of_compile_eq_ok hcompile
  obtain ⟨tokens', htokens', hparse⟩ := statements_eq_ok_iff.mp hstatements
  obtain rfl : tokens' = tokens := Except.ok.inj (htokens'.symm.trans htokens)
  have hprogram := program_of_parse (quoted_of_tokenize htokens) hparse
  have hitems : lexemeItems (tokens'.map Token.toLexeme) = siteItems (sites program) :=
    hprogram.items_sites (List.forall_mem_map.mpr hfunction)
  have hholds : Holds (lower program) (lexemeItems (tokens'.map Token.toLexeme)) := by
    rw [hitems]
    exact Stmt.holds_all.2 program 0 [] 0 (readableAll_of_statements hstatements)
      (not_return_of_check hcheck)
  refine ⟨?_, ?_, hholds.printed, ?_, ?_⟩
  · rw [← numbers_lexemeItems, ← numbers_codeItems]
    exact (hholds.perm.filterMap Item.number?).symm
  · rw [← texts_lexemeItems, ← texts_codeItems]
    exact hholds.texts.symm
  · rw [← operators_lexemeItems, ← operators_codeItems]
    exact (hholds.perm.filterMap Item.operator?).symm
  · calc (definedLabels (lower program)).length
        = (fresh Label.mk 0 (Stmt.usageAll program).labels).length :=
          (Stmt.definedLabels_perm.2 program 0).length_eq
      _ = (Stmt.usageAll program).labels := length_fresh
      _ = 3 * (branchesIn (sites program)).length := Stmt.labels_usage_all.2 program [] 0
      _ = 3 * tokens'.countP fun t => t.kind = .cond := by
          rw [← branches_siteItems, ← hitems, branches_lexemeItems]

/-- Three numbers and two operators come into the code in another order. -/
theorem compile_conserves_reordered :
    ∃ tokens code, tokenize "Lowkey(1 + 2.50 * 3) \x7b spit_it_out \"b\"; \x7d" = .ok tokens ∧
      compile "Lowkey(1 + 2.50 * 3) \x7b spit_it_out \"b\"; \x7d" = .ok code ∧
      (∀ t ∈ tokens, t.kind ≠ .function) ∧
      code = [.binary ⟨1⟩ .multiply (.number "2.50") (.number "3"),
        .binary ⟨2⟩ .add (.number "1") (.temp ⟨1⟩), .gotoIf (.temp ⟨2⟩) ⟨1⟩, .goto ⟨2⟩, .label ⟨1⟩,
        .print (.text "b"), .goto ⟨3⟩, .label ⟨2⟩, .label ⟨3⟩] ∧
      ((tokens.filter fun t => t.kind = .number).map fun t => t.text).Perm ["2.50", "3", "1"] ∧
      ((tokens.filter fun t => t.kind = .string).map fun t => t.content) = ["b"] ∧
      ((tokens.filter fun t => t.kind = .operator).map fun t => t.text).Perm ["*", "+"] ∧
      3 = 3 * tokens.countP fun t => t.kind = .cond := by
  have hcompile : compile "Lowkey(1 + 2.50 * 3) \x7b spit_it_out \"b\"; \x7d" = .ok
      [.binary ⟨1⟩ .multiply (.number "2.50") (.number "3"),
        .binary ⟨2⟩ .add (.number "1") (.temp ⟨1⟩), .gotoIf (.temp ⟨2⟩) ⟨1⟩, .goto ⟨2⟩, .label ⟨1⟩,
        .print (.text "b"), .goto ⟨3⟩, .label ⟨2⟩, .label ⟨3⟩] := by
    decide +kernel
  have hkinds : (tokenize "Lowkey(1 + 2.50 * 3) \x7b spit_it_out \"b\"; \x7d").map
      (fun tokens => tokens.all fun t => t.kind ≠ .function) = .ok true := by
    decide +kernel
  cases htokens : tokenize "Lowkey(1 + 2.50 * 3) \x7b spit_it_out \"b\"; \x7d" with
  | error e =>
    rw [htokens] at hkinds
    exact nomatch hkinds
  | ok tokens =>
    rw [htokens] at hkinds
    have hfunction : ∀ t ∈ tokens, t.kind ≠ .function := by
      simpa using Except.ok.inj hkinds
    obtain ⟨hnumbers, htexts, -, hoperators, hlabels⟩ :=
      compile_conserves htokens hcompile hfunction
    exact ⟨tokens, _, rfl, hcompile, hfunction, rfl, hnumbers, htexts, hoperators, hlabels⟩

end Brew
