import Brew.Code.Flow
import Brew.Proofs.Parse.Spelling
import Brew.Proofs.Rendering.Delimited

/-!
# Reading a listing back

The listing of a program escapes nothing, and a printed text may run over several lines that look
like instructions.  Still the code can be told from its listing.  An instruction is written as a few
**pieces** with a space between them, and a piece is either a word or a text between quotes.  That
no word contains a mark and no text contains a quote is not a fact about code: it comes from the
source that the code was compiled from.

## Main definitions

* `Instr.Legible`: the names, numbers and texts of an instruction are those of a source
* `Instr.pieces`: what stands between the spaces of an instruction
* `Instr.mentions`: everything that an instruction reads or writes

## Main results

* `legible_of_compile`: compiled code is legible
* `Instr.readBack`: a legible instruction is read back where a line ends behind it
* `listing_unambiguous`: compiled programs with the same listing are the same
-/

namespace Brew

open Text

/-! ## Legible instructions -/

/-- The target of an assignment as something to read. -/
def Place.toOperand : Place → Operand
  | ident name => .ident name
  | temp t => .temp t

/-- Everything that an instruction reads or writes. -/
def Instr.mentions : Instr → List Operand
  | assign dest value => [dest.toOperand, value]
  | binary dest _ left right => [.temp dest, left, right]
  | print value => [value]
  | scan name => [.ident name]
  | label _ | goto _ => []
  | gotoIf cond _ => [cond]

/-- An operand that the code of a source can have. -/
def Operand.Legible : Operand → Prop
  | number spelling => IsNumber spelling
  | text content => '"' ∉ content.toList
  | ident name => IsName name
  | temp _ => True

@[simp]
theorem Operand.legible_temp (t : Temp) : (temp t).Legible := trivial

/-- An instruction that the code of a source can have. -/
def Instr.Legible (i : Instr) : Prop := ∀ o ∈ i.mentions, o.Legible

theorem Expr.legible_operandAt {e : Expr} (h : e.Readable) (n : Nat) : (e.operandAt n).Legible := by
  cases e with
  | number spelling => exact h
  | ident name => exact h
  | text content => exact absurd h id
  | binary op left right => trivial

theorem Expr.legible_codeAt {e : Expr} (h : e.Readable) (n : Nat) :
    ∀ i ∈ e.codeAt n, i.Legible := by
  induction e generalizing n with
  | number | ident | text => exact fun i hi => absurd hi List.not_mem_nil
  | binary op left right ihl ihr =>
    obtain ⟨hl, hr⟩ := h
    simp only [codeAt, List.forall_mem_append, List.forall_mem_singleton]
    refine ⟨⟨ihl hl n, ihr hr _⟩, ?_⟩
    simp [Instr.Legible, Instr.mentions, legible_operandAt hl, legible_operandAt hr]

theorem Fork.legible_head (f : Fork) {cond : Operand} (h : cond.Legible) :
    ∀ i ∈ f.head cond, i.Legible := by
  simp [head, Instr.Legible, Instr.mentions, h]

theorem Fork.legible_middle (f : Fork) : ∀ i ∈ f.middle, i.Legible := by
  simp [middle, Instr.Legible, Instr.mentions]

theorem Fork.legible_last (f : Fork) : ∀ i ∈ f.last, i.Legible := by
  simp [last, Instr.Legible, Instr.mentions]

/-- The code of an expression and one instruction behind it that mentions the outcome. -/
theorem Expr.legible_codeAt_append {e : Expr} (h : e.Readable) (n : Nat) {code : List Instr}
    (hcode : (e.operandAt n).Legible → ∀ i ∈ code, i.Legible) :
    ∀ i ∈ e.codeAt n ++ code, i.Legible :=
  List.forall_mem_append.mpr ⟨legible_codeAt h n, hcode (legible_operandAt h n)⟩

/-- The code of readable statements is legible, whatever is taken before. -/
theorem Stmt.legible_all :
    (∀ s : Stmt, s.Readable → ∀ c, ∀ i ∈ s.codeAt c, i.Legible) ∧
      ∀ block : List Stmt, Stmt.ReadableAll block → ∀ c, ∀ i ∈ Stmt.codeAll c block, i.Legible := by
  apply Stmt.block_induction
  case declare =>
    intro type name value h c
    cases value with
    | none => exact fun i hi => absurd hi List.not_mem_nil
    | some e =>
      have hname : (Operand.ident name).Legible := h.1
      refine Expr.legible_codeAt_append h.2 _ fun hvalue => ?_
      simp [Instr.Legible, Instr.mentions, Place.toOperand, hname, hvalue]
  case assign =>
    intro name e h c
    have hname : (Operand.ident name).Legible := h.1
    refine Expr.legible_codeAt_append h.2 _ fun hvalue => ?_
    simp [Instr.Legible, Instr.mentions, Place.toOperand, hname, hvalue]
  case print =>
    intro what h c
    cases what with
    | text content =>
      have htext : (Operand.text content).Legible := h
      simp [Stmt.codeAt, Instr.Legible, Instr.mentions, htext]
    | value e =>
      refine Expr.legible_codeAt_append h _ fun hvalue => ?_
      simp [Instr.Legible, Instr.mentions, hvalue]
  case scan =>
    intro name h c
    have hname : (Operand.ident name).Legible := h
    simp [Stmt.codeAt, Instr.Legible, Instr.mentions, hname]
  case branch =>
    intro cond thenBlock elseBlock hthen helse h c
    cases elseBlock with
    | none =>
      simp only [Stmt.codeAt, List.forall_mem_append]
      exact ⟨⟨⟨⟨Expr.legible_codeAt h.1 _, Fork.legible_head _ (Expr.legible_operandAt h.1 _)⟩,
        hthen h.2 _⟩, Fork.legible_middle _⟩, Fork.legible_last _⟩
    | some elseBlock =>
      simp only [Stmt.codeAt, List.forall_mem_append]
      exact ⟨⟨⟨⟨⟨Expr.legible_codeAt h.1 _, Fork.legible_head _ (Expr.legible_operandAt h.1 _)⟩,
        hthen h.2.1 _⟩, Fork.legible_middle _⟩, helse elseBlock rfl h.2.2 _⟩, Fork.legible_last _⟩
  case function =>
    intro signature body _ _ c
    exact fun i hi => absurd hi List.not_mem_nil
  case ret =>
    intro value _ c
    exact fun i hi => absurd hi List.not_mem_nil
  case nil =>
    intro _ c
    exact fun i hi => absurd hi List.not_mem_nil
  case cons =>
    intro s rest hs hrest h c
    simp only [Stmt.codeAll, List.forall_mem_append]
    exact ⟨hs h.1 c, hrest h.2 _⟩

/-- **Compiled code is legible.** -/
theorem legible_of_compile {source : String} {code : List Instr} (h : compile source = .ok code) :
    ∀ i ∈ code, i.Legible := by
  obtain ⟨program, hstatements, -, rfl⟩ := exists_of_compile_eq_ok h
  exact Stmt.legible_all.2 program (readableAll_of_statements hstatements) 0

/-! ## Pieces -/

/-- What stands between the spaces of an instruction. -/
def Instr.pieces : Instr → List String
  | assign dest value => [dest.render, "=", value.render]
  | binary dest op left right => [dest.render, "=", left.render, op.symbol, right.render]
  | print value => ["print", value.render]
  | scan name => ["scan", name]
  | label l => [l.render ++ ":"]
  | goto target => ["goto", target.render]
  | gotoIf cond target => ["if", cond.render, "goto", target.render]

theorem Instr.toList_render (i : Instr) :
    i.render.toList = separated [' '] String.toList i.pieces := by
  cases i <;> simp [render, pieces, separated_cons]

theorem Instr.toList_render_ne_nil (i : Instr) : i.render.toList ≠ [] := by
  cases i <;> simp [render, Label.render]

/-- A piece is a word or a text between quotes. -/
def IsPiece (piece : String) : Prop :=
  Word piece.toList ∨ ∃ content, '"' ∉ content ∧ piece.toList = '"' :: content ++ ['"']

/-- A piece does not begin with a line end. -/
theorem IsPiece.exists_cons {piece : String} (h : IsPiece piece) :
    ∃ c cs, piece.toList = c :: cs ∧ c ≠ '\n' := by
  rcases h with ⟨hne, hplain⟩ | ⟨content, -, hpiece⟩
  · obtain ⟨c, cs, hcs⟩ := List.exists_cons_of_ne_nil hne
    refine ⟨c, cs, hcs, ?_⟩
    rintro rfl
    exact absurd (hplain '\n' (hcs ▸ List.mem_cons_self)) (by decide)
  · exact ⟨'"', content ++ ['"'], hpiece, by decide⟩

/-- A piece is read back where no word goes on behind it. -/
theorem IsPiece.readBack {piece : String} (h : IsPiece piece) :
    ReadBack String.toList IsPiece Stops piece := by
  intro other hother r r' hr hr' heq
  rcases h with hword | ⟨content, hcontent, hpiece⟩
  · rcases hother with hword' | ⟨content', -, hother⟩
    · obtain ⟨htext, hrest⟩ := hword.cut hword' hr hr' heq
      exact ⟨String.toList_inj.mp htext, hrest⟩
    · rw [hother] at heq
      exact absurd heq (hword.append_ne_cons rfl)
  · rcases hother with hword' | ⟨content', hcontent', hother⟩
    · rw [hpiece] at heq
      exact absurd heq.symm (hword'.append_ne_cons rfl)
    · rw [hpiece, hother] at heq
      simp only [List.cons_append, List.append_assoc, List.nil_append, List.cons.injEq,
        true_and] at heq
      obtain ⟨rfl, hrest⟩ := quoted_cut hcontent hcontent' heq
      exact ⟨String.toList_inj.mp (hpiece.trans hother.symm), hrest⟩

theorem word_numbered {c : Char} (hc : isMark c = false) (n : Nat) :
    Word (c :: (toString n).toList) := by
  refine ⟨List.cons_ne_nil _ _, List.forall_mem_cons.mpr ⟨hc, fun d hd => ?_⟩⟩
  rw [Nat.toString_eq_ofList_toDigits, String.toList_ofList] at hd
  have hdigit : d.isDigit := Nat.isDigit_of_mem_toDigits (by decide) (by decide) hd
  exact isMark_eq_false_of_isNamePart (.inl (Pattern.isNamePart_of_isDigit hdigit))

theorem Temp.word_render (t : Temp) : Word t.render.toList := by
  simpa [render] using word_numbered (c := 't') rfl t.number

theorem Label.word_render (l : Label) : Word l.render.toList := by
  simpa [render] using word_numbered (c := 'L') rfl l.number

theorem Operand.isPiece_render {o : Operand} (h : o.Legible) : IsPiece o.render := by
  cases o with
  | number spelling => exact .inl (IsNumber.word h)
  | text content => exact .inr ⟨content.toList, h, by simp [render]⟩
  | ident name => exact .inl (IsName.word h)
  | temp t => exact .inl t.word_render

@[simp]
theorem Operand.render_ident (name : String) : (ident name).render = name := rfl

@[simp]
theorem Operand.render_temp (t : Temp) : (temp t).render = t.render := rfl

@[simp]
theorem Place.render_toOperand (d : Place) : d.toOperand.render = d.render := by
  cases d <;> rfl

theorem Instr.isPiece_of_mem_pieces {i : Instr} (h : i.Legible) :
    ∀ piece ∈ i.pieces, IsPiece piece := by
  have hmentions : ∀ o ∈ i.mentions, IsPiece o.render :=
    fun o ho => Operand.isPiece_render (h o ho)
  have hwords : ∀ w ∈ ["=", "print", "scan", "goto", "if"], IsPiece w := by
    simp [IsPiece, Word, isMark]
  have hop : ∀ op : BinaryOp, IsPiece op.symbol := fun op => .inl op.word_symbol
  have hlabel : ∀ l : Label, IsPiece l.render := fun l => .inl l.word_render
  have hcolon : ∀ l : Label, IsPiece (l.render ++ ":") := by
    intro l
    refine .inl ⟨by simp, ?_⟩
    rw [String.toList_append, List.forall_mem_append]
    exact ⟨l.word_render.2, by simp [isMark]⟩
  cases i <;> simp_all [pieces, mentions]

/-! ## Instructions -/

/-- The number of a label can be read off its digits. -/
theorem Label.render_injective {k l : Label} (h : k.render = l.render) : k = l := by
  have hdigits : toString k.number = toString l.number := (String.append_right_inj "L").mp h
  have hnumber := congrArg (fun w : String => Nat.ofDigitChars 10 w.toList 0) hdigits
  cases k
  cases l
  simpa using hnumber

/-- What an operand is can be read off its first character. -/
def Operand.read (piece : String) : Operand :=
  match piece.toList with
  | '"' :: content => .text (String.ofList content.dropLast)
  | 't' :: digits => .temp ⟨Nat.ofDigitChars 10 digits 0⟩
  | 'w' :: _ => .ident piece
  | _ => .number piece

theorem Operand.read_render {o : Operand} (h : o.Legible) : read o.render = o := by
  cases o with
  | number spelling =>
    obtain ⟨d, ds, hd, hspelling⟩ := IsNumber.exists_cons h
    rw [render, read, hspelling]
    split
    case h_4 => rfl
    -- The other cases begin with a character that is no digit.
    all_goals
      rename_i heq
      obtain ⟨rfl, -⟩ := List.cons.inj heq
      exact absurd hd (by decide)
  | text content => simp [render, read]
  | ident name =>
    obtain ⟨cs, hname⟩ := IsName.exists_cons h
    simp [render, read, hname]
  | temp t => simp [render, Temp.render, read]

theorem Operand.render_injective {a b : Operand} (ha : a.Legible) (hb : b.Legible)
    (h : a.render = b.render) : a = b := by
  rw [← read_render ha, h, read_render hb]

theorem Place.toOperand_injective {a b : Place} (h : a.toOperand = b.toOperand) : a = b := by
  cases a <;> cases b <;> simp_all [toOperand]

/-- An instruction is determined by its pieces: their number and the first of them tell its form. -/
theorem Instr.pieces_injective {i j : Instr} (hi : i.Legible) (hj : j.Legible)
    (h : i.pieces = j.pieces) : i = j := by
  cases i with
  | assign dest value =>
    cases j with
    | assign dest' value' =>
      simp only [Legible, mentions, List.forall_mem_cons] at hi hj
      simp only [pieces, List.cons.injEq, true_and, and_true] at h
      obtain ⟨hdest, hvalue⟩ := h
      rw [← Place.render_toOperand dest, ← Place.render_toOperand dest'] at hdest
      rw [Place.toOperand_injective (Operand.render_injective hi.1 hj.1 hdest),
        Operand.render_injective hi.2.1 hj.2.1 hvalue]
    | _ => simp [pieces] at h
  | binary dest op left right =>
    cases j with
    | binary dest' op' left' right' =>
      simp only [Legible, mentions, List.forall_mem_cons] at hi hj
      simp only [pieces, List.cons.injEq, true_and, and_true] at h
      obtain ⟨hdest, hleft, hop, hright⟩ := h
      have hdest := Operand.render_injective hi.1 hj.1 hdest
      rw [Operand.temp.inj hdest, BinaryOp.symbol_injective hop,
        Operand.render_injective hi.2.1 hj.2.1 hleft,
        Operand.render_injective hi.2.2.1 hj.2.2.1 hright]
    | _ => simp [pieces] at h
  | print value =>
    cases j with
    | print value' =>
      simp only [Legible, mentions, List.forall_mem_singleton] at hi hj
      simp only [pieces, List.cons.injEq, true_and, and_true] at h
      rw [Operand.render_injective hi hj h]
    | _ => simp [pieces] at h
  | scan name =>
    cases j with
    | scan name' =>
      simp only [pieces, List.cons.injEq, true_and, and_true] at h
      rw [h]
    | _ => simp [pieces] at h
  | label l =>
    cases j with
    | label l' =>
      simp only [pieces, List.cons.injEq, and_true] at h
      rw [Label.render_injective ((String.append_left_inj ":").mp h)]
    | _ => simp [pieces] at h
  | goto target =>
    cases j with
    | goto target' =>
      simp only [pieces, List.cons.injEq, true_and, and_true] at h
      rw [Label.render_injective h]
    | _ => simp [pieces] at h
  | gotoIf cond target =>
    cases j with
    | gotoIf cond' target' =>
      simp only [Legible, mentions, List.forall_mem_singleton] at hi hj
      simp only [pieces, List.cons.injEq, true_and, and_true] at h
      obtain ⟨hcond, htarget⟩ := h
      rw [Operand.render_injective hi hj hcond, Label.render_injective htarget]
    | _ => simp [pieces] at h

/-! ## Listings -/

/-- A text in which a line ends at once. -/
def EndsLine (r : List Char) : Prop := ∀ c ∈ r.head?, c = '\n'

theorem separates_pieces : Separates [' '] String.toList IsPiece Stops EndsLine where
  ends_sep r := by simp [isMark]
  ends_of_closes r hr c hc := by
    rw [hr c hc]
    rfl
  sep_apart := by
    rintro _ hr ⟨r, rfl⟩
    exact absurd (hr ' ' rfl) (by decide)
  item_apart := by
    rintro piece _ hpiece hr ⟨r, rfl⟩
    obtain ⟨c, cs, hcs, hc⟩ := hpiece.exists_cons
    exact hc (hr c (by rw [hcs]; rfl))

/-- **A legible instruction is read back** where a line ends behind it. -/
theorem Instr.readBack {i : Instr} (h : i.Legible) :
    ReadBack (fun i => i.render.toList) Instr.Legible EndsLine i := by
  intro j hj r r' hr hr' heq
  change i.render.toList ++ r = j.render.toList ++ r' at heq
  rw [toList_render, toList_render] at heq
  obtain ⟨hpieces, hrest⟩ := ReadBack.separated separates_pieces (isPiece_of_mem_pieces h)
    (fun piece hpiece => (isPiece_of_mem_pieces h piece hpiece).readBack)
    (isPiece_of_mem_pieces hj) hr hr' heq
  exact ⟨pieces_injective h hj hpieces, hrest⟩

/-- Legible code is determined by its listing. -/
theorem listing_injective {p q : List Instr} (hp : ∀ i ∈ p, i.Legible) (hq : ∀ i ∈ q, i.Legible)
    (h : listing p = listing q) : p = q := by
  have hsep : Separates ['\n'] (fun i : Instr => i.render.toList) Instr.Legible EndsLine (· = []) :=
    separates_lines (fun _ h => nomatch h) (fun r => by simp [EndsLine])
      (fun i _ => i.toList_render_ne_nil)
  exact lines_injective hsep (fun _ => Instr.readBack) hp hq h

/-- A legible instruction is determined by any text that begins with it and a line end, and so is
the rest of the text. -/
theorem Instr.line_injective {i j : Instr} (hi : i.Legible) (hj : j.Legible) {rest rest' : String}
    (h : i.render ++ "\n" ++ rest = j.render ++ "\n" ++ rest') : i = j ∧ rest = rest' := by
  have htext := congrArg String.toList h
  simp only [String.toList_append, List.append_assoc] at htext
  have hends : ∀ cs : List Char, EndsLine ("\n".toList ++ cs) := by simp [EndsLine]
  obtain ⟨rfl, hrest⟩ := Instr.readBack hi hj (hends _) (hends _) htext
  exact ⟨rfl, String.toList_inj.mp (List.append_cancel_left hrest)⟩

/-- A name does not look like a temporary, like a label or like a number. -/
theorem IsName.unmistakable {name : String} (h : IsName name) :
    (∀ t : Temp, name ≠ t.render) ∧ (∀ l : Label, name ≠ l.render) ∧ ¬ IsNumber name := by
  obtain ⟨cs, hname⟩ := h.exists_cons
  refine ⟨?_, ?_, h.not_isNumber⟩
  · rintro t rfl
    simp [Temp.render] at hname
  · rintro l rfl
    simp [Label.render] at hname

/-- **Compiled programs with the same listing are the same.**  Nothing in a listing is mistaken for
something else: a variable does not look like a temporary, a label or a number, and where an
instruction stands in a text with a line end behind it, no other instruction can stand there
instead, even if a text that it prints reads like further instructions. -/
theorem listing_unambiguous {a b : String} {p q : List Instr} (ha : compile a = .ok p)
    (hb : compile b = .ok q) :
    (listing p = listing q → p = q) ∧
      (∀ i ∈ p, ∀ name, .ident name ∈ i.mentions →
        (∀ t : Temp, name ≠ t.render) ∧ (∀ l : Label, name ≠ l.render) ∧ ¬ IsNumber name) ∧
      ∀ i ∈ p, ∀ j ∈ q, ∀ rest rest' : String,
        i.render ++ "\n" ++ rest = j.render ++ "\n" ++ rest' → i = j ∧ rest = rest' := by
  have hp := legible_of_compile ha
  have hq := legible_of_compile hb
  refine ⟨listing_injective hp hq, ?_, ?_⟩
  · intro i hi name hname
    exact IsName.unmistakable (hp i hi _ hname)
  · intro i hi j hj rest rest' h
    exact Instr.line_injective (hp i hi) (hq j hj) h

/-- A text whose second line reads like an instruction, and code with this instruction. -/
theorem listing_unambiguous_imitation :
    compile "FR int wtl_x; spit_it_out \"1\nscan wtl_x\"; gimme_that wtl_x;" = .ok
        [.print (.text "1\nscan wtl_x"), .scan "wtl_x"] ∧
      compile "FR int wtl_x; spit_it_out \"1\"; gimme_that wtl_x; gimme_that wtl_x;" = .ok
        [.print (.text "1"), .scan "wtl_x", .scan "wtl_x"] ∧
      listing [.print (.text "1\nscan wtl_x"), .scan "wtl_x"] ≠
        listing [.print (.text "1"), .scan "wtl_x", .scan "wtl_x"] ∧
      (∀ t : Temp, "wtl_x" ≠ t.render) ∧
      ∀ rest rest' : String,
        "print \"1\nscan wtl_x\"" ++ "\n" ++ rest ≠ "print \"1\"" ++ "\n" ++ rest' := by
  have ha : compile "FR int wtl_x; spit_it_out \"1\nscan wtl_x\"; gimme_that wtl_x;" = .ok
      [.print (.text "1\nscan wtl_x"), .scan "wtl_x"] := by decide +kernel
  have hb : compile "FR int wtl_x; spit_it_out \"1\"; gimme_that wtl_x; gimme_that wtl_x;" = .ok
      [.print (.text "1"), .scan "wtl_x", .scan "wtl_x"] := by decide +kernel
  obtain ⟨hlisting, hnames, hlines⟩ := listing_unambiguous ha hb
  refine ⟨ha, hb, fun h => absurd (hlisting h) (by decide), ?_, ?_⟩
  · exact (hnames (.scan "wtl_x") (by decide) "wtl_x" (by decide)).1
  · intro rest rest' h
    have hline := hlines (.print (.text "1\nscan wtl_x")) (by decide) (.print (.text "1"))
      (by decide) rest rest' h
    exact absurd hline.1 (by decide)

end Brew
