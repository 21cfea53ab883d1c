import Brew.Proofs.Parse.Spelling
import Brew.Proofs.Rendering.Delimited

/-!
# Reading a tree back

The S-expressions of statements use a handful of marks over and over: a space separates operands as
well as statements, an empty block leaves nothing but a space, and a printed text may contain any of
the marks.  Still the statements can be told from them.  A statement is closed by the parenthesis
that matches its first one, and the word behind the first one tells its form; expressions and
parameters end where a mark stands.

## Main definitions

* `Expr.chars`, `Stmt.chars` and others: renderings as characters
* `Stmt.initial`: the character that tells the form of a statement

## Main results

* `Expr.readBack`, `Stmt.readsBack_all`: expressions and statements are read back
* `tree_unambiguous`: sources with the same tree rendering have the same statements
-/

namespace Brew

open Text

/-! ## Readable trees -/

namespace Stmt

theorem readable_declare {type : DataType} {name : String} {value : Option Expr} :
    (Stmt.declare type name value).Readable ↔ IsName name ∧ ∀ e ∈ value, e.Readable := by
  cases value with
  | none => exact (and_iff_left nofun).symm
  | some e =>
    change IsName name ∧ e.Readable ↔ _
    simp

theorem readable_branch {cond : Expr} {thenBlock : List Stmt} {elseBlock : Option (List Stmt)} :
    (Stmt.branch cond thenBlock elseBlock).Readable ↔
      cond.Readable ∧ Stmt.ReadableAll thenBlock ∧ ∀ block ∈ elseBlock, Stmt.ReadableAll block := by
  cases elseBlock with
  | none => exact and_congr_right' (and_iff_left nofun).symm
  | some block =>
    change cond.Readable ∧ Stmt.ReadableAll thenBlock ∧ Stmt.ReadableAll block ↔ _
    simp

theorem readable_ret {value : Option Expr} :
    (Stmt.ret value).Readable ↔ ∀ e ∈ value, e.Readable := by
  cases value with
  | none => exact iff_of_true trivial nofun
  | some e =>
    change e.Readable ↔ _
    simp

theorem readableAll_iff {block : List Stmt} :
    Stmt.ReadableAll block ↔ ∀ s ∈ block, s.Readable := by
  induction block with
  | nil => exact iff_of_true trivial nofun
  | cons s rest ih => exact (and_congr_right' ih).trans List.forall_mem_cons.symm

end Stmt

/-! ## Expressions -/

/-- The characters of a rendered expression. -/
def Expr.chars (e : Expr) : List Char := e.render.toList

theorem Expr.chars_binary (op : BinaryOp) (left right : Expr) :
    (binary op left right).chars =
      '(' :: (op.symbol.toList ++ ' ' :: (left.chars ++ ' ' :: (right.chars ++ [')']))) := by
  simp [chars, render]

/-- **A readable expression is read back** where no word goes on behind it. -/
theorem Expr.readBack {e : Expr} (h : e.Readable) : ReadBack chars Expr.Readable Stops e := by
  induction e with
  | number spelling =>
    intro f hf r r' hr hr' heq
    cases f with
    | number spelling' =>
      obtain ⟨htext, hrest⟩ := (IsNumber.word h).cut (IsNumber.word hf) hr hr' heq
      exact ⟨congrArg number (String.toList_inj.mp htext), hrest⟩
    | ident name =>
      obtain ⟨htext, -⟩ := (IsNumber.word h).cut (IsName.word hf) hr hr' heq
      exact absurd (String.toList_inj.mp htext ▸ h) (IsName.not_isNumber hf)
    | text content => exact absurd hf id
    | binary op left right =>
      rw [chars_binary] at heq
      exact absurd heq ((IsNumber.word h).append_ne_cons rfl)
  | ident name =>
    intro f hf r r' hr hr' heq
    cases f with
    | number spelling =>
      obtain ⟨htext, -⟩ := (IsName.word h).cut (IsNumber.word hf) hr hr' heq
      exact absurd (String.toList_inj.mp htext ▸ hf) (IsName.not_isNumber h)
    | ident name' =>
      obtain ⟨htext, hrest⟩ := (IsName.word h).cut (IsName.word hf) hr hr' heq
      exact ⟨congrArg ident (String.toList_inj.mp htext), hrest⟩
    | text content => exact absurd hf id
    | binary op left right =>
      rw [chars_binary] at heq
      exact absurd heq ((IsName.word h).append_ne_cons rfl)
  | text content => exact absurd h id
  | binary op left right ihl ihr =>
    intro f hf r r' hr hr' heq
    rw [chars_binary] at heq
    cases f with
    | number spelling => exact absurd heq.symm ((IsNumber.word hf).append_ne_cons rfl)
    | ident name => exact absurd heq.symm ((IsName.word hf).append_ne_cons rfl)
    | text content => exact absurd hf id
    | binary op' left' right' =>
      rw [chars_binary] at heq
      simp only [List.cons_append, List.append_assoc, List.nil_append, List.cons.injEq,
        true_and] at heq
      -- The operator and the two operands are read back one after the other.
      obtain ⟨hop, hleft⟩ := op.word_symbol.cut op'.word_symbol (stops_cons.mpr rfl)
        (stops_cons.mpr rfl) heq
      obtain ⟨rfl, hright⟩ := ihl h.1 hf.1 (stops_cons.mpr rfl) (stops_cons.mpr rfl)
        (List.cons.inj hleft).2
      obtain ⟨rfl, hrest⟩ := ihr h.2 hf.2 (stops_cons.mpr rfl) (stops_cons.mpr rfl)
        (List.cons.inj hright).2
      rw [BinaryOp.symbol_injective (String.toList_inj.mp hop)]
      exact ⟨rfl, (List.cons.inj hrest).2⟩

/-! ## The parts of a statement -/

/-- A value that may be missing is read back where a parenthesis is closed behind it. -/
theorem readBack_value {value : Option Expr} (h : ∀ e ∈ value, e.Readable) :
    ReadBack (field Expr.chars) (fun value => ∀ e ∈ value, e.Readable) (Begins ')') value := by
  refine ReadBack.field ?_ fun e he => Expr.readBack (h e he)
  rintro _ ⟨z, rfl⟩
  exact stops_cons.mpr rfl

/-- The characters of something printed, without its parentheses. -/
def Printed.chars : Printed → List Char
  | text content => '"' :: (content.toList ++ ['"'])
  | value e => e.chars

theorem Printed.readBack {what : Printed} (h : what.Readable) :
    ReadBack chars Printed.Readable (Begins ')') what := by
  -- The rendering of an expression does not begin with a quote.
  have hquote : ∀ {e : Expr} {r cs : List Char}, e.Readable → e.chars ++ r ≠ '"' :: cs := by
    intro e r cs he
    cases e with
    | number spelling => exact (IsNumber.word he).append_ne_cons rfl
    | ident name => exact (IsName.word he).append_ne_cons rfl
    | text content => exact absurd he id
    | binary op left right => simp [Expr.chars_binary]
  rintro other hother r r' ⟨z, rfl⟩ ⟨z', rfl⟩ heq
  cases what with
  | text content =>
    cases other with
    | text content' =>
      simp only [chars, List.cons_append, List.append_assoc, List.nil_append, List.cons.injEq,
        true_and] at heq
      obtain ⟨htext, hrest⟩ := quoted_cut h hother heq
      exact ⟨congrArg text (String.toList_inj.mp htext), hrest⟩
    | value e => exact absurd heq.symm (hquote hother)
  | value e =>
    cases other with
    | text content => exact absurd heq (hquote h)
    | value e' =>
      obtain ⟨rfl, hrest⟩ :=
        Expr.readBack h hother (stops_cons.mpr rfl) (stops_cons.mpr rfl) heq
      exact ⟨rfl, hrest⟩

/-- The characters of a rendered parameter. -/
def Param.chars (p : Param) : List Char := p.render.toList

theorem Param.chars_eq (p : Param) : p.chars = p.type.keyword.toList ++ ' ' :: p.name.toList := by
  simp [chars, render]

theorem Param.readBack {p : Param} (h : IsName p.name) :
    ReadBack chars (fun p => IsName p.name) Stops p := by
  intro q hq r r' hr hr' heq
  rw [chars_eq, chars_eq, List.append_assoc, List.append_assoc] at heq
  obtain ⟨htype, hname⟩ := p.type.word_keyword.cut q.type.word_keyword (stops_cons.mpr rfl)
    (stops_cons.mpr rfl) heq
  obtain ⟨hname, hrest⟩ := h.word.cut hq.word hr hr' (List.cons.inj hname).2
  have htype := DataType.keyword_injective (String.toList_inj.mp htype)
  have hname := String.toList_inj.mp hname
  cases p
  cases q
  cases htype
  cases hname
  exact ⟨rfl, hrest⟩

theorem separates_params :
    Separates [',', ' '] Param.chars (fun p => IsName p.name) Stops (Begins ']') where
  ends_sep r := stops_cons.mpr rfl
  ends_of_closes := by
    rintro _ ⟨z, rfl⟩
    exact stops_cons.mpr rfl
  sep_apart := by
    rintro _ ⟨z, rfl⟩ h
    simp at h
  item_apart := by
    rintro p _ hp ⟨z, rfl⟩ ⟨rest, h⟩
    rw [Param.chars_eq, List.append_assoc] at h
    exact p.type.word_keyword.append_ne_cons rfl h

/-! ## Statements -/

/-- The characters of a rendered statement. -/
def Stmt.chars (s : Stmt) : List Char := s.render.toList

/-- The characters of a rendered block. -/
def Stmt.blockChars (block : List Stmt) : List Char := separated [' '] Stmt.chars block

/-- The characters of a rendered second block. -/
def Stmt.elseChars (block : List Stmt) : List Char :=
  ['(', 'e', 'l', 's', 'e', ' '] ++ (Stmt.blockChars block ++ [')'])

namespace Stmt

-- Below, `change` unfolds the rendering of one form: the equations of a recursion over statements
-- and their blocks are slow to derive.

theorem intercalate_renderAll (block : List Stmt) :
    [' '].intercalate ((Stmt.renderAll block).map String.toList) = Stmt.blockChars block := by
  rw [Stmt.renderAll_eq_map, List.map_map]
  rfl

theorem chars_declare (type : DataType) (name : String) (value : Option Expr) :
    (Stmt.declare type name value).chars = "(var ".toList ++ (type.keyword.toList ++ ' ' ::
      (name.toList ++ (field Expr.chars value ++ [')']))) := by
  cases value with
  | none =>
    change ("(var " ++ type.keyword ++ " " ++ name ++ ")").toList = _
    simp [field]
  | some e =>
    change ("(var " ++ type.keyword ++ " " ++ name ++ " " ++ e.render ++ ")").toList = _
    simp [field, Expr.chars]

theorem chars_assign (name : String) (e : Expr) :
    (Stmt.assign name e).chars = "(= ".toList ++ (name.toList ++ ' ' :: (e.chars ++ [')'])) := by
  change ("(= " ++ name ++ " " ++ e.render ++ ")").toList = _
  simp [Expr.chars]

theorem chars_print (what : Printed) :
    (Stmt.print what).chars = "(print ".toList ++ (what.chars ++ [')']) := by
  cases what with
  | text content =>
    change ("(print \"" ++ content ++ "\")").toList = _
    simp [Printed.chars]
  | value e =>
    change ("(print " ++ e.render ++ ")").toList = _
    simp [Printed.chars, Expr.chars]

theorem chars_scan (name : String) :
    (Stmt.scan name).chars = "(scan ".toList ++ (name.toList ++ [')']) := by
  change ("(scan " ++ name ++ ")").toList = _
  simp

theorem chars_branch (cond : Expr) (thenBlock : List Stmt) (elseBlock : Option (List Stmt)) :
    (Stmt.branch cond thenBlock elseBlock).chars = "(if ".toList ++ (cond.chars ++ ' ' ::
      ("(then ".toList ++ (Stmt.blockChars thenBlock ++ ')' ::
        (field Stmt.elseChars elseBlock ++ [')'])))) := by
  cases elseBlock with
  | none =>
    change ("(if " ++ cond.render ++ " (then " ++ " ".intercalate (Stmt.renderAll thenBlock) ++
      "))").toList = _
    simp [field, Expr.chars, intercalate_renderAll]
  | some elseBlock =>
    change ("(if " ++ cond.render ++ " (then " ++ " ".intercalate (Stmt.renderAll thenBlock) ++
      ") (else " ++ " ".intercalate (Stmt.renderAll elseBlock) ++ "))").toList = _
    simp [field, Expr.chars, Stmt.elseChars, intercalate_renderAll]

theorem chars_function (signature : Signature) (body : List Stmt) :
    (Stmt.function signature body).chars = "(fn ".toList ++ (signature.type.keyword.toList ++ ' ' ::
      (signature.name.toList ++ ' ' :: '[' :: (separated [',', ' '] Param.chars signature.params ++
        ']' :: ' ' :: (Stmt.blockChars body ++ [')'])))) := by
  have hparams : separated [',', ' '] Param.chars signature.params =
      [',', ' '].intercalate (signature.params.map fun p => p.render.toList) := rfl
  change ("(fn " ++ signature.type.keyword ++ " " ++ signature.name ++ " [" ++
    ", ".intercalate (signature.params.map Param.render) ++ "] " ++
    " ".intercalate (Stmt.renderAll body) ++ ")").toList = _
  simp [intercalate_renderAll, hparams, Function.comp_def]

theorem chars_ret (value : Option Expr) :
    (Stmt.ret value).chars = "(return".toList ++ (field Expr.chars value ++ [')']) := by
  cases value with
  | none => rfl
  | some e =>
    change ("(return " ++ e.render ++ ")").toList = _
    simp [field, Expr.chars]

/-- The character that tells the form of a statement: the first of its first word. -/
def initial : Stmt → Char
  | .declare .. => 'v'
  | .assign .. => '='
  | .print _ => 'p'
  | .scan _ => 's'
  | .branch .. => 'i'
  | .function .. => 'f'
  | .ret _ => 'r'

theorem exists_chars_eq (s : Stmt) : ∃ cs, s.chars = '(' :: s.initial :: cs := by
  cases s with
  | declare type name value => exact ⟨_, chars_declare type name value⟩
  | assign name e => exact ⟨_, chars_assign name e⟩
  | print what => exact ⟨_, chars_print what⟩
  | scan name => exact ⟨_, chars_scan name⟩
  | branch cond thenBlock elseBlock => exact ⟨_, chars_branch cond thenBlock elseBlock⟩
  | function signature body => exact ⟨_, chars_function signature body⟩
  | ret value => exact ⟨_, chars_ret value⟩

/-- A statement is read back from its rendering, with anything behind it. -/
def ReadsBack (s : Stmt) : Prop := ReadBack Stmt.chars Stmt.Readable (fun _ => True) s

theorem initial_eq {s t : Stmt} {r r' : List Char} (h : s.chars ++ r = t.chars ++ r') :
    s.initial = t.initial := by
  obtain ⟨cs, hs⟩ := s.exists_chars_eq
  obtain ⟨ds, ht⟩ := t.exists_chars_eq
  rw [hs, ht] at h
  exact (List.cons.inj (List.cons.inj h).2).1

theorem separates_block :
    Separates [' '] Stmt.chars Stmt.Readable (fun _ => True) (Begins ')') where
  ends_sep _ := trivial
  ends_of_closes _ _ := trivial
  sep_apart := by
    rintro _ ⟨z, rfl⟩ h
    simp at h
  item_apart := by
    rintro s _ - ⟨z, rfl⟩ h
    obtain ⟨cs, hs⟩ := s.exists_chars_eq
    simp [hs] at h

/-- A block is read back if its statements are. -/
theorem readBack_block {block : List Stmt} (h : Stmt.ReadableAll block)
    (hblock : ∀ s ∈ block, s.ReadsBack) :
    ReadBack Stmt.blockChars Stmt.ReadableAll (Begins ')') block := by
  intro other hother
  exact ReadBack.separated separates_block (readableAll_iff.mp h) hblock (readableAll_iff.mp hother)

theorem readBack_else {block : List Stmt} (h : Stmt.ReadableAll block)
    (hblock : ∀ s ∈ block, s.ReadsBack) :
    ReadBack Stmt.elseChars Stmt.ReadableAll (fun _ => True) block := by
  intro other hother r r' _ _ heq
  simp only [Stmt.elseChars, List.append_assoc, List.cons_append, List.nil_append,
    List.cons.injEq, true_and] at heq
  obtain ⟨rfl, hrest⟩ :=
    readBack_block h hblock hother (begins_cons.mpr rfl) (begins_cons.mpr rfl) heq
  exact ⟨rfl, (List.cons.inj hrest).2⟩

/-- **Readable statements are read back**, and so are the statements of readable blocks. -/
theorem readsBack_all :
    (∀ s : Stmt, s.Readable → s.ReadsBack) ∧
      ∀ block : List Stmt, Stmt.ReadableAll block → ∀ s ∈ block, s.ReadsBack := by
  -- Where the forms agree, the parts are read back one after the other.
  apply Stmt.block_induction
  case declare =>
    intro type name value h t ht r r' _ _ heq
    have hinitial := initial_eq heq
    cases t with
    | declare type' name' value' =>
      rw [readable_declare] at h ht
      simp only [chars_declare, List.append_assoc, List.append_cancel_left_eq, List.cons_append,
        List.nil_append] at heq
      obtain ⟨htype, hbehind⟩ := type.word_keyword.cut type'.word_keyword (stops_cons.mpr rfl)
        (stops_cons.mpr rfl) heq
      obtain ⟨hname, hvalue⟩ := h.1.word.cut ht.1.word (stops_field _ (begins_cons.mpr rfl))
        (stops_field _ (begins_cons.mpr rfl)) (List.cons.inj hbehind).2
      obtain ⟨rfl, hrest⟩ := readBack_value h.2 ht.2 (begins_cons.mpr rfl) (begins_cons.mpr rfl)
        hvalue
      rw [DataType.keyword_injective (String.toList_inj.mp htype), String.toList_inj.mp hname]
      exact ⟨rfl, (List.cons.inj hrest).2⟩
    | _ => simp [initial] at hinitial
  case assign =>
    intro name e h t ht r r' _ _ heq
    have hinitial := initial_eq heq
    cases t with
    | assign name' e' =>
      simp only [chars_assign, List.append_assoc, List.append_cancel_left_eq, List.cons_append,
        List.nil_append] at heq
      obtain ⟨hname, hvalue⟩ := h.1.word.cut ht.1.word (stops_cons.mpr rfl) (stops_cons.mpr rfl) heq
      obtain ⟨rfl, hrest⟩ := Expr.readBack h.2 ht.2 (stops_cons.mpr rfl) (stops_cons.mpr rfl)
        (List.cons.inj hvalue).2
      rw [String.toList_inj.mp hname]
      exact ⟨rfl, (List.cons.inj hrest).2⟩
    | _ => simp [initial] at hinitial
  case print =>
    intro what h t ht r r' _ _ heq
    have hinitial := initial_eq heq
    cases t with
    | print what' =>
      simp only [chars_print, List.append_assoc, List.append_cancel_left_eq, List.cons_append,
        List.nil_append] at heq
      obtain ⟨rfl, hrest⟩ := Printed.readBack h ht (begins_cons.mpr rfl) (begins_cons.mpr rfl) heq
      exact ⟨rfl, (List.cons.inj hrest).2⟩
    | _ => simp [initial] at hinitial
  case scan =>
    intro name h t ht r r' _ _ heq
    have hinitial := initial_eq heq
    cases t with
    | scan name' =>
      simp only [chars_scan, List.append_assoc, List.append_cancel_left_eq, List.cons_append,
        List.nil_append] at heq
      obtain ⟨hname, hrest⟩ :=
        (IsName.word h).cut (IsName.word ht) (stops_cons.mpr rfl) (stops_cons.mpr rfl) heq
      rw [String.toList_inj.mp hname]
      exact ⟨rfl, (List.cons.inj hrest).2⟩
    | _ => simp [initial] at hinitial
  case branch =>
    intro cond thenBlock elseBlock hthen helse h t ht r r' _ _ heq
    have hinitial := initial_eq heq
    cases t with
    | branch cond' thenBlock' elseBlock' =>
      rw [readable_branch] at h ht
      simp only [chars_branch, List.append_assoc, List.append_cancel_left_eq, List.cons_append,
        List.nil_append] at heq
      obtain ⟨rfl, hblocks⟩ :=
        Expr.readBack h.1 ht.1 (stops_cons.mpr rfl) (stops_cons.mpr rfl) heq
      have hblocks := List.append_cancel_left (List.cons.inj hblocks).2
      obtain ⟨rfl, hfield⟩ := readBack_block h.2.1 (hthen h.2.1) ht.2.1 (begins_cons.mpr rfl)
        (begins_cons.mpr rfl) hblocks
      have helses : ∀ block ∈ elseBlock,
          ReadBack Stmt.elseChars Stmt.ReadableAll (fun _ => True) block :=
        fun block hblock =>
          readBack_else (h.2.2 block hblock) (helse block hblock (h.2.2 block hblock))
      obtain ⟨rfl, hrest⟩ := ReadBack.field (fun _ _ => trivial) helses ht.2.2 (begins_cons.mpr rfl)
        (begins_cons.mpr rfl) (List.cons.inj hfield).2
      exact ⟨rfl, (List.cons.inj hrest).2⟩
    | _ => simp [initial] at hinitial
  case function =>
    rintro ⟨type, name, params⟩ body hbody h t ht r r' _ _ heq
    have hinitial := initial_eq heq
    cases t with
    | function signature body' =>
      obtain ⟨type', name', params'⟩ := signature
      simp only [chars_function, List.append_assoc, List.append_cancel_left_eq, List.cons_append,
        List.nil_append] at heq
      obtain ⟨⟨hname, hparams⟩, hreadable⟩ := h
      obtain ⟨⟨hname', hparams'⟩, hreadable'⟩ := ht
      obtain ⟨htype, hbehind⟩ := type.word_keyword.cut type'.word_keyword (stops_cons.mpr rfl)
        (stops_cons.mpr rfl) heq
      obtain ⟨hname, hbehind⟩ := hname.word.cut hname'.word (stops_cons.mpr rfl)
        (stops_cons.mpr rfl) (List.cons.inj hbehind).2
      obtain ⟨hparams, hbehind⟩ := ReadBack.separated separates_params hparams
        (fun p hp => Param.readBack (hparams p hp)) hparams' (begins_cons.mpr rfl)
        (begins_cons.mpr rfl) (List.cons.inj (List.cons.inj hbehind).2).2
      obtain ⟨rfl, hrest⟩ := readBack_block hreadable (hbody hreadable) hreadable'
        (begins_cons.mpr rfl) (begins_cons.mpr rfl) (List.cons.inj (List.cons.inj hbehind).2).2
      have hname : name = name' := String.toList_inj.mp hname
      have hparams : params = params' := hparams
      rw [DataType.keyword_injective (String.toList_inj.mp htype), hname, hparams]
      exact ⟨rfl, (List.cons.inj hrest).2⟩
    | _ => simp [initial] at hinitial
  case ret =>
    intro value h t ht r r' _ _ heq
    have hinitial := initial_eq heq
    cases t with
    | ret value' =>
      rw [readable_ret] at h ht
      simp only [chars_ret, List.append_assoc, List.append_cancel_left_eq, List.cons_append,
        List.nil_append] at heq
      obtain ⟨rfl, hrest⟩ := readBack_value h ht (begins_cons.mpr rfl) (begins_cons.mpr rfl) heq
      exact ⟨rfl, (List.cons.inj hrest).2⟩
    | _ => simp [initial] at hinitial
  case nil =>
    intro _ s hs
    exact absurd hs List.not_mem_nil
  case cons =>
    intro s rest hs hrest h
    exact List.forall_mem_cons.mpr ⟨hs h.1, hrest h.2⟩

end Stmt

/-! ## Whole trees -/

/-- Readable statements are determined by their S-expressions on lines of their own. -/
theorem Stmt.lines_injective {xs ys : List Stmt} (hxs : Stmt.ReadableAll xs)
    (hys : Stmt.ReadableAll ys)
    (h : "\n".intercalate (xs.map Stmt.render) = "\n".intercalate (ys.map Stmt.render)) :
    xs = ys := by
  have hne : ∀ s : Stmt, s.Readable → s.chars ≠ [] := by
    intro s _
    obtain ⟨cs, hs⟩ := s.exists_chars_eq
    rw [hs]
    exact List.cons_ne_nil _ _
  exact Text.lines_injective (separates_lines trivial (fun _ => trivial) hne) Stmt.readsBack_all.1
    (Stmt.readableAll_iff.mp hxs) (Stmt.readableAll_iff.mp hys) h

theorem View.render_tree {source : String} {program : List Stmt}
    (h : statements source = .ok program) :
    View.tree.render source = .ok ("\n".intercalate (program.map Stmt.render)) := by
  rw [View.render, h]
  rfl

theorem View.exists_of_render_tree {source text : String}
    (h : View.tree.render source = .ok text) : ∃ program, statements source = .ok program := by
  cases hstatements : statements source with
  | ok program => exact ⟨program, rfl⟩
  | error e =>
    rw [View.render, hstatements] at h
    exact nomatch h

/-- **Sources with the same tree rendering have the same statements.** -/
theorem tree_unambiguous {a b : String} {xs ys : List Stmt} (ha : statements a = .ok xs)
    (hb : statements b = .ok ys) (h : View.tree.render a = View.tree.render b) : xs = ys := by
  rw [View.render_tree ha, View.render_tree hb] at h
  exact Stmt.lines_injective (readableAll_of_statements ha) (readableAll_of_statements hb)
    (Except.ok.inj h)

/-- Two layouts of one program, with an empty second block and a text full of marks.  The
two sources have the same statements. -/
theorem tree_unambiguous_layouts :
    View.tree.render "Lowkey(1)\x7b\x7dorNah\x7bspit_it_out\") (else (x\";\x7d" =
        .ok "(if 1 (then ) (else (print \") (else (x\")))" ∧
      View.tree.render "Lowkey ((1)) \x7b \x7d orNah \x7b spit_it_out \") (else (x\"; \x7d" =
        .ok "(if 1 (then ) (else (print \") (else (x\")))" ∧
      statements "Lowkey(1)\x7b\x7dorNah\x7bspit_it_out\") (else (x\";\x7d" =
        statements "Lowkey ((1)) \x7b \x7d orNah \x7b spit_it_out \") (else (x\"; \x7d" := by
  have ha : View.tree.render "Lowkey(1)\x7b\x7dorNah\x7bspit_it_out\") (else (x\";\x7d" =
      .ok "(if 1 (then ) (else (print \") (else (x\")))" := by decide +kernel
  have hb : View.tree.render
        "Lowkey ((1)) \x7b \x7d orNah \x7b spit_it_out \") (else (x\"; \x7d" =
      .ok "(if 1 (then ) (else (print \") (else (x\")))" := by decide +kernel
  obtain ⟨xs, hxs⟩ := View.exists_of_render_tree ha
  obtain ⟨ys, hys⟩ := View.exists_of_render_tree hb
  refine ⟨ha, hb, ?_⟩
  rw [hxs, hys, tree_unambiguous hxs hys (ha.trans hb.symm)]

end Brew
