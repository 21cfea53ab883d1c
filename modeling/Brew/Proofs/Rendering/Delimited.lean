import Brew.Proofs.Token.Lexemes

/-!
# Renderings that can be read back

A rendering writes one thing behind the other and escapes nothing, so it is not plain that what was
written can be told from the text.  A value is **read back** if no other value could have been
written in its place, with whatever comes behind it.  What may come behind is part of the notion: a
word ends where a mark stands, and a list of items ends where neither an item nor a separator can
begin.

## Main definitions

* `Text.Word`, `Text.Stops`: words, and the texts that do not go on with a word
* `Text.ReadBack`: a value is read back from its rendering
* `Text.separated`, `Text.field`: items with a separator between them, and a field that may be
  missing

## Main results

* `Text.Word.cut`, `Text.quoted_cut`: words and quoted texts are read back
* `Text.ReadBack.separated`, `Text.ReadBack.field`: so are items and fields, if their parts are
* `Text.lines_injective`: items on lines of their own are determined by the whole text
-/

namespace Brew.Text

variable {α : Type}

/-! ## Words and quoted texts -/

/-- The characters that stand between the words of a rendering. -/
def isMark (c : Char) : Bool := c ∈ [' ', '\n', '"', '(', ')', '[', ']', ',']

/-- A word is a nonempty text without marks. -/
def Word (w : List Char) : Prop := w ≠ [] ∧ ∀ c ∈ w, isMark c = false

/-- A text that does not go on with a word. -/
def Stops (r : List Char) : Prop := ∀ c ∈ r.head?, isMark c = true

@[simp]
theorem stops_cons {c : Char} {r : List Char} : Stops (c :: r) ↔ isMark c = true := by
  simp [Stops]

/-- Where a run of characters of some class ends, everything is determined. -/
theorem run_cut {p : Char → Bool} {w w' r r' : List Char} (hw : ∀ c ∈ w, p c)
    (hw' : ∀ c ∈ w', p c) (hr : ∀ c ∈ r.head?, p c = false) (hr' : ∀ c ∈ r'.head?, p c = false)
    (h : w ++ r = w' ++ r') : w = w' ∧ r = r' := by
  have htake : ∀ {w r : List Char}, (∀ c ∈ w, p c) → (∀ c ∈ r.head?, p c = false) →
      (w ++ r).takeWhile p = w := by
    intro w r hw hr
    rw [List.takeWhile_append_of_pos hw]
    cases r with
    | nil => simp
    | cons c r => simp [hr c rfl]
  have hww : w = w' := by rw [← htake hw hr, h, htake hw' hr']
  subst hww
  exact ⟨rfl, List.append_cancel_left h⟩

/-- **A word is read back** where no word goes on behind it. -/
theorem Word.cut {w w' r r' : List Char} (hw : Word w) (hw' : Word w') (hr : Stops r)
    (hr' : Stops r') (h : w ++ r = w' ++ r') : w = w' ∧ r = r' := by
  refine run_cut (p := fun c => !isMark c) ?_ ?_ ?_ ?_ h
  · intro c hc
    simp [hw.2 c hc]
  · intro c hc
    simp [hw'.2 c hc]
  · intro c hc
    simp [hr c hc]
  · intro c hc
    simp [hr' c hc]

/-- **A quoted text is read back**, with anything behind it. -/
theorem quoted_cut {w w' r r' : List Char} (hw : '"' ∉ w) (hw' : '"' ∉ w')
    (h : w ++ '"' :: r = w' ++ '"' :: r') : w = w' ∧ r = r' := by
  have hne : ∀ {w : List Char}, '"' ∉ w → ∀ c ∈ w, (c != '"') = true := by
    intro w hw c hc
    have hcq : c ≠ '"' := fun e => hw (e ▸ hc)
    simpa using hcq
  obtain ⟨hww, hrr⟩ := run_cut (p := fun c => c != '"') (hne hw) (hne hw') (by simp) (by simp) h
  exact ⟨hww, (List.cons.inj hrr).2⟩

/-- A word does not begin with a mark. -/
theorem Word.append_ne_cons {w r cs : List Char} {c : Char} (hw : Word w) (hc : isMark c = true) :
    w ++ r ≠ c :: cs := by
  obtain ⟨d, ds, rfl⟩ := List.exists_cons_of_ne_nil hw.1
  intro h
  obtain ⟨rfl, -⟩ := List.cons.inj h
  exact absurd hc (Bool.eq_false_iff.mp (hw.2 d List.mem_cons_self))

/-! ## Values -/

/-- **A value is read back from its rendering** if no other value, with anything that can stand
behind a rendering, gives the same text. -/
def ReadBack (write : α → List Char) (Valid : α → Prop) (Ends : List Char → Prop) (x : α) : Prop :=
  ∀ ⦃y⦄, Valid y → ∀ ⦃r r'⦄, Ends r → Ends r' → write x ++ r = write y ++ r' → x = y ∧ r = r'

/-- Items with a separator between them. -/
def separated (sep : List Char) (write : α → List Char) (xs : List α) : List Char :=
  sep.intercalate (xs.map write)

/-- Items that each have a separator before them. -/
def continued (sep : List Char) (write : α → List Char) (xs : List α) : List Char :=
  xs.flatMap fun x => sep ++ write x

/-- A separator does its work: an item can end before it, and where the items are closed neither a
separator nor an item can begin. -/
structure Separates (sep : List Char) (write : α → List Char) (Valid : α → Prop)
    (Ends Closes : List Char → Prop) : Prop where
  ends_sep : ∀ r, Ends (sep ++ r)
  ends_of_closes : ∀ r, Closes r → Ends r
  sep_apart : ∀ r, Closes r → ¬ sep <+: r
  item_apart : ∀ y r, Valid y → Closes r → ¬ write y <+: r

section Separated

variable {sep : List Char} {write : α → List Char} {Valid : α → Prop}
variable {Ends Closes : List Char → Prop}

@[simp]
theorem continued_nil : continued sep write [] = [] := rfl

@[simp]
theorem continued_cons (x : α) (xs : List α) :
    continued sep write (x :: xs) = sep ++ (write x ++ continued sep write xs) := by
  rw [continued, List.flatMap_cons, List.append_assoc, continued]

theorem separated_cons (x : α) (xs : List α) :
    separated sep write (x :: xs) = write x ++ continued sep write xs := by
  induction xs generalizing x with
  | nil => simp [separated]
  | cons y ys ih =>
    rw [separated, List.map_cons, List.map_cons, List.intercalate_cons_cons, ← List.map_cons,
      ← separated, ih, continued_cons, List.append_assoc]

/-- An item can end before the items that go on behind it. -/
theorem Separates.ends_continued (h : Separates sep write Valid Ends Closes) (xs : List α)
    {r : List Char} (hr : Closes r) : Ends (continued sep write xs ++ r) := by
  cases xs with
  | nil => exact h.ends_of_closes r hr
  | cons x xs =>
    rw [continued_cons, List.append_assoc]
    exact h.ends_sep _

theorem ReadBack.continued (h : Separates sep write Valid Ends Closes) {xs : List α}
    (hxs : ∀ x ∈ xs, ReadBack write Valid Ends x) :
    ReadBack (continued sep write) (fun ys => ∀ y ∈ ys, Valid y) Closes xs := by
  induction xs with
  | nil =>
    intro ys _ r r' hr _ heq
    cases ys with
    | nil => exact ⟨rfl, heq⟩
    | cons y ys =>
      -- The items are closed here, so there is no room for a separator.
      rw [continued_nil, List.nil_append, continued_cons, List.append_assoc] at heq
      exact absurd ⟨_, heq.symm⟩ (h.sep_apart r hr)
  | cons x xs ih =>
    obtain ⟨hx, hxs⟩ := List.forall_mem_cons.mp hxs
    intro ys hys r r' hr hr' heq
    cases ys with
    | nil =>
      rw [continued_nil, List.nil_append, continued_cons, List.append_assoc] at heq
      exact absurd ⟨_, heq⟩ (h.sep_apart r' hr')
    | cons y ys =>
      obtain ⟨hy, htail⟩ := List.forall_mem_cons.mp hys
      simp only [continued_cons, List.append_assoc, List.append_cancel_left_eq] at heq
      obtain ⟨rfl, hrest⟩ := hx hy (h.ends_continued xs hr) (h.ends_continued ys hr') heq
      obtain ⟨rfl, hrr⟩ := ih hxs htail hr hr' hrest
      exact ⟨rfl, hrr⟩

/-- **Separated items are read back** if each of them is. -/
theorem ReadBack.separated (h : Separates sep write Valid Ends Closes) {xs : List α}
    (hvalid : ∀ x ∈ xs, Valid x) (hxs : ∀ x ∈ xs, ReadBack write Valid Ends x) :
    ReadBack (separated sep write) (fun ys => ∀ y ∈ ys, Valid y) Closes xs := by
  intro ys hys r r' hr hr' heq
  cases xs with
  | nil =>
    cases ys with
    | nil => exact ⟨rfl, heq⟩
    | cons y ys =>
      have hy := (List.forall_mem_cons.mp hys).1
      rw [separated_cons, List.append_assoc] at heq
      exact absurd ⟨_, heq.symm⟩ (h.item_apart y r hy hr)
  | cons x xs =>
    obtain ⟨hx, hxs⟩ := List.forall_mem_cons.mp hxs
    cases ys with
    | nil =>
      have hx := (List.forall_mem_cons.mp hvalid).1
      rw [separated_cons, List.append_assoc] at heq
      exact absurd ⟨_, heq⟩ (h.item_apart x r' hx hr')
    | cons y ys =>
      obtain ⟨hy, htail⟩ := List.forall_mem_cons.mp hys
      rw [separated_cons, separated_cons, List.append_assoc, List.append_assoc] at heq
      obtain ⟨rfl, hrest⟩ := hx hy (h.ends_continued xs hr) (h.ends_continued ys hr') heq
      obtain ⟨rfl, hrr⟩ := ReadBack.continued h hxs htail hr hr' hrest
      exact ⟨rfl, hrr⟩

end Separated

/-- Line ends separate items that are not empty, up to the end of the text. -/
theorem separates_lines {write : α → List Char} {Valid : α → Prop} {Ends : List Char → Prop}
    (hend : Ends []) (hbreak : ∀ r, Ends ('\n' :: r)) (hne : ∀ x, Valid x → write x ≠ []) :
    Separates ['\n'] write Valid Ends (· = []) where
  ends_sep := hbreak
  ends_of_closes := by
    rintro _ rfl
    exact hend
  sep_apart := by
    rintro _ rfl h
    simp at h
  item_apart := by
    rintro x _ hx rfl h
    exact hne x hx (List.prefix_nil.mp h)

/-- **Items on lines of their own are determined by the whole text** if each of them is read back
where a line ends behind it. -/
theorem lines_injective {render : α → String} {Valid : α → Prop} {Ends : List Char → Prop}
    (hsep : Separates ['\n'] (fun x => (render x).toList) Valid Ends (· = []))
    (hread : ∀ x, Valid x → ReadBack (fun x => (render x).toList) Valid Ends x) {xs ys : List α}
    (hxs : ∀ x ∈ xs, Valid x) (hys : ∀ y ∈ ys, Valid y)
    (h : "\n".intercalate (xs.map render) = "\n".intercalate (ys.map render)) : xs = ys := by
  have htext := congrArg (fun text => text.toList ++ []) h
  simp only [String.toList_intercalate, List.map_map] at htext
  exact (ReadBack.separated hsep hxs (fun x hx => hread x (hxs x hx)) hys rfl rfl htext).1

/-- A text that begins with a certain character. -/
def Begins (c : Char) (r : List Char) : Prop := ∃ z, r = c :: z

@[simp]
theorem begins_cons {c d : Char} {r : List Char} : Begins c (d :: r) ↔ d = c := by
  simp [Begins]

/-- A field that may be missing, with a space before it. -/
def field (write : α → List Char) : Option α → List Char
  | none => []
  | some x => ' ' :: write x

theorem stops_field {write : α → List Char} (o : Option α) {r : List Char}
    (hr : Begins ')' r) : Stops (field write o ++ r) := by
  obtain ⟨z, rfl⟩ := hr
  cases o <;> simp [field, isMark]

/-- **A field that may be missing is read back** where a parenthesis is closed behind it. -/
theorem ReadBack.field {write : α → List Char} {Valid : α → Prop} {Ends : List Char → Prop}
    (hends : ∀ r, Begins ')' r → Ends r) {o : Option α}
    (ho : ∀ x ∈ o, ReadBack write Valid Ends x) :
    ReadBack (field write) (fun o => ∀ x ∈ o, Valid x) (Begins ')') o := by
  intro o' ho' r r' hr hr' h
  -- A field begins with a space, and where it is missing a parenthesis stands instead.
  have hspace : ∀ {x : α} {z r : List Char}, Begins ')' r → r ≠ Text.field write (some x) ++ z := by
    rintro x z _ ⟨w, rfl⟩ h
    exact absurd (List.cons.inj h).1 (by decide)
  cases o with
  | none =>
    cases o' with
    | none => exact ⟨rfl, h⟩
    | some y => exact absurd h (hspace hr)
  | some x =>
    cases o' with
    | none => exact absurd h.symm (hspace hr')
    | some y =>
      obtain ⟨rfl, hrest⟩ := ho x rfl (ho' y rfl) (hends r hr) (hends r' hr') (List.cons.inj h).2
      exact ⟨rfl, hrest⟩

end Brew.Text

/-! ## The words of the language -/

namespace Brew

open Pattern Text

/-- What names and numbers are made of is no mark. -/
theorem Text.isMark_eq_false_of_isNamePart {c : Char} (h : isNamePart c ∨ c = '.') :
    isMark c = false := by
  by_contra hmark
  simp only [isMark, Bool.not_eq_false, decide_eq_true_eq, List.mem_cons, List.not_mem_nil,
    or_false] at hmark
  rcases hmark with rfl | rfl | rfl | rfl | rfl | rfl | rfl | rfl <;> exact absurd h (by decide)

theorem IsName.exists_cons {name : String} (h : IsName name) :
    ∃ cs, name.toList = 'w' :: cs := by
  obtain ⟨c, cs, -, -, hname⟩ := h
  exact ⟨_, hname⟩

theorem IsNumber.exists_cons {spelling : String} (h : IsNumber spelling) :
    ∃ d ds, d.isDigit ∧ spelling.toList = d :: ds := by
  -- Both forms of a number begin with a nonempty run of digits.
  have hdigits : ∀ {run rest : List Char}, Digits run →
      ∃ d ds, d.isDigit ∧ run ++ rest = d :: ds := by
    rintro (_ | ⟨d, run⟩) rest ⟨hne, hall⟩
    · exact absurd rfl hne
    · exact ⟨d, run ++ rest, hall d List.mem_cons_self, rfl⟩
  rcases h with hw | ⟨whole, part, hwhole, -, hw⟩
  · rw [← List.append_nil spelling.toList]
    exact hdigits hw
  · rw [hw]
    exact hdigits hwhole

theorem IsName.word {name : String} (h : IsName name) : Word name.toList := by
  obtain ⟨cs, hname⟩ := h.exists_cons
  refine ⟨hname ▸ List.cons_ne_nil _ _, fun c hc => ?_⟩
  exact isMark_eq_false_of_isNamePart (.inl (isNamePart_of_describes_identifier h hc))

theorem IsNumber.word {spelling : String} (h : IsNumber spelling) : Word spelling.toList := by
  obtain ⟨d, ds, -, hspelling⟩ := h.exists_cons
  refine ⟨hspelling ▸ List.cons_ne_nil _ _, fun c hc => ?_⟩
  exact isMark_eq_false_of_isNamePart (isNamePart_of_describes_number h hc)

/-- A name is no number. -/
theorem IsName.not_isNumber {name : String} (h : IsName name) : ¬ IsNumber name := by
  intro hnumber
  obtain ⟨cs, hname⟩ := h.exists_cons
  obtain ⟨d, ds, hd, hdigit⟩ := hnumber.exists_cons
  rw [hname, List.cons.injEq] at hdigit
  obtain ⟨rfl, -⟩ := hdigit
  exact absurd hd (by decide)

theorem DataType.word_keyword (type : DataType) : Word type.keyword.toList := by
  cases type <;> simp [Word, keyword, isMark]

theorem BinaryOp.word_symbol (op : BinaryOp) : Word op.symbol.toList := by
  cases op <;> simp [Word, symbol, isMark]

end Brew
