import Mathlib.Data.List.Pairwise
import Mathlib.Data.List.Perm.Basic
import Brew.Text.Blank
import Brew.Token.Class

/-!
# The longest lexeme at the front of a text

A pattern is written as a search, and its class as a set of texts.  The two agree: what a pattern
takes is the longest member of its class that the text begins with.  Which pattern applies is
decided by the first few characters.  Every pattern has finitely many **marks**, one of which begins
each of its lexemes, and in the lexicon of the language no mark is the beginning of another.  So at
most one pattern, and at most one of its words, fits at a place, and the order in which they are
tried does not matter.

That a lexeme is the longest of its class says at once what happens to it when the text is cut
behind it.  When a blank and more text are added, it stays the longest because no class can prolong
one of its members over a blank.

## Main definitions

* `Pattern.marks`: how the lexemes of a pattern begin
* `Lexicon.Unambiguous`: no mark begins another, and none begins with a blank
* `Pattern.Longest`: the longest member of a class at the front of a text
* `Lexicon.Rearranged`: the same patterns and words in another order

## Main results

* `Pattern.lexeme?_eq_some_iff`: a pattern takes the longest member of its class
* `Lexicon.lexeme?_eq_some_iff`: the lexicon finds the longest lexeme of the kind that fits
* `Lexicon.lexeme?_rearranged`: the order of patterns and words does not matter
* `Pattern.Longest.cut`, `Pattern.Longest.append_blank`: the longest lexeme stays the longest
-/

namespace Brew

variable {cs u v w : List Char}

/-! ## Marks -/

/-- Neither of two texts is the beginning of the other. -/
def Apart (u v : List Char) : Prop := ¬ u <+: v ∧ ¬ v <+: u

instance : DecidableRel Apart := fun _ _ => inferInstanceAs (Decidable (_ ∧ _))

theorem Apart.symm (h : Apart u v) : Apart v u := ⟨h.2, h.1⟩

instance : Std.Symm Apart := ⟨fun _ _ => Apart.symm⟩

/-- Of texts that are pairwise apart, at most one begins a given text. -/
theorem eq_of_isPrefix_of_apart {marks : List (List Char)} (h : marks.Pairwise Apart)
    (hu : u ∈ marks) (hv : v ∈ marks) (hucs : u <+: cs) (hvcs : v <+: cs) : u = v := by
  by_contra hne
  obtain ⟨huv, hvu⟩ := h.forall hu hv hne
  exact (List.prefix_or_prefix_of_prefix hucs hvcs).elim huv hvu

namespace Pattern

variable {p p' : Pattern}

/-- How the lexemes of a pattern begin. -/
def marks : Pattern → List (List Char)
  | words spellings => spellings.map String.toList
  | identifier => [['w', 't', 'l', '_']]
  | number => "0123456789".toList.map fun d => [d]
  | quotedText => [['"']]
  | quotedChar => [['\x27']]
  | oneOf chars => chars.toList.map fun c => [c]

theorem mem_digits {d : Char} (h : d.isDigit) : d ∈ "0123456789".toList := by
  have hall : ∀ n < 58, 48 ≤ n → Char.ofNat n ∈ "0123456789".toList := by decide
  simp only [Char.isDigit, Bool.and_eq_true, decide_eq_true_eq, ge_iff_le,
    UInt32.le_iff_toNat_le] at h
  have hd := hall d.toNat (Nat.lt_succ_of_le h.2) h.1
  rwa [Char.ofNat_toNat] at hd

/-- Every text of a class begins with a mark of its pattern. -/
theorem exists_mark_of_describes (h : p.Describes w) : ∃ mark ∈ p.marks, mark <+: w := by
  cases p with
  | words spellings =>
    obtain ⟨spelling, hmem, rfl⟩ := h
    exact ⟨_, List.mem_map_of_mem hmem, List.prefix_rfl⟩
  | identifier =>
    obtain ⟨c, cs, -, -, rfl⟩ := h
    exact ⟨_, List.mem_singleton_self _, c :: cs, rfl⟩
  | number =>
    -- Both forms of a number begin with a nonempty run of digits.
    have hdigits : ∀ {run rest : List Char}, Digits run →
        ∃ mark ∈ marks number, mark <+: run ++ rest := by
      rintro (_ | ⟨d, run⟩) rest ⟨hne, hall⟩
      · exact absurd rfl hne
      · have hd := mem_digits (hall d List.mem_cons_self)
        exact ⟨[d], List.mem_map_of_mem hd, run ++ rest, rfl⟩
    rcases h with hw | ⟨whole, part, hwhole, -, rfl⟩
    · rw [← List.append_nil w]
      exact hdigits hw
    · exact hdigits hwhole
  | quotedText =>
    obtain ⟨content, -, rfl⟩ := h
    exact ⟨_, List.mem_singleton_self _, content ++ ['"'], rfl⟩
  | quotedChar =>
    obtain ⟨c, -, rfl⟩ := h
    exact ⟨_, List.mem_singleton_self _, [c, '\x27'], rfl⟩
  | oneOf chars =>
    obtain ⟨c, hc, rfl⟩ := h
    exact ⟨[c], List.mem_map_of_mem hc, List.prefix_rfl⟩

/-! ## The longest member of a class -/

section Taking

variable {c : Char} {run rest : List Char}

/-- A name goes on to the first character that cannot be part of it. -/
theorem identifier?_append (hc : isNameStart c) (hrun : ∀ d ∈ run, isNamePart d) :
    identifier? ('w' :: 't' :: 'l' :: '_' :: c :: run ++ rest) =
      some ('w' :: 't' :: 'l' :: '_' :: c :: run ++ rest.takeWhile isNamePart) := by
  simp only [List.cons_append, identifier?, if_pos hc, List.takeWhile_append_of_pos hrun]

/-- Behind a run of digits a number goes on with the digits and the fraction that follow. -/
theorem number?_append (hrun : Digits run) :
    number? (run ++ rest) =
      some (run ++ rest.takeWhile Char.isDigit ++ fraction (rest.dropWhile Char.isDigit)) := by
  obtain ⟨hne, hall⟩ := hrun
  obtain ⟨d, run, rfl⟩ := List.exists_cons_of_ne_nil hne
  rw [List.forall_mem_cons] at hall
  simp only [List.cons_append, number?, if_pos hall.1, List.takeWhile_append_of_pos hall.2,
    List.dropWhile_append_of_pos hall.2]

/-- Behind a point and a run of digits a fraction goes on with the digits that follow. -/
theorem fraction_append (hrun : Digits run) :
    fraction ('.' :: run ++ rest) = '.' :: run ++ rest.takeWhile Char.isDigit := by
  obtain ⟨hne, hall⟩ := hrun
  obtain ⟨d, run, rfl⟩ := List.exists_cons_of_ne_nil hne
  rw [List.forall_mem_cons] at hall
  simp only [List.cons_append, fraction, if_pos hall.1, List.takeWhile_append_of_pos hall.2]

/-- A text in quotes ends at the first quote. -/
theorem quotedText?_append (hrun : '"' ∉ run) :
    quotedText? ('"' :: run ++ ['"'] ++ rest) = some ('"' :: run ++ ['"']) := by
  have hinside : ∀ d ∈ run, decide (d ≠ '"') = true := by
    intro d hd
    exact decide_eq_true fun heq => hrun (heq ▸ hd)
  have hquote : ('"' :: rest).takeWhile (· ≠ '"') = [] := by simp
  have hclosed : '"' ∈ run ++ '"' :: rest := by simp
  simp only [List.cons_append, List.append_assoc, List.nil_append, quotedText?, if_pos hclosed,
    List.takeWhile_append_of_pos hinside, hquote]

end Taking

/-- **The longest member of a class** that a text begins with. -/
structure Longest (p : Pattern) (cs w : List Char) : Prop where
  describes : p.Describes w
  isPrefix : w <+: cs
  length_le : ∀ v, p.Describes v → v <+: cs → v.length ≤ w.length

/-- If a text begins with a member of a class, the pattern takes this member or a longer one. -/
theorem exists_lexeme?_of_describes (hp : p.marks.Pairwise Apart) (hw : p.Describes w)
    (hcs : w <+: cs) : ∃ taken, p.lexeme? cs = some taken ∧ w <+: taken := by
  obtain ⟨rest, rfl⟩ := hcs
  cases p with
  | words spellings =>
    -- Some word is found; no other than this one begins the text.
    obtain ⟨spelling, hmem, rfl⟩ := hw
    have hmark := List.mem_map_of_mem (f := String.toList) hmem
    have hfound : ((words spellings).lexeme? (spelling.toList ++ rest)).isSome := by
      refine List.find?_isSome.mpr ⟨_, hmark, ?_⟩
      exact List.isPrefixOf_iff_prefix.mpr (List.prefix_append _ _)
    obtain ⟨taken, htaken⟩ := Option.isSome_iff_exists.mp hfound
    have heq := eq_of_isPrefix_of_apart hp hmark (List.mem_of_find?_eq_some htaken)
      (List.prefix_append _ _) (isPrefix_of_lexeme? htaken)
    exact ⟨taken, htaken, heq ▸ List.prefix_rfl⟩
  | identifier =>
    obtain ⟨c, tail, hc, htail, rfl⟩ := hw
    exact ⟨_, identifier?_append hc htail, List.prefix_append _ _⟩
  | number =>
    rcases hw with hrun | ⟨whole, part, hwhole, hpart, rfl⟩
    · refine ⟨_, number?_append hrun, ?_⟩
      rw [List.append_assoc]
      exact List.prefix_append _ _
    · -- The whole part ends at the point, which a digit follows.
      have hfraction : fraction (('.' :: part ++ rest).dropWhile Char.isDigit) =
          '.' :: part ++ rest.takeWhile Char.isDigit := fraction_append hpart
      have htaken : number? (whole ++ ('.' :: part ++ rest)) =
          some (whole ++ [] ++ fraction (('.' :: part ++ rest).dropWhile Char.isDigit)) :=
        number?_append hwhole
      rw [hfraction, ← List.append_assoc whole] at htaken
      refine ⟨_, htaken, rest.takeWhile Char.isDigit, ?_⟩
      simp
  | quotedText =>
    obtain ⟨content, hcontent, rfl⟩ := hw
    exact ⟨_, quotedText?_append hcontent, List.prefix_rfl⟩
  | quotedChar =>
    obtain ⟨c, hc, rfl⟩ := hw
    exact ⟨_, if_neg hc, List.prefix_rfl⟩
  | oneOf chars =>
    obtain ⟨c, hc, rfl⟩ := hw
    exact ⟨_, if_pos hc, List.prefix_rfl⟩

/-- **A pattern takes the longest member of its class.** -/
theorem lexeme?_eq_some_iff (hp : p.marks.Pairwise Apart) :
    p.lexeme? cs = some w ↔ p.Longest cs w := by
  constructor
  · intro h
    refine ⟨describes_of_lexeme? h, isPrefix_of_lexeme? h, fun v hv hvcs => ?_⟩
    obtain ⟨taken, htaken, hfront⟩ := exists_lexeme?_of_describes hp hv hvcs
    obtain rfl : w = taken := Option.some.inj (h.symm.trans htaken)
    exact hfront.length_le
  · intro h
    obtain ⟨taken, htaken, hfront⟩ := exists_lexeme?_of_describes hp h.describes h.isPrefix
    have hle := h.length_le taken (describes_of_lexeme? htaken) (isPrefix_of_lexeme? htaken)
    rw [htaken, hfront.eq_of_length_le hle]

/-- A pattern takes nothing exactly if the text begins with no member of its class. -/
theorem lexeme?_eq_none_iff (hp : p.marks.Pairwise Apart) :
    p.lexeme? cs = none ↔ ∀ w, w <+: cs → ¬ p.Describes w := by
  constructor
  · intro h w hcs hw
    obtain ⟨taken, htaken, -⟩ := exists_lexeme?_of_describes hp hw hcs
    exact nomatch h.symm.trans htaken
  · intro h
    by_contra hsome
    obtain ⟨taken, htaken⟩ := Option.ne_none_iff_exists'.mp hsome
    exact h taken (isPrefix_of_lexeme? htaken) (describes_of_lexeme? htaken)

/-- A pattern that takes something finds one of its marks. -/
theorem exists_mark_of_lexeme? (h : p.lexeme? cs = some w) : ∃ mark ∈ p.marks, mark <+: cs := by
  obtain ⟨mark, hmark, hw⟩ := exists_mark_of_describes (describes_of_lexeme? h)
  exact ⟨mark, hmark, hw.trans (isPrefix_of_lexeme? h)⟩

/-! ## Changing what follows a lexeme -/

/-- **The longest lexeme stays the longest when the text behind it is cut.** -/
theorem Longest.cut {rest rest' : List Char} (h : p.Longest (w ++ rest) w) (hrest : rest' <+: rest) :
    p.Longest (w ++ rest') w where
  describes := h.describes
  isPrefix := List.prefix_append _ _
  length_le v hv hfront :=
    h.length_le v hv (hfront.trans ((List.prefix_append_right_inj w).mpr hrest))

/-- What names and numbers are made of is no blank. -/
theorem isBlank_eq_false_of_isNamePart {c : Char} (h : isNamePart c ∨ c = '.') :
    Text.isBlank c = false := by
  by_contra hblank
  rw [Bool.not_eq_false] at hblank
  rcases Text.isBlank_iff.mp hblank with rfl | rfl | rfl | rfl <;> exact absurd h (by decide)

theorem isNamePart_of_describes_number {c : Char} (h : number.Describes w) (hc : c ∈ w) :
    isNamePart c ∨ c = '.' := by
  have hdigit : c.isDigit → isNamePart c := by
    intro hdigit
    simp [isNamePart, Char.isAlphanum, hdigit]
  rcases h with ⟨-, hall⟩ | ⟨whole, part, ⟨-, hall⟩, ⟨-, hall'⟩, rfl⟩
  · exact .inl (hdigit (hall c hc))
  · rcases List.mem_append.mp hc with hc | hc
    · exact .inl (hdigit (hall c hc))
    · rcases List.mem_cons.mp hc with rfl | hc
      · exact .inr rfl
      · exact .inl (hdigit (hall' c hc))

/-- Names and numbers apart, no member of a class prolongs another. -/
theorem eq_nil_of_describes_append {more : List Char} (hp : p.marks.Pairwise Apart)
    (hname : p ≠ identifier) (hnumber : p ≠ number) (hw : p.Describes w)
    (hmore : p.Describes (w ++ more)) : more = [] := by
  cases p with
  | words spellings =>
    obtain ⟨spelling, hmem, rfl⟩ := hw
    obtain ⟨spelling', hmem', heq⟩ := hmore
    have hsame := eq_of_isPrefix_of_apart hp (List.mem_map_of_mem hmem) (List.mem_map_of_mem hmem')
      (List.prefix_append _ more) (heq ▸ List.prefix_rfl)
    rw [← hsame] at heq
    exact List.self_eq_append_right.mp heq
  | identifier => exact absurd rfl hname
  | number => exact absurd rfl hnumber
  | quotedText =>
    -- The closing quote of the shorter text would stand inside the longer one.
    obtain ⟨content, -, rfl⟩ := hw
    obtain ⟨content', hcontent', heq⟩ := hmore
    rcases List.eq_nil_or_concat more with rfl | ⟨front, last, rfl⟩
    · rfl
    · refine absurd ?_ hcontent'
      have heq' : content ++ '"' :: front ++ [last] = content' ++ ['"'] := by simpa using heq
      rw [← (List.append_inj' heq' rfl).1]
      exact List.mem_append_right content List.mem_cons_self
  | quotedChar =>
    obtain ⟨d, -, rfl⟩ := hw
    obtain ⟨d', -, heq⟩ := hmore
    have hlength := congrArg List.length heq
    simpa using hlength
  | oneOf chars =>
    obtain ⟨d, -, rfl⟩ := hw
    obtain ⟨d', -, heq⟩ := hmore
    have hlength := congrArg List.length heq
    simpa using hlength

/-- A class prolongs its members only by what names and numbers are made of. -/
theorem isNamePart_of_describes_append {more : List Char} (hp : p.marks.Pairwise Apart)
    (hw : p.Describes w) (hmore : p.Describes (w ++ more)) {c : Char} (hc : c ∈ more) :
    isNamePart c ∨ c = '.' := by
  by_cases hname : p = identifier
  · subst hname
    obtain ⟨d, tail, -, -, rfl⟩ := hw
    obtain ⟨d', tail', -, htail', heq⟩ := hmore
    simp only [List.cons_append, List.cons.injEq, true_and] at heq
    obtain ⟨rfl, rfl⟩ := heq
    exact .inl (htail' c (List.mem_append_right tail hc))
  · by_cases hnumber : p = number
    · subst hnumber
      exact isNamePart_of_describes_number hmore (List.mem_append_right w hc)
    · rw [eq_nil_of_describes_append hp hname hnumber hw hmore] at hc
      exact absurd hc List.not_mem_nil

/-- **The longest lexeme stays the longest when a blank and more text follow.** -/
theorem Longest.append_blank {b : Char} (hp : p.marks.Pairwise Apart) (h : p.Longest cs w)
    (hb : Text.isBlank b) (rest : List Char) : p.Longest (cs ++ b :: rest) w where
  describes := h.describes
  isPrefix := h.isPrefix.trans (List.prefix_append _ _)
  length_le v hv hfront := by
    rcases List.prefix_or_prefix_of_prefix hfront (List.prefix_append cs _) with hcs | ⟨x, rfl⟩
    · exact h.length_le v hv hcs
    · -- A member that reaches beyond the old text would prolong the lexeme over the blank.
      cases x with
      | nil => exact h.length_le _ hv ⟨[], by simp⟩
      | cons b' x =>
        obtain ⟨rfl, -⟩ := List.cons_prefix_cons.mp ((List.prefix_append_right_inj cs).mp hfront)
        obtain ⟨between, rfl⟩ := h.isPrefix
        rw [List.append_assoc] at hv
        have hpart := isNamePart_of_describes_append hp h.describes hv
          (List.mem_append_right between List.mem_cons_self)
        have hvisible := isBlank_eq_false_of_isNamePart hpart
        exact absurd hb (by rw [hvisible]; exact Bool.false_ne_true)

end Pattern

/-! ## The lexicon -/

/-- How the lexemes of a lexicon begin. -/
def Lexicon.marks (lexicon : Lexicon) : List (List Char) :=
  lexicon.flatMap fun entry => entry.2.marks

/-- **A lexicon is unambiguous** if no mark begins another, and none begins with a blank. -/
structure Lexicon.Unambiguous (lexicon : Lexicon) : Prop where
  apart : lexicon.marks.Pairwise Apart
  visible : ∀ mark ∈ lexicon.marks, ∃ c ∈ mark.head?, Text.isBlank c = false

theorem lexicon_unambiguous : lexicon.Unambiguous where
  apart := by decide +kernel
  visible := by
    have hall : (lexicon.marks.all fun mark => mark.head?.any fun c => !Text.isBlank c) = true := by
      decide +kernel
    simpa only [List.all_eq_true, Option.any_eq_true, Bool.not_eq_true', Option.mem_def] using hall

namespace Lexicon

variable {lexicon lexicon' : Lexicon} {entry entry' : Lexeme.Kind × Pattern} {l : Lexeme}

theorem Unambiguous.pattern (h : lexicon.Unambiguous) (hentry : entry ∈ lexicon) :
    entry.2.marks.Pairwise Apart :=
  (List.pairwise_flatMap.mp h.apart).1 entry hentry

/-- **At most one entry fits at a place.** -/
theorem Unambiguous.pairwise (h : lexicon.Unambiguous) (cs : List Char) :
    lexicon.Pairwise fun e e' => e.2.lexeme? cs = none ∨ e'.2.lexeme? cs = none := by
  refine (List.pairwise_flatMap.mp h.apart).2.imp fun {e e'} hapart => ?_
  by_contra hboth
  rw [not_or] at hboth
  obtain ⟨taken, htaken⟩ := Option.ne_none_iff_exists'.mp hboth.1
  obtain ⟨taken', htaken'⟩ := Option.ne_none_iff_exists'.mp hboth.2
  -- Both entries find a mark at the front of the text, and one of the marks begins the other.
  obtain ⟨mark, hmark, hcs⟩ := Pattern.exists_mark_of_lexeme? htaken
  obtain ⟨mark', hmark', hcs'⟩ := Pattern.exists_mark_of_lexeme? htaken'
  have hmarks := hapart mark hmark mark' hmark'
  exact (List.prefix_or_prefix_of_prefix hcs hcs').elim hmarks.1 hmarks.2

/-- At most one word of an entry fits at a place. -/
theorem Unambiguous.pairwise_words (h : lexicon.Unambiguous) {kind : Lexeme.Kind}
    {spellings : List String} (hmem : (kind, Pattern.words spellings) ∈ lexicon) (cs : List Char) :
    spellings.Pairwise fun u v => ¬ (u.toList <+: cs ∧ v.toList <+: cs) := by
  refine (List.pairwise_map.mp (h.pattern hmem)).imp fun {u v} hapart hboth => ?_
  exact (List.prefix_or_prefix_of_prefix hboth.1 hboth.2).elim hapart.1 hapart.2

/-- **The lexicon finds the longest lexeme of the kind that fits.** -/
theorem lexeme?_eq_some_iff (h : lexicon.Unambiguous) :
    lexicon.lexeme? cs = some l ↔
      ∃ p, (l.kind, p) ∈ lexicon ∧ p.Longest cs l.text.toList := by
  constructor
  · intro hl
    obtain ⟨entry, hentry, hkind, htaken⟩ := exists_of_lexeme? hl
    refine ⟨entry.2, hkind ▸ hentry, ?_⟩
    exact (Pattern.lexeme?_eq_some_iff (h.pattern hentry)).mp htaken
  · rintro ⟨p, hmem, hlongest⟩
    have htaken := (Pattern.lexeme?_eq_some_iff (h.pattern hmem)).mpr hlongest
    -- Cut the lexicon at the entry; none of the entries before it fits.
    obtain ⟨front, back, rfl⟩ := List.append_of_mem hmem
    have hfront : front.findSome? (fun entry =>
        (entry.2.lexeme? cs).map fun taken => (⟨entry.1, String.ofList taken⟩ : Lexeme)) = none := by
      refine List.findSome?_eq_none_iff.mpr fun entry hentry => ?_
      have hnone := (List.pairwise_append.mp (h.pairwise cs)).2.2 entry hentry _ List.mem_cons_self
      rw [hnone.resolve_right (by rw [htaken]; exact Option.some_ne_none _), Option.map_none]
    rw [lexeme?, List.findSome?_append, hfront, Option.none_or, List.findSome?_cons, htaken]
    simp

/-- The lexicon finds nothing exactly if the text begins with no member of any class. -/
theorem lexeme?_eq_none_iff (h : lexicon.Unambiguous) :
    lexicon.lexeme? cs = none ↔
      ∀ entry ∈ lexicon, ∀ w, w <+: cs → ¬ entry.2.Describes w := by
  rw [lexeme?, List.findSome?_eq_none_iff]
  refine forall₂_congr fun entry hentry => ?_
  rw [Option.map_eq_none_iff, Pattern.lexeme?_eq_none_iff (h.pattern hentry)]

end Lexicon

/-! ## The order of patterns and words -/

/-- The same pattern, with its words in another order. -/
inductive Pattern.Rearranged : Pattern → Pattern → Prop where
  | words {xs ys : List String} : xs.Perm ys → Rearranged (.words xs) (.words ys)
  | same (p : Pattern) : Rearranged p p

/-- **The same lexicon in another order**: the entries are permuted, and so are the words of each. -/
def Lexicon.Rearranged (lexicon lexicon' : Lexicon) : Prop :=
  ∃ permuted, lexicon.Perm permuted ∧
    List.Forall₂ (fun e e' => e.1 = e'.1 ∧ e.2.Rearranged e'.2) permuted lexicon'

namespace Pattern.Rearranged

variable {p p' : Pattern}

theorem symm (h : p.Rearranged p') : p'.Rearranged p := by
  cases h with
  | words hperm => exact .words hperm.symm
  | same => exact .same _

theorem marks_perm (h : p.Rearranged p') : p.marks.Perm p'.marks := by
  cases h with
  | words hperm => exact hperm.map _
  | same => exact .refl _

theorem describes (h : p.Rearranged p') : p.Describes w ↔ p'.Describes w := by
  cases h with
  | words hperm => simp only [Describes, hperm.mem_iff]
  | same => rfl

theorem longest (h : p.Rearranged p') (hlongest : p.Longest cs w) : p'.Longest cs w where
  describes := h.describes.mp hlongest.describes
  isPrefix := hlongest.isPrefix
  length_le v hv := hlongest.length_le v (h.describes.mpr hv)

end Pattern.Rearranged

namespace Lexicon.Rearranged

variable {lexicon lexicon' : Lexicon}

theorem symm (h : lexicon.Rearranged lexicon') : lexicon'.Rearranged lexicon := by
  obtain ⟨permuted, hperm, hforall⟩ := h
  obtain ⟨permuted', hforall', hperm'⟩ := List.perm_comp_forall₂ hperm hforall
  refine ⟨permuted', hperm'.symm, List.Forall₂.flip (hforall'.imp fun e e' he => ?_)⟩
  exact ⟨he.1.symm, he.2.symm⟩

theorem marks_perm (h : lexicon.Rearranged lexicon') : lexicon.marks.Perm lexicon'.marks := by
  obtain ⟨permuted, hperm, hforall⟩ := h
  refine (hperm.flatMap_right _).trans ?_
  clear hperm
  induction hforall with
  | nil => exact .refl _
  | cons he _ ih =>
    rw [List.flatMap_cons, Lexicon.marks, List.flatMap_cons]
    exact he.2.marks_perm.append ih

theorem unambiguous (h : lexicon.Rearranged lexicon') (hlexicon : lexicon.Unambiguous) :
    lexicon'.Unambiguous where
  apart := (h.marks_perm.pairwise_iff Apart.symm).mp hlexicon.apart
  visible mark hmark := hlexicon.visible mark (h.marks_perm.mem_iff.mpr hmark)

/-- Every entry has a counterpart. -/
theorem exists_mem (h : lexicon.Rearranged lexicon') {kind : Lexeme.Kind} {p : Pattern}
    (hmem : (kind, p) ∈ lexicon) : ∃ p', p.Rearranged p' ∧ (kind, p') ∈ lexicon' := by
  obtain ⟨permuted, hperm, hforall⟩ := h
  replace hmem := hperm.mem_iff.mp hmem
  clear hperm
  induction hforall with
  | nil => exact absurd hmem List.not_mem_nil
  | @cons e e' _ _ he _ ih =>
    rcases List.mem_cons.mp hmem with rfl | hmem
    · exact ⟨e'.2, he.2, List.mem_cons.mpr (.inl (Prod.ext he.1 rfl))⟩
    · obtain ⟨p', hp', hmem'⟩ := ih hmem
      exact ⟨p', hp', List.mem_cons_of_mem _ hmem'⟩

theorem lexeme?_of_eq_some (h : lexicon.Rearranged lexicon') (hlexicon : lexicon.Unambiguous)
    {l : Lexeme} (hl : lexicon.lexeme? cs = some l) : lexicon'.lexeme? cs = some l := by
  obtain ⟨p, hmem, hlongest⟩ := (lexeme?_eq_some_iff hlexicon).mp hl
  obtain ⟨p', hp, hmem'⟩ := h.exists_mem hmem
  exact (lexeme?_eq_some_iff (h.unambiguous hlexicon)).mpr ⟨p', hmem', hp.longest hlongest⟩

end Lexicon.Rearranged

/-- **The order of patterns and words does not matter** for the lexeme that is found. -/
theorem Lexicon.lexeme?_rearranged {lexicon lexicon' : Lexicon} (h : lexicon.Rearranged lexicon')
    (hlexicon : lexicon.Unambiguous) (cs : List Char) :
    lexicon'.lexeme? cs = lexicon.lexeme? cs := by
  refine Option.ext fun l => ⟨fun hl => ?_, h.lexeme?_of_eq_some hlexicon⟩
  exact h.symm.lexeme?_of_eq_some (h.unambiguous hlexicon) hl

end Brew
