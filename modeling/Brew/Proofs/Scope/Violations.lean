import Mathlib.Data.List.Nodup
import Brew.Scope.Event

/-!
# Sequences of events that break no rule

A walk over a program goes through its events one by one.  So that it can be cut into parts, what is
said about a whole sequence of events is said here about a sequence that follows some earlier ones:
the sequence is **clean** if none of its events breaks a rule, and otherwise one of them is the
first to break one.  Both notions go through concatenation, and the program is well scoped exactly
if its events are clean.

## Main definitions

* `Event.Clean`: no event of a sequence breaks a rule
* `Event.FirstBreak`: the first event of a sequence that breaks a rule

## Main results

* `Event.Means.cons_iff`: a name that an inner scope does not declare means what it means outside
* `Event.Breaks.unique`, `Event.FirstBreak.unique`: at most one rule is broken first
* `wellScoped_iff_clean`: lexical scoping in terms of broken rules
-/

namespace Brew

namespace Event

variable {earlier : List Event} {scope : Address} {name : String} {kind kind' : Symbol.Kind}

/-! ## Meanings -/

/-- A name that a scope declares has this meaning there. -/
theorem Declared.means (h : Declared earlier scope name kind) : Means earlier scope name kind := by
  refine ⟨scope, List.suffix_rfl, h, ?_⟩
  intro inner hinner hlength
  have hle := hinner.length_le
  omega

theorem means_nil : Means earlier [] name kind ↔ Declared earlier [] name kind := by
  refine ⟨?_, Declared.means⟩
  rintro ⟨home, hhome, hdeclared, -⟩
  rwa [List.suffix_nil.1 hhome] at hdeclared

/-- **Looking outward.**  A name that a scope does not declare means there what it means in the
scope around it. -/
theorem Means.cons_iff {k : Nat} (h : ∀ kind, ¬ Declared earlier (k :: scope) name kind) :
    Means earlier (k :: scope) name kind ↔ Means earlier scope name kind := by
  constructor
  · rintro ⟨home, hhome, hdeclared, hinner⟩
    rcases List.suffix_cons_iff.1 hhome with rfl | hhome
    · exact absurd hdeclared (h kind)
    · exact ⟨home, hhome, hdeclared, fun inner hsuffix =>
        hinner inner (hsuffix.trans (List.suffix_cons k scope))⟩
  · rintro ⟨home, hhome, hdeclared, hinner⟩
    refine ⟨home, hhome.trans (List.suffix_cons k scope), hdeclared, ?_⟩
    intro inner hsuffix hlength
    rcases List.suffix_cons_iff.1 hsuffix with rfl | hsuffix
    · exact h
    · exact hinner inner hsuffix hlength

/-- A name that a scope declares has no other meaning there. -/
theorem means_iff_declared (h : Declared earlier scope name kind') :
    Means earlier scope name kind ↔ Declared earlier scope name kind := by
  refine ⟨?_, Declared.means⟩
  rintro ⟨home, hhome, hdeclared, hinner⟩
  by_cases hlength : home.length < scope.length
  · exact absurd h (hinner scope List.suffix_rfl hlength kind')
  · rwa [← hhome.eq_of_length_le (Nat.le_of_not_lt hlength)]

/-- A name has a meaning at a place if it is declared in a scope around it. -/
theorem exists_means {home : Address} (hhome : home <:+ scope)
    (h : Declared earlier home name kind) : ∃ kind', Means earlier scope name kind' := by
  induction scope with
  | nil =>
    obtain rfl := List.suffix_nil.1 hhome
    exact ⟨kind, h.means⟩
  | cons k scope ih =>
    -- The innermost scope decides if it has the name; if not, the scopes around it do.
    by_cases hdeclared : ∃ kind', Declared earlier (k :: scope) name kind'
    · obtain ⟨kind', hdeclared⟩ := hdeclared
      exact ⟨kind', hdeclared.means⟩
    · have hnone : ∀ kind', ¬ Declared earlier (k :: scope) name kind' := not_exists.1 hdeclared
      rcases List.suffix_cons_iff.1 hhome with rfl | hhome
      · exact absurd h (hnone kind)
      · obtain ⟨kind', hmeans⟩ := ih hhome
        exact ⟨kind', (Means.cons_iff hnone).2 hmeans⟩

/-- A name has at most one meaning if every scope declares it at most once. -/
theorem Means.unique
    (honce : ∀ home kind kind', Declared earlier home name kind → Declared earlier home name kind' →
      kind = kind')
    (h : Means earlier scope name kind) (h' : Means earlier scope name kind') : kind = kind' := by
  obtain ⟨home, hhome, hdeclared, hinner⟩ := h
  obtain ⟨home', hhome', hdeclared', hinner'⟩ := h'
  -- Both scopes are suffixes of one address, so the longer one is the inner one.
  rcases Nat.lt_trichotomy home.length home'.length with hlt | heq | hgt
  · exact absurd hdeclared' (hinner home' hhome' hlt kind')
  · obtain rfl : home = home' :=
      (List.suffix_of_suffix_length_le hhome hhome' (Nat.le_of_eq heq)).eq_of_length heq
    exact honce _ _ _ hdeclared hdeclared'
  · exact absurd hdeclared (hinner' home hhome hgt kind)

/-! ## Broken rules -/

/-- An event breaks at most one rule. -/
theorem Breaks.unique {e : Event} {v v' : Violation} (h : Breaks earlier e v)
    (h' : Breaks earlier e v') : v = v' := by
  cases h with
  | duplicate _ =>
    cases h'
    rfl
  | strayReturn =>
    cases h'
    rfl
  | undeclared hnone =>
    cases h' with
    | undeclared _ => rfl
    | notAVariable hmeans =>
      obtain ⟨home, hhome, hdeclared, -⟩ := hmeans
      exact absurd hdeclared (hnone home hhome _)
  | notAVariable hmeans =>
    cases h' with
    | notAVariable _ => rfl
    | undeclared hnone =>
      obtain ⟨home, hhome, hdeclared, -⟩ := hmeans
      exact absurd hdeclared (hnone home hhome _)

/-! ## Clean sequences -/

/-- No event of a sequence breaks a rule, given the events before the sequence. -/
def Clean : List Event → List Event → Prop
  | _, [] => True
  | earlier, e :: es => (∀ v, ¬ Breaks earlier e v) ∧ Clean (earlier ++ [e]) es

/-- The rule that is broken first in a sequence, given the events before the sequence. -/
def FirstBreak (earlier es : List Event) (v : Violation) : Prop :=
  ∃ front e back, es = front ++ e :: back ∧ Breaks (earlier ++ front) e v ∧ Clean earlier front

variable {es xs ys : List Event} {e : Event} {v v' : Violation}

theorem clean_append : Clean earlier (xs ++ ys) ↔ Clean earlier xs ∧ Clean (earlier ++ xs) ys := by
  induction xs generalizing earlier with
  | nil => simp [Clean]
  | cons x xs ih => rw [List.cons_append, Clean, Clean, ih, and_assoc, ← List.append_cons]

/-- A sequence is clean if wherever it is cut, the next event breaks no rule. -/
theorem clean_iff : Clean earlier es ↔
    ∀ front e back, es = front ++ e :: back → ∀ v, ¬ Breaks (earlier ++ front) e v := by
  constructor
  · rintro h front e back rfl
    exact (clean_append.1 h).2.1
  · intro h
    induction es generalizing earlier with
    | nil => trivial
    | cons e es ih =>
      refine ⟨fun v => ?_, ih fun front e' back hsplit v => ?_⟩
      · have hfirst := h [] e es rfl v
        rwa [List.append_nil] at hfirst
      · rw [← List.append_cons]
        exact h (e :: front) e' back (by rw [hsplit]; rfl) v

theorem FirstBreak.singleton (h : Breaks earlier e v) : FirstBreak earlier [e] v :=
  ⟨[], e, [], rfl, by rwa [List.append_nil], trivial⟩

theorem FirstBreak.left (h : FirstBreak earlier xs v) (ys : List Event) :
    FirstBreak earlier (xs ++ ys) v := by
  obtain ⟨front, e, back, rfl, hbreaks, hclean⟩ := h
  exact ⟨front, e, back ++ ys, by rw [List.append_assoc]; rfl, hbreaks, hclean⟩

theorem FirstBreak.right (hxs : Clean earlier xs) (h : FirstBreak (earlier ++ xs) ys v) :
    FirstBreak earlier (xs ++ ys) v := by
  obtain ⟨front, e, back, rfl, hbreaks, hclean⟩ := h
  refine ⟨xs ++ front, e, back, by rw [List.append_assoc], ?_, clean_append.2 ⟨hxs, hclean⟩⟩
  rwa [← List.append_assoc]

theorem firstBroken_iff_firstBreak : FirstBroken es v ↔ FirstBreak [] es v := by
  unfold FirstBroken FirstBreak
  simp only [clean_iff, List.nil_append]

/-- A clean sequence has no first broken rule. -/
theorem FirstBreak.not_clean (h : FirstBreak earlier es v) : ¬ Clean earlier es := by
  obtain ⟨front, e, back, rfl, hbreaks, -⟩ := h
  intro hclean
  exact (clean_append.1 hclean).2.1 v hbreaks

/-- **At most one rule is broken first.** -/
theorem FirstBreak.unique (h : FirstBreak earlier es v) (h' : FirstBreak earlier es v') :
    v = v' := by
  obtain ⟨front, e, back, rfl, hbreaks, hclean⟩ := h
  obtain ⟨front', e', back', hsplit, hbreaks', hclean'⟩ := h'
  -- If one of the two cuts came first, its event would stand in the clean part of the other.
  rcases List.append_eq_append_iff.1 hsplit with ⟨mid, rfl, hmid⟩ | ⟨mid, rfl, hmid⟩
  · rcases List.cons_eq_append_iff.1 hmid with ⟨rfl, hcons⟩ | ⟨rest, rfl, -⟩
    · obtain ⟨rfl, -⟩ := List.cons.inj hcons
      rw [List.append_nil] at hbreaks'
      exact hbreaks.unique hbreaks'
    · exact absurd hbreaks ((clean_append.1 hclean').2.1 v)
  · rcases List.cons_eq_append_iff.1 hmid with ⟨rfl, hcons⟩ | ⟨rest, rfl, -⟩
    · obtain ⟨rfl, -⟩ := List.cons.inj hcons
      rw [List.append_nil] at hbreaks
      exact hbreaks.unique hbreaks'
    · exact absurd hbreaks' ((clean_append.1 hclean).2.1 v')

/-! ## Declarations -/

theorem declaredIn?_eq_some_iff :
    declaredIn? scope e = some name ↔ ∃ kind, e = ⟨scope, .declares name kind⟩ := by
  obtain ⟨scope', act⟩ := e
  cases act with
  | declares name' kind => simp [declaredIn?, and_comm]
  | uses _ => simp [declaredIn?]
  | returns _ => simp [declaredIn?]

theorem mem_declaredIn? :
    name ∈ es.filterMap (declaredIn? scope) ↔ ∃ kind, Declared es scope name kind := by
  simp only [List.mem_filterMap, declaredIn?_eq_some_iff]
  constructor
  · rintro ⟨_, hmem, kind, rfl⟩
    exact ⟨kind, hmem⟩
  · rintro ⟨kind, hmem⟩
    exact ⟨_, hmem, kind, rfl⟩

/-- If a scope declares no name twice, a declaration has none of the same name before it. -/
theorem not_declared_of_nodup (h : (es.filterMap (declaredIn? scope)).Nodup) {later : List Event}
    (hsplit : es = earlier ++ ⟨scope, .declares name kind⟩ :: later) (other : Symbol.Kind) :
    ¬ Declared earlier scope name other := by
  intro hdeclared
  have hname : declaredIn? scope ⟨scope, .declares name kind⟩ = some name :=
    declaredIn?_eq_some_iff.2 ⟨kind, rfl⟩
  rw [hsplit, List.filterMap_append, List.filterMap_cons_some hname] at h
  exact List.disjoint_of_nodup_append h (mem_declaredIn?.2 ⟨other, hdeclared⟩) List.mem_cons_self

/-- If a scope declares no name twice, it declares each name in one way. -/
theorem Declared.unique (honce : (es.filterMap (declaredIn? scope)).Nodup)
    (h : Declared es scope name kind) (h' : Declared es scope name kind') : kind = kind' := by
  -- Cut the sequence at the first declaration and look where the second one stands.
  obtain ⟨front, back, rfl⟩ := List.append_of_mem h
  rcases List.mem_append.1 h' with hfront | hback
  · exact absurd hfront (not_declared_of_nodup honce rfl kind')
  · rcases List.mem_cons.1 hback with heq | hback
    · cases heq
      rfl
    · obtain ⟨mid, rest, rfl⟩ := List.append_of_mem hback
      rw [← List.cons_append, ← List.append_assoc] at honce
      refine absurd ?_ (not_declared_of_nodup honce rfl kind)
      exact List.mem_append_right front List.mem_cons_self

/-- A clean sequence declares no name for the second time. -/
theorem Clean.nodup_declared (h : Clean earlier es)
    (hearlier : (earlier.filterMap (declaredIn? scope)).Nodup) :
    ((earlier ++ es).filterMap (declaredIn? scope)).Nodup := by
  induction es generalizing earlier with
  | nil => rwa [List.append_nil]
  | cons e es ih =>
    obtain ⟨he, hes⟩ := h
    -- Move the event over to the earlier ones, among which its name must be new.
    rw [List.append_cons]
    refine ih hes ?_
    rw [List.filterMap_append]
    cases hname : declaredIn? scope e with
    | none =>
      rw [List.filterMap_cons_none hname, List.filterMap_nil, List.append_nil]
      exact hearlier
    | some name =>
      rw [List.filterMap_cons_some hname, List.filterMap_nil, ← List.concat_eq_append]
      refine hearlier.concat ?_
      intro hmem
      obtain ⟨kind, rfl⟩ := declaredIn?_eq_some_iff.1 hname
      obtain ⟨other, hdeclared⟩ := mem_declaredIn?.1 hmem
      exact he _ (.duplicate hdeclared)

end Event

/-- **A program is well scoped exactly if its events break no rule.** -/
theorem wellScoped_iff_clean (program : List Stmt) :
    WellScoped program ↔ Event.Clean [] (events program) := by
  constructor
  · intro h
    refine Event.clean_iff.2 fun front e back hsplit v hbreaks => ?_
    rw [List.nil_append] at hbreaks
    cases hbreaks with
    | duplicate hdeclared =>
      exact Event.not_declared_of_nodup (h.declaresOnce _) hsplit _ hdeclared
    | undeclared hnone =>
      obtain ⟨kind, -, home, hhome, hdeclared, -⟩ := h.usesVisible _ _ _ _ hsplit
      exact hnone home hhome kind hdeclared
    | notAVariable hmeans =>
      -- The name would have two meanings, but no scope so far declares it twice.
      obtain ⟨kind, hkind, hmeans'⟩ := h.usesVisible _ _ _ _ hsplit
      refine hkind (Event.Means.unique (fun home _ _ hdeclared => ?_) hmeans' hmeans)
      refine Event.Declared.unique ?_ hdeclared
      have honce := h.declaresOnce home
      rw [hsplit, List.filterMap_append] at honce
      exact honce.of_append_left
    | @strayReturn scope =>
      have hmem : ⟨scope, .returns false⟩ ∈ events program := by
        rw [hsplit]
        exact List.mem_append_right front List.mem_cons_self
      exact absurd (h.returnsInside _ _ hmem) Bool.false_ne_true
  · intro h
    have hcut := Event.clean_iff.1 h
    refine ⟨fun scope => h.nodup_declared List.nodup_nil, ?_, ?_⟩
    · intro earlier later scope name hsplit
      have hnot : ∀ v, ¬ Event.Breaks earlier ⟨scope, .uses name⟩ v := hcut earlier _ later hsplit
      -- A name that is declared around the place has a meaning, and it is not a function.
      by_cases hdeclared : ∃ home, home <:+ scope ∧ ∃ kind, Event.Declared earlier home name kind
      · obtain ⟨home, hhome, kind, hdeclared⟩ := hdeclared
        obtain ⟨kind', hmeans⟩ := Event.exists_means hhome hdeclared
        refine ⟨kind', ?_, hmeans⟩
        rintro rfl
        exact hnot _ (.notAVariable hmeans)
      · refine absurd (Event.Breaks.undeclared ?_) (hnot (.undeclared name))
        intro home hhome kind hhomeDeclared
        exact hdeclared ⟨home, hhome, kind, hhomeDeclared⟩
    · intro scope inside hmem
      obtain ⟨front, back, hsplit⟩ := List.append_of_mem hmem
      cases inside with
      | true => rfl
      | false => exact absurd .strayReturn (hcut front _ back hsplit .strayReturn)

end Brew
