import Brew.Proofs.Scope.Violations
import Brew.Scope.Check

/-!
# The checker follows the events

The checker keeps a chain of tables and forgets each table at the end of its scope; the events keep
the address of every declaration for ever.  The two views agree: at every moment of the walk, the
tables of the open scopes record what the events so far have declared in these scopes, and the
addresses of the scopes to come are fresh.  So the checker accepts exactly the programs whose events
break no rule, and otherwise it reports the rule that is broken first.

## Main definitions

* `Recorded`: the chain of tables records what was declared in the scopes around a place
* `Checker.Stands`: the checker stands at a place, after some events
* `CheckM.Walks`: a part of the walk goes through some events of a scope

## Main results

* `Recorded.means_iff`: the chain of tables knows the meaning of every name
* `Stmt.walks_all`: the checks of a statement and of a block walk through their events
* `check_eq_ok_iff_wellScoped`: the checker decides lexical scoping and reports the first violation
-/

namespace Brew

open Event (Declared Means Breaks Clean FirstBreak)

variable {earlier es : List Event} {scope : Address} {name : String} {kind : Symbol.Kind}

/-! ## Tables and declarations -/

theorem Event.declared_snoc {home : Address} {other : String} {kind' : Symbol.Kind} :
    Declared (earlier ++ [⟨scope, .declares name kind⟩]) home other kind' ↔
      Declared earlier home other kind' ∨ home = scope ∧ other = name ∧ kind' = kind := by
  rw [Declared, List.mem_append, List.mem_singleton, Event.mk.injEq, Act.declares.injEq]
  rfl

/-- A table records what was declared in a scope. -/
def Table.Records (earlier : List Event) (scope : Address) (table : Table) : Prop :=
  ∀ name kind, Declared earlier scope name kind ↔ (table.lookup name).map Symbol.kind = some kind

/-- **The chain of tables records the declarations** in a scope and in the scopes around it. -/
inductive Recorded (earlier : List Event) : Address → Scopes → Prop where
  | global {table : Table} : table.Records earlier [] → Recorded earlier [] ⟨table, []⟩
  | inner {k : Nat} {scope : Address} {table : Table} {s : Scopes} :
    table.Records earlier (k :: scope) → Recorded earlier scope s →
    Recorded earlier (k :: scope) ⟨table, s.innermost :: s.enclosing⟩

namespace Table

variable {table : Table}

/-- Events that declare nothing in a scope change nothing for its table. -/
theorem Records.append (h : table.Records earlier scope)
    (hes : ∀ name kind, ¬ Declared es scope name kind) : table.Records (earlier ++ es) scope := by
  intro name kind
  rw [← h name kind]
  constructor
  · intro hdeclared
    rcases List.mem_append.1 hdeclared with hearlier | hlater
    · exact hearlier
    · exact absurd hlater (hes name kind)
  · exact List.mem_append_left es

theorem Records.not_declared (h : table.Records earlier scope) (hname : table.lookup name = none) :
    ¬ Declared earlier scope name kind := by
  rw [h name kind, hname]
  exact fun hkind => nomatch hkind

/-- A new declaration becomes a new entry. -/
theorem Records.declare (h : table.Records earlier scope) (hname : table.lookup name = none)
    (symbol : Symbol) :
    Table.Records (earlier ++ [⟨scope, .declares name symbol.kind⟩]) scope
      ((name, symbol) :: table) := by
  intro other kind
  rw [Event.declared_snoc, List.lookup_cons]
  by_cases hother : other = name
  · -- Its entry is the new one, and there was no declaration before.
    subst hother
    have hnot : ¬ Declared earlier scope other kind := h.not_declared hname
    rw [beq_self_eq_true]
    constructor
    · rintro (hdeclared | ⟨-, -, rfl⟩)
      · exact absurd hdeclared hnot
      · rfl
    · intro hkind
      exact .inr ⟨rfl, rfl, (Option.some.inj hkind).symm⟩
  · rw [beq_eq_false_iff_ne.2 hother, ← h other kind]
    exact or_iff_left fun hnew => hother hnew.2.1

end Table

namespace Recorded

variable {s : Scopes}

/-- Events that declare nothing around a place change nothing for its chain. -/
theorem append (h : Recorded earlier scope s)
    (hes : ∀ home, home <:+ scope → ∀ name kind, ¬ Declared es home name kind) :
    Recorded (earlier ++ es) scope s := by
  induction h with
  | global htable => exact .global (htable.append (hes [] List.suffix_rfl))
  | @inner k scope _ _ htable hs ih =>
    refine .inner (htable.append (hes _ List.suffix_rfl)) (ih fun home hhome => ?_)
    exact hes home (hhome.trans (List.suffix_cons k scope))

/-- A declaration in the innermost scope. -/
theorem define (h : Recorded earlier scope s) {symbol : Symbol} {t : Scopes}
    (hdefine : s.define name symbol = some t) :
    Recorded (earlier ++ [⟨scope, .declares name symbol.kind⟩]) scope t := by
  obtain ⟨hname, rfl⟩ := Scopes.define_eq_some_iff.1 hdefine
  cases h with
  | global htable => exact .global (htable.declare hname symbol)
  | inner htable hs =>
    refine .inner (htable.declare hname symbol) ?_
    refine hs.append fun home hhome other kind hdeclared => ?_
    -- The new declaration stands in the innermost scope and not in one around it.
    cases List.mem_singleton.1 hdeclared
    have hle := hhome.length_le
    rw [List.length_cons] at hle
    omega

theorem innermost (h : Recorded earlier scope s) : s.innermost.Records earlier scope := by
  cases h with
  | global htable => exact htable
  | inner htable _ => exact htable

/-- The innermost scope is left. -/
theorem leave {k : Nat} (h : Recorded earlier (k :: scope) s) : Recorded earlier scope s.leave := by
  cases h with
  | inner _ hs => exact hs

/-- **The chain of tables knows the meaning of every name.** -/
theorem means_iff (h : Recorded earlier scope s) :
    Means earlier scope name kind ↔ (s.find? name).map Symbol.kind = some kind := by
  induction h with
  | @global table htable =>
    rw [Event.means_nil, htable name kind, Scopes.find?, List.findSome?_singleton]
  | @inner k scope table s htable hs ih =>
    unfold Scopes.find? at ih ⊢
    rw [List.findSome?_cons]
    -- The table of the innermost scope decides if it has an entry, as the declarations do.
    cases hname : table.lookup name with
    | none =>
      rw [Event.Means.cons_iff fun kind => htable.not_declared hname]
      exact ih
    | some symbol =>
      have hdeclared : Declared earlier (k :: scope) name symbol.kind := by
        rw [htable name symbol.kind, hname]
        rfl
      rw [Event.means_iff_declared hdeclared, htable name kind, hname]

end Recorded

/-! ## Where the checker stands -/

/-- **The checker stands at a place**, after some events: its tables record the declarations around
the place, none of the events has happened in an inner scope numbered `next` or more, and the place
has the given number of functions around it. -/
structure Checker.Stands (earlier : List Event) (scope : Address) (next depth : Nat) (c : Checker) :
    Prop where
  recorded : Recorded earlier scope c.scopes
  fresh : ∀ e ∈ earlier, ∀ k, next ≤ k → ¬ (k :: scope) <:+ e.scope
  depth_eq : c.functionDepth = depth

namespace Checker.Stands

variable {c c' : Checker} {act : Act} {k first next depth : Nat}

theorem initial : Checker.initial.Stands [] [] 0 0 where
  recorded := by
    refine .global fun name kind => ?_
    exact iff_of_false List.not_mem_nil fun hkind => nomatch hkind
  fresh _ h := absurd h List.not_mem_nil
  depth_eq := rfl

/-- Something happens in the scope where the checker stands. -/
theorem snoc (h : c.Stands earlier scope next depth)
    (hrecorded : Recorded (earlier ++ [⟨scope, act⟩]) scope c'.scopes)
    (hdepth : c'.functionDepth = c.functionDepth) :
    c'.Stands (earlier ++ [⟨scope, act⟩]) scope next depth where
  recorded := hrecorded
  fresh := by
    intro e he k hk hsuffix
    rcases List.mem_append.1 he with he | he
    · exact h.fresh e he k hk hsuffix
    · -- The new event happened in the scope itself and not in one inside it.
      cases List.mem_singleton.1 he
      have hle : scope.length + 1 ≤ scope.length := hsuffix.length_le
      omega
  depth_eq := hdepth.trans h.depth_eq

/-- Something happens that declares no name. -/
theorem snoc_of_ne (h : c.Stands earlier scope next depth)
    (hact : ∀ name kind, act ≠ .declares name kind) (hscopes : c'.scopes = c.scopes)
    (hdepth : c'.functionDepth = c.functionDepth) :
    c'.Stands (earlier ++ [⟨scope, act⟩]) scope next depth := by
  refine h.snoc ?_ hdepth
  rw [hscopes]
  refine h.recorded.append fun home hhome name kind hdeclared => ?_
  have heq := List.mem_singleton.1 hdeclared
  exact hact name kind (congrArg Event.act heq).symm

/-- A new scope is entered. -/
theorem enter (h : c.Stands earlier scope first depth) (hk : first ≤ k) (notes : List CheckNote) :
    Checker.Stands earlier (k :: scope) 0 depth { c with scopes := c.scopes.enter, notes } where
  recorded := by
    refine .inner (fun name kind => ?_) h.recorded
    -- The table of the new scope is empty, and its address is fresh.
    refine iff_of_false (fun hdeclared => ?_) fun hkind => nomatch hkind
    exact h.fresh _ hdeclared k hk List.suffix_rfl
  fresh e he j _ hsuffix := h.fresh e he k hk ((List.suffix_cons j _).trans hsuffix)
  depth_eq := h.depth_eq

/-- A scope is left after some events in it. -/
theorem leave (h : c.Stands earlier scope first depth)
    (h' : c'.Stands (earlier ++ es) (k :: scope) next depth)
    (hes : ∀ e ∈ es, (k :: scope) <:+ e.scope) {last : Nat} (hfirst : first ≤ last)
    (hlast : k < last) :
    Checker.Stands (earlier ++ es) scope last depth { c' with scopes := c'.scopes.leave } where
  recorded := h'.recorded.leave
  fresh := by
    intro e he j hj hsuffix
    rcases List.mem_append.1 he with he | he
    · exact h.fresh e he j (Nat.le_trans hfirst hj) hsuffix
    · -- The event happened in the scope numbered `k`, and an address has one suffix of each length.
      have heq : j :: scope = k :: scope :=
        (List.suffix_of_suffix_length_le hsuffix (hes e he) (Nat.le_refl _)).eq_of_length rfl
      have hjk := (List.cons.inj heq).1
      omega
  depth_eq := h'.depth_eq

end Checker.Stands

/-! ## Parts of the walk -/

/-- What a part of the walk says about the events it goes through: if it comes to its end, none of
them has broken a rule, and the checker stands after them; if it stops, it names the rule that was
broken first. -/
def CheckM.Verdict (earlier es : List Event) (scope : Address) (next depth : Nat) :
    EStateM.Result Violation Checker Unit → Prop
  | .ok _ c => Clean earlier es ∧ c.Stands (earlier ++ es) scope next depth
  | .error v _ => FirstBreak earlier es v

/-- **A part of the walk goes through some events** of a scope and of the scopes inside it numbered
from `first` to before `next`. -/
structure CheckM.Walks (x : CheckM Unit) (scope : Address) (depth first next : Nat)
    (es : List Event) : Prop where
  within : ∀ e ∈ es, scope <:+ e.scope
  verdict : ∀ {earlier : List Event} {c : Checker}, c.Stands earlier scope first depth →
    Verdict earlier es scope next depth (x.run c)

namespace CheckM

variable {x y : CheckM Unit} {k depth first mid next : Nat} {xs ys : List Event}

theorem Verdict.prepend {r : EStateM.Result Violation Checker Unit} (hclean : Clean earlier xs)
    (h : Verdict (earlier ++ xs) ys scope next depth r) :
    Verdict earlier (xs ++ ys) scope next depth r := by
  cases r with
  | error v c => exact FirstBreak.right hclean h
  | ok _ c =>
    obtain ⟨hys, hstands⟩ := h
    rw [List.append_assoc] at hstands
    exact ⟨Event.clean_append.2 ⟨hclean, hys⟩, hstands⟩

namespace Walks

theorem pure : Walks (Pure.pure ()) scope depth first first [] where
  within _ h := absurd h List.not_mem_nil
  verdict {earlier c} h := by
    refine ⟨trivial, ?_⟩
    rwa [List.append_nil]

/-- Two parts of the walk, one after the other. -/
theorem bind (hx : x.Walks scope depth first mid xs) (hy : y.Walks scope depth mid next ys) :
    Walks (x >>= fun _ => y) scope depth first next (xs ++ ys) where
  within e he := by
    rcases List.mem_append.1 he with he | he
    · exact hx.within e he
    · exact hy.within e he
  verdict {earlier c} h := by
    have hverdict := hx.verdict h
    rw [EStateM.run_bind]
    cases hrun : x.run c with
    | error v c' =>
      -- The walk has stopped, and what it found is the first thing in the longer sequence too.
      rw [hrun] at hverdict
      exact hverdict.left ys
    | ok _ c' =>
      rw [hrun] at hverdict
      obtain ⟨hclean, hstands⟩ := hverdict
      exact (hy.verdict hstands).prepend hclean

/-- The scopes numbered up to `mid` are left unused. -/
theorem mono (h : x.Walks scope depth first next es) (hle : next ≤ mid) :
    x.Walks scope depth first mid es where
  within := h.within
  verdict {earlier c} hstands := by
    have hverdict := h.verdict hstands
    cases hrun : x.run c with
    | error v c' =>
      rw [hrun] at hverdict
      exact hverdict
    | ok _ c' =>
      rw [hrun] at hverdict
      obtain ⟨hclean, hrecorded, hfresh, hdepth⟩ := hverdict
      exact ⟨hclean, hrecorded, fun e he k hk => hfresh e he k (Nat.le_trans hle hk), hdepth⟩

/-- Something is done for each member of a list. -/
theorem forM {α : Type} {f : α → CheckM Unit} {g : α → Event} (l : List α)
    (h : ∀ a, (f a).Walks scope depth first first [g a]) :
    Walks (l.forM f) scope depth first first (l.map g) := by
  induction l with
  | nil => exact pure
  | cons a l ih => exact (h a).bind ih

/-- A part of the walk that goes through one event. -/
theorem single {act : Act} (h : ∀ {earlier : List Event} {c : Checker},
      c.Stands earlier scope first depth →
      Verdict earlier [⟨scope, act⟩] scope first depth (x.run c)) :
    x.Walks scope depth first first [⟨scope, act⟩] where
  within e he := by
    cases List.mem_singleton.1 he
    exact List.suffix_rfl
  verdict := h

theorem declare (name : String) (symbol : Symbol) :
    Walks (CheckM.declare name symbol) scope depth first first
      [⟨scope, .declares name symbol.kind⟩] := by
  refine single fun {earlier c} h => ?_
  have hrecords := h.recorded.innermost name
  rw [run_declare]
  cases hdefine : c.scopes.define name symbol with
  | some scopes =>
    -- The innermost scope does not have the name, so nothing is declared twice.
    obtain ⟨hname, -⟩ := Scopes.define_eq_some_iff.1 hdefine
    refine ⟨⟨?_, trivial⟩, h.snoc (h.recorded.define hdefine) rfl⟩
    intro v hbreaks
    cases hbreaks with
    | duplicate hdeclared => exact h.recorded.innermost.not_declared hname hdeclared
  | none =>
    obtain ⟨other, hother⟩ := Scopes.define_eq_none_iff.1 hdefine
    refine FirstBreak.singleton (.duplicate ((hrecords other.kind).2 ?_))
    rw [hother]
    rfl

theorem resolve (name : String) :
    Walks (CheckM.resolve name) scope depth first first [⟨scope, .uses name⟩] := by
  refine single fun {earlier c} h => ?_
  have hmeans : ∀ kind, Means earlier scope name kind ↔
      (c.scopes.find? name).map Symbol.kind = some kind := fun _ => h.recorded.means_iff
  rw [run_resolve]
  cases hfind : c.scopes.find? name with
  | none =>
    simp only [hfind] at hmeans
    refine FirstBreak.singleton (.undeclared fun home hhome kind hdeclared => ?_)
    obtain ⟨kind', hkind⟩ := Event.exists_means hhome hdeclared
    exact nomatch (hmeans kind').1 hkind
  | some symbol =>
    simp only [hfind, Option.map_some, Option.some.injEq] at hmeans
    dsimp only
    by_cases hfunction : symbol.kind = .function
    · rw [if_pos hfunction]
      exact FirstBreak.singleton (.notAVariable ((hmeans _).2 hfunction))
    · -- The name has this one meaning, so it is neither undeclared nor a function.
      rw [if_neg hfunction]
      refine ⟨⟨?_, trivial⟩, h.snoc_of_ne (fun _ _ heq => nomatch heq) rfl rfl⟩
      intro v hbreaks
      cases hbreaks with
      | undeclared hnone =>
        obtain ⟨home, hhome, hdeclared, -⟩ := (hmeans symbol.kind).2 rfl
        exact hnone home hhome _ hdeclared
      | notAVariable hmeans' => exact hfunction ((hmeans _).1 hmeans')

theorem requireFunction :
    Walks CheckM.requireFunction scope depth first first [⟨scope, .returns (depth != 0)⟩] := by
  refine single fun {earlier c} h => ?_
  rw [run_requireFunction, h.depth_eq]
  cases depth with
  | zero => exact FirstBreak.singleton .strayReturn
  | succ depth =>
    rw [if_neg (Nat.succ_ne_zero depth)]
    refine ⟨⟨?_, trivial⟩, h.snoc_of_ne (fun _ _ heq => nomatch heq) rfl rfl⟩
    intro v hbreaks
    cases hbreaks

/-- A part of the walk inside a new scope. -/
theorem inScope (h : x.Walks (k :: scope) depth 0 next es) {last : Nat} (hfirst : first ≤ k)
    (hlast : k < last) : Walks (CheckM.inScope x) scope depth first last es where
  within e he := (List.suffix_cons k scope).trans (h.within e he)
  verdict {earlier c} hstands := by
    have hverdict := h.verdict (hstands.enter hfirst (.entered c.scopes.enter.depth :: c.notes))
    rw [run_inScope]
    cases hrun : x.run { c with
        scopes := c.scopes.enter, notes := .entered c.scopes.enter.depth :: c.notes } with
    | error v c' =>
      rw [hrun] at hverdict
      exact hverdict
    | ok _ c' =>
      rw [hrun] at hverdict
      obtain ⟨hclean, hstands'⟩ := hverdict
      exact ⟨hclean, hstands.leave hstands' h.within (by omega) hlast⟩

/-- A part of the walk inside one more function. -/
theorem inFunction (h : x.Walks scope (depth + 1) first next es) :
    Walks (CheckM.inFunction x) scope depth first next es where
  within := h.within
  verdict {earlier c} hstands := by
    have hinside : Checker.Stands earlier scope first (depth + 1)
        { c with functionDepth := c.functionDepth + 1 } :=
      ⟨hstands.recorded, hstands.fresh, congrArg (· + 1) hstands.depth_eq⟩
    have hverdict := h.verdict hinside
    rw [run_inFunction]
    cases hrun : x.run { c with functionDepth := c.functionDepth + 1 } with
    | error v c' =>
      rw [hrun] at hverdict
      exact hverdict
    | ok _ c' =>
      rw [hrun] at hverdict
      obtain ⟨hclean, hrecorded, hfresh, hdepth⟩ := hverdict
      exact ⟨hclean, hrecorded, hfresh, by simp only [hdepth, Nat.add_sub_cancel]⟩

end Walks

end CheckM

/-! ## Statements -/

open CheckM (Walks)

/-- The names that the checker asks for are the ones that are used, in the same order. -/
theorem Expr.events_eq (e : Expr) :
    e.events scope = e.names.map fun name => ⟨scope, .uses name⟩ := by
  induction e with
  | number _ => rfl
  | ident _ => rfl
  | text _ => rfl
  | binary op left right ihl ihr => rw [events, names, List.map_append, ihl, ihr]

theorem Expr.walks (e : Expr) {depth first : Nat} :
    Walks e.check scope depth first first (e.events scope) := by
  rw [e.events_eq]
  exact Walks.forM e.names Walks.resolve

theorem Signature.walks (signature : Signature) {depth first : Nat} :
    Walks (CheckM.declareAll signature.bindings) scope depth first first
      (signature.events scope) := by
  have hevents : signature.events scope = signature.bindings.map
      fun binding => ⟨scope, .declares binding.1 binding.2.kind⟩ := by
    rw [Signature.events, Signature.bindings, List.map_map]
    rfl
  rw [hevents]
  exact Walks.forM signature.bindings fun binding => .declare binding.1 binding.2

/-- **The check of a statement walks through the events of the statement**, and the check of a block
through those of the block. -/
theorem Stmt.walks_all :
    (∀ s : Stmt, ∀ scope index depth, Walks s.check scope depth (2 * index) (2 * (index + 1))
      (s.events scope index (depth != 0))) ∧
    ∀ block : List Stmt, ∀ scope index depth, Walks (Stmt.checkAll block) scope depth (2 * index)
      (2 * (index + block.length)) (Stmt.eventsAll scope index (depth != 0) block) := by
  -- A statement that opens no scope leaves the two that its index owns unused.
  have hunused : ∀ {x : CheckM Unit} {scope : Address} {depth index : Nat} {es : List Event},
      Walks x scope depth (2 * index) (2 * index) es →
      Walks x scope depth (2 * index) (2 * (index + 1)) es := fun h => h.mono (by omega)
  apply Stmt.block_induction
  case declare =>
    intro type name value scope index depth
    cases value with
    | none => exact hunused (.declare name ⟨type, .stored⟩)
    | some e => exact hunused (e.walks.bind (.declare name ⟨type, .stored⟩))
  case assign =>
    intro name e scope index depth
    exact hunused ((Walks.resolve name).bind e.walks)
  case print =>
    intro what scope index depth
    cases what with
    | text content => exact hunused .pure
    | value e => exact hunused e.walks
  case scan =>
    intro name scope index depth
    exact hunused (.resolve name)
  case branch =>
    intro cond thenBlock elseBlock hthen helse scope index depth
    -- The blocks are walked through in the two scopes that the index owns.
    have hblock := hthen (2 * index :: scope) 0 depth
    cases elseBlock with
    | none => exact cond.walks.bind (hblock.inScope (Nat.le_refl _) (by omega))
    | some elseBlock =>
      have hblock' := helse elseBlock rfl ((2 * index + 1) :: scope) 0 depth
      have hthen' := hblock.inScope (Nat.le_refl _) (Nat.lt_succ_self _)
      have helse' := hblock'.inScope (Nat.le_refl _) (show 2 * index + 1 < 2 * (index + 1) by omega)
      simp only [Stmt.check, Stmt.events, List.append_assoc]
      exact cond.walks.bind (hthen'.bind helse')
  case function =>
    intro signature body hbody scope index depth
    -- The parameters and the body share one scope, which lies inside one more function.
    have hblock := hbody (2 * index :: scope) 0 (depth + 1)
    have hinner := (signature.walks.bind hblock).inScope (Nat.le_refl _)
      (show 2 * index < 2 * (index + 1) by omega)
    exact (Walks.declare signature.name ⟨signature.type, .function⟩).bind hinner.inFunction
  case ret =>
    intro value scope index depth
    cases value with
    | none => exact hunused .requireFunction
    | some e => exact hunused (Walks.requireFunction.bind e.walks)
  case nil =>
    intro scope index depth
    exact .pure
  case cons =>
    intro s rest hs hrest scope index depth
    have hnext := hrest scope (index + 1) depth
    rw [Nat.add_right_comm, Nat.add_assoc] at hnext
    exact (hs scope index depth).bind hnext

/-! ## Programs -/

/-- The checker either finds the events of a program clean or names the rule broken first. -/
theorem check_verdict (program : List Stmt) :
    (check program = .ok () ∧ Clean [] (events program)) ∨
      ∃ v, check program = .error v ∧ FirstBreak [] (events program) v := by
  have hverdict := (Stmt.walks_all.2 program [] 0 0).verdict Checker.Stands.initial
  unfold check
  cases hrun : (Stmt.checkAll program).run Checker.initial with
  | ok _ c =>
    rw [hrun] at hverdict
    exact .inl ⟨rfl, hverdict.1⟩
  | error v c =>
    rw [hrun] at hverdict
    exact .inr ⟨v, rfl, hverdict⟩

/-- **The checker decides lexical scoping.**  It accepts exactly the well scoped programs, and it
reports exactly the rule that is broken first in the order of the walk. -/
theorem check_eq_ok_iff_wellScoped (program : List Stmt) :
    (check program = .ok () ↔ WellScoped program) ∧
      ∀ v, check program = .error v ↔ Event.FirstBroken (events program) v := by
  rw [wellScoped_iff_clean]
  simp only [Event.firstBroken_iff_firstBreak]
  rcases check_verdict program with ⟨hcheck, hclean⟩ | ⟨v, hcheck, hbreak⟩
  · rw [hcheck]
    refine ⟨iff_of_true rfl hclean, fun v => iff_of_false (fun h => nomatch h) ?_⟩
    intro hbreak
    exact hbreak.not_clean hclean
  · rw [hcheck]
    refine ⟨iff_of_false (fun h => nomatch h) hbreak.not_clean, fun v' => ?_⟩
    constructor
    · intro h
      rwa [← Except.error.inj h]
    · intro hbreak'
      rw [hbreak.unique hbreak']

end Brew
