import Brew.Proofs.Code.Sites
import Brew.Proofs.Scope.Checking
import Brew.Proofs.Scope.Extension

/-!
# The names in code are declared variables

The checker and lowering walk over the same statements in different ways.  The checker keeps a chain
of scopes that also holds parameters and functions, and it goes into the bodies of functions;
lowering knows nothing of scopes and passes functions over.  What connects the two is a list of
**sites**: at every statement outside of all functions, the chain of the checker records what the
statements before it have declared around it, and nothing else.  So a name that the checker lets
pass there, and that lowering then writes into the code, belongs to a declaration of a variable
outside of all functions.

## Main definitions

* `Stmt.uses`: the names that a statement uses itself
* `Site.Resolves`: the declaration that a name belongs to at a site
* `declarations`: what some statements declare, as events
* `Site.Settled`: the names used at a site are variables, and it is no return
* `CheckM.Settles`: a part of the walk comes through only if some sites are settled

## Main results

* `Stmt.settles_all`, `settledAll_sites`: the check of a block settles the sites of the block
* `Stmt.mem_uses_of_operand`, `Stmt.mem_uses_of_writtenName?`: the names in the code of a statement
  are those it uses, and the variable it introduces
* `names_lower_declared`: the names in the code of a program that passes the check are variables
  declared before, in a scope around
-/

namespace Brew

open Event (Declared Means)

variable {name : String} {scope : Address} {site : Site} {before ss tt : List Site}

/-! ## Names and their declarations -/

/-- The names that a statement uses itself, in the order of the walk. -/
def Stmt.uses : Stmt → List String
  | .declare _ _ none => []
  | .declare _ _ (some e) => e.names
  | .assign name e => name :: e.names
  | .print (.text _) => []
  | .print (.value e) => e.names
  | .scan name => [name]
  | .branch cond _ _ => cond.names
  | .function _ _ => []
  | .ret none => []
  | .ret (some e) => e.names

/-- **The declaration that a name belongs to at a site**, given the statements before it: one of
them is the declaration of a variable of this name in a scope around the site, and none of them
declares the name in a scope nearer to the site, be it as a variable or as a function. -/
structure Site.Resolves (before : List Site) (site : Site) (name : String) (decl : Site) :
    Prop where
  earlier : decl ∈ before
  around : decl.scope <:+ site.scope
  declares : ∃ type value, decl.stmt = .declare type name value
  nearest : ∀ other ∈ before, other.scope <:+ site.scope →
    decl.scope.length < other.scope.length → ∀ binding ∈ other.stmt.binding?, binding.1 ≠ name

/-- What a statement declares, as an event. -/
def Site.declaration? (site : Site) : Option Event :=
  site.stmt.binding?.map fun binding => ⟨site.scope, .declares binding.1 binding.2.kind⟩

/-- What some statements declare, as events. -/
def declarations (ss : List Site) : List Event := ss.filterMap Site.declaration?

@[simp] theorem declarations_append :
    declarations (ss ++ tt) = declarations ss ++ declarations tt := List.filterMap_append

theorem declared_declarations {home : Address} {kind : Symbol.Kind} :
    Declared (declarations ss) home name kind ↔
      ∃ site ∈ ss, site.scope = home ∧
        ∃ binding ∈ site.stmt.binding?, binding.1 = name ∧ binding.2.kind = kind := by
  simp only [Declared, declarations, Site.declaration?, List.mem_filterMap, Option.map_eq_some_iff,
    Event.mk.injEq, Act.declares.injEq]
  constructor
  · rintro ⟨site, hsite, binding, hbinding, hscope, hname, hkind⟩
    exact ⟨site, hsite, hscope, binding, hbinding, hname, hkind⟩
  · rintro ⟨site, hsite, hscope, binding, hbinding, hname, hkind⟩
    exact ⟨site, hsite, binding, hbinding, hscope, hname, hkind⟩

/-- Statements declare variables and functions, but no parameters. -/
theorem Stmt.kind_of_binding? {s : Stmt} {binding : String × Symbol} (h : binding ∈ s.binding?)
    (hkind : binding.2.kind ≠ .function) :
    binding.2.kind = .stored ∧ ∃ type value, s = .declare type binding.1 value := by
  cases s with
  | declare type name value =>
    cases h
    exact ⟨rfl, type, value, rfl⟩
  | function signature body =>
    cases h
    exact absurd rfl hkind
  | assign | print | scan | branch | ret => exact nomatch h

/-- A meaning that is no function is a variable. -/
theorem means_stored {kind : Symbol.Kind} (h : Means (declarations ss) scope name kind)
    (hkind : kind ≠ .function) : Means (declarations ss) scope name .stored := by
  obtain ⟨home, hhome, hdeclared, hinner⟩ := h
  obtain ⟨site, hsite, hscope, binding, hbinding, hname, rfl⟩ := declared_declarations.mp hdeclared
  obtain ⟨hstored, -⟩ := Stmt.kind_of_binding? hbinding hkind
  rw [hstored] at hdeclared
  exact ⟨home, hhome, hdeclared, hinner⟩

/-- A name that means a variable at a site belongs to a declaration. -/
theorem Site.exists_resolves (h : Means (declarations before) site.scope name .stored) :
    ∃ decl, site.Resolves before name decl := by
  obtain ⟨home, hhome, hdeclared, hinner⟩ := h
  obtain ⟨decl, hdecl, rfl, binding, hbinding, rfl, hkind⟩ := declared_declarations.mp hdeclared
  have hfunction : binding.2.kind ≠ .function := by
    rw [hkind]
    decide
  refine ⟨decl, hdecl, hhome, (Stmt.kind_of_binding? hbinding hfunction).2, ?_⟩
  -- A statement that declares the name nearer to the site would be an inner declaration.
  intro other hother haround hlength binding' hbinding' heq
  refine hinner other.scope haround hlength binding'.2.kind ?_
  exact declared_declarations.mpr ⟨other, hother, rfl, binding', hbinding', heq, rfl⟩

/-! ## Settled sites -/

/-- **What the checker makes sure of at a site**, given the statements before it. -/
structure Site.Settled (before : List Site) (site : Site) : Prop where
  uses_stored : ∀ name ∈ site.stmt.uses, Means (declarations before) site.scope name .stored
  not_return : ∀ value, site.stmt ≠ .ret value

/-- Some sites are settled, given the statements before them. -/
def SettledAll : List Site → List Site → Prop
  | _, [] => True
  | before, site :: ss => site.Settled before ∧ SettledAll (before ++ [site]) ss

theorem settledAll_append :
    SettledAll before (ss ++ tt) ↔ SettledAll before ss ∧ SettledAll (before ++ ss) tt := by
  induction ss generalizing before with
  | nil => simp [SettledAll]
  | cons site ss ih =>
    rw [List.cons_append, SettledAll, SettledAll, ih, and_assoc, ← List.append_cons]

/-! ## Where the checker stands -/

section Stands

variable {earlier : List Event} {c c' : Checker} {first next depth : Nat}

/-- Some more of the scopes to come are left unused. -/
theorem Checker.Stands.mono (h : c.Stands earlier scope first depth) (hle : first ≤ next) :
    c.Stands earlier scope next depth :=
  ⟨h.recorded, fun e he k hk => h.fresh e he k (Nat.le_trans hle hk), h.depth_eq⟩

/-- A part of the walk that adds no names leaves the checker where it stands. -/
theorem CheckM.Adds.stands {x : CheckM Unit} (hx : x.Adds []) (hrun : x.run c = .ok () c')
    (h : c.Stands earlier scope next depth) : c'.Stands earlier scope next depth := by
  have hgrown := hx c
  rw [hrun] at hgrown
  obtain ⟨hscopes, hdepth⟩ := hgrown
  refine ⟨?_, h.fresh, hdepth.trans h.depth_eq⟩
  rw [hscopes]
  exact h.recorded

/-- A statement that declares nothing leaves no declaration. -/
theorem declarations_site_of_none (hsite : site.stmt.binding? = none) :
    declarations (before ++ [site]) = declarations before := by
  simp [declarations, Site.declaration?, hsite]

/-- The checker has declared what a statement declares. -/
theorem Checker.Stands.declare {symbol : Symbol} (h : c.Stands (declarations before) scope next 0)
    (hscope : site.scope = scope) (hsite : site.stmt.binding? = some (name, symbol))
    (hrun : (CheckM.declare name symbol).run c = .ok () c') :
    c'.Stands (declarations (before ++ [site])) scope next 0 := by
  have hevent : declarations [site] = [⟨scope, .declares name symbol.kind⟩] := by
    simp [declarations, Site.declaration?, hsite, hscope]
  rw [declarations_append, hevent]
  rw [CheckM.run_declare] at hrun
  cases hdefine : c.scopes.define name symbol with
  | none =>
    rw [hdefine] at hrun
    exact nomatch hrun
  | some scopes =>
    rw [hdefine] at hrun
    cases hrun
    exact h.snoc (h.recorded.define hdefine) rfl

/-- A name that the checker lets pass is a variable. -/
theorem Checker.Stands.means_of_resolve (h : c.Stands (declarations before) scope next 0)
    (hrun : (CheckM.resolve name).run c = .ok () c') :
    Means (declarations before) scope name .stored := by
  rw [CheckM.run_resolve] at hrun
  cases hfind : c.scopes.find? name with
  | none =>
    rw [hfind] at hrun
    exact nomatch hrun
  | some symbol =>
    rw [hfind] at hrun
    dsimp only at hrun
    by_cases hfunction : symbol.kind = .function
    · rw [if_pos hfunction] at hrun
      exact nomatch hrun
    · refine means_stored (h.recorded.means_iff.mpr ?_) hfunction
      rw [hfind]
      rfl

/-- Names that the checker lets pass, one after the other, are variables. -/
theorem Checker.Stands.means_of_resolveAll {names : List String}
    (h : c.Stands (declarations before) scope next 0)
    (hrun : (names.forM CheckM.resolve).run c = .ok () c') :
    ∀ name ∈ names, Means (declarations before) scope name .stored := by
  induction names generalizing c with
  | nil => exact fun name hname => absurd hname List.not_mem_nil
  | cons name names ih =>
    obtain ⟨d, hfirst, hrest⟩ := CheckM.run_bind_eq_ok_iff.mp hrun
    have hd := (CheckM.Adds.resolve name).stands hfirst h
    exact List.forall_mem_cons.mpr ⟨h.means_of_resolve hfirst, ih hd hrest⟩

end Stands

/-! ## Parts of the walk -/

/-- **A part of the walk settles some sites** in a scope and in the scopes inside it numbered from
`first` to before `next`, outside of all functions: it comes through only if they are settled, and
then the checker stands behind them. -/
structure CheckM.Settles (x : CheckM Unit) (scope : Address) (first next : Nat) (ss : List Site) :
    Prop where
  within : ∀ site ∈ ss, scope <:+ site.scope
  settled : ∀ {before : List Site} {c c' : Checker},
    c.Stands (declarations before) scope first 0 → x.run c = .ok () c' →
      SettledAll before ss ∧ c'.Stands (declarations (before ++ ss)) scope next 0

namespace CheckM.Settles

variable {x y : CheckM Unit} {k first mid next : Nat}

theorem pure : Settles (Pure.pure ()) scope first first [] where
  within _ h := absurd h List.not_mem_nil
  settled {before c c'} h hrun := by
    cases hrun
    refine ⟨trivial, ?_⟩
    rwa [List.append_nil]

/-- Two parts of the walk, one after the other. -/
theorem bind (hx : x.Settles scope first mid ss) (hy : y.Settles scope mid next tt) :
    Settles (x >>= fun _ => y) scope first next (ss ++ tt) where
  within := List.forall_mem_append.mpr ⟨hx.within, hy.within⟩
  settled {before c c'} h hrun := by
    obtain ⟨d, hfirst, hsecond⟩ := run_bind_eq_ok_iff.mp hrun
    obtain ⟨hss, hd⟩ := hx.settled h hfirst
    obtain ⟨htt, hc'⟩ := hy.settled hd hsecond
    rw [List.append_assoc] at hc'
    exact ⟨settledAll_append.mpr ⟨hss, htt⟩, hc'⟩

/-- The scopes numbered up to `last` are left unused. -/
theorem mono (hx : x.Settles scope first next ss) {last : Nat} (hle : next ≤ last) :
    x.Settles scope first last ss where
  within := hx.within
  settled {before c c'} h hrun := by
    obtain ⟨hss, hc'⟩ := hx.settled h hrun
    exact ⟨hss, hc'.mono hle⟩

/-- Something follows that leaves no names behind. -/
theorem adds (hx : x.Settles scope first next ss) (hy : y.Adds []) :
    Settles (x >>= fun _ => y) scope first next ss where
  within := hx.within
  settled {before c c'} h hrun := by
    obtain ⟨d, hfirst, hsecond⟩ := run_bind_eq_ok_iff.mp hrun
    obtain ⟨hss, hd⟩ := hx.settled h hfirst
    exact ⟨hss, hy.stands hsecond hd⟩

/-- The names that a statement uses, if it declares nothing. -/
theorem uses (s : Stmt) (index : Nat) (hbinding : s.binding? = none)
    (hreturn : ∀ value, s ≠ .ret value) :
    Settles (s.uses.forM CheckM.resolve) scope first first [⟨scope, index, s⟩] where
  within := List.forall_mem_singleton.mpr List.suffix_rfl
  settled {before c c'} h hrun := by
    refine ⟨⟨⟨h.means_of_resolveAll hrun, hreturn⟩, trivial⟩, ?_⟩
    rw [declarations_site_of_none hbinding]
    exact (Adds.forM _ Adds.resolve).stands hrun h

/-- The names that a statement uses, and then the name that it declares. -/
theorem declares (s : Stmt) (index : Nat) {name : String} {symbol : Symbol}
    (hbinding : s.binding? = some (name, symbol)) :
    Settles (s.uses.forM CheckM.resolve >>= fun _ => CheckM.declare name symbol) scope first first
      [⟨scope, index, s⟩] where
  within := List.forall_mem_singleton.mpr List.suffix_rfl
  settled {before c c'} h hrun := by
    obtain ⟨d, huses, hdeclare⟩ := run_bind_eq_ok_iff.mp hrun
    have hd := (Adds.forM s.uses Adds.resolve).stands huses h
    refine ⟨⟨⟨h.means_of_resolveAll huses, ?_⟩, trivial⟩, hd.declare rfl hbinding hdeclare⟩
    rintro value rfl
    exact nomatch hbinding

/-- Outside of all functions, the walk does not come past a return. -/
theorem requireFunction (s : Stmt) (index : Nat) :
    Settles CheckM.requireFunction scope first first [⟨scope, index, s⟩] where
  within := List.forall_mem_singleton.mpr List.suffix_rfl
  settled {before c c'} h hrun := by
    rw [run_requireFunction, if_pos h.depth_eq] at hrun
    exact nomatch hrun

/-- A part of the walk inside a new scope. -/
theorem inScope (h : x.Settles (k :: scope) 0 next ss) {last : Nat} (hfirst : first ≤ k)
    (hlast : k < last) : Settles (CheckM.inScope x) scope first last ss where
  within site hsite := (List.suffix_cons k scope).trans (h.within site hsite)
  settled {before c c'} hstands hrun := by
    rw [run_inScope] at hrun
    split at hrun
    case h_2 => exact nomatch hrun
    case h_1 d hinside =>
      cases hrun
      obtain ⟨hss, hd⟩ := h.settled (hstands.enter hfirst _) hinside
      refine ⟨hss, ?_⟩
      -- What was declared inside has its place there, and the scopes behind it are unused.
      rw [declarations_append] at hd ⊢
      refine hstands.leave hd (fun e he => ?_) (by omega) hlast
      obtain ⟨site, hsite, hevent⟩ := List.mem_filterMap.mp he
      obtain ⟨binding, -, rfl⟩ := Option.map_eq_some_iff.mp hevent
      exact h.within site hsite

end CheckM.Settles

open CheckM (Settles Adds)

/-- **The check of a block settles the sites of the block**, and so it is for a statement. -/
theorem Stmt.settles_all :
    (∀ (s : Stmt) (scope : Address) (index : Nat),
      Settles s.check scope (2 * index) (2 * (index + 1)) (s.sites scope index)) ∧
    ∀ (block : List Stmt) (scope : Address) (index : Nat),
      Settles (Stmt.checkAll block) scope (2 * index) (2 * (index + block.length))
        (Stmt.sitesAll scope index block) := by
  apply Stmt.block_induction
  case declare =>
    intro type name value scope index
    cases value with
    | none => exact (Settles.declares (.declare type name none) index rfl).mono (by omega)
    | some e => exact (Settles.declares (.declare type name (some e)) index rfl).mono (by omega)
  case assign =>
    intro name e scope index
    exact (Settles.uses (.assign name e) index rfl nofun).mono (by omega)
  case print =>
    intro what scope index
    cases what with
    | text content => exact (Settles.uses (.print (.text content)) index rfl nofun).mono (by omega)
    | value e => exact (Settles.uses (.print (.value e)) index rfl nofun).mono (by omega)
  case scan =>
    intro name scope index
    have hscan : (Stmt.scan name).check = [name].forM CheckM.resolve := bind_pure_unit.symm
    rw [hscan]
    exact (Settles.uses (.scan name) index rfl nofun).mono (by omega)
  case branch =>
    intro cond thenBlock elseBlock hthen helse scope index
    -- The condition is checked in the scope of the branch, each block in one of the scopes it owns.
    have hcond : Settles cond.check scope (2 * index) (2 * index) _ :=
      .uses (.branch cond thenBlock elseBlock) index rfl nofun
    have hthen' : Settles (CheckM.inScope (Stmt.checkAll thenBlock)) scope (2 * index)
        (2 * index + 1) _ := (hthen (2 * index :: scope) 0).inScope (by omega) (by omega)
    cases elseBlock with
    | none => exact hcond.bind (hthen'.mono (by omega))
    | some elseBlock =>
      have helse' : Settles (CheckM.inScope (Stmt.checkAll elseBlock)) scope (2 * index + 1)
          (2 * (index + 1)) _ :=
        (helse elseBlock rfl ((2 * index + 1) :: scope) 0).inScope (by omega) (by omega)
      exact hcond.bind (hthen'.bind helse')
  case function =>
    intro signature body _ scope index
    -- Parameters and body stand in a scope of their own, of which nothing is left behind.
    have hbody := (Adds.declareAll signature.bindings).bind (Stmt.adds_all.2 body)
    have hname : Settles (CheckM.declare signature.name ⟨signature.type, .function⟩) scope
        (2 * index) (2 * index) _ := .declares (.function signature body) index rfl
    exact (hname.adds hbody.inScope.inFunction).mono (by omega)
  case ret =>
    intro value scope index
    cases value with
    | none => exact (Settles.requireFunction (.ret none) index).mono (by omega)
    | some e => exact ((Settles.requireFunction (.ret (some e)) index).adds e.adds).mono (by omega)
  case nil =>
    intro scope index
    exact .pure
  case cons =>
    intro s rest hs hrest scope index
    have hnext := hrest scope (index + 1)
    rw [Nat.add_right_comm, Nat.add_assoc] at hnext
    exact (hs scope index).bind hnext

/-- **The check of a program settles all statements outside of functions.** -/
theorem settledAll_sites {program : List Stmt} (h : check program = .ok ()) :
    SettledAll [] (sites program) := by
  obtain ⟨c, hrun⟩ := check_eq_ok_iff_run.mp h
  have hstands : Checker.initial.Stands (declarations []) [] (2 * 0) 0 := Checker.Stands.initial
  exact ((Stmt.settles_all.2 program [] 0).settled hstands hrun).1

/-- What is settled at a statement of a program that passes the check. -/
theorem settled_of_check {program : List Stmt} (h : check program = .ok ()) {after : List Site}
    (hsplit : sites program = before ++ site :: after) : site.Settled before := by
  have hsites := settledAll_sites h
  rw [hsplit, settledAll_append] at hsites
  exact hsites.2.1

/-- **A program that passes the check has no return outside of functions.** -/
theorem not_return_of_check {program : List Stmt} (h : check program = .ok ()) :
    ∀ site ∈ sites program, ∀ value, site.stmt ≠ .ret value := by
  intro site hsite
  obtain ⟨before, after, hsplit⟩ := List.append_of_mem hsite
  exact (settled_of_check h hsplit).not_return

/-! ## Names in code -/

/-- The variable that an instruction writes. -/
def Instr.writtenName? : Instr → Option String
  | .assign (.ident name) _ | .scan name => some name
  | .assign (.temp _) _ | .binary _ _ _ _ | .print _ | .label _ | .goto _ | .gotoIf _ _ => none

section Names

variable {e : Expr} {s : Stmt} {i : Instr} {c : Counters} {n : Nat}

theorem Expr.mem_names_of_operandAt (h : .ident name = e.operandAt n) : name ∈ e.names := by
  cases e with
  | ident other =>
    cases h
    exact List.mem_singleton_self name
  | number | text | binary => exact nomatch h

/-- The code of an expression reads the names in the expression. -/
theorem Expr.mem_names_of_codeAt (hi : i ∈ e.codeAt n) (hname : .ident name ∈ i.operands) :
    name ∈ e.names := by
  induction e generalizing n with
  | number | ident | text => exact absurd hi List.not_mem_nil
  | binary op left right ihleft ihright =>
    rw [Expr.codeAt, List.mem_append, List.mem_append] at hi
    rw [Expr.names, List.mem_append]
    rcases hi with (hi | hi) | hi
    · exact .inl (ihleft hi)
    · exact .inr (ihright hi)
    · cases List.mem_singleton.mp hi
      rcases List.mem_pair.mp hname with hleft | hright
      · exact .inl (mem_names_of_operandAt hleft)
      · exact .inr (mem_names_of_operandAt hright)

/-- The code of an expression writes no variable. -/
theorem Expr.writtenName?_codeAt (hi : i ∈ e.codeAt n) : i.writtenName? = none := by
  induction e generalizing n with
  | number | ident | text => exact absurd hi List.not_mem_nil
  | binary op left right ihleft ihright =>
    rw [Expr.codeAt, List.mem_append, List.mem_append] at hi
    rcases hi with (hi | hi) | hi
    · exact ihleft hi
    · exact ihright hi
    · cases List.mem_singleton.mp hi
      rfl

/-- Code that goes on with the value of an expression reads the names in the expression. -/
theorem Expr.mem_names_of_mem {rest : List Instr} (hi : i ∈ e.codeAt n ++ rest)
    (hrest : ∀ j ∈ rest, .ident name ∈ j.operands → .ident name = e.operandAt n)
    (hname : .ident name ∈ i.operands) : name ∈ e.names := by
  rcases List.mem_append.mp hi with hi | hi
  · exact mem_names_of_codeAt hi hname
  · exact mem_names_of_operandAt (hrest i hi hname)

/-- If code that begins with an expression writes a variable, it does so behind it. -/
theorem Expr.mem_rest_of_writtenName? {rest : List Instr} (hi : i ∈ e.codeAt n ++ rest)
    (hname : i.writtenName? = some name) : i ∈ rest := by
  rcases List.mem_append.mp hi with hi | hi
  · rw [writtenName?_codeAt hi] at hname
    exact nomatch hname
  · exact hi

/-- **The code of a statement reads the names that the statement uses.** -/
theorem Stmt.mem_uses_of_operand (hi : i ∈ s.ownCodeAt c) (hname : .ident name ∈ i.operands) :
    name ∈ s.uses := by
  cases s with
  | declare type x value =>
    cases value with
    | none => exact absurd hi List.not_mem_nil
    | some e => exact Expr.mem_names_of_mem hi (by simp [Instr.operands]) hname
  | assign x e =>
    exact List.mem_cons_of_mem x (Expr.mem_names_of_mem hi (by simp [Instr.operands]) hname)
  | print what =>
    cases what with
    | text content => 
      cases List.mem_singleton.mp hi
      exact absurd hname (by simp [Instr.operands])
    | value e => exact Expr.mem_names_of_mem hi (by simp [Instr.operands]) hname
  | scan x =>
    cases List.mem_singleton.mp hi
    exact absurd hname List.not_mem_nil
  | branch cond thenBlock elseBlock =>
    rw [Stmt.ownCodeAt, List.append_assoc, List.append_assoc] at hi
    refine Expr.mem_names_of_mem hi ?_ hname
    simp [Instr.operands, Fork.head, Fork.middle, Fork.last]
  | function | ret => exact absurd hi List.not_mem_nil

/-- **The code of a statement writes the variables that the statement uses**, and the variable that
it introduces. -/
theorem Stmt.mem_uses_of_writtenName? (hi : i ∈ s.ownCodeAt c)
    (hname : i.writtenName? = some name) :
    name ∈ s.uses ∨
      ∃ type e t, s = .declare type name (some e) ∧ i = .assign (.ident name) (.temp t) := by
  cases s with
  | declare type x value =>
    cases value with
    | none => exact absurd hi List.not_mem_nil
    | some e =>
      rcases List.mem_pair.mp (Expr.mem_rest_of_writtenName? hi hname) with rfl | rfl
      · exact nomatch hname
      · cases hname
        exact .inr ⟨type, e, _, rfl, rfl⟩
  | assign x e =>
    cases List.mem_singleton.mp (Expr.mem_rest_of_writtenName? hi hname)
    cases hname
    exact .inl List.mem_cons_self
  | print what =>
    cases what with
    | text content =>
      cases List.mem_singleton.mp hi
      exact nomatch hname
    | value e =>
      cases List.mem_singleton.mp (Expr.mem_rest_of_writtenName? hi hname)
      exact nomatch hname
  | scan x =>
    cases List.mem_singleton.mp hi
    cases hname
    exact .inl List.mem_cons_self
  | branch cond thenBlock elseBlock =>
    rw [Stmt.ownCodeAt, List.append_assoc, List.append_assoc] at hi
    have hrest := Expr.mem_rest_of_writtenName? hi hname
    simp only [Fork.head, Fork.middle, Fork.last, List.cons_append, List.nil_append, List.mem_cons,
      List.not_mem_nil, or_false] at hrest
    rcases hrest with rfl | rfl | rfl | rfl | rfl | rfl <;> exact nomatch hname
  | function | ret => exact absurd hi List.not_mem_nil

end Names

/-! ## Programs -/

/-- **The names in code are declared variables.**  Each instruction in the code of a program that
passes the check is emitted for a statement outside of all functions.  A variable that it reads or
writes has its declaration among the statements before this one that stand outside of all
functions, in a scope around it; only the last instruction of a declaration with a first value
writes the variable of this same declaration.  And none of these statements is a return. -/
theorem names_lower_declared {program : List Stmt} (h : check program = .ok ()) :
    (traced program).map Prod.snd = lower program ∧
      (∀ site instr, (site, instr) ∈ traced program →
        site ∈ sites program ∧ (∃ c, instr ∈ site.stmt.ownCodeAt c) ∧
          ∀ before after, sites program = before ++ site :: after →
            (∀ name, .ident name ∈ instr.operands → ∃ decl, site.Resolves before name decl) ∧
            ∀ name, instr.writtenName? = some name →
              (∃ decl, site.Resolves before name decl) ∨
                ∃ type e t, site.stmt = .declare type name (some e) ∧
                  instr = .assign (.ident name) (.temp t)) ∧
      ∀ site ∈ sites program, ∀ value, site.stmt ≠ .ret value := by
  refine ⟨map_snd_traced program, ?_, not_return_of_check h⟩
  intro site instr htraced
  obtain ⟨hsite, c, hown⟩ := mem_traced htraced
  refine ⟨hsite, ⟨c, hown⟩, fun before after hsplit => ?_⟩
  have hsettled := settled_of_check h hsplit
  constructor
  · intro name hname
    have huses := Stmt.mem_uses_of_operand hown hname
    exact Site.exists_resolves (hsettled.uses_stored name huses)
  · intro name hname
    refine (Stmt.mem_uses_of_writtenName? hown hname).imp_left fun huses => ?_
    exact Site.exists_resolves (hsettled.uses_stored name huses)

/-- The first value of a variable reads the variable that it hides. -/
theorem names_lower_declared_hiding :
    check [.declare .int "wtl_x" (some (.number "1")),
        .branch (.ident "wtl_x")
          [.declare .int "wtl_x" (some (.binary .add (.ident "wtl_x") (.number "2")))] none] =
        .ok () ∧
      lower [.declare .int "wtl_x" (some (.number "1")),
        .branch (.ident "wtl_x")
          [.declare .int "wtl_x" (some (.binary .add (.ident "wtl_x") (.number "2")))] none] =
        [.assign (.temp ⟨1⟩) (.number "1"), .assign (.ident "wtl_x") (.temp ⟨1⟩),
          .gotoIf (.ident "wtl_x") ⟨1⟩, .goto ⟨2⟩, .label ⟨1⟩,
          .binary ⟨2⟩ .add (.ident "wtl_x") (.number "2"), .assign (.temp ⟨3⟩) (.temp ⟨2⟩),
          .assign (.ident "wtl_x") (.temp ⟨3⟩), .goto ⟨3⟩, .label ⟨2⟩, .label ⟨3⟩] ∧
      ∃ decl, Site.Resolves
        [⟨[], 0, .declare .int "wtl_x" (some (.number "1"))⟩,
          ⟨[], 1, .branch (.ident "wtl_x")
            [.declare .int "wtl_x" (some (.binary .add (.ident "wtl_x") (.number "2")))] none⟩]
        ⟨[2], 0, .declare .int "wtl_x" (some (.binary .add (.ident "wtl_x") (.number "2")))⟩
        "wtl_x" decl := by
  have hcheck : check [.declare .int "wtl_x" (some (.number "1")),
      .branch (.ident "wtl_x")
        [.declare .int "wtl_x" (some (.binary .add (.ident "wtl_x") (.number "2")))] none] =
      .ok () := by decide
  obtain ⟨hcode, hnames, -⟩ := names_lower_declared hcheck
  refine ⟨hcheck, hcode.symm, ?_⟩
  obtain ⟨-, -, hresolves⟩ := hnames _ _ (List.mem_of_getElem? (i := 5) rfl)
  exact (hresolves _ _ rfl).1 _ List.mem_cons_self

end Brew
