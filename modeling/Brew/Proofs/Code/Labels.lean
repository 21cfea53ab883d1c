import Brew.Code.Flow
import Brew.Code.Lower
import Mathlib.Data.List.Perm.Basic
import Mathlib.Data.List.Nodup

/-!
# The labels that lowered code defines

A branch takes its three labels before its blocks are lowered and defines them around and behind the
blocks, so labels are not defined in the order of their numbers.  What holds of every block is that
it defines exactly the labels it takes, each of them once.

## Main definitions

* `definedLabels code`: the labels that code defines, in the order of the code
* `fresh mk n k`: the `k` temporaries or labels that are taken next when `n` of them are taken

## Main results

* `Stmt.definedLabels_perm`: a block defines the labels it takes, in some order
* `nodup_definedLabels_lower`: no label is defined twice in the code of a program
-/

namespace Brew

/-! ## Numbering -/

section Numbering

variable {α : Type} {mk : Nat → α} {n k j : Nat}

/-- The `k` temporaries or labels that are taken next when `n` of them are taken; `mk` makes one
from its number. -/
def fresh (mk : Nat → α) (n k : Nat) : List α := (List.range' (n + 1) k).map mk

@[simp] theorem fresh_zero : fresh mk n 0 = [] := rfl

theorem fresh_one : fresh mk n 1 = [mk (n + 1)] := rfl

theorem fresh_add : fresh mk n (k + j) = fresh mk n k ++ fresh mk (n + k) j := by
  unfold fresh
  rw [← List.map_append, Nat.add_right_comm n k 1, List.range'_append_1]

theorem length_fresh : (fresh mk n k).length = k := by
  rw [fresh, List.length_map, List.length_range']

theorem nodup_fresh (hmk : Function.Injective mk) : (fresh mk n k).Nodup :=
  List.Nodup.map hmk (List.nodup_range' 1)

theorem Label.mk_injective : Function.Injective Label.mk := fun _ _ h => congrArg Label.number h

theorem Temp.mk_injective : Function.Injective Temp.mk := fun _ _ h => congrArg Temp.number h

end Numbering

/-! ## Labels -/

/-- The labels that code defines, in the order of the code. -/
def definedLabels (code : List Instr) : List Label := code.filterMap Instr.label?

@[simp] theorem definedLabels_nil : definedLabels [] = [] := rfl

@[simp] theorem definedLabels_append (xs ys : List Instr) :
    definedLabels (xs ++ ys) = definedLabels xs ++ definedLabels ys := List.filterMap_append

@[simp] theorem definedLabels_cons (i : Instr) (code : List Instr) :
    definedLabels (i :: code) = i.label?.toList ++ definedLabels code := by
  cases h : i.label? <;> simp [definedLabels, h]

/-- Two instructions that show the same thing are one, if nothing is shown twice. -/
theorem index_unique {α : Type} {f : Instr → Option α} {code : List Instr}
    (h : (code.filterMap f).Nodup) {i j : Nat} {x y : Instr} {a : α} (hi : code[i]? = some x)
    (hx : f x = some a) (hj : code[j]? = some y) (hy : f y = some a) : i = j := by
  obtain ⟨hilt, rfl⟩ := List.getElem?_eq_some_iff.mp hi
  obtain ⟨hjlt, rfl⟩ := List.getElem?_eq_some_iff.mp hj
  have hpairs := List.pairwise_iff_getElem.mp (List.pairwise_filterMap.mp h)
  -- If the indices were different, the thing would stand twice in the list of what is shown.
  rcases Nat.lt_trichotomy i j with hlt | heq | hgt
  · exact absurd rfl (hpairs i j hilt hjlt hlt a hx a hy)
  · exact heq
  · exact absurd rfl (hpairs j i hjlt hilt hgt a hy a hx)

@[simp] theorem Expr.definedLabels_codeAt (n : Nat) (e : Expr) :
    definedLabels (e.codeAt n) = [] := by
  induction e generalizing n with
  | number | ident | text => rfl
  | binary op left right ihl ihr => simp [Expr.codeAt, ihl, ihr, Instr.label?]

/-- The three labels of a branch, in the order in which the branch defines them around its blocks,
are the next three labels. -/
theorem Fork.definedLabels_perm (n : Nat) (cond : Operand) (xs ys : List Label) :
    (definedLabels ((Fork.after n).head cond) ++ xs ++ definedLabels (Fork.after n).middle ++ ys ++
        definedLabels (Fork.after n).last).Perm (fresh Label.mk n 3 ++ (xs ++ ys)) := by
  have hfresh : fresh Label.mk n 3 =
      [(Fork.after n).onTrue, (Fork.after n).onFalse, (Fork.after n).join] := rfl
  rw [hfresh]
  simp only [Fork.head, Fork.middle, Fork.last, definedLabels_cons, definedLabels_nil,
    Instr.label?, Option.toList_none, Option.toList_some, List.nil_append, List.append_nil,
    List.cons_append, List.append_assoc]
  -- The first label is in front already; the other two move forward over the blocks.
  refine List.Perm.cons _ ?_
  refine List.perm_middle.trans (List.Perm.cons _ ?_)
  rw [← List.append_assoc]
  exact List.perm_append_singleton _ _

/-- A branch defines its own labels and those of its blocks. -/
theorem Stmt.definedLabels_branch (c : Counters) (cond : Expr) (thenBlock elseBlock : List Stmt)
    (hthen : ∀ c, (definedLabels (Stmt.codeAll c thenBlock)).Perm
      (fresh Label.mk c.labels (Stmt.usageAll thenBlock).labels))
    (helse : ∀ c, (definedLabels (Stmt.codeAll c elseBlock)).Perm
      (fresh Label.mk c.labels (Stmt.usageAll elseBlock).labels)) :
    (definedLabels ((Stmt.branch cond thenBlock (some elseBlock)).codeAt c)).Perm
      (fresh Label.mk c.labels (Stmt.branch cond thenBlock (some elseBlock)).usage.labels) := by
  simp only [Stmt.codeAt, Stmt.usage, definedLabels_append, Expr.definedLabels_codeAt,
    List.nil_append, Counters.labels_add]
  refine (Fork.definedLabels_perm ..).trans ?_
  -- The blocks take their labels behind the three of the branch, one block after the other.
  rw [Nat.add_assoc, fresh_add, fresh_add]
  exact ((hthen _).append (helse _)).append_left _

/-- **A block defines the labels it takes**, in some order, and so does a statement. -/
theorem Stmt.definedLabels_perm :
    (∀ (s : Stmt) (c : Counters),
      (definedLabels (s.codeAt c)).Perm (fresh Label.mk c.labels s.usage.labels)) ∧
    ∀ (block : List Stmt) (c : Counters),
      (definedLabels (Stmt.codeAll c block)).Perm
        (fresh Label.mk c.labels (Stmt.usageAll block).labels) := by
  apply Stmt.block_induction
  case branch =>
    intro cond thenBlock elseBlock hthen helse c
    cases elseBlock with
    | some elseBlock => exact definedLabels_branch c cond _ _ hthen (helse elseBlock rfl)
    | none =>
      -- A missing block has the code and the usage of an empty one.
      have h := definedLabels_branch c cond thenBlock [] hthen fun _ => .refl _
      simpa [Stmt.codeAt, Stmt.usage, Stmt.codeAll, Stmt.usageAll] using h
  case cons =>
    intro s rest hs hrest c
    -- The labels of the rest begin where those of the statement end.
    rw [Stmt.codeAll, Stmt.usageAll, definedLabels_append, Counters.labels_add, fresh_add]
    exact (hs c).append (hrest (c + s.usage))
  case declare =>
    intro type name value c
    cases value <;> simp [Stmt.codeAt, Stmt.usage, Instr.label?]
  case print =>
    intro what c
    cases what <;> simp [Stmt.codeAt, Stmt.usage, Instr.label?]
  -- All other statements have no branch in their code.
  all_goals
    intros
    simp [Stmt.codeAt, Stmt.usage, Stmt.codeAll, Stmt.usageAll, Instr.label?]

/-- **No label is defined twice in the code of a program.** -/
theorem nodup_definedLabels_lower (program : List Stmt) : (definedLabels (lower program)).Nodup :=
  (Stmt.definedLabels_perm.2 program 0).nodup_iff.mpr (nodup_fresh Label.mk_injective)

end Brew
