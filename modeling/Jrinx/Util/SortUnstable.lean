import Mathlib.Tactic
import Mathlib.Data.List.SplitBy
import Mathlib.Data.List.Sort

/-!
This module contains unstable sorting: items with equal keys may end up in any order. On top of it
there are the groups of a sorted list, the maximal runs of items that agree on a part of the key.
-/

universe u v

/--
A function that sorts by a key. Nothing is said about the order of items with equal keys.
-/
structure SortUnstable {α : Type u} {κ : Type v} [LE κ] (key : α → κ) where
  sort : List α → List α
  perm : ∀ l, (sort l).Perm l
  sorted : ∀ l, (sort l).Pairwise (fun a b => key a ≤ key b)

namespace SortUnstable

variable {α : Type u} {κ : Type v}

def insertionSort [LinearOrder κ] (key : α → κ) : SortUnstable key where
  sort l := l.insertionSort (fun a b => key a ≤ key b)
  perm l := List.perm_insertionSort _ l
  sorted l := by
    have htotal : Std.Total (fun a b : α => key a ≤ key b) := ⟨fun a b => le_total (key a) (key b)⟩
    have htrans : IsTrans α (fun a b => key a ≤ key b) := ⟨fun _ _ _ hab hbc => le_trans hab hbc⟩
    exact List.pairwise_insertionSort _ l

end SortUnstable

namespace SortedGroups

variable {α : Type u} {κ : Type v} [LinearOrder κ] {f : α → κ} {l : List α}

def groups (f : α → κ) (l : List α) : List (List α) := l.splitBy (fun a b => f a == f b)

theorem eq_of_mem_group {g : List α} (hg : g ∈ groups f l) {a b : α} (ha : a ∈ g) (hb : b ∈ g)
    : f a = f b := by
  have hchain : g.IsChain (fun a b => f a = f b) := by
    apply (List.isChain_of_mem_splitBy hg).imp
    simp
  have htrans : IsTrans α (fun a b => f a = f b) := ⟨fun _ _ _ hab hbc => hab.trans hbc⟩
  have hsymm : Std.Symm (fun a b : α => f a = f b) := ⟨fun _ _ hab => hab.symm⟩
  by_cases hab : a = b
  . rw [hab]
  . exact (List.isChain_iff_pairwise.mp hchain).forall ha hb hab

theorem lt_of_groups {gs : List (List α)} (hsorted : gs.flatten.Pairwise (fun a b => f a ≤ f b))
    (hnil : [] ∉ gs) (hconst : ∀ g ∈ gs, ∀ a ∈ g, ∀ b ∈ g, f a = f b)
    (hchain : gs.IsChain (fun g g' => ∃ hg hg', f (g.getLast hg) ≠ f (g'.head hg')))
    : gs.Pairwise (fun g g' => ∀ a ∈ g, ∀ b ∈ g', f a < f b) := by
  induction gs with
  | nil => exact List.Pairwise.nil
  | cons g gs ih =>
    rw [List.flatten_cons, List.pairwise_append] at hsorted
    obtain ⟨_, hrest, hle⟩ := hsorted
    simp only [List.mem_cons, not_or] at hnil
    refine List.pairwise_cons.mpr ⟨?_, ih hrest hnil.2 (fun g' hg' => hconst g' (by simp [hg']))
      hchain.tail⟩
    intro g' hg' a ha b hb
    cases gs with
    | nil => simp at hg'
    | cons next gs =>
      obtain ⟨hg, hnext, hne⟩ := (List.isChain_cons_cons.mp hchain).1
      -- the head of the next group comes before everything else that is left
      have hhead : f (next.head hnext) ≤ f b := by
        obtain ⟨c, next, rfl⟩ := List.exists_cons_of_ne_nil hnext
        rw [List.flatten_cons, List.cons_append, List.pairwise_cons] at hrest
        have hmem : b ∈ ((c :: next) :: gs).flatten := List.mem_flatten.mpr ⟨g', hg', hb⟩
        rw [List.flatten_cons, List.cons_append, List.mem_cons] at hmem
        rcases hmem with rfl | hmem
        . exact le_refl _
        . exact hrest.1 b hmem
      have hlast : f (g.getLast hg) ≤ f (next.head hnext) := by
        apply hle _ (List.getLast_mem hg)
        exact List.mem_flatten.mpr ⟨next, by simp, List.head_mem hnext⟩
      rw [hconst g (by simp) a ha _ (List.getLast_mem hg)]
      exact lt_of_lt_of_le (lt_of_le_of_ne hlast hne) hhead

theorem pairwise_groups (hsorted : l.Pairwise (fun a b => f a ≤ f b))
    : (groups f l).Pairwise (fun g g' => ∀ a ∈ g, ∀ b ∈ g', f a < f b) := by
  apply lt_of_groups
  . rw [groups, List.flatten_splitBy]
    exact hsorted
  . exact List.nil_notMem_splitBy _ _
  . intro g hg a ha b hb
    exact eq_of_mem_group hg ha hb
  . apply (List.isChain_getLast_head_splitBy _ _).imp
    simp

theorem filter_of_mem_group (hsorted : l.Pairwise (fun a b => f a ≤ f b)) {g : List α} {a : α}
    (hg : g ∈ groups f l) (ha : a ∈ g)
    : l.filter (f · = f a) = g := by
  obtain ⟨before, after, hgs⟩ := List.append_of_mem hg
  have hpairwise := pairwise_groups hsorted
  have hl : l = before.flatten ++ (g ++ after.flatten) := by
    rw [← List.flatten_splitBy (fun a b => f a == f b) l, ← groups, hgs, List.flatten_append,
      List.flatten_cons]
  rw [hgs, List.pairwise_append, List.pairwise_cons] at hpairwise
  obtain ⟨_, ⟨hafter, _⟩, hbefore⟩ := hpairwise
  have hnone : before.flatten.filter (f · = f a) = [] := by
    apply List.filter_eq_nil_iff.mpr
    intro b hb
    obtain ⟨g', hg', hb⟩ := List.mem_flatten.mp hb
    have := hbefore g' hg' g (by simp) b hb a ha
    simpa using this.ne
  have hnone' : after.flatten.filter (f · = f a) = [] := by
    apply List.filter_eq_nil_iff.mpr
    intro b hb
    obtain ⟨g', hg', hb⟩ := List.mem_flatten.mp hb
    have := hafter g' hg' a ha b hb
    simpa using this.ne'
  have hall : g.filter (f · = f a) = g := by
    apply List.filter_eq_self.mpr
    intro b hb
    simpa using eq_of_mem_group hg hb ha
  rw [hl, List.filter_append, List.filter_append, hnone, hnone', hall, List.nil_append, List.append_nil]

theorem filter_mem_groups (hsorted : l.Pairwise (fun a b => f a ≤ f b)) {a : α} (ha : a ∈ l)
    : l.filter (f · = f a) ∈ groups f l := by
  have hflatten : a ∈ (groups f l).flatten := by
    rw [groups, List.flatten_splitBy]
    exact ha
  obtain ⟨g, hg, hag⟩ := List.mem_flatten.mp hflatten
  rw [filter_of_mem_group hsorted hg hag]
  exact hg

theorem forall_mem_groups_iff (hsorted : l.Pairwise (fun a b => f a ≤ f b)) (P : List α → Prop)
    : (∀ g ∈ groups f l, P g) ↔ ∀ a ∈ l, P (l.filter (f · = f a)) := by
  constructor
  . intro h a ha
    exact h _ (filter_mem_groups hsorted ha)
  . intro h g hg
    obtain ⟨a, ha⟩ := List.exists_mem_of_ne_nil g (List.ne_nil_of_mem_splitBy hg)
    have hal : a ∈ l := by
      rw [← List.flatten_splitBy (fun a b => f a == f b) l]
      exact List.mem_flatten.mpr ⟨g, hg, ha⟩
    rw [← filter_of_mem_group hsorted hg ha]
    exact h a hal

end SortedGroups
