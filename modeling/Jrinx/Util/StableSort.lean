import Mathlib.Tactic
import Mathlib.Data.List.Sort

/-!
This module contains stable sorting by a key, and the first two of an order: what a sorted list begins with.
-/

universe u v

def sortBy {α : Type u} {κ : Type v} [LinearOrder κ] (key : α → κ) (l : List α) : List α :=
  l.mergeSort (fun a b => key a ≤ key b)

/--
By the key, and by the relation between those with the same key.
-/
def Precedes {α : Type u} {κ : Type v} [LinearOrder κ] (r : α → α → Prop) (key : α → κ) (a b : α) : Prop :=
  key a < key b ∨ key a = key b ∧ r a b

/--
Of those that satisfy `p` these two are the first and the second, and they are not the same.
-/
structure FirstTwo {α : Type u} (p : α → Prop) (r : α → α → Prop) (a b : α) : Prop where
  first : p a
  second : p b
  rel : r a b
  others : ∀ c, p c → c = a ∨ c = b ∨ r b c

section

variable {α : Type u} {κ : Type v} [LinearOrder κ] {key : α → κ} {r : α → α → Prop} {l : List α}

theorem sortBy_perm (key : α → κ) (l : List α) : (sortBy key l).Perm l := List.mergeSort_perm l _

theorem sortBy_sorted (key : α → κ) (l : List α) : (sortBy key l).Pairwise (fun a b => key a ≤ key b) := by
  have hsorted : (sortBy key l).Pairwise (fun a b => decide (key a ≤ key b) = true) := by
    refine List.pairwise_mergeSort (fun a b c hab hbc => ?_) (fun a b => ?_) l
    . simp only [decide_eq_true_eq] at *
      exact le_trans hab hbc
    . simpa using le_total (key a) (key b)
  exact hsorted.imp fun h => by simpa using h

theorem sortBy_pair {a b : α} (hle : key a ≤ key b) (h : [a, b].Sublist l) : [a, b].Sublist (sortBy key l) := by
  refine List.pair_sublist_mergeSort (fun a b c hab hbc => ?_) (fun a b => ?_) (by simpa using hle) h
  . simp only [decide_eq_true_eq] at *
    exact le_trans hab hbc
  . simpa using le_total (key a) (key b)

theorem pair_or_pair {a b : α} (ha : a ∈ l) (hb : b ∈ l) (hne : a ≠ b) : [a, b].Sublist l ∨ [b, a].Sublist l := by
  induction l with
  | nil => simp at ha
  | cons c l ih =>
    rcases List.mem_cons.mp ha with rfl | hal
    . have hbl := (List.mem_cons.mp hb).resolve_left (Ne.symm hne)
      exact .inl ((List.singleton_sublist.mpr hbl).cons_cons a)
    . rcases List.mem_cons.mp hb with rfl | hbl
      . exact .inr ((List.singleton_sublist.mpr hal).cons_cons b)
      . exact (ih hal hbl).imp (.cons c) (.cons c)

theorem not_both_orders {a b : α} (hnodup : l.Nodup) (hab : [a, b].Sublist l) (hba : [b, a].Sublist l) : False := by
  induction l with
  | nil => simp at hab
  | cons c l ih =>
    rw [List.nodup_cons] at hnodup
    have hmem {x y : α} (h : [x, y].Sublist (c :: l)) : y ∈ l := by
      cases h with
      | cons _ h => exact h.subset (by simp)
      | cons_cons _ h => exact h.subset (by simp)
    have htail {x y : α} (h : [x, y].Sublist (c :: l)) (hne : x ≠ c) : [x, y].Sublist l := by
      cases h with
      | cons _ h => exact h
      | cons_cons => exact absurd rfl hne
    have hane : a ≠ c := fun heq => hnodup.1 (heq ▸ hmem hba)
    have hbne : b ≠ c := fun heq => hnodup.1 (heq ▸ hmem hab)
    exact ih hnodup.2 (htail hab hane) (htail hba hbne)

theorem sortBy_precedes [Std.Irrefl r] (hl : l.Pairwise r)
    : (sortBy key l).Pairwise (Precedes r key) := by
  have hnodup : (sortBy key l).Nodup := by
    refine (sortBy_perm key l).symm.nodup (hl.imp fun hr => ?_)
    rintro rfl
    exact Std.Irrefl.irrefl _ hr
  apply List.pairwise_of_forall_sublist
  intro a b hab
  have hle : key a ≤ key b := (sortBy_sorted key l).forall_sublist hab
  rcases lt_or_eq_of_le hle with hlt | heq
  . exact .inl hlt
  . have ha : a ∈ l := (sortBy_perm key l).subset (hab.subset (by simp))
    have hb : b ∈ l := (sortBy_perm key l).subset (hab.subset (by simp))
    have hne : a ≠ b := by
      rintro rfl
      exact List.nodup_iff_sublist.mp hnodup a hab
    rcases pair_or_pair ha hb hne with hab' | hba
    . exact .inr ⟨heq, hl.forall_sublist hab'⟩
    . exact (not_both_orders hnodup hab (sortBy_pair heq.ge hba)).elim

theorem firstTwo_of_pairwise {a b : α} (h : (a :: b :: l).Pairwise r) : FirstTwo (· ∈ a :: b :: l) r a b := by
  obtain ⟨ha, hb⟩ := List.pairwise_cons.mp h
  constructor
  case first => exact List.mem_cons_self
  case second => exact List.mem_cons_of_mem a List.mem_cons_self
  case rel => exact ha b List.mem_cons_self
  case others =>
    intro c hc
    rcases List.mem_cons.mp hc with rfl | hc
    . exact .inl rfl
    . rcases List.mem_cons.mp hc with rfl | hc
      . exact .inr (.inl rfl)
      . exact .inr (.inr ((List.pairwise_cons.mp hb).1 c hc))

namespace FirstTwo

variable {p : α → Prop} {a b a' b' : α}

theorem ne [Std.Irrefl r] (h : FirstTwo p r a b) : a ≠ b := by
  rintro rfl
  exact Std.Irrefl.irrefl a h.rel

theorem first_unique [IsTrans α r] [Std.Irrefl r] (h : FirstTwo p r a b) (h' : FirstTwo p r a' b') : a = a' := by
  by_contra hne
  have hrel : r a a' := by
    rcases h.others a' h'.first with rfl | rfl | hrel
    . exact absurd rfl hne
    . exact h.rel
    . exact IsTrans.trans _ _ _ h.rel hrel
  have hrel' : r a' a := by
    rcases h'.others a h.first with rfl | rfl | hrel'
    . exact absurd rfl hne
    . exact h'.rel
    . exact IsTrans.trans _ _ _ h'.rel hrel'
  exact Std.Irrefl.irrefl a (IsTrans.trans _ _ _ hrel hrel')

theorem second_unique [IsTrans α r] [Std.Irrefl r] (h : FirstTwo p r a b) (h' : FirstTwo p r a' b') : b = b' := by
  have hfirst := h.first_unique h'
  subst hfirst
  have hne {c : α} (hc : r a c) : c ≠ a := by
    rintro rfl
    exact Std.Irrefl.irrefl c hc
  rcases h.others b' h'.second with heq | heq | hrel
  . exact absurd heq (hne h'.rel)
  . exact heq.symm
  . rcases h'.others b h.second with heq | heq | hrel'
    . exact absurd heq (hne h.rel)
    . exact heq
    . exact absurd (IsTrans.trans _ _ _ hrel hrel') (Std.Irrefl.irrefl b)

theorem congr {r' : α → α → Prop} (h : FirstTwo p r a b) (hr : ∀ c d, p c → p d → (r c d ↔ r' c d))
    : FirstTwo p r' a b := by
  refine ⟨h.first, h.second, (hr a b h.first h.second).mp h.rel, fun c hc => ?_⟩
  exact (h.others c hc).imp_right (Or.imp_right (hr b c h.second hc).mp)

end FirstTwo

instance [IsTrans α r] : IsTrans α (Precedes r key) where
  trans a b c hab hbc := by
    rcases hab with hab | ⟨hab, hr⟩ <;> rcases hbc with hbc | ⟨hbc, hr'⟩
    . exact .inl (hab.trans hbc)
    . exact .inl (hab.trans_eq hbc)
    . exact .inl (hab.trans_lt hbc)
    . exact .inr ⟨hab.trans hbc, IsTrans.trans _ _ _ hr hr'⟩

instance [Std.Irrefl r] : Std.Irrefl (Precedes r key) where
  irrefl a h := by
    rcases h with hlt | ⟨_, hr⟩
    . exact lt_irrefl _ hlt
    . exact Std.Irrefl.irrefl a hr

end
