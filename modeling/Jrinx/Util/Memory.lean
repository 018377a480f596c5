import Mathlib.Tactic

/-!
This module contains a memory of bytes with loads and stores of double words, and slots of double words
that follow each other.
-/

abbrev Memory := BitVec 64 → BitVec 8

namespace Memory

variable {mem mem' : Memory} {a b c base : BitVec 64} {v : BitVec 64} {k n : Nat}

-- Little endian.
def load (mem : Memory) (a : BitVec 64) : BitVec 64 :=
  mem (a + 7#64) ++ mem (a + 6#64) ++ mem (a + 5#64) ++ mem (a + 4#64) ++ mem (a + 3#64) ++
    mem (a + 2#64) ++ mem (a + 1#64) ++ mem a

def store (mem : Memory) (a v : BitVec 64) : Memory := fun b =>
  if (b - a).toNat < 8 then v.extractLsb' (8 * (b - a).toNat) 8 else mem b

def Span (a : BitVec 64) (n : Nat) (b : BitVec 64) : Prop := (b - a).toNat < n

-- The address `b` is one of the `n` addresses before `a`.
def Below (a : BitVec 64) (n : Nat) (b : BitVec 64) : Prop := (a - 1 - b).toNat < n

theorem span_add {i : Nat} (hi : i < n) (hn : n ≤ 2 ^ 64) : Span a n (a + BitVec.ofNat 64 i) := by
  have hsub : a + BitVec.ofNat 64 i - a = BitVec.ofNat 64 i := by
    rw [BitVec.add_comm, BitVec.add_sub_cancel]
  rw [Span, hsub, BitVec.toNat_ofNat, Nat.mod_eq_of_lt (by omega)]
  exact hi

theorem span_sub_iff : Span (a + -BitVec.ofNat 64 n) n b ↔ Below a n b := by
  unfold Span Below
  generalize hx : (b - (a + -BitVec.ofNat 64 n)).toNat = x
  bv_omega

theorem Below.mono {m : Nat} (h : Below a n b) (hle : n ≤ m) : Below a m b := Nat.lt_of_lt_of_le h hle

theorem Below.add {m : Nat} (h : Below (a + -BitVec.ofNat 64 n) m b) : Below a (n + m) b := by
  unfold Below at *
  bv_omega

theorem Span.not_below {m : Nat} (h : Span a m b) (hle : m + n ≤ 2 ^ 64) : ¬ Below a n b := by
  unfold Span Below at *
  bv_omega

theorem add_le_of_not_below {m : Nat} (hpos : 0 < m) (hm : m ≤ 2 ^ 64) (h : ∀ b, Span a m b → ¬ Below c n b)
    : m + n ≤ 2 ^ 64 := by
  by_contra hlt
  have hfirst := h a (by unfold Span; bv_omega)
  unfold Below at hfirst
  have hspan : Span a m (a + BitVec.ofNat 64 ((c - 1 - a).toNat - n + 1)) := by
    apply span_add _ hm
    have := (c - 1 - a).isLt
    omega
  have hmeet := h _ hspan
  unfold Below at hmeet
  bv_omega

theorem exists_span_apart {m : Nat} (hle : m + 2 * n + 16 ≤ 2 ^ 64)
    : ∃ a, ∀ x, Span a 8 x → ¬ Span b m x ∧ ¬ Span c n x := by
  by_cases hfree : ∀ x, Span (b + BitVec.ofNat 64 m) 8 x → ¬ Span c n x
  . refine ⟨b + BitVec.ofNat 64 m, fun x hx => ⟨?_, hfree x hx⟩⟩
    unfold Span at *
    bv_omega
  . push Not at hfree
    obtain ⟨y, hy, hy'⟩ := hfree
    refine ⟨b + BitVec.ofNat 64 (m + n + 8), fun x hx => ⟨?_, ?_⟩⟩
    . unfold Span at *
      bv_omega
    . unfold Span at *
      bv_omega

theorem store_add {i : Nat} (hi : i < 8)
    : store mem a v (a + BitVec.ofNat 64 i) = v.extractLsb' (8 * i) 8 := by
  have hsub : (a + BitVec.ofNat 64 i - a).toNat = i := by
    rw [BitVec.add_comm, BitVec.add_sub_cancel, BitVec.toNat_ofNat, Nat.mod_eq_of_lt (by omega)]
  simp only [store, hsub, hi, if_true]

theorem load_congr (h : ∀ b, Span a 8 b → mem b = mem' b) : load mem a = load mem' a := by
  have hbyte (i : Nat) (hi : i < 8) : mem (a + BitVec.ofNat 64 i) = mem' (a + BitVec.ofNat 64 i) :=
    h _ (span_add hi (by decide))
  have h0 : mem a = mem' a := by simpa using hbyte 0 (by decide)
  simp only [load]
  rw [h0, hbyte 1 (by decide), hbyte 2 (by decide), hbyte 3 (by decide), hbyte 4 (by decide),
    hbyte 5 (by decide), hbyte 6 (by decide), hbyte 7 (by decide)]

@[simp]
theorem load_store_self : load (store mem a v) a = v := by
  have hbyte (i : Nat) (hi : i < 8)
      : store mem a v (a + BitVec.ofNat 64 i) = v.extractLsb' (8 * i) 8 :=
    store_add hi
  have h0 : store mem a v a = v.extractLsb' 0 8 := by simpa using hbyte 0 (by decide)
  simp only [load]
  rw [h0, hbyte 1 (by decide), hbyte 2 (by decide), hbyte 3 (by decide), hbyte 4 (by decide),
    hbyte 5 (by decide), hbyte 6 (by decide), hbyte 7 (by decide)]
  simp only [BitVec.extractLsb'_append_extractLsb'_eq_extractLsb', BitVec.extractLsb'_eq_self]

theorem store_of_not_span (h : ¬ Span a 8 b) : store mem a v b = mem b := by
  unfold Span at h
  rw [store, if_neg h]

theorem load_store_of_disjoint (h : ∀ c, Span b 8 c → ¬ Span a 8 c)
    : load (store mem a v) b = load mem b :=
  load_congr fun c hc => store_of_not_span (h c hc)

def slot (base : BitVec 64) (k : Nat) : BitVec 64 := base + BitVec.ofNat 64 (8 * k)

def storeSlots (mem : Memory) (base : BitVec 64) (l : List (Nat × BitVec 64)) : Memory :=
  l.foldl (fun mem p => mem.store (slot base p.1) p.2) mem

theorem storeSlots_cons (p : Nat × BitVec 64) (l : List (Nat × BitVec 64))
    : storeSlots mem base (p :: l) = storeSlots (mem.store (slot base p.1) p.2) base l :=
  rfl

theorem storeSlots_append (l l' : List (Nat × BitVec 64))
    : storeSlots mem base (l ++ l') = storeSlots (storeSlots mem base l) base l' :=
  List.foldl_append

theorem span_slot_iff (hk : k < 2 ^ 60)
    : Span (slot base k) 8 b ↔ 8 * k ≤ (b - base).toNat ∧ (b - base).toNat < 8 * k + 8 := by
  have hsub : b - slot base k = b - base - BitVec.ofNat 64 (8 * k) := by
    rw [slot]
    bv_omega
  have hlt : (b - base).toNat < 2 ^ 64 := BitVec.isLt _
  rw [Span, hsub, BitVec.toNat_sub, BitVec.toNat_ofNat]
  generalize (b - base).toNat = x at *
  omega

theorem span_of_span_slot (hk : k < n) (hn : n ≤ 2 ^ 60) (h : Span (slot base k) 8 b)
    : Span base (8 * n) b := by
  rw [span_slot_iff (by omega)] at h
  unfold Span
  omega

theorem load_slot_congr (hk : k < n) (hn : n ≤ 2 ^ 60) (h : ∀ b, Span base (8 * n) b → mem b = mem' b)
    : load mem (slot base k) = load mem' (slot base k) :=
  load_congr fun b hb => h b (span_of_span_slot hk hn hb)

theorem load_slot_store_slot {j : Nat} (hk : k < 2 ^ 60) (hj : j < 2 ^ 60) (hne : k ≠ j)
    : load (store mem (slot base k) v) (slot base j) = load mem (slot base j) := by
  apply load_store_of_disjoint
  intro c hc hc'
  rw [span_slot_iff hj] at hc
  rw [span_slot_iff hk] at hc'
  omega

section

variable {l : List (Nat × BitVec 64)}

theorem load_storeSlots_of_not_mem (hlt : ∀ p ∈ l, p.1 < 2 ^ 60) (hk : k < 2 ^ 60)
    (hmem : k ∉ l.map Prod.fst)
    : load (storeSlots mem base l) (slot base k) = load mem (slot base k) := by
  induction l generalizing mem with
  | nil => rfl
  | cons p l ih =>
    simp only [List.map_cons, List.mem_cons, not_or] at hmem
    rw [storeSlots_cons, ih (fun q hq => hlt q (List.mem_cons_of_mem p hq)) hmem.2]
    exact load_slot_store_slot (hlt p List.mem_cons_self) hk (Ne.symm hmem.1)

theorem load_storeSlots_of_mem (hlt : ∀ p ∈ l, p.1 < 2 ^ 60) (hnodup : (l.map Prod.fst).Nodup)
    (hmem : (k, v) ∈ l)
    : load (storeSlots mem base l) (slot base k) = v := by
  induction l generalizing mem with
  | nil => simp at hmem
  | cons p l ih =>
    have hlt' : ∀ q ∈ l, q.1 < 2 ^ 60 := fun q hq => hlt q (List.mem_cons_of_mem p hq)
    rw [List.map_cons, List.nodup_cons] at hnodup
    rcases List.mem_cons.mp hmem with rfl | hmem
    . have hk : k < 2 ^ 60 := hlt (k, v) List.mem_cons_self
      rw [storeSlots_cons, load_storeSlots_of_not_mem hlt' hk hnodup.1, load_store_self]
    . rw [storeSlots_cons]
      exact ih hlt' hnodup.2 hmem

theorem storeSlots_of_not_span (hlt : ∀ p ∈ l, p.1 < n) (hn : n ≤ 2 ^ 60) (h : ¬ Span base (8 * n) b)
    : storeSlots mem base l b = mem b := by
  induction l generalizing mem with
  | nil => rfl
  | cons p l ih =>
    have hp : p.1 < n := hlt p List.mem_cons_self
    rw [storeSlots_cons, ih fun q hq => hlt q (List.mem_cons_of_mem p hq)]
    apply store_of_not_span
    rw [span_slot_iff (by omega)]
    unfold Span at h
    omega

end

def loadSlots {ρ : Type} [DecidableEq ρ] (mem : Memory) (base : BitVec 64) (l : List (ρ × Nat))
    (regs : ρ → BitVec 64) : ρ → BitVec 64 :=
  l.foldl (fun regs p => Function.update regs p.1 (mem.load (slot base p.2))) regs

section

variable {ρ : Type} [DecidableEq ρ] {regs : ρ → BitVec 64} {r : ρ}

theorem loadSlots_cons (p : ρ × Nat) (l : List (ρ × Nat))
    : loadSlots mem base (p :: l) regs =
        loadSlots mem base l (Function.update regs p.1 (mem.load (slot base p.2))) :=
  rfl

theorem loadSlots_of_not_mem {l : List (ρ × Nat)} (h : r ∉ l.map Prod.fst)
    : loadSlots mem base l regs r = regs r := by
  induction l generalizing regs with
  | nil => rfl
  | cons p l ih =>
    simp only [List.map_cons, List.mem_cons, not_or] at h
    rw [loadSlots_cons, ih h.2, Function.update_of_ne h.1]

theorem loadSlots_of_mem {l : List (ρ × Nat)} (hnodup : (l.map Prod.fst).Nodup) (h : (r, k) ∈ l)
    : loadSlots mem base l regs r = mem.load (slot base k) := by
  induction l generalizing regs with
  | nil => simp at h
  | cons p l ih =>
    rw [List.map_cons, List.nodup_cons] at hnodup
    rw [loadSlots_cons]
    rcases List.mem_cons.mp h with rfl | h
    . rw [loadSlots_of_not_mem hnodup.1, Function.update_self]
    . exact ih hnodup.2 h

end

end Memory
