import Mathlib.Tactic
import Jrinx.Util.StableQueue

/-!
This module contains the bitmap priority queue of `util/src/fastpq.rs` and the proof that it refines
the stable priority queue.
-/

namespace Jrinx

abbrev FastPriority := Fin 64

namespace FastPriority

instance : NeZero 64 := ⟨by decide⟩

def max : Nat := 63

end FastPriority

class IntoFastPriority (P : Type) where
  into : P → FastPriority

structure FastPriorityQueue (P I : Type) where
  bits : BitVec 64
  queues : Vector (List (P × I)) 64

namespace FastPriorityQueue

variable {P I : Type} [IntoFastPriority P]

def new : FastPriorityQueue P I where
  bits := 0#64
  queues := Vector.replicate 64 []

def items (q : FastPriorityQueue P I) (p : FastPriority) : List (P × I) := q.queues[p.val]

def enqueue (q : FastPriorityQueue P I) (priority : P) (item : I) : FastPriorityQueue P I :=
  let pri := IntoFastPriority.into priority
  {
    bits := q.bits ||| (1#64 <<< pri.val)
    queues := q.queues.set pri.val (q.queues[pri.val] ++ [(priority, item)])
  }

def highestPriority (bits : BitVec 64) : FastPriority :=
  -- The queue that `dequeue` takes an item from, `FastPriority::MAX - bits.leading_zeros()`.
  ⟨FastPriority.max - bits.clz.toNat, by unfold FastPriority.max; omega⟩

def dequeue (q : FastPriorityQueue P I) : Option (P × I) × FastPriorityQueue P I :=
  if q.bits = 0#64 then
    (none, q)
  else
    let highest := highestPriority q.bits
    match q.queues[highest.val] with
    | [] => (none, q)
    | result :: rest =>
      let queues := q.queues.set highest.val rest
      if rest.isEmpty then
        (some result, { bits := q.bits &&& ~~~(1#64 <<< highest.val), queues })
      else
        (some result, { q with queues })

def key (e : P × I) : FastPriority := IntoFastPriority.into e.1

/--
The queue holds exactly the items of `l`, every priority class in the order of arrival, and its
bitmap marks the classes that hold an item.
-/
structure Refines (q : FastPriorityQueue P I) (l : List (P × I)) : Prop where
  queues_eq : ∀ p : FastPriority, q.queues[p.val] = l.filter (key · = p)
  bits_eq : ∀ p : FastPriority, q.bits.getLsbD p.val = !(q.queues[p.val]).isEmpty

theorem refines_new : (new : FastPriorityQueue P I).Refines [] := by
  constructor
  . simp [new]
  . simp [new]

theorem Refines.enqueue {q : FastPriorityQueue P I} {l : List (P × I)} (h : q.Refines l)
    (priority : P) (item : I)
    : (q.enqueue priority item).Refines (StableQueue.enqueue l (priority, item)) := by
  rw [StableQueue.enqueue_eq]
  constructor
  . intro p
    simp only [FastPriorityQueue.enqueue, Vector.getElem_set, List.filter_append]
    split
    . next heq =>
      have hp : IntoFastPriority.into priority = p := Fin.ext heq
      have hkey : key (priority, item) = p := hp
      simp [h.queues_eq, hkey, hp]
    . next hne =>
      have hp : IntoFastPriority.into priority ≠ p := fun heq => hne (congrArg Fin.val heq)
      have hkey : key (priority, item) ≠ p := hp
      simp [h.queues_eq, hkey]
  . intro p
    have hbit := h.bits_eq p
    simp only [FastPriorityQueue.enqueue, Vector.getElem_set, BitVec.getLsbD_or, hbit]
    split
    . next heq => simp [← heq]
    . next hne =>
      have hlt := p.isLt
      have : (1#64 <<< (IntoFastPriority.into priority : FastPriority).val).getLsbD p.val = false := by
        simp only [BitVec.getLsbD_shiftLeft, BitVec.getLsbD_one]
        simp
        omega
      rw [this, Bool.or_false]

theorem getLsbD_highestPriority {bits : BitVec 64} (h : bits ≠ 0#64)
    : bits.getLsbD (highestPriority bits).val = true := by
  have := BitVec.getLsbD_true_clz_of_ne_zero (by omega) h
  simpa [highestPriority, FastPriority.max] using this

theorem le_highestPriority {bits : BitVec 64} {p : FastPriority} (h : bits.getLsbD p.val = true)
    : p ≤ highestPriority bits := by
  have hlt : bits.toNat < 2 ^ (64 - bits.clz.toNat) := BitVec.toNat_lt_two_pow_sub_clz
  have hge : 2 ^ p.val ≤ bits.toNat := Nat.ge_two_pow_of_testBit h
  have hpow : (2 : Nat) ^ p.val < 2 ^ (64 - bits.clz.toNat) := Nat.lt_of_le_of_lt hge hlt
  have := (Nat.pow_lt_pow_iff_right (by omega)).mp hpow
  simp only [highestPriority, FastPriority.max, Fin.le_def]
  omega

theorem Refines.bits_eq_zero_iff {q : FastPriorityQueue P I} {l : List (P × I)} (h : q.Refines l)
    : q.bits = 0#64 ↔ l = [] := by
  constructor
  . intro hzero
    rw [List.eq_nil_iff_forall_not_mem]
    intro e he
    have hbit := h.bits_eq (key e)
    rw [hzero, h.queues_eq] at hbit
    simp only [BitVec.getLsbD_zero, Bool.false_eq, Bool.not_eq_false', List.isEmpty_iff] at hbit
    have := List.filter_eq_nil_iff.mp hbit e he
    simp at this
  . intro hnil
    subst hnil
    apply BitVec.eq_of_getLsbD_eq
    intro i hi
    have hbit := h.bits_eq ⟨i, hi⟩
    rw [h.queues_eq] at hbit
    simpa using hbit

theorem Refines.key_le_highestPriority {q : FastPriorityQueue P I} {l : List (P × I)}
    (h : q.Refines l) {e : P × I} (he : e ∈ l)
    : key e ≤ highestPriority q.bits := by
  apply le_highestPriority
  rw [h.bits_eq, h.queues_eq]
  simp only [Bool.not_eq_eq_eq_not, Bool.not_true, List.isEmpty_eq_false_iff_exists_mem]
  exact ⟨e, by simpa using he⟩

theorem Refines.dequeue_queues {q : FastPriorityQueue P I} {l l' : List (P × I)} (h : q.Refines l)
    (hbits : q.bits ≠ 0#64) {high : FastPriority} (hhigh : highestPriority q.bits = high)
    {e : P × I} {rest : List (P × I)} (hqueue : q.queues[high.val] = e :: rest)
    (hother : ∀ p : FastPriority, p ≠ high → l'.filter (key · = p) = l.filter (key · = p))
    (hrest : l'.filter (key · = high) = rest)
    : q.dequeue.2.Refines l' := by
  have hqueues : ∀ p : FastPriority, q.dequeue.2.queues[p.val] = l'.filter (key · = p) := by
    intro p
    have : q.dequeue.2.queues = q.queues.set high.val rest := by
      simp only [dequeue, hbits, if_false, hhigh, hqueue]
      split <;> rfl
    simp only [this, Vector.getElem_set]
    split
    . next heq => rw [← hrest, Fin.ext heq]
    . next hne => rw [h.queues_eq, hother p (fun heq => hne (congrArg Fin.val heq.symm))]
  constructor
  . exact hqueues
  . intro p
    rw [hqueues]
    by_cases hp : p = high
    . subst hp
      have hlt := p.isLt
      have hset := getLsbD_highestPriority hbits
      rw [hhigh] at hset
      rw [hrest]
      simp only [dequeue, hbits, if_false, hhigh, hqueue]
      split
      . next hempty => simp [hempty]
      . next hempty => simp [hempty, hset]
    . have hbit : q.dequeue.2.bits.getLsbD p.val = q.bits.getLsbD p.val := by
        simp only [dequeue, hbits, if_false, hhigh, hqueue]
        split
        . have hne : high.val ≠ p.val := fun heq => hp (Fin.ext heq.symm)
          simp
          omega
        . rfl
      rw [hbit, h.bits_eq, h.queues_eq, hother p hp]

theorem Refines.dequeue {q : FastPriorityQueue P I} {l : List (P × I)} (h : q.Refines l)
    : (l = [] ∧ q.dequeue = (none, q))
        ∨
      (∃ e l', StableQueue.dequeue key l = some (e, l')
        ∧ q.dequeue.1 = some e ∧ q.dequeue.2.Refines l') := by
  by_cases hbits : q.bits = 0#64
  . exact .inl ⟨h.bits_eq_zero_iff.mp hbits, by simp [FastPriorityQueue.dequeue, hbits]⟩
  have hset := getLsbD_highestPriority hbits
  generalize hhigh : highestPriority q.bits = high at hset
  have hfilter := h.queues_eq high
  have hsome := h.bits_eq high
  rw [hset] at hsome
  cases hqueue : q.queues[high.val] with
  | nil => simp [hqueue] at hsome
  | cons e rest =>
    rw [hqueue] at hfilter
    obtain ⟨before, after, hl, hbefore, hkey, hafter⟩ := List.filter_eq_cons_iff.mp hfilter.symm
    have hkey : key e = high := by simpa using hkey
    have hle : ∀ y ∈ l, key y ≤ key e := by
      intro y hy
      rw [hkey, ← hhigh]
      exact h.key_le_highestPriority hy
    have hnext : StableQueue.IsNext key before e after := by
      constructor
      . intro y hy
        have hne : key y ≠ key e := by simpa [hkey] using hbefore y hy
        exact lt_of_le_of_ne (hle y (by simp [hl, hy])) hne
      . intro y hy
        exact hle y (by simp [hl, hy])
    refine .inr ⟨e, before ++ after, ?_, ?_, ?_⟩
    . rw [hl, hnext.dequeue_eq]
    . simp only [FastPriorityQueue.dequeue, hbits, if_false, hhigh, hqueue]
      split <;> rfl
    . apply h.dequeue_queues hbits hhigh hqueue
      . intro p hp
        have : key e ≠ p := by rw [hkey]; exact hp.symm
        simp [hl, this]
      . rw [List.filter_append, hafter, List.filter_eq_nil_iff.mpr, List.nil_append]
        intro y hy
        simpa using hbefore y hy

def run (q : FastPriorityQueue P I) (ops : List (StableQueue.Op (P × I)))
    : List (Option (P × I)) × FastPriorityQueue P I :=
  match ops with
  | [] => ([], q)
  | .enqueue (priority, item) :: ops => (q.enqueue priority item).run ops
  | .dequeue :: ops => (q.dequeue.1 :: (q.dequeue.2.run ops).1, (q.dequeue.2.run ops).2)

theorem Refines.run {q : FastPriorityQueue P I} {l : List (P × I)} (h : q.Refines l)
    (ops : List (StableQueue.Op (P × I)))
    : (q.run ops).1 = (StableQueue.run key l ops).1 ∧
        (q.run ops).2.Refines (StableQueue.run key l ops).2 := by
  induction ops generalizing q l with
  | nil => exact ⟨rfl, h⟩
  | cons op ops ih =>
    cases op with
    | enqueue e => exact ih (h.enqueue e.1 e.2)
    | dequeue =>
      rcases h.dequeue with ⟨rfl, hnone⟩ | ⟨e, l', hsome, hresult, hrest⟩
      . obtain ⟨hresults, hrefines⟩ := ih h
        simp only [FastPriorityQueue.run, StableQueue.run, StableQueue.dequeue, hnone]
        exact ⟨by rw [hresults], hrefines⟩
      . obtain ⟨hresults, hrefines⟩ := ih hrest
        simp only [FastPriorityQueue.run, StableQueue.run, hsome, hresult]
        exact ⟨by rw [hresults], hrefines⟩

theorem Refines.perm {q : FastPriorityQueue P I} {l : List (P × I)} (h : q.Refines l)
    : l.Perm ((List.finRange 64).flatMap q.items) := by
  have hitems : q.items = fun p => l.filter (key · = p) := by
    funext p
    exact h.queues_eq p
  rw [hitems]
  exact StableQueue.perm_flatMap_filter key l

/--
A history of operations has the results of the reference queue. What was put in is what was taken out
and what is left, and the bitmap marks the classes that hold an item.
-/
theorem run_new (ops : List (StableQueue.Op (P × I)))
    : (new.run ops).1 = (StableQueue.run key [] ops).1 ∧
        (ops.filterMap StableQueue.Op.item?).Perm
          ((new.run ops).1.filterMap id ++ (List.finRange 64).flatMap (new.run ops).2.items) ∧
        ∀ p : FastPriority,
          (new.run ops).2.bits.getLsbD p.val = true ↔ (new.run ops).2.items p ≠ [] := by
  obtain ⟨hresults, hrefines⟩ := refines_new.run (P := P) (I := I) ops
  refine ⟨hresults, ?_, ?_⟩
  . rw [hresults]
    calc
      ops.filterMap StableQueue.Op.item?
        |>.Perm _ := StableQueue.run_perm key [] ops
      _ |>.Perm _ := hrefines.perm.append_left _
  . intro p
    rw [hrefines.bits_eq p]
    simp [items]

end FastPriorityQueue

end Jrinx
