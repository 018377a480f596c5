import Mathlib.Tactic
import Jrinx.Util.Exclusive
import Jrinx.Util.Outcome

/-!
This module contains threads that take and release spin locks, the invariants of their runs, and rules to
prove that they do not wait for each other in a cycle and that they do not nest two locks in both orders at the
same time. What a thread is going to do is a list of operations on the locks, and the order in which it nests
them is given by a relation.
-/

universe u v

inductive LockOp (α : Type v) where
  | acquire (lock : α)
  | release (lock : α)
  deriving DecidableEq, Repr

def LockOp.acquired {α : Type v} (op : LockOp α) : Option α :=
  match op with
  | .acquire lock => some lock
  | .release _ => none

def takenBefore {α : Type v} [DecidableEq α] (lock : α) (ops : List (LockOp α)) : List α :=
  (ops.takeWhile (· ≠ .release lock)).filterMap LockOp.acquired

section

variable {α : Type v} [DecidableEq α] {a b : α} {ops : List (LockOp α)}

theorem takenBefore_acquire : takenBefore a (.acquire b :: ops) = b :: takenBefore a ops := by
  rw [takenBefore, List.takeWhile_cons_of_pos (by simp)]
  rfl

theorem takenBefore_release (h : b ≠ a) : takenBefore a (.release b :: ops) = takenBefore a ops := by
  rw [takenBefore, List.takeWhile_cons_of_pos (by simpa using h)]
  rfl

end

structure LockThread (α : Type v) where
  -- The lock that was taken last comes first.
  held : List α
  rest : List (LockOp α)
  deriving DecidableEq, Repr

namespace LockThread

variable {α : Type v}

def idle : LockThread α where
  held := []
  rest := []

def wants (t : LockThread α) : Option α :=
  match t.rest with
  | .acquire lock :: _ => some lock
  | _ => none

def advance [DecidableEq α] (t : LockThread α) : LockThread α :=
  match t.rest with
  | [] => t
  | .acquire lock :: rest => { held := lock :: t.held, rest }
  | .release lock :: rest => { held := t.held.erase lock, rest }

variable [DecidableEq α]

-- The thread has `a`, and takes `b` before it releases it.
def Inside (t : LockThread α) (a b : α) : Prop := a ∈ t.held ∧ b ∈ takenBefore a t.rest

-- The next operation takes `a`, and `b` is taken before `a` is released.
def Enters (t : LockThread α) (a b : α) : Prop := t.wants = some a ∧ b ∈ takenBefore a t.rest.tail

instance (t : LockThread α) (a b : α) : Decidable (t.Inside a b) := inferInstanceAs (Decidable (_ ∧ _))

theorem inside_of_wants {t : LockThread α} {a b : α} (hheld : a ∈ t.held) (hwants : t.wants = some b)
    : t.Inside a b := by
  refine ⟨hheld, ?_⟩
  unfold wants at hwants
  split at hwants
  next hrest =>
    rw [hrest, takenBefore_acquire, Option.some.inj hwants]
    exact List.mem_cons_self
  next => cases hwants

theorem Inside.of_advance {t : LockThread α} {a b : α} (hnodup : t.held.Nodup) (h : t.advance.Inside a b)
    : t.Inside a b ∨ t.Enters a b := by
  obtain ⟨hheld, hrest⟩ := h
  match hops : t.rest with
  | [] =>
    simp only [advance, hops] at hheld hrest
    cases hrest
  | .acquire lock :: rest =>
    simp only [advance, hops] at hheld hrest
    rcases List.mem_cons.mp hheld with rfl | hheld
    . refine .inr ⟨by simp only [wants, hops], ?_⟩
      rwa [hops]
    . refine .inl ⟨hheld, ?_⟩
      rw [hops, takenBefore_acquire]
      exact List.mem_cons_of_mem _ hrest
  | .release lock :: rest =>
    simp only [advance, hops] at hheld hrest
    have hne : lock ≠ a := by
      rintro rfl
      exact hnodup.not_mem_erase hheld
    refine .inl ⟨List.mem_of_mem_erase hheld, ?_⟩
    rwa [hops, takenBefore_release hne]

end LockThread

def critical {α : Type v} (lock : α) (body : List (LockOp α)) : List (LockOp α) :=
  .acquire lock :: (body ++ [.release lock])

/--
Every lock is taken in a way that `nests` allows while the others are held, and the locks are released in
the opposite order.
-/
def Follows {α : Type v} (nests : List α → α → Prop) (held : List α) (ops : List (LockOp α)) : Prop :=
  match ops with
  | [] => held = []
  | .acquire lock :: ops => nests held lock ∧ Follows nests (lock :: held) ops
  | .release lock :: ops => ∃ held', held = lock :: held' ∧ Follows nests held' ops

theorem Follows.nests_of_wants {α : Type v} {nests : List α → α → Prop} {t : LockThread α} {lock : α}
    (h : Follows nests t.held t.rest) (hwants : t.wants = some lock)
    : nests t.held lock := by
  unfold LockThread.wants at hwants
  split at hwants
  . next hrest =>
    obtain rfl : _ = lock := by simpa using hwants
    rw [hrest] at h
    exact h.1
  . simp at hwants

def Bracketed {α : Type v} (nests : List α → α → Prop) (held : List α) (ops : List (LockOp α)) : Prop :=
  ∀ rest, Follows nests held rest → Follows nests held (ops ++ rest)

namespace Bracketed

variable {α : Type v} {nests : List α → α → Prop} {held : List α} {lock : α} {ops ops' : List (LockOp α)}

theorem nil : Bracketed nests held [] := fun _ h => h

theorem append (h : Bracketed nests held ops) (h' : Bracketed nests held ops')
    : Bracketed nests held (ops ++ ops') := by
  intro rest hrest
  rw [List.append_assoc]
  exact h _ (h' _ hrest)

theorem critical (hnests : nests held lock) (h : Bracketed nests (lock :: held) ops)
    : Bracketed nests held (critical lock ops) := by
  intro rest hrest
  have hbody : Follows nests (lock :: held) (ops ++ ([.release lock] ++ rest)) :=
    h _ ⟨held, rfl, hrest⟩
  rw [← List.append_assoc] at hbody
  exact ⟨hnests, hbody⟩

theorem flatMap {β : Type u} {l : List β} {f : β → List (LockOp α)}
    (h : ∀ b ∈ l, Bracketed nests held (f b))
    : Bracketed nests held (l.flatMap f) := by
  induction l with
  | nil => exact nil
  | cons b l ih => exact (h b (by simp)).append (ih fun b hb => h b (by simp [hb]))

theorem ite {c : Prop} [Decidable c] (h : c → Bracketed nests held ops)
    (h' : ¬ c → Bracketed nests held ops')
    : Bracketed nests held (if c then ops else ops') := by
  split
  . next hc => exact h hc
  . next hc => exact h' hc

theorem follows (h : Bracketed nests [] ops) : Follows nests [] ops := by
  have hnil : Follows nests [] [] := rfl
  simpa using h [] hnil

end Bracketed

structure LockSystem (ι : Type u) (α : Type v) where
  locked : α → Bool
  threads : ι → LockThread α

namespace LockSystem

variable {ι : Type u} {α : Type v}

def init : LockSystem ι α where
  locked _ := false
  threads _ := .idle

def Waits (s : LockSystem ι α) (i j : ι) : Prop :=
  ∃ lock, (s.threads i).wants = some lock ∧ lock ∈ (s.threads j).held

/--
There is a cycle of threads, each of them waits for a lock that the next one holds.
-/
def Deadlocked (s : LockSystem ι α) : Prop := ∃ i, Relation.TransGen s.Waits i i

theorem deadlocked_of_waits {s : LockSystem ι α} {i j : ι} (hij : s.Waits i j) (hji : s.Waits j i)
    : s.Deadlocked :=
  ⟨i, .tail (.single hij) hji⟩

theorem not_deadlocked_of_rank {s : LockSystem ι α} (rank : ι → Nat)
    (h : ∀ i j k, s.Waits i j → s.Waits j k → rank i < rank j)
    : ¬ s.Deadlocked := by
  have hpath {i j k : ι} (hij : Relation.TransGen s.Waits i j) (hjk : s.Waits j k)
      : rank i < rank j := by
    induction hij generalizing k with
    | single hij => exact h _ _ _ hij hjk
    | tail hij hjk' ih => exact (ih hjk').trans (h _ _ _ hjk' hjk)
  rintro ⟨i, hcycle⟩
  obtain ⟨j, hij, _⟩ := Relation.TransGen.head'_iff.mp hcycle
  exact absurd (hpath hcycle hij) (Nat.lt_irrefl _)

/--
Every lock that a thread holds is taken, and nobody else holds it. What the threads still do is in the
order that `nests` allows.
-/
structure Sound (nests : List α → α → Prop) (s : LockSystem ι α) : Prop where
  exclusive : Exclusive (fun i => (s.threads i).held) (fun lock => s.locked lock = true)
  follows : ∀ i, Follows nests (s.threads i).held (s.threads i).rest

theorem sound_init {nests : List α → α → Prop} : Sound nests (init : LockSystem ι α) := by
  refine ⟨⟨?_, ?_, ?_⟩, fun _ => rfl⟩
  . simp [init, LockThread.idle]
  . simp [init, LockThread.idle]
  . simp [init, LockThread.idle]

theorem Sound.held_of_rest_nil {nests : List α → α → Prop} {s : LockSystem ι α} {i : ι}
    (h : s.Sound nests) (hrest : (s.threads i).rest = [])
    : (s.threads i).held = [] := by
  have hfollows := h.follows i
  rw [hrest] at hfollows
  exact hfollows

variable [DecidableEq ι]

def setThread (s : LockSystem ι α) (i : ι) (t : LockThread α) : LockSystem ι α :=
  { s with threads := Function.update s.threads i t }

def start (s : LockSystem ι α) (i : ι) (ops : List (LockOp α)) : Outcome (LockSystem ι α) :=
  match (s.threads i).rest with
  | [] => .next (s.setThread i { s.threads i with rest := ops })
  | _ :: _ => .disabled

section

variable {nests : List α → α → Prop} {s s' : LockSystem ι α} {i : ι}

theorem held_setThread (s : LockSystem ι α) (i : ι) (t : LockThread α)
    : (fun j => ((s.setThread i t).threads j).held)
        = Function.update (fun j => (s.threads j).held) i t.held := by
  funext j
  by_cases hji : j = i
  . simp [setThread, hji]
  . simp [setThread, hji]

theorem follows_setThread {t : LockThread α} (h : s.Sound nests) (ht : Follows nests t.held t.rest) (j : ι)
    : Follows nests ((s.setThread i t).threads j).held ((s.setThread i t).threads j).rest := by
  by_cases hji : j = i
  . simpa [setThread, hji] using ht
  . simpa [setThread, hji] using h.follows j

theorem start_eq_next {ops : List (LockOp α)} (h : s.start i ops = .next s')
    : (s.threads i).rest = [] ∧ s' = s.setThread i { s.threads i with rest := ops } := by
  unfold start at h
  split at h
  . next hrest => exact ⟨hrest, by simpa using h.symm⟩
  . simp at h

theorem Sound.start {ops : List (LockOp α)} (h : s.Sound nests) (hops : Follows nests [] ops)
    (hstart : s.start i ops = .next s')
    : s'.Sound nests := by
  obtain ⟨hrest, rfl⟩ := start_eq_next hstart
  refine ⟨?_, follows_setThread h (by rw [h.held_of_rest_nil hrest]; exact hops)⟩
  rw [held_setThread, Function.update_eq_self]
  exact h.exclusive

end

variable [DecidableEq α]

-- Nothing happens as long as a thread spins.
def advance (s : LockSystem ι α) (i : ι) : Outcome (LockSystem ι α) :=
  match (s.threads i).rest with
  | [] => .disabled
  | .acquire lock :: _ =>
    if s.locked lock then
      .disabled
    else
      .next { s.setThread i (s.threads i).advance with locked := Function.update s.locked lock true }
  | .release lock :: _ =>
    .next { s.setThread i (s.threads i).advance with locked := Function.update s.locked lock false }

section

variable {nests : List α → α → Prop} {s s' : LockSystem ι α} {i : ι} {lock : α} {rest : List (LockOp α)}

theorem Sound.acquire (h : s.Sound nests) (hrest : (s.threads i).rest = .acquire lock :: rest)
    (hfree : s.locked lock = false)
    : Sound nests
        { s.setThread i (s.threads i).advance with locked := Function.update s.locked lock true } := by
  have hadvance : (s.threads i).advance = { held := lock :: (s.threads i).held, rest } := by
    simp [LockThread.advance, hrest]
  have hfollows := h.follows i
  rw [hrest] at hfollows
  refine ⟨?_, follows_setThread h (by rw [hadvance]; exact hfollows.2)⟩
  rw [held_setThread, hadvance]
  refine (h.exclusive.mono ?_).gain (by simp) ?_ (.refl _)
  . intro j a hmem
    by_cases ha : a = lock
    . simp [ha]
    . simpa [ha] using h.exclusive.live_of_mem hmem
  . intro j hmem
    have hlocked : s.locked lock = true := h.exclusive.live_of_mem hmem
    rw [hfree] at hlocked
    cases hlocked

theorem Sound.release (h : s.Sound nests) (hrest : (s.threads i).rest = .release lock :: rest)
    : Sound nests
        { s.setThread i (s.threads i).advance with locked := Function.update s.locked lock false } := by
  have hfollows := h.follows i
  rw [hrest] at hfollows
  obtain ⟨held, hheld, hfollows⟩ := hfollows
  have hadvance : (s.threads i).advance = { held, rest } := by
    simp [LockThread.advance, hrest, hheld]
  refine ⟨?_, follows_setThread h (by rw [hadvance]; exact hfollows)⟩
  have hnodup : (lock :: held).Nodup := hheld ▸ h.exclusive.nodup i
  have hsub : ∀ a ∈ held, a ∈ (s.threads i).held := fun a ha => by simp [hheld, ha]
  rw [held_setThread, hadvance]
  apply (h.exclusive.shrink hsub (List.nodup_cons.mp hnodup).2).mono
  intro j a hmem
  have hne : a ≠ lock := by
    rintro rfl
    rcases Exclusive.mem_update hmem with ⟨_, hmem⟩ | ⟨hji, hmem⟩
    . exact (List.nodup_cons.mp hnodup).1 hmem
    . exact hji (h.exclusive.unique hmem (by simp [hheld]))
  have hlocked : s.locked a = true := by
    rcases Exclusive.mem_update hmem with ⟨_, hmem⟩ | ⟨_, hmem⟩
    . exact h.exclusive.live_of_mem (hsub a hmem)
    . exact h.exclusive.live_of_mem hmem
  simpa [hne] using hlocked

theorem Sound.advance (h : s.Sound nests) (hadvance : s.advance i = .next s') : s'.Sound nests := by
  unfold LockSystem.advance at hadvance
  split at hadvance
  . simp at hadvance
  . next hrest =>
    split at hadvance
    . simp at hadvance
    . next hfree =>
      obtain rfl : _ = s' := by simpa using hadvance
      exact h.acquire hrest (by simpa using hfree)
  . next hrest =>
    obtain rfl : _ = s' := by simpa using hadvance
    exact h.release hrest

theorem threads_of_advance (h : s.advance i = .next s')
    : s'.threads = Function.update s.threads i (s.threads i).advance := by
  unfold advance at h
  split at h
  . simp at h
  . split at h
    . simp at h
    . obtain rfl : _ = s' := by simpa using h
      rfl
  . obtain rfl : _ = s' := by simpa using h
    rfl

def Apart (s : LockSystem ι α) (a b : α) : Prop :=
  ∀ i j, i ≠ j → ¬ ((s.threads i).Inside a b ∧ (s.threads j).Inside b a)

variable {a b : α}

omit [DecidableEq ι] in
theorem apart_init : (init : LockSystem ι α).Apart a b := by
  rintro i j _ ⟨⟨hheld, _⟩, _⟩
  cases hheld

theorem Apart.setThread {t : LockThread α} (h : s.Apart a b) (hthreads : s'.threads = Function.update s.threads i t)
    (hab : ∀ j, j ≠ i → t.Inside a b → ¬ (s.threads j).Inside b a)
    (hba : ∀ j, j ≠ i → t.Inside b a → ¬ (s.threads j).Inside a b)
    : s'.Apart a b := by
  rintro j k hjk ⟨hj, hk⟩
  rw [hthreads] at hj hk
  by_cases hji : j = i
  . subst hji
    rw [Function.update_self] at hj
    rw [Function.update_of_ne (Ne.symm hjk)] at hk
    exact hab k (Ne.symm hjk) hj hk
  . rw [Function.update_of_ne hji] at hj
    by_cases hki : k = i
    . subst hki
      rw [Function.update_self] at hk
      exact hba j hji hk hj
    . rw [Function.update_of_ne hki] at hk
      exact h j k hjk ⟨hj, hk⟩

theorem Apart.start {ops : List (LockOp α)} (h : s.Apart a b) (hsound : s.Sound nests)
    (hstart : s.start i ops = .next s')
    : s'.Apart a b := by
  obtain ⟨hrest, rfl⟩ := start_eq_next hstart
  have hheld := hsound.held_of_rest_nil hrest
  have hnot {a b : α} : ¬ LockThread.Inside { s.threads i with rest := ops } a b := by
    rintro ⟨hmem, _⟩
    simp only [hheld, List.not_mem_nil] at hmem
  exact h.setThread rfl (fun _ _ ht => absurd ht hnot) fun _ _ ht => absurd ht hnot

/--
It is enough to look at a thread where it begins to nest the locks: nobody is between them the other way round.
-/
theorem Apart.advance (h : s.Apart a b) (hsound : s.Sound nests)
    (hab : ∀ j, j ≠ i → (s.threads i).Enters a b → ¬ (s.threads j).Inside b a)
    (hba : ∀ j, j ≠ i → (s.threads i).Enters b a → ¬ (s.threads j).Inside a b)
    (hadvance : s.advance i = .next s')
    : s'.Apart a b := by
  refine h.setThread (threads_of_advance hadvance) ?_ ?_
  . intro j hji hi hj
    rcases hi.of_advance (hsound.exclusive.nodup i) with hi | hi
    . exact h i j (Ne.symm hji) ⟨hi, hj⟩
    . exact hab j hji hi hj
  . intro j hji hi hj
    rcases hi.of_advance (hsound.exclusive.nodup i) with hi | hi
    . exact h j i hji ⟨hj, hi⟩
    . exact hba j hji hi hj

end

end LockSystem
