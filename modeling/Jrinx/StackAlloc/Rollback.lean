import Jrinx.StackAlloc.Region

/-!
This module contains the calls of the stack allocator that fail. The block of the call has been taken or
given back before the first callback is called, and nothing of that is undone if one of them fails.
-/

namespace Jrinx

open Std

universe u

variable {σ : Type u}

namespace StackAllocator

structure Unchanged (st st' : StackAllocator × σ × List CallbackCall) : Prop where
  allocated : ∀ top : Nat, st'.1.allocated[top]? = st.1.allocated[top]?
  cached : ∀ size, st'.1.cached.getD size [] = st.1.cached.getD size []
  next : st'.1.next = st.1.next
  mapped : ∀ addr, replay Pages.empty st'.2.2 addr = replay Pages.empty st.2.2 addr

def block? (a : StackAllocator) (call : StackCall) : Option Block :=
  match call with
  | .allocate size =>
    let size := nextMultipleOf size pageSize
    (a.takes? size).map fun base => { base, size }
  | .deallocate top => a.allocated[top]?.map fun size => { base := top - size - a.guardSize, size }

def callback (cb : Callbacks σ) (call : StackCall) : MapperOrUnmapperFn σ :=
  match call with
  | .allocate _ => cb.map
  | .deallocate _ => cb.unmap

def unmaps (call : StackCall) : Bool :=
  match call with
  | .allocate _ => false
  | .deallocate _ => true

def isOk (cb : Callbacks σ) (st : StackAllocator × σ) (call : StackCall) : Bool :=
  match call with
  | .allocate size => (st.1.allocate cb size st.2).1.isOk
  | .deallocate top => (st.1.deallocate cb top st.2).1.isOk

/--
If the call fails, then all is as before, and there is no stack at an address that was not returned.
-/
def RollsBack (cb : Callbacks σ) (st : StackAllocator × σ × List CallbackCall) (call : StackCall) : Prop :=
  isOk cb.traced st call = false → ∀ st', step cb.traced st call = .next st' →
    Unchanged st st' ∧
      ∀ size, call = .allocate size → ∀ b ∈ st.1.block? call, b.top st.1.guardSize ∉ st'.1.allocated

def CallbacksSucceed (cb : Callbacks σ) (st : StackAllocator × σ) (call : StackCall) : Prop :=
  ∀ b ∈ st.1.block? call, (forEach (callback cb call) (b.pages st.1.guardSize) st.2).1.isOk = true

variable {a : StackAllocator} {cb : Callbacks σ} {size top : Nat}

theorem traced_map (cb : Callbacks σ) : cb.traced.map = traced cb.map false := rfl

theorem traced_unmap (cb : Callbacks σ) : cb.traced.unmap = traced cb.unmap true := rfl

theorem forEach_traced_fst (f : MapperOrUnmapperFn σ) (unmap : Bool) (addrs : List Nat) (s : σ)
    (log : List CallbackCall)
    : (forEach (traced f unmap) addrs (s, log)).1 = (forEach f addrs s).1 := by
  induction addrs generalizing s log with
  | nil => rfl
  | cons addr addrs ih =>
    rcases hf : f addr s with ⟨r, s'⟩
    cases r with
    | error e => simp [forEach, traced, hf]
    | ok _ =>
      simp only [forEach, traced, hf]
      exact ih s' _

theorem allocate_taken {base : Nat} (cb : Callbacks σ) (s : σ)
    (htakes : a.takes? (nextMultipleOf size pageSize) = some base)
    : let b : Block := { base, size := nextMultipleOf size pageSize }
      (a.allocate cb size s).2.1.Allocated b ∧ (a.allocate cb size s).2.1.guardSize = a.guardSize ∧
        (a.allocate cb size s).2.2 = (forEach cb.map (b.pages a.guardSize) s).2 ∧
        (a.allocate cb size s).1.isOk = (forEach cb.map (b.pages a.guardSize) s).1.isOk := by
  have hstack (a' : StackAllocator) (hguard : a'.guardSize = a.guardSize)
      : let b : Block := { base, size := nextMultipleOf size pageSize }
        (allocate.mapStack cb a' b.base b.size s).2.1.Allocated b ∧
          (allocate.mapStack cb a' b.base b.size s).2.1.guardSize = a.guardSize ∧
          (allocate.mapStack cb a' b.base b.size s).2.2 = (forEach cb.map (b.pages a.guardSize) s).2 ∧
          (allocate.mapStack cb a' b.base b.size s).1.isOk =
            (forEach cb.map (b.pages a.guardSize) s).1.isOk := by
    refine ⟨?_, ?_, ?_, ?_⟩
    . rw [mapStack_snd]
      exact ExtTreeMap.getElem?_insert_self
    . rw [mapStack_snd]
      exact hguard
    . rw [mapStack_snd, hguard]
    . simp only [allocate.mapStack, Block.pages, hguard]
      split
      next heq => simp [heq, Except.isOk, Except.toBool]
      next heq => simp [heq, Except.isOk, Except.toBool]
  rw [allocate]
  rcases takes?_eq_some htakes with ⟨rest, hcached⟩ | ⟨hcached, rfl, hle⟩
  . rw [hcached]
    exact hstack _ rfl
  . rw [hcached]
    dsimp only
    rw [if_neg (Nat.not_lt.mpr hle)]
    exact hstack _ rfl

theorem allocate_refused {st : StackAllocator × σ × List CallbackCall}
    (htakes : st.1.takes? (nextMultipleOf size pageSize) = none)
    : Unchanged st (st.1.allocate cb.traced size st.2).2 := by
  obtain ⟨hcached, hlt⟩ := takes?_eq_none_iff.mp htakes
  rw [allocate, hcached]
  dsimp only
  rw [if_pos hlt]
  refine ⟨fun _ => rfl, ?_, rfl, fun _ => rfl⟩
  intro size'
  simp only [ExtTreeMap.getD_insert, Nat.compare_eq_eq]
  split
  next heq => rw [← heq, hcached]
  next => rfl

theorem rollsBack_allocate_iff {st : StackAllocator × σ × List CallbackCall}
    : RollsBack cb st (.allocate size) ↔ CallbacksSucceed cb (st.1, st.2.1) (.allocate size) := by
  simp only [RollsBack, CallbacksSucceed, step, isOk, callback, block?, Outcome.next.injEq,
    StackCall.allocate.injEq, forall_eq']
  cases htakes : st.1.takes? (nextMultipleOf size pageSize) with
  | none => simp [allocate_refused htakes]
  | some base =>
    obtain ⟨hallocated, hguard, _, hok⟩ := allocate_taken cb.traced st.2 htakes
    rw [traced_map, forEach_traced_fst] at hok
    simp only [Option.map_some, Option.mem_def, Option.some.injEq, forall_eq']
    constructor
    . intro h
      by_contra hfails
      rw [Bool.not_eq_true, ← hok] at hfails
      obtain ⟨_, hgone⟩ := h hfails
      apply hgone
      rw [Allocated, hguard] at hallocated
      rw [ExtTreeMap.mem_iff_isSome_getElem?, hallocated, Option.isSome_some]
    . intro hsucceeds hfails
      rw [hok, hsucceeds] at hfails
      simp at hfails

theorem deallocate_registered (cb : Callbacks σ) (s : σ) (hsize : a.allocated[top]? = some size)
    : let b : Block := { base := top - size - a.guardSize, size }
      (a.deallocate cb top s).2.1.allocated[top]? = none ∧
        (a.deallocate cb top s).2.2 = (forEach cb.unmap (b.pages a.guardSize) s).2 ∧
        (a.deallocate cb top s).1.isOk = (forEach cb.unmap (b.pages a.guardSize) s).1.isOk := by
  simp only [deallocate, hsize, Block.pages]
  split
  next heq => simp [heq, Except.isOk, Except.toBool]
  next heq => simp [heq, Except.isOk, Except.toBool]

theorem rollsBack_deallocate_iff {st : StackAllocator × σ × List CallbackCall}
    : RollsBack cb st (.deallocate top) ↔ CallbacksSucceed cb (st.1, st.2.1) (.deallocate top) := by
  simp only [RollsBack, CallbacksSucceed, step, isOk, callback, block?, Outcome.next.injEq,
    reduceCtorEq, false_implies, implies_true, and_true, forall_eq']
  cases hsize : st.1.allocated[top]? with
  | none =>
    simp only [Option.map_none, Option.not_mem_none, false_implies, implies_true, iff_true]
    intro _
    rw [deallocate, hsize]
    exact ⟨fun _ => rfl, fun _ => rfl, rfl, fun _ => rfl⟩
  | some size =>
    obtain ⟨hgone, _, hok⟩ := deallocate_registered cb.traced st.2 hsize
    rw [traced_unmap, forEach_traced_fst] at hok
    simp only [Option.map_some, Option.mem_def, Option.some.injEq, forall_eq']
    constructor
    . intro h
      by_contra hfails
      rw [Bool.not_eq_true, ← hok] at hfails
      have hregistered := (h hfails).allocated top
      rw [hgone, hsize] at hregistered
      simp at hregistered
    . intro hsucceeds hfails
      rw [hok, hsucceeds] at hfails
      simp at hfails

/--
A call rolls back if it fails if and only if none of its callbacks fails.
-/
theorem rollsBack_iff_callbacksSucceed (cb : Callbacks σ) (st : StackAllocator × σ × List CallbackCall)
    (call : StackCall)
    : RollsBack cb st call ↔ CallbacksSucceed cb (st.1, st.2.1) call := by
  cases call with
  | allocate size => exact rollsBack_allocate_iff
  | deallocate top => exact rollsBack_deallocate_iff

theorem replay_of_failed {f : MapperOrUnmapperFn σ} {unmap : Bool} {addrs : List Nat} {s : σ}
    {log : List CallbackCall} (hfails : (forEach f addrs s).1.isOk = false)
    : ∃ done addr rest, addrs = done ++ addr :: rest ∧
        ∀ page, replay Pages.empty (forEach (traced f unmap) addrs (s, log)).2.2 page =
          if page ∈ done then !unmap else replay Pages.empty log page := by
  rw [← forEach_traced_fst f unmap addrs s log] at hfails
  obtain ⟨s', hloop⟩ | ⟨s', e, done, addr, rest, heq, hloop⟩ := forEach_traced f unmap addrs s log
  . simp [hloop, Except.isOk, Except.toBool] at hfails
  . refine ⟨done, addr, rest, heq, ?_⟩
    intro page
    rw [hloop, replay_append, replay_append, ← replay_callsOf]
    rfl

/--
What a failed call leaves behind: the pages before the one whose callback fails are mapped or unmapped
already, and all others are as before.
-/
theorem halfDone_of_failed {st st' : StackAllocator × σ × List CallbackCall} {call : StackCall}
    (hstep : step cb.traced st call = .next st') (hfails : ¬ CallbacksSucceed cb (st.1, st.2.1) call)
    : ∃ b ∈ st.1.block? call, ∃ done addr rest, b.pages st.1.guardSize = done ++ addr :: rest ∧
        ∀ page, replay Pages.empty st'.2.2 page =
          if page ∈ done then !unmaps call else replay Pages.empty st.2.2 page := by
  simp only [CallbacksSucceed, not_forall, Bool.not_eq_true] at hfails
  obtain ⟨b, hb, hfails⟩ := hfails
  refine ⟨b, hb, ?_⟩
  cases call with
  | allocate size =>
    obtain rfl := Outcome.next.inj hstep
    obtain ⟨base, htakes, rfl⟩ := Option.map_eq_some_iff.mp hb
    obtain ⟨_, _, hstate, _⟩ := allocate_taken cb.traced st.2 htakes
    rw [hstate]
    exact replay_of_failed hfails
  | deallocate top =>
    obtain rfl := Outcome.next.inj hstep
    obtain ⟨size, hsize, rfl⟩ := Option.map_eq_some_iff.mp hb
    obtain ⟨_, hstate, _⟩ := deallocate_registered cb.traced st.2 hsize
    rw [hstate]
    exact replay_of_failed hfails

-- The callback that is called after `n` others fails.
def failsAt (n : Nat) : Callbacks Nat where
  map := fun _ k => (if k = n then .error .notEnoughMem else .ok (), k + 1)
  unmap := fun _ k => (if k = n then .error .invalidVirtAddr else .ok (), k + 1)

theorem rollsBack_twoPages_false
    : ¬ RollsBack (failsAt 1) (new (0x10000, 0x10000) 0x1000, 0, []) (.allocate 0x2000) ∧
        ∃ st, Run (step (failsAt 3).traced) (allowed 64) (new (0x10000, 0x10000) 0x1000, 0, [])
            [.allocate 0x2000] st ∧
          ¬ RollsBack (failsAt 3) st (.deallocate 0x12000) := by
  constructor
  . intro h
    have hgone := (h (by decide +kernel) _ rfl).2 0x2000 rfl { base := 0xF000, size := 0x2000 }
      (by decide +kernel)
    revert hgone
    decide +kernel
  . obtain ⟨st, hrun, hfails⟩ := exists_run_of_exec (checked (step (failsAt 3).traced) (allowed 64))
      (new (0x10000, 0x10000) 0x1000, 0, []) [.allocate 0x2000]
      (fun st => isOk (failsAt 3).traced st (.deallocate 0x12000) = false &&
        st.1.allocated[0x12000]? = some 0x2000 &&
        (st.1.deallocate (failsAt 3).traced 0x12000 st.2).2.1.allocated[0x12000]? = none)
      (by decide +kernel)
    simp only [Bool.and_eq_true, decide_eq_true_eq] at hfails
    obtain ⟨⟨hfails, hbefore⟩, hafter⟩ := hfails
    refine ⟨st, hrun.of_checked, ?_⟩
    intro h
    have hregistered := (h hfails _ rfl).1.allocated 0x12000
    rw [hafter, hbefore] at hregistered
    simp at hregistered

end StackAllocator

end Jrinx
