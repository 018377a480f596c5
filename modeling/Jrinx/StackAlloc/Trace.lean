import Mathlib.Tactic
import Jrinx.StackAlloc.Layout

/-!
This module contains the calls that the stack allocator makes to its callbacks. All of them are written
down, so that the mapped pages can be read off from them.
-/

namespace Jrinx

open Std

universe u

variable {σ : Type u}

namespace StackAllocator

section Replay

abbrev Pages := Nat → Bool

def Pages.empty : Pages := fun _ => false

def CallbackCall.apply (mapped : Pages) (c : CallbackCall) : Pages :=
  fun addr => if c.ok && c.addr == addr then !c.unmap else mapped addr

def replay (mapped : Pages) (log : List CallbackCall) : Pages := log.foldl CallbackCall.apply mapped

/--
Up to and including the first one that fails, `map` is called for pages that are not mapped and `unmap`
for pages that are mapped.
-/
def Proper (mapped : Pages) (log : List CallbackCall) : Prop :=
  match log with
  | [] => True
  | c :: log => mapped c.addr = c.unmap ∧ (c.ok = true → Proper (c.apply mapped) log)

def AllOk (log : List CallbackCall) : Prop := ∀ c ∈ log, c.ok = true

variable {mapped : Pages} {log log' : List CallbackCall}

@[simp]
theorem replay_append : replay mapped (log ++ log') = replay (replay mapped log) log' := by
  simp [replay]

theorem Proper.append (h : Proper mapped log) (h' : AllOk log → Proper (replay mapped log) log')
    : Proper mapped (log ++ log') := by
  induction log generalizing mapped with
  | nil => exact h' (by simp [AllOk])
  | cons c log ih =>
    refine ⟨h.1, ?_⟩
    intro hok
    apply ih (h.2 hok)
    intro hall
    exact h' (by simpa [AllOk, hok] using hall)

def callsOf (unmap : Bool) (addrs : List Nat) : List CallbackCall :=
  addrs.map (fun addr => { unmap, addr, ok := true })

theorem replay_callsOf {unmap : Bool} {addrs : List Nat} (addr : Nat)
    : replay mapped (callsOf unmap addrs) addr = if addr ∈ addrs then !unmap else mapped addr := by
  induction addrs generalizing mapped with
  | nil => simp [callsOf, replay]
  | cons first addrs ih =>
    have hcons : replay mapped (callsOf unmap (first :: addrs))
        =
      replay (CallbackCall.apply mapped { unmap, addr := first, ok := true })
        (callsOf unmap addrs) := rfl
    rw [hcons, ih]
    rcases eq_or_ne first addr with rfl | hne
    . simp [CallbackCall.apply]
    . simp [CallbackCall.apply, hne, hne.symm]

theorem proper_callsOf {unmap : Bool} {addrs : List Nat} (hnodup : addrs.Nodup)
    (h : ∀ addr ∈ addrs, mapped addr = unmap)
    : Proper mapped (callsOf unmap addrs) := by
  induction addrs generalizing mapped with
  | nil => trivial
  | cons first addrs ih =>
    obtain ⟨hfirst, hnodup⟩ := List.nodup_cons.mp hnodup
    refine ⟨h first (by simp), ?_⟩
    intro _
    apply ih hnodup
    intro addr haddr
    have hne : first ≠ addr := by
      rintro rfl
      exact hfirst haddr
    simp [CallbackCall.apply, hne, h addr (by simp [haddr])]

end Replay

section Loop

variable {f : MapperOrUnmapperFn σ} {unmap : Bool}

theorem forEach_traced (f : MapperOrUnmapperFn σ) (unmap : Bool) (addrs : List Nat) (s : σ) (log : List CallbackCall)
    : (∃ s', forEach (traced f unmap) addrs (s, log)
          =
        (.ok (), s', log ++ callsOf unmap addrs)) ∨
      ∃ s' e done addr rest, addrs = done ++ addr :: rest ∧
        forEach (traced f unmap) addrs (s, log)
          =
        (.error e, s', log ++ (callsOf unmap done ++ [{ unmap, addr, ok := false }])) := by
  induction addrs generalizing s log with
  | nil => exact .inl ⟨s, by simp [forEach, callsOf]⟩
  | cons first addrs ih =>
    rcases hf : f first s with ⟨r, s'⟩
    cases r with
    | error e =>
      refine .inr ⟨s', e, [], first, addrs, rfl, ?_⟩
      simp [forEach, traced, hf, callsOf, Except.toBool]
    | ok _ =>
      have hstep : forEach (traced f unmap) (first :: addrs) (s, log)
          =
        forEach (traced f unmap) addrs (s', log ++ [{ unmap, addr := first, ok := true }]) := by
        simp [forEach, traced, hf, Except.toBool]
      rw [hstep]
      obtain ⟨s'', h⟩ | ⟨s'', e, done, addr, rest, rfl, h⟩ :=
        ih s' (log ++ [{ unmap, addr := first, ok := true }])
      . exact .inl ⟨s'', by simp [h, callsOf]⟩
      . exact .inr ⟨s'', e, first :: done, addr, rest, rfl, by simp [h, callsOf]⟩

theorem proper_failed {mapped : Pages} {done rest : List Nat} {addr : Nat}
    (hnodup : (done ++ addr :: rest).Nodup) (h : ∀ a ∈ done ++ addr :: rest, mapped a = unmap)
    : Proper mapped (callsOf unmap done ++ [{ unmap, addr, ok := false }]) := by
  have hdone : addr ∉ done := by
    intro hmem
    exact (List.nodup_append.mp hnodup).2.2 addr hmem addr (by simp) rfl
  apply Proper.append
  . apply proper_callsOf
    . exact (List.nodup_append.mp hnodup).1
    . intro a ha
      exact h a (by simp [ha])
  . intro _
    simp [Proper, replay_callsOf, hdone, h addr (by simp)]

end Loop

variable {a : StackAllocator} {b b' : Block}

-- A page that is or was one of a stack: it is in no guard.
structure StackPage (a : StackAllocator) (addr : Nat) : Prop where
  le_next : addr + pageSize ≤ a.next
  mod : addr % pageSize = a.region.1 % pageSize
  guard : ∀ b, a.HasBlock b → ¬ (b.base ≤ addr ∧ addr < b.base + a.guardSize)

theorem Layout.stackPage (h : a.Layout) (hb : a.HasBlock b) {addr : Nat}
    (haddr : addr ∈ b.pages a.guardSize)
    : a.StackPage addr := by
  obtain ⟨hbase, htop, hmod⟩ := h.of_mem_pages hb haddr
  refine ⟨htop.trans (h.top_le_next b hb), hmod, ?_⟩
  intro b' hb' hguard
  have hcontains : b'.Contains a.guardSize addr := by
    simp only [Block.Contains, Block.top]
    omega
  obtain rfl := h.apart b' b addr hb' hb hcontains (h.contains_of_mem_pages hb haddr)
  omega

theorem Moves.stackPage {a' : StackAllocator} (h : Moves a a') {addr : Nat} (haddr : a.StackPage addr)
    : a'.StackPage addr := by
  refine ⟨haddr.le_next.trans h.next_le, by rw [h.region]; exact haddr.mod, ?_⟩
  intro b hb hguard
  rcases h.blocks b hb with hold | hbase
  . rw [h.guard] at hguard
    exact haddr.guard b hold hguard
  . -- a new block lies above all pages that have been in use
    have hle := haddr.le_next
    simp only [pageSize] at hle
    omega

/--
The calls of the callbacks fit to the allocator: they stay out of the guards of all blocks, they find
their pages in the right state and as long as none of them fails the mapped pages are those of the
allocated stacks.
-/
structure Trace (a : StackAllocator) (log : List CallbackCall) : Prop where
  stackPage : ∀ c ∈ log, a.StackPage c.addr
  proper : Proper Pages.empty log
  mapped : AllOk log → ∀ addr, replay Pages.empty log addr = true ↔
    ∃ b, a.Allocated b ∧ addr ∈ b.pages a.guardSize

section Trace

variable {a' : StackAllocator} {log : List CallbackCall}

theorem not_allOk_failed {done : List Nat} {unmap : Bool} {addr : Nat}
    : ¬ AllOk (log ++ (callsOf unmap done ++ [{ unmap, addr, ok := false }])) := by
  intro hall
  have hfalse := hall { unmap, addr, ok := false } (by simp)
  simp at hfalse

theorem AllOk.left {log' : List CallbackCall} (h : AllOk (log ++ log')) : AllOk log :=
  fun c hc => h c (by simp [hc])

theorem Trace.forEach {f : MapperOrUnmapperFn σ} {unmap : Bool} (htrace : Trace a log)
    (h : Moves a a') (addrs : List Nat) (s : σ) (hnodup : addrs.Nodup)
    (hpage : ∀ addr ∈ addrs, a'.StackPage addr)
    (hstate : AllOk log → ∀ addr ∈ addrs, replay Pages.empty log addr = unmap)
    (hallocated : ∀ addr, (∃ b, a'.Allocated b ∧ addr ∈ b.pages a.guardSize) ↔
      if addr ∈ addrs then unmap = false else ∃ b, a.Allocated b ∧ addr ∈ b.pages a.guardSize)
    : Trace a' (StackAllocator.forEach (traced f unmap) addrs (s, log)).2.2 := by
  have hold : ∀ c ∈ log, a'.StackPage c.addr := fun c hc => h.stackPage (htrace.stackPage c hc)
  obtain ⟨s', hloop⟩ | ⟨s', e, done, addr, rest, rfl, hloop⟩ := forEach_traced f unmap addrs s log
  . rw [hloop]
    constructor
    case stackPage =>
      intro c hc
      rcases List.mem_append.mp hc with hc | hc
      . exact hold c hc
      . obtain ⟨addr, haddr, rfl⟩ := List.mem_map.mp hc
        exact hpage addr haddr
    case proper => exact htrace.proper.append (fun hall => proper_callsOf hnodup (hstate hall))
    case mapped =>
      intro hall addr
      rw [replay_append, replay_callsOf, h.guard, hallocated addr]
      split
      next => simp
      next => exact htrace.mapped hall.left addr
  . rw [hloop]
    constructor
    case stackPage =>
      intro c hc
      simp only [List.mem_append, callsOf, List.mem_map, List.mem_singleton] at hc
      rcases hc with hc | ⟨addr', haddr', rfl⟩ | rfl
      . exact hold c hc
      . exact hpage addr' (by simp [haddr'])
      . exact hpage addr (by simp)
    case proper => exact htrace.proper.append (fun hall => proper_failed hnodup (hstate hall))
    case mapped =>
      intro hall
      exact absurd hall not_allOk_failed

theorem Trace.of_moves (htrace : Trace a log) (h : Moves a a')
    (hallocated : ∀ b, a'.Allocated b ↔ a.Allocated b)
    : Trace a' log where
  stackPage c hc := h.stackPage (htrace.stackPage c hc)
  proper := htrace.proper
  mapped hall addr := by
    simp only [hallocated, h.guard]
    exact htrace.mapped hall addr

theorem Layout.eq_of_mem_pages (h : a.Layout) (hb : a.HasBlock b) (hb' : a.HasBlock b') {addr : Nat}
    (haddr : addr ∈ b.pages a.guardSize) (haddr' : addr ∈ b'.pages a.guardSize)
    : b = b' :=
  h.apart b b' addr hb hb' (h.contains_of_mem_pages hb haddr) (h.contains_of_mem_pages hb' haddr')

theorem Takes.trace {f : MapperOrUnmapperFn σ} (h : Takes a a' b) (htrace : Trace a log) (s : σ)
    : Trace a' (StackAllocator.forEach (traced f false) (b.pages a.guardSize) (s, log)).2.2 := by
  have hb : a'.Allocated b := (h.allocated b).mpr (.inl rfl)
  have hfree : ¬ a.Allocated b := fun hb => h.free b hb rfl
  -- a page of the new stack is not one of the others
  have hother (addr : Nat) (haddr : addr ∈ b.pages a.guardSize) (b' : Block) (hb' : a.Allocated b')
      : addr ∉ b'.pages a.guardSize := by
    intro hpage
    rw [← h.guard] at haddr hpage
    obtain rfl := h.layout.eq_of_mem_pages (.inl hb) (.inl ((h.allocated b').mpr (.inr hb'))) haddr hpage
    exact hfree hb'
  apply htrace.forEach h.toMoves
  . exact nodup_pages _ _
  . intro addr haddr
    rw [← h.guard] at haddr
    exact h.layout.stackPage (.inl hb) haddr
  . intro hall addr haddr
    rw [Bool.eq_false_iff, Ne, htrace.mapped hall addr]
    rintro ⟨b', hb', hpage⟩
    exact hother addr haddr b' hb' hpage
  . intro addr
    simp only [h.allocated, or_and_right, exists_or, exists_eq_left]
    split
    next haddr => simp [haddr]
    next haddr => simp [haddr]

theorem Gives.trace {f : MapperOrUnmapperFn σ} (h : Gives a a' b) (ha : a.Layout) (hb : a.Allocated b)
    (htrace : Trace a log) (s : σ)
    : Trace a' (StackAllocator.forEach (traced f true) (b.pages a.guardSize) (s, log)).2.2 := by
  apply htrace.forEach h.toMoves
  . exact nodup_pages _ _
  . intro addr haddr
    exact h.stackPage (ha.stackPage (.inl hb) haddr)
  . intro hall addr haddr
    exact (htrace.mapped hall addr).mpr ⟨b, hb, haddr⟩
  . intro addr
    simp only [h.allocated]
    split
    next haddr =>
      simp only [Bool.true_eq_false, iff_false]
      rintro ⟨b', ⟨hb', hne⟩, hpage⟩
      exact hne (ha.eq_of_mem_pages (.inl hb') (.inl hb) hpage haddr)
    next haddr =>
      constructor
      . rintro ⟨b', ⟨hb', _⟩, hpage⟩
        exact ⟨b', hb', hpage⟩
      . rintro ⟨b', hb', hpage⟩
        refine ⟨b', ⟨hb', ?_⟩, hpage⟩
        rintro rfl
        exact haddr hpage

end Trace

end StackAllocator

end Jrinx
