import Jrinx.StackAlloc.Uniform

/-!
This module contains the stacks of an allocator together with what its callbacks put behind the pages. A
stack that was handed out keeps all of its pages until it is given back, whatever is called in between and
whatever fails.
-/

namespace Jrinx

open Std

universe u v

variable {σ : Type u} {β : Type v}

namespace StackAllocator

def IsPage (region : Nat × Nat) (guard size addr : Nat) : Prop :=
  ∃ lo, IsStack region guard size lo ∧ addr ∈ pages lo size

/--
A callback puts something behind the page it is called for or takes it away. It leaves what is behind the
other pages alone.
-/
structure Backs (cb : Callbacks σ) (region : Nat × Nat) (guard size : Nat) (inv : σ → Prop)
    (view : σ → Nat → Option β) : Prop where
  map_inv : ∀ addr s, IsPage region guard size addr → inv s → view s addr = none → inv (cb.map addr s).2
  map_self : ∀ addr s, IsPage region guard size addr → inv s → view s addr = none →
    (view (cb.map addr s).2 addr).isSome = (cb.map addr s).1.isOk
  map_other : ∀ addr s, IsPage region guard size addr → inv s → view s addr = none →
    ∀ other, IsPage region guard size other → other ≠ addr → view (cb.map addr s).2 other = view s other
  unmap_inv : ∀ addr s, IsPage region guard size addr → inv s → inv (cb.unmap addr s).2
  unmap_self : ∀ addr s, IsPage region guard size addr → inv s → view (cb.unmap addr s).2 addr = none
  unmap_other : ∀ addr s, IsPage region guard size addr → inv s →
    ∀ other, IsPage region guard size other → other ≠ addr → view (cb.unmap addr s).2 other = view s other

theorem Backs.and {cb : Callbacks σ} {region : Nat × Nat} {guard size : Nat} {inv p : σ → Prop}
    {view : σ → Nat → Option β} (h : Backs cb region guard size inv view)
    (hmap : ∀ addr s, IsPage region guard size addr → inv s → view s addr = none → p s → p (cb.map addr s).2)
    (hunmap : ∀ addr s, IsPage region guard size addr → inv s → p s → p (cb.unmap addr s).2)
    : Backs cb region guard size (fun s => inv s ∧ p s) view where
  map_inv addr s haddr hinv hnone :=
    ⟨h.map_inv addr s haddr hinv.1 hnone, hmap addr s haddr hinv.1 hnone hinv.2⟩
  map_self addr s haddr hinv := h.map_self addr s haddr hinv.1
  map_other addr s haddr hinv := h.map_other addr s haddr hinv.1
  unmap_inv addr s haddr hinv := ⟨h.unmap_inv addr s haddr hinv.1, hunmap addr s haddr hinv.1 hinv.2⟩
  unmap_self addr s haddr hinv := h.unmap_self addr s haddr hinv.1
  unmap_other addr s haddr hinv := h.unmap_other addr s haddr hinv.1

def keepsStack (size top : Nat) (st : StackAllocator × σ) (call : StackCall) : Prop :=
  uniform size st call ∧ call ≠ .deallocate top

instance (size top : Nat) (st : StackAllocator × σ) (call : StackCall)
    : Decidable (keepsStack size top st call) :=
  inferInstanceAs (Decidable (_ ∧ _))

section Calls

variable {a : StackAllocator} {cb : Callbacks σ} {s : σ} {size : Nat}

structure Allocates (cb : Callbacks σ) (a : StackAllocator) (s : σ) (b : Block)
    (r : Except InternalError Nat × StackAllocator × σ) : Prop extends Takes a r.2.1 b where
  cached : ∀ b', r.2.1.Cached b' → a.Cached b'
  origin : a.Cached b ∨ b.base = a.next
  state : r.2.2 = (StackAllocator.forEach cb.map (b.pages a.guardSize) s).2
  result : ∀ top, r.1 = .ok top →
    top = b.top a.guardSize ∧ (StackAllocator.forEach cb.map (b.pages a.guardSize) s).1 = .ok ()

structure Exhausted (a : StackAllocator) (s : σ) (r : Except InternalError Nat × StackAllocator × σ) : Prop
    extends Moves a r.2.1 where
  allocated : ∀ b, r.2.1.Allocated b ↔ a.Allocated b
  cached : ∀ b, r.2.1.Cached b → a.Cached b
  state : r.2.2 = s
  result : r.1 = .error .notEnoughMem

structure Deallocates (cb : Callbacks σ) (a : StackAllocator) (s : σ) (b : Block)
    (r : Except InternalError Unit × StackAllocator × σ) : Prop extends Gives a r.2.1 b where
  cached : ∀ b', r.2.1.Cached b' → a.Cached b' ∨
    b' = b ∧ (StackAllocator.forEach cb.unmap (b.pages a.guardSize) s).1 = .ok ()
  state : r.2.2 = (StackAllocator.forEach cb.unmap (b.pages a.guardSize) s).2

theorem mapStack_result {b : Block} {top : Nat} (h : (allocate.mapStack cb a b.base b.size s).1 = .ok top)
    : top = b.top a.guardSize ∧ (StackAllocator.forEach cb.map (b.pages a.guardSize) s).1 = .ok () := by
  refine ⟨mapStack_ok h, ?_⟩
  rw [allocate.mapStack] at h
  rw [Block.pages]
  split at h
  next heq => rw [heq]
  next => simp at h

theorem allocate_cases (ha : a.Layout) (hpos : 0 < size) (hsize : nextMultipleOf size pageSize = size)
    : Exhausted a s (a.allocate cb size s) ∨
        ∃ b : Block, b.size = size ∧ Allocates cb a s b (a.allocate cb size s) := by
  have hmod : size % pageSize = 0 := by
    rw [← hsize]
    exact nextMultipleOf_mod size
  rw [allocate, hsize]
  -- both ways end with the pages of a block that has been taken
  have htaken {a' : StackAllocator} {b : Block} (h : Takes a (a'.insertAllocated b) b)
      (hcached : ∀ b', a'.Cached b' → a.Cached b') (horigin : a.Cached b ∨ b.base = a.next)
      : Allocates cb a s b (allocate.mapStack cb a' b.base b.size s) := by
    have hguard : a'.guardSize = a.guardSize := h.guard
    have hsnd := mapStack_snd cb a' b s
    rw [hguard] at hsnd
    refine ⟨?_, ?_, horigin, ?_, ?_⟩
    . rw [hsnd]
      exact h
    . rw [hsnd]
      exact hcached
    . rw [hsnd]
    . intro top htop
      have hresult := mapStack_result htop
      rwa [hguard] at hresult
  split
  next va rest hcons =>
    obtain ⟨hb, hrest⟩ := ha.cached_of_cons (b := ⟨va, size⟩) hcons
    refine .inr ⟨⟨va, size⟩, rfl, htaken (ha.reuse hcons) ?_ (.inl hb)⟩
    intro b' hb'
    exact ((hrest b').mp hb').1
  next hnil =>
    have hmoves := ha.insertCached_nil hnil
    have hcached (b : Block) (hb : (a.insertCached size []).Cached b) : a.Cached b :=
      (cached_insertCached_nil hnil).mp hb
    dsimp only
    split
    next => exact .inl ⟨hmoves, fun _ => Iff.rfl, hcached, rfl, rfl⟩
    next =>
      refine .inr ⟨⟨a.next, size⟩, rfl, htaken ?_ hcached (.inr rfl)⟩
      exact hmoves.takes rfl (fun _ => Iff.rfl) (hmoves.layout.carve (b := ⟨a.next, size⟩) rfl hpos hmod)

theorem deallocate_cases (ha : a.Layout) (top : Nat)
    : a.deallocate cb top s = (.error .invalidVirtAddr, a, s) ∨
        ∃ b, a.Allocated b ∧ b.top a.guardSize = top ∧ Deallocates cb a s b (a.deallocate cb top s) := by
  rw [deallocate]
  split
  next => exact .inl rfl
  next size htop =>
    obtain ⟨b, hb, rfl, rfl, hbase⟩ := ha.allocated_of_getElem? htop
    have hrelease := ha.release hb
    have hrecycle := ha.recycle hb
    refine .inr ⟨b, hb, rfl, ?_⟩
    dsimp only
    rw [← hbase, ← Block.pages]
    split
    next heq =>
      refine ⟨hrecycle, ?_, by rw [heq]⟩
      intro b' hb'
      rw [heq]
      have hcached : ((a.eraseAllocated b).insertCached b.size
          (b.base :: a.cached.getD b.size [])).Cached b' := hb'
      rw [cached_insertCached] at hcached
      split at hcached
      next hsize =>
        rcases List.mem_cons.mp hcached with hbase' | hmem
        . refine .inr ⟨?_, rfl⟩
          cases b
          cases b'
          simp only [Block.mk.injEq]
          exact ⟨hbase', hsize⟩
        . left
          rwa [Cached, hsize]
      next => exact .inl hcached
    next heq => exact ⟨hrelease, fun b' hb' => .inl hb', by rw [heq]⟩

end Calls

section Backed

variable {cb : Callbacks σ} {region : Nat × Nat} {guard size : Nat} {inv : σ → Prop} {view : σ → Nat → Option β}
  {s : σ} {addrs : List Nat}

theorem Backs.forEach_map (h : Backs cb region guard size inv view) (hnodup : addrs.Nodup)
    (hpage : ∀ addr ∈ addrs, IsPage region guard size addr) (hinv : inv s)
    (hnone : ∀ addr ∈ addrs, view s addr = none)
    : inv (forEach cb.map addrs s).2 ∧
        (∀ other, IsPage region guard size other → other ∉ addrs →
          view (forEach cb.map addrs s).2 other = view s other) ∧
        ((forEach cb.map addrs s).1 = .ok () →
          ∀ addr ∈ addrs, (view (forEach cb.map addrs s).2 addr).isSome = true) := by
  induction addrs generalizing s with
  | nil => exact ⟨hinv, fun _ _ _ => rfl, by simp⟩
  | cons first addrs ih =>
    obtain ⟨hfirst, hnodup⟩ := List.nodup_cons.mp hnodup
    have hpageFirst := hpage first List.mem_cons_self
    have hnoneFirst := hnone first List.mem_cons_self
    have hinv' := h.map_inv first s hpageFirst hinv hnoneFirst
    have hself := h.map_self first s hpageFirst hinv hnoneFirst
    have hother := h.map_other first s hpageFirst hinv hnoneFirst
    rw [forEach]
    split
    next s' heq =>
      rw [heq] at hinv' hself hother
      have hnone' : ∀ addr ∈ addrs, view s' addr = none := by
        intro addr haddr
        rw [hother addr (hpage addr (List.mem_cons_of_mem _ haddr)) (by rintro rfl; exact hfirst haddr)]
        exact hnone addr (List.mem_cons_of_mem _ haddr)
      obtain ⟨hinv'', hothers, hall⟩ :=
        ih hnodup (fun addr haddr => hpage addr (List.mem_cons_of_mem _ haddr)) hinv' hnone'
      refine ⟨hinv'', ?_, ?_⟩
      . intro other hpage' hmem
        rw [List.mem_cons, not_or] at hmem
        rw [hothers other hpage' hmem.2, hother other hpage' hmem.1]
      . intro hok addr haddr
        rcases List.mem_cons.mp haddr with rfl | haddr
        . rw [hothers addr hpageFirst hfirst]
          exact hself
        . exact hall hok addr haddr
    next s' heq =>
      rw [heq] at hinv' hother
      refine ⟨hinv', ?_, by simp⟩
      intro other hpage' hmem
      rw [List.mem_cons, not_or] at hmem
      exact hother other hpage' hmem.1

theorem Backs.forEach_unmap (h : Backs cb region guard size inv view)
    (hpage : ∀ addr ∈ addrs, IsPage region guard size addr) (hinv : inv s)
    : inv (forEach cb.unmap addrs s).2 ∧
        (∀ other, IsPage region guard size other → other ∉ addrs →
          view (forEach cb.unmap addrs s).2 other = view s other) ∧
        ((forEach cb.unmap addrs s).1 = .ok () →
          ∀ addr ∈ addrs, view (forEach cb.unmap addrs s).2 addr = none) ∧
        ∀ other, IsPage region guard size other → view s other = none →
          view (forEach cb.unmap addrs s).2 other = none := by
  induction addrs generalizing s with
  | nil => exact ⟨hinv, fun _ _ _ => rfl, by simp, fun _ _ hnone => hnone⟩
  | cons first addrs ih =>
    have hpageFirst := hpage first List.mem_cons_self
    have hinv' := h.unmap_inv first s hpageFirst hinv
    have hself := h.unmap_self first s hpageFirst hinv
    have hother := h.unmap_other first s hpageFirst hinv
    have hstays {s' : σ} (heq : s' = (cb.unmap first s).2) (other : Nat)
        (hpage' : IsPage region guard size other) (hnone : view s other = none)
        : view s' other = none := by
      subst heq
      by_cases hne : other = first
      . rw [hne, hself]
      . rw [hother other hpage' hne, hnone]
    rw [forEach]
    split
    next s' heq =>
      rw [heq] at hinv' hself hother
      obtain ⟨hinv'', hothers, hall, hempty⟩ :=
        ih (fun addr haddr => hpage addr (List.mem_cons_of_mem _ haddr)) hinv'
      refine ⟨hinv'', ?_, ?_, ?_⟩
      . intro other hpage' hmem
        rw [List.mem_cons, not_or] at hmem
        rw [hothers other hpage' hmem.2, hother other hpage' hmem.1]
      . intro hok addr haddr
        rcases List.mem_cons.mp haddr with rfl | haddr
        . exact hempty addr hpageFirst hself
        . exact hall hok addr haddr
      . intro other hpage' hnone
        exact hempty other hpage' (hstays (by rw [heq]) other hpage' hnone)
    next s' heq =>
      rw [heq] at hinv' hother
      refine ⟨hinv', ?_, by simp, ?_⟩
      . intro other hpage' hmem
        rw [List.mem_cons, not_or] at hmem
        exact hother other hpage' hmem.1
      . intro other hpage' hnone
        exact hstays (by rw [heq]) other hpage' hnone

/--
Nothing is behind the pages of the stacks that may be handed out.
-/
structure Backed (region : Nat × Nat) (guard size : Nat) (inv : σ → Prop) (view : σ → Nat → Option β)
    (st : StackAllocator × σ) : Prop where
  layout : st.1.Layout
  uniform : Uniform region guard size st.1
  inv : inv st.2
  size_eq : ∀ b, st.1.HasBlock b → b.size = size
  cached : ∀ b, st.1.Cached b → ∀ addr ∈ b.pages guard, view st.2 addr = none
  fresh : ∀ addr, IsPage region guard size addr → st.1.next + guard ≤ addr → view st.2 addr = none

variable {st st' : StackAllocator × σ} {b : Block}

theorem Uniform.isPage {a : StackAllocator} (h : Uniform region guard size a) (hb : a.HasBlock b)
    (hsize : b.size = size) {addr : Nat} (haddr : addr ∈ b.pages guard)
    : IsPage region guard size addr := by
  rw [Block.pages, hsize] at haddr
  refine ⟨b.base + guard, ?_, haddr⟩
  rcases hb with hb | hb
  . obtain ⟨_, lo, hlo, htop⟩ := h.allocated _ _ hb
    rw [Block.top, h.guard_eq, hsize] at htop
    rwa [show b.base + guard = lo by omega]
  . rw [Cached, hsize] at hb
    exact h.cached _ hb

theorem Backed.isPage (h : Backed region guard size inv view st) (hb : st.1.HasBlock b) {addr : Nat}
    (haddr : addr ∈ b.pages guard)
    : IsPage region guard size addr :=
  h.uniform.isPage hb (h.size_eq b hb) haddr

theorem Backed.notMem_pages (h : Backed region guard size inv view st) {b' : Block} (hb : st.1.HasBlock b)
    (hb' : st.1.HasBlock b') (hne : b' ≠ b) {addr : Nat} (haddr : addr ∈ b'.pages guard)
    : addr ∉ b.pages guard := by
  intro hmem
  rw [← h.uniform.guard_eq] at haddr hmem
  exact hne (h.layout.eq_of_mem_pages hb' hb haddr hmem)

section Step

variable {a : StackAllocator} {r : Except InternalError Nat × StackAllocator × σ}
  {r' : Except InternalError Unit × StackAllocator × σ}

theorem keeps_true : Keeps cb region guard size (fun _ => True) := fun _ _ _ _ _ _ => ⟨trivial, trivial⟩

theorem le_of_mem_pages {b : Block} {addr : Nat} (haddr : addr ∈ b.pages guard) : b.base + guard ≤ addr := by
  obtain ⟨i, _, rfl⟩ := mem_pages_iff.mp haddr
  exact Nat.le_add_right _ _

theorem Backed.none_of_allocates (h : Backed region guard size inv view (a, s)) (hr : Allocates cb a s b r)
    (huniform : Uniform region guard size r.2.1) (hsize : b.size = size) {addr : Nat}
    (haddr : addr ∈ b.pages guard)
    : view s addr = none := by
  rcases hr.origin with hcached | hbase
  . exact h.cached b hcached addr haddr
  . have hallocated : r.2.1.Allocated b := (hr.allocated b).mpr (.inl rfl)
    have hle := le_of_mem_pages haddr
    rw [hbase] at hle
    exact h.fresh addr (huniform.isPage (.inl hallocated) hsize haddr) hle

theorem Backed.allocates (hbacks : Backs cb region guard size inv view)
    (h : Backed region guard size inv view (a, s)) (hr : Allocates cb a s b r)
    (huniform : Uniform region guard size r.2.1) (hsize : b.size = size)
    : Backed region guard size inv view r.2 ∧
        (∀ other, IsPage region guard size other → other ∉ b.pages guard → view r.2.2 other = view s other) ∧
        ∀ top, r.1 = .ok top → ∀ addr ∈ b.pages guard, (view r.2.2 addr).isSome = true := by
  have hguard : a.guardSize = guard := h.uniform.guard_eq
  have hallocated : r.2.1.Allocated b := (hr.allocated b).mpr (.inl rfl)
  have hpage (addr : Nat) (haddr : addr ∈ b.pages guard) : IsPage region guard size addr :=
    huniform.isPage (.inl hallocated) hsize haddr
  obtain ⟨hinv, hothers, hall⟩ := hbacks.forEach_map (nodup_pages _ _) hpage h.inv
    fun addr haddr => h.none_of_allocates hr huniform hsize haddr
  have hstate := hr.state
  have hresult := hr.result
  rw [hguard, Block.pages] at hstate hresult
  rw [← hstate] at hinv hothers hall
  refine ⟨?_, hothers, fun top htop => hall (hresult top htop).2⟩
  constructor
  case layout => exact hr.layout
  case uniform => exact huniform
  case inv => exact hinv
  case size_eq =>
    rintro b' (hb' | hb')
    . rcases (hr.allocated b').mp hb' with rfl | hb'
      . exact hsize
      . exact h.size_eq b' (.inl hb')
    . exact h.size_eq b' (.inr (hr.cached b' hb'))
  case cached =>
    intro b' hb' addr haddr
    have hne : b' ≠ b := by
      rintro rfl
      exact hr.layout.exclusive b' hallocated hb'
    have hold := hr.cached b' hb'
    rw [hothers addr (h.isPage (.inr hold) haddr) ?_]
    . exact h.cached b' hold addr haddr
    . intro hmem
      rw [← huniform.guard_eq] at haddr hmem
      exact hne (hr.layout.eq_of_mem_pages (.inr hb') (.inl hallocated) haddr hmem)
  case fresh =>
    intro addr hpage' hle
    have hnext := hr.next_le
    have htop := hr.layout.top_le_next b (.inl hallocated)
    rw [hothers addr hpage' ?_]
    . apply h.fresh addr hpage'
      dsimp only at hle ⊢
      omega
    . intro hmem
      rw [← huniform.guard_eq] at hmem
      have hlt := (hr.layout.of_mem_pages (.inl hallocated) hmem).2.1
      simp only [pageSize] at hlt
      omega

theorem Backed.exhausted (h : Backed region guard size inv view (a, s)) (hr : Exhausted a s r)
    (huniform : Uniform region guard size r.2.1)
    : Backed region guard size inv view r.2 := by
  have hstate := hr.state
  constructor
  case layout => exact hr.layout
  case uniform => exact huniform
  case inv =>
    rw [hstate]
    exact h.inv
  case size_eq =>
    rintro b (hb | hb)
    . exact h.size_eq b (.inl ((hr.allocated b).mp hb))
    . exact h.size_eq b (.inr (hr.cached b hb))
  case cached =>
    intro b hb addr haddr
    rw [hstate]
    exact h.cached b (hr.cached b hb) addr haddr
  case fresh =>
    intro addr hpage hle
    have hnext := hr.next_le
    rw [hstate]
    apply h.fresh addr hpage
    dsimp only at hle ⊢
    omega

theorem Backed.deallocates (hbacks : Backs cb region guard size inv view)
    (h : Backed region guard size inv view (a, s)) (hb : a.Allocated b) (hr : Deallocates cb a s b r')
    (huniform : Uniform region guard size r'.2.1)
    : Backed region guard size inv view r'.2 ∧
        ∀ other, IsPage region guard size other → other ∉ b.pages guard → view r'.2.2 other = view s other := by
  have hguard : a.guardSize = guard := h.uniform.guard_eq
  obtain ⟨hinv, hothers, hall, hempty⟩ :=
    hbacks.forEach_unmap (fun addr haddr => h.isPage (b := b) (.inl hb) haddr) h.inv
  have hstate := hr.state
  have hcached := hr.cached
  rw [hguard] at hstate hcached
  rw [← hstate] at hinv hothers hall hempty
  refine ⟨?_, hothers⟩
  constructor
  case layout => exact hr.layout
  case uniform => exact huniform
  case inv => exact hinv
  case size_eq =>
    rintro b' (hb' | hb')
    . exact h.size_eq b' (.inl ((hr.allocated b').mp hb').1)
    . rcases hcached b' hb' with hb' | ⟨rfl, _⟩
      . exact h.size_eq b' (.inr hb')
      . exact h.size_eq b' (.inl hb)
  case cached =>
    intro b' hb' addr haddr
    rcases hcached b' hb' with hold | ⟨rfl, hok⟩
    . exact hempty addr (h.isPage (.inr hold) haddr) (h.cached b' hold addr haddr)
    . exact hall hok addr haddr
  case fresh =>
    intro addr hpage hle
    have hnext := hr.next_le
    apply hempty addr hpage
    apply h.fresh addr hpage
    dsimp only at hle ⊢
    omega

theorem Backed.uniform_allocate (h : Backed region guard size inv view st) (cb : Callbacks σ)
    (hsize : nextMultipleOf size pageSize = size)
    : Uniform region guard size (st.1.allocate cb size st.2).2.1 :=
  (h.uniform.allocate keeps_true hsize trivial).1

theorem Backed.uniform_deallocate (h : Backed region guard size inv view st) (cb : Callbacks σ) (top : Nat)
    : Uniform region guard size (st.1.deallocate cb top st.2).2.1 :=
  (h.uniform.deallocate keeps_true top trivial).1

theorem Backed.step (hbacks : Backs cb region guard size inv view) (hpos : 0 < size)
    (hsize : nextMultipleOf size pageSize = size) (h : Backed region guard size inv view st) {call : StackCall}
    (hallowed : StackAllocator.uniform size st call) (hstep : StackAllocator.step cb st call = .next st')
    : Backed region guard size inv view st' := by
  cases call with
  | allocate size' =>
    obtain rfl : size' = size := hallowed
    obtain rfl := Outcome.next.inj hstep
    have huniform := h.uniform_allocate cb hsize
    rcases allocate_cases h.layout hpos hsize with hr | ⟨b, hb, hr⟩
    . exact h.exhausted hr huniform
    . exact (h.allocates hbacks hr huniform hb).1
  | deallocate top =>
    obtain rfl := Outcome.next.inj hstep
    have huniform := h.uniform_deallocate cb top
    rcases deallocate_cases h.layout top with hr | ⟨b, hb, rfl, hr⟩
    . rw [hr]
      exact h
    . exact (h.deallocates hbacks hb hr huniform).1

structure Live (b : Block) (view : σ → Nat → Option β) (was : Nat → Option β) (guard : Nat)
    (st : StackAllocator × σ) : Prop where
  allocated : st.1.Allocated b
  view_eq : ∀ addr ∈ b.pages guard, view st.2 addr = was addr

theorem Live.step (hbacks : Backs cb region guard size inv view) (hpos : 0 < size)
    (hsize : nextMultipleOf size pageSize = size) (h : Backed region guard size inv view st)
    {was : Nat → Option β} (hlive : Live b view was guard st) {call : StackCall}
    (hallowed : keepsStack size (b.top guard) st call) (hstep : StackAllocator.step cb st call = .next st')
    : Live b view was guard st' := by
  have hb : st.1.HasBlock b := .inl hlive.allocated
  have hpage (addr : Nat) (haddr : addr ∈ b.pages guard) := h.isPage hb haddr
  obtain ⟨hallowed, hne⟩ := hallowed
  cases call with
  | allocate size' =>
    obtain rfl : size' = size := hallowed
    obtain rfl := Outcome.next.inj hstep
    have huniform := h.uniform_allocate cb hsize
    rcases allocate_cases h.layout hpos hsize with hr | ⟨b', hb', hr⟩
    . refine ⟨(hr.allocated b).mpr hlive.allocated, ?_⟩
      rw [hr.state]
      exact hlive.view_eq
    . have hold := (hr.allocated b).mpr (.inr hlive.allocated)
      have hnew := (hr.allocated b').mpr (.inl rfl)
      refine ⟨hold, ?_⟩
      intro addr haddr
      rw [(h.allocates hbacks hr huniform hb').2.1 addr (hpage addr haddr) ?_]
      . exact hlive.view_eq addr haddr
      . intro hmem
        rw [← huniform.guard_eq] at haddr hmem
        obtain rfl := hr.layout.eq_of_mem_pages (.inl hold) (.inl hnew) haddr hmem
        exact hr.free b hlive.allocated rfl
  | deallocate top =>
    obtain rfl := Outcome.next.inj hstep
    have huniform := h.uniform_deallocate cb top
    rcases deallocate_cases h.layout top with hr | ⟨b', hb', rfl, hr⟩
    . rw [hr]
      exact hlive
    . have hne' : b ≠ b' := by
        rintro rfl
        rw [h.uniform.guard_eq] at hne
        exact hne rfl
      refine ⟨(hr.allocated b).mpr ⟨hlive.allocated, hne'⟩, ?_⟩
      intro addr haddr
      rw [(h.deallocates hbacks hb' hr huniform).2 addr (hpage addr haddr)
        (h.notMem_pages (.inl hb') hb hne' haddr)]
      exact hlive.view_eq addr haddr

end Step

theorem backed_new (hguard : nextMultipleOf guard pageSize = guard) (hguardPos : 0 < guard)
    (hle : guard ≤ region.1) (hinv : inv s) (hnone : ∀ addr, IsPage region guard size addr → view s addr = none)
    : Backed region guard size inv view (new region guard, s) := by
  have hfits : new.fits (region.1 + 1) region guard = true := by
    have hlt : region.1 + 1 < 2 ^ (region.1 + 1) := Nat.lt_two_pow_self
    simp only [new.fits, hguard, Bool.and_eq_true, decide_eq_true_eq]
    exact ⟨hle, by omega⟩
  have hno (b : Block) : ¬ (new region guard).HasBlock b := by
    rintro (hb | hb)
    . simp [Allocated, new] at hb
    . simp [Cached, new] at hb
  constructor
  case layout => exact (invariant_new () hfits hguardPos).1
  case uniform => exact uniform_new hguard hle
  case inv => exact hinv
  case size_eq => exact fun b hb => absurd hb (hno b)
  case cached => exact fun b hb => absurd (.inr hb) (hno b)
  case fresh => exact fun addr hpage _ => hnone addr hpage

theorem backed_of_run {a : StackAllocator} {s' : σ} {calls : List StackCall}
    (hbacks : Backs cb region guard size inv view) (hpos : 0 < size)
    (hsize : nextMultipleOf size pageSize = size) (hguard : nextMultipleOf guard pageSize = guard)
    (hguardPos : 0 < guard) (hle : guard ≤ region.1) (hinv : inv s)
    (hnone : ∀ addr, IsPage region guard size addr → view s addr = none)
    (hrun : Run (step cb) (uniform size) (new region guard, s) calls (a, s'))
    : Backed region guard size inv view (a, s') := by
  apply hrun.invariant _ (backed_new hguard hguardPos hle hinv hnone)
  intro st st' call h hallowed hstep
  exact h.step hbacks hpos hsize hallowed hstep

theorem view_eq_of_run {a a' a'' : StackAllocator} {s₁ s₂ s₃ : σ} {calls calls' : List StackCall} {top : Nat}
    (hbacks : Backs cb region guard size inv view) (hpos : 0 < size)
    (hsize : nextMultipleOf size pageSize = size) (hguard : nextMultipleOf guard pageSize = guard)
    (hguardPos : 0 < guard) (hle : guard ≤ region.1) (hinv : inv s)
    (hnone : ∀ addr, IsPage region guard size addr → view s addr = none)
    (hrun : Run (step cb) (uniform size) (new region guard, s) calls (a, s₁))
    (hallocate : a.allocate cb size s₁ = (.ok top, a', s₂))
    (hlater : Run (step cb) (keepsStack size top) (a', s₂) calls' (a'', s₃))
    : ∃ lo, IsStack region guard size lo ∧ top = lo + size ∧ inv s₂ ∧ inv s₃ ∧
        ∀ addr ∈ pages lo size, view s₃ addr = view s₂ addr ∧ (view s₂ addr).isSome = true := by
  have hbacked := backed_of_run hbacks hpos hsize hguard hguardPos hle hinv hnone hrun
  have huniform := hbacked.uniform_allocate cb hsize
  have hcases : Exhausted a s₁ (a.allocate cb size s₁) ∨
      ∃ b : Block, b.size = size ∧ Allocates cb a s₁ b (a.allocate cb size s₁) :=
    allocate_cases hbacked.layout hpos hsize
  rcases hcases with hr | ⟨b, hb, hr⟩
  . have herror := hr.result
    rw [hallocate] at herror
    simp at herror
  . obtain ⟨hbacked', _, hall⟩ := hbacked.allocates hbacks hr huniform hb
    have htop := (hr.result top (by rw [hallocate])).1
    have hallocated := (hr.allocated b).mpr (.inl rfl)
    rw [hallocate] at hbacked' hall huniform hallocated
    have hguardEq : a.guardSize = guard := hbacked.uniform.guard_eq
    rw [hguardEq] at htop
    subst htop
    have hlive : Backed region guard size inv view (a'', s₃) ∧ Live b view (view s₂) guard (a'', s₃) := by
      apply hlater.invariant (fun st => Backed region guard size inv view st ∧ Live b view (view s₂) guard st)
        ⟨hbacked', hallocated, fun _ _ => rfl⟩
      intro st st' call h hallowed hstep
      exact ⟨h.1.step hbacks hpos hsize hallowed.1 hstep, h.2.step hbacks hpos hsize h.1 hallowed hstep⟩
    have hstack : IsStack region guard size (b.base + guard) := by
      obtain ⟨_, lo, hlo, heq⟩ := huniform.allocated _ _ hallocated
      rw [huniform.guard_eq, Block.top, hb] at heq
      rwa [show b.base + guard = lo by omega]
    refine ⟨b.base + guard, hstack, ?_, hbacked'.inv, hlive.1.inv, ?_⟩
    . rw [Block.top, hb]
      omega
    . intro addr haddr
      have hmem : addr ∈ b.pages guard := by rwa [Block.pages, hb]
      exact ⟨hlive.2.view_eq addr hmem, hall _ rfl addr hmem⟩

end Backed

end StackAllocator

end Jrinx
