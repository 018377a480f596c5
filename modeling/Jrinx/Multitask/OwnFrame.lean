import Jrinx.Driver.BootSpace
import Jrinx.StackAlloc.Region

/-!
This module contains the memory behind the stacks of the executors. Every page of a stack that is in use has
a frame of its own, whatever stacks are created and dropped besides and whatever fails on the way.
-/

namespace Jrinx

open Std

variable {arch : Arch}

namespace KernSpace

open BootPageTable (Own)

variable {s s₁ s₂ s₃ : KernSpace arch} {devices : List Device}

section Supply

variable {n : Nat} {frame : PhysFrame arch} {frames : List (PhysFrame arch)}
  {answers : List (List (PhysFrame arch))}

/--
The allocator has unused frames for the next calls of `map`, and enough of them for all tables on the way.
-/
structure Supplied (n : Nat) (s : KernSpace arch) : Prop where
  enough : n ≤ s.answers.length
  size : ∀ answer ∈ s.answers, PageTable.depth arch < answer.length
  nodup : s.answers.flatten.Nodup
  inMem : ∀ f ∈ s.answers.flatten, f.addr.InMem
  unused : ∀ f ∈ s.answers.flatten, f ∉ s.bootPages ∧ ∀ p : VirtAddr arch, s.table.frames[p]? ≠ some f

theorem addr_inj {f f' : PhysFrame arch} (h : f.addr = f'.addr) : f = f' := by
  cases f
  cases f'
  simpa using h

theorem fresh_of_unused {t : PageTable arch} (hmem : ∀ f ∈ frames, f.addr.InMem) (hnodup : frames.Nodup)
    (hunused : ∀ f ∈ frames, ∀ p : VirtAddr arch, t.frames[p]? ≠ some f)
    : PageTable.Fresh t frames := by
  refine ⟨hmem, hnodup.map fun _ _ => addr_inj, ?_⟩
  intro f hf e he heq
  rw [ExtTreeMap.mem_toList_iff_getElem?_eq_some, addr_inj heq] at he
  exact hunused f hf e.1 he

theorem Supplied.grants (h : s.Supplied n) (hanswers : s.answers = (frame :: frames) :: answers)
    (page : VirtAddr arch)
    : s.Grants page frame frames := by
  have hflat : s.answers.flatten = frame :: (frames ++ answers.flatten) := by
    rw [hanswers]
    rfl
  have hnodup := h.nodup
  rw [hflat, List.nodup_cons] at hnodup
  have hmem (f : PhysFrame arch) (hf : f ∈ frame :: frames) : f ∈ s.answers.flatten := by
    rw [hflat, ← List.cons_append]
    exact List.mem_append_left _ hf
  refine ⟨?_, ?_, ?_⟩
  . apply fresh_of_unused
    . simpa using h.inMem frame (hmem frame List.mem_cons_self)
    . simp
    . simpa using (h.unused frame (hmem frame List.mem_cons_self)).2
  . apply fresh_of_unused
    . exact fun f hf => h.inMem f (hmem f (List.mem_cons_of_mem _ hf))
    . exact (List.nodup_append.mp hnodup.2).1
    . intro f hf p hget
      rw [ExtTreeMap.getElem?_insert] at hget
      split at hget
      next =>
        obtain rfl := Option.some.inj hget
        exact hnodup.1 (List.mem_append_left _ hf)
      next => exact (h.unused f (hmem f (List.mem_cons_of_mem _ hf))).2 p hget
  . exact fun f hf => (h.unused f (hmem f hf)).1

theorem isOk_map_table {t : PageTable arch} {page : VirtAddr arch} {perm : PagePerm}
    (h : PageTable.depth arch ≤ frames.length)
    : (t.map page frame perm frames).1.isOk = true := by
  rw [PageTable.map]
  generalize alignPageDown page = page
  obtain ⟨hresult, _, _, _⟩ := PageTable.findOrCreate_go_grow
    { t with frames := t.frames.insert page frame } t.root (VirtAddr.path page) (VirtAddr.leaf page) frames
  rw [← VirtAddr.indexes_eq_path_leaf] at hresult
  obtain ⟨base, hbase⟩ : ∃ base,
      (BootPageTable.grow t.mem t.root.toVirt.asArrayBase (VirtAddr.path page) frames).page = some base := by
    apply Option.isSome_iff_exists.mp
    apply RadixTree.isSome_page_grow
    rw [VirtAddr.length_path]
    exact h
  dsimp only at hresult
  rw [hbase] at hresult
  rw [PageTable.findOrCreate]
  split
  next => rfl
  next heq =>
    rw [heq] at hresult
    simp at hresult

theorem Supplied.map (h : s.Supplied (n + 1)) (addr : Nat)
    : (s.map addr).1.isOk = true ∧ (s.map addr).2.Supplied n := by
  cases hanswers : s.answers with
  | nil =>
    have henough := h.enough
    simp [hanswers] at henough
  | cons answer answers =>
    have hsize := h.size
    rw [hanswers] at hsize
    cases answer with
    | nil =>
      have hlt := hsize [] List.mem_cons_self
      simp at hlt
    | cons frame frames =>
      have hgrants := h.grants hanswers (alignPageDown (BitVec.ofNat arch.bits addr))
      have hlen : PageTable.depth arch ≤ frames.length := Nat.le_of_lt_succ (hsize _ List.mem_cons_self)
      have hmap : s.map addr =
          (((PageTable.map { s.table with mem := PageTable.zeroed s.table.mem frame }
              (BitVec.ofNat arch.bits addr) frame (.G ||| .R ||| .W) frames).1),
            { s with
              table := (PageTable.map { s.table with mem := PageTable.zeroed s.table.mem frame }
                (BitVec.ofNat arch.bits addr) frame (.G ||| .R ||| .W) frames).2
              answers }) := by
        simp only [KernSpace.map, hanswers, if_pos hgrants]
      have hflat : s.answers.flatten = (frame :: frames) ++ answers.flatten := by
        rw [hanswers]
        rfl
      have hnodup := h.nodup
      have hinMem := h.inMem
      have hunused := h.unused
      rw [hflat] at hnodup hinMem hunused
      rw [hmap]
      refine ⟨isOk_map_table hlen, ?_⟩
      constructor
      case enough =>
        have henough := h.enough
        rw [hanswers, List.length_cons] at henough
        exact Nat.le_of_succ_le_succ henough
      case size => exact fun answer hanswer => hsize answer (List.mem_cons_of_mem _ hanswer)
      case nodup => exact (List.nodup_append.mp hnodup).2.1
      case inMem => exact fun f hf => hinMem f (List.mem_append_right _ hf)
      case unused =>
        intro f hf
        obtain ⟨hboot, hold⟩ := hunused f (List.mem_append_right _ hf)
        refine ⟨hboot, ?_⟩
        intro p hget
        have hapart := (List.nodup_append.mp hnodup).2.2
        rcases frames_map_cases hget with ⟨hf', _⟩ | ⟨_, rfl⟩ | ⟨_, hget⟩
        . exact hapart f (List.mem_cons_of_mem _ hf') f hf rfl
        . exact hapart _ List.mem_cons_self _ hf rfl
        . exact hold p hget

theorem Supplied.forEach {addrs : List Nat} (h : s.Supplied addrs.length)
    : (StackAllocator.forEach KernSpace.map addrs s).1 = .ok () := by
  induction addrs generalizing s with
  | nil => rfl
  | cons addr addrs ih =>
    obtain ⟨hok, hnext⟩ := h.map addr
    rw [StackAllocator.forEach]
    split
    next s' heq =>
      rw [heq] at hnext
      exact ih hnext
    next s' heq =>
      rw [heq] at hok
      simp [Except.isOk, Except.toBool] at hok

theorem allocate_of_supplied {a : StackAllocator} {va : Nat} (h : s.Supplied 1024)
    (hva : a.takes? executorStackSize = some va)
    : (a.allocate callbacks executorStackSize s).1 = .ok (va + executorStackSize + a.guardSize) := by
  have hlen : (StackAllocator.pages (va + a.guardSize) executorStackSize).length = 1024 := by
    simp only [StackAllocator.pages, List.length_map, List.length_range]
    decide
  have hok : (StackAllocator.forEach callbacks.map
      (StackAllocator.pages (va + a.guardSize) executorStackSize) s).1 = .ok () := by
    apply Supplied.forEach
    rw [hlen]
    exact h
  rw [StackAllocator.allocate_fst, StackAllocator.mapResult, nextMultipleOf_executorStackSize, hva,
    Option.map_some, hok]

end Supply

section First

open PageTable (frameAt)

def firstFrame (i : Nat) : PhysFrame .riscv64 := frameAt .riscv64 (0x80400000 + i * 4096)

theorem toNat_firstFrame {i : Nat} (h : i < 3072) : (firstFrame i).addr.toNat = 0x80400000 + i * 4096 := by
  rw [firstFrame, frameAt, toNat_alignPageDown, BitVec.toNat_ofNat]
  have heq : (0x80400000 + i * 4096) % 2 ^ 64 / 4096 * 4096 = 0x80400000 + i * 4096 := by omega
  exact heq

theorem firstFrame_inj {i j : Nat} (hi : i < 3072) (hj : j < 3072) (h : firstFrame i = firstFrame j)
    : i = j := by
  have htoNat : (firstFrame i).addr.toNat = (firstFrame j).addr.toNat := by rw [h]
  rw [toNat_firstFrame hi, toNat_firstFrame hj] at htoNat
  omega

def firstAnswer (i : Nat) : List (PhysFrame .riscv64) :=
  [firstFrame (i * 3), firstFrame (i * 3 + 1), firstFrame (i * 3 + 2)]

theorem mem_firstAnswer {i : Nat} {f : PhysFrame .riscv64} (h : f ∈ firstAnswer i)
    : ∃ k < 3, f = firstFrame (i * 3 + k) := by
  simp only [firstAnswer, List.mem_cons, List.not_mem_nil, or_false] at h
  rcases h with rfl | rfl | rfl
  . exact ⟨0, by omega, rfl⟩
  . exact ⟨1, by omega, rfl⟩
  . exact ⟨2, by omega, rfl⟩

def firstSpace (t : PageTable .riscv64) : KernSpace .riscv64 where
  table := t
  bootPages := [frameAt .riscv64 0x80200000, frameAt .riscv64 0x80201000, frameAt .riscv64 0x80202000]
  answers := (List.range 1024).map firstAnswer

theorem mem_firstFrames {f : PhysFrame .riscv64} (h : f ∈ ((List.range 1024).map firstAnswer).flatten)
    : ∃ i < 3072, f = firstFrame i := by
  simp only [List.mem_flatten, List.mem_map, List.mem_range] at h
  obtain ⟨_, ⟨i, hi, rfl⟩, hf⟩ := h
  obtain ⟨k, hk, rfl⟩ := mem_firstAnswer hf
  exact ⟨i * 3 + k, by omega, rfl⟩

theorem exists_firstSpace
    : ∃ t, (firstSpace t).Boots [Device.uart] ∧
        t.frames = (∅ : ExtTreeMap (VirtAddr .riscv64) (PhysFrame .riscv64)).insert
          (frameAt .riscv64 0x80203000).addr.toVirt (frameAt .riscv64 0x80203000) := by
  have hprobe : ((BootPageTable.zeroed (frameAt .riscv64 0x80200000) (fun _ _ => .clr)
      [frameAt .riscv64 0x80201000, frameAt .riscv64 0x80202000]).init.probeAll [Device.uart]).holds
        (fun _ => true) = true := by
    decide +kernel
  obtain ⟨b, hprobe, _⟩ := Outcome.holds_iff.mp hprobe
  refine ⟨_, ⟨frameAt .riscv64 0x80200000, fun _ _ => .clr, _, b, frameAt .riscv64 0x80203000, ?_, hprobe, ?_,
    ?_, rfl, rfl⟩, rfl⟩
  . decide +kernel
  . decide +kernel
  . decide +kernel

theorem ne_firstFrame {addr : Nat} (h : addr < 0x80400000 ∨ 0x81000000 ≤ addr ∧ addr < 2 ^ 64) {i : Nat}
    (hi : i < 3072)
    : frameAt .riscv64 addr ≠ firstFrame i := by
  intro heq
  have htoNat := congrArg (fun f : PhysFrame .riscv64 => f.addr.toNat) heq
  dsimp only [frameAt] at htoNat
  rw [toNat_firstFrame hi, toNat_alignPageDown] at htoNat
  have hmod : (BitVec.ofNat (Arch.bits .riscv64) addr).toNat = addr % 2 ^ 64 := BitVec.toNat_ofNat _ _
  rw [hmod] at htoNat
  omega

theorem supplied_first {s : KernSpace .riscv64} (hanswers : s.answers = (List.range 1024).map firstAnswer)
    (hboot : ∀ f ∈ s.bootPages, ∀ i < 3072, f ≠ firstFrame i)
    (hframes : ∀ (p : VirtAddr .riscv64) (f), s.table.frames[p]? = some f → ∀ i < 3072, f ≠ firstFrame i)
    : s.Supplied 1024 := by
  constructor
  case enough => simp [hanswers]
  case size =>
    intro answer hanswer
    rw [hanswers, List.mem_map] at hanswer
    obtain ⟨i, _, rfl⟩ := hanswer
    exact Nat.le_refl 3
  case nodup =>
    rw [hanswers, List.nodup_flatten]
    constructor
    . intro answer hanswer
      simp only [List.mem_map, List.mem_range] at hanswer
      obtain ⟨i, hi, rfl⟩ := hanswer
      have hne {j k : Nat} (hlt : j < k) (hk : k < 3) : firstFrame (i * 3 + j) ≠ firstFrame (i * 3 + k) := by
        intro heq
        have := firstFrame_inj (by omega) (by omega) heq
        omega
      simp only [firstAnswer, List.nodup_cons, List.mem_cons, List.not_mem_nil, or_false, not_or,
        not_false_eq_true, List.nodup_nil, and_true]
      exact ⟨⟨hne (j := 0) (by omega) (by omega), hne (j := 0) (by omega) (by omega)⟩,
        hne (by omega) (by omega)⟩
    . rw [List.pairwise_map]
      apply List.pairwise_lt_range.imp_of_mem
      intro i j hi hj hlt f hf hf'
      rw [List.mem_range] at hi hj
      obtain ⟨k, hk, rfl⟩ := mem_firstAnswer hf
      obtain ⟨k', hk', heq⟩ := mem_firstAnswer hf'
      have := firstFrame_inj (by omega) (by omega) heq
      omega
  case inMem =>
    intro f hf
    rw [hanswers] at hf
    obtain ⟨i, hi, rfl⟩ := mem_firstFrames hf
    rw [PhysAddr.InMem, toNat_firstFrame hi]
    have hmem : 0x80000000 ≤ 0x80400000 + i * 4096 ∧ 0x80400000 + i * 4096 < 0x2000000000 := by omega
    exact hmem
  case unused =>
    intro f hf
    rw [hanswers] at hf
    obtain ⟨i, hi, rfl⟩ := mem_firstFrames hf
    exact ⟨fun hmem => hboot _ hmem i hi rfl, fun p hget => hframes p _ hget i hi rfl⟩

theorem supplied_firstSpace {t : PageTable .riscv64}
    (hframes : t.frames = (∅ : ExtTreeMap (VirtAddr .riscv64) (PhysFrame .riscv64)).insert
      (frameAt .riscv64 0x80203000).addr.toVirt (frameAt .riscv64 0x80203000))
    : (firstSpace t).Supplied 1024 := by
  refine supplied_first (s := firstSpace t) (by rw [firstSpace]) ?_ ?_
  . intro f hf i hi
    simp only [firstSpace, List.mem_cons, List.not_mem_nil, or_false] at hf
    rcases hf with rfl | rfl | rfl
    . exact ne_firstFrame (by omega) hi
    . exact ne_firstFrame (by omega) hi
    . exact ne_firstFrame (by omega) hi
  . intro p f hget i hi
    simp only [firstSpace, hframes, ExtTreeMap.getElem?_insert] at hget
    split at hget
    . rw [← Option.some.inj hget]
      exact ne_firstFrame (by omega) hi
    . simp at hget

theorem inMem_firstSpace {t : PageTable .riscv64} : ∀ f ∈ (firstSpace t).bootPages, f.addr.InMem := by
  have hmem : ∀ f ∈ [frameAt .riscv64 0x80200000, frameAt .riscv64 0x80201000, frameAt .riscv64 0x80202000],
      f.addr.InMem := by
    decide +kernel
  exact hmem

theorem eq_of_fst {r : Except InternalError Nat × StackAllocator × KernSpace .riscv64}
    {x : Except InternalError Nat} (h : r.1 = x)
    : ∃ a s, r = (x, a, s) :=
  ⟨r.2.1, r.2.2, by rw [← h]⟩

theorem takes?_first
    : (executorStackAllocator .riscv64).takes? executorStackSize = some 0xFFFFFFDFFFC00000 := by
  decide +kernel

theorem allocate_first {s : KernSpace .riscv64} (h : s.Supplied 1024)
    : ∃ a s', (executorStackAllocator .riscv64).allocate callbacks executorStackSize s =
        (.ok 0xFFFFFFE000400000, a, s') := by
  have hok := allocate_of_supplied h takes?_first
  have htop : 0xFFFFFFDFFFC00000 + executorStackSize + (executorStackAllocator .riscv64).guardSize =
      0xFFFFFFE000400000 := by
    decide +kernel
  rw [htop] at hok
  exact eq_of_fst hok

theorem exists_firstStack
    : ∃ t a s, (firstSpace t).Boots [Device.uart] ∧
        (executorStackAllocator .riscv64).allocate callbacks executorStackSize (firstSpace t) =
          (.ok 0xFFFFFFE000400000, a, s) := by
  obtain ⟨t, hboots, hframes⟩ := exists_firstSpace
  obtain ⟨a, s, hallocate⟩ := allocate_first (supplied_firstSpace hframes)
  exact ⟨t, a, s, hboots, hallocate⟩

theorem run_firstStack {s s' : KernSpace .riscv64} {a : StackAllocator}
    (hallocate : (executorStackAllocator .riscv64).allocate callbacks executorStackSize s =
      (.ok 0xFFFFFFE000400000, a, s'))
    : Run (StackAllocator.step callbacks) (StackAllocator.uniform executorStackSize)
        (executorStackAllocator .riscv64, s) [.allocate executorStackSize] (a, s') := by
  have hstep : StackAllocator.step callbacks (executorStackAllocator .riscv64, s)
      (.allocate executorStackSize) = .next (a, s') := by
    rw [StackAllocator.step, hallocate]
  exact .cons rfl hstep (.nil _)

end First

/--
The page is mapped to a frame of its own, for reading and writing only: no other page and no table has the
frame, and the hardware finds it.
-/
structure OwnFrame (s : KernSpace arch) (page : VirtAddr arch) (frame : PhysFrame arch) : Prop where
  entry : s.table.entry page.path page.leaf = some (stackEntry frame)
  translate : ∀ addr : VirtAddr arch, alignPageDown addr = page →
    Mmu.translate s.table.mem s.table.root addr = some (frame.addr.toNat + addr.toNat % pageSize)
  held : ∀ q : VirtAddr arch, s.table.frames[q]? = some frame ↔ q = page
  inMem : frame.addr.InMem
  boot : frame ∉ s.bootPages

theorem Stacked.ownFrame (h : s.Stacked) {addr : Nat} (haddr : IsPage arch addr) {frame : PhysFrame arch}
    (hview : s.view addr = some frame)
    : OwnFrame s (stackPage arch addr) frame := by
  obtain ⟨hentry, hframe⟩ := h.of_view_eq_some haddr hview
  obtain ⟨hmem, hboot⟩ := h.held _ _ hframe
  refine ⟨hentry, ?_, ?_, hmem, hboot⟩
  . intro virt hvirt
    obtain ⟨_, hpage⟩ := haddr.stackPage
    have hcanonical : virt.Canonical := by
      apply BootPageTable.canonical_of_alignPageDown
      rw [hvirt]
      exact hpage.canonical
    have hpath : virt.path = (stackPage arch addr).path := by
      rw [← hvirt, VirtAddr.path_alignPageDown]
    have hleaf : virt.leaf = (stackPage arch addr).leaf := by
      rw [← hvirt, VirtAddr.leaf_alignPageDown]
    have hown : Own arch virt.path := by
      rw [hpath]
      exact hpage.own
    rw [PageTable.entry_eq_leaf, h.root] at hentry
    rw [Mmu.translate_eq_leaf h.linked hcanonical hown, hpath, hleaf, hentry, Option.bind_some,
      last_stackEntry hmem]
  . intro q
    constructor
    . intro hq
      exact h.unshared q _ frame hq hframe
    . rintro rfl
      exact hframe

theorem exists_page {lo x : Nat}
    (hlo : StackAllocator.IsStack (arch.executorStackRegion.addr, arch.executorStackRegion.len)
      executorStackSize executorStackSize lo) (hle : lo ≤ x) (hlt : x < lo + executorStackSize)
    : ∃ addr ∈ StackAllocator.pages lo executorStackSize, stackPage arch x = stackPage arch addr := by
  have hsize : executorStackSize = 0x400000 := rfl
  obtain ⟨n, hn, hfits⟩ := isExecutorStack_iff.mp hlo
  refine ⟨lo + (x - lo) / 4096 * 4096, ?_, ?_⟩
  . rw [StackAllocator.mem_pages_iff]
    refine ⟨(x - lo) / 4096, ?_, rfl⟩
    rw [hsize] at hlt ⊢
    simp only [pageSize]
    omega
  . apply BitVec.eq_of_toNat_eq
    rw [stackPage, stackPage, toNat_alignPageDown, toNat_alignPageDown, BitVec.toNat_ofNat, BitVec.toNat_ofNat]
    cases arch with
    | riscv32 =>
      have hn' : lo = 0xE0000000 + n * 0x800000 := hn
      have hpage : x % 2 ^ 32 / 4096 * 4096 = (lo + (x - lo) / 4096 * 4096) % 2 ^ 32 / 4096 * 4096 := by
        omega
      exact hpage
    | riscv64 =>
      have hn' : lo = 0xFFFFFFE000000000 + n * 0x800000 := hn
      have hpage : x % 2 ^ 64 / 4096 * 4096 = (lo + (x - lo) / 4096 * 4096) % 2 ^ 64 / 4096 * 4096 := by
        omega
      exact hpage

/--
Every page of a stack that has been handed out, after any calls of the allocator, has a frame of its own. It
keeps this frame through all other calls, also through those that fail, until the stack is given back.
-/
theorem ownFrame_of_run {a a' a'' : StackAllocator} {calls calls' : List StackCall} {top : Nat}
    (hboots : s.Boots devices) (hbelow : ∀ d ∈ devices, d.region.BelowMemory arch)
    (hclear : ∀ d ∈ devices, ∀ addr ∈ d.addrs, Device.ClearOfStacks arch addr)
    (hmem : ∀ f ∈ s.bootPages, f.addr.InMem)
    (hrun : Run (StackAllocator.step callbacks) (StackAllocator.uniform executorStackSize)
      (executorStackAllocator arch, s) calls (a, s₁))
    (hallocate : a.allocate callbacks executorStackSize s₁ = (.ok top, a', s₂))
    (hlater : Run (StackAllocator.step callbacks) (StackAllocator.keepsStack executorStackSize top)
      (a', s₂) calls' (a'', s₃))
    : ∀ x, top - executorStackSize ≤ x → x < top →
        ∃ frame, OwnFrame s₂ (stackPage arch x) frame ∧ OwnFrame s₃ (stackPage arch x) frame := by
  obtain ⟨hstacked, hnone⟩ := hboots.stacked hbelow hclear hmem
  obtain ⟨lo, hlo, rfl, hstacked₂, hstacked₃, hview⟩ := StackAllocator.view_eq_of_run backs (by decide)
    nextMultipleOf_executorStackSize nextMultipleOf_executorStackSize (by decide) executorStackSize_le hstacked
    hnone hrun hallocate hlater
  intro x hle hlt
  rw [Nat.add_sub_cancel] at hle
  obtain ⟨addr, haddr, hpage⟩ := exists_page hlo hle hlt
  obtain ⟨hsame, hsome⟩ := hview addr haddr
  obtain ⟨frame, hframe⟩ := Option.isSome_iff_exists.mp hsome
  rw [hframe] at hsame
  rw [hpage]
  exact ⟨frame, hstacked₂.ownFrame ⟨lo, hlo, haddr⟩ hframe, hstacked₃.ownFrame ⟨lo, hlo, haddr⟩ hsame⟩

theorem ownFrame_firstStack
    : ∃ t a a' s₂ s₃, (firstSpace t).Boots [Device.uart] ∧
        (executorStackAllocator .riscv64).allocate callbacks executorStackSize (firstSpace t) =
          (.ok 0xFFFFFFE000400000, a, s₂) ∧
        (a.allocate callbacks executorStackSize s₂).2 = (a', s₃) ∧
        ∀ x, 0xFFFFFFE000400000 - executorStackSize ≤ x → x < 0xFFFFFFE000400000 →
          ∃ frame, OwnFrame s₂ (stackPage .riscv64 x) frame ∧ OwnFrame s₃ (stackPage .riscv64 x) frame := by
  obtain ⟨t, a, s₂, hboots, hallocate⟩ := exists_firstStack
  have hlater : Run (StackAllocator.step callbacks)
      (StackAllocator.keepsStack executorStackSize 0xFFFFFFE000400000) (a, s₂) [.allocate executorStackSize]
      (a.allocate callbacks executorStackSize s₂).2 :=
    .cons ⟨rfl, by simp⟩ rfl (.nil _)
  refine ⟨t, a, _, s₂, _, hboots, hallocate, Prod.mk.eta.symm, ?_⟩
  exact ownFrame_of_run hboots (by decide) (by decide) inMem_firstSpace (.nil _) hallocate hlater

end KernSpace

end Jrinx
