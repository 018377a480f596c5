import Jrinx.Paging.Refinement
import Jrinx.Util.RadixGrow

/-!
This module contains the boot page table from `paging/src/arch/riscv/boot.rs`. It has no map of frames,
the tables below its root are pages of the kernel heap and are never given back.
-/

namespace Jrinx

open Std

variable {arch : Arch}

structure RemapMemRegion where
  virtAddr : Nat
  physAddr : Nat
  len : Nat
  deriving DecidableEq, Repr

namespace Arch

def remapHugePageSize (arch : Arch) : Nat :=
  match arch with
  | .riscv32 => 1024 * pageSize
  | .riscv64 => 512 * 512 * pageSize

def remapMemRegions (arch : Arch) : List RemapMemRegion :=
  match arch with
  | .riscv32 =>
    [
      {
        virtAddr := arch.physMemBase
        physAddr := arch.physMemBase
        len := arch.physMemLimit - arch.physMemBase
      }
    ]
  | .riscv64 =>
    [
      {
        virtAddr := arch.physMemBase
        physAddr := arch.physMemBase
        len := arch.remapHugePageSize
      },
      {
        virtAddr := arch.physMemBase + arch.remapMemOffset
        physAddr := arch.physMemBase
        len := arch.physMemLimit - arch.physMemBase
      }
    ]

end Arch

structure BootPageTable (arch : Arch) where
  -- The page of the static `BOOT_PAGE_TABLE`.
  root : PhysFrame arch
  mem : Memory arch
  -- The pages that the kernel heap hands out from now on.
  heap : List (PhysFrame arch)

namespace BootPageTable

def perm : PagePerm := .G ||| .X ||| .W ||| .R ||| .V

def zeroed (root : PhysFrame arch) (mem : Memory arch) (heap : List (PhysFrame arch))
    : BootPageTable arch where
  root
  mem := RadixTree.fill mem root.addr.toVirt .clr
  heap

def init.remap (root : PhysFrame arch) (mem : Memory arch) (region : RemapMemRegion) : Memory arch :=
  (List.range (region.len / arch.remapHugePageSize)).foldl
    (fun mem i =>
      let vaddr : VirtAddr arch := BitVec.ofNat _ (region.virtAddr + i * arch.remapHugePageSize)
      let paddr : PhysAddr arch := BitVec.ofNat _ (region.physAddr + i * arch.remapHugePageSize)
      RadixTree.store mem root.addr.toVirt (vaddr.indexes.headD 0) (.set paddr perm))
    mem

def init (b : BootPageTable arch) : BootPageTable arch :=
  { b with mem := arch.remapMemRegions.foldl (init.remap b.root) b.mem }

def map.go (phys : PhysAddr arch) (b : BootPageTable arch) (base : VirtAddr arch) (indexes : List Nat)
    : Outcome (BootPageTable arch) :=
  match indexes with
  | [] => .next b
  | [i] => .next { b with mem := RadixTree.store b.mem base i (.set phys perm) }
  | i :: indexes =>
    if (b.mem base i).valid then
      map.go phys b (PhysAddr.toVirt (b.mem base i).physAddr).asArrayBase indexes
    else
      match b.heap with
      -- the `unwrap` of the allocation
      | [] => .panic
      | page :: heap =>
        let mem := RadixTree.fill b.mem page.addr.toVirt .clr
        let mem := RadixTree.store mem base i (.set page.addr .V)
        map.go phys { b with mem, heap } (PhysAddr.toVirt (mem base i).physAddr).asArrayBase indexes

def map (b : BootPageTable arch) (virt : VirtAddr arch) (phys : PhysAddr arch)
    : Outcome (BootPageTable arch) :=
  map.go (alignPageDown phys) b b.root.addr.toVirt (VirtAddr.indexes (alignPageDown virt))

def entries (b : BootPageTable arch) (i : Nat) : PageTableEntry arch.bits := b.mem b.root.addr.toVirt i

-- The slots of the root that hold huge pages.
def Remapped (arch : Arch) (i : Nat) : Prop :=
  match arch with
  | .riscv32 => 512 ≤ i ∧ i < 768
  | .riscv64 => i = 2 ∨ 258 ≤ i ∧ i < 384

def Own (arch : Arch) (path : List Nat) : Prop :=
  path.length ≤ PageTable.depth arch ∧ ∀ i ∈ path.head?, ¬ Remapped arch i

def base (page : PhysFrame arch) : VirtAddr arch := page.addr.toVirt

def link (page : PhysFrame arch) : PageTableEntry arch.bits := .set page.addr .V

def grow (mem : Memory arch) (b : VirtAddr arch) (path : List Nat) (free : List (PhysFrame arch))
    : RadixTree.Grown (VirtAddr arch) (PageTableEntry arch.bits) (PhysFrame arch) :=
  RadixTree.grow PageTable.next base link .clr mem b path free

/--
All tables of the boot page table are pages that it has got so far, and the others are still free.
-/
def Wf (pages : List (PhysFrame arch)) (b : BootPageTable arch) : Prop :=
  ∃ used, pages = used ++ b.heap ∧
    RadixTree.Tree PageTable.next (Own arch) b.mem b.root.addr.toVirt
      (fun page => ∃ frame ∈ b.root :: used, base frame = page)

variable {b b' : BootPageTable arch} {pages : List (PhysFrame arch)}

theorem own_closed : RadixTree.Closed (Own arch) := by
  intro p i h
  constructor
  . have hlen := h.1
    simp only [List.length_append, List.length_singleton] at hlen
    omega
  . intro k hk
    apply h.2 k
    cases p with
    | nil => simp at hk
    | cons j p => simpa using hk

theorem not_own_of_depth {path : List Nat} (h : path.length = PageTable.depth arch) (i : Nat)
    : ¬ Own arch (path ++ [i]) := by
  intro hown
  have hlen := hown.1
  simp only [List.length_append, List.length_singleton] at hlen
  omega

theorem map_go_eq (phys : PhysAddr arch) (b : BootPageTable arch) (page : VirtAddr arch) (path : List Nat)
    (i : Nat)
    : map.go phys b page (path ++ [i]) =
        match (grow b.mem page path b.heap).page with
        | some leaf =>
          .next
            {
              b with
              mem := RadixTree.store (grow b.mem page path b.heap).mem leaf i (.set phys perm)
              heap := b.heap.drop (grow b.mem page path b.heap).created.length
            }
        | none => .panic := by
  induction path generalizing b page with
  | nil => simp [map.go, grow, RadixTree.grow]
  | cons k path ih =>
    obtain ⟨l, rest, hrest⟩ := List.exists_cons_of_ne_nil (show path ++ [i] ≠ [] by simp)
    rw [List.cons_append, hrest]
    simp only [map.go]
    rw [← hrest]
    cases hvalid : (b.mem page k).valid with
    | true =>
      have hnext : PageTable.next (b.mem page k)
          =
        some (PhysAddr.toVirt (b.mem page k).physAddr).asArrayBase := by
        simp [PageTable.next, hvalid]
      rw [grow, RadixTree.grow_some hnext, if_pos rfl, ih]
      rfl
    | false =>
      have hnext := PageTable.next_eq_none hvalid
      rw [if_neg (by simp)]
      cases hheap : b.heap with
      | nil =>
        rw [grow, RadixTree.grow_nil hnext]
      | cons page' heap =>
        simp only [RadixTree.store_self, PageTableEntry.physAddr_set, page'.aligned,
          PageTable.asArrayBase_frame]
        rw [grow, RadixTree.grow_none hnext, ih]
        rfl

theorem Wf.unshared (h : b.Wf pages)
    : RadixTree.Unshared PageTable.next (Own arch) b.mem b.root.addr.toVirt := by
  obtain ⟨_, _, htree⟩ := h
  exact htree.unshared

theorem Wf.live (h : b.Wf pages) (q : List Nat) (page : VirtAddr arch) (hq : Own arch q)
    (hwalk : RadixTree.walk PageTable.next b.mem b.root.addr.toVirt q = some page)
    : ∃ frame ∈ b.root :: pages, base frame = page := by
  obtain ⟨used, rfl, htree⟩ := h
  obtain ⟨frame, hframe, heq⟩ := htree.live q page hq hwalk
  refine ⟨frame, ?_, heq⟩
  rw [← List.cons_append]
  exact List.mem_append_left _ hframe

theorem base_inj {frame frame' : PhysFrame arch} (h : base frame = base frame') : frame = frame' :=
  PageTable.frame_eq_of_toVirt h

theorem nodup_base {l : List (PhysFrame arch)} (h : l.Nodup) : (l.map base).Nodup :=
  h.map fun _ _ => base_inj

theorem own_path {addr : VirtAddr arch} (h : ∀ i ∈ addr.indexes.head?, ¬ Remapped arch i)
    : Own arch addr.path := by
  constructor
  . rw [VirtAddr.length_path]
  . rw [VirtAddr.head_path]
    exact h

theorem grow_spec {mem : Memory arch} {root : VirtAddr arch} {live : VirtAddr arch → Prop}
    {free : List (PhysFrame arch)} {path : List Nat}
    (h : RadixTree.Tree PageTable.next (Own arch) mem root live)
    (hfree : RadixTree.Free base live free) (hown : Own arch path)
    : RadixTree.Grows PageTable.next (Own arch) base root live mem (grow mem root path free).mem
          (grow mem root path free).created ∧
        ∀ page, (grow mem root path free).page = some page →
          RadixTree.walk PageTable.next (grow mem root path free).mem root path = some page :=
  RadixTree.grow_spec own_closed PageTable.next_clr PageTable.next_set [] h hfree hown rfl

theorem grow_created (mem : Memory arch) (root : VirtAddr arch) (path : List Nat)
    (free : List (PhysFrame arch))
    : (grow mem root path free).created ++ free.drop (grow mem root path free).created.length = free :=
  List.prefix_iff_eq_append.mp (RadixTree.created_prefix path mem root free)

theorem free_heap {used : List (PhysFrame arch)} (hpages : (b.root :: (used ++ b.heap)).Nodup)
    : RadixTree.Free base (fun page => ∃ frame ∈ b.root :: used, base frame = page) b.heap := by
  rw [← List.cons_append] at hpages
  obtain ⟨_, hheap, hapart⟩ := List.nodup_append.mp hpages
  constructor
  case nodup => exact nodup_base hheap
  case fresh =>
    rintro page hpage ⟨frame, hframe, heq⟩
    exact hapart frame hframe page hpage (base_inj heq)

theorem map_eq_next {virt : VirtAddr arch} {phys : PhysAddr arch} (hmap : b.map virt phys = .next b')
    : ∃ leaf,
        let g := grow b.mem b.root.addr.toVirt (VirtAddr.path (alignPageDown virt)) b.heap
        g.page = some leaf ∧
          b' =
            {
              b with
              mem := RadixTree.store g.mem leaf (VirtAddr.leaf (alignPageDown virt))
                (.set (alignPageDown phys) perm)
              heap := b.heap.drop g.created.length
            } := by
  rw [map, VirtAddr.indexes_eq_path_leaf, map_go_eq] at hmap
  split at hmap
  next leaf hleaf => exact ⟨leaf, hleaf, (Outcome.next.inj hmap).symm⟩
  next => simp at hmap

theorem map_spec {virt : VirtAddr arch} {phys : PhysAddr arch} (h : b.Wf pages)
    (hpages : (b.root :: pages).Nodup) (hown : Own arch (VirtAddr.path (alignPageDown virt)))
    (hmap : b.map virt phys = .next b')
    : b'.root = b.root ∧ b'.Wf pages := by
  obtain ⟨used, rfl, htree⟩ := h
  obtain ⟨hgrows, hpage⟩ := grow_spec htree (free_heap hpages) hown
  have hheap := grow_created b.mem b.root.addr.toVirt (VirtAddr.path (alignPageDown virt)) b.heap
  obtain ⟨leaf, hleaf, rfl⟩ := map_eq_next hmap
  refine ⟨rfl, used ++ (grow b.mem b.root.addr.toVirt (VirtAddr.path (alignPageDown virt))
    b.heap).created, ?_, ?_⟩
  . rw [List.append_assoc, hheap]
  . have hbottom := not_own_of_depth (VirtAddr.length_path (alignPageDown virt))
    apply (hgrows.tree.store_leaf own_closed hown hbottom (hpage leaf hleaf)).mono
    rintro page (⟨frame, hframe, rfl⟩ | ⟨frame, hframe, rfl⟩)
    . refine ⟨frame, ?_, rfl⟩
      rw [← List.cons_append]
      exact List.mem_append_left _ hframe
    . exact ⟨frame, by simp [hframe], rfl⟩

theorem mem_new {frame : PhysFrame arch} {t : PageTable arch}
    (hnew : PageTable.new b.mem b.entries [frame] = .ok t)
    : t.root.toVirt.asArrayBase = base frame ∧
        t.frames[base frame]? = some frame ∧
        (∀ page i, page ≠ base frame → t.mem page i = b.mem page i) ∧
        ∀ i, t.mem (base frame) i =
          if arch.pageEntries / 2 ≤ i ∧ i < arch.pageEntries then b.mem (base b.root) i else .clr := by
  obtain rfl := Except.ok.inj hnew
  have hbase : frame.addr.toVirt.asArrayBase = base frame := PageTable.asArrayBase_frame frame
  refine ⟨hbase, ExtTreeMap.getElem?_insert_self, ?_, ?_⟩
  . intro page i hne
    simp only [PageTable.cloneKernel, hbase, hne, false_and, if_false, PageTable.zeroed]
    exact RadixTree.fill_of_ne hne
  . intro i
    simp only [PageTable.cloneKernel, hbase, true_and, PageTable.zeroed]
    congr 1
    exact RadixTree.fill_self _ _ _

section Init

variable {root : PhysFrame arch} {mem : Memory arch} {heap : List (PhysFrame arch)}

-- Only the slots of the huge pages change.
def Agrees (root : PhysFrame arch) (mem mem' : Memory arch) : Prop :=
  ∀ page i, ¬ (page = root.addr.toVirt ∧ Remapped arch i) → mem' page i = mem page i

theorem Agrees.store {mem' : Memory arch} (h : Agrees root mem mem') {i : Nat} (hi : Remapped arch i)
    (pte : PageTableEntry arch.bits)
    : Agrees root mem (RadixTree.store mem' root.addr.toVirt i pte) := by
  intro page k hnot
  rw [RadixTree.store_of_ne, h page k hnot]
  rintro ⟨rfl, rfl⟩
  exact hnot ⟨rfl, hi⟩

theorem remapped_head {region : RemapMemRegion} (hregion : region ∈ arch.remapMemRegions) {i : Nat}
    (hi : i < region.len / arch.remapHugePageSize)
    : Remapped arch ((VirtAddr.indexes
        (BitVec.ofNat arch.bits (region.virtAddr + i * arch.remapHugePageSize))).headD 0) := by
  -- the numbers have to be there before anything is unfolded
  cases arch with
  | riscv32 =>
    have hhuge : Arch.remapHugePageSize .riscv32 = 0x400000 := rfl
    have hregions : Arch.remapMemRegions .riscv32 = [⟨0x80000000, 0x80000000, 0x40000000⟩] := rfl
    rw [hhuge] at hi ⊢
    rw [VirtAddr.head_indexes32, BitVec.toNat_ofNat]
    rw [hregions, List.mem_singleton] at hregion
    subst hregion
    have hslot : (0x80000000 + i * 0x400000) % 2 ^ 32 / 2 ^ 22 % 1024 = 512 + i := by
      dsimp only at hi
      omega
    have hremapped : Remapped .riscv32 (512 + i) := by
      dsimp only at hi
      exact ⟨by omega, by omega⟩
    rw [← hslot] at hremapped
    exact hremapped
  | riscv64 =>
    have hhuge : Arch.remapHugePageSize .riscv64 = 0x40000000 := rfl
    have hregions : Arch.remapMemRegions .riscv64 =
        [⟨0x80000000, 0x80000000, 0x40000000⟩, ⟨0xFFFFFFC080000000, 0x80000000, 0x1F80000000⟩] := rfl
    rw [hhuge] at hi ⊢
    rw [VirtAddr.head_indexes64, BitVec.toNat_ofNat]
    rw [hregions, List.mem_pair] at hregion
    rcases hregion with rfl | rfl
    . have hslot : (0x80000000 + i * 0x40000000) % 2 ^ 64 / 2 ^ 30 % 512 = 2 := by
        dsimp only at hi
        omega
      exact .inl hslot
    . have hslot : (0xFFFFFFC080000000 + i * 0x40000000) % 2 ^ 64 / 2 ^ 30 % 512 = 258 + i := by
        dsimp only at hi
        omega
      have hremapped : Remapped .riscv64 (258 + i) := by
        dsimp only at hi
        exact .inr ⟨by omega, by omega⟩
      rw [← hslot] at hremapped
      exact hremapped

theorem Agrees.remap {mem' : Memory arch} (h : Agrees root mem mem') {region : RemapMemRegion}
    (hregion : region ∈ arch.remapMemRegions)
    : Agrees root mem (init.remap root mem' region) := by
  unfold init.remap
  apply List.foldlRecOn (motive := Agrees root mem) _ _ h
  intro mem'' h' i hi
  exact h'.store (remapped_head hregion (List.mem_range.mp hi)) _

theorem agrees_init (b : BootPageTable arch) : Agrees b.root b.mem b.init.mem := by
  unfold init
  dsimp only
  apply List.foldlRecOn (motive := Agrees b.root b.mem) _ _ (fun _ _ _ => rfl)
  intro mem hmem region hregion
  exact hmem.remap hregion

theorem wf_init (root : PhysFrame arch) (mem : Memory arch) (heap : List (PhysFrame arch))
    : (zeroed root mem heap).init.Wf heap := by
  refine ⟨[], rfl, ?_⟩
  apply RadixTree.Tree.of_root own_closed
  . exact ⟨root, by simp [init, zeroed], rfl⟩
  . intro i hown
    have hi : ¬ Remapped arch i := hown.2 i (by simp)
    have hclr : (zeroed root mem heap).init.mem root.addr.toVirt i = .clr := by
      rw [agrees_init (zeroed root mem heap) root.addr.toVirt i (fun h => hi h.2)]
      simp [zeroed]
    rw [show (zeroed root mem heap).init.root = root from rfl, hclr]
    exact PageTable.next_clr

end Init

end BootPageTable

end Jrinx
