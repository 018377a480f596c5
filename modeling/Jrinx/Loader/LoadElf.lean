import Jrinx.Loader.Segment
import Jrinx.Paging.MapFailure

/-!
This module contains the callback of `load_elf` from `kern/src/test/trap/mod.rs` and what one call of it
does to the address space and to the frames behind it.
-/

namespace Jrinx

open Std

variable {arch : Arch}

def PF_X : BitVec 32 := 1

def PF_W : BitVec 32 := 2

def PF_R : BitVec 32 := 4

/--
A page table together with the bytes of the direct map. The words of a page are those of the page table,
they follow the bytes of a frame that is handed out or copied to.
-/
structure Image (arch : Arch) where
  pageTable : PageTable arch
  bytes : VirtAddr arch → UInt8

namespace Image

-- Little endian.
def wordAt (bytes : VirtAddr arch → UInt8) (addr : VirtAddr arch) : PageTableEntry arch.bits where
  bits := (List.range (arch.bits / 8)).foldr
    (fun k word => word <<< 8 ||| (bytes (addr + BitVec.ofNat _ k)).toBitVec.setWidth _) 0

def allocZeroed (s : Image arch) (physFrame : PhysFrame arch) : Image arch where
  pageTable := { s.pageTable with mem := PageTable.zeroed s.pageTable.mem physFrame }
  bytes := fun addr => if alignPageDown addr = physFrame.addr.toVirt then 0 else s.bytes addr

def copyNonoverlapping (s : Image arch) (src : List UInt8) (dst : VirtAddr arch) : Image arch :=
  let bytes := fun addr => src[(addr - dst).toNat]?.getD (s.bytes addr)
  let touched := fun base => (List.range src.length).any fun k => alignPageDown (dst + BitVec.ofNat _ k) = base
  let mem := fun base i =>
    if touched base then
      wordAt bytes (base + BitVec.ofNat _ (i * (arch.bits / 8)))
    else
      s.pageTable.mem base i
  { pageTable := { s.pageTable with mem }, bytes }

def read (s : Image arch) (addr : VirtAddr arch) : Option UInt8 :=
  match s.pageTable.translate addr with
  | .next (.ok (paddr, _)) => some (s.bytes paddr.toVirt)
  | _ => none

end Image

def segmentPerm (phdr : ProgramHeader) : PagePerm :=
  let perm := .V ||| .U
  let perm := if phdr.pFlags &&& PF_R ≠ 0 then perm ||| .R else perm
  let perm := if phdr.pFlags &&& PF_W ≠ 0 then perm ||| .W else perm
  if phdr.pFlags &&& PF_X ≠ 0 then perm ||| .X else perm

-- The call of `map` is unwrapped.
def mapFrame (vaddr : VirtAddr arch) (physFrame : PhysFrame arch) (perm : PagePerm)
    (answers : List (PhysFrame arch))
    : LoadM (Image arch) Unit := fun s =>
  match s.pageTable.map vaddr physFrame perm answers with
  | (.ok _, pageTable) => (.ok (), { s with pageTable })
  | (.error _, pageTable) => (.error .panic, { s with pageTable })

-- `alloc` are the frames that the allocator hands out next when this is the page table.
def framePhysAddr (alloc : PageTable arch → List (PhysFrame arch)) (vaddr : VirtAddr arch) (perm : PagePerm)
    : LoadM (Image arch) (PhysAddr arch) := do
  let s ← get
  match s.pageTable.lookup vaddr with
  | .next (.ok (physFrame, oldPerm)) =>
    unless oldPerm.contains perm do
      mapFrame vaddr physFrame (perm ||| oldPerm) (alloc s.pageTable)
    return physFrame.addr
  | .next (.error _) =>
    match alloc s.pageTable with
    | [] => throw .panic
    | physFrame :: answers =>
      set (s.allocZeroed physFrame)
      mapFrame vaddr physFrame perm answers
      return physFrame.addr
  | _ => throw .panic

def loadElfCallback (alloc : PageTable arch → List (PhysFrame arch)) : Loader arch (Image arch) :=
  fun elf phdr vaddr offst len => do
    let paddr ← framePhysAddr alloc vaddr (segmentPerm phdr)
    if len ≠ 0 then
      match elf.segmentData phdr with
      | none => throw .panic
      -- Every call copies from the start of the data.
      | some data =>
        modify (·.copyNonoverlapping (data.take len) (paddr.toVirt + BitVec.ofNat _ offst))

def loadElf (alloc : PageTable arch → List (PhysFrame arch)) (elf : Elf) (s : Image arch)
    : Outcome (Image arch) :=
  match elf.load (loadElfCallback alloc) s with
  | (.ok _, s) => .next s
  | (.error _, _) => .panic

theorem loadElf_eq_next {alloc : PageTable arch → List (PhysFrame arch)} {elf : Elf} {s s' : Image arch}
    (h : loadElf alloc elf s = .next s')
    : elf.load (loadElfCallback alloc) s = (.ok (), s') := by
  unfold loadElf at h
  split at h
  . next heq =>
    obtain rfl := Outcome.next.inj h
    exact heq
  . simp at h

namespace PageTable

variable {boot : Nat → PageTableEntry arch.bits} {t : PageTable arch} {m : AddressSpace arch}

theorem Represents.outside {mem : Memory arch} (h : Represents boot t m)
    (hmem : ∀ (path : List Nat) (base : VirtAddr arch) (i : Nat), Own boot path →
      t.node path = some base → mem base i = t.mem base i)
    : Represents boot { t with mem } m := by
  have hnode {path : List Nat} (hown : Own boot path)
      : PageTable.node { t with mem } path = t.node path :=
    RadixTree.walk_congr own_closed (fun q i b hq hb => hmem q b i (own_closed q i hq) hb) hown
  constructor
  . apply h.tree.congr
    . intro path hown
      exact hnode hown
    . intro addr _
      rfl
  . intro page hpage halign
    rw [← h.entry page hpage halign]
    apply entry_congr (hnode hpage.own_path)
    intro base hbase
    exact hmem _ base _ hpage.own_path hbase
  . exact h.frames

theorem mem_frames_map {addr key : VirtAddr arch} {frame held : PhysFrame arch} {perm : PagePerm}
    {answers : List (PhysFrame arch)} (h : (t.map addr frame perm answers).2.frames[key]? = some held)
    : (key = alignPageDown addr ∧ held = frame) ∨ t.frames[key]? = some held ∨ held ∈ answers := by
  obtain ⟨hcreated, hkept⟩ := frames_findOrCreate
    { t with frames := t.frames.insert (alignPageDown addr) frame } t.root
    (VirtAddr.indexes (alignPageDown addr)) answers
  rw [frames_map] at h
  by_cases hnew : ∃ node ∈ findOrCreate.created
      { t with frames := t.frames.insert (alignPageDown addr) frame } t.root
      (VirtAddr.indexes (alignPageDown addr)) answers, node.addr.toVirt = key
  . obtain ⟨node, hnode, rfl⟩ := hnew
    obtain rfl : node = held := Option.some.inj ((hcreated node hnode).symm.trans h)
    exact .inr (.inr (mem_of_created hnode))
  . simp only [not_exists, not_and] at hnew
    have hinsert := (hkept _ hnew).symm.trans h
    rw [ExtTreeMap.getElem?_insert] at hinsert
    split at hinsert
    . next heq => exact .inl ⟨(by simpa using heq : alignPageDown addr = key).symm,
        (Option.some.inj hinsert).symm⟩
    . exact .inr (.inl hinsert)

end PageTable

end Jrinx
