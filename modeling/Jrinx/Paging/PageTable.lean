import Mathlib.Tactic
import Jrinx.Error
import Jrinx.Paging.Entry
import Jrinx.Util.Outcome
import Jrinx.Util.RadixTree

/-!
This module contains the page tables from `paging/src/common.rs` and the part of the boot page table
that is copied into every one of them, from `paging/src/arch/riscv/boot.rs`.
-/

namespace Jrinx

open Std

variable {arch : Arch}

namespace Arch

def pageEntries (arch : Arch) : Nat := pageSize / (arch.bits / 8)

end Arch

structure PhysFrame (arch : Arch) where
  addr : PhysAddr arch
  aligned : alignPageDown addr = addr
  deriving DecidableEq, Repr

abbrev Memory (arch : Arch) := VirtAddr arch → Nat → PageTableEntry arch.bits

structure EntryRef (arch : Arch) where
  base : VirtAddr arch
  index : Nat
  deriving DecidableEq, Repr

structure PageTable (arch : Arch) where
  root : PhysAddr arch
  frames : ExtTreeMap (VirtAddr arch) (PhysFrame arch)
  mem : Memory arch

inductive PagingAction (arch : Arch) where
  -- `answers` are the frames that the allocator has left for this call.
  | map (addr : VirtAddr arch) (frame : PhysFrame arch) (perm : PagePerm)
      (answers : List (PhysFrame arch))
  | unmap (addr : VirtAddr arch)
  -- Other code stores a word into a page.
  | write (base : VirtAddr arch) (index : Nat) (pte : PageTableEntry arch.bits)

def VirtAddr.asArrayBase (addr : VirtAddr arch) : VirtAddr arch := alignPageDown addr

namespace PageTable

def read (t : PageTable arch) (ref : EntryRef arch) : PageTableEntry arch.bits :=
  t.mem ref.base ref.index

def write (t : PageTable arch) (ref : EntryRef arch) (pte : PageTableEntry arch.bits) : PageTable arch :=
  { t with mem := RadixTree.store t.mem ref.base ref.index pte }

def cloneKernel (mem : Memory arch) (dst : VirtAddr arch) (boot : Nat → PageTableEntry arch.bits)
    : Memory arch :=
  -- The entries from the second half on are those of the boot page table.
  fun base i =>
    if base = dst ∧ arch.pageEntries / 2 ≤ i ∧ i < arch.pageEntries then boot i else mem base i

def zeroed (mem : Memory arch) (frame : PhysFrame arch) : Memory arch :=
  RadixTree.fill mem frame.addr.toVirt .clr

def new (mem : Memory arch) (boot : Nat → PageTableEntry arch.bits) (answers : List (PhysFrame arch))
    : Except InternalError (PageTable arch) :=
  match answers with
  | [] => .error .notEnoughMem
  | frame :: _ =>
    let root := frame.addr
    .ok
      {
        root
        frames := (∅ : ExtTreeMap (VirtAddr arch) (PhysFrame arch)).insert root.toVirt frame
        mem := cloneKernel (zeroed mem frame) root.toVirt.asArrayBase boot
      }

def find.go (mem : Memory arch) (pa : PhysAddr arch) (indexes : List Nat)
    : Except InternalError (EntryRef arch) :=
  match indexes with
  | [] => .error .invalidVirtAddr
  | [i] => .ok { base := pa.toVirt.asArrayBase, index := i }
  | i :: indexes =>
    let pte := mem pa.toVirt.asArrayBase i
    if pte.valid then
      find.go mem pte.physAddr indexes
    else
      .error .invalidVirtAddr

def find (t : PageTable arch) (addr : VirtAddr arch) : Except InternalError (EntryRef arch) :=
  find.go t.mem t.root addr.indexes

def create (t : PageTable arch) (ref : EntryRef arch) (frame : PhysFrame arch) : PageTable arch :=
  let t := { t with mem := zeroed t.mem frame }
  let t := t.write ref (.set frame.addr .V)
  { t with frames := t.frames.insert frame.addr.toVirt frame }

def findOrCreate.go (t : PageTable arch) (pa : PhysAddr arch) (indexes : List Nat)
    (answers : List (PhysFrame arch))
    : Except InternalError (EntryRef arch) × PageTable arch :=
  match indexes with
  | [] => (.error .invalidVirtAddr, t)
  | [i] => (.ok { base := pa.toVirt.asArrayBase, index := i }, t)
  | i :: indexes =>
    let ref : EntryRef arch := { base := pa.toVirt.asArrayBase, index := i }
    if (t.read ref).valid then
      findOrCreate.go t (t.read ref).physAddr indexes answers
    else
      match answers with
      | [] => (.error .notEnoughMem, t)
      | frame :: answers =>
        let t := t.create ref frame
        findOrCreate.go t (t.read ref).physAddr indexes answers

def findOrCreate (t : PageTable arch) (addr : VirtAddr arch) (answers : List (PhysFrame arch))
    : Except InternalError (EntryRef arch) × PageTable arch :=
  findOrCreate.go t t.root addr.indexes answers

def lookup (t : PageTable arch) (addr : VirtAddr arch)
    : Outcome (Except InternalError (PhysFrame arch × PagePerm)) :=
  let addr := alignPageDown addr
  match t.find addr with
  | .ok ref =>
    if (t.read ref).valid then
      match t.frames[addr]? with
      | some frame => .next (.ok (frame, (t.read ref).perm))
      -- the index operator of the map
      | none => .panic
    else
      .next (.error .invalidVirtAddr)
  | .error e => .next (.error e)

def translate (t : PageTable arch) (addr : VirtAddr arch)
    : Outcome (Except InternalError (PhysAddr arch × PagePerm)) :=
  (t.lookup addr).map fun
    | .ok (frame, perm) => .ok (frame.addr + pageOffset addr, perm)
    | .error _ => .error .invalidVirtAddr

def map (t : PageTable arch) (addr : VirtAddr arch) (frame : PhysFrame arch) (perm : PagePerm)
    (answers : List (PhysFrame arch))
    : Except InternalError Unit × PageTable arch :=
  let addr := alignPageDown addr
  let t := { t with frames := t.frames.insert addr frame }
  match t.findOrCreate addr answers with
  | (.ok ref, t) => (.ok (), t.write ref (.set frame.addr (perm ||| .V)))
  | (.error e, t) => (.error e, t)

def unmap (t : PageTable arch) (addr : VirtAddr arch) : Except InternalError Unit × PageTable arch :=
  let addr := alignPageDown addr
  if addr ∈ t.frames then
    let t := { t with frames := t.frames.erase addr }
    match t.find addr with
    | .ok ref => (.ok (), t.write ref .clr)
    | .error e => (.error e, t)
  else
    (.error .invalidVirtAddr, t)

def step (t : PageTable arch) (a : PagingAction arch) : Outcome (PageTable arch) :=
  -- A call leaves its changes behind even if it fails.
  match a with
  | .map addr frame perm answers => .next (t.map addr frame perm answers).2
  | .unmap addr => .next (t.unmap addr).2
  | .write base index pte => .next (t.write { base, index } pte)

end PageTable

end Jrinx
