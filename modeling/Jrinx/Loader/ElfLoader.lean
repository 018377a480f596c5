import Mathlib.Tactic
import Jrinx.Error
import Jrinx.Paging.Addr
import Jrinx.Util.StepBy

/-!
This module contains the loader from `loader/src/lib.rs`, generic in the callback, and the calls that it
makes for a segment. What a file holds is up to the crate that parses it.
-/

namespace Jrinx

open StepBy

structure ProgramHeader where
  pType : BitVec 32
  pFlags : BitVec 32
  pOffset : BitVec 64
  pVaddr : BitVec 64
  pFilesz : BitVec 64
  pMemsz : BitVec 64
  deriving DecidableEq, Repr

def PT_LOAD : BitVec 32 := 1

structure Elf where
  segments : Option (List ProgramHeader)
  segmentData : ProgramHeader → Option (List UInt8)

inductive LoadStop where
  | error (e : InternalError)
  | panic
  deriving DecidableEq, Repr

-- A callback changes the state it has captured.
abbrev LoadM (σ : Type) := ExceptT LoadStop (StateM σ)

abbrev Loader (arch : Arch) (σ : Type) :=
  Elf → ProgramHeader → VirtAddr arch → Nat → Nat → LoadM σ Unit

structure LoaderCall (arch : Arch) where
  vaddr : VirtAddr arch
  offset : Nat
  len : Nat
  deriving DecidableEq, Repr

variable {arch : Arch} {σ : Type}

namespace LoadM

variable {α β : Type} {x : LoadM σ α} {f : α → LoadM σ β} {s s' : σ}

theorem bind_of_ok {a : α} (h : x s = (.ok a, s')) : (x >>= f) s = f a s' := by
  have hbind : (x >>= f) s = ExceptT.bindCont f (x s).1 (x s).2 := rfl
  rw [hbind, h]
  rfl

theorem bind_of_error {e : LoadStop} (h : x s = (.error e, s')) : (x >>= f) s = (.error e, s') := by
  have hbind : (x >>= f) s = ExceptT.bindCont f (x s).1 (x s).2 := rfl
  rw [hbind, h]
  rfl

theorem bind_eq_ok {b : β} (h : (x >>= f) s = (.ok b, s'))
    : ∃ a t, x s = (.ok a, t) ∧ f a t = (.ok b, s') := by
  rcases hx : x s with ⟨r, t⟩
  cases r with
  | ok a =>
    rw [bind_of_ok hx] at h
    exact ⟨a, t, rfl, h⟩
  | error e =>
    rw [bind_of_error hx] at h
    cases h

theorem forM_eq_ok {l : List α} {f : α → LoadM σ Unit}
    (h : (forM l f : LoadM σ Unit) s = (.ok (), s')) {a : α} (ha : a ∈ l)
    : ∃ t t', f a t = (.ok (), t') := by
  induction l generalizing s with
  | nil => simp at ha
  | cons b l ih =>
    rw [List.forM_cons] at h
    obtain ⟨_, t, hfirst, hrest⟩ := bind_eq_ok h
    rcases List.mem_cons.mp ha with rfl | ha
    . exact ⟨s, t, hfirst⟩
    . exact ih hrest ha

end LoadM

namespace ProgramHeader

def segVaddr (arch : Arch) (segHeader : ProgramHeader) : VirtAddr arch :=
  segHeader.pVaddr.setWidth arch.bits

def filesz (arch : Arch) (segHeader : ProgramHeader) : Nat := (segHeader.pFilesz.setWidth arch.bits).toNat

def memsz (arch : Arch) (segHeader : ProgramHeader) : Nat := (segHeader.pMemsz.setWidth arch.bits).toNat

end ProgramHeader

namespace Elf

def loadSegment (elf : Elf) (loader : Loader arch σ) (segHeader : ProgramHeader) : LoadM σ Unit := do
  let segVaddr := segHeader.segVaddr arch
  let offset := (segVaddr - alignPageDown segVaddr).toNat
  let offsetLen :=
    if offset ≠ 0 then some (min (segHeader.filesz arch) (pageSize - offset)) else none
  let regionToLoad := stepBy (offsetLen.getD 0) (segHeader.filesz arch) pageSize
  let regionToZero := stepBy (segHeader.filesz arch) (segHeader.memsz arch) pageSize
  if let some len := offsetLen then
    loader elf segHeader segVaddr offset len
  for vaddr in regionToLoad.map (fun offset => segVaddr + BitVec.ofNat _ offset) do
    loader elf segHeader vaddr 0 (min pageSize (segHeader.filesz arch - (vaddr - segVaddr).toNat))
  for vaddr in regionToZero.map (fun offset => segVaddr + BitVec.ofNat _ offset) do
    loader elf segHeader vaddr 0 0

def load (elf : Elf) (loader : Loader arch σ) : LoadM σ Unit := do
  match elf.segments with
  | none => throw (.error .elfParseError)
  | some segments =>
    for segHeader in segments.filter (·.pType = PT_LOAD) do
      elf.loadSegment loader segHeader

end Elf

namespace ProgramHeader

def offset (arch : Arch) (segHeader : ProgramHeader) : Nat := (segHeader.segVaddr arch).toNat % pageSize

def offsetLen (arch : Arch) (segHeader : ProgramHeader) : Option Nat :=
  if segHeader.offset arch ≠ 0 then
    some (min (segHeader.filesz arch) (pageSize - segHeader.offset arch))
  else
    none

def addrAt (arch : Arch) (segHeader : ProgramHeader) (offset : Nat) : VirtAddr arch :=
  segHeader.segVaddr arch + BitVec.ofNat _ offset

def firstCalls (arch : Arch) (segHeader : ProgramHeader) : List (LoaderCall arch) :=
  (segHeader.offsetLen arch).toList.map fun len =>
    { vaddr := segHeader.segVaddr arch, offset := segHeader.offset arch, len }

def loadCalls (arch : Arch) (segHeader : ProgramHeader) : List (LoaderCall arch) :=
  (stepBy ((segHeader.offsetLen arch).getD 0) (segHeader.filesz arch) pageSize).map fun offset =>
    let vaddr := segHeader.addrAt arch offset
    {
      vaddr
      offset := 0
      len := min pageSize (segHeader.filesz arch - (vaddr - segHeader.segVaddr arch).toNat)
    }

def zeroCalls (arch : Arch) (segHeader : ProgramHeader) : List (LoaderCall arch) :=
  (stepBy (segHeader.filesz arch) (segHeader.memsz arch) pageSize).map fun offset =>
    { vaddr := segHeader.addrAt arch offset, offset := 0, len := 0 }

def segmentCalls (arch : Arch) (segHeader : ProgramHeader) : List (LoaderCall arch) :=
  segHeader.firstCalls arch ++ segHeader.loadCalls arch ++ segHeader.zeroCalls arch

theorem toNat_sub_alignPageDown {w : Nat} (addr : BitVec w)
    : (addr - alignPageDown addr).toNat = addr.toNat % pageSize := by
  have hle : alignPageDown addr ≤ addr := by
    rw [BitVec.le_def, toNat_alignPageDown]
    omega
  rw [BitVec.toNat_sub_of_le hle, toNat_alignPageDown, pageSize]
  omega

end ProgramHeader

namespace Elf

variable {elf : Elf} {segHeader : ProgramHeader} {loader : Loader arch σ}

def call (elf : Elf) (loader : Loader arch σ) (segHeader : ProgramHeader) (c : LoaderCall arch)
    : LoadM σ Unit :=
  loader elf segHeader c.vaddr c.offset c.len

-- A loop that does not stop early is `forM`.
theorem forIn_yield {m : Type → Type} [Monad m] [LawfulMonad m] {α : Type} (l : List α) (f : α → m Unit)
    : (forIn l () fun a _ => do
        f a
        pure (ForInStep.yield ())) = forM l f := by
  induction l with
  | nil => rfl
  | cons a l ih => simp only [List.forIn_cons, List.forM_cons, bind_assoc, pure_bind, ih]

theorem loadSegment_eq
    : elf.loadSegment loader segHeader = forM (segHeader.segmentCalls arch) (elf.call loader segHeader) := by
  have hoffset : (segHeader.segVaddr arch).toNat % pageSize = segHeader.offset arch := rfl
  have hlen : (if segHeader.offset arch ≠ 0 then
      some (min (segHeader.filesz arch) (pageSize - segHeader.offset arch)) else none) =
        segHeader.offsetLen arch := rfl
  simp only [loadSegment, ProgramHeader.toNat_sub_alignPageDown, hoffset, hlen, forIn_yield, bind_pure_unit,
    ProgramHeader.segmentCalls, ProgramHeader.firstCalls, ProgramHeader.loadCalls, ProgramHeader.zeroCalls,
    List.forM_append, List.forM_map, call, ProgramHeader.addrAt]
  cases segHeader.offsetLen arch with
  | none => simp only [Option.toList_none, List.forM_nil, pure_bind]
  | some len => simp only [Option.toList_some, List.forM_cons, List.forM_nil, bind_pure_unit, bind_assoc]

def loadSegments (elf : Elf) : List ProgramHeader := (elf.segments.getD []).filter (·.pType = PT_LOAD)

def loadCalls (arch : Arch) (elf : Elf) : List (ProgramHeader × LoaderCall arch) :=
  elf.loadSegments.flatMap fun segHeader => (segHeader.segmentCalls arch).map (segHeader, ·)

theorem load_eq {segments : List ProgramHeader} (h : elf.segments = some segments)
    : elf.load loader = forM (elf.loadCalls arch) (fun d => elf.call loader d.1 d.2) := by
  have hsegments : segments.filter (·.pType = PT_LOAD) = elf.loadSegments := by
    rw [loadSegments, h, Option.getD_some]
  rw [load, h]
  simp only [forIn_yield, bind_pure_unit, hsegments, loadCalls]
  generalize elf.loadSegments = l
  induction l with
  | nil => rfl
  | cons segHeader l ih =>
    rw [List.forM_cons, List.flatMap_cons, List.forM_append, List.forM_map, ih, loadSegment_eq]

end Elf

end Jrinx
