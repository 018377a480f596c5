import Jrinx.Paging.Addr

/-!
This module contains the entries of a page table, from `paging/src/arch/riscv/mod.rs`. They do not
depend on the width of a word.
-/

namespace Jrinx

abbrev PagePerm := BitVec 8

namespace PagePerm

def V : PagePerm := 1 <<< 0

def R : PagePerm := 1 <<< 1

def W : PagePerm := 1 <<< 2

def X : PagePerm := 1 <<< 3

def U : PagePerm := 1 <<< 4

def G : PagePerm := 1 <<< 5

def A : PagePerm := 1 <<< 6

def D : PagePerm := 1 <<< 7

def contains (perm other : PagePerm) : Bool := perm &&& other = other

def touched (perm : PagePerm) : PagePerm :=
  let perm := if contains perm R then perm ||| A else perm
  if contains perm W then perm ||| D else perm

end PagePerm

structure PageTableEntry (w : Nat) where
  bits : BitVec w
  deriving DecidableEq, Repr

namespace PageTableEntry

variable {w : Nat}

def physAddr (pte : PageTableEntry w) : BitVec w := alignPageDown (pte.bits <<< 2)

def perm (pte : PageTableEntry w) : PagePerm := pte.bits.setWidth 8

def valid (pte : PageTableEntry w) : Bool := pte.perm.contains .V

def set (physAddr : BitVec w) (perm : PagePerm) : PageTableEntry w where
  bits := (alignPageDown physAddr >>> 2) ||| perm.touched.setWidth w

def clr : PageTableEntry w where
  bits := 0

@[simp]
theorem physAddr_set (addr : BitVec w) (perm : PagePerm)
    : (set addr perm).physAddr = alignPageDown addr := by
  apply BitVec.eq_of_getLsbD_eq
  intro i hi
  simp only [physAddr, set, getLsbD_alignPageDown, BitVec.getLsbD_shiftLeft, BitVec.getLsbD_or,
    BitVec.getLsbD_ushiftRight, BitVec.getLsbD_setWidth]
  by_cases h12 : i < 12
  . simp [h12]
  . -- the permission does not reach that far
    have hperm : perm.touched.getLsbD (i - 2) = false := by
      apply BitVec.getLsbD_of_ge
      omega
    simp [h12, hi, hperm, show ¬ i < 2 by omega, show 2 + (i - 2) = i by omega]

@[simp]
theorem perm_set (hw : 8 ≤ w) (addr : BitVec w) (perm : PagePerm)
    : (set addr perm).perm = perm.touched := by
  apply BitVec.eq_of_getLsbD_eq
  intro i hi
  simp only [PageTableEntry.perm, set, BitVec.getLsbD_setWidth, BitVec.getLsbD_or,
    BitVec.getLsbD_ushiftRight, getLsbD_alignPageDown]
  simp [hi, show i < w by omega, show 2 + i < 12 by omega]

theorem contains_touched (perm : PagePerm) : perm.touched.contains .V = perm.contains .V := by
  revert perm
  decide +kernel

@[simp]
theorem valid_set (hw : 8 ≤ w) (addr : BitVec w) (perm : PagePerm)
    : (set addr perm).valid = perm.contains .V := by
  rw [valid, perm_set hw, contains_touched]

@[simp]
theorem valid_clr : (clr : PageTableEntry w).valid = false := by
  simp [valid, perm, clr, PagePerm.contains, PagePerm.V]

theorem contains_union_V (perm : PagePerm) : PagePerm.contains (perm ||| .V) .V = true := by
  revert perm
  decide +kernel

-- The permission together with the bits that the accesses it allows would set.
def withAccess (perm : PagePerm) : PagePerm :=
  perm ||| (if perm.contains .R then .A else 0) ||| (if perm.contains .W then .D else 0)

theorem touched_eq (perm : PagePerm) : perm.touched = withAccess perm := by
  revert perm
  decide +kernel

theorem touched_touched (perm : PagePerm) : perm.touched.touched = perm.touched := by
  revert perm
  decide +kernel

theorem eight_le_bits (arch : Arch) : 8 ≤ arch.bits := by
  cases arch <;> decide

theorem set_alignPageDown (addr : BitVec w) (perm : PagePerm)
    : set (alignPageDown addr) perm.touched = set addr perm := by
  rw [set, set, alignPageDown_alignPageDown, touched_touched]

theorem eq_of_bits_set {addr addr' : BitVec w} {perm perm' : PagePerm} (hw : 8 ≤ w)
    (h : (set addr perm).bits = (set addr' perm').bits)
    : alignPageDown addr = alignPageDown addr' ∧ perm.touched = perm'.touched := by
  have hset : set addr perm = set addr' perm' := congrArg PageTableEntry.mk h
  constructor
  . rw [← physAddr_set addr perm, hset, physAddr_set]
  . rw [← perm_set hw addr perm, hset, perm_set hw]

/--
What `set` has written is decoded again, and setting it once more changes nothing.
-/
structure Decodes (addr : PhysAddr arch) (perm : PagePerm) : Prop where
  page : (set addr perm).physAddr.toNat = addr.toNat / pageSize * pageSize
  access : (set addr perm).perm = withAccess perm
  valid_iff : (set addr perm).valid = true ↔ perm.contains .V = true
  again : set (set addr perm).physAddr (set addr perm).perm = set addr perm

theorem decodes (addr : PhysAddr arch) (perm : PagePerm) : Decodes addr perm := by
  have hw := eight_le_bits arch
  constructor
  case page => rw [physAddr_set, toNat_alignPageDown, pageSize]
  case access => rw [perm_set hw, touched_eq]
  case valid_iff => rw [valid_set hw]
  case again => rw [physAddr_set, perm_set hw, set_alignPageDown]

/--
On both architectures every address and permission come back from the entry, and the entries of different
pages or permissions are different words.
-/
theorem entry_codec (arch : Arch)
    : (∀ (addr : PhysAddr arch) (perm : PagePerm), Decodes addr perm) ∧
        ∀ (addr addr' : PhysAddr arch) (perm perm' : PagePerm),
          addr.toNat / pageSize ≠ addr'.toNat / pageSize ∨ withAccess perm ≠ withAccess perm' →
            (set addr perm).bits ≠ (set addr' perm').bits := by
  refine ⟨decodes, ?_⟩
  intro addr addr' perm perm' hne hbits
  obtain ⟨haddr, hperm⟩ := eq_of_bits_set (eight_le_bits arch) hbits
  rcases hne with hpage | haccess
  . have htoNat := congrArg BitVec.toNat haddr
    rw [toNat_alignPageDown, toNat_alignPageDown] at htoNat
    rw [pageSize] at hpage
    omega
  . rw [touched_eq, touched_eq] at hperm
    exact haccess hperm

end PageTableEntry

end Jrinx
