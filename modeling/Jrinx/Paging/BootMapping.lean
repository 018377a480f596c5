import Jrinx.Paging.Boot

/-!
This module contains what the boot page table maps. Its tables are walked as the hardware does it, by
Sv32 or Sv39, where the walk may end at a huge page. A page table that is created from the boot page
table has the same upper half.
-/

namespace Jrinx

variable {arch : Arch}

namespace Arch

def physBits (arch : Arch) : Nat :=
  match arch with
  | .riscv32 => 34
  | .riscv64 => 56

end Arch

namespace PageTableEntry

variable {w : Nat}

-- The address that the page number stands for. It may be wider than a word.
def frame (pte : PageTableEntry w) : Nat := pte.bits.toNat >>> 10 <<< 12

def isLeaf (pte : PageTableEntry w) : Bool := pte.perm.contains .R || pte.perm.contains .X

-- All other entries raise a page fault: the bits above of the page number are reserved.
def Accepted (pte : PageTableEntry arch.bits) : Prop :=
  pte.valid = true ∧ (pte.perm.contains .W = true → pte.perm.contains .R = true) ∧
    pte.frame < 2 ^ arch.physBits

instance (pte : PageTableEntry arch.bits) : Decidable pte.Accepted :=
  inferInstanceAs (Decidable (_ ∧ _ ∧ _))

theorem ofNat_frame (pte : PageTableEntry w) : BitVec.ofNat w pte.frame = pte.physAddr := by
  apply BitVec.eq_of_getLsbD_eq
  intro i hi
  simp only [frame, physAddr, getLsbD_alignPageDown, BitVec.getLsbD_ofNat, BitVec.getLsbD_shiftLeft,
    Nat.testBit_shiftLeft, Nat.testBit_shiftRight]
  by_cases h12 : i < 12
  . simp [h12]
  . simp [h12, hi, show ¬ i < 2 by omega, show 10 + (i - 12) = i - 2 by omega, BitVec.testBit_toNat,
      show 12 ≤ i by omega]

theorem frame_set (addr : BitVec w) (perm : PagePerm)
    : (set addr perm).frame = (alignPageDown addr).toNat := by
  apply Nat.eq_of_testBit_eq
  intro i
  simp only [frame, set, Nat.testBit_shiftLeft, Nat.testBit_shiftRight, BitVec.testBit_toNat,
    BitVec.getLsbD_or, BitVec.getLsbD_ushiftRight, BitVec.getLsbD_setWidth, getLsbD_alignPageDown]
  by_cases h12 : i < 12
  . simp [h12]
  . have hperm : perm.touched.getLsbD (10 + (i - 12)) = false := by
      apply BitVec.getLsbD_of_ge
      omega
    simp [h12, hperm, show 2 + (10 + (i - 12)) = i by omega, show 12 ≤ i by omega]

end PageTableEntry

namespace Mmu

def index (addr : VirtAddr arch) (shift : Nat) : Nat := addr.toNat / 2 ^ shift % (arch.indexMask + 1)

-- Where the table at a physical address is found in the model.
def table (pa : Nat) : VirtAddr arch := PhysAddr.toVirt (BitVec.ofNat arch.bits pa)

def walk (mem : Memory arch) (addr : VirtAddr arch) (pa : Nat) (shifts : List Nat) : Option Nat :=
  match shifts with
  | [] => none
  | shift :: shifts =>
    let pte := mem (table pa) (index addr shift)
    if pte.Accepted then
      if pte.isLeaf then
        -- A huge page has to be aligned to its size.
        if pte.frame % 2 ^ shift = 0 then some (pte.frame + addr.toNat % 2 ^ shift) else none
      else
        walk mem addr pte.frame shifts
    else
      none

/--
The physical address that the hardware translates an address to.
-/
def translate (mem : Memory arch) (root : PhysAddr arch) (addr : VirtAddr arch) : Option Nat :=
  if addr.Canonical then walk mem addr root.toNat arch.indexShifts else none

def inPage (phys : PhysAddr arch) (addr : VirtAddr arch) : Option Nat :=
  let frame := (alignPageDown phys).toNat
  if frame < 2 ^ arch.physBits then some (frame + addr.toNat % pageSize) else none

variable {mem mem' : Memory arch} {addr : VirtAddr arch}

theorem indexes_eq (addr : VirtAddr arch) : addr.indexes = arch.indexShifts.map (index addr) :=
  VirtAddr.indexes_eq

theorem table_frame (pte : PageTableEntry arch.bits) (h : pte.valid = true)
    : PageTable.next pte = some (table pte.frame) := by
  have halign : alignPageDown (PhysAddr.toVirt pte.physAddr) = PhysAddr.toVirt pte.physAddr := by
    apply PhysAddr.alignPageDown_toVirt
    rw [PageTableEntry.physAddr, alignPageDown_alignPageDown]
  rw [PageTable.next, if_pos h, VirtAddr.asArrayBase, halign, table, PageTableEntry.ofNat_frame]

def Link (pte : PageTableEntry arch.bits) : Prop := pte.Accepted ∧ pte.isLeaf = false

def last (addr : VirtAddr arch) (shift : Nat) (pte : PageTableEntry arch.bits) : Option Nat :=
  if pte.Accepted ∧ pte.isLeaf = true ∧ pte.frame % 2 ^ shift = 0 then
    some (pte.frame + addr.toNat % 2 ^ shift)
  else
    none

section Walk

variable {root : VirtAddr arch} {shifts : List Nat} {shift : Nat} {pa : Nat}

theorem walk_none (h : PageTable.next (mem (table pa) (index addr shift)) = none)
    : walk mem addr pa (shift :: shifts) = none := by
  have hinvalid : ¬ (mem (table pa) (index addr shift)).Accepted := by
    intro haccepted
    rw [table_frame _ haccepted.1] at h
    simp at h
  simp only [walk, if_neg hinvalid]

theorem walk_link (h : Link (mem (table pa) (index addr shift)))
    : walk mem addr pa (shift :: shifts) =
        walk mem addr (mem (table pa) (index addr shift)).frame shifts := by
  simp [walk, h.1, h.2]

theorem walk_last : walk mem addr pa [shift] = last addr shift (mem (table pa) (index addr shift)) := by
  simp only [walk, last]
  by_cases haccepted : (mem (table pa) (index addr shift)).Accepted
  . by_cases hleaf : (mem (table pa) (index addr shift)).isLeaf = true
    . simp [haccepted, hleaf]
    . simp [haccepted, hleaf]
  . simp [haccepted]

theorem walk_eq_leaf (done : List Nat)
    (hlinked : RadixTree.Linked PageTable.next (BootPageTable.Own arch) Link mem root)
    (hown : BootPageTable.Own arch (done ++ shifts.map (index addr)))
    (hwalk : RadixTree.walk PageTable.next mem root done = some (table pa))
    : walk mem addr pa (shifts ++ [shift]) =
        (RadixTree.leaf PageTable.next mem root (done ++ shifts.map (index addr)) (index addr shift)).bind
          (last addr shift) := by
  induction shifts generalizing done pa with
  | nil =>
    simp only [List.map_nil, List.append_nil, List.nil_append, RadixTree.leaf, hwalk, Option.bind_some]
    cases hnext : PageTable.next (mem (table pa) (index addr shift)) with
    | none =>
      rw [walk_none hnext]
      rfl
    | some page =>
      rw [walk_last]
      rfl
  | cons s shifts ih =>
    have hassoc : done ++ (s :: shifts).map (index addr) =
        (done ++ [index addr s]) ++ shifts.map (index addr) := by simp
    rw [hassoc] at hown ⊢
    have hdone := BootPageTable.own_closed.of_append hown
    cases hnext : PageTable.next (mem (table pa) (index addr s)) with
    | none =>
      have hstop : RadixTree.walk PageTable.next mem root
          ((done ++ [index addr s]) ++ shifts.map (index addr)) = none := by
        rw [RadixTree.walk_append, RadixTree.walk_concat, hwalk, Option.bind_some, hnext]
        rfl
      rw [List.cons_append, walk_none hnext, RadixTree.leaf, hstop]
      rfl
    | some page =>
      have hlink : Link (mem (table pa) (index addr s)) := by
        apply hlinked done (index addr s) (table pa) hdone hwalk
        simp [hnext]
      rw [List.cons_append, walk_link hlink]
      apply ih (done ++ [index addr s]) hown
      rw [RadixTree.walk_concat, hwalk, Option.bind_some, table_frame _ hlink.1.1]

theorem walk_root {pa' : Nat}
    (hsame : mem' (table pa') (index addr shift) = mem (table pa) (index addr shift))
    (hlink : ¬ Link (mem (table pa) (index addr shift)))
    : walk mem' addr pa' (shift :: shifts) = walk mem addr pa (shift :: shifts) := by
  simp only [walk, hsame]
  split
  . next haccepted =>
    split
    . rfl
    . next hleaf => exact absurd ⟨haccepted, by simpa using hleaf⟩ hlink
  . rfl

theorem walk_congr (done : List Nat) (hne : done ≠ [])
    (hsame : ∀ path page i, BootPageTable.Own arch path → path ≠ [] →
      RadixTree.walk PageTable.next mem root path = some page → mem' page i = mem page i)
    (hown : BootPageTable.Own arch (done ++ shifts.dropLast.map (index addr)))
    (hwalk : RadixTree.walk PageTable.next mem root done = some (table pa))
    : walk mem' addr pa shifts = walk mem addr pa shifts := by
  induction shifts generalizing done pa with
  | nil => rfl
  | cons s shifts ih =>
    have hdone := BootPageTable.own_closed.of_append hown
    simp only [walk, hsame done _ (index addr s) hdone hne hwalk]
    split
    . next haccepted =>
      split
      . rfl
      . cases shifts with
        | nil => rfl
        | cons s' shifts =>
          apply ih (done ++ [index addr s]) (by simp)
          . simpa using hown
          . rw [RadixTree.walk_concat, hwalk, Option.bind_some, table_frame _ haccepted.1]
    . rfl

end Walk

theorem table_root (root : PhysAddr arch) : table root.toNat = root.toVirt := by
  rw [table, BitVec.ofNat_toNat, BitVec.setWidth_eq]

theorem shifts_eq : arch.indexShifts = arch.indexShifts.dropLast ++ [12] := by
  cases arch <;> rfl

theorem path_eq (addr : VirtAddr arch) : addr.path = arch.indexShifts.dropLast.map (index addr) := by
  rw [VirtAddr.path, indexes_eq, List.map_dropLast]

theorem leaf_eq (addr : VirtAddr arch) : addr.leaf = index addr 12 := by
  rw [VirtAddr.leaf, indexes_eq, shifts_eq]
  simp

theorem translate_eq_leaf {root : PhysAddr arch}
    (hlinked : RadixTree.Linked PageTable.next (BootPageTable.Own arch) Link mem root.toVirt)
    (hcanonical : addr.Canonical) (hown : BootPageTable.Own arch addr.path)
    : translate mem root addr =
        (RadixTree.leaf PageTable.next mem root.toVirt addr.path addr.leaf).bind (last addr 12) := by
  rw [path_eq] at hown ⊢
  have hroot : RadixTree.walk PageTable.next mem root.toVirt [] = some (table root.toNat) := by
    rw [table_root]
    rfl
  have hwalk : walk mem addr root.toNat (arch.indexShifts.dropLast ++ [12]) = _ :=
    walk_eq_leaf [] hlinked hown hroot
  rw [translate, if_pos hcanonical, shifts_eq, hwalk, leaf_eq, List.nil_append, ← shifts_eq]

end Mmu

namespace Mmu

theorem table_link (page : PhysFrame arch) (h : page.addr.InMem) : Link (BootPageTable.link page) := by
  have hbits : 8 ≤ arch.bits := PageTable.eight_le_bits
  have hframe : (BootPageTable.link page).frame = page.addr.toNat := by
    rw [BootPageTable.link, PageTableEntry.frame_set, page.aligned]
  have hlimit : arch.physMemLimit ≤ 2 ^ arch.physBits := by
    cases arch <;> decide
  have hperm : (BootPageTable.link page).perm = PagePerm.V := by
    rw [BootPageTable.link, PageTableEntry.perm_set hbits]
    decide
  refine ⟨⟨?_, ?_, ?_⟩, ?_⟩
  . rw [PageTableEntry.valid, hperm]
    decide
  . rw [hperm]
    decide
  . rw [hframe]
    exact Nat.lt_of_lt_of_le h.2 hlimit
  . rw [PageTableEntry.isLeaf, hperm]
    decide

theorem accepted_set_iff (phys : PhysAddr arch)
    : (PageTableEntry.set phys BootPageTable.perm).Accepted ↔
        (alignPageDown phys).toNat < 2 ^ arch.physBits := by
  have hbits : 8 ≤ arch.bits := PageTable.eight_le_bits
  have hperm : (PageTableEntry.set phys BootPageTable.perm).perm = BootPageTable.perm.touched :=
    PageTableEntry.perm_set hbits phys BootPageTable.perm
  have hvalid : (PageTableEntry.set phys BootPageTable.perm).valid = true := by
    rw [PageTableEntry.valid, hperm]
    decide
  have hread : BootPageTable.perm.touched.contains .R = true := by decide
  simp [PageTableEntry.Accepted, hvalid, hperm, hread, PageTableEntry.frame_set]

theorem isLeaf_set (phys : PhysAddr arch) : (PageTableEntry.set phys BootPageTable.perm).isLeaf = true := by
  have hbits : 8 ≤ arch.bits := PageTable.eight_le_bits
  rw [PageTableEntry.isLeaf, PageTableEntry.perm_set hbits]
  decide

theorem last_set (phys : PhysAddr arch)
    : last addr 12 (.set phys BootPageTable.perm) = inPage phys addr := by
  have haligned : (alignPageDown phys).toNat % 2 ^ 12 = 0 := by
    rw [toNat_alignPageDown]
    exact Nat.mul_mod_left _ _
  simp only [last, accepted_set_iff, isLeaf_set, PageTableEntry.frame_set, haligned, and_true, inPage]
  rfl

end Mmu

namespace BootPageTable

-- A call of `map` is given by its two addresses.
def step (b : BootPageTable arch) (a : VirtAddr arch × PhysAddr arch) : Outcome (BootPageTable arch) :=
  b.map a.1 a.2

/--
The address is canonical and outside of the regions that are mapped by huge pages.
-/
def Allowed (_ : BootPageTable arch) (a : VirtAddr arch × PhysAddr arch) : Prop :=
  a.1.Canonical ∧
    ∀ region ∈ arch.remapMemRegions,
      ¬ (region.virtAddr ≤ a.1.toNat ∧ a.1.toNat < region.virtAddr + region.len)

instance (b : BootPageTable arch) (a : VirtAddr arch × PhysAddr arch) : Decidable (b.Allowed a) :=
  inferInstanceAs (Decidable (_ ∧ _))

abbrev Mapped (arch : Arch) := VirtAddr arch → Option (PhysAddr arch)

def Mapped.apply (m : Mapped arch) (a : VirtAddr arch × PhysAddr arch) : Mapped arch :=
  fun page => if page = alignPageDown a.1 then some a.2 else m page

def Mapped.after (as : List (VirtAddr arch × PhysAddr arch)) : Mapped arch :=
  as.foldl Mapped.apply (fun _ => none)

def translate (b : BootPageTable arch) (addr : VirtAddr arch) : Option Nat :=
  Mmu.translate b.mem b.root.addr addr

structure Exact (start : BootPageTable arch) (pages : List (PhysFrame arch)) (m : Mapped arch)
    (b : BootPageTable arch) : Prop where
  root : b.root = start.root
  wf : b.Wf pages
  linked : RadixTree.Linked PageTable.next (Own arch) Mmu.Link b.mem b.root.addr.toVirt
  entry : ∀ addr : VirtAddr arch, addr.Canonical → Own arch addr.path →
    RadixTree.leaf PageTable.next b.mem b.root.addr.toVirt addr.path addr.leaf =
      (m (alignPageDown addr)).map fun phys => .set phys perm
  pages : ∀ page, (m page).isSome = true → page.Canonical ∧ Own arch page.path
  remapped : ∀ i, Remapped arch i →
    b.mem b.root.addr.toVirt i = start.mem start.root.addr.toVirt i

variable {b b' start : BootPageTable arch} {pages : List (PhysFrame arch)} {m : Mapped arch}

theorem not_remapped {addr : VirtAddr arch} (hcanonical : addr.Canonical)
    (hregions : ∀ region ∈ arch.remapMemRegions,
      ¬ (region.virtAddr ≤ addr.toNat ∧ addr.toNat < region.virtAddr + region.len))
    : ∀ i ∈ addr.indexes.head?, ¬ Remapped arch i := by
  intro i hi
  have hhead : addr.indexes.headD 0 = i := by
    rw [List.headD_eq_head?_getD, hi]
    rfl
  subst hhead
  have hlt := addr.isLt
  cases arch with
  | riscv32 =>
    have hregion := hregions ⟨0x80000000, 0x80000000, 0x40000000⟩ (by decide)
    rw [VirtAddr.head_indexes32]
    intro h
    simp only [Remapped, Arch.bits] at *
    omega
  | riscv64 =>
    have hlow := hregions ⟨0x80000000, 0x80000000, 0x40000000⟩ (by decide)
    have hhigh := hregions ⟨0xFFFFFFC080000000, 0x80000000, 0x1F80000000⟩ (by decide)
    rw [VirtAddr.head_indexes64]
    intro h
    simp only [Remapped, VirtAddr.Canonical, Arch.bits, Arch.virtBits] at *
    omega

theorem next_set (phys : PhysAddr arch) : (PageTable.next (.set phys perm)).isSome = true := by
  have hvalid : (PageTableEntry.set phys perm).valid = true := by
    rw [PageTableEntry.valid_set PageTable.eight_le_bits]
    decide
  simp [PageTable.next, hvalid]

theorem Exact.after {a : VirtAddr arch × PhysAddr arch} (h : Exact start pages m b)
    (hpages : (start.root :: pages).Nodup) (hmem : ∀ page ∈ pages, page.addr.InMem)
    (hallowed : b.Allowed a) (hstep : b.step a = .next b')
    : Exact start pages (m.apply a) b' := by
  obtain ⟨virt, phys⟩ := a
  obtain ⟨hcanonical, hregions⟩ := hallowed
  have hown : Own arch (VirtAddr.path (alignPageDown virt)) := by
    rw [VirtAddr.path_alignPageDown]
    exact own_path (not_remapped hcanonical hregions)
  have hbottom := not_own_of_depth (VirtAddr.length_path (alignPageDown virt))
  rw [← h.root] at hpages
  obtain ⟨hroot, hwf⟩ := map_spec h.wf hpages hown hstep
  obtain ⟨used, rfl, htree⟩ := h.wf
  have hfree := free_heap hpages
  obtain ⟨hgrows, hpage⟩ := grow_spec htree hfree hown
  have hlinks : ∀ page ∈ b.heap, Mmu.Link (link page) :=
    fun page hpage => Mmu.table_link page (hmem page (List.mem_append_right _ hpage))
  have hlinked :=
    h.linked.grow own_closed PageTable.next_clr PageTable.next_set [] htree hfree hlinks hown rfl
  obtain ⟨leaf, hleaf, rfl⟩ := map_eq_next hstep
  have hwalk := hpage leaf hleaf
  constructor
  case root => exact h.root
  case wf => exact hwf
  case linked => exact hlinked.store_leaf own_closed hgrows.tree hown hbottom hwalk
  case entry =>
    intro addr haddr hpath
    by_cases heq : alignPageDown addr = alignPageDown virt
    . have hpaths : addr.path = VirtAddr.path (alignPageDown virt) := by
        rw [← VirtAddr.path_alignPageDown addr, heq]
      have hleaves : addr.leaf = VirtAddr.leaf (alignPageDown virt) := by
        rw [← VirtAddr.leaf_alignPageDown addr, heq]
      have hstored := RadixTree.walk_store_bottom own_closed hgrows.tree.unshared hown hwalk hbottom
        (j := VirtAddr.leaf (alignPageDown virt)) (w := .set (alignPageDown phys) perm) hown
      dsimp only
      rw [hpaths, hleaves, RadixTree.leaf_store_self (hstored.trans hwalk), if_pos (next_set _)]
      simp [Mapped.apply, heq, PageTableEntry.set]
    . have hne : ¬ (addr.path = VirtAddr.path (alignPageDown virt) ∧
          addr.leaf = VirtAddr.leaf (alignPageDown virt)) := by
        rintro ⟨hpaths, hleaves⟩
        rw [VirtAddr.path_alignPageDown] at hpaths
        rw [VirtAddr.leaf_alignPageDown] at hleaves
        apply heq
        apply VirtAddr.alignPageDown_eq_of_indexes haddr hcanonical
        rw [VirtAddr.indexes_eq_path_leaf, VirtAddr.indexes_eq_path_leaf, hpaths, hleaves]
      have hlen : addr.path.length = PageTable.depth arch := VirtAddr.length_path addr
      rw [RadixTree.leaf_store own_closed hgrows.tree hown hbottom hwalk hpath hne,
        hgrows.leaf _ _ hpath (not_own_of_depth hlen), h.entry addr haddr hpath, Mapped.apply, if_neg heq]
  case pages =>
    intro page hsome
    by_cases heq : page = alignPageDown virt
    . subst heq
      exact ⟨VirtAddr.canonical_alignPageDown hcanonical, hown⟩
    . rw [Mapped.apply, if_neg heq] at hsome
      exact h.pages page hsome
  case remapped =>
    intro i hi
    have hnil : Own arch [] := own_closed.of_append (q := VirtAddr.path (alignPageDown virt)) hown
    have hother : ¬ (b.root.addr.toVirt = leaf ∧ i = VirtAddr.leaf (alignPageDown virt)) := by
      rintro ⟨rfl, _⟩
      exact VirtAddr.path_ne_nil _ (hgrows.tree.unshared _ [] _ hown hnil hwalk rfl)
    have hslot : ¬ Own arch [i] := fun hown => hown.2 i (by simp) hi
    dsimp only
    rw [RadixTree.store_of_ne hother, ← h.remapped i hi]
    exact RadixTree.grow_root own_closed PageTable.next_clr PageTable.next_set [] htree hfree hown rfl hslot

theorem exact_init (root : PhysFrame arch) (mem : Memory arch) (heap : List (PhysFrame arch))
    : Exact (zeroed root mem heap).init heap (fun _ => none) (zeroed root mem heap).init := by
  have hnone : ∀ i, Own arch [i] →
      PageTable.next ((zeroed root mem heap).init.mem root.addr.toVirt i) = none := by
    intro i hown
    have hi : ¬ Remapped arch i := hown.2 i (by simp)
    rw [agrees_init (zeroed root mem heap) root.addr.toVirt i (fun h => hi h.2)]
    simp [zeroed, PageTable.next_clr]
  constructor
  case root => rfl
  case wf => exact wf_init root mem heap
  case linked => exact RadixTree.Linked.of_root own_closed hnone
  case entry =>
    intro addr _ hown
    obtain ⟨i, path, hpath⟩ := List.exists_cons_of_ne_nil (VirtAddr.path_ne_nil addr)
    rw [hpath] at hown ⊢
    have hi : Own arch [i] := own_closed.of_append (q := path) hown
    have hstop : RadixTree.walk PageTable.next (zeroed root mem heap).init.mem root.addr.toVirt (i :: path)
        =
      none := by
      simp only [RadixTree.walk, hnone i hi]
    exact congrArg (Option.bind · _) hstop
  case pages => simp
  case remapped => exact fun _ _ => rfl

def Unlinked (root : PhysFrame arch) (mem : Memory arch) : Prop := ∀ i, ¬ Mmu.Link (mem root.addr.toVirt i)

theorem Unlinked.remap {root : PhysFrame arch} {mem : Memory arch} (h : Unlinked root mem)
    (region : RemapMemRegion)
    : Unlinked root (init.remap root mem region) := by
  unfold init.remap
  apply List.foldlRecOn (motive := Unlinked root) _ _ h
  intro mem hmem k _ i hlink
  simp only [RadixTree.store, true_and] at hlink
  split at hlink
  . rw [Mmu.Link, Mmu.isLeaf_set] at hlink
    simp at hlink
  . exact hmem i hlink

theorem unlinked_init (root : PhysFrame arch) (mem : Memory arch) (heap : List (PhysFrame arch))
    : Unlinked root (zeroed root mem heap).init.mem := by
  have hzeroed : Unlinked root (zeroed root mem heap).mem := by
    intro i hlink
    have hvalid := hlink.1.1
    simp [zeroed] at hvalid
  unfold init
  dsimp only
  apply List.foldlRecOn (motive := Unlinked root) _ _ hzeroed
  intro mem hmem region _
  exact hmem.remap region

theorem canonical_of_alignPageDown {addr : VirtAddr arch} (h : VirtAddr.Canonical (alignPageDown addr))
    : addr.Canonical := by
  unfold VirtAddr.Canonical at *
  rw [toNat_alignPageDown] at h
  cases arch with
  | riscv32 | riscv64 =>
    simp only [Arch.virtBits, Arch.bits] at *
    omega

theorem exists_shift (arch : Arch)
    : ∃ shift shifts, arch.indexShifts = shift :: shifts ∧
        ∀ addr : VirtAddr arch, addr.path = Mmu.index addr shift :: shifts.dropLast.map (Mmu.index addr) := by
  cases arch with
  | riscv32 => exact ⟨22, [12], rfl, fun addr => by rw [Mmu.path_eq]; rfl⟩
  | riscv64 => exact ⟨30, [21, 12], rfl, fun addr => by rw [Mmu.path_eq]; rfl⟩

theorem own_path_iff {addr : VirtAddr arch} {i : Nat} {path : List Nat} (h : addr.path = i :: path)
    : Own arch addr.path ↔ ¬ Remapped arch i := by
  have hlen := VirtAddr.length_path addr
  constructor
  . intro hown
    exact hown.2 i (by rw [h]; rfl)
  . intro hi
    refine ⟨hlen.le, ?_⟩
    intro k hk
    obtain rfl : i = k := by simpa [h] using hk
    exact hi

theorem Exact.translate_eq (h : Exact start pages m b) (hstart : Exact start pages (fun _ => none) start)
    (hunlinked : Unlinked start.root start.mem) (addr : VirtAddr arch)
    : b.translate addr =
        match m (alignPageDown addr) with
        | some phys => Mmu.inPage phys addr
        | none => start.translate addr := by
  obtain ⟨shift, shifts, hshifts, hpath⟩ := exists_shift arch
  specialize hpath addr
  by_cases hcanonical : addr.Canonical
  . by_cases hown : Own arch addr.path
    . have hentry := h.entry addr hcanonical hown
      have hbefore := hstart.entry addr hcanonical hown
      rw [translate, translate, Mmu.translate_eq_leaf h.linked hcanonical hown,
        Mmu.translate_eq_leaf hstart.linked hcanonical hown, hentry, hbefore]
      cases m (alignPageDown addr) with
      | none => rfl
      | some phys => exact Mmu.last_set phys
    . -- the page is in one of the huge pages
      have hremapped : Remapped arch (Mmu.index addr shift) := by
        rw [own_path_iff hpath] at hown
        exact not_not.mp hown
      have hnone : m (alignPageDown addr) = none := by
        by_contra hsome
        have hpage := (h.pages _ (Option.isSome_iff_ne_none.mpr hsome)).2
        rw [VirtAddr.path_alignPageDown] at hpage
        exact hown hpage
      rw [hnone, translate, translate, Mmu.translate, Mmu.translate, if_pos hcanonical, if_pos hcanonical,
        hshifts]
      apply Mmu.walk_root
      . rw [Mmu.table_root, Mmu.table_root]
        exact h.remapped _ hremapped
      . rw [Mmu.table_root]
        exact hunlinked _
  . have hnone : m (alignPageDown addr) = none := by
      by_contra hsome
      have hpage := (h.pages _ (Option.isSome_iff_ne_none.mpr hsome)).1
      exact hcanonical (canonical_of_alignPageDown hpage)
    rw [hnone, translate, translate, Mmu.translate, Mmu.translate, if_neg hcanonical, if_neg hcanonical]

def Upper (addr : VirtAddr arch) : Prop := 2 ^ (arch.bits - 1) ≤ addr.toNat

instance (addr : VirtAddr arch) : Decidable (Upper addr) :=
  inferInstanceAs (Decidable (_ ≤ addr.toNat))

theorem upper_index {addr : VirtAddr arch} (hupper : Upper addr) (hcanonical : addr.Canonical)
    {shift : Nat} {shifts : List Nat} (hshifts : arch.indexShifts = shift :: shifts)
    : arch.pageEntries / 2 ≤ Mmu.index addr shift ∧ Mmu.index addr shift < arch.pageEntries := by
  have hlt := addr.isLt
  cases arch with
  | riscv32 | riscv64 =>
    simp only [Arch.indexShifts, List.cons.injEq] at hshifts
    obtain ⟨rfl, _⟩ := hshifts
    simp only [Upper, VirtAddr.Canonical, Mmu.index, Arch.pageEntries, pageSize, Arch.bits, Arch.indexMask,
      Arch.virtBits] at *
    omega

theorem Exact.translate_new {frame : PhysFrame arch} {t : PageTable arch} (h : Exact start pages m b)
    (hunlinked : Unlinked start.root start.mem) (hframe : frame ∉ b.root :: pages)
    (hnew : PageTable.new b.mem b.entries [frame] = .ok t) {addr : VirtAddr arch} (hupper : Upper addr)
    : Mmu.translate t.mem t.root addr = b.translate addr := by
  rw [translate, Mmu.translate, Mmu.translate]
  split
  . next hcanonical =>
    obtain ⟨shift, shifts, hshifts, hpath⟩ := exists_shift arch
    specialize hpath addr
    have hindex := upper_index hupper hcanonical hshifts
    obtain ⟨hbase, _, hsame, hroot⟩ := mem_new hnew
    have hroot' : t.root.toVirt = base frame := by
      obtain rfl := Except.ok.inj hnew
      rfl
    have hentry : t.mem (Mmu.table t.root.toNat) (Mmu.index addr shift) =
        b.mem (Mmu.table b.root.addr.toNat) (Mmu.index addr shift) := by
      rw [Mmu.table_root, Mmu.table_root, hroot', hroot, if_pos hindex]
      rfl
    rw [hshifts]
    by_cases hlink : Mmu.Link (b.mem (Mmu.table b.root.addr.toNat) (Mmu.index addr shift))
    . have hremapped : ¬ Remapped arch (Mmu.index addr shift) := by
        intro hremapped
        apply hunlinked (Mmu.index addr shift)
        rw [← h.remapped _ hremapped, ← Mmu.table_root]
        exact hlink
      have hown := (own_path_iff hpath).mpr hremapped
      rw [hpath] at hown
      have hlink' := hlink
      rw [← hentry] at hlink'
      rw [Mmu.walk_link hlink, Mmu.walk_link hlink', hentry]
      have hwalk : RadixTree.walk PageTable.next b.mem b.root.addr.toVirt [Mmu.index addr shift] =
          some (Mmu.table (b.mem (Mmu.table b.root.addr.toNat) (Mmu.index addr shift)).frame) := by
        rw [RadixTree.walk_singleton, ← Mmu.table_root, Mmu.table_frame _ hlink.1.1]
      refine Mmu.walk_congr _ (by simp) ?_ hown hwalk
      intro path page i hpath _ hwalk
      apply hsame
      rintro rfl
      obtain ⟨node, hnode, heq⟩ := h.wf.live path _ hpath hwalk
      rw [base_inj heq] at hnode
      exact hframe hnode
    . exact Mmu.walk_root hentry hlink
  . rfl

theorem exact_of_run {as : List (VirtAddr arch × PhysAddr arch)} (hrun : Run step Allowed b as b')
    (h : Exact start pages m b) (hpages : (start.root :: pages).Nodup)
    (hmem : ∀ page ∈ pages, page.addr.InMem)
    : Exact start pages (as.foldl Mapped.apply m) b' := by
  induction hrun generalizing m with
  | nil => exact h
  | cons hallowed hstep _ ih => exact ih (h.after hpages hmem hallowed hstep)

/--
After every sequence of calls of `map`, the hardware translates every address of a mapped page to the
same offset in the page that was last given for it, and all others as before. In its upper half, a page
table that is created then has the same translation.
-/
theorem translate_boot_of_run {root : PhysFrame arch} {mem : Memory arch} {heap : List (PhysFrame arch)}
    {as : List (VirtAddr arch × PhysAddr arch)} (hpages : (root :: heap).Nodup)
    (hmem : ∀ page ∈ heap, page.addr.InMem)
    (hrun : Run step Allowed (zeroed root mem heap).init as b)
    : (∀ addr, b.translate addr =
        match Mapped.after as (alignPageDown addr) with
        | some phys => Mmu.inPage phys addr
        | none => (zeroed root mem heap).init.translate addr) ∧
      (∀ a b', b.Allowed a → b.step a = .next b' → ∀ addr, alignPageDown addr ≠ alignPageDown a.1 →
        b'.translate addr = b.translate addr) ∧
      ∀ frame answers t, frame ∉ root :: heap →
        PageTable.new b.mem b.entries (frame :: answers) = .ok t →
          ∀ addr, Upper addr → Mmu.translate t.mem t.root addr = b.translate addr := by
  have hinit := exact_init root mem heap
  have hunlinked := unlinked_init root mem heap
  have h := exact_of_run hrun hinit hpages hmem
  refine ⟨h.translate_eq hinit hunlinked, ?_, ?_⟩
  . intro a b' hallowed hstep addr hne
    have h' := h.after hpages hmem hallowed hstep
    rw [h'.translate_eq hinit hunlinked, h.translate_eq hinit hunlinked, Mapped.apply, if_neg hne]
  . intro frame answers t hframe hnew addr hupper
    rw [← show b.root = root from h.root] at hframe
    exact h.translate_new hunlinked hframe hnew hupper

def TranslatesTop (arch : Arch) : Prop :=
  let top : VirtAddr arch := BitVec.ofNat _ (2 ^ arch.bits - 0x1000)
  ∃ b t, Run step Allowed
      (zeroed (PageTable.frameAt arch 0x80200000) (fun _ _ => .clr)
        [PageTable.frameAt arch 0x80201000, PageTable.frameAt arch 0x80202000]).init
      [(top, 0x20000000), (top, 0x10000000)] b ∧
    PageTable.new b.mem b.entries [PageTable.frameAt arch 0x80300000] = .ok t ∧
    b.translate (top + 8) = some 0x10000008 ∧ Mmu.translate t.mem t.root (top + 8) = some 0x10000008 ∧
    b.translate (PhysAddr.toVirt 0x80401234) = some 0x80401234

theorem translate_top : TranslatesTop .riscv32 ∧ TranslatesTop .riscv64 := by
  have hboth : ∀ arch, TranslatesTop arch := by
    intro arch
    let top : VirtAddr arch := BitVec.ofNat _ (2 ^ arch.bits - 0x1000)
    obtain ⟨b, hrun, _⟩ := exists_run_of_exec (checked step Allowed)
      (zeroed (PageTable.frameAt arch 0x80200000) (fun _ _ => .clr)
        [PageTable.frameAt arch 0x80201000, PageTable.frameAt arch 0x80202000]).init
      [(top, 0x20000000), (top, 0x10000000)] (fun _ => true) (by cases arch <;> decide +kernel)
    obtain ⟨htranslate, _, hnew⟩ := translate_boot_of_run (by cases arch <;> decide +kernel)
      (by cases arch <;> decide +kernel) hrun.of_checked
    have htop : b.translate (top + 8) = some 0x10000008 := by
      rw [htranslate, show Mapped.after [(top, 0x20000000), (top, 0x10000000)] (alignPageDown (top + 8))
        =
      some 0x10000000 by cases arch <;> decide +kernel]
      cases arch <;> decide +kernel
    refine ⟨b, _, hrun.of_checked, rfl, htop, ?_, ?_⟩
    . rw [← htop]
      exact hnew (PageTable.frameAt arch 0x80300000) [] _ (by cases arch <;> decide +kernel) rfl (top + 8)
        (by cases arch <;> decide +kernel)
    . rw [htranslate, show Mapped.after [(top, 0x20000000), (top, 0x10000000)]
          (alignPageDown (PhysAddr.toVirt 0x80401234)) = none by cases arch <;> decide +kernel]
      cases arch <;> decide +kernel
  exact ⟨hboth .riscv32, hboth .riscv64⟩

end BootPageTable

end Jrinx
