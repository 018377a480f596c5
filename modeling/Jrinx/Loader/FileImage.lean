import Jrinx.Loader.LoadedImage
import Jrinx.Paging.Refinement

/-!
This module contains the comparison of a loaded image with the file it was loaded from.
-/

namespace Jrinx

variable {arch : Arch}

namespace ProgramHeader

def Covers (segHeader : ProgramHeader) (a : Nat) : Prop :=
  segHeader.pVaddr.toNat ≤ a ∧
    a < segHeader.pVaddr.toNat + max segHeader.pFilesz.toNat segHeader.pMemsz.toNat

-- The page of an unaligned start is presented even if the segment is empty.
def Touches (segHeader : ProgramHeader) (a : Nat) : Prop :=
  segHeader.Covers a ∨ (a = segHeader.pVaddr.toNat ∧ a % pageSize ≠ 0)

-- The byte of the data that is copied to the place of the byte `i`.
def sourceIndex (segHeader : ProgramHeader) (i : Nat) : Nat :=
  if i < pageSize - segHeader.pVaddr.toNat % pageSize then
    i
  else
    (segHeader.pVaddr.toNat + i) % pageSize

instance (segHeader : ProgramHeader) (a : Nat) : Decidable (segHeader.Covers a) :=
  inferInstanceAs (Decidable (_ ∧ _))

instance (segHeader : ProgramHeader) (a : Nat) : Decidable (segHeader.Touches a) :=
  inferInstanceAs (Decidable (_ ∨ _))

end ProgramHeader

namespace Elf

def fileData (elf : Elf) (segHeader : ProgramHeader) : List UInt8 := (elf.segmentData segHeader).getD []

/--
The segments to load lie within the addresses of the machine and do not overlap. The data of a segment are
as long as its header says.
-/
structure Separate (arch : Arch) (elf : Elf) : Prop where
  noOverflow : ∀ segHeader ∈ elf.loadSegments, segHeader.NoOverflow arch
  disjoint : elf.loadSegments.Pairwise (fun segHeader segHeader' =>
    ∀ a, segHeader.Covers a → ¬ segHeader'.Covers a)
  length : ∀ segHeader data, elf.segmentData segHeader = some data → data.length = segHeader.pFilesz.toNat

/--
The pages of the segments are pages for a user, and none of them is mapped.
-/
def Unmapped (boot : Nat → PageTableEntry arch.bits) (elf : Elf) (t : PageTable arch) : Prop :=
  ∀ segHeader ∈ elf.loadSegments, ∀ addr : VirtAddr arch, segHeader.Touches addr.toNat →
    PageTable.Eligible boot addr ∧ t.lookup addr = .next (.error .invalidVirtAddr)

def Repeats (elf : Elf) (segHeader : ProgramHeader) : Prop :=
  ∀ i < segHeader.pFilesz.toNat,
    (elf.fileData segHeader)[i]? = (elf.fileData segHeader)[segHeader.sourceIndex i]?

def Reached (elf : Elf) (segHeader : ProgramHeader) : Prop :=
  ∀ i < segHeader.pMemsz.toNat, ∃ segHeader' ∈ elf.loadSegments,
    segHeader'.Walks ((segHeader.pVaddr.toNat + i) / pageSize)

end Elf

/--
The image holds the data of every segment, followed by zeros.
-/
def Image.EqualsFile (s : Image arch) (elf : Elf) : Prop :=
  ∀ segHeader ∈ elf.loadSegments, ∀ (addr : VirtAddr arch) (i : Nat),
    addr.toNat = segHeader.pVaddr.toNat + i →
      (i < segHeader.pFilesz.toNat →
          ∃ b, (elf.fileData segHeader)[i]? = some b ∧ s.read addr = some b) ∧
        (segHeader.pFilesz.toNat ≤ i → i < segHeader.pMemsz.toNat → s.read addr = some 0)

namespace ProgramHeader

variable {segHeader : ProgramHeader} {c : LoaderCall arch}

theorem touches_of_mem (h : segHeader.NoOverflow arch) (hc : c ∈ segHeader.segmentCalls arch)
    : segHeader.Touches c.vaddr.toNat := by
  obtain ⟨hne, hvaddr, _⟩ | ⟨x, hlt, hvaddr, _⟩ | ⟨k, hlt, hvaddr, _⟩ := h.mem_segmentCalls hc
  . right
    rw [hvaddr]
    exact ⟨rfl, hne⟩
  . left
    constructor
    . omega
    . omega
  . left
    constructor
    . omega
    . omega

theorem le_of_touches {a : Nat} (h : segHeader.Touches a)
    : a ≤ segHeader.pVaddr.toNat + max segHeader.pFilesz.toNat segHeader.pMemsz.toNat := by
  obtain ⟨_, hlt⟩ | ⟨heq, _⟩ := h
  . exact Nat.le_of_lt hlt
  . omega

theorem sourceIndex_of_mem (h : segHeader.NoOverflow arch) (hc : c ∈ segHeader.segmentCalls arch) {a : Nat}
    (hlo : c.vaddr.toNat ≤ a) (hhi : a < c.vaddr.toNat + c.len)
    : ∃ i < segHeader.pFilesz.toNat, a = segHeader.pVaddr.toNat + i ∧
        segHeader.sourceIndex i = a - c.vaddr.toNat := by
  obtain ⟨_, hvaddr, _, hlen⟩ | ⟨x, hlt, hvaddr, haligned, _, hlen⟩ | ⟨k, _, _, hlen⟩ :=
    h.mem_segmentCalls hc
  . refine ⟨a - segHeader.pVaddr.toNat, by omega, by omega, ?_⟩
    rw [sourceIndex, if_pos (by omega), hvaddr]
  . refine ⟨a - segHeader.pVaddr.toNat, by omega, by omega, ?_⟩
    unfold sourceIndex
    split
    . simp only [pageSize] at *
      omega
    . simp only [pageSize] at *
      omega
  . omega

end ProgramHeader

namespace Elf

open Loaded

variable {elf : Elf} {segHeader : ProgramHeader} {d : ProgramHeader × LoaderCall arch}

theorem mem_loadCalls
    : d ∈ elf.loadCalls arch ↔ d.1 ∈ elf.loadSegments ∧ d.2 ∈ d.1.segmentCalls arch := by
  obtain ⟨segHeader, c⟩ := d
  simp only [loadCalls, List.mem_flatMap, List.mem_map, Prod.mk.injEq]
  constructor
  . rintro ⟨segHeader', hseg, c', hc, rfl, rfl⟩
    exact ⟨hseg, hc⟩
  . rintro ⟨hseg, hc⟩
    exact ⟨segHeader, hseg, c, hc, rfl, rfl⟩

theorem byte_of_covers (hno : segHeader.NoOverflow arch) {c : LoaderCall arch}
    (hc : c ∈ segHeader.segmentCalls arch) {a : Nat} (hcovers : (patchOf elf (segHeader, c)).Covers a)
    : ∃ i < segHeader.pFilesz.toNat, a = segHeader.pVaddr.toNat + i ∧
        (patchOf elf (segHeader, c)).contents[a - (patchOf elf (segHeader, c)).start]? =
          (elf.fileData segHeader)[segHeader.sourceIndex i]? := by
  have hlo : c.vaddr.toNat ≤ a := hcovers.1
  have hend : a < c.vaddr.toNat + c.len :=
    Nat.lt_of_lt_of_le hcovers.2 (Nat.add_le_add_left (List.length_take_le _ _) _)
  obtain ⟨i, hi, ha, hsource⟩ := segHeader.sourceIndex_of_mem hno hc hlo hend
  refine ⟨i, hi, ha, ?_⟩
  rw [hsource]
  exact List.getElem?_take_of_lt (show a - c.vaddr.toNat < c.len by omega)

namespace Separate

variable {i : Nat}

theorem eq_of_covers (h : elf.Separate arch) {segHeader' : ProgramHeader}
    (hseg : segHeader ∈ elf.loadSegments) (hseg' : segHeader' ∈ elf.loadSegments) {a : Nat}
    (hcovers : segHeader.Covers a) (hcovers' : segHeader'.Covers a)
    : segHeader = segHeader' := by
  by_contra hne
  have hsymm : Std.Symm (fun segHeader segHeader' : ProgramHeader =>
      ∀ a, segHeader.Covers a → ¬ segHeader'.Covers a) :=
    ⟨fun _ _ h a ha ha' => h a ha' ha⟩
  exact h.disjoint.forall hseg hseg' hne a hcovers hcovers'

theorem byte_of_patch (h : elf.Separate arch) (hseg : segHeader ∈ elf.loadSegments) {p : Patch UInt8}
    (hp : p ∈ (elf.loadCalls arch).map (patchOf elf))
    (hcovers : segHeader.Covers (segHeader.pVaddr.toNat + i))
    (hpatch : p.Covers (segHeader.pVaddr.toNat + i))
    : i < segHeader.pFilesz.toNat ∧
        p.contents[segHeader.pVaddr.toNat + i - p.start]? =
          (elf.fileData segHeader)[segHeader.sourceIndex i]? := by
  obtain ⟨⟨segHeader', c⟩, hd, rfl⟩ := List.mem_map.mp hp
  obtain ⟨hseg', hc⟩ := mem_loadCalls.mp hd
  have hno : segHeader'.NoOverflow arch := h.noOverflow segHeader' hseg'
  obtain ⟨i', hi', ha, hbyte⟩ := byte_of_covers hno hc hpatch
  have hcovers' : segHeader'.Covers (segHeader.pVaddr.toNat + i) :=
    ⟨by omega, by rw [ha]; exact Nat.add_lt_add_left (lt_max_of_lt_left hi') _⟩
  obtain rfl := h.eq_of_covers hseg hseg' hcovers hcovers'
  obtain rfl : i = i' := by omega
  exact ⟨hi', hbyte⟩

theorem overlay_file (h : elf.Separate arch) (hseg : segHeader ∈ elf.loadSegments)
    (hi : i < segHeader.pFilesz.toNat) {data : List UInt8} (hdata : elf.segmentData segHeader = some data)
    {x : UInt8} (hx : (elf.fileData segHeader)[segHeader.sourceIndex i]? = some x)
    : Patch.overlay (fun _ => 0) ((elf.loadCalls arch).map (patchOf elf)) (segHeader.pVaddr.toNat + i) =
        x := by
  have hcovers : segHeader.Covers (segHeader.pVaddr.toNat + i) :=
    ⟨Nat.le_add_right _ _, Nat.add_lt_add_left (lt_max_of_lt_left hi) _⟩
  apply Patch.overlay_of_agree
  . intro p hp hpatch
    rw [(h.byte_of_patch hseg hp hcovers hpatch).2, hx]
  . have hno := h.noOverflow _ hseg
    obtain ⟨c, hc, hlo, hhi⟩ := hno.exists_call hi
    refine ⟨patchOf elf (segHeader, c), List.mem_map_of_mem (mem_loadCalls.mpr ⟨hseg, hc⟩), hlo, ?_⟩
    have hlen : c.len ≤ segHeader.pFilesz.toNat := by
      obtain ⟨_, _, _, hlen⟩ | ⟨x, _, _, _, _, hlen⟩ | ⟨k, _, _, hlen⟩ := hno.mem_segmentCalls hc
      . omega
      . omega
      . omega
    have htake : (patchOf elf (segHeader, c)).contents.length = c.len := by
      rw [patchOf, hdata, Option.getD_some, List.length_take, h.length segHeader data hdata]
      exact Nat.min_eq_left hlen
    rw [htake]
    exact hhi

theorem overlay_rest (h : elf.Separate arch) (hseg : segHeader ∈ elf.loadSegments)
    (hfile : segHeader.pFilesz.toNat ≤ i) (hmem : i < segHeader.pMemsz.toNat)
    : Patch.overlay (fun _ => 0) ((elf.loadCalls arch).map (patchOf elf)) (segHeader.pVaddr.toNat + i) =
        0 := by
  have hcovers : segHeader.Covers (segHeader.pVaddr.toNat + i) :=
    ⟨Nat.le_add_right _ _, Nat.add_lt_add_left (lt_max_of_lt_right hmem) _⟩
  apply Patch.overlay_of_not_covers
  intro p hp hpatch
  have hi := (h.byte_of_patch hseg hp hcovers hpatch).1
  omega

end Separate

theorem segmentData_of_call {alloc : PageTable arch → List (PhysFrame arch)} {t t' : Image arch}
    (hcall : callOf alloc elf d t = (.ok (), t')) (hpos : 0 < d.2.len)
    : ∃ data, elf.segmentData d.1 = some data := by
  obtain ⟨_, _, _, hcopy⟩ := LoadM.bind_eq_ok hcall
  rw [if_pos (Nat.ne_of_gt hpos)] at hcopy
  cases hdata : elf.segmentData d.1 with
  | none =>
    rw [hdata] at hcopy
    cases hcopy
  | some data => exact ⟨data, rfl⟩

section

variable {boot : Nat → PageTableEntry arch.bits} {m₀ : AddressSpace arch} {s s' : Image arch}
  {alloc : PageTable arch → List (PhysFrame arch)}

theorem mem_pagesOf_iff (h : elf.Separate arch) {addr : VirtAddr arch}
    : alignPageDown addr ∈ pagesOf (elf.loadCalls arch) ↔
        ∃ segHeader ∈ elf.loadSegments, segHeader.Walks (addr.toNat / pageSize) := by
  constructor
  . rintro ⟨d, hd, heq⟩
    obtain ⟨hseg, hc⟩ := mem_loadCalls.mp hd
    exact ⟨d.1, hseg, (h.noOverflow _ hseg).presented_iff.mp ⟨d.2, hc, heq⟩⟩
  . rintro ⟨segHeader, hseg, hwalks⟩
    obtain ⟨c, hc, heq⟩ := (h.noOverflow _ hseg).presented_iff.mpr hwalks
    exact ⟨(segHeader, c), mem_loadCalls.mpr ⟨hseg, hc⟩, heq⟩

theorem unmapped_of_lookup (h : s.pageTable.Represents boot m₀) {addr : VirtAddr arch}
    (haddr : PageTable.Eligible boot addr)
    (hlookup : s.pageTable.lookup addr = .next (.error .invalidVirtAddr))
    : m₀ (alignPageDown addr) = none := by
  have htranslates := h.translatesTo haddr
  cases hm : m₀ (alignPageDown addr) with
  | none => rfl
  | some e =>
    rw [hm] at htranslates
    have hfound := htranslates.2.1
    rw [hlookup] at hfound
    simp at hfound

/--
The image is what the calls for the segments of the file make of a page table in which none of their pages
was mapped.
-/
structure LoadedFrom (boot : Nat → PageTableEntry arch.bits) (m₀ : AddressSpace arch) (elf : Elf)
    (s : Image arch) (m : AddressSpace arch) : Prop where
  separate : elf.Separate arch
  vacant : ∀ segHeader ∈ elf.loadSegments, ∀ addr : VirtAddr arch, segHeader.Touches addr.toNat →
    PageTable.Eligible boot addr ∧ m₀ (alignPageDown addr) = none
  loaded : Loaded boot m₀ (pagesOf (elf.loadCalls arch)) ((elf.loadCalls arch).map (patchOf elf)) s m
  data : ∀ d ∈ elf.loadCalls arch, 0 < d.2.len → ∃ data, elf.segmentData d.1 = some data

theorem forM_of_load (hload : loadElf alloc elf s = .next s')
    : (forM (elf.loadCalls arch) (callOf alloc elf) : LoadM (Image arch) Unit) s = (.ok (), s') := by
  have hload := loadElf_eq_next hload
  cases hsegments : elf.segments with
  | none =>
    rw [load, hsegments] at hload
    cases hload
  | some segments => rwa [load_eq hsegments] at hload

theorem loadedFrom_of_load (h : s.pageTable.Represents boot m₀) (hfresh : ∀ t, PageTable.Fresh t (alloc t))
    (hseparate : elf.Separate arch) (hunmapped : elf.Unmapped boot s.pageTable)
    (hload : loadElf alloc elf s = .next s')
    : ∃ m, elf.LoadedFrom boot m₀ s' m := by
  have hvacant : ∀ segHeader ∈ elf.loadSegments, ∀ addr : VirtAddr arch, segHeader.Touches addr.toNat →
      PageTable.Eligible boot addr ∧ m₀ (alignPageDown addr) = none := by
    intro segHeader hseg addr htouches
    obtain ⟨heligible, hlookup⟩ := hunmapped segHeader hseg addr htouches
    exact ⟨heligible, unmapped_of_lookup h heligible hlookup⟩
  have hproper : ∀ d ∈ elf.loadCalls arch, Proper boot m₀ d.2 := by
    intro d hd
    obtain ⟨hseg, hc⟩ := mem_loadCalls.mp hd
    have hno := hseparate.noOverflow _ hseg
    obtain ⟨heligible, hnone⟩ := hvacant _ hseg _ (ProgramHeader.touches_of_mem hno hc)
    exact ⟨heligible, hnone, hno.within_page hc⟩
  have hempty : Loaded boot m₀ ∅ [] s m₀ := by
    refine ⟨h, fun _ _ => rfl, ?_, ?_, ?_⟩
    . simp
    . simp
    . simp
  have hcalls := forM_of_load hload
  obtain ⟨m, hloaded⟩ := hempty.calls hproper hfresh hcalls
  rw [Set.empty_union, List.nil_append] at hloaded
  refine ⟨m, hseparate, hvacant, hloaded, ?_⟩
  intro d hd hpos
  obtain ⟨t, t', hcall⟩ := LoadM.forM_eq_ok hcalls hd
  exact segmentData_of_call hcall hpos

namespace LoadedFrom

variable {m : AddressSpace arch} {addr : VirtAddr arch} {i : Nat}

theorem read_file (h : elf.LoadedFrom boot m₀ s m) (hseg : segHeader ∈ elf.loadSegments)
    (hi : i < segHeader.pFilesz.toNat) (haddr : addr.toNat = segHeader.pVaddr.toNat + i)
    : (elf.fileData segHeader).length = segHeader.pFilesz.toNat ∧
        s.read addr = (elf.fileData segHeader)[segHeader.sourceIndex i]? := by
  have hcovers : segHeader.Covers addr.toNat :=
    ⟨by omega, by rw [haddr]; exact Nat.add_lt_add_left (lt_max_of_lt_left hi) _⟩
  have hpage : alignPageDown addr ∈ pagesOf (elf.loadCalls arch) :=
    (mem_pagesOf_iff h.separate).mpr ⟨segHeader, hseg, .inr (.inl ⟨i, hi, by rw [haddr]⟩)⟩
  obtain ⟨c, hc, hlo, hhi⟩ := (h.separate.noOverflow _ hseg).exists_call hi
  obtain ⟨data, hdata⟩ := h.data (segHeader, c) (mem_loadCalls.mpr ⟨hseg, hc⟩)
    (show 0 < c.len by omega)
  have hlength : (elf.fileData segHeader).length = segHeader.pFilesz.toNat := by
    rw [fileData, hdata, Option.getD_some, h.separate.length _ _ hdata]
  have hsource : segHeader.sourceIndex i < (elf.fileData segHeader).length := by
    rw [hlength, ProgramHeader.sourceIndex]
    split
    . exact hi
    . simp only [pageSize] at *
      omega
  have hx := List.getElem?_eq_getElem hsource
  refine ⟨hlength, ?_⟩
  rw [h.loaded.read_of_mem (h.vacant _ hseg _ (.inl hcovers)).1 hpage, haddr, hx,
    h.separate.overlay_file hseg hi hdata hx]

theorem read_rest (h : elf.LoadedFrom boot m₀ s m) (hseg : segHeader ∈ elf.loadSegments)
    (hfile : segHeader.pFilesz.toNat ≤ i) (hi : i < segHeader.pMemsz.toNat)
    (haddr : addr.toNat = segHeader.pVaddr.toNat + i)
    : s.read addr = some 0 ↔
        ∃ segHeader' ∈ elf.loadSegments, segHeader'.Walks ((segHeader.pVaddr.toNat + i) / pageSize) := by
  have hcovers : segHeader.Covers addr.toNat :=
    ⟨by omega, by rw [haddr]; exact Nat.add_lt_add_left (lt_max_of_lt_right hi) _⟩
  obtain ⟨heligible, hnone⟩ := h.vacant _ hseg _ (.inl hcovers)
  rw [← haddr, ← mem_pagesOf_iff h.separate]
  by_cases hpage : alignPageDown addr ∈ pagesOf (elf.loadCalls arch)
  . rw [h.loaded.read_of_mem heligible hpage, haddr, h.separate.overlay_rest hseg hfile hi]
    simp only [hpage]
  . rw [h.loaded.read_of_not_mem heligible hpage hnone]
    simp only [hpage, reduceCtorEq]

theorem repeats (h : elf.LoadedFrom boot m₀ s m) (hequals : s.EqualsFile elf)
    (hseg : segHeader ∈ elf.loadSegments)
    : elf.Repeats segHeader := by
  intro i hi
  have hno := h.separate.noOverflow _ hseg
  have hend := hno.fileEnd
  have haddr : (segHeader.addrAt arch i).toNat = _ := hno.toNat_addrAt (by omega)
  obtain ⟨b, hb, hread⟩ := (hequals _ hseg _ i haddr).1 hi
  rw [hb, ← hread, (h.read_file hseg hi haddr).2]

theorem reached (h : elf.LoadedFrom boot m₀ s m) (hequals : s.EqualsFile elf)
    (hseg : segHeader ∈ elf.loadSegments)
    : elf.Reached segHeader := by
  intro i hi
  by_cases hfile : i < segHeader.pFilesz.toNat
  . exact ⟨segHeader, hseg, .inr (.inl ⟨i, hfile, rfl⟩)⟩
  . have hno := h.separate.noOverflow _ hseg
    have hend := hno.memEnd
    have haddr : (segHeader.addrAt arch i).toNat = _ := hno.toNat_addrAt (by omega)
    have hzero := (hequals _ hseg _ i haddr).2 (Nat.le_of_not_lt hfile) hi
    exact (h.read_rest hseg (Nat.le_of_not_lt hfile) hi haddr).mp hzero

theorem equalsFile (h : elf.LoadedFrom boot m₀ s m)
    (hall : ∀ segHeader ∈ elf.loadSegments, elf.Repeats segHeader ∧ elf.Reached segHeader)
    : s.EqualsFile elf := by
  intro segHeader hseg addr i haddr
  obtain ⟨hrepeats, hreached⟩ := hall segHeader hseg
  constructor
  . intro hi
    obtain ⟨hlength, hread⟩ := h.read_file hseg hi haddr
    have hb := List.getElem?_eq_getElem (show i < (elf.fileData segHeader).length by omega)
    exact ⟨_, hb, by rw [hread, ← hrepeats i hi, hb]⟩
  . intro hfile hi
    exact (h.read_rest hseg hfile hi haddr).mpr (hreached i hi)

end LoadedFrom

end

/--
After an ELF has been loaded into a page table that had none of its pages mapped, the image equals the file
if and only if every byte of every segment is the one that its place in its page is filled with, the one
from the start of the data, and every page of every segment is presented.
-/
theorem equalsFile_iff {boot : Nat → PageTableEntry arch.bits} {mem : Memory arch}
    {answers : List (PhysFrame arch)} {t₀ : PageTable arch} {as : List (PagingAction arch)}
    {s s' : Image arch} {alloc : PageTable arch → List (PhysFrame arch)}
    (hnew : PageTable.new mem boot answers = .ok t₀) (hmem : ∀ frame ∈ answers, frame.addr.InMem)
    (hrun : Run PageTable.step (PageTable.Allowed boot) t₀ as s.pageTable)
    (hfresh : ∀ t, PageTable.Fresh t (alloc t)) (hseparate : elf.Separate arch)
    (hunmapped : elf.Unmapped boot s.pageTable) (hload : loadElf alloc elf s = .next s')
    : s'.EqualsFile elf ↔
        ∀ segHeader ∈ elf.loadSegments, elf.Repeats segHeader ∧ elf.Reached segHeader := by
  have hrep := PageTable.represents_of_run hrun (PageTable.represents_new hnew hmem)
  obtain ⟨m, h⟩ := loadedFrom_of_load hrep hfresh hseparate hunmapped hload
  exact ⟨fun hequals segHeader hseg => ⟨h.repeats hequals hseg, h.reached hequals hseg⟩, h.equalsFile⟩

section

open PageTable

def heap (t : PageTable arch) : List (PhysFrame arch) :=
  ((List.range 8).map fun i => frameAt arch (0x80300000 + i * 0x1000)).filter fun frame =>
    ∀ e ∈ t.frames.toList, e.2.addr ≠ frame.addr

theorem fresh_heap (t : PageTable .riscv64) : Fresh t (heap t) := by
  have hsublist : (heap t).Sublist
      ((List.range 8).map fun i => frameAt .riscv64 (0x80300000 + i * 0x1000)) :=
    List.filter_sublist
  constructor
  . intro frame hframe
    have hinMem : ∀ frame ∈ (List.range 8).map fun i => frameAt .riscv64 (0x80300000 + i * 0x1000),
        frame.addr.InMem := by
      decide +kernel
    exact hinMem frame (hsublist.subset hframe)
  . have hnodup : (((List.range 8).map fun i => frameAt .riscv64 (0x80300000 + i * 0x1000)).map
        PhysFrame.addr).Nodup := by
      decide +kernel
    exact hnodup.sublist (hsublist.map _)
  . intro frame hframe
    simpa using (List.mem_filter.mp hframe).2

def emptyImage : Image .riscv64 where
  pageTable := rooted (frameAt .riscv64 0x80200000)
  bytes := fun _ => 0xff

theorem new_emptyImage
    : new (fun _ _ => .clr) (remapped .riscv64) [frameAt .riscv64 0x80200000] = .ok emptyImage.pageTable :=
  rfl

theorem inMem_emptyImage : ∀ frame ∈ [frameAt .riscv64 0x80200000], frame.addr.InMem := by
  decide +kernel

theorem unmapped_emptyImage
    (heligible : ∀ segHeader ∈ elf.loadSegments, ∀ addr : VirtAddr .riscv64,
      segHeader.Touches addr.toNat → Eligible (remapped .riscv64) addr)
    : elf.Unmapped (remapped .riscv64) emptyImage.pageTable := by
  intro segHeader hseg addr htouches
  have haddr := heligible segHeader hseg addr htouches
  exact ⟨haddr, ((represents_new new_emptyImage inMem_emptyImage).translatesTo haddr).2⟩

def ofSegments (segments : List (ProgramHeader × List UInt8)) : Elf where
  segments := some (segments.map Prod.fst)
  segmentData := fun phdr => (segments.find? fun segment => segment.1 = phdr).map Prod.snd

theorem length_ofSegments {segments : List (ProgramHeader × List UInt8)} {data : List UInt8}
    (h : ∀ segment ∈ segments, segment.2.length = segment.1.pFilesz.toNat)
    (hdata : (ofSegments segments).segmentData segHeader = some data)
    : data.length = segHeader.pFilesz.toNat := by
  obtain ⟨segment, hfind, rfl⟩ := Option.map_eq_some_iff.mp hdata
  have hheader : segment.1 = segHeader := by simpa using List.find?_some hfind
  rw [← hheader]
  exact h segment (List.mem_of_find?_eq_some hfind)

theorem eligible_of_lt {addr : VirtAddr .riscv64} (h : addr.toNat < 2 ^ 30)
    : Eligible (remapped .riscv64) addr := by
  refine ⟨.inl (Nat.lt_trans h (by decide)), ?_, ?_⟩
  . rintro ⟨hle, _⟩
    have hlow : addr <
        (PhysAddr.toVirt (BitVec.ofNat _ (Arch.physMemBase .riscv64)) : VirtAddr .riscv64) := by
      rw [BitVec.lt_def]
      exact Nat.lt_trans h (by decide)
    rw [BitVec.lt_def] at hlow
    rw [BitVec.le_def] at hle
    omega
  . intro i hi hpopulated
    have hhead := VirtAddr.head_indexes64 addr
    rw [Option.mem_def] at hi
    rw [List.headD_eq_head?_getD, hi, Option.getD_some, Nat.div_eq_of_lt h] at hhead
    have hupper := hpopulated.1
    rw [hhead] at hupper
    revert hupper
    decide

def spanning : ProgramHeader := .loadable 5 0x10ffe 4 6

def nested : ProgramHeader := .loadable 6 0x10800 1 2

-- The first segment continues in a second page, the other one lies in its first page.
def sharing : Elf := ofSegments [(spanning, [1, 2, 1, 2]), (nested, [9])]

theorem separate_sharing : sharing.Separate .riscv64 := by
  have hsegments : sharing.loadSegments = [spanning, nested] := rfl
  constructor
  . intro segHeader hseg
    rw [hsegments, List.mem_pair] at hseg
    obtain rfl | rfl := hseg
    . exact ⟨by decide, by decide, by decide, by decide, by decide⟩
    . exact ⟨by decide, by decide, by decide, by decide, by decide⟩
  . have hdisjoint : ∀ a, spanning.Covers a → ¬ nested.Covers a := by
      rintro a ⟨hlo, _⟩ ⟨_, hhi⟩
      simp only [spanning, nested, ProgramHeader.loadable] at hlo hhi
      simp at hlo hhi
      omega
    rw [hsegments]
    exact List.pairwise_pair.mpr hdisjoint
  . intro segHeader data hdata
    exact length_ofSegments (by decide) hdata

theorem unmapped_sharing : sharing.Unmapped (remapped .riscv64) emptyImage.pageTable := by
  have hsegments : sharing.loadSegments = [spanning, nested] := rfl
  apply unmapped_emptyImage
  intro segHeader hseg addr htouches
  rw [hsegments, List.mem_pair] at hseg
  apply eligible_of_lt
  obtain rfl | rfl := hseg
  . exact Nat.lt_of_le_of_lt (ProgramHeader.le_of_touches htouches) (by decide)
  . exact Nat.lt_of_le_of_lt (ProgramHeader.le_of_touches htouches) (by decide)

theorem equalsFile_sharing
    : ∃ s, loadElf heap sharing emptyImage = .next s ∧ s.EqualsFile sharing := by
  have hsegments : sharing.loadSegments = [spanning, nested] := rfl
  obtain ⟨s, hload, _⟩ := Outcome.holds_iff.mp
    (show (loadElf heap sharing emptyImage).holds (fun _ => true) = true by decide +kernel)
  refine ⟨s, hload, ?_⟩
  rw [equalsFile_iff new_emptyImage inMem_emptyImage (.nil _) fresh_heap separate_sharing
    unmapped_sharing hload]
  intro segHeader hseg
  have hmem := hseg
  rw [hsegments, List.mem_pair] at hmem
  obtain rfl | rfl := hmem
  . refine ⟨by unfold Repeats; decide, ?_⟩
    intro i hi
    have hpage : ∀ i < spanning.pMemsz.toNat,
        (spanning.pVaddr.toNat + i) / pageSize = (spanning.pVaddr.toNat + min i 3) / pageSize := by
      decide
    have hfile : min i 3 < spanning.pFilesz.toNat := Nat.lt_of_le_of_lt (Nat.min_le_right i 3) (by decide)
    exact ⟨spanning, hseg, .inr (.inl ⟨min i 3, hfile, hpage i hi⟩)⟩
  . refine ⟨by unfold Repeats; decide, ?_⟩
    intro i hi
    have hpage : ∀ i < nested.pMemsz.toNat,
        (nested.pVaddr.toNat + i) / pageSize = (nested.pVaddr.toNat + 0) / pageSize := by
      decide
    exact ⟨nested, hseg, .inr (.inl ⟨0, by decide, hpage i hi⟩)⟩

def crossing : Elf := ofSegments [(.loadable 5 0x10ffe 3 3, [1, 2, 3])]

theorem not_equalsFile_crossing
    : (∀ t : PageTable .riscv64, Fresh t (heap t)) ∧ crossing.Separate .riscv64 ∧
        crossing.Unmapped (remapped .riscv64) emptyImage.pageTable ∧
          ∃ s, loadElf heap crossing emptyImage = .next s ∧ ¬ s.EqualsFile crossing := by
  have hsegments : crossing.loadSegments = [.loadable 5 0x10ffe 3 3] := rfl
  refine ⟨fresh_heap, ⟨?_, ?_, ?_⟩, ?_, ?_⟩
  . intro segHeader hseg
    rw [hsegments, List.mem_singleton] at hseg
    subst hseg
    exact ⟨by decide, by decide, by decide, by decide, by decide⟩
  . rw [hsegments]
    exact List.pairwise_singleton _ _
  . intro segHeader data hdata
    exact length_ofSegments (by decide) hdata
  . apply unmapped_emptyImage
    intro segHeader hseg addr htouches
    rw [hsegments, List.mem_singleton] at hseg
    subst hseg
    exact eligible_of_lt (Nat.lt_of_le_of_lt (ProgramHeader.le_of_touches htouches) (by decide))
  . obtain ⟨s, hload, hread⟩ := Outcome.holds_iff.mp
      (show (loadElf heap crossing emptyImage).holds (fun s => s.read 0x11000 = some 1) = true by
        decide +kernel)
    refine ⟨s, hload, ?_⟩
    intro hequals
    have hfile := (hequals (.loadable 5 0x10ffe 3 3) (by decide) 0x11000 2 (by decide)).1
    obtain ⟨b, hb, hsame⟩ := hfile (by decide)
    rw [of_decide_eq_true hread] at hsame
    obtain rfl := Option.some.inj hsame
    revert hb
    decide

end

end Elf

end Jrinx
