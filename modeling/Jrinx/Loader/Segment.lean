import Jrinx.Loader.ElfLoader

/-!
This module contains what the calls for a segment cover: the file part of the segment is delivered exactly
once, and the pages of the rest are presented as far as the walk over it gets.
-/

namespace Jrinx

open StepBy

variable {arch : Arch}

theorem alignPageDown_eq_iff {w : Nat} {addr addr' : BitVec w}
    : alignPageDown addr = alignPageDown addr' ↔ addr.toNat / pageSize = addr'.toNat / pageSize := by
  rw [← BitVec.toNat_inj, toNat_alignPageDown, toNat_alignPageDown, pageSize]
  omega

namespace ProgramHeader

/--
The addresses of the segment are addresses of the machine.
-/
structure NoOverflow (arch : Arch) (segHeader : ProgramHeader) : Prop where
  vaddr : segHeader.pVaddr.toNat < 2 ^ arch.bits
  filesz : segHeader.pFilesz.toNat < 2 ^ arch.bits
  memsz : segHeader.pMemsz.toNat < 2 ^ arch.bits
  fileEnd : segHeader.pVaddr.toNat + segHeader.pFilesz.toNat ≤ 2 ^ arch.bits
  memEnd : segHeader.pVaddr.toNat + segHeader.pMemsz.toNat ≤ 2 ^ arch.bits

/--
The calls that `load_segment` makes, in this order, with every callback that is always successful.
-/
def Makes (segHeader : ProgramHeader) (calls : List (LoaderCall arch)) : Prop :=
  ∀ (σ : Type) (loader : Loader arch σ) (elf : Elf) (s : σ),
    (∀ elf segHeader vaddr offset len s, (loader elf segHeader vaddr offset len s).1 = .ok ()) →
      elf.loadSegment loader segHeader s =
        (.ok (), calls.foldl (fun s c => (elf.call loader segHeader c s).2) s)

def fileCalls (calls : List (LoaderCall arch)) : List (LoaderCall arch) := calls.filter (0 < ·.len)

/--
The calls that deliver something cut the file part into chunks in increasing order. Every chunk lies within
a page, and no two of them lie within the same page.
-/
structure DeliversFile (segHeader : ProgramHeader) (calls : List (LoaderCall arch)) : Prop where
  tiles : Tiles 0 segHeader.pFilesz.toNat
    ((fileCalls calls).map fun c => ((c.vaddr - segHeader.segVaddr arch).toNat, c.len))
  offset : ∀ c ∈ fileCalls calls, c.offset = c.vaddr.toNat % pageSize ∧ c.offset + c.len ≤ pageSize
  pages : (fileCalls calls).Pairwise (fun c c' => alignPageDown c.vaddr ≠ alignPageDown c'.vaddr)

def Presented (calls : List (LoaderCall arch)) (addr : VirtAddr arch) : Prop :=
  ∃ c ∈ calls, alignPageDown c.vaddr = alignPageDown addr

def PresentsAll (segHeader : ProgramHeader) (calls : List (LoaderCall arch)) : Prop :=
  ∀ addr : VirtAddr arch, segHeader.pVaddr.toNat ≤ addr.toNat →
    addr.toNat < segHeader.pVaddr.toNat + segHeader.pMemsz.toNat → Presented calls addr

def Walks (segHeader : ProgramHeader) (page : Nat) : Prop :=
  let vaddr := segHeader.pVaddr.toNat
  let filesz := segHeader.pFilesz.toNat
  (vaddr % pageSize ≠ 0 ∧ page = vaddr / pageSize) ∨ (∃ i < filesz, page = (vaddr + i) / pageSize) ∨
    ∃ k, filesz + k * pageSize < segHeader.pMemsz.toNat ∧
      page = (vaddr + filesz + k * pageSize) / pageSize

theorem makes_segmentCalls (segHeader : ProgramHeader) : segHeader.Makes (segHeader.segmentCalls arch) := by
  intro σ loader elf s hsuccess
  rw [Elf.loadSegment_eq]
  generalize segHeader.segmentCalls arch = calls
  induction calls generalizing s with
  | nil => rfl
  | cons c calls ih =>
    have hfirst : elf.call loader segHeader c s = (.ok (), (elf.call loader segHeader c s).2) :=
      Prod.ext (hsuccess _ _ _ _ _ _) rfl
    rw [List.forM_cons, LoadM.bind_of_ok hfirst, ih]
    rfl

namespace NoOverflow

variable {segHeader : ProgramHeader}

theorem toNat_segVaddr (h : segHeader.NoOverflow arch)
    : (segHeader.segVaddr arch).toNat = segHeader.pVaddr.toNat := by
  rw [segVaddr, BitVec.toNat_setWidth, Nat.mod_eq_of_lt h.vaddr]

theorem filesz_eq (h : segHeader.NoOverflow arch) : segHeader.filesz arch = segHeader.pFilesz.toNat := by
  rw [ProgramHeader.filesz, BitVec.toNat_setWidth, Nat.mod_eq_of_lt h.filesz]

theorem memsz_eq (h : segHeader.NoOverflow arch) : segHeader.memsz arch = segHeader.pMemsz.toNat := by
  rw [ProgramHeader.memsz, BitVec.toNat_setWidth, Nat.mod_eq_of_lt h.memsz]

theorem toNat_addrAt (h : segHeader.NoOverflow arch) {offset : Nat}
    (hlt : segHeader.pVaddr.toNat + offset < 2 ^ arch.bits)
    : (segHeader.addrAt arch offset).toNat = segHeader.pVaddr.toNat + offset := by
  rw [addrAt, BitVec.toNat_add, BitVec.toNat_ofNat, h.toNat_segVaddr, Nat.add_mod_mod, Nat.mod_eq_of_lt hlt]

theorem offset_eq (h : segHeader.NoOverflow arch)
    : segHeader.offset arch = segHeader.pVaddr.toNat % pageSize := by
  rw [offset, h.toNat_segVaddr]

theorem sub_segVaddr (h : segHeader.NoOverflow arch) {offset : Nat}
    (hlt : segHeader.pVaddr.toNat + offset < 2 ^ arch.bits)
    : (segHeader.addrAt arch offset - segHeader.segVaddr arch).toNat = offset := by
  have hle : segHeader.segVaddr arch ≤ segHeader.addrAt arch offset := by
    rw [BitVec.le_def, h.toNat_addrAt hlt, h.toNat_segVaddr]
    exact Nat.le_add_right _ _
  rw [BitVec.toNat_sub_of_le hle, h.toNat_addrAt hlt, h.toNat_segVaddr, Nat.add_sub_cancel_left]

theorem getD_offsetLen (h : segHeader.NoOverflow arch)
    : (segHeader.offsetLen arch).getD 0 =
        if segHeader.pVaddr.toNat % pageSize = 0 then
          0
        else
          min segHeader.pFilesz.toNat (pageSize - segHeader.pVaddr.toNat % pageSize) := by
  rw [offsetLen, h.offset_eq, h.filesz_eq]
  by_cases haligned : segHeader.pVaddr.toNat % pageSize = 0
  . simp [haligned]
  . simp [haligned]

theorem mem_stepBy_file (h : segHeader.NoOverflow arch) {x : Nat}
    (hx : x ∈ stepBy ((segHeader.offsetLen arch).getD 0) (segHeader.filesz arch) pageSize)
    : x < segHeader.pFilesz.toNat ∧ (segHeader.pVaddr.toNat + x) % pageSize = 0 := by
  rw [h.filesz_eq, h.getD_offsetLen] at hx
  obtain ⟨k, heq, hlt⟩ := (mem_stepBy (by decide)).mp hx
  refine ⟨hlt, ?_⟩
  split at heq
  . simp only [pageSize] at *
    omega
  . simp only [pageSize] at *
    omega

theorem mem_segmentCalls (h : segHeader.NoOverflow arch) {c : LoaderCall arch}
    (hc : c ∈ segHeader.segmentCalls arch)
    : (segHeader.pVaddr.toNat % pageSize ≠ 0 ∧ c.vaddr.toNat = segHeader.pVaddr.toNat ∧
        c.offset = segHeader.pVaddr.toNat % pageSize ∧
        c.len = min segHeader.pFilesz.toNat (pageSize - segHeader.pVaddr.toNat % pageSize)) ∨
      (∃ x < segHeader.pFilesz.toNat, c.vaddr.toNat = segHeader.pVaddr.toNat + x ∧
        (segHeader.pVaddr.toNat + x) % pageSize = 0 ∧ c.offset = 0 ∧
        c.len = min pageSize (segHeader.pFilesz.toNat - x)) ∨
      ∃ k, segHeader.pFilesz.toNat + k * pageSize < segHeader.pMemsz.toNat ∧
        c.vaddr.toNat = segHeader.pVaddr.toNat + segHeader.pFilesz.toNat + k * pageSize ∧ c.len = 0 := by
  have hfile := h.fileEnd
  have hmem := h.memEnd
  simp only [segmentCalls, List.mem_append] at hc
  obtain (hc | hc) | hc := hc
  . left
    obtain ⟨len, hlen, rfl⟩ := List.mem_map.mp hc
    rw [Option.mem_toList, offsetLen, h.offset_eq, h.filesz_eq] at hlen
    split at hlen
    . exact ⟨‹_›, h.toNat_segVaddr, h.offset_eq, (Option.some.inj hlen).symm⟩
    . simp at hlen
  . right
    left
    obtain ⟨x, hx, rfl⟩ := List.mem_map.mp hc
    obtain ⟨hlt, haligned⟩ := h.mem_stepBy_file hx
    refine ⟨x, hlt, h.toNat_addrAt (by omega), haligned, rfl, ?_⟩
    simp only [h.sub_segVaddr (show segHeader.pVaddr.toNat + x < 2 ^ arch.bits by omega), h.filesz_eq]
  . right
    right
    obtain ⟨x, hx, rfl⟩ := List.mem_map.mp hc
    rw [h.filesz_eq, h.memsz_eq] at hx
    obtain ⟨k, rfl, hlt⟩ := (mem_stepBy (by decide)).mp hx
    refine ⟨k, hlt, ?_, rfl⟩
    rw [Nat.add_assoc]
    exact h.toNat_addrAt (by omega)

theorem fileCalls_segmentCalls (h : segHeader.NoOverflow arch)
    : fileCalls (segHeader.segmentCalls arch) =
        fileCalls (segHeader.firstCalls arch) ++ segHeader.loadCalls arch := by
  have hload : fileCalls (segHeader.loadCalls arch) = segHeader.loadCalls arch := by
    apply List.filter_eq_self.mpr
    intro c hc
    obtain ⟨x, hx, rfl⟩ := List.mem_map.mp hc
    obtain ⟨hlt, _⟩ := h.mem_stepBy_file hx
    have hend := h.fileEnd
    simp only [h.sub_segVaddr (show segHeader.pVaddr.toNat + x < 2 ^ arch.bits by omega), h.filesz_eq,
      pageSize, decide_eq_true_eq]
    omega
  have hzero : fileCalls (segHeader.zeroCalls arch) = [] := by
    apply List.filter_eq_nil_iff.mpr
    intro c hc
    obtain ⟨x, _, rfl⟩ := List.mem_map.mp hc
    simp
  rw [segmentCalls, fileCalls, List.filter_append, List.filter_append]
  exact (congrArg₂ _ (congrArg₂ _ rfl hload) hzero).trans (List.append_nil _)

theorem tiles_firstCalls (segHeader : ProgramHeader)
    : Tiles 0 ((segHeader.offsetLen arch).getD 0)
        ((fileCalls (segHeader.firstCalls arch)).map fun c =>
          ((c.vaddr - segHeader.segVaddr arch).toNat, c.len)) := by
  unfold firstCalls
  cases segHeader.offsetLen arch with
  | none => exact rfl
  | some len =>
    by_cases hpos : 0 < len
    . simp [fileCalls, hpos, Tiles, -BitVec.toNat_sub]
    . have hzero : len = 0 := by omega
      simp [fileCalls, hzero, Tiles]

theorem ranges_loadCalls (h : segHeader.NoOverflow arch)
    : (segHeader.loadCalls arch).map (fun c => ((c.vaddr - segHeader.segVaddr arch).toNat, c.len)) =
        chunksFrom ((segHeader.offsetLen arch).getD 0) segHeader.pFilesz.toNat pageSize := by
  rw [loadCalls, chunksFrom, List.map_map, h.filesz_eq]
  apply List.map_congr_left
  intro x hx
  rw [← h.filesz_eq] at hx
  obtain ⟨hlt, _⟩ := h.mem_stepBy_file hx
  have hend := h.fileEnd
  simp only [Function.comp_apply,
    h.sub_segVaddr (show segHeader.pVaddr.toNat + x < 2 ^ arch.bits by omega)]

theorem pairwise_loadCalls (h : segHeader.NoOverflow arch)
    : (segHeader.loadCalls arch).Pairwise (fun c c' => c.vaddr.toNat + pageSize ≤ c'.vaddr.toNat) := by
  have hend := h.fileEnd
  apply List.pairwise_map.mpr
  refine (pairwise_stepBy (by decide)).imp_of_mem ?_
  intro x y hx hy hle
  obtain ⟨hltx, _⟩ := h.mem_stepBy_file hx
  obtain ⟨hlty, _⟩ := h.mem_stepBy_file hy
  simp only [h.toNat_addrAt (show segHeader.pVaddr.toNat + x < 2 ^ arch.bits by omega),
    h.toNat_addrAt (show segHeader.pVaddr.toNat + y < 2 ^ arch.bits by omega)]
  omega

theorem pages_ne (h : segHeader.NoOverflow arch) {c c' : LoaderCall arch}
    (hc : c ∈ segHeader.firstCalls arch) (hc' : c' ∈ segHeader.loadCalls arch)
    : alignPageDown c.vaddr ≠ alignPageDown c'.vaddr := by
  intro heq
  obtain ⟨len, hlen, rfl⟩ := List.mem_map.mp hc
  obtain ⟨x, hx, rfl⟩ := List.mem_map.mp hc'
  obtain ⟨hlt, haligned⟩ := h.mem_stepBy_file hx
  have hend := h.fileEnd
  rw [Option.mem_toList, offsetLen, h.offset_eq] at hlen
  simp only [alignPageDown_eq_iff, h.toNat_segVaddr,
    h.toNat_addrAt (show segHeader.pVaddr.toNat + x < 2 ^ arch.bits by omega)] at heq
  split at hlen
  . simp only [pageSize] at *
    omega
  . simp at hlen

theorem pairwise_fileCalls (h : segHeader.NoOverflow arch)
    : (fileCalls (segHeader.segmentCalls arch)).Pairwise
        (fun c c' => alignPageDown c.vaddr ≠ alignPageDown c'.vaddr) := by
  rw [h.fileCalls_segmentCalls]
  refine List.pairwise_append.mpr ⟨?_, ?_, ?_⟩
  . unfold firstCalls
    cases segHeader.offsetLen arch with
    | none => exact .nil
    | some len => exact .sublist List.filter_sublist (List.pairwise_singleton _ _)
  . apply h.pairwise_loadCalls.imp
    intro c c' hle heq
    rw [alignPageDown_eq_iff, pageSize] at heq
    rw [pageSize] at hle
    omega
  . intro c hc c' hc'
    exact h.pages_ne (List.mem_filter.mp hc).1 hc'

theorem within_page (h : segHeader.NoOverflow arch) {c : LoaderCall arch}
    (hc : c ∈ segHeader.segmentCalls arch) (hpos : 0 < c.len)
    : c.offset = c.vaddr.toNat % pageSize ∧ c.offset + c.len ≤ pageSize := by
  obtain ⟨hne, hvaddr, hoffset, hlen⟩ | ⟨x, hlt, hvaddr, haligned, hoffset, hlen⟩ |
    ⟨k, _, _, hlen⟩ := h.mem_segmentCalls hc
  . have hplace : segHeader.pVaddr.toNat % pageSize < pageSize := Nat.mod_lt _ (by decide)
    rw [hvaddr, hoffset, hlen]
    omega
  . rw [hvaddr, hoffset, hlen, haligned]
    omega
  . omega

theorem deliversFile (h : segHeader.NoOverflow arch)
    : segHeader.DeliversFile (segHeader.segmentCalls arch) := by
  constructor
  . rw [h.fileCalls_segmentCalls, List.map_append, h.ranges_loadCalls]
    refine (tiles_firstCalls segHeader).append (tiles_chunksFrom (by decide) ?_)
    rw [h.getD_offsetLen]
    split
    . exact Nat.zero_le _
    . exact Nat.min_le_left _ _
  . intro c hc
    obtain ⟨hmem, hpos⟩ := List.mem_filter.mp hc
    exact h.within_page hmem (of_decide_eq_true hpos)
  . exact h.pairwise_fileCalls

theorem exists_call (h : segHeader.NoOverflow arch) {i : Nat} (hi : i < segHeader.pFilesz.toNat)
    : ∃ c ∈ segHeader.segmentCalls arch, c.vaddr.toNat ≤ segHeader.pVaddr.toNat + i ∧
        segHeader.pVaddr.toNat + i < c.vaddr.toNat + c.len := by
  obtain ⟨chunk, hchunk, hlo, hhi⟩ := h.deliversFile.tiles.exists_mem (Nat.zero_le i) hi
  obtain ⟨c, hc, rfl⟩ := List.mem_map.mp hchunk
  have hmem := (List.mem_filter.mp hc).1
  refine ⟨c, hmem, ?_⟩
  have hle : segHeader.segVaddr arch ≤ c.vaddr := by
    rw [BitVec.le_def, h.toNat_segVaddr]
    obtain ⟨_, hvaddr, _⟩ | ⟨x, _, hvaddr, _⟩ | ⟨k, _, hvaddr, _⟩ := h.mem_segmentCalls hmem
    . omega
    . omega
    . omega
  have hsub := BitVec.toNat_sub_of_le hle
  rw [BitVec.le_def] at hle
  simp only [hsub, h.toNat_segVaddr] at hlo hhi hle
  omega

theorem presented_iff (h : segHeader.NoOverflow arch) {addr : VirtAddr arch}
    : Presented (segHeader.segmentCalls arch) addr ↔ segHeader.Walks (addr.toNat / pageSize) := by
  constructor
  . rintro ⟨c, hc, heq⟩
    rw [alignPageDown_eq_iff] at heq
    rw [← heq]
    obtain ⟨hne, hvaddr, _⟩ | ⟨x, hlt, hvaddr, _⟩ | ⟨k, hlt, hvaddr, _⟩ := h.mem_segmentCalls hc
    . exact .inl ⟨hne, by rw [hvaddr]⟩
    . exact .inr (.inl ⟨x, hlt, by rw [hvaddr]⟩)
    . exact .inr (.inr ⟨k, hlt, by rw [hvaddr]⟩)
  . rintro (⟨hne, hpage⟩ | ⟨i, hi, hpage⟩ | ⟨k, hlt, hpage⟩)
    . obtain ⟨len, hlen⟩ : ∃ len, segHeader.offsetLen arch = some len :=
        ⟨_, if_pos (by rw [h.offset_eq]; exact hne)⟩
      refine ⟨⟨segHeader.segVaddr arch, segHeader.offset arch, len⟩, ?_, ?_⟩
      . rw [segmentCalls, List.append_assoc]
        exact List.mem_append_left _ (List.mem_map_of_mem (Option.mem_toList.mpr hlen))
      . rw [alignPageDown_eq_iff, h.toNat_segVaddr, hpage]
    . obtain ⟨c, hc, hlo, hhi⟩ := h.exists_call hi
      refine ⟨c, hc, ?_⟩
      obtain ⟨hoffset, hend⟩ := h.within_page hc (by omega)
      rw [alignPageDown_eq_iff, hpage]
      simp only [pageSize] at *
      omega
    . have hmem := h.memEnd
      refine ⟨⟨segHeader.addrAt arch (segHeader.pFilesz.toNat + k * pageSize), 0, 0⟩, ?_, ?_⟩
      . have hx : segHeader.pFilesz.toNat + k * pageSize ∈
            stepBy (segHeader.filesz arch) (segHeader.memsz arch) pageSize := by
          rw [h.filesz_eq, h.memsz_eq]
          exact (mem_stepBy (by decide)).mpr ⟨k, rfl, hlt⟩
        exact List.mem_append_right _ (List.mem_map_of_mem hx)
      . rw [alignPageDown_eq_iff, h.toNat_addrAt (by omega), hpage, Nat.add_assoc]

end NoOverflow

variable {segHeader : ProgramHeader}

theorem walks_iff (hle : segHeader.pFilesz.toNat ≤ segHeader.pMemsz.toNat)
    : (∀ i < segHeader.pMemsz.toNat, segHeader.Walks ((segHeader.pVaddr.toNat + i) / pageSize)) ↔
        segHeader.pFilesz = segHeader.pMemsz ∨
          (segHeader.pVaddr.toNat + segHeader.pFilesz.toNat) % pageSize ≤
            (segHeader.pVaddr.toNat + segHeader.pMemsz.toNat - 1) % pageSize := by
  rw [← BitVec.toNat_inj]
  unfold Walks
  generalize segHeader.pVaddr.toNat = vaddr
  generalize segHeader.pFilesz.toNat = filesz at *
  generalize segHeader.pMemsz.toNat = memsz at *
  by_cases heq : filesz = memsz
  . subst heq
    simp only [true_or, iff_true]
    intro i hi
    exact .inr (.inl ⟨i, hi, rfl⟩)
  . have hlt : vaddr + filesz < vaddr + memsz := by omega
    rw [← reaches_iff (show 0 < pageSize by decide) hlt]
    simp only [heq, false_or]
    constructor
    . intro hall x hlo hhi
      -- a page that is not in the walk is the one that the file part ends in
      have hbetween {y : Nat} (hy : y ≤ vaddr + filesz) (hpage : x / pageSize = y / pageSize)
          : ∃ k, vaddr + filesz + k * pageSize < vaddr + memsz ∧
              (vaddr + filesz + k * pageSize) / pageSize = x / pageSize := by
        have hup : y / pageSize ≤ (vaddr + filesz) / pageSize := Nat.div_le_div_right hy
        have hdown : (vaddr + filesz) / pageSize ≤ x / pageSize := Nat.div_le_div_right hlo
        exact ⟨0, by omega, by rw [Nat.zero_mul, Nat.add_zero]; omega⟩
      have hx : vaddr + (x - vaddr) = x := by omega
      obtain ⟨_, hpage⟩ | ⟨i, hi, hpage⟩ | ⟨k, hk, hpage⟩ := hall (x - vaddr) (by omega)
      . exact hbetween (Nat.le_add_right vaddr filesz) (by rw [← hpage, hx])
      . exact hbetween (Nat.add_le_add_left hi.le vaddr) (by rw [← hpage, hx])
      . exact ⟨k, by omega, by rw [← hpage, hx]⟩
    . intro hall i hi
      by_cases hfile : i < filesz
      . exact .inr (.inl ⟨i, hfile, rfl⟩)
      . obtain ⟨k, hk, hpage⟩ := hall (vaddr + i) (by omega) (by omega)
        exact .inr (.inr ⟨k, by omega, hpage.symm⟩)

theorem NoOverflow.presentsAll_iff (h : segHeader.NoOverflow arch)
    : segHeader.PresentsAll (segHeader.segmentCalls arch) ↔
        ∀ i < segHeader.pMemsz.toNat, segHeader.Walks ((segHeader.pVaddr.toNat + i) / pageSize) := by
  have hend := h.memEnd
  constructor
  . intro hall i hi
    have haddr : (segHeader.addrAt arch i).toNat = segHeader.pVaddr.toNat + i := h.toNat_addrAt (by omega)
    rw [← haddr]
    exact h.presented_iff.mp (hall _ (by omega) (by omega))
  . intro hall addr hlo hhi
    have hwalks := hall (addr.toNat - segHeader.pVaddr.toNat) (by omega)
    rw [Nat.add_sub_cancel' hlo] at hwalks
    exact h.presented_iff.mpr hwalks

theorem exists_deliversFile (h : segHeader.NoOverflow arch)
    : ∃ calls : List (LoaderCall arch), segHeader.Makes calls ∧ segHeader.DeliversFile calls :=
  ⟨segHeader.segmentCalls arch, makes_segmentCalls segHeader, h.deliversFile⟩

def loadable (pFlags pVaddr pFilesz pMemsz : Nat) : ProgramHeader where
  pType := PT_LOAD
  pFlags
  pOffset := 0x1000
  pVaddr
  pFilesz
  pMemsz

-- The segment starts within a page and ends within the third one.
theorem exists_deliversFile_unaligned
    : ∃ calls : List (LoaderCall .riscv64),
        (loadable 5 0x10ff0 0x1800 0x2000).Makes calls ∧
          (loadable 5 0x10ff0 0x1800 0x2000).DeliversFile calls :=
  exists_deliversFile ⟨by decide, by decide, by decide, by decide, by decide⟩

/--
All pages of a segment are presented if and only if the file part is all of it, or the place at which the
file part ends in its page is not behind the place at which the segment ends in its last page.
-/
theorem exists_presentsAll_iff (h : segHeader.NoOverflow arch)
    (hle : segHeader.pFilesz.toNat ≤ segHeader.pMemsz.toNat)
    : ∃ calls : List (LoaderCall arch), segHeader.Makes calls ∧
        (segHeader.PresentsAll calls ↔
          segHeader.pFilesz = segHeader.pMemsz ∨
            (segHeader.pVaddr.toNat + segHeader.pFilesz.toNat) % pageSize ≤
              (segHeader.pVaddr.toNat + segHeader.pMemsz.toNat - 1) % pageSize) := by
  refine ⟨segHeader.segmentCalls arch, makes_segmentCalls segHeader, ?_⟩
  rw [h.presentsAll_iff, walks_iff hle]

theorem exists_presentsAll_page
    : ∃ calls : List (LoaderCall .riscv64),
        (loadable 6 0x10000 0x800 0x1801).Makes calls ∧
          (loadable 6 0x10000 0x800 0x1801).PresentsAll calls := by
  have h : (loadable 6 0x10000 0x800 0x1801).NoOverflow .riscv64 :=
    ⟨by decide, by decide, by decide, by decide, by decide⟩
  obtain ⟨calls, hcalls, hiff⟩ := exists_presentsAll_iff h (by decide)
  exact ⟨calls, hcalls, hiff.mpr (by decide)⟩

-- The file part ends in the middle of the first page, and the segment ends in the middle of the second
-- one: the walk over the rest stops right before the end of the segment.
theorem not_presentsAll_halfPage
    : (loadable 6 0x10000 0x800 0x1800).NoOverflow .riscv64 ∧
        (loadable 6 0x10000 0x800 0x1800).pFilesz.toNat ≤ (loadable 6 0x10000 0x800 0x1800).pMemsz.toNat ∧
        ∃ calls : List (LoaderCall .riscv64),
          (loadable 6 0x10000 0x800 0x1800).Makes calls ∧
            ¬ (loadable 6 0x10000 0x800 0x1800).PresentsAll calls := by
  have h : (loadable 6 0x10000 0x800 0x1800).NoOverflow .riscv64 :=
    ⟨by decide, by decide, by decide, by decide, by decide⟩
  refine ⟨h, by decide, _, makes_segmentCalls _, ?_⟩
  rw [h.presentsAll_iff, walks_iff (by decide)]
  decide

end ProgramHeader

end Jrinx
