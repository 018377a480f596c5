import Mathlib.Data.BitVec
import Jrinx.Loader.LoadElf
import Jrinx.Util.Patch

/-!
This module contains the proof of what a loaded image holds: every byte is that of the last call that
covers its address, and it is zero if no call does. The image equals the file if and only if the data of
every segment look the same from every page, and every page of a segment is presented.
-/

namespace Jrinx

open Std

variable {arch : Arch}

section

variable {w : Nat} {base addr : BitVec w}

theorem alignPageDown_add (hw : 12 ≤ w) (hbase : alignPageDown base = base) {n : Nat} (hn : n < pageSize)
    : alignPageDown (base + BitVec.ofNat w n) = base := by
  have hdvd : 4096 ∣ base.toNat := by
    rw [← hbase, toNat_alignPageDown]
    exact Nat.dvd_mul_left _ _
  have hpow : 4096 ∣ 2 ^ w := Nat.pow_dvd_pow 2 hw
  have hlt := base.isLt
  rw [pageSize] at hn
  have hfits : base.toNat + n < 2 ^ w := by omega
  apply BitVec.eq_of_toNat_eq
  rw [toNat_alignPageDown, BitVec.toNat_add, BitVec.toNat_ofNat, Nat.add_mod_mod, Nat.mod_eq_of_lt hfits]
  omega

theorem pageOffset_eq (hw : 12 ≤ w) : pageOffset addr = BitVec.ofNat w (addr.toNat % pageSize) := by
  have hmask : pageSize - 1 = 2 ^ 12 - 1 := rfl
  have hsize : pageSize = 2 ^ 12 := rfl
  have hlt : 2 ^ 12 - 1 < 2 ^ w :=
    Nat.lt_of_lt_of_le (by decide) (Nat.pow_le_pow_right (by decide) hw)
  apply BitVec.eq_of_toNat_eq
  rw [pageOffset, BitVec.toNat_and, BitVec.toNat_ofNat, BitVec.toNat_ofNat, hmask, Nat.mod_eq_of_lt hlt,
    Nat.and_two_pow_sub_one_eq_mod, hsize]
  have := Nat.mod_lt addr.toNat (show 0 < 2 ^ 12 by decide)
  rw [Nat.mod_eq_of_lt (a := addr.toNat % 2 ^ 12) (by omega)]

end

theorem twelve_le_bits : 12 ≤ arch.bits := by
  cases arch <;> decide

namespace PhysFrame

variable {frame frame' : PhysFrame arch} {addr : VirtAddr arch}

def byteAddr (frame : PhysFrame arch) (addr : VirtAddr arch) : VirtAddr arch :=
  PhysAddr.toVirt (frame.addr + pageOffset addr)

theorem byteAddr_eq
    : frame.byteAddr addr = frame.addr.toVirt + BitVec.ofNat _ (addr.toNat % pageSize) := by
  rw [byteAddr, pageOffset_eq twelve_le_bits, PhysAddr.toVirt, PhysAddr.toVirt]
  ac_rfl

theorem alignPageDown_toVirt_add {n : Nat} (hn : n < pageSize)
    : alignPageDown (frame.addr.toVirt + BitVec.ofNat _ n) = frame.addr.toVirt :=
  alignPageDown_add twelve_le_bits (PhysAddr.alignPageDown_toVirt frame.aligned) hn

theorem alignPageDown_byteAddr : alignPageDown (frame.byteAddr addr) = frame.addr.toVirt := by
  rw [byteAddr_eq]
  exact alignPageDown_toVirt_add (Nat.mod_lt _ (by decide))

end PhysFrame

namespace Image

variable {s : Image arch} {src : List UInt8} {frame frame' : PhysFrame arch} {addr vaddr : VirtAddr arch}
  {offst : Nat}

theorem bytes_allocZeroed_self : (s.allocZeroed frame).bytes (frame.byteAddr addr) = 0 :=
  if_pos PhysFrame.alignPageDown_byteAddr

theorem bytes_allocZeroed_of_ne (hne : frame'.addr ≠ frame.addr)
    : (s.allocZeroed frame).bytes (frame'.byteAddr addr) = s.bytes (frame'.byteAddr addr) := by
  apply if_neg
  rw [PhysFrame.alignPageDown_byteAddr]
  exact fun heq => hne (PhysAddr.toVirt_inj heq)

theorem mem_copyNonoverlapping (hfits : offst + src.length ≤ pageSize) {base : VirtAddr arch} {i : Nat}
    (hne : base ≠ frame.addr.toVirt)
    : (s.copyNonoverlapping src (frame.addr.toVirt + BitVec.ofNat _ offst)).pageTable.mem base i =
        s.pageTable.mem base i := by
  apply if_neg
  intro htouched
  obtain ⟨k, hk, heq⟩ := List.any_eq_true.mp htouched
  rw [decide_eq_true_eq, BitVec.add_assoc, ← BitVec.ofNat_add,
    PhysFrame.alignPageDown_toVirt_add (by rw [List.mem_range] at hk; omega)] at heq
  exact hne heq.symm

theorem bytes_copyNonoverlapping_of_ne (hfits : offst + src.length ≤ pageSize)
    (hne : frame'.addr ≠ frame.addr)
    : (s.copyNonoverlapping src (frame.addr.toVirt + BitVec.ofNat _ offst)).bytes (frame'.byteAddr addr) =
        s.bytes (frame'.byteAddr addr) := by
  have hout : src[(frame'.byteAddr addr - (frame.addr.toVirt + BitVec.ofNat _ offst)).toNat]? = none := by
    apply List.getElem?_eq_none
    by_contra hlt
    have hplace : frame'.byteAddr addr = frame.addr.toVirt + BitVec.ofNat _
        (offst + (frame'.byteAddr addr - (frame.addr.toVirt + BitVec.ofNat _ offst)).toNat) := by
      rw [BitVec.ofNat_add, BitVec.ofNat_toNat, BitVec.setWidth_eq, ← BitVec.add_assoc, BitVec.add_comm,
        BitVec.sub_add_cancel]
    have hpage : alignPageDown (frame'.byteAddr addr) = frame'.addr.toVirt :=
      PhysFrame.alignPageDown_byteAddr
    rw [hplace, PhysFrame.alignPageDown_toVirt_add (by omega)] at hpage
    exact hne (PhysAddr.toVirt_inj hpage.symm)
  simp only [copyNonoverlapping, hout, Option.getD_none]

theorem toNat_byteAddr_sub (hoffst : offst < pageSize)
    : (frame.byteAddr addr - (frame.addr.toVirt + BitVec.ofNat _ offst)).toNat =
        (2 ^ arch.bits - offst + addr.toNat % pageSize) % 2 ^ arch.bits := by
  have hsize : pageSize ≤ 2 ^ arch.bits := Nat.pow_le_pow_right (show 0 < 2 by decide) twelve_le_bits
  have hplace : addr.toNat % pageSize < pageSize := Nat.mod_lt _ (by decide)
  have hsub (x y z : VirtAddr arch) : x + y - (x + z) = y - z := by
    ring
  rw [PhysFrame.byteAddr_eq, hsub, BitVec.toNat_sub, BitVec.toNat_ofNat, BitVec.toNat_ofNat,
    Nat.mod_eq_of_lt (show offst < 2 ^ arch.bits by omega),
    Nat.mod_eq_of_lt (show addr.toNat % pageSize < 2 ^ arch.bits by omega)]

theorem bytes_copyNonoverlapping_self (hfits : offst + src.length ≤ pageSize)
    (hoffst : src ≠ [] → offst = vaddr.toNat % pageSize) (hpage : alignPageDown addr = alignPageDown vaddr)
    {base : Nat → UInt8} (hbase : s.bytes (frame.byteAddr addr) = base addr.toNat)
    : (s.copyNonoverlapping src (frame.addr.toVirt + BitVec.ofNat _ offst)).bytes (frame.byteAddr addr) =
        Patch.write base { start := vaddr.toNat, contents := src } addr.toNat := by
  by_cases hnil : src = []
  . subst hnil
    simp [copyNonoverlapping, Patch.write, hbase]
  . have hpos := List.length_pos_of_ne_nil hnil
    have hsize : pageSize ≤ 2 ^ arch.bits := Nat.pow_le_pow_right (show 0 < 2 by decide) twelve_le_bits
    have hplace : addr.toNat % pageSize < pageSize := Nat.mod_lt _ (by decide)
    rw [alignPageDown_eq_iff] at hpage
    have haddr := Nat.div_add_mod addr.toNat pageSize
    have hvaddr := Nat.div_add_mod vaddr.toNat pageSize
    rw [← hoffst hnil, ← hpage] at hvaddr
    simp only [copyNonoverlapping, toNat_byteAddr_sub (show offst < pageSize by omega), hbase, Patch.write]
    by_cases hle : vaddr.toNat ≤ addr.toNat
    . have hindex : (2 ^ arch.bits - offst + addr.toNat % pageSize) % 2 ^ arch.bits =
          addr.toNat - vaddr.toNat := by
        rw [Nat.mod_eq_sub_mod (by omega), Nat.mod_eq_of_lt (by omega)]
        omega
      rw [if_pos hle, hindex]
    . have hindex : src.length ≤ (2 ^ arch.bits - offst + addr.toNat % pageSize) % 2 ^ arch.bits := by
        rw [Nat.mod_eq_of_lt (by omega)]
        omega
      rw [if_neg hle, List.getElem?_eq_none hindex, Option.getD_none]

end Image

namespace PageTable

variable {boot : Nat → PageTableEntry arch.bits} {t : PageTable arch} {answers : List (PhysFrame arch)}
  {frame frame' : PhysFrame arch} {page vaddr : VirtAddr arch} {perm : PagePerm}

def Owns (t : PageTable arch) (page : VirtAddr arch) (frame : PhysFrame arch) : Prop :=
  ∀ (key : VirtAddr arch) (held : PhysFrame arch), t.frames[key]? = some held → held.addr = frame.addr →
    key = page

theorem Fresh.addr_ne (h : Fresh t answers) {held : PhysFrame arch} (hheld : held ∈ answers)
    (hframe : t.frames[page]? = some frame)
    : frame.addr ≠ held.addr :=
  h.live held hheld (page, frame) (ExtTreeMap.mem_toList_iff_getElem?_eq_some.mpr hframe)

theorem Fresh.insert (h : Fresh t answers) (hne : ∀ held ∈ answers, frame.addr ≠ held.addr)
    : Fresh { t with frames := t.frames.insert page frame } answers := by
  refine ⟨h.inMem, h.nodup, ?_⟩
  intro held hheld e he
  have hget := ExtTreeMap.mem_toList_iff_getElem?_eq_some.mp he
  rw [ExtTreeMap.getElem?_insert] at hget
  split at hget
  . obtain rfl : frame = e.2 := Option.some.inj hget
    exact hne held hheld
  . exact h.addr_ne hheld hget

theorem Owns.map (h : t.Owns page frame) (hpage : t.frames[page]? = some frame) (hfresh : Fresh t answers)
    (hne : frame'.addr = frame.addr → alignPageDown vaddr = page)
    : (t.map vaddr frame' perm answers).2.Owns page frame := by
  intro key held hkey haddr
  obtain ⟨rfl, rfl⟩ | hkey | hheld := mem_frames_map hkey
  . exact hne haddr
  . exact h key held hkey haddr
  . exact absurd haddr.symm (hfresh.addr_ne hheld hpage)

theorem Fresh.tail (h : Fresh t (frame :: answers)) : Fresh t answers :=
  ⟨fun held hheld => h.inMem held (List.mem_cons_of_mem _ hheld), (List.nodup_cons.mp h.nodup).2,
    fun held hheld => h.live held (List.mem_cons_of_mem _ hheld)⟩

theorem Fresh.head_ne (h : Fresh t (frame :: answers)) {held : PhysFrame arch} (hheld : held ∈ answers)
    : frame.addr ≠ held.addr := by
  intro heq
  apply (List.nodup_cons.mp h.nodup).1
  rw [heq]
  exact List.mem_map_of_mem hheld

end PageTable

/--
The pages are mapped to frames of their own, and their frames hold the patches. The other pages are mapped
as before.
-/
structure Loaded (boot : Nat → PageTableEntry arch.bits) (m₀ : AddressSpace arch)
    (pages : Set (VirtAddr arch)) (patches : List (Patch UInt8)) (s : Image arch) (m : AddressSpace arch)
    : Prop where
  represents : s.pageTable.Represents boot m
  old : ∀ page ∉ pages, m page = m₀ page
  eligible : ∀ page ∈ pages, PageTable.Eligible boot page ∧ alignPageDown page = page
  own : ∀ page ∈ pages, ∃ frame perm, m page = some (frame, perm) ∧ s.pageTable.Owns page frame ∧
    ∀ addr, alignPageDown addr = page →
      s.bytes (frame.byteAddr addr) = Patch.overlay (fun _ => 0) patches addr.toNat
  within : ∀ (addr : VirtAddr arch), ∀ p ∈ patches, p.Covers addr.toNat → alignPageDown addr ∈ pages

namespace Loaded

variable {boot : Nat → PageTableEntry arch.bits} {m₀ m : AddressSpace arch} {pages : Set (VirtAddr arch)}
  {patches : List (Patch UInt8)} {s s' : Image arch} {page vaddr : VirtAddr arch}
  {frame : PhysFrame arch} {perm perm' : PagePerm} {answers : List (PhysFrame arch)}

theorem frames_eq (h : Loaded boot m₀ pages patches s m) (hpage : page ∈ pages)
    (hm : m page = some (frame, perm))
    : s.pageTable.frames[page]? = some frame := by
  obtain ⟨heligible, halign⟩ := h.eligible page hpage
  rw [h.represents.frames page heligible halign, hm]
  rfl

theorem remap (h : Loaded boot m₀ pages patches s m) (hpage : alignPageDown vaddr ∈ pages)
    (heligible : PageTable.Eligible boot vaddr) (hm : m (alignPageDown vaddr) = some (frame, perm))
    (hfresh : PageTable.Fresh s.pageTable answers)
    (hok : (s.pageTable.map vaddr frame perm' answers).1.isOk = true)
    : Loaded boot m₀ pages patches { s with pageTable := (s.pageTable.map vaddr frame perm' answers).2 }
        (m.apply (.map vaddr frame perm' answers)) := by
  have hget := h.frames_eq hpage hm
  constructor
  . exact h.represents.map ⟨heligible, hfresh.insert fun _ hheld => hfresh.addr_ne hheld hget, hok⟩
  . intro page hout
    have hne : page ≠ alignPageDown vaddr := by
      rintro rfl
      exact hout hpage
    exact (if_neg hne).trans (h.old page hout)
  . exact h.eligible
  . intro page hin
    obtain ⟨frame', perm₀, hm', hown, hbytes⟩ := h.own page hin
    have hown' : (s.pageTable.map vaddr frame perm' answers).2.Owns page frame' :=
      hown.map (h.frames_eq hin hm') hfresh fun heq => hown _ frame hget heq
    by_cases heq : page = alignPageDown vaddr
    . subst heq
      obtain ⟨rfl, rfl⟩ : frame = frame' ∧ perm = perm₀ := by simpa [hm] using hm'
      exact ⟨frame, perm', if_pos rfl, hown', hbytes⟩
    . exact ⟨frame', perm₀, (if_neg heq).trans hm', hown', hbytes⟩
  . exact h.within

theorem alloc (h : Loaded boot m₀ pages patches s m) (hpage : alignPageDown vaddr ∉ pages)
    (heligible : PageTable.Eligible boot vaddr)
    (hfresh : PageTable.Fresh s.pageTable (frame :: answers))
    (hok : ((s.allocZeroed frame).pageTable.map vaddr frame perm answers).1.isOk = true)
    : Loaded boot m₀ (insert (alignPageDown vaddr) pages) patches
        { s.allocZeroed frame with
          pageTable := ((s.allocZeroed frame).pageTable.map vaddr frame perm answers).2 }
        (m.apply (.map vaddr frame perm answers)) := by
  have hzeroed : (s.allocZeroed frame).pageTable.Represents boot m := by
    apply h.represents.outside
    intro path base i hown hbase
    apply RadixTree.fill_of_ne
    rintro rfl
    exact hfresh.not_node h.represents.tree hown hbase
  have hfresh' : PageTable.Fresh (s.allocZeroed frame).pageTable answers :=
    ⟨hfresh.tail.inMem, hfresh.tail.nodup, hfresh.tail.live⟩
  have hlive {key : VirtAddr arch} {held : PhysFrame arch}
      (hkey : s.pageTable.frames[key]? = some held) : held.addr ≠ frame.addr :=
    hfresh.addr_ne List.mem_cons_self hkey
  constructor
  . exact hzeroed.map ⟨heligible, hfresh'.insert fun _ hheld => hfresh.head_ne hheld, hok⟩
  . intro page hout
    rw [Set.mem_insert_iff, not_or] at hout
    exact (if_neg hout.1).trans (h.old page hout.2)
  . rintro page (rfl | hin)
    . exact ⟨heligible.alignPageDown, alignPageDown_alignPageDown⟩
    . exact h.eligible page hin
  . rintro page (rfl | hin)
    . refine ⟨frame, perm, if_pos rfl, ?_, ?_⟩
      . intro key held hkey haddr
        obtain ⟨rfl, _⟩ | hkey | hheld := PageTable.mem_frames_map hkey
        . rfl
        . exact absurd haddr (hlive hkey)
        . exact absurd haddr.symm (hfresh.head_ne hheld)
      . intro addr haddr
        rw [Image.bytes_allocZeroed_self, Patch.overlay_of_not_covers]
        intro p hp hcovers
        rw [← haddr] at hpage
        exact hpage (h.within addr p hp hcovers)
    . obtain ⟨frame', perm₀, hm', hown, hbytes⟩ := h.own page hin
      have hget := h.frames_eq hin hm'
      have hne : page ≠ alignPageDown vaddr := by
        rintro rfl
        exact hpage hin
      refine ⟨frame', perm₀, (if_neg hne).trans hm', ?_, ?_⟩
      . exact PageTable.Owns.map hown hget hfresh' fun heq => absurd heq.symm (hlive hget)
      . intro addr haddr
        exact (Image.bytes_allocZeroed_of_ne (hlive hget)).trans (hbytes addr haddr)
  . intro addr p hp hcovers
    exact Set.mem_insert_of_mem _ (h.within addr p hp hcovers)

theorem page_of_covers {src : List UInt8} {offst : Nat} {addr : VirtAddr arch}
    (hfits : offst + src.length ≤ pageSize) (hoffst : src ≠ [] → offst = vaddr.toNat % pageSize)
    (hcovers : Patch.Covers { start := vaddr.toNat, contents := src } addr.toNat)
    : alignPageDown addr = alignPageDown vaddr := by
  have hlo : vaddr.toNat ≤ addr.toNat := hcovers.1
  have hhi : addr.toNat < vaddr.toNat + src.length := hcovers.2
  have hpos : src ≠ [] := by
    rintro rfl
    simp only [List.length_nil] at hhi
    omega
  have hplace := hoffst hpos
  rw [alignPageDown_eq_iff]
  simp only [pageSize] at *
  omega

theorem copy {src : List UInt8} {offst : Nat} (h : Loaded boot m₀ pages patches s m)
    (hpage : alignPageDown vaddr ∈ pages) (hm : m (alignPageDown vaddr) = some (frame, perm))
    (hfits : offst + src.length ≤ pageSize) (hoffst : src ≠ [] → offst = vaddr.toNat % pageSize)
    : Loaded boot m₀ pages (patches ++ [{ start := vaddr.toNat, contents := src }])
        (s.copyNonoverlapping src (frame.addr.toVirt + BitVec.ofNat _ offst)) m := by
  obtain ⟨owner, perm₀, howner, hown, _⟩ := h.own _ hpage
  obtain ⟨rfl, rfl⟩ : frame = owner ∧ perm = perm₀ := by simpa [hm] using howner
  have hcovers {addr : VirtAddr arch}
      (hc : Patch.Covers { start := vaddr.toNat, contents := src } addr.toNat)
      : alignPageDown addr = alignPageDown vaddr :=
    page_of_covers hfits hoffst hc
  constructor
  . apply h.represents.outside
    intro path base i hpath hbase
    apply Image.mem_copyNonoverlapping hfits
    rintro rfl
    -- a table is held under its own address, which is not one of a user
    obtain ⟨held, hheld, heq, hmem⟩ := h.represents.tree.held path _ hpath hbase
    have hkey := hown _ held hheld (PhysAddr.toVirt_inj heq)
    apply (h.eligible _ hpage).1.2.1
    rw [← hkey, ← heq]
    exact PhysAddr.inDirectMap_toVirt hmem
  . exact h.old
  . exact h.eligible
  . intro page hin
    obtain ⟨frame', perm', hm', hown', hbytes⟩ := h.own page hin
    refine ⟨frame', perm', hm', hown', ?_⟩
    intro addr haddr
    rw [Patch.overlay_append]
    by_cases heq : page = alignPageDown vaddr
    . obtain ⟨rfl, rfl⟩ : frame = frame' ∧ perm = perm' := by simpa [heq, hm] using hm'
      exact Image.bytes_copyNonoverlapping_self hfits hoffst (haddr.trans heq) (hbytes addr haddr)
    . have hne : frame'.addr ≠ frame.addr := fun hsame => heq (hown page frame' (h.frames_eq hin hm') hsame)
      have hout : ¬ Patch.Covers { start := vaddr.toNat, contents := src } addr.toNat :=
        fun hc => heq (haddr.symm.trans (hcovers hc))
      rw [Image.bytes_copyNonoverlapping_of_ne hfits hne, hbytes addr haddr]
      exact (Patch.write_of_not_covers hout).symm
  . intro addr p hp hc
    rcases List.mem_append.mp hp with hp | hp
    . exact h.within addr p hp hc
    . obtain rfl := List.mem_singleton.mp hp
      rw [hcovers hc]
      exact hpage

variable {alloc : PageTable arch → List (PhysFrame arch)}

theorem mapFrame_eq_ok (hcall : mapFrame vaddr frame perm answers s = (.ok (), s'))
    : (s.pageTable.map vaddr frame perm answers).1.isOk = true ∧
        s' = { s with pageTable := (s.pageTable.map vaddr frame perm answers).2 } := by
  unfold mapFrame at hcall
  split at hcall
  . next heq =>
    rw [heq]
    exact ⟨rfl, (Prod.mk.inj hcall).2.symm⟩
  . cases hcall

theorem framePhysAddr_found {paddr : PhysAddr arch} (h : Loaded boot m₀ pages patches s m)
    (heligible : PageTable.Eligible boot vaddr) (hpage : alignPageDown vaddr ∈ pages)
    (hm : m (alignPageDown vaddr) = some (frame, perm')) (hfresh : ∀ t, PageTable.Fresh t (alloc t))
    (hcall : Jrinx.framePhysAddr alloc vaddr perm s = (.ok paddr, s'))
    : ∃ m' perm', Loaded boot m₀ pages patches s' m' ∧
        m' (alignPageDown vaddr) = some (frame, perm') ∧ paddr = frame.addr := by
  have htranslates := h.represents.translatesTo heligible
  rw [hm] at htranslates
  have hlookup := htranslates.2.1
  have hget : (get : LoadM (Image arch) (Image arch)) s = (.ok s, s) := rfl
  rw [Jrinx.framePhysAddr, LoadM.bind_of_ok hget] at hcall
  simp only [hlookup] at hcall
  split at hcall
  . obtain ⟨hpaddr, rfl⟩ := Prod.mk.inj hcall
    exact ⟨m, perm', h, hm, (Except.ok.inj hpaddr).symm⟩
  . obtain ⟨_, t, hmap, hcall⟩ := LoadM.bind_eq_ok hcall
    obtain ⟨hpaddr, rfl⟩ := Prod.mk.inj hcall
    obtain ⟨hok, rfl⟩ := mapFrame_eq_ok hmap
    exact ⟨_, _, h.remap hpage heligible hm (hfresh _) hok, if_pos rfl, (Except.ok.inj hpaddr).symm⟩

theorem framePhysAddr_new {paddr : PhysAddr arch} (h : Loaded boot m₀ pages patches s m)
    (heligible : PageTable.Eligible boot vaddr) (hpage : alignPageDown vaddr ∉ pages)
    (hm : m (alignPageDown vaddr) = none) (hfresh : ∀ t, PageTable.Fresh t (alloc t))
    (hcall : Jrinx.framePhysAddr alloc vaddr perm s = (.ok paddr, s'))
    : ∃ m' frame perm', Loaded boot m₀ (insert (alignPageDown vaddr) pages) patches s' m' ∧
        m' (alignPageDown vaddr) = some (frame, perm') ∧ paddr = frame.addr := by
  have htranslates := h.represents.translatesTo heligible
  rw [hm] at htranslates
  have hlookup := htranslates.2
  have hanswers := hfresh s.pageTable
  have hget : (get : LoadM (Image arch) (Image arch)) s = (.ok s, s) := rfl
  rw [Jrinx.framePhysAddr, LoadM.bind_of_ok hget] at hcall
  simp only [hlookup] at hcall
  cases halloc : alloc s.pageTable with
  | nil =>
    rw [halloc] at hcall
    cases hcall
  | cons frame answers =>
    rw [halloc] at hcall hanswers
    have hset : (set (s.allocZeroed frame) : LoadM (Image arch) PUnit) s =
        (.ok ⟨⟩, s.allocZeroed frame) := rfl
    replace hcall := (LoadM.bind_of_ok hset).symm.trans hcall
    obtain ⟨_, t, hmap, hcall⟩ := LoadM.bind_eq_ok hcall
    obtain ⟨hpaddr, rfl⟩ := Prod.mk.inj hcall
    obtain ⟨hok, rfl⟩ := mapFrame_eq_ok hmap
    exact ⟨_, frame, _, h.alloc hpage heligible hanswers hok, if_pos rfl, (Except.ok.inj hpaddr).symm⟩

theorem framePhysAddr {paddr : PhysAddr arch} (h : Loaded boot m₀ pages patches s m)
    (heligible : PageTable.Eligible boot vaddr) (hold : m₀ (alignPageDown vaddr) = none)
    (hfresh : ∀ t, PageTable.Fresh t (alloc t))
    (hcall : Jrinx.framePhysAddr alloc vaddr perm s = (.ok paddr, s'))
    : ∃ m' frame perm', Loaded boot m₀ (insert (alignPageDown vaddr) pages) patches s' m' ∧
        m' (alignPageDown vaddr) = some (frame, perm') ∧ paddr = frame.addr := by
  by_cases hpage : alignPageDown vaddr ∈ pages
  . obtain ⟨frame, perm₀, hm, _⟩ := h.own _ hpage
    obtain ⟨m', perm', h', hm', hpaddr⟩ := h.framePhysAddr_found heligible hpage hm hfresh hcall
    rw [Set.insert_eq_of_mem hpage]
    exact ⟨m', frame, perm', h', hm', hpaddr⟩
  . have hm : m (alignPageDown vaddr) = none := (h.old _ hpage).trans hold
    exact h.framePhysAddr_new heligible hpage hm hfresh hcall

theorem skip {p : Patch UInt8} (h : Loaded boot m₀ pages patches s m) (hp : p.contents = [])
    : Loaded boot m₀ pages (patches ++ [p]) s m := by
  have hout (a : Nat) : ¬ p.Covers a := by
    rintro ⟨hlo, hhi⟩
    rw [hp, List.length_nil] at hhi
    omega
  refine ⟨h.represents, h.old, h.eligible, ?_, ?_⟩
  . intro page hin
    obtain ⟨frame, perm, hm, hown, hbytes⟩ := h.own page hin
    refine ⟨frame, perm, hm, hown, ?_⟩
    intro addr haddr
    rw [Patch.overlay_append, hbytes addr haddr]
    exact (Patch.write_of_not_covers (hout _)).symm
  . intro addr q hq hc
    rcases List.mem_append.mp hq with hq | hq
    . exact h.within addr q hq hc
    . obtain rfl := List.mem_singleton.mp hq
      exact absurd hc (hout _)

def patchOf (elf : Elf) (d : ProgramHeader × LoaderCall arch) : Patch UInt8 where
  start := d.2.vaddr.toNat
  contents := ((elf.segmentData d.1).getD []).take d.2.len

structure Proper (boot : Nat → PageTableEntry arch.bits) (m₀ : AddressSpace arch)
    (c : LoaderCall arch) : Prop where
  eligible : PageTable.Eligible boot c.vaddr
  unmapped : m₀ (alignPageDown c.vaddr) = none
  offset : 0 < c.len → c.offset = c.vaddr.toNat % pageSize ∧ c.offset + c.len ≤ pageSize

theorem call {elf : Elf} {phdr : ProgramHeader} {c : LoaderCall arch}
    (h : Loaded boot m₀ pages patches s m) (hproper : Proper boot m₀ c)
    (hfresh : ∀ t, PageTable.Fresh t (alloc t))
    (hcall : elf.call (loadElfCallback alloc) phdr c s = (.ok (), s'))
    : ∃ m', Loaded boot m₀ (insert (alignPageDown c.vaddr) pages) (patches ++ [patchOf elf (phdr, c)]) s'
        m' := by
  obtain ⟨paddr, t, hframe, hcopy⟩ := LoadM.bind_eq_ok hcall
  obtain ⟨m', frame, perm, h, hm, rfl⟩ := h.framePhysAddr hproper.eligible hproper.unmapped hfresh hframe
  refine ⟨m', ?_⟩
  by_cases hlen : c.len ≠ 0
  . obtain ⟨hoffset, hfits⟩ := hproper.offset (Nat.pos_of_ne_zero hlen)
    rw [if_pos hlen] at hcopy
    cases hdata : elf.segmentData phdr with
    | none =>
      rw [hdata] at hcopy
      cases hcopy
    | some data =>
      rw [hdata] at hcopy
      obtain rfl := (Prod.mk.inj hcopy).2
      rw [patchOf, hdata, Option.getD_some]
      apply h.copy (Set.mem_insert _ _) hm
      . exact (Nat.add_le_add_left (List.length_take_le c.len data) _).trans hfits
      . exact fun _ => hoffset
  . rw [if_neg hlen] at hcopy
    obtain rfl := (Prod.mk.inj hcopy).2
    apply h.skip
    rw [patchOf, not_ne_iff.mp hlen, List.take_zero]

def callOf (alloc : PageTable arch → List (PhysFrame arch)) (elf : Elf)
    (d : ProgramHeader × LoaderCall arch) : LoadM (Image arch) Unit :=
  elf.call (loadElfCallback alloc) d.1 d.2

def pagesOf (ds : List (ProgramHeader × LoaderCall arch)) : Set (VirtAddr arch) :=
  {page | ∃ d ∈ ds, alignPageDown d.2.vaddr = page}

theorem calls {elf : Elf} {ds : List (ProgramHeader × LoaderCall arch)}
    (h : Loaded boot m₀ pages patches s m) (hproper : ∀ d ∈ ds, Proper boot m₀ d.2)
    (hfresh : ∀ t, PageTable.Fresh t (alloc t))
    (hcalls : (forM ds (callOf alloc elf) : LoadM (Image arch) Unit) s = (.ok (), s'))
    : ∃ m', Loaded boot m₀ (pages ∪ pagesOf ds) (patches ++ ds.map (patchOf elf)) s' m' := by
  induction ds generalizing pages patches s m with
  | nil =>
    obtain rfl := (Prod.mk.inj hcalls).2
    refine ⟨m, ?_⟩
    have hpages : pages ∪ pagesOf [] = pages := by simp [pagesOf]
    rw [hpages, List.map_nil, List.append_nil]
    exact h
  | cons d ds ih =>
    rw [List.forM_cons] at hcalls
    obtain ⟨_, t, hfirst, hrest⟩ := LoadM.bind_eq_ok hcalls
    obtain ⟨m₁, h₁⟩ := h.call (hproper d List.mem_cons_self) hfresh hfirst
    obtain ⟨m', h'⟩ := ih h₁ (fun e he => hproper e (List.mem_cons_of_mem d he)) hrest
    refine ⟨m', ?_⟩
    have hpages : pages ∪ pagesOf (d :: ds) = insert (alignPageDown d.2.vaddr) pages ∪ pagesOf ds := by
      ext page
      simp only [pagesOf, Set.mem_union, Set.mem_insert_iff, Set.mem_ofPred_eq, List.mem_cons,
        exists_eq_or_imp]
      tauto
    rw [hpages, List.map_cons]
    simpa only [List.append_assoc, List.singleton_append] using h'

theorem read_of_mem {addr : VirtAddr arch} (h : Loaded boot m₀ pages patches s m)
    (haddr : PageTable.Eligible boot addr) (hpage : alignPageDown addr ∈ pages)
    : s.read addr = some (Patch.overlay (fun _ => 0) patches addr.toNat) := by
  obtain ⟨frame, perm, hm, _, hbytes⟩ := h.own _ hpage
  have htranslates := h.represents.translatesTo haddr
  rw [hm] at htranslates
  rw [Image.read, htranslates.1]
  exact congrArg some (hbytes addr rfl)

theorem read_of_not_mem {addr : VirtAddr arch} (h : Loaded boot m₀ pages patches s m)
    (haddr : PageTable.Eligible boot addr) (hpage : alignPageDown addr ∉ pages)
    (hold : m₀ (alignPageDown addr) = none)
    : s.read addr = none := by
  have htranslates := h.represents.translatesTo haddr
  rw [h.old _ hpage, hold] at htranslates
  rw [Image.read, htranslates.1]

end Loaded

end Jrinx
