import Jrinx.Paging.Tree

/-!
This module contains the proof that a page table implements an address space: what a page is translated
to depends on the last call of `map` or `unmap` for this page, and on nothing else.
-/

namespace Jrinx

open Std

variable {arch : Arch}

namespace VirtAddr

def path (addr : VirtAddr arch) : List Nat := addr.indexes.dropLast

def leaf (addr : VirtAddr arch) : Nat := addr.indexes.getLastD 0

theorem indexes_eq_path_leaf (addr : VirtAddr arch) : addr.indexes = addr.path ++ [addr.leaf] := by
  cases arch <;> rfl

theorem length_path (addr : VirtAddr arch) : addr.path.length = PageTable.depth arch := by
  cases arch <;> rfl

theorem head_path (addr : VirtAddr arch) : addr.path.head? = addr.indexes.head? := by
  cases arch <;> rfl

theorem path_ne_nil (addr : VirtAddr arch) : addr.path ≠ [] := by
  apply List.ne_nil_of_length_pos
  rw [length_path]
  cases arch <;> decide

theorem path_alignPageDown (addr : VirtAddr arch) : path (alignPageDown addr) = addr.path := by
  rw [path, indexes_alignPageDown, path]

theorem leaf_alignPageDown (addr : VirtAddr arch) : leaf (alignPageDown addr) = addr.leaf := by
  rw [leaf, indexes_alignPageDown, leaf]

end VirtAddr

def PagingAction.page? (a : PagingAction arch) : Option (VirtAddr arch) :=
  match a with
  | .map addr _ _ _ => some (alignPageDown addr)
  | .unmap addr => some (alignPageDown addr)
  | .write _ _ _ => none

abbrev AddressSpace (arch : Arch) := VirtAddr arch → Option (PhysFrame arch × PagePerm)

namespace AddressSpace

def empty : AddressSpace arch := fun _ => none

def apply (m : AddressSpace arch) (a : PagingAction arch) : AddressSpace arch :=
  match a with
  | .map addr frame perm _ => fun page => if page = alignPageDown addr then some (frame, perm) else m page
  | .unmap addr => fun page => if page = alignPageDown addr then none else m page
  | .write _ _ _ => m

theorem apply_of_ne {m : AddressSpace arch} {a : PagingAction arch} {page : VirtAddr arch}
    (h : a.page? ≠ some page)
    : m.apply a page = m page := by
  cases a with
  | map addr frame perm answers =>
    have hne : page ≠ alignPageDown addr := fun heq => h (by rw [heq]; rfl)
    exact if_neg hne
  | unmap addr =>
    have hne : page ≠ alignPageDown addr := fun heq => h (by rw [heq]; rfl)
    exact if_neg hne
  | write base i pte => rfl

def after (as : List (PagingAction arch)) : AddressSpace arch := as.foldl apply empty

end AddressSpace

namespace PageTable

/--
A canonical address outside of the direct map, its slot in the root was not populated by
`clone_kernel`.
-/
def Eligible (boot : Nat → PageTableEntry arch.bits) (addr : VirtAddr arch) : Prop :=
  addr.Canonical ∧ ¬ addr.InDirectMap ∧ ∀ i ∈ addr.indexes.head?, ¬ Populated boot i

/--
The calls are successful and made for eligible addresses, the allocator does not hand out frames that
are alive, and other code does not write to the tables.
-/
def Allowed (boot : Nat → PageTableEntry arch.bits) (t : PageTable arch) (a : PagingAction arch) : Prop :=
  match a with
  | .map addr frame perm answers =>
    Eligible boot addr ∧ Fresh { t with frames := t.frames.insert (alignPageDown addr) frame } answers ∧
      (t.map addr frame perm answers).1.isOk = true
  | .unmap addr => Eligible boot addr ∧ (t.unmap addr).1.isOk = true
  | .write base _ _ => ∀ frame ∈ t.frames[base]?, frame.addr.toVirt ≠ base

structure Represents (boot : Nat → PageTableEntry arch.bits) (t : PageTable arch) (m : AddressSpace arch)
    : Prop where
  tree : Tree boot t
  entry : ∀ page : VirtAddr arch, Eligible boot page → alignPageDown page = page →
    t.entry page.path page.leaf = (m page).map (fun e => .set e.1.addr (e.2 ||| .V))
  frames : ∀ page : VirtAddr arch, Eligible boot page → alignPageDown page = page →
    t.frames[page]? = (m page).map Prod.fst

variable {boot : Nat → PageTableEntry arch.bits} {t t' : PageTable arch} {m : AddressSpace arch}

namespace Eligible

variable {addr addr' : VirtAddr arch}

theorem alignPageDown (h : Eligible boot addr) : Eligible boot (Jrinx.alignPageDown addr) := by
  refine ⟨VirtAddr.canonical_alignPageDown h.1, ?_, ?_⟩
  . intro hin
    exact h.2.1 (VirtAddr.inDirectMap_of_alignPageDown hin)
  . rw [VirtAddr.indexes_alignPageDown]
    exact h.2.2

theorem own_path (h : Eligible boot addr) : Own boot addr.path := by
  constructor
  . rw [VirtAddr.length_path]
  . rw [VirtAddr.head_path]
    exact h.2.2

theorem page_eq (h : Eligible boot addr) (h' : Eligible boot addr') (hpath : addr.path = addr'.path)
    (hleaf : addr.leaf = addr'.leaf)
    : Jrinx.alignPageDown addr = Jrinx.alignPageDown addr' := by
  apply VirtAddr.alignPageDown_eq_of_indexes h.1 h'.1
  rw [VirtAddr.indexes_eq_path_leaf, VirtAddr.indexes_eq_path_leaf, hpath, hleaf]

end Eligible

theorem find_eq (addr : VirtAddr arch)
    : t.find addr =
        match t.node addr.path with
        | some base => .ok { base, index := addr.leaf }
        | none => .error .invalidVirtAddr := by
  rw [find, VirtAddr.indexes_eq_path_leaf, find_go_eq]
  rfl

theorem lookup_eq (t : PageTable arch) (addr : VirtAddr arch)
    : t.lookup addr =
        match t.entry (VirtAddr.path (alignPageDown addr)) (VirtAddr.leaf (alignPageDown addr)) with
        | some pte =>
          match t.frames[alignPageDown addr]? with
          | some frame => .next (.ok (frame, pte.perm))
          | none => .panic
        | none => .next (.error .invalidVirtAddr) := by
  simp only [lookup, find_eq, entry]
  cases t.node (VirtAddr.path (alignPageDown addr)) with
  | none => rfl
  | some base =>
    cases hvalid : (t.mem base (VirtAddr.leaf (alignPageDown addr))).valid with
    | true =>
      cases t.frames[alignPageDown addr]? with
      | none => simp [read, hvalid]
      | some frame => simp [read, hvalid]
    | false => simp [read, hvalid]

theorem tree_frames_insert {page : VirtAddr arch} (h : Tree boot t) (hpage : ¬ page.InDirectMap)
    (frame : PhysFrame arch)
    : Tree boot { t with frames := t.frames.insert page frame } := by
  apply h.congr
  . intro path _
    rfl
  . intro addr haddr
    have hne : page ≠ addr := by
      rintro rfl
      exact hpage haddr
    simp [ExtTreeMap.getElem?_insert, hne]

theorem tree_frames_erase {page : VirtAddr arch} (h : Tree boot t) (hpage : ¬ page.InDirectMap)
    : Tree boot { t with frames := t.frames.erase page } := by
  apply h.congr
  . intro path _
    rfl
  . intro addr haddr
    have hne : page ≠ addr := by
      rintro rfl
      exact hpage haddr
    simp [ExtTreeMap.getElem?_erase, hne]

theorem map_ok {addr : VirtAddr arch} {frame : PhysFrame arch} {perm : PagePerm}
    {answers : List (PhysFrame arch)} (hok : (t.map addr frame perm answers).1.isOk = true)
    : ∃ ref t₁,
        findOrCreate { t with frames := t.frames.insert (alignPageDown addr) frame } (alignPageDown addr)
          answers = (.ok ref, t₁) ∧
        (t.map addr frame perm answers).2 = t₁.write ref (.set frame.addr (perm ||| .V)) := by
  simp only [map] at hok ⊢
  split at hok
  . next ref t₁ heq => exact ⟨ref, t₁, heq, rfl⟩
  . simp [Except.isOk, Except.toBool] at hok

theorem unmap_ok {addr : VirtAddr arch} (hok : (t.unmap addr).1.isOk = true)
    : ∃ ref, t.find (alignPageDown addr) = .ok ref ∧
        (t.unmap addr).2 =
          PageTable.write { t with frames := t.frames.erase (alignPageDown addr) } ref .clr := by
  simp only [unmap] at hok ⊢
  split at hok
  . next hmem =>
    rw [if_pos hmem]
    split at hok
    . next ref heq => exact ⟨ref, heq, rfl⟩
    . simp [Except.isOk, Except.toBool] at hok
  . simp [Except.isOk, Except.toBool] at hok

theorem findOrCreate_spec {page : VirtAddr arch} {answers : List (PhysFrame arch)}
    (htree : Tree boot t) (hfresh : Fresh t answers) (hown : Own boot page.path)
    : Created boot t (t.findOrCreate page answers).2 ∧
        ∀ ref, (t.findOrCreate page answers).1 = .ok ref →
          (t.findOrCreate page answers).2.node page.path = some ref.base ∧ ref.index = page.leaf := by
  rw [findOrCreate, VirtAddr.indexes_eq_path_leaf]
  exact findOrCreate_go_spec [] htree hfresh hown rfl

theorem findOrCreate_ok {page : VirtAddr arch} {answers : List (PhysFrame arch)} {ref : EntryRef arch}
    (htree : Tree boot t) (hfresh : Fresh t answers) (hown : Own boot page.path)
    (h : t.findOrCreate page answers = (.ok ref, t'))
    : Created boot t t' ∧ t'.node page.path = some ref.base ∧ ref.index = page.leaf := by
  obtain ⟨hcreated, hok⟩ := findOrCreate_spec htree hfresh hown
  rw [h] at hcreated hok
  exact ⟨hcreated, hok ref rfl⟩

theorem Represents.write {page : VirtAddr arch} {ref : EntryRef arch} {pte : PageTableEntry arch.bits}
    {e : Option (PhysFrame arch × PagePerm)} (htree : Tree boot t)
    (hpage : Eligible boot page) (halign : alignPageDown page = page)
    (hbase : t.node page.path = some ref.base) (hindex : ref.index = page.leaf)
    (hpte : (if pte.valid then some pte else none) = e.map (fun e => .set e.1.addr (e.2 ||| .V)))
    (hentry : ∀ page' : VirtAddr arch, Eligible boot page' → alignPageDown page' = page' → page' ≠ page →
      t.entry page'.path page'.leaf = (m page').map (fun e => .set e.1.addr (e.2 ||| .V)))
    (hframes : ∀ page' : VirtAddr arch, Eligible boot page' → alignPageDown page' = page' →
      t.frames[page']? = if page' = page then e.map Prod.fst else (m page').map Prod.fst)
    : Represents boot (t.write ref pte) (fun page' => if page' = page then e else m page') := by
  obtain ⟨base, index⟩ := ref
  simp only at hbase hindex
  subst hindex
  constructor
  . exact htree.write_leaf hpage.own_path (VirtAddr.length_path page) hbase
  . intro page' hpage' halign'
    rw [entry_write_leaf htree hpage.own_path (VirtAddr.length_path page) hbase hpage'.own_path]
    by_cases heq : page' = page
    . subst heq
      rw [if_pos ⟨rfl, rfl⟩, if_pos rfl, hpte]
    . have hne : ¬ (page'.path = page.path ∧ page'.leaf = page.leaf) := by
        rintro ⟨hpath, hleaf⟩
        have hpages := hpage'.page_eq hpage hpath hleaf
        rw [halign', halign] at hpages
        exact heq hpages
      rw [if_neg hne, if_neg heq]
      exact hentry page' hpage' halign' heq
  . intro page' hpage' halign'
    rw [apply_ite (Option.map Prod.fst)]
    exact hframes page' hpage' halign'

theorem Represents.map {addr : VirtAddr arch} {frame : PhysFrame arch} {perm : PagePerm}
    {answers : List (PhysFrame arch)} (h : Represents boot t m)
    (hallowed : Allowed boot t (.map addr frame perm answers))
    : Represents boot (t.map addr frame perm answers).2 (m.apply (.map addr frame perm answers)) := by
  obtain ⟨haddr, hfresh, hok⟩ := hallowed
  have hpage := haddr.alignPageDown
  obtain ⟨ref, t₁, hfind, hwrite⟩ := map_ok hok
  have htree := tree_frames_insert h.tree hpage.2.1 frame
  obtain ⟨hcreated, hbase, hindex⟩ := findOrCreate_ok htree hfresh hpage.own_path hfind
  rw [hwrite]
  apply Represents.write hcreated.tree hpage alignPageDown_alignPageDown hbase hindex
  . rw [if_pos (by rw [PageTableEntry.valid_set eight_le_bits, PageTableEntry.contains_union_V])]
    rfl
  . intro page' hpage' halign' _
    rw [hcreated.entry _ _ hpage'.own_path (VirtAddr.length_path page')]
    exact h.entry page' hpage' halign'
  . intro page' hpage' halign'
    rw [hcreated.frames page' hpage'.2.1]
    simp only [ExtTreeMap.getElem?_insert, Std.compare_eq_iff_eq, eq_comm (a := page')]
    split
    . rfl
    . exact h.frames page' hpage' halign'

theorem Represents.unmap {addr : VirtAddr arch} (h : Represents boot t m)
    (hallowed : Allowed boot t (.unmap addr))
    : Represents boot (t.unmap addr).2 (m.apply (.unmap addr)) := by
  obtain ⟨haddr, hok⟩ := hallowed
  have hpage := haddr.alignPageDown
  obtain ⟨ref, hfind, hwrite⟩ := unmap_ok hok
  have htree := tree_frames_erase h.tree hpage.2.1
  rw [hwrite]
  rw [find_eq] at hfind
  split at hfind
  . next base hbase =>
    simp only [Except.ok.injEq] at hfind
    subst hfind
    refine Represents.write (e := none) htree hpage alignPageDown_alignPageDown ?_ rfl ?_ ?_ ?_
    . exact hbase
    . simp
    . intro page' hpage' halign' _
      exact h.entry page' hpage' halign'
    . intro page' hpage' halign'
      simp only [ExtTreeMap.getElem?_erase, Std.compare_eq_iff_eq, eq_comm (a := page')]
      split
      . rfl
      . exact h.frames page' hpage' halign'
  . simp at hfind

theorem Represents.write_outside {base : VirtAddr arch} {i : Nat} {pte : PageTableEntry arch.bits}
    (h : Represents boot t m) (hallowed : Allowed boot t (.write base i pte))
    : Represents boot (t.write { base, index := i } pte) m := by
  have houtside : ∀ path, Own boot path → t.node path ≠ some base := by
    intro path hown hnode
    obtain ⟨frame, hget, heq, _⟩ := h.tree.held path base hown hnode
    exact hallowed frame hget heq
  constructor
  . exact h.tree.write_outside houtside
  . intro page hpage halign
    rw [entry_write_outside houtside hpage.own_path]
    exact h.entry page hpage halign
  . exact h.frames

theorem Represents.step {a : PagingAction arch} (h : Represents boot t m) (hallowed : Allowed boot t a)
    (hstep : t.step a = .next t')
    : Represents boot t' (m.apply a) := by
  cases a with
  | map addr frame perm answers =>
    simp only [PageTable.step, Outcome.next.injEq] at hstep
    subst hstep
    exact h.map hallowed
  | unmap addr =>
    simp only [PageTable.step, Outcome.next.injEq] at hstep
    subst hstep
    exact h.unmap hallowed
  | write base i pte =>
    simp only [PageTable.step, Outcome.next.injEq] at hstep
    subst hstep
    exact h.write_outside hallowed

theorem represents_new {mem : Memory arch} {answers : List (PhysFrame arch)}
    (h : new mem boot answers = .ok t) (hmem : ∀ frame ∈ answers, frame.addr.InMem)
    : Represents boot t .empty := by
  have htree := tree_new h hmem
  constructor
  . exact htree
  . intro page hpage _
    have hne : page.path ≠ [] := by
      apply List.ne_nil_of_length_pos
      rw [VirtAddr.length_path]
      cases arch <;> decide
    have hnode := node_new h hpage.own_path
    rw [if_neg hne] at hnode
    simp [entry, hnode, AddressSpace.empty]
  . intro page hpage _
    unfold new at h
    split at h
    . simp at h
    . next frame _ =>
      simp only [Except.ok.injEq] at h
      subst h
      have hne : frame.addr.toVirt ≠ page := by
        rintro rfl
        exact hpage.2.1 (PhysAddr.inDirectMap_toVirt (hmem frame (by simp)))
      simp [AddressSpace.empty, hne]

theorem represents_of_run {as : List (PagingAction arch)} (hrun : Run step (Allowed boot) t as t')
    (h : Represents boot t m)
    : Represents boot t' (as.foldl AddressSpace.apply m) := by
  induction hrun generalizing m with
  | nil => exact h
  | cons hallowed hstep _ ih => exact ih (h.step hallowed hstep)

/--
The results of `translate` and `lookup` for an address whose page is mapped as given.
-/
def TranslatesTo (t : PageTable arch) (addr : VirtAddr arch) (e : Option (PhysFrame arch × PagePerm))
    : Prop :=
  match e with
  | some (frame, perm) =>
    t.translate addr = .next (.ok (frame.addr + pageOffset addr, (perm ||| .V).touched)) ∧
      t.lookup addr = .next (.ok (frame, (perm ||| .V).touched)) ∧
      ∃ ref, t.find (alignPageDown addr) = .ok ref ∧ (t.read ref).physAddr = frame.addr
  | none =>
    t.translate addr = .next (.error .invalidVirtAddr) ∧
      t.lookup addr = .next (.error .invalidVirtAddr)

theorem TranslatesTo.translate_eq {addr : VirtAddr arch} {e : Option (PhysFrame arch × PagePerm)}
    (h : t.TranslatesTo addr e) (h' : t'.TranslatesTo addr e)
    : t.translate addr = t'.translate addr := by
  cases e with
  | none => rw [h.1, h'.1]
  | some e => rw [h.1, h'.1]

theorem entry_eq_some {path : List Nat} {i : Nat} {pte : PageTableEntry arch.bits}
    (h : t.entry path i = some pte)
    : ∃ base, t.node path = some base ∧ t.mem base i = pte := by
  unfold entry at h
  split at h
  . next base hbase =>
    split at h
    . exact ⟨base, hbase, by simpa using h⟩
    . simp at h
  . simp at h

theorem Represents.translatesTo {addr : VirtAddr arch} (h : Represents boot t m)
    (haddr : Eligible boot addr)
    : t.TranslatesTo addr (m (alignPageDown addr)) := by
  have hpage := haddr.alignPageDown
  have hentry := h.entry _ hpage alignPageDown_alignPageDown
  have hframe := h.frames _ hpage alignPageDown_alignPageDown
  have hlookup := t.lookup_eq addr
  rw [hentry, hframe] at hlookup
  cases hm : m (alignPageDown addr) with
  | none =>
    simp only [hm, Option.map_none] at hlookup
    exact ⟨by simp [translate, hlookup], hlookup⟩
  | some e =>
    obtain ⟨frame, perm⟩ := e
    simp only [hm, Option.map_some, PageTableEntry.perm_set eight_le_bits] at hlookup hentry
    obtain ⟨base, hnode, hpte⟩ := entry_eq_some hentry
    refine ⟨by simp [translate, hlookup], hlookup,
      { base, index := VirtAddr.leaf (alignPageDown addr) }, ?_, ?_⟩
    . rw [find_eq, hnode]
    . rw [read, hpte, PageTableEntry.physAddr_set, frame.aligned]

/--
After every sequence of successful calls, every eligible address is translated as the last call for its
page says. A step that is not a call for this page does not change it.
-/
theorem translate_of_run {mem : Memory arch} {answers : List (PhysFrame arch)} {t₀ : PageTable arch}
    {as : List (PagingAction arch)} {addr : VirtAddr arch} (hnew : new mem boot answers = .ok t₀)
    (hmem : ∀ frame ∈ answers, frame.addr.InMem) (hrun : Run step (Allowed boot) t₀ as t)
    (haddr : Eligible boot addr)
    : t.TranslatesTo addr (AddressSpace.after as (alignPageDown addr)) ∧
        ∀ a t', Allowed boot t a → t.step a = .next t' → a.page? ≠ some (alignPageDown addr) →
          t'.translate addr = t.translate addr := by
  have h : Represents boot t (AddressSpace.after as) := represents_of_run hrun (represents_new hnew hmem)
  refine ⟨h.translatesTo haddr, ?_⟩
  intro a t' hallowed hstep hpage
  have h' := (h.step hallowed hstep).translatesTo haddr
  rw [AddressSpace.apply_of_ne hpage] at h'
  exact h'.translate_eq (h.translatesTo haddr)

instance (t : PageTable arch) (answers : List (PhysFrame arch)) : Decidable (Fresh t answers) :=
  decidable_of_iff
    ((∀ frame ∈ answers, frame.addr.InMem) ∧ (answers.map PhysFrame.addr).Nodup ∧
      ∀ frame ∈ answers, ∀ e ∈ t.frames.toList, e.2.addr ≠ frame.addr)
    ⟨fun h => ⟨h.1, h.2.1, h.2.2⟩, fun h => ⟨h.inMem, h.nodup, h.live⟩⟩

instance (addr : VirtAddr arch) : Decidable (Eligible boot addr) :=
  inferInstanceAs (Decidable (_ ∧ _ ∧ _))

instance (t : PageTable arch) (a : PagingAction arch) : Decidable (Allowed boot t a) := by
  induction a using PagingAction.casesOn with
  | map addr frame perm answers => exact inferInstanceAs (Decidable (_ ∧ _ ∧ _))
  | unmap addr => exact inferInstanceAs (Decidable (_ ∧ _))
  | write base i pte => exact inferInstanceAs (Decidable (∀ frame ∈ t.frames[base]?, _))

def remapped (arch : Arch) (i : Nat) : PageTableEntry arch.bits :=
  -- The upper half of the boot page table after its initialization, the physical memory is mapped
  -- to the direct map by huge pages.
  let perm := PagePerm.G ||| PagePerm.X ||| PagePerm.W ||| PagePerm.R ||| PagePerm.V
  match arch with
  | .riscv32 =>
    if 512 ≤ i ∧ i < 768 then .set (BitVec.ofNat _ (0x80000000 + (i - 512) * 2 ^ 22)) perm else .clr
  | .riscv64 =>
    if 258 ≤ i ∧ i < 384 then .set (BitVec.ofNat _ (0x80000000 + (i - 258) * 2 ^ 30)) perm else .clr

def frameAt (arch : Arch) (addr : Nat) : PhysFrame arch where
  addr := alignPageDown (BitVec.ofNat _ addr)
  aligned := alignPageDown_alignPageDown

def rooted (frame : PhysFrame arch) : PageTable arch where
  root := frame.addr
  frames := (∅ : ExtTreeMap (VirtAddr arch) (PhysFrame arch)).insert frame.addr.toVirt frame
  mem := cloneKernel (zeroed (fun _ _ => .clr) frame) frame.addr.toVirt.asArrayBase (remapped arch)

def mapTwice (arch : Arch) : List (PagingAction arch) :=
  -- One frame is mapped to two pages, and then the first of them is unmapped.
  [.map 0x1000 (frameAt arch 0x80300000) (.G ||| .W ||| .R)
      [frameAt arch 0x80201000, frameAt arch 0x80202000],
    .map 0x2000 (frameAt arch 0x80300000) (.G ||| .W ||| .R) [], .unmap 0x1000]

def TranslatesSecond (arch : Arch) : Prop :=
  ∃ t, Run step (Allowed (remapped arch)) (rooted (frameAt arch 0x80200000)) (mapTwice arch) t ∧
    t.TranslatesTo 0x2008 (some (frameAt arch 0x80300000, .G ||| .W ||| .R)) ∧ t.TranslatesTo 0x1008 none

theorem translate_mapTwice : TranslatesSecond .riscv32 ∧ TranslatesSecond .riscv64 := by
  have hboth : ∀ arch, TranslatesSecond arch := by
    intro arch
    have hnew : new (fun _ _ => .clr) (remapped arch) [frameAt arch 0x80200000] =
        .ok (rooted (frameAt arch 0x80200000)) := rfl
    have hmem : ∀ frame ∈ [frameAt arch 0x80200000], frame.addr.InMem := by
      cases arch <;> decide +kernel
    obtain ⟨t, hrun, _⟩ := exists_run_of_exec (checked step (Allowed (remapped arch)))
      (rooted (frameAt arch 0x80200000)) (mapTwice arch) (fun _ => true)
      (by cases arch <;> decide +kernel)
    have hall (addr : VirtAddr arch) (haddr : Eligible (remapped arch) addr) :=
      (translate_of_run hnew hmem hrun.of_checked haddr).1
    have hsecond : AddressSpace.after (mapTwice arch) (alignPageDown 0x2008) =
        some (frameAt arch 0x80300000, .G ||| .W ||| .R) := by
      cases arch <;> decide +kernel
    have hfirst : AddressSpace.after (mapTwice arch) (alignPageDown 0x1008) = none := by
      cases arch <;> decide +kernel
    refine ⟨t, hrun.of_checked, ?_, ?_⟩
    . rw [← hsecond]
      exact hall 0x2008 (by cases arch <;> decide +kernel)
    . rw [← hfirst]
      exact hall 0x1008 (by cases arch <;> decide +kernel)
  exact ⟨hboth .riscv32, hboth .riscv64⟩

end PageTable

end Jrinx
