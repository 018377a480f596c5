import Jrinx.Paging.Boot
import Jrinx.Paging.Ownership
import Jrinx.StackAlloc.Uniform

/-!
This module contains the stacks of the executors: the callbacks of `EXECUTOR_STACK_ALLOCATOR` in
`multitask/src/executor.rs`, which map and unmap pages of the kernel page table. It shares the tables of
the boot page table below its root.
-/

namespace Jrinx

open Std

variable {arch : Arch}

structure VirtMemRegion where
  addr : Nat
  len : Nat
  deriving DecidableEq, Repr

def Arch.executorStackRegion (arch : Arch) : VirtMemRegion :=
  match arch with
  | .riscv32 => { addr := 0xE0000000, len := 0xF0000000 - 0xE0000000 }
  | .riscv64 => { addr := 0xFFFFFFE000000000, len := 0xFFFFFFFF00000000 - 0xFFFFFFE000000000 }

def executorStackSize : Nat := pageSize * 1024

-- `KERN_PAGE_TABLE` together with the frame allocator.
structure KernSpace (arch : Arch) where
  table : PageTable arch
  -- The tables of the boot page table, they are never given back.
  bootPages : List (PhysFrame arch)
  -- The frames that the allocator has for the calls of the mapper to come.
  answers : List (List (PhysFrame arch))

namespace KernSpace

/--
The allocator hands out frames that are not in use.
-/
def Grants (s : KernSpace arch) (page : VirtAddr arch) (frame : PhysFrame arch)
    (frames : List (PhysFrame arch)) : Prop :=
  PageTable.Fresh s.table [frame] ∧
    PageTable.Fresh { s.table with frames := s.table.frames.insert page frame } frames ∧
      ∀ f ∈ frame :: frames, f ∉ s.bootPages

instance (s : KernSpace arch) (page : VirtAddr arch) (frame : PhysFrame arch)
    (frames : List (PhysFrame arch)) : Decidable (s.Grants page frame frames) :=
  inferInstanceAs (Decidable (_ ∧ _ ∧ _))

def map (addr : Nat) (s : KernSpace arch) : Except InternalError Unit × KernSpace arch :=
  let addr : VirtAddr arch := BitVec.ofNat _ addr
  match s.answers with
  | [] => (.error .notEnoughMem, s)
  | [] :: answers => (.error .notEnoughMem, { s with answers })
  | (frame :: frames) :: answers =>
    -- An answer that is in use is none.
    if s.Grants (alignPageDown addr) frame frames then
      let t := { s.table with mem := PageTable.zeroed s.table.mem frame }
      let (result, table) := t.map addr frame (.G ||| .R ||| .W) frames
      (result, { s with table, answers })
    else
      (.error .notEnoughMem, { s with answers })

def unmap (addr : Nat) (s : KernSpace arch) : Except InternalError Unit × KernSpace arch :=
  let (result, table) := s.table.unmap (BitVec.ofNat _ addr)
  (result, { s with table })

def callbacks : StackAllocator.Callbacks (KernSpace arch) where
  map := map
  unmap := unmap

def Live (frames : ExtTreeMap (VirtAddr arch) (PhysFrame arch)) (bootPages : List (PhysFrame arch))
    (page : VirtAddr arch) : Prop :=
  (∃ frame, frames[page]? = some frame ∧ BootPageTable.base frame = page ∧ frame.addr.InMem) ∨
    ∃ frame ∈ bootPages, BootPageTable.base frame = page

/--
The tables of the kernel page table are held by it or belong to the boot page table.
-/
def Wf (s : KernSpace arch) : Prop :=
  RadixTree.Tree PageTable.next (BootPageTable.Own arch) s.table.mem s.table.root.toVirt.asArrayBase
    (Live s.table.frames s.bootPages)

/--
A call for a page leaves what all the other pages are translated to as it is.
-/
structure Changes (page : VirtAddr arch) (s s' : KernSpace arch) : Prop where
  wf : s'.Wf
  bootPages : s'.bootPages = s.bootPages
  entry : ∀ q k, BootPageTable.Own arch q → q.length = PageTable.depth arch →
    ¬ (q = page.path ∧ k = page.leaf) → s'.table.entry q k = s.table.entry q k

end KernSpace

namespace PageTable

theorem entry_eq_leaf (t : PageTable arch) (path : List Nat) (i : Nat)
    : t.entry path i = RadixTree.leaf next t.mem t.root.toVirt.asArrayBase path i := by
  rw [entry, RadixTree.leaf, node]
  cases RadixTree.walk next t.mem t.root.toVirt.asArrayBase path with
  | none => rfl
  | some base =>
    cases hvalid : (t.mem base i).valid with
    | true => simp [hvalid, next]
    | false => simp [hvalid, next]

theorem created_cons_valid {t : PageTable arch} {pa : PhysAddr arch} {i : Nat} {indexes : List Nat}
    {answers : List (PhysFrame arch)} (hne : indexes ≠ [])
    (hvalid : (t.mem pa.toVirt.asArrayBase i).valid = true)
    : findOrCreate.created t pa (i :: indexes) answers =
        findOrCreate.created t (t.mem pa.toVirt.asArrayBase i).physAddr indexes answers := by
  obtain ⟨k, rest, rfl⟩ := List.exists_cons_of_ne_nil hne
  exact if_pos hvalid

theorem created_cons_nil {t : PageTable arch} {pa : PhysAddr arch} {i : Nat} {indexes : List Nat}
    (hne : indexes ≠ []) (hinvalid : (t.mem pa.toVirt.asArrayBase i).valid = false)
    : findOrCreate.created t pa (i :: indexes) [] = [] := by
  obtain ⟨k, rest, rfl⟩ := List.exists_cons_of_ne_nil hne
  exact if_neg (ne_true_of_eq_false hinvalid)

theorem created_cons_create {t : PageTable arch} {pa : PhysAddr arch} {i : Nat} {indexes : List Nat}
    {frame : PhysFrame arch} {answers : List (PhysFrame arch)} (hne : indexes ≠ [])
    (hinvalid : (t.mem pa.toVirt.asArrayBase i).valid = false)
    : findOrCreate.created t pa (i :: indexes) (frame :: answers) =
        frame :: findOrCreate.created (t.create { base := pa.toVirt.asArrayBase, index := i } frame)
          frame.addr indexes answers := by
  obtain ⟨k, rest, rfl⟩ := List.exists_cons_of_ne_nil hne
  have haddr : ((t.create { base := pa.toVirt.asArrayBase, index := i } frame).read
      { base := pa.toVirt.asArrayBase, index := i }).physAddr = frame.addr := by
    simp [create, PageTable.write, read, frame.aligned]
  calc
    findOrCreate.created t pa (i :: k :: rest) (frame :: answers) = _ :=
      if_neg (ne_true_of_eq_false hinvalid)
    _ = _ := by rw [haddr]

-- `find_or_create` is the growth of the tree along a path.
theorem findOrCreate_go_grow (t : PageTable arch) (pa : PhysAddr arch) (path : List Nat) (i : Nat)
    (answers : List (PhysFrame arch))
    : (findOrCreate.go t pa (path ++ [i]) answers).1 =
          (match (BootPageTable.grow t.mem pa.toVirt.asArrayBase path answers).page with
          | some base => .ok { base, index := i }
          | none => .error .notEnoughMem) ∧
        (findOrCreate.go t pa (path ++ [i]) answers).2.root = t.root ∧
        (findOrCreate.go t pa (path ++ [i]) answers).2.mem =
          (BootPageTable.grow t.mem pa.toVirt.asArrayBase path answers).mem ∧
        findOrCreate.created t pa (path ++ [i]) answers =
          (BootPageTable.grow t.mem pa.toVirt.asArrayBase path answers).created := by
  induction path generalizing t pa answers with
  | nil => exact ⟨rfl, rfl, rfl, rfl⟩
  | cons k path ih =>
    have hne : path ++ [i] ≠ [] := by simp
    rw [List.cons_append, BootPageTable.grow]
    cases hvalid : (t.mem pa.toVirt.asArrayBase k).valid with
    | true =>
      have hnext : next (t.mem pa.toVirt.asArrayBase k)
          =
        some (PhysAddr.toVirt (t.mem pa.toVirt.asArrayBase k).physAddr).asArrayBase := by
        simp [next, hvalid]
      rw [findOrCreate_go_valid hne hvalid, created_cons_valid hne hvalid, RadixTree.grow_some hnext]
      exact ih t _ answers
    | false =>
      have hnext := next_eq_none hvalid
      cases answers with
      | nil =>
        rw [findOrCreate_go_nil hne hvalid, created_cons_nil hne hvalid, RadixTree.grow_nil hnext]
        exact ⟨rfl, rfl, rfl, rfl⟩
      | cons frame answers =>
        rw [findOrCreate_go_create hne hvalid, created_cons_create hne hvalid, RadixTree.grow_none hnext]
        obtain ⟨hresult, hroot, hmem, hcreated⟩ :=
          ih (t.create { base := pa.toVirt.asArrayBase, index := k } frame) frame.addr answers
        rw [asArrayBase_frame] at hresult hmem hcreated
        exact ⟨hresult, hroot, hmem, by rw [hcreated]; rfl⟩

theorem created_subset {t : PageTable arch} {page : VirtAddr arch} {answers : List (PhysFrame arch)}
    {frame : PhysFrame arch} (h : frame ∈ findOrCreate.created t t.root page.indexes answers)
    : frame ∈ answers := by
  rw [VirtAddr.indexes_eq_path_leaf, (findOrCreate_go_grow t t.root page.path page.leaf answers).2.2.2] at h
  exact (RadixTree.created_prefix _ _ _ _).subset h

end PageTable

namespace KernSpace

open BootPageTable (Own)

variable {s : KernSpace arch} {page : VirtAddr arch} {bootPages : List (PhysFrame arch)}
  {frames frames' : ExtTreeMap (VirtAddr arch) (PhysFrame arch)}

theorem Live.of_frames (h : ∀ page : VirtAddr arch, page.InDirectMap → frames'[page]? = frames[page]?)
    {page : VirtAddr arch} (hlive : Live frames bootPages page)
    : Live frames' bootPages page := by
  rcases hlive with ⟨frame, hget, rfl, hmem⟩ | hboot
  . refine .inl ⟨frame, ?_, rfl, hmem⟩
    rw [h (BootPageTable.base frame) (PhysAddr.inDirectMap_toVirt hmem)]
    exact hget
  . exact .inr hboot

theorem Live.insert (hpage : ¬ page.InDirectMap) (frame : PhysFrame arch) {page' : VirtAddr arch}
    (hlive : Live frames bootPages page')
    : Live (frames.insert page frame) bootPages page' := by
  apply hlive.of_frames
  intro addr haddr
  have hne : page ≠ addr := by
    rintro rfl
    exact hpage haddr
  simp [ExtTreeMap.getElem?_insert, hne]

theorem Live.erase (hpage : ¬ page.InDirectMap) {page' : VirtAddr arch}
    (hlive : Live frames bootPages page')
    : Live (frames.erase page) bootPages page' := by
  apply hlive.of_frames
  intro addr haddr
  have hne : page ≠ addr := by
    rintro rfl
    exact hpage haddr
  simp [ExtTreeMap.getElem?_erase, hne]

theorem not_live_of_fresh {t : PageTable arch} {answers : List (PhysFrame arch)}
    (hfresh : PageTable.Fresh t answers) (hboot : ∀ f ∈ answers, f ∉ bootPages) {frame : PhysFrame arch}
    (hframe : frame ∈ answers)
    : ¬ Live t.frames bootPages (BootPageTable.base frame) := by
  rintro (⟨held, hget, heq, _⟩ | ⟨held, hheld, heq⟩)
  . have hmem := ExtTreeMap.mem_toList_iff_getElem?_eq_some.mpr hget
    exact hfresh.live frame hframe _ hmem (by rw [BootPageTable.base_inj heq])
  . rw [BootPageTable.base_inj heq] at hheld
    exact hboot frame hframe hheld

theorem free_of_fresh {t : PageTable arch} {answers : List (PhysFrame arch)}
    (hfresh : PageTable.Fresh t answers) (hboot : ∀ f ∈ answers, f ∉ bootPages)
    : RadixTree.Free BootPageTable.base (Live t.frames bootPages) answers := by
  constructor
  case nodup => exact BootPageTable.nodup_base (List.Nodup.of_map _ hfresh.nodup)
  case fresh => exact fun frame hframe => not_live_of_fresh hfresh hboot hframe

theorem live_findOrCreate {t : PageTable arch} {answers : List (PhysFrame arch)} {page' : VirtAddr arch}
    (hfresh : PageTable.Fresh t answers)
    (hlive : Live t.frames bootPages page' ∨
      ∃ frame ∈ PageTable.findOrCreate.created t t.root page.indexes answers,
        BootPageTable.base frame = page')
    : Live (t.findOrCreate page answers).2.frames bootPages page' := by
  obtain ⟨hcreated, hkept⟩ := PageTable.frames_findOrCreate t t.root page.indexes answers
  by_cases hnew : ∃ frame ∈ PageTable.findOrCreate.created t t.root page.indexes answers,
      BootPageTable.base frame = page'
  . obtain ⟨frame, hframe, rfl⟩ := hnew
    exact .inl ⟨frame, hcreated frame hframe, rfl, hfresh.inMem frame (PageTable.created_subset hframe)⟩
  . rcases hlive.resolve_right hnew with ⟨frame, hget, heq, hmem⟩ | hboot
    . refine .inl ⟨frame, ?_, heq, hmem⟩
      rw [PageTable.findOrCreate, hkept page']
      . exact hget
      . intro frame' hframe' heq'
        exact hnew ⟨frame', hframe', heq'⟩
    . exact .inr hboot

theorem findOrCreate_spec {t : PageTable arch} {answers : List (PhysFrame arch)}
    (htree : RadixTree.Tree PageTable.next (Own arch) t.mem t.root.toVirt.asArrayBase
      (Live t.frames bootPages))
    (hfresh : PageTable.Fresh t answers) (hboot : ∀ f ∈ answers, f ∉ bootPages) (hown : Own arch page.path)
    : (t.findOrCreate page answers).2.root = t.root ∧
        RadixTree.Tree PageTable.next (Own arch) (t.findOrCreate page answers).2.mem
          t.root.toVirt.asArrayBase (Live (t.findOrCreate page answers).2.frames bootPages) ∧
        (∀ q k, Own arch q → q.length = PageTable.depth arch →
          RadixTree.leaf PageTable.next (t.findOrCreate page answers).2.mem t.root.toVirt.asArrayBase q k =
            RadixTree.leaf PageTable.next t.mem t.root.toVirt.asArrayBase q k) ∧
        ∀ ref, (t.findOrCreate page answers).1 = .ok ref →
          RadixTree.walk PageTable.next (t.findOrCreate page answers).2.mem t.root.toVirt.asArrayBase
              page.path = some ref.base ∧
            ref.index = page.leaf := by
  obtain ⟨hresult, hroot, hmem, hcreated⟩ :=
    PageTable.findOrCreate_go_grow t t.root page.path page.leaf answers
  obtain ⟨hgrows, hpage⟩ := BootPageTable.grow_spec htree (free_of_fresh hfresh hboot) hown
  rw [← VirtAddr.indexes_eq_path_leaf] at hresult hroot hmem hcreated
  rw [PageTable.findOrCreate, hmem]
  refine ⟨hroot, ?_, ?_, ?_⟩
  . apply hgrows.tree.mono
    intro page' hlive
    rw [← hcreated] at hlive
    exact live_findOrCreate hfresh hlive
  . intro q k hq hlen
    exact hgrows.leaf q k hq (BootPageTable.not_own_of_depth hlen)
  . intro ref href
    rw [hresult] at href
    split at href
    next base hbase =>
      obtain rfl := Except.ok.inj href
      exact ⟨hpage base hbase, rfl⟩
    next => simp at href

theorem Changes.refl (h : s.Wf) (page : VirtAddr arch) (answers : List (List (PhysFrame arch)))
    : Changes page s { s with answers } :=
  ⟨h, rfl, fun _ _ _ _ _ => rfl⟩

theorem Changes.of_leaf {s' : KernSpace arch} (hboot : s'.bootPages = s.bootPages)
    (hroot : s'.table.root = s.table.root)
    (htree : RadixTree.Tree PageTable.next (Own arch) s'.table.mem s.table.root.toVirt.asArrayBase
      (Live s'.table.frames s.bootPages))
    (hleaf : ∀ q k, Own arch q → q.length = PageTable.depth arch → ¬ (q = page.path ∧ k = page.leaf) →
      RadixTree.leaf PageTable.next s'.table.mem s.table.root.toVirt.asArrayBase q k =
        RadixTree.leaf PageTable.next s.table.mem s.table.root.toVirt.asArrayBase q k)
    : Changes page s s' := by
  refine ⟨?_, hboot, ?_⟩
  . rw [Wf, hroot, hboot]
    exact htree
  . intro q k hq hlen hne
    rw [PageTable.entry_eq_leaf, PageTable.entry_eq_leaf, hroot]
    exact hleaf q k hq hlen hne

theorem map_table_spec {t : PageTable arch} {addr : VirtAddr arch} {frame : PhysFrame arch}
    (perm : PagePerm) {answers : List (PhysFrame arch)}
    (htree : RadixTree.Tree PageTable.next (Own arch) t.mem t.root.toVirt.asArrayBase
      (Live t.frames bootPages))
    (hpage : ¬ VirtAddr.InDirectMap (alignPageDown addr))
    (hfresh : PageTable.Fresh { t with frames := t.frames.insert (alignPageDown addr) frame } answers)
    (hboot : ∀ f ∈ answers, f ∉ bootPages) (hown : Own arch (VirtAddr.path (alignPageDown addr)))
    : (t.map addr frame perm answers).2.root = t.root ∧
        RadixTree.Tree PageTable.next (Own arch) (t.map addr frame perm answers).2.mem
          t.root.toVirt.asArrayBase (Live (t.map addr frame perm answers).2.frames bootPages) ∧
        ∀ q k, Own arch q → q.length = PageTable.depth arch →
          ¬ (q = VirtAddr.path (alignPageDown addr) ∧ k = VirtAddr.leaf (alignPageDown addr)) →
          RadixTree.leaf PageTable.next (t.map addr frame perm answers).2.mem t.root.toVirt.asArrayBase q k =
            RadixTree.leaf PageTable.next t.mem t.root.toVirt.asArrayBase q k := by
  rw [PageTable.map]
  generalize alignPageDown addr = page at hpage hfresh hown ⊢
  have hheld : RadixTree.Tree PageTable.next (Own arch)
      { t with frames := t.frames.insert page frame }.mem
      { t with frames := t.frames.insert page frame }.root.toVirt.asArrayBase
      (Live { t with frames := t.frames.insert page frame }.frames bootPages) :=
    htree.mono fun _ hlive => hlive.insert hpage frame
  obtain ⟨hroot, htree', hleaf, href⟩ := findOrCreate_spec hheld hfresh hboot hown
  split
  next ref t' heq =>
    rw [heq] at hroot htree' hleaf href
    obtain ⟨hwalk, hindex⟩ := href ref rfl
    have hbottom := BootPageTable.not_own_of_depth (VirtAddr.length_path page)
    refine ⟨hroot, htree'.store_leaf BootPageTable.own_closed hown hbottom hwalk, ?_⟩
    intro q k hq hlen hne
    rw [← hleaf q k hq hlen]
    apply RadixTree.leaf_store BootPageTable.own_closed htree' hown hbottom hwalk hq
    rw [hindex]
    exact hne
  next t' heq =>
    rw [heq] at hroot htree' hleaf
    exact ⟨hroot, htree', fun q k hq hlen _ => hleaf q k hq hlen⟩

theorem Wf.map {addr : Nat} (h : s.Wf)
    (hpage : ¬ VirtAddr.InDirectMap (alignPageDown (BitVec.ofNat arch.bits addr)))
    (hown : Own arch (VirtAddr.path (alignPageDown (BitVec.ofNat arch.bits addr))))
    : Changes (alignPageDown (BitVec.ofNat arch.bits addr)) s (s.map addr).2 := by
  rw [KernSpace.map]
  split
  next => exact .refl h _ s.answers
  next answers _ => exact .refl h _ answers
  next frame frames answers _ =>
    split
    next hgrants =>
      obtain ⟨hfresh, hfreshTables, hboot⟩ := hgrants
      have hdead : ¬ Live s.table.frames s.bootPages (BootPageTable.base frame) :=
        not_live_of_fresh hfresh (by simpa using hboot frame (by simp)) (by simp)
      -- the memory of the frame is cleared
      have hwalk (q : List Nat) (hq : Own arch q)
          : RadixTree.walk PageTable.next (PageTable.zeroed s.table.mem frame)
              s.table.root.toVirt.asArrayBase q =
            RadixTree.walk PageTable.next s.table.mem s.table.root.toVirt.asArrayBase q :=
        RadixTree.walk_fill BootPageTable.own_closed h hdead hq
      have hcleared : RadixTree.Tree PageTable.next (Own arch)
          { s.table with mem := PageTable.zeroed s.table.mem frame }.mem
          { s.table with mem := PageTable.zeroed s.table.mem frame }.root.toVirt.asArrayBase
          (Live { s.table with mem := PageTable.zeroed s.table.mem frame }.frames s.bootPages) :=
        RadixTree.Tree.congr h hwalk
      obtain ⟨hroot, htree, hleaf⟩ := map_table_spec (.G ||| .R ||| .W) hcleared hpage
        ⟨hfreshTables.inMem, hfreshTables.nodup, hfreshTables.live⟩ (fun f hf => hboot f (by simp [hf]))
        hown
      refine .of_leaf rfl hroot htree ?_
      intro q k hq hlen hne
      dsimp only
      rw [hleaf q k hq hlen hne]
      exact RadixTree.leaf_fill BootPageTable.own_closed h hdead hq
    next => exact .refl h _ answers

theorem Wf.unmap {addr : Nat} (h : s.Wf)
    (hpage : ¬ VirtAddr.InDirectMap (alignPageDown (BitVec.ofNat arch.bits addr)))
    (hown : Own arch (VirtAddr.path (alignPageDown (BitVec.ofNat arch.bits addr))))
    : Changes (alignPageDown (BitVec.ofNat arch.bits addr)) s (s.unmap addr).2 := by
  rw [KernSpace.unmap, PageTable.unmap]
  generalize hp : alignPageDown (BitVec.ofNat arch.bits addr) = page at hpage hown ⊢
  have htree := h.mono fun _ hlive => hlive.erase hpage
  dsimp only
  split
  next =>
    rw [PageTable.find_eq]
    split
    next ref hfind =>
      split at hfind
      next base hbase =>
        obtain rfl := Except.ok.inj hfind
        have hbottom := BootPageTable.not_own_of_depth (VirtAddr.length_path page)
        refine .of_leaf rfl rfl ?_ ?_
        . exact htree.store_leaf BootPageTable.own_closed hown hbottom hbase
        . intro q k hq _ hne
          exact RadixTree.leaf_store BootPageTable.own_closed h hown hbottom hbase hq hne
      next => simp at hfind
    next => exact .of_leaf rfl rfl htree (fun _ _ _ _ _ => rfl)
  next => exact ⟨h, rfl, fun _ _ _ _ _ => rfl⟩

section New

variable {b : BootPageTable arch} {pages : List (PhysFrame arch)} {frame : PhysFrame arch}
  {t : PageTable arch}

theorem walk_new (hboot : b.Wf pages) (hframe : frame ∉ b.root :: pages)
    (hnew : PageTable.new b.mem b.entries [frame] = .ok t) {i : Nat} {path : List Nat}
    (hown : Own arch (i :: path))
    : RadixTree.walk PageTable.next t.mem (BootPageTable.base frame) (i :: path) =
        if arch.pageEntries / 2 ≤ i ∧ i < arch.pageEntries then
          RadixTree.walk PageTable.next b.mem (BootPageTable.base b.root) (i :: path)
        else
          none := by
  obtain ⟨_, _, hsame, hroot⟩ := BootPageTable.mem_new hnew
  have hlive := hboot.live
  induction path using List.reverseRecOn with
  | nil =>
    rw [RadixTree.walk_singleton, RadixTree.walk_singleton, hroot]
    split
    . rfl
    . exact PageTable.next_clr
  | append_singleton path k ih =>
    have hprev : Own arch (i :: path) := BootPageTable.own_closed (i :: path) k hown
    rw [← List.cons_append, RadixTree.walk_concat, RadixTree.walk_concat, ih hprev]
    split
    . cases hwalk : RadixTree.walk PageTable.next b.mem (BootPageTable.base b.root) (i :: path) with
      | none => rfl
      | some page =>
        have hne : page ≠ BootPageTable.base frame := by
          rintro rfl
          obtain ⟨node, hnode, heq⟩ := hlive (i :: path) _ hprev hwalk
          rw [BootPageTable.base_inj heq] at hnode
          exact hframe hnode
        simp only [Option.bind_some, hsame page k hne]
    . rfl

theorem wf_new (hboot : b.Wf pages) (hframe : frame ∉ b.root :: pages) (hmem : frame.addr.InMem)
    (hnew : PageTable.new b.mem b.entries [frame] = .ok t) (answers : List (List (PhysFrame arch)))
    : Wf { table := t, bootPages := b.root :: pages, answers } := by
  obtain ⟨hroot, hget, _, _⟩ := BootPageTable.mem_new hnew
  -- all tables but the root are those of the boot page table
  have hbelow {i : Nat} {path : List Nat} {page : VirtAddr arch} (hown : Own arch (i :: path))
      (hwalk : RadixTree.walk PageTable.next t.mem (BootPageTable.base frame) (i :: path) = some page)
      : RadixTree.walk PageTable.next b.mem (BootPageTable.base b.root) (i :: path) = some page := by
    rw [walk_new hboot hframe hnew hown] at hwalk
    split at hwalk
    . exact hwalk
    . simp at hwalk
  have hother {i : Nat} {path : List Nat} (hown : Own arch (i :: path))
      : RadixTree.walk PageTable.next t.mem (BootPageTable.base frame) (i :: path) ≠
          some (BootPageTable.base frame) := by
    intro hwalk
    obtain ⟨node, hnode, heq⟩ := hboot.live _ _ hown (hbelow hown hwalk)
    rw [BootPageTable.base_inj heq] at hnode
    exact hframe hnode
  rw [Wf]
  dsimp only
  rw [hroot]
  constructor
  case unshared =>
    intro p q page hp hq hwp hwq
    cases p with
    | nil =>
      obtain rfl := Option.some.inj hwp
      cases q with
      | nil => rfl
      | cons k q => exact absurd hwq (hother hq)
    | cons i p =>
      cases q with
      | nil =>
        obtain rfl := Option.some.inj hwq
        exact absurd hwp (hother hp)
      | cons k q => exact hboot.unshared _ _ page hp hq (hbelow hp hwp) (hbelow hq hwq)
  case live =>
    intro q page hq hwq
    cases q with
    | nil =>
      obtain rfl := Option.some.inj hwq
      exact .inl ⟨frame, hget, rfl, hmem⟩
    | cons k q => exact .inr (hboot.live _ _ hq (hbelow hq hwq))

end New

end KernSpace

end Jrinx
