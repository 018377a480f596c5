import Jrinx.Driver.StackWindow
import Jrinx.Paging.BootMapping
import Jrinx.StackAlloc.Backing

/-!
This module contains what the callbacks of the stacks of the executors do to the kernel page table. They put a
frame behind the page they are called for, which no other page and no table has, or they take it away.
-/

namespace Jrinx

open Std

variable {arch : Arch}

namespace PageTable

theorem unmap_cases (t : PageTable arch) (addr : VirtAddr arch)
    : t.frames[alignPageDown addr]? = none ∧ t.unmap addr = (.error .invalidVirtAddr, t) ∨
        (∃ base, RadixTree.walk next t.mem t.root.toVirt.asArrayBase (VirtAddr.path (alignPageDown addr)) =
            some base ∧
          (t.unmap addr).2 =
            {
              t with
              frames := t.frames.erase (alignPageDown addr)
              mem := RadixTree.store t.mem base (VirtAddr.leaf (alignPageDown addr)) .clr
            }) ∨
        RadixTree.walk next t.mem t.root.toVirt.asArrayBase (VirtAddr.path (alignPageDown addr)) = none ∧
          (t.unmap addr).2 = { t with frames := t.frames.erase (alignPageDown addr) } := by
  rw [unmap]
  generalize alignPageDown addr = page
  dsimp only
  split
  next hmem =>
    right
    rw [find_eq, node]
    dsimp only
    cases hwalk : RadixTree.walk next t.mem t.root.toVirt.asArrayBase (VirtAddr.path page) with
    | some base => exact .inl ⟨base, rfl, rfl⟩
    | none => exact .inr ⟨rfl, rfl⟩
  next hmem => exact .inl ⟨ExtTreeMap.getElem?_eq_none hmem, rfl⟩

end PageTable

namespace KernSpace

open BootPageTable (Own)

variable {s s' : KernSpace arch} {page : VirtAddr arch} {bootPages : List (PhysFrame arch)}

def stackEntry (frame : PhysFrame arch) : PageTableEntry arch.bits := .set frame.addr (.G ||| .R ||| .W ||| .V)

def stackPage (arch : Arch) (addr : Nat) : VirtAddr arch := alignPageDown (BitVec.ofNat arch.bits addr)

def view (s : KernSpace arch) (addr : Nat) : Option (PhysFrame arch) :=
  (s.table.entry (stackPage arch addr).path (stackPage arch addr).leaf).bind fun _ =>
    s.table.frames[stackPage arch addr]?

def Unshared (t : PageTable arch) : Prop :=
  ∀ (p q : VirtAddr arch) (f : PhysFrame arch), t.frames[p]? = some f → t.frames[q]? = some f → p = q

/--
The frames that are held are different from each other and from the pages of the boot page table, and the
hardware walks the same tables as the software.
-/
structure Sole (s : KernSpace arch) : Prop where
  wf : s.Wf
  linked : RadixTree.Linked PageTable.next (Own arch) Mmu.Link s.table.mem s.table.root.toVirt
  root : s.table.root.toVirt.asArrayBase = s.table.root.toVirt
  unshared : Unshared s.table
  held : ∀ (p : VirtAddr arch) (f : PhysFrame arch), s.table.frames[p]? = some f →
    f.addr.InMem ∧ f ∉ s.bootPages

def IsPage (arch : Arch) (addr : Nat) : Prop :=
  StackAllocator.IsPage (arch.executorStackRegion.addr, arch.executorStackRegion.len) executorStackSize
    executorStackSize addr

/--
What is mapped at the pages of the stacks are the frames that are held for them.
-/
structure Stacked (s : KernSpace arch) : Prop extends Sole s where
  entry : ∀ addr, IsPage arch addr →
    ∀ pte, s.table.entry (stackPage arch addr).path (stackPage arch addr).leaf = some pte →
      ∃ frame, s.table.frames[stackPage arch addr]? = some frame ∧ pte = stackEntry frame

section Entry

theorem perm_stackEntry (frame : PhysFrame arch)
    : (stackEntry frame).perm = (PagePerm.G ||| .R ||| .W ||| .V).touched :=
  PageTableEntry.perm_set PageTable.eight_le_bits _ _

theorem next_stackEntry (frame : PhysFrame arch) : (PageTable.next (stackEntry frame)).isSome = true := by
  have hvalid : (stackEntry frame).valid = true := by
    rw [PageTableEntry.valid, perm_stackEntry]
    decide
  simp [PageTable.next, hvalid]

theorem last_stackEntry {frame : PhysFrame arch} (h : frame.addr.InMem) (addr : VirtAddr arch)
    : Mmu.last addr 12 (stackEntry frame) = some (frame.addr.toNat + addr.toNat % pageSize) := by
  have hperm := perm_stackEntry frame
  have hframe : (stackEntry frame).frame = frame.addr.toNat := by
    rw [stackEntry, PageTableEntry.frame_set, frame.aligned]
  have hlimit : arch.physMemLimit ≤ 2 ^ arch.physBits := by
    cases arch <;> decide
  have haccepted : (stackEntry frame).Accepted := by
    refine ⟨?_, ?_, ?_⟩
    . rw [PageTableEntry.valid, hperm]
      decide
    . rw [hperm]
      decide
    . rw [hframe]
      exact Nat.lt_of_lt_of_le h.2 hlimit
  have hleaf : (stackEntry frame).isLeaf = true := by
    rw [PageTableEntry.isLeaf, hperm]
    decide
  have haligned : frame.addr.toNat % 2 ^ 12 = 0 := by
    rw [← frame.aligned, toNat_alignPageDown]
    exact Nat.mul_mod_left _ _
  rw [Mmu.last, hframe, if_pos ⟨haccepted, hleaf, haligned⟩]
  rfl

end Entry

section Table

variable {t : PageTable arch}

theorem linked_findOrCreate {answers : List (PhysFrame arch)}
    (htree : RadixTree.Tree PageTable.next (Own arch) t.mem t.root.toVirt.asArrayBase (Live t.frames bootPages))
    (hlinked : RadixTree.Linked PageTable.next (Own arch) Mmu.Link t.mem t.root.toVirt.asArrayBase)
    (hfresh : PageTable.Fresh t answers) (hboot : ∀ f ∈ answers, f ∉ bootPages) (hown : Own arch page.path)
    : RadixTree.Linked PageTable.next (Own arch) Mmu.Link (t.findOrCreate page answers).2.mem
        t.root.toVirt.asArrayBase := by
  obtain ⟨_, _, hmem, _⟩ := PageTable.findOrCreate_go_grow t t.root page.path page.leaf answers
  rw [← VirtAddr.indexes_eq_path_leaf] at hmem
  rw [PageTable.findOrCreate, hmem]
  exact hlinked.grow BootPageTable.own_closed PageTable.next_clr PageTable.next_set [] htree
    (free_of_fresh hfresh hboot) (fun f hf => Mmu.table_link f (hfresh.inMem f hf)) hown rfl

theorem own_nil {path : List Nat} (hown : Own arch path) : Own arch [] :=
  BootPageTable.own_closed.of_append (p := []) (q := path) hown

theorem base_ne_root {mem : Memory arch} {root base : VirtAddr arch}
    (hunshared : RadixTree.Unshared PageTable.next (Own arch) mem root) (hown : Own arch page.path)
    (hwalk : RadixTree.walk PageTable.next mem root page.path = some base)
    : base ≠ root := by
  rintro rfl
  exact VirtAddr.path_ne_nil page (hunshared page.path [] _ hown (own_nil hown) hwalk rfl)

theorem map_table_root {addr : VirtAddr arch} {frame : PhysFrame arch} {perm : PagePerm}
    {answers : List (PhysFrame arch)} {k : Nat}
    (htree : RadixTree.Tree PageTable.next (Own arch) t.mem t.root.toVirt.asArrayBase (Live t.frames bootPages))
    (hpage : ¬ VirtAddr.InDirectMap (alignPageDown addr))
    (hfresh : PageTable.Fresh { t with frames := t.frames.insert (alignPageDown addr) frame } answers)
    (hboot : ∀ f ∈ answers, f ∉ bootPages) (hown : Own arch (VirtAddr.path (alignPageDown addr)))
    (hk : BootPageTable.Remapped arch k)
    : (t.map addr frame perm answers).2.mem t.root.toVirt.asArrayBase k =
        t.mem t.root.toVirt.asArrayBase k := by
  rw [PageTable.map]
  generalize alignPageDown addr = page at hpage hfresh hown ⊢
  have hheld : RadixTree.Tree PageTable.next (Own arch)
      { t with frames := t.frames.insert page frame }.mem
      { t with frames := t.frames.insert page frame }.root.toVirt.asArrayBase
      (Live { t with frames := t.frames.insert page frame }.frames bootPages) :=
    htree.mono fun _ hlive => hlive.insert hpage frame
  have hslot : ¬ Own arch [k] := fun h => h.2 k (by simp) hk
  obtain ⟨_, htree', _, href⟩ := findOrCreate_spec hheld hfresh hboot hown
  obtain ⟨_, _, hmem, _⟩ := PageTable.findOrCreate_go_grow
    { t with frames := t.frames.insert page frame } t.root (VirtAddr.path page) (VirtAddr.leaf page) answers
  rw [← VirtAddr.indexes_eq_path_leaf] at hmem
  have hgrown := RadixTree.grow_root BootPageTable.own_closed PageTable.next_clr PageTable.next_set [] hheld
    (free_of_fresh hfresh hboot) hown rfl hslot
  have hkept : (PageTable.findOrCreate { t with frames := t.frames.insert page frame } page answers).2.mem
      t.root.toVirt.asArrayBase k = t.mem t.root.toVirt.asArrayBase k := by
    rw [PageTable.findOrCreate, hmem]
    exact hgrown
  split
  next ref t' heq =>
    rw [heq] at htree' href hkept
    obtain ⟨hwalk, _⟩ := href ref rfl
    dsimp only [PageTable.write]
    rw [RadixTree.store_of_ne fun hsame => base_ne_root htree'.unshared hown hwalk hsame.1.symm]
    exact hkept
  next t' heq =>
    rw [heq] at hkept
    exact hkept

theorem map_table_leaf {addr : VirtAddr arch} {frame : PhysFrame arch} {perm : PagePerm}
    {answers : List (PhysFrame arch)}
    (hnext : (PageTable.next (.set frame.addr (perm ||| .V) : PageTableEntry arch.bits)).isSome = true)
    (htree : RadixTree.Tree PageTable.next (Own arch) t.mem t.root.toVirt.asArrayBase (Live t.frames bootPages))
    (hlinked : RadixTree.Linked PageTable.next (Own arch) Mmu.Link t.mem t.root.toVirt.asArrayBase)
    (hpage : ¬ VirtAddr.InDirectMap (alignPageDown addr))
    (hfresh : PageTable.Fresh { t with frames := t.frames.insert (alignPageDown addr) frame } answers)
    (hboot : ∀ f ∈ answers, f ∉ bootPages) (hown : Own arch (VirtAddr.path (alignPageDown addr)))
    : RadixTree.Linked PageTable.next (Own arch) Mmu.Link (t.map addr frame perm answers).2.mem
          t.root.toVirt.asArrayBase ∧
        RadixTree.leaf PageTable.next (t.map addr frame perm answers).2.mem t.root.toVirt.asArrayBase
            (VirtAddr.path (alignPageDown addr)) (VirtAddr.leaf (alignPageDown addr)) =
          if (t.map addr frame perm answers).1.isOk then
            some (.set frame.addr (perm ||| .V))
          else
            RadixTree.leaf PageTable.next t.mem t.root.toVirt.asArrayBase (VirtAddr.path (alignPageDown addr))
              (VirtAddr.leaf (alignPageDown addr)) := by
  rw [PageTable.map]
  generalize alignPageDown addr = page at hpage hfresh hown ⊢
  have hheld : RadixTree.Tree PageTable.next (Own arch)
      { t with frames := t.frames.insert page frame }.mem
      { t with frames := t.frames.insert page frame }.root.toVirt.asArrayBase
      (Live { t with frames := t.frames.insert page frame }.frames bootPages) :=
    htree.mono fun _ hlive => hlive.insert hpage frame
  obtain ⟨hroot, htree', hleaf, href⟩ := findOrCreate_spec hheld hfresh hboot hown
  have hlinked' := linked_findOrCreate hheld hlinked hfresh hboot hown
  have hbottom := BootPageTable.not_own_of_depth (VirtAddr.length_path page)
  split
  next ref t' heq =>
    rw [heq] at htree' hlinked' href
    obtain ⟨hwalk, hindex⟩ := href ref rfl
    refine ⟨hlinked'.store_leaf BootPageTable.own_closed htree' hown hbottom hwalk, ?_⟩
    have hstored := RadixTree.walk_store_bottom BootPageTable.own_closed htree'.unshared hown hwalk hbottom
      (j := VirtAddr.leaf page) (w := .set frame.addr (perm ||| .V)) hown
    dsimp only [PageTable.write]
    rw [hindex, RadixTree.leaf_store_self (hstored.trans hwalk), if_pos hnext]
    rfl
  next t' heq =>
    rw [heq] at hlinked' hleaf
    exact ⟨hlinked', hleaf _ _ hown (VirtAddr.length_path page)⟩

end Table

section Frames

variable {t : PageTable arch} {addr p q : VirtAddr arch} {frame f : PhysFrame arch} {perm : PagePerm}
  {answers : List (PhysFrame arch)}

-- Where a frame that is held after a call of `map` comes from.
theorem frames_map_cases (h : (t.map addr frame perm answers).2.frames[p]? = some f)
    : f ∈ answers ∧ f.addr.toVirt = p ∨ alignPageDown addr = p ∧ frame = f ∨
        alignPageDown addr ≠ p ∧ t.frames[p]? = some f := by
  rw [PageTable.frames_map] at h
  obtain ⟨hcreated, hkept⟩ := PageTable.frames_findOrCreate
    { t with frames := t.frames.insert (alignPageDown addr) frame } t.root
    (VirtAddr.indexes (alignPageDown addr)) answers
  rw [PageTable.findOrCreate] at h
  by_cases hnew : ∃ node ∈ PageTable.findOrCreate.created
      { t with frames := t.frames.insert (alignPageDown addr) frame } t.root
      (VirtAddr.indexes (alignPageDown addr)) answers, node.addr.toVirt = p
  . obtain ⟨node, hnode, rfl⟩ := hnew
    rw [hcreated node hnode, Option.some.injEq] at h
    subst h
    exact .inl ⟨PageTable.created_subset hnode, rfl⟩
  . simp only [not_exists, not_and] at hnew
    rw [hkept p hnew, ExtTreeMap.getElem?_insert] at h
    by_cases heq : alignPageDown addr = p
    . simp only [heq, Std.compare_self, if_true, Option.some.injEq] at h
      exact .inr (.inl ⟨heq, h⟩)
    . simp only [Std.compare_eq_iff_eq, heq, if_false] at h
      exact .inr (.inr ⟨heq, h⟩)

theorem frames_map_of_not_direct (hmem : ∀ f ∈ answers, f.addr.InMem) (hp : ¬ p.InDirectMap)
    : (t.map addr frame perm answers).2.frames[p]? =
        if alignPageDown addr = p then some frame else t.frames[p]? := by
  obtain ⟨_, hkept⟩ := PageTable.frames_findOrCreate
    { t with frames := t.frames.insert (alignPageDown addr) frame } t.root
    (VirtAddr.indexes (alignPageDown addr)) answers
  have hother : ∀ node ∈ PageTable.findOrCreate.created
      { t with frames := t.frames.insert (alignPageDown addr) frame } t.root
      (VirtAddr.indexes (alignPageDown addr)) answers, node.addr.toVirt ≠ p := by
    rintro node hnode rfl
    exact hp (PhysAddr.inDirectMap_toVirt (hmem node (PageTable.created_subset hnode)))
  rw [PageTable.frames_map, PageTable.findOrCreate, hkept p hother, ExtTreeMap.getElem?_insert]
  simp only [Std.compare_eq_iff_eq]

theorem Unshared.map (h : Unshared t) (hfresh : PageTable.Fresh t [frame])
    (hfreshTables : PageTable.Fresh { t with frames := t.frames.insert (alignPageDown addr) frame } answers)
    : Unshared (t.map addr frame perm answers).2 := by
  intro p q f hp hq
  -- a new table is not one of the frames that are held already
  have hlive (p : VirtAddr arch) (f : PhysFrame arch) (hf : f ∈ answers)
      : (t.frames.insert (alignPageDown addr) frame)[p]? ≠ some f := by
    intro hget
    exact hfreshTables.live f hf _ (ExtTreeMap.mem_toList_iff_getElem?_eq_some.mpr hget) rfl
  have hnew (p : VirtAddr arch) : t.frames[p]? ≠ some frame := by
    intro hget
    exact hfresh.live frame (by simp) _ (ExtTreeMap.mem_toList_iff_getElem?_eq_some.mpr hget) rfl
  have hpage (hf : frame ∈ answers) : False :=
    hlive (alignPageDown addr) frame hf ExtTreeMap.getElem?_insert_self
  have hold {p : VirtAddr arch} {f : PhysFrame arch} (hne : alignPageDown addr ≠ p)
      (hget : t.frames[p]? = some f) (hf : f ∈ answers)
      : False := by
    apply hlive p f hf
    rw [ExtTreeMap.getElem?_insert, if_neg (by simpa using hne), hget]
  rcases frames_map_cases hp with ⟨hf, rfl⟩ | ⟨rfl, rfl⟩ | ⟨hne, hget⟩
  . rcases frames_map_cases hq with ⟨_, heq⟩ | ⟨_, rfl⟩ | ⟨hne', hget'⟩
    . exact heq
    . exact absurd hf fun hf => hpage hf
    . exact absurd hf fun hf => hold hne' hget' hf
  . rcases frames_map_cases hq with ⟨hf, _⟩ | ⟨heq, _⟩ | ⟨_, hget'⟩
    . exact absurd hf fun hf => hpage hf
    . exact heq
    . exact absurd hget' (hnew q)
  . rcases frames_map_cases hq with ⟨hf, _⟩ | ⟨_, rfl⟩ | ⟨_, hget'⟩
    . exact absurd hf fun hf => hold hne hget hf
    . exact absurd hget (hnew p)
    . exact h p q f hget hget'

end Frames

section Calls

variable {addr : Nat}

theorem Sole.answers (h : s.Sole) (answers : List (List (PhysFrame arch))) : Sole { s with answers } :=
  ⟨h.wf, h.linked, h.root, h.unshared, h.held⟩

theorem Sole.linked_base (h : s.Sole)
    : RadixTree.Linked PageTable.next (Own arch) Mmu.Link s.table.mem s.table.root.toVirt.asArrayBase := by
  rw [h.root]
  exact h.linked

structure SameRoot (s s' : KernSpace arch) : Prop where
  root : s'.table.root = s.table.root
  entry : ∀ k, BootPageTable.Remapped arch k →
    s'.table.mem s.table.root.toVirt.asArrayBase k = s.table.mem s.table.root.toVirt.asArrayBase k

structure Maps (s : KernSpace arch) (page : VirtAddr arch) (r : Except InternalError Unit × KernSpace arch)
    : Prop where
  sole : r.2.Sole
  entry : r.1.isOk = false → r.2.table.entry page.path page.leaf = s.table.entry page.path page.leaf
  mapped : r.1.isOk = true →
    ∃ frame, r.2.table.entry page.path page.leaf = some (stackEntry frame) ∧
      r.2.table.frames[page]? = some frame
  frames : ∀ q : VirtAddr arch, ¬ q.InDirectMap → q ≠ page → r.2.table.frames[q]? = s.table.frames[q]?
  sameRoot : SameRoot s r.2

theorem Maps.of_error {e : InternalError} (h : s.Sole) (answers : List (List (PhysFrame arch)))
    : Maps s page (.error e, { s with answers }) where
  sole := h.answers answers
  entry _ := rfl
  mapped hok := by simp [Except.isOk, Except.toBool] at hok
  frames _ _ _ := rfl
  sameRoot := ⟨rfl, fun _ _ => rfl⟩

theorem Sole.map (h : s.Sole) (hpage : ¬ (stackPage arch addr).InDirectMap)
    (hown : Own arch (stackPage arch addr).path)
    : Maps s (stackPage arch addr) (s.map addr) := by
  have hchanges := h.wf.map hpage hown
  rw [KernSpace.map] at hchanges ⊢
  split
  next => exact .of_error h s.answers
  next answers _ => exact .of_error h answers
  next frame frames answers heq =>
    simp only [heq] at hchanges
    split
    next hgrants =>
      rw [if_pos hgrants] at hchanges
      obtain ⟨hfresh, hfreshTables, hboot⟩ := hgrants
      have hbootFrames : ∀ f ∈ frames, f ∉ s.bootPages := fun f hf => hboot f (List.mem_cons_of_mem _ hf)
      have hdead : ¬ Live s.table.frames s.bootPages (BootPageTable.base frame) :=
        not_live_of_fresh hfresh (by simpa using hboot frame (by simp)) (by simp)
      -- the memory of the frame is cleared
      have hcleared : RadixTree.Tree PageTable.next (Own arch)
          { s.table with mem := PageTable.zeroed s.table.mem frame }.mem
          { s.table with mem := PageTable.zeroed s.table.mem frame }.root.toVirt.asArrayBase
          (Live { s.table with mem := PageTable.zeroed s.table.mem frame }.frames s.bootPages) :=
        RadixTree.Tree.congr h.wf fun _ hq => RadixTree.walk_fill BootPageTable.own_closed h.wf hdead hq
      have hleafCleared := RadixTree.leaf_fill BootPageTable.own_closed h.wf hdead (w := .clr)
        (k := (stackPage arch addr).leaf) hown
      have hfreshTables' : PageTable.Fresh
          { s.table with
            mem := PageTable.zeroed s.table.mem frame
            frames := s.table.frames.insert (stackPage arch addr) frame } frames :=
        ⟨hfreshTables.inMem, hfreshTables.nodup, hfreshTables.live⟩
      obtain ⟨hroot, _, _⟩ := map_table_spec (.G ||| .R ||| .W) hcleared hpage hfreshTables' hbootFrames hown
      obtain ⟨hlinked, hleaf⟩ := map_table_leaf (next_stackEntry frame) hcleared
        (h.linked_base.fill BootPageTable.own_closed h.wf hdead) hpage hfreshTables' hbootFrames hown
      have hunshared : Unshared { s.table with mem := PageTable.zeroed s.table.mem frame } := h.unshared
      have hentry (r : PageTable arch) (hr : r.root = s.table.root) (path : List Nat) (i : Nat)
          : r.entry path i = RadixTree.leaf PageTable.next r.mem s.table.root.toVirt.asArrayBase path i := by
        rw [PageTable.entry_eq_leaf, hr]
      constructor
      case sole =>
        refine ⟨hchanges.wf, ?_, ?_, hunshared.map ⟨hfresh.inMem, hfresh.nodup, hfresh.live⟩ hfreshTables', ?_⟩
        . dsimp only
          rw [hroot]
          rw [h.root] at hlinked
          exact hlinked
        . dsimp only
          rw [hroot]
          exact h.root
        . intro p f hget
          rcases frames_map_cases hget with ⟨hf, _⟩ | ⟨_, rfl⟩ | ⟨_, hget⟩
          . exact ⟨hfreshTables.inMem f hf, hbootFrames f hf⟩
          . exact ⟨hfresh.inMem _ (by simp), hboot _ (by simp)⟩
          . exact h.held p f hget
      case entry =>
        intro herror
        dsimp only at herror ⊢
        rw [hentry _ hroot, hentry _ rfl]
        rw [herror, if_neg Bool.false_ne_true] at hleaf
        exact hleaf.trans hleafCleared
      case mapped =>
        intro hok
        dsimp only at hok ⊢
        rw [hentry _ hroot]
        rw [hok, if_pos rfl] at hleaf
        refine ⟨frame, hleaf, ?_⟩
        rw [frames_map_of_not_direct hfreshTables.inMem hpage]
        exact if_pos rfl
      case frames =>
        intro q hq hne
        dsimp only
        rw [frames_map_of_not_direct hfreshTables.inMem hq]
        exact if_neg (Ne.symm hne)
      case sameRoot =>
        refine ⟨hroot, ?_⟩
        intro k hk
        have hrootNe : s.table.root.toVirt.asArrayBase ≠ BootPageTable.base frame := by
          intro heq
          rw [← heq] at hdead
          exact hdead (h.wf.live [] _ (own_nil hown) rfl)
        exact (map_table_root hcleared hpage hfreshTables' hbootFrames hown hk).trans
          (RadixTree.fill_of_ne hrootNe)
    next => exact .of_error h answers

structure Unmaps (s : KernSpace arch) (page : VirtAddr arch) (r : Except InternalError Unit × KernSpace arch)
    : Prop where
  sole : r.2.Sole
  entry : r.2.table.entry page.path page.leaf = none ∨
    s.table.frames[page]? = none ∧ r.2.table.entry page.path page.leaf = s.table.entry page.path page.leaf
  frames : ∀ q : VirtAddr arch, q ≠ page → r.2.table.frames[q]? = s.table.frames[q]?
  sameRoot : SameRoot s r.2

theorem Unshared.unmap {t : PageTable arch} (h : Unshared t) (addr : VirtAddr arch)
    : Unshared (t.unmap addr).2 := by
  intro p q f hp hq
  rw [PageTable.frames_unmap, ExtTreeMap.getElem?_erase] at hp hq
  split at hp
  next => simp at hp
  next =>
    split at hq
    next => simp at hq
    next => exact h p q f hp hq

theorem Sole.unmap (h : s.Sole) (hpage : ¬ (stackPage arch addr).InDirectMap)
    (hown : Own arch (stackPage arch addr).path)
    : Unmaps s (stackPage arch addr) (s.unmap addr) := by
  have hwf := (h.wf.unmap hpage hown).wf
  have hunshared := h.unshared.unmap (BitVec.ofNat arch.bits addr)
  have hframes := PageTable.frames_unmap s.table (BitVec.ofNat arch.bits addr)
  have hbottom := BootPageTable.not_own_of_depth (VirtAddr.length_path (stackPage arch addr))
  have hheld (p : VirtAddr arch) (f : PhysFrame arch)
      (hget : (s.table.unmap (BitVec.ofNat arch.bits addr)).2.frames[p]? = some f)
      : f.addr.InMem ∧ f ∉ s.bootPages := by
    rw [hframes, ExtTreeMap.getElem?_erase] at hget
    split at hget
    next => simp at hget
    next => exact h.held p f hget
  have hother (q : VirtAddr arch) (hne : q ≠ stackPage arch addr)
      : (s.table.unmap (BitVec.ofNat arch.bits addr)).2.frames[q]? = s.table.frames[q]? := by
    rw [hframes, ExtTreeMap.getElem?_erase, if_neg]
    simpa [stackPage] using Ne.symm hne
  rw [KernSpace.unmap] at hwf ⊢
  dsimp only at hwf ⊢
  rcases PageTable.unmap_cases s.table (BitVec.ofNat arch.bits addr) with
    ⟨hget, hunmap⟩ | ⟨base, hwalk, hunmap⟩ | ⟨hwalk, hunmap⟩
  . rw [hunmap] at hwf ⊢
    exact ⟨h, .inr ⟨hget, rfl⟩, fun _ _ => rfl, ⟨rfl, fun _ _ => rfl⟩⟩
  . have hstored := RadixTree.walk_store_bottom BootPageTable.own_closed h.wf.unshared hown hwalk hbottom
      (j := (stackPage arch addr).leaf) (w := .clr) hown
    have hlinked := h.linked_base.store_leaf BootPageTable.own_closed h.wf hown hbottom hwalk
      (i := (stackPage arch addr).leaf) (w := .clr)
    rw [h.root] at hlinked
    have hsame : SameRoot s { s with table := (s.table.unmap (BitVec.ofNat arch.bits addr)).2 } := by
      refine ⟨by rw [hunmap], ?_⟩
      intro k hk
      dsimp only
      rw [hunmap]
      apply RadixTree.store_of_ne
      rintro ⟨hbase, _⟩
      exact base_ne_root h.wf.unshared hown hwalk hbase.symm
    refine ⟨⟨hwf, ?_, ?_, hunshared, hheld⟩, .inl ?_, hother, hsame⟩
    . dsimp only
      rw [hunmap]
      exact hlinked
    . dsimp only
      rw [hunmap]
      exact h.root
    . dsimp only
      rw [PageTable.entry_eq_leaf, hunmap]
      exact (RadixTree.leaf_store_self (hstored.trans hwalk)).trans (if_neg (by simp [PageTable.next_clr]))
  . have hsame : SameRoot s { s with table := (s.table.unmap (BitVec.ofNat arch.bits addr)).2 } :=
      ⟨by rw [hunmap], fun _ _ => by dsimp only; rw [hunmap]⟩
    refine ⟨⟨hwf, ?_, ?_, hunshared, hheld⟩, .inl ?_, hother, hsame⟩
    . dsimp only
      rw [hunmap]
      exact h.linked
    . dsimp only
      rw [hunmap]
      exact h.root
    . dsimp only
      rw [PageTable.entry_eq_leaf, hunmap, RadixTree.leaf]
      dsimp only
      rw [stackPage, hwalk, Option.bind_none]

end Calls

section Pages

variable {addr other : Nat}

theorem toNat_stackPage (h : IsPage arch addr) : (stackPage arch addr).toNat = addr := by
  obtain ⟨lo, hlo, haddr⟩ := h
  obtain ⟨n, rfl, hn⟩ := isExecutorStack_iff.mp hlo
  obtain ⟨i, hi, rfl⟩ := StackAllocator.mem_pages_iff.mp haddr
  have hi' : i < 1024 := hi
  rw [stackPage, toNat_alignPageDown, BitVec.toNat_ofNat]
  cases arch with
  | riscv32 =>
    have hn' : n * 0x800000 ≤ 0x10000000 := hn
    have hpage : (0xE0000000 + n * 0x800000 + i * 4096) % 2 ^ 32 / 4096 * 4096 =
        0xE0000000 + n * 0x800000 + i * 4096 := by omega
    exact hpage
  | riscv64 =>
    have hn' : n * 0x800000 ≤ 0x1F00000000 := hn
    have hpage : (0xFFFFFFE000000000 + n * 0x800000 + i * 4096) % 2 ^ 64 / 4096 * 4096 =
        0xFFFFFFE000000000 + n * 0x800000 + i * 4096 := by omega
    exact hpage

theorem IsPage.stackPage (h : IsPage arch addr) : ∃ lo, StackPage (stackPage arch addr) lo := by
  obtain ⟨lo, hlo, haddr⟩ := h
  exact ⟨lo, stackPage_of_mem hlo haddr⟩

theorem IsPage.own (h : IsPage arch addr) : Own arch (KernSpace.stackPage arch addr).path := by
  obtain ⟨_, hpage⟩ := h.stackPage
  exact hpage.own

theorem IsPage.not_direct (h : IsPage arch addr) : ¬ (KernSpace.stackPage arch addr).InDirectMap := by
  obtain ⟨_, hpage⟩ := h.stackPage
  exact not_inDirectMap hpage.high

theorem IsPage.stackPage_ne (h : IsPage arch addr) (hother : IsPage arch other) (hne : other ≠ addr)
    : KernSpace.stackPage arch other ≠ KernSpace.stackPage arch addr := by
  intro heq
  apply hne
  rw [← toNat_stackPage h, ← toNat_stackPage hother, heq]

theorem IsPage.indexes_ne (h : IsPage arch addr) (hother : IsPage arch other) (hne : other ≠ addr)
    : ¬ ((KernSpace.stackPage arch other).path = (KernSpace.stackPage arch addr).path ∧
        (KernSpace.stackPage arch other).leaf = (KernSpace.stackPage arch addr).leaf) := by
  rintro ⟨hpath, hleaf⟩
  obtain ⟨_, hpage⟩ := h.stackPage
  obtain ⟨_, hpage'⟩ := hother.stackPage
  apply h.stackPage_ne hother hne
  rw [← hpage.aligned, ← hpage'.aligned]
  apply VirtAddr.alignPageDown_eq_of_indexes hpage'.canonical hpage.canonical
  rw [VirtAddr.indexes_eq_path_leaf, VirtAddr.indexes_eq_path_leaf, hpath, hleaf]

theorem Stacked.view_eq_none_iff (h : s.Stacked) (haddr : IsPage arch addr)
    : s.view addr = none ↔
        s.table.entry (KernSpace.stackPage arch addr).path (KernSpace.stackPage arch addr).leaf = none := by
  rw [view]
  cases hentry : s.table.entry (KernSpace.stackPage arch addr).path (KernSpace.stackPage arch addr).leaf with
  | none => simp
  | some pte =>
    obtain ⟨frame, hframe, _⟩ := h.entry addr haddr pte hentry
    simp [hframe]

theorem Stacked.of_view_eq_some (h : s.Stacked) (haddr : IsPage arch addr) {frame : PhysFrame arch}
    (hview : s.view addr = some frame)
    : s.table.entry (KernSpace.stackPage arch addr).path (KernSpace.stackPage arch addr).leaf =
          some (stackEntry frame) ∧
        s.table.frames[KernSpace.stackPage arch addr]? = some frame := by
  rw [view] at hview
  cases hentry : s.table.entry (KernSpace.stackPage arch addr).path (KernSpace.stackPage arch addr).leaf with
  | none => simp [hentry] at hview
  | some pte =>
    obtain ⟨held, hheld, rfl⟩ := h.entry addr haddr pte hentry
    simp only [hentry, Option.bind_some, hheld, Option.some.injEq] at hview
    subst hview
    exact ⟨rfl, hheld⟩

end Pages

section Backs

theorem Stacked.changes {addr : Nat} (h : s.Stacked) (haddr : IsPage arch addr) (hsole : s'.Sole)
    (hchanges : Changes (KernSpace.stackPage arch addr) s s')
    (hframes : ∀ q : VirtAddr arch, ¬ q.InDirectMap → q ≠ KernSpace.stackPage arch addr →
      s'.table.frames[q]? = s.table.frames[q]?)
    (hentry : ∀ pte,
      s'.table.entry (KernSpace.stackPage arch addr).path (KernSpace.stackPage arch addr).leaf = some pte →
        ∃ frame, s'.table.frames[KernSpace.stackPage arch addr]? = some frame ∧ pte = stackEntry frame)
    : s'.Stacked ∧ ∀ other, IsPage arch other → other ≠ addr → s'.view other = s.view other := by
  have hsame (other : Nat) (hother : IsPage arch other) (hne : other ≠ addr)
      : s'.table.entry (KernSpace.stackPage arch other).path (KernSpace.stackPage arch other).leaf =
            s.table.entry (KernSpace.stackPage arch other).path (KernSpace.stackPage arch other).leaf ∧
          s'.table.frames[KernSpace.stackPage arch other]? = s.table.frames[KernSpace.stackPage arch other]? :=
    ⟨hchanges.entry _ _ hother.own (VirtAddr.length_path _) (haddr.indexes_ne hother hne),
      hframes _ hother.not_direct (haddr.stackPage_ne hother hne)⟩
  refine ⟨⟨hsole, ?_⟩, ?_⟩
  . intro other hother pte hpte
    by_cases hne : other = addr
    . subst hne
      exact hentry pte hpte
    . obtain ⟨hsameEntry, hsameFrame⟩ := hsame other hother hne
      rw [hsameEntry] at hpte
      rw [hsameFrame]
      exact h.entry other hother pte hpte
  . intro other hother hne
    obtain ⟨hsameEntry, hsameFrame⟩ := hsame other hother hne
    rw [view, view, hsameEntry, hsameFrame]

theorem Stacked.map {addr : Nat} (h : s.Stacked) (haddr : IsPage arch addr) (hnone : s.view addr = none)
    : (s.map addr).2.Stacked ∧ ((s.map addr).2.view addr).isSome = (s.map addr).1.isOk ∧
        ∀ other, IsPage arch other → other ≠ addr → (s.map addr).2.view other = s.view other := by
  have hmaps := h.toSole.map haddr.not_direct haddr.own
  have hbefore := (h.view_eq_none_iff haddr).mp hnone
  have hheld (pte : PageTableEntry arch.bits)
      (hpte : (s.map addr).2.table.entry (KernSpace.stackPage arch addr).path
        (KernSpace.stackPage arch addr).leaf = some pte)
      : ∃ frame, (s.map addr).2.table.frames[KernSpace.stackPage arch addr]? = some frame ∧
          pte = stackEntry frame := by
    cases hok : (s.map addr).1.isOk with
    | true =>
      obtain ⟨frame, hentry, hframe⟩ := hmaps.mapped hok
      rw [hentry, Option.some.injEq] at hpte
      exact ⟨frame, hframe, hpte.symm⟩
    | false =>
      rw [hmaps.entry hok, hbefore] at hpte
      simp at hpte
  obtain ⟨hstacked, hothers⟩ :=
    h.changes haddr hmaps.sole (h.wf.map haddr.not_direct haddr.own) hmaps.frames hheld
  refine ⟨hstacked, ?_, hothers⟩
  cases hok : (s.map addr).1.isOk with
  | true =>
    obtain ⟨frame, hentry, hframe⟩ := hmaps.mapped hok
    simp [view, hentry, hframe]
  | false => simp [view, hmaps.entry hok, hbefore]

theorem Stacked.unmap {addr : Nat} (h : s.Stacked) (haddr : IsPage arch addr)
    : (s.unmap addr).2.Stacked ∧ (s.unmap addr).2.view addr = none ∧
        ∀ other, IsPage arch other → other ≠ addr → (s.unmap addr).2.view other = s.view other := by
  have hunmaps := h.toSole.unmap haddr.not_direct haddr.own
  have hnone : (s.unmap addr).2.table.entry (KernSpace.stackPage arch addr).path
      (KernSpace.stackPage arch addr).leaf = none := by
    rcases hunmaps.entry with hnone | ⟨hframe, hsame⟩
    . exact hnone
    . rw [hsame]
      cases hentry : s.table.entry (KernSpace.stackPage arch addr).path
        (KernSpace.stackPage arch addr).leaf with
      | none => rfl
      | some pte =>
        obtain ⟨frame, hheld, _⟩ := h.entry addr haddr pte hentry
        simp [hframe] at hheld
  obtain ⟨hstacked, hothers⟩ := h.changes haddr hunmaps.sole (h.wf.unmap haddr.not_direct haddr.own)
    (fun q _ hne => hunmaps.frames q hne) (by simp [hnone])
  exact ⟨hstacked, by simp [view, hnone], hothers⟩

theorem backs
    : StackAllocator.Backs callbacks (arch.executorStackRegion.addr, arch.executorStackRegion.len)
        executorStackSize executorStackSize (fun s : KernSpace arch => s.Stacked) view where
  map_inv _ _ haddr hinv hnone := (Stacked.map hinv haddr hnone).1
  map_self _ _ haddr hinv hnone := (Stacked.map hinv haddr hnone).2.1
  map_other _ _ haddr hinv hnone := (Stacked.map hinv haddr hnone).2.2
  unmap_inv _ _ haddr hinv := (Stacked.unmap hinv haddr).1
  unmap_self _ _ haddr hinv := (Stacked.unmap hinv haddr).2.1
  unmap_other _ _ haddr hinv := (Stacked.unmap hinv haddr).2.2

end Backs

end KernSpace

end Jrinx
