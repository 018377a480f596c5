import Jrinx.Paging.Refinement

/-!
This module contains which frames a page table holds. The tables themselves and the mapped pages are
held in one map, the former under their address in the direct map.
-/

namespace Jrinx

open Std

variable {arch : Arch}

namespace PageTable

-- The frames that `findOrCreate` links into the tree.
def findOrCreate.created (t : PageTable arch) (pa : PhysAddr arch) (indexes : List Nat)
    (answers : List (PhysFrame arch))
    : List (PhysFrame arch) :=
  match indexes with
  | [] => []
  | [_] => []
  | i :: indexes =>
    let ref : EntryRef arch := { base := pa.toVirt.asArrayBase, index := i }
    if (t.read ref).valid then
      findOrCreate.created t (t.read ref).physAddr indexes answers
    else
      match answers with
      | [] => []
      | frame :: answers =>
        let t := t.create ref frame
        frame :: findOrCreate.created t (t.read ref).physAddr indexes answers

end PageTable

structure TableHistory (arch : Arch) where
  table : PageTable arch
  -- The root and all frames that were linked into the tree.
  nodes : List (PhysFrame arch)
  -- The pages for which a call of `map` was successful.
  mapped : VirtAddr arch → Bool
  -- The pages whose last call was one of `map`, successful or not.
  named : VirtAddr arch → Bool

namespace TableHistory

def init (table : PageTable arch) (root : PhysFrame arch) : TableHistory arch where
  table
  nodes := [root]
  mapped := fun _ => false
  named := fun _ => false

def step (h : TableHistory arch) (a : PagingAction arch) : Outcome (TableHistory arch) :=
  (h.table.step a).map fun table =>
    match a with
    | .map addr frame perm answers =>
      let page := alignPageDown addr
      let t := { h.table with frames := h.table.frames.insert page frame }
      let ok := (h.table.map addr frame perm answers).1.isOk
      {
        table
        nodes := PageTable.findOrCreate.created t t.root (VirtAddr.indexes page) answers ++ h.nodes
        mapped := if ok then Function.update h.mapped page true else h.mapped
        named := Function.update h.named page true
      }
    | .unmap addr => { h with table, named := Function.update h.named (alignPageDown addr) false }
    | .write _ _ _ => { h with table }

def IsNode (h : TableHistory arch) (page : VirtAddr arch) : Prop :=
  ∃ frame ∈ h.nodes, frame.addr.toVirt = page

instance (h : TableHistory arch) (page : VirtAddr arch) : Decidable (h.IsNode page) :=
  inferInstanceAs (Decidable (∃ frame ∈ h.nodes, frame.addr.toVirt = page))

/--
No call names the page of a table in the direct map, and `unmap` is not called for a page that only a
failed call of `map` has left behind.
-/
def Allowed (h : TableHistory arch) (a : PagingAction arch) : Prop :=
  match a with
  | .map addr _ _ _ => ¬ h.IsNode (alignPageDown addr)
  | .unmap addr => ¬ h.IsNode (alignPageDown addr) ∧
      (h.named (alignPageDown addr) = true → h.mapped (alignPageDown addr) = true)
  | .write _ _ _ => True

instance (h : TableHistory arch) (a : PagingAction arch) : Decidable (h.Allowed a) := by
  induction a using PagingAction.casesOn with
  | map addr frame perm answers => exact inferInstanceAs (Decidable (¬ _))
  | unmap addr => exact inferInstanceAs (Decidable (_ ∧ _))
  | write base i pte => exact inferInstanceAs (Decidable True)

def HoldsNodes (h : TableHistory arch) : Prop :=
  ∀ frame ∈ h.nodes, h.table.frames[frame.addr.toVirt]? = some frame

structure Ownership (h : TableHistory arch) : Prop where
  nodes : h.HoldsNodes
  keys : ∀ page, page ∈ h.table.frames ↔ h.IsNode page ∨ h.named page = true

end TableHistory

namespace PageTable

variable {t : PageTable arch}

theorem frames_findOrCreate (t : PageTable arch) (pa : PhysAddr arch) (indexes : List Nat)
    (answers : List (PhysFrame arch))
    : (∀ frame ∈ findOrCreate.created t pa indexes answers,
        (findOrCreate.go t pa indexes answers).2.frames[frame.addr.toVirt]? = some frame) ∧
      ∀ page, (∀ frame ∈ findOrCreate.created t pa indexes answers, frame.addr.toVirt ≠ page) →
        (findOrCreate.go t pa indexes answers).2.frames[page]? = t.frames[page]? := by
  fun_induction findOrCreate.created t pa indexes answers with
  | case1 => exact ⟨by simp, fun _ _ => rfl⟩
  | case2 => exact ⟨by simp, fun _ _ => rfl⟩
  | case3 t pa answers i indexes hne ref hvalid ih =>
    rwa [findOrCreate_go_valid hne hvalid]
  | case4 t pa i indexes hne ref hinvalid =>
    rw [findOrCreate_go_nil hne (Bool.eq_false_iff.mpr hinvalid)]
    exact ⟨by simp, fun _ _ => rfl⟩
  | case5 t pa i indexes hne ref hinvalid frame answers t' ih =>
    have haddr : (t'.read ref).physAddr = frame.addr := by
      simp [t', create, PageTable.write, read, frame.aligned]
    rw [haddr] at ih ⊢
    rw [findOrCreate_go_create hne (Bool.eq_false_iff.mpr hinvalid)]
    have hinsert : t'.frames = t.frames.insert frame.addr.toVirt frame := rfl
    constructor
    . intro frame' hmem
      by_cases hagain : frame' ∈ findOrCreate.created t' frame.addr indexes answers
      . exact ih.1 frame' hagain
      . obtain rfl : frame' = frame := (List.mem_cons.mp hmem).resolve_right hagain
        have hlater : ∀ frame ∈ findOrCreate.created t' frame'.addr indexes answers,
            frame.addr.toVirt ≠ frame'.addr.toVirt := by
          intro frame hframe htoVirt
          rw [frame_eq_of_toVirt htoVirt] at hframe
          exact hagain hframe
        rw [ih.2 _ hlater, hinsert, ExtTreeMap.getElem?_insert_self]
    . intro page hpage
      rw [ih.2 page (fun frame hframe => hpage frame (by simp [hframe])), hinsert,
        ExtTreeMap.getElem?_insert]
      simp [hpage frame (by simp)]

theorem frames_unmap (t : PageTable arch) (addr : VirtAddr arch)
    : (t.unmap addr).2.frames = t.frames.erase (alignPageDown addr) := by
  rw [unmap]
  dsimp only
  split
  next =>
    split
    next => rfl
    next => rfl
  next h =>
    apply ExtTreeMap.ext_getElem?
    intro page
    rw [ExtTreeMap.getElem?_erase]
    split
    next heq =>
      obtain rfl : alignPageDown addr = page := by simpa using heq
      exact ExtTreeMap.getElem?_eq_none h
    next => rfl

theorem unmap_rejected_iff {addr : VirtAddr arch}
    : t.unmap addr = (.error .invalidVirtAddr, t) ↔ alignPageDown addr ∉ t.frames := by
  constructor
  . intro h hmem
    have hframes := congrArg (fun r => r.2.frames) h
    simp only [frames_unmap] at hframes
    rw [← hframes] at hmem
    simp at hmem
  . intro h
    exact if_neg h

theorem frames_map (t : PageTable arch) (addr : VirtAddr arch) (frame : PhysFrame arch)
    (perm : PagePerm) (answers : List (PhysFrame arch))
    : (t.map addr frame perm answers).2.frames
        =
      (findOrCreate { t with frames := t.frames.insert (alignPageDown addr) frame } (alignPageDown addr)
        answers).2.frames := by
  rw [PageTable.map]
  split
  next heq =>
    rw [heq]
    rfl
  next heq => rw [heq]

end PageTable

namespace TableHistory

variable {h h' : TableHistory arch}

theorem Ownership.map {addr : VirtAddr arch} {frame : PhysFrame arch} {perm : PagePerm}
    {answers : List (PhysFrame arch)} (howner : h.Ownership) (hpage : ¬ h.IsNode (alignPageDown addr))
    (hstep : h.step (.map addr frame perm answers) = .next h')
    : h'.Ownership := by
  obtain rfl := Outcome.next.inj hstep
  have hframes := h.table.frames_map addr frame perm answers
  obtain ⟨hcreated, hkept⟩ := PageTable.frames_findOrCreate
    { h.table with frames := h.table.frames.insert (alignPageDown addr) frame } h.table.root
    (VirtAddr.indexes (alignPageDown addr)) answers
  rw [PageTable.findOrCreate] at hframes
  rw [← hframes] at hcreated hkept
  generalize hnew : PageTable.findOrCreate.created
    { h.table with frames := h.table.frames.insert (alignPageDown addr) frame } h.table.root
    (VirtAddr.indexes (alignPageDown addr)) answers = created at hcreated hkept
  constructor
  case nodes =>
    intro node hnode
    simp only [hnew, List.mem_append] at hnode
    by_cases hagain : node ∈ created
    . exact hcreated node hagain
    . have hold := hnode.resolve_left hagain
      have hother : ∀ node' ∈ created, node'.addr.toVirt ≠ node.addr.toVirt := by
        intro node' hnode' htoVirt
        rw [PageTable.frame_eq_of_toVirt htoVirt] at hnode'
        exact hagain hnode'
      have hne : alignPageDown addr ≠ node.addr.toVirt := fun heq => hpage ⟨node, hold, heq.symm⟩
      dsimp only [PageTable.step]
      rw [hkept _ hother, ExtTreeMap.getElem?_insert]
      simp [hne, howner.nodes node hold]
  case keys =>
    intro page
    simp only [IsNode, hnew, List.mem_append, or_and_right, exists_or]
    by_cases hnew : ∃ node ∈ created, node.addr.toVirt = page
    . obtain ⟨node, hnode, rfl⟩ := hnew
      have hmem : node.addr.toVirt ∈ (h.table.map addr frame perm answers).2.frames := by
        rw [ExtTreeMap.mem_iff_isSome_getElem?, hcreated node hnode, Option.isSome_some]
      exact ⟨fun _ => .inl (.inl ⟨node, hnode, rfl⟩), fun _ => hmem⟩
    . simp only [not_exists, not_and] at hnew
      have hold : page ∈ (h.table.map addr frame perm answers).2.frames ↔
          page ∈ h.table.frames.insert (alignPageDown addr) frame := by
        rw [ExtTreeMap.mem_iff_isSome_getElem?, ExtTreeMap.mem_iff_isSome_getElem?, hkept page hnew]
      rw [hold, ExtTreeMap.mem_insert, howner.keys page]
      by_cases heq : alignPageDown addr = page
      . simp [heq]
      . have hnone : ¬ ∃ node ∈ created, node.addr.toVirt = page := by simpa using hnew
        simp [heq, Function.update_of_ne (Ne.symm heq), IsNode, hnone]

theorem Ownership.unmap {addr : VirtAddr arch} (howner : h.Ownership)
    (hpage : ¬ h.IsNode (alignPageDown addr)) (hstep : h.step (.unmap addr) = .next h')
    : h'.Ownership := by
  obtain rfl := Outcome.next.inj hstep
  constructor
  case nodes =>
    intro node hnode
    have hne : alignPageDown addr ≠ node.addr.toVirt := fun heq => hpage ⟨node, hnode, heq.symm⟩
    dsimp only [PageTable.step]
    rw [PageTable.frames_unmap, ExtTreeMap.getElem?_erase]
    simp [hne, howner.nodes node hnode]
  case keys =>
    intro page
    dsimp only [PageTable.step]
    rw [PageTable.frames_unmap, ExtTreeMap.mem_erase, howner.keys page]
    by_cases heq : alignPageDown addr = page
    . have hnode : ¬ h.IsNode page := heq ▸ hpage
      simpa [heq, IsNode] using hnode
    . simp [heq, Function.update_of_ne (Ne.symm heq), IsNode]

theorem Ownership.step {a : PagingAction arch} (howner : h.Ownership) (hallowed : h.Allowed a)
    (hstep : h.step a = .next h')
    : h'.Ownership := by
  cases a with
  | map addr frame perm answers => exact howner.map hallowed hstep
  | unmap addr => exact howner.unmap hallowed.1 hstep
  | write base i pte =>
    obtain rfl := Outcome.next.inj hstep
    exact ⟨howner.nodes, howner.keys⟩

theorem ownership_init {mem : Memory arch} {boot : Nat → PageTableEntry arch.bits}
    {root : PhysFrame arch} {answers : List (PhysFrame arch)} {t : PageTable arch}
    (hnew : PageTable.new mem boot (root :: answers) = .ok t)
    : (init t root).Ownership := by
  obtain rfl := Except.ok.inj hnew
  constructor
  case nodes =>
    intro node hnode
    obtain rfl : node = root := by simpa [init] using hnode
    exact ExtTreeMap.getElem?_insert_self
  case keys =>
    intro page
    simp [init, IsNode]

/--
As long as the calls do not name the page of a table, the table holds all of its nodes. Then `unmap` of
a page that was never mapped is rejected if and only if it is such a call.
-/
theorem ownership_of_run {mem : Memory arch} {boot : Nat → PageTableEntry arch.bits}
    {root : PhysFrame arch} {answers : List (PhysFrame arch)} {t : PageTable arch}
    {as : List (PagingAction arch)} (hnew : PageTable.new mem boot (root :: answers) = .ok t)
    (hrun : Run step Allowed (init t root) as h)
    : h.HoldsNodes ∧
        ∀ addr, h.mapped (alignPageDown addr) = false →
          (h.table.unmap addr = (.error .invalidVirtAddr, h.table) ↔ h.Allowed (.unmap addr)) := by
  have howner : h.Ownership := by
    apply hrun.invariant Ownership (ownership_init hnew)
    intro h h' a howner hallowed hstep
    exact howner.step hallowed hstep
  refine ⟨howner.nodes, ?_⟩
  intro addr hmapped
  rw [PageTable.unmap_rejected_iff, howner.keys, Allowed, hmapped]
  simp

def Owned (arch : Arch) : Prop :=
  ∃ h, Run step Allowed
      (init (PageTable.rooted (PageTable.frameAt arch 0x80200000)) (PageTable.frameAt arch 0x80200000))
      (PageTable.mapTwice arch) h ∧
    h.HoldsNodes ∧ h.table.unmap 0x5000 = (.error .invalidVirtAddr, h.table)

theorem ownership_mapTwice : Owned .riscv32 ∧ Owned .riscv64 := by
  have hboth : ∀ arch, Owned arch := by
    intro arch
    obtain ⟨h, hrun, hholds⟩ := exists_run_of_exec (checked step Allowed)
      (init (PageTable.rooted (PageTable.frameAt arch 0x80200000)) (PageTable.frameAt arch 0x80200000))
      (PageTable.mapTwice arch)
      (fun h => !h.mapped 0x5000 && decide (h.Allowed (.unmap 0x5000)))
      (by cases arch <;> decide +kernel)
    have hnew : PageTable.new (fun _ _ => .clr) (PageTable.remapped arch)
        [PageTable.frameAt arch 0x80200000]
          =
        .ok (PageTable.rooted (PageTable.frameAt arch 0x80200000)) := rfl
    simp only [Bool.and_eq_true, Bool.not_eq_true', decide_eq_true_eq] at hholds
    have hpage : alignPageDown (0x5000 : VirtAddr arch) = 0x5000 := by
      cases arch <;> decide
    obtain ⟨hnodes, hunmap⟩ := ownership_of_run hnew hrun.of_checked
    exact ⟨h, hrun.of_checked, hnodes, (hunmap 0x5000 (by rw [hpage]; exact hholds.1)).mpr hholds.2⟩
  exact ⟨hboth .riscv32, hboth .riscv64⟩

-- The root is dropped if its page in the direct map is given to `unmap`.
def DropsRoot (arch : Arch) : Prop :=
  ∃ h, Run step (fun _ _ => True)
      (init (PageTable.rooted (PageTable.frameAt arch 0x80200000)) (PageTable.frameAt arch 0x80200000))
      [.unmap (PageTable.frameAt arch 0x80200000).addr.toVirt] h ∧
    ¬ h.HoldsNodes

theorem ownership_unmapRoot_false
    : DropsRoot .riscv32 ∧ DropsRoot .riscv64 := by
  have hboth : ∀ arch, DropsRoot arch := by
    intro arch
    refine ⟨_, .cons trivial rfl (.nil _), ?_⟩
    intro hnodes
    have hroot := hnodes (PageTable.frameAt arch 0x80200000) (by simp [init])
    have hpage : alignPageDown (PageTable.frameAt arch 0x80200000).addr.toVirt
        =
      (PageTable.frameAt arch 0x80200000).addr.toVirt :=
      PhysAddr.alignPageDown_toVirt (PageTable.frameAt arch 0x80200000).aligned
    dsimp only [PageTable.step, init] at hroot
    rw [PageTable.frames_unmap, hpage, ExtTreeMap.getElem?_erase_self] at hroot
    simp at hroot
  exact ⟨hboth .riscv32, hboth .riscv64⟩

end TableHistory

end Jrinx
