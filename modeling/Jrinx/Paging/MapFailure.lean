import Jrinx.Paging.Ownership

/-!
This module contains the calls of `map` that fail because the allocator has no frame left for a table.
The frame of the call is in the map of frames before the tables are looked for, and it stays there.
-/

namespace Jrinx

open Std

variable {arch : Arch}

namespace PageTable

def missing (mem : Memory arch) (base : VirtAddr arch) (path : List Nat) : Nat :=
  match path with
  | [] => 0
  | i :: path =>
    match next (mem base i) with
    | some base => missing mem base path
    | none => path.length + 1

def missingFor (t : PageTable arch) (addr : VirtAddr arch) : Nat :=
  missing t.mem t.root.toVirt.asArrayBase (VirtAddr.path (alignPageDown addr))

/--
If the call fails, then nothing of it is left: every address is translated as before, the page does not
hold the frame of the call but what it held before, or nothing, and `unmap` of the page has the same
result.
-/
def LeavesNoTrace (t : PageTable arch) (addr : VirtAddr arch) (frame : PhysFrame arch) (perm : PagePerm)
    (answers : List (PhysFrame arch)) : Prop :=
  ∀ e t', t.map addr frame perm answers = (.error e, t') →
    (∀ addr', t'.translate addr' = t.translate addr') ∧
      t'.frames[alignPageDown addr]? ≠ some frame ∧
      (t'.frames[alignPageDown addr]? = t.frames[alignPageDown addr]? ∨
        t'.frames[alignPageDown addr]? = none) ∧
      (t'.unmap addr).1 = (t.unmap addr).1

/--
The frames that the allocator hands out are not read on the way to the entry of the address.
-/
def Unvisited (t : PageTable arch) (addr : VirtAddr arch) (answers : List (PhysFrame arch)) : Prop :=
  ∀ path ∈ (VirtAddr.path (alignPageDown addr)).inits, ∀ frame ∈ answers,
    t.node path ≠ some frame.addr.toVirt

variable {t : PageTable arch} {answers : List (PhysFrame arch)}

theorem missing_of_clr {mem : Memory arch} {base : VirtAddr arch} (h : ∀ i, mem base i = .clr)
    (path : List Nat)
    : missing mem base path = path.length := by
  cases path with
  | nil => rfl
  | cons i path => simp only [missing, h, next_clr, List.length_cons]

theorem findOrCreate_go_isOk_iff {pa : PhysAddr arch} {path : List Nat} {i : Nat}
    (hnodup : (answers.map PhysFrame.addr).Nodup)
    (hunvisited : ∀ p ∈ path.inits, ∀ frame ∈ answers,
      RadixTree.walk next t.mem pa.toVirt.asArrayBase p ≠ some frame.addr.toVirt)
    : (findOrCreate.go t pa (path ++ [i]) answers).1.isOk = true ↔
        missing t.mem pa.toVirt.asArrayBase path ≤ answers.length := by
  induction path generalizing t pa answers with
  | nil => simp [findOrCreate.go, missing, Except.isOk, Except.toBool]
  | cons k path ih =>
    have hne : path ++ [i] ≠ [] := by simp
    rw [List.cons_append]
    cases hvalid : (t.mem pa.toVirt.asArrayBase k).valid with
    | true =>
      have hnext : next (t.mem pa.toVirt.asArrayBase k) =
          some (PhysAddr.toVirt (t.mem pa.toVirt.asArrayBase k).physAddr).asArrayBase := by
        simp [next, hvalid]
      rw [findOrCreate_go_valid hne hvalid]
      simp only [missing, hnext]
      apply ih hnodup
      intro p hp frame hframe
      have hwalk := hunvisited (k :: p) (by simpa using hp) frame hframe
      simpa only [RadixTree.walk, hnext] using hwalk
    | false =>
      have hnext := next_eq_none hvalid
      simp only [missing, hnext]
      cases answers with
      | nil =>
        rw [findOrCreate_go_nil hne hvalid]
        simp [Except.isOk, Except.toBool]
      | cons frame answers =>
        simp only [List.map_cons, List.nodup_cons, List.mem_map, not_exists, not_and] at hnodup
        have hbase : frame.addr.toVirt ≠ pa.toVirt.asArrayBase := by
          have hwalk := hunvisited [] (by simp) frame (by simp)
          simpa using hwalk.symm
        -- there is nothing in the new table yet
        have hclr : ∀ j, (t.create { base := pa.toVirt.asArrayBase, index := k } frame).mem
            frame.addr.toVirt.asArrayBase j = .clr := by
          intro j
          rw [asArrayBase_frame]
          simp only [create, PageTable.write, zeroed]
          rw [RadixTree.store_of_ne (fun h => hbase h.1), RadixTree.fill_self]
        rw [findOrCreate_go_create hne hvalid, ih hnodup.2, missing_of_clr hclr, List.length_cons,
          Nat.add_le_add_iff_right]
        intro p hp frame' hframe'
        cases p with
        | nil =>
          simp only [RadixTree.walk_nil, asArrayBase_frame, ne_eq, Option.some.injEq]
          intro heq
          exact hnodup.1 frame' hframe' (PhysAddr.toVirt_inj heq.symm)
        | cons j p => simp [RadixTree.walk, hclr, next_clr]

theorem map_isOk_iff {addr : VirtAddr arch} (frame : PhysFrame arch) (perm : PagePerm)
    (hnodup : (answers.map PhysFrame.addr).Nodup) (hunvisited : Unvisited t addr answers)
    : (t.map addr frame perm answers).1.isOk = true ↔ missingFor t addr ≤ answers.length := by
  have hgo := findOrCreate_go_isOk_iff (t := { t with frames := t.frames.insert (alignPageDown addr) frame })
    (i := VirtAddr.leaf (alignPageDown addr)) hnodup hunvisited
  rw [← VirtAddr.indexes_eq_path_leaf] at hgo
  refine Iff.trans ?_ hgo
  simp only [PageTable.map, findOrCreate]
  split
  next heq => simp [heq, Except.isOk, Except.toBool]
  next heq => simp [heq, Except.isOk, Except.toBool]

theorem mem_of_created {pa : PhysAddr arch} {indexes : List Nat} {frame : PhysFrame arch}
    (h : frame ∈ findOrCreate.created t pa indexes answers)
    : frame ∈ answers := by
  fun_induction findOrCreate.created t pa indexes answers with
  | case1 => simp at h
  | case2 => simp at h
  | case3 t pa answers i indexes hne ref hvalid ih => exact ih h
  | case4 => simp at h
  | case5 t pa i indexes hne ref hinvalid frame' answers t' ih =>
    rcases List.mem_cons.mp h with rfl | h
    . exact List.mem_cons_self
    . exact List.mem_cons_of_mem _ (ih h)

theorem frames_map_page (t : PageTable arch) (addr : VirtAddr arch) (frame : PhysFrame arch)
    (perm : PagePerm) (answers : List (PhysFrame arch))
    : ∃ kept, (t.map addr frame perm answers).2.frames[alignPageDown addr]? = some kept ∧
        (kept = frame ∨ kept ∈ answers) := by
  obtain ⟨hcreated, hkept⟩ := frames_findOrCreate
    { t with frames := t.frames.insert (alignPageDown addr) frame } t.root
    (VirtAddr.indexes (alignPageDown addr)) answers
  rw [frames_map]
  by_cases hpage : ∃ node ∈ findOrCreate.created
      { t with frames := t.frames.insert (alignPageDown addr) frame } t.root
      (VirtAddr.indexes (alignPageDown addr)) answers, node.addr.toVirt = alignPageDown addr
  . obtain ⟨node, hnode, heq⟩ := hpage
    have hget := hcreated node hnode
    rw [heq] at hget
    exact ⟨node, hget, .inr (mem_of_created hnode)⟩
  . simp only [not_exists, not_and] at hpage
    refine ⟨frame, ?_, .inl rfl⟩
    exact (hkept _ hpage).trans ExtTreeMap.getElem?_insert_self

/--
A call of `map` leaves no trace if it fails if and only if it does not fail: the allocator has a frame
for every table that is missing.
-/
theorem leavesNoTrace_iff {addr : VirtAddr arch} {frame : PhysFrame arch} {perm : PagePerm}
    (hfresh : Fresh t answers) (hunvisited : Unvisited t addr answers)
    : LeavesNoTrace t addr frame perm answers ↔ missingFor t addr ≤ answers.length := by
  rw [← map_isOk_iff frame perm hfresh.nodup hunvisited]
  rcases hmap : t.map addr frame perm answers with ⟨result, t'⟩
  constructor
  . intro h
    cases result with
    | ok => rfl
    | error e =>
      obtain ⟨_, hframe, hheld, _⟩ := h e t' hmap
      obtain ⟨kept, hkept, heq⟩ := frames_map_page t addr frame perm answers
      rw [hmap] at hkept
      rw [hkept] at hframe hheld
      obtain rfl | hanswer := heq
      . exact absurd rfl hframe
      . obtain hheld | hheld := hheld
        . have hmem := ExtTreeMap.mem_toList_iff_getElem?_eq_some.mpr hheld.symm
          exact absurd rfl (hfresh.live kept hanswer _ hmem)
        . simp at hheld
  . intro hok e t'' heq
    rw [hmap, Prod.mk.injEq] at heq
    rw [heq.1] at hok
    simp [Except.isOk, Except.toBool] at hok

-- With a frame for each of the two tables on the way, and without any frame.
theorem leavesNoTrace_rooted
    : LeavesNoTrace (rooted (frameAt .riscv32 0x80200000)) 0x1000 (frameAt .riscv32 0x80300000) (.W ||| .R)
          [frameAt .riscv32 0x80201000, frameAt .riscv32 0x80202000] ∧
        LeavesNoTrace (rooted (frameAt .riscv64 0x80200000)) 0x1000 (frameAt .riscv64 0x80300000) (.W ||| .R)
          [frameAt .riscv64 0x80201000, frameAt .riscv64 0x80202000] := by
  have h : ∀ arch, LeavesNoTrace (rooted (frameAt arch 0x80200000)) 0x1000 (frameAt arch 0x80300000)
      (.W ||| .R) [frameAt arch 0x80201000, frameAt arch 0x80202000] := by
    intro arch
    refine (leavesNoTrace_iff (t := rooted (frameAt arch 0x80200000)) ?_ ?_).mpr ?_
    . cases arch <;> decide +kernel
    . unfold Unvisited
      cases arch <;> decide +kernel
    . cases arch <;> decide +kernel
  exact ⟨h .riscv32, h .riscv64⟩

theorem leavesNoTrace_rooted_false
    : ¬ LeavesNoTrace (rooted (frameAt .riscv32 0x80200000)) 0x1000 (frameAt .riscv32 0x80300000)
          (.W ||| .R) [] ∧
        ¬ LeavesNoTrace (rooted (frameAt .riscv64 0x80200000)) 0x1000 (frameAt .riscv64 0x80300000)
          (.W ||| .R) [] := by
  have h : ∀ arch, ¬ LeavesNoTrace (rooted (frameAt arch 0x80200000)) 0x1000 (frameAt arch 0x80300000)
      (.W ||| .R) [] := by
    intro arch h
    have herror : ((rooted (frameAt arch 0x80200000)).map 0x1000 (frameAt arch 0x80300000) (.W ||| .R) []).1 =
        .error .notEnoughMem := by
      cases arch <;> rfl
    have hheld := (h .notEnoughMem _ (Prod.ext herror rfl)).2.1
    apply hheld
    cases arch <;> decide +kernel
  exact ⟨h .riscv32, h .riscv64⟩

section

variable {boot : Nat → PageTableEntry arch.bits} {addr addr' : VirtAddr arch} {frame : PhysFrame arch}
  {perm : PagePerm}

/--
An address outside of the direct map whose slot in the root was not populated by `clone_kernel`.
-/
def Separate (boot : Nat → PageTableEntry arch.bits) (addr : VirtAddr arch) : Prop :=
  ¬ addr.InDirectMap ∧ ∀ i ∈ addr.indexes.head?, ¬ Populated boot i

instance (addr : VirtAddr arch) : Decidable (Separate boot addr) :=
  inferInstanceAs (Decidable (_ ∧ _))

theorem Separate.alignPageDown (h : Separate boot addr) : Separate boot (Jrinx.alignPageDown addr) := by
  refine ⟨fun hin => h.1 (VirtAddr.inDirectMap_of_alignPageDown hin), ?_⟩
  rw [VirtAddr.indexes_alignPageDown]
  exact h.2

theorem own_path (h : ∀ i ∈ addr.indexes.head?, ¬ Populated boot i) : Own boot addr.path := by
  constructor
  . rw [VirtAddr.length_path]
  . rw [VirtAddr.head_path]
    exact h

theorem walk_eq_none_of_missing {mem : Memory arch} {base : VirtAddr arch} {path : List Nat}
    (h : 0 < missing mem base path)
    : RadixTree.walk next mem base path = none := by
  induction path generalizing base with
  | nil => simp [missing] at h
  | cons i path ih =>
    simp only [missing] at h
    simp only [RadixTree.walk]
    cases hnext : next (mem base i) with
    | none => rfl
    | some base' =>
      simp only [hnext] at h
      exact ih h

theorem unvisited_of_own (htree : Tree boot t) (hfresh : Fresh t answers)
    (hown : Own boot (VirtAddr.path (alignPageDown addr)))
    : Unvisited t addr answers := by
  intro path hpath frame hframe hnode
  obtain ⟨rest, hrest⟩ := List.mem_inits path _ |>.mp hpath
  rw [← hrest] at hown
  obtain ⟨held, hget, heq, _⟩ := htree.held path _ (own_of_append hown) hnode
  have hmem := ExtTreeMap.mem_toList_iff_getElem?_eq_some.mpr hget
  exact hfresh.live frame hframe _ hmem (PhysAddr.toVirt_inj heq)

theorem map_error (hok : ¬ (t.map addr frame perm answers).1.isOk = true)
    : (t.map addr frame perm answers).2 =
        (findOrCreate { t with frames := t.frames.insert (alignPageDown addr) frame } (alignPageDown addr)
          answers).2 := by
  simp only [PageTable.map] at hok ⊢
  split at hok
  . simp [Except.isOk, Except.toBool] at hok
  . next heq => rw [heq]

theorem translate_of_map_error {t' : PageTable arch} {e : InternalError} (htree : Tree boot t)
    (hfresh : Fresh { t with frames := t.frames.insert (alignPageDown addr) frame } answers)
    (haddr : Separate boot addr) (haddr' : Separate boot addr')
    (h : t.map addr frame perm answers = (.error e, t'))
    : t'.translate addr' = t.translate addr' := by
  have hpage := haddr.alignPageDown
  have hpage' := haddr'.alignPageDown
  have hinsert := tree_frames_insert htree hpage.1 frame
  obtain ⟨hcreated, _⟩ := findOrCreate_spec hinsert hfresh (own_path hpage.2)
  have hfailed : ¬ (t.map addr frame perm answers).1.isOk = true := by
    simp [h, Except.isOk, Except.toBool]
  have ht' := map_error hfailed
  rw [h] at ht'
  rw [← ht'] at hcreated
  have hentry := hcreated.entry _ (VirtAddr.leaf (alignPageDown addr')) (own_path hpage'.2)
    (VirtAddr.length_path _)
  replace hentry : t'.entry _ _ = t.entry _ _ := hentry
  have hlookup : t'.lookup addr' = t.lookup addr' := by
    rw [lookup_eq, lookup_eq, hentry, hcreated.frames _ hpage'.1]
    by_cases heq : alignPageDown addr' = alignPageDown addr
    . -- there is no entry for the page
      have hunvisited := unvisited_of_own hinsert hfresh (own_path hpage.2)
      replace hunvisited : Unvisited t addr answers := hunvisited
      have hmissing : ¬ missingFor t addr ≤ answers.length := by
        rwa [← map_isOk_iff frame perm hfresh.nodup hunvisited]
      have hnode : t.node (VirtAddr.path (alignPageDown addr)) = none :=
        walk_eq_none_of_missing (Nat.lt_of_le_of_lt (Nat.zero_le _) (Nat.lt_of_not_le hmissing))
      simp only [heq, PageTable.entry, hnode]
    . have hne : ¬ alignPageDown addr = alignPageDown addr' := fun h => heq h.symm
      simp [ExtTreeMap.getElem?_insert, hne]
  rw [translate, translate, hlookup]

end

end PageTable

end Jrinx
