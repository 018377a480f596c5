import Jrinx.Paging.PageTable

/-!
This module contains the invariant of the tree of a page table: its tables are different frames, and
every one of them is held in the map of frames. For every operation there is a lemma that says what
becomes of the valid entries in the leaves.
-/

namespace Jrinx

open Std

variable {arch : Arch}

namespace PageTable

def next (pte : PageTableEntry arch.bits) : Option (VirtAddr arch) :=
  if pte.valid then some (PhysAddr.toVirt pte.physAddr).asArrayBase else none

def node (t : PageTable arch) (path : List Nat) : Option (VirtAddr arch) :=
  RadixTree.walk next t.mem t.root.toVirt.asArrayBase path

def entry (t : PageTable arch) (path : List Nat) (i : Nat) : Option (PageTableEntry arch.bits) :=
  match t.node path with
  | some base => if (t.mem base i).valid then some (t.mem base i) else none
  | none => none

def depth (arch : Arch) : Nat := arch.indexShifts.length - 1

def Populated (boot : Nat → PageTableEntry arch.bits) (i : Nat) : Prop :=
  arch.pageEntries / 2 ≤ i ∧ i < arch.pageEntries ∧ (boot i).valid = true

instance (boot : Nat → PageTableEntry arch.bits) (i : Nat) : Decidable (Populated boot i) :=
  inferInstanceAs (Decidable (_ ∧ _ ∧ _))

def Own (boot : Nat → PageTableEntry arch.bits) (path : List Nat) : Prop :=
  path.length ≤ depth arch ∧ ∀ i ∈ path.head?, ¬ Populated boot i

structure Tree (boot : Nat → PageTableEntry arch.bits) (t : PageTable arch) : Prop where
  unshared : RadixTree.Unshared next (Own boot) t.mem t.root.toVirt.asArrayBase
  held : ∀ (path : List Nat) (base : VirtAddr arch), Own boot path → t.node path = some base →
    ∃ frame, t.frames[base]? = some frame ∧ frame.addr.toVirt = base ∧ frame.addr.InMem

/--
The frames that the allocator hands out belong to the physical memory, and they are different from
each other and from those that are alive.
-/
structure Fresh (t : PageTable arch) (answers : List (PhysFrame arch)) : Prop where
  inMem : ∀ frame ∈ answers, frame.addr.InMem
  nodup : (answers.map PhysFrame.addr).Nodup
  live : ∀ frame ∈ answers, ∀ e ∈ t.frames.toList, e.2.addr ≠ frame.addr

variable {boot : Nat → PageTableEntry arch.bits} {t t' : PageTable arch}

theorem own_of_append {p q : List Nat} (h : Own boot (p ++ q)) : Own boot p := by
  constructor
  . have := h.1
    simp only [List.length_append] at this
    omega
  . intro i hi
    apply h.2 i
    cases p with
    | nil => simp at hi
    | cons k p => simpa using hi

theorem own_closed : RadixTree.Closed (Own boot) := by
  intro p i h
  exact own_of_append h

theorem not_own_of_depth {path : List Nat} (h : path.length = depth arch) (i : Nat)
    : ¬ Own boot (path ++ [i]) := by
  intro hown
  have := hown.1
  simp only [List.length_append, List.length_singleton] at this
  omega

theorem asArrayBase_frame (frame : PhysFrame arch)
    : frame.addr.toVirt.asArrayBase = frame.addr.toVirt :=
  PhysAddr.alignPageDown_toVirt frame.aligned

theorem frame_eq_of_toVirt {frame frame' : PhysFrame arch}
    (h : frame.addr.toVirt = frame'.addr.toVirt)
    : frame = frame' := by
  cases frame
  cases frame'
  simp only [PhysFrame.mk.injEq]
  exact PhysAddr.toVirt_inj h

theorem eight_le_bits : 8 ≤ arch.bits := by
  cases arch <;> decide

theorem next_set (frame : PhysFrame arch) : next (.set frame.addr .V) = some frame.addr.toVirt := by
  have hvalid : (PageTableEntry.set frame.addr .V).valid = true := by
    rw [PageTableEntry.valid_set eight_le_bits]
    rfl
  rw [next, if_pos hvalid, PageTableEntry.physAddr_set, frame.aligned, asArrayBase_frame]

theorem next_clr : next (.clr : PageTableEntry arch.bits) = none := by
  simp [next]

theorem next_eq_none {pte : PageTableEntry arch.bits} (h : pte.valid = false) : next pte = none := by
  simp [next, h]

theorem find_go_eq {mem : Memory arch} {pa : PhysAddr arch} {path : List Nat} {i : Nat}
    : find.go mem pa (path ++ [i]) =
        match RadixTree.walk next mem pa.toVirt.asArrayBase path with
        | some base => .ok { base, index := i }
        | none => .error .invalidVirtAddr := by
  induction path generalizing pa with
  | nil => simp [find.go]
  | cons k path ih =>
    obtain ⟨l, rest, hrest⟩ := List.exists_cons_of_ne_nil (show path ++ [i] ≠ [] by simp)
    rw [List.cons_append, hrest]
    simp only [find.go, RadixTree.walk, next]
    by_cases hvalid : (mem pa.toVirt.asArrayBase k).valid = true
    . simp only [hvalid, if_true]
      rw [← hrest, ih]
    . simp [hvalid]

theorem entry_congr {path : List Nat} {i : Nat} (hnode : t'.node path = t.node path)
    (hmem : ∀ base, t.node path = some base → t'.mem base i = t.mem base i)
    : t'.entry path i = t.entry path i := by
  unfold entry
  rw [hnode]
  cases hbase : t.node path with
  | none => rfl
  | some base => simp only [hmem base hbase]

theorem Tree.congr (h : Tree boot t)
    (hnode : ∀ path, Own boot path → t'.node path = t.node path)
    (hframes : ∀ addr : VirtAddr arch, addr.InDirectMap → t'.frames[addr]? = t.frames[addr]?)
    : Tree boot t' := by
  constructor
  . intro p q base hp hq hwp hwq
    apply h.unshared p q base hp hq
    . rw [← hwp]
      exact (hnode p hp).symm
    . rw [← hwq]
      exact (hnode q hq).symm
  . intro path base hown hbase
    rw [hnode path hown] at hbase
    obtain ⟨frame, hframe, rfl, hmem⟩ := h.held path base hown hbase
    refine ⟨frame, ?_, rfl, hmem⟩
    rw [hframes _ (PhysAddr.inDirectMap_toVirt hmem)]
    exact hframe

structure Created (boot : Nat → PageTableEntry arch.bits) (t t' : PageTable arch) : Prop where
  tree : Tree boot t'
  root : t'.root = t.root
  frames : ∀ addr : VirtAddr arch, ¬ addr.InDirectMap → t'.frames[addr]? = t.frames[addr]?
  entry : ∀ (path : List Nat) (i : Nat), Own boot path → path.length = depth arch →
    t'.entry path i = t.entry path i

theorem Created.refl (h : Tree boot t) : Created boot t t :=
  ⟨h, rfl, fun _ _ => rfl, fun _ _ _ _ => rfl⟩

theorem Created.trans {t'' : PageTable arch} (h : Created boot t t') (h' : Created boot t' t'')
    : Created boot t t'' := by
  constructor
  . exact h'.tree
  . rw [h'.root, h.root]
  . intro addr haddr
    rw [h'.frames addr haddr, h.frames addr haddr]
  . intro path i hown hlen
    rw [h'.entry path i hown hlen, h.entry path i hown hlen]

theorem Fresh.not_node {frame : PhysFrame arch} {answers : List (PhysFrame arch)}
    (h : Fresh t (frame :: answers)) (htree : Tree boot t) {path : List Nat} (hown : Own boot path)
    : t.node path ≠ some frame.addr.toVirt := by
  intro hnode
  obtain ⟨held, hget, heq, _⟩ := htree.held path _ hown hnode
  have hmem := ExtTreeMap.mem_toList_iff_getElem?_eq_some.mpr hget
  exact h.live frame (by simp) _ hmem (PhysAddr.toVirt_inj heq)

theorem Fresh.create {frame : PhysFrame arch} {answers : List (PhysFrame arch)} {ref : EntryRef arch}
    (h : Fresh t (frame :: answers))
    : Fresh (t.create ref frame) answers := by
  have hnodup := h.nodup
  simp only [List.map_cons, List.nodup_cons, List.mem_map, not_exists, not_and] at hnodup
  constructor
  . intro frame' hframe'
    exact h.inMem frame' (List.mem_cons_of_mem _ hframe')
  . exact hnodup.2
  . intro frame' hframe' e he
    have hget := ExtTreeMap.mem_toList_iff_getElem?_eq_some.mp he
    simp only [PageTable.create, PageTable.write, ExtTreeMap.getElem?_insert] at hget
    split at hget
    . simp only [Option.some.injEq] at hget
      rw [← hget]
      exact fun heq => hnodup.1 frame' hframe' heq.symm
    . apply h.live frame' (List.mem_cons_of_mem _ hframe') e
      exact ExtTreeMap.mem_toList_iff_getElem?_eq_some.mpr hget

theorem node_create {frame : PhysFrame arch} {answers : List (PhysFrame arch)} {path : List Nat}
    {base : VirtAddr arch} {i : Nat} (htree : Tree boot t) (hfresh : Fresh t (frame :: answers))
    (hown : Own boot path) (hbase : t.node path = some base) (hinvalid : (t.mem base i).valid = false)
    {q : List Nat} (hq : Own boot q)
    : (t.create { base, index := i } frame).node q =
        if q = path ++ [i] then some frame.addr.toVirt else t.node q :=
  RadixTree.walk_grow own_closed htree.unshared hown hbase (next_eq_none hinvalid)
    (fun _ hq' => hfresh.not_node htree hq') next_clr (next_set frame) hq

theorem entry_create {frame : PhysFrame arch} {answers : List (PhysFrame arch)} {path : List Nat}
    {base : VirtAddr arch} {i : Nat} (htree : Tree boot t) (hfresh : Fresh t (frame :: answers))
    (hown : Own boot (path ++ [i])) (hbase : t.node path = some base)
    (hinvalid : (t.mem base i).valid = false) {q : List Nat} {k : Nat} (hq : Own boot q)
    (hlen : q.length = depth arch)
    : (t.create { base, index := i } frame).entry q k = t.entry q k := by
  have hpath := own_closed path i hown
  have hnode := node_create htree hfresh hpath hbase hinvalid hq
  by_cases heq : q = path ++ [i]
  . -- the entries of the new table are not valid
    have hne : ¬ (frame.addr.toVirt = base ∧ k = i) := by
      rintro ⟨rfl, _⟩
      exact hfresh.not_node htree hpath hbase
    have hclr : (t.create { base, index := i } frame).mem frame.addr.toVirt k = .clr := by
      simp only [create, PageTable.write, RadixTree.store_of_ne hne, zeroed, RadixTree.fill_self]
    have hnone : t.node q = none := by
      rw [heq, PageTable.node, RadixTree.walk_concat, ← PageTable.node, hbase, Option.bind_some]
      exact next_eq_none hinvalid
    rw [if_pos heq] at hnode
    simp only [entry, hnode, hnone, hclr, PageTableEntry.valid_clr, Bool.false_eq_true, if_false]
  . rw [if_neg heq] at hnode
    apply entry_congr hnode
    intro b hb
    have hne : ¬ (b = base ∧ k = i) := by
      rintro ⟨rfl, _⟩
      have hqp := htree.unshared q path b hq hpath hb hbase
      rw [hqp] at hlen
      exact not_own_of_depth hlen i hown
    have hbn : b ≠ frame.addr.toVirt := by
      rintro rfl
      exact hfresh.not_node htree hq hb
    simp only [create, PageTable.write, RadixTree.store_of_ne hne, zeroed, RadixTree.fill_of_ne hbn]

theorem created_create {frame : PhysFrame arch} {answers : List (PhysFrame arch)} {path : List Nat}
    {base : VirtAddr arch} {i : Nat} (htree : Tree boot t) (hfresh : Fresh t (frame :: answers))
    (hown : Own boot (path ++ [i])) (hbase : t.node path = some base)
    (hinvalid : (t.mem base i).valid = false)
    : Created boot t (t.create { base, index := i } frame) := by
  have hpath := own_closed path i hown
  have hnode {q : List Nat} (hq : Own boot q) := node_create htree hfresh hpath hbase hinvalid hq
  have hinMem := hfresh.inMem frame (by simp)
  constructor
  . constructor
    . exact RadixTree.Unshared.grow own_closed htree.unshared hpath hbase (next_eq_none hinvalid)
        (fun _ hq' => hfresh.not_node htree hq') next_clr (next_set frame)
    . intro q b hq hb
      rw [hnode hq] at hb
      simp only [PageTable.create, PageTable.write, ExtTreeMap.getElem?_insert]
      split at hb
      . simp only [Option.some.injEq] at hb
        subst hb
        exact ⟨frame, by simp, rfl, hinMem⟩
      . obtain ⟨held, hget, heq, hmem⟩ := htree.held q b hq hb
        refine ⟨held, ?_, heq, hmem⟩
        have hne : frame.addr.toVirt ≠ b := by
          rintro rfl
          exact hfresh.not_node htree hq hb
        simp [hne, hget]
  . rfl
  . intro addr haddr
    have hne : frame.addr.toVirt ≠ addr := by
      rintro rfl
      exact haddr (PhysAddr.inDirectMap_toVirt hinMem)
    simp [PageTable.create, PageTable.write, ExtTreeMap.getElem?_insert, hne]
  . intro q k hq hlen
    exact entry_create htree hfresh hown hbase hinvalid hq hlen

section

variable {pa : PhysAddr arch} {i : Nat} {indexes : List Nat}

theorem findOrCreate_go_valid {answers : List (PhysFrame arch)} (hne : indexes ≠ [])
    (hvalid : (t.mem pa.toVirt.asArrayBase i).valid = true)
    : findOrCreate.go t pa (i :: indexes) answers =
        findOrCreate.go t (t.mem pa.toVirt.asArrayBase i).physAddr indexes answers := by
  obtain ⟨k, rest, rfl⟩ := List.exists_cons_of_ne_nil hne
  exact if_pos hvalid

theorem findOrCreate_go_nil (hne : indexes ≠ [])
    (hinvalid : (t.mem pa.toVirt.asArrayBase i).valid = false)
    : findOrCreate.go t pa (i :: indexes) [] = (.error .notEnoughMem, t) := by
  obtain ⟨k, rest, rfl⟩ := List.exists_cons_of_ne_nil hne
  exact if_neg (ne_true_of_eq_false hinvalid)

theorem findOrCreate_go_create {frame : PhysFrame arch} {answers : List (PhysFrame arch)}
    (hne : indexes ≠ []) (hinvalid : (t.mem pa.toVirt.asArrayBase i).valid = false)
    : findOrCreate.go t pa (i :: indexes) (frame :: answers) =
        findOrCreate.go (t.create { base := pa.toVirt.asArrayBase, index := i } frame) frame.addr indexes
          answers := by
  obtain ⟨k, rest, rfl⟩ := List.exists_cons_of_ne_nil hne
  have haddr : ((t.create { base := pa.toVirt.asArrayBase, index := i } frame).read
      { base := pa.toVirt.asArrayBase, index := i }).physAddr = frame.addr := by
    simp [create, PageTable.write, read, frame.aligned]
  calc
    findOrCreate.go t pa (i :: k :: rest) (frame :: answers) = _ := if_neg (ne_true_of_eq_false hinvalid)
    _ = _ := by rw [haddr]

end

theorem findOrCreate_go_spec (done : List Nat) {ahead : List Nat} {i : Nat} {pa : PhysAddr arch}
    {answers : List (PhysFrame arch)} (htree : Tree boot t) (hfresh : Fresh t answers)
    (hown : Own boot (done ++ ahead)) (hnode : t.node done = some pa.toVirt.asArrayBase)
    : Created boot t (findOrCreate.go t pa (ahead ++ [i]) answers).2 ∧
        ∀ ref, (findOrCreate.go t pa (ahead ++ [i]) answers).1 = .ok ref →
          (findOrCreate.go t pa (ahead ++ [i]) answers).2.node (done ++ ahead) = some ref.base ∧
            ref.index = i := by
  induction ahead generalizing done t pa answers with
  | nil =>
    refine ⟨.refl htree, ?_⟩
    intro ref h
    simp only [List.nil_append, findOrCreate.go, Except.ok.injEq] at h
    subst h
    exact ⟨by rw [List.append_nil]; exact hnode, rfl⟩
  | cons k ahead ih =>
    have hassoc : done ++ k :: ahead = (done ++ [k]) ++ ahead := by simp
    have hne : ahead ++ [i] ≠ [] := by simp
    rw [List.cons_append]
    rw [hassoc] at hown ⊢
    cases hvalid : (t.mem pa.toVirt.asArrayBase k).valid with
    | true =>
      rw [findOrCreate_go_valid hne hvalid]
      refine ih (done ++ [k]) htree hfresh hown ?_
      rw [node, RadixTree.walk_concat, ← node, hnode, Option.bind_some, next, if_pos hvalid]
    | false =>
      cases answers with
      | nil =>
        rw [findOrCreate_go_nil hne hvalid]
        exact ⟨.refl htree, by simp⟩
      | cons frame answers =>
        rw [findOrCreate_go_create hne hvalid]
        have hdone := own_of_append hown
        have hcreated := created_create htree hfresh hdone hnode hvalid
        have hnode' := node_create htree hfresh (own_closed _ _ hdone) hnode hvalid hdone
        rw [if_pos rfl, ← asArrayBase_frame] at hnode'
        obtain ⟨hrest, hleaf⟩ := ih (done ++ [k]) hcreated.tree hfresh.create hown hnode'
        exact ⟨hcreated.trans hrest, hleaf⟩

theorem node_write_leaf {path : List Nat} {base : VirtAddr arch} {i : Nat}
    {pte : PageTableEntry arch.bits} (htree : Tree boot t) (hown : Own boot path)
    (hlen : path.length = depth arch) (hbase : t.node path = some base) {q : List Nat} (hq : Own boot q)
    : (t.write { base, index := i } pte).node q = t.node q :=
  RadixTree.walk_store_bottom own_closed htree.unshared hown hbase (not_own_of_depth hlen) hq

theorem Tree.write_leaf {path : List Nat} {base : VirtAddr arch} {i : Nat}
    {pte : PageTableEntry arch.bits} (htree : Tree boot t) (hown : Own boot path)
    (hlen : path.length = depth arch) (hbase : t.node path = some base)
    : Tree boot (t.write { base, index := i } pte) := by
  apply htree.congr
  . intro q hq
    exact node_write_leaf htree hown hlen hbase hq
  . intro addr _
    rfl

theorem entry_write_leaf {path : List Nat} {base : VirtAddr arch} {i : Nat}
    {pte : PageTableEntry arch.bits} (htree : Tree boot t) (hown : Own boot path)
    (hlen : path.length = depth arch) (hbase : t.node path = some base) {q : List Nat} {k : Nat}
    (hq : Own boot q)
    : (t.write { base, index := i } pte).entry q k =
        if q = path ∧ k = i then (if pte.valid then some pte else none) else t.entry q k := by
  have hnode : (t.write { base, index := i } pte).node q = t.node q :=
    node_write_leaf htree hown hlen hbase hq
  split
  . next heq =>
    obtain ⟨rfl, rfl⟩ := heq
    unfold entry
    rw [hnode, hbase]
    simp only [PageTable.write, RadixTree.store_self]
  . next hne =>
    apply entry_congr hnode
    intro b hb
    apply RadixTree.store_of_ne
    rintro ⟨rfl, rfl⟩
    exact hne ⟨htree.unshared q path b hq hown hb hbase, rfl⟩

theorem node_write_outside {base : VirtAddr arch} {i : Nat} {pte : PageTableEntry arch.bits}
    (houtside : ∀ path, Own boot path → t.node path ≠ some base) {q : List Nat} (hq : Own boot q)
    : (t.write { base, index := i } pte).node q = t.node q :=
  RadixTree.walk_store_outside own_closed houtside hq

theorem Tree.write_outside {base : VirtAddr arch} {i : Nat} {pte : PageTableEntry arch.bits}
    (htree : Tree boot t) (houtside : ∀ path, Own boot path → t.node path ≠ some base)
    : Tree boot (t.write { base, index := i } pte) := by
  apply htree.congr
  . intro q hq
    exact node_write_outside houtside hq
  . intro addr _
    rfl

theorem entry_write_outside {base : VirtAddr arch} {i : Nat} {pte : PageTableEntry arch.bits}
    (houtside : ∀ path, Own boot path → t.node path ≠ some base) {q : List Nat} {k : Nat}
    (hq : Own boot q)
    : (t.write { base, index := i } pte).entry q k = t.entry q k := by
  apply entry_congr (node_write_outside houtside hq)
  intro b hb
  apply RadixTree.store_of_ne
  rintro ⟨rfl, _⟩
  exact houtside q hq hb

theorem node_new {mem : Memory arch} {answers : List (PhysFrame arch)}
    (h : new mem boot answers = .ok t) {path : List Nat} (hown : Own boot path)
    : t.node path = if path = [] then some t.root.toVirt.asArrayBase else none := by
  cases path with
  | nil => simp [node]
  | cons i path =>
    unfold new at h
    split at h
    . simp at h
    . next frame _ =>
      simp only [Except.ok.injEq] at h
      subst h
      have hpopulated : ¬ Populated boot i := hown.2 i (by simp)
      have hinvalid : (cloneKernel (zeroed mem frame) frame.addr.toVirt.asArrayBase boot
          frame.addr.toVirt.asArrayBase i).valid = false := by
        simp only [cloneKernel, true_and]
        split
        . next hupper =>
          simp only [Populated, hupper, true_and, Bool.not_eq_true] at hpopulated
          exact hpopulated
        . simp [zeroed, asArrayBase_frame]
      simp only [node, RadixTree.walk, next_eq_none hinvalid]
      simp

theorem tree_new {mem : Memory arch} {answers : List (PhysFrame arch)}
    (h : new mem boot answers = .ok t) (hmem : ∀ frame ∈ answers, frame.addr.InMem)
    : Tree boot t := by
  have hnode {path : List Nat} (hown : Own boot path) := node_new h hown
  constructor
  . intro p q base hp hq hwp hwq
    replace hwp : t.node p = some base := hwp
    replace hwq : t.node q = some base := hwq
    rw [hnode hp] at hwp
    rw [hnode hq] at hwq
    split at hwp
    . split at hwq
      . simp_all
      . simp at hwq
    . simp at hwp
  . intro path base hown hbase
    rw [hnode hown] at hbase
    split at hbase
    . unfold new at h
      split at h
      . simp at h
      . next frame _ =>
        simp only [Except.ok.injEq] at h
        subst h
        simp only [Option.some.injEq, asArrayBase_frame] at hbase
        subst hbase
        exact ⟨frame, by simp, rfl, hmem frame (by simp)⟩
    . simp at hbase

end PageTable

end Jrinx
