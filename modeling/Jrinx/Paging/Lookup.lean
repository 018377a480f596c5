import Jrinx.Paging.Boot
import Jrinx.Paging.MapFailure

/-!
This module contains which lookups find the page that they index the map of frames with. The walk
depends on the indexes of an address only, and it may lead through tables of the boot page table, while
the key of the map is the whole address.
-/

namespace Jrinx

open Std

variable {arch : Arch}

structure LookupHistory (arch : Arch) where
  past : TableHistory arch
  -- The indexes for which the last successful call was one of `map`.
  live : List Nat → Bool

namespace LookupHistory

def init (table : PageTable arch) (root : PhysFrame arch) : LookupHistory arch where
  past := .init table root
  live := fun _ => false

def step (l : LookupHistory arch) (a : PagingAction arch) : Outcome (LookupHistory arch) :=
  (l.past.step a).map fun past =>
    match a with
    | .map addr frame perm answers =>
      let ok := (l.past.table.map addr frame perm answers).1.isOk
      { past, live := if ok then Function.update l.live addr.indexes true else l.live }
    | .unmap addr =>
      let ok := (l.past.table.unmap addr).1.isOk
      { past, live := if ok then Function.update l.live addr.indexes false else l.live }
    | .write _ _ _ => { l with past }

/--
The calls are made for addresses outside of the direct map whose slot in the root was not populated by
`clone_kernel`, the allocator does not hand out frames that are alive, and other code does not write to
the tables.
-/
def Allowed (boot : Nat → PageTableEntry arch.bits) (l : LookupHistory arch) (a : PagingAction arch)
    : Prop :=
  match a with
  | .map addr frame _ answers =>
    PageTable.Separate boot addr ∧
      PageTable.Fresh
        { l.past.table with frames := l.past.table.frames.insert (alignPageDown addr) frame } answers
  | .unmap addr => PageTable.Separate boot addr
  | .write base _ _ => ∀ frame ∈ l.past.table.frames[base]?, frame.addr.toVirt ≠ base

instance (boot : Nat → PageTableEntry arch.bits) (l : LookupHistory arch) (a : PagingAction arch)
    : Decidable (l.Allowed boot a) := by
  induction a using PagingAction.casesOn with
  | map addr frame perm answers => exact inferInstanceAs (Decidable (_ ∧ _))
  | unmap addr => exact inferInstanceAs (Decidable (PageTable.Separate boot addr))
  | write base i pte => exact inferInstanceAs (Decidable (∀ frame ∈ l.past.table.frames[base]?, _))

end LookupHistory

namespace PageTable

variable {boot : Nat → PageTableEntry arch.bits} {t : PageTable arch} {addr : VirtAddr arch}

/--
A lookup of the address does not panic: if the walk ends at a valid entry, then the page is in the map
of frames.
-/
def Total (t : PageTable arch) (addr : VirtAddr arch) : Prop :=
  t.lookup addr ≠ .panic ∧ t.translate addr ≠ .panic ∧
    ∀ ref, t.find (alignPageDown addr) = .ok ref → (t.read ref).valid = true →
      alignPageDown addr ∈ t.frames

theorem entry_isSome_iff {path : List Nat} {i : Nat}
    : (t.entry path i).isSome = true ↔ ∃ base, t.node path = some base ∧ (t.mem base i).valid = true := by
  unfold entry
  cases t.node path with
  | none => simp
  | some base => by_cases hvalid : (t.mem base i).valid = true <;> simp [hvalid]

theorem total_iff
    : t.Total addr ↔ ((t.entry addr.path addr.leaf).isSome = true → alignPageDown addr ∈ t.frames) := by
  have hpath := VirtAddr.path_alignPageDown addr
  have hleaf := VirtAddr.leaf_alignPageDown addr
  constructor
  . intro h hentry
    obtain ⟨base, hnode, hvalid⟩ := entry_isSome_iff.mp hentry
    apply h.2.2 { base, index := addr.leaf } ?_ hvalid
    rw [find_eq, hpath, hleaf, hnode]
  . intro h
    have hlookup : t.lookup addr ≠ .panic := by
      rw [lookup_eq, hpath, hleaf]
      cases hentry : t.entry addr.path addr.leaf with
      | none => simp
      | some pte =>
        have hmem := h (by simp [hentry])
        rw [ExtTreeMap.mem_iff_isSome_getElem?, Option.isSome_iff_exists] at hmem
        obtain ⟨frame, hframe⟩ := hmem
        simp [hframe]
    refine ⟨hlookup, ?_, ?_⟩
    . intro hpanic
      apply hlookup
      rw [translate] at hpanic
      cases hresult : t.lookup addr with
      | panic => rfl
      | next result => simp [hresult] at hpanic
      | disabled => simp [hresult] at hpanic
    . intro ref hfind hvalid
      apply h
      rw [find_eq, hpath, hleaf] at hfind
      cases hnode : t.node addr.path with
      | none => simp [hnode] at hfind
      | some base =>
        simp only [hnode, Except.ok.injEq] at hfind
        subst hfind
        exact entry_isSome_iff.mpr ⟨base, hnode, hvalid⟩

theorem node_ne_root {path : List Nat} (htree : Tree boot t) (hown : Own boot path) (hne : path ≠ [])
    : t.node path ≠ some t.root.toVirt.asArrayBase := by
  intro hnode
  have hnil : Own boot [] := own_of_append (q := path) (by simpa using hown)
  exact hne (htree.unshared path [] _ hown hnil hnode rfl)

theorem root_findOrCreate_go (done : List Nat) {ahead : List Nat} {i k : Nat} {pa : PhysAddr arch}
    {answers : List (PhysFrame arch)} (htree : Tree boot t) (hfresh : Fresh t answers)
    (hown : Own boot (done ++ ahead)) (hnode : t.node done = some pa.toVirt.asArrayBase)
    (hk : Populated boot k)
    : (findOrCreate.go t pa (ahead ++ [i]) answers).2.mem t.root.toVirt.asArrayBase k =
        t.mem t.root.toVirt.asArrayBase k := by
  induction ahead generalizing done t pa answers with
  | nil => rfl
  | cons j ahead ih =>
    have hassoc : done ++ j :: ahead = (done ++ [j]) ++ ahead := by simp
    have hne : ahead ++ [i] ≠ [] := by simp
    rw [List.cons_append]
    rw [hassoc] at hown
    cases hvalid : (t.mem pa.toVirt.asArrayBase j).valid with
    | true =>
      rw [findOrCreate_go_valid hne hvalid]
      refine ih (done ++ [j]) htree hfresh hown ?_
      rw [node, RadixTree.walk_concat, ← node, hnode, Option.bind_some, next, if_pos hvalid]
    | false =>
      cases answers with
      | nil => rw [findOrCreate_go_nil hne hvalid]
      | cons frame answers =>
        rw [findOrCreate_go_create hne hvalid]
        have hdone := own_of_append hown
        have hbefore := own_closed _ _ hdone
        have hcreated := created_create htree hfresh hdone hnode hvalid
        have hnode' := node_create htree hfresh hbefore hnode hvalid hdone
        rw [if_pos rfl, ← asArrayBase_frame] at hnode'
        have hslot : ¬ (t.root.toVirt.asArrayBase = pa.toVirt.asArrayBase ∧ k = j) := by
          rintro ⟨hroot, rfl⟩
          rw [← hroot] at hnode
          by_cases hnil : done = []
          . subst hnil
            exact hdone.2 k (by simp) hk
          . exact node_ne_root htree hbefore hnil hnode
        have hframe : t.root.toVirt.asArrayBase ≠ frame.addr.toVirt := by
          intro hroot
          have hnil : Own boot [] := own_of_append (q := done) (by simpa using hbefore)
          exact hfresh.not_node htree hnil (by rw [← hroot]; rfl)
        calc
          _ = (t.create { base := pa.toVirt.asArrayBase, index := j } frame).mem
              t.root.toVirt.asArrayBase k := ih (done ++ [j]) hcreated.tree hfresh.create hown hnode'
          _ = t.mem t.root.toVirt.asArrayBase k := by
            simp only [create, PageTable.write, zeroed, RadixTree.store_of_ne hslot,
              RadixTree.fill_of_ne hframe]

theorem root_findOrCreate {page : VirtAddr arch} {answers : List (PhysFrame arch)} {k : Nat}
    (htree : Tree boot t) (hfresh : Fresh t answers) (hown : Own boot page.path) (hk : Populated boot k)
    : (t.findOrCreate page answers).2.mem (t.findOrCreate page answers).2.root.toVirt.asArrayBase k =
        t.mem t.root.toVirt.asArrayBase k := by
  rw [(findOrCreate_spec htree hfresh hown).1.root, findOrCreate, VirtAddr.indexes_eq_path_leaf]
  exact root_findOrCreate_go [] htree hfresh hown rfl hk

theorem root_new {mem : Memory arch} {answers : List (PhysFrame arch)} {i : Nat}
    (h : new mem boot answers = .ok t) (hi : Populated boot i)
    : t.mem t.root.toVirt.asArrayBase i = boot i := by
  unfold new at h
  split at h
  . simp at h
  . next frame _ =>
    obtain rfl := Except.ok.inj h
    exact if_pos ⟨rfl, hi.1, hi.2.1⟩

theorem root_write {path : List Nat} {base : VirtAddr arch} {i k : Nat} {pte : PageTableEntry arch.bits}
    (htree : Tree boot t) (hown : Own boot path) (hne : path ≠ []) (hbase : t.node path = some base)
    : (t.write { base, index := i } pte).mem t.root.toVirt.asArrayBase k =
        t.mem t.root.toVirt.asArrayBase k := by
  apply RadixTree.store_of_ne
  rintro ⟨rfl, _⟩
  exact node_ne_root htree hown hne hbase

theorem unmap_error (hok : ¬ (t.unmap addr).1.isOk = true)
    : (t.unmap addr).2 = { t with frames := t.frames.erase (alignPageDown addr) } := by
  have hframes := t.frames_unmap addr
  have hmem : (t.unmap addr).2.mem = t.mem ∧ (t.unmap addr).2.root = t.root := by
    simp only [unmap] at hok ⊢
    split
    . next hmem =>
      rw [if_pos hmem] at hok
      split
      . next heq => simp [heq, Except.isOk, Except.toBool] at hok
      . exact ⟨rfl, rfl⟩
    . exact ⟨rfl, rfl⟩
  rw [← hframes, ← hmem.1, ← hmem.2]

/--
The entry with the given indexes is valid or not from now on if the call was successful, all others are
as before.
-/
structure Marks (boot : Nat → PageTableEntry arch.bits) (t t' : PageTable arch) (ok : Bool)
    (indexes : List Nat) (valid : Bool) : Prop where
  tree : Tree boot t'
  entry : ∀ (path : List Nat) (i : Nat), Own boot path → path.length = depth arch →
    (t'.entry path i).isSome = if ok = true ∧ path ++ [i] = indexes then valid else (t.entry path i).isSome
  root : ∀ k, Populated boot k →
    t'.mem t'.root.toVirt.asArrayBase k = t.mem t.root.toVirt.asArrayBase k

theorem append_eq_indexes_iff {path : List Nat} {i : Nat}
    : path ++ [i] = addr.indexes ↔
        path = VirtAddr.path (alignPageDown addr) ∧ i = VirtAddr.leaf (alignPageDown addr) := by
  rw [← VirtAddr.indexes_alignPageDown, VirtAddr.indexes_eq_path_leaf, List.append_singleton_inj]

theorem marks_write {t t' : PageTable arch} (ref : EntryRef arch) (pte : PageTableEntry arch.bits)
    (htree : Tree boot t') (hown : Own boot (VirtAddr.path (alignPageDown addr)))
    (hnode : t'.node (VirtAddr.path (alignPageDown addr)) = some ref.base)
    (hindex : ref.index = VirtAddr.leaf (alignPageDown addr))
    (hentry : ∀ (path : List Nat) (i : Nat), Own boot path → path.length = depth arch →
      t'.entry path i = t.entry path i)
    (hroot : ∀ k, Populated boot k →
      t'.mem t'.root.toVirt.asArrayBase k = t.mem t.root.toVirt.asArrayBase k)
    : Marks boot t (t'.write ref pte) true addr.indexes pte.valid := by
  obtain ⟨base, index⟩ := ref
  simp only at hnode hindex
  subst hindex
  have hlen := VirtAddr.length_path (alignPageDown addr)
  constructor
  case tree => exact htree.write_leaf hown hlen hnode
  case entry =>
    intro path i hpath hdepth
    rw [entry_write_leaf htree hown hlen hnode hpath, hentry path i hpath hdepth]
    simp only [append_eq_indexes_iff, true_and]
    split
    . cases hvalid : pte.valid <;> rfl
    . rfl
  case root =>
    intro k hk
    rw [← hroot k hk]
    exact root_write htree hown (VirtAddr.path_ne_nil _) hnode

theorem marks_map {frame : PhysFrame arch} {perm : PagePerm} {answers : List (PhysFrame arch)}
    (htree : Tree boot t)
    (hfresh : Fresh { t with frames := t.frames.insert (alignPageDown addr) frame } answers)
    (haddr : Separate boot addr)
    : Marks boot t (t.map addr frame perm answers).2 (t.map addr frame perm answers).1.isOk addr.indexes
        true := by
  have hpage := haddr.alignPageDown
  have hown := own_path hpage.2
  have hinsert := tree_frames_insert htree hpage.1 frame
  obtain ⟨hcreated, hleaf⟩ := findOrCreate_spec hinsert hfresh hown
  have hroot (k : Nat) (hk : Populated boot k) := root_findOrCreate hinsert hfresh hown hk
  by_cases hok : (t.map addr frame perm answers).1.isOk = true
  . obtain ⟨ref, t', hfind, hwrite⟩ := map_ok hok
    rw [hfind] at hcreated hleaf hroot
    obtain ⟨hnode, hindex⟩ := hleaf ref rfl
    have hmarks := marks_write (t := t) ref (.set frame.addr (perm ||| .V)) hcreated.tree hown
      hnode hindex hcreated.entry hroot
    rw [PageTableEntry.valid_set eight_le_bits, PageTableEntry.contains_union_V] at hmarks
    rw [hok, hwrite]
    exact hmarks
  . rw [map_error hok]
    constructor
    case tree => exact hcreated.tree
    case entry =>
      intro path i hpath hdepth
      rw [if_neg (fun h => hok h.1), hcreated.entry path i hpath hdepth]
      rfl
    case root => exact hroot

theorem marks_unmap (htree : Tree boot t) (haddr : Separate boot addr)
    : Marks boot t (t.unmap addr).2 (t.unmap addr).1.isOk addr.indexes false := by
  have hpage := haddr.alignPageDown
  have hown := own_path hpage.2
  have herase := tree_frames_erase htree hpage.1
  by_cases hok : (t.unmap addr).1.isOk = true
  . obtain ⟨ref, hfind, hwrite⟩ := unmap_ok hok
    rw [find_eq] at hfind
    cases hnode : t.node (VirtAddr.path (alignPageDown addr)) with
    | none => simp [hnode] at hfind
    | some base =>
      simp only [hnode, Except.ok.injEq] at hfind
      subst hfind
      have hmarks := marks_write (t := t) { base, index := VirtAddr.leaf (alignPageDown addr) } .clr herase
        hown hnode rfl (fun _ _ _ _ => rfl) (fun _ _ => rfl)
      rw [PageTableEntry.valid_clr] at hmarks
      rw [hok, hwrite]
      exact hmarks
  . rw [unmap_error hok]
    constructor
    case tree => exact herase
    case entry =>
      intro path i _ _
      rw [if_neg (fun h => hok h.1)]
      rfl
    case root => exact fun _ _ => rfl

theorem unmap_isOk {base : VirtAddr arch} (hkey : alignPageDown addr ∈ t.frames)
    (hnode : t.node (VirtAddr.path (alignPageDown addr)) = some base)
    : (t.unmap addr).1.isOk = true := by
  have hfind : PageTable.find { t with frames := t.frames.erase (alignPageDown addr) } (alignPageDown addr)
      =
    .ok { base, index := VirtAddr.leaf (alignPageDown addr) } := by
    have hsame : PageTable.node { t with frames := t.frames.erase (alignPageDown addr) }
        (VirtAddr.path (alignPageDown addr)) = some base := hnode
    rw [find_eq, hsame]
  simp only [PageTable.unmap, if_pos hkey, hfind]
  rfl

end PageTable

namespace LookupHistory

variable {boot : Nat → PageTableEntry arch.bits} {l l' : LookupHistory arch} {addr : VirtAddr arch}

structure Tracks (boot : Nat → PageTableEntry arch.bits) (l : LookupHistory arch) : Prop where
  tree : PageTable.Tree boot l.past.table
  owner : l.past.Ownership
  inMem : ∀ frame ∈ l.past.nodes, frame.addr.InMem
  entry : ∀ (path : List Nat) (i : Nat), PageTable.Own boot path → path.length = PageTable.depth arch →
    (l.past.table.entry path i).isSome = l.live (path ++ [i])
  root : ∀ i, PageTable.Populated boot i →
    l.past.table.mem l.past.table.root.toVirt.asArrayBase i = boot i

theorem Tracks.not_isNode (h : l.Tracks boot) (haddr : PageTable.Separate boot addr)
    : ¬ l.past.IsNode (alignPageDown addr) := by
  rintro ⟨frame, hframe, heq⟩
  apply haddr.alignPageDown.1
  rw [← heq]
  exact PhysAddr.inDirectMap_toVirt (h.inMem frame hframe)

theorem past_of_step {a : PagingAction arch} (hstep : l.step a = .next l')
    : l.past.step a = .next l'.past := by
  obtain ⟨past, hpast, rfl⟩ := Outcome.map_eq_next hstep
  rw [hpast]
  cases a <;> rfl

theorem Tracks.of_marks {ok valid : Bool} (h : l.Tracks boot)
    (hmarks : PageTable.Marks boot l.past.table l'.past.table ok addr.indexes valid)
    (hlive : l'.live = if ok then Function.update l.live addr.indexes valid else l.live)
    (howner : l'.past.Ownership) (hinMem : ∀ frame ∈ l'.past.nodes, frame.addr.InMem)
    : l'.Tracks boot := by
  constructor
  case tree => exact hmarks.tree
  case owner => exact howner
  case inMem => exact hinMem
  case entry =>
    intro path i hown hlen
    rw [hmarks.entry path i hown hlen, h.entry path i hown hlen, hlive]
    cases ok with
    | false => simp
    | true => simp [Function.update_apply]
  case root =>
    intro k hk
    rw [hmarks.root k hk, h.root k hk]

theorem Tracks.map {frame : PhysFrame arch} {perm : PagePerm} {answers : List (PhysFrame arch)}
    (h : l.Tracks boot) (hallowed : l.Allowed boot (.map addr frame perm answers))
    (hstep : l.step (.map addr frame perm answers) = .next l')
    : l'.Tracks boot := by
  obtain ⟨haddr, hfresh⟩ := hallowed
  have howner := h.owner.map (h.not_isNode haddr) (past_of_step hstep)
  obtain rfl := Outcome.next.inj hstep
  refine h.of_marks (PageTable.marks_map h.tree hfresh haddr) rfl howner ?_
  intro node hnode
  rcases List.mem_append.mp hnode with hnode | hnode
  . exact hfresh.inMem node (PageTable.mem_of_created hnode)
  . exact h.inMem node hnode

theorem Tracks.unmap (h : l.Tracks boot) (haddr : PageTable.Separate boot addr)
    (hstep : l.step (.unmap addr) = .next l')
    : l'.Tracks boot := by
  have howner := h.owner.unmap (h.not_isNode haddr) (past_of_step hstep)
  obtain rfl := Outcome.next.inj hstep
  exact h.of_marks (PageTable.marks_unmap h.tree haddr) rfl howner h.inMem

theorem Tracks.write {base : VirtAddr arch} {i : Nat} {pte : PageTableEntry arch.bits}
    (h : l.Tracks boot) (hallowed : l.Allowed boot (.write base i pte))
    (hstep : l.step (.write base i pte) = .next l')
    : l'.Tracks boot := by
  have houtside : ∀ path, PageTable.Own boot path → l.past.table.node path ≠ some base := by
    intro path hown hnode
    obtain ⟨frame, hget, heq, _⟩ := h.tree.held path base hown hnode
    exact hallowed frame hget heq
  obtain rfl := Outcome.next.inj hstep
  constructor
  case tree => exact h.tree.write_outside houtside
  case owner => exact ⟨h.owner.nodes, h.owner.keys⟩
  case inMem => exact h.inMem
  case entry =>
    intro path i hown hlen
    dsimp only [PageTable.step]
    rw [PageTable.entry_write_outside houtside hown]
    exact h.entry path i hown hlen
  case root =>
    intro k hk
    rw [← h.root k hk]
    apply RadixTree.store_of_ne
    rintro ⟨hroot, _⟩
    have hnil : PageTable.Own boot [] := ⟨Nat.zero_le _, by simp⟩
    exact houtside [] hnil (congrArg some hroot)

theorem Tracks.after {a : PagingAction arch} (h : l.Tracks boot) (hallowed : l.Allowed boot a)
    (hstep : l.step a = .next l')
    : l'.Tracks boot := by
  cases a with
  | map addr frame perm answers => exact h.map hallowed hstep
  | unmap addr => exact h.unmap hallowed hstep
  | write base i pte => exact h.write hallowed hstep

theorem tracks_init {mem : Memory arch} {root : PhysFrame arch} {answers : List (PhysFrame arch)}
    {t : PageTable arch} (hnew : PageTable.new mem boot (root :: answers) = .ok t)
    (hmem : ∀ frame ∈ root :: answers, frame.addr.InMem)
    : (init t root).Tracks boot := by
  constructor
  case tree => exact PageTable.tree_new hnew hmem
  case owner => exact TableHistory.ownership_init hnew
  case inMem =>
    intro frame hframe
    obtain rfl : frame = root := by simpa [init, TableHistory.init] using hframe
    exact hmem frame (by simp)
  case entry =>
    intro path i hown hlen
    have hne : path ≠ [] := by
      apply List.ne_nil_of_length_pos
      rw [hlen]
      cases arch <;> decide
    have hnode := PageTable.node_new hnew hown
    rw [if_neg hne] at hnode
    simp [init, TableHistory.init, PageTable.entry, hnode]
  case root =>
    intro i hi
    exact PageTable.root_new hnew hi

/--
The walk to the address ends at a valid entry. If the slot in the root comes from the boot page table,
this is an entry of its tables, otherwise a page with the same indexes is mapped.
-/
def ReachesLeaf (boot : Nat → PageTableEntry arch.bits) (l : LookupHistory arch) (addr : VirtAddr arch)
    : Prop :=
  let i := addr.path.headD 0
  if PageTable.Populated boot i then
    ∃ base, (PageTable.next (boot i)).bind
        (RadixTree.walk PageTable.next l.past.table.mem · addr.path.tail) = some base ∧
      (l.past.table.mem base addr.leaf).valid = true
  else
    l.live addr.indexes = true

theorem Tracks.entry_isSome_iff (h : l.Tracks boot) (addr : VirtAddr arch)
    : (l.past.table.entry addr.path addr.leaf).isSome = true ↔ l.ReachesLeaf boot addr := by
  obtain ⟨i, path, hpath⟩ := List.exists_cons_of_ne_nil (VirtAddr.path_ne_nil addr)
  have hhead : addr.path.headD 0 = i := by
    rw [hpath]
    rfl
  have htail : addr.path.tail = path := by
    rw [hpath]
    rfl
  simp only [ReachesLeaf, hhead, htail]
  split
  . next hi =>
    rw [PageTable.entry_isSome_iff, PageTable.node, hpath]
    simp only [RadixTree.walk, h.root i hi]
    cases PageTable.next (boot i) <;> simp
  . next hi =>
    have hown : PageTable.Own boot addr.path := by
      refine ⟨(VirtAddr.length_path addr).le, ?_⟩
      intro k hk
      rw [hpath] at hk
      obtain rfl : i = k := by simpa using hk
      exact hi
    rw [h.entry _ _ hown (VirtAddr.length_path addr), ← VirtAddr.indexes_eq_path_leaf]

theorem tracks_of_run {mem : Memory arch} {root : PhysFrame arch} {answers : List (PhysFrame arch)}
    {t : PageTable arch} {as : List (PagingAction arch)}
    (hnew : PageTable.new mem boot (root :: answers) = .ok t)
    (hmem : ∀ frame ∈ root :: answers, frame.addr.InMem)
    (hrun : Run step (Allowed boot) (init t root) as l)
    : l.Tracks boot := by
  apply hrun.invariant (Tracks boot) (tracks_init hnew hmem)
  intro l l' a h hallowed hstep
  exact h.after hallowed hstep

/--
A lookup of an address does not panic if and only if the walk to it does not end at a valid entry, or
its page is the page of a table, or the last call for this very page was one of `map`.
-/
theorem total_iff_of_run {mem : Memory arch} {root : PhysFrame arch} {answers : List (PhysFrame arch)}
    {t : PageTable arch} {as : List (PagingAction arch)}
    (hnew : PageTable.new mem boot (root :: answers) = .ok t)
    (hmem : ∀ frame ∈ root :: answers, frame.addr.InMem)
    (hrun : Run step (Allowed boot) (init t root) as l) (addr : VirtAddr arch)
    : l.past.table.Total addr ↔
        (l.ReachesLeaf boot addr →
          l.past.IsNode (alignPageDown addr) ∨ l.past.named (alignPageDown addr) = true) := by
  have h := tracks_of_run hnew hmem hrun
  rw [PageTable.total_iff, h.entry_isSome_iff, h.owner.keys]

def Canonical (boot : Nat → PageTableEntry arch.bits) (l : LookupHistory arch) (a : PagingAction arch)
    : Prop :=
  l.Allowed boot a ∧ ∀ page ∈ a.page?, page.Canonical

def Distinct (l : LookupHistory arch) : Prop :=
  ∀ addr : VirtAddr arch, addr.Canonical → l.live addr.indexes = true →
    l.past.named (alignPageDown addr) = true

theorem page_eq_of_indexes {addr' : VirtAddr arch} (hcanonical : addr.Canonical)
    (hpage : VirtAddr.Canonical (alignPageDown addr')) (h : addr.indexes = addr'.indexes)
    : alignPageDown addr = alignPageDown addr' := by
  have heq := VirtAddr.alignPageDown_eq_of_indexes hcanonical hpage
    (h.trans VirtAddr.indexes_alignPageDown.symm)
  rwa [alignPageDown_alignPageDown] at heq

theorem Distinct.map {frame : PhysFrame arch} {perm : PagePerm} {answers : List (PhysFrame arch)}
    (h : l.Distinct) (hpage : VirtAddr.Canonical (alignPageDown addr))
    (hstep : l.step (.map addr frame perm answers) = .next l')
    : l'.Distinct := by
  obtain rfl := Outcome.next.inj hstep
  intro addr' hcanonical hlive
  simp only [Function.update_apply]
  split
  . rfl
  . next hne =>
    apply h addr' hcanonical
    dsimp only at hlive
    split at hlive
    . rwa [Function.update_of_ne] at hlive
      intro heq
      exact hne (page_eq_of_indexes hcanonical hpage heq)
    . exact hlive

theorem Distinct.unmap (h : l.Distinct) (htracks : l.Tracks boot) (haddr : PageTable.Separate boot addr)
    (hstep : l.step (.unmap addr) = .next l')
    : l'.Distinct := by
  obtain rfl := Outcome.next.inj hstep
  intro addr' hcanonical hlive
  simp only [Function.update_apply]
  by_cases hpage : alignPageDown addr' = alignPageDown addr
  . have hindexes : addr'.indexes = addr.indexes := by
      rw [← VirtAddr.indexes_alignPageDown, hpage, VirtAddr.indexes_alignPageDown]
    dsimp only at hlive
    split at hlive
    . simp [hindexes] at hlive
    . next hok =>
      -- a page that is mapped and in the map of frames is unmapped
      have hkey : alignPageDown addr ∈ l.past.table.frames := by
        rw [htracks.owner.keys, ← hpage]
        exact .inr (h addr' hcanonical hlive)
      have hown := PageTable.own_path haddr.alignPageDown.2
      have hentry := htracks.entry _ (VirtAddr.leaf (alignPageDown addr)) hown (VirtAddr.length_path _)
      rw [← VirtAddr.indexes_eq_path_leaf, VirtAddr.indexes_alignPageDown, ← hindexes, hlive] at hentry
      obtain ⟨base, hnode, _⟩ := PageTable.entry_isSome_iff.mp hentry
      exact absurd (PageTable.unmap_isOk hkey hnode) hok
  . rw [if_neg hpage]
    apply h addr' hcanonical
    dsimp only at hlive
    split at hlive
    . rw [Function.update_apply] at hlive
      split at hlive
      . simp at hlive
      . exact hlive
    . exact hlive

theorem Distinct.after {a : PagingAction arch} (h : l.Distinct) (htracks : l.Tracks boot)
    (hcanonical : l.Canonical boot a) (hstep : l.step a = .next l')
    : l'.Distinct := by
  obtain ⟨hallowed, hpage⟩ := hcanonical
  cases a with
  | map addr frame perm answers => exact h.map (hpage _ rfl) hstep
  | unmap addr => exact h.unmap htracks hallowed hstep
  | write base i pte =>
    obtain rfl := Outcome.next.inj hstep
    exact h

/--
If all calls are made for canonical addresses, then no lookup of such an address panics.
-/
theorem total_of_canonical {mem : Memory arch} {root : PhysFrame arch} {answers : List (PhysFrame arch)}
    {t : PageTable arch} {as : List (PagingAction arch)}
    (hnew : PageTable.new mem boot (root :: answers) = .ok t)
    (hmem : ∀ frame ∈ root :: answers, frame.addr.InMem)
    (hrun : Run step (Canonical boot) (init t root) as l) (haddr : PageTable.Eligible boot addr)
    : l.past.table.Total addr := by
  have hallowed : Run step (Allowed boot) (init t root) as l := hrun.mono fun _ _ h => h.1
  have hinv : l.Tracks boot ∧ l.Distinct := by
    apply hrun.invariant (fun l => l.Tracks boot ∧ l.Distinct)
    . refine ⟨tracks_init hnew hmem, ?_⟩
      intro addr _ hlive
      simp [init] at hlive
    . rintro l l' a ⟨htracks, hdistinct⟩ hcanonical hstep
      exact ⟨htracks.after hcanonical.1 hstep, hdistinct.after htracks hcanonical hstep⟩
  rw [total_iff_of_run hnew hmem hallowed]
  intro hleaf
  have hslot : ¬ PageTable.Populated boot (addr.path.headD 0) := by
    obtain ⟨i, path, hpath⟩ := List.exists_cons_of_ne_nil (VirtAddr.path_ne_nil addr)
    apply haddr.2.2
    rw [← VirtAddr.head_path, hpath]
    rfl
  simp only [ReachesLeaf, if_neg hslot] at hleaf
  exact .inr (hinv.2 addr haddr.1 hleaf)

def mapOnce (arch : Arch) : List (PagingAction arch) :=
  [.map 0x1000 (PageTable.frameAt arch 0x80300000) (.W ||| .R)
    [PageTable.frameAt arch 0x80201000, PageTable.frameAt arch 0x80202000]]

def FindsMapped (arch : Arch) : Prop :=
  ∃ l, Run step (Allowed (PageTable.remapped arch))
      (init (PageTable.rooted (PageTable.frameAt arch 0x80200000)) (PageTable.frameAt arch 0x80200000))
      (mapOnce arch) l ∧
    l.past.table.Total 0x1008

theorem total_mapOnce : FindsMapped .riscv32 ∧ FindsMapped .riscv64 := by
  have hboth : ∀ arch, FindsMapped arch := by
    intro arch
    obtain ⟨l, hrun, hnamed⟩ := exists_run_of_exec (checked step (Allowed (PageTable.remapped arch)))
      (init (PageTable.rooted (PageTable.frameAt arch 0x80200000)) (PageTable.frameAt arch 0x80200000))
      (mapOnce arch) (fun l => l.past.named (alignPageDown 0x1008)) (by cases arch <;> decide +kernel)
    have hnew : PageTable.new (fun _ _ => .clr) (PageTable.remapped arch)
        [PageTable.frameAt arch 0x80200000]
          =
        .ok (PageTable.rooted (PageTable.frameAt arch 0x80200000)) := rfl
    have hmem : ∀ frame ∈ [PageTable.frameAt arch 0x80200000], frame.addr.InMem := by
      cases arch <;> decide +kernel
    exact ⟨l, hrun.of_checked,
      (total_iff_of_run hnew hmem hrun.of_checked 0x1008).mpr fun _ => .inr hnamed⟩
  exact ⟨hboth .riscv32, hboth .riscv64⟩

def device (arch : Arch) : VirtAddr arch × PhysAddr arch :=
  match arch with
  | .riscv32 => (BitVec.ofNat _ 0xD0000000, 0)
  | .riscv64 => (BitVec.ofNat _ 0xFFFFFFFF10000000, 0x10000000)

def PanicsOnDevice (arch : Arch) : Prop :=
  ∃ b t,
    (BootPageTable.zeroed (PageTable.frameAt arch 0x80200000) (fun _ _ => .clr)
        [PageTable.frameAt arch 0x80201000, PageTable.frameAt arch 0x80202000]).init.map (device arch).1
      (device arch).2 = .next b ∧
    PageTable.new b.mem b.entries [PageTable.frameAt arch 0x80300000] = .ok t ∧
    ¬ t.Total (device arch).1

-- The address is not canonical, but its indexes are those of a mapped page.
def PanicsOnAlias : Prop :=
  ∃ l, Run step (Allowed (PageTable.remapped .riscv64))
      (init (PageTable.rooted (PageTable.frameAt .riscv64 0x80200000))
        (PageTable.frameAt .riscv64 0x80200000))
      (mapOnce .riscv64) l ∧
    ¬ l.past.table.Total (BitVec.ofNat _ (0x1000 + 2 ^ 39))

theorem total_false : PanicsOnDevice .riscv32 ∧ PanicsOnDevice .riscv64 ∧ PanicsOnAlias := by
  have hdevice : ∀ arch, PanicsOnDevice arch := by
    intro arch
    obtain ⟨b, hmap, hpanic⟩ := Outcome.holds_iff.mp
      (show ((BootPageTable.zeroed (PageTable.frameAt arch 0x80200000) (fun _ _ => .clr)
          [PageTable.frameAt arch 0x80201000, PageTable.frameAt arch 0x80202000]).init.map (device arch).1
        (device arch).2).holds (fun b =>
          match PageTable.new b.mem b.entries [PageTable.frameAt arch 0x80300000] with
          | .ok t =>
            match t.lookup (device arch).1 with
            | .panic => true
            | _ => false
          | .error _ => false) = true by cases arch <;> decide +kernel)
    split at hpanic
    . next t hnew =>
      refine ⟨b, t, hmap, hnew, ?_⟩
      intro htotal
      split at hpanic
      . next hlookup => exact htotal.1 hlookup
      . simp at hpanic
    . simp at hpanic
  have halias : PanicsOnAlias := by
    obtain ⟨l, hrun, hpanic⟩ := exists_run_of_exec
      (checked step (Allowed (PageTable.remapped .riscv64)))
      (init (PageTable.rooted (PageTable.frameAt .riscv64 0x80200000))
        (PageTable.frameAt .riscv64 0x80200000))
      (mapOnce .riscv64)
      (fun l =>
        match l.past.table.lookup (BitVec.ofNat _ (0x1000 + 2 ^ 39)) with
        | .panic => true
        | _ => false)
      (by decide +kernel)
    refine ⟨l, hrun.of_checked, ?_⟩
    intro htotal
    split at hpanic
    . next hlookup => exact htotal.1 hlookup
    . simp at hpanic
  exact ⟨hdevice .riscv32, hdevice .riscv64, halias⟩

end LookupHistory

end Jrinx
