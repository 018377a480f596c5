import Jrinx.Util.RadixTree

/-!
This module contains how a radix tree grows along a path: where a child is missing, a free page is
cleared and linked. What the tree leads to does not change, and all of its pages are alive.
-/

universe u v w

namespace RadixTree

variable {β : Type u} {ω : Type v} {ν : Type w}

def leaf (next : ω → Option β) (mem : β → Nat → ω) (root : β) (path : List Nat) (i : Nat) : Option ω :=
  (walk next mem root path).bind fun b => if (next (mem b i)).isSome then some (mem b i) else none

/--
No page of the tree is reached by two paths, and all of them are alive.
-/
structure Tree (next : ω → Option β) (own : List Nat → Prop) (mem : β → Nat → ω) (root : β)
    (live : β → Prop) : Prop where
  unshared : Unshared next own mem root
  live : ∀ q b, own q → walk next mem root q = some b → live b

variable {next : ω → Option β} {own : List Nat → Prop} {mem mem' : β → Nat → ω} {root : β}
  {live live' : β → Prop}

theorem leaf_congr {q : List Nat} {k : Nat}
    (hwalk : walk next mem' root q = walk next mem root q)
    (hmem : ∀ b, walk next mem root q = some b → mem' b k = mem b k)
    : leaf next mem' root q k = leaf next mem root q k := by
  rw [leaf, leaf, hwalk]
  cases hb : walk next mem root q with
  | none => rfl
  | some b => simp only [Option.bind_some, hmem b hb]

theorem Tree.congr (h : Tree next own mem root live)
    (hwalk : ∀ q, own q → walk next mem' root q = walk next mem root q)
    : Tree next own mem' root live := by
  constructor
  case unshared =>
    intro p q b hp hq hwp hwq
    rw [hwalk p hp] at hwp
    rw [hwalk q hq] at hwq
    exact h.unshared p q b hp hq hwp hwq
  case live =>
    intro q b hq hb
    rw [hwalk q hq] at hb
    exact h.live q b hq hb

theorem Closed.of_append (hclosed : Closed own) {p q : List Nat} (h : own (p ++ q)) : own p := by
  induction q using List.reverseRecOn with
  | nil => simpa using h
  | append_singleton q i ih =>
    apply ih
    apply hclosed _ i
    simpa using h

theorem Tree.mono (h : Tree next own mem root live) (hlive : ∀ b, live b → live' b)
    : Tree next own mem root live' :=
  ⟨h.unshared, fun q b hq hb => hlive b (h.live q b hq hb)⟩

theorem Tree.of_root (hclosed : Closed own) (hroot : live root)
    (hnone : ∀ i, own [i] → next (mem root i) = none)
    : Tree next own mem root live := by
  have hwalk {q : List Nat} {b : β} (hq : own q) (hb : walk next mem root q = some b)
      : q = [] ∧ b = root := by
    cases q with
    | nil => exact ⟨rfl, by simpa using hb.symm⟩
    | cons i q =>
      have hi : own [i] := hclosed.of_append (q := q) hq
      simp [walk, hnone i hi] at hb
  constructor
  case unshared =>
    intro p q b hp hq hwp hwq
    rw [(hwalk hp hwp).1, (hwalk hq hwq).1]
  case live =>
    intro q b hq hb
    rw [(hwalk hq hb).2]
    exact hroot

/--
The entries that lead to a page of the tree are links.
-/
def Linked (next : ω → Option β) (own : List Nat → Prop) (links : ω → Prop) (mem : β → Nat → ω) (root : β)
    : Prop :=
  ∀ p i b, own (p ++ [i]) → walk next mem root p = some b → (next (mem b i)).isSome = true →
    links (mem b i)

variable {links : ω → Prop}

theorem Linked.of_root (hclosed : Closed own) (hnone : ∀ i, own [i] → next (mem root i) = none)
    : Linked next own links mem root := by
  intro p i b hown hwalk hnext
  cases p with
  | nil =>
    obtain rfl : root = b := by simpa using hwalk
    simp [hnone i hown] at hnext
  | cons j p =>
    have hj : own [j] := hclosed.of_append (q := p ++ [i]) hown
    simp [walk, hnone j hj] at hwalk

/--
The free pages are different from each other and not in use.
-/
structure Free (base : ν → β) (live : β → Prop) (free : List ν) : Prop where
  nodup : (free.map base).Nodup
  fresh : ∀ n ∈ free, ¬ live (base n)

theorem Free.tail {base : ν → β} {n : ν} {free : List ν} (h : Free base live (n :: free))
    : Free base (fun b => live b ∨ base n = b) free := by
  have hnodup := h.nodup
  simp only [List.map_cons, List.nodup_cons, List.mem_map, not_exists, not_and] at hnodup
  constructor
  case nodup => exact hnodup.2
  case fresh =>
    rintro m hm (hlive | heq)
    . exact h.fresh m (List.mem_cons_of_mem _ hm) hlive
    . exact hnodup.1 m hm heq.symm

variable [DecidableEq β]

structure Grown (β : Type u) (ω : Type v) (ν : Type w) where
  -- The page at the end of the path, if there were enough free ones.
  page : Option β
  mem : β → Nat → ω
  created : List ν

def grow (next : ω → Option β) (base : ν → β) (link : ν → ω) (zero : ω) (mem : β → Nat → ω) (b : β)
    (path : List Nat) (free : List ν)
    : Grown β ω ν :=
  match path with
  | [] => { page := some b, mem, created := [] }
  | i :: path =>
    match next (mem b i) with
    | some b' => grow next base link zero mem b' path free
    | none =>
      match free with
      | [] => { page := none, mem, created := [] }
      | n :: free =>
        let g := grow next base link zero (store (fill mem (base n) zero) b i (link n)) (base n) path free
        { g with created := n :: g.created }

/--
The tree has grown by the created pages. What it leads to is still the same.
-/
structure Grows (next : ω → Option β) (own : List Nat → Prop) (base : ν → β) (root : β) (live : β → Prop)
    (mem mem' : β → Nat → ω) (created : List ν) : Prop where
  tree : Tree next own mem' root (fun b => live b ∨ ∃ n ∈ created, base n = b)
  leaf : ∀ q k, own q → (∀ i, ¬ own (q ++ [i])) → leaf next mem' root q k = leaf next mem root q k

variable {base : ν → β} {link : ν → ω} {zero : ω}

section Equations

variable {b : β} {i : Nat} {path : List Nat} {free : List ν}

theorem grow_some {b' : β} (h : next (mem b i) = some b')
    : grow next base link zero mem b (i :: path) free = grow next base link zero mem b' path free := by
  simp [grow, h]

theorem grow_nil (h : next (mem b i) = none)
    : grow next base link zero mem b (i :: path) ([] : List ν) =
        { page := none, mem, created := [] } := by
  simp [grow, h]

theorem grow_none {n : ν} (h : next (mem b i) = none)
    : grow next base link zero mem b (i :: path) (n :: free) =
        let g := grow next base link zero (store (fill mem (base n) zero) b i (link n)) (base n) path free
        { g with created := n :: g.created } := by
  simp [grow, h]

theorem created_prefix (path : List Nat) (mem : β → Nat → ω) (b : β) (free : List ν)
    : (grow next base link zero mem b path free).created <+: free := by
  induction path generalizing mem b free with
  | nil => exact List.nil_prefix
  | cons i path ih =>
    cases hnext : next (mem b i) with
    | some b' =>
      rw [grow_some hnext]
      exact ih mem b' free
    | none =>
      cases free with
      | nil =>
        rw [grow_nil hnext]
      | cons n free =>
        rw [grow_none hnext]
        exact List.cons_prefix_cons.mpr ⟨rfl, ih _ (base n) free⟩

theorem isSome_page_grow (h : path.length ≤ free.length)
    : (grow next base link zero mem b path free).page.isSome = true := by
  induction path generalizing mem b free with
  | nil => rfl
  | cons i path ih =>
    rw [List.length_cons] at h
    cases hnext : next (mem b i) with
    | some b' =>
      rw [grow_some hnext]
      exact ih (Nat.le_of_succ_le h)
    | none =>
      cases free with
      | nil => simp at h
      | cons n free =>
        rw [grow_none hnext]
        rw [List.length_cons] at h
        exact ih (Nat.le_of_succ_le_succ h)

theorem length_created_le (path : List Nat) (mem : β → Nat → ω) (b : β) (free : List ν)
    : (grow next base link zero mem b path free).created.length ≤ path.length := by
  induction path generalizing mem b free with
  | nil => rfl
  | cons i path ih =>
    cases hnext : next (mem b i) with
    | some b' =>
      rw [grow_some hnext]
      exact (ih mem b' free).trans (Nat.le_succ _)
    | none =>
      cases free with
      | nil =>
        rw [grow, hnext]
        exact Nat.zero_le _
      | cons n free =>
        rw [grow_none hnext]
        exact Nat.succ_le_succ (ih _ _ free)

end Equations

section Steps

variable {p : List Nat} {b : β} {i : Nat}

theorem leaf_link (hclosed : Closed own) (h : Tree next own mem root live) (hown : own (p ++ [i]))
    (hwalk : walk next mem root p = some b) (hnone : next (mem b i) = none) {n : ν}
    (hfresh : ¬ live (base n)) (hzero : next zero = none) (hlink : next (link n) = some (base n))
    {q : List Nat} {k : Nat} (hq : own q) (hbottom : ∀ i, ¬ own (q ++ [i]))
    : leaf next (store (fill mem (base n) zero) b i (link n)) root q k = leaf next mem root q k := by
  have hp := hclosed p i hown
  have hnew (q : List Nat) (hq : own q) : walk next mem root q ≠ some (base n) :=
    fun hb => hfresh (h.live q _ hq hb)
  have hgrow := walk_grow hclosed h.unshared hp hwalk hnone hnew hzero hlink hq
  by_cases heq : q = p ++ [i]
  . -- the entries of the new page lead to nothing
    have hne : ¬ (base n = b ∧ k = i) := by
      rintro ⟨rfl, _⟩
      exact hnew p hp hwalk
    have hbefore : walk next mem root q = none := by
      rw [heq, walk_concat, hwalk, Option.bind_some, hnone]
    rw [if_pos heq] at hgrow
    simp [leaf, hgrow, hbefore, store_of_ne hne, hzero]
  . rw [if_neg heq] at hgrow
    apply leaf_congr hgrow
    intro b' hb'
    have hne : ¬ (b' = b ∧ k = i) := by
      rintro ⟨rfl, _⟩
      obtain rfl := h.unshared q p b' hq hp hb' hwalk
      exact hbottom i hown
    have hbn : b' ≠ base n := by
      rintro rfl
      exact hnew q hq hb'
    rw [store_of_ne hne, fill_of_ne hbn]

theorem Tree.store_link (hclosed : Closed own) (h : Tree next own mem root live) (hown : own (p ++ [i]))
    (hwalk : walk next mem root p = some b) (hnone : next (mem b i) = none) {n : ν}
    (hfresh : ¬ live (base n)) (hzero : next zero = none) (hlink : next (link n) = some (base n))
    : Tree next own (store (fill mem (base n) zero) b i (link n)) root
        (fun b => live b ∨ base n = b) := by
  have hp := hclosed p i hown
  have hnew (q : List Nat) (hq : own q) : walk next mem root q ≠ some (base n) :=
    fun hb => hfresh (h.live q _ hq hb)
  constructor
  case unshared => exact h.unshared.grow hclosed hp hwalk hnone hnew hzero hlink
  case live =>
    intro q b' hq hb'
    rw [walk_grow hclosed h.unshared hp hwalk hnone hnew hzero hlink hq] at hb'
    split at hb'
    . exact .inr (by simpa using hb')
    . exact .inl (h.live q b' hq hb')

theorem Tree.store_leaf (hclosed : Closed own) (h : Tree next own mem root live) (hp : own p)
    (hbottom : ∀ i, ¬ own (p ++ [i])) (hwalk : walk next mem root p = some b) {w : ω}
    : Tree next own (store mem b i w) root live :=
  h.congr fun _ hq => walk_store_bottom hclosed h.unshared hp hwalk hbottom hq

theorem leaf_store (hclosed : Closed own) (h : Tree next own mem root live) (hp : own p)
    (hbottom : ∀ i, ¬ own (p ++ [i])) (hwalk : walk next mem root p = some b) {w : ω} {q : List Nat} {k : Nat}
    (hq : own q) (hne : ¬ (q = p ∧ k = i))
    : leaf next (store mem b i w) root q k = leaf next mem root q k := by
  apply leaf_congr (walk_store_bottom hclosed h.unshared hp hwalk hbottom hq)
  intro b' hb'
  apply store_of_ne
  rintro ⟨rfl, rfl⟩
  exact hne ⟨h.unshared q p b' hq hp hb' hwalk, rfl⟩

theorem walk_fill (hclosed : Closed own) (h : Tree next own mem root live) (hdead : ¬ live b) {w : ω}
    {q : List Nat} (hq : own q)
    : walk next (fill mem b w) root q = walk next mem root q := by
  apply walk_congr hclosed ?_ hq
  intro q' i b' hown hwalk
  apply fill_of_ne
  rintro rfl
  exact hdead (h.live q' b' (hclosed q' i hown) hwalk)

theorem leaf_fill (hclosed : Closed own) (h : Tree next own mem root live) (hdead : ¬ live b) {w : ω}
    {q : List Nat} {k : Nat} (hq : own q)
    : leaf next (fill mem b w) root q k = leaf next mem root q k := by
  apply leaf_congr (walk_fill hclosed h hdead hq)
  intro b' hb'
  apply fill_of_ne
  rintro rfl
  exact hdead (h.live q b' hq hb')

end Steps

theorem walk_store_link (hclosed : Closed own) (h : Tree next own mem root live) {p : List Nat} {b : β}
    {i : Nat} (hown : own (p ++ [i])) (hwalk : walk next mem root p = some b)
    (hnone : next (mem b i) = none) {n : ν} (hfresh : ¬ live (base n)) (hzero : next zero = none)
    (hlink : next (link n) = some (base n))
    : walk next (store (fill mem (base n) zero) b i (link n)) root (p ++ [i]) = some (base n) := by
  have hnew (q : List Nat) (hq : own q) : walk next mem root q ≠ some (base n) :=
    fun hb => hfresh (h.live q _ hq hb)
  rw [walk_grow hclosed h.unshared (hclosed p i hown) hwalk hnone hnew hzero hlink hown, if_pos rfl]

theorem grow_spec (hclosed : Closed own) (hzero : next zero = none)
    (hlink : ∀ n, next (link n) = some (base n)) (done : List Nat) {ahead : List Nat} {b : β}
    {free : List ν} (h : Tree next own mem root live) (hfree : Free base live free)
    (hown : own (done ++ ahead)) (hwalk : walk next mem root done = some b)
    : Grows next own base root live mem (grow next base link zero mem b ahead free).mem
          (grow next base link zero mem b ahead free).created ∧
        ∀ b', (grow next base link zero mem b ahead free).page = some b' →
          walk next (grow next base link zero mem b ahead free).mem root (done ++ ahead) = some b' := by
  induction ahead generalizing done b mem live free with
  | nil =>
    refine ⟨⟨h.mono fun _ => .inl, fun _ _ _ _ => rfl⟩, ?_⟩
    rintro b' hb'
    rw [List.append_nil, ← hb']
    exact hwalk
  | cons i ahead ih =>
    have hassoc : done ++ i :: ahead = (done ++ [i]) ++ ahead := by simp
    rw [hassoc] at hown ⊢
    cases hnext : next (mem b i) with
    | some b' =>
      rw [grow_some hnext]
      apply ih (done ++ [i]) h hfree hown
      rw [walk_concat, hwalk, Option.bind_some, hnext]
    | none =>
      cases free with
      | nil =>
        rw [grow_nil hnext]
        exact ⟨⟨h.mono fun _ => .inl, fun _ _ _ _ => rfl⟩, by simp⟩
      | cons n free =>
        rw [grow_none hnext]
        have hstep := hclosed.of_append hown
        have hfresh := hfree.fresh n (by simp)
        have htree := h.store_link hclosed hstep hwalk hnext hfresh hzero (hlink n)
        have hpage := walk_store_link hclosed h hstep hwalk hnext hfresh hzero (hlink n)
        obtain ⟨hgrows, hwalk'⟩ := ih (done ++ [i]) htree hfree.tail hown hpage
        refine ⟨⟨hgrows.tree.mono ?_, ?_⟩, hwalk'⟩
        . rintro b' ((hlive | heq) | ⟨m, hm, heq⟩)
          . exact .inl hlive
          . exact .inr ⟨n, by simp, heq⟩
          . exact .inr ⟨m, by simp [hm], heq⟩
        . intro q k hq hbottom
          rw [hgrows.leaf q k hq hbottom]
          exact leaf_link hclosed h hstep hwalk hnext hfresh hzero (hlink n) hq hbottom

theorem grow_induction {motive : (β → Nat → ω) → Prop} (hclosed : Closed own) (hzero : next zero = none)
    (hlink : ∀ n, next (link n) = some (base n)) (done : List Nat) {ahead : List Nat} {b : β}
    {free : List ν} (h : Tree next own mem root live) (hfree : Free base live free)
    (hown : own (done ++ ahead)) (hwalk : walk next mem root done = some b) (hinit : motive mem)
    (hkeep : ∀ {mem : β → Nat → ω} {live : β → Prop} {p : List Nat} {b : β} {i : Nat} {n : ν},
      Tree next own mem root live → own (p ++ [i]) → walk next mem root p = some b →
        next (mem b i) = none → n ∈ free → ¬ live (base n) → motive mem →
          motive (store (fill mem (base n) zero) b i (link n)))
    : motive (grow next base link zero mem b ahead free).mem := by
  induction ahead generalizing done b mem live free with
  | nil => exact hinit
  | cons i ahead ih =>
    have hassoc : done ++ i :: ahead = (done ++ [i]) ++ ahead := by simp
    rw [hassoc] at hown
    cases hnext : next (mem b i) with
    | some b' =>
      rw [grow_some hnext]
      refine ih (done ++ [i]) h hfree hown ?_ hinit hkeep
      rw [walk_concat, hwalk, Option.bind_some, hnext]
    | none =>
      cases free with
      | nil =>
        rw [grow_nil hnext]
        exact hinit
      | cons n free =>
        rw [grow_none hnext]
        have hstep := hclosed.of_append hown
        have hfresh := hfree.fresh n (by simp)
        have htree := h.store_link hclosed hstep hwalk hnext hfresh hzero (hlink n)
        have hpage := walk_store_link hclosed h hstep hwalk hnext hfresh hzero (hlink n)
        refine ih (done ++ [i]) htree hfree.tail hown hpage ?_ ?_
        . exact hkeep h hstep hwalk hnext (by simp) hfresh hinit
        . intro mem live p b i m htree hown hwalk hnext hm
          exact hkeep htree hown hwalk hnext (List.mem_cons_of_mem _ hm)

theorem grow_root (hclosed : Closed own) (hzero : next zero = none)
    (hlink : ∀ n, next (link n) = some (base n)) (done : List Nat) {ahead : List Nat} {b : β} {k : Nat}
    {free : List ν} (h : Tree next own mem root live) (hfree : Free base live free)
    (hown : own (done ++ ahead)) (hwalk : walk next mem root done = some b) (hk : ¬ own [k])
    : (grow next base link zero mem b ahead free).mem root k = mem root k := by
  apply grow_induction (motive := fun mem' => mem' root k = mem root k) hclosed hzero hlink done h hfree
    hown hwalk rfl
  intro mem' live p b i n htree hown hwalk hnext _ hfresh hroot
  have hp := hclosed p i hown
  have hnil : own [] := hclosed.of_append (q := p) (by simpa using hp)
  have hpage : root ≠ base n := by
    rintro heq
    exact hfresh (htree.live [] _ hnil (congrArg some heq))
  have hslot : ¬ (root = b ∧ k = i) := by
    rintro ⟨rfl, rfl⟩
    obtain rfl := htree.unshared p [] root hp hnil hwalk rfl
    exact hk hown
  rw [store_of_ne hslot, fill_of_ne hpage, hroot]

theorem Linked.store_link (hclosed : Closed own) (h : Tree next own mem root live)
    (hlinked : Linked next own links mem root) {p : List Nat} {b : β} {i : Nat} (hown : own (p ++ [i]))
    (hwalk : walk next mem root p = some b) (hnone : next (mem b i) = none) {n : ν}
    (hfresh : ¬ live (base n)) (hzero : next zero = none) (hlink : next (link n) = some (base n))
    (hn : links (link n))
    : Linked next own links (store (fill mem (base n) zero) b i (link n)) root := by
  have hnew (q : List Nat) (hq : own q) : walk next mem root q ≠ some (base n) :=
    fun hb => hfresh (h.live q _ hq hb)
  intro q k c hq hc hnext
  rw [walk_grow hclosed h.unshared (hclosed p i hown) hwalk hnone hnew hzero hlink (hclosed q k hq)] at hc
  by_cases hentry : c = b ∧ k = i
  . obtain ⟨rfl, rfl⟩ := hentry
    rw [store_self]
    exact hn
  . rw [store_of_ne hentry] at hnext ⊢
    split at hc
    . -- the entries of the new page lead to nothing
      obtain rfl : base n = c := by simpa using hc
      simp [hzero] at hnext
    . have hne : c ≠ base n := by
        rintro rfl
        exact hnew q (hclosed q k hq) hc
      rw [fill_of_ne hne] at hnext ⊢
      exact hlinked q k c hq hc hnext

theorem Linked.store_leaf (hclosed : Closed own) (h : Tree next own mem root live)
    (hlinked : Linked next own links mem root) {p : List Nat} {b : β} {i : Nat} (hp : own p)
    (hbottom : ∀ i, ¬ own (p ++ [i])) (hwalk : walk next mem root p = some b) {w : ω}
    : Linked next own links (store mem b i w) root := by
  intro q k c hq hc hnext
  have hown := hclosed q k hq
  rw [walk_store_bottom hclosed h.unshared hp hwalk hbottom hown] at hc
  have hne : ¬ (c = b ∧ k = i) := by
    rintro ⟨rfl, _⟩
    obtain rfl := h.unshared q p c hown hp hc hwalk
    exact hbottom k hq
  rw [store_of_ne hne] at hnext ⊢
  exact hlinked q k c hq hc hnext

theorem Linked.fill (hclosed : Closed own) (h : Tree next own mem root live)
    (hlinked : Linked next own links mem root) {b : β} (hdead : ¬ live b) {w : ω}
    : Linked next own links (fill mem b w) root := by
  intro q k c hq hc hnext
  have hown := hclosed q k hq
  rw [walk_fill hclosed h hdead hown] at hc
  have hne : c ≠ b := by
    rintro rfl
    exact hdead (h.live q c hown hc)
  rw [fill_of_ne hne] at hnext ⊢
  exact hlinked q k c hq hc hnext

theorem Linked.grow (hclosed : Closed own) (hzero : next zero = none)
    (hlink : ∀ n, next (link n) = some (base n)) (done : List Nat) {ahead : List Nat} {b : β}
    {free : List ν} (h : Tree next own mem root live) (hlinked : Linked next own links mem root)
    (hfree : Free base live free) (hlinks : ∀ n ∈ free, links (link n)) (hown : own (done ++ ahead))
    (hwalk : walk next mem root done = some b)
    : Linked next own links (grow next base link zero mem b ahead free).mem root := by
  apply grow_induction (motive := fun mem => Linked next own links mem root) hclosed hzero hlink done h
    hfree hown hwalk hlinked
  intro mem live p b i n htree hown hwalk hnext hn hfresh hlinked
  exact hlinked.store_link hclosed htree hown hwalk hnext hfresh hzero (hlink n) (hlinks n hn)

theorem leaf_store_self {p : List Nat} {b : β} {i : Nat} {w : ω}
    (hwalk : walk next (store mem b i w) root p = some b)
    : leaf next (store mem b i w) root p i = if (next w).isSome then some w else none := by
  simp only [leaf, hwalk, Option.bind_some, store_self]

end RadixTree
