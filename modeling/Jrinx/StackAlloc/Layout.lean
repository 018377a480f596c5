import Mathlib.Tactic
import Jrinx.StackAlloc.Allocator

/-!
This module contains how the blocks of the stack allocator lie in its region. They come from the bump
pointer, are allocated or cached and never overlap.
-/

namespace Jrinx

open Std

namespace StackAllocator

structure Block where
  base : Nat
  size : Nat
  deriving DecidableEq, Repr

namespace Block

def top (guard : Nat) (b : Block) : Nat := b.base + b.size + guard

def Contains (guard : Nat) (b : Block) (x : Nat) : Prop := b.base ≤ x ∧ x < b.top guard

def pages (guard : Nat) (b : Block) : List Nat := StackAllocator.pages (b.base + guard) b.size

end Block

def Allocated (a : StackAllocator) (b : Block) : Prop :=
  a.allocated[b.top a.guardSize]? = some b.size

def Cached (a : StackAllocator) (b : Block) : Prop := b.base ∈ a.cached.getD b.size []

def HasBlock (a : StackAllocator) (b : Block) : Prop := a.Allocated b ∨ a.Cached b

/--
The allocated and the cached blocks are apart, below the bump pointer and aligned to pages relative to
the start of the region.
-/
structure Layout (a : StackAllocator) : Prop where
  guard_pos : 0 < a.guardSize
  guard_mod : a.guardSize % pageSize = 0
  next_mod : a.next % pageSize = a.region.1 % pageSize
  top_le : ∀ top size, a.allocated[top]? = some size → size + a.guardSize ≤ top
  size_pos : ∀ b, a.HasBlock b → 0 < b.size
  size_mod : ∀ b, a.HasBlock b → b.size % pageSize = 0
  base_mod : ∀ b, a.HasBlock b → b.base % pageSize = a.region.1 % pageSize
  top_le_next : ∀ b, a.HasBlock b → b.top a.guardSize ≤ a.next
  apart : ∀ b b' x, a.HasBlock b → a.HasBlock b' → b.Contains a.guardSize x →
    b'.Contains a.guardSize x → b = b'
  exclusive : ∀ b, a.Allocated b → ¬ a.Cached b
  nodup : ∀ size, (a.cached.getD size []).Nodup

variable {a : StackAllocator} {b b' : Block}

theorem Layout.eq_of_top (h : a.Layout) (hb : a.HasBlock b) (hb' : a.HasBlock b')
    (htop : b.top a.guardSize = b'.top a.guardSize)
    : b = b' := by
  have hpos := h.size_pos b hb
  have hpos' := h.size_pos b' hb'
  apply h.apart b b' (b.top a.guardSize - 1) hb hb'
  . simp only [Block.Contains, Block.top]
    omega
  . rw [htop]
    simp only [Block.Contains, Block.top]
    omega

theorem Block.eq_of_top_eq {guard : Nat} (htop : b.top guard = b'.top guard) (hsize : b.size = b'.size)
    : b = b' := by
  cases b
  cases b'
  simp only [Block.top, Block.mk.injEq] at *
  omega

def insertAllocated (a : StackAllocator) (b : Block) : StackAllocator :=
  { a with allocated := a.allocated.insert (b.top a.guardSize) b.size }

def eraseAllocated (a : StackAllocator) (b : Block) : StackAllocator :=
  { a with allocated := a.allocated.erase (b.top a.guardSize) }

def insertCached (a : StackAllocator) (size : Nat) (l : List Nat) : StackAllocator :=
  { a with cached := a.cached.insert size l }

theorem allocated_insertAllocated
    (hnew : ∀ b', a.Allocated b' → b'.top a.guardSize ≠ b.top a.guardSize)
    : (a.insertAllocated b).Allocated b' ↔ b' = b ∨ a.Allocated b' := by
  simp only [Allocated, insertAllocated, ExtTreeMap.getElem?_insert, Nat.compare_eq_eq]
  split
  next htop =>
    constructor
    . intro hsize
      exact .inl (Block.eq_of_top_eq htop.symm (by simpa using hsize.symm))
    . rintro (rfl | hb')
      . rfl
      . exact absurd htop.symm (hnew b' hb')
  next htop =>
    constructor
    . exact .inr
    . rintro (rfl | hb')
      . exact absurd rfl htop
      . exact hb'

theorem Layout.allocated_eraseAllocated (h : a.Layout) (halloc : a.Allocated b)
    : (a.eraseAllocated b).Allocated b' ↔ a.Allocated b' ∧ b' ≠ b := by
  simp only [Allocated, eraseAllocated, ExtTreeMap.getElem?_erase, Nat.compare_eq_eq]
  split
  next htop =>
    constructor
    . intro hnone
      simp at hnone
    . rintro ⟨hb', hne⟩
      exact absurd (h.eq_of_top (.inl hb') (.inl halloc) htop.symm) hne
  next htop =>
    constructor
    . intro hb'
      refine ⟨hb', ?_⟩
      rintro rfl
      exact htop rfl
    . exact fun hb' => hb'.1

theorem cached_insertCached {size : Nat} {l : List Nat}
    : (a.insertCached size l).Cached b ↔ if b.size = size then b.base ∈ l else a.Cached b := by
  simp only [Cached, insertCached, ExtTreeMap.getD_insert, Nat.compare_eq_eq]
  split
  next h => simp [h]
  next h => simp [Ne.symm h]

theorem Layout.update (h : a.Layout) {allocated : ExtTreeMap Nat Nat}
    {cached : ExtTreeMap Nat (List Nat)}
    (hsub : ∀ b, HasBlock { a with allocated, cached } b → a.HasBlock b)
    (htop : ∀ top size, allocated[top]? = some size → size + a.guardSize ≤ top)
    (hexclusive : ∀ b, Allocated { a with allocated, cached } b →
      ¬ Cached { a with allocated, cached } b)
    (hnodup : ∀ size, (cached.getD size []).Nodup)
    : Layout { a with allocated, cached } where
  guard_pos := h.guard_pos
  guard_mod := h.guard_mod
  next_mod := h.next_mod
  top_le := htop
  size_pos b hb := h.size_pos b (hsub b hb)
  size_mod b hb := h.size_mod b (hsub b hb)
  base_mod b hb := h.base_mod b (hsub b hb)
  top_le_next b hb := h.top_le_next b (hsub b hb)
  apart b b' x hb hb' := h.apart b b' x (hsub b hb) (hsub b' hb')
  exclusive := hexclusive
  nodup := hnodup

theorem Layout.top_le_insert (h : a.Layout) (top size : Nat)
    (hmem : (a.insertAllocated b).allocated[top]? = some size)
    : size + a.guardSize ≤ top := by
  simp only [insertAllocated, ExtTreeMap.getElem?_insert, Nat.compare_eq_eq] at hmem
  split at hmem
  next htop =>
    obtain rfl : b.size = size := by simpa using hmem
    simp only [← htop, Block.top]
    omega
  next => exact h.top_le top size hmem

theorem Layout.top_le_erase (h : a.Layout) (top size : Nat)
    (hmem : (a.eraseAllocated b).allocated[top]? = some size)
    : size + a.guardSize ≤ top := by
  simp only [eraseAllocated, ExtTreeMap.getElem?_erase] at hmem
  split at hmem
  next => simp at hmem
  next => exact h.top_le top size hmem

theorem Layout.nodup_insert (h : a.Layout) {key : Nat} {l : List Nat} (hl : l.Nodup) (size : Nat)
    : ((a.insertCached key l).cached.getD size []).Nodup := by
  rw [insertCached, ExtTreeMap.getD_insert]
  split
  . exact hl
  . exact h.nodup size

section Transitions

theorem Layout.cached_of_cons (h : a.Layout) {rest : List Nat}
    (hcached : a.cached.getD b.size [] = b.base :: rest)
    : a.Cached b ∧ ∀ b', (a.insertCached b.size rest).Cached b' ↔ a.Cached b' ∧ b' ≠ b := by
  have hnodup := h.nodup b.size
  rw [hcached, List.nodup_cons] at hnodup
  refine ⟨by simp [Cached, hcached], ?_⟩
  intro b'
  rw [cached_insertCached]
  split
  next hsize =>
    have hb' : a.Cached b' ↔ b'.base = b.base ∨ b'.base ∈ rest := by
      simp [Cached, hsize, hcached]
    have heq : b' = b ↔ b'.base = b.base := by
      constructor
      . rintro rfl
        rfl
      . intro hbase
        cases b
        cases b'
        simp_all
    rw [hb', Ne, heq]
    constructor
    . intro hmem
      refine ⟨.inr hmem, ?_⟩
      intro hbase
      rw [hbase] at hmem
      exact hnodup.1 hmem
    . rintro ⟨hbase | hmem, hne⟩
      . exact absurd hbase hne
      . exact hmem
  next hsize =>
    constructor
    . intro hb'
      refine ⟨hb', ?_⟩
      rintro rfl
      exact hsize rfl
    . exact fun hb' => hb'.1

structure Moves (a a' : StackAllocator) : Prop where
  layout : a'.Layout
  guard : a'.guardSize = a.guardSize
  region : a'.region = a.region
  next_le : a.next ≤ a'.next
  blocks : ∀ b, a'.HasBlock b → a.HasBlock b ∨ b.base = a.next

-- The block `b` is taken for a stack.
structure Takes (a a' : StackAllocator) (b : Block) : Prop extends Moves a a' where
  free : ∀ b', a.Allocated b' → b'.top a.guardSize ≠ b.top a.guardSize
  allocated : ∀ b', a'.Allocated b' ↔ b' = b ∨ a.Allocated b'

-- The stack of the block `b` is given back.
structure Gives (a a' : StackAllocator) (b : Block) : Prop extends Moves a a' where
  allocated : ∀ b', a'.Allocated b' ↔ a.Allocated b' ∧ b' ≠ b

theorem Layout.reuse (h : a.Layout) {rest : List Nat}
    (hcached : a.cached.getD b.size [] = b.base :: rest)
    : Takes a ((a.insertCached b.size rest).insertAllocated b) b := by
  obtain ⟨hb, hrest⟩ := h.cached_of_cons hcached
  have hfree : ∀ b', a.Allocated b' → b'.top a.guardSize ≠ b.top a.guardSize := by
    intro b' hb' htop
    obtain rfl := h.eq_of_top (.inl hb') (.inr hb) htop
    exact h.exclusive b' hb' hb
  have halloc (b' : Block)
      : ((a.insertCached b.size rest).insertAllocated b).Allocated b' ↔ b' = b ∨ a.Allocated b' :=
    allocated_insertAllocated (a := a.insertCached b.size rest) hfree
  have hblocks (b' : Block) (hb' : ((a.insertCached b.size rest).insertAllocated b).HasBlock b')
      : a.HasBlock b' := by
    rcases hb' with hb' | hb'
    . rcases (halloc b').mp hb' with rfl | hb'
      . exact .inr hb
      . exact .inl hb'
    . exact .inr ((hrest b').mp hb').1
  have hnodup := h.nodup b.size
  rw [hcached, List.nodup_cons] at hnodup
  refine ⟨⟨?_, rfl, rfl, Nat.le_refl _, fun b' hb' => .inl (hblocks b' hb')⟩, hfree, halloc⟩
  apply h.update hblocks h.top_le_insert _ (h.nodup_insert hnodup.2)
  intro b' hb' hcached'
  obtain ⟨hold, hne⟩ := (hrest b').mp hcached'
  rcases (halloc b').mp hb' with rfl | hb'
  . exact hne rfl
  . exact h.exclusive b' hb' hold

theorem cached_insertCached_nil {size : Nat} (hcached : a.cached.getD size [] = [])
    : (a.insertCached size []).Cached b ↔ a.Cached b := by
  rw [cached_insertCached]
  split
  next hsize => simp [Cached, hsize, hcached]
  next => rfl

theorem Layout.insertCached_nil (h : a.Layout) {size : Nat} (hcached : a.cached.getD size [] = [])
    : Moves a (a.insertCached size []) := by
  have hblocks (b : Block) (hb : (a.insertCached size []).HasBlock b) : a.HasBlock b := by
    rcases hb with hb | hb
    . exact .inl hb
    . exact .inr ((cached_insertCached_nil hcached).mp hb)
  refine ⟨?_, rfl, rfl, Nat.le_refl _, fun b hb => .inl (hblocks b hb)⟩
  apply h.update hblocks h.top_le _ (h.nodup_insert List.nodup_nil)
  intro b hb hcached'
  exact h.exclusive b hb ((cached_insertCached_nil hcached).mp hcached')

theorem Layout.carve (h : a.Layout) (hbase : b.base = a.next) (hpos : 0 < b.size)
    (hmod : b.size % pageSize = 0)
    : Takes a (insertAllocated { a with next := a.next + (b.size + a.guardSize) } b) b := by
  have hfree : ∀ b', a.Allocated b' → b'.top a.guardSize ≠ b.top a.guardSize := by
    intro b' hb' htop
    have hle := h.top_le_next b' (.inl hb')
    rw [htop, Block.top, hbase] at hle
    omega
  have halloc (b' : Block)
      : (insertAllocated { a with next := a.next + (b.size + a.guardSize) } b).Allocated b' ↔
          b' = b ∨ a.Allocated b' :=
    allocated_insertAllocated (a := { a with next := a.next + (b.size + a.guardSize) }) hfree
  have hblocks (b' : Block)
      : (insertAllocated { a with next := a.next + (b.size + a.guardSize) } b).HasBlock b' ↔
          b' = b ∨ a.HasBlock b' := by
    rw [HasBlock, halloc, HasBlock, or_assoc]
    rfl
  have hold (b' : Block) (x : Nat) (hb' : a.HasBlock b') (hx : b'.Contains a.guardSize x)
      : ¬ b.Contains a.guardSize x := by
    have hle := h.top_le_next b' hb'
    simp only [Block.Contains, hbase] at hx ⊢
    omega
  refine ⟨⟨?_, rfl, rfl, Nat.le_add_right _ _, ?_⟩, hfree, halloc⟩
  . constructor
    case guard_pos => exact h.guard_pos
    case guard_mod => exact h.guard_mod
    case next_mod =>
      have hguard := h.guard_mod
      have hnext := h.next_mod
      simp only [insertAllocated, pageSize] at *
      omega
    case top_le => exact h.top_le_insert
    case size_pos =>
      intro b' hb'
      rcases (hblocks b').mp hb' with rfl | hb'
      . exact hpos
      . exact h.size_pos b' hb'
    case size_mod =>
      intro b' hb'
      rcases (hblocks b').mp hb' with rfl | hb'
      . exact hmod
      . exact h.size_mod b' hb'
    case base_mod =>
      intro b' hb'
      rcases (hblocks b').mp hb' with rfl | hb'
      . rw [hbase]
        exact h.next_mod
      . exact h.base_mod b' hb'
    case top_le_next =>
      intro b' hb'
      rcases (hblocks b').mp hb' with rfl | hb'
      . simp only [insertAllocated, Block.top, hbase]
        omega
      . exact (h.top_le_next b' hb').trans (Nat.le_add_right _ _)
    case apart =>
      intro b₁ b₂ x hb₁ hb₂ hx₁ hx₂
      rcases (hblocks b₁).mp hb₁ with rfl | hold₁ <;> rcases (hblocks b₂).mp hb₂ with rfl | hold₂
      . rfl
      . exact absurd hx₁ (hold b₂ x hold₂ hx₂)
      . exact absurd hx₂ (hold b₁ x hold₁ hx₁)
      . exact h.apart b₁ b₂ x hold₁ hold₂ hx₁ hx₂
    case exclusive =>
      intro b' hb' hcached
      rcases (halloc b').mp hb' with rfl | hb'
      . -- a cached block ends at the bump pointer or below
        have hle := h.top_le_next b' (.inr hcached)
        rw [Block.top, hbase] at hle
        omega
      . exact h.exclusive b' hb' hcached
    case nodup => exact h.nodup
  . intro b' hb'
    rcases (hblocks b').mp hb' with rfl | hb'
    . exact .inr hbase
    . exact .inl hb'

theorem Moves.takes {a₁ a₂ : StackAllocator} (h : Moves a a₁) (hnext : a₁.next = a.next)
    (hsame : ∀ b, a₁.Allocated b ↔ a.Allocated b) (htakes : Takes a₁ a₂ b)
    : Takes a a₂ b := by
  refine ⟨⟨htakes.layout, htakes.guard.trans h.guard, htakes.region.trans h.region,
    h.next_le.trans htakes.next_le, ?_⟩, ?_, ?_⟩
  . intro b' hb'
    rcases htakes.blocks b' hb' with hb' | hbase
    . exact h.blocks b' hb'
    . exact .inr (hbase.trans hnext)
  . intro b' hb'
    rw [← h.guard]
    exact htakes.free b' ((hsame b').mpr hb')
  . intro b'
    rw [htakes.allocated, hsame]

theorem Layout.release (h : a.Layout) (hb : a.Allocated b) : Gives a (a.eraseAllocated b) b := by
  have halloc (b' : Block) : (a.eraseAllocated b).Allocated b' ↔ a.Allocated b' ∧ b' ≠ b :=
    h.allocated_eraseAllocated hb
  have hblocks (b' : Block) (hb' : (a.eraseAllocated b).HasBlock b') : a.HasBlock b' := by
    rcases hb' with hb' | hb'
    . exact .inl ((halloc b').mp hb').1
    . exact .inr hb'
  refine ⟨⟨?_, rfl, rfl, Nat.le_refl _, fun b' hb' => .inl (hblocks b' hb')⟩, halloc⟩
  apply h.update hblocks h.top_le_erase _ h.nodup
  intro b' hb'
  exact h.exclusive b' ((halloc b').mp hb').1

theorem Layout.recycle (h : a.Layout) (hb : a.Allocated b)
    : Gives a ((a.eraseAllocated b).insertCached b.size (b.base :: a.cached.getD b.size [])) b := by
  have halloc (b' : Block)
      : ((a.eraseAllocated b).insertCached b.size (b.base :: a.cached.getD b.size [])).Allocated b' ↔
          a.Allocated b' ∧ b' ≠ b :=
    h.allocated_eraseAllocated hb
  have hcached (b' : Block)
      (hb' : ((a.eraseAllocated b).insertCached b.size (b.base :: a.cached.getD b.size [])).Cached b')
      : b' = b ∨ a.Cached b' := by
    rw [cached_insertCached] at hb'
    split at hb'
    next hsize =>
      rcases List.mem_cons.mp hb' with hbase | hmem
      . left
        cases b
        cases b'
        simp_all
      . exact .inr (by rwa [Cached, hsize])
    next => exact .inr hb'
  have hblocks (b' : Block)
      (hb' : ((a.eraseAllocated b).insertCached b.size (b.base :: a.cached.getD b.size [])).HasBlock b')
      : a.HasBlock b' := by
    rcases hb' with hb' | hb'
    . exact .inl ((halloc b').mp hb').1
    . rcases hcached b' hb' with rfl | hb'
      . exact .inl hb
      . exact .inr hb'
  refine ⟨⟨?_, rfl, rfl, Nat.le_refl _, fun b' hb' => .inl (hblocks b' hb')⟩, halloc⟩
  apply h.update hblocks h.top_le_erase
  . intro b' hb' hcached'
    obtain ⟨hold, hne⟩ := (halloc b').mp hb'
    rcases hcached b' hcached' with rfl | hcached'
    . exact hne rfl
    . exact h.exclusive b' hold hcached'
  . apply h.nodup_insert
    exact List.nodup_cons.mpr ⟨h.exclusive b hb, h.nodup b.size⟩

end Transitions

section Pages

theorem mem_pages_iff {base size addr : Nat}
    : addr ∈ pages base size ↔ ∃ i < (size + pageSize - 1) / pageSize, addr = base + i * pageSize := by
  simp [pages, eq_comm]

theorem nodup_pages (base size : Nat) : (pages base size).Nodup := by
  apply List.nodup_range.map
  intro i j hij
  simp only [pageSize] at hij
  omega

theorem Layout.of_mem_pages (h : a.Layout) (hb : a.HasBlock b) {addr : Nat}
    (haddr : addr ∈ b.pages a.guardSize)
    : b.base + a.guardSize ≤ addr ∧ addr + pageSize ≤ b.top a.guardSize ∧
        addr % pageSize = a.region.1 % pageSize := by
  obtain ⟨i, hi, rfl⟩ := mem_pages_iff.mp haddr
  have hsize := h.size_mod b hb
  have hbase := h.base_mod b hb
  have hguard := h.guard_mod
  simp only [Block.top, pageSize] at *
  omega

theorem Layout.contains_of_mem_pages (h : a.Layout) (hb : a.HasBlock b) {addr : Nat}
    (haddr : addr ∈ b.pages a.guardSize)
    : b.Contains a.guardSize addr := by
  obtain ⟨hle, hlt, _⟩ := h.of_mem_pages hb haddr
  simp only [Block.Contains, pageSize] at *
  omega

end Pages

end StackAllocator

end Jrinx
