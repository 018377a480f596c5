import Jrinx.Driver.NetBuf
import Jrinx.Util.Outcome

/-!
This module contains the pool of `driver/src/net/net_buf.rs` together with the buffers that are out of it, and
when it is divided among them. `width` is the number of bits of a word, the products of `new` are checked in a
debug build and wrap around in a release build.
-/

namespace Jrinx

structure PoolState where
  pool : NetBufPool
  -- The length of the vector of bytes.
  bytes : Nat
  -- The buffers that have not been dropped.
  live : List NetBuf
  deriving DecidableEq, Repr

inductive PoolAction where
  | alloc
  -- The place of the buffer in the list of the live ones.
  | drop (i : Nat)
  deriving DecidableEq, Repr

namespace PoolState

def new (mode : BuildMode) (width capacity bufLen : Nat) : Outcome (Except InternalError PoolState) :=
  match NetBufPool.new capacity bufLen with
  | .error e => .next (.error e)
  | .ok pool =>
    if mode = .debug ∧ 2 ^ width ≤ capacity * bufLen then
      .panic
    else
      .next (.ok
        {
          pool := { pool with freeList := pool.freeList.map (· % 2 ^ width) }
          bytes := capacity * bufLen % 2 ^ width
          live := []
        })

def dealloc (mode : BuildMode) (pool : NetBufPool) (buf : NetBuf) : Outcome NetBufPool :=
  if mode = .debug ∧ buf.poolOffset % pool.bufLen ≠ 0 then .panic else .next (pool.dealloc buf)

def step (mode : BuildMode) (st : PoolState) (a : PoolAction) : Outcome PoolState :=
  match a with
  | .alloc =>
    match st.pool.alloc with
    | some (buf, pool) => .next { st with pool, live := buf :: st.live }
    | none => .next st
  | .drop i =>
    match st.live[i]? with
    | some buf => (dealloc mode st.pool buf).map fun pool => { st with pool, live := st.live.eraseIdx i }
    | none => .disabled

def offsets (capacity bufLen : Nat) : List Nat := (List.range capacity).map (· * bufLen)

def Apart (a b : NetBuf) : Prop :=
  a.poolOffset + a.capacity ≤ b.poolOffset ∨ b.poolOffset + b.capacity ≤ a.poolOffset

/--
Every buffer of the pool is free or live, the live ones are apart from each other and inside of the
vector, there is a free one as long as not all of them are live, and the assertion of `dealloc` holds.
-/
structure PoolPartition (mode : BuildMode) (capacity bufLen : Nat) (st : PoolState) : Prop where
  perm : (st.pool.freeList ++ st.live.map (·.poolOffset)).Perm (offsets capacity bufLen)
  apart : st.live.Pairwise Apart
  inside : ∀ buf ∈ st.live, buf.poolOffset + buf.capacity ≤ st.bytes
  alloc_none_iff : st.pool.alloc = none ↔ st.live.length = capacity
  aligned : ∀ buf ∈ st.live, buf.poolOffset % st.pool.bufLen = 0
  no_panic : ∀ a, st.step mode a ≠ .panic

/--
The free and the live offsets are all of the offsets, and every live buffer is as long as the pool says.
-/
structure Inv (capacity bufLen : Nat) (st : PoolState) : Prop where
  perm : (st.pool.freeList ++ st.live.map (·.poolOffset)).Perm (offsets capacity bufLen)
  lens : ∀ buf ∈ st.live, buf.capacity = bufLen
  bufLen_eq : st.pool.bufLen = bufLen
  bytes_eq : st.bytes = capacity * bufLen

variable {capacity bufLen : Nat} {st st' : PoolState}

theorem alloc_cases (st : PoolState)
    : (st.pool.alloc = none ∧ st.pool.freeList = []) ∨
        ∃ offset freeList, st.pool.freeList = offset :: freeList ∧
          st.pool.alloc = some (⟨0, 0, st.pool.bufLen, offset⟩, { st.pool with freeList }) := by
  unfold NetBufPool.alloc
  cases hfree : st.pool.freeList with
  | nil => exact .inl ⟨rfl, rfl⟩
  | cons offset freeList => exact .inr ⟨offset, freeList, rfl, rfl⟩

namespace Inv

theorem mem_offsets (h : Inv capacity bufLen st) {buf : NetBuf} (hmem : buf ∈ st.live)
    : ∃ i, i < capacity ∧ buf.poolOffset = i * bufLen := by
  have hin : buf.poolOffset ∈ st.pool.freeList ++ st.live.map (·.poolOffset) :=
    List.mem_append_right _ (List.mem_map_of_mem hmem)
  rw [h.perm.mem_iff] at hin
  simpa [offsets, eq_comm] using hin

theorem aligned (h : Inv capacity bufLen st) {buf : NetBuf} (hmem : buf ∈ st.live)
    : buf.poolOffset % st.pool.bufLen = 0 := by
  obtain ⟨i, -, hi⟩ := h.mem_offsets hmem
  rw [hi, h.bufLen_eq, Nat.mul_mod_left]

theorem dealloc_eq (h : Inv capacity bufLen st) (mode : BuildMode) {buf : NetBuf} (hmem : buf ∈ st.live)
    : dealloc mode st.pool buf = .next (st.pool.dealloc buf) := by
  rw [dealloc, if_neg fun hfails => hfails.2 (h.aligned hmem)]

theorem step_cases (h : Inv capacity bufLen st) (mode : BuildMode) (a : PoolAction)
    : st.step mode a = .disabled ∨ ∃ st', st.step mode a = .next st' ∧ Inv capacity bufLen st' := by
  cases a with
  | alloc =>
    right
    cases alloc_cases st with
    | inl hnone => exact ⟨st, by simp [step, hnone.1], h⟩
    | inr hsome =>
      obtain ⟨offset, freeList, hfree, halloc⟩ := hsome
      have hstep : st.step mode .alloc = .next
          {
            st with
            pool := { st.pool with freeList }
            live := ⟨0, 0, st.pool.bufLen, offset⟩ :: st.live
          } := by
        simp only [step, halloc]
      refine ⟨_, hstep, ?_, ?_, h.bufLen_eq, h.bytes_eq⟩
      . have hperm := h.perm
        rw [hfree] at hperm
        exact List.perm_middle.trans hperm
      . intro buf hbuf
        rcases List.mem_cons.mp hbuf with rfl | hbuf
        . exact h.bufLen_eq
        . exact h.lens buf hbuf
  | drop i =>
    cases hbuf : st.live[i]? with
    | none => exact .inl (by simp only [step, hbuf])
    | some buf =>
      right
      have hmem := List.mem_of_getElem? hbuf
      obtain ⟨hi, hget⟩ := List.getElem?_eq_some_iff.mp hbuf
      have hstep : st.step mode (.drop i) = .next
          { st with pool := st.pool.dealloc buf, live := st.live.eraseIdx i } := by
        simp only [step, hbuf, h.dealloc_eq mode hmem, Outcome.map_next]
      refine ⟨_, hstep, ?_, ?_, h.bufLen_eq, h.bytes_eq⟩
      . have herase : st.live.Perm (buf :: st.live.eraseIdx i) :=
          hget ▸ (List.getElem_cons_eraseIdx_perm hi).symm
        have hlive := (herase.map (·.poolOffset)).append_left st.pool.freeList
        exact List.perm_middle.symm.trans (hlive.symm.trans h.perm)
      . exact fun buf hbuf => h.lens buf (List.mem_of_mem_eraseIdx hbuf)

theorem nodup (h : Inv capacity bufLen st) (hlen : 0 < bufLen)
    : (st.live.map (·.poolOffset)).Nodup := by
  have hall : (offsets capacity bufLen).Nodup :=
    List.nodup_range.map fun i j hij => Nat.eq_of_mul_eq_mul_right hlen hij
  exact (List.nodup_append.mp (h.perm.nodup_iff.mpr hall)).2.1

theorem partition (h : Inv capacity bufLen st) (mode : BuildMode) (hlen : 0 < bufLen)
    : PoolPartition mode capacity bufLen st := by
  refine ⟨h.perm, ?_, ?_, ?_, fun buf hbuf => h.aligned hbuf, ?_⟩
  case refine_1 =>
    have hdistinct := List.pairwise_map.mp (h.nodup hlen)
    refine hdistinct.imp_of_mem ?_
    intro a b ha hb hne
    obtain ⟨i, -, hi⟩ := h.mem_offsets ha
    obtain ⟨j, -, hj⟩ := h.mem_offsets hb
    unfold Apart
    rw [h.lens a ha, h.lens b hb, hi, hj, ← Nat.succ_mul, ← Nat.succ_mul]
    rcases Nat.lt_trichotomy i j with hij | hij | hij
    . exact .inl (Nat.mul_le_mul_right _ hij)
    . exact absurd (hi.trans (hij ▸ hj.symm)) hne
    . exact .inr (Nat.mul_le_mul_right _ hij)
  case refine_2 =>
    intro buf hbuf
    obtain ⟨i, hi, heq⟩ := h.mem_offsets hbuf
    rw [heq, h.lens buf hbuf, h.bytes_eq, ← Nat.succ_mul]
    exact Nat.mul_le_mul_right _ hi
  case refine_3 =>
    have hcount : st.pool.freeList.length + st.live.length = capacity := by
      simpa [offsets] using h.perm.length_eq
    cases alloc_cases st with
    | inl hnone =>
      rw [hnone.2, List.length_nil, Nat.zero_add] at hcount
      exact ⟨fun _ => hcount, fun _ => hnone.1⟩
    | inr hsome =>
      obtain ⟨offset, freeList, hfree, halloc⟩ := hsome
      rw [hfree, List.length_cons] at hcount
      constructor
      . intro hnone
        simp [halloc] at hnone
      . omega
  case refine_4 =>
    intro a hpanic
    rcases h.step_cases mode a with hdis | ⟨st', hnext, -⟩
    . simp [hdis] at hpanic
    . simp [hnext] at hpanic

end Inv

theorem Inv.run {mode : BuildMode} {as : List PoolAction} (h : Inv capacity bufLen st)
    (hrun : Run (step mode) (fun _ _ => True) st as st')
    : Inv capacity bufLen st' := by
  refine hrun.invariant (Inv capacity bufLen) h ?_
  intro st₁ st₂ a h _ hstep
  rcases h.step_cases mode a with hdis | ⟨st₃, hnext, h⟩
  . simp [hdis] at hstep
  . rw [hnext, Outcome.next.injEq] at hstep
    exact hstep ▸ h

section

variable {mode : BuildMode} {width : Nat}

theorem new_eq_ok (h : new mode width capacity bufLen = .next (.ok st))
    : 0 < capacity ∧ 0 < bufLen ∧ (mode = .debug → capacity * bufLen < 2 ^ width) ∧
        st =
          {
            pool :=
              {
                capacity, bufLen
                freeList := (offsets capacity bufLen).reverse.map (· % 2 ^ width)
              }
            bytes := capacity * bufLen % 2 ^ width
            live := []
          } := by
  unfold new NetBufPool.new at h
  split at h
  . simp at h
  next pool hpool =>
  split at hpool
  . simp at hpool
  next hcapacity =>
  split at hpool
  . simp at hpool
  next hlen =>
  obtain rfl := Except.ok.inj hpool
  split at h
  . simp at h
  next hfits =>
  rw [NetBufPool.minBufferLen] at hlen
  refine ⟨by omega, by omega, fun hdebug => ?_, ?_⟩
  . by_contra hle
    exact hfits ⟨hdebug, by omega⟩
  . exact (Except.ok.inj (Outcome.next.inj h)).symm

theorem inv_of_new (h : new mode width capacity bufLen = .next (.ok st)) (hfits : capacity * bufLen < 2 ^ width)
    : Inv capacity bufLen st := by
  obtain ⟨_, _, _, rfl⟩ := new_eq_ok h
  have hoffsets : (offsets capacity bufLen).reverse.map (· % 2 ^ width) = (offsets capacity bufLen).reverse := by
    conv => rhs; rw [← List.map_id (offsets capacity bufLen).reverse]
    apply List.map_congr_left
    intro offset hoffset
    obtain ⟨i, hi, rfl⟩ := List.mem_map.mp (List.mem_reverse.mp hoffset)
    have hle : i * bufLen ≤ capacity * bufLen := Nat.mul_le_mul_right _ (List.mem_range.mp hi).le
    exact Nat.mod_eq_of_lt (by omega)
  refine ⟨?_, by simp, rfl, Nat.mod_eq_of_lt hfits⟩
  simp only [hoffsets, List.map_nil, List.append_nil]
  exact List.reverse_perm _

theorem alloc_new {n : Nat} (h : new mode width (n + 1) bufLen = .next (.ok st))
    : ∃ st', st.step mode .alloc = .next st' ∧ st'.bytes = st.bytes ∧
        st'.live = [⟨0, 0, bufLen, n * bufLen % 2 ^ width⟩] := by
  obtain ⟨_, _, _, rfl⟩ := new_eq_ok h
  have hoffsets : (offsets (n + 1) bufLen).reverse = n * bufLen :: (offsets n bufLen).reverse := by
    simp [offsets, List.range_succ]
  simp only [step, hoffsets, List.map_cons, NetBufPool.alloc]
  exact ⟨_, rfl, rfl, rfl⟩

/--
A pool that has been accepted is partitioned in every run if and only if its length fits into a word. A debug
build accepts no other pool, in a release build the length and the offsets wrap around.
-/
theorem poolPartition_iff (hnew : new mode width capacity bufLen = .next (.ok st))
    : (∀ as st', Run (step mode) (fun _ _ => True) st as st' → PoolPartition mode capacity bufLen st') ↔
        capacity * bufLen < 2 ^ width := by
  obtain ⟨hcapacity, hlen, _, hst⟩ := new_eq_ok hnew
  constructor
  . intro hall
    obtain ⟨n, rfl⟩ : ∃ n, capacity = n + 1 := ⟨capacity - 1, by omega⟩
    by_contra hover
    obtain ⟨st', hstep, hbytes, hlive⟩ := alloc_new hnew
    have hperm := (hall [] st (.nil st)).perm
    have hinside := (hall [.alloc] st' (.cons trivial hstep (.nil st'))).inside
    -- the last offset is in the list, so that it has not wrapped around
    have hlast : n * bufLen < 2 ^ width := by
      have hmem : n * bufLen ∈ offsets (n + 1) bufLen :=
        List.mem_map_of_mem (List.mem_range.mpr (Nat.lt_succ_self n))
      rw [← hperm.mem_iff, hst] at hmem
      simp only [List.map_nil, List.append_nil, List.mem_map] at hmem
      obtain ⟨offset, _, hoffset⟩ := hmem
      rw [← hoffset]
      exact Nat.mod_lt _ (Nat.two_pow_pos width)
    have hend := hinside _ (by rw [hlive]; exact List.mem_singleton_self _)
    have hlt : (n + 1) * bufLen % 2 ^ width < 2 ^ width := Nat.mod_lt _ (Nat.two_pow_pos width)
    simp only [hbytes, hst, Nat.mod_eq_of_lt hlast] at hend
    rw [← Nat.succ_mul, Nat.succ_eq_add_one] at hend
    omega
  . intro hfits as st' hrun
    exact ((inv_of_new hnew hfits).run hrun).partition mode hlen

end

def swapped : List PoolAction := [.alloc, .alloc, .alloc, .alloc, .drop 2, .drop 0, .alloc]

theorem poolPartition_swapped
    : ∃ st st', new .release 32 3 1526 = .next (.ok st) ∧
        Run (step .release) (fun _ _ => True) st swapped st' ∧
        st'.live.map (·.poolOffset) = [0, 1526] ∧ PoolPartition .release 3 1526 st' := by
  have hnew : new .release 32 3 1526 = .next (.ok ⟨⟨3, 1526, [3052, 1526, 0]⟩, 4578, []⟩) := by
    decide
  obtain ⟨st', hrun, hlive⟩ := exists_run_of_exec (step .release) ⟨⟨3, 1526, [3052, 1526, 0]⟩, 4578, []⟩ swapped
    (fun st' => st'.live.map (·.poolOffset) = [0, 1526]) (by decide +kernel)
  exact ⟨_, st', hnew, hrun, by simpa using hlive, (poolPartition_iff hnew).mpr (by decide) _ _ hrun⟩

-- With 65538 buffers of the largest length the vector is shorter than a single buffer, and the first buffer
-- that is handed out begins behind it.
theorem poolPartition_wrapped_false
    : ∃ st st', new .release 32 65538 65535 = .next (.ok st) ∧ st.bytes = 65534 ∧
        Run (step .release) (fun _ _ => True) st [.alloc] st' ∧ ¬ PoolPartition .release 65538 65535 st' := by
  obtain ⟨st, hnew⟩ : ∃ st, new .release 32 65538 65535 = .next (.ok st) := ⟨_, rfl⟩
  obtain ⟨_, _, _, hst⟩ := new_eq_ok hnew
  obtain ⟨st', hstep, hbytes, hlive⟩ := alloc_new hnew
  have hlength : st.bytes = 65538 * 65535 % 2 ^ 32 := by rw [hst]
  refine ⟨st, st', hnew, hlength.trans (by decide), .cons trivial hstep (.nil st'), ?_⟩
  intro hpartition
  have hend := hpartition.inside _ (by rw [hlive]; exact List.mem_singleton_self _)
  simp only [hbytes, hlength] at hend
  omega

end PoolState

end Jrinx
