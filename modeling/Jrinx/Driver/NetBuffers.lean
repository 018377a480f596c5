import Jrinx.Driver.VirtioNet
import Jrinx.Util.Exclusive

/-!
This module contains where the buffers of the network driver are. Every buffer of the pool is in one place
at any time, and the operations of the driver only move single buffers from one place to another.
-/

namespace Jrinx

inductive BufPlace where
  | pool
  | rx (token : Token)
  | tx (token : Token)
  | freeTx
  -- Handed out by `receive` and by `alloc_tx_buffer`.
  | received
  | allocated
  deriving DecidableEq

def IsPoolBuf (offset : Nat) : Prop := ∃ i, i < 2 * qs ∧ offset = i * netBufLen

-- The lengths of a buffer, `hdrLen` is the size of the header of the device.
def NetBuf.Sound (buf : NetBuf) (hdrLen : Nat) (place : BufPlace) : Prop :=
  buf.capacity = netBufLen ∧ buf.headerLen + buf.packetLen ≤ buf.capacity ∧
    match place with
    | .pool => buf.packetLen = 0
    -- The lengths are those of the last packet that was in it.
    | .rx _ | .received => buf.packetLen = 0 ∨ hdrLen + buf.packetLen ≤ buf.capacity
    | .tx _ | .freeTx | .allocated => buf.headerLen = hdrLen

namespace VirtQueue

variable {queue : VirtQueue} {slice : Slice} {token : Token}

theorem ensures_begin
    : Ensures (queue.begin slice token) (· = .disabled) fun queue' =>
        queue token = none ∧ queue' = Function.update queue token (some slice) := by
  unfold VirtQueue.begin
  split
  . exact .throw rfl
  . next hnone => exact .pure ⟨by simpa using hnone, rfl⟩

theorem ensures_complete (h : queue token = some slice)
    : Ensures (queue.complete token slice) (· = .disabled) fun queue' =>
        queue' = Function.update queue token none := by
  simp only [VirtQueue.complete, h, if_true]
  exact .pure rfl

end VirtQueue

namespace NetBuf

variable {mode : BuildMode} {buf : NetBuf}

theorem setHeaderLen_of {headerLen : Nat} (h : headerLen + buf.packetLen ≤ buf.capacity)
    : buf.setHeaderLen mode headerLen = .ok { buf with headerLen } := by
  rw [setHeaderLen, BuildMode.check_of h]
  rfl

theorem setPacketLen_of {packetLen : Nat} (h : buf.headerLen + packetLen ≤ buf.capacity)
    : buf.setPacketLen mode packetLen = .ok { buf with packetLen } := by
  rw [setPacketLen, BuildMode.check_of h]
  rfl

theorem setPacketLen_debug {packetLen : Nat} (h : buf.capacity < buf.headerLen + packetLen)
    : buf.setPacketLen .debug packetLen = .error (.panic .debugAssert) := by
  rw [setPacketLen, BuildMode.check_debug (by omega)]
  rfl

theorem ensures_setHeaderLen {headerLen : Nat} (h : headerLen + buf.packetLen ≤ buf.capacity)
    : Ensures (buf.setHeaderLen mode headerLen) (· = .disabled) (· = { buf with headerLen }) := by
  rw [setHeaderLen_of h]
  exact .pure rfl

theorem ensures_setPacketLen {packetLen : Nat} (h : buf.headerLen + packetLen ≤ buf.capacity)
    : Ensures (buf.setPacketLen mode packetLen) (· = .disabled) (· = { buf with packetLen }) := by
  rw [setPacketLen_of h]
  exact .pure rfl

end NetBuf

namespace VirtIoNetInner

def buffers (dev : VirtIoNetInner) (place : BufPlace) : List NetBuf :=
  match place with
  -- As they are when they are allocated.
  | .pool => dev.bufPool.freeList.map fun poolOffset =>
      { headerLen := 0, packetLen := 0, capacity := dev.bufPool.bufLen, poolOffset }
  | .rx token => (dev.rxBuffers token).toList
  | .tx token => (dev.txBuffers token).toList
  | .freeTx => dev.freeTxBufs
  | .received => dev.received
  | .allocated => dev.allocated

def held (dev : VirtIoNetInner) (place : BufPlace) : List Nat :=
  (dev.buffers place).map (·.poolOffset)

/--
Every buffer of the pool is in one place, its lengths fit, and the queues of the device have the slices of
the buffers that are in the slots.
-/
structure Inv (dev : VirtIoNetInner) : Prop where
  conserved : Partitioned dev.held IsPoolBuf
  sound : ∀ place, ∀ buf ∈ dev.buffers place, buf.Sound dev.raw.hdrLen place
  recvQueue : ∀ token, dev.raw.recvQueue token = (dev.rxBuffers token).map NetBuf.rawBuf
  sendQueue : ∀ token, dev.raw.sendQueue token = (dev.txBuffers token).map NetBuf.packetWithHeader

variable {mode : BuildMode} {dev dev' : VirtIoNetInner}

theorem Inv.move (h : Inv dev) {src dst : BufPlace} {buf buf' : NetBuf} {l : List NetBuf}
    (hsrc : (dev.buffers src).Perm (buf :: l)) (hsound : buf'.Sound dev.raw.hdrLen dst)
    (hne : src ≠ dst) (hoffset : buf'.poolOffset = buf.poolOffset)
    (hhdr : dev'.raw.hdrLen = dev.raw.hdrLen)
    (hbuffers : ∀ place, dev'.buffers place =
      Function.update (Function.update dev.buffers src l) dst (buf' :: dev.buffers dst) place)
    (hrecv : ∀ token, dev'.raw.recvQueue token = (dev'.rxBuffers token).map NetBuf.rawBuf)
    (hsend : ∀ token, dev'.raw.sendQueue token = (dev'.txBuffers token).map NetBuf.packetWithHeader)
    : Inv dev' := by
  have hheld : dev'.held = Function.update (Function.update dev.held src (l.map (·.poolOffset))) dst
      (buf.poolOffset :: dev.held dst) := by
    funext place
    simp only [held, hbuffers, Function.update_apply]
    split
    . simp [hoffset]
    . split
      . rfl
      . rfl
  refine ⟨?_, ?_, hrecv, hsend⟩
  . rw [hheld]
    exact h.conserved.move hne (hsrc.map _) (List.Perm.refl _)
  . intro place b hb
    rw [hbuffers, Function.update_apply] at hb
    rw [hhdr]
    split at hb
    . next hplace =>
      subst hplace
      rcases List.mem_cons.mp hb with rfl | hb
      . exact hsound
      . exact h.sound _ _ hb
    . rw [Function.update_apply] at hb
      split at hb
      . next hplace =>
        subst hplace
        exact h.sound _ _ (hsrc.mem_iff.mpr (List.mem_cons_of_mem _ hb))
      . exact h.sound _ _ hb

theorem update_eq_map {queue : VirtQueue} {slots : Token → Option NetBuf} {f : NetBuf → Slice}
    (h : ∀ t, queue t = (slots t).map f) (token : Token) (slot : Option NetBuf)
    : ∀ t, Function.update queue token (slot.map f) t =
        (Function.update slots token slot t).map f := by
  intro t
  rw [Function.update_apply, Function.update_apply, apply_ite (Option.map f), h t]

def SlotKept (slot slot' : Option NetBuf) : Prop := slot' = slot ∨ slot = none ∨ slot' = none

structure Keeps (dev : VirtIoNetInner) (r : Except InternalError Unit × VirtIoNetInner) : Prop where
  inv : Inv r.2
  bufPool : r.2.bufPool = dev.bufPool
  hdrLen : r.2.raw.hdrLen = dev.raw.hdrLen
  rxKept : ∀ token, SlotKept (dev.rxBuffers token) (r.2.rxBuffers token)
  txKept : ∀ token, SlotKept (dev.txBuffers token) (r.2.txBuffers token)
  goodState : r.1 ≠ .error .devBadState

theorem SlotKept.rfl {slot : Option NetBuf} : SlotKept slot slot := .inl (Eq.refl slot)

theorem Keeps.unchanged (h : Inv dev) {result : Except InternalError Unit}
    (hresult : result ≠ .error .devBadState)
    : dev.Keeps (result, dev) :=
  ⟨h, rfl, rfl, fun _ => .rfl, fun _ => .rfl, hresult⟩

theorem slotKept_update {slots : Token → Option NetBuf} {token : Token} {slot : Option NetBuf}
    (h : SlotKept (slots token) slot)
    : ∀ t, SlotKept (slots t) (Function.update slots token slot t) := by
  intro t
  rw [Function.update_apply]
  split
  . next ht =>
    subst ht
    exact h
  . exact .rfl

theorem perm_eraseIdx {bufs : List NetBuf} {i : Nat} {buf : NetBuf} (h : bufs[i]? = some buf)
    : bufs.Perm (buf :: bufs.eraseIdx i) := by
  obtain ⟨hi, hget⟩ := List.getElem?_eq_some_iff.mp h
  rw [← hget]
  exact (List.getElem_cons_eraseIdx_perm hi).symm

-- An allocated buffer has to be large enough for the header and the packet.
def Fits (dev : VirtIoNetInner) (a : VirtIoNetAction) : Prop :=
  match a with
  | .allocTxBuffer size => dev.raw.hdrLen + size ≤ netBufLen
  | _ => True

instance (dev : VirtIoNetInner) (a : VirtIoNetAction) : Decidable (dev.Fits a) :=
  match a with
  | .allocTxBuffer size => inferInstanceAs (Decidable (dev.raw.hdrLen + size ≤ netBufLen))
  | .receive _ => inferInstanceAs (Decidable True)
  | .recycleRxBuffer _ _ => inferInstanceAs (Decidable True)
  | .transmit _ _ => inferInstanceAs (Decidable True)
  | .recycleTxBuffers _ => inferInstanceAs (Decidable True)

-- The device has not reported more than there is room for.
def PacketFits (dev : VirtIoNetInner) (a : VirtIoNetAction) : Prop :=
  match a with
  | .receive polled => ∀ p ∈ polled, dev.raw.hdrLen + p.2 ≤ netBufLen
  | _ => True

instance (dev : VirtIoNetInner) (a : VirtIoNetAction) : Decidable (dev.PacketFits a) :=
  match a with
  | .receive polled => inferInstanceAs (Decidable (∀ p ∈ polled, dev.raw.hdrLen + p.2 ≤ netBufLen))
  | .allocTxBuffer _ => inferInstanceAs (Decidable True)
  | .recycleRxBuffer _ _ => inferInstanceAs (Decidable True)
  | .transmit _ _ => inferInstanceAs (Decidable True)
  | .recycleTxBuffers _ => inferInstanceAs (Decidable True)

theorem ensures_receive (h : Inv dev) {polled : Option (Token × Nat)} (hpacket : dev.PacketFits (.receive polled))
    : Ensures (dev.receive mode polled) (· = .disabled) dev.Keeps := by
  unfold receive
  split
  . exact .pure (.unchanged h (by simp))
  next token pktLen =>
  split
  . exact .throw rfl
  next hsome =>
  split
  . next hnone => simp [h.recvQueue token, hnone] at hsome
  next rxBuf hbuf =>
  have hqueue : dev.raw.recvQueue token = some rxBuf.rawBuf := by
    rw [h.recvQueue token, hbuf]
    rfl
  apply (VirtQueue.ensures_complete hqueue).bind
  rintro recvQueue rfl
  have hlen : dev.raw.hdrLen + pktLen ≤ netBufLen := hpacket _ rfl
  have hsrc : (dev.buffers (.rx token)).Perm [rxBuf] := by simp [buffers, hbuf]
  have hsound := h.sound (.rx token) rxBuf (by simp [buffers, hbuf])
  simp only [NetBuf.Sound] at hsound
  apply (NetBuf.ensures_setHeaderLen (by omega)).bind
  rintro rxBuf₁ rfl
  apply (NetBuf.ensures_setPacketLen (by simp only; omega)).bind
  rintro rxBuf₂ rfl
  have hsound' : ({ rxBuf with headerLen := dev.raw.hdrLen, packetLen := pktLen } : NetBuf).Sound
      dev.raw.hdrLen .received := by
    simp only [NetBuf.Sound]
    omega
  apply Ensures.pure
  refine ⟨?_, rfl, rfl, slotKept_update (.inr (.inr rfl)), fun _ => .rfl, by simp⟩
  refine h.move hsrc hsound' (by simp) rfl rfl ?_ (update_eq_map h.recvQueue token none) h.sendQueue
  intro place
  cases place with
  | rx t => simp [buffers, Function.update_apply, apply_ite Option.toList]
  | _ => rfl

theorem ensures_recycleRxBuffer (h : Inv dev) (i : Nat) (newToken : Token)
    : Ensures (dev.recycleRxBuffer i newToken) (· = .disabled) dev.Keeps := by
  unfold recycleRxBuffer
  split
  . exact .throw rfl
  next rxBuf hbuf =>
  apply VirtQueue.ensures_begin.bind
  rintro recvQueue ⟨hfree, rfl⟩
  have hslot : dev.rxBuffers newToken = none := by simpa [h.recvQueue newToken] using hfree
  have hsrc : (dev.buffers .received).Perm (rxBuf :: dev.received.eraseIdx i) :=
    perm_eraseIdx hbuf
  have hsound := h.sound .received rxBuf (List.mem_of_getElem? hbuf)
  simp only [hslot, Option.isSome_none, Bool.false_eq_true, if_false]
  apply Ensures.pure
  refine ⟨?_, rfl, rfl, slotKept_update (.inr (.inl hslot)), fun _ => .rfl, by simp⟩
  have hsound' : rxBuf.Sound dev.raw.hdrLen (.rx newToken) := hsound
  refine h.move hsrc hsound' (by simp) rfl rfl ?_ (update_eq_map h.recvQueue newToken (some rxBuf))
    h.sendQueue
  intro place
  cases place with
  | rx t => simp [buffers, Function.update_apply, apply_ite Option.toList, hslot]
  | _ => rfl

theorem ensures_allocTxBuffer (h : Inv dev) {size : Nat} (hsize : dev.raw.hdrLen + size ≤ netBufLen)
    : Ensures (dev.allocTxBuffer mode size) (· = .disabled) dev.Keeps := by
  unfold allocTxBuffer
  split
  . exact .pure (.unchanged h (by simp))
  next netBuf freeTxBufs hfree =>
  have hsrc : (dev.buffers .freeTx).Perm (netBuf :: freeTxBufs) := by simp [buffers, hfree]
  have hsound := h.sound .freeTx netBuf (by simp [buffers, hfree])
  simp only [NetBuf.Sound] at hsound
  rw [if_neg (by omega)]
  apply (NetBuf.ensures_setPacketLen (by omega)).bind
  rintro netBuf₁ rfl
  have hsound' : ({ netBuf with packetLen := size } : NetBuf).Sound dev.raw.hdrLen .allocated := by
    simp only [NetBuf.Sound]
    omega
  apply Ensures.pure
  refine ⟨?_, rfl, rfl, fun _ => .rfl, fun _ => .rfl, by simp⟩
  refine h.move hsrc hsound' (by simp) rfl rfl ?_ h.recvQueue h.sendQueue
  intro place
  cases place <;> rfl

theorem ensures_transmit (h : Inv dev) (i : Nat) (token : Token)
    : Ensures (dev.transmit i token) (· = .disabled) dev.Keeps := by
  unfold transmit
  split
  . exact .throw rfl
  next txBuf hbuf =>
  apply VirtQueue.ensures_begin.bind
  rintro sendQueue ⟨hfree, rfl⟩
  have hslot : dev.txBuffers token = none := by simpa [h.sendQueue token] using hfree
  have hsrc : (dev.buffers .allocated).Perm (txBuf :: dev.allocated.eraseIdx i) :=
    perm_eraseIdx hbuf
  have hsound := h.sound .allocated txBuf (List.mem_of_getElem? hbuf)
  have hsound' : txBuf.Sound dev.raw.hdrLen (.tx token) := hsound
  simp only [hslot, Option.elim_none]
  apply Ensures.pure
  refine ⟨?_, rfl, rfl, fun _ => .rfl, slotKept_update (.inr (.inl hslot)), by simp⟩
  refine h.move hsrc hsound' (by simp) rfl rfl ?_ h.recvQueue
    (update_eq_map h.sendQueue token (some txBuf))
  intro place
  cases place with
  | tx t => simp [buffers, Function.update_apply, apply_ite Option.toList, hslot]
  | _ => rfl

theorem ensures_recycleTxBuffers (h : Inv dev) (tokens : List Token)
    : Ensures (dev.recycleTxBuffers tokens) (· = .disabled) fun r =>
        dev.Keeps r ∧ r.2.rxBuffers = dev.rxBuffers ∧
          ∀ t, r.2.txBuffers t = dev.txBuffers t ∨ r.2.txBuffers t = none := by
  induction tokens generalizing dev with
  | nil => exact .pure ⟨.unchanged h (by simp), rfl, fun _ => .inl rfl⟩
  | cons token tokens ih =>
    unfold recycleTxBuffers
    split
    . exact .throw rfl
    next hsome =>
    split
    . next hnone => simp [h.sendQueue token, hnone] at hsome
    next txBuf hbuf =>
    have hqueue : dev.raw.sendQueue token = some txBuf.packetWithHeader := by
      rw [h.sendQueue token, hbuf]
      rfl
    have hsrc : (dev.buffers (.tx token)).Perm [txBuf] := by simp [buffers, hbuf]
    have hsound : txBuf.Sound dev.raw.hdrLen .freeTx :=
      h.sound (.tx token) txBuf (by simp [buffers, hbuf])
    apply (VirtQueue.ensures_complete hqueue).bind
    rintro sendQueue rfl
    refine (ih ?_).mono ?_
    . refine h.move hsrc hsound (by simp) rfl rfl ?_ h.recvQueue (update_eq_map h.sendQueue token none)
      intro place
      cases place with
      | tx t => simp [buffers, Function.update_apply, apply_ite Option.toList]
      | _ => rfl
    . rintro r ⟨hkeeps, hrx, htx⟩
      have htx' : ∀ t, r.2.txBuffers t = dev.txBuffers t ∨ r.2.txBuffers t = none := by
        intro t
        rcases htx t with heq | hnone
        . rw [heq]
          simp only [Function.update_apply]
          split
          . exact .inr rfl
          . exact .inl rfl
        . exact .inr hnone
      refine ⟨⟨hkeeps.inv, hkeeps.bufPool, hkeeps.hdrLen, ?_, ?_, hkeeps.goodState⟩, hrx, htx'⟩
      . intro t
        rw [hrx]
        exact .rfl
      . intro t
        exact (htx' t).imp id .inr

theorem ensures_call (h : Inv dev) {a : VirtIoNetAction} (hfits : dev.Fits a) (hpacket : dev.PacketFits a)
    : Ensures (dev.call mode a) (· = .disabled) dev.Keeps := by
  cases a with
  | receive polled => exact ensures_receive h hpacket
  | recycleRxBuffer i newToken => exact ensures_recycleRxBuffer h i newToken
  | allocTxBuffer size => exact ensures_allocTxBuffer h hfits
  | transmit i token => exact ensures_transmit h i token
  | recycleTxBuffers tokens => exact (ensures_recycleTxBuffers h tokens).mono fun _ hr => hr.1

theorem buffers_pool_of_alloc {buf : NetBuf} {bufPool : NetBufPool}
    (halloc : dev.bufPool.alloc = some (buf, bufPool))
    : dev.buffers .pool = buf :: { dev with bufPool }.buffers .pool ∧
        dev.bufPool.freeList.length = bufPool.freeList.length + 1 := by
  unfold NetBufPool.alloc at halloc
  split at halloc
  . simp at halloc
  . next hfree =>
    simp only [Option.some.injEq, Prod.mk.injEq] at halloc
    obtain ⟨rfl, rfl⟩ := halloc
    simp [buffers, hfree]

theorem ensures_fillRx (h : Inv dev) (i : Nat) (tokens : List Token)
    : Ensures (dev.fillRx i tokens) (fun _ => True) fun r => ∀ dev', r = .ok dev' →
        Inv dev' ∧ dev.bufPool.freeList.length = dev'.bufPool.freeList.length + tokens.length := by
  induction tokens generalizing dev i with
  | nil =>
    apply Ensures.pure
    rintro dev' ⟨⟩
    exact ⟨h, rfl⟩
  | cons token tokens ih =>
    unfold fillRx
    split
    . exact .pure (by simp)
    next rxBuf bufPool halloc =>
    obtain ⟨hpool, hlen⟩ := buffers_pool_of_alloc halloc
    apply (VirtQueue.ensures_begin.mono_halt fun _ _ => trivial).bind
    rintro recvQueue ⟨hfree, rfl⟩
    split
    . exact .throw trivial
    have hslot : dev.rxBuffers token = none := by simpa [h.recvQueue token] using hfree
    have hsound := h.sound .pool rxBuf (by simp [hpool])
    simp only [NetBuf.Sound] at hsound
    have hsound' : rxBuf.Sound dev.raw.hdrLen (.rx token) := by
      simp only [NetBuf.Sound]
      omega
    refine (ih ?_ (i + 1)).mono ?_
    . refine h.move (List.Perm.of_eq hpool) hsound' (by simp) rfl rfl ?_
        (update_eq_map h.recvQueue token (some rxBuf)) h.sendQueue
      intro place
      cases place with
      | rx t => simp [buffers, Function.update_apply, apply_ite Option.toList, hslot]
      | _ => rfl
    . intro r hr dev' hdev'
      obtain ⟨hinv, hlen'⟩ := hr dev' hdev'
      refine ⟨hinv, ?_⟩
      simp only [List.length_cons]
      simp only at hlen'
      omega

theorem ensures_fillTx (h : Inv dev) (n : Nat)
    : Ensures (dev.fillTx mode n) (fun _ => True) fun r => ∀ dev', r = .ok dev' →
        Inv dev' ∧ dev.bufPool.freeList.length = dev'.bufPool.freeList.length + n := by
  induction n generalizing dev with
  | zero =>
    apply Ensures.pure
    rintro dev' ⟨⟩
    exact ⟨h, rfl⟩
  | succ n ih =>
    unfold fillTx
    split
    . exact .pure (by simp)
    next txBuf bufPool halloc =>
    split
    . exact .pure (by simp)
    next hhdr =>
    obtain ⟨hpool, hlen⟩ := buffers_pool_of_alloc halloc
    have hsound := h.sound .pool txBuf (by simp [hpool])
    simp only [NetBuf.Sound] at hsound
    apply ((NetBuf.ensures_setHeaderLen (by omega)).mono_halt fun _ _ => trivial).bind
    rintro txBuf₁ rfl
    have hsound' : ({ txBuf with headerLen := dev.raw.hdrLen } : NetBuf).Sound dev.raw.hdrLen
        .freeTx := by
      refine ⟨hsound.1, ?_, rfl⟩
      simp only
      omega
    refine (ih ?_).mono ?_
    . refine h.move (List.Perm.of_eq hpool) hsound' (by simp) rfl rfl ?_ h.recvQueue h.sendQueue
      intro place
      cases place <;> rfl
    . intro r hr dev' hdev'
      obtain ⟨hinv, hlen'⟩ := hr dev' hdev'
      refine ⟨hinv, ?_⟩
      simp only at hlen'
      omega

def poolOffsets : List Nat := ((List.range (2 * qs)).map (· * netBufLen)).reverse

theorem mem_poolOffsets {offset : Nat} : offset ∈ poolOffsets ↔ IsPoolBuf offset := by
  simp [poolOffsets, IsPoolBuf, eq_comm]

theorem nodup_poolOffsets : poolOffsets.Nodup := by
  rw [poolOffsets, List.nodup_reverse]
  apply List.Nodup.map _ List.nodup_range
  intro i j hij
  exact Nat.eq_of_mul_eq_mul_right (by decide : 0 < netBufLen) hij

theorem inv_of_pool (hfree : dev.bufPool.freeList = poolOffsets) (hlen : dev.bufPool.bufLen = netBufLen)
    (hrest : ∀ place, place ≠ .pool → dev.buffers place = [])
    (hrecv : ∀ token, dev.raw.recvQueue token = none) (hsend : ∀ token, dev.raw.sendQueue token = none)
    : Inv dev := by
  have hpool : dev.held .pool = poolOffsets := by simp [held, buffers, hfree, Function.comp_def]
  have hplace {place : BufPlace} {offset : Nat} (hheld : offset ∈ dev.held place) : place = .pool := by
    by_contra hne
    simp [held, hrest place hne] at hheld
  constructor
  case recvQueue =>
    intro token
    rw [hrecv, Option.toList_eq_nil_iff.mp (hrest (.rx token) (by simp))]
    rfl
  case sendQueue =>
    intro token
    rw [hsend, Option.toList_eq_nil_iff.mp (hrest (.tx token) (by simp))]
    rfl
  case sound =>
    intro place buf hbuf
    have := hplace (List.mem_map_of_mem hbuf)
    subst this
    simp only [buffers, List.mem_map] at hbuf
    obtain ⟨offset, _, rfl⟩ := hbuf
    simp [NetBuf.Sound, hlen]
  case conserved =>
    refine ⟨⟨?_, ?_, fun h h' => (hplace h).trans (hplace h').symm⟩, ?_⟩
    . intro place offset hheld
      rw [hplace hheld, hpool] at hheld
      exact mem_poolOffsets.mp hheld
    . intro place
      by_cases hne : place = .pool
      . rw [hne, hpool]
        exact nodup_poolOffsets
      . simp [held, hrest place hne]
    . intro offset hoffset
      refine ⟨.pool, ?_⟩
      rw [hpool]
      exact mem_poolOffsets.mpr hoffset

theorem inv_of_new {hdrLen : Nat} {tokens : List Token} (hnew : new mode hdrLen tokens = .ok (.ok dev))
    : Inv dev ∧ dev.bufPool.freeList = [] := by
  have hpool : NetBufPool.new (2 * qs) netBufLen =
      .ok
        {
          capacity := 2 * qs
          bufLen := netBufLen
          freeList := poolOffsets
        } := by
    rfl
  have hspec : Ensures (new mode hdrLen tokens) (fun _ => True) fun r => ∀ dev, r = .ok dev →
      Inv dev ∧ dev.bufPool.freeList.length = 0 := by
    simp only [new, hpool]
    split
    . exact .throw trivial
    next hlen =>
    refine Ensures.bind
      (ensures_fillRx (inv_of_pool rfl rfl ?_ (fun _ => rfl) (fun _ => rfl)) 0 tokens) ?_
    . intro place hne
      cases place with
      | pool => exact absurd rfl hne
      | _ => rfl
    intro r hr
    split
    . exact .pure (by simp)
    next dev₁ =>
    obtain ⟨hinv, hfree⟩ := hr dev₁ rfl
    refine (ensures_fillTx hinv qs).mono ?_
    intro r' hr' dev₂ hdev₂
    obtain ⟨hinv', hfree'⟩ := hr' dev₂ hdev₂
    refine ⟨hinv', ?_⟩
    simp only [poolOffsets, List.length_reverse, List.length_map, List.length_range] at hfree
    omega
  obtain ⟨hinv, hfree⟩ := hspec.ok hnew dev rfl
  exact ⟨hinv, List.length_eq_zero_iff.mp hfree⟩

/--
Every buffer of the pool is in exactly one place outside of the pool, and its lengths fit.
-/
structure BuffersKept (dev : VirtIoNetInner) : Prop where
  existsUnique : ∀ i < 2 * qs, ∃! place, i * netBufLen ∈ dev.held place
  nodup : ∀ place, (dev.held place).Nodup
  pool : dev.held .pool = []
  fits : ∀ place, ∀ buf ∈ dev.buffers place, buf.headerLen + buf.packetLen ≤ buf.capacity

/--
With the call the buffers stay where they are kept, no slot that holds a buffer is overwritten, the driver does
not find itself in a bad state, the assertions hold, and the queues get back the slices that they were given.
-/
structure CallKept (mode : BuildMode) (dev : VirtIoNetInner) (a : VirtIoNetAction) : Prop where
  noPanic : ∀ why, dev.call mode a ≠ .error (.panic why)
  goodState : ∀ dev', dev.call mode a ≠ .ok (.error .devBadState, dev')
  rxKept : ∀ r token, dev.call mode a = .ok r → SlotKept (dev.rxBuffers token) (r.2.rxBuffers token)
  txKept : ∀ r token, dev.call mode a = .ok r → SlotKept (dev.txBuffers token) (r.2.txBuffers token)
  buffers : ∀ r, dev.call mode a = .ok r → r.2.BuffersKept

theorem Inv.buffersKept (h : Inv dev) (hpool : dev.bufPool.freeList = []) : dev.BuffersKept where
  existsUnique i hi := h.conserved.existsUnique ⟨i, hi, rfl⟩
  nodup := h.conserved.nodup
  pool := by simp [held, VirtIoNetInner.buffers, hpool]
  fits place buf hbuf := (h.sound place buf hbuf).2.1

theorem Inv.callKept (h : Inv dev) (hpool : dev.bufPool.freeList = []) {a : VirtIoNetAction} (hfits : dev.Fits a)
    (hpacket : dev.PacketFits a)
    : dev.CallKept mode a := by
  have hspec : Ensures (dev.call mode a) (· = .disabled) dev.Keeps := ensures_call h hfits hpacket
  constructor
  case noPanic =>
    intro why hcall
    have hhalt := hspec.error hcall
    cases hhalt
  case goodState =>
    intro dev' hcall
    exact (hspec.ok hcall).goodState rfl
  case rxKept =>
    intro r token hcall
    exact (hspec.ok hcall).rxKept token
  case txKept =>
    intro r token hcall
    exact (hspec.ok hcall).txKept token
  case buffers =>
    intro r hcall
    have hkeeps := hspec.ok hcall
    exact hkeeps.inv.buffersKept (by rw [hkeeps.bufPool, hpool])

theorem receive_oversized (h : Inv dev) {token : Token} {pktLen : Nat}
    (hover : netBufLen < dev.raw.hdrLen + pktLen)
    (hpossible : dev.receive mode (some (token, pktLen)) ≠ .error .disabled)
    : (∃ why, dev.receive mode (some (token, pktLen)) = .error (.panic why)) ∨
        ∃ r, dev.receive mode (some (token, pktLen)) = .ok r ∧
          ∃ buf ∈ r.2.received, buf.capacity < buf.headerLen + buf.packetLen := by
  have hsome : (dev.raw.recvQueue token).isNone = false := by
    by_contra hnone
    rw [Bool.not_eq_false] at hnone
    exact hpossible (by simp only [receive, hnone, if_true]; rfl)
  obtain ⟨rxBuf, hbuf⟩ : ∃ rxBuf, dev.rxBuffers token = some rxBuf := by
    rw [h.recvQueue token, Option.isNone_map] at hsome
    exact Option.isSome_iff_exists.mp (by simpa using hsome)
  have hqueue : dev.raw.recvQueue token = some rxBuf.rawBuf := by
    rw [h.recvQueue token, hbuf]
    rfl
  have hcapacity := (h.sound (.rx token) rxBuf (by simp [buffers, hbuf])).1
  have hcall : dev.receive mode (some (token, pktLen)) = (do
      let rxBuf ← rxBuf.setHeaderLen mode dev.raw.hdrLen
      let rxBuf ← rxBuf.setPacketLen mode pktLen
      return (.ok (),
        {
          dev with
          rxBuffers := Function.update dev.rxBuffers token none
          raw.recvQueue := Function.update dev.raw.recvQueue token none
          received := rxBuf :: dev.received
        })) := by
    simp only [receive, hbuf, VirtQueue.complete, hqueue, if_true]
    rfl
  rw [hcall]
  cases mode with
  | release =>
    right
    simp only [NetBuf.setHeaderLen, NetBuf.setPacketLen, BuildMode.check_release]
    exact ⟨_, rfl, _, List.mem_cons_self, by simp only [hcapacity]; omega⟩
  | debug =>
    left
    by_cases hheader : dev.raw.hdrLen + rxBuf.packetLen ≤ rxBuf.capacity
    . have hpacket : NetBuf.setPacketLen .debug { rxBuf with headerLen := dev.raw.hdrLen } pktLen =
          .error (.panic .debugAssert) := by
        apply NetBuf.setPacketLen_debug
        simp only [hcapacity]
        omega
      simp only [NetBuf.setHeaderLen_of hheader, Bind.bind, Except.bind, hpacket]
      exact ⟨.debugAssert, rfl⟩
    . simp only [NetBuf.setHeaderLen, BuildMode.check_debug hheader]
      exact ⟨.debugAssert, rfl⟩

theorem Inv.packetFits_of_callKept (h : Inv dev) {a : VirtIoNetAction} (hkept : dev.CallKept mode a)
    (hpossible : dev.call mode a ≠ .error .disabled)
    : dev.PacketFits a := by
  cases a with
  | receive polled =>
    rintro ⟨token, pktLen⟩ rfl
    by_contra hover
    rcases receive_oversized h (by simpa using hover) hpossible with ⟨why, hpanic⟩ | ⟨r, hcall, buf, hmem, hlen⟩
    . exact hkept.noPanic why hpanic
    . exact absurd ((hkept.buffers r hcall).fits .received buf hmem) (by omega)
  | recycleRxBuffer | allocTxBuffer | transmit | recycleTxBuffers => trivial

/--
As long as the device reports no packet that is too long for its buffer, the buffers are kept in every run. The
next call that is possible keeps them if and only if this goes on.
-/
theorem buffersKept_of_run {hdrLen : Nat} {tokens : List Token} {as : List VirtIoNetAction}
    (hnew : new mode hdrLen tokens = .ok (.ok dev))
    (hrun : Run (step mode) (fun dev a => dev.Fits a ∧ dev.PacketFits a) dev as dev')
    : dev'.BuffersKept ∧
        ∀ a, dev'.Fits a → dev'.call mode a ≠ .error .disabled →
          (dev'.CallKept mode a ↔ dev'.PacketFits a) := by
  have h : Inv dev' ∧ dev'.bufPool.freeList = [] := by
    refine hrun.invariant (fun dev => Inv dev ∧ dev.bufPool.freeList = []) (inv_of_new hnew) ?_
    intro dev₁ dev₂ a h hallowed hstep
    have hspec : Ensures (Prod.snd <$> dev₁.call mode a) (· = .disabled) fun dev₂ =>
        Inv dev₂ ∧ dev₂.bufPool.freeList = [] :=
      (ensures_call h.1 hallowed.1 hallowed.2).map fun r hkeeps => ⟨hkeeps.inv, by rw [hkeeps.bufPool, h.2]⟩
    exact hspec.ok (Outcome.ofExcept_eq_next hstep)
  refine ⟨h.1.buffersKept h.2, fun a hfits hpossible => ⟨?_, h.1.callKept h.2 hfits⟩⟩
  intro hkept
  exact h.1.packetFits_of_callKept hkept hpossible

def pingPong : List VirtIoNetAction :=
  [.receive (some (3, 60)), .allocTxBuffer 100, .transmit 0 5, .recycleRxBuffer 0 3,
    .receive (some (4, 70)), .recycleTxBuffers [5]]

theorem exists_new (mode : BuildMode) {p : VirtIoNetInner → Bool}
    (h : (match new mode 12 (List.finRange qs) with
      | .ok (.ok dev) => p dev
      | _ => false) = true)
    : ∃ dev, new mode 12 (List.finRange qs) = .ok (.ok dev) ∧ p dev = true := by
  split at h
  . next dev hnew => exact ⟨dev, hnew, h⟩
  . simp at h

theorem buffersKept_pingPong
    : ∃ dev dev', new .debug 12 (List.finRange qs) = .ok (.ok dev) ∧
        Run (step .debug) (fun dev a => dev.Fits a ∧ dev.PacketFits a) dev pingPong dev' ∧
        dev'.held .received = [123 * netBufLen] ∧ dev'.BuffersKept := by
  obtain ⟨dev, hnew, hok⟩ := exists_new .debug
    (p := fun dev => (exec (checked (step .debug) fun dev a => dev.Fits a ∧ dev.PacketFits a) dev pingPong).holds
      fun dev' => dev'.held .received = [123 * netBufLen]) (by decide +kernel)
  obtain ⟨dev', hrun, hheld⟩ := exists_run_of_exec _ _ _ _ hok
  have hrun := Run.of_checked hrun
  exact ⟨dev, dev', hnew, hrun, by simpa using hheld, (buffersKept_of_run hnew hrun).1⟩

theorem buffersKept_longPacket_false
    : ∃ dev dev', new .release 12 (List.finRange qs) = .ok (.ok dev) ∧
        Run (step .release) Fits dev [.receive (some (3, 2000))] dev' ∧ ¬ dev'.BuffersKept := by
  obtain ⟨dev, hnew, hok⟩ := exists_new .release
    (p := fun dev => (exec (checked (step .release) Fits) dev [.receive (some (3, 2000))]).holds
      fun dev' => dev'.received.any fun buf => buf.capacity < buf.headerLen + buf.packetLen) (by decide +kernel)
  obtain ⟨dev', hrun, hlong⟩ := exists_run_of_exec _ _ _ _ hok
  obtain ⟨buf, hmem, hlen⟩ := List.any_eq_true.mp hlong
  refine ⟨dev, dev', hnew, Run.of_checked hrun, fun hkept => ?_⟩
  exact absurd (hkept.fits .received buf hmem) (by simpa using hlen)

end VirtIoNetInner

end Jrinx
