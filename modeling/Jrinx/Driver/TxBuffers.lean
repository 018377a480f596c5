import Jrinx.Driver.NetBuffers

/-!
This module contains what becomes of the transmit buffers of `driver/src/net/virtio_net.rs` when a request
for one of them is rejected. The sums are those of a release build, they wrap around at `width` bits.
-/

namespace Jrinx

theorem NetBufPool.lens_of_alloc {pool pool' : NetBufPool} {buf : NetBuf}
    (halloc : pool.alloc = some (buf, pool'))
    : pool'.bufLen = pool.bufLen ∧ buf.capacity = pool.bufLen ∧ buf.packetLen = 0 := by
  unfold alloc at halloc
  split at halloc
  . simp at halloc
  . simp only [Option.some.injEq, Prod.mk.injEq] at halloc
    obtain ⟨rfl, rfl⟩ := halloc
    exact ⟨rfl, rfl, rfl⟩

namespace VirtIoNetInner

-- `canSend` is what the queue says.
def canTransmit (dev : VirtIoNetInner) (canSend : Bool) : Bool := !dev.freeTxBufs.isEmpty && canSend

def allocTxBufferIn (width : Nat) (dev : VirtIoNetInner) (size : Nat)
    : VirtioM (Except InternalError Unit × VirtIoNetInner) :=
  match dev.freeTxBufs with
  | [] => return (.error .notEnoughMem, dev)
  | netBuf :: freeTxBufs =>
    let dev := { dev with freeTxBufs }
    if (netBuf.headerLen + size) % 2 ^ width > netBuf.capacity then
      -- The drop of the buffer.
      return (.error .invalidParam, { dev with bufPool := dev.bufPool.dealloc netBuf })
    else
      return (.ok (), { dev with allocated := { netBuf with packetLen := size } :: dev.allocated })

def callIn (width : Nat) (dev : VirtIoNetInner) (a : VirtIoNetAction)
    : VirtioM (Except InternalError Unit × VirtIoNetInner) :=
  match a with
  | .allocTxBuffer size => dev.allocTxBufferIn width size
  | .receive polled => dev.receive .release polled
  | .recycleRxBuffer i newToken => dev.recycleRxBuffer i newToken
  | .transmit i token => dev.transmit i token
  | .recycleTxBuffers tokens => dev.recycleTxBuffers tokens

def stepIn (width : Nat) (dev : VirtIoNetInner) (a : VirtIoNetAction) : Outcome VirtIoNetInner :=
  .ofExcept (Prod.snd <$> dev.callIn width a)

-- The request finds a buffer, and the buffer is too small for it.
def Oversized (width : Nat) (dev : VirtIoNetInner) (size : Nat) : Prop :=
  dev.freeTxBufs ≠ [] ∧ netBufLen < (dev.raw.hdrLen + size) % 2 ^ width

instance (width : Nat) (dev : VirtIoNetInner) (size : Nat) : Decidable (dev.Oversized width size) :=
  inferInstanceAs (Decidable (dev.freeTxBufs ≠ [] ∧ netBufLen < (dev.raw.hdrLen + size) % 2 ^ width))

def oversized (width : Nat) (dev : VirtIoNetInner) (a : VirtIoNetAction) : List Nat :=
  match a with
  | .allocTxBuffer size => if dev.Oversized width size then [size] else []
  | _ => []

def Idle (dev : VirtIoNetInner) : Prop := dev.allocated = [] ∧ ∀ token, dev.txBuffers token = none

def KeepsFree (width : Nat) (dev : VirtIoNetInner) (size : Nat) : Prop :=
  ∀ e dev', dev.allocTxBufferIn width size = .ok (.error e, dev') →
    dev'.freeTxBufs.length = dev.freeTxBufs.length

/--
A request that is rejected keeps the free buffers if and only if it is not oversized. When no packet is
in flight every oversized request of the run has cost one of the free buffers.
-/
structure TxKept (width : Nat) (dev : VirtIoNetInner) (as : List VirtIoNetAction)
    (dev' : VirtIoNetInner) : Prop where
  keepsFree_iff : ∀ size, dev'.KeepsFree width size ↔ ¬dev'.Oversized width size
  free : dev'.Idle →
    dev'.freeTxBufs.length + (observe (stepIn width) (oversized width) dev as).length = qs
  canTransmit_iff : dev'.Idle →
    (dev'.canTransmit true = true ↔ (observe (stepIn width) (oversized width) dev as).length < qs)

def occupied (slots : Token → Option NetBuf) : Nat := ∑ token, (slots token).toList.length

def Fitted (dev : VirtIoNetInner) (buf : NetBuf) : Prop :=
  buf.headerLen = dev.raw.hdrLen ∧ buf.capacity = netBufLen

/--
The transmit buffers are prepared with the header of the device, and `lost` of them are gone.
-/
structure TxInv (dev : VirtIoNetInner) (lost : Nat) : Prop where
  free : ∀ buf ∈ dev.freeTxBufs, dev.Fitted buf
  allocated : ∀ buf ∈ dev.allocated, dev.Fitted buf
  slots : ∀ token, ∀ buf ∈ dev.txBuffers token, dev.Fitted buf
  sendQueue : ∀ token, dev.raw.sendQueue token = (dev.txBuffers token).map NetBuf.packetWithHeader
  count : dev.freeTxBufs.length + dev.allocated.length + occupied dev.txBuffers + lost = qs

variable {dev dev' : VirtIoNetInner} {width lost size : Nat}

theorem occupied_update (slots : Token → Option NetBuf) (token : Token) (slot : Option NetBuf)
    : occupied (Function.update slots token slot) + (slots token).toList.length
        =
      occupied slots + slot.toList.length := by
  unfold occupied
  rw [← Finset.add_sum_erase _ _ (Finset.mem_univ token),
    ← Finset.add_sum_erase _ (fun t => (slots t).toList.length) (Finset.mem_univ token)]
  have hrest : ∑ t ∈ Finset.univ.erase token, (Function.update slots token slot t).toList.length =
      ∑ t ∈ Finset.univ.erase token, (slots t).toList.length := by
    apply Finset.sum_congr rfl
    intro t ht
    rw [Function.update_of_ne (Finset.ne_of_mem_erase ht)]
  rw [hrest, Function.update_self]
  omega

theorem allocTxBufferIn_eq (h : ∀ buf ∈ dev.freeTxBufs, buf.headerLen + size < 2 ^ width)
    : dev.allocTxBufferIn width size = dev.allocTxBuffer .release size := by
  unfold allocTxBufferIn allocTxBuffer
  cases hfree : dev.freeTxBufs with
  | nil => rfl
  | cons netBuf freeTxBufs =>
    have hlt := h netBuf (by simp [hfree])
    dsimp only
    rw [Nat.mod_eq_of_lt hlt]
    split
    . rfl
    . next hle =>
      rw [NetBuf.setPacketLen_of (Nat.le_of_not_lt hle)]
      rfl

namespace TxInv

theorem frame (h : TxInv dev lost) (hfree : dev'.freeTxBufs = dev.freeTxBufs)
    (hallocated : dev'.allocated = dev.allocated) (hslots : dev'.txBuffers = dev.txBuffers)
    (hsend : dev'.raw.sendQueue = dev.raw.sendQueue) (hhdr : dev'.raw.hdrLen = dev.raw.hdrLen)
    : TxInv dev' lost := by
  have hfitted : ∀ buf, dev.Fitted buf → dev'.Fitted buf := by
    intro buf hbuf
    unfold Fitted
    rw [hhdr]
    exact hbuf
  refine ⟨?_, ?_, ?_, ?_, ?_⟩
  . exact fun buf hbuf => hfitted buf (h.free buf (hfree ▸ hbuf))
  . exact fun buf hbuf => hfitted buf (h.allocated buf (hallocated ▸ hbuf))
  . exact fun token buf hbuf => hfitted buf (h.slots token buf (hslots ▸ hbuf))
  . rw [hsend, hslots]
    exact h.sendQueue
  . rw [hfree, hallocated, hslots]
    exact h.count

theorem ensures_receive (h : TxInv dev lost) (polled : Option (Token × Nat))
    : Ensures (dev.receive .release polled) (fun _ => True) fun r => TxInv r.2 lost := by
  unfold receive
  split
  . exact .pure h
  split
  . exact .throw trivial
  split
  . exact .pure h
  refine Ensures.bind_any (fun _ => trivial) fun recvQueue => ?_
  refine Ensures.bind_any (fun _ => trivial) fun rxBuf₁ => ?_
  refine Ensures.bind_any (fun _ => trivial) fun rxBuf₂ => ?_
  exact .pure (h.frame rfl rfl rfl rfl rfl)

theorem ensures_recycleRxBuffer (h : TxInv dev lost) (i : Nat) (newToken : Token)
    : Ensures (dev.recycleRxBuffer i newToken) (fun _ => True) fun r => TxInv r.2 lost := by
  unfold recycleRxBuffer
  split
  . exact .throw trivial
  refine Ensures.bind_any (fun _ => trivial) fun recvQueue => ?_
  dsimp only
  split
  . exact .pure (h.frame rfl rfl rfl rfl rfl)
  . exact .pure (h.frame rfl rfl rfl rfl rfl)

theorem allocTxBufferIn_cases (h : TxInv dev lost) (width size : Nat)
    : (dev.freeTxBufs = [] ∧ dev.allocTxBufferIn width size = .ok (.error .notEnoughMem, dev)) ∨
        ∃ netBuf freeTxBufs, dev.freeTxBufs = netBuf :: freeTxBufs ∧ dev.Fitted netBuf ∧
          (dev.Oversized width size ∧
              dev.allocTxBufferIn width size = .ok (.error .invalidParam,
                { dev with freeTxBufs, bufPool := dev.bufPool.dealloc netBuf }) ∨
            ¬dev.Oversized width size ∧
              dev.allocTxBufferIn width size = .ok (.ok (),
                {
                  dev with
                  freeTxBufs
                  allocated := { netBuf with packetLen := size } :: dev.allocated
                })) := by
  unfold allocTxBufferIn
  cases hfree : dev.freeTxBufs with
  | nil => exact .inl ⟨rfl, rfl⟩
  | cons netBuf freeTxBufs =>
    obtain ⟨hhdr, hcap⟩ := h.free netBuf (by simp [hfree])
    refine .inr ⟨netBuf, freeTxBufs, rfl, ⟨hhdr, hcap⟩, ?_⟩
    dsimp only
    rw [hhdr, hcap]
    split
    . next hlt => exact .inl ⟨⟨by simp [hfree], hlt⟩, rfl⟩
    . next hle => exact .inr ⟨fun hover => hle hover.2, rfl⟩

theorem ensures_allocTxBufferIn (h : TxInv dev lost) (size : Nat)
    : Ensures (dev.allocTxBufferIn width size) (fun _ => True) fun r =>
        TxInv r.2 (lost + (oversized width dev (.allocTxBuffer size)).length) := by
  have hcount := h.count
  unfold oversized
  rcases h.allocTxBufferIn_cases width size with
    ⟨hfree, hcall⟩ | ⟨netBuf, freeTxBufs, hfree, hfitted, ⟨hover, hcall⟩ | ⟨hnot, hcall⟩⟩
  . have hnot : ¬dev.Oversized width size := fun hover => hover.1 hfree
    rw [hcall]
    simp only [hnot, if_false]
    exact h
  . rw [hcall]
    simp only [hover, if_true]
    refine ⟨fun buf hbuf => h.free buf (by simp [hfree, hbuf]), h.allocated, h.slots, h.sendQueue, ?_⟩
    simp only [hfree, List.length_cons] at hcount
    simp only [List.length_singleton]
    omega
  . rw [hcall]
    simp only [hnot, if_false]
    refine ⟨fun buf hbuf => h.free buf (by simp [hfree, hbuf]), ?_, h.slots, h.sendQueue, ?_⟩
    . intro buf hbuf
      rcases List.mem_cons.mp hbuf with rfl | hbuf
      . exact hfitted
      . exact h.allocated buf hbuf
    . simp only [hfree, List.length_cons] at hcount
      simp only [List.length_cons, List.length_nil]
      omega

theorem ensures_transmit (h : TxInv dev lost) (i : Nat) (token : Token)
    : Ensures (dev.transmit i token) (fun _ => True) fun r => TxInv r.2 lost := by
  unfold transmit
  split
  . exact .throw trivial
  next txBuf hbuf =>
  apply (VirtQueue.ensures_begin.mono_halt fun _ _ => trivial).bind
  rintro sendQueue ⟨hqueue, rfl⟩
  have hslot : dev.txBuffers token = none := by simpa [h.sendQueue token] using hqueue
  have hfitted := h.allocated txBuf (List.mem_of_getElem? hbuf)
  have hcount := h.count
  have hoccupied := occupied_update dev.txBuffers token (some txBuf)
  obtain ⟨hi, -⟩ := List.getElem?_eq_some_iff.mp hbuf
  simp only [hslot, Option.toList_none, Option.toList_some, List.length_nil, List.length_singleton]
    at hoccupied
  refine .pure ⟨h.free, ?_, ?_, update_eq_map h.sendQueue token (some txBuf), ?_⟩
  . exact fun buf hmem => h.allocated buf (List.mem_of_mem_eraseIdx hmem)
  . intro t buf hmem
    simp only [Function.update_apply] at hmem
    split at hmem
    . obtain rfl : txBuf = buf := by simpa using hmem
      exact hfitted
    . exact h.slots t buf hmem
  . simp only [List.length_eraseIdx_of_lt hi]
    omega

theorem ensures_recycleTxBuffers (h : TxInv dev lost) (tokens : List Token)
    : Ensures (dev.recycleTxBuffers tokens) (fun _ => True) fun r => TxInv r.2 lost := by
  induction tokens generalizing dev with
  | nil => exact .pure h
  | cons token tokens ih =>
    unfold recycleTxBuffers
    split
    . exact .throw trivial
    split
    . exact .pure h
    next txBuf hbuf =>
    have hqueue : dev.raw.sendQueue token = some txBuf.packetWithHeader := by
      rw [h.sendQueue token, hbuf]
      rfl
    apply ((VirtQueue.ensures_complete hqueue).mono_halt fun _ _ => trivial).bind
    rintro sendQueue rfl
    have hcount := h.count
    have hoccupied := occupied_update dev.txBuffers token none
    simp only [hbuf, Option.toList_none, Option.toList_some, List.length_nil, List.length_singleton]
      at hoccupied
    refine ih ⟨?_, h.allocated, ?_, update_eq_map h.sendQueue token none, ?_⟩
    . intro buf hmem
      rcases List.mem_cons.mp hmem with rfl | hmem
      . exact h.slots token buf hbuf
      . exact h.free buf hmem
    . intro t buf hmem
      simp only [Function.update_apply] at hmem
      split at hmem
      . simp at hmem
      . exact h.slots t buf hmem
    . simp only [List.length_cons]
      omega

theorem ensures_callIn (h : TxInv dev lost) (a : VirtIoNetAction)
    : Ensures (dev.callIn width a) (fun _ => True) fun r =>
        TxInv r.2 (lost + (oversized width dev a).length) := by
  cases a with
  | receive polled => exact h.ensures_receive polled
  | recycleRxBuffer i newToken => exact h.ensures_recycleRxBuffer i newToken
  | allocTxBuffer size => exact h.ensures_allocTxBufferIn size
  | transmit i token => exact h.ensures_transmit i token
  | recycleTxBuffers tokens => exact h.ensures_recycleTxBuffers tokens

theorem of_run {as : List VirtIoNetAction} (h : TxInv dev 0)
    (hrun : Run (stepIn width) (fun _ _ => True) dev as dev')
    : TxInv dev' (observe (stepIn width) (oversized width) dev as).length := by
  apply hrun.observe_invariant (fun dev l => TxInv dev l.length) (l := []) h
  intro dev₁ dev₂ a l h _ hstep
  have hspec : Ensures (Prod.snd <$> dev₁.callIn width a) (fun _ => True) fun dev =>
      TxInv dev (l.length + (oversized width dev₁ a).length) :=
    (h.ensures_callIn a).map fun r hr => hr
  rw [List.length_append]
  exact hspec.ok (Outcome.ofExcept_eq_next hstep)

theorem keepsFree_iff (h : TxInv dev lost) (width size : Nat)
    : dev.KeepsFree width size ↔ ¬dev.Oversized width size := by
  unfold KeepsFree
  rcases h.allocTxBufferIn_cases width size with
    ⟨hfree, hcall⟩ | ⟨netBuf, freeTxBufs, hfree, -, ⟨hover, hcall⟩ | ⟨hnot, hcall⟩⟩
  . have hnot : ¬dev.Oversized width size := fun hover => hover.1 hfree
    simp only [hnot, not_false_eq_true, iff_true, hcall, Except.ok.injEq, Prod.mk.injEq]
    rintro e dev' ⟨-, rfl⟩
    rfl
  . simp only [hover, not_true_eq_false, iff_false]
    intro hkeeps
    have hkept := hkeeps _ _ hcall
    simp [hfree] at hkept
  . simp [hnot, hcall]

theorem txKept (h : TxInv dev' lost) {as : List VirtIoNetAction}
    (hlost : (observe (stepIn width) (oversized width) dev as).length = lost)
    : TxKept width dev as dev' := by
  have hfree : dev'.Idle → dev'.freeTxBufs.length + lost = qs := by
    rintro ⟨hallocated, hslots⟩
    have hoccupied : occupied dev'.txBuffers = 0 := by simp [occupied, hslots]
    simpa [hallocated, hoccupied] using h.count
  refine ⟨h.keepsFree_iff width, fun hidle => hlost ▸ hfree hidle, ?_⟩
  intro hidle
  have hcount := hfree hidle
  rw [hlost]
  have hempty : dev'.canTransmit true = true ↔ dev'.freeTxBufs.length ≠ 0 := by
    simp [canTransmit, List.length_eq_zero_iff]
  rw [hempty]
  omega

end TxInv

theorem ensures_fillRx_tx (dev : VirtIoNetInner) (i : Nat) (tokens : List Token)
    : Ensures (dev.fillRx i tokens) (fun _ => True) fun r => ∀ dev', r = .ok dev' →
        dev'.freeTxBufs = dev.freeTxBufs ∧ dev'.allocated = dev.allocated ∧
          dev'.txBuffers = dev.txBuffers ∧ dev'.raw.sendQueue = dev.raw.sendQueue ∧
          dev'.raw.hdrLen = dev.raw.hdrLen ∧ dev'.bufPool.bufLen = dev.bufPool.bufLen := by
  induction tokens generalizing dev i with
  | nil =>
    apply Ensures.pure
    rintro dev' ⟨⟩
    exact ⟨rfl, rfl, rfl, rfl, rfl, rfl⟩
  | cons token tokens ih =>
    unfold fillRx
    split
    . exact .pure (by simp)
    next rxBuf bufPool halloc =>
    refine Ensures.bind_any (fun _ => trivial) fun recvQueue => ?_
    split
    . exact .throw trivial
    refine (ih _ (i + 1)).mono fun r hr dev' hdev' => ?_
    have hlen := (NetBufPool.lens_of_alloc halloc).1
    simpa [hlen] using hr dev' hdev'

theorem ensures_fillTx_tx {n : Nat} (h : TxInv dev (lost + n)) (hlen : dev.bufPool.bufLen = netBufLen)
    : Ensures (dev.fillTx .release n) (fun _ => True) fun r => ∀ dev', r = .ok dev' → TxInv dev' lost := by
  induction n generalizing dev with
  | zero =>
    apply Ensures.pure
    rintro dev' ⟨⟩
    exact h
  | succ n ih =>
    unfold fillTx
    split
    . exact .pure (by simp)
    next txBuf bufPool halloc =>
    obtain ⟨hpool, hcap, hpacket⟩ := NetBufPool.lens_of_alloc halloc
    split
    . exact .pure (by simp)
    next hhdr =>
    apply ((NetBuf.ensures_setHeaderLen (by omega)).mono_halt fun _ _ => trivial).bind
    rintro txBuf₁ rfl
    have hcount := h.count
    refine ih ⟨?_, h.allocated, h.slots, h.sendQueue, ?_⟩ (hpool.trans hlen)
    . intro buf hbuf
      rcases List.mem_cons.mp hbuf with rfl | hbuf
      . exact ⟨rfl, hcap.trans hlen⟩
      . exact h.free buf hbuf
    . simp only [List.length_cons]
      omega

theorem txInv_of_new {hdrLen : Nat} {tokens : List Token} (hnew : new .release hdrLen tokens = .ok (.ok dev))
    : TxInv dev 0 := by
  have hspec : Ensures (new .release hdrLen tokens) (fun _ => True) fun r => ∀ dev, r = .ok dev → TxInv dev 0 := by
    unfold new
    split
    . exact .pure (by simp)
    next bufPool hpool =>
    split
    . exact .throw trivial
    refine Ensures.bind (ensures_fillRx_tx _ 0 tokens) fun r hr => ?_
    split
    . exact .pure (by simp)
    next dev₁ =>
    obtain ⟨hfree, hallocated, hslots, hsend, -, hbufLen⟩ := hr dev₁ rfl
    have hlen : bufPool.bufLen = netBufLen := by
      rw [show NetBufPool.new (2 * qs) netBufLen = .ok
        { capacity := 2 * qs, bufLen := netBufLen, freeList := poolOffsets } from rfl] at hpool
      rw [← Except.ok.inj hpool]
    apply ensures_fillTx_tx _ (hbufLen.trans hlen)
    refine ⟨?_, ?_, ?_, ?_, ?_⟩
    . simp [hfree]
    . simp [hallocated]
    . simp [hslots]
    . simp [hsend, hslots]
    . simp [hfree, hallocated, hslots, occupied]
  exact hspec.ok hnew dev rfl

theorem txKept_of_run {hdrLen : Nat} {tokens : List Token} {as : List VirtIoNetAction}
    (hnew : new .release hdrLen tokens = .ok (.ok dev)) (hrun : Run (stepIn width) (fun _ _ => True) dev as dev')
    : TxKept width dev as dev' :=
  ((txInv_of_new hnew).of_run hrun).txKept rfl

def rejectedOnce : List VirtIoNetAction :=
  [.allocTxBuffer 2000, .allocTxBuffer 100, .transmit 0 (Fin.last 63), .recycleTxBuffers [Fin.last 63]]

theorem txKept_rejectedOnce
    : ∃ dev dev', new .release 12 (List.finRange qs) = .ok (.ok dev) ∧
        Run (stepIn 64) (fun _ _ => True) dev rejectedOnce dev' ∧ dev'.freeTxBufs.length = 63 ∧
        TxKept 64 dev rejectedOnce dev' := by
  obtain ⟨dev, hnew, hok⟩ := exists_new .release
    (p := fun dev => (exec (stepIn 64) dev rejectedOnce).holds fun dev' => dev'.freeTxBufs.length = 63)
    (by decide +kernel)
  obtain ⟨dev', hrun, hfree⟩ := exists_run_of_exec _ _ _ _ hok
  exact ⟨dev, dev', hnew, hrun, by simpa using hfree, txKept_of_run hnew hrun⟩

instance (dev : VirtIoNetInner) : Decidable dev.Idle :=
  inferInstanceAs (Decidable (dev.allocated = [] ∧ ∀ token, dev.txBuffers token = none))

-- Requests that are too large take one buffer after the other, until nothing can be sent any more.
theorem not_canTransmit_oversized
    : ∃ dev dev', new .release 12 (List.finRange qs) = .ok (.ok dev) ∧
        ¬dev.KeepsFree 64 2000 ∧
        Run (stepIn 64) (fun _ _ => True) dev (List.replicate qs (.allocTxBuffer 2000)) dev' ∧
        dev'.Idle ∧ dev'.canTransmit true = false := by
  obtain ⟨dev, hnew, hok⟩ := exists_new .release
    (p := fun dev =>
      decide (Ensures (dev.allocTxBufferIn 64 2000) (fun _ => False) fun r =>
        r.1.isOk = false ∧ r.2.freeTxBufs.length < dev.freeTxBufs.length) &&
      (exec (stepIn 64) dev (List.replicate qs (.allocTxBuffer 2000))).holds
        fun dev' => dev'.Idle ∧ dev'.canTransmit true = false)
    (by decide +kernel)
  rw [Bool.and_eq_true, decide_eq_true_eq] at hok
  obtain ⟨hone, hall⟩ := hok
  obtain ⟨dev', hrun, hstarved⟩ := exists_run_of_exec _ _ _ _ hall
  obtain ⟨hidle, hfree⟩ := of_decide_eq_true hstarved
  refine ⟨dev, dev', hnew, ?_, hrun, hidle, hfree⟩
  obtain ⟨⟨res, dev₁⟩, hcall, hrejected, hlost⟩ := hone.exists_ok
  intro hkeeps
  cases res with
  | ok a => simp [Except.isOk, Except.toBool] at hrejected
  | error e =>
    have hkept := hkeeps e dev₁ hcall
    simp only at hlost
    omega

end VirtIoNetInner

end Jrinx
