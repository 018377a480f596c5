import Jrinx.Driver.NetBuf

/-!
This module contains the network driver of `driver/src/net/virtio_net.rs` on top of a virtio queue. The
queue is not part of the repository: it issues a token for every slice that it is given, and which tokens
it reports, when, and with which lengths, comes with the actions.
-/

namespace Jrinx

abbrev qs : Nat := 64

def netBufLen : Nat := 1526

abbrev Token := Fin qs

-- The slices of the tokens that are not completed.
abbrev VirtQueue := Token → Option Slice

structure VirtIONetRaw where
  -- The size of the header in front of every packet.
  hdrLen : Nat
  recvQueue : VirtQueue
  sendQueue : VirtQueue

structure VirtIoNetInner where
  rxBuffers : Token → Option NetBuf
  txBuffers : Token → Option NetBuf
  freeTxBufs : List NetBuf
  bufPool : NetBufPool
  raw : VirtIONetRaw
  -- The buffers that `receive` and `alloc_tx_buffer` have handed out as a `NetBufPtr`.
  received : List NetBuf
  allocated : List NetBuf

abbrev VirtioM := Except (Halt NetBufPanic)

namespace VirtQueue

def begin (queue : VirtQueue) (slice : Slice) (token : Token) : VirtioM VirtQueue :=
  if (queue token).isSome then
    throw .disabled
  else
    return Function.update queue token (some slice)

def complete (queue : VirtQueue) (token : Token) (slice : Slice) : VirtioM VirtQueue :=
  match queue token with
  | none => throw .disabled
  | some given =>
    if given = slice then return Function.update queue token none else throw (.panic .wrongSlice)

end VirtQueue

namespace VirtIoNetInner

-- The loop that fills the receive queue, `i` is the place in it.
def fillRx (dev : VirtIoNetInner) (i : Nat) (tokens : List Token)
    : VirtioM (Except InternalError VirtIoNetInner) :=
  match tokens with
  | [] => return .ok dev
  | token :: tokens =>
    match dev.bufPool.alloc with
    | none => return .error .notEnoughMem
    | some (rxBuf, bufPool) => do
      let recvQueue ← dev.raw.recvQueue.begin rxBuf.rawBuf token
      if token.val ≠ i then
        throw (.panic .tokenAssert)
      else
        let dev :=
          {
            dev with
            bufPool
            raw.recvQueue := recvQueue
            rxBuffers := Function.update dev.rxBuffers token (some rxBuf)
          }
        dev.fillRx (i + 1) tokens

def fillTx (mode : BuildMode) (dev : VirtIoNetInner) (n : Nat) : VirtioM (Except InternalError VirtIoNetInner) :=
  match n with
  | 0 => return .ok dev
  | n + 1 =>
    match dev.bufPool.alloc with
    | none => return .error .notEnoughMem
    | some (txBuf, bufPool) =>
      -- The header does not fit into the buffer.
      if dev.raw.hdrLen > txBuf.capacity then
        return .error .invalidParam
      else do
        let txBuf ← txBuf.setHeaderLen mode dev.raw.hdrLen
        { dev with bufPool, freeTxBufs := txBuf :: dev.freeTxBufs }.fillTx mode n

-- `tokens` are the tokens of the first receive buffers.
def new (mode : BuildMode) (hdrLen : Nat) (tokens : List Token)
    : VirtioM (Except InternalError VirtIoNetInner) :=
  match NetBufPool.new (2 * qs) netBufLen with
  | .error e => return .error e
  | .ok bufPool =>
    if tokens.length ≠ qs then
      throw .disabled
    else do
      let dev : VirtIoNetInner :=
        {
          rxBuffers := fun _ => none
          txBuffers := fun _ => none
          freeTxBufs := []
          bufPool
          raw := { hdrLen, recvQueue := fun _ => none, sendQueue := fun _ => none }
          received := []
          allocated := []
        }
      match ← dev.fillRx 0 tokens with
      | .error e => return .error e
      | .ok dev => dev.fillTx mode qs

-- The buffer is one that was received.
def recycleRxBuffer (dev : VirtIoNetInner) (i : Nat) (newToken : Token)
    : VirtioM (Except InternalError Unit × VirtIoNetInner) :=
  match dev.received[i]? with
  | none => throw .disabled
  | some rxBuf => do
    let dev := { dev with received := dev.received.eraseIdx i }
    let recvQueue ← dev.raw.recvQueue.begin rxBuf.rawBuf newToken
    let dev := { dev with raw.recvQueue := recvQueue }
    if (dev.rxBuffers newToken).isSome then
      return (.error .devBadState, { dev with bufPool := dev.bufPool.dealloc rxBuf })
    else
      return (.ok (), { dev with rxBuffers := Function.update dev.rxBuffers newToken (some rxBuf) })

-- `tokens` are the tokens that the queue reports until there are no more.
def recycleTxBuffers (dev : VirtIoNetInner) (tokens : List Token)
    : VirtioM (Except InternalError Unit × VirtIoNetInner) :=
  match tokens with
  | [] => return (.ok (), dev)
  | token :: tokens =>
    if (dev.raw.sendQueue token).isNone then
      throw .disabled
    else
      match dev.txBuffers token with
      | none => return (.error .devBadState, dev)
      | some txBuf => do
        let sendQueue ← dev.raw.sendQueue.complete token txBuf.packetWithHeader
        let dev :=
          {
            dev with
            txBuffers := Function.update dev.txBuffers token none
            raw.sendQueue := sendQueue
            freeTxBufs := txBuf :: dev.freeTxBufs
          }
        dev.recycleTxBuffers tokens

-- The buffer is one that was allocated.
def transmit (dev : VirtIoNetInner) (i : Nat) (token : Token)
    : VirtioM (Except InternalError Unit × VirtIoNetInner) :=
  match dev.allocated[i]? with
  | none => throw .disabled
  | some txBuf => do
    let sendQueue ← dev.raw.sendQueue.begin txBuf.packetWithHeader token
    -- A buffer that is still in its place would be dropped.
    let bufPool := (dev.txBuffers token).elim dev.bufPool dev.bufPool.dealloc
    return (.ok (),
      {
        dev with
        allocated := dev.allocated.eraseIdx i
        raw.sendQueue := sendQueue
        bufPool
        txBuffers := Function.update dev.txBuffers token (some txBuf)
      })

-- `polled` is the token that the queue reports, with the length of the packet that comes from the device.
def receive (mode : BuildMode) (dev : VirtIoNetInner) (polled : Option (Token × Nat))
    : VirtioM (Except InternalError Unit × VirtIoNetInner) :=
  match polled with
  | none => return (.error .netAgain, dev)
  | some (token, pktLen) =>
    if (dev.raw.recvQueue token).isNone then
      throw .disabled
    else
      match dev.rxBuffers token with
      | none => return (.error .devBadState, dev)
      | some rxBuf => do
        let recvQueue ← dev.raw.recvQueue.complete token rxBuf.rawBuf
        let rxBuf ← rxBuf.setHeaderLen mode dev.raw.hdrLen
        let rxBuf ← rxBuf.setPacketLen mode pktLen
        return (.ok (),
          {
            dev with
            rxBuffers := Function.update dev.rxBuffers token none
            raw.recvQueue := recvQueue
            received := rxBuf :: dev.received
          })

def allocTxBuffer (mode : BuildMode) (dev : VirtIoNetInner) (size : Nat)
    : VirtioM (Except InternalError Unit × VirtIoNetInner) :=
  match dev.freeTxBufs with
  | [] => return (.error .notEnoughMem, dev)
  | netBuf :: freeTxBufs => do
    let dev := { dev with freeTxBufs }
    if netBuf.headerLen + size > netBuf.capacity then
      return (.error .invalidParam, { dev with bufPool := dev.bufPool.dealloc netBuf })
    else
      let netBuf ← netBuf.setPacketLen mode size
      return (.ok (), { dev with allocated := netBuf :: dev.allocated })

end VirtIoNetInner

inductive VirtIoNetAction where
  | receive (polled : Option (Token × Nat))
  | recycleRxBuffer (i : Nat) (newToken : Token)
  | allocTxBuffer (size : Nat)
  | transmit (i : Nat) (token : Token)
  | recycleTxBuffers (tokens : List Token)

namespace VirtIoNetInner

def call (mode : BuildMode) (dev : VirtIoNetInner) (a : VirtIoNetAction)
    : VirtioM (Except InternalError Unit × VirtIoNetInner) :=
  match a with
  | .receive polled => dev.receive mode polled
  | .recycleRxBuffer i newToken => dev.recycleRxBuffer i newToken
  | .allocTxBuffer size => dev.allocTxBuffer mode size
  | .transmit i token => dev.transmit i token
  | .recycleTxBuffers tokens => dev.recycleTxBuffers tokens

def step (mode : BuildMode) (dev : VirtIoNetInner) (a : VirtIoNetAction) : Outcome VirtIoNetInner :=
  .ofExcept (Prod.snd <$> dev.call mode a)

end VirtIoNetInner

end Jrinx
