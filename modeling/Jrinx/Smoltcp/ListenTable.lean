import Jrinx.Error
import Jrinx.Smoltcp.SocketSet

/-!
This module contains the listen table of `smoltcp_impl/listen_table.rs`: for every port the sockets that
wait to be accepted. The entries are behind locks of their own, here every call is one step.
-/

namespace Jrinx

structure ListenTableEntry where
  listenEndpoint : IpListenEndpoint
  synQueue : List SocketHandle
  deriving DecidableEq, Repr

abbrev ListenTable := UInt16 → Option ListenTableEntry

-- A packet as `snoop_tcp_packet` sees it.
structure TcpPacket where
  src : IpEndpoint
  dst : IpEndpoint
  syn : Bool
  ack : Bool
  deriving DecidableEq, Repr

def swapRemoveFront {α : Type} (queue : List α) (idx : Nat) : Option (α × List α) :=
  match queue, idx with
  | [], _ => none
  | front :: queue, 0 => some (front, queue)
  | front :: queue, idx + 1 => queue[idx]?.map fun a => (a, queue.set idx front)

namespace ListenTableEntry

def new (listenEndpoint : IpListenEndpoint) : ListenTableEntry := { listenEndpoint, synQueue := [] }

def canAccept (entry : ListenTableEntry) (dst : IpAddress) : Bool :=
  match entry.listenEndpoint.addr with
  | some addr => addr = dst
  | none => true

end ListenTableEntry

namespace ListenTable

def listenQueueSize : Nat := 512

def new : ListenTable := fun _ => none

def canListen (table : ListenTable) (port : UInt16) : Bool := (table port).isNone

def listen (table : ListenTable) (listenEndpoint : IpListenEndpoint)
    : NetM (Except InternalError Unit × ListenTable) :=
  let port := listenEndpoint.port
  if port = 0 then
    NetM.panic .zeroPort
  else if (table port).isNone then
    return (.ok (), Function.update table port (some (.new listenEndpoint)))
  else
    return (.error .netFail, table)

-- The old entry is dropped, and the sockets in its queue with it.
def unlisten (table : ListenTable) (sockets : SocketSet) (port : UInt16)
    : NetM (ListenTable × SocketSet) := do
  let handles := (table port).elim [] (·.synQueue)
  let sockets ← sockets.removeAll handles
  return (Function.update table port none, sockets)

def isConnected (sockets : SocketSet) (handle : SocketHandle) : NetM Bool := do
  let socket ← sockets.get handle
  return !(socket.state = .listen || socket.state = .synReceived)

def getAddrTuple (sockets : SocketSet) (handle : SocketHandle) : NetM (IpEndpoint × IpEndpoint) := do
  let socket ← sockets.get handle
  NetM.unwrap socket.tuple .noEndpoint

def anyConnected (sockets : SocketSet) (queue : List SocketHandle) : NetM Bool :=
  match queue with
  | [] => return false
  | handle :: queue => do
    if ← isConnected sockets handle then return true else anyConnected sockets queue

def canAccept (table : ListenTable) (sockets : SocketSet) (port : UInt16)
    : NetM (Except InternalError Bool) :=
  match table port with
  | some entry => do
    let connected ← anyConnected sockets entry.synQueue
    return .ok connected
  | none => return .error .netFail

-- The first socket in the queue that is connected, `idx` is the place of the front.
def findConnected (sockets : SocketSet) (idx : Nat) (queue : List SocketHandle)
    : NetM (Option (Nat × (IpEndpoint × IpEndpoint))) :=
  match queue with
  | [] => return none
  | handle :: queue => do
    if ← isConnected sockets handle then
      let addrTuple ← getAddrTuple sockets handle
      return some (idx, addrTuple)
    else
      findConnected sockets (idx + 1) queue

def accept (table : ListenTable) (sockets : SocketSet) (port : UInt16)
    : NetM (Except InternalError (SocketHandle × (IpEndpoint × IpEndpoint)) × ListenTable) :=
  match table port with
  | some entry => do
    match ← findConnected sockets 0 entry.synQueue with
    | none => return (.error .wouldBlock, table)
    | some (idx, addrTuple) =>
      let (handle, synQueue) ← NetM.unwrap (swapRemoveFront entry.synQueue idx) .noHandle
      return (.ok (handle, addrTuple), Function.update table port (some { entry with synQueue }))
  | none => return (.error .netFail, table)

-- `listens` is what the protocol answers to `Socket::listen`, `handle` is what the set answers to `add`.
def incomingTcpPacket (table : ListenTable) (sockets : SocketSet) (dst : IpEndpoint) (listens : Bool)
    (handle : SocketHandle) : NetM (ListenTable × SocketSet) :=
  match table dst.port with
  | some entry =>
    if !entry.canAccept dst.addr then
      return (table, sockets)
    else if entry.synQueue.length ≥ listenQueueSize then
      return (table, sockets)
    else if listens then do
      let sockets ← sockets.add { state := .listen, tuple := none } handle
      let entry := { entry with synQueue := entry.synQueue ++ [handle] }
      return (Function.update table dst.port (some entry), sockets)
    else
      return (table, sockets)
  | none => return (table, sockets)

def snoopTcpPacket (table : ListenTable) (sockets : SocketSet) (packet : TcpPacket) (listens : Bool)
    (handle : SocketHandle) : NetM (ListenTable × SocketSet) :=
  let isFirst := packet.syn && !packet.ack
  if isFirst then
    incomingTcpPacket table sockets packet.dst listens handle
  else
    return (table, sockets)

end ListenTable

end Jrinx
