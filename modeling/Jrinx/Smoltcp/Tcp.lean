import Jrinx.Smoltcp.ListenTable

/-!
This module contains the sockets of `smoltcp_impl/tcp.rs`, with the socket set, the listen table and the
cursor of the ephemeral ports that all of them share. Every operation is one step here, what the
interface receives and what the protocol answers meanwhile comes with the action.
-/

namespace Jrinx

inductive TcpState where
  | closed
  | busy
  | connecting
  | connected
  | listening
  deriving DecidableEq, Repr

structure TcpSocket where
  state : TcpState
  handle : Option SocketHandle
  localAddr : IpEndpoint
  peerAddr : IpEndpoint
  nonblock : Bool
  deriving DecidableEq, Repr

structure PollState where
  readable : Bool
  writable : Bool
  deriving DecidableEq, Repr

inductive ConnectError where
  | invalidState
  | unaddressable
  deriving DecidableEq, Repr

-- `Socket::connect` of the protocol at the time of a call, with the remote and the bound endpoint.
abbrev ConnectAnswer := Socket → IpEndpoint → IpListenEndpoint → Except ConnectError Socket

-- What happens inside of `Interface::poll`.
inductive PollEvent where
  -- The device has received a packet.
  | packet (packet : TcpPacket) (listens : Bool) (handle : SocketHandle)
  -- The protocol changes a socket of the set.
  | process (handle : SocketHandle) (socket : Socket)
  deriving DecidableEq, Repr

structure Net where
  socketSet : SocketSet
  listenTable : ListenTable
  curr : UInt16
  -- The sockets that exist and have not been dropped.
  sockets : Nat → Option TcpSocket
  -- Whether the connection of a socket was opened by `connect`.
  opened : Nat → Bool

namespace TcpSocket

def new : TcpSocket where
  state := .closed
  handle := none
  localAddr := .unspecified
  peerAddr := .unspecified
  nonblock := false

def newConnected (handle : SocketHandle) (localAddr peerAddr : IpEndpoint) : TcpSocket where
  state := .connected
  handle := some handle
  localAddr
  peerAddr
  nonblock := false

end TcpSocket

def portStart : UInt16 := 0xc000

def portEnd : UInt16 := 0xffff

namespace Net

def init : Net where
  socketSet := .new
  listenTable := .new
  curr := portStart
  sockets _ := none
  opened _ := false

def socket (net : Net) (id : Nat) : NetM TcpSocket :=
  match net.sockets id with
  | some s => return s
  | none => NetM.disabled

def setSocket (net : Net) (id : Nat) (s : TcpSocket) : Net :=
  { net with sockets := Function.update net.sockets id (some s) }

def setState (net : Net) (id : Nat) (state : TcpState) : NetM Net := do
  let s ← net.socket id
  return net.setSocket id { s with state }

def pollEvent (net : Net) (event : PollEvent) : NetM Net :=
  match event with
  | .packet packet listens handle => do
    let (listenTable, socketSet) ← net.listenTable.snoopTcpPacket net.socketSet packet listens handle
    return { net with listenTable, socketSet }
  | .process handle socket =>
    if (net.socketSet handle).isSome then
      return { net with socketSet := net.socketSet.setSocket handle socket }
    else
      NetM.disabled

def pollInterfaces (net : Net) (events : List PollEvent) : NetM Net :=
  events.foldlM pollEvent net

-- The loop of `get_ephemeral_port` with the tries that are left.
def nextPort (table : ListenTable) (curr : UInt16) (tries : Nat) : Except InternalError UInt16 × UInt16 :=
  match tries with
  | 0 => (.error .netFail, curr)
  | tries + 1 =>
    let next := if curr = portEnd then portStart else curr + 1
    if table.canListen curr then (.ok curr, next) else nextPort table next tries

def getEphemeralPort (net : Net) : Except InternalError UInt16 × Net :=
  let (port, curr) := nextPort net.listenTable net.curr (portEnd - portStart + 1).toNat
  (port, { net with curr })

def boundPort (net : Net) (s : TcpSocket) : Except InternalError UInt16 × Net :=
  if s.localAddr.port ≠ 0 then (.ok s.localAddr.port, net) else net.getEphemeralPort

def boundEndpoint (net : Net) (s : TcpSocket) : NetM (Except InternalError IpListenEndpoint × Net) :=
  match net.boundPort s with
  | (.error e, net) => return (.error e, net)
  | (.ok port, net) =>
    if port = 0 then
      NetM.panic .zeroPort
    else
      let addr := if !s.localAddr.addr.isUnspecified then some s.localAddr.addr else none
      return (.ok ⟨addr, port⟩, net)

def updateState {α : Type} (net : Net) (id : Nat) (expect new : TcpState)
    (f : Net → TcpSocket → NetM (Except InternalError α × Net))
    : NetM (Except TcpState (Except InternalError α) × Net) := do
  let s ← net.socket id
  if s.state = expect then
    let s := { s with state := .busy }
    let (res, net) ← f (net.setSocket id s) s
    let net ← net.setState id (if res.isOk then new else expect)
    return (.ok res, net)
  else
    return (.error s.state, net)

-- The closure of `connect` once it has a handle.
def connectHandle (net : Net) (id : Nat) (remoteAddr : SocketAddr) (answer : ConnectAnswer)
    (s : TcpSocket) (handle : SocketHandle) : NetM (Except InternalError Unit × Net) := do
  let remoteEndpoint ← fromCoreSockaddr remoteAddr
  match ← net.boundEndpoint s with
  | (.error e, net) => return (.error e, net)
  | (.ok boundEndpoint, net) =>
    let socket ← net.socketSet.get handle
    match answer socket remoteEndpoint boundEndpoint with
    | .error _ => return (.error .netFail, net)
    | .ok socket =>
      let (localEndpoint, remoteEndpoint) ← NetM.unwrap socket.tuple .noEndpoint
      let net := { net with socketSet := net.socketSet.setSocket handle socket }
      let s := { s with localAddr := localEndpoint, peerAddr := remoteEndpoint, handle := some handle }
      return (.ok (), { net.setSocket id s with opened := Function.update net.opened id true })

def connectSocket (net : Net) (id : Nat) (remoteAddr : SocketAddr) (fresh : SocketHandle)
    (answer : ConnectAnswer) (s : TcpSocket) : NetM (Except InternalError Unit × Net) :=
  match s.handle with
  | some handle => net.connectHandle id remoteAddr answer s handle
  | none => do
    let socketSet ← net.socketSet.add SocketSet.newTcpSocket fresh
    { net with socketSet }.connectHandle id remoteAddr answer s fresh

def pollConnect (net : Net) (id : Nat) : NetM (PollState × Net) := do
  let s ← net.socket id
  let handle ← NetM.unwrap s.handle .noHandle
  let socket ← net.socketSet.get handle
  match socket.state with
  | .synSent => return (⟨false, false⟩, net)
  | .established =>
    let _ ← NetM.unwrap socket.tuple .noEndpoint
    return (⟨false, true⟩, net.setSocket id { s with state := .connected })
  | _ =>
    let s := { s with localAddr := .unspecified, peerAddr := .unspecified, state := .closed }
    return (⟨false, true⟩, net.setSocket id s)

-- The loop of `block_on`, it does not end as long as there is another round.
def blockLoop {α : Type} (net : Net) (rounds : List (List PollEvent))
    (f : Net → NetM (Except InternalError α × Net)) : NetM (Except InternalError α × Net) :=
  match rounds with
  | [] => NetM.disabled
  | events :: rounds => do
    let net ← net.pollInterfaces events
    match ← f net with
    | (.error .wouldBlock, net) => blockLoop net rounds f
    | (res, net) => return (res, net)

def blockOn {α : Type} (net : Net) (id : Nat) (rounds : List (List PollEvent))
    (f : Net → NetM (Except InternalError α × Net)) : NetM (Except InternalError α × Net) := do
  let s ← net.socket id
  if s.nonblock then f net else blockLoop net rounds f

def connectRound (id : Nat) (net : Net) : NetM (Except InternalError Unit × Net) := do
  let (poll, net) ← net.pollConnect id
  if !poll.writable then
    return (.error .wouldBlock, net)
  else
    let s ← net.socket id
    if s.state = .connected then return (.ok (), net) else return (.error .netFail, net)

def connect (net : Net) (id : Nat) (remoteAddr : SocketAddr) (fresh : SocketHandle)
    (answer : ConnectAnswer) (rounds : List (List PollEvent))
    : NetM (Except InternalError Unit × Net) := do
  let started ← net.updateState id .closed .connecting
    fun net s => net.connectSocket id remoteAddr fresh answer s
  match started with
  | (.error _, net) => return (.error .netFail, net)
  | (.ok (.error e), net) => return (.error e, net)
  | (.ok (.ok _), net) =>
    let s ← net.socket id
    if s.nonblock then return (.error .wouldBlock, net) else net.blockOn id rounds (connectRound id)

def bindSocket (net : Net) (id : Nat) (localAddr : SocketAddr) (s : TcpSocket)
    : NetM (Except InternalError Unit × Net) :=
  match if localAddr.port = 0 then net.getEphemeralPort else (.ok localAddr.port, net) with
  | (.error e, net) => return (.error e, net)
  | (.ok port, net) =>
    if s.localAddr ≠ .unspecified then
      return (.error .netFail, net)
    else do
      let localAddr ← fromCoreSockaddr { localAddr with port }
      return (.ok (), net.setSocket id { s with localAddr })

def bind (net : Net) (id : Nat) (localAddr : SocketAddr) : NetM (Except InternalError Unit × Net) := do
  match ← net.updateState id .closed .closed fun net s => net.bindSocket id localAddr s with
  | (.ok res, net) => return (res, net)
  | (.error _, net) => return (.error .netFail, net)

def listenSocket (net : Net) (id : Nat) (s : TcpSocket) : NetM (Except InternalError Unit × Net) := do
  match ← net.boundEndpoint s with
  | (.error e, net) => return (.error e, net)
  | (.ok boundEndpoint, net) =>
    let net := net.setSocket id { s with localAddr.port := boundEndpoint.port }
    let (res, listenTable) ← net.listenTable.listen boundEndpoint
    return (res, { net with listenTable })

def listen (net : Net) (id : Nat) : NetM (Except InternalError Unit × Net) := do
  match ← net.updateState id .closed .listening fun net s => net.listenSocket id s with
  | (.ok res, net) => return (res, net)
  -- Simultaneous calls are ignored.
  | (.error _, net) => return (.ok (), net)

def acceptRound (port : UInt16) (newId : Nat) (net : Net) : NetM (Except InternalError Unit × Net) := do
  match ← net.listenTable.accept net.socketSet port with
  | (.error e, listenTable) => return (.error e, { net with listenTable })
  | (.ok (handle, localAddr, peerAddr), listenTable) =>
    if (net.sockets newId).isSome then
      NetM.disabled
    else
      let net := { net with listenTable, opened := Function.update net.opened newId false }
      return (.ok (), net.setSocket newId (.newConnected handle localAddr peerAddr))

-- The new socket gets the number `newId`.
def accept (net : Net) (id : Nat) (rounds : List (List PollEvent)) (newId : Nat)
    : NetM (Except InternalError Unit × Net) := do
  let s ← net.socket id
  if s.state ≠ .listening then
    return (.error .netFail, net)
  else
    net.blockOn id rounds (acceptRound s.localAddr.port newId)

-- `close` is `Socket::close` of the protocol.
def shutdownStream (net : Net) (id : Nat) (close : Socket → Socket) (events : List PollEvent)
    (s : TcpSocket) : NetM (Except InternalError Unit × Net) := do
  let handle ← NetM.unwrap s.handle .noHandle
  let socket ← net.socketSet.get handle
  let net := { net with socketSet := net.socketSet.setSocket handle (close socket) }
  let net := net.setSocket id { s with localAddr := .unspecified }
  let net ← net.pollInterfaces events
  return (.ok (), net)

def shutdownListener (net : Net) (id : Nat) (events : List PollEvent) (s : TcpSocket)
    : NetM (Except InternalError Unit × Net) := do
  let localPort := s.localAddr.port
  let net := net.setSocket id { s with localAddr := .unspecified }
  let (listenTable, socketSet) ← net.listenTable.unlisten net.socketSet localPort
  let net ← { net with listenTable, socketSet }.pollInterfaces events
  return (.ok (), net)

def shutdown (net : Net) (id : Nat) (close : Socket → Socket) (events : List PollEvent)
    : NetM (Except InternalError Unit × Net) := do
  let (_, net) ← net.updateState id .connected .closed
    fun net s => net.shutdownStream id close events s
  let (_, net) ← net.updateState id .listening .closed
    fun net s => net.shutdownListener id events s
  return (.ok (), net)

-- `stream` is what the protocol says about a connected socket.
def poll (net : Net) (id : Nat) (stream : Socket → PollState)
    : NetM (Except InternalError PollState × Net) := do
  let s ← net.socket id
  match s.state with
  | .connecting => do
    let (poll, net) ← net.pollConnect id
    return (.ok poll, net)
  | .connected => do
    let handle ← NetM.unwrap s.handle .noHandle
    let socket ← net.socketSet.get handle
    return (.ok (stream socket), net)
  | .listening => do
    match ← net.listenTable.canAccept net.socketSet s.localAddr.port with
    | .ok readable => return (.ok ⟨readable, false⟩, net)
    | .error e => return (.error e, net)
  | _ => return (.ok ⟨false, false⟩, net)

def drop (net : Net) (id : Nat) (close : Socket → Socket) (events : List PollEvent) : NetM Net := do
  let (_, net) ← net.shutdown id close events
  let s ← net.socket id
  let socketSet ← match s.handle with
    | some handle => net.socketSet.remove handle
    | none => pure net.socketSet
  return { net with socketSet, sockets := Function.update net.sockets id none }

def create (net : Net) (id : Nat) : NetM Net :=
  if (net.sockets id).isSome then NetM.disabled else return net.setSocket id .new

def setNonblocking (net : Net) (id : Nat) (nonblock : Bool) : NetM Net := do
  let s ← net.socket id
  return net.setSocket id { s with nonblock }

end Net

inductive NetAction where
  | create (id : Nat)
  | setNonblocking (id : Nat) (nonblock : Bool)
  | bind (id : Nat) (localAddr : SocketAddr)
  | connect (id : Nat) (remoteAddr : SocketAddr) (fresh : SocketHandle)
      (answer : ConnectAnswer) (rounds : List (List PollEvent))
  | listen (id : Nat)
  | accept (id : Nat) (rounds : List (List PollEvent)) (newId : Nat)
  | shutdown (id : Nat) (close : Socket → Socket) (events : List PollEvent)
  | poll (id : Nat) (stream : Socket → PollState)
  | drop (id : Nat) (close : Socket → Socket) (events : List PollEvent)
  -- Anything else that polls the interface.
  | pollInterfaces (events : List PollEvent)

namespace Net

def call (net : Net) (a : NetAction) : NetM Net :=
  match a with
  | .create id => net.create id
  | .setNonblocking id nonblock => net.setNonblocking id nonblock
  | .bind id localAddr => Prod.snd <$> net.bind id localAddr
  | .connect id remoteAddr fresh answer rounds =>
    Prod.snd <$> net.connect id remoteAddr fresh answer rounds
  | .listen id => Prod.snd <$> net.listen id
  | .accept id rounds newId => Prod.snd <$> net.accept id rounds newId
  | .shutdown id close events => Prod.snd <$> net.shutdown id close events
  | .poll id stream => Prod.snd <$> net.poll id stream
  | .drop id close events => net.drop id close events
  | .pollInterfaces events => net.pollInterfaces events

def step (net : Net) (a : NetAction) : Outcome Net := .ofExcept (net.call a)

end Net

end Jrinx
