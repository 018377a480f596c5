import Jrinx.Smoltcp.Tcp

/-!
This module contains a socket of `smoltcp_impl/tcp.rs` that is shared by threads. Here every access to the
socket is a step of its own: the loads and the stores of its fields, the `compare_exchange` of
`update_state`, and the critical sections of the socket set. What the interface and the other sockets do
to the socket set in between, what they leave in the listen table and what the protocol answers comes with
the actions.
-/

namespace Jrinx

-- The calls of `update_state`, `shutdown` has two of them.
inductive UpdateKind where
  | connect
  | bind
  | listen
  | shutdownStream
  | shutdownListener
  deriving DecidableEq, Repr

namespace UpdateKind

def expect : UpdateKind → TcpState
  | .connect | .bind | .listen => .closed
  | .shutdownStream => .connected
  | .shutdownListener => .listening

def new : UpdateKind → TcpState
  | .connect => .connecting
  | .bind | .shutdownStream | .shutdownListener => .closed
  | .listen => .listening

end UpdateKind

-- Where a thread is inside of `update_state`, between the `compare_exchange` and the last store.
inductive UpdatePc where
  -- The closure of `connect`.
  | connectHandle (remoteAddr : SocketAddr)
  | connectAdd (remoteAddr : SocketAddr)
  | connectBound (remoteAddr : SocketAddr) (handle : SocketHandle)
  | connectSocket (handle : SocketHandle) (remoteEndpoint : IpEndpoint)
      (boundEndpoint : IpListenEndpoint)
  | connectLocal (handle : SocketHandle) (localEndpoint remoteEndpoint : IpEndpoint)
  | connectPeer (handle : SocketHandle) (remoteEndpoint : IpEndpoint)
  | connectStore (handle : SocketHandle)
  -- The closure of `bind`.
  | bindPort (localAddr : SocketAddr)
  | bindCheck (localAddr : SocketAddr)
  | bindStore (localAddr : SocketAddr)
  -- The closure of `listen`.
  | listenBound
  | listenPort (boundEndpoint : IpListenEndpoint)
  | listenTable (boundEndpoint : IpListenEndpoint)
  -- The first closure of `shutdown`.
  | streamHandle
  | streamClose (handle : SocketHandle)
  | streamClear
  | streamPoll
  -- The second closure of `shutdown`.
  | listenerPort
  | listenerClear (localPort : UInt16)
  | listenerTable (localPort : UInt16)
  | listenerPoll
  -- The closure has returned.
  | finish (kind : UpdateKind) (res : Except InternalError Unit)

inductive SocketResult where
  | done (res : Except InternalError Unit)
  | polled (res : Except InternalError PollState)

-- The caller of `poll_connect`, `once` is a `connect` that does not block.
inductive PollCaller where
  | poll
  | connect (once : Bool)
  deriving DecidableEq, Repr

inductive SocketPc where
  | idle
  | returned (result : SocketResult)
  | update (pc : UpdatePc)
  -- The rest of `connect`.
  | connectWait
  | connectBlock
  | connectPoll
  | connectState
  -- `poll_connect`.
  | pollHandle (caller : PollCaller)
  | pollSocket (handle : SocketHandle) (caller : PollCaller)
  -- The second half of `shutdown`.
  | shutdownListener
  -- `poll_stream`.
  | streamHandle
  | streamSocket (handle : SocketHandle)
  -- `poll_listener`.
  | listenerAddr
  | listenerTable (localPort : UInt16)

def SocketPc.inUpdate : SocketPc → Bool
  | .update _ => true
  | _ => false

inductive SocketCall where
  | connect (remoteAddr : SocketAddr)
  | bind (localAddr : SocketAddr)
  | listen
  | shutdown
  | poll
  | setNonblocking (nonblocking : Bool)
  deriving DecidableEq, Repr

-- What a step gets from the rest of the system.
structure SocketAnswer where
  -- The handle of a new protocol socket.
  handle : SocketHandle
  -- The results of `get_ephemeral_port`, and of `listen` and `can_accept` of the listen table.
  ephemeralPort : Except InternalError UInt16
  listened : Except InternalError Unit
  canAccept : Except InternalError Bool
  -- `connect`, `close` and the readiness of a protocol socket.
  connect : ConnectAnswer
  close : Socket → Socket
  stream : Socket → PollState

structure SocketView where
  socket : TcpSocket
  socketSet : SocketSet

namespace TcpSocket

def boundEndpoint (s : TcpSocket) (ephemeralPort : Except InternalError UInt16)
    : NetM (Except InternalError IpListenEndpoint) :=
  match if s.localAddr.port ≠ 0 then .ok s.localAddr.port else ephemeralPort with
  | .error e => return .error e
  | .ok port =>
    if port = 0 then
      NetM.panic .zeroPort
    else
      let addr := if !s.localAddr.addr.isUnspecified then some s.localAddr.addr else none
      return .ok ⟨addr, port⟩

end TcpSocket

namespace SocketView

variable (v : SocketView) (answer : SocketAnswer)

def stepConnect (pc : UpdatePc) : NetM (SocketView × UpdatePc) :=
  match pc with
  | .connectHandle remoteAddr =>
    match v.socket.handle with
    | some handle => return (v, .connectBound remoteAddr handle)
    | none => return (v, .connectAdd remoteAddr)
  | .connectAdd remoteAddr => do
    let socketSet ← v.socketSet.add SocketSet.newTcpSocket answer.handle
    return ({ v with socketSet }, .connectBound remoteAddr answer.handle)
  | .connectBound remoteAddr handle => do
    let remoteEndpoint ← fromCoreSockaddr remoteAddr
    match ← v.socket.boundEndpoint answer.ephemeralPort with
    | .error e => return (v, .finish .connect (.error e))
    | .ok boundEndpoint => return (v, .connectSocket handle remoteEndpoint boundEndpoint)
  | .connectSocket handle remoteEndpoint boundEndpoint => do
    let socket ← v.socketSet.get handle
    match answer.connect socket remoteEndpoint boundEndpoint with
    | .error _ => return (v, .finish .connect (.error .netFail))
    | .ok socket =>
      let (localEndpoint, remoteEndpoint) ← NetM.unwrap socket.tuple .noEndpoint
      let v := { v with socketSet := v.socketSet.setSocket handle socket }
      return (v, .connectLocal handle localEndpoint remoteEndpoint)
  | .connectLocal handle localEndpoint remoteEndpoint =>
    return ({ v with socket.localAddr := localEndpoint }, .connectPeer handle remoteEndpoint)
  | .connectPeer handle remoteEndpoint =>
    return ({ v with socket.peerAddr := remoteEndpoint }, .connectStore handle)
  | .connectStore handle =>
    return ({ v with socket.handle := some handle }, .finish .connect (.ok ()))
  | _ => NetM.disabled

def stepBind (pc : UpdatePc) : NetM (SocketView × UpdatePc) :=
  match pc with
  | .bindPort localAddr =>
    match if localAddr.port = 0 then answer.ephemeralPort else .ok localAddr.port with
    | .error e => return (v, .finish .bind (.error e))
    | .ok port => return (v, .bindCheck { localAddr with port })
  | .bindCheck localAddr =>
    if v.socket.localAddr ≠ .unspecified then
      return (v, .finish .bind (.error .netFail))
    else
      return (v, .bindStore localAddr)
  | .bindStore localAddr => do
    let localAddr ← fromCoreSockaddr localAddr
    return ({ v with socket.localAddr := localAddr }, .finish .bind (.ok ()))
  | _ => NetM.disabled

def stepListen (pc : UpdatePc) : NetM (SocketView × UpdatePc) :=
  match pc with
  | .listenBound => do
    match ← v.socket.boundEndpoint answer.ephemeralPort with
    | .error e => return (v, .finish .listen (.error e))
    | .ok boundEndpoint => return (v, .listenPort boundEndpoint)
  | .listenPort boundEndpoint =>
    return ({ v with socket.localAddr.port := boundEndpoint.port }, .listenTable boundEndpoint)
  | .listenTable _ => return (v, .finish .listen answer.listened)
  | _ => NetM.disabled

def stepShutdown (pc : UpdatePc) : NetM (SocketView × UpdatePc) :=
  match pc with
  | .streamHandle => do
    let handle ← NetM.unwrap v.socket.handle .noHandle
    return (v, .streamClose handle)
  | .streamClose handle => do
    let socket ← v.socketSet.get handle
    return ({ v with socketSet := v.socketSet.setSocket handle (answer.close socket) }, .streamClear)
  | .streamClear => return ({ v with socket.localAddr := .unspecified }, .streamPoll)
  | .streamPoll => return (v, .finish .shutdownStream (.ok ()))
  | .listenerPort => return (v, .listenerClear v.socket.localAddr.port)
  | .listenerClear localPort =>
    return ({ v with socket.localAddr := .unspecified }, .listenerTable localPort)
  | .listenerTable _ => return (v, .listenerPoll)
  | .listenerPoll => return (v, .finish .shutdownListener (.ok ()))
  | _ => NetM.disabled

def stepUpdate (pc : UpdatePc) : NetM (SocketView × UpdatePc) :=
  match pc with
  | .connectHandle _ | .connectAdd _ | .connectBound _ _ | .connectSocket _ _ _ | .connectLocal _ _ _
  | .connectPeer _ _ | .connectStore _ => v.stepConnect answer pc
  | .bindPort _ | .bindCheck _ | .bindStore _ => v.stepBind answer pc
  | .listenBound | .listenPort _ | .listenTable _ => v.stepListen answer pc
  | .streamHandle | .streamClose _ | .streamClear | .streamPoll | .listenerPort | .listenerClear _
  | .listenerTable _ | .listenerPoll => v.stepShutdown answer pc
  | .finish _ _ => NetM.disabled

-- The `compare_exchange` of `update_state`.
def compareExchange (kind : UpdateKind) (closure : UpdatePc) (failed : SocketPc)
    : SocketView × SocketPc :=
  if v.socket.state = kind.expect then
    ({ v with socket.state := .busy }, .update closure)
  else
    (v, failed)

-- The last store of `update_state`.
def setFinal (kind : UpdateKind) (res : Except InternalError Unit) : SocketView :=
  { v with socket.state := if res.isOk then kind.new else kind.expect }

end SocketView

-- Where a call goes on after `update_state`.
def UpdateKind.next (kind : UpdateKind) (res : Except InternalError Unit) : SocketPc :=
  match kind, res with
  | .connect, .ok _ => .connectWait
  | .shutdownStream, .ok _ => .shutdownListener
  | _, res => .returned (.done res)

def PollCaller.next (caller : PollCaller) (writable : Bool) : SocketPc :=
  match caller with
  | .poll => .returned (.polled (.ok ⟨false, writable⟩))
  | .connect once =>
    if !writable then
      if once then .returned (.done (.error .wouldBlock)) else .connectPoll
    else
      .connectState

namespace SocketView

variable (v : SocketView) (answer : SocketAnswer)

-- The critical section of `poll_connect`.
def pollConnect (handle : SocketHandle) (caller : PollCaller) : NetM (SocketView × SocketPc) := do
  let socket ← v.socketSet.get handle
  match socket.state with
  | .synSent => return (v, caller.next false)
  | .established =>
    let _ ← NetM.unwrap socket.tuple .noEndpoint
    return ({ v with socket.state := .connected }, caller.next true)
  | _ =>
    let socket :=
      { v.socket with localAddr := .unspecified, peerAddr := .unspecified, state := .closed }
    return ({ v with socket }, caller.next true)

def stepConnectRest (pc : SocketPc) : NetM (SocketView × SocketPc) :=
  match pc with
  | .connectWait =>
    if v.socket.nonblock then
      return (v, .returned (.done (.error .wouldBlock)))
    else
      return (v, .connectBlock)
  | .connectBlock =>
    if v.socket.nonblock then return (v, .pollHandle (.connect true)) else return (v, .connectPoll)
  | .connectPoll => return (v, .pollHandle (.connect false))
  | .connectState =>
    if v.socket.state = .connected then
      return (v, .returned (.done (.ok ())))
    else
      return (v, .returned (.done (.error .netFail)))
  | _ => NetM.disabled

def stepPoll (pc : SocketPc) : NetM (SocketView × SocketPc) :=
  match pc with
  | .pollHandle caller => do
    let handle ← NetM.unwrap v.socket.handle .noHandle
    return (v, .pollSocket handle caller)
  | .pollSocket handle caller => v.pollConnect handle caller
  | .streamHandle => do
    let handle ← NetM.unwrap v.socket.handle .noHandle
    return (v, .streamSocket handle)
  | .streamSocket handle => do
    let socket ← v.socketSet.get handle
    return (v, .returned (.polled (.ok (answer.stream socket))))
  | .listenerAddr => return (v, .listenerTable v.socket.localAddr.port)
  | .listenerTable _ =>
    let res := answer.canAccept.map fun readable => { readable, writable := false : PollState }
    return (v, .returned (.polled res))
  | _ => NetM.disabled

def stepThread (pc : SocketPc) : NetM (SocketView × SocketPc) :=
  match pc with
  | .idle | .returned _ => NetM.disabled
  | .update (.finish kind res) => return (v.setFinal kind res, kind.next res)
  | .update closure => do
    let (v, closure) ← v.stepUpdate answer closure
    return (v, .update closure)
  | .connectWait | .connectBlock | .connectPoll | .connectState => v.stepConnectRest pc
  | .pollHandle _ | .pollSocket _ _ | .streamHandle | .streamSocket _ | .listenerAddr | .listenerTable _ =>
    v.stepPoll answer pc
  | .shutdownListener =>
    return v.compareExchange .shutdownListener .listenerPort (.returned (.done (.ok ())))

def begin (call : SocketCall) : SocketView × SocketPc :=
  match call with
  | .connect remoteAddr =>
    v.compareExchange .connect (.connectHandle remoteAddr) (.returned (.done (.error .netFail)))
  | .bind localAddr =>
    v.compareExchange .bind (.bindPort localAddr) (.returned (.done (.error .netFail)))
  | .listen => v.compareExchange .listen .listenBound (.returned (.done (.ok ())))
  | .shutdown => v.compareExchange .shutdownStream .streamHandle .shutdownListener
  | .poll =>
    match v.socket.state with
    | .connecting => (v, .pollHandle .poll)
    | .connected => (v, .streamHandle)
    | .listening => (v, .listenerAddr)
    | _ => (v, .returned (.polled (.ok ⟨false, false⟩)))
  | .setNonblocking nonblocking =>
    ({ v with socket.nonblock := nonblocking }, .returned (.done (.ok ())))

end SocketView

structure SharedSocket extends SocketView where
  threads : Nat → SocketPc

inductive SharedAction where
  | call (thread : Nat) (call : SocketCall)
  | go (thread : Nat) (answer : SocketAnswer)
  -- The interface or another socket changes the set.
  | other (socketSet : SocketSet)

def SharedAction.thread : SharedAction → Option Nat
  | .call i _ => some i
  | .go i _ => some i
  | .other _ => none

namespace SharedSocket

def init (socket : TcpSocket) (socketSet : SocketSet) : SharedSocket where
  socket
  socketSet
  threads _ := .idle

def Initial (s : SharedSocket) : Prop :=
  ∃ socketSet, s = init .new socketSet ∨
    ∃ handle localAddr peerAddr, s = init (.newConnected handle localAddr peerAddr) socketSet

def put (s : SharedSocket) (i : Nat) (res : SocketView × SocketPc) : SharedSocket where
  toSocketView := res.1
  threads := Function.update s.threads i res.2

def act (s : SharedSocket) (a : SharedAction) : NetM SharedSocket :=
  match a with
  | .call i call =>
    match s.threads i with
    | .idle | .returned _ => return s.put i (s.begin call)
    | _ => NetM.disabled
  | .go i answer => do
    let res ← s.stepThread answer (s.threads i)
    return s.put i res
  | .other socketSet => return { s with socketSet }

def step (s : SharedSocket) (a : SharedAction) : Outcome SharedSocket := .ofExcept (s.act a)

end SharedSocket

end Jrinx
