import Jrinx.Util.Locks

/-!
This module contains the spin locks that the network code takes, in the order in which the calls of
`smoltcp_impl` take and release them. What a call finds in the tables, what its interface receives and how
often it has to try again is not part of the locks, so it comes with the call.
-/

namespace Jrinx

inductive NetLock where
  -- `dev` and `iface` of `ETH0`.
  | dev
  | iface
  | socketSet
  -- The cursor of the ephemeral ports.
  | curr
  -- An entry of the listen table.
  | port (port : UInt16)
  -- The network device itself.
  | inner
  deriving DecidableEq, Repr

abbrev NetOps := List (LockOp NetLock)

-- What takes a lock inside of `Interface::poll`.
inductive PollLock where
  -- The tokens send, receive or recycle a buffer.
  | buffer
  -- A packet that opens a connection.
  | syn (port : UInt16)
  deriving DecidableEq, Repr

namespace NetLocks

def add : NetOps := critical .socketSet []

def remove : NetOps := critical .socketSet []

-- `with_socket` and `with_socket_mut`.
def withSocket (f : NetOps) : NetOps := critical .socketSet f

def incomingTcpPacket (port : UInt16) : NetOps := critical (.port port) []

def pollLock (l : PollLock) : NetOps :=
  match l with
  | .buffer => critical .inner []
  | .syn port => incomingTcpPacket port

def pollInterfaces (received : List PollLock) : NetOps :=
  critical .dev (critical .iface (critical .socketSet (received.flatMap pollLock)))

def canListen (port : UInt16) : NetOps := critical (.port port) []

def listen (port : UInt16) : NetOps := critical (.port port) []

-- The old entry is dropped while its lock is held.
def unlisten (port : UInt16) (synQueue : List Nat) : NetOps :=
  critical (.port port) (synQueue.flatMap fun _ => remove)

def isConnected : NetOps := withSocket []

def getAddrTuple : NetOps := withSocket []

def canAccept (port : UInt16) (visited : List Nat) : NetOps :=
  critical (.port port) (visited.flatMap fun _ => isConnected)

def accept (port : UInt16) (visited : List Nat) (found : Bool) : NetOps :=
  critical (.port port) ((visited.flatMap fun _ => isConnected) ++ if found then getAddrTuple else [])

def getEphemeralPort (tried : List UInt16) : NetOps := critical .curr (tried.flatMap canListen)

-- Nothing is tried if the socket has a port.
def boundEndpoint (tried : Option (List UInt16)) : NetOps := tried.elim [] getEphemeralPort

-- Every round has what the interface receives and what is done then.
def blockOn (nonblock : Bool) (rounds : List (List PollLock × NetOps)) : NetOps :=
  if nonblock then
    (rounds.take 1).flatMap fun round => round.2
  else
    rounds.flatMap fun round => pollInterfaces round.1 ++ round.2

end NetLocks

structure AcceptRound where
  received : List PollLock
  -- The handles in the queue up to the first one that is connected.
  visited : List Nat
  found : Bool
  deriving DecidableEq, Repr

structure UnlistenRound where
  port : UInt16
  synQueue : List Nat
  received : List PollLock
  deriving DecidableEq, Repr

inductive NetCall where
  -- There are no `rounds` if no port is left.
  | connect (fresh : Bool) (tried : Option (List UInt16)) (nonblock : Bool)
      (rounds : Option (List (List PollLock)))
  | bind (tried : Option (List UInt16))
  | listen (tried : Option (List UInt16)) (port : Option UInt16)
  | accept (port : UInt16) (nonblock : Bool) (rounds : List AcceptRound)
  | shutdown (stream : Option (List PollLock)) (listener : Option UnlistenRound)
  -- `send` and `recv`.
  | transfer (nonblock : Bool) (rounds : List (List PollLock))
  -- `poll_connect` and `poll_stream`.
  | pollStream
  | pollListener (port : UInt16) (visited : List Nat)
  | drop (stream : Option (List PollLock)) (listener : Option UnlistenRound) (handle : Bool)
  | pollInterfaces (received : List PollLock)
  deriving DecidableEq, Repr

namespace NetLocks

-- The interface is locked inside of the closure for `with_socket_mut`.
def connectSocket : NetOps := withSocket (critical .iface [])

def connect (fresh : Bool) (tried : Option (List UInt16)) (nonblock : Bool)
    (rounds : Option (List (List PollLock))) : NetOps :=
  let wait (rounds : List (List PollLock)) :=
    connectSocket ++ blockOn nonblock (rounds.map fun received => (received, withSocket []))
  (if fresh then add else []) ++ boundEndpoint tried ++ rounds.elim [] wait

def shutdownStream (received : List PollLock) : NetOps := withSocket [] ++ pollInterfaces received

def shutdownListener (round : UnlistenRound) : NetOps :=
  unlisten round.port round.synQueue ++ pollInterfaces round.received

def shutdown (stream : Option (List PollLock)) (listener : Option UnlistenRound) : NetOps :=
  stream.elim [] shutdownStream ++ listener.elim [] shutdownListener

end NetLocks

open NetLocks in
def NetCall.locks (call : NetCall) : NetOps :=
  match call with
  | .connect fresh tried nonblock rounds => NetLocks.connect fresh tried nonblock rounds
  | .bind tried => boundEndpoint tried
  | .listen tried port => boundEndpoint tried ++ port.elim [] NetLocks.listen
  | .accept port nonblock rounds =>
    blockOn nonblock <| rounds.map fun round =>
      (round.received, NetLocks.accept port round.visited round.found)
  | .shutdown stream listener => NetLocks.shutdown stream listener
  | .transfer nonblock rounds =>
    blockOn nonblock (rounds.map fun received => (received, withSocket []))
  | .pollStream => withSocket []
  | .pollListener port visited => canAccept port visited
  | .drop stream listener handle => NetLocks.shutdown stream listener ++ if handle then remove else []
  | .pollInterfaces received => NetLocks.pollInterfaces received

-- The network code with `n` threads.
abbrev LockedNet (n : Nat) := LockSystem (Fin n) NetLock

inductive LockAction (n : Nat) where
  | call (thread : Fin n) (call : NetCall)
  -- The next operation on a lock.
  | go (thread : Fin n)

def LockedNet.step {n : Nat} (s : LockedNet n) (a : LockAction n) : Outcome (LockedNet n) :=
  match a with
  | .call i call => s.start i call.locks
  | .go i => s.advance i

end Jrinx
