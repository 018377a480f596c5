import Mathlib.Tactic
import Jrinx.Util.Ensures

/-!
This module contains the addresses of `smoltcp_impl/addr.rs` and the set of protocol sockets of
`smoltcp_impl/mod.rs`. The protocol itself is not part of the repository: what it does to a socket is
an answer that the actions of the network bring along, and an access to a handle that is not live
panics.
-/

namespace Jrinx

inductive IpAddr where
  | v4 (octets : BitVec 32)
  | v6 (segments : BitVec 128)
  deriving DecidableEq, Repr

structure SocketAddr where
  ip : IpAddr
  port : UInt16
  deriving DecidableEq, Repr

structure IpAddress where
  octets : BitVec 32
  deriving DecidableEq, Repr

structure IpEndpoint where
  addr : IpAddress
  port : UInt16
  deriving DecidableEq, Repr

structure IpListenEndpoint where
  addr : Option IpAddress
  port : UInt16
  deriving DecidableEq, Repr

inductive NetPanic where
  -- An access to the set with a handle that is not live.
  | deadHandle
  -- An unwrap of a handle that was never set.
  | noHandle
  -- An unwrap of an endpoint that a protocol socket does not have.
  | noEndpoint
  | ipv6
  | zeroPort
  deriving DecidableEq, Repr

abbrev NetM := Except (Halt NetPanic)

namespace NetM

variable {α : Type}

def panic (why : NetPanic) : NetM α := .error (.panic why)

def disabled : NetM α := .error .disabled

def unwrap (o : Option α) (why : NetPanic) : NetM α :=
  match o with
  | some a => .ok a
  | none => panic why

theorem ok_bind {β : Type} (a : α) (f : α → NetM β) : ((.ok a : NetM α) >>= f) = f a := rfl

theorem unwrap_eq_ok {o : Option α} {why : NetPanic} {a : α} (h : unwrap o why = .ok a) : o = some a := by
  cases o with
  | none => simp [unwrap, panic] at h
  | some b => simpa [unwrap] using h

end NetM

namespace IpAddress

def unspecified : IpAddress := ⟨0⟩

def isUnspecified (ip : IpAddress) : Bool := ip = unspecified

end IpAddress

namespace IpEndpoint

def unspecified : IpEndpoint := ⟨.unspecified, 0⟩

end IpEndpoint

def fromCoreIpaddr (ip : IpAddr) : NetM IpAddress :=
  match ip with
  | .v4 octets => .ok ⟨octets⟩
  | .v6 _ => NetM.panic .ipv6

def fromCoreSockaddr (addr : SocketAddr) : NetM IpEndpoint := do
  let ip ← fromCoreIpaddr addr.ip
  return ⟨ip, addr.port⟩

inductive State where
  | closed
  | listen
  | synSent
  | synReceived
  | established
  | finWait1
  | finWait2
  | closeWait
  | closing
  | lastAck
  | timeWait
  deriving DecidableEq, Repr

structure Socket where
  state : State
  -- The local and the remote endpoint.
  tuple : Option (IpEndpoint × IpEndpoint)
  deriving DecidableEq, Repr

abbrev SocketHandle := Nat

abbrev SocketSet := SocketHandle → Option Socket

namespace SocketSet

def new : SocketSet := fun _ => none

def newTcpSocket : Socket := { state := .closed, tuple := none }

def live (sockets : SocketSet) (handle : SocketHandle) : Prop := (sockets handle).isSome = true

-- The set chooses a handle that is not live, which may have been live before.
def add (sockets : SocketSet) (socket : Socket) (handle : SocketHandle) : NetM SocketSet :=
  if (sockets handle).isSome then
    NetM.disabled
  else
    return Function.update sockets handle (some socket)

def get (sockets : SocketSet) (handle : SocketHandle) : NetM Socket :=
  NetM.unwrap (sockets handle) .deadHandle

def setSocket (sockets : SocketSet) (handle : SocketHandle) (socket : Socket) : SocketSet :=
  Function.update sockets handle (some socket)

def remove (sockets : SocketSet) (handle : SocketHandle) : NetM SocketSet := do
  let _ ← sockets.get handle
  return Function.update sockets handle none

def removeAll (sockets : SocketSet) (handles : List SocketHandle) : NetM SocketSet :=
  match handles with
  | [] => return sockets
  | handle :: handles => do
    let sockets ← sockets.remove handle
    removeAll sockets handles

end SocketSet

end Jrinx
