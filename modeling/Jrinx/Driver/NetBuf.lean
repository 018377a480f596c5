import Mathlib.Tactic
import Jrinx.Error
import Jrinx.Util.BuildMode

/-!
This module contains the buffers of `driver/src/net/net_buf.rs` and the pool that they come from. The
vectors of the source grow and shrink at their ends, here the end of a vector is the head of a list.
-/

namespace Jrinx

inductive NetBufPanic where
  -- A `debug_assert` on the lengths of a buffer.
  | debugAssert
  -- The queue gets a token back with another slice than the one it was given.
  | wrongSlice
  -- The first tokens are not `0, 1, ..`.
  | tokenAssert
  deriving DecidableEq, Repr

structure Slice where
  start : Nat
  len : Nat
  deriving DecidableEq, Repr

structure NetBuf where
  headerLen : Nat
  packetLen : Nat
  capacity : Nat
  poolOffset : Nat
  deriving DecidableEq, Repr

structure NetBufPool where
  capacity : Nat
  bufLen : Nat
  freeList : List Nat
  deriving DecidableEq, Repr

namespace NetBuf

def packetWithHeader (buf : NetBuf) : Slice := ⟨buf.poolOffset, buf.headerLen + buf.packetLen⟩

def rawBuf (buf : NetBuf) : Slice := ⟨buf.poolOffset, buf.capacity⟩

def setHeaderLen (mode : BuildMode) (buf : NetBuf) (headerLen : Nat) : Except (Halt NetBufPanic) NetBuf := do
  mode.check .debugAssert (headerLen + buf.packetLen ≤ buf.capacity)
  return { buf with headerLen }

def setPacketLen (mode : BuildMode) (buf : NetBuf) (packetLen : Nat) : Except (Halt NetBufPanic) NetBuf := do
  mode.check .debugAssert (buf.headerLen + packetLen ≤ buf.capacity)
  return { buf with packetLen }

end NetBuf

namespace NetBufPool

def minBufferLen : Nat := 1526

def maxBufferLen : Nat := 65535

def new (capacity bufLen : Nat) : Except InternalError NetBufPool :=
  if capacity = 0 then
    .error .invalidParam
  else if ¬ (minBufferLen ≤ bufLen ∧ bufLen ≤ maxBufferLen) then
    .error .invalidParam
  else
    .ok { capacity, bufLen, freeList := ((List.range capacity).map (· * bufLen)).reverse }

def alloc (pool : NetBufPool) : Option (NetBuf × NetBufPool) :=
  match pool.freeList with
  | [] => none
  | poolOffset :: freeList =>
    some ({ headerLen := 0, packetLen := 0, capacity := pool.bufLen, poolOffset }, { pool with freeList })

def dealloc (pool : NetBufPool) (buf : NetBuf) : NetBufPool :=
  { pool with freeList := buf.poolOffset :: pool.freeList }

end NetBufPool

end Jrinx
