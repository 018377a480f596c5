import Mathlib.Tactic
import Jrinx.Error
import Jrinx.Paging.Addr
import Jrinx.Util.Outcome

/-!
This module contains the stack allocator from `stack-alloc/src/lib.rs`. The callbacks act on a state of
their own. Addresses are natural numbers, a call whose addresses do not fit into a word is not made.
-/

namespace Jrinx

open Std

universe u

variable {σ : Type u}

def nextMultipleOf (n rhs : Nat) : Nat := (n + rhs - 1) / rhs * rhs

abbrev MapperOrUnmapperFn (σ : Type u) := Nat → σ → Except InternalError Unit × σ

structure StackAllocator where
  region : Nat × Nat
  guardSize : Nat
  next : Nat
  allocated : ExtTreeMap Nat Nat
  cached : ExtTreeMap Nat (List Nat)

namespace StackAllocator

structure Callbacks (σ : Type u) where
  map : MapperOrUnmapperFn σ
  unmap : MapperOrUnmapperFn σ

def new (region : Nat × Nat) (guardSize : Nat) : StackAllocator :=
  let guardSize := nextMultipleOf guardSize pageSize
  {
    region
    guardSize
    next := region.1 - guardSize
    allocated := ∅
    cached := ∅
  }

-- The addresses from `base` on that `(0..size).step_by(PAGE_SIZE)` goes through.
def pages (base size : Nat) : List Nat :=
  (List.range ((size + pageSize - 1) / pageSize)).map (fun i => base + i * pageSize)

-- The loop ends at the first callback that fails.
def forEach (f : MapperOrUnmapperFn σ) (addrs : List Nat) (s : σ) : Except InternalError Unit × σ :=
  match addrs with
  | [] => (.ok (), s)
  | addr :: addrs =>
    match f addr s with
    | (.ok _, s) => forEach f addrs s
    | (.error e, s) => (.error e, s)

def allocate.mapStack (cb : Callbacks σ) (a : StackAllocator) (va size : Nat) (s : σ)
    : Except InternalError Nat × StackAllocator × σ :=
  let stackTop := va + size + a.guardSize
  let a := { a with allocated := a.allocated.insert stackTop size }
  match forEach cb.map (pages (va + a.guardSize) size) s with
  | (.ok _, s) => (.ok stackTop, a, s)
  | (.error e, s) => (.error e, a, s)

def allocate (cb : Callbacks σ) (a : StackAllocator) (size : Nat) (s : σ)
    : Except InternalError Nat × StackAllocator × σ :=
  let size := nextMultipleOf size pageSize
  match a.cached.getD size [] with
  | va :: rest =>
    allocate.mapStack cb { a with cached := a.cached.insert size rest } va size s
  | [] =>
    let a := { a with cached := a.cached.insert size [] }
    let va := a.next
    if va + size > a.region.1 + a.region.2 then
      (.error .notEnoughMem, a, s)
    else
      allocate.mapStack cb { a with next := va + (size + a.guardSize) } va size s

def deallocate (cb : Callbacks σ) (a : StackAllocator) (stackTop : Nat) (s : σ)
    : Except InternalError Unit × StackAllocator × σ :=
  match a.allocated[stackTop]? with
  | none => (.error .invalidVirtAddr, a, s)
  | some size =>
    let a := { a with allocated := a.allocated.erase stackTop }
    let va := stackTop - size - a.guardSize
    match forEach cb.unmap (pages (va + a.guardSize) size) s with
    | (.ok _, s) =>
      (.ok (), { a with cached := a.cached.insert size (va :: a.cached.getD size []) }, s)
    | (.error e, s) => (.error e, a, s)

-- The addresses that `new` and `allocate` compute. Those of `deallocate` are no new ones.
def new.fits (w : Nat) (region : Nat × Nat) (guardSize : Nat) : Bool :=
  nextMultipleOf guardSize pageSize ≤ region.1 && region.1 < 2 ^ w

def allocate.fits (w : Nat) (a : StackAllocator) (size : Nat) : Bool :=
  let size := nextMultipleOf size pageSize
  match a.cached.getD size [] with
  | va :: _ => va + size + a.guardSize < 2 ^ w
  | [] =>
    a.region.1 + a.region.2 < 2 ^ w && a.next + size < 2 ^ w &&
      (a.next + size > a.region.1 + a.region.2 || a.next + size + a.guardSize < 2 ^ w)

end StackAllocator

inductive StackCall where
  | allocate (size : Nat)
  | deallocate (stackTop : Nat)
  deriving DecidableEq, Repr

namespace StackAllocator

def step (cb : Callbacks σ) (s : StackAllocator × σ) (call : StackCall) : Outcome (StackAllocator × σ) :=
  match call with
  | .allocate size => .next (s.1.allocate cb size s.2).2
  | .deallocate stackTop => .next (s.1.deallocate cb stackTop s.2).2

def allowed (w : Nat) (s : StackAllocator × σ) (call : StackCall) : Prop :=
  match call with
  | .allocate size => 0 < size ∧ allocate.fits w s.1 size = true
  | .deallocate _ => True

instance (w : Nat) (s : StackAllocator × σ) (call : StackCall) : Decidable (allowed w s call) :=
  match call with
  | .allocate size => inferInstanceAs (Decidable (0 < size ∧ allocate.fits w s.1 size = true))
  | .deallocate _ => inferInstanceAs (Decidable True)

structure CallbackCall where
  unmap : Bool
  addr : Nat
  ok : Bool
  deriving DecidableEq, Repr

def traced (f : MapperOrUnmapperFn σ) (unmap : Bool) : MapperOrUnmapperFn (σ × List CallbackCall) :=
  fun addr s =>
    let (r, state) := f addr s.1
    (r, state, s.2 ++ [{ unmap, addr, ok := r.isOk }])

-- The same callbacks, but their calls are written down in the order in which they are made.
def Callbacks.traced (cb : Callbacks σ) : Callbacks (σ × List CallbackCall) where
  map := StackAllocator.traced cb.map false
  unmap := StackAllocator.traced cb.unmap true

end StackAllocator

end Jrinx
