import Jrinx.Smoltcp.Calls
import Jrinx.Util.CyclicSearch

/-!
This module contains the search for an ephemeral port, `get_ephemeral_port` of `smoltcp_impl/tcp.rs`: it
is a cyclic search of one round over the ports from `0xc000` on.
-/

namespace Jrinx

namespace Net

open CyclicSearch

-- An addition of `u16` that panics on an overflow.
def checkedAdd (a b : UInt16) : Outcome UInt16 :=
  if a.toNat + b.toNat < 2 ^ 16 then .next (a + b) else .panic

-- The loop with its two counters. The source has no fuel, a loop that runs out of it is `disabled`.
def portLoop (table : ListenTable) (fuel : Nat) (curr tries : UInt16)
    : Outcome (Except InternalError UInt16 × UInt16) :=
  match fuel with
  | 0 => .disabled
  | fuel + 1 =>
    if tries ≤ portEnd - portStart then
      match if curr = portEnd then .next portStart else checkedAdd curr 1 with
      | .next next =>
        if table.canListen curr then
          .next (.ok curr, next)
        else
          match checkedAdd tries 1 with
          | .next tries => portLoop table fuel next tries
          | _ => .panic
      | _ => .panic
    else
      .next (.error .netFail, curr)

def portSucc (port : UInt16) : UInt16 := if port = portEnd then portStart else port + 1

-- The port that is `k` places after `port` on the cycle of the ephemeral ports.
def portAfter (port : UInt16) (k : Nat) : UInt16 :=
  .ofNat (portStart.toNat + (port.toNat - portStart.toNat + k) % 2 ^ 14)

-- The network after `i` searches in a row.
def afterPorts (net : Net) (i : Nat) : Net := (fun net => net.getEphemeralPort.2)^[i] net

/--
The search for an ephemeral port ends and does not overflow. It finds the first port from the cursor
on that is not listened on, and there is such a port if and only if it finds one. A search that fails
leaves the cursor where it was, and no port is found again before all the others have been found.
-/
structure PortSearch (net : Net) : Prop where
  ends : ∃ fuel,
    portLoop net.listenTable fuel net.curr 0
      =
    .next (net.getEphemeralPort.1, net.getEphemeralPort.2.curr)
  ok_iff : (∃ port, net.getEphemeralPort.1 = .ok port)
      ↔
    ∃ port, portStart ≤ port ∧ port ≤ portEnd ∧ net.listenTable.canListen port = true
  first (port : UInt16) : net.getEphemeralPort.1 = .ok port →
    net.getEphemeralPort.2 = { net with curr := portAfter port 1 } ∧
    ∃ k, k < 2 ^ 14 ∧ port = portAfter net.curr k ∧ net.listenTable.canListen port = true ∧
      ∀ j, j < k → net.listenTable.canListen (portAfter net.curr j) = false
  exhausted (e : InternalError) : net.getEphemeralPort.1 = .error e →
    e = .netFail ∧ net.getEphemeralPort.2 = net
  fair (i j : Nat) (port other : UInt16) : i < j →
    (net.afterPorts i).getEphemeralPort.1 = .ok port →
    (net.afterPorts j).getEphemeralPort.1 = .ok port →
    portStart ≤ other → net.listenTable.canListen other = true →
    ∃ k, i ≤ k ∧ k < j ∧ (net.afterPorts k).getEphemeralPort.1 = .ok other

variable {net : Net} {table : ListenTable} {curr port : UInt16}

theorem nextPort_eq_search (table : ListenTable) (curr : UInt16) (tries : Nat)
    : nextPort table curr tries
        =
      match search table.canListen portSucc tries curr with
      | (some port, curr) => (.ok port, curr)
      | (none, curr) => (.error .netFail, curr) := by
  induction tries generalizing curr with
  | zero => rfl
  | succ tries ih =>
    unfold nextPort search portSucc
    dsimp only
    split
    . rfl
    . exact ih _

theorem toNat_portAfter (port : UInt16) (k : Nat)
    : (portAfter port k).toNat = 0xc000 + (port.toNat - 0xc000 + k) % 2 ^ 14 := by
  have hmod : (port.toNat - 0xc000 + k) % 2 ^ 14 < 2 ^ 14 := Nat.mod_lt _ (by decide)
  exact UInt16.toNat_ofNat_of_lt' (Nat.lt_of_lt_of_le (Nat.add_lt_add_left hmod _) (by decide))

theorem portStart_le_iff : portStart ≤ port ↔ 0xc000 ≤ port.toNat := UInt16.le_iff_toNat_le

theorem eq_portEnd_iff : port = portEnd ↔ port.toNat = 0xffff := UInt16.toNat_inj.symm

theorem portAfter_eq_self (h : portStart ≤ port) {k : Nat} (hk : k % 2 ^ 14 = 0)
    : portAfter port k = port := by
  have hlt := port.toNat_lt
  rw [portStart_le_iff] at h
  rw [← UInt16.toNat_inj, toNat_portAfter]
  omega

theorem portSucc_portAfter (port : UInt16) (k : Nat)
    : portSucc (portAfter port k) = portAfter port (k + 1) := by
  have hnat := toNat_portAfter port k
  rw [← UInt16.toNat_inj, toNat_portAfter]
  unfold portSucc
  split
  . next hend =>
    rw [eq_portEnd_iff] at hend
    simp only [portStart, UInt16.reduceToNat]
    omega
  . next hne =>
    rw [eq_portEnd_iff] at hne
    rw [UInt16.toNat_add]
    simp only [UInt16.reduceToNat]
    omega

theorem iterate_portSucc (h : portStart ≤ port) (k : Nat) : portSucc^[k] port = portAfter port k := by
  induction k with
  | zero => exact (portAfter_eq_self h (by decide)).symm
  | succ k ih => rw [Function.iterate_succ_apply', ih, portSucc_portAfter]

theorem portSucc_eq_portAfter (h : portStart ≤ port) : portSucc port = portAfter port 1 :=
  iterate_portSucc h 1

theorem minimalPeriod_portSucc (h : portStart ≤ port) : Function.minimalPeriod portSucc port = 2 ^ 14 := by
  have hround : Function.IsPeriodicPt portSucc (2 ^ 14) port := by
    unfold Function.IsPeriodicPt Function.IsFixedPt
    rw [iterate_portSucc h, portAfter_eq_self h (by decide)]
  apply Nat.le_antisymm (hround.minimalPeriod_le (by decide))
  have hpos := hround.minimalPeriod_pos (by decide)
  have hback : portAfter port (Function.minimalPeriod portSucc port) = port := by
    rw [← iterate_portSucc h, Function.iterate_minimalPeriod]
  have hnat := toNat_portAfter port (Function.minimalPeriod portSucc port)
  rw [hback] at hnat
  rw [portStart_le_iff] at h
  omega

theorem portStart_le_portAfter (port : UInt16) (k : Nat) : portStart ≤ portAfter port k := by
  rw [portStart_le_iff, toNat_portAfter]
  exact Nat.le_add_right _ _

theorem exists_portAfter {other : UInt16} (h : portStart ≤ port) (hother : portStart ≤ other)
    : ∃ k, k < 2 ^ 14 ∧ other = portAfter port k := by
  have hlt := other.toNat_lt
  have hport := port.toNat_lt
  rw [portStart_le_iff] at h hother
  refine ⟨(other.toNat + 2 ^ 14 - port.toNat) % 2 ^ 14, Nat.mod_lt _ (by decide), ?_⟩
  rw [← UInt16.toNat_inj, toNat_portAfter]
  omega

theorem checkedAdd_of_lt {a b : UInt16} (h : a.toNat + b.toNat < 2 ^ 16)
    : checkedAdd a b = .next (a + b) := if_pos h

theorem ite_checkedAdd (curr : UInt16)
    : (if curr = portEnd then .next portStart else checkedAdd curr 1) = Outcome.next (portSucc curr) := by
  unfold portSucc
  split
  . rfl
  . next hne =>
    rw [eq_portEnd_iff] at hne
    have hlt := curr.toNat_lt
    exact checkedAdd_of_lt (by simp only [UInt16.reduceToNat]; omega)

theorem portLoop_eq_nextPort (table : ListenTable) (curr : UInt16) {left : Nat} {tries : UInt16}
    (h : tries.toNat + left = 2 ^ 14)
    : portLoop table (left + 1) curr tries
        =
      .next (nextPort table curr left) := by
  induction left generalizing curr tries with
  | zero =>
    unfold portLoop nextPort
    have hgt : ¬tries ≤ portEnd - portStart := by
      rw [UInt16.le_iff_toNat_le]
      simp only [portEnd, portStart, UInt16.reduceSub, UInt16.reduceToNat]
      omega
    rw [if_neg hgt]
  | succ left ih =>
    have hle : tries ≤ portEnd - portStart := by
      rw [UInt16.le_iff_toNat_le]
      simp only [portEnd, portStart, UInt16.reduceSub, UInt16.reduceToNat]
      omega
    have htries : checkedAdd tries 1 = .next (tries + 1) :=
      checkedAdd_of_lt (by simp only [UInt16.reduceToNat]; omega)
    have hleft : (tries + 1).toNat + left = 2 ^ 14 := by
      rw [UInt16.toNat_add]
      simp only [UInt16.reduceToNat]
      omega
    unfold portLoop nextPort
    rw [if_pos hle, ite_checkedAdd, htries]
    simp only
    split
    . rfl
    . exact ih _ hleft

theorem getEphemeralPort_eq (net : Net)
    : net.getEphemeralPort
        =
      ((nextPort net.listenTable net.curr (2 ^ 14)).1,
        { net with curr := (nextPort net.listenTable net.curr (2 ^ 14)).2 }) := rfl

theorem getEphemeralPort_eq_search (net : Net)
    : net.getEphemeralPort
        =
      match search net.listenTable.canListen portSucc (2 ^ 14) net.curr with
      | (some port, curr) => (.ok port, { net with curr })
      | (none, curr) => (.error .netFail, { net with curr }) := by
  rw [getEphemeralPort_eq, nextPort_eq_search]
  split <;> rfl

theorem afterPorts_eq (net : Net) (i : Nat)
    : net.afterPorts i
        =
      { net with curr := cursor net.listenTable.canListen portSucc (2 ^ 14) net.curr i } := by
  induction i with
  | zero => rfl
  | succ i ih =>
    have hnext : net.afterPorts (i + 1) = (net.afterPorts i).getEphemeralPort.2 :=
      Function.iterate_succ_apply' _ i net
    rw [hnext, ih, getEphemeralPort_eq_search, cursor_succ]
    dsimp only
    split <;> next heq => rw [heq]

theorem getEphemeralPort_eq_ok_iff {i : Nat}
    : (net.afterPorts i).getEphemeralPort.1 = .ok port
        ↔
      found net.listenTable.canListen portSucc (2 ^ 14) net.curr i = some port := by
  rw [afterPorts_eq, getEphemeralPort_eq_search]
  unfold found
  dsimp only
  split
  . next heq => simp only [heq, Except.ok.injEq, Option.some.injEq]
  . next heq => simp only [heq, reduceCtorEq]

theorem getEphemeralPort_first (h : portStart ≤ net.curr) (hok : net.getEphemeralPort.1 = .ok port)
    : net.getEphemeralPort.2 = { net with curr := portAfter port 1 } ∧
        ∃ k, k < 2 ^ 14 ∧ port = portAfter net.curr k ∧ net.listenTable.canListen port = true ∧
          ∀ j, j < k → net.listenTable.canListen (portAfter net.curr j) = false := by
  rw [getEphemeralPort_eq_search] at hok ⊢
  split at hok
  . next port' curr' heq =>
    obtain rfl : port' = port := by simpa using hok
    obtain ⟨k, hk, hport, hfree, hbefore, hcurr⟩ := search_eq_some heq
    rw [iterate_portSucc h] at hport
    have hstart : portStart ≤ port' := hport ▸ portStart_le_portAfter _ _
    refine ⟨by rw [hcurr, portSucc_eq_portAfter hstart], k, hk, hport, hfree, ?_⟩
    intro j hj
    rw [← iterate_portSucc h]
    exact hbefore j hj
  . simp at hok

theorem getEphemeralPort_exhausted {e : InternalError} (h : portStart ≤ net.curr)
    (herr : net.getEphemeralPort.1 = .error e)
    : (e = .netFail ∧ net.getEphemeralPort.2 = net) ∧
        ∀ port, portStart ≤ port → net.listenTable.canListen port = false := by
  rw [getEphemeralPort_eq_search] at herr ⊢
  split at herr
  . simp at herr
  . next curr' heq =>
    obtain ⟨hnone, hcurr⟩ := search_eq_none heq
    rw [iterate_portSucc h, portAfter_eq_self h (by decide)] at hcurr
    refine ⟨⟨by simpa using herr.symm, by rw [hcurr]⟩, ?_⟩
    intro port hport
    obtain ⟨k, hk, hafter⟩ := exists_portAfter h hport
    rw [hafter, ← iterate_portSucc h]
    exact hnone k hk

theorem getEphemeralPort_portSearch (net : Net) (h : portStart ≤ net.curr) : PortSearch net where
  ends := ⟨2 ^ 14 + 1, portLoop_eq_nextPort net.listenTable net.curr (by decide)⟩
  ok_iff := by
    constructor
    . rintro ⟨port, hok⟩
      obtain ⟨-, k, -, hport, hfree, -⟩ := getEphemeralPort_first h hok
      exact ⟨port, hport ▸ portStart_le_portAfter _ _, Nat.le_of_lt_succ port.toNat_lt, hfree⟩
    . rintro ⟨port, hport, -, hfree⟩
      cases hres : net.getEphemeralPort.1 with
      | ok found => exact ⟨found, rfl⟩
      | error e =>
        have hused := (getEphemeralPort_exhausted h hres).2 port hport
        rw [hfree] at hused
        simp at hused
  first _ hok := getEphemeralPort_first h hok
  exhausted _ herr := (getEphemeralPort_exhausted h herr).1
  fair i j port other hlt hi hj hother hfree := by
    obtain ⟨d, -, hd⟩ := exists_portAfter h hother
    rw [← iterate_portSucc h] at hd
    obtain ⟨k, hik, hkj, hk⟩ := found_of_found_again (by decide) (minimalPeriod_portSucc h) hlt
      (getEphemeralPort_eq_ok_iff.mp hi) (getEphemeralPort_eq_ok_iff.mp hj) hd hfree
    exact ⟨k, hik, hkj, getEphemeralPort_eq_ok_iff.mpr hk⟩

def nearlyFull : Net :=
  { init with
    curr := 0xffff,
    listenTable := fun port => if port = 0xc000 then none else some (.new ⟨none, port⟩) }

theorem portSearch_nearlyFull
    : PortSearch nearlyFull ∧ nearlyFull.getEphemeralPort.1 = .ok 0xc000 := by
  have hsearch : PortSearch nearlyFull := getEphemeralPort_portSearch nearlyFull (by decide)
  refine ⟨hsearch, ?_⟩
  obtain ⟨port, hok⟩ := hsearch.ok_iff.mpr ⟨0xc000, by decide, by decide, by decide⟩
  obtain ⟨-, k, -, -, hfree, -⟩ := hsearch.first port hok
  have hport : port = 0xc000 := by
    apply by_contra
    intro hne
    simp [nearlyFull, ListenTable.canListen, hne] at hfree
  rw [hok, hport]

end Net

end Jrinx
