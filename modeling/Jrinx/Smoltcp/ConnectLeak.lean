import Jrinx.Smoltcp.Calls

/-!
This module contains what is left of a call of `connect` in `smoltcp_impl/tcp.rs` that fails in the closure
of `update_state`. The new protocol socket is added to the set before the steps that may fail, and nobody
knows its handle afterwards.
-/

namespace Jrinx

namespace Net

-- The first part of `connect`.
def connectStart (net : Net) (id : Nat) (remoteAddr : SocketAddr) (fresh : SocketHandle)
    (answer : ConnectAnswer) : NetM (Except TcpState (Except InternalError Unit) × Net) :=
  net.updateState id .closed .connecting fun net s => net.connectSocket id remoteAddr fresh answer s

/--
The socket is as it was, with its state, its addresses and its handle, and so is the set of the protocol
sockets.
-/
def LeaksNothing (net : Net) (id : Nat) (net' : Net) : Prop :=
  net'.sockets id = net.sockets id ∧ net'.socketSet = net.socketSet

variable {net net' : Net} {id : Nat} {s : TcpSocket} {remoteAddr : SocketAddr} {answer : ConnectAnswer}
  {fresh handle : SocketHandle} {e : InternalError}

theorem connect_eq_connectStart (rounds : List (List PollEvent))
    : net.connect id remoteAddr fresh answer rounds
        =
      (do
        match ← net.connectStart id remoteAddr fresh answer with
        | (.error _, net) => return (.error .netFail, net)
        | (.ok (.error e), net) => return (.error e, net)
        | (.ok (.ok _), net) =>
          let s ← net.socket id
          if s.nonblock then return (.error .wouldBlock, net) else net.blockOn id rounds (connectRound id)) :=
  rfl

theorem boundPort_curr (net : Net) (s : TcpSocket) : ∃ curr, (net.boundPort s).2 = { net with curr } := by
  unfold boundPort
  split
  . exact ⟨net.curr, rfl⟩
  . exact ⟨_, rfl⟩

theorem boundEndpoint_curr {r : Except InternalError IpListenEndpoint × Net}
    (h : net.boundEndpoint s = .ok r)
    : ∃ curr, r.2 = { net with curr } := by
  obtain ⟨curr, hcurr⟩ := boundPort_curr net s
  refine ⟨curr, ?_⟩
  unfold boundEndpoint at h
  split at h
  . next heq =>
    rw [Except.pure_eq_ok_iff] at h
    rw [← h, ← hcurr, heq]
  . next heq =>
    split at h
    . simp [NetM.panic] at h
    . rw [Except.pure_eq_ok_iff] at h
      rw [← h, ← hcurr, heq]

theorem connectHandle_error (h : net.connectHandle id remoteAddr answer s handle = .ok (.error e, net'))
    : ∃ curr, net' = { net with curr } := by
  unfold connectHandle at h
  simp only [Except.bind_eq_ok_iff] at h
  obtain ⟨remoteEndpoint, -, ⟨res, net₁⟩, hbound, h⟩ := h
  obtain ⟨curr, rfl⟩ := boundEndpoint_curr hbound
  cases res with
  | error e =>
    simp only [Except.pure_eq_ok_iff, Prod.mk.injEq] at h
    exact ⟨curr, h.2.symm⟩
  | ok endpoint =>
    simp only [Except.bind_eq_ok_iff] at h
    obtain ⟨socket, -, h⟩ := h
    split at h
    . simp only [Except.pure_eq_ok_iff, Prod.mk.injEq] at h
      exact ⟨curr, h.2.symm⟩
    . simp only [Except.bind_eq_ok_iff, Except.pure_eq_ok_iff, Prod.mk.injEq, reduceCtorEq, false_and,
        and_false, exists_false] at h

theorem connectSocket_error (h : net.connectSocket id remoteAddr fresh answer s = .ok (.error e, net'))
    : ∃ curr,
        s.handle ≠ none ∧ net' = { net with curr }
          ∨
        s.handle = none ∧ net.socketSet fresh = none ∧
          net' = { net with curr, socketSet := net.socketSet.setSocket fresh SocketSet.newTcpSocket } := by
  unfold connectSocket at h
  split at h
  . next handle hhandle =>
    obtain ⟨curr, hcurr⟩ := connectHandle_error h
    exact ⟨curr, .inl ⟨by simp [hhandle], hcurr⟩⟩
  . next hhandle =>
    rw [Except.bind_eq_ok_iff] at h
    obtain ⟨socketSet, hadd, h⟩ := h
    obtain ⟨curr, hcurr⟩ := connectHandle_error h
    unfold SocketSet.add at hadd
    split at hadd
    . simp [NetM.disabled] at hadd
    . next hdead =>
      rw [Except.pure_eq_ok_iff] at hadd
      subst hadd
      exact ⟨curr, .inr ⟨hhandle, by simpa using hdead, hcurr⟩⟩

theorem updateState_eq_ok {α : Type} {expect new : TcpState} {res : Except InternalError α}
    {f : Net → TcpSocket → NetM (Except InternalError α × Net)}
    (h : net.updateState id expect new f = .ok (.ok res, net'))
    : ∃ s net₁ s', net.sockets id = some s ∧ s.state = expect ∧
        f (net.setSocket id { s with state := .busy }) { s with state := .busy } = .ok (res, net₁) ∧
        net₁.sockets id = some s' ∧
        net' = net₁.setSocket id { s' with state := if res.isOk then new else expect } := by
  have hspec : Ensures (net.updateState id expect new f) (fun _ => True) fun r =>
      ∀ res, r.1 = .ok res → ∃ s net₁ s', net.sockets id = some s ∧ s.state = expect ∧
        f (net.setSocket id { s with state := .busy }) { s with state := .busy } = .ok (res, net₁) ∧
        net₁.sockets id = some s' ∧
        r.2 = net₁.setSocket id { s' with state := if res.isOk then new else expect } := by
    unfold updateState
    refine ((ensures_socket net id).mono_halt fun _ _ => trivial).bind fun s hs => ?_
    split
    . next hstate =>
      dsimp only
      cases hcall : f (net.setSocket id { s with state := .busy }) { s with state := .busy } with
      | error halt => exact trivial
      | ok r =>
        have hstore : Ensures (r.2.socket id >>= fun s' => pure
            (r.2.setSocket id { s' with state := if r.1.isOk then new else expect })) (fun _ => True)
              fun net₂ => ∃ s', r.2.sockets id = some s' ∧
                net₂ = r.2.setSocket id { s' with state := if r.1.isOk then new else expect } := by
          refine ((ensures_socket r.2 id).mono_halt fun _ _ => trivial).bind fun s' hs' => ?_
          exact .pure ⟨s', hs', rfl⟩
        refine hstore.bind ?_
        . rintro net₂ ⟨s', hs', rfl⟩
          apply Ensures.pure
          rintro res ⟨⟩
          exact ⟨s, r.2, s', hs, hstate, hcall, hs', rfl⟩
    . exact .pure (by simp)
  exact hspec.ok h res rfl

theorem connectStart_error (hs : net.sockets id = some s) (hclosed : s.state = .closed)
    (h : net.connectStart id remoteAddr fresh answer = .ok (.ok (.error e), net'))
    : net'.sockets id = some s ∧
        (s.handle ≠ none ∧ net'.socketSet = net.socketSet
          ∨
        s.handle = none ∧ net.socketSet fresh = none ∧
          net'.socketSet = net.socketSet.setSocket fresh SocketSet.newTcpSocket) := by
  obtain ⟨s₀, net₁, s₁, hs₀, -, hcall, hs₁, rfl⟩ := updateState_eq_ok h
  obtain rfl : s = s₀ := by simpa [hs] using hs₀
  obtain ⟨curr, hleft⟩ := connectSocket_error hcall
  have hsockets : net₁.sockets = (net.setSocket id { s with state := .busy }).sockets := by
    rcases hleft with ⟨-, rfl⟩ | ⟨-, -, rfl⟩ <;> rfl
  rw [hsockets, setSocket_sockets, Option.some.injEq] at hs₁
  refine ⟨?_, ?_⟩
  . rw [setSocket_sockets, ← hs₁]
    simp only [Except.isOk, Except.toBool, Bool.false_eq_true, if_false, ← hclosed]
  . rcases hleft with ⟨hhandle, rfl⟩ | ⟨hhandle, hdead, rfl⟩
    . exact .inl ⟨hhandle, rfl⟩
    . exact .inr ⟨hhandle, hdead, rfl⟩

theorem leaksNothing_iff (hs : net.sockets id = some s) (hclosed : s.state = .closed)
    (h : net.connectStart id remoteAddr fresh answer = .ok (.ok (.error e), net'))
    : LeaksNothing net id net' ↔ s.handle ≠ none := by
  obtain ⟨hsocket, hset⟩ := connectStart_error hs hclosed h
  rcases hset with ⟨hhandle, hkept⟩ | ⟨hhandle, hdead, hadded⟩
  . exact ⟨fun _ => hhandle, fun _ => ⟨hsocket.trans hs.symm, hkept⟩⟩
  . constructor
    . rintro ⟨-, hkept⟩
      rw [hadded] at hkept
      have hfresh := congrFun hkept fresh
      simp [SocketSet.setSocket, hdead] at hfresh
    . exact fun hne => absurd hhandle hne

def unaddressable : ConnectAnswer := fun _ _ _ => .error .unaddressable

-- A connection that is reset before it is established, its handle stays with the socket.
def refused : List NetAction :=
  [
    .create 0, .setNonblocking 0 true,
    .connect 0 ⟨.v4 1, 80⟩ 7
      (fun _ remote bound => .ok ⟨.synSent, some (⟨⟨2⟩, bound.port⟩, remote)⟩) [],
    .pollInterfaces [.process 7 ⟨.closed, none⟩],
    .poll 0 (fun _ => ⟨false, false⟩)
  ]

theorem leaksNothing_refused
    : ∃ net e net', Run step (fun _ _ => True) init refused net ∧
        net.connectStart 0 ⟨.v4 0, 0⟩ 8 unaddressable = .ok (.ok (.error e), net') ∧
        LeaksNothing net 0 net' := by
  obtain ⟨net, hrun, hend⟩ := exists_run_of_exec step init refused
    (fun net => (net.sockets 0).any (fun s => s.state = .closed && s.handle.isSome) &&
      decide (Ensures (net.connectStart 0 ⟨.v4 0, 0⟩ 8 unaddressable) (fun _ => False) fun r =>
        r.1.toOption.any (!·.isOk) = true)) (by decide +kernel)
  rw [Bool.and_eq_true, Option.any_eq_true, decide_eq_true_eq] at hend
  obtain ⟨⟨s, hs, hsocket⟩, hcall⟩ := hend
  obtain ⟨⟨res, net'⟩, hcall, hres⟩ := hcall.exists_ok
  cases res with
  | error state => simp [Except.toOption] at hres
  | ok r =>
    cases r with
    | ok a => simp [Except.toOption, Except.isOk, Except.toBool] at hres
    | error e =>
      simp only [Bool.and_eq_true, decide_eq_true_eq] at hsocket
      have hleft := (leaksNothing_iff hs hsocket.1 hcall).mpr (Option.isSome_iff_ne_none.mp hsocket.2)
      exact ⟨net, e, net', hrun, hcall, hleft⟩

-- A new socket that connects to an address which the protocol does not take.
theorem not_leaksNothing_new
    : ∃ net', (init.setSocket 0 .new).connectStart 0 ⟨.v4 0, 0⟩ 8 unaddressable =
          .ok (.ok (.error .netFail), net') ∧
        (init.setSocket 0 .new).socketSet 8 = none ∧
        net'.socketSet 8 = some SocketSet.newTcpSocket ∧
        ¬LeaksNothing (init.setSocket 0 .new) 0 net' := by
  refine ⟨_, rfl, rfl, rfl, ?_⟩
  rintro ⟨-, hkept⟩
  have hfresh := congrFun hkept 8
  revert hfresh
  decide

end Net

end Jrinx
