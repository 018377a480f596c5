import Jrinx.Smoltcp.SharedSocket

/-!
This module proves when the threads that share a socket leave each other's updates alone. The critical
section of `poll_connect` is the only one that writes to the socket without the `compare_exchange`, and
nothing happens to an update as long as it does not write while the socket is busy.
-/

namespace Jrinx

-- Only the closures that start at `CLOSED` return an error.
def UpdatePc.Restores (pc : UpdatePc) : Prop :=
  ∀ kind e, pc = .finish kind (.error e) → kind.expect = .closed

namespace UpdatePc

theorem Restores.of_ne {pc : UpdatePc} (h : ∀ kind res, pc ≠ .finish kind res) : pc.Restores :=
  fun kind e he => absurd he (h kind (.error e))

theorem Restores.finish {kind : UpdateKind} {res : Except InternalError Unit}
    (h : kind.expect = .closed ∨ res = .ok ())
    : (UpdatePc.finish kind res).Restores := by
  rintro kind' e ⟨⟩
  simpa using h

end UpdatePc

namespace SocketView

variable {v : SocketView} {answer : SocketAnswer}

def Keeps (v : SocketView) (res : SocketView × UpdatePc) : Prop :=
  res.1.socket.state = v.socket.state ∧ res.2.Restores

theorem Keeps.goOn {v' : SocketView} {pc : UpdatePc} (hstate : v'.socket.state = v.socket.state)
    (hpc : ∀ kind res, pc ≠ .finish kind res)
    : Ensures (pure (v', pc) : NetM (SocketView × UpdatePc)) (fun _ => True) v.Keeps :=
  .pure ⟨hstate, .of_ne hpc⟩

theorem Keeps.finish {v' : SocketView} {kind : UpdateKind} {res : Except InternalError Unit}
    (hstate : v'.socket.state = v.socket.state) (hres : kind.expect = .closed ∨ res = .ok ())
    : Ensures (pure (v', .finish kind res) : NetM (SocketView × UpdatePc)) (fun _ => True) v.Keeps :=
  .pure ⟨hstate, .finish hres⟩

theorem stepConnect_keeps (pc : UpdatePc)
    : Ensures (v.stepConnect answer pc) (fun _ => True) v.Keeps := by
  unfold stepConnect
  split
  . split
    . exact Keeps.goOn rfl (by simp)
    . exact Keeps.goOn rfl (by simp)
  . exact .bind_any (fun _ => trivial) fun _ => Keeps.goOn rfl (by simp)
  . refine .bind_any (fun _ => trivial) fun _ => .bind_any (fun _ => trivial) fun bound => ?_
    split
    . exact Keeps.finish rfl (.inl rfl)
    . exact Keeps.goOn rfl (by simp)
  . refine .bind_any (fun _ => trivial) fun _ => ?_
    split
    . exact Keeps.finish rfl (.inl rfl)
    . exact .bind_any (fun _ => trivial) fun _ => Keeps.goOn rfl (by simp)
  . exact Keeps.goOn rfl (by simp)
  . exact Keeps.goOn rfl (by simp)
  . exact Keeps.finish rfl (.inr rfl)
  . exact .throw trivial

theorem stepBind_keeps (pc : UpdatePc)
    : Ensures (v.stepBind answer pc) (fun _ => True) v.Keeps := by
  unfold stepBind
  split
  . split
    . exact Keeps.finish rfl (.inl rfl)
    . exact Keeps.goOn rfl (by simp)
  . split
    . exact Keeps.finish rfl (.inl rfl)
    . exact Keeps.goOn rfl (by simp)
  . exact .bind_any (fun _ => trivial) fun _ => Keeps.finish rfl (.inl rfl)
  . exact .throw trivial

theorem stepListen_keeps (pc : UpdatePc)
    : Ensures (v.stepListen answer pc) (fun _ => True) v.Keeps := by
  unfold stepListen
  split
  . refine .bind_any (fun _ => trivial) fun bound => ?_
    split
    . exact Keeps.finish rfl (.inl rfl)
    . exact Keeps.goOn rfl (by simp)
  . exact Keeps.goOn rfl (by simp)
  . exact Keeps.finish rfl (.inl rfl)
  . exact .throw trivial

theorem stepShutdown_keeps (pc : UpdatePc)
    : Ensures (v.stepShutdown answer pc) (fun _ => True) v.Keeps := by
  unfold stepShutdown
  split
  . exact .bind_any (fun _ => trivial) fun _ => Keeps.goOn rfl (by simp)
  . exact .bind_any (fun _ => trivial) fun _ => Keeps.goOn rfl (by simp)
  . exact Keeps.goOn rfl (by simp)
  . exact Keeps.finish rfl (.inr rfl)
  . exact Keeps.goOn rfl (by simp)
  . exact Keeps.goOn rfl (by simp)
  . exact Keeps.goOn rfl (by simp)
  . exact Keeps.finish rfl (.inr rfl)
  . exact .throw trivial

theorem stepUpdate_keeps (pc : UpdatePc)
    : Ensures (v.stepUpdate answer pc) (fun _ => True) v.Keeps := by
  unfold stepUpdate
  cases pc with
  | connectHandle | connectAdd | connectBound | connectSocket | connectLocal | connectPeer
  | connectStore => exact stepConnect_keeps _
  | bindPort | bindCheck | bindStore => exact stepBind_keeps _
  | listenBound | listenPort | listenTable => exact stepListen_keeps _
  | streamHandle | streamClose | streamClear | streamPoll | listenerPort | listenerClear | listenerTable
  | listenerPoll => exact stepShutdown_keeps _
  | finish => exact .throw trivial

-- What a step outside of the updates leaves, the critical section of `poll_connect` apart.
def Stays (v : SocketView) (res : SocketView × SocketPc) : Prop :=
  res.1 = v ∧ res.2.inUpdate = false

theorem stepConnectRest_stays (pc : SocketPc)
    : Ensures (v.stepConnectRest pc) (fun _ => True) v.Stays := by
  unfold stepConnectRest
  split
  . split
    . exact .pure ⟨rfl, rfl⟩
    . exact .pure ⟨rfl, rfl⟩
  . split
    . exact .pure ⟨rfl, rfl⟩
    . exact .pure ⟨rfl, rfl⟩
  . exact .pure ⟨rfl, rfl⟩
  . split
    . exact .pure ⟨rfl, rfl⟩
    . exact .pure ⟨rfl, rfl⟩
  . exact .throw trivial

theorem stepPoll_stays {pc : SocketPc} (hpoll : ∀ handle caller, pc ≠ .pollSocket handle caller)
    : Ensures (v.stepPoll answer pc) (fun _ => True) v.Stays := by
  unfold stepPoll
  split
  . exact .bind_any (fun _ => trivial) fun _ => .pure ⟨rfl, rfl⟩
  . exact absurd rfl (hpoll _ _)
  . exact .bind_any (fun _ => trivial) fun _ => .pure ⟨rfl, rfl⟩
  . exact .bind_any (fun _ => trivial) fun _ => .pure ⟨rfl, rfl⟩
  . exact .pure ⟨rfl, rfl⟩
  . exact .pure ⟨rfl, rfl⟩
  . exact .throw trivial

end SocketView

namespace SharedSocket

-- What the critical section of `poll_connect` finds, if the action is one.
def polled (s : SharedSocket) (a : SharedAction) : Option State :=
  match a with
  | .go i _ =>
    match s.threads i with
    | .pollSocket handle _ => (s.socketSet handle).map (·.state)
    | _ => none
  | _ => none

def Waits (found : Option State) : Prop := found = none ∨ found = some .synSent

instance (found : Option State) : Decidable (Waits found) := inferInstanceAs (Decidable (_ ∨ _))

inductive Moved (s : SharedSocket) (a : SharedAction) : SharedSocket → Prop where
  | other (socketSet : SocketSet) (hthread : a.thread = none) (hpolled : s.polled a = none)
      : Moved s a { s with socketSet }
  | stay {i : Nat} {v : SocketView} {pc : SocketPc} (hthread : a.thread = some i)
      (hout : (s.threads i).inUpdate = false) (hout' : pc.inUpdate = false)
      (hsame : { v.socket with nonblock := s.socket.nonblock } = s.socket) (hpolled : Waits (s.polled a))
      : Moved s a (s.put i (v, pc))
  | enter {i : Nat} (kind : UpdateKind) {pc : UpdatePc} (hthread : a.thread = some i)
      (hout : (s.threads i).inUpdate = false) (hexpect : s.socket.state = kind.expect)
      (hpc : pc.Restores) (hpolled : s.polled a = none)
      : Moved s a (s.put i ({ s.toSocketView with socket.state := .busy }, .update pc))
  | work {i : Nat} {v : SocketView} {pc pc' : UpdatePc} (hthread : a.thread = some i)
      (hin : s.threads i = .update pc) (hstate : v.socket.state = s.socket.state) (hpc : pc'.Restores)
      (hpolled : s.polled a = none)
      : Moved s a (s.put i (v, .update pc'))
  | finish {i : Nat} {kind : UpdateKind} {res : Except InternalError Unit} {pc : SocketPc}
      (hthread : a.thread = some i) (hin : s.threads i = .update (.finish kind res))
      (hout' : pc.inUpdate = false) (hpolled : s.polled a = none)
      : Moved s a (s.put i (s.setFinal kind res, pc))
  | connected {i : Nat} {pc : SocketPc} (hthread : a.thread = some i)
      (hout : (s.threads i).inUpdate = false) (hout' : pc.inUpdate = false)
      (hpolled : s.polled a = some .established)
      : Moved s a (s.put i ({ s.toSocketView with socket.state := .connected }, pc))
  | failed {i : Nat} {pc : SocketPc} {state : State} {socket : TcpSocket} (hthread : a.thread = some i)
      (hout : (s.threads i).inUpdate = false) (hout' : pc.inUpdate = false)
      (hpolled : s.polled a = some state) (hfailed : state ≠ .synSent ∧ state ≠ .established)
      (hclosed : socket.state = .closed)
      : Moved s a (s.put i ({ s.toSocketView with socket }, pc))

section

variable {s : SharedSocket} {a : SharedAction} {i : Nat}

theorem Moved.compareExchange {kind : UpdateKind} {closure : UpdatePc} {failed : SocketPc}
    (hthread : a.thread = some i) (hout : (s.threads i).inUpdate = false)
    (hclosure : ∀ kind res, closure ≠ .finish kind res) (hfailed : failed.inUpdate = false)
    (hpolled : s.polled a = none)
    : Moved s a (s.put i (s.compareExchange kind closure failed)) := by
  unfold SocketView.compareExchange
  split
  . next hexpect => exact .enter kind hthread hout hexpect (.of_ne hclosure) hpolled
  . exact .stay hthread hout hfailed rfl (.inl hpolled)

theorem moved_begin (call : SocketCall) (hout : (s.threads i).inUpdate = false)
    : Moved s (.call i call) (s.put i (s.begin call)) := by
  cases call with
  | connect | bind | listen | shutdown => exact .compareExchange rfl hout (by simp) rfl rfl
  | setNonblocking => exact .stay rfl hout rfl rfl (.inl rfl)
  | poll =>
    have hstay {pc : SocketPc} (hpc : pc.inUpdate = false)
        : Moved s (.call i .poll) (s.put i (s.toSocketView, pc)) :=
      .stay rfl hout hpc rfl (.inl rfl)
    simp only [SocketView.begin]
    split
    . exact hstay rfl
    . exact hstay rfl
    . exact hstay rfl
    . exact hstay rfl

theorem polled_eq_none {answer : SocketAnswer}
    (h : ∀ handle caller, s.threads i ≠ .pollSocket handle caller)
    : s.polled (.go i answer) = none := by
  cases hpc : s.threads i with
  | pollSocket handle caller => exact absurd hpc (h handle caller)
  | _ => simp only [polled, hpc]

theorem next_inUpdate (kind : UpdateKind) (res : Except InternalError Unit)
    : (kind.next res).inUpdate = false := by
  unfold UpdateKind.next
  split
  . rfl
  . rfl
  . rfl

theorem pollCaller_next_inUpdate (caller : PollCaller) (writable : Bool)
    : (caller.next writable).inUpdate = false := by
  cases caller with
  | poll => rfl
  | connect once => cases writable <;> cases once <;> rfl

variable {answer : SocketAnswer}

theorem moved_pollConnect {handle : SocketHandle} {caller : PollCaller} {res : SocketView × SocketPc}
    (hpc : s.threads i = .pollSocket handle caller)
    (h : s.pollConnect handle caller = .ok res)
    : Moved s (.go i answer) (s.put i res) := by
  have hout : (s.threads i).inUpdate = false := by rw [hpc]; rfl
  have hout' := pollCaller_next_inUpdate caller
  obtain ⟨socket, hget, h⟩ := Except.bind_eq_ok_iff.mp h
  have hpolled : s.polled (.go i answer) = some socket.state := by
    simp [polled, hpc, NetM.unwrap_eq_ok hget]
  split at h
  . next hstate =>
    obtain rfl := Except.pure_eq_ok_iff.mp h
    exact .stay rfl hout (hout' false) rfl (.inr (by rw [hpolled, hstate]))
  . next hstate =>
    obtain ⟨_, _, h⟩ := Except.bind_eq_ok_iff.mp h
    obtain rfl := Except.pure_eq_ok_iff.mp h
    exact .connected rfl hout (hout' true) (by rw [hpolled, hstate])
  . next hsyn hestablished =>
    obtain rfl := Except.pure_eq_ok_iff.mp h
    exact .failed rfl hout (hout' true) hpolled ⟨hsyn, hestablished⟩ rfl

theorem Moved.stays {res : SocketView × SocketPc} (hout : (s.threads i).inUpdate = false)
    (hpoll : ∀ handle caller, s.threads i ≠ .pollSocket handle caller) (hres : s.Stays res)
    : Moved s (.go i answer) (s.put i res) := by
  obtain ⟨v, pc⟩ := res
  obtain ⟨rfl, hpc⟩ := hres
  exact .stay rfl hout hpc rfl (.inl (polled_eq_none hpoll))

theorem moved_stepThread {res : SocketView × SocketPc} (h : s.stepThread answer (s.threads i) = .ok res)
    : Moved s (.go i answer) (s.put i res) := by
  cases hpc : s.threads i with
  | idle | returned =>
    rw [hpc] at h
    cases h
  | update closure =>
    have hpolled : s.polled (.go i answer) = none := polled_eq_none (by simp [hpc])
    rw [hpc] at h
    unfold SocketView.stepThread at h
    split at h
    . cases h
    . cases h
    . next kind final hfinish =>
      obtain rfl := Except.pure_eq_ok_iff.mp h
      exact .finish rfl (hpc.trans hfinish) (next_inUpdate kind final) hpolled
    . next hclosure =>
      obtain ⟨⟨v, closure'⟩, hupdate, h⟩ := Except.bind_eq_ok_iff.mp h
      obtain rfl := Except.pure_eq_ok_iff.mp h
      obtain ⟨hstate, hrestores⟩ := (SocketView.stepUpdate_keeps _).ok hupdate
      exact .work rfl hpc hstate hrestores hpolled
    all_goals contradiction
  | connectWait | connectBlock | connectPoll | connectState =>
    simp only [hpc, SocketView.stepThread] at h
    exact .stays (by rw [hpc]; rfl) (by simp [hpc]) ((SocketView.stepConnectRest_stays _).ok h)
  | pollSocket handle caller =>
    rw [hpc] at h
    exact moved_pollConnect hpc h
  | pollHandle | streamHandle | streamSocket | listenerAddr | listenerTable =>
    simp only [hpc, SocketView.stepThread] at h
    exact .stays (by rw [hpc]; rfl) (by simp [hpc]) ((SocketView.stepPoll_stays (by simp)).ok h)
  | shutdownListener =>
    rw [hpc] at h
    obtain rfl := Except.pure_eq_ok_iff.mp h
    exact .compareExchange rfl (by rw [hpc]; rfl) (by simp) rfl (polled_eq_none (by simp [hpc]))

theorem step_moved {s' : SharedSocket} (h : s.step a = .next s') : Moved s a s' := by
  replace h := Outcome.ofExcept_eq_next h
  cases a with
  | call i call =>
    simp only [act] at h
    split at h
    . next hpc =>
      obtain rfl := Except.pure_eq_ok_iff.mp h
      exact moved_begin call (by rw [hpc]; rfl)
    . next hpc =>
      obtain rfl := Except.pure_eq_ok_iff.mp h
      exact moved_begin call (by rw [hpc]; rfl)
    . cases h
  | go i answer =>
    obtain ⟨res, hthread, h⟩ := Except.bind_eq_ok_iff.mp h
    obtain rfl := Except.pure_eq_ok_iff.mp h
    exact moved_stepThread hthread
  | other socketSet =>
    obtain rfl := Except.pure_eq_ok_iff.mp h
    exact .other socketSet rfl rfl

/--
At most one thread is inside of an update, and there is one if and only if the socket is busy.
-/
structure Updates (s : SharedSocket) : Prop where
  unique : ∀ {i j}, (s.threads i).inUpdate = true → (s.threads j).inUpdate = true → i = j
  busy_iff : s.socket.state = .busy ↔ ∃ i, (s.threads i).inUpdate = true
  restores : ∀ {i pc}, s.threads i = .update pc → pc.Restores

theorem updates_of_initial (h : s.Initial) : s.Updates := by
  obtain ⟨socketSet, rfl | ⟨handle, localAddr, peerAddr, rfl⟩⟩ := h
  . constructor
    . simp [init, SocketPc.inUpdate]
    . simp [init, TcpSocket.new, SocketPc.inUpdate]
    . simp [init]
  . constructor
    . simp [init, SocketPc.inUpdate]
    . simp [init, TcpSocket.newConnected, SocketPc.inUpdate]
    . simp [init]

theorem inUpdate_put (s : SharedSocket) (i j : Nat) (v : SocketView) (pc : SocketPc)
    : ((s.put i (v, pc)).threads j).inUpdate = if j = i then pc.inUpdate else (s.threads j).inUpdate := by
  by_cases hji : j = i
  . simp [put, hji]
  . simp [put, hji]

theorem restores_put {v : SocketView} {pc : SocketPc} (h : s.Updates)
    (hpc : ∀ closure, pc = .update closure → closure.Restores) {j : Nat} {closure : UpdatePc}
    (hj : (s.put i (v, pc)).threads j = .update closure)
    : closure.Restores := by
  by_cases hji : j = i
  . simp only [put, hji, Function.update_self] at hj
    exact hpc closure hj
  . simp only [put, Function.update_of_ne hji] at hj
    exact h.restores hj

theorem Updates.same {v : SocketView} {pc : SocketPc} (h : s.Updates)
    (hsame : pc.inUpdate = (s.threads i).inUpdate)
    (hbusy : v.socket.state = .busy ↔ s.socket.state = .busy)
    (hpc : ∀ closure, pc = .update closure → closure.Restores)
    : (s.put i (v, pc)).Updates := by
  have hthreads (j : Nat) : ((s.put i (v, pc)).threads j).inUpdate = (s.threads j).inUpdate := by
    rw [inUpdate_put]
    split
    . next hji => rw [hsame, hji]
    . rfl
  constructor
  . intro j k hj hk
    exact h.unique (hthreads j ▸ hj) (hthreads k ▸ hk)
  . simp only [hthreads]
    exact hbusy.trans h.busy_iff
  . exact restores_put h hpc

theorem Updates.outside_of_ne (h : s.Updates) (hstate : s.socket.state ≠ .busy) (j : Nat)
    : (s.threads j).inUpdate = false := by
  cases hj : (s.threads j).inUpdate with
  | false => rfl
  | true => exact absurd (h.busy_iff.mpr ⟨j, hj⟩) hstate

theorem Updates.enter {v : SocketView} {closure : UpdatePc} (h : s.Updates)
    (hstate : s.socket.state ≠ .busy) (hbusy : v.socket.state = .busy) (hclosure : closure.Restores)
    : (s.put i (v, .update closure)).Updates := by
  have hthreads (j : Nat) : ((s.put i (v, .update closure)).threads j).inUpdate = true ↔ j = i := by
    rw [inUpdate_put]
    split
    . next hji => simp [hji, SocketPc.inUpdate]
    . next hji => simp [hji, h.outside_of_ne hstate j]
  constructor
  . intro j k hj hk
    rw [(hthreads j).mp hj, (hthreads k).mp hk]
  . simp only [hthreads, exists_eq, iff_true]
    exact hbusy
  . apply restores_put h
    rintro _ ⟨⟩
    exact hclosure

theorem Updates.leave {v : SocketView} {pc : SocketPc} (h : s.Updates)
    (hin : (s.threads i).inUpdate = true) (hout' : pc.inUpdate = false) (hstate : v.socket.state ≠ .busy)
    : (s.put i (v, pc)).Updates := by
  have hthreads (j : Nat) : ((s.put i (v, pc)).threads j).inUpdate = false := by
    rw [inUpdate_put]
    split
    . exact hout'
    . next hji =>
      cases hj : (s.threads j).inUpdate with
      | false => rfl
      | true => exact absurd (h.unique hj hin) hji
  constructor
  . intro j k hj
    rw [hthreads j] at hj
    cases hj
  . simp only [hthreads, Bool.false_eq_true, exists_false, iff_false]
    exact hstate
  . apply restores_put h
    rintro _ rfl
    cases hout'

theorem UpdateKind.expect_ne_busy (kind : UpdateKind) : kind.expect ≠ .busy := by
  cases kind <;> decide

theorem UpdateKind.new_ne_busy (kind : UpdateKind) : kind.new ≠ .busy := by
  cases kind <;> decide

theorem setFinal_ne_busy (v : SocketView) (kind : UpdateKind) (res : Except InternalError Unit)
    : (v.setFinal kind res).socket.state ≠ .busy := by
  unfold SocketView.setFinal
  split
  . exact UpdateKind.new_ne_busy kind
  . exact UpdateKind.expect_ne_busy kind

-- A thread in `poll_connect` does not write to a socket that is busy.
def Undisturbed (s : SharedSocket) (a : SharedAction) : Prop :=
  s.socket.state = .busy → Waits (s.polled a)

instance (s : SharedSocket) (a : SharedAction) : Decidable (s.Undisturbed a) :=
  inferInstanceAs (Decidable (_ → _))

theorem Updates.keep {s' : SharedSocket} (h : s.Updates) (hmoved : Moved s a s')
    (hundisturbed : s.Undisturbed a)
    : s'.Updates := by
  have houtside {i : Nat} {v : SocketView} {pc : SocketPc} (hout : (s.threads i).inUpdate = false)
      (hout' : pc.inUpdate = false) (hbusy : v.socket.state = .busy ↔ s.socket.state = .busy)
      : (s.put i (v, pc)).Updates := by
    refine h.same (hout'.trans hout.symm) hbusy ?_
    rintro _ rfl
    cases hout'
  cases hmoved with
  | other socketSet => exact ⟨h.unique, h.busy_iff, h.restores⟩
  | stay hthread hout hout' hsame => exact houtside hout hout' (by rw [← hsame])
  | enter kind hthread hout hexpect hpc =>
    exact h.enter (hexpect ▸ UpdateKind.expect_ne_busy kind) rfl hpc
  | work hthread hin hstate hpc =>
    refine h.same (by rw [hin]; rfl) (by rw [hstate]) ?_
    rintro _ ⟨⟩
    exact hpc
  | finish hthread hin hout' =>
    exact h.leave (by rw [hin]; rfl) hout' (setFinal_ne_busy _ _ _)
  | connected hthread hout hout' hpolled =>
    have hwrites : ¬ Waits (s.polled a) := by simp [Waits, hpolled]
    exact houtside hout hout' (iff_of_false (by simp) fun hbusy => hwrites (hundisturbed hbusy))
  | failed hthread hout hout' hpolled hfailed hclosed =>
    have hwrites : ¬ Waits (s.polled a) := by simp [Waits, hpolled, hfailed.1]
    exact houtside hout hout' (iff_of_false (by simp [hclosed]) fun hbusy => hwrites (hundisturbed hbusy))

theorem updates_of_run {s₀ : SharedSocket} {as : List SharedAction} (hinit : s₀.Initial)
    (hrun : Run step Undisturbed s₀ as s)
    : s.Updates := by
  refine hrun.invariant Updates (updates_of_initial hinit) ?_
  intro s s' a h hundisturbed hstep
  exact h.keep (step_moved hstep) hundisturbed

/--
While a thread is inside of an update, nobody else changes the state, the addresses or the handle.
-/
def LeavesUpdates (s : SharedSocket) (a : SharedAction) (s' : SharedSocket) : Prop :=
  ∀ j, a.thread ≠ some j → (s.threads j).inUpdate = true →
    s'.socket.state = s.socket.state ∧ s'.socket.localAddr = s.socket.localAddr ∧
      s'.socket.peerAddr = s.socket.peerAddr ∧ s'.socket.handle = s.socket.handle

-- The transitions in the comment at the top of `tcp.rs`.
def Documented : TcpState → TcpState → Bool
  | .closed, .busy => true
  | .busy, .connecting => true
  | .connecting, .connected => true
  | .connected, .busy => true
  | .busy, .closed => true
  | .busy, .listening => true
  | .listening, .busy => true
  | _, _ => false

def FollowsDiagram (s s' : SharedSocket) : Prop :=
  s'.socket.state = s.socket.state ∨ Documented s.socket.state s'.socket.state = true

-- A thread in `poll_connect` finds a new connection while the socket is `CONNECTING`, or it finds again
-- what is known already.
def Expected (s : SharedSocket) (a : SharedAction) : Prop :=
  Waits (s.polled a) ∨
    (s.polled a = some .established ∧ (s.socket.state = .connecting ∨ s.socket.state = .connected)) ∨
      (s.polled a ≠ some .established ∧ s.socket.state = .closed)

instance (s : SharedSocket) (a : SharedAction) : Decidable (s.Expected a) :=
  inferInstanceAs (Decidable (_ ∨ _))

variable {s' : SharedSocket}

theorem leavesUpdates_of_outside (h : ∀ j, a.thread ≠ some j → (s.threads j).inUpdate = false)
    : LeavesUpdates s a s' := by
  intro j hj hin
  rw [h j hj] at hin
  cases hin

theorem leavesUpdates_iff_of_write (h : s.Updates) (hthread : a.thread = some i)
    (hout : (s.threads i).inUpdate = false) (hwrites : ¬ Waits (s.polled a))
    (hstate : s'.socket.state ≠ .busy)
    : LeavesUpdates s a s' ↔ s.Undisturbed a := by
  constructor
  . intro hleaves hbusy
    obtain ⟨j, hj⟩ := h.busy_iff.mp hbusy
    have hij : a.thread ≠ some j := by
      rw [hthread]
      rintro ⟨⟩
      rw [hout] at hj
      cases hj
    rw [(hleaves j hij hj).1] at hstate
    exact absurd hbusy hstate
  . intro hundisturbed
    apply leavesUpdates_of_outside
    intro j _
    exact h.outside_of_ne (fun hbusy => hwrites (hundisturbed hbusy)) j

theorem leavesUpdates_of_inside (h : s.Updates) (hthread : a.thread = some i)
    (hin : (s.threads i).inUpdate = true)
    : LeavesUpdates s a s' := by
  apply leavesUpdates_of_outside
  intro j hj
  cases hjin : (s.threads j).inUpdate with
  | false => rfl
  | true => exact absurd (hthread.trans (by rw [h.unique hin hjin])) hj

theorem undisturbed_of_none (hpolled : s.polled a = none) : s.Undisturbed a :=
  fun _ => .inl hpolled

theorem leavesUpdates_iff (h : s.Updates) (hmoved : Moved s a s')
    : LeavesUpdates s a s' ↔ s.Undisturbed a := by
  cases hmoved with
  | other socketSet hthread hpolled =>
    exact iff_of_true (fun _ _ _ => ⟨rfl, rfl, rfl, rfl⟩) (undisturbed_of_none hpolled)
  | stay hthread hout hout' hsame hpolled =>
    refine iff_of_true ?_ fun _ => hpolled
    intro _ _ _
    rw [← hsame]
    exact ⟨rfl, rfl, rfl, rfl⟩
  | enter kind hthread hout hexpect hpc hpolled =>
    have hstate : s.socket.state ≠ .busy := hexpect ▸ UpdateKind.expect_ne_busy kind
    exact iff_of_true (leavesUpdates_of_outside fun j _ => h.outside_of_ne hstate j)
      (undisturbed_of_none hpolled)
  | work hthread hin hstate hpc hpolled =>
    exact iff_of_true (leavesUpdates_of_inside h hthread (by rw [hin]; rfl)) (undisturbed_of_none hpolled)
  | finish hthread hin hout' hpolled =>
    exact iff_of_true (leavesUpdates_of_inside h hthread (by rw [hin]; rfl)) (undisturbed_of_none hpolled)
  | connected hthread hout hout' hpolled =>
    exact leavesUpdates_iff_of_write h hthread hout (by simp [Waits, hpolled]) (by simp [put])
  | failed hthread hout hout' hpolled hfailed hclosed =>
    exact leavesUpdates_iff_of_write h hthread hout (by simp [Waits, hpolled, hfailed.1])
      (by simp [put, hclosed])

theorem documented_setFinal (v : SocketView) {kind : UpdateKind} {res : Except InternalError Unit}
    (h : (UpdatePc.finish kind res).Restores)
    : Documented .busy (v.setFinal kind res).socket.state = true := by
  cases res with
  | ok => cases kind <;> rfl
  | error e =>
    have hexpect : (v.setFinal kind (.error e)).socket.state = .closed := h kind e rfl
    rw [hexpect]
    rfl

theorem documented_expect (kind : UpdateKind) : Documented kind.expect .busy = true := by
  cases kind <;> rfl

theorem documented_connected (state : TcpState)
    : Documented state .connected = true ↔ state = .connecting := by
  cases state <;> simp [Documented]

theorem documented_closed (state : TcpState) : Documented state .closed = true ↔ state = .busy := by
  cases state <;> simp [Documented]

theorem respects_iff (h : s.Updates) (hmoved : Moved s a s')
    : LeavesUpdates s a s' ∧ FollowsDiagram s s' ↔ s.Expected a := by
  rw [leavesUpdates_iff h hmoved]
  cases hmoved with
  | other socketSet hthread hpolled =>
    exact iff_of_true ⟨undisturbed_of_none hpolled, .inl rfl⟩ (.inl (.inl hpolled))
  | stay hthread hout hout' hsame hpolled =>
    exact iff_of_true ⟨fun _ => hpolled, .inl (by rw [← hsame]; rfl)⟩ (.inl hpolled)
  | enter kind hthread hout hexpect hpc hpolled =>
    refine iff_of_true ⟨undisturbed_of_none hpolled, .inr ?_⟩ (.inl (.inl hpolled))
    rw [hexpect]
    exact documented_expect kind
  | work hthread hin hstate hpc hpolled =>
    exact iff_of_true ⟨undisturbed_of_none hpolled, .inl hstate⟩ (.inl (.inl hpolled))
  | finish hthread hin hout' hpolled =>
    refine iff_of_true ⟨undisturbed_of_none hpolled, .inr ?_⟩ (.inl (.inl hpolled))
    rw [h.busy_iff.mpr ⟨_, by rw [hin]; rfl⟩]
    exact documented_setFinal _ (h.restores hin)
  | connected hthread hout hout' hpolled =>
    simp only [Undisturbed, FollowsDiagram, Expected, Waits, hpolled, put, documented_connected]
    cases s.socket.state <;> simp
  | failed hthread hout hout' hpolled hfailed hclosed =>
    simp only [Undisturbed, FollowsDiagram, Expected, Waits, hpolled, put, hclosed, documented_closed]
    cases s.socket.state <;> simp [hfailed]

def Respects (s : SharedSocket) (a : SharedAction) : Prop :=
  ∀ s', s.step a = .next s' → LeavesUpdates s a s' ∧ FollowsDiagram s s'

theorem Updates.respects_iff_expected (h : s.Updates) (hstep : s.step a = .next s') : s.Respects a ↔ s.Expected a := by
  rw [← respects_iff h (step_moved hstep)]
  constructor
  . exact fun hrespects => hrespects s' hstep
  . intro hexpected s'' hstep'
    cases hstep.symm.trans hstep'
    exact hexpected

theorem Updates.next (h : s.Updates) (hexpected : s.Expected a) (hstep : s.step a = .next s') : s'.Updates := by
  have hmoved := step_moved hstep
  have hleaves := ((respects_iff h hmoved).mpr hexpected).1
  exact h.keep hmoved ((leavesUpdates_iff h hmoved).mp hleaves)

theorem Updates.run_iff {as : List SharedAction} (h : s.Updates)
    : Run step Respects s as s' ↔ Run step Expected s as s' := by
  constructor
  . intro hrun
    induction hrun with
    | nil => exact .nil _
    | cons hrespects hstep _ ih =>
      have hexpected := (h.respects_iff_expected hstep).mp hrespects
      exact .cons hexpected hstep (ih (h.next hexpected hstep))
  . intro hrun
    induction hrun with
    | nil => exact .nil _
    | cons hexpected hstep _ ih =>
      exact .cons ((h.respects_iff_expected hstep).mpr hexpected) hstep (ih (h.next hexpected hstep))

theorem Respects.path {as : List SharedAction} (hrun : Run step Respects s as s')
    : Relation.ReflTransGen (fun state state' => Documented state state' = true) s.socket.state s'.socket.state := by
  induction hrun with
  | nil => exact .refl
  | cons hrespects hstep _ ih =>
    rcases (hrespects _ hstep).2 with hsame | hdocumented
    . rwa [← hsame]
    . exact .head hdocumented ih

end

/--
All steps of a run leave the updates of the others alone and follow the documented diagram exactly if the
threads in `poll_connect` find what is expected. Then the diagram leads from the first state to the last one.
-/
theorem run_respects_iff {s₀ s : SharedSocket} {as : List SharedAction} (hinit : s₀.Initial)
    : (Run step Respects s₀ as s ↔ Run step Expected s₀ as s) ∧
        (Run step Expected s₀ as s →
          Relation.ReflTransGen (fun state state' => Documented state state' = true) s₀.socket.state
            s.socket.state) := by
  have hiff : Run step Respects s₀ as s ↔ Run step Expected s₀ as s := (updates_of_initial hinit).run_iff
  exact ⟨hiff, fun hrun => Respects.path (hiff.mpr hrun)⟩

/--
Take any number of threads that share a socket, and suppose that so far no critical section of
`poll_connect` wrote to the socket while it was busy. Then at most one thread is inside of an update. The
next step leaves the update of another thread alone exactly if it is not such a critical section either,
and it also follows the documented diagram exactly if `poll_connect` finds what is expected.
-/
theorem updates_exclusive {s₀ s : SharedSocket} {as : List SharedAction} (hinit : s₀.Initial)
    (hrun : Run step Undisturbed s₀ as s)
    : (∀ i j, (s.threads i).inUpdate = true → (s.threads j).inUpdate = true → i = j) ∧
        ∀ a s', s.step a = .next s' →
          (LeavesUpdates s a s' ↔ s.Undisturbed a) ∧
            (LeavesUpdates s a s' ∧ FollowsDiagram s s' ↔ s.Expected a) := by
  have h := updates_of_run hinit hrun
  refine ⟨fun i j hi hj => h.unique hi hj, ?_⟩
  intro a s' hstep
  exact ⟨leavesUpdates_iff h (step_moved hstep), respects_iff h (step_moved hstep)⟩

def sampleAnswer : SocketAnswer where
  handle := 0
  ephemeralPort := .ok 0xc000
  listened := .ok ()
  canAccept := .ok false
  connect _ remote bound := .ok { state := .synSent, tuple := some (⟨⟨0x0a00020f⟩, bound.port⟩, remote) }
  close socket := { socket with state := .finWait1 }
  stream _ := ⟨false, true⟩

def sampleEstablished : SocketSet :=
  SocketSet.new.setSocket 0
    { state := .established, tuple := some (⟨⟨0x0a00020f⟩, 0xc000⟩, ⟨⟨0x0a000202⟩, 80⟩) }

-- Thread 0 opens a connection and waits for it, and thread 1 begins to poll in the meantime.
def connectAndPoll : List SharedAction :=
  .call 0 (.connect ⟨.v4 0x0a000202, 80⟩) :: List.replicate 8 (.go 0 sampleAnswer) ++
    [.call 1 .poll, .go 1 sampleAnswer, .other sampleEstablished]

def pollAndShutdown : List SharedAction :=
  connectAndPoll ++ .go 1 sampleAnswer :: List.replicate 6 (.go 0 sampleAnswer) ++
    [.call 0 .shutdown, .go 0 sampleAnswer]

theorem updates_exclusive_pollAndShutdown
    : ∃ s, Run step Undisturbed (init .new .new) pollAndShutdown s ∧ s.socket.state = .busy ∧
        (s.threads 0).inUpdate = true ∧
        (∀ i j, (s.threads i).inUpdate = true → (s.threads j).inUpdate = true → i = j) ∧
          ∀ a s', s.step a = .next s' →
            (LeavesUpdates s a s' ↔ s.Undisturbed a) ∧
              (LeavesUpdates s a s' ∧ FollowsDiagram s s' ↔ s.Expected a) := by
  have hok : (exec (checked step Undisturbed) (init .new .new) pollAndShutdown).holds
      (fun s => s.socket.state = .busy ∧ (s.threads 0).inUpdate = true) = true := by
    decide +kernel
  obtain ⟨s, hrun, hs⟩ := exists_run_of_exec _ _ _ _ hok
  have hrun := Run.of_checked hrun
  have hs := of_decide_eq_true hs
  exact ⟨s, hrun, hs.1, hs.2, updates_exclusive ⟨_, .inl rfl⟩ hrun⟩

-- Thread 0 shuts the socket down while thread 1 still polls: the socket becomes `CONNECTED` again inside
-- of the update, and thread 2 enters another one.
def shutdownAndPoll : List SharedAction :=
  connectAndPoll ++ List.replicate 6 (.go 0 sampleAnswer) ++
    [.call 0 .shutdown, .go 1 sampleAnswer, .call 2 .shutdown]

theorem updates_exclusive_shutdownAndPoll_false
    : ¬ ∀ (s₀ s : SharedSocket) (as : List SharedAction), s₀.Initial →
        Run step (fun _ _ => True) s₀ as s →
          (∀ i j, (s.threads i).inUpdate = true → (s.threads j).inUpdate = true → i = j) ∧
            ∀ a s', s.step a = .next s' → LeavesUpdates s a s' ∧ FollowsDiagram s s' := by
  intro h
  have hok : (exec step (init .new .new) shutdownAndPoll).holds
      (fun s => (s.threads 0).inUpdate = true ∧ (s.threads 2).inUpdate = true) = true := by
    decide +kernel
  obtain ⟨s, hrun, hs⟩ := exists_run_of_exec _ _ _ _ hok
  have hs := of_decide_eq_true hs
  have heq := (h _ s _ ⟨_, .inl rfl⟩ hrun).1 0 2 hs.1 hs.2
  cases heq

end SharedSocket

end Jrinx
