import Jrinx.Smoltcp.QueueSound

/-!
This module contains what `accept` of `smoltcp_impl/listen_table.rs` makes of the connections that the
peers have opened, reset and closed before it is called. It takes every socket for connected that is
neither listening nor in the middle of a handshake, and a closed one has no endpoints any more.
-/

namespace Jrinx

theorem getElem?_of_swapRemoveFront {α : Type} {queue rest : List α} {idx : Nat} {a : α}
    (h : swapRemoveFront queue idx = some (a, rest))
    : queue[idx]? = some a := by
  match queue, idx with
  | [], _ => simp [swapRemoveFront] at h
  | front :: queue, 0 =>
    simp only [swapRemoveFront, Option.some.injEq, Prod.mk.injEq] at h
    simp [h.1]
  | front :: queue, idx + 1 =>
    simp only [swapRemoveFront, Option.map_eq_some_iff, Prod.mk.injEq] at h
    obtain ⟨b, hget, rfl, -⟩ := h
    simp [hget]

namespace ListenTable

-- What `is_connected` answers for a handle that is live.
def connected (sockets : SocketSet) (handle : SocketHandle) : Bool :=
  (sockets handle).any fun socket => !(socket.state = .listen || socket.state = .synReceived)

variable {sockets : SocketSet} {queue : List SocketHandle} {handle : SocketHandle}

theorem isConnected_eq (h : sockets.live handle)
    : isConnected sockets handle = .ok (connected sockets handle) := by
  obtain ⟨socket, hsocket⟩ := Option.isSome_iff_exists.mp h
  simp only [isConnected, SocketSet.get_eq_ok hsocket, NetM.ok_bind, connected, hsocket, Option.any_some]
  rfl

theorem anyConnected_eq (h : ∀ handle ∈ queue, sockets.live handle)
    : anyConnected sockets queue = .ok (queue.any (connected sockets)) := by
  induction queue with
  | nil => rfl
  | cons handle queue ih =>
    obtain ⟨hfirst, hrest⟩ := List.forall_mem_cons.mp h
    simp only [anyConnected, isConnected_eq hfirst, NetM.ok_bind, ih hrest, List.any_cons]
    cases connected sockets handle <;> rfl

theorem findConnected_eq_none (h : ∀ handle ∈ queue, sockets.live handle)
    (hnone : queue.find? (connected sockets) = none) (start : Nat)
    : findConnected sockets start queue = .ok none := by
  induction queue generalizing start with
  | nil => rfl
  | cons handle queue ih =>
    obtain ⟨hfirst, hrest⟩ := List.forall_mem_cons.mp h
    cases hconnected : connected sockets handle with
    | true => simp [hconnected] at hnone
    | false =>
      rw [List.find?_cons_of_neg (by simp [hconnected])] at hnone
      simp only [findConnected, isConnected_eq hfirst, NetM.ok_bind, hconnected]
      exact ih hrest hnone (start + 1)

theorem findConnected_eq_some (h : ∀ handle ∈ queue, sockets.live handle)
    (hsome : queue.find? (connected sockets) = some handle) (start : Nat)
    : ∃ idx, queue[idx]? = some handle ∧ findConnected sockets start queue =
        getAddrTuple sockets handle >>= fun addrTuple => pure (some (start + idx, addrTuple)) := by
  induction queue generalizing start with
  | nil => simp at hsome
  | cons front queue ih =>
    obtain ⟨hfirst, hrest⟩ := List.forall_mem_cons.mp h
    cases hconnected : connected sockets front with
    | true =>
      obtain rfl : front = handle := by simpa [hconnected] using hsome
      refine ⟨0, rfl, ?_⟩
      simp only [findConnected, isConnected_eq hfirst, NetM.ok_bind, hconnected]
      rfl
    | false =>
      rw [List.find?_cons_of_neg (by simp [hconnected])] at hsome
      obtain ⟨idx, hidx, hfind⟩ := ih hrest hsome (start + 1)
      refine ⟨idx + 1, hidx, ?_⟩
      simp only [findConnected, isConnected_eq hfirst, NetM.ok_bind, hconnected]
      rw [show start + (idx + 1) = start + 1 + idx by omega]
      exact hfind

end ListenTable

namespace Net

open ListenTable

/--
`accept` at a port returns: it has nothing to return, or it takes one handle out of the queue and
returns it with the endpoints of its socket. `can_accept` says which of the two it will be.
-/
structure AcceptSafe (net : Net) (port : UInt16) : Prop where
  returns : ∃ r, net.listenTable.accept net.socketSet port = .ok r
  error : ∀ e table', net.listenTable.accept net.socketSet port = .ok (.error e, table') →
    (e = .wouldBlock ∨ e = .netFail) ∧ table' = net.listenTable
  ok : ∀ handle addrTuple table',
    net.listenTable.accept net.socketSet port = .ok (.ok (handle, addrTuple), table') →
    ∃ entry synQueue, net.listenTable port = some entry ∧ entry.synQueue.Nodup ∧
      entry.synQueue.Perm (handle :: synQueue) ∧
      table' = Function.update net.listenTable port (some { entry with synQueue }) ∧
      (net.socketSet handle).bind (·.tuple) = some addrTuple
  canAccept_iff : net.listenTable.canAccept net.socketSet port = .ok (.ok true)
      ↔
    ∃ r table', net.listenTable.accept net.socketSet port = .ok (.ok r, table')

-- The first socket in the queue that counts as connected has not been closed.
def FirstOpen (net : Net) (port : UInt16) : Prop :=
  ∀ entry handle socket, net.listenTable port = some entry →
    entry.synQueue.find? (connected net.socketSet) = some handle →
    net.socketSet handle = some socket → socket.state ≠ .closed

variable {net : Net} {port : UInt16} {entry : ListenTableEntry}

theorem Inv.queue_live (h : net.Inv) (hentry : net.listenTable port = some entry)
    : (∀ handle ∈ entry.synQueue, net.socketSet.live handle) ∧ entry.synQueue.Nodup := by
  have hholds : net.holds (.port port) = entry.synQueue := by simp [holds, hentry]
  constructor
  . intro handle hmem
    exact h.handlesOwned.live_of_mem (i := .port port) (hholds ▸ hmem)
  . exact hholds ▸ h.handlesOwned.nodup (.port port)

theorem acceptSafe_of_none (hnone : net.listenTable port = none) : net.AcceptSafe port := by
  have haccept : net.listenTable.accept net.socketSet port = .ok (.error .netFail, net.listenTable) := by
    simp only [ListenTable.accept, hnone]
    rfl
  have hcan : net.listenTable.canAccept net.socketSet port = .ok (.error .netFail) := by
    simp only [ListenTable.canAccept, hnone]
    rfl
  constructor
  all_goals simp [haccept, hcan]

section

variable (h : net.Inv) (hentry : net.listenTable port = some entry)
include h hentry

theorem canAccept_eq
    : net.listenTable.canAccept net.socketSet port
        =
      .ok (.ok (entry.synQueue.any (connected net.socketSet))) := by
  simp only [ListenTable.canAccept, hentry, anyConnected_eq (h.queue_live hentry).1, NetM.ok_bind]
  rfl

theorem acceptSafe_of_find_none (hnone : entry.synQueue.find? (connected net.socketSet) = none)
    : net.AcceptSafe port := by
  have haccept : net.listenTable.accept net.socketSet port = .ok (.error .wouldBlock, net.listenTable) := by
    simp only [ListenTable.accept, hentry, findConnected_eq_none (h.queue_live hentry).1 hnone, NetM.ok_bind]
    rfl
  have hany : entry.synQueue.any (connected net.socketSet) = false := by
    simpa using hnone
  have hcan := canAccept_eq h hentry
  rw [hany] at hcan
  constructor
  all_goals simp [haccept, hcan]

theorem accept_eq {handle : SocketHandle}
    (hsome : entry.synQueue.find? (connected net.socketSet) = some handle)
    : ∃ synQueue, entry.synQueue.Perm (handle :: synQueue) ∧
        net.listenTable.accept net.socketSet port =
          getAddrTuple net.socketSet handle >>= fun addrTuple =>
            pure (.ok (handle, addrTuple),
              Function.update net.listenTable port (some { entry with synQueue })) := by
  obtain ⟨idx, hidx, hfind⟩ := findConnected_eq_some (h.queue_live hentry).1 hsome 0
  obtain ⟨hlt, hget⟩ := List.getElem?_eq_some_iff.mp hidx
  obtain ⟨⟨a, synQueue⟩, hswap⟩ := Option.ne_none_iff_exists'.mp (swapRemoveFront_ne_none hlt)
  obtain rfl : handle = a := by simpa [hidx] using getElem?_of_swapRemoveFront hswap
  refine ⟨synQueue, swapRemoveFront_perm hswap, ?_⟩
  simp only [ListenTable.accept, hentry, hfind]
  cases getAddrTuple net.socketSet handle with
  | error halt => rfl
  | ok addrTuple =>
    simp only [NetM.ok_bind, pure_bind, Nat.zero_add, hswap]
    rfl

theorem acceptSafe_iff_of_find_some {handle : SocketHandle} {socket : Socket}
    (hsome : entry.synQueue.find? (connected net.socketSet) = some handle)
    (hsocket : net.socketSet handle = some socket)
    : net.AcceptSafe port ↔ socket.tuple ≠ none := by
  obtain ⟨synQueue, hperm, haccept⟩ := accept_eq h hentry hsome
  constructor
  . rintro ⟨⟨r, hreturns⟩, -, -, -⟩ hnone
    rw [haccept, Except.bind_eq_ok_iff] at hreturns
    obtain ⟨addrTuple, htuple, -⟩ := hreturns
    simp only [getAddrTuple, SocketSet.get_eq_ok hsocket, NetM.ok_bind, hnone] at htuple
    cases htuple
  . intro hne
    obtain ⟨addrTuple, htuple⟩ := Option.ne_none_iff_exists'.mp hne
    have hget : getAddrTuple net.socketSet handle = .ok addrTuple := by
      simp only [getAddrTuple, SocketSet.get_eq_ok hsocket, NetM.ok_bind, htuple]
      rfl
    rw [hget, NetM.ok_bind] at haccept
    have hany : entry.synQueue.any (connected net.socketSet) = true := by
      obtain ⟨hconnected, before, after, heq, -⟩ := List.find?_eq_some_iff_append.mp hsome
      rw [heq]
      simp [hconnected]
    have hcan := canAccept_eq h hentry
    rw [hany] at hcan
    constructor
    case returns => exact ⟨_, haccept⟩
    case error =>
      intro e table' heq
      rw [haccept, Except.pure_eq_ok_iff] at heq
      simp at heq
    case ok =>
      intro handle' addrTuple' table' heq
      rw [haccept, Except.pure_eq_ok_iff] at heq
      simp only [Prod.mk.injEq, Except.ok.injEq] at heq
      obtain ⟨⟨rfl, rfl⟩, rfl⟩ := heq
      exact ⟨entry, synQueue, hentry, (h.queue_live hentry).2, hperm, rfl, by simp [hsocket, htuple]⟩
    case canAccept_iff => exact ⟨fun _ => ⟨_, _, haccept⟩, fun _ => hcan⟩

end

theorem acceptSafe_iff_of_sound (h : net.Inv) (hsound : net.QueuesSound)
    : net.AcceptSafe port ↔ net.FirstOpen port := by
  cases hentry : net.listenTable port with
  | none =>
    refine ⟨fun _ => ?_, fun _ => acceptSafe_of_none hentry⟩
    intro entry handle socket hentry'
    simp [hentry] at hentry'
  | some entry =>
    cases hfind : entry.synQueue.find? (connected net.socketSet) with
    | none =>
      refine ⟨fun _ => ?_, fun _ => acceptSafe_of_find_none h hentry hfind⟩
      intro entry' handle socket hentry' hfind'
      rw [hentry, Option.some.injEq] at hentry'
      subst hentry'
      simp [hfind] at hfind'
    | some handle =>
      obtain ⟨hconnected, before, after, heq, -⟩ := List.find?_eq_some_iff_append.mp hfind
      have hmem : handle ∈ entry.synQueue := by simp [heq]
      obtain ⟨socket, hsocket⟩ := Option.isSome_iff_exists.mp ((h.queue_live hentry).1 handle hmem)
      rw [acceptSafe_iff_of_find_some h hentry hfind hsocket]
      have hnot : socket.state ≠ .listen := by
        rintro hlisten
        simp [connected, hsocket, hlisten] at hconnected
      have hendpoints : socket.tuple ≠ none ↔ socket.state ≠ .closed := by
        have hnone : socket.tuple = none ↔ socket.state = .closed ∨ socket.state = .listen :=
          hsound handle socket ⟨port, entry, hentry, hmem⟩ hsocket
        rw [Ne, hnone]
        simp [hnot]
      rw [hendpoints]
      constructor
      . intro hopen entry' handle' socket' hentry' hfind' hsocket'
        rw [hentry, Option.some.injEq] at hentry'
        subst hentry'
        rw [hfind, Option.some.injEq] at hfind'
        subst hfind'
        rw [hsocket, Option.some.injEq] at hsocket'
        exact hsocket' ▸ hopen
      . exact fun hopen => hopen entry handle socket hentry hfind hsocket

theorem acceptSafe_iff_of_run {as : List NetAction}
    (hrun : Run step (fun net a => a.SoundPolls net) init as net) (port : UInt16)
    : net.AcceptSafe port ↔ net.FirstOpen port := by
  obtain ⟨h, hsound⟩ := queuesSound_of_run hrun
  exact acceptSafe_iff_of_sound h hsound

def synPeer : TcpPacket where
  src := ⟨⟨1⟩, 4000⟩
  dst := ⟨⟨2⟩, 80⟩
  syn := true
  ack := false

def endpointsPeer : IpEndpoint × IpEndpoint := (⟨⟨2⟩, 80⟩, ⟨⟨1⟩, 4000⟩)

def handshakes : List NetAction :=
  [
    .create 0, .bind 0 ⟨.v4 2, 80⟩, .listen 0,
    .pollInterfaces [.packet synPeer true 5, .process 5 ⟨.synReceived, some endpointsPeer⟩],
    .pollInterfaces [.process 5 ⟨.established, some endpointsPeer⟩]
  ]

theorem soundPolls_handshakes : ∀ a ∈ handshakes, ∀ net, a.SoundPolls net := by
  simp [handshakes, NetAction.SoundPolls, SoundEvents, NetAction.events, Socket.Sound]

theorem eq_ok_true {m : NetM (Except InternalError Bool)}
    (h : Ensures m (fun _ => False) (fun r => r.toOption = some true))
    : m = .ok (.ok true) := by
  obtain ⟨r, rfl, hr⟩ := h.exists_ok
  cases r with
  | ok b => rw [Option.some.inj hr]
  | error e => simp [Except.toOption] at hr

theorem acceptSafe_handshakes
    : ∃ net, Run step (fun net a => a.SoundPolls net) init handshakes net ∧ net.AcceptSafe 80 ∧
        net.listenTable.canAccept net.socketSet 80 = .ok (.ok true) := by
  obtain ⟨net, hrun, hend⟩ := exists_run_of_exec step init handshakes
    (fun net =>
      (net.listenTable 80).map (·.synQueue) = some [5] &&
      net.socketSet 5 = some ⟨.established, some endpointsPeer⟩ &&
      decide (Ensures (net.listenTable.canAccept net.socketSet 80) (fun _ => False) fun r =>
        r.toOption = some true)) (by decide +kernel)
  simp only [Bool.and_eq_true, decide_eq_true_eq] at hend
  obtain ⟨⟨hqueue, hsocket⟩, hcan⟩ := hend
  have hrun := hrun.restrict soundPolls_handshakes
  refine ⟨net, hrun, (acceptSafe_iff_of_run hrun 80).mpr ?_, ?_⟩
  . intro entry handle socket hentry hfind hsocket'
    simp only [hentry, Option.map_some, Option.some.injEq] at hqueue
    have hmem := List.mem_of_find?_eq_some hfind
    rw [hqueue, List.mem_singleton] at hmem
    rw [hmem, hsocket, Option.some.injEq] at hsocket'
    simp [← hsocket']
  . exact eq_ok_true hcan

-- The peer resets the connection before it is accepted.
theorem not_acceptSafe_reset
    : ∃ net, Run step (fun net a => a.SoundPolls net) init
          (handshakes ++ [.pollInterfaces [.process 5 ⟨.closed, none⟩]]) net ∧
        net.listenTable.accept net.socketSet 80 = .error (.panic .noEndpoint) ∧
        net.listenTable.canAccept net.socketSet 80 = .ok (.ok true) ∧
        ¬net.AcceptSafe 80 := by
  obtain ⟨net, hrun, hend⟩ := exists_run_of_exec step init
    (handshakes ++ [.pollInterfaces [.process 5 ⟨.closed, none⟩]])
    (fun net =>
      decide (Ensures (net.listenTable.accept net.socketSet 80) (· = .panic .noEndpoint) fun _ => False) &&
      decide (Ensures (net.listenTable.canAccept net.socketSet 80) (fun _ => False) fun r =>
        r.toOption = some true)) (by decide +kernel)
  rw [Bool.and_eq_true, decide_eq_true_eq, decide_eq_true_eq] at hend
  obtain ⟨haccept, hcan⟩ := hend
  have hsound : ∀ a ∈ handshakes ++ [.pollInterfaces [.process 5 ⟨.closed, none⟩]], ∀ net,
      a.SoundPolls net := by
    simp [handshakes, NetAction.SoundPolls, SoundEvents, NetAction.events, Socket.Sound]
  refine ⟨net, hrun.restrict hsound, haccept.eq_error, eq_ok_true hcan, ?_⟩
  rintro ⟨⟨r, hreturns⟩, -, -, -⟩
  rw [haccept.eq_error] at hreturns
  simp at hreturns

end Net

end Jrinx
