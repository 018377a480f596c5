import Jrinx.Smoltcp.Handshake

/-!
This module contains what happens to the protocol sockets that wait to be accepted. Only the polls of the
interface change them, so that what the protocol guarantees of the sockets that it processes holds of
them in every state of the network.
-/

namespace Jrinx

-- A socket of the protocol has endpoints, unless it is closed or listens.
def Socket.Sound (socket : Socket) : Prop :=
  socket.tuple = none ↔ socket.state = .closed ∨ socket.state = .listen

instance (socket : Socket) : Decidable socket.Sound :=
  inferInstanceAs (Decidable (socket.tuple = none ↔ socket.state = .closed ∨ socket.state = .listen))

def SoundEvents (events : List PollEvent) : Prop :=
  ∀ handle socket, .process handle socket ∈ events → socket.Sound

namespace NetAction

def events (a : NetAction) : List PollEvent :=
  match a with
  | .connect _ _ _ _ rounds => rounds.flatten
  | .accept _ rounds _ => rounds.flatten
  | .shutdown _ _ events => events
  | .drop _ _ events => events
  | .pollInterfaces events => events
  | _ => []

def SoundPolls (_ : Net) (a : NetAction) : Prop := SoundEvents a.events

end NetAction

namespace Net

def Queued (net : Net) (handle : SocketHandle) : Prop :=
  ∃ port entry, net.listenTable port = some entry ∧ handle ∈ entry.synQueue

def QueuesKept (net net' : Net) : Prop :=
  ∀ handle, net'.Queued handle →
    net.Queued handle ∧ net'.socketSet handle = net.socketSet handle ∨
      ∀ socket, net'.socketSet handle = some socket → socket.Sound

def QueuesSound (net : Net) : Prop :=
  ∀ handle socket, net.Queued handle → net.socketSet handle = some socket → socket.Sound

variable {net net' net'' : Net} {id : Nat} {s : TcpSocket} {handle : SocketHandle} {socket : Socket}

namespace QueuesKept

theorem refl (net : Net) : QueuesKept net net := fun _ hqueued => .inl ⟨hqueued, rfl⟩

theorem trans (h : QueuesKept net net') (h' : QueuesKept net' net'') : QueuesKept net net'' := by
  intro handle hqueued
  rcases h' handle hqueued with ⟨hqueued', heq⟩ | hsound
  . rcases h handle hqueued' with ⟨hqueued'', heq'⟩ | hsound
    . exact .inl ⟨hqueued'', heq.trans heq'⟩
    . exact .inr (heq ▸ hsound)
  . exact .inr hsound

theorem sound (h : QueuesKept net net') (hsound : net.QueuesSound) : net'.QueuesSound := by
  intro handle socket hqueued hsocket
  rcases h handle hqueued with ⟨hqueued', heq⟩ | hsound'
  . exact hsound handle socket hqueued' (heq ▸ hsocket)
  . exact hsound' socket hsocket

theorem of_sub (hqueued : ∀ handle, net'.Queued handle → net.Queued handle)
    (hsocket : ∀ handle, net'.Queued handle →
      net'.socketSet handle = net.socketSet handle ∨ net'.socketSet handle = none)
    : QueuesKept net net' := by
  intro handle h
  rcases hsocket handle h with heq | hnone
  . exact .inl ⟨hqueued handle h, heq⟩
  . exact .inr (by simp [hnone])

theorem of_eq (htable : net'.listenTable = net.listenTable) (hset : net'.socketSet = net.socketSet)
    : QueuesKept net net' := by
  apply of_sub
  . intro handle hqueued
    unfold Queued at *
    rwa [htable] at hqueued
  . exact fun handle _ => .inl (by rw [hset])

theorem setSocket (net : Net) (id : Nat) (s : TcpSocket) : QueuesKept net (net.setSocket id s) :=
  of_eq rfl rfl

theorem of_not_queued (hnot : ¬net.Queued handle) (htable : net'.listenTable = net.listenTable)
    (hset : net'.socketSet = net.socketSet.setSocket handle socket)
    : QueuesKept net net' := by
  have hsame (a : SocketHandle) (ha : net'.Queued a) : net.Queued a := by
    unfold Queued at *
    rwa [htable] at ha
  apply of_sub hsame
  intro a ha
  have hne : a ≠ handle := by
    rintro rfl
    exact hnot (hsame a ha)
  simp [hset, SocketSet.setSocket, hne]

end QueuesKept

theorem Inv.not_queued_of_handle (h : net.Inv) (hs : net.sockets id = some s)
    (hhandle : s.handle = some handle)
    : ¬net.Queued handle := by
  rintro ⟨port, entry, hentry, hmem⟩
  have hsocket : handle ∈ net.holds (.socket id) := by simp [holds, hs, hhandle]
  have hport : handle ∈ net.holds (.port port) := by simp [holds, hentry, hmem]
  have := h.handlesOwned.unique hsocket hport
  simp at this

theorem Inv.not_queued_of_dead (h : net.Inv) (hdead : ¬net.socketSet.live handle)
    : ¬net.Queued handle := by
  rintro ⟨port, entry, hentry, hmem⟩
  have hport : handle ∈ net.holds (.port port) := by simp [holds, hentry, hmem]
  exact hdead (h.handlesOwned.live_of_mem hport)

theorem ensures_pollEvent_kept (net : Net) {event : PollEvent} (hsound : SoundEvents [event])
    : Ensures (net.pollEvent event) (fun _ => True) (QueuesKept net) := by
  cases event with
  | process handle socket =>
    simp only [pollEvent]
    split
    . have hsocket : socket.Sound := hsound handle socket (by simp)
      apply Ensures.pure
      intro a ha
      by_cases hne : a = handle
      . subst hne
        refine .inr ?_
        simp only [SocketSet.setSocket, Function.update_self]
        rintro _ ⟨⟩
        exact hsocket
      . exact .inl ⟨ha, by simp [SocketSet.setSocket, hne]⟩
    . exact .throw trivial
  | packet packet listens fresh =>
    refine (snoopTcpPacket_cases net.listenTable net.socketSet packet listens fresh).bind fun r hr => ?_
    apply Ensures.pure
    rcases hr with rfl | ⟨entry, hentry, -, rfl⟩
    . exact .refl net
    . rintro a ⟨port, entry', hentry', hmem⟩
      by_cases hfresh : a = fresh
      . subst hfresh
        refine .inr ?_
        simp only [SocketSet.setSocket, Function.update_self]
        rintro _ ⟨⟩
        simp [Socket.Sound]
      . refine .inl ⟨?_, by simp [SocketSet.setSocket, hfresh]⟩
        by_cases hport : port = packet.dst.port
        . subst hport
          simp only [Function.update_self, Option.some.injEq] at hentry'
          subst hentry'
          simp only [List.mem_append, List.mem_singleton, hfresh, or_false] at hmem
          exact ⟨_, entry, hentry, hmem⟩
        . simp only [Function.update_of_ne hport] at hentry'
          exact ⟨port, entry', hentry', hmem⟩

theorem ensures_pollInterfaces_kept (net : Net) {events : List PollEvent} (hsound : SoundEvents events)
    : Ensures (net.pollInterfaces events) (fun _ => True) (QueuesKept net) := by
  unfold pollInterfaces
  induction events generalizing net with
  | nil => exact .pure (.refl net)
  | cons event events ih =>
    have hfirst : SoundEvents [event] := fun handle socket hmem =>
      hsound handle socket (by simp_all)
    have hrest : SoundEvents events := fun handle socket hmem =>
      hsound handle socket (List.mem_cons_of_mem _ hmem)
    rw [List.foldlM_cons]
    apply (ensures_pollEvent_kept net hfirst).bind
    intro net' hkept
    exact (ih net' hrest).mono fun _ => hkept.trans

section Rounds

variable {α : Type} {f : Net → NetM (Except InternalError α × Net)}
  (hf : ∀ net, Ensures (f net) (fun _ => True) fun r => QueuesKept net r.2)
include hf

theorem ensures_blockLoop_kept (net : Net) {rounds : List (List PollEvent)}
    (hsound : SoundEvents rounds.flatten)
    : Ensures (net.blockLoop rounds f) (fun _ => True) fun r => QueuesKept net r.2 := by
  induction rounds generalizing net with
  | nil => exact trivial
  | cons events rounds ih =>
    have hfirst : SoundEvents events := fun handle socket hmem =>
      hsound handle socket (by simp [hmem])
    have hrest : SoundEvents rounds.flatten := fun handle socket hmem =>
      hsound handle socket (by rw [List.flatten_cons]; exact List.mem_append_right _ hmem)
    unfold blockLoop
    apply (ensures_pollInterfaces_kept net hfirst).bind
    intro net₁ hpolled
    apply (hf net₁).bind
    rintro ⟨res, net₂⟩ hkept
    have hround : QueuesKept net net₂ := hpolled.trans hkept
    split
    . next heq =>
      cases heq
      exact (ih net₂ hrest).mono fun _ => hround.trans
    . next heq =>
      cases heq
      exact .pure hround

theorem ensures_blockOn_kept (net : Net) (id : Nat) {rounds : List (List PollEvent)}
    (hsound : SoundEvents rounds.flatten)
    : Ensures (net.blockOn id rounds f) (fun _ => True) fun r => QueuesKept net r.2 := by
  refine Ensures.bind_any (fun _ => trivial) fun s => ?_
  split
  . exact hf net
  . exact ensures_blockLoop_kept hf net hsound

end Rounds

theorem ensures_pollConnect_kept (net : Net) (id : Nat)
    : Ensures (net.pollConnect id) (fun _ => True) fun r => QueuesKept net r.2 := by
  refine Ensures.bind_any (fun _ => trivial) fun s => ?_
  refine Ensures.bind_any (fun _ => trivial) fun handle => ?_
  refine Ensures.bind_any (fun _ => trivial) fun socket => ?_
  split
  . exact .pure (.refl net)
  . refine Ensures.bind_any (fun _ => trivial) fun _ => ?_
    exact .pure (.setSocket net id _)
  . exact .pure (.setSocket net id _)

theorem ensures_connectRound_kept (id : Nat) (net : Net)
    : Ensures (connectRound id net) (fun _ => True) fun r => QueuesKept net r.2 := by
  apply (ensures_pollConnect_kept net id).bind
  rintro ⟨poll, net'⟩ hkept
  dsimp only
  split
  . exact .pure hkept
  . refine Ensures.bind_any (fun _ => trivial) fun s => ?_
    split
    . exact .pure hkept
    . exact .pure hkept

theorem queuesKept_of_perm {port : UInt16} {entry : ListenTableEntry} {synQueue : List SocketHandle}
    (hentry : net.listenTable port = some entry) (hsub : ∀ a ∈ synQueue, a ∈ entry.synQueue)
    (htable : net'.listenTable = Function.update net.listenTable port (some { entry with synQueue }))
    (hset : net'.socketSet = net.socketSet)
    : QueuesKept net net' := by
  apply QueuesKept.of_sub
  . rintro a ⟨port', entry', hentry', hmem⟩
    rw [htable] at hentry'
    by_cases hport : port' = port
    . subst hport
      rw [Function.update_self, Option.some.injEq] at hentry'
      subst hentry'
      exact ⟨port', entry, hentry, hsub a hmem⟩
    . rw [Function.update_of_ne hport] at hentry'
      exact ⟨port', entry', hentry', hmem⟩
  . exact fun a _ => .inl (by rw [hset])

theorem accept_kept (table : ListenTable) (sockets : SocketSet) (port : UInt16)
    : Ensures (table.accept sockets port) (fun _ => True) fun r =>
        r.2 = table ∨ ∃ entry synQueue, table port = some entry ∧ (∀ a ∈ synQueue, a ∈ entry.synQueue) ∧
          r.2 = Function.update table port (some { entry with synQueue }) := by
  unfold ListenTable.accept
  split
  . next entry hentry =>
    refine Ensures.bind_any (fun _ => trivial) fun found => ?_
    split
    . exact .pure (.inl rfl)
    . next idx addrTuple =>
      cases hswap : swapRemoveFront entry.synQueue idx with
      | none => exact trivial
      | some r =>
        have hperm := swapRemoveFront_perm hswap
        refine .inr ⟨entry, r.2, hentry, ?_, rfl⟩
        exact fun a ha => hperm.mem_iff.mpr (List.mem_cons_of_mem _ ha)
  . exact .pure (.inl rfl)

theorem ensures_acceptRound_kept (port : UInt16) (newId : Nat) (net : Net)
    : Ensures (acceptRound port newId net) (fun _ => True) fun r => QueuesKept net r.2 := by
  apply (accept_kept net.listenTable net.socketSet port).bind
  rintro ⟨res, table⟩ htable
  have hkept : QueuesKept net { net with listenTable := table } := by
    rcases htable with rfl | ⟨entry, synQueue, hentry, hsub, rfl⟩
    . exact .refl net
    . exact queuesKept_of_perm hentry hsub rfl rfl
  cases res with
  | error e => exact .pure hkept
  | ok r =>
    obtain ⟨handle, localAddr, peerAddr⟩ := r
    dsimp only
    split
    . exact .throw trivial
    . exact .pure (hkept.trans (.of_eq rfl rfl))

theorem ensures_updateState_kept {α : Type} {expect new : TcpState}
    {f : Net → TcpSocket → NetM (Except InternalError α × Net)}
    (hf : ∀ s, net.sockets id = some s →
      Ensures (f (net.setSocket id { s with state := .busy }) { s with state := .busy }) (fun _ => True)
        fun r => QueuesKept net r.2)
    : Ensures (net.updateState id expect new f) (fun _ => True) fun r => QueuesKept net r.2 := by
  unfold updateState
  refine ((ensures_socket net id).mono_halt fun _ _ => trivial).bind fun s hs => ?_
  split
  . apply (hf s hs).bind
    rintro ⟨res, net'⟩ hkept
    have hset (state : TcpState)
        : Ensures (net'.setState id state) (fun _ => True) (QueuesKept net) :=
      Ensures.bind_any (fun _ => trivial) fun s' => .pure (hkept.trans (.setSocket net' id _))
    exact (hset _).bind fun net₁ hkept' => .pure hkept'
  . exact .pure (.refl net)

theorem ensures_boundEndpoint_curr (net : Net) (s : TcpSocket)
    : Ensures (net.boundEndpoint s) (fun _ => True) fun r => ∃ curr, r.2 = { net with curr } := by
  cases hbound : net.boundEndpoint s with
  | error halt => exact trivial
  | ok r => exact boundEndpoint_curr hbound

theorem ensures_connectHandle_kept (hnot : ¬net.Queued handle) (id : Nat) (remoteAddr : SocketAddr)
    (answer : ConnectAnswer) (s : TcpSocket)
    : Ensures (net.connectHandle id remoteAddr answer s handle) (fun _ => True) fun r =>
        QueuesKept net r.2 := by
  refine Ensures.bind_any (fun _ => trivial) fun remote => ?_
  apply (ensures_boundEndpoint_curr net s).bind
  rintro ⟨res, net₁⟩ ⟨curr, rfl⟩
  cases res with
  | error e => exact .pure (.of_eq rfl rfl)
  | ok bound =>
    refine Ensures.bind_any (fun _ => trivial) fun socket => ?_
    split
    . exact .pure (.of_eq rfl rfl)
    . refine Ensures.bind_any (fun _ => trivial) fun tuple => ?_
      exact .pure (.of_not_queued hnot rfl rfl)

theorem ensures_connectSocket_kept (h : net.Inv) (hs : net.sockets id = some s) (remoteAddr : SocketAddr)
    (fresh : SocketHandle) (answer : ConnectAnswer)
    : Ensures ((net.setSocket id { s with state := .busy }).connectSocket id remoteAddr fresh answer
        { s with state := .busy }) (fun _ => True) fun r => QueuesKept net r.2 := by
  have hbusy := QueuesKept.setSocket net id { s with state := .busy }
  unfold connectSocket
  split
  . next handle hhandle =>
    have hnot : ¬(net.setSocket id { s with state := .busy }).Queued handle :=
      h.not_queued_of_handle hs hhandle
    exact (ensures_connectHandle_kept hnot id remoteAddr answer _).mono fun _ => hbusy.trans
  . refine ((SocketSet.ensures_add _).mono_halt fun _ _ => trivial).bind ?_
    rintro socketSet ⟨hdead, rfl⟩
    have hnot : ¬net.Queued fresh := h.not_queued_of_dead hdead
    refine Ensures.mono (ensures_connectHandle_kept ?_ id remoteAddr answer _) fun _ => QueuesKept.trans ?_
    . exact hnot
    . exact hbusy.trans (.of_not_queued hnot rfl rfl)

theorem ensures_connect_kept (h : net.Inv) (id : Nat) (remoteAddr : SocketAddr) (fresh : SocketHandle)
    (answer : ConnectAnswer) {rounds : List (List PollEvent)} (hsound : SoundEvents rounds.flatten)
    : Ensures (net.connect id remoteAddr fresh answer rounds) (fun _ => True) fun r =>
        QueuesKept net r.2 := by
  apply (ensures_updateState_kept fun s hs =>
    ensures_connectSocket_kept h hs remoteAddr fresh answer).bind
  rintro ⟨res, net₁⟩ hkept
  split
  . next heq =>
    cases heq
    exact .pure hkept
  . next heq =>
    cases heq
    exact .pure hkept
  . next heq =>
    cases heq
    refine Ensures.bind_any (fun _ => trivial) fun s => ?_
    split
    . exact .pure hkept
    . exact (ensures_blockOn_kept (ensures_connectRound_kept id) net₁ id hsound).mono
        fun _ => hkept.trans

theorem ensures_accept_kept (net : Net) (id : Nat) {rounds : List (List PollEvent)} (newId : Nat)
    (hsound : SoundEvents rounds.flatten)
    : Ensures (net.accept id rounds newId) (fun _ => True) fun r => QueuesKept net r.2 := by
  refine Ensures.bind_any (fun _ => trivial) fun s => ?_
  split
  . exact .pure (.refl net)
  . exact ensures_blockOn_kept (ensures_acceptRound_kept s.localAddr.port newId) net id hsound

theorem ensures_unwrap_some {α : Type} (o : Option α) (why : NetPanic)
    : Ensures (NetM.unwrap o why) (fun _ => True) (fun a => o = some a) := by
  cases o with
  | none => exact trivial
  | some a => exact rfl

theorem ensures_shutdownStream_kept (hnot : ∀ handle, s.handle = some handle → ¬net.Queued handle)
    (id : Nat) (close : Socket → Socket) {events : List PollEvent} (hsound : SoundEvents events)
    : Ensures (net.shutdownStream id close events s) (fun _ => True) fun r => QueuesKept net r.2 := by
  refine (ensures_unwrap_some s.handle .noHandle).bind fun handle hhandle => ?_
  refine Ensures.bind_any (fun _ => trivial) fun socket => ?_
  refine (ensures_pollInterfaces_kept _ hsound).bind fun net₁ hkept => ?_
  have hclosed : QueuesKept net
      ({ net with socketSet := net.socketSet.setSocket handle (close socket) }.setSocket id
        { s with localAddr := .unspecified }) :=
    .of_not_queued (hnot handle hhandle) rfl rfl
  exact .pure (hclosed.trans hkept)

theorem ensures_remove_sub (sockets : SocketSet) (handle : SocketHandle)
    : Ensures (sockets.remove handle) (fun _ => True) fun sockets' =>
        ∀ a, sockets' a = sockets a ∨ sockets' a = none := by
  refine Ensures.bind_any (fun _ => trivial) fun socket => ?_
  apply Ensures.pure
  intro a
  rw [Function.update_apply]
  split
  . exact .inr rfl
  . exact .inl rfl

theorem ensures_removeAll_sub (sockets : SocketSet) (handles : List SocketHandle)
    : Ensures (sockets.removeAll handles) (fun _ => True) fun sockets' =>
        ∀ a, sockets' a = sockets a ∨ sockets' a = none := by
  induction handles generalizing sockets with
  | nil => exact .pure fun a => .inl rfl
  | cons handle handles ih =>
    refine (ensures_remove_sub sockets handle).bind fun sockets₁ hfirst => ?_
    refine (ih sockets₁).mono fun sockets₂ hrest a => ?_
    rcases hrest a with heq | hnone
    . exact heq ▸ hfirst a
    . exact .inr hnone

theorem ensures_shutdownListener_kept (net : Net) (id : Nat) (s : TcpSocket) {events : List PollEvent}
    (hsound : SoundEvents events)
    : Ensures (net.shutdownListener id events s) (fun _ => True) fun r => QueuesKept net r.2 := by
  have hunlisten : Ensures (net.listenTable.unlisten net.socketSet s.localAddr.port) (fun _ => True)
      fun r => QueuesKept net
        { net.setSocket id { s with localAddr := .unspecified } with
          listenTable := r.1, socketSet := r.2 } := by
    refine (ensures_removeAll_sub net.socketSet _).bind fun sockets hsub => ?_
    apply Ensures.pure
    apply QueuesKept.of_sub
    . rintro a ⟨port, entry, hentry, hmem⟩
      simp only [Function.update_apply] at hentry
      split at hentry
      . simp at hentry
      . exact ⟨port, entry, hentry, hmem⟩
    . exact fun a _ => hsub a
  apply hunlisten.bind
  rintro ⟨table, sockets⟩ hkept
  exact (ensures_pollInterfaces_kept _ hsound).bind fun net₁ hpolled => .pure (hkept.trans hpolled)

theorem ensures_shutdown_kept (h : net.Inv) (id : Nat) (close : Socket → Socket)
    {events : List PollEvent} (hsound : SoundEvents events)
    : Ensures (net.shutdown id close events) (fun _ => True) fun r => QueuesKept net r.2 := by
  unfold shutdown
  refine Ensures.bind (ensures_updateState_kept fun s hs => ?_) ?_
  . refine Ensures.mono (ensures_shutdownStream_kept ?_ id close hsound) fun _ => QueuesKept.trans ?_
    . exact fun handle hhandle => h.not_queued_of_handle hs hhandle
    . exact .setSocket net id _
  rintro ⟨res, net₁⟩ hkept
  dsimp only
  refine Ensures.bind (ensures_updateState_kept fun s hs => ?_) ?_
  . exact (ensures_shutdownListener_kept _ id _ hsound).mono fun _ => (QueuesKept.setSocket net₁ id _).trans
  rintro ⟨res', net₂⟩ hkept'
  exact .pure (hkept.trans hkept')

theorem ensures_drop_kept (h : net.Inv) (id : Nat) (close : Socket → Socket) {events : List PollEvent}
    (hsound : SoundEvents events)
    : Ensures (net.drop id close events) (fun _ => True) (QueuesKept net) := by
  apply (ensures_shutdown_kept h id close hsound).bind
  rintro ⟨res, net₁⟩ hkept
  refine Ensures.bind_any (fun _ => trivial) fun s => ?_
  have hend (sockets : SocketSet) (hsub : ∀ a, sockets a = net₁.socketSet a ∨ sockets a = none)
      : QueuesKept net
          { net₁ with socketSet := sockets, sockets := Function.update net₁.sockets id none } :=
    hkept.trans (.of_sub (fun a ha => ha) fun a _ => hsub a)
  split
  . exact (ensures_remove_sub _ _).bind fun sockets hsub => .pure (hend sockets hsub)
  . exact .pure (hend net₁.socketSet fun a => .inl rfl)

theorem ensures_listen_kept (net : Net) (id : Nat)
    : Ensures (net.listen id) (fun _ => True) fun r => QueuesKept net r.2 := by
  have hlisten (net : Net) (s : TcpSocket)
      : Ensures (net.listenSocket id s) (fun _ => True) fun r => QueuesKept net r.2 := by
    apply (ensures_boundEndpoint_curr net s).bind
    rintro ⟨res, net₁⟩ ⟨curr, rfl⟩
    cases res with
    | error e => exact .pure (.of_eq rfl rfl)
    | ok bound =>
      have htable : Ensures (net.listenTable.listen bound) (fun _ => True) fun r =>
          ∀ port entry handle, r.2 port = some entry → handle ∈ entry.synQueue →
            net.listenTable port = some entry := by
        unfold ListenTable.listen
        dsimp only
        split
        . exact trivial
        split
        . apply Ensures.pure
          intro port entry handle hentry hmem
          simp only [Function.update_apply] at hentry
          split at hentry
          . simp only [Option.some.injEq] at hentry
            subst hentry
            simp [ListenTableEntry.new] at hmem
          . exact hentry
        . exact .pure fun port entry handle hentry _ => hentry
      refine htable.bind fun r hr => ?_
      apply Ensures.pure
      apply QueuesKept.of_sub
      . rintro a ⟨port, entry, hentry, hmem⟩
        exact ⟨port, entry, hr port entry a hentry hmem, hmem⟩
      . exact fun a _ => .inl rfl
  unfold listen
  refine Ensures.bind (ensures_updateState_kept fun s hs => ?_) ?_
  . exact (hlisten _ _).mono fun _ => (QueuesKept.setSocket net id _).trans
  rintro ⟨res, net₁⟩ hkept
  cases res with
  | ok res => exact .pure hkept
  | error e => exact .pure hkept

theorem ensures_bind_kept (net : Net) (id : Nat) (localAddr : SocketAddr)
    : Ensures (net.bind id localAddr) (fun _ => True) fun r => QueuesKept net r.2 := by
  have hbind (net : Net) (s : TcpSocket)
      : Ensures (net.bindSocket id localAddr s) (fun _ => True) fun r => QueuesKept net r.2 := by
    have hcurr : ∃ curr,
        (if localAddr.port = 0 then net.getEphemeralPort else (.ok localAddr.port, net)).2 =
          { net with curr } := by
      split
      . exact ⟨_, rfl⟩
      . exact ⟨net.curr, rfl⟩
    obtain ⟨curr, hcurr⟩ := hcurr
    unfold bindSocket
    split
    . next heq =>
      rw [heq] at hcurr
      exact .pure (.of_eq (by rw [hcurr]) (by rw [hcurr]))
    . next heq =>
      rw [heq] at hcurr
      simp only at hcurr
      subst hcurr
      split
      . exact .pure (.of_eq rfl rfl)
      . refine Ensures.bind_any (fun _ => trivial) fun _ => ?_
        exact .pure (.of_eq rfl rfl)
  unfold Net.bind
  refine Ensures.bind (ensures_updateState_kept fun s hs => ?_) ?_
  . exact (hbind _ _).mono fun _ => (QueuesKept.setSocket net id _).trans
  rintro ⟨res, net₁⟩ hkept
  cases res with
  | ok res => exact .pure hkept
  | error e => exact .pure hkept

theorem ensures_poll_kept (net : Net) (id : Nat) (stream : Socket → PollState)
    : Ensures (net.poll id stream) (fun _ => True) fun r => QueuesKept net r.2 := by
  refine Ensures.bind_any (fun _ => trivial) fun s => ?_
  split
  . exact (ensures_pollConnect_kept net id).bind fun r hkept => .pure hkept
  . refine Ensures.bind_any (fun _ => trivial) fun handle => ?_
    refine Ensures.bind_any (fun _ => trivial) fun socket => ?_
    exact .pure (.refl net)
  . refine Ensures.bind_any (fun _ => trivial) fun res => ?_
    split
    . exact .pure (.refl net)
    . exact .pure (.refl net)
  . exact .pure (.refl net)

theorem ensures_call_kept (h : net.Inv) {a : NetAction} (hsound : a.SoundPolls net)
    : Ensures (net.call a) (fun _ => True) (QueuesKept net) := by
  cases a with
  | create id =>
    simp only [call, create]
    split
    . exact trivial
    . exact .pure (.setSocket net id _)
  | setNonblocking id nonblock =>
    exact Ensures.bind_any (fun _ => trivial) fun s => .pure (.setSocket net id _)
  | bind id localAddr => exact (ensures_bind_kept net id localAddr).map fun _ hkept => hkept
  | connect id remoteAddr fresh answer rounds =>
    exact (ensures_connect_kept h id remoteAddr fresh answer hsound).map fun _ hkept => hkept
  | listen id => exact (ensures_listen_kept net id).map fun _ hkept => hkept
  | accept id rounds newId => exact (ensures_accept_kept net id newId hsound).map fun _ hkept => hkept
  | shutdown id close events => exact (ensures_shutdown_kept h id close hsound).map fun _ hkept => hkept
  | poll id stream => exact (ensures_poll_kept net id stream).map fun _ hkept => hkept
  | drop id close events => exact ensures_drop_kept h id close hsound
  | pollInterfaces events => exact ensures_pollInterfaces_kept net hsound

theorem queuesSound_of_run {as : List NetAction}
    (hrun : Run step (fun net a => a.SoundPolls net) init as net)
    : net.Inv ∧ net.QueuesSound := by
  refine hrun.invariant (fun net => net.Inv ∧ net.QueuesSound) ⟨inv_of_run (.nil init), ?_⟩ ?_
  . rintro handle socket ⟨port, entry, hentry, -⟩
    simp [init, ListenTable.new] at hentry
  . rintro net₁ net₂ a ⟨h, hsound⟩ hallowed hstep
    have hcall := Outcome.ofExcept_eq_next hstep
    exact ⟨h.call hcall, ((ensures_call_kept h hallowed).ok hcall).sound hsound⟩

end Net

end Jrinx
