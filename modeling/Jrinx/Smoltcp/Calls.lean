import Jrinx.Smoltcp.NetStep

/-!
This module contains one specification for every function of the network code: which small steps it
takes, and that it neither uses a handle that is not live nor misses a handle or a port.
-/

namespace Jrinx

open Net

-- The panics that are left have to do with addresses of the sixth version and with sockets of the
-- protocol that have no endpoints.
def Benign (e : Halt NetPanic) : Prop :=
  e ≠ .panic .deadHandle ∧ e ≠ .panic .noHandle ∧ e ≠ .panic .zeroPort

theorem benign_disabled : Benign .disabled := by simp [Benign]

theorem ensures_unwrap {α : Type} {o : Option α} {why : NetPanic} (h : o ≠ none ∨ Benign (.panic why))
    : Ensures (NetM.unwrap o why) Benign (fun a => o = some a) := by
  cases o with
  | some a => rfl
  | none => exact h.resolve_left (by simp)

theorem ensures_fromCoreSockaddr (addr : SocketAddr)
    : Ensures (fromCoreSockaddr addr) Benign
        (fun endpoint => ∃ octets, addr.ip = .v4 octets ∧ endpoint = ⟨⟨octets⟩, addr.port⟩) := by
  unfold fromCoreSockaddr
  cases hip : addr.ip with
  | v4 octets => exact ⟨octets, rfl, rfl⟩
  | v6 segments => simp [fromCoreIpaddr, NetM.panic, Ensures, Bind.bind, Except.bind, Benign]

namespace SocketSet

variable {sockets : SocketSet} {handle : SocketHandle}

theorem ensures_get (h : sockets.live handle)
    : Ensures (sockets.get handle) Benign (fun socket => sockets handle = some socket) :=
  ensures_unwrap (.inl (Option.isSome_iff_ne_none.mp h))

theorem ensures_add (socket : Socket)
    : Ensures (sockets.add socket handle) Benign
        (fun sockets' => ¬ sockets.live handle ∧ sockets' = sockets.setSocket handle socket) := by
  unfold add
  split
  . exact benign_disabled
  . next h => exact ⟨h, rfl⟩

theorem ensures_remove (h : sockets.live handle)
    : Ensures (sockets.remove handle) Benign
        (fun sockets' => ∀ a, sockets'.live a ↔ sockets.live a ∧ a ≠ handle) := by
  apply (ensures_get h).bind
  intro socket _
  apply Ensures.pure
  intro a
  by_cases ha : a = handle
  . simp [live, ha]
  . simp [live, ha]

theorem ensures_removeAll {handles : List SocketHandle} (h : ∀ handle ∈ handles, sockets.live handle)
    (hnodup : handles.Nodup)
    : Ensures (sockets.removeAll handles) Benign
        (fun sockets' => ∀ a, sockets'.live a ↔ sockets.live a ∧ a ∉ handles) := by
  induction handles generalizing sockets with
  | nil =>
    apply Ensures.pure
    simp
  | cons handle handles ih =>
    obtain ⟨hnotin, hnodup⟩ := List.nodup_cons.mp hnodup
    apply (ensures_remove (h handle List.mem_cons_self)).bind
    intro sockets' hremoved
    refine Ensures.mono (ih ?_ hnodup) ?_
    . intro a ha
      exact (hremoved a).mpr ⟨h a (List.mem_cons_of_mem _ ha), fun heq => hnotin (heq ▸ ha)⟩
    . intro sockets'' hall a
      rw [hall, hremoved, List.mem_cons, not_or, and_assoc]

end SocketSet

theorem swapRemoveFront_perm {α : Type} {queue rest : List α} {idx : Nat} {a : α}
    (h : swapRemoveFront queue idx = some (a, rest))
    : queue.Perm (a :: rest) := by
  match queue, idx with
  | [], _ => simp [swapRemoveFront] at h
  | front :: queue, 0 =>
    simp only [swapRemoveFront, Option.some.injEq, Prod.mk.injEq] at h
    obtain ⟨rfl, rfl⟩ := h
    exact .refl _
  | front :: queue, idx + 1 =>
    simp only [swapRemoveFront, Option.map_eq_some_iff, Prod.mk.injEq] at h
    obtain ⟨b, hget, rfl, rfl⟩ := h
    obtain ⟨hlt, rfl⟩ := List.getElem?_eq_some_iff.mp hget
    calc
      (front :: queue).Perm (front :: queue[idx] :: queue.eraseIdx idx) :=
        (List.getElem_cons_eraseIdx_perm hlt).symm.cons front
      List.Perm _ (queue[idx] :: front :: queue.eraseIdx idx) := .swap _ _ _
      List.Perm _ (queue[idx] :: queue.set idx front) := (List.set_perm_cons_eraseIdx hlt front).symm.cons _

theorem swapRemoveFront_ne_none {α : Type} {queue : List α} {idx : Nat} (h : idx < queue.length)
    : swapRemoveFront queue idx ≠ none := by
  match queue, idx with
  | [], _ => simp at h
  | front :: queue, 0 => simp [swapRemoveFront]
  | front :: queue, idx + 1 =>
    simp only [List.length_cons, Nat.add_lt_add_iff_right] at h
    simp [swapRemoveFront, h]

namespace ListenTable

variable {table : ListenTable} {sockets : SocketSet} {port : UInt16}

theorem ensures_isConnected {handle : SocketHandle} (h : sockets.live handle)
    : Ensures (isConnected sockets handle) Benign (fun _ => True) :=
  (SocketSet.ensures_get h).bind fun _ _ => trivial

theorem ensures_getAddrTuple {handle : SocketHandle} (h : sockets.live handle)
    : Ensures (getAddrTuple sockets handle) Benign (fun _ => True) :=
  (SocketSet.ensures_get h).bind fun _ _ =>
    (ensures_unwrap (.inr (by simp [Benign]))).mono fun _ _ => trivial

theorem ensures_anyConnected {queue : List SocketHandle} (h : ∀ handle ∈ queue, sockets.live handle)
    : Ensures (anyConnected sockets queue) Benign (fun _ => True) := by
  induction queue with
  | nil => trivial
  | cons handle queue ih =>
    apply (ensures_isConnected (h handle List.mem_cons_self)).bind
    intro connected _
    split
    . trivial
    . exact ih fun a ha => h a (List.mem_cons_of_mem _ ha)

theorem ensures_findConnected {queue : List SocketHandle} (h : ∀ handle ∈ queue, sockets.live handle)
    (start : Nat)
    : Ensures (findConnected sockets start queue) Benign
        (fun found => ∀ idx addrTuple, found = some (idx, addrTuple) →
          start ≤ idx ∧ idx < start + queue.length) := by
  induction queue generalizing start with
  | nil =>
    apply Ensures.pure
    simp
  | cons handle queue ih =>
    have hlive := h handle List.mem_cons_self
    apply (ensures_isConnected hlive).bind
    intro connected _
    split
    . apply (ensures_getAddrTuple hlive).bind
      intro addrTuple _
      apply Ensures.pure
      intro idx addrTuple' hfound
      simp only [Option.some.injEq, Prod.mk.injEq] at hfound
      simp only [List.length_cons]
      omega
    . refine (ih (fun a ha => h a (List.mem_cons_of_mem _ ha)) (start + 1)).mono ?_
      intro found hfound idx addrTuple heq
      have := hfound idx addrTuple heq
      simp only [List.length_cons]
      omega

theorem ensures_canAccept {entry : ListenTableEntry} (hentry : table port = some entry)
    (h : ∀ handle ∈ entry.synQueue, sockets.live handle)
    : Ensures (canAccept table sockets port) Benign (fun res => ∃ connected, res = .ok connected) := by
  simp only [canAccept, hentry]
  exact (ensures_anyConnected h).bind fun connected _ => ⟨connected, rfl⟩

theorem ensures_accept {entry : ListenTableEntry} (hentry : table port = some entry)
    (h : ∀ handle ∈ entry.synQueue, sockets.live handle)
    : Ensures (accept table sockets port) Benign
        (fun (res, table') =>
          res = .error .wouldBlock ∧ table' = table ∨
          ∃ handle addrTuple synQueue, res = .ok (handle, addrTuple) ∧
            entry.synQueue.Perm (handle :: synQueue) ∧
            table' = Function.update table port (some { entry with synQueue })) := by
  simp only [accept, hentry]
  apply (ensures_findConnected h 0).bind
  intro found hfound
  split
  . exact Ensures.pure (.inl ⟨rfl, rfl⟩)
  . next idx addrTuple =>
    have hlt := (hfound idx addrTuple rfl).2
    rw [Nat.zero_add] at hlt
    apply (ensures_unwrap (.inl (swapRemoveFront_ne_none hlt))).bind
    rintro ⟨handle, synQueue⟩ hswap
    exact Ensures.pure (.inr ⟨handle, addrTuple, synQueue, rfl, swapRemoveFront_perm hswap, rfl⟩)

theorem ensures_unlisten {entry : ListenTableEntry} (hentry : table port = some entry)
    (h : ∀ handle ∈ entry.synQueue, sockets.live handle) (hnodup : entry.synQueue.Nodup)
    : Ensures (unlisten table sockets port) Benign
        (fun (table', sockets') => table' = Function.update table port none ∧
          ∀ a, sockets'.live a ↔ sockets.live a ∧ a ∉ entry.synQueue) := by
  simp only [unlisten, hentry, Option.elim_some]
  apply (SocketSet.ensures_removeAll h hnodup).bind
  intro sockets' hlive
  exact Ensures.pure ⟨rfl, hlive⟩

end ListenTable

namespace Net

variable {net : Net} {id : Nat} {s : TcpSocket}

structure Polled (net net' : Net) : Prop where
  steps : Steps False net net'
  sockets_eq : net'.sockets = net.sockets
  opened_eq : net'.opened = net.opened
  isSome_eq : ∀ port, (net'.listenTable port).isSome = (net.listenTable port).isSome

theorem Polled.refl (net : Net) : Polled net net := ⟨.refl, rfl, rfl, fun _ => rfl⟩

theorem Polled.trans {net' net'' : Net} (h : Polled net net') (h' : Polled net' net'') : Polled net net'' :=
  ⟨h.steps.trans h'.steps, h'.sockets_eq.trans h.sockets_eq, h'.opened_eq.trans h.opened_eq,
    fun port => (h'.isSome_eq port).trans (h.isSome_eq port)⟩

theorem ensures_incomingTcpPacket (net : Net) (dst : IpEndpoint) (listens : Bool) (handle : SocketHandle)
    : Ensures (net.listenTable.incomingTcpPacket net.socketSet dst listens handle) Benign
        (fun r => Polled net { net with listenTable := r.1, socketSet := r.2 }) := by
  unfold ListenTable.incomingTcpPacket
  split
  . next entry hentry =>
    split
    . exact Polled.refl net
    . split
      . exact Polled.refl net
      . split
        . apply (SocketSet.ensures_add _).bind
          rintro socketSet ⟨hdead, rfl⟩
          exact ⟨.single (.enqueue _ hentry hdead), rfl, rfl, isSome_update (by simp [hentry])⟩
        . exact Polled.refl net
  . exact Polled.refl net

theorem ensures_snoopTcpPacket (net : Net) (packet : TcpPacket) (listens : Bool) (handle : SocketHandle)
    : Ensures (net.listenTable.snoopTcpPacket net.socketSet packet listens handle) Benign
        (fun r => Polled net { net with listenTable := r.1, socketSet := r.2 }) := by
  unfold ListenTable.snoopTcpPacket
  dsimp only
  split
  . exact ensures_incomingTcpPacket net packet.dst listens handle
  . exact Polled.refl net

theorem ensures_pollEvent (net : Net) (event : PollEvent)
    : Ensures (net.pollEvent event) Benign (Polled net) := by
  cases event with
  | packet packet listens handle =>
    refine Ensures.bind (ensures_snoopTcpPacket net packet listens handle) fun _ hpolled => hpolled
  | process handle socket =>
    simp only [pollEvent]
    split
    . next hlive => exact ⟨.single (.process socket hlive), rfl, rfl, fun _ => rfl⟩
    . exact benign_disabled

theorem ensures_pollInterfaces (net : Net) (events : List PollEvent)
    : Ensures (net.pollInterfaces events) Benign (Polled net) := by
  unfold pollInterfaces
  induction events generalizing net with
  | nil => exact Polled.refl net
  | cons event events ih =>
    rw [List.foldlM_cons]
    apply (ensures_pollEvent net event).bind
    intro net' hpolled
    exact (ih net').mono fun _ => hpolled.trans

theorem portStart_le_succ {curr : UInt16} (h : portStart ≤ curr)
    : portStart ≤ if curr = portEnd then portStart else curr + 1 := by
  split
  . exact UInt16.le_refl _
  . next hne =>
    have hlt := curr.toNat_lt
    have hne : curr.toNat ≠ 0xffff := fun heq => hne (UInt16.toNat_inj.mp heq)
    rw [UInt16.le_iff_toNat_le] at h ⊢
    rw [UInt16.toNat_add]
    simp only [portStart, UInt16.reduceToNat] at h ⊢
    omega

theorem portStart_le_nextPort (table : ListenTable) {curr : UInt16} (h : portStart ≤ curr) (tries : Nat)
    : portStart ≤ (nextPort table curr tries).2 ∧
        ∀ port, (nextPort table curr tries).1 = .ok port → portStart ≤ port := by
  induction tries generalizing curr with
  | zero => simp [nextPort, h]
  | succ tries ih =>
    unfold nextPort
    dsimp only
    split
    . simpa [h] using portStart_le_succ h
    . exact ih (portStart_le_succ h)

theorem ne_zero_of_portStart_le {port : UInt16} (h : portStart ≤ port) : port ≠ 0 := by
  rintro rfl
  exact absurd h (by decide)

theorem getEphemeralPort_spec (h : portStart ≤ net.curr)
    : ∃ curr, portStart ≤ curr ∧ net.getEphemeralPort.2 = { net with curr } ∧
        ∀ port, net.getEphemeralPort.1 = .ok port → port ≠ 0 := by
  obtain ⟨hcurr, hport⟩ := portStart_le_nextPort net.listenTable h (portEnd - portStart + 1).toNat
  exact ⟨_, hcurr, rfl, fun port heq => ne_zero_of_portStart_le (hport port heq)⟩

theorem boundPort_spec (h : portStart ≤ net.curr) (s : TcpSocket)
    : ∃ curr, portStart ≤ curr ∧ (net.boundPort s).2 = { net with curr } ∧
        ∀ port, (net.boundPort s).1 = .ok port → port ≠ 0 := by
  unfold boundPort
  split
  . next hport =>
    refine ⟨net.curr, h, rfl, ?_⟩
    intro port heq
    simp only [Except.ok.injEq] at heq
    exact heq ▸ hport
  . exact getEphemeralPort_spec h

theorem ensures_boundEndpoint (h : portStart ≤ net.curr) (s : TcpSocket)
    : Ensures (net.boundEndpoint s) Benign
        (fun r => r.2 = (net.boundPort s).2 ∧ (∃ curr, portStart ≤ curr ∧ r.2 = { net with curr }) ∧
          ∀ endpoint, r.1 = .ok endpoint → (net.boundPort s).1 = .ok endpoint.port ∧ endpoint.port ≠ 0 ∧
            endpoint.addr = if !s.localAddr.addr.isUnspecified then some s.localAddr.addr else none) := by
  obtain ⟨curr, hcurr, hnet, hport⟩ := boundPort_spec h s
  unfold boundEndpoint
  split
  . next e net' heq =>
    rw [heq] at hnet ⊢
    exact Ensures.pure ⟨rfl, ⟨curr, hcurr, hnet⟩, by simp⟩
  . next port net' heq =>
    rw [heq] at hnet hport ⊢
    have hne := hport port rfl
    rw [if_neg hne]
    refine Ensures.pure ⟨rfl, ⟨curr, hcurr, hnet⟩, ?_⟩
    intro endpoint hendpoint
    simp only [Except.ok.injEq] at hendpoint
    subst hendpoint
    exact ⟨rfl, hne, rfl⟩

theorem ensures_socket (net : Net) (id : Nat)
    : Ensures (net.socket id) Benign (fun s => net.sockets id = some s) := by
  unfold socket
  split
  . assumption
  . exact benign_disabled

theorem ensures_setState {state : TcpState} (hs : net.sockets id = some s)
    : Ensures (net.setState id state) Benign (fun net' => net' = net.setSocket id { s with state }) := by
  apply (ensures_socket net id).bind
  intro s' hs'
  rw [hs, Option.some.injEq] at hs'
  subst hs'
  exact Ensures.pure rfl

theorem ensures_updateState {α : Type} {expect new : TcpState}
    {f : Net → TcpSocket → NetM (Except InternalError α × Net)}
    {post : Except TcpState (Except InternalError α) × Net → Prop}
    (hother : ∀ s, net.sockets id = some s → s.state ≠ expect → post (.error s.state, net))
    (hf : ∀ s, net.sockets id = some s → s.state = expect →
      Ensures (f (net.setSocket id { s with state := .busy }) { s with state := .busy }) Benign
        (fun r => ∃ s', r.2.sockets id = some s' ∧
          post (.ok r.1, r.2.setSocket id { s' with state := if r.1.isOk then new else expect })))
    : Ensures (net.updateState id expect new f) Benign post := by
  unfold updateState
  apply (ensures_socket net id).bind
  intro s hs
  split
  . next hstate =>
    apply (hf s hs hstate).bind
    rintro ⟨res, net'⟩ ⟨s', hs', hpost⟩
    apply (ensures_setState hs').bind
    rintro net'' rfl
    exact hpost
  . next hstate => exact hother s hs hstate

section

variable {dials : Prop} {s' : TcpSocket}

theorem setSocket_sockets (net : Net) (id : Nat) (s : TcpSocket)
    : (net.setSocket id s).sockets id = some s := by
  simp [setSocket]

theorem setSocket_setSocket (net : Net) (id : Nat) (s s' : TcpSocket)
    : (net.setSocket id s).setSocket id s' = net.setSocket id s' := by
  simp [setSocket]

theorem change_of_idle (hs : net.sockets id = some s) (hidle : s.state ≠ .listening)
    (hidle' : s'.state ≠ .listening)
    (hstreams : s'.Streams → s.Streams ∧ s'.localAddr = s.localAddr ∧ s'.peerAddr = s.peerAddr)
    (hhandle : s'.handle = s.handle)
    : SmallStep dials net (net.setSocket id s') := by
  apply SmallStep.change hs _ hstreams hhandle
  intro port
  simp [TcpSocket.ListensOn, hidle, hidle']

theorem change_to_busy (hs : net.sockets id = some s) (hidle : s.state ≠ .listening)
    (hbusy : s'.state = .busy) (hhandle : s'.handle = s.handle)
    : SmallStep dials net (net.setSocket id s') :=
  change_of_idle hs hidle (by simp [hbusy]) (fun h => absurd h (by simp [TcpSocket.Streams, hbusy])) hhandle

theorem change_to_closed (hs : net.sockets id = some s) (hidle : s.state ≠ .listening)
    (hclosed : s'.state = .closed) (hhandle : s'.handle = s.handle)
    : SmallStep dials net (net.setSocket id s') :=
  change_of_idle hs hidle (by simp [hclosed]) (fun h => absurd h (by simp [TcpSocket.Streams, hclosed]))
    hhandle

end

-- Where the closures of `update_state` end.
def EndsBusy (net : Net) (id : Nat) (net' : Net) : Prop :=
  Steps False net net' ∧ ∃ s, net'.sockets id = some s ∧ s.state = .busy

theorem ensures_bindSocket (h : portStart ≤ net.curr) (localAddr : SocketAddr)
    (hs : net.sockets id = some s) (hbusy : s.state = .busy)
    : Ensures (net.bindSocket id localAddr s) Benign (fun r => EndsBusy net id r.2) := by
  have hport : ∃ curr, portStart ≤ curr ∧
      (if localAddr.port = 0 then net.getEphemeralPort else (.ok localAddr.port, net)).2 =
        { net with curr } := by
    split
    . obtain ⟨curr, hcurr, hnet, _⟩ := getEphemeralPort_spec h
      exact ⟨curr, hcurr, hnet⟩
    . exact ⟨net.curr, h, rfl⟩
  obtain ⟨curr, hcurr, hnet⟩ := hport
  have hcursor : Steps False net { net with curr } := .single (.cursor hcurr)
  unfold bindSocket
  split
  . next e net' heq =>
    rw [heq] at hnet
    subst hnet
    exact Ensures.pure ⟨hcursor, s, hs, hbusy⟩
  . next port net' heq =>
    rw [heq] at hnet
    subst hnet
    split
    . exact Ensures.pure ⟨hcursor, s, hs, hbusy⟩
    . apply (ensures_fromCoreSockaddr _).bind
      intro localAddr _
      exact Ensures.pure ⟨hcursor.tail (change_to_busy hs (by simp [hbusy]) hbusy rfl), _,
        setSocket_sockets _ _ _, hbusy⟩

theorem EndsBusy.close {net' : Net} {state : TcpState} {s' : TcpSocket} (hs : net.sockets id = some s)
    (hidle : s.state ≠ .listening)
    (h : EndsBusy (net.setSocket id { s with state := .busy }) id net') (hs' : net'.sockets id = some s')
    (hclosed : state = .closed)
    : Steps False net (net'.setSocket id { s' with state }) := by
  obtain ⟨hsteps, s'', hs'', hbusy⟩ := h
  rw [hs', Option.some.injEq] at hs''
  subst hs''
  have hfirst : SmallStep False net (net.setSocket id { s with state := .busy }) :=
    change_to_busy hs hidle rfl rfl
  have hlast : SmallStep False net' (net'.setSocket id { s' with state }) :=
    change_to_closed hs' (by simp [hbusy]) hclosed rfl
  exact .head hfirst (hsteps.tail hlast)

theorem ensures_bind (h : net.Inv) (localAddr : SocketAddr)
    : Ensures (net.bind id localAddr) Benign (fun r => Steps False net r.2) := by
  have hupdate : Ensures
      (net.updateState id .closed .closed fun net s => net.bindSocket id localAddr s) Benign
      (fun r => Steps False net r.2) := by
    apply ensures_updateState
    . exact fun _ _ _ => .refl
    . intro s hs hstate
      refine Ensures.mono (ensures_bindSocket ?_ localAddr (setSocket_sockets net id _) rfl) ?_
      . exact h.cursor
      intro r hends
      obtain ⟨s', hs', hbusy⟩ := hends.2
      exact ⟨s', hs', hends.close hs (by simp [hstate]) hs' (by split <;> rfl)⟩
  apply hupdate.bind
  rintro ⟨res, net'⟩ hsteps
  cases res with
  | ok res => exact hsteps
  | error state => exact hsteps

-- `listen` has entered the socket into the table.
structure Entered (net : Net) (id : Nat) (s : TcpSocket) (net' : Net) : Prop where
  steps : ∀ s', s'.handle = s.handle → s'.state = .listening →
    s'.localAddr.port = s.localAddr.port → Steps False net (net'.setSocket id s')
  sockets_eq : net'.sockets id = some s

theorem ensures_listenSocket (h : portStart ≤ net.curr) (hs : net.sockets id = some s)
    (hbusy : s.state = .busy)
    : Ensures (net.listenSocket id s) Benign
        (fun r => (∃ e, r.1 = .error e) ∧ r.2.listenTable = net.listenTable ∧ EndsBusy net id r.2 ∨
          r.1 = .ok () ∧ ∃ s', Entered net id s' r.2) := by
  unfold listenSocket
  apply (ensures_boundEndpoint h s).bind
  rintro ⟨res, net'⟩ ⟨_, ⟨curr, hcurr, rfl⟩, hendpoint⟩
  have hcursor : Steps False net { net with curr } := .single (.cursor hcurr)
  cases res with
  | error e => exact Ensures.pure (.inl ⟨⟨e, rfl⟩, rfl, hcursor, s, hs, hbusy⟩)
  | ok endpoint =>
    obtain ⟨_, hport, _⟩ := hendpoint endpoint rfl
    simp only [ListenTable.listen, if_neg hport]
    split
    . next hfree =>
      refine Ensures.pure (.inr ⟨rfl, { s with localAddr.port := endpoint.port }, ?_, ?_⟩)
      . intro s' hhandle hlistening hport'
        have hlisten : SmallStep False { net with curr }
            {
              ({ net with curr } : Net).setSocket id s' with
              listenTable := Function.update net.listenTable endpoint.port (some (.new endpoint))
            } :=
          .listen hs hhandle (by simp [TcpSocket.ListensOn, hbusy]) ⟨hlistening, hport'⟩
            (Option.isNone_iff_eq_none.mp hfree) rfl
        rw [← setSocket_setSocket _ id { s with localAddr.port := endpoint.port } s'] at hlisten
        exact hcursor.tail hlisten
      . exact setSocket_sockets _ id _
    . refine Ensures.pure (.inl ⟨⟨_, rfl⟩, rfl, ?_, _, setSocket_sockets _ id _, hbusy⟩)
      exact hcursor.tail (change_to_busy hs (by simp [hbusy]) hbusy rfl)

theorem ensures_listen (h : net.Inv)
    : Ensures (net.listen id) Benign
        (fun r => Steps False net r.2 ∧ ∀ e, r.1 = .error e → r.2.listenTable = net.listenTable) := by
  have hupdate : Ensures (net.updateState id .closed .listening fun net s => net.listenSocket id s) Benign
      (fun r => Steps False net r.2 ∧ ∀ e, r.1 = .ok (.error e) → r.2.listenTable = net.listenTable) := by
    apply ensures_updateState
    . exact fun _ _ _ => ⟨.refl, by simp⟩
    . intro s hs hstate
      have hfirst : SmallStep False net (net.setSocket id { s with state := .busy }) :=
        change_to_busy hs (by simp [hstate]) rfl rfl
      refine Ensures.mono (ensures_listenSocket ?_ (setSocket_sockets net id _) rfl) ?_
      . exact h.cursor
      . rintro ⟨res, net'⟩ (⟨⟨e, rfl⟩, htable, hends⟩ | ⟨rfl, s', hentered⟩)
        . obtain ⟨s', hs', hbusy⟩ := hends.2
          exact ⟨s', hs', hends.close hs (by simp [hstate]) hs' rfl, fun _ _ => htable⟩
        . exact ⟨s', hentered.sockets_eq, .head hfirst (hentered.steps _ rfl rfl rfl), by simp⟩
  apply hupdate.bind
  rintro ⟨res, net'⟩ hsteps
  cases res with
  | ok res => exact ⟨hsteps.1, fun e he => hsteps.2 e (congrArg Except.ok he)⟩
  | error state => exact ⟨hsteps.1, by simp⟩

theorem ensures_blockLoop {α : Type} {f : Net → NetM (Except InternalError α × Net)} {inv : Net → Prop}
    {post : Except InternalError α → Prop}
    (hpolled : ∀ {net net'}, inv net → Polled net net' → inv net')
    (hf : ∀ net, inv net → Ensures (f net) Benign
      (fun r => Steps False net r.2 ∧ post r.1 ∧ (r.1 = .error .wouldBlock → inv r.2)))
    (h : inv net) (rounds : List (List PollEvent))
    : Ensures (net.blockLoop rounds f) Benign (fun r => Steps False net r.2 ∧ post r.1) := by
  induction rounds generalizing net with
  | nil => exact benign_disabled
  | cons events rounds ih =>
    apply (ensures_pollInterfaces net events).bind
    intro net' hpoll
    apply (hf net' (hpolled h hpoll)).bind
    rintro ⟨res, net''⟩ ⟨hsteps, hpost, hagain⟩
    have hall : Steps False net net'' := hpoll.steps.trans hsteps
    split
    . next heq =>
      cases heq
      exact (ih (hagain rfl)).mono fun r hr => ⟨hall.trans hr.1, hr.2⟩
    . next heq =>
      cases heq
      exact Ensures.pure ⟨hall, hpost⟩

theorem ensures_blockOn {α : Type} {f : Net → NetM (Except InternalError α × Net)} (inv : Net → Prop)
    (post : Except InternalError α → Prop)
    (hpolled : ∀ {net net'}, inv net → Polled net net' → inv net')
    (hf : ∀ net, inv net → Ensures (f net) Benign
      (fun r => Steps False net r.2 ∧ post r.1 ∧ (r.1 = .error .wouldBlock → inv r.2)))
    (h : inv net) (rounds : List (List PollEvent))
    : Ensures (net.blockOn id rounds f) Benign (fun r => Steps False net r.2 ∧ post r.1) := by
  apply (ensures_socket net id).bind
  intro s _
  split
  . exact (hf net h).mono fun r hr => ⟨hr.1, hr.2.1⟩
  . exact ensures_blockLoop hpolled hf h rounds

theorem Inv.entry_of_listening (h : net.Inv) (hs : net.sockets id = some s)
    (hlistening : s.state = .listening)
    : ∃ entry, net.listenTable s.localAddr.port = some entry ∧
        (∀ handle ∈ entry.synQueue, net.socketSet.live handle) ∧ entry.synQueue.Nodup := by
  have hsome := (h.listenersAgree.isSome_iff s.localAddr.port).mpr ⟨id, s, hs, hlistening, rfl⟩
  obtain ⟨entry, hentry⟩ := Option.isSome_iff_exists.mp hsome
  refine ⟨entry, hentry, ?_, ?_⟩
  . intro handle hmem
    rw [← holds_port hentry] at hmem
    exact h.handlesOwned.live_of_mem hmem
  . rw [← holds_port hentry]
    exact h.handlesOwned.nodup _

theorem ensures_acceptRound {newId : Nat} (h : net.Inv) (hs : net.sockets id = some s)
    (hlistening : s.state = .listening)
    : Ensures (acceptRound s.localAddr.port newId net) Benign
        (fun r => Steps False net r.2 ∧ r.1 ≠ .error .netFail ∧
          (r.1 = .error .wouldBlock → r.2 = net)) := by
  obtain ⟨entry, hentry, hlive, _⟩ := h.entry_of_listening hs hlistening
  unfold acceptRound
  apply (ListenTable.ensures_accept hentry hlive).bind
  rintro ⟨res, table⟩ (⟨rfl, rfl⟩ | ⟨handle, ⟨localAddr, peerAddr⟩, synQueue, rfl, hqueue, rfl⟩)
  . exact Ensures.pure ⟨.refl, by simp, fun _ => rfl⟩
  . dsimp only
    split
    . exact benign_disabled
    . next hnew =>
      have hnew : net.sockets newId = none := by simpa using hnew
      exact Ensures.pure ⟨.single (.accept hentry hqueue hnew rfl rfl), by simp, by simp⟩

theorem ensures_accept {newId : Nat} (h : net.Inv) (rounds : List (List PollEvent))
    : Ensures (net.accept id rounds newId) Benign
        (fun r => Steps False net r.2 ∧
          ∀ s, net.sockets id = some s → s.state = .listening → r.1 ≠ .error .netFail) := by
  apply (ensures_socket net id).bind
  intro s hs
  split
  . next hstate =>
    refine Ensures.pure ⟨.refl, ?_⟩
    intro s' hs' hlistening
    rw [hs, Option.some.injEq] at hs'
    exact absurd (hs' ▸ hlistening) hstate
  . next hstate =>
    have hstate : s.state = .listening := by simpa using hstate
    have hblock : Ensures (net.blockOn id rounds (acceptRound s.localAddr.port newId)) Benign
        (fun r => Steps False net r.2 ∧ r.1 ≠ .error .netFail) := by
      apply ensures_blockOn (fun net => net.Inv ∧ net.sockets id = some s)
        (fun res => res ≠ .error .netFail) _ _ ⟨h, hs⟩
      . rintro net net' ⟨h, hs⟩ hpolled
        exact ⟨hpolled.steps.inv h, hpolled.sockets_eq ▸ hs⟩
      . rintro net ⟨h, hs⟩
        refine (ensures_acceptRound h hs hstate).mono ?_
        rintro r ⟨hsteps, hpost, hsame⟩
        exact ⟨hsteps, hpost, fun hblock => hsame hblock ▸ ⟨h, hs⟩⟩
    exact hblock.mono fun r hr => ⟨hr.1, fun _ _ _ => hr.2⟩

theorem ensures_shutdownStream (hs : net.sockets id = some s) (hbusy : s.state = .busy)
    (hhandle : s.handle ≠ none) (hlive : ∀ handle, s.handle = some handle → net.socketSet.live handle)
    (close : Socket → Socket) (events : List PollEvent)
    : Ensures (net.shutdownStream id close events s) Benign
        (fun r => r.1 = .ok () ∧ EndsBusy net id r.2 ∧
          ∀ port, (r.2.listenTable port).isSome = (net.listenTable port).isSome) := by
  apply (ensures_unwrap (.inl hhandle)).bind
  intro handle hsome
  apply (SocketSet.ensures_get (hlive handle hsome)).bind
  intro socket _
  apply (ensures_pollInterfaces _ events).bind
  intro net' hpolled
  have hprocess : Steps False net { net with socketSet := net.socketSet.setSocket handle (close socket) } :=
    .single (.process _ (hlive handle hsome))
  refine Ensures.pure ⟨rfl, ⟨?_, { s with localAddr := .unspecified }, ?_, hbusy⟩, hpolled.isSome_eq⟩
  . refine Relation.ReflTransGen.trans (hprocess.tail ?_) hpolled.steps
    exact change_to_busy hs (by simp [hbusy]) hbusy rfl
  . rw [hpolled.sockets_eq]
    exact setSocket_sockets _ id _

theorem ensures_shutdownListener (h : net.Inv) (hs : net.sockets id = some s)
    (hlistening : s.state = .listening) (events : List PollEvent)
    : Ensures ((net.setSocket id { s with state := .busy }).shutdownListener id events { s with state := .busy })
        Benign
        (fun r => r.1 = .ok () ∧ Steps False net r.2 ∧ ∃ s', r.2.sockets id = some s' ∧ s'.state = .busy) := by
  obtain ⟨entry, hentry, hlive, hnodup⟩ := h.entry_of_listening hs hlistening
  unfold shutdownListener
  dsimp only
  rw [setSocket_setSocket]
  apply (ListenTable.ensures_unlisten hentry hlive hnodup).bind
  rintro ⟨listenTable, socketSet⟩ ⟨rfl, hsockets⟩
  apply (ensures_pollInterfaces _ events).bind
  intro net' hpolled
  refine Ensures.pure ⟨rfl, ?_, { s with state := .busy, localAddr := .unspecified }, ?_, rfl⟩
  . refine Relation.ReflTransGen.head ?_ hpolled.steps
    exact .unlisten hs rfl ⟨hlistening, rfl⟩ rfl hentry hsockets
  . rw [hpolled.sockets_eq]
    exact setSocket_sockets _ id _

theorem Inv.live_handle (h : net.Inv) (hs : net.sockets id = some s) (handle : SocketHandle)
    (hhandle : s.handle = some handle)
    : net.socketSet.live handle := by
  apply h.handlesOwned.live_of_mem (i := .socket id)
  rw [holds_socket hs, hhandle]
  exact List.mem_singleton_self handle

theorem ensures_shutdown_stream (h : net.Inv) (close : Socket → Socket) (events : List PollEvent)
    : Ensures (net.updateState id .connected .closed fun net s => net.shutdownStream id close events s)
        Benign
        (fun r => Steps False net r.2 ∧
          (∀ port, (r.2.listenTable port).isSome = (net.listenTable port).isSome) ∧
          (r.2 = net ∨ ∃ s, r.2.sockets id = some s ∧ s.state = .closed)) := by
  apply ensures_updateState
  . exact fun _ _ _ => ⟨.refl, fun _ => rfl, .inl rfl⟩
  . intro s hs hstate
    have hlive := h.live_handle hs
    refine Ensures.mono (ensures_shutdownStream (setSocket_sockets net id _) rfl ?_ ?_ close events) ?_
    . exact h.streamsHaveHandles id s hs (.inr hstate)
    . exact hlive
    . rintro ⟨res, net'⟩ ⟨rfl, hends, htable⟩
      obtain ⟨s', hs', hbusy⟩ := hends.2
      exact ⟨s', hs', hends.close hs (by simp [hstate]) hs' rfl, htable,
        .inr ⟨_, setSocket_sockets _ id _, rfl⟩⟩

theorem ensures_shutdown_listener (h : net.Inv) (events : List PollEvent)
    : Ensures (net.updateState id .listening .closed fun net s => net.shutdownListener id events s) Benign
        (fun r => Steps False net r.2 ∧ (∃ s, r.2.sockets id = some s ∧ s.state ≠ .listening) ∧
          ∀ s, net.sockets id = some s → s.state ≠ .listening → r.2 = net) := by
  apply ensures_updateState
  . intro s hs hstate
    exact ⟨.refl, ⟨s, hs, hstate⟩, fun _ _ _ => rfl⟩
  . intro s hs hstate
    apply (ensures_shutdownListener h hs hstate events).mono
    rintro ⟨res, net'⟩ ⟨rfl, hsteps, s', hs', hbusy⟩
    refine ⟨s', hs', hsteps.tail ?_, ⟨_, setSocket_sockets _ id _, by simp [Except.isOk, Except.toBool]⟩, ?_⟩
    . exact change_to_closed hs' (by simp [hbusy]) rfl rfl
    . intro s'' hs'' hidle
      rw [hs, Option.some.injEq] at hs''
      exact absurd (hs'' ▸ hstate) hidle

theorem ensures_shutdown (h : net.Inv) (close : Socket → Socket) (events : List PollEvent)
    : Ensures (net.shutdown id close events) Benign
        (fun r => Steps False net r.2 ∧ (∃ s, r.2.sockets id = some s ∧ s.state ≠ .listening) ∧
          ∀ s, net.sockets id = some s → s.state ≠ .listening →
            ∀ port, (r.2.listenTable port).isSome = (net.listenTable port).isSome) := by
  apply (ensures_shutdown_stream h close events).bind
  rintro ⟨_, net'⟩ ⟨hsteps, htable, hfirst⟩
  apply (ensures_shutdown_listener (hsteps.inv h) events).bind
  rintro ⟨_, net''⟩ ⟨hsteps', hidle, hsame⟩
  refine Ensures.pure ⟨hsteps.trans hsteps', hidle, ?_⟩
  intro s hs hstate
  have heq : net'' = net' := by
    rcases hfirst with hfirst | ⟨s', hs', hclosed⟩
    . exact hsame s (hfirst ▸ hs) hstate
    . exact hsame s' hs' (by simp [hclosed])
  rw [heq]
  exact htable

theorem ensures_drop (h : net.Inv) (close : Socket → Socket) (events : List PollEvent)
    : Ensures (net.drop id close events) Benign
        (fun net' => Steps False net net' ∧
          ∀ s, net.sockets id = some s → s.state ≠ .listening →
            ∀ port, (net'.listenTable port).isSome = (net.listenTable port).isSome) := by
  apply (ensures_shutdown h close events).bind
  rintro ⟨_, net'⟩ ⟨hsteps, ⟨s, hs, hidle⟩, htable⟩
  apply (ensures_socket net' id).bind
  intro s' hs'
  rw [hs, Option.some.injEq] at hs'
  subst hs'
  have hidle (port : UInt16) : ¬ s.ListensOn port := fun hlistens => hidle hlistens.1
  cases hhandle : s.handle with
  | none =>
    refine Ensures.pure ⟨hsteps.tail (.drop hs hidle ?_), htable⟩
    simp [hhandle]
  | some handle =>
    apply (SocketSet.ensures_remove ((hsteps.inv h).live_handle hs handle hhandle)).bind
    intro socketSet hlive
    refine Ensures.pure ⟨hsteps.tail (.drop hs hidle ?_), htable⟩
    simpa [hhandle] using hlive

theorem ensures_pollConnect (h : net.Inv) (hs : net.sockets id = some s) (hconnecting : s.state = .connecting)
    : Ensures (net.pollConnect id) Benign
        (fun r => Steps False net r.2 ∧ (r.1.writable = false → r.2 = net)) := by
  apply (ensures_socket net id).bind
  intro s' hs'
  rw [hs, Option.some.injEq] at hs'
  subst hs'
  apply (ensures_unwrap (.inl (h.streamsHaveHandles id s hs (.inl hconnecting)))).bind
  intro handle hhandle
  apply (SocketSet.ensures_get (h.live_handle hs handle hhandle)).bind
  intro socket _
  split
  . exact Ensures.pure ⟨.refl, fun _ => rfl⟩
  . apply (ensures_unwrap (.inr (by simp [Benign]))).bind
    intro _ _
    refine Ensures.pure ⟨.single ?_, by simp⟩
    exact change_of_idle hs (by simp [hconnecting]) (by simp) (fun _ => ⟨.inl hconnecting, rfl, rfl⟩) rfl
  . refine Ensures.pure ⟨.single ?_, by simp⟩
    exact change_to_closed hs (by simp [hconnecting]) rfl rfl

theorem ensures_connectRound (h : net.Inv) (hs : net.sockets id = some s)
    (hconnecting : s.state = .connecting)
    : Ensures (connectRound id net) Benign
        (fun r => Steps False net r.2 ∧ (r.1 = .error .wouldBlock → r.2 = net)) := by
  apply (ensures_pollConnect h hs hconnecting).bind
  rintro ⟨poll, net'⟩ ⟨hsteps, hsame⟩
  dsimp only
  split
  . next hwritable => exact Ensures.pure ⟨hsteps, fun _ => hsame (by simpa using hwritable)⟩
  . apply (ensures_socket net' id).bind
    intro s' _
    split
    . exact Ensures.pure ⟨hsteps, by simp⟩
    . exact Ensures.pure ⟨hsteps, by simp⟩

structure Dialed (net : Net) (s : TcpSocket) (remoteAddr : SocketAddr) (answer : ConnectAnswer)
    (endpoints : IpEndpoint × IpEndpoint) : Prop where
  answered : ∃ octets socket socket' bound, remoteAddr.ip = .v4 octets ∧
    (net.boundPort s).1 = .ok bound.port ∧
    bound.addr = (if !s.localAddr.addr.isUnspecified then some s.localAddr.addr else none) ∧
    answer socket ⟨⟨octets⟩, remoteAddr.port⟩ bound = .ok socket' ∧ socket'.tuple = some endpoints

theorem Dialed.congr {net' : Net} {s' : TcpSocket} {remoteAddr : SocketAddr} {answer : ConnectAnswer}
    {endpoints : IpEndpoint × IpEndpoint} (h : Dialed net s remoteAddr answer endpoints)
    (htable : net'.listenTable = net.listenTable) (hcurr : net'.curr = net.curr)
    (hlocal : s'.localAddr = s.localAddr)
    : Dialed net' s' remoteAddr answer endpoints := by
  have hport : (net'.boundPort s').1 = (net.boundPort s).1 := by
    simp only [boundPort, getEphemeralPort, htable, hcurr, hlocal, apply_ite Prod.fst]
  constructor
  rw [hport, hlocal]
  exact h.answered

theorem ensures_connectHandle (h : portStart ≤ net.curr) (s : TcpSocket) (remoteAddr : SocketAddr)
    (answer : ConnectAnswer) {handle : SocketHandle} (hlive : net.socketSet.live handle)
    : Ensures (net.connectHandle id remoteAddr answer s handle) Benign
        (fun r => ∃ curr, portStart ≤ curr ∧
          ((∃ e, r.1 = .error e) ∧ r.2 = { net with curr } ∨
            r.1 = .ok () ∧ ∃ socket localAddr peerAddr, Dialed net s remoteAddr answer (localAddr, peerAddr) ∧
              r.2 = {
                socketSet := net.socketSet.setSocket handle socket
                listenTable := net.listenTable
                curr
                sockets := Function.update net.sockets id
                  (some { s with localAddr, peerAddr, handle := some handle })
                opened := Function.update net.opened id true
              })) := by
  apply (ensures_fromCoreSockaddr remoteAddr).bind
  rintro _ ⟨octets, hip, rfl⟩
  apply (ensures_boundEndpoint h s).bind
  rintro ⟨res, net'⟩ ⟨_, ⟨curr, hcurr, rfl⟩, hendpoint⟩
  cases res with
  | error e => exact Ensures.pure ⟨curr, hcurr, .inl ⟨⟨e, rfl⟩, rfl⟩⟩
  | ok bound =>
    obtain ⟨hport, _, haddr⟩ := hendpoint bound rfl
    apply (SocketSet.ensures_get hlive).bind
    intro socket _
    split
    . exact Ensures.pure ⟨curr, hcurr, .inl ⟨⟨_, rfl⟩, rfl⟩⟩
    . next socket' hanswer =>
      apply (ensures_unwrap (.inr (by simp [Benign]))).bind
      rintro ⟨localAddr, peerAddr⟩ htuple
      exact Ensures.pure ⟨curr, hcurr, .inr ⟨rfl, socket', localAddr, peerAddr,
        ⟨octets, socket, socket', bound, hip, hport, haddr, hanswer, htuple⟩, rfl⟩⟩

theorem ensures_connectSocket (h : net.Inv) (hs : net.sockets id = some s) (hbusy : s.state = .busy)
    (remoteAddr : SocketAddr) (fresh : SocketHandle) (answer : ConnectAnswer)
    : Ensures (net.connectSocket id remoteAddr fresh answer s) Benign
        (fun r => Steps False net r.2 ∧ ∃ s', r.2.sockets id = some s' ∧ s'.state = .busy ∧
          (r.1 = .ok () → s'.handle ≠ none ∧ r.2.opened id = true ∧
            Dialed net s remoteAddr answer (s'.localAddr, s'.peerAddr))) := by
  unfold connectSocket
  split
  . next handle hhandle =>
    have hlive := h.live_handle hs handle hhandle
    apply (ensures_connectHandle h.cursor s remoteAddr answer hlive).mono
    rintro ⟨res, net'⟩ ⟨curr, hcurr, ⟨⟨e, rfl⟩, rfl⟩ | ⟨rfl, socket, localAddr, peerAddr, hdialed, rfl⟩⟩
    . exact ⟨.single (.cursor hcurr), s, hs, hbusy, by simp⟩
    . refine ⟨?_, _, Function.update_self _ _ _, hbusy, fun _ => ⟨by simp, by simp, hdialed⟩⟩
      have hprocess : Steps False net
          { net with curr, socketSet := net.socketSet.setSocket handle socket } :=
        .tail (.single (.cursor hcurr)) (.process socket hlive)
      have hchange : Steps False net
          (({ net with curr, socketSet := net.socketSet.setSocket handle socket } : Net).setSocket id
            { s with localAddr, peerAddr, handle := some handle }) :=
        hprocess.tail (change_to_busy hs (by simp [hbusy]) hbusy hhandle.symm)
      exact hchange.tail (.mark (setSocket_sockets _ id _) hbusy)
  . next hnone =>
    apply (SocketSet.ensures_add _).bind
    rintro _ ⟨hdead, rfl⟩
    refine Ensures.mono (ensures_connectHandle ?_ s remoteAddr answer (live_setSocket.mpr (.inl rfl))) ?_
    . exact h.cursor
    . rintro ⟨res, net'⟩ ⟨curr, hcurr, ⟨⟨e, rfl⟩, rfl⟩ | ⟨rfl, socket, localAddr, peerAddr, hdialed, rfl⟩⟩
      . exact ⟨.tail (.single (.add _ hdead)) (.cursor hcurr), s, hs, hbusy, by simp⟩
      . have hdialed : Dialed net s remoteAddr answer (localAddr, peerAddr) := hdialed.congr rfl rfl rfl
        refine ⟨?_, _, Function.update_self _ _ _, hbusy, fun _ => ⟨by simp, by simp, hdialed⟩⟩
        have hattach : Steps False net
            {
              ({ net with curr } : Net).setSocket id
                { s with localAddr, peerAddr, handle := some fresh } with
              socketSet := net.socketSet.setSocket fresh socket
            } :=
          .tail (.single (.cursor hcurr)) (.attach socket hs hbusy hbusy hnone hdead rfl)
        have hset : (net.socketSet.setSocket fresh SocketSet.newTcpSocket).setSocket fresh socket =
            net.socketSet.setSocket fresh socket := by
          simp [SocketSet.setSocket]
        rw [hset]
        exact hattach.tail (.mark (setSocket_sockets _ id _) hbusy)

-- `connect` has begun to connect the socket.
structure Connects (net : Net) (id : Nat) (remoteAddr : SocketAddr) (answer : ConnectAnswer)
    (s s' : TcpSocket) (net' : Net) : Prop where
  before : net.sockets id = some s
  closed : s.state = .closed
  steps : Steps False net net'
  after : net'.sockets id = some s'
  busy : s'.state = .busy
  handle : s'.handle ≠ none
  opened : net'.opened id = true
  dialed : Dialed net s remoteAddr answer (s'.localAddr, s'.peerAddr)

theorem ensures_connect_start (h : net.Inv) (remoteAddr : SocketAddr) (fresh : SocketHandle)
    (answer : ConnectAnswer)
    : Ensures (net.updateState id .closed .connecting
        fun net s => net.connectSocket id remoteAddr fresh answer s) Benign
        (fun r => (∀ u, r.1 ≠ .ok (.ok u)) ∧ Steps False net r.2 ∨
          ∃ s s' net', Connects net id remoteAddr answer s s' net' ∧
            r.2 = net'.setSocket id { s' with state := .connecting }) := by
  apply ensures_updateState
  . exact fun _ _ _ => .inl ⟨by simp, .refl⟩
  . intro s hs hstate
    have hfirst : SmallStep False net (net.setSocket id { s with state := .busy }) :=
      change_to_busy hs (by simp [hstate]) rfl rfl
    have hinv : (net.setSocket id { s with state := .busy }).Inv := hfirst.inv h
    apply (ensures_connectSocket hinv (setSocket_sockets net id _) rfl remoteAddr fresh answer).mono
    rintro ⟨res, net'⟩ ⟨hsteps, s', hs', hbusy, hok⟩
    refine ⟨s', hs', ?_⟩
    cases res with
    | error e =>
      have hlast : SmallStep False net' (net'.setSocket id { s' with state := .closed }) :=
        change_to_closed hs' (by simp [hbusy]) rfl rfl
      exact .inl ⟨by simp, .head hfirst (hsteps.tail hlast)⟩
    | ok u =>
      obtain ⟨hhandle, hopened, hdialed⟩ := hok rfl
      exact .inr ⟨s, s', net', ⟨hs, hstate, .head hfirst hsteps, hs', hbusy, hhandle, hopened,
        hdialed.congr rfl rfl rfl⟩, rfl⟩

theorem Connects.step {remoteAddr : SocketAddr} {answer : ConnectAnswer} {s' : TcpSocket} {net' : Net}
    (h : Connects net id remoteAddr answer s s' net')
    : SmallStep True net' (net'.setSocket id { s' with state := .connecting }) :=
  .connecting trivial h.after h.busy h.handle

theorem ensures_connect (h : net.Inv) (remoteAddr : SocketAddr) (fresh : SocketHandle)
    (answer : ConnectAnswer) (rounds : List (List PollEvent))
    : Ensures (net.connect id remoteAddr fresh answer rounds) Benign
        (fun r => Steps False net r.2 ∨
          ∃ s s' net', Connects net id remoteAddr answer s s' net' ∧
            Steps False (net'.setSocket id { s' with state := .connecting }) r.2) := by
  apply (ensures_connect_start h remoteAddr fresh answer).bind
  rintro ⟨res, net'⟩ (⟨hne, hsteps⟩ | ⟨s, s', net₁, hconnects, rfl⟩)
  . cases res with
    | error state => exact Ensures.pure (.inl hsteps)
    | ok res =>
      cases res with
      | error e => exact Ensures.pure (.inl hsteps)
      | ok u => exact absurd rfl (hne u)
  . have hinv : (net₁.setSocket id { s' with state := .connecting }).Inv :=
      hconnects.step.inv (hconnects.steps.inv h)
    cases res with
    | error state => exact Ensures.pure (.inr ⟨s, s', net₁, hconnects, .refl⟩)
    | ok res =>
      cases res with
      | error e => exact Ensures.pure (.inr ⟨s, s', net₁, hconnects, .refl⟩)
      | ok u =>
        apply (ensures_socket _ id).bind
        intro s'' _
        split
        . exact Ensures.pure (.inr ⟨s, s', net₁, hconnects, .refl⟩)
        . refine Ensures.mono (ensures_blockOn
            (fun net => net.Inv ∧ net.sockets id = some { s' with state := .connecting }) (fun _ => True)
            ?_ ?_ ⟨hinv, setSocket_sockets _ id _⟩ rounds) ?_
          . rintro net net' ⟨h, hs⟩ hpolled
            exact ⟨hpolled.steps.inv h, hpolled.sockets_eq ▸ hs⟩
          . rintro net ⟨h, hs⟩
            refine (ensures_connectRound h hs rfl).mono ?_
            rintro r ⟨hsteps, hsame⟩
            exact ⟨hsteps, trivial, fun hblock => hsame hblock ▸ ⟨h, hs⟩⟩
          . exact fun r hr => .inr ⟨s, s', net₁, hconnects, hr.1⟩

theorem ensures_poll (h : net.Inv) (stream : Socket → PollState)
    : Ensures (net.poll id stream) Benign (fun r => Steps False net r.2) := by
  apply (ensures_socket net id).bind
  intro s hs
  split
  . next hstate =>
    apply (ensures_pollConnect h hs hstate).bind
    rintro r ⟨hsteps, _⟩
    exact hsteps
  . next hstate =>
    apply (ensures_unwrap (.inl (h.streamsHaveHandles id s hs (.inr hstate)))).bind
    intro handle hhandle
    apply (SocketSet.ensures_get (h.live_handle hs handle hhandle)).bind
    exact fun _ _ => .refl
  . next hstate =>
    obtain ⟨entry, hentry, hlive, _⟩ := h.entry_of_listening hs hstate
    apply (ListenTable.ensures_canAccept hentry hlive).bind
    rintro res ⟨connected, rfl⟩
    exact Ensures.pure .refl
  . exact Ensures.pure .refl

theorem ensures_create (net : Net) (id : Nat)
    : Ensures (net.create id) Benign (fun net' => Steps False net net') := by
  unfold create
  split
  . exact benign_disabled
  . next hnone => exact Ensures.pure (.single (.create (by simpa using hnone)))

theorem ensures_setNonblocking (net : Net) (id : Nat) (nonblock : Bool)
    : Ensures (net.setNonblocking id nonblock) Benign (fun net' => Steps False net net') := by
  apply (ensures_socket net id).bind
  intro s hs
  refine Ensures.pure (.single ?_)
  exact .change hs (fun _ => Iff.rfl) (fun hstreams => ⟨hstreams, rfl, rfl⟩) rfl

/--
The specification of all operations: a call takes small steps, it only halts for reasons that have nothing
to do with handles or ports, and only `connect` makes a socket begin to connect.
-/
theorem ensures_call (h : net.Inv) (a : NetAction)
    : Ensures (net.call a) Benign
        (fun net' => Steps False net net' ∨
          ∃ id remoteAddr fresh answer rounds s s' net₁, a = .connect id remoteAddr fresh answer rounds ∧
            Connects net id remoteAddr answer s s' net₁ ∧
            Steps False (net₁.setSocket id { s' with state := .connecting }) net') := by
  cases a with
  | create id => exact (ensures_create net id).mono fun _ => .inl
  | setNonblocking id nonblock => exact (ensures_setNonblocking net id nonblock).mono fun _ => .inl
  | bind id localAddr => exact (ensures_bind h localAddr).map fun _ => .inl
  | connect id remoteAddr fresh answer rounds =>
    apply (ensures_connect h remoteAddr fresh answer rounds).map
    rintro r (hsteps | ⟨s, s', net₁, hconnects, hsteps⟩)
    . exact .inl hsteps
    . exact .inr ⟨id, remoteAddr, fresh, answer, rounds, s, s', net₁, rfl, hconnects, hsteps⟩
  | listen id => exact (ensures_listen h).map fun _ hr => .inl hr.1
  | accept id rounds newId => exact (ensures_accept h rounds).map fun _ hr => .inl hr.1
  | shutdown id close events => exact (ensures_shutdown h close events).map fun _ hr => .inl hr.1
  | poll id stream => exact (ensures_poll h stream).map fun _ => .inl
  | drop id close events => exact (ensures_drop h close events).mono fun _ hr => .inl hr.1
  | pollInterfaces events => exact (ensures_pollInterfaces net events).mono fun _ hr => .inl hr.steps

theorem Inv.call {net' : Net} {a : NetAction} (h : net.Inv) (hcall : net.call a = .ok net') : net'.Inv := by
  rcases (ensures_call h a).ok hcall with hsteps | ⟨id, _, _, _, _, s, s', net₁, _, hconnects, hsteps⟩
  . exact hsteps.inv h
  . exact hsteps.inv (hconnects.step.inv (hconnects.steps.inv h))

theorem inv_of_run {as : List NetAction} (hrun : Run step (fun _ _ => True) init as net) : net.Inv := by
  apply hrun.invariant Inv inv_init
  intro net net' a h _ hstep
  exact h.call (Outcome.ofExcept_eq_next hstep)

end Net

end Jrinx
