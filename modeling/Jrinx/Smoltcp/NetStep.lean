import Jrinx.Smoltcp.Tcp
import Jrinx.Util.Exclusive

/-!
This module says once what the operations on the sockets can do. All of them are sequences of a few kinds
of small changes, and the invariants of the network are proved for these: who holds which handle, and who
listens on which port.
-/

namespace Jrinx

inductive HandleOwner where
  | socket (id : Nat)
  | port (port : UInt16)
  deriving DecidableEq

def TcpSocket.ListensOn (s : TcpSocket) (port : UInt16) : Prop :=
  s.state = .listening ∧ s.localAddr.port = port

def TcpSocket.Streams (s : TcpSocket) : Prop := s.state = .connecting ∨ s.state = .connected

namespace Net

def holds (net : Net) (owner : HandleOwner) : List SocketHandle :=
  match owner with
  | .socket id => (net.sockets id).elim [] (·.handle.toList)
  | .port port => (net.listenTable port).elim [] (·.synQueue)

def ListensOn (net : Net) (id : Nat) (port : UInt16) : Prop :=
  ∃ s, net.sockets id = some s ∧ s.ListensOn port

/--
Every handle in a socket or in a queue of the listen table is live, and it is stored there only.
-/
def HandlesOwned (net : Net) : Prop := Exclusive net.holds net.socketSet.live

def StreamsHaveHandles (net : Net) : Prop :=
  ∀ id s, net.sockets id = some s → s.Streams → s.handle ≠ none

/--
There is an entry in the listen table for exactly those ports that a socket listens on, and no two
sockets listen on the same port.
-/
structure ListenersAgree (net : Net) : Prop where
  isSome_iff : ∀ port, (net.listenTable port).isSome = true ↔ ∃ id, net.ListensOn id port
  unique : ∀ {port id id'}, net.ListensOn id port → net.ListensOn id' port → id = id'

-- A connection that was opened by `connect`, with its endpoints.
def Opened (net : Net) (id : Nat) (endpoints : IpEndpoint × IpEndpoint) : Prop :=
  net.opened id = true ∧
    ∃ s, net.sockets id = some s ∧ s.Streams ∧ (s.localAddr, s.peerAddr) = endpoints

-- Only where `dials` holds a socket may begin to connect.
inductive SmallStep (dials : Prop) (net : Net) : Net → Prop where
  | cursor {curr : UInt16} (hcurr : portStart ≤ curr) : SmallStep dials net { net with curr }
  | process {handle : SocketHandle} (socket : Socket) (hlive : net.socketSet.live handle)
      : SmallStep dials net { net with socketSet := net.socketSet.setSocket handle socket }
  -- A new socket of the protocol that nobody knows.
  | add {handle : SocketHandle} (socket : Socket) (hdead : ¬ net.socketSet.live handle)
      : SmallStep dials net { net with socketSet := net.socketSet.setSocket handle socket }
  | enqueue {port : UInt16} {entry : ListenTableEntry} {handle : SocketHandle} (socket : Socket)
      (hentry : net.listenTable port = some entry) (hdead : ¬ net.socketSet.live handle)
      : SmallStep dials net
          {
            net with
            socketSet := net.socketSet.setSocket handle socket
            listenTable := Function.update net.listenTable port
              (some { entry with synQueue := entry.synQueue ++ [handle] })
          }
  | create {id : Nat} (hs : net.sockets id = none) : SmallStep dials net (net.setSocket id .new)
  | change {id : Nat} {s s' : TcpSocket} (hs : net.sockets id = some s)
      (hlistens : ∀ port, s'.ListensOn port ↔ s.ListensOn port)
      (hstreams : s'.Streams → s.Streams ∧ s'.localAddr = s.localAddr ∧ s'.peerAddr = s.peerAddr)
      (hhandle : s'.handle = s.handle)
      : SmallStep dials net (net.setSocket id s')
  -- A socket gets a new handle.
  | attach {id : Nat} {s s' : TcpSocket} {handle : SocketHandle} (socket : Socket)
      (hs : net.sockets id = some s) (hbusy : s.state = .busy) (hbusy' : s'.state = .busy)
      (hnone : s.handle = none) (hdead : ¬ net.socketSet.live handle) (hhandle : s'.handle = some handle)
      : SmallStep dials net
          { net.setSocket id s' with socketSet := net.socketSet.setSocket handle socket }
  | mark {id : Nat} {s : TcpSocket} (hs : net.sockets id = some s) (hbusy : s.state = .busy)
      : SmallStep dials net { net with opened := Function.update net.opened id true }
  | connecting {id : Nat} {s : TcpSocket} (hdials : dials) (hs : net.sockets id = some s)
      (hbusy : s.state = .busy) (hhandle : s.handle ≠ none)
      : SmallStep dials net (net.setSocket id { s with state := .connecting })
  | listen {id : Nat} {port : UInt16} {s s' : TcpSocket} {entry : ListenTableEntry}
      (hs : net.sockets id = some s) (hhandle : s'.handle = s.handle) (hidle : ∀ port, ¬ s.ListensOn port)
      (hlistens : s'.ListensOn port) (hfree : net.listenTable port = none) (hempty : entry.synQueue = [])
      : SmallStep dials net
          {
            net.setSocket id s' with
            listenTable := Function.update net.listenTable port (some entry)
          }
  | unlisten {id : Nat} {port : UInt16} {s s' : TcpSocket} {entry : ListenTableEntry}
      {sockets : SocketSet} (hs : net.sockets id = some s) (hhandle : s'.handle = s.handle)
      (hlistens : s.ListensOn port) (hbusy' : s'.state = .busy)
      (hentry : net.listenTable port = some entry)
      (hsockets : ∀ handle, sockets.live handle ↔
        net.socketSet.live handle ∧ handle ∉ entry.synQueue)
      : SmallStep dials net
          {
            net.setSocket id s' with
            listenTable := Function.update net.listenTable port none
            socketSet := sockets
          }
  | accept {port : UInt16} {entry : ListenTableEntry} {synQueue : List SocketHandle}
      {handle : SocketHandle} {id : Nat} {s : TcpSocket} (hentry : net.listenTable port = some entry)
      (hqueue : entry.synQueue.Perm (handle :: synQueue)) (hnew : net.sockets id = none)
      (hhandle : s.handle = some handle) (hstate : s.state = .connected)
      : SmallStep dials net
          {
            net.setSocket id s with
            listenTable := Function.update net.listenTable port (some { entry with synQueue })
            opened := Function.update net.opened id false
          }
  | drop {id : Nat} {s : TcpSocket} {sockets : SocketSet} (hs : net.sockets id = some s)
      (hidle : ∀ port, ¬ s.ListensOn port)
      (hsockets : ∀ handle, sockets.live handle ↔
        net.socketSet.live handle ∧ handle ∉ s.handle.toList)
      : SmallStep dials net
          { net with sockets := Function.update net.sockets id none, socketSet := sockets }

abbrev Steps (dials : Prop) : Net → Net → Prop := Relation.ReflTransGen (SmallStep dials)

section

variable (net : Net) (id : Nat) (s : TcpSocket) (port : UInt16) (entry : Option ListenTableEntry)

theorem holds_setSocket
    : (net.setSocket id s).holds = Function.update net.holds (.socket id) s.handle.toList := by
  funext owner
  cases owner with
  | socket i =>
    by_cases hi : i = id
    . simp [holds, setSocket, hi]
    . simp [holds, setSocket, hi]
  | port port => simp [holds, setSocket]

theorem holds_removeSocket
    : ({ net with sockets := Function.update net.sockets id none } : Net).holds =
        Function.update net.holds (.socket id) [] := by
  funext owner
  cases owner with
  | socket i =>
    by_cases hi : i = id
    . simp [holds, hi]
    . simp [holds, hi]
  | port port => simp [holds]

theorem holds_setEntry
    : ({ net with listenTable := Function.update net.listenTable port entry } : Net).holds =
        Function.update net.holds (.port port) (entry.elim [] (·.synQueue)) := by
  funext owner
  cases owner with
  | socket i => simp [holds]
  | port p =>
    by_cases hp : p = port
    . simp [holds, hp]
    . simp [holds, hp]

theorem holds_setSocket_setEntry
    : ({ net.setSocket id s with listenTable := Function.update net.listenTable port entry } : Net).holds =
        Function.update (Function.update net.holds (.port port) (entry.elim [] (·.synQueue)))
          (.socket id) s.handle.toList := by
  rw [← holds_setEntry, ← holds_setSocket]
  rfl

end

section

variable {dials : Prop} {net net' : Net} {id : Nat} {s : TcpSocket} {holds : HandleOwner → List SocketHandle}
  {live : SocketHandle → Prop}

theorem holds_socket (hs : net.sockets id = some s) : net.holds (.socket id) = s.handle.toList := by
  simp [Net.holds, hs]

theorem holds_port {port : UInt16} {entry : ListenTableEntry} (hentry : net.listenTable port = some entry)
    : net.holds (.port port) = entry.synQueue := by
  simp [Net.holds, hentry]

theorem live_setSocket {sockets : SocketSet} {handle h : SocketHandle} {socket : Socket}
    : (sockets.setSocket handle socket).live h ↔ h = handle ∨ sockets.live h := by
  by_cases hh : h = handle
  . simp [SocketSet.live, SocketSet.setSocket, hh]
  . simp [SocketSet.live, SocketSet.setSocket, hh]

theorem handlesOwned_of (h : Exclusive holds live) (hholds : net'.holds = holds)
    (hlive : ∀ handle, live handle → net'.socketSet.live handle)
    : net'.HandlesOwned := by
  rw [HandlesOwned, hholds]
  exact h.mono fun _ _ hmem => hlive _ (h.live_of_mem hmem)

theorem HandlesOwned.with_fresh (h : net.HandlesOwned) (handle : SocketHandle)
    : Exclusive net.holds (fun a => a = handle ∨ net.socketSet.live a) :=
  h.mono fun _ _ hmem => .inr (h.live_of_mem hmem)

theorem SmallStep.handlesOwned (h : net.HandlesOwned) (hstep : SmallStep dials net net')
    : net'.HandlesOwned := by
  cases hstep with
  | cursor hcurr => exact h
  | mark hs hbusy => exact h
  | @process handle socket hlive =>
    exact handlesOwned_of (h.with_fresh handle) rfl fun _ => live_setSocket.mpr
  | @add handle socket hdead =>
    exact handlesOwned_of (h.with_fresh handle) rfl fun _ => live_setSocket.mpr
  | @enqueue port entry handle socket hentry hdead =>
    have hqueue : (entry.synQueue ++ [handle]).Perm (handle :: net.holds (.port port)) := by
      rw [holds_port hentry]
      exact List.perm_append_singleton handle entry.synQueue
    exact handlesOwned_of
      ((h.with_fresh handle).gain (.inl rfl) (fun _ hmem => hdead (h.live_of_mem hmem)) hqueue)
      (holds_setEntry net port _) fun _ => live_setSocket.mpr
  | create hs =>
    exact handlesOwned_of (h.shrink (by simp) List.nodup_nil) (holds_setSocket net _ _) fun _ hlive => hlive
  | change hs _ _ hhandle =>
    rw [HandlesOwned, holds_setSocket, hhandle, ← holds_socket hs, Function.update_eq_self]
    exact h
  | connecting _ hs _ _ =>
    rw [HandlesOwned, holds_setSocket, ← holds_socket hs, Function.update_eq_self]
    exact h
  | @attach id s s' handle socket hs _ _ hnone hdead hhandle =>
    have hgain : s'.handle.toList.Perm (handle :: net.holds (.socket id)) := by
      rw [hhandle, holds_socket hs, hnone]
      rfl
    exact handlesOwned_of
      ((h.with_fresh handle).gain (.inl rfl) (fun _ hmem => hdead (h.live_of_mem hmem)) hgain)
      (holds_setSocket net id s') fun _ => live_setSocket.mpr
  | @listen id port s s' entry hs hhandle _ _ hfree hempty =>
    have hport : net.holds (.port port) = entry.synQueue := by
      rw [hempty]
      simp [Net.holds, hfree]
    refine handlesOwned_of h ?_ fun _ hlive => hlive
    rw [holds_setSocket_setEntry, hhandle, ← holds_socket hs]
    simp only [Option.elim_some, ← hport, Function.update_eq_self]
  | @unlisten id port s s' entry sockets hs hhandle _ _ hentry hsockets =>
    refine handlesOwned_of (h.destroy (.port port)) ?_ ?_
    . refine (holds_setSocket_setEntry net id s' port none).trans ?_
      have hsame : s'.handle.toList = Function.update net.holds (.port port) [] (.socket id) := by
        rw [hhandle, ← holds_socket hs, Function.update_of_ne (by simp)]
      rw [Option.elim_none, hsame, Function.update_eq_self]
    . intro handle hlive
      rw [holds_port hentry] at hlive
      exact (hsockets handle).mpr hlive
  | @accept port entry synQueue handle id s hentry hqueue hnew hhandle _ =>
    rw [← holds_port hentry] at hqueue
    have hgain : s.handle.toList.Perm (handle :: net.holds (.socket id)) := by
      simp [hhandle, Net.holds, hnew]
    exact handlesOwned_of (h.move (by simp) hqueue hgain) (holds_setSocket_setEntry net id s port _)
      fun _ hlive => hlive
  | @drop id s sockets hs _ hsockets =>
    refine handlesOwned_of (h.destroy (.socket id)) (holds_removeSocket net id) ?_
    intro handle hlive
    rw [holds_socket hs] at hlive
    exact (hsockets handle).mpr hlive

theorem StreamsHaveHandles.setSocket (h : net.StreamsHaveHandles) (hs : s.Streams → s.handle ≠ none)
    (hsockets : net'.sockets = Function.update net.sockets id (some s))
    : net'.StreamsHaveHandles := by
  intro i s' hs' hstreams
  rw [hsockets] at hs'
  by_cases hi : i = id
  . rw [hi, Function.update_self, Option.some.injEq] at hs'
    exact hs' ▸ hs (hs' ▸ hstreams)
  . rw [Function.update_of_ne hi] at hs'
    exact h i s' hs' hstreams

theorem SmallStep.streamsHaveHandles (h : net.StreamsHaveHandles) (hstep : SmallStep dials net net')
    : net'.StreamsHaveHandles := by
  cases hstep with
  | cursor hcurr => exact h
  | mark hs hbusy => exact h
  | process socket hlive => exact h
  | add socket hdead => exact h
  | enqueue socket hentry hdead => exact h
  | create hs =>
    refine h.setSocket (fun hstreams => absurd hstreams ?_) rfl
    simp [TcpSocket.Streams, TcpSocket.new]
  | change hs _ hstreams hhandle =>
    exact h.setSocket (fun hs' => hhandle ▸ h _ _ hs (hstreams hs').1) rfl
  | attach socket hs _ _ _ _ hhandle => exact h.setSocket (fun _ => by simp [hhandle]) rfl
  | connecting _ hs _ hhandle => exact h.setSocket (fun _ => by exact hhandle) rfl
  | listen hs _ _ hlistens _ _ =>
    exact h.setSocket (fun hstreams => absurd hstreams (by simp [TcpSocket.Streams, hlistens.1])) rfl
  | unlisten hs _ _ hbusy' _ _ =>
    exact h.setSocket (fun hstreams => absurd hstreams (by simp [TcpSocket.Streams, hbusy'])) rfl
  | accept _ _ _ hhandle _ => exact h.setSocket (fun _ => by simp [hhandle]) rfl
  | @drop id s sockets hs _ _ =>
    intro i s' hs' hstreams
    by_cases hi : i = id
    . simp [hi] at hs'
    . simp only [Function.update_of_ne hi] at hs'
      exact h i s' hs' hstreams

theorem listensOn_of (hsockets : net'.sockets = Function.update net.sockets id (some s)) (i : Nat)
    (port : UInt16)
    : net'.ListensOn i port ↔ i = id ∧ s.ListensOn port ∨ i ≠ id ∧ net.ListensOn i port := by
  unfold ListensOn
  rw [hsockets]
  by_cases hi : i = id
  . simp [hi]
  . simp [hi]

theorem listensOn_socket (hs : net.sockets id = some s) (port : UInt16)
    : net.ListensOn id port ↔ s.ListensOn port := by
  simp [ListensOn, hs]

theorem ListenersAgree.of_iff (h : net.ListenersAgree)
    (htable : ∀ port, (net'.listenTable port).isSome = (net.listenTable port).isSome)
    (hlistens : ∀ i port, net'.ListensOn i port ↔ net.ListensOn i port)
    : net'.ListenersAgree := by
  constructor
  . intro port
    rw [htable, h.isSome_iff]
    simp only [hlistens]
  . intro port i i' hi hi'
    exact h.unique ((hlistens i port).mp hi) ((hlistens i' port).mp hi')

theorem isSome_update {port : UInt16} {entry : ListenTableEntry} {table : ListenTable}
    (hentry : (table port).isSome = true) (p : UInt16)
    : (Function.update table port (some entry) p).isSome = (table p).isSome := by
  by_cases hp : p = port
  . simp [hp, hentry]
  . simp [hp]

theorem listensOn_setSocket {s' : TcpSocket} (hs : net.sockets id = some s)
    (hsockets : net'.sockets = Function.update net.sockets id (some s'))
    (hlistens : ∀ port, s'.ListensOn port ↔ s.ListensOn port) (i : Nat) (port : UInt16)
    : net'.ListensOn i port ↔ net.ListensOn i port := by
  rw [listensOn_of hsockets]
  by_cases hi : i = id
  . simp [hi, hlistens, listensOn_socket hs]
  . simp [hi]

theorem listensOn_new (hs : net.sockets id = none)
    (hsockets : net'.sockets = Function.update net.sockets id (some s)) (hstate : s.state ≠ .listening)
    (i : Nat) (port : UInt16)
    : net'.ListensOn i port ↔ net.ListensOn i port := by
  rw [listensOn_of hsockets]
  by_cases hi : i = id
  . simp [hi, ListensOn, hs, TcpSocket.ListensOn, hstate]
  . simp [hi]

theorem ListensOn.port_eq {port port' : UInt16} (h : net.ListensOn id port) (h' : net.ListensOn id port')
    : port = port' := by
  obtain ⟨s, hs, hlistens⟩ := h
  rw [listensOn_socket hs] at h'
  exact hlistens.2.symm.trans h'.2

theorem ListenersAgree.insert (h : net.ListenersAgree) (id : Nat) {port : UInt16}
    (hfree : net.listenTable port = none)
    (htable : ∀ p, (net'.listenTable p).isSome = true ↔ p = port ∨ (net.listenTable p).isSome = true)
    (hlistens : ∀ i p, net'.ListensOn i p ↔ i = id ∧ p = port ∨ net.ListensOn i p)
    : net'.ListenersAgree := by
  have hnobody (i : Nat) : ¬ net.ListensOn i port := by
    intro hi
    have := (h.isSome_iff port).mpr ⟨i, hi⟩
    simp [hfree] at this
  constructor
  . intro p
    simp only [htable, hlistens, h.isSome_iff]
    constructor
    . rintro (rfl | ⟨i, hi⟩)
      . exact ⟨id, .inl ⟨rfl, rfl⟩⟩
      . exact ⟨i, .inr hi⟩
    . rintro ⟨i, ⟨_, rfl⟩ | hi⟩
      . exact .inl rfl
      . exact .inr ⟨i, hi⟩
  . intro p i i' hi hi'
    rcases (hlistens i p).mp hi with ⟨rfl, rfl⟩ | hi
    . rcases (hlistens i' p).mp hi' with ⟨rfl, _⟩ | hi'
      . rfl
      . exact absurd hi' (hnobody i')
    . rcases (hlistens i' p).mp hi' with ⟨rfl, rfl⟩ | hi'
      . exact absurd hi (hnobody i)
      . exact h.unique hi hi'

theorem ListenersAgree.erase (h : net.ListenersAgree) {port : UInt16} (hid : net.ListensOn id port)
    (htable : ∀ p, (net'.listenTable p).isSome = true ↔ p ≠ port ∧ (net.listenTable p).isSome = true)
    (hlistens : ∀ i p, net'.ListensOn i p ↔ i ≠ id ∧ net.ListensOn i p)
    : net'.ListenersAgree := by
  constructor
  . intro p
    simp only [htable, hlistens, h.isSome_iff]
    constructor
    . rintro ⟨hp, i, hi⟩
      refine ⟨i, ?_, hi⟩
      rintro rfl
      exact hp (hi.port_eq hid)
    . rintro ⟨i, hne, hi⟩
      refine ⟨?_, i, hi⟩
      rintro rfl
      exact hne (h.unique hi hid)
  . intro p i i' hi hi'
    exact h.unique ((hlistens i p).mp hi).2 ((hlistens i' p).mp hi').2

theorem SmallStep.listenersAgree (h : net.ListenersAgree) (hstep : SmallStep dials net net')
    : net'.ListenersAgree := by
  cases hstep with
  | cursor hcurr => exact h.of_iff (fun _ => rfl) (fun _ _ => Iff.rfl)
  | mark hs hbusy => exact h.of_iff (fun _ => rfl) (fun _ _ => Iff.rfl)
  | process socket hlive => exact h.of_iff (fun _ => rfl) (fun _ _ => Iff.rfl)
  | add socket hdead => exact h.of_iff (fun _ => rfl) (fun _ _ => Iff.rfl)
  | enqueue socket hentry hdead =>
    exact h.of_iff (isSome_update (by simp [hentry])) (fun _ _ => Iff.rfl)
  | create hs => exact h.of_iff (fun _ => rfl) (listensOn_new hs rfl (by simp [TcpSocket.new]))
  | change hs hlistens _ _ => exact h.of_iff (fun _ => rfl) (listensOn_setSocket hs rfl hlistens)
  | attach socket hs hbusy hbusy' _ _ _ =>
    refine h.of_iff (fun _ => rfl) (listensOn_setSocket hs rfl fun port => ?_)
    simp [TcpSocket.ListensOn, hbusy, hbusy']
  | connecting _ hs hbusy _ =>
    refine h.of_iff (fun _ => rfl) (listensOn_setSocket hs rfl fun port => ?_)
    simp [TcpSocket.ListensOn, hbusy]
  | accept hentry _ hnew _ hstate =>
    exact h.of_iff (isSome_update (by simp [hentry])) (listensOn_new hnew rfl (by simp [hstate]))
  | @listen id port s s' entry hs _ hidle hlistens hfree _ =>
    apply h.insert id hfree
    . intro p
      by_cases hp : p = port
      . simp [hp]
      . simp [hp]
    . intro i p
      rw [listensOn_of rfl]
      by_cases hi : i = id
      . subst hi
        simp only [true_and, listensOn_socket hs, hidle, or_false, ne_eq, not_true_eq_false, false_and]
        exact ⟨fun h => h.2.symm.trans hlistens.2, fun h => h ▸ hlistens⟩
      . simp [hi]
  | @unlisten id port s s' entry sockets hs _ hlistens hbusy' _ _ =>
    apply h.erase ((listensOn_socket hs port).mpr hlistens)
    . intro p
      by_cases hp : p = port
      . simp [hp]
      . simp [hp]
    . intro i p
      rw [listensOn_of rfl]
      simp [TcpSocket.ListensOn, hbusy']
  | @drop id s sockets hs hidle _ =>
    refine h.of_iff (fun _ => rfl) ?_
    intro i p
    by_cases hi : i = id
    . subst hi
      rw [listensOn_socket hs]
      simp [ListensOn, hidle]
    . simp [ListensOn, hi]

theorem Opened.cases {endpoints : IpEndpoint × IpEndpoint} {i : Nat} (h : net'.Opened i endpoints)
    (hsockets : net'.sockets = Function.update net.sockets id (some s))
    (hopened : net'.opened = net.opened)
    : i = id ∧ net.opened id = true ∧ s.Streams ∧ (s.localAddr, s.peerAddr) = endpoints ∨
        i ≠ id ∧ net.Opened i endpoints := by
  obtain ⟨hi, s', hs', hstreams, hends⟩ := h
  rw [hopened] at hi
  rw [hsockets] at hs'
  by_cases hid : i = id
  . subst hid
    rw [Function.update_self, Option.some.injEq] at hs'
    subst hs'
    exact .inl ⟨rfl, hi, hstreams, hends⟩
  . rw [Function.update_of_ne hid] at hs'
    exact .inr ⟨hid, hi, s', hs', hstreams, hends⟩

theorem Opened.of_setSocket {endpoints : IpEndpoint × IpEndpoint} {i : Nat} (h : net'.Opened i endpoints)
    (hsockets : net'.sockets = Function.update net.sockets id (some s))
    (hopened : net'.opened = net.opened) (hstreams : ¬ s.Streams)
    : net.Opened i endpoints := by
  rcases h.cases hsockets hopened with ⟨_, _, hs, _⟩ | ⟨_, hi⟩
  . exact absurd hs hstreams
  . exact hi

theorem SmallStep.opened_of (hstep : SmallStep False net net') {i : Nat}
    {endpoints : IpEndpoint × IpEndpoint} (h : net'.Opened i endpoints)
    : net.Opened i endpoints := by
  cases hstep with
  | cursor hcurr => exact h
  | process socket hlive => exact h
  | add socket hdead => exact h
  | enqueue socket hentry hdead => exact h
  | connecting hdials => exact absurd hdials not_false
  | create hs => exact h.of_setSocket rfl rfl (by simp [TcpSocket.Streams, TcpSocket.new])
  | change hs _ hstreams _ =>
    rcases h.cases rfl rfl with ⟨rfl, hopened, hs', hends⟩ | ⟨_, hi⟩
    . obtain ⟨hstreams, hlocal, hpeer⟩ := hstreams hs'
      exact ⟨hopened, _, hs, hstreams, by rw [← hends, hlocal, hpeer]⟩
    . exact hi
  | attach socket hs _ hbusy' _ _ _ =>
    exact h.of_setSocket rfl rfl (by simp [TcpSocket.Streams, hbusy'])
  | @mark id s hs hbusy =>
    obtain ⟨hopened, s', hs', hstreams, hends⟩ := h
    by_cases hi : i = id
    . subst hi
      rw [hs, Option.some.injEq] at hs'
      subst hs'
      simp [TcpSocket.Streams, hbusy] at hstreams
    . simp only [Function.update_of_ne hi] at hopened
      exact ⟨hopened, s', hs', hstreams, hends⟩
  | listen hs _ _ hlistens _ _ =>
    exact h.of_setSocket rfl rfl (by simp [TcpSocket.Streams, hlistens.1])
  | unlisten hs _ _ hbusy' _ _ =>
    exact h.of_setSocket rfl rfl (by simp [TcpSocket.Streams, hbusy'])
  | @accept port entry synQueue handle id s hentry _ hnew _ _ =>
    obtain ⟨hopened, s', hs', hstreams, hends⟩ := h
    by_cases hi : i = id
    . simp [hi] at hopened
    . simp only [Function.update_of_ne hi] at hopened
      simp only [setSocket, Function.update_of_ne hi] at hs'
      exact ⟨hopened, s', hs', hstreams, hends⟩
  | @drop id s sockets hs _ _ =>
    obtain ⟨hopened, s', hs', hstreams, hends⟩ := h
    by_cases hi : i = id
    . simp [hi] at hs'
    . simp only [Function.update_of_ne hi] at hs'
      exact ⟨hopened, s', hs', hstreams, hends⟩

theorem Steps.opened_of (hsteps : Steps False net net') {i : Nat} {endpoints : IpEndpoint × IpEndpoint}
    (h : net'.Opened i endpoints)
    : net.Opened i endpoints := by
  induction hsteps with
  | refl => exact h
  | tail _ hstep ih => exact ih (hstep.opened_of h)

structure Inv (net : Net) : Prop where
  cursor : portStart ≤ net.curr
  handlesOwned : net.HandlesOwned
  streamsHaveHandles : net.StreamsHaveHandles
  listenersAgree : net.ListenersAgree

theorem SmallStep.portStart_le (h : portStart ≤ net.curr) (hstep : SmallStep dials net net')
    : portStart ≤ net'.curr := by
  cases hstep with
  | cursor hcurr => exact hcurr
  | _ => exact h

theorem SmallStep.inv (h : net.Inv) (hstep : SmallStep dials net net') : net'.Inv :=
  ⟨hstep.portStart_le h.cursor, hstep.handlesOwned h.handlesOwned,
    hstep.streamsHaveHandles h.streamsHaveHandles, hstep.listenersAgree h.listenersAgree⟩

theorem Steps.inv (h : net.Inv) (hsteps : Steps dials net net') : net'.Inv := by
  induction hsteps with
  | refl => exact h
  | tail _ hstep ih => exact hstep.inv ih

theorem inv_init : init.Inv := by
  refine ⟨by decide, ⟨?_, ?_, ?_⟩, ?_, ⟨?_, ?_⟩⟩
  . intro owner handle hmem
    cases owner <;> simp [Net.holds, init, ListenTable.new] at hmem
  . intro owner
    cases owner <;> simp [Net.holds, init, ListenTable.new]
  . intro owner _ handle hmem
    cases owner <;> simp [Net.holds, init, ListenTable.new] at hmem
  . intro id s hs
    simp [init] at hs
  . intro port
    simp [init, ListenTable.new, ListensOn]
  . intro port id id' h
    simp [init, ListensOn] at h

end

end Net

end Jrinx
