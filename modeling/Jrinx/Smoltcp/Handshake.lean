import Jrinx.Smoltcp.ConnectLeak

/-!
This module contains what `poll_connect` of `smoltcp_impl/tcp.rs` makes of a handshake that has been
completed since the last poll. What the protocol does with a segment is a parameter, and so is what it
says about the received data.
-/

namespace Jrinx

theorem SocketSet.get_eq_ok {sockets : SocketSet} {handle : SocketHandle} {socket : Socket}
    (h : sockets handle = some socket)
    : sockets.get handle = .ok socket := by
  unfold SocketSet.get
  rw [h]
  rfl

section Segments

variable {σ : Type} (process : Socket → σ → Socket)

/--
What the protocol does with the segments of a peer, as long as nobody closes the socket on this side. A
segment may end the stream of the peer (`fin`) or reset the connection (`rst`), all others only bring the
handshake forward.
-/
structure SegmentRules (fin rst : Socket → σ → Prop) : Prop where
  tuple_eq : ∀ socket seg, ¬rst socket seg → (process socket seg).tuple = socket.tuple
  synSent : ∀ socket seg, ¬rst socket seg → ¬fin socket seg → socket.state = .synSent →
    (process socket seg).state = .synSent ∨ (process socket seg).state = .synReceived ∨
      (process socket seg).state = .established
  synReceived : ∀ socket seg, ¬rst socket seg → ¬fin socket seg → socket.state = .synReceived →
    (process socket seg).state = .synReceived ∨ (process socket seg).state = .established
  established : ∀ socket seg, ¬rst socket seg → ¬fin socket seg → socket.state = .established →
    (process socket seg).state = .established
  -- An end of the stream is not taken before the peer has sent its SYN, nor for a second time.
  fin_state : ∀ socket seg, fin socket seg → socket.state = .synReceived ∨ socket.state = .established
  fin : ∀ socket seg, ¬rst socket seg → fin socket seg → (process socket seg).state = .closeWait
  closeWait : ∀ socket seg, ¬rst socket seg → socket.state = .closeWait →
    (process socket seg).state = .closeWait

-- At some time one of the segments meets `p` in the state the socket is in then.
def Ever (p : Socket → σ → Prop) (socket : Socket) (segs : List σ) : Prop :=
  ∃ before seg after, segs = before ++ seg :: after ∧ p (before.foldl process socket) seg

-- At some time both sides have acknowledged the SYN of the other one.
def HandshakeDone (socket : Socket) (segs : List σ) : Prop :=
  ∃ before after, segs = before ++ after ∧
    ((before.foldl process socket).state = .established ∨
      (before.foldl process socket).state = .closeWait)

-- The polls of the interface process the segments for the socket `handle` among other events.
inductive Delivers (handle : SocketHandle) : Socket → List PollEvent → List σ → Prop where
  | nil (socket : Socket) : Delivers handle socket [] []
  | segment {socket : Socket} {events : List PollEvent} {segs : List σ} (seg : σ)
      (h : Delivers handle (process socket seg) events segs)
      : Delivers handle socket (.process handle (process socket seg) :: events) (seg :: segs)
  | packet {socket : Socket} {events : List PollEvent} {segs : List σ} (packet : TcpPacket)
      (listens : Bool) (fresh : SocketHandle) (h : Delivers handle socket events segs)
      : Delivers handle socket (.packet packet listens fresh :: events) segs
  | other {socket : Socket} {events : List PollEvent} {segs : List σ} {handle' : SocketHandle}
      (socket' : Socket) (hne : handle' ≠ handle) (h : Delivers handle socket events segs)
      : Delivers handle socket (.process handle' socket' :: events) segs

end Segments

section

variable {σ : Type} {process : Socket → σ → Socket} {fin rst : Socket → σ → Prop}

theorem ever_cons {p : Socket → σ → Prop} {socket : Socket} {seg : σ} {segs : List σ}
    : Ever process p socket (seg :: segs)
        ↔
      p socket seg ∨ Ever process p (process socket seg) segs := by
  constructor
  . rintro ⟨before, seg', after, heq, hp⟩
    cases before with
    | nil =>
      obtain ⟨rfl, rfl⟩ : seg = seg' ∧ segs = after := by simpa using heq
      exact .inl hp
    | cons first before =>
      obtain ⟨rfl, rfl⟩ : seg = first ∧ segs = before ++ seg' :: after := by simpa using heq
      exact .inr ⟨before, seg', after, rfl, hp⟩
  . rintro (hp | ⟨before, seg', after, rfl, hp⟩)
    . exact ⟨[], seg, segs, rfl, hp⟩
    . exact ⟨seg :: before, seg', after, rfl, hp⟩

theorem not_ever_nil {p : Socket → σ → Prop} {socket : Socket} : ¬Ever process p socket [] := by
  rintro ⟨before, seg, after, heq, -⟩
  simp at heq

theorem not_ever_cons {p : Socket → σ → Prop} {socket : Socket} {seg : σ} {segs : List σ}
    (h : ¬Ever process p socket (seg :: segs))
    : ¬p socket seg ∧ ¬Ever process p (process socket seg) segs := by
  rwa [ever_cons, not_or] at h

theorem not_ever_append {p : Socket → σ → Prop} {socket : Socket} {before after : List σ}
    (h : ¬Ever process p socket (before ++ after))
    : ¬Ever process p socket before ∧ ¬Ever process p (before.foldl process socket) after := by
  constructor
  . rintro ⟨before', seg, after', rfl, hp⟩
    exact h ⟨before', seg, after' ++ after, by simp, hp⟩
  . rintro ⟨before', seg, after', rfl, hp⟩
    exact h ⟨before ++ before', seg, after', by simp, by rwa [List.foldl_append]⟩

namespace SegmentRules

variable (rules : SegmentRules process fin rst) {socket : Socket} {segs : List σ}
include rules

theorem foldl_tuple (hrst : ¬Ever process rst socket segs)
    : (segs.foldl process socket).tuple = socket.tuple := by
  induction segs generalizing socket with
  | nil => rfl
  | cons seg segs ih =>
    obtain ⟨hfirst, hrest⟩ := not_ever_cons hrst
    exact (ih hrest).trans (rules.tuple_eq socket seg hfirst)

theorem foldl_closeWait (hrst : ¬Ever process rst socket segs) (hstate : socket.state = .closeWait)
    : (segs.foldl process socket).state = .closeWait ∧ ¬Ever process fin socket segs := by
  induction segs generalizing socket with
  | nil => exact ⟨hstate, not_ever_nil⟩
  | cons seg segs ih =>
    obtain ⟨hfirst, hrest⟩ := not_ever_cons hrst
    obtain ⟨hend, hnever⟩ := ih hrest (rules.closeWait socket seg hfirst hstate)
    refine ⟨hend, ?_⟩
    rw [ever_cons]
    rintro (hfin | hever)
    . have := rules.fin_state socket seg hfin
      simp [hstate] at this
    . exact hnever hever

theorem foldl_open (hrst : ¬Ever process rst socket segs)
    (hstate : socket.state = .synSent ∨ socket.state = .synReceived ∨ socket.state = .established)
    : Ever process fin socket segs ∧ (segs.foldl process socket).state = .closeWait
        ∨
      ¬Ever process fin socket segs ∧ (segs.foldl process socket).state ≠ .closeWait ∧
        (socket.state = .established → (segs.foldl process socket).state = .established) := by
  induction segs generalizing socket with
  | nil => exact .inr ⟨not_ever_nil, by rcases hstate with h | h | h <;> simp [h], id⟩
  | cons seg segs ih =>
    obtain ⟨hfirst, hrest⟩ := not_ever_cons hrst
    rw [ever_cons, List.foldl_cons]
    by_cases hfin : fin socket seg
    . have hend := rules.foldl_closeWait hrest (rules.fin socket seg hfirst hfin)
      exact .inl ⟨.inl hfin, hend.1⟩
    . have hnext : (process socket seg).state = .synSent ∨ (process socket seg).state = .synReceived ∨
          (process socket seg).state = .established := by
        rcases hstate with h | h | h
        . exact rules.synSent socket seg hfirst hfin h
        . exact .inr (rules.synReceived socket seg hfirst hfin h)
        . exact .inr (.inr (rules.established socket seg hfirst hfin h))
      rcases ih hrest hnext with ⟨hever, hend⟩ | ⟨hnever, hopen, hkept⟩
      . exact .inl ⟨.inr hever, hend⟩
      . refine .inr ⟨by simp [hfin, hnever], hopen, ?_⟩
        exact fun h => hkept (rules.established socket seg hfirst hfin h)

theorem foldl_done (hrst : ¬Ever process rst socket segs) (hstate : socket.state = .synSent)
    (hdone : HandshakeDone process socket segs)
    : Ever process fin socket segs ∧ (segs.foldl process socket).state = .closeWait
        ∨
      ¬Ever process fin socket segs ∧ (segs.foldl process socket).state = .established := by
  rcases rules.foldl_open hrst (.inl hstate) with hend | ⟨hnever, hopen, -⟩
  . exact .inl hend
  . obtain ⟨before, after, rfl, hmid⟩ := hdone
    obtain ⟨-, hafter⟩ := not_ever_append hrst
    rw [List.foldl_append] at hopen ⊢
    rcases hmid with hmid | hmid
    . rcases rules.foldl_open hafter (.inr (.inr hmid)) with ⟨-, hend⟩ | ⟨-, -, hkept⟩
      . exact absurd hend hopen
      . exact .inr ⟨hnever, hkept hmid⟩
    . exact absurd (rules.foldl_closeWait hafter hmid).1 hopen

end SegmentRules

end

structure RecvAnswer where
  active : Bool
  mayRecv : Bool
  queued : Nat
  deriving DecidableEq, Repr

namespace Net

-- The closure of `recv`, with the length of the buffer.
def recvRound (handle : SocketHandle) (len : Nat) (answer : Socket → RecvAnswer) (net : Net)
    : NetM (Except InternalError Nat × Net) := do
  let socket ← net.socketSet.get handle
  if !(answer socket).active then
    return (.error .netFail, net)
  else if !(answer socket).mayRecv then
    return (.ok 0, net)
  else if (answer socket).queued > 0 then
    return (.ok (min len (answer socket).queued), net)
  else
    return (.error .wouldBlock, net)

def recv (net : Net) (id : Nat) (rounds : List (List PollEvent)) (len : Nat)
    (answer : Socket → RecvAnswer)
    : NetM (Except InternalError Nat × Net) := do
  let s ← net.socket id
  if s.state = .connecting then
    return (.error .wouldBlock, net)
  else if s.state ≠ .connected then
    return (.error .netFail, net)
  else
    let handle ← NetM.unwrap s.handle .noHandle
    net.blockOn id rounds (recvRound handle len answer)

/--
The socket is connected with its addresses, and what has been received can be read.
-/
structure Reported (net : Net) (id : Nat) (s : TcpSocket) (handle : SocketHandle)
    (r : PollState × Net) : Prop where
  writable : r.1.writable = true
  connected : r.2 = net.setSocket id { s with state := .connected }
  readable : ∀ (len : Nat) (answer : Socket → RecvAnswer),
    (∀ socket, net.socketSet handle = some socket →
      (answer socket).active = true ∧ (answer socket).mayRecv = true ∧ 0 < (answer socket).queued) →
    ∃ n, r.2.recv id [[]] len answer = .ok (.ok n, r.2) ∧ (0 < len → 0 < n)

variable {net net' : Net} {id : Nat} {s : TcpSocket} {handle : SocketHandle} {socket : Socket}

theorem socket_eq_ok (hs : net.sockets id = some s) : net.socket id = .ok s := by
  unfold Net.socket
  rw [hs]
  rfl

theorem snoopTcpPacket_cases (table : ListenTable) (sockets : SocketSet) (packet : TcpPacket)
    (listens : Bool) (fresh : SocketHandle)
    : Ensures (table.snoopTcpPacket sockets packet listens fresh) (fun _ => True) fun r =>
        r = (table, sockets) ∨
          ∃ entry, table packet.dst.port = some entry ∧ ¬sockets.live fresh ∧
            r =
              (Function.update table packet.dst.port
                  (some { entry with synQueue := entry.synQueue ++ [fresh] }),
                sockets.setSocket fresh { state := .listen, tuple := none }) := by
  unfold ListenTable.snoopTcpPacket ListenTable.incomingTcpPacket
  dsimp only
  split
  . split
    . next entry hentry =>
      split
      . exact .pure (.inl rfl)
      split
      . exact .pure (.inl rfl)
      split
      . apply ((SocketSet.ensures_add _).mono_halt fun _ _ => trivial).bind
        rintro sockets ⟨hdead, rfl⟩
        exact .pure (.inr ⟨entry, hentry, hdead, rfl⟩)
      . exact .pure (.inl rfl)
    . exact .pure (.inl rfl)
  . exact .pure (.inl rfl)

theorem ensures_packet (hsocket : net.socketSet handle = some socket) (packet : TcpPacket)
    (listens : Bool) (fresh : SocketHandle)
    : Ensures (net.pollEvent (.packet packet listens fresh)) (fun _ => True) fun net' =>
        net'.socketSet handle = some socket ∧ net'.sockets = net.sockets := by
  refine (snoopTcpPacket_cases net.listenTable net.socketSet packet listens fresh).bind fun r hr => ?_
  apply Ensures.pure
  rcases hr with rfl | ⟨entry, -, hdead, rfl⟩
  . exact ⟨hsocket, rfl⟩
  . have hne : handle ≠ fresh := by
      rintro rfl
      simp [SocketSet.live, hsocket] at hdead
    exact ⟨by simp [SocketSet.setSocket, hne, hsocket], rfl⟩

theorem ensures_process (hlive : (net.socketSet handle).isSome = true) (socket' : Socket)
    : Ensures (net.pollEvent (.process handle socket')) (fun _ => True) fun net' =>
        net'.socketSet = net.socketSet.setSocket handle socket' ∧ net'.sockets = net.sockets := by
  simp only [pollEvent, hlive, if_true]
  exact .pure ⟨rfl, rfl⟩

theorem ensures_delivers {σ : Type} {process : Socket → σ → Socket} {events : List PollEvent}
    {segs : List σ} (h : Delivers process handle socket events segs)
    (hsocket : net.socketSet handle = some socket)
    : Ensures (net.pollInterfaces events) (fun _ => True) fun net' =>
        net'.socketSet handle = some (segs.foldl process socket) ∧ net'.sockets = net.sockets := by
  unfold pollInterfaces
  induction h generalizing net with
  | nil => exact .pure ⟨hsocket, rfl⟩
  | @segment socket _ _ seg _ ih =>
    rw [List.foldlM_cons]
    apply (ensures_process (by rw [hsocket]; rfl) (process socket seg)).bind
    rintro net₁ ⟨hset, hsockets⟩
    rw [← hsockets]
    exact ih (by simp [hset, SocketSet.setSocket])
  | packet packet listens fresh _ ih =>
    rw [List.foldlM_cons]
    apply (ensures_packet hsocket packet listens fresh).bind
    rintro net₁ ⟨hsame, hsockets⟩
    rw [← hsockets]
    exact ih hsame
  | @other _ _ _ handle' socket' hne _ ih =>
    rw [List.foldlM_cons]
    by_cases hlive : (net.socketSet handle').isSome = true
    . apply (ensures_process hlive socket').bind
      rintro net₁ ⟨hset, hsockets⟩
      rw [← hsockets]
      exact ih (by simp [hset, SocketSet.setSocket, hne.symm, hsocket])
    . simp only [pollEvent, hlive]
      exact trivial

section

variable (hs : net.sockets id = some s) (hhandle : s.handle = some handle)
  (hsocket : net.socketSet handle = some socket)
include hs hhandle hsocket

theorem pollConnect_established (hstate : socket.state = .established) (htuple : socket.tuple ≠ none)
    : net.pollConnect id = .ok (⟨false, true⟩, net.setSocket id { s with state := .connected }) := by
  obtain ⟨tuple, htuple⟩ := Option.ne_none_iff_exists'.mp htuple
  have hunwrap : NetM.unwrap s.handle .noHandle = .ok handle := by rw [hhandle]; rfl
  simp only [pollConnect, socket_eq_ok hs, NetM.ok_bind, hunwrap, SocketSet.get_eq_ok hsocket, hstate, htuple]
  rfl

theorem pollConnect_closeWait (hstate : socket.state = .closeWait)
    : net.pollConnect id = .ok (⟨false, true⟩, net.setSocket id
        { s with localAddr := .unspecified, peerAddr := .unspecified, state := .closed }) := by
  have hunwrap : NetM.unwrap s.handle .noHandle = .ok handle := by rw [hhandle]; rfl
  simp only [pollConnect, socket_eq_ok hs, NetM.ok_bind, hunwrap, SocketSet.get_eq_ok hsocket, hstate]
  rfl

end

theorem recvRound_queued (hsocket : net.socketSet handle = some socket) {answer : Socket → RecvAnswer}
    (hactive : (answer socket).active = true) (hmay : (answer socket).mayRecv = true)
    (hqueued : 0 < (answer socket).queued) (len : Nat)
    : recvRound handle len answer net = .ok (.ok (min len (answer socket).queued), net) := by
  simp only [recvRound, SocketSet.get_eq_ok hsocket, NetM.ok_bind, hactive, hmay, hqueued]
  rfl

theorem reported_of_connected (hhandle : s.handle = some handle)
    (hlive : (net.socketSet handle).isSome = true)
    : Reported net id s handle (⟨false, true⟩, net.setSocket id { s with state := .connected }) := by
  refine ⟨rfl, rfl, ?_⟩
  intro len answer hanswer
  obtain ⟨socket, hsocket⟩ := Option.isSome_iff_exists.mp hlive
  obtain ⟨hactive, hmay, hqueued⟩ := hanswer socket hsocket
  have hset : (net.setSocket id { s with state := .connected }).socketSet handle = some socket := hsocket
  have hround := recvRound_queued hset hactive hmay hqueued len
  refine ⟨min len (answer socket).queued, ?_, by omega⟩
  have hfirst := socket_eq_ok (setSocket_sockets net id { s with state := .connected })
  have hunwrap : NetM.unwrap s.handle .noHandle = .ok handle := by rw [hhandle]; rfl
  simp only [recv, blockOn, hfirst, NetM.ok_bind, hunwrap, reduceCtorEq, ne_eq, not_true_eq_false,
    if_false]
  split
  . exact hround
  . simp only [blockLoop, pollInterfaces, List.foldlM_nil, pure_bind, hround, NetM.ok_bind]
    rfl

-- A connection that has been started, `answer` is what the protocol did.
structure Started (net : Net) (id : Nat) (answer : ConnectAnswer) (s : TcpSocket)
    (handle : SocketHandle) (socket : Socket) : Prop where
  sockets_eq : net.sockets id = some s
  connecting : s.state = .connecting
  handle_eq : s.handle = some handle
  socketSet_eq : net.socketSet handle = some socket
  answered : ∃ socket₀ remote bound, answer socket₀ remote bound = .ok socket
  tuple_eq : socket.tuple = some (s.localAddr, s.peerAddr)

theorem connectHandle_ok {remoteAddr : SocketAddr} {answer : ConnectAnswer}
    (h : net.connectHandle id remoteAddr answer s handle = .ok (.ok (), net'))
    : ∃ s' socket, net'.sockets id = some s' ∧ s'.handle = some handle ∧
        net'.socketSet handle = some socket ∧ socket.tuple = some (s'.localAddr, s'.peerAddr) ∧
        ∃ socket₀ remote bound, answer socket₀ remote bound = .ok socket := by
  unfold connectHandle at h
  simp only [Except.bind_eq_ok_iff] at h
  obtain ⟨remote, -, ⟨res, net₁⟩, -, h⟩ := h
  cases res with
  | error e => simp only [Except.pure_eq_ok_iff, Prod.mk.injEq, reduceCtorEq, false_and] at h
  | ok bound =>
    simp only [Except.bind_eq_ok_iff] at h
    obtain ⟨socket₀, -, h⟩ := h
    split at h
    . simp only [Except.pure_eq_ok_iff, Prod.mk.injEq, reduceCtorEq, false_and] at h
    . next socket hanswer =>
      simp only [Except.bind_eq_ok_iff] at h
      obtain ⟨⟨localAddr, peerAddr⟩, htuple, h⟩ := h
      simp only [Except.pure_eq_ok_iff, Prod.mk.injEq, true_and] at h
      subst h
      refine ⟨_, socket, setSocket_sockets _ id _, rfl, ?_, ?_, socket₀, remote, bound, hanswer⟩
      . exact Function.update_self _ _ _
      . exact NetM.unwrap_eq_ok htuple

theorem started_of_connectStart {remoteAddr : SocketAddr} {fresh : SocketHandle} {answer : ConnectAnswer}
    (h : net.connectStart id remoteAddr fresh answer = .ok (.ok (.ok ()), net'))
    : ∃ s handle socket, Started net' id answer s handle socket := by
  obtain ⟨s₀, net₁, s₁, -, -, hcall, hs₁, rfl⟩ := updateState_eq_ok h
  have hdone : ∃ (handle : SocketHandle) (net₂ : Net),
      net₂.connectHandle id remoteAddr answer { s₀ with state := .busy } handle = .ok (.ok (), net₁) := by
    unfold connectSocket at hcall
    split at hcall
    . exact ⟨_, _, hcall⟩
    . rw [Except.bind_eq_ok_iff] at hcall
      obtain ⟨socketSet, -, hcall⟩ := hcall
      exact ⟨_, _, hcall⟩
  obtain ⟨handle, net₂, hdone⟩ := hdone
  obtain ⟨s', socket, hs', hhandle, hsocket, htuple, hanswer⟩ := connectHandle_ok hdone
  rw [hs₁, Option.some.injEq] at hs'
  subst hs'
  exact ⟨_, handle, socket, setSocket_sockets _ id _, rfl, hhandle, hsocket, hanswer, htuple⟩

/--
The next `poll_connect` after a completed handshake reports the connection if and only if the peer has
not ended its stream in the meantime.
-/
theorem pollConnect_reported_iff {σ : Type} {process : Socket → σ → Socket} {fin rst : Socket → σ → Prop}
    {remoteAddr : SocketAddr} {fresh : SocketHandle} {answer : ConnectAnswer} {events : List PollEvent}
    {segs : List σ} {net₁ net₂ : Net} (rules : SegmentRules process fin rst)
    (hsyn : ∀ socket remote bound socket', answer socket remote bound = .ok socket' →
      socket'.state = .synSent)
    (hstart : net.connectStart id remoteAddr fresh answer = .ok (.ok (.ok ()), net₁))
    (hs : net₁.sockets id = some s) (hhandle : s.handle = some handle)
    (hsocket : net₁.socketSet handle = some socket)
    (hdelivers : Delivers process handle socket events segs)
    (hpoll : net₁.pollInterfaces events = .ok net₂)
    (hdone : HandshakeDone process socket segs) (hrst : ¬Ever process rst socket segs)
    : ∃ r, net₂.pollConnect id = .ok r ∧
        (Reported net₂ id s handle r ↔ ¬Ever process fin socket segs) := by
  obtain ⟨s', handle', socket', hstarted⟩ := started_of_connectStart hstart
  obtain rfl : s = s' := by simpa [hs] using hstarted.sockets_eq
  obtain rfl : handle = handle' := by simpa [hhandle] using hstarted.handle_eq
  obtain rfl : socket = socket' := by simpa [hsocket] using hstarted.socketSet_eq
  obtain ⟨socket₀, remote, bound, hanswer⟩ := hstarted.answered
  obtain ⟨hset, hsockets⟩ := (ensures_delivers hdelivers hsocket).ok hpoll
  have hs₂ : net₂.sockets id = some s := hsockets ▸ hs
  rcases rules.foldl_done hrst (hsyn _ _ _ _ hanswer) hdone with ⟨hfin, hstate⟩ | ⟨hfin, hstate⟩
  . refine ⟨_, pollConnect_closeWait hs₂ hhandle hset hstate, ?_⟩
    constructor
    . intro hreported
      have hconnected := congrArg (fun net => net.sockets id) hreported.connected
      simp [setSocket] at hconnected
    . exact fun hnever => absurd hfin hnever
  . have htuple : (segs.foldl process socket).tuple ≠ none := by
      rw [rules.foldl_tuple hrst, hstarted.tuple_eq]
      simp
    refine ⟨_, pollConnect_established hs₂ hhandle hset hstate htuple, ?_⟩
    exact ⟨fun _ => hfin, fun _ => reported_of_connected hhandle (by rw [hset]; rfl)⟩

inductive PeerSegment where
  | synAck
  | data
  | fin
  | rst
  deriving DecidableEq, Repr

def processPeer (socket : Socket) (seg : PeerSegment) : Socket :=
  match seg with
  | .synAck => if socket.state = .synSent then { socket with state := .established } else socket
  | .data => socket
  | .fin => if socket.state = .established then { socket with state := .closeWait } else socket
  | .rst => ⟨.closed, none⟩

theorem segmentRules_processPeer
    : SegmentRules processPeer (fun socket seg => seg = .fin ∧ socket.state = .established)
        (fun _ seg => seg = .rst) := by
  constructor
  all_goals
    intro socket seg
    cases seg <;> simp [processPeer] <;> grind

def answerPeer : ConnectAnswer := fun _ remote bound =>
  .ok ⟨.synSent, some (⟨⟨2⟩, bound.port⟩, remote)⟩

theorem mem_of_ever {σ : Type} {process : Socket → σ → Socket} {segs : List σ} {seg : σ}
    (h : Ever process (fun _ seg' => seg' = seg) socket segs)
    : seg ∈ segs := by
  obtain ⟨before, seg', after, rfl, rfl⟩ := h
  simp

def synSentPeer : Socket := ⟨.synSent, some (⟨⟨2⟩, 0xc000⟩, ⟨⟨1⟩, 80⟩)⟩

def startedPeer : TcpSocket where
  state := .connecting
  handle := some 7
  localAddr := ⟨⟨2⟩, 0xc000⟩
  peerAddr := ⟨⟨1⟩, 80⟩
  nonblock := false

def eventsPeer (socket : Socket) (segs : List PeerSegment) : List PollEvent :=
  match segs with
  | [] => []
  | seg :: segs => .process 7 (processPeer socket seg) :: eventsPeer (processPeer socket seg) segs

theorem delivers_eventsPeer (socket : Socket) (segs : List PeerSegment)
    : Delivers processPeer 7 socket (eventsPeer socket segs) segs := by
  induction segs generalizing socket with
  | nil => exact .nil socket
  | cons seg segs ih => exact .segment seg (ih _)

theorem pollConnect_reported_data
    : ∃ net₁ net₂ r, (init.setSocket 0 .new).connectStart 0 ⟨.v4 1, 80⟩ 7 answerPeer =
          .ok (.ok (.ok ()), net₁) ∧
        net₁.pollInterfaces (eventsPeer synSentPeer [.synAck, .data]) = .ok net₂ ∧
        net₂.pollConnect 0 = .ok r ∧ Reported net₂ 0 startedPeer 7 r := by
  have hsyn : ∀ socket remote bound socket', answerPeer socket remote bound = .ok socket' →
      socket'.state = .synSent := by
    rintro socket remote bound socket' ⟨⟩
    rfl
  have hdone : HandshakeDone processPeer synSentPeer [.synAck, .data] :=
    ⟨[.synAck], [.data], rfl, .inl rfl⟩
  have hrst : ¬Ever processPeer (fun _ seg => seg = .rst) synSentPeer [.synAck, .data] :=
    fun h => absurd (mem_of_ever h) (by decide)
  have hfin : ¬Ever processPeer (fun socket seg => seg = .fin ∧ socket.state = .established) synSentPeer
      [.synAck, .data] := by
    rintro ⟨before, seg, after, heq, rfl, -⟩
    have hmem : PeerSegment.fin ∈ [PeerSegment.synAck, .data] := heq ▸ by simp
    exact absurd hmem (by decide)
  obtain ⟨net₁, hstart, hs, hsocket, net₂, hpoll⟩ : ∃ net₁,
      (init.setSocket 0 .new).connectStart 0 ⟨.v4 1, 80⟩ 7 answerPeer = .ok (.ok (.ok ()), net₁) ∧
        net₁.sockets 0 = some startedPeer ∧ net₁.socketSet 7 = some synSentPeer ∧
        ∃ net₂, net₁.pollInterfaces (eventsPeer synSentPeer [.synAck, .data]) = .ok net₂ :=
    ⟨_, rfl, rfl, rfl, _, rfl⟩
  obtain ⟨r, hcall, hreported⟩ := pollConnect_reported_iff segmentRules_processPeer hsyn hstart hs rfl
    hsocket (delivers_eventsPeer synSentPeer _) hpoll hdone hrst
  exact ⟨net₁, net₂, r, hstart, hpoll, hcall, hreported.mpr hfin⟩

-- The peer ends its stream right after the handshake.
theorem not_reported_fin
    : ∃ net₁ net₂ r, (init.setSocket 0 .new).connectStart 0 ⟨.v4 1, 80⟩ 7 answerPeer =
          .ok (.ok (.ok ()), net₁) ∧
        net₁.pollInterfaces (eventsPeer synSentPeer [.synAck, .data, .fin]) = .ok net₂ ∧
        HandshakeDone processPeer synSentPeer [.synAck, .data, .fin] ∧
        ¬Ever processPeer (fun _ seg => seg = .rst) synSentPeer [.synAck, .data, .fin] ∧
        net₂.pollConnect 0 = .ok r ∧
        (r.2.sockets 0).map (·.state) = some .closed ∧
        ¬Reported net₂ 0 startedPeer 7 r := by
  have hrst : ¬Ever processPeer (fun _ seg => seg = .rst) synSentPeer [.synAck, .data, .fin] :=
    fun h => absurd (mem_of_ever h) (by decide)
  refine ⟨_, _, _, rfl, rfl, ⟨[.synAck], [.data, .fin], rfl, .inl rfl⟩, hrst, rfl, rfl, ?_⟩
  intro hreported
  have hconnected := congrArg (fun net => (net.sockets 0).map (·.state)) hreported.connected
  revert hconnected
  decide

end Net

end Jrinx
