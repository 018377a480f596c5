import Jrinx.Smoltcp.Calls

/-!
This module contains the endpoints of the connections that were opened by `connect`. Neither `bind` nor the
search for an ephemeral port looks at them, so two connections can have the same pair of endpoints. They do
not as long as a call of `connect` finds its pair free.
-/

namespace Jrinx

namespace Net

variable {net net' : Net} {as : List NetAction}

/--
No two connections that were opened by `connect` have the same local and remote endpoint.
-/
def EndpointsApart (net : Net) : Prop :=
  ∀ id id' endpoints, net.Opened id endpoints → net.Opened id' endpoints → id = id'

-- `Socket::connect` takes the remote endpoint and the bound port as they are. Where no address is bound,
-- the interface has one for the remote address.
def AnswersAs (source : IpAddress → IpAddress) (answer : ConnectAnswer) : Prop :=
  ∀ socket remote bound socket', answer socket remote bound = .ok socket' →
    socket'.tuple = some (⟨bound.addr.getD (source remote.addr), bound.port⟩, remote)

def Documented (source : IpAddress → IpAddress) (_ : Net) (a : NetAction) : Prop :=
  match a with
  | .connect _ _ _ answer _ => AnswersAs source answer
  | _ => True

def localAddrFor (source : IpAddress → IpAddress) (s : TcpSocket) (remote : IpAddress) : IpAddress :=
  if s.localAddr.addr.isUnspecified then source remote else s.localAddr.addr

/--
No connection has the pair of endpoints that a call of `connect` is about to take: the remote endpoint, and
the bound port or else the first port from the cursor on that nobody listens on.
-/
def FindsPairFree (source : IpAddress → IpAddress) (net : Net) (a : NetAction) : Prop :=
  match a with
  | .connect id remoteAddr _ _ _ =>
    ∀ s octets port, net.sockets id = some s → s.state = .closed → remoteAddr.ip = .v4 octets →
      (net.boundPort s).1 = .ok port →
      ∀ i, ¬ net.Opened i (⟨localAddrFor source s ⟨octets⟩, port⟩, ⟨⟨octets⟩, remoteAddr.port⟩)
  | _ => True

theorem EndpointsApart.of_steps (h : net.EndpointsApart) (hsteps : Steps False net net')
    : net'.EndpointsApart :=
  fun id id' _ hid hid' => h id id' _ (hsteps.opened_of hid) (hsteps.opened_of hid')

theorem Dialed.endpoints_eq {source : IpAddress → IpAddress} {s : TcpSocket} {remoteAddr : SocketAddr}
    {answer : ConnectAnswer} {endpoints : IpEndpoint × IpEndpoint}
    (h : Dialed net s remoteAddr answer endpoints) (hanswer : AnswersAs source answer)
    : ∃ octets port, remoteAddr.ip = .v4 octets ∧ (net.boundPort s).1 = .ok port ∧
        endpoints = (⟨localAddrFor source s ⟨octets⟩, port⟩, ⟨⟨octets⟩, remoteAddr.port⟩) := by
  obtain ⟨octets, socket, socket', bound, hip, hport, haddr, hok, htuple⟩ := h.answered
  rw [hanswer socket _ bound socket' hok, Option.some.injEq] at htuple
  refine ⟨octets, bound.port, hip, hport, ?_⟩
  rw [← htuple, haddr, localAddrFor]
  cases s.localAddr.addr.isUnspecified <;> rfl

theorem EndpointsApart.connects {source : IpAddress → IpAddress} {id : Nat} {remoteAddr : SocketAddr}
    {fresh : SocketHandle} {answer : ConnectAnswer} {rounds : List (List PollEvent)} {s s' : TcpSocket}
    (h : net.EndpointsApart) (hconnects : Connects net id remoteAddr answer s s' net')
    (hanswer : AnswersAs source answer)
    (hfree : FindsPairFree source net (.connect id remoteAddr fresh answer rounds))
    : (net'.setSocket id { s' with state := .connecting }).EndpointsApart := by
  obtain ⟨octets, port, hip, hport, hends⟩ := hconnects.dialed.endpoints_eq hanswer
  have hnew (i : Nat) : ¬ net.Opened i (s'.localAddr, s'.peerAddr) := by
    rw [hends]
    exact hfree s octets port hconnects.before hconnects.closed hip hport i
  have hold {i : Nat} {endpoints : IpEndpoint × IpEndpoint} (hi : net'.Opened i endpoints)
      : net.Opened i endpoints :=
    hconnects.steps.opened_of hi
  intro i j endpoints hi hj
  rcases hi.cases rfl rfl with ⟨rfl, _, _, rfl⟩ | ⟨_, hi'⟩
  . rcases hj.cases rfl rfl with ⟨rfl, _⟩ | ⟨_, hj'⟩
    . rfl
    . exact absurd (hold hj') (hnew j)
  . rcases hj.cases rfl rfl with ⟨rfl, _, _, rfl⟩ | ⟨_, hj'⟩
    . exact absurd (hold hi') (hnew i)
    . exact h i j endpoints (hold hi') (hold hj')

/--
In every run in which each call of `connect` finds its pair of endpoints free, the pairs of the connections
are distinct.
-/
theorem endpointsApart_of_run {source : IpAddress → IpAddress}
    (hrun : Run step (fun net a => Documented source net a ∧ FindsPairFree source net a) init as net)
    : net.EndpointsApart := by
  have hinv : net.Inv ∧ net.EndpointsApart := by
    apply hrun.invariant fun net => net.Inv ∧ net.EndpointsApart
    . refine ⟨inv_init, ?_⟩
      intro id id' endpoints hid
      simp [Opened, init] at hid
    . rintro net net' a ⟨hinv, hapart⟩ ⟨hdocumented, hfree⟩ hstep
      have hcall := Outcome.ofExcept_eq_next hstep
      refine ⟨hinv.call hcall, ?_⟩
      rcases (ensures_call hinv a).ok hcall with hsteps |
        ⟨id, remoteAddr, fresh, answer, rounds, s, s', net₁, rfl, hconnects, hsteps⟩
      . exact hapart.of_steps hsteps
      . exact (hapart.connects hconnects hdocumented hfree).of_steps hsteps
  exact hinv.2

-- `Socket::connect` on the only interface of the machine.
def dial : ConnectAnswer := fun socket remote bound =>
  if socket.state ≠ .closed then
    .error .invalidState
  else
    .ok { state := .synSent, tuple := some (⟨bound.addr.getD ⟨0x0a00020f⟩, bound.port⟩, remote) }

theorem answersAs_dial : AnswersAs (fun _ => ⟨0x0a00020f⟩) dial := by
  intro socket remote bound socket' hok
  unfold dial at hok
  split at hok
  . simp at hok
  . simp only [Except.ok.injEq] at hok
    rw [← hok]

def twoClients (port port' : UInt16) : List NetAction :=
  let server : SocketAddr := ⟨.v4 0x0a000202, 80⟩
  [.create 0, .create 1, .setNonblocking 0 true, .setNonblocking 1 true, .bind 0 ⟨.v4 0, port⟩,
    .bind 1 ⟨.v4 0, port'⟩, .connect 0 server 0 dial [], .connect 1 server 1 dial []]

theorem endpointsApart_twoClients
    : ∃ net, Run step (fun net a => Documented (fun _ => ⟨0x0a00020f⟩) net a ∧
          FindsPairFree (fun _ => ⟨0x0a00020f⟩) net a) init (twoClients 5000 5001) net ∧
        net.opened 0 = true ∧ net.opened 1 = true ∧ net.EndpointsApart := by
  have hrun : ∃ net, Run step (fun net a => Documented (fun _ => ⟨0x0a00020f⟩) net a ∧
      FindsPairFree (fun _ => ⟨0x0a00020f⟩) net a) init (twoClients 5000 5001) net ∧
        net.opened 0 = true ∧ net.opened 1 = true := by
    refine ⟨_, .cons ⟨trivial, trivial⟩ rfl (.cons ⟨trivial, trivial⟩ rfl (.cons ⟨trivial, trivial⟩ rfl
      (.cons ⟨trivial, trivial⟩ rfl (.cons ⟨trivial, trivial⟩ rfl (.cons ⟨trivial, trivial⟩ rfl
      (.cons ⟨answersAs_dial, ?_⟩ rfl (.cons ⟨answersAs_dial, ?_⟩ rfl (.nil _)))))))), rfl, rfl⟩
    . intro s octets port _ _ _ _ i hi
      exact absurd hi.1 Bool.false_ne_true
    . intro s octets port hs _ _ hport i hi
      -- the only connection so far is the one of the first client
      have hport : port = 5001 := by
        rw [← Option.some.inj hs] at hport
        exact (Except.ok.inj hport).symm
      obtain ⟨hopened, s', hs', _, hends⟩ := hi
      have hi : i = 0 := by
        by_contra hne
        exact absurd ((Function.update_of_ne hne _ _).symm.trans hopened) Bool.false_ne_true
      subst hi
      rw [← Option.some.inj hs', hport] at hends
      have hsame : (5000 : UInt16) = 5001 := congrArg (fun ends => ends.1.port) hends
      exact absurd hsame (by decide)
  obtain ⟨net, hrun, hopened, hopened'⟩ := hrun
  exact ⟨net, hrun, hopened, hopened', endpointsApart_of_run hrun⟩

theorem documented_twoClients {port port' : UInt16} {a : NetAction} (h : a ∈ twoClients port port')
    (net : Net)
    : Documented (fun _ => ⟨0x0a00020f⟩) net a := by
  simp only [twoClients, List.mem_cons, List.not_mem_nil, or_false] at h
  rcases h with rfl | rfl | rfl | rfl | rfl | rfl | rfl | rfl
  all_goals first | exact trivial | exact answersAs_dial

theorem endpointsApart_twoClients_false
    : ¬ ∀ (source : IpAddress → IpAddress) (as : List NetAction) (net : Net),
          Run step (Documented source) init as net → net.EndpointsApart := by
  intro hall
  let pair : IpEndpoint × IpEndpoint := (⟨⟨0x0a00020f⟩, 5000⟩, ⟨⟨0x0a000202⟩, 80⟩)
  obtain ⟨net, hrun, hends⟩ := exists_run_of_exec step init (twoClients 5000 5000)
    (fun net => net.opened 0 && net.opened 1 &&
      ((net.sockets 0).any fun s => s.state = .connecting && (s.localAddr, s.peerAddr) = pair) &&
      ((net.sockets 1).any fun s => s.state = .connecting && (s.localAddr, s.peerAddr) = pair))
    (by decide +kernel)
  simp only [Bool.and_eq_true, Option.any_eq_true, decide_eq_true_eq] at hends
  obtain ⟨⟨⟨hopened, hopened'⟩, s, hs, hstate, hpair⟩, s', hs', hstate', hpair'⟩ := hends
  have hapart := hall _ _ net (hrun.restrict fun a ha => documented_twoClients ha)
  have := hapart 0 1 pair ⟨hopened, s, hs, .inl hstate, hpair⟩ ⟨hopened', s', hs', .inl hstate', hpair'⟩
  simp at this

end Net

end Jrinx
