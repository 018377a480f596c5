import Jrinx.Smoltcp.NetLocks

/-!
This module proves when the threads in the network code deadlock. The locks are nested in two ways that do
not agree: `connect` takes the interface while it has the socket set, and the calls on a listening port
take the socket set while they have the port. The interface is polled the other way round in both cases, and
a deadlock is always two threads that meet there.
-/

namespace Jrinx

inductive Nests : List NetLock → NetLock → Prop where
  -- `poll_interfaces`.
  | dev : Nests [] .dev
  | iface : Nests [.dev] .iface
  | sockets : Nests [.iface, .dev] .socketSet
  | inner : Nests [.socketSet, .iface, .dev] .inner
  | syn (port : UInt16) : Nests [.socketSet, .iface, .dev] (.port port)
  -- The operations of the socket set, and the one of `connect`.
  | socketSet : Nests [] .socketSet
  | connect : Nests [.socketSet] .iface
  -- `get_ephemeral_port`.
  | curr : Nests [] .curr
  | tried (port : UInt16) : Nests [.curr] (.port port)
  -- The listen table.
  | port (port : UInt16) : Nests [] (.port port)
  | queue (port : UInt16) : Nests [.port port] .socketSet

namespace NetLocks

theorem bracketed_withSocket {held : List NetLock} (h : Nests held .socketSet)
    : Bracketed Nests held (withSocket []) :=
  .critical h .nil

theorem bracketed_pollInterfaces (received : List PollLock)
    : Bracketed Nests [] (pollInterfaces received) := by
  refine .critical .dev (.critical .iface (.critical .sockets (.flatMap ?_)))
  intro l _
  cases l with
  | buffer => exact .critical .inner .nil
  | syn port => exact .critical (.syn port) .nil

theorem bracketed_boundEndpoint (tried : Option (List UInt16))
    : Bracketed Nests [] (boundEndpoint tried) := by
  cases tried with
  | none => exact .nil
  | some tried => exact .critical .curr (.flatMap fun port _ => .critical (.tried port) .nil)

theorem bracketed_accept (port : UInt16) (visited : List Nat) (found : Bool)
    : Bracketed Nests [] (accept port visited found) := by
  refine .critical (.port port) (.append (.flatMap ?_) (.ite ?_ ?_))
  . intro _ _
    exact bracketed_withSocket (.queue port)
  . intro _
    exact bracketed_withSocket (.queue port)
  . intro _
    exact .nil

theorem bracketed_blockOn {nonblock : Bool} {rounds : List (List PollLock × NetOps)}
    (h : ∀ round ∈ rounds, Bracketed Nests [] round.2)
    : Bracketed Nests [] (blockOn nonblock rounds) := by
  refine .ite ?_ ?_
  . intro _
    exact .flatMap fun round hround => h round (List.mem_of_mem_take hround)
  . intro _
    exact .flatMap fun round hround => (bracketed_pollInterfaces _).append (h round hround)

theorem bracketed_connect (fresh : Bool) (tried : Option (List UInt16)) (nonblock : Bool)
    (rounds : Option (List (List PollLock)))
    : Bracketed Nests [] (connect fresh tried nonblock rounds) := by
  have hfresh : Bracketed Nests [] (if fresh then add else []) :=
    .ite (fun _ => .critical .socketSet .nil) fun _ => .nil
  refine (hfresh.append (bracketed_boundEndpoint tried)).append ?_
  cases rounds with
  | none => exact .nil
  | some rounds =>
    refine .append (.critical .socketSet (.critical .connect .nil)) (bracketed_blockOn ?_)
    intro round hround
    obtain ⟨received, _, rfl⟩ := List.mem_map.mp hround
    exact bracketed_withSocket .socketSet

theorem bracketed_shutdown (stream : Option (List PollLock)) (listener : Option UnlistenRound)
    : Bracketed Nests [] (shutdown stream listener) := by
  refine .append ?_ ?_
  . cases stream with
    | none => exact .nil
    | some received => exact (bracketed_withSocket .socketSet).append (bracketed_pollInterfaces received)
  . cases listener with
    | none => exact .nil
    | some round =>
      refine .append (.critical (.port round.port) (.flatMap ?_)) (bracketed_pollInterfaces round.received)
      intro _ _
      exact .critical (.queue round.port) .nil

end NetLocks

open NetLocks in
theorem NetCall.locks_follow (call : NetCall) : Follows Nests [] call.locks := by
  apply Bracketed.follows
  cases call with
  | connect fresh tried nonblock rounds => exact bracketed_connect fresh tried nonblock rounds
  | bind tried => exact bracketed_boundEndpoint tried
  | listen tried port =>
    refine (bracketed_boundEndpoint tried).append ?_
    cases port with
    | none => exact .nil
    | some port => exact .critical (.port port) .nil
  | accept port nonblock rounds =>
    apply bracketed_blockOn
    intro round hround
    obtain ⟨round, _, rfl⟩ := List.mem_map.mp hround
    exact bracketed_accept port round.visited round.found
  | shutdown stream listener => exact bracketed_shutdown stream listener
  | transfer nonblock rounds =>
    apply bracketed_blockOn
    intro round hround
    obtain ⟨received, _, rfl⟩ := List.mem_map.mp hround
    exact bracketed_withSocket .socketSet
  | pollStream => exact bracketed_withSocket .socketSet
  | pollListener port visited =>
    exact .critical (.port port) (.flatMap fun _ _ => bracketed_withSocket (.queue port))
  | drop stream listener handle =>
    refine (bracketed_shutdown stream listener).append (.ite ?_ ?_)
    . intro _
      exact .critical .socketSet .nil
    . intro _
      exact .nil
  | pollInterfaces received => exact bracketed_pollInterfaces received

-- The first thread has the socket set and waits for the interface or for a port that the second one has,
-- and the second one waits for the socket set.
def crosses (t t' : LockThread NetLock) : Bool :=
  match t.wants, t'.wants with
  | some .iface, some .socketSet => .socketSet ∈ t.held ∧ .iface ∈ t'.held
  | some (.port port), some .socketSet => .socketSet ∈ t.held ∧ .port port ∈ t'.held
  | _, _ => false

def waitRank (t : LockThread NetLock) : Nat :=
  match t.wants with
  | none => 0
  | some lock =>
    if .socketSet ∈ t.held then
      5
    else
      match lock with
      | .dev => 1
      | .iface | .curr => 2
      | .port _ => 3
      | .socketSet => 4
      | .inner => 5

section

variable {t t' : LockThread NetLock} {lock lock' : NetLock}

theorem Nests.notMem {held : List NetLock} (h : Nests held lock) : lock ∉ held := by
  cases h <;> simp

theorem waits_of_crosses (h : crosses t t' = true)
    : (∃ lock, t.wants = some lock ∧ lock ∈ t'.held) ∧ (∃ lock, t'.wants = some lock ∧ lock ∈ t.held) := by
  unfold crosses at h
  split at h
  . next hwants hwants' =>
    have h := of_decide_eq_true h
    exact ⟨⟨_, hwants, h.2⟩, ⟨_, hwants', h.1⟩⟩
  . next hwants hwants' =>
    have h := of_decide_eq_true h
    exact ⟨⟨_, hwants, h.2⟩, ⟨_, hwants', h.1⟩⟩
  . simp at h

theorem waitRank_lt (hwants : t.wants = some lock) (hwants' : t'.wants = some lock')
    (hnests : Nests t.held lock) (hnests' : Nests t'.held lock') (hmem : lock ∈ t'.held)
    (hset : .socketSet ∈ t.held → .socketSet ∉ t'.held) (hcrosses : crosses t t' = false)
    : waitRank t < waitRank t' := by
  simp only [crosses, waitRank, hwants, hwants'] at hcrosses ⊢
  generalize t.held = held at *
  generalize t'.held = held' at *
  -- without the set a thread waits for what is nested deeper, and with the set it waits for the interface
  -- or for a port, whose owner has either got the set as well or waits for it
  cases hnests <;> cases hnests' <;> simp_all

theorem crosses_self (t : LockThread NetLock) : crosses t t = false := by
  unfold crosses
  split
  . next hwants hwants' => simp [hwants] at hwants'
  . next hwants hwants' => simp [hwants] at hwants'
  . rfl

end

namespace LockedNet

variable {n : Nat} {s s' : LockedNet n}

theorem deadlocked_iff (h : s.Sound Nests)
    : s.Deadlocked ↔ ∃ i j, crosses (s.threads i) (s.threads j) = true := by
  constructor
  . intro hdeadlocked
    by_contra hcrosses
    refine LockSystem.not_deadlocked_of_rank (fun i => waitRank (s.threads i)) ?_ hdeadlocked
    rintro i j k ⟨lock, hwants, hmem⟩ ⟨lock', hwants', _⟩
    have hnests := (h.follows i).nests_of_wants hwants
    have hij : i ≠ j := by
      rintro rfl
      exact hnests.notMem hmem
    refine waitRank_lt hwants hwants' hnests ((h.follows j).nests_of_wants hwants') hmem ?_ ?_
    . intro hset hset'
      exact hij (h.exclusive.unique hset hset')
    . simpa using fun htrue => hcrosses ⟨i, j, htrue⟩
  . rintro ⟨i, j, hcrosses⟩
    obtain ⟨hij, hji⟩ := waits_of_crosses hcrosses
    exact LockSystem.deadlocked_of_waits hij hji

/--
Where a thread begins to take a second lock inside of the first one, the other one is not between these two locks
the other way round.
-/
structure Admits (t t' : LockThread NetLock) : Prop where
  -- `connect` locks the interface in its closure, `InterfaceWrapper::poll` locks it before the socket set.
  connect : t.Enters .socketSet .iface → ¬ t'.Inside .iface .socketSet
  poll : t.Enters .iface .socketSet → ¬ t'.Inside .socketSet .iface
  -- `accept`, `can_accept` and `unlisten` lock the socket set while they have the port, a packet that opens a
  -- connection is handled the other way round.
  listener (port : UInt16) : t.Enters (.port port) .socketSet → ¬ t'.Inside .socketSet (.port port)
  syn (port : UInt16) : t.Enters .socketSet (.port port) → ¬ t'.Inside (.port port) .socketSet

def Orderly (s : LockedNet n) (a : LockAction n) : Prop :=
  match a with
  | .call _ _ => True
  | .go i => ∀ j, j ≠ i → Admits (s.threads i) (s.threads j)

def InOrder (s : LockedNet n) (a : LockAction n) : Bool :=
  match a with
  | .call _ _ => true
  | .go i => decide (∀ a ∈ (s.threads i).wants, ∀ b ∈ takenBefore a (s.threads i).rest.tail,
      ∀ j, j ≠ i → ¬ (s.threads j).Inside b a)

theorem orderly_of_inOrder {a : LockAction n} (h : s.InOrder a = true) : s.Orderly a := by
  cases a with
  | call i call => trivial
  | go i =>
    have hall {a b : NetLock} (henters : (s.threads i).Enters a b) {j : Fin n} (hj : j ≠ i)
        : ¬ (s.threads j).Inside b a :=
      of_decide_eq_true h a henters.1 b henters.2 j hj
    intro j hj
    exact ⟨fun h => hall h hj, fun h => hall h hj, fun _ h => hall h hj, fun _ h => hall h hj⟩

theorem sound_step {a : LockAction n} (h : s.Sound Nests) (hstep : s.step a = .next s')
    : s'.Sound Nests := by
  cases a with
  | call i call => exact h.start call.locks_follow hstep
  | go i => exact h.advance hstep

/--
No two threads are between the same two locks from different sides.
-/
structure Uncrossed (s : LockedNet n) : Prop where
  connect : s.Apart .socketSet .iface
  listener (port : UInt16) : s.Apart .socketSet (.port port)

theorem Uncrossed.step {a : LockAction n} (h : s.Uncrossed) (hsound : s.Sound Nests) (horderly : s.Orderly a)
    (hstep : s.step a = .next s')
    : s'.Uncrossed := by
  cases a with
  | call i call => exact ⟨h.connect.start hsound hstep, fun port => (h.listener port).start hsound hstep⟩
  | go i =>
    constructor
    . exact h.connect.advance hsound (fun j hj => (horderly j hj).connect) (fun j hj => (horderly j hj).poll) hstep
    . intro port
      exact (h.listener port).advance hsound (fun j hj => (horderly j hj).syn port)
        (fun j hj => (horderly j hj).listener port) hstep

theorem Uncrossed.not_crosses (h : s.Uncrossed) (i j : Fin n) : crosses (s.threads i) (s.threads j) = false := by
  by_contra hcrosses
  rw [Bool.not_eq_false] at hcrosses
  have hij : i ≠ j := by
    rintro rfl
    rw [crosses_self] at hcrosses
    cases hcrosses
  unfold crosses at hcrosses
  split at hcrosses
  next hwants hwants' =>
    obtain ⟨hheld, hheld'⟩ := of_decide_eq_true hcrosses
    exact h.connect i j hij ⟨LockThread.inside_of_wants hheld hwants, LockThread.inside_of_wants hheld' hwants'⟩
  next hwants hwants' =>
    obtain ⟨hheld, hheld'⟩ := of_decide_eq_true hcrosses
    exact h.listener _ i j hij ⟨LockThread.inside_of_wants hheld hwants, LockThread.inside_of_wants hheld' hwants'⟩
  next => cases hcrosses

/--
If every operation so far was orderly then there is no cycle of threads that wait for each other, whatever
the calls of the threads are and however they interleave.
-/
theorem deadlockFree_of_run {as : List (LockAction n)} (hrun : Run step Orderly .init as s)
    : ¬ s.Deadlocked := by
  have hinit : Uncrossed (LockSystem.init : LockedNet n) :=
    ⟨LockSystem.apart_init, fun _ => LockSystem.apart_init⟩
  have h := hrun.invariant (fun s => s.Sound Nests ∧ s.Uncrossed) ⟨LockSystem.sound_init, hinit⟩ <| by
    intro s s' a h horderly hstep
    exact ⟨sound_step h.1 hstep, h.2.step h.1 horderly hstep⟩
  rw [deadlocked_iff h.1]
  rintro ⟨i, j, hcrosses⟩
  rw [h.2.not_crosses i j] at hcrosses
  cases hcrosses

-- Thread 0 is about to lock the interface in `connect`, thread 1 waits for it in `accept`, and thread 2 has
-- begun to poll.
def dialThenPoll : List (LockAction 3) :=
  [.call 0 (.connect true (some [0xc000]) true (some [])),
    .call 1 (.accept 5555 true [{ received := [], visited := [7], found := true }]),
    .call 2 (.pollInterfaces [.buffer, .syn 5555])] ++
      List.replicate 7 (.go 0) ++ [.go 1, .go 2]

theorem deadlockFree_dialThenPoll
    : ∃ s : LockedNet 3, Run step Orderly .init dialThenPoll s ∧ (s.threads 0).wants = some .iface ∧
        s.Waits 1 0 ∧ ¬ s.Deadlocked := by
  have hok : (exec (checked step fun s a => s.InOrder a = true) .init dialThenPoll).holds (fun s =>
      (s.threads 0).wants = some .iface ∧ (s.threads 1).wants = some .socketSet ∧
        .socketSet ∈ (s.threads 0).held) = true := by
    decide +kernel
  obtain ⟨s, hrun, hs⟩ := exists_run_of_exec _ _ _ _ hok
  have hrun := (Run.of_checked hrun).mono fun _ _ => orderly_of_inOrder
  obtain ⟨hiface, hset, hheld⟩ := of_decide_eq_true hs
  exact ⟨s, hrun, hiface, ⟨_, hset, hheld⟩, deadlockFree_of_run hrun⟩

def dialWhilePolling : List (LockAction 3) :=
  [.call 0 (.connect true (some [0xc000]) true (some [])), .call 1 (.pollInterfaces [])] ++
    List.replicate 7 (.go 0) ++ [.go 1, .go 1]

theorem deadlockFree_dialWhilePolling_false
    : ¬ ∀ (n : Nat) (as : List (LockAction n)) (s : LockedNet n),
        Run step (fun _ _ => True) .init as s → ¬ s.Deadlocked := by
  intro h
  have hok : (exec step .init dialWhilePolling).holds
      (fun s => crosses (s.threads 0) (s.threads 1)) = true := by
    decide +kernel
  obtain ⟨s, hrun, hs⟩ := exists_run_of_exec _ _ _ _ hok
  obtain ⟨hwaits, hwaits'⟩ := waits_of_crosses hs
  exact h 3 _ s hrun (LockSystem.deadlocked_of_waits hwaits hwaits')

end LockedNet

end Jrinx
