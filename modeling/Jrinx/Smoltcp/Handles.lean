import Jrinx.Smoltcp.Calls

/-!
This module contains what holds in every state of the network: a handle is stored in one place only and
is live there, and the listen table agrees with the sockets that listen.
-/

namespace Jrinx

namespace Net

variable {net : Net} {as : List NetAction}

/--
Every handle in a socket or in a queue is live and stored once, and no call accesses the set with a handle
that is not live.
-/
theorem handlesOwned_of_run (hrun : Run step (fun _ _ => True) init as net)
    : net.HandlesOwned ∧ ∀ a, net.call a ≠ .error (.panic .deadHandle) := by
  have h := inv_of_run hrun
  exact ⟨h.handlesOwned, fun a hdead => ((ensures_call h a).error hdead).1 rfl⟩

structure ListensSoundly (net : Net) : Prop where
  isSome_iff : ∀ port, (net.listenTable port).isSome = true ↔ ∃! id, net.ListensOn id port
  unique : ∀ {port id id'}, net.ListensOn id port → net.ListensOn id' port → id = id'
  failed_listen : ∀ {id e net'}, net.listen id = .ok (.error e, net') →
    net'.listenTable = net.listenTable
  drop_idle : ∀ {id s close events net'}, net.sockets id = some s → s.state ≠ .listening →
    net.drop id close events = .ok net' →
      ∀ port, (net'.listenTable port).isSome = (net.listenTable port).isSome
  accept_listens : ∀ {id s rounds newId net'}, net.sockets id = some s → s.state = .listening →
    net.accept id rounds newId ≠ .ok (.error .netFail, net')

/--
There is an entry for a port if and only if exactly one socket listens on it, no call removes the entry of
another socket, and a listening socket finds its entry.
-/
theorem listensSoundly_of_run (hrun : Run step (fun _ _ => True) init as net) : net.ListensSoundly := by
  have h := inv_of_run hrun
  constructor
  case isSome_iff =>
    intro port
    rw [h.listenersAgree.isSome_iff]
    constructor
    . rintro ⟨id, hid⟩
      exact ⟨id, hid, fun _ hid' => h.listenersAgree.unique hid' hid⟩
    . rintro ⟨id, hid, _⟩
      exact ⟨id, hid⟩
  case unique => exact h.listenersAgree.unique
  case failed_listen =>
    intro id e net' hlisten
    exact ((ensures_listen h).ok hlisten).2 e rfl
  case drop_idle =>
    intro id s close events net' hs hstate hdrop
    exact ((ensures_drop h close events).ok hdrop).2 s hs hstate
  case accept_listens =>
    intro id s rounds newId net' hs hlistening haccept
    exact ((ensures_accept h rounds).ok haccept).2 s hs hlistening rfl

def serve : List NetAction :=
  let server : IpEndpoint := ⟨⟨0x0a00020f⟩, 80⟩
  let client : IpEndpoint := ⟨⟨0x0a000202⟩, 4000⟩
  let connection : Socket := { state := .established, tuple := some (server, client) }
  [.create 0, .bind 0 ⟨.v4 0, 80⟩, .listen 0,
    .accept 0 [[], [.packet ⟨client, server, true, false⟩ true 7], [.process 7 connection]] 1]

theorem handlesOwned_serve
    : ∃ net, Run step (fun _ _ => True) init serve net ∧ net.holds (.socket 1) = [7] ∧
        net.HandlesOwned ∧ ∀ a, net.call a ≠ .error (.panic .deadHandle) := by
  obtain ⟨net, hrun, hholds⟩ := exists_run_of_exec step init serve
    (fun net => net.holds (.socket 1) = [7]) (by decide +kernel)
  exact ⟨net, hrun, by simpa using hholds, handlesOwned_of_run hrun⟩

theorem listensSoundly_serve
    : ∃ net, Run step (fun _ _ => True) init serve net ∧ (net.listenTable 80).isSome = true ∧
        net.ListensSoundly := by
  obtain ⟨net, hrun, hentry⟩ := exists_run_of_exec step init serve
    (fun net => (net.listenTable 80).isSome) (by decide +kernel)
  exact ⟨net, hrun, hentry, listensSoundly_of_run hrun⟩

end Net

end Jrinx
