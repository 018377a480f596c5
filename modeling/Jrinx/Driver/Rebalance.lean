import Jrinx.Driver.Routing

/-!
This module contains what `min_load_strategy_event` makes of the routes of the interrupts, in every mix of CPUs
that run a task and of counts.
-/

namespace Jrinx

theorem BuildMode.mulI32_eq_ok_iff {mode : BuildMode} {n m k : Int}
    : mode.mulI32 n m = .ok k ↔
        (-2 ^ 31 ≤ n * m ∧ n * m < 2 ^ 31) ∧ k = n * m ∨
          ¬ (-2 ^ 31 ≤ n * m ∧ n * m < 2 ^ 31) ∧ mode = .release ∧ k = (n * m).bmod (2 ^ 32) := by
  unfold mulI32
  split
  . next h =>
    rw [Except.pure_eq_ok_iff]
    constructor
    . rintro rfl
      exact .inl ⟨h, rfl⟩
    . rintro (⟨_, rfl⟩ | ⟨hnot, _⟩)
      . rfl
      . exact absurd h hnot
  . next h =>
    cases mode with
    | debug =>
      constructor
      . intro h'
        cases h'
      . rintro (⟨hrange, _⟩ | ⟨_, hmode, _⟩)
        . exact absurd hrange h
        . cases hmode
    | release =>
      constructor
      . intro h'
        exact .inr ⟨h, rfl, (Except.pure_eq_ok_iff.mp h').symm⟩
      . rintro (⟨hrange, _⟩ | ⟨_, _, rfl⟩)
        . exact absurd hrange h
        . rfl

namespace IrqDispatch

open DispatchM

variable {s s' : DispatchSystem} {cpuId ticks : Nat} {netCount uartCount : Int}

/--
The product of the load and the count fits, or the comparison does not suffer from it.
-/
structure LoadKept (mode : BuildMode) (netCount uartCount : Int) : Prop where
  debug : mode = .debug → -2 ^ 31 ≤ netLoad * netCount ∧ netLoad * netCount < 2 ^ 31
  release : mode = .release →
    (uartLoad * uartCount < (netLoad * netCount).bmod (2 ^ 32) ↔ uartLoad * uartCount < netLoad * netCount)

theorem loadKept_iff {mode : BuildMode}
    : LoadKept mode netCount uartCount ↔
        ∃ load, mode.mulI32 netLoad netCount = .ok load ∧
          (uartLoad * uartCount < load ↔ uartLoad * uartCount < netLoad * netCount) := by
  have hbmod (h : -2 ^ 31 ≤ netLoad * netCount ∧ netLoad * netCount < 2 ^ 31)
      : (netLoad * netCount).bmod (2 ^ 32) = netLoad * netCount := by
    apply Int.bmod_eq_of_le <;> omega
  constructor
  . intro h
    by_cases hrange : -2 ^ 31 ≤ netLoad * netCount ∧ netLoad * netCount < 2 ^ 31
    . exact ⟨_, BuildMode.mulI32_eq_ok_iff.mpr (.inl ⟨hrange, rfl⟩), Iff.rfl⟩
    . cases mode with
      | debug => exact absurd (h.debug rfl) hrange
      | release => exact ⟨_, BuildMode.mulI32_eq_ok_iff.mpr (.inr ⟨hrange, rfl, rfl⟩), h.release rfl⟩
  . rintro ⟨load, hload, hlt⟩
    rcases BuildMode.mulI32_eq_ok_iff.mp hload with ⟨hrange, rfl⟩ | ⟨hrange, rfl, rfl⟩
    . exact ⟨fun _ => hrange, fun _ => by rw [hbmod hrange]⟩
    . exact ⟨fun hmode => (by cases hmode), fun _ => hlt⟩

theorem SameButPlic.irq (h : SameButPlic s s')
    : s'.irq.mode = s.irq.mode ∧ s'.irq.irqCount = s.irq.irqCount := by
  obtain ⟨_, rfl⟩ := h
  exact ⟨rfl, rfl⟩

def priorities (s : DispatchSystem) : List (Nat × Nat) := entries s.taskPriority (List.range IrqSystem.cpuCount)

def resetCounts (s : DispatchSystem) : DispatchSystem :=
  {
    s with
    irq :=
      {
        s.irq with
        irqCount := Function.update (Function.update s.irq.irqCount 8 (some 0)) 10 (some 0)
      }
  }

theorem disableAndRead_eq_ok_iff {s₁ : DispatchSystem} (h : SameButPlic s s₁) {l l' : List (Nat × Nat)}
    : (disableAndRead l cpuId).run s₁ = .ok l' s' ↔
        (disableBoth cpuId).run s₁ = .ok () s' ∧
          l' = l ++ ((s.taskPriority cpuId).map (cpuId, ·)).toList := by
  have hread {s₂ : DispatchSystem} (h₂ : (disableBoth cpuId).run s₁ = .ok () s₂)
      : (readPriority l cpuId).run s₂ = .ok (l ++ ((s.taskPriority cpuId).map (cpuId, ·)).toList) s₂ := by
    rw [readPriority_run, (h.trans (disabled_of_disableBoth h₂).frame).taskPriority]
  rw [disableAndRead, bind_eq_ok_iff]
  constructor
  . rintro ⟨_, s₂, h₂, hr⟩
    rw [hread h₂] at hr
    cases hr
    exact ⟨h₂, rfl⟩
  . rintro ⟨h₂, rfl⟩
    exact ⟨(), s', h₂, hread h₂⟩

theorem disableAndRead_all {l : List (Nat × Nat)}
    : ((List.range IrqSystem.cpuCount).foldlM disableAndRead []).run s = .ok l s' ↔
        ((List.range IrqSystem.cpuCount).forM disableBoth).run s = .ok () s' ∧ l = priorities s := by
  rw [foldlM_eq_ok_iff (v := fun cpuId => (s.taskPriority cpuId).map (cpuId, ·)), List.nil_append]
  . rfl
  . exact fun cpuId _ s₁ hs₁ l l' s₂ => disableAndRead_eq_ok_iff hs₁

theorem minLoadStrategyEvent_eq_ok_iff (hnet : s.irq.irqCount 8 = some netCount)
    (huart : s.irq.irqCount 10 = some uartCount)
    : (minLoadStrategyEvent cpuId ticks).run s = .ok () s' ↔
        ∃ s₁ netIrqLoad uartIrqLoad s₂,
          ((List.range IrqSystem.cpuCount).forM disableBoth).run s = .ok () s₁ ∧
            s.irq.mode.mulI32 netLoad netCount = .ok netIrqLoad ∧
            s.irq.mode.mulI32 uartLoad uartCount = .ok uartIrqLoad ∧
            (if uartIrqLoad < netIrqLoad then route (sortBy Prod.snd (priorities s)) 8 10
              else route (sortBy Prod.snd (priorities s)) 10 8).run (resetCounts s₁) = .ok () s₂ ∧
            (minLoadStrategy cpuId ticks).run s₂ = .ok () s' := by
  have huart' : Function.update s.irq.irqCount 8 (some 0) 10 = some uartCount := by
    rw [Function.update_of_ne (by decide), huart]
  simp only [minLoadStrategyEvent, bind_eq_ok_iff, disableAndRead_all, takeCount_eq_ok_iff, get_eq_ok_iff,
    ofIrq_eq_ok_iff]
  constructor
  . rintro ⟨_, s₁, ⟨hdisable, rfl⟩, _, _, ⟨hnet', rfl⟩, _, _, ⟨huart'', rfl⟩, _, _, ⟨rfl, rfl⟩,
      netIrqLoad, _, ⟨hnetLoad, rfl⟩, uartIrqLoad, _, ⟨huartLoad, rfl⟩, h⟩
    obtain ⟨hmode, hcount⟩ := (disabled_of_forM hdisable).frame.irq
    rw [hcount] at hnet' huart''
    rw [hmode] at hnetLoad huartLoad
    cases hnet.symm.trans hnet'
    cases huart'.symm.trans huart''
    split at h
    . next hlt =>
      obtain ⟨_, s₂, hroute, hevent⟩ := bind_eq_ok_iff.mp h
      refine ⟨s₁, netIrqLoad, uartIrqLoad, s₂, hdisable, hnetLoad, huartLoad, ?_, hevent⟩
      rw [if_pos hlt]
      exact hroute
    . next hlt =>
      obtain ⟨_, s₂, hroute, hevent⟩ := bind_eq_ok_iff.mp h
      refine ⟨s₁, netIrqLoad, uartIrqLoad, s₂, hdisable, hnetLoad, huartLoad, ?_, hevent⟩
      rw [if_neg hlt]
      exact hroute
  . rintro ⟨s₁, netIrqLoad, uartIrqLoad, s₂, hdisable, hnetLoad, huartLoad, hroute, hevent⟩
    obtain ⟨hmode, hcount⟩ := (disabled_of_forM hdisable).frame.irq
    refine ⟨_, s₁, ⟨hdisable, rfl⟩, netCount, _, ⟨?_, rfl⟩, uartCount, _, ⟨?_, rfl⟩, _, _, ⟨rfl, rfl⟩,
      netIrqLoad, _, ⟨?_, rfl⟩, uartIrqLoad, _, ⟨?_, rfl⟩, ?_⟩
    . rw [hcount, hnet]
    . rw [hcount]
      exact huart'
    . rw [hmode, hnetLoad]
    . rw [hmode, huartLoad]
    . split at hroute
      . next hlt =>
        rw [if_pos hlt]
        exact bind_eq_ok_iff.mpr ⟨(), s₂, hroute, hevent⟩
      . next hlt =>
        rw [if_neg hlt]
        exact bind_eq_ok_iff.mpr ⟨(), s₂, hroute, hevent⟩

def RunsTask (s : DispatchSystem) (cpuId : Nat) : Prop :=
  cpuId ∈ List.range IrqSystem.cpuCount ∧ (s.taskPriority cpuId).isSome

/--
The source with the larger load is enabled on the first CPU only and the other source on the second CPU only,
the counts start over, and the next event is created.
-/
structure Rebalanced (s : DispatchSystem) (cpuId ticks : Nat) (netCount uartCount : Int) (s' : DispatchSystem)
    : Prop where
  routes : ∃ first second,
    FirstTwo (RunsTask s) (Precedes (· < ·) fun c => (s.taskPriority c).getD 0) first second ∧
      if uartLoad * uartCount < netLoad * netCount then Routes s' 8 10 first second
      else Routes s' 10 8 first second
  counts : s'.irq.irqCount 8 = some 0 ∧ s'.irq.irqCount 10 = some 0
  armed : ∃ time, (s.irq.time ticks).add (.fromNanos (timeInterval * 10 ^ 9)) = some time ∧
    s'.timedEvents =
      s.timedEvents.create cpuId time { timeout := .minLoadStrategyEvent, cancel := .cancel }

/--
Two CPUs run a task, and neither the load nor the clock overflows.
-/
structure Balanceable (s : DispatchSystem) (ticks : Nat) (netCount uartCount : Int) : Prop where
  root : s.irq.rootCompatible = .riscvVirtio
  running : 2 ≤ (List.range IrqSystem.cpuCount).countP fun c => (s.taskPriority c).isSome
  load : LoadKept s.irq.mode netCount uartCount
  clock : s.irq.NoOverflow ticks

theorem length_sortBy_priorities
    : (sortBy Prod.snd (priorities s)).length =
        (List.range IrqSystem.cpuCount).countP fun c => (s.taskPriority c).isSome := by
  rw [(sortBy_perm Prod.snd _).length_eq, priorities, length_entries]

theorem not_enabledOn_resetCounts {s₁ : DispatchSystem}
    (h : ((List.range IrqSystem.cpuCount).forM disableBoth).run s = .ok () s₁) {c : Nat}
    (hc : c < IrqSystem.cpuCount)
    : ¬ (resetCounts s₁).irq.EnabledOn c 8 ∧ ¬ (resetCounts s₁).irq.EnabledOn c 10 :=
  not_enabledOn_of_forM h hc

theorem mulI32_uartLoad {mode : BuildMode} (huart : -2 ^ 31 ≤ uartCount ∧ uartCount < 2 ^ 31) {load : Int}
    : mode.mulI32 uartLoad uartCount = .ok load ↔ load = uartLoad * uartCount := by
  have hrange : -2 ^ 31 ≤ uartLoad * uartCount ∧ uartLoad * uartCount < 2 ^ 31 := by
    simp only [uartLoad]
    omega
  rw [BuildMode.mulI32_eq_ok_iff]
  simp only [hrange, and_self, true_and, not_true_eq_false, false_and, or_false]

theorem routes_of_event {s₁ s₂ : DispatchSystem} {net : Prop} [Decidable net]
    (hdisable : ((List.range IrqSystem.cpuCount).forM disableBoth).run s = .ok () s₁)
    (hroute : (if net then route (sortBy Prod.snd (priorities s)) 8 10
      else route (sortBy Prod.snd (priorities s)) 10 8).run (resetCounts s₁) = .ok () s₂)
    : ∃ first second,
        FirstTwo (RunsTask s) (Precedes (· < ·) fun c => (s.taskPriority c).getD 0) first second ∧
          if net then Routes s₂ 8 10 first second else Routes s₂ 10 8 first second := by
  have hlen : 2 ≤ (sortBy Prod.snd (priorities s)).length := by
    split at hroute
    . obtain ⟨_, b, _, _, _, hb, _⟩ := route_eq_ok_iff.mp hroute
      exact (List.getElem?_eq_some_iff.mp hb).1
    . obtain ⟨_, b, _, _, _, hb, _⟩ := route_eq_ok_iff.mp hroute
      exact (List.getElem?_eq_some_iff.mp hb).1
  obtain ⟨a, b, l, hvec⟩ := exists_cons_cons hlen
  refine ⟨a.1, b.1, firstTwo_entries List.pairwise_lt_range hvec, ?_⟩
  rw [hvec] at hroute
  split
  . next hnet =>
    rw [if_pos hnet] at hroute
    exact routes_of_route hroute rfl rfl (by decide) (by decide) (by decide)
      (fun c hc => not_enabledOn_resetCounts hdisable hc)
  . next hnet =>
    rw [if_neg hnet] at hroute
    exact routes_of_route hroute rfl rfl (by decide) (by decide) (by decide)
      (fun c hc => (not_enabledOn_resetCounts hdisable hc).symm)

theorem not_routes_both {first second : Nat} (hlt : first < IrqSystem.cpuCount) (hne : first ≠ second)
    (h : Routes s 8 10 first second) (h' : Routes s 10 8 first second)
    : False :=
  hne ((h'.second first hlt).mp ((h.first first hlt).mpr rfl))

theorem frame_of_event {s₁ s₂ : DispatchSystem} {net : Prop} [Decidable net]
    (hdisable : ((List.range IrqSystem.cpuCount).forM disableBoth).run s = .ok () s₁)
    (hroute : (if net then route (sortBy Prod.snd (priorities s)) 8 10
      else route (sortBy Prod.snd (priorities s)) 10 8).run (resetCounts s₁) = .ok () s₂)
    : ∃ plic sources, s₂ = { s with irq := { (resetCounts s).irq with plic, sources } } := by
  obtain ⟨_, rfl⟩ := (disabled_of_forM hdisable).frame
  split at hroute
  . obtain ⟨plic, sources, rfl⟩ := frame_of_route hroute
    exact ⟨plic, sources, rfl⟩
  . obtain ⟨plic, sources, rfl⟩ := frame_of_route hroute
    exact ⟨plic, sources, rfl⟩

theorem event_route_isOk {s₁ : DispatchSystem} {p : Prop} [Decidable p] (hplic : s₁.irq.plic.isSome)
    (hroot : s₁.irq.rootCompatible = .riscvVirtio)
    : (∃ s₂, (if p then route (sortBy Prod.snd (priorities s)) 8 10
        else route (sortBy Prod.snd (priorities s)) 10 8).run (resetCounts s₁) = .ok () s₂) ↔
        2 ≤ (List.range IrqSystem.cpuCount).countP fun c => (s.taskPriority c).isSome := by
  have hvalid : Plic.isValid 8 ∧ Plic.isValid 10 := by decide
  have hplic' : (resetCounts s₁).irq.plic.isSome := hplic
  have hroot' : (resetCounts s₁).irq.rootCompatible = .riscvVirtio := hroot
  rw [← length_sortBy_priorities]
  split
  . exact route_isOk hvalid.1 hvalid.2 hplic' hroot'
  . exact route_isOk hvalid.2 hvalid.1 hplic' hroot'

theorem rebalanced_of_steps {s₁ s₂ : DispatchSystem} {netIrqLoad : Int}
    (hdisable : ((List.range IrqSystem.cpuCount).forM disableBoth).run s = .ok () s₁)
    (hroute : (if uartLoad * uartCount < netIrqLoad then route (sortBy Prod.snd (priorities s)) 8 10
      else route (sortBy Prod.snd (priorities s)) 10 8).run (resetCounts s₁) = .ok () s₂)
    (hevent : (minLoadStrategy cpuId ticks).run s₂ = .ok () s')
    : Rebalanced s cpuId ticks netCount uartCount s' ↔
        (uartLoad * uartCount < netIrqLoad ↔ uartLoad * uartCount < netLoad * netCount) := by
  obtain ⟨first, second, hfirst, hroutes⟩ := routes_of_event hdisable hroute
  obtain ⟨_, _, hs₂⟩ := frame_of_event hdisable hroute
  obtain ⟨_, time, htime, hs'⟩ := createEvent_eq_ok_iff.mp hevent
  have hirq : s'.irq = s₂.irq := by
    rw [hs']
  have hmoved {irqNum irqNum' a b : Nat} (h : Routes s₂ irqNum irqNum' a b) : Routes s' irqNum irqNum' a b := by
    constructor
    . rw [hirq]
      exact h.first
    . rw [hirq]
      exact h.second
  have hlt : first < IrqSystem.cpuCount := List.mem_range.mp hfirst.first.1
  constructor
  . rintro ⟨⟨first', second', hfirst', hroutes'⟩, -, -⟩
    obtain rfl := hfirst.first_unique hfirst'
    obtain rfl := hfirst.second_unique hfirst'
    split at hroutes
    . next hnet =>
      split at hroutes'
      . next hnet' => exact ⟨fun _ => hnet', fun _ => hnet⟩
      . exact (not_routes_both hlt hfirst.ne (hmoved hroutes) hroutes').elim
    . next hnet =>
      split at hroutes'
      . exact (not_routes_both hlt hfirst.ne hroutes' (hmoved hroutes)).elim
      . next hnet' => exact ⟨fun h => absurd h hnet, fun h => absurd h hnet'⟩
  . intro hsame
    constructor
    case routes =>
      refine ⟨first, second, hfirst, ?_⟩
      split at hroutes
      . next hnet =>
        rw [if_pos (hsame.mp hnet)]
        exact hmoved hroutes
      . next hnet =>
        rw [if_neg fun h => hnet (hsame.mpr h)]
        exact hmoved hroutes
    case counts =>
      rw [hirq, hs₂]
      exact ⟨by simp [resetCounts], by simp [resetCounts]⟩
    case armed =>
      rw [hs₂] at htime
      rw [hs', hs₂]
      exact ⟨time, htime, rfl⟩

/--
Whatever the CPUs do and whatever the counts are: the event comes to its end with both sources routed to the
two CPUs of the lowest priorities exactly if two CPUs run a task and nothing overflows.
-/
theorem rebalances_iff (cpuId ticks : Nat) (hplic : s.irq.plic.isSome) (hnet : s.irq.irqCount 8 = some netCount)
    (huart : s.irq.irqCount 10 = some uartCount) (huartRange : -2 ^ 31 ≤ uartCount ∧ uartCount < 2 ^ 31)
    : (∃ s', (minLoadStrategyEvent cpuId ticks).run s = .ok () s' ∧
        Rebalanced s cpuId ticks netCount uartCount s') ↔
        Balanceable s ticks netCount uartCount := by
  simp only [minLoadStrategyEvent_eq_ok_iff hnet huart, mulI32_uartLoad huartRange]
  constructor
  . rintro ⟨s', ⟨s₁, netIrqLoad, _, s₂, hdisable, hnetLoad, rfl, hroute, hevent⟩, hrebalanced⟩
    obtain ⟨hclock, _⟩ := createEvent_eq_ok_iff.mp hevent
    obtain ⟨_, _, hs₂⟩ := frame_of_event hdisable hroute
    obtain ⟨hplic₁, hroot₁⟩ := plic_of_forM hplic hdisable
    have hroot := (forM_isOk hplic).mp ⟨s₁, hdisable⟩
    constructor
    case root => exact hroot
    case running => exact (event_route_isOk hplic₁ (hroot₁.trans hroot)).mp ⟨s₂, hroute⟩
    case load =>
      exact loadKept_iff.mpr ⟨netIrqLoad, hnetLoad, (rebalanced_of_steps hdisable hroute hevent).mp hrebalanced⟩
    case clock =>
      rw [hs₂] at hclock
      exact hclock
  . intro h
    obtain ⟨s₁, hdisable⟩ := (forM_isOk hplic).mpr h.root
    obtain ⟨hplic₁, hroot₁⟩ := plic_of_forM hplic hdisable
    obtain ⟨netIrqLoad, hnetLoad, hsame⟩ := loadKept_iff.mp h.load
    obtain ⟨s₂, hroute⟩ := (event_route_isOk (p := uartLoad * uartCount < netIrqLoad) hplic₁
      (hroot₁.trans h.root)).mpr h.running
    obtain ⟨_, _, hs₂⟩ := frame_of_event hdisable hroute
    obtain ⟨s', hevent⟩ : ∃ s', (minLoadStrategy cpuId ticks).run s₂ = .ok () s' := by
      refine createEvent_isOk.mpr ?_
      rw [hs₂]
      exact h.clock
    exact ⟨s', ⟨s₁, netIrqLoad, _, s₂, hdisable, hnetLoad, rfl, hroute, hevent⟩,
      (rebalanced_of_steps hdisable hroute hevent).mpr hsame⟩

theorem minLoadStrategyEvent_idle (cpuId ticks : Nat) (hidle : priorities s = []) (hplic : s.irq.plic.isSome)
    (hroot : s.irq.rootCompatible = .riscvVirtio) (hnet : s.irq.irqCount 8 = some 0)
    (huart : s.irq.irqCount 10 = some 0)
    : ∃ s', (minLoadStrategyEvent cpuId ticks).run s = .error .outOfBounds s' ∧
        ∀ c < IrqSystem.cpuCount, ¬ s'.irq.EnabledOn c 8 ∧ ¬ s'.irq.EnabledOn c 10 := by
  obtain ⟨s₁, hdisable⟩ := (forM_isOk hplic).mpr hroot
  refine ⟨resetCounts s₁, ?_, fun c hc => not_enabledOn_resetCounts hdisable hc⟩
  obtain ⟨hmode, hcount⟩ := (disabled_of_forM hdisable).frame.irq
  have hread := disableAndRead_all.mpr ⟨hdisable, hidle.symm⟩
  have hnet' : s₁.irq.irqCount 8 = some 0 := by
    rw [hcount, hnet]
  have huart' : Function.update s₁.irq.irqCount 8 (some 0) 10 = some 0 := by
    rw [Function.update_of_ne (by decide), hcount, huart]
  have hload (load : Int) : s₁.irq.mode.mulI32 load 0 = .ok 0 :=
    BuildMode.mulI32_eq_ok_iff.mpr (.inl ⟨by simp, by simp⟩)
  have hempty : sortBy Prod.snd ([] : List (Nat × Nat)) = [] := List.mergeSort_nil
  refine (run_bind_ok hread).trans ?_
  refine (run_bind_ok (takeCount_eq_ok_iff.mpr ⟨hnet', rfl⟩)).trans ?_
  refine (run_bind_ok (a := 0) (takeCount_eq_ok_iff.mpr ⟨?huart, rfl⟩)).trans ?_
  case huart => exact huart'
  refine (run_bind_ok (get_eq_ok_iff.mpr ⟨rfl, rfl⟩)).trans ?_
  refine (run_bind_ok (ofIrq_eq_ok_iff.mpr ⟨hload netLoad, rfl⟩)).trans ?_
  refine (run_bind_ok (ofIrq_eq_ok_iff.mpr ⟨hload uartLoad, rfl⟩)).trans ?_
  rw [hempty]
  rfl

def idleRuntime : Runtime := { Runtime.new with status := .idle }

def systemOf (rt : Runtime) (netCount uartCount : Int) : DispatchSystem :=
  {
    irq :=
      {
        IrqSystem.probed .release .riscvVirtio 10000000 false fun _ => 0 with
        irqCount := Function.update (Function.update (fun _ => none) 8 (some netCount)) 10 (some uartCount)
      }
    cpus := fun _ => rt
    timedEvents := .init
  }

theorem rebalances_busy
    : ∃ s', (minLoadStrategyEvent 0 10000000).run (systemOf busyRuntime 3 5) = .ok () s' ∧
        Rebalanced (systemOf busyRuntime 3 5) 0 10000000 3 5 s' := by
  refine (rebalances_iff 0 10000000 rfl rfl rfl (by decide)).mpr ?_
  constructor
  case root => rfl
  case running =>
    rw [countP_range_of_isSome fun c _ => Option.isSome_of_eq_some (taskPriority_of_busy (fun _ => rfl) c)]
    decide
  case load => exact ⟨fun h => (by cases h), fun _ => (by decide)⟩
  case clock => exact fun h => (by cases h)

-- The failing event: no CPU takes the network or the serial port afterwards.
theorem not_rebalanced_idle
    : (¬ ∃ s', (minLoadStrategyEvent 0 10000000).run (systemOf idleRuntime 0 0) = .ok () s' ∧
        Rebalanced (systemOf idleRuntime 0 0) 0 10000000 0 0 s') ∧
        ∃ s', (minLoadStrategyEvent 0 10000000).run (systemOf idleRuntime 0 0) = .error .outOfBounds s' ∧
          ∀ c < IrqSystem.cpuCount, ¬ s'.irq.EnabledOn c 8 ∧ ¬ s'.irq.EnabledOn c 10 := by
  have hidle := minLoadStrategyEvent_idle (s := systemOf idleRuntime 0 0) 0 10000000 rfl rfl rfl rfl rfl
  refine ⟨?_, hidle⟩
  rintro ⟨s', hok, -⟩
  obtain ⟨_, herror, -⟩ := hidle
  cases hok.symm.trans herror

end IrqDispatch

end Jrinx
