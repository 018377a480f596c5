import Jrinx.Driver.Routing

/-!
This module contains what `min_count_cpu_strategy_event` makes of the routes of the interrupts after any number
of them: the counter of a CPU is what is left of the number of its interrupts in 8 bits.
-/

namespace Jrinx

theorem BuildMode.mod_of_addU8 {mode : BuildMode} {n m k : Nat} (h : mode.addU8 n m = .ok k)
    : k = (n + m) % 2 ^ 8 := by
  unfold addU8 at h
  split at h
  . next hlt =>
    cases h
    exact (Nat.mod_eq_of_lt hlt).symm
  . cases mode with
    | debug => cases h
    | release =>
      cases h
      rfl

namespace IrqAction

def handled (as : List IrqAction) (cpuId : Nat) : Nat :=
  as.countP fun a =>
    match a with
    | .trap t => t.cpuId = cpuId
    | _ => false

end IrqAction

namespace IrqSystem

variable {sys sys' : IrqSystem} {t : ExternalTrap} {n : Nat → Nat}

def Counts (sys : IrqSystem) (n : Nat → Nat) : Prop :=
  ∃ counts, sys.interruptCount = some counts ∧ counts.length = cpuCount ∧
    ∀ c < cpuCount, counts[c]? = some (n c % 2 ^ 8)

theorem counts_handleKernTrap (hinv : Inv sys) (h : sys.Counts n) (htrap : sys.handleKernTrap t = .ok sys')
    : sys'.Counts fun c => n c + if t.cpuId = c then 1 else 0 := by
  obtain ⟨_, _, _, startTime, hintc, _⟩ := (handleKernTrap_eq_ok_iff hinv.globalIntc).mp htrap
  obtain ⟨sys₁, counts, k, count, hplic, hcounts, hk, hcount, rfl⟩ := intcHandleIrq_eq_ok_iff.mp hintc
  obtain ⟨counts', hsome, hlen, hget⟩ := h
  have hsame : sys₁.interruptCount = sys.interruptCount := by
    obtain ⟨_, _, _, _, ⟨_, _, rfl⟩ | ⟨_, _, _, _, _, _, _, rfl⟩⟩ := plicHandleIrq_eq_ok_iff.mp hplic
    . rfl
    . rfl
  cases (hsame.symm.trans hcounts).symm.trans hsome
  have hlt : t.cpuId < cpuCount := by
    rw [← hlen]
    exact (List.getElem?_eq_some_iff.mp hk).1
  refine ⟨_, rfl, by rw [List.length_set, hlen], fun c hc => ?_⟩
  rw [List.getElem?_set, hlen, if_pos hlt]
  split
  . next heq =>
    subst heq
    cases (hget _ hlt).symm.trans hk
    rw [BuildMode.mod_of_addU8 hcount, Nat.mod_add_mod]
    dsimp only
    rw [if_pos rfl]
  . next hne =>
    dsimp only
    rw [if_neg hne, Nat.add_zero]
    exact hget c hc

theorem counts_step (hinv : Inv sys) (h : sys.Counts n) {a : IrqAction} (hstep : sys.step a = .next sys')
    : sys'.Counts fun c => n c + IrqAction.handled [a] c := by
  have hcall := Outcome.ofExcept_eq_next hstep
  cases a with
  | trap t =>
    simp only [call] at hcall
    split at hcall
    . have hcounts := counts_handleKernTrap hinv h hcall
      simpa [IrqAction.handled, List.countP_cons] using hcounts
    . cases hcall
  | enable cpuId irqNum =>
    simp only [call, enable, Except.bind_eq_ok_iff, Except.pure_eq_ok_iff] at hcall
    obtain ⟨_, _, _, _, rfl⟩ := hcall
    exact h
  | disable cpuId irqNum =>
    simp only [call, disable, Except.bind_eq_ok_iff, Except.pure_eq_ok_iff] at hcall
    obtain ⟨_, _, _, _, rfl⟩ := hcall
    exact h
  | registerDevice irqNum dev =>
    simp only [call, registerDevice, Except.bind_eq_ok_iff, Except.pure_eq_ok_iff] at hcall
    obtain ⟨_, _, _, _, rfl⟩ := hcall
    exact h
  | resetCount irqNum =>
    simp only [call, resetCount, Except.bind_eq_ok_iff, Except.pure_eq_ok_iff] at hcall
    obtain ⟨_, _, rfl⟩ := hcall
    exact h

theorem counts_run {as : List IrqAction} (hrun : Run step (fun _ _ => True) sys as sys') (hinv : Inv sys)
    (h : sys.Counts n)
    : sys'.Counts fun c => n c + IrqAction.handled as c := by
  induction hrun generalizing n with
  | nil => exact h
  | cons _ hstep _ ih =>
    have hcounts := ih (inv_step hinv hstep) (counts_step hinv h hstep)
    simpa [IrqAction.handled, List.countP_cons, Nat.add_assoc, Nat.add_comm] using hcounts

theorem counts_boot {mode : BuildMode} {root : RootCompatible} {freq : Nat} {infoEnabled : Bool}
    {regs : Nat → BitVec 32} {cpuId : Nat}
    (hboot : (probed mode root freq infoEnabled regs).initStrategy cpuId = .ok sys)
    : sys.Counts fun _ => 0 := by
  unfold initStrategy at hboot
  obtain ⟨sys₁, henable, henable'⟩ := Except.bind_eq_ok_iff.mp hboot
  simp only [enable, Except.bind_eq_ok_iff, Except.pure_eq_ok_iff] at henable henable'
  obtain ⟨_, _, _, _, rfl⟩ := henable
  obtain ⟨_, _, _, _, rfl⟩ := henable'
  refine ⟨List.replicate cpuCount 0, rfl, List.length_replicate, fun c hc => ?_⟩
  rw [List.getElem?_replicate, if_pos hc, Nat.zero_mod]

end IrqSystem

namespace IrqDispatch

open DispatchM

variable {s s' : DispatchSystem} {cpuId ticks : Nat}

def load (s : DispatchSystem) (n : Nat → Nat) (c : Nat) : Option Nat :=
  (s.taskPriority c).map fun priority => (n c % 2 ^ 8) ||| priority <<< 16

theorem foldlM_readPriority (l : List (Nat × Nat)) (cpus : List Nat)
    : (cpus.foldlM readPriority l).run s = .ok (l ++ entries s.taskPriority cpus) s := by
  induction cpus generalizing l with
  | nil =>
    rw [List.foldlM_nil, entries, List.filterMap_nil, List.append_nil]
    rfl
  | cons cpuId cpus ih =>
    rw [List.foldlM_cons, run_bind_ok (readPriority_run l cpuId), ih, List.append_assoc, entries, entries,
      List.filterMap_cons]
    cases s.taskPriority cpuId <;> rfl

theorem lookup_entries {v : Nat → Option Nat} {cpus : List Nat} {c k : Nat} (hc : c ∈ cpus) (hv : v c = some k)
    : (entries v cpus).lookup c = some k := by
  induction cpus with
  | nil => simp at hc
  | cons cpuId cpus ih =>
    rw [entries, List.filterMap_cons]
    by_cases hcpu : c = cpuId
    . subst hcpu
      simp [hv]
    . have hrest := ih ((List.mem_cons.mp hc).resolve_left hcpu)
      cases hcpuId : v cpuId with
      | some k =>
        simp only [Option.map_some, List.lookup_cons, beq_eq_false_iff_ne.mpr hcpu]
        exact hrest
      | none => exact hrest

theorem disableAndWeigh_eq_ok_iff {s₁ : DispatchSystem} {counts : List Nat} {priorities l l' : List (Nat × Nat)}
    {k priority : Nat} (hcount : counts[cpuId]? = some k) (hpriority : priorities.lookup cpuId = some priority)
    : (disableAndWeigh counts priorities l cpuId).run s₁ = .ok l' s' ↔
        (disableBoth cpuId).run s₁ = .ok () s' ∧ l' = l ++ [(cpuId, k ||| priority <<< 16)] := by
  simp only [disableAndWeigh, bind_eq_ok_iff, ofIrq_eq_ok_iff, IrqM.unwrap_eq_ok_iff, pure_eq_ok_iff, hcount,
    hpriority]
  constructor
  . rintro ⟨_, _, hdisable, _, _, ⟨⟨⟩, rfl⟩, _, _, ⟨⟨⟩, rfl⟩, rfl, rfl⟩
    exact ⟨hdisable, rfl⟩
  . rintro ⟨hdisable, rfl⟩
    exact ⟨(), s', hdisable, k, s', ⟨rfl, rfl⟩, priority, s', ⟨rfl, rfl⟩, rfl, rfl⟩

theorem minCountCpuStrategyEvent_eq_ok_iff {n : Nat → Nat} (hcounts : s.irq.Counts n)
    (hrunning : ∀ c < IrqSystem.cpuCount, (s.taskPriority c).isSome)
    : (minCountCpuStrategyEvent cpuId ticks).run s = .ok () s' ↔
        ∃ s₁ s₂,
          ((List.range IrqSystem.cpuCount).forM disableBoth).run s = .ok () s₁ ∧
            (route (sortBy Prod.snd (entries (load s n) (List.range IrqSystem.cpuCount))) 8 10).run s₁ =
              .ok () s₂ ∧
            (minCountStrategy cpuId ticks).run s₂ = .ok () s' := by
  obtain ⟨counts, hsome, _, hget⟩ := hcounts
  have hloop {l : List (Nat × Nat)} {s₁ : DispatchSystem}
      : ((List.range IrqSystem.cpuCount).foldlM
          (disableAndWeigh counts (entries s.taskPriority (List.range IrqSystem.cpuCount))) []).run s = .ok l s₁ ↔
          ((List.range IrqSystem.cpuCount).forM disableBoth).run s = .ok () s₁ ∧
            l = entries (load s n) (List.range IrqSystem.cpuCount) := by
    rw [foldlM_eq_ok_iff (v := fun c => (load s n c).map (c, ·)), List.nil_append]
    . rfl
    . intro c hc s₂ _ l l' s₃
      have hlt := List.mem_range.mp hc
      obtain ⟨priority, hpriority⟩ := Option.isSome_iff_exists.mp (hrunning c hlt)
      rw [disableAndWeigh_eq_ok_iff (hget c hlt) (lookup_entries hc hpriority), load, hpriority]
      rfl
  rw [minCountCpuStrategyEvent, run_bind_ok (foldlM_readPriority [] _), List.nil_append,
    run_bind_ok (get_eq_ok_iff.mpr ⟨rfl, rfl⟩),
    run_bind_ok (ofIrq_eq_ok_iff.mpr ⟨IrqM.unwrap_eq_ok_iff.mpr hsome, rfl⟩)]
  simp only [bind_eq_ok_iff, hloop]
  constructor
  . rintro ⟨_, s₁, ⟨hdisable, rfl⟩, _, s₂, hroute, hevent⟩
    exact ⟨s₁, s₂, hdisable, hroute, hevent⟩
  . rintro ⟨s₁, s₂, hdisable, hroute, hevent⟩
    exact ⟨_, s₁, ⟨hdisable, rfl⟩, (), s₂, hroute, hevent⟩

def byCount (s : DispatchSystem) (n : Nat → Nat) (c : Nat) : Nat ×ₗ Nat :=
  toLex ((s.taskPriority c).getD 0, n c)

theorem load_eq {n : Nat → Nat} {c priority : Nat} (hpriority : s.taskPriority c = some priority)
    : (load s n c).getD 0 = priority * 2 ^ 16 + n c % 2 ^ 8 := by
  have hlt : n c % 2 ^ 8 < 2 ^ 16 := Nat.lt_trans (Nat.mod_lt _ (by decide)) (by decide)
  rw [load, hpriority, Option.map_some, Option.getD_some, Nat.or_comm, ← Nat.shiftLeft_add_eq_or_of_lt hlt,
    Nat.shiftLeft_eq]

theorem precedes_load_iff {n : Nat → Nat} {c d : Nat} (hc : (s.taskPriority c).isSome)
    (hd : (s.taskPriority d).isSome)
    : Precedes (· < ·) (fun c => (load s n c).getD 0) c d ↔
        Precedes (· < ·) (byCount s fun c => n c % 2 ^ 8) c d := by
  obtain ⟨priority, hpriority⟩ := Option.isSome_iff_exists.mp hc
  obtain ⟨priority', hpriority'⟩ := Option.isSome_iff_exists.mp hd
  have hlt := Nat.mod_lt (n c) (show 2 ^ 8 > 0 by decide)
  have hlt' := Nat.mod_lt (n d) (show 2 ^ 8 > 0 by decide)
  simp only [Precedes, load_eq hpriority, load_eq hpriority', byCount, hpriority, hpriority', Option.getD_some,
    Prod.Lex.toLex_lt_toLex, EmbeddingLike.apply_eq_iff_eq, Prod.mk.injEq]
  omega

/--
The sources are enabled on the first two CPUs by priority, number of interrupts and id, and nowhere else.
-/
def FollowsCounts (s : DispatchSystem) (n : Nat → Nat) (s' : DispatchSystem) : Prop :=
  ∃ first second, FirstTwo (· < IrqSystem.cpuCount) (Precedes (· < ·) (byCount s n)) first second ∧
    Routes s' 8 10 first second

/--
With the numbers of interrupts modulo 256 the same two CPUs come first.
-/
structure CountsSuffice (s : DispatchSystem) (ticks : Nat) (n : Nat → Nat) : Prop where
  root : s.irq.rootCompatible = .riscvVirtio
  clock : s.irq.NoOverflow ticks
  order : ∃ first second, FirstTwo (· < IrqSystem.cpuCount) (Precedes (· < ·) (byCount s n)) first second ∧
    FirstTwo (· < IrqSystem.cpuCount) (Precedes (· < ·) (byCount s fun c => n c % 2 ^ 8)) first second

theorem isSome_load {n : Nat → Nat} {c : Nat} (h : (s.taskPriority c).isSome) : (load s n c).isSome := by
  rw [load, Option.isSome_map]
  exact h

theorem routes_of_minCount {n : Nat → Nat} {s₁ s₂ : DispatchSystem}
    (hrunning : ∀ c < IrqSystem.cpuCount, (s.taskPriority c).isSome)
    (hdisable : ((List.range IrqSystem.cpuCount).forM disableBoth).run s = .ok () s₁)
    (hroute : (route (sortBy Prod.snd (entries (load s n) (List.range IrqSystem.cpuCount))) 8 10).run s₁ =
      .ok () s₂)
    : ∃ first second,
        FirstTwo (· < IrqSystem.cpuCount) (Precedes (· < ·) (byCount s fun c => n c % 2 ^ 8)) first second ∧
          Routes s₂ 8 10 first second := by
  have hlen : (sortBy Prod.snd (entries (load s n) (List.range IrqSystem.cpuCount))).length =
      IrqSystem.cpuCount := by
    rw [(sortBy_perm Prod.snd _).length_eq, length_entries]
    exact countP_range_of_isSome fun c hc => isSome_load (hrunning c hc)
  obtain ⟨a, b, l, hvec⟩ := exists_cons_cons (hlen.ge.trans' (by decide))
  have hfirst := firstTwo_entries List.pairwise_lt_range hvec
  have hmem (c : Nat) : c ∈ List.range IrqSystem.cpuCount ∧ (load s n c).isSome ↔ c < IrqSystem.cpuCount :=
    ⟨fun h => List.mem_range.mp h.1, fun h => ⟨List.mem_range.mpr h, isSome_load (hrunning c h)⟩⟩
  simp only [hmem] at hfirst
  rw [hvec] at hroute
  refine ⟨a.1, b.1, hfirst.congr fun c d hc hd => precedes_load_iff (hrunning c hc) (hrunning d hd), ?_⟩
  exact routes_of_route hroute rfl rfl (by decide) (by decide) (by decide)
    fun c hc => not_enabledOn_of_forM hdisable hc

theorem followsCounts_of_steps {n : Nat → Nat} {s₁ s₂ : DispatchSystem}
    (hrunning : ∀ c < IrqSystem.cpuCount, (s.taskPriority c).isSome)
    (hdisable : ((List.range IrqSystem.cpuCount).forM disableBoth).run s = .ok () s₁)
    (hroute : (route (sortBy Prod.snd (entries (load s n) (List.range IrqSystem.cpuCount))) 8 10).run s₁ =
      .ok () s₂)
    (hevent : (minCountStrategy cpuId ticks).run s₂ = .ok () s')
    : FollowsCounts s n s' ↔
        ∃ first second, FirstTwo (· < IrqSystem.cpuCount) (Precedes (· < ·) (byCount s n)) first second ∧
          FirstTwo (· < IrqSystem.cpuCount) (Precedes (· < ·) (byCount s fun c => n c % 2 ^ 8)) first second := by
  obtain ⟨first, second, hfirst, hroutes⟩ := routes_of_minCount hrunning hdisable hroute
  obtain ⟨_, _, _, hs'⟩ := createEvent_eq_ok_iff.mp hevent
  have hroutes' : Routes s' 8 10 first second := by
    rw [hs']
    exact ⟨hroutes.first, hroutes.second⟩
  constructor
  . rintro ⟨first', second', hfirst', hroutes''⟩
    have hsame : first = first' :=
      (hroutes''.first first hfirst.first).mp ((hroutes'.first first hfirst.first).mpr rfl)
    have hsame' : second = second' :=
      (hroutes''.second second hfirst.second).mp ((hroutes'.second second hfirst.second).mpr rfl)
    subst hsame hsame'
    exact ⟨first, second, hfirst', hfirst⟩
  . rintro ⟨first', second', hfirst', hfirst''⟩
    obtain rfl := hfirst.first_unique hfirst''
    obtain rfl := hfirst.second_unique hfirst''
    exact ⟨first, second, hfirst', hroutes'⟩

theorem followsCounts_iff_of_counts {n : Nat → Nat} (cpuId ticks : Nat) (hcounts : s.irq.Counts n)
    (hplic : s.irq.plic.isSome) (hrunning : ∀ c < IrqSystem.cpuCount, (s.taskPriority c).isSome)
    : (∃ s', (minCountCpuStrategyEvent cpuId ticks).run s = .ok () s' ∧ FollowsCounts s n s') ↔
        CountsSuffice s ticks n := by
  simp only [minCountCpuStrategyEvent_eq_ok_iff hcounts hrunning]
  constructor
  . rintro ⟨s', ⟨s₁, s₂, hdisable, hroute, hevent⟩, hfollows⟩
    obtain ⟨_, rfl⟩ := (disabled_of_forM hdisable).frame
    obtain ⟨_, _, hs₂⟩ := frame_of_route hroute
    obtain ⟨hclock, _⟩ := createEvent_eq_ok_iff.mp hevent
    rw [hs₂] at hclock
    constructor
    case root => exact (forM_isOk hplic).mp ⟨_, hdisable⟩
    case clock => exact hclock
    case order => exact (followsCounts_of_steps hrunning hdisable hroute hevent).mp hfollows
  . intro h
    obtain ⟨s₁, hdisable⟩ := (forM_isOk hplic).mpr h.root
    obtain ⟨hplic₁, hroot₁⟩ := plic_of_forM hplic hdisable
    have hlen : 2 ≤ (sortBy Prod.snd (entries (load s n) (List.range IrqSystem.cpuCount))).length := by
      rw [(sortBy_perm Prod.snd _).length_eq, length_entries,
        countP_range_of_isSome fun c hc => isSome_load (hrunning c hc)]
      decide
    have hvalid : Plic.isValid 8 ∧ Plic.isValid 10 := by decide
    obtain ⟨s₂, hroute⟩ := (route_isOk hvalid.1 hvalid.2 hplic₁ (hroot₁.trans h.root)).mpr hlen
    obtain ⟨s', hevent⟩ : ∃ s', (minCountStrategy cpuId ticks).run s₂ = .ok () s' := by
      obtain ⟨_, rfl⟩ := (disabled_of_forM hdisable).frame
      obtain ⟨_, _, rfl⟩ := frame_of_route hroute
      exact createEvent_isOk.mpr h.clock
    exact ⟨s', ⟨s₁, s₂, hdisable, hroute, hevent⟩,
      (followsCounts_of_steps hrunning hdisable hroute hevent).mpr h.order⟩

theorem counts_of_run {mode : BuildMode} {root : RootCompatible} {freq bootId : Nat} {infoEnabled : Bool}
    {regs : Nat → BitVec 32} {booted sys : IrqSystem} {as : List IrqAction}
    (hboot : (IrqSystem.probed mode root freq infoEnabled regs).initStrategy bootId = .ok booted)
    (hrun : Run IrqSystem.step (fun _ _ => True) booted as sys)
    : sys.Counts (IrqAction.handled as) ∧ sys.plic.isSome := by
  have hinv := IrqSystem.inv_boot hboot
  have hcounts := IrqSystem.counts_run hrun hinv (IrqSystem.counts_boot hboot)
  have hinv' := hrun.invariant IrqSystem.Inv hinv fun _ _ _ h _ hstep => IrqSystem.inv_step h hstep
  obtain ⟨plic, hplic, _⟩ := hinv'.plic
  refine ⟨?_, Option.isSome_iff_exists.mpr ⟨plic, hplic⟩⟩
  simpa using hcounts

/--
After any history of interrupts and with every CPU running a task: the event routes the sources by the true
numbers of interrupts exactly if these numbers modulo 256 put the same two CPUs first.
-/
theorem followsCounts_iff {mode : BuildMode} {root : RootCompatible} {freq bootId : Nat} {infoEnabled : Bool}
    {regs : Nat → BitVec 32} {booted : IrqSystem} {as : List IrqAction} (cpuId ticks : Nat)
    (hboot : (IrqSystem.probed mode root freq infoEnabled regs).initStrategy bootId = .ok booted)
    (hrun : Run IrqSystem.step (fun _ _ => True) booted as s.irq)
    (hrunning : ∀ c < IrqSystem.cpuCount, (s.taskPriority c).isSome)
    : (∃ s', (minCountCpuStrategyEvent cpuId ticks).run s = .ok () s' ∧
        FollowsCounts s (IrqAction.handled as) s') ↔
        CountsSuffice s ticks (IrqAction.handled as) := by
  obtain ⟨hcounts, hplic⟩ := counts_of_run hboot hrun
  exact followsCounts_iff_of_counts cpuId ticks hcounts hplic hrunning

structure Quiet (sys : IrqSystem) : Prop where
  mode : sys.mode = .release
  root : sys.rootCompatible = .riscvVirtio
  freq : sys.freq = 10000000
  infoEnabled : sys.infoEnabled = false
  globalIntc : sys.globalIntc = true
  plic : sys.plic.isSome
  interruptCount : ∃ counts, sys.interruptCount = some counts ∧ counts.length = IrqSystem.cpuCount

theorem quiet_step {sys : IrqSystem} (h : Quiet sys)
    : ∃ sys', sys.step (.trap IrqSystem.spuriousTrap) = .next sys' ∧ Quiet sys' := by
  obtain ⟨plic, hplic⟩ := Option.isSome_iff_exists.mp h.plic
  obtain ⟨counts, hcounts, hlen⟩ := h.interruptCount
  have hget : counts[IrqSystem.spuriousTrap.cpuId]? = some (counts.getD 0 0) := by
    have hlt : 0 < counts.length := by
      rw [hlen]
      decide
    simp [IrqSystem.spuriousTrap, IrqSystem.uartTrap, hlt]
  obtain ⟨count, hcount⟩ : ∃ count, BuildMode.release.addU8 (counts.getD 0 0) 1 = .ok count := by
    unfold BuildMode.addU8
    split
    . exact ⟨_, rfl⟩
    . exact ⟨_, rfl⟩
  have hcontext : getContextId sys.rootCompatible IrqSystem.spuriousTrap.cpuId = .ok 1 := by
    rw [h.root]
    rfl
  have hclock (ticks : Nat) : sys.NoOverflow ticks := by
    intro hmode
    rw [h.mode] at hmode
    cases hmode
  have htime : sys.time IrqSystem.spuriousTrap.startTicks ≤ sys.time IrqSystem.spuriousTrap.finishTicks := by
    rw [IrqSystem.time, IrqSystem.time, h.freq]
    decide
  have hpossible : sys.Possible IrqSystem.spuriousTrap := ⟨by decide, .inl rfl⟩
  have hclaim : sys.plicHandleIrq IrqSystem.spuriousTrap = .ok (.zero, sys.spurious plic 1) :=
    IrqSystem.plicHandleIrq_eq_ok_iff.mpr ⟨plic, 1, hplic, hcontext, .inl ⟨rfl, rfl, rfl⟩⟩
  have hcount' : (sys.spurious plic 1).mode.addU8 (counts.getD 0 0) 1 = .ok count := by
    rw [← hcount, ← h.mode]
    rfl
  have hintc := IrqSystem.intcHandleIrq_eq_ok_iff.mpr
    ⟨sys.spurious plic 1, counts, _, count, hclaim, hcounts, hget, hcount', rfl⟩
  have htrap := (IrqSystem.handleKernTrap_eq_ok_iff h.globalIntc).mpr
    ⟨hclock _, hclock _, htime, .zero, hintc, fun hinfo => by simp [h.infoEnabled] at hinfo⟩
  refine ⟨{ sys.spurious plic 1 with interruptCount := some (counts.set 0 count) }, ?_, h.mode, h.root, h.freq,
    h.infoEnabled, h.globalIntc, rfl, _, rfl, ?_⟩
  . rw [IrqSystem.step, IrqSystem.call, if_pos hpossible, htrap]
    rfl
  . rw [List.length_set, hlen]

theorem quiet_run {sys : IrqSystem} (h : Quiet sys) (n : Nat)
    : ∃ sys', Run IrqSystem.step (fun _ _ => True) sys (List.replicate n (.trap IrqSystem.spuriousTrap)) sys' ∧
        Quiet sys' := by
  induction n generalizing sys with
  | zero => exact ⟨sys, .nil sys, h⟩
  | succ n ih =>
    obtain ⟨sys₁, hstep, h₁⟩ := quiet_step h
    obtain ⟨sys', hrun, h'⟩ := ih h₁
    exact ⟨sys', .cons trivial hstep hrun, h'⟩

theorem handled_replicate (n c : Nat)
    : IrqAction.handled (List.replicate n (.trap IrqSystem.spuriousTrap)) c = if c = 0 then n else 0 := by
  rw [IrqAction.handled, List.countP_replicate]
  simp [IrqSystem.spuriousTrap, IrqSystem.uartTrap, eq_comm]

theorem exists_after (n : Nat)
    : ∃ (booted : IrqSystem) (s : DispatchSystem),
        (IrqSystem.probed .release .riscvVirtio 10000000 false fun _ => 0).initStrategy 0 = .ok booted ∧
        Run IrqSystem.step (fun _ _ => True) booted (List.replicate n (.trap IrqSystem.spuriousTrap)) s.irq ∧
        Quiet s.irq ∧ ∀ c, s.cpus c = busyRuntime := by
  have hboot : ∃ booted,
      (IrqSystem.probed .release .riscvVirtio 10000000 false fun _ => 0).initStrategy 0 = .ok booted ∧
        Quiet booted :=
    ⟨_, rfl, rfl, rfl, rfl, rfl, rfl, rfl, _, rfl, rfl⟩
  obtain ⟨booted, hboot, hquiet⟩ := hboot
  obtain ⟨sys, hrun, hquiet'⟩ := quiet_run hquiet n
  exact ⟨booted, { irq := sys, cpus := fun _ => busyRuntime, timedEvents := .init }, hboot, hrun, hquiet',
    fun _ => rfl⟩

theorem firstTwo_byCount {n : Nat → Nat} (hbusy : ∀ c, s.cpus c = busyRuntime) (h : ∀ c, c ≠ 0 → n c = 0)
    (h₀ : n 0 ≠ 0)
    : FirstTwo (· < IrqSystem.cpuCount) (Precedes (· < ·) (byCount s n)) 1 2 := by
  have hkey {c d : Nat} : Precedes (· < ·) (byCount s n) c d ↔ n c < n d ∨ n c = n d ∧ c < d := by
    simp [Precedes, byCount, taskPriority_of_busy hbusy, Prod.Lex.toLex_lt_toLex]
  refine ⟨by decide, by decide, hkey.mpr ?_, fun c hc => ?_⟩
  . simp [h]
  . rw [hkey]
    by_cases hzero : c = 0
    . subst hzero
      have := h 2 (by decide)
      omega
    . have := h c hzero
      have := h 2 (by decide)
      omega

theorem firstTwo_byCount_zero {n : Nat → Nat} (hbusy : ∀ c, s.cpus c = busyRuntime) (h : ∀ c, n c = 0)
    : FirstTwo (· < IrqSystem.cpuCount) (Precedes (· < ·) (byCount s n)) 0 1 := by
  have hkey {c d : Nat} : Precedes (· < ·) (byCount s n) c d ↔ n c < n d ∨ n c = n d ∧ c < d := by
    simp [Precedes, byCount, taskPriority_of_busy hbusy, Prod.Lex.toLex_lt_toLex]
  refine ⟨by decide, by decide, hkey.mpr ?_, fun c hc => ?_⟩
  . simp [h]
  . rw [hkey]
    have := h c
    have := h 1
    omega

theorem followsCounts_busy
    : ∃ (booted : IrqSystem) (s : DispatchSystem),
        (IrqSystem.probed .release .riscvVirtio 10000000 false fun _ => 0).initStrategy 0 = .ok booted ∧
        Run IrqSystem.step (fun _ _ => True) booted (List.replicate 3 (.trap IrqSystem.spuriousTrap)) s.irq ∧
        ∃ s', (minCountCpuStrategyEvent 0 20000000).run s = .ok () s' ∧
          FollowsCounts s (IrqAction.handled (List.replicate 3 (.trap IrqSystem.spuriousTrap))) s' := by
  obtain ⟨booted, s, hboot, hrun, hquiet, hbusy⟩ := exists_after 3
  refine ⟨booted, s, hboot, hrun, (followsCounts_iff 0 20000000 hboot hrun ?_).mpr ?_⟩
  . exact fun c _ => Option.isSome_of_eq_some (taskPriority_of_busy hbusy c)
  . refine ⟨hquiet.root, fun hmode => ?_, 1, 2, firstTwo_byCount hbusy ?_ ?_, firstTwo_byCount hbusy ?_ ?_⟩
    . rw [hquiet.mode] at hmode
      cases hmode
    . intro c hc
      rw [handled_replicate, if_neg hc]
    . rw [handled_replicate, if_pos rfl]
      decide
    . intro c hc
      rw [handled_replicate, if_neg hc, Nat.zero_mod]
    . rw [handled_replicate, if_pos rfl]
      decide

-- After 256 interrupts the counter of CPU 0 is 0 again.
theorem not_followsCounts_wrapped
    : ∃ (booted : IrqSystem) (s : DispatchSystem),
        (IrqSystem.probed .release .riscvVirtio 10000000 false fun _ => 0).initStrategy 0 = .ok booted ∧
        Run IrqSystem.step (fun _ _ => True) booted (List.replicate 256 (.trap IrqSystem.spuriousTrap)) s.irq ∧
        (∀ c < IrqSystem.cpuCount, (s.taskPriority c).isSome) ∧
        ¬ ∃ s', (minCountCpuStrategyEvent 0 20000000).run s = .ok () s' ∧
          FollowsCounts s (IrqAction.handled (List.replicate 256 (.trap IrqSystem.spuriousTrap))) s' := by
  obtain ⟨booted, s, hboot, hrun, hquiet, hbusy⟩ := exists_after 256
  have hrunning (c : Nat) (_ : c < IrqSystem.cpuCount) : (s.taskPriority c).isSome :=
    Option.isSome_of_eq_some (taskPriority_of_busy hbusy c)
  refine ⟨booted, s, hboot, hrun, hrunning, fun hfollows => ?_⟩
  obtain ⟨hcounts, hplic⟩ := counts_of_run hboot hrun
  obtain ⟨first, second, htrue, hwrapped⟩ :=
    ((followsCounts_iff_of_counts 0 20000000 hcounts hplic hrunning).mp hfollows).order
  have hone : first = 1 := by
    refine htrue.first_unique (firstTwo_byCount hbusy ?_ ?_)
    . intro c hc
      rw [handled_replicate, if_neg hc]
    . rw [handled_replicate, if_pos rfl]
      decide
  have hzero : first = 0 := by
    refine hwrapped.first_unique (firstTwo_byCount_zero hbusy ?_)
    intro c
    rw [handled_replicate]
    split <;> rfl
  omega

end IrqDispatch

end Jrinx
