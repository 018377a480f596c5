import Jrinx.Multitask.Runtime
import Jrinx.Multitask.TableWalk

/-!
This module contains what is left of the calls of `sched_next` in a schedule table that is revoked,
enacted again and started: `start` sets the begin of the frame, but not the index of the next entry.
-/

namespace Jrinx

namespace RuntimeSchedTable

open RuntimeSchedTableEntry

-- What the loop is told by the call with the number `m`, and the end of the slot that it sets up.
def nthSlot (t : RuntimeSchedTable) (clock : Nat → Duration) (m : Nat)
    : Outcome (RuntimeSchedTableEntry × Duration) :=
  (t.nthCall clock m).map fun (call, _) => (call.entry, call.slotEnd)

/--
The calls of `sched_next` on both tables go the same way, whatever the clock shows.
-/
def SameSlots (s t : RuntimeSchedTable) : Prop :=
  ∀ (clock clock' : Nat → Duration) (m : Nat), s.nthSlot clock m = t.nthSlot clock' m

/--
The states of a table after `k` calls of `sched_next`, it may have been started any number of times.
-/
inductive Called (t : RuntimeSchedTable) : Nat → RuntimeSchedTable → Prop where
  | new : Called t 0 t
  | start {k : Nat} {s : RuntimeSchedTable} (now : Duration) (h : Called t k s) : Called t k (s.start now)
  | schedNext {k : Nat} {s s' : RuntimeSchedTable} {entry : RuntimeSchedTableEntry} (h : Called t k s)
      (hnext : s.schedNext = .next (entry, s')) : Called t (k + 1) s'

section

variable {frameSize D : Duration} {entries : List RuntimeSchedTableEntry} {t s u : RuntimeSchedTable}
  {sortByOffset : SortUnstable byOffset} {sortByIdAndOffset : SortUnstable byIdAndOffset} {j k m : Nat}

theorem Called.state (h : Called t k s) (hpos : 0 < t.table.length) (hnext : t.next = 0)
    : s.table = t.table ∧ s.frameSize = t.frameSize ∧ s.next = k % t.table.length := by
  induction h with
  | new => exact ⟨rfl, rfl, by rw [hnext, Nat.zero_mod]⟩
  | start now h ih => exact ih
  | @schedNext k s s' entry h hcall ih =>
    obtain ⟨htable, hframe, hidx⟩ := ih
    obtain ⟨_, hstep⟩ := schedNext_cases hcall
    rw [htable, hidx] at hstep
    obtain ⟨hlt, _, hmod⟩ | ⟨hle, _, hmod⟩ := succ_div_mod (k := k) hpos
    . obtain ⟨hwrap, _⟩ | ⟨_, rfl⟩ := hstep
      . omega
      . exact ⟨rfl, hframe, hmod.symm⟩
    . obtain ⟨_, datum, _, rfl⟩ | ⟨hlt, _⟩ := hstep
      . exact ⟨rfl, hframe, hmod.symm⟩
      . omega

theorem Called.before (h : Called t k s) (hpos : 0 < t.table.length) (hnext : t.next = 0) (D : Duration)
    : Before t D (k % t.table.length) (s.start D) := by
  obtain ⟨htable, hframe, hidx⟩ := h.state hpos hnext
  have hlt := Nat.mod_lt k hpos
  refine ⟨htable, hframe, ?_, ?_⟩
  . simp only [RuntimeSchedTable.start, hidx, Nat.mod_mod]
  . simp [RuntimeSchedTable.start, Nat.div_eq_of_lt hlt]

theorem Before.nthSlot_of_fit (h : Before t D j s) (hne : t.table ≠ []) (clock : Nat → Duration)
    (hfit : ∀ i ≤ m, t.FitsAt D (j + i))
    : ∃ call, s.nthSlot clock m = .next (call.entry, call.slotEnd) ∧ Walks t D (j + m) call := by
  obtain ⟨call, s', hcall, hwalks, _⟩ := h.nthCall_of_fit hne clock hfit
  exact ⟨call, by simp [nthSlot, hcall], hwalks⟩

theorem Before.nthSlot_of_not_fit (h : Before t D j s) (hne : t.table ≠ []) (clock : Nat → Duration)
    (hfit : ¬ ∀ i ≤ m, t.FitsAt D (j + i))
    : s.nthSlot clock m = .panic := by
  simp [nthSlot, h.nthCall_of_not_fit hne clock hfit]

theorem Walks.unique {call call' : SchedNextCall} (h : Walks t D k call) (h' : Walks t D k call')
    : call.entry = call'.entry ∧ call.slotEnd = call'.slotEnd := by
  have hentry : call.entry = call'.entry := by
    have := h.entry_eq.symm.trans h'.entry_eq
    rwa [Option.some.injEq] at this
  refine ⟨hentry, Duration.eq_of_nanos ?_⟩
  rw [h.slotEnd_eq, h'.slotEnd_eq, hentry]

theorem Before.sameSlots (h : Before t D j s) (h' : Before t D j u) (hne : t.table ≠ []) : SameSlots s u := by
  intro clock clock' m
  by_cases hfit : ∀ i ≤ m, t.FitsAt D (j + i)
  . obtain ⟨call, hcall, hwalks⟩ := h.nthSlot_of_fit hne clock hfit
    obtain ⟨call', hcall', hwalks'⟩ := h'.nthSlot_of_fit hne clock' hfit
    obtain ⟨hentry, hend⟩ := hwalks.unique hwalks'
    rw [hcall, hcall', hentry, hend]
  . rw [h.nthSlot_of_not_fit hne clock hfit, h'.nthSlot_of_not_fit hne clock' hfit]

theorem SameSlots.fit_iff (hsame : SameSlots s u) (h : Before t D j s) (h' : Before t D k u)
    (hne : t.table ≠ []) (m : Nat)
    : (∀ i ≤ m, t.FitsAt D (j + i)) ↔ ∀ i ≤ m, t.FitsAt D (k + i) := by
  have heq := hsame (fun _ => .zero) (fun _ => .zero) m
  constructor
  . intro hfit
    by_contra hfit'
    obtain ⟨call, hcall, _⟩ := h.nthSlot_of_fit hne (fun _ => .zero) hfit
    rw [hcall, h'.nthSlot_of_not_fit hne _ hfit'] at heq
    simp at heq
  . intro hfit'
    by_contra hfit
    obtain ⟨call, hcall, _⟩ := h'.nthSlot_of_fit hne (fun _ => .zero) hfit'
    rw [hcall, h.nthSlot_of_not_fit hne _ hfit] at heq
    simp at heq

theorem FitsAt.of_lt {i : Nat}
    (hpairwise : t.table.Pairwise (fun e e' => e.stop ≤ e'.offset.nanos)) (h : t.FitsAt D j)
    (hij : i < j) (hj : j < t.table.length)
    : t.FitsAt D i := by
  have hi : i < t.table.length := Nat.lt_trans hij hj
  unfold FitsAt SumsFit at *
  rw [Nat.mod_eq_of_lt hj, Nat.div_eq_of_lt hj, Nat.zero_mul, Nat.add_zero] at h
  rw [Nat.mod_eq_of_lt hi, Nat.div_eq_of_lt hi, Nat.zero_mul, Nat.add_zero]
  intro entry hentry
  rw [List.getElem?_eq_getElem hi, Option.some.injEq] at hentry
  subst hentry
  have hsum := (h _ (List.getElem?_eq_getElem hj)).1
  have hle := List.pairwise_iff_getElem.mp hpairwise i j hi hj hij
  refine ⟨?_, fun hlast => absurd hlast (by omega)⟩
  unfold stop at *
  omega

theorem SameSlots.fitsAt (hsame : SameSlots s u) (h : Before t D j s) (h' : Before t D 0 u)
    (hne : t.table ≠ []) (hj : 0 < j) (hlt : j < t.table.length)
    (hpairwise : t.table.Pairwise (fun e e' => e.stop ≤ e'.offset.nanos)) (hfirst : t.FitsAt D 0) (i : Nat)
    : t.FitsAt D i := by
  have hstep : ∀ m, (∀ i ≤ m, t.FitsAt D i) → t.FitsAt D (j + m) := by
    intro m hm
    refine (hsame.fit_iff h h' hne m).mpr ?_ m (Nat.le_refl m)
    intro i hi
    rw [Nat.zero_add]
    exact hm i hi
  have hfitj : t.FitsAt D j := by
    refine hstep 0 ?_
    intro i hi
    rw [Nat.le_zero.mp hi]
    exact hfirst
  induction i using Nat.strongRecOn with
  | ind i ih =>
    by_cases hi : i < j
    . exact hfitj.of_lt hpairwise hi hlt
    . obtain ⟨m, rfl⟩ := Nat.exists_eq_add_of_le (Nat.le_of_not_lt hi)
      exact hstep m fun i hi => ih i (by omega)

-- If the index is inside of the frame, then the first entry of the next frame comes too early.
theorem not_sameSlots (h : Before t D j s) (h' : Before t D 0 u) (hne : t.table ≠ []) (hj : 0 < j)
    (hlt : j < t.table.length) (hoffset : ∀ e ∈ t.table, e.offset < t.frameSize)
    (hpairwise : t.table.Pairwise (fun e e' => e.stop ≤ e'.offset.nanos)) (hfirst : t.FitsAt D 0)
    : ¬SameSlots s u := by
  intro hsame
  have hfit := hsame.fitsAt h h' hne hj hlt hpairwise hfirst
  obtain ⟨call, hcall, hwalks⟩ :=
    h.nthSlot_of_fit (m := t.table.length - j) hne (fun _ => .zero) (fun i _ => hfit (j + i))
  obtain ⟨call', hcall', hwalks'⟩ :=
    h'.nthSlot_of_fit (m := t.table.length - j) hne (fun _ => .zero) (fun i _ => hfit (0 + i))
  have heq := hsame (fun _ => .zero) (fun _ => .zero) (t.table.length - j)
  rw [hcall, hcall', Outcome.next.injEq, Prod.mk.injEq] at heq
  obtain ⟨hentry, hend⟩ := heq
  have hpos : 0 < t.table.length := by omega
  have hnanos := congrArg Duration.nanos hend
  rw [hwalks.slotEnd_eq, hwalks'.slotEnd_eq, hentry, Nat.add_sub_cancel' (Nat.le_of_lt hlt), Nat.div_self hpos,
    Nat.div_eq_of_lt (by omega)] at hnanos
  have hframe := Duration.lt_def.mp (hoffset _ (List.mem_of_getElem? hwalks.entry_eq))
  omega

theorem sameSlots_of_not_fit (h : Before t D j s) (h' : Before t D 0 u) (hne : t.table ≠ [])
    (hlt : j < t.table.length) (hpairwise : t.table.Pairwise (fun e e' => e.stop ≤ e'.offset.nanos))
    (hfirst : ¬t.FitsAt D 0)
    : SameSlots s u := by
  intro clock clock' m
  have hfitj : ¬t.FitsAt D j := by
    intro hfit
    rcases Nat.eq_zero_or_pos j with rfl | hj
    . exact hfirst hfit
    . exact hfirst (hfit.of_lt hpairwise hj hlt)
  rw [h.nthSlot_of_not_fit hne clock (fun hfit => hfitj (hfit 0 (Nat.zero_le m))),
    h'.nthSlot_of_not_fit hne clock' (fun hfit => hfirst (hfit 0 (Nat.zero_le m)))]

theorem fitsAt_zero : t.FitsAt D 0 ↔ t.SumsFit D.nanos 0 := by
  simp only [FitsAt, Nat.zero_div, Nat.zero_mod, Nat.zero_mul, Nat.add_zero]

end

end RuntimeSchedTable

namespace Runtime

open RuntimeSchedTable RuntimeSchedTableEntry

-- Take the table out of the runtime, enact the same table again and start it at `D`.
def reenact (rt : Runtime) (D : Duration) : Except InternalError Runtime := do
  let (schedTable, rt) ← rt.revokeSchedTable
  let rt ← rt.enactSchedTable schedTable
  rt.schedTableStart D

theorem reenact_ok {rt : Runtime} {s : RuntimeSchedTable} (h : rt.schedTable = some s) (D : Duration)
    : ∃ rt', rt.reenact D = .ok rt' ∧ rt'.schedTable = some (s.start D) := by
  refine ⟨{
    rt with
    queue := rt.queue.filter (fun id => s.table.all (·.inspectorId ≠ id))
    schedTable := some (s.start D)
  }, ?_, rfl⟩
  simp only [reenact, revokeSchedTable, h, enactSchedTable, schedTableStart]
  rfl

/--
A table that was revoked after `k` calls goes the way of a new one that is started at the same time if
and only if it was revoked at the end of a frame, or the first call on the new one already panics.
-/
theorem reenact_sameSlots_iff {frameSize : Duration} {entries : List RuntimeSchedTableEntry}
    {sortByOffset : SortUnstable byOffset} {sortByIdAndOffset : SortUnstable byIdAndOffset}
    {t s : RuntimeSchedTable} {k : Nat} {rt : Runtime}
    (h : RuntimeSchedTable.new sortByOffset sortByIdAndOffset frameSize entries = .next (.ok t))
    (hne : entries ≠ []) (hs : Called t k s) (hrt : rt.schedTable = some s) (D : Duration)
    : (∃ rt' u, rt.reenact D = .ok rt' ∧ rt'.schedTable = some u ∧ SameSlots u (t.start D))
        ↔
      entries.length ∣ k ∨ ¬t.SumsFit D.nanos 0 := by
  obtain ⟨rt', hreenact, hrt'⟩ := reenact_ok hrt D
  obtain ⟨hframe, _, hoffset, hpairwise⟩ := new_slots h
  have hlength := (new_table h).2.2
  have hne := (new_table_ne_nil h).mpr hne
  have hpos := List.length_pos_of_ne_nil hne
  have hnext : t.next = 0 := by
    obtain ⟨rfl, _⟩ := new_eq_ok_iff.mp h
    rfl
  have hbefore := hs.before hpos hnext D
  have hfresh := before_start h D
  have hlt := Nat.mod_lt k hpos
  rw [← hlength, ← fitsAt_zero]
  constructor
  . rintro ⟨rt'', u, hreenact', hu, hsame⟩
    rw [hreenact, Except.ok.injEq] at hreenact'
    subst hreenact'
    rw [hrt', Option.some.injEq] at hu
    subst hu
    by_contra hcond
    rw [not_or, not_not] at hcond
    obtain ⟨hdvd, hfirst⟩ := hcond
    have hmod : 0 < k % t.table.length := Nat.pos_of_ne_zero fun h0 => hdvd (Nat.dvd_of_mod_eq_zero h0)
    exact not_sameSlots hbefore hfresh hne hmod hlt (hframe ▸ hoffset) hpairwise hfirst hsame
  . intro hcond
    refine ⟨rt', s.start D, hreenact, hrt', ?_⟩
    obtain hdvd | hfirst := hcond
    . rw [Nat.mod_eq_zero_of_dvd hdvd] at hbefore
      exact hbefore.sameSlots hfresh hne
    . exact sameSlots_of_not_fit hbefore hfresh hne hlt hpairwise hfirst

theorem reenact_twoSlots
    : ∃ t s, RuntimeSchedTable.new (.insertionSort _) (.insertionSort _) (.fromNanos 10)
          (twoSlots (.fromNanos 5)) = .next (.ok t) ∧
        Called t 2 s ∧
        ∃ rt' u, reenact { Runtime.new with schedTable := some s } (.fromNanos 100) = .ok rt' ∧
          rt'.schedTable = some u ∧ SameSlots u (t.start (.fromNanos 100)) := by
  have h : RuntimeSchedTable.new (.insertionSort _) (.insertionSort _) (.fromNanos 10)
      (twoSlots (.fromNanos 5)) = .next (.ok ⟨.fromNanos 10, twoSlots (.fromNanos 5), 0, .zero⟩) := by
    decide +kernel
  have hs : Called ⟨.fromNanos 10, twoSlots (.fromNanos 5), 0, .zero⟩ 2 _ :=
    .schedNext (.schedNext (.start .zero .new) rfl) rfl
  exact ⟨_, _, h, hs, (reenact_sameSlots_iff h (by decide) hs rfl (.fromNanos 100)).mpr (Or.inl (by decide))⟩

-- After one call, the second entry is the first one that comes after the restart.
theorem reenact_twoSlots_false
    : ∃ t s, RuntimeSchedTable.new (.insertionSort _) (.insertionSort _) (.fromNanos 10)
          (twoSlots (.fromNanos 5)) = .next (.ok t) ∧
        Called t 1 s ∧
        ¬∃ rt' u, reenact { Runtime.new with schedTable := some s } (.fromNanos 100) = .ok rt' ∧
          rt'.schedTable = some u ∧ SameSlots u (t.start (.fromNanos 100)) := by
  have h : RuntimeSchedTable.new (.insertionSort _) (.insertionSort _) (.fromNanos 10)
      (twoSlots (.fromNanos 5)) = .next (.ok ⟨.fromNanos 10, twoSlots (.fromNanos 5), 0, .zero⟩) := by
    decide +kernel
  refine ⟨_, ⟨.fromNanos 10, twoSlots (.fromNanos 5), 1, .zero⟩, h, .schedNext (.start .zero .new) rfl, ?_⟩
  rintro ⟨rt', u, hreenact, hu, hsame⟩
  obtain ⟨_, hreenact', hu'⟩ :=
    @reenact_ok { Runtime.new with schedTable := some _ } _ rfl (.fromNanos 100)
  rw [hreenact', Except.ok.injEq] at hreenact
  rw [← hreenact, hu', Option.some.injEq] at hu
  have hslot := hsame (fun _ => .zero) (fun _ => .zero) 0
  rw [← hu] at hslot
  revert hslot
  decide +kernel

end Runtime

end Jrinx
