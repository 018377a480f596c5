import Jrinx.Multitask.LoopStep
import Jrinx.Multitask.TableValid
import Jrinx.Multitask.TimedCpu

/-!
This module contains what a schedule table does call after call: the calls of `sched_next` go through
the entries in the order of their offsets, once in every frame, and a call reads the table inside of
its bounds if the table has any entry at all.
-/

namespace Jrinx

-- What a call of `sched_next` reads, the events that it creates and the entry that it returns.
structure SchedNextCall where
  index : Nat
  datum : Duration
  entry : RuntimeSchedTableEntry
  startEvent : Option Duration
  slotEnd : Duration
  deriving DecidableEq, Repr

namespace RuntimeSchedTable

open RuntimeSchedTableEntry

def schedNextCall (t : RuntimeSchedTable) (now : Duration)
    : Outcome (SchedNextCall × RuntimeSchedTable) :=
  match t.table[t.next]? with
  | none => .panic
  | some entry =>
    match t.datum.add entry.offset with
    | none => .panic
    | some start =>
      match start.add entry.duration with
      | none => .panic
      | some slotEnd =>
        let call :=
          {
            index := t.next
            datum := t.datum
            entry
            startEvent := if now < start then some start else none
            slotEnd
          }
        if t.next + 1 ≥ t.table.length then
          match t.datum.add t.frameSize with
          | none => .panic
          | some datum => .next (call, { t with next := 0, datum })
        else
          .next (call, { t with next := t.next + 1 })

-- The call with the number `k`, the clock shows `clock k` in it.
def nthCall (t : RuntimeSchedTable) (clock : Nat → Duration) (k : Nat)
    : Outcome (SchedNextCall × RuntimeSchedTable) :=
  match k with
  | 0 => t.schedNextCall (clock 0)
  | k + 1 =>
    match nthCall t clock k with
    | .next (_, t) => t.schedNextCall (clock (k + 1))
    | .panic => .panic
    | .disabled => .disabled

theorem map_schedNextCall (t : RuntimeSchedTable) (now : Duration)
    : (t.schedNextCall now).map (fun (call, t) => (call.entry, t)) = t.schedNext := by
  unfold schedNextCall schedNext
  cases t.table[t.next]? with
  | none => rfl
  | some entry =>
    cases hstart : t.datum.add entry.offset with
    | none => simp [hstart]
    | some start =>
      cases hstop : start.add entry.duration with
      | none => simp [hstart, hstop]
      | some stop =>
        simp only [hstart, hstop, Option.bind_some]
        split
        . cases t.datum.add t.frameSize <;> rfl
        . rfl

theorem schedNextCall_eq {t t' : RuntimeSchedTable} {now : Duration} {call : SchedNextCall}
    (h : t.schedNextCall now = .next (call, t'))
    : call.datum = t.datum ∧ t.table[t.next]? = some call.entry ∧
        (t.datum.add call.entry.offset).bind (·.add call.entry.duration) = some call.slotEnd := by
  unfold schedNextCall at h
  split at h
  . simp at h
  . next entry hentry =>
    split at h
    . simp at h
    . next start hstart =>
      split at h
      . simp at h
      . next slotEnd hend =>
        dsimp only at h
        split at h
        . split at h
          . simp at h
          . simp only [Outcome.next.injEq, Prod.mk.injEq] at h
            obtain ⟨rfl, _⟩ := h
            exact ⟨rfl, hentry, by rw [hstart, Option.bind_some, hend]⟩
        . simp only [Outcome.next.injEq, Prod.mk.injEq] at h
          obtain ⟨rfl, _⟩ := h
          exact ⟨rfl, hentry, by rw [hstart, Option.bind_some, hend]⟩

section

variable {frameSize : Duration} {entries : List RuntimeSchedTableEntry} {t t' : RuntimeSchedTable}
  {entry : RuntimeSchedTableEntry} {sortByOffset : SortUnstable byOffset}
  {sortByIdAndOffset : SortUnstable byIdAndOffset} {D : Duration} {k : Nat}

/--
The sums of durations that a call of `sched_next` forms on an entry in the frame that starts at `datum`
are durations themselves. The last entry of a frame needs the start of the next frame as well.
-/
def SumsFit (t : RuntimeSchedTable) (datum index : Nat) : Prop :=
  ∀ entry, t.table[index]? = some entry →
    datum + entry.stop ≤ Duration.max.nanos ∧
      (t.table.length ≤ index + 1 → datum + t.frameSize.nanos ≤ Duration.max.nanos)

-- The state of a table before the call with the number `k`.
structure Before (t : RuntimeSchedTable) (D : Duration) (k : Nat) (s : RuntimeSchedTable) : Prop where
  table_eq : s.table = t.table
  frameSize_eq : s.frameSize = t.frameSize
  next_eq : s.next = k % t.table.length
  datum_eq : s.datum.nanos = D.nanos + k / t.table.length * t.frameSize.nanos

-- The result of the call with the number `k`.
structure Walks (t : RuntimeSchedTable) (D : Duration) (k : Nat) (call : SchedNextCall) : Prop where
  index_eq : call.index = k % t.table.length
  index_lt : call.index < t.table.length
  entry_eq : t.table[k % t.table.length]? = some call.entry
  datum_eq : call.datum.nanos = D.nanos + k / t.table.length * t.frameSize.nanos
  slotEnd_eq : call.slotEnd.nanos =
    D.nanos + k / t.table.length * t.frameSize.nanos + call.entry.offset.nanos + call.entry.duration.nanos

theorem succ_div_mod {k n : Nat} (hn : 0 < n)
    : k % n + 1 < n ∧ (k + 1) / n = k / n ∧ (k + 1) % n = k % n + 1 ∨
        n ≤ k % n + 1 ∧ (k + 1) / n = k / n + 1 ∧ (k + 1) % n = 0 := by
  have hk := Nat.mod_add_div k n
  by_cases hwrap : n ≤ k % n + 1
  . have hmod : k % n + 1 = n := by
      have := Nat.mod_lt k hn
      omega
    refine .inr ⟨hwrap, (Nat.div_mod_unique hn).mpr ⟨?_, hn⟩⟩
    rw [Nat.mul_add, Nat.mul_one]
    omega
  . exact .inl ⟨by omega, (Nat.div_mod_unique hn).mpr ⟨by omega, by omega⟩⟩

theorem schedNextCall_of_fit {s : RuntimeSchedTable} (now : Duration) (hentry : s.table[s.next]? = some entry)
    (hfit : s.SumsFit s.datum.nanos s.next)
    : ∃ call s', s.schedNextCall now = .next (call, s') ∧
        (call.index = s.next ∧ call.datum = s.datum ∧ call.entry = entry ∧
          call.slotEnd.nanos = s.datum.nanos + entry.stop) ∧
        (s.table.length ≤ s.next + 1 ∧
            (∃ datum, s.datum.add s.frameSize = some datum ∧ s' = { s with next := 0, datum }) ∨
          s.next + 1 < s.table.length ∧ s' = { s with next := s.next + 1 }) := by
  obtain ⟨hstop, hframe⟩ := hfit entry hentry
  have hsum : entry.stop = entry.offset.nanos + entry.duration.nanos := rfl
  simp only [schedNextCall, hentry]
  split
  . next hstart =>
    rw [Duration.add_eq_none] at hstart
    omega
  . next start hstart =>
    rw [Duration.add_eq_some] at hstart
    split
    . next hend =>
      rw [Duration.add_eq_none] at hend
      omega
    . next slotEnd hend =>
      rw [Duration.add_eq_some] at hend
      have hslotEnd : slotEnd.nanos = s.datum.nanos + entry.stop := by omega
      split
      . next hwrap =>
        split
        . next hdatum =>
          rw [Duration.add_eq_none] at hdatum
          have := hframe hwrap
          omega
        . next datum hdatum =>
          exact ⟨_, _, rfl, ⟨rfl, rfl, rfl, hslotEnd⟩, .inl ⟨hwrap, datum, hdatum, rfl⟩⟩
      . next hwrap =>
        exact ⟨_, _, rfl, ⟨rfl, rfl, rfl, hslotEnd⟩, .inr ⟨by omega, rfl⟩⟩

theorem schedNextCall_of_not_fit {s : RuntimeSchedTable} (now : Duration)
    (hentry : s.table[s.next]? = some entry) (hfit : ¬ s.SumsFit s.datum.nanos s.next)
    : s.schedNextCall now = .panic := by
  have hsum : entry.stop = entry.offset.nanos + entry.duration.nanos := rfl
  have hfit : ¬ (s.datum.nanos + entry.stop ≤ Duration.max.nanos ∧
      (s.table.length ≤ s.next + 1 → s.datum.nanos + s.frameSize.nanos ≤ Duration.max.nanos)) := by
    simpa only [SumsFit, hentry, Option.some.injEq, forall_eq'] using hfit
  simp only [schedNextCall, hentry]
  split
  . rfl
  . next start hstart =>
    rw [Duration.add_eq_some] at hstart
    split
    . rfl
    . next slotEnd hend =>
      rw [Duration.add_eq_some] at hend
      have hslotEnd := slotEnd.le_max
      have hframe : ¬ (s.table.length ≤ s.next + 1 →
          s.datum.nanos + s.frameSize.nanos ≤ Duration.max.nanos) :=
        fun hframe => hfit ⟨by omega, hframe⟩
      split
      . split
        . rfl
        . next datum hdatum =>
          rw [Duration.add_eq_some] at hdatum
          have hle := datum.le_max
          exact absurd (fun _ => by omega) hframe
      . next hwrap => exact absurd (fun hlast => absurd hlast hwrap) hframe

theorem Before.get {s : RuntimeSchedTable} (h : Before t D k s) (hne : t.table ≠ [])
    : ∃ entry, t.table[k % t.table.length]? = some entry ∧ s.table[s.next]? = some entry := by
  have hlt := Nat.mod_lt k (List.length_pos_of_ne_nil hne)
  refine ⟨_, List.getElem?_eq_getElem hlt, ?_⟩
  rw [h.table_eq, h.next_eq]
  exact List.getElem?_eq_getElem hlt

theorem Before.sumsFit_iff {s : RuntimeSchedTable} (h : Before t D k s)
    : s.SumsFit s.datum.nanos s.next ↔
        t.SumsFit (D.nanos + k / t.table.length * t.frameSize.nanos) (k % t.table.length) := by
  simp only [SumsFit, h.table_eq, h.frameSize_eq, h.next_eq, h.datum_eq]

theorem Before.call {s : RuntimeSchedTable} (h : Before t D k s) (hne : t.table ≠ []) (now : Duration)
    (hfit : t.SumsFit (D.nanos + k / t.table.length * t.frameSize.nanos) (k % t.table.length))
    : ∃ call s', s.schedNextCall now = .next (call, s') ∧ Walks t D k call ∧ Before t D (k + 1) s' := by
  have hpos := List.length_pos_of_ne_nil hne
  obtain ⟨entry, hentry, hget⟩ := h.get hne
  obtain ⟨call, s', hcall, ⟨hindex, hdatum, rfl, hend⟩, hnext⟩ :=
    schedNextCall_of_fit now hget (h.sumsFit_iff.mpr hfit)
  have hindex := hindex.trans h.next_eq
  have hdatum : call.datum.nanos = _ := (congrArg Duration.nanos hdatum).trans h.datum_eq
  refine ⟨call, s', hcall, ⟨hindex, ?_, hentry, hdatum, ?_⟩, ?_⟩
  . rw [hindex]
    exact Nat.mod_lt k hpos
  . rw [hend, h.datum_eq, stop, Nat.add_assoc, Nat.add_assoc, Nat.add_assoc]
  . rw [h.table_eq, h.next_eq] at hnext
    obtain ⟨hlt, hdiv, hmod⟩ | ⟨hle, hdiv, hmod⟩ := succ_div_mod (k := k) hpos
    . obtain ⟨hwrap, _⟩ | ⟨_, rfl⟩ := hnext
      . omega
      . exact ⟨rfl, h.frameSize_eq, hmod.symm, by rw [hdiv]; exact h.datum_eq⟩
    . obtain ⟨_, datum, hadd, rfl⟩ | ⟨hlt, _⟩ := hnext
      . rw [Duration.add_eq_some, h.datum_eq, h.frameSize_eq] at hadd
        refine ⟨rfl, h.frameSize_eq, hmod.symm, ?_⟩
        rw [hdiv, Nat.add_mul, Nat.one_mul, ← Nat.add_assoc]
        exact hadd
      . omega

theorem Before.panic {s : RuntimeSchedTable} (h : Before t D k s) (hne : t.table ≠ []) (now : Duration)
    (hfit : ¬ t.SumsFit (D.nanos + k / t.table.length * t.frameSize.nanos) (k % t.table.length))
    : s.schedNextCall now = .panic := by
  obtain ⟨entry, _, hget⟩ := h.get hne
  exact schedNextCall_of_not_fit now hget (fun hsums => hfit (h.sumsFit_iff.mp hsums))

theorem before_start (h : new sortByOffset sortByIdAndOffset frameSize entries = .next (.ok t)) (D : Duration)
    : Before t D 0 (t.start D) := by
  obtain ⟨rfl, _⟩ := new_eq_ok_iff.mp h
  constructor <;> simp [start]

/--
All the sums of the calls up to the one with the number `k` are durations.
-/
def SumsFitUpTo (t : RuntimeSchedTable) (D : Duration) (k : Nat) : Prop :=
  ∀ i ≤ k, t.SumsFit (D.nanos + i / t.table.length * t.frameSize.nanos) (i % t.table.length)

-- The sums of the call with the number `i`.
def FitsAt (t : RuntimeSchedTable) (D : Duration) (i : Nat) : Prop :=
  t.SumsFit (D.nanos + i / t.table.length * t.frameSize.nanos) (i % t.table.length)

-- The calls on a table that is in the state before the call with the number `j`.
theorem Before.nthCall_of_fit {s : RuntimeSchedTable} {j : Nat} (h : Before t D j s) (hne : t.table ≠ [])
    (clock : Nat → Duration) (hfit : ∀ i ≤ k, t.FitsAt D (j + i))
    : ∃ call s', s.nthCall clock k = .next (call, s') ∧ Walks t D (j + k) call ∧
        Before t D (j + k + 1) s' := by
  induction k with
  | zero => exact h.call hne (clock 0) (hfit 0 (Nat.le_refl 0))
  | succ k ih =>
    obtain ⟨_, s', hcall, _, hbefore⟩ := ih (fun i hi => hfit i (Nat.le_succ_of_le hi))
    simp only [nthCall, hcall]
    exact hbefore.call hne _ (hfit (k + 1) (Nat.le_refl _))

theorem Before.nthCall_of_not_fit {s : RuntimeSchedTable} {j : Nat} (h : Before t D j s) (hne : t.table ≠ [])
    (clock : Nat → Duration) (hfit : ¬ ∀ i ≤ k, t.FitsAt D (j + i))
    : s.nthCall clock k = .panic := by
  induction k with
  | zero =>
    apply h.panic hne
    intro hsums
    apply hfit
    intro i hi
    rw [Nat.le_zero.mp hi]
    exact hsums
  | succ k ih =>
    by_cases hfits : ∀ i ≤ k, t.FitsAt D (j + i)
    . obtain ⟨_, s', hcall, _, hbefore⟩ := h.nthCall_of_fit hne clock hfits
      simp only [nthCall, hcall]
      apply hbefore.panic hne
      intro hsums
      apply hfit
      intro i hi
      rcases Nat.lt_or_eq_of_le hi with hlt | rfl
      . exact hfits i (Nat.le_of_lt_succ hlt)
      . exact hsums
    . simp only [nthCall, ih hfits]

theorem sumsFitUpTo_iff : SumsFitUpTo t D k ↔ ∀ i ≤ k, t.FitsAt D (0 + i) := by
  simp only [SumsFitUpTo, FitsAt, Nat.zero_add]

theorem new_table (h : new sortByOffset sortByIdAndOffset frameSize entries = .next (.ok t))
    : t.frameSize = frameSize ∧ t.table = sortByOffset.sort entries ∧ t.table.length = entries.length := by
  obtain ⟨rfl, _⟩ := new_eq_ok_iff.mp h
  exact ⟨rfl, rfl, (sortByOffset.perm entries).length_eq⟩

theorem new_table_ne_nil (h : new sortByOffset sortByIdAndOffset frameSize entries = .next (.ok t))
    : t.table ≠ [] ↔ entries ≠ [] := by
  rw [← List.length_pos_iff, ← List.length_pos_iff, (new_table h).2.2]

/--
The calls on a new table that is started once go through its entries in their order, frame after
frame. They do so as long as their sums are durations, the first sum that is none panics.
-/
theorem nthCall_walks (h : new sortByOffset sortByIdAndOffset frameSize entries = .next (.ok t))
    (hne : entries ≠ []) (D : Duration) (clock : Nat → Duration) (k : Nat)
    : t.table = sortByOffset.sort entries ∧
        (t.SumsFitUpTo D k →
          ∃ call s, (t.start D).nthCall clock k = .next (call, s) ∧ Walks t D k call) ∧
        (¬ t.SumsFitUpTo D k → (t.start D).nthCall clock k = .panic) := by
  have hne := (new_table_ne_nil h).mpr hne
  rw [sumsFitUpTo_iff]
  refine ⟨(new_table h).2.1, ?_, (before_start h D).nthCall_of_not_fit hne clock⟩
  intro hfit
  obtain ⟨call, s, hcall, hwalks, _⟩ := (before_start h D).nthCall_of_fit hne clock hfit
  rw [Nat.zero_add] at hwalks
  exact ⟨call, s, hcall, hwalks⟩

theorem nthCall_twoSlots
    : ∃ t, new (.insertionSort _) (.insertionSort _) (.fromNanos 10) (twoSlots (.fromNanos 5)) =
          .next (.ok t) ∧
        t.SumsFitUpTo (.fromNanos 3) 3 ∧
        ∃ call s, (t.start (.fromNanos 3)).nthCall (fun _ => .zero) 3 = .next (call, s) ∧
          Walks t (.fromNanos 3) 3 call := by
  have h : new (.insertionSort _) (.insertionSort _) (.fromNanos 10) (twoSlots (.fromNanos 5)) =
      .next (.ok ⟨.fromNanos 10, twoSlots (.fromNanos 5), 0, .zero⟩) := by
    decide +kernel
  have hfit : SumsFitUpTo ⟨.fromNanos 10, twoSlots (.fromNanos 5), 0, .zero⟩ (.fromNanos 3) 3 := by
    intro i hi entry hentry
    have hmem := List.mem_of_getElem? hentry
    simp only [twoSlots, List.mem_cons, List.not_mem_nil, or_false] at hmem
    rcases hmem with rfl | rfl
    all_goals
      simp only [stop, Duration.fromNanos, Duration.max, twoSlots, List.length_cons, List.length_nil]
      omega
  exact ⟨_, h, hfit, (nthCall_walks h (by decide) (.fromNanos 3) (fun _ => .zero) 3).2.1 hfit⟩

-- One inspector with the longest frame there is.
def longestFrame : List RuntimeSchedTableEntry := [⟨⟨1⟩, .zero, .max, .fromNanos 1⟩]

theorem nthCall_longestFrame_false
    : ¬ ∀ (sortByOffset : SortUnstable byOffset) (sortByIdAndOffset : SortUnstable byIdAndOffset)
          (frameSize : Duration) (entries : List RuntimeSchedTableEntry) (t : RuntimeSchedTable),
          new sortByOffset sortByIdAndOffset frameSize entries = .next (.ok t) → entries ≠ [] →
            ∀ (D : Duration) (clock : Nat → Duration) (k : Nat),
              ∃ call s, (t.start D).nthCall clock k = .next (call, s) ∧ Walks t D k call := by
  intro hall
  obtain ⟨call, s, hcall, _⟩ := hall (.insertionSort _) (.insertionSort _) .max longestFrame
    ⟨.max, longestFrame, 0, .zero⟩ (by decide +kernel) (by decide) (.fromNanos 1) (fun _ => .zero) 0
  -- the start of the second frame is no duration
  have hpanic : nthCall (start ⟨.max, longestFrame, 0, .zero⟩ (.fromNanos 1)) (fun _ => .zero) 0 = .panic := by
    decide +kernel
  rw [hpanic] at hcall
  simp at hcall

/--
The states of a table while it is in use, also if it is revoked and enacted again.
-/
inductive Used (t : RuntimeSchedTable) : RuntimeSchedTable → Prop where
  | new : Used t t
  | start {s : RuntimeSchedTable} (now : Duration) (h : Used t s) : Used t (s.start now)
  | schedNext {s s' : RuntimeSchedTable} {entry : RuntimeSchedTableEntry} (h : Used t s)
      (hnext : s.schedNext = .next (entry, s')) : Used t s'

theorem Used.next_lt {s : RuntimeSchedTable} (h : Used t s) (hlt : t.next < t.table.length)
    : s.next < s.table.length := by
  induction h with
  | new => exact hlt
  | start now h ih => exact ih
  | schedNext h hnext ih =>
    obtain ⟨_, ⟨_, datum, _, rfl⟩ | ⟨hlt, rfl⟩⟩ := schedNext_cases hnext
    . exact Nat.lt_of_le_of_lt (Nat.zero_le _) ih
    . exact hlt

end

end RuntimeSchedTable

namespace Cpu

variable {c c' : Cpu} {t : RuntimeSchedTable}

/--
The next access of the loop to its schedule table is inside of the bounds.
-/
def ReadsInBounds (c : Cpu) : Prop :=
  c.pc = .tableNext → ∀ t, c.rt.schedTable = some t → t.next < t.table.length

-- The only table that is enacted is `t`.
def EnactsOnly (t : RuntimeSchedTable) (_ : Cpu) (a : CpuAction) : Prop :=
  match a with
  | .op (.enactSchedTable s) => t.Used s
  | _ => True

theorem used_step {a : CpuAction} (h : ∀ s, c.rt.schedTable = some s → t.Used s)
    (hallowed : EnactsOnly t c a) (hstep : c.step a = .next c')
    : ∀ s, c'.rt.schedTable = some s → t.Used s := by
  intro s hs
  cases loopStep hstep with
  | inner _ hrt _ => exact h s (hrt.schedTable ▸ hs)
  | visit hrt _ _ => exact h s (hrt.schedTable ▸ hs)
  | visitEnd hrt _ _ => exact h s (hrt.schedTable ▸ hs)
  | jump hrt _ => exact h s (hrt ▸ hs)
  | wake hrt _ _ => exact h s (hrt ▸ hs)
  | stayAwake hrt _ _ => exact h s (hrt ▸ hs)
  | tableStart htable hrt _ _ =>
    rw [hrt, Option.some.injEq] at hs
    exact hs ▸ .start _ (h _ htable)
  | tableNext htable hnext hrt _ _ =>
    rw [hrt, Option.some.injEq] at hs
    exact hs ▸ .schedNext (h _ htable) hnext
  | opEnact _ hrt _ =>
    rw [hrt, Option.some.injEq] at hs
    exact hs ▸ hallowed
  | opRevoke _ hrt _ => simp [hrt] at hs
  -- the table stays as it is
  | popFront _ hrt _ _ => exact h s (by simpa [hrt] using hs)
  | enter hrt _ _ => exact h s (by simpa [hrt] using hs)
  | exitTable hrt _ _ => exact h s (by simpa [hrt] using hs)
  | exitQueue hrt _ _ => exact h s (by simpa [hrt] using hs)
  | unregister _ hrt _ _ => exact h s (by simpa [hrt] using hs)
  | pushBack _ hrt _ _ => exact h s (by simpa [hrt] using hs)
  | endpoint hrt _ _ => exact h s (by simpa [hrt] using hs)
  | opRegister _ hrt _ => exact h s (by simpa [hrt] using hs)
  | opUnregister _ hrt _ => exact h s (by simpa [hrt] using hs)

theorem used_of_run {as : List CpuAction} (hrun : Run Cpu.step (EnactsOnly t) .boot as c)
    : ∀ s, c.rt.schedTable = some s → t.Used s := by
  apply hrun.invariant (fun c => ∀ s, c.rt.schedTable = some s → t.Used s)
  . simp [boot, Runtime.new]
  . intro c c' a h hallowed hstep
    exact used_step h hallowed hstep

theorem exists_run_tableNext (t : RuntimeSchedTable)
    : ∃ as c, Run Cpu.step (EnactsOnly t) .boot as c ∧ c.pc = .tableNext ∧
        c.rt.schedTable = some (t.start .zero) :=
  ⟨[.op (.enactSchedTable t), .run, .startTable .zero], _,
    .cons .new rfl (.cons trivial rfl (.cons trivial rfl (.nil _))), rfl, rfl⟩

section

open RuntimeSchedTable RuntimeSchedTableEntry

variable {sortByOffset : SortUnstable byOffset} {sortByIdAndOffset : SortUnstable byIdAndOffset}
  {frameSize : Duration} {entries : List RuntimeSchedTableEntry}

/--
A table that was accepted can be run without an access out of its bounds if and only if it has an entry.
-/
theorem readsInBounds_iff
    (h : RuntimeSchedTable.new sortByOffset sortByIdAndOffset frameSize entries = .next (.ok t))
    : (∀ as c, Run Cpu.step (EnactsOnly t) .boot as c → c.ReadsInBounds) ↔ entries ≠ [] := by
  have hnext : t.next = 0 := by
    obtain ⟨rfl, _⟩ := new_eq_ok_iff.mp h
    rfl
  rw [← new_table_ne_nil h, ← List.length_pos_iff]
  constructor
  . intro hall
    obtain ⟨as, c, hrun, hpc, htable⟩ := exists_run_tableNext t
    have hlt := hall as c hrun hpc _ htable
    simp only [RuntimeSchedTable.start, hnext] at hlt
    exact hlt
  . intro hpos as c hrun _ s hs
    exact (used_of_run hrun s hs).next_lt (hnext ▸ hpos)

end

theorem readsInBounds_twoSlots
    : ∃ t, RuntimeSchedTable.new (.insertionSort _) (.insertionSort _) (.fromNanos 10)
          (RuntimeSchedTable.twoSlots (.fromNanos 5)) = .next (.ok t) ∧
        ∀ as c, Run Cpu.step (EnactsOnly t) .boot as c → c.ReadsInBounds := by
  have h : RuntimeSchedTable.new (.insertionSort _) (.insertionSort _) (.fromNanos 10)
      (RuntimeSchedTable.twoSlots (.fromNanos 5)) =
        .next (.ok ⟨.fromNanos 10, RuntimeSchedTable.twoSlots (.fromNanos 5), 0, .zero⟩) := by
    decide +kernel
  exact ⟨_, h, (readsInBounds_iff h).mpr (by decide)⟩

theorem readsInBounds_nil_false
    : ¬ ∀ (sortByOffset : SortUnstable RuntimeSchedTableEntry.byOffset)
          (sortByIdAndOffset : SortUnstable RuntimeSchedTableEntry.byIdAndOffset) (frameSize : Duration)
          (entries : List RuntimeSchedTableEntry) (t : RuntimeSchedTable),
          RuntimeSchedTable.new sortByOffset sortByIdAndOffset frameSize entries = .next (.ok t) →
            ∀ as c, Run Cpu.step (EnactsOnly t) .boot as c → c.ReadsInBounds := by
  intro hall
  have hreads := hall (.insertionSort _) (.insertionSort _) (.fromNanos 10) []
    ⟨.fromNanos 10, [], 0, .zero⟩ (by decide +kernel)
  obtain ⟨as, c, hrun, hpc, htable⟩ := exists_run_tableNext ⟨.fromNanos 10, [], 0, .zero⟩
  have hlt := hreads as c hrun hpc _ htable
  simp [RuntimeSchedTable.start] at hlt

end Cpu

namespace TimedCpu

/--
The rest of `sched_next` on a CPU with its events is the call on its table, and the event that the call
creates for the end of its slot is in the queue of the CPU.
-/
theorem finishNext_call {s s' : TimedCpu} (hpc : s.cpu.pc = .tableNext) (h : s.finishNext = .next s')
    (now : Duration)
    : ∃ t call t', s.cpu.rt.schedTable = some t ∧ t.schedNextCall now = .next (call, t') ∧
        s'.cpu.rt.schedTable = some t' ∧ s'.slot = some (call.datum, call.entry) ∧
        (call.slotEnd, ⟨s.nextId⟩) ∈ s'.events.queue := by
  unfold finishNext at h
  split at h
  next => simp at h
  next t entry start hslot =>
    split at h
    next => simp at h
    next stop hstop =>
      obtain ⟨c, hstep, rfl⟩ := Outcome.map_eq_next h
      simp only [nextSlot, Option.bind_eq_some_iff, Option.map_eq_some_iff, Prod.mk.injEq] at hslot
      obtain ⟨t', htable, entry', hentry, start', hstart, rfl, rfl, rfl⟩ := hslot
      simp only [Cpu.step, Cpu.runStep, hpc, Runtime.schedTableNext, htable,
        ← t'.map_schedNextCall now] at hstep
      cases hcall : t'.schedNextCall now with
      | panic => simp [hcall] at hstep
      | disabled => simp [hcall] at hstep
      | next result =>
        obtain ⟨call, t''⟩ := result
        simp only [hcall, Outcome.map_next, Outcome.next.injEq] at hstep
        obtain ⟨hdatum, hcallEntry, hend⟩ := RuntimeSchedTable.schedNextCall_eq hcall
        rw [hentry, Option.some.injEq] at hcallEntry
        subst hcallEntry
        refine ⟨t', call, t'', htable, hcall, by rw [← hstep], by rw [hdatum], ?_⟩
        rw [hstart, Option.bind_some, hstop, Option.some.injEq] at hend
        simp [create, TimedEventQueue.add, hend]

end TimedCpu

end Jrinx
