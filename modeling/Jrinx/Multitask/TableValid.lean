import Jrinx.Multitask.SchedTable
import Jrinx.Util.Progression

/-!
This module contains the proof of what the check of a new schedule table decides: the slots of one frame
are in order, and the activations of every inspector over all frames are an arithmetic progression. It
does not look at the slots that reach into the next frame.
-/

namespace Jrinx

open Progression

namespace RuntimeSchedTableEntry

def stop (e : RuntimeSchedTableEntry) : Nat := e.offset.nanos + e.duration.nanos

def slot (frameSize : Duration) (k : Nat) (e : RuntimeSchedTableEntry) : Set Nat :=
  Set.Ico (k * frameSize.nanos + e.offset.nanos) (k * frameSize.nanos + e.stop)

end RuntimeSchedTableEntry

namespace RuntimeSchedTable

open RuntimeSchedTableEntry

variable {frameSize : Duration} {entries table : List RuntimeSchedTableEntry}
  {sortByOffset : SortUnstable byOffset} {sortByIdAndOffset : SortUnstable byIdAndOffset}

def InOrder (table : List RuntimeSchedTableEntry) : Prop :=
  table.IsChain (fun e e' => e.stop ≤ e'.offset.nanos)

theorem validSlots_iff
    : validSlots frameSize table = .next true ↔ (∀ e ∈ table, e.offset < frameSize) ∧ InOrder table := by
  fun_induction validSlots frameSize table with
  | case1 => simp [InOrder]
  | case2 entry => simp [InOrder]
  | case3 entry nextEntry table hlt hnone =>
    simp only [reduceCtorEq, false_iff, not_and, InOrder, List.isChain_cons_cons]
    intro _ hle
    -- the sum is bounded by the next offset
    have hsome := Duration.add_eq_some (a := entry.offset) (b := entry.duration)
      (c := ⟨entry.stop, Nat.lt_of_le_of_lt hle nextEntry.offset.isLt⟩)
    rw [hnone] at hsome
    simp [stop] at hsome
  | case4 entry nextEntry table hlt stop hstop hle ih =>
    rw [Duration.add_eq_some] at hstop
    rw [Duration.le_def, hstop] at hle
    rw [ih]
    simp only [InOrder, List.isChain_cons_cons, List.forall_mem_cons]
    simp only [hlt, true_and]
    exact ⟨fun h => ⟨h.1, hle, h.2⟩, fun h => ⟨h.1, h.2.2⟩⟩
  | case5 entry nextEntry table hlt stop hstop hle =>
    rw [Duration.add_eq_some] at hstop
    rw [Duration.le_def, hstop] at hle
    simp only [Outcome.next.injEq, Bool.false_eq_true, false_iff, not_and, InOrder, List.isChain_cons_cons]
    intro _ hle'
    exact absurd hle' hle
  | case6 entry nextEntry table hlt => simp [hlt]

theorem valid_iff {t : RuntimeSchedTable}
    : t.valid sortByIdAndOffset = .next true ↔
        validSlots t.frameSize t.table = .next true ∧
          ∀ g ∈ SortedGroups.groups (·.inspectorId.val) (sortByIdAndOffset.sort t.table),
            sameParameters g = true ∧ ∀ e ∈ windows g, inPeriod t.frameSize e = .next true := by
  simp only [valid, Outcome.and_eq_true_iff, Outcome.all_eq_true_iff, Outcome.next.injEq, List.all_eq_true]
  exact and_congr_right fun _ => forall₂_and.symm

theorem new_eq_ok_iff {t : RuntimeSchedTable}
    : new sortByOffset sortByIdAndOffset frameSize entries = .next (.ok t) ↔
        t = ⟨frameSize, sortByOffset.sort entries, 0, .zero⟩ ∧
          t.valid sortByIdAndOffset = .next true := by
  simp only [new]
  constructor
  . intro h
    obtain ⟨valid, hvalid, h⟩ := Outcome.map_eq_next h
    split at h
    . next htrue =>
      simp only [Except.ok.injEq] at h
      subst h htrue
      exact ⟨rfl, hvalid⟩
    . simp at h
  . rintro ⟨rfl, hvalid⟩
    rw [hvalid]
    rfl

theorem new_slots {t : RuntimeSchedTable}
    (h : new sortByOffset sortByIdAndOffset frameSize entries = .next (.ok t))
    : t.frameSize = frameSize ∧ t.table.Perm entries ∧ (∀ e ∈ t.table, e.offset < frameSize) ∧
        t.table.Pairwise (fun e e' => e.stop ≤ e'.offset.nanos) := by
  obtain ⟨rfl, hvalid⟩ := new_eq_ok_iff.mp h
  obtain ⟨hlt, horder⟩ := validSlots_iff.mp (valid_iff.mp hvalid).1
  have htrans : IsTrans RuntimeSchedTableEntry (fun e e' => e.stop ≤ e'.offset.nanos) := by
    constructor
    intro e e' e'' h h'
    unfold stop at *
    omega
  exact ⟨rfl, sortByOffset.perm entries, hlt, List.isChain_iff_pairwise.mp horder⟩

/--
No slot reaches into a slot of the next frame.
-/
def EndsInFrame (frameSize : Duration) (entries : List RuntimeSchedTableEntry) : Prop :=
  ∀ e ∈ entries, ∀ e' ∈ entries, e'.duration ≠ .zero → e.stop ≤ frameSize.nanos + e'.offset.nanos

def Apart (frameSize : Duration) (k : Nat) (e : RuntimeSchedTableEntry) (l : Nat)
    (e' : RuntimeSchedTableEntry) : Prop :=
  ∀ time ∈ e.slot frameSize k, time ∉ e'.slot frameSize l

/--
The time slots of all entries over all frames are disjoint.
-/
def Exclusive (t : RuntimeSchedTable) : Prop :=
  ∀ (i j : Fin t.table.length) (k l : Nat), (i, k) ≠ (j, l) →
    Apart t.frameSize k t.table[i] l t.table[j]

section

variable {e e' : RuntimeSchedTableEntry} {k l : Nat}

theorem Apart.symm (h : Apart frameSize k e l e') : Apart frameSize l e' k e :=
  fun time htime' htime => h time htime htime'

theorem apart_of_le (h : k * frameSize.nanos + e.stop ≤ l * frameSize.nanos + e'.offset.nanos)
    : Apart frameSize k e l e' := by
  intro time htime htime'
  simp only [slot, Set.mem_Ico] at htime htime'
  omega

theorem apart_of_zero (h : e'.duration = .zero) : Apart frameSize k e l e' := by
  intro time _ htime'
  simp only [slot, stop, h, Duration.zero, Set.mem_Ico] at htime'
  omega

theorem apart_of_lt (hends : EndsInFrame frameSize entries) (he : e ∈ entries) (he' : e' ∈ entries)
    (hlt : k < l)
    : Apart frameSize k e l e' := by
  by_cases hzero : e'.duration = .zero
  . exact apart_of_zero hzero
  . apply apart_of_le
    have hstop := hends e he e' he' hzero
    have hframes : (k + 1) * frameSize.nanos ≤ l * frameSize.nanos := Nat.mul_le_mul_right _ hlt
    rw [Nat.add_mul, Nat.one_mul] at hframes
    omega

end

theorem exclusive_of_endsInFrame {t : RuntimeSchedTable}
    (h : new sortByOffset sortByIdAndOffset frameSize entries = .next (.ok t))
    (hends : EndsInFrame frameSize entries)
    : t.Exclusive := by
  obtain ⟨hframe, hperm, _, horder⟩ := new_slots h
  have horder := List.pairwise_iff_getElem.mp horder
  have hmem (i : Fin t.table.length) : t.table[i] ∈ entries := hperm.mem_iff.mp (List.getElem_mem _)
  intro i j k l hne
  rw [hframe]
  rcases Nat.lt_trichotomy k l with hkl | rfl | hlk
  . exact apart_of_lt hends (hmem i) (hmem j) hkl
  . rcases Nat.lt_trichotomy i j with hij | hij | hji
    . apply apart_of_le
      have := horder i j i.isLt j.isLt hij
      simp only [Fin.getElem_fin]
      omega
    . exact absurd (by rw [Fin.ext hij]) hne
    . apply Apart.symm
      apply apart_of_le
      have := horder j i j.isLt i.isLt hji
      simp only [Fin.getElem_fin]
      omega
  . exact (apart_of_lt hends (hmem j) (hmem i) hlk).symm

theorem endsInFrame_of_exclusive {t : RuntimeSchedTable}
    (h : new sortByOffset sortByIdAndOffset frameSize entries = .next (.ok t)) (hexclusive : t.Exclusive)
    : EndsInFrame frameSize entries := by
  obtain ⟨hframe, hperm, hlt, _⟩ := new_slots h
  intro e he e' he' hzero
  obtain ⟨i, hi, rfl⟩ := List.mem_iff_getElem.mp (hperm.mem_iff.mpr he)
  obtain ⟨j, hj, rfl⟩ := List.mem_iff_getElem.mp (hperm.mem_iff.mpr he')
  have hapart := hexclusive ⟨i, hi⟩ ⟨j, hj⟩ 0 1 (by simp)
  have hoffset : (t.table[i]).offset.nanos < frameSize.nanos := hlt _ (List.getElem_mem hi)
  have hduration : (t.table[j]).duration.nanos ≠ 0 := fun hnanos => hzero (Duration.eq_of_nanos hnanos)
  rw [hframe] at hapart
  -- otherwise the later slot begins inside of the earlier one
  by_contra hstop
  apply hapart (frameSize.nanos + (t.table[j]).offset.nanos)
  . simp only [slot, Set.mem_Ico, Fin.getElem_fin]
    omega
  . simp only [slot, stop, Set.mem_Ico, Fin.getElem_fin]
    omega

/--
The slots of an accepted table are exclusive if and only if no slot reaches into the next frame too far.
-/
theorem exclusive_iff_endsInFrame {t : RuntimeSchedTable}
    (h : new sortByOffset sortByIdAndOffset frameSize entries = .next (.ok t))
    : t.Exclusive ↔ EndsInFrame frameSize entries :=
  ⟨endsInFrame_of_exclusive h, exclusive_of_endsInFrame h⟩

instance : Decidable (EndsInFrame frameSize entries) :=
  inferInstanceAs (Decidable (∀ e ∈ entries, ∀ e' ∈ entries, _ → _))

def twoSlots (duration : Duration) : List RuntimeSchedTableEntry :=
  -- Two inspectors that share a frame of 10 ns, the second one begins at 5 ns.
  [⟨⟨1⟩, .fromNanos 0, .fromNanos 10, .fromNanos 2⟩, ⟨⟨2⟩, .fromNanos 5, .fromNanos 10, duration⟩]

theorem exclusive_twoSlots
    : ∃ t, new (.insertionSort _) (.insertionSort _) (.fromNanos 10) (twoSlots (.fromNanos 5)) =
          .next (.ok t) ∧
        t.Exclusive := by
  have h : new (.insertionSort _) (.insertionSort _) (.fromNanos 10) (twoSlots (.fromNanos 5)) =
      .next (.ok ⟨.fromNanos 10, twoSlots (.fromNanos 5), 0, .zero⟩) := by
    decide +kernel
  exact ⟨_, h, (exclusive_iff_endsInFrame h).mpr (by decide +kernel)⟩

theorem exclusive_twoSlots_false
    : ¬ ∀ (sortByOffset : SortUnstable byOffset) (sortByIdAndOffset : SortUnstable byIdAndOffset)
          (frameSize : Duration) (entries : List RuntimeSchedTableEntry) (t : RuntimeSchedTable),
          new sortByOffset sortByIdAndOffset frameSize entries = .next (.ok t) → t.Exclusive := by
  intro hall
  have hexclusive := hall (.insertionSort _) (.insertionSort _) (.fromNanos 10) (twoSlots (.fromNanos 8))
    ⟨.fromNanos 10, twoSlots (.fromNanos 8), 0, .zero⟩ (by decide +kernel)
  -- the slot from 5 ns to 13 ns and the one from 10 ns to 12 ns
  apply hexclusive ⟨1, by decide⟩ ⟨0, by decide⟩ 0 1 (by simp) 11
  . simp [slot, stop, twoSlots, Duration.fromNanos]
  . simp [slot, stop, twoSlots, Duration.fromNanos]

section

variable {e₁ e₂ : RuntimeSchedTableEntry} {period : Duration}

theorem actualPeriod_of_lt (hlt : e₁.offset.nanos < e₂.offset.nanos)
    : actualPeriod frameSize e₁ e₂ = some period ↔
        e₂.offset.nanos = e₁.offset.nanos + period.nanos := by
  have hnot : ¬ e₂.offset ≤ e₁.offset := by
    rw [Duration.le_def]
    omega
  rw [actualPeriod, if_neg hnot, Duration.sub_eq_some]

theorem actualPeriod_of_le (hle : e₂.offset.nanos ≤ e₁.offset.nanos)
    (hsome : (e₂.offset.add frameSize).isSome = true)
    : actualPeriod frameSize e₁ e₂ = some period ↔
        e₂.offset.nanos + frameSize.nanos = e₁.offset.nanos + period.nanos := by
  obtain ⟨sum, hsum⟩ := Option.isSome_iff_exists.mp hsome
  rw [actualPeriod, if_pos (Duration.le_def.mpr hle), hsum, Option.bind_some, Duration.sub_eq_some,
    Duration.add_eq_some.mp hsum]

theorem inPeriod_iff {e : RuntimeSchedTableEntry × RuntimeSchedTableEntry}
    : inPeriod frameSize e = .next true ↔ actualPeriod frameSize e.1 e.2 = some e.1.period := by
  unfold inPeriod
  split
  . next hnone => simp [hnone]
  . next period hsome => simp [hsome]

end

theorem forall_mem_zip_tail_iff {α : Type} {R : α → α → Prop} {l : List α}
    : (∀ e ∈ l.zip l.tail, R e.1 e.2) ↔ l.IsChain R := by
  induction l with
  | nil => simp
  | cons a l ih =>
    cases l with
    | nil => simp
    | cons b l => simpa [List.isChain_cons_cons] using fun _ => ih

def activations (frameSize : Duration) (entries : List RuntimeSchedTableEntry) (id : InspectorId)
    : Set Nat :=
  {t | ∃ k, ∃ e ∈ entries, e.inspectorId = id ∧ t = k * frameSize.nanos + e.offset.nanos}

/--
The entries of the inspector of `e` agree on its period and duration, and its activations are an
arithmetic progression with this period.
-/
def Periodic (frameSize : Duration) (entries : List RuntimeSchedTableEntry) (e : RuntimeSchedTableEntry)
    : Prop :=
  (∀ e' ∈ entries, e'.inspectorId = e.inspectorId → e'.period = e.period ∧ e'.duration = e.duration) ∧
    IsProgression (activations frameSize entries e.inspectorId) e.period.nanos

theorem sameParameters_iff {g : List RuntimeSchedTableEntry} {e : RuntimeSchedTableEntry} (he : e ∈ g)
    : sameParameters g = true ↔ ∀ e' ∈ g, e'.period = e.period ∧ e'.duration = e.duration := by
  cases g with
  | nil => simp at he
  | cons head tail =>
    simp only [sameParameters, List.all_eq_true, Bool.and_eq_true, decide_eq_true_eq]
    constructor
    . intro h
      have hhead : ∀ e' ∈ head :: tail, e'.period = head.period ∧ e'.duration = head.duration := by
        intro e' he'
        rcases List.mem_cons.mp he' with rfl | he'
        . exact ⟨rfl, rfl⟩
        . exact h e' he'
      intro e' he'
      rw [(hhead e he).1, (hhead e he).2]
      exact hhead e' he'
    . intro h e' he'
      obtain ⟨hperiod, hduration⟩ := h head (by simp)
      rw [hperiod, hduration]
      exact h e' (by simp [he'])

theorem isChain_actualPeriod_iff {g : List RuntimeSchedTableEntry} {period : Duration}
    (hsorted : g.Pairwise (fun e e' => e.offset.nanos < e'.offset.nanos))
    (hperiod : ∀ e ∈ g, e.period = period)
    : g.IsChain (fun e e' => actualPeriod frameSize e e' = some e.period) ↔
        (g.map (·.offset.nanos)).IsChain (fun o o' => o' = o + period.nanos) := by
  rw [List.isChain_map, List.isChain_iff_getElem, List.isChain_iff_getElem]
  apply forall₂_congr
  intro i hi
  rw [actualPeriod_of_lt (List.pairwise_iff_getElem.mp hsorted i (i + 1) _ _ (by omega)),
    hperiod _ (List.getElem_mem _)]

theorem windows_iff {g : List RuntimeSchedTableEntry} {period : Duration}
    (hsorted : g.Pairwise (fun e e' => e.offset.nanos < e'.offset.nanos))
    (hperiod : ∀ e ∈ g, e.period = period) (hsome : ∀ e ∈ g, (e.offset.add frameSize).isSome = true)
    : (∀ e ∈ windows g, inPeriod frameSize e = .next true) ↔
        Cyclic frameSize.nanos period.nanos (g.map (·.offset.nanos)) := by
  simp only [windows, inPeriod_iff]
  rw [forall_mem_zip_tail_iff (R := fun e e' => actualPeriod frameSize e e' = some e.period), Cyclic,
    List.isChain_append, List.isChain_append, isChain_actualPeriod_iff hsorted hperiod]
  apply and_congr_right
  intro _
  cases g with
  | nil => simp
  | cons first rest =>
    -- only the step from the last entry to the first one of the next frame is left
    simp only [List.take_succ_cons, List.take_zero, List.isChain_singleton, List.head?_cons,
      Option.mem_def, Option.some.injEq, forall_eq', true_and, List.map_cons, List.map_nil]
    have hlast : ((first :: rest).map (·.offset.nanos)).getLast? =
        ((first :: rest).getLast?).map (·.offset.nanos) := List.getLast?_map
    rw [← List.map_cons (f := fun e : RuntimeSchedTableEntry => e.offset.nanos), hlast]
    obtain ⟨last, hlast⟩ : ∃ last, (first :: rest).getLast? = some last :=
      ⟨_, List.getLast?_eq_some_getLast (by simp)⟩
    have hmem : last ∈ first :: rest := List.mem_of_getLast? hlast
    have hle : first.offset.nanos ≤ last.offset.nanos := by
      rcases List.mem_cons.mp hmem with rfl | hrest
      . exact Nat.le_refl _
      . exact ((List.pairwise_cons.mp hsorted).1 last hrest).le
    simp only [hlast, Option.some.injEq, forall_eq', Option.map_some]
    rw [actualPeriod_of_le hle (hsome first (by simp)), hperiod last hmem]

theorem group_sorted {id : InspectorId}
    (horder : table.Pairwise (fun e e' => e.offset.nanos < e'.offset.nanos))
    : ((sortByIdAndOffset.sort table).filter (·.inspectorId.val = id.val)).Pairwise
        (fun e e' => e.offset.nanos < e'.offset.nanos) := by
  have hne : (sortByIdAndOffset.sort table).Pairwise (fun e e' => e.offset.nanos ≠ e'.offset.nanos) := by
    rw [(sortByIdAndOffset.perm table).pairwise_iff (fun h => h.symm)]
    exact horder.imp Nat.ne_of_lt
  apply List.Pairwise.imp_of_mem _ (((sortByIdAndOffset.sorted table).and hne).filter _)
  intro e e' he he' h
  have hid : e.inspectorId.val = id.val := by simpa using (List.mem_filter.mp he).2
  have hid' : e'.inspectorId.val = id.val := by simpa using (List.mem_filter.mp he').2
  have hle := h.1
  simp only [byIdAndOffset, Prod.Lex.toLex_le_toLex] at hle
  have := h.2
  omega

theorem activations_eq {g : List RuntimeSchedTableEntry} {id : InspectorId}
    (hg : ∀ e, e ∈ g ↔ e ∈ entries ∧ e.inspectorId = id)
    : activations frameSize entries id = repeated frameSize.nanos (g.map (·.offset.nanos)) := by
  ext t
  simp only [activations, repeated, List.mem_map, Set.mem_ofPred_eq]
  constructor
  . rintro ⟨k, e, he, hid, rfl⟩
    exact ⟨k, _, ⟨e, (hg e).mpr ⟨he, hid⟩, rfl⟩, rfl⟩
  . rintro ⟨k, _, ⟨e, he, rfl⟩, rfl⟩
    exact ⟨k, e, ((hg e).mp he).1, ((hg e).mp he).2, rfl⟩

section

variable {e : RuntimeSchedTableEntry} {g : List RuntimeSchedTableEntry}

theorem mem_group_iff (hperm : table.Perm entries)
    (hg : g = (sortByIdAndOffset.sort table).filter (·.inspectorId.val = e.inspectorId.val))
    (e' : RuntimeSchedTableEntry)
    : e' ∈ g ↔ e' ∈ entries ∧ e'.inspectorId = e.inspectorId := by
  rw [hg, List.mem_filter, ((sortByIdAndOffset.perm table).trans hperm).mem_iff, decide_eq_true_eq]
  exact and_congr_right fun _ => ⟨SerialId.eq_of_val, fun h => by rw [h]⟩

theorem isProgression_activations_iff (hperm : table.Perm entries)
    (horder : table.Pairwise (fun e e' => e.offset.nanos < e'.offset.nanos))
    (hlt : ∀ e ∈ entries, e.offset < frameSize) (he : e ∈ entries)
    (hg : g = (sortByIdAndOffset.sort table).filter (·.inspectorId.val = e.inspectorId.val)) {step : Nat}
    : IsProgression (activations frameSize entries e.inspectorId) step ↔
        Cyclic frameSize.nanos step (g.map (·.offset.nanos)) := by
  have hmem := mem_group_iff hperm hg
  have hsorted : g.Pairwise (fun e e' => e.offset.nanos < e'.offset.nanos) := by
    rw [hg]
    exact group_sorted horder
  rw [activations_eq hmem, isProgression_iff_cyclic (List.pairwise_map.mpr hsorted)]
  . intro o ho
    obtain ⟨e', he', rfl⟩ := List.mem_map.mp ho
    exact hlt e' ((hmem e').mp he').1
  . intro hnil
    have hself := (hmem e).mpr ⟨he, rfl⟩
    simp [List.map_eq_nil_iff.mp hnil] at hself

theorem group_iff (hperm : table.Perm entries)
    (horder : table.Pairwise (fun e e' => e.offset.nanos < e'.offset.nanos))
    (hlt : ∀ e ∈ entries, e.offset < frameSize)
    (hsome : ∀ e ∈ entries, (e.offset.add frameSize).isSome = true) (he : e ∈ entries)
    (hg : g = (sortByIdAndOffset.sort table).filter (·.inspectorId.val = e.inspectorId.val))
    : (sameParameters g = true ∧ ∀ e ∈ windows g, inPeriod frameSize e = .next true) ↔
        Periodic frameSize entries e := by
  have hmem := mem_group_iff hperm hg
  have hsorted : g.Pairwise (fun e e' => e.offset.nanos < e'.offset.nanos) := by
    rw [hg]
    exact group_sorted horder
  have hsame : (∀ e' ∈ g, e'.period = e.period ∧ e'.duration = e.duration) ↔
      ∀ e' ∈ entries, e'.inspectorId = e.inspectorId → e'.period = e.period ∧ e'.duration = e.duration := by
    simp only [hmem, and_imp]
  rw [sameParameters_iff ((hmem e).mpr ⟨he, rfl⟩), Periodic, hsame]
  apply and_congr_right
  intro hall
  rw [isProgression_activations_iff hperm horder hlt he hg]
  apply windows_iff hsorted
  . intro e' he'
    exact (hsame.mpr hall e' he').1
  . intro e' he'
    exact hsome e' ((hmem e').mp he').1

theorem length_group (hperm : table.Perm entries)
    (hg : g = (sortByIdAndOffset.sort table).filter (·.inspectorId.val = e.inspectorId.val))
    : g.length = (entries.filter (·.inspectorId = e.inspectorId)).length := by
  have hid (e' : RuntimeSchedTableEntry)
      : decide (e'.inspectorId.val = e.inspectorId.val) = decide (e'.inspectorId = e.inspectorId) := by
    rw [decide_eq_decide]
    exact ⟨SerialId.eq_of_val, fun h => by rw [h]⟩
  simp only [hid] at hg
  rw [hg]
  exact (((sortByIdAndOffset.perm table).trans hperm).filter _).length_eq

theorem Periodic.frame_eq (h : Periodic frameSize entries e) (hperm : table.Perm entries)
    (horder : table.Pairwise (fun e e' => e.offset.nanos < e'.offset.nanos))
    (hlt : ∀ e ∈ entries, e.offset < frameSize) (he : e ∈ entries)
    (hg : g = (sortByIdAndOffset.sort table).filter (·.inspectorId.val = e.inspectorId.val))
    : frameSize.nanos = (entries.filter (·.inspectorId = e.inspectorId)).length * e.period.nanos := by
  have hcyclic := (isProgression_activations_iff hperm horder hlt he hg).mp h.2
  have hself := (mem_group_iff hperm hg e).mpr ⟨he, rfl⟩
  have hframe := hcyclic.frame_eq (by
    intro hnil
    simp [List.map_eq_nil_iff.mp hnil] at hself)
  rw [List.length_map, length_group hperm hg] at hframe
  exact hframe

end

theorem pairwise_offset (hduration : ∀ e ∈ table, e.duration ≠ .zero) (horder : InOrder table)
    : table.Pairwise (fun e e' => e.offset.nanos < e'.offset.nanos) := by
  have htrans : IsTrans RuntimeSchedTableEntry (fun e e' => e.offset.nanos < e'.offset.nanos) :=
    ⟨fun _ _ _ h h' => h.trans h'⟩
  rw [← List.isChain_iff_pairwise, List.isChain_iff_getElem]
  intro i hi
  have hle := List.isChain_iff_getElem.mp horder i hi
  have hne := hduration _ (List.getElem_mem (show i < table.length by omega))
  have hpos : (table[i]).duration.nanos ≠ 0 := fun hnanos => hne (Duration.eq_of_nanos hnanos)
  unfold stop at hle
  omega

theorem new_ok_iff_periodic (hduration : ∀ e ∈ entries, e.duration ≠ .zero)
    (hsome : ∀ e ∈ entries, (e.offset.add frameSize).isSome = true)
    : (∃ t, new sortByOffset sortByIdAndOffset frameSize entries = .next (.ok t)) ↔
        (∀ e ∈ entries, e.offset < frameSize) ∧ InOrder (sortByOffset.sort entries) ∧
          ∀ e ∈ entries, Periodic frameSize entries e := by
  have hperm := sortByOffset.perm entries
  have hsorted : (sortByIdAndOffset.sort (sortByOffset.sort entries)).Pairwise
      (fun e e' => e.inspectorId.val ≤ e'.inspectorId.val) := by
    apply (sortByIdAndOffset.sorted _).imp
    intro e e' hle
    simp only [byIdAndOffset, Prod.Lex.toLex_le_toLex] at hle
    omega
  simp only [new_eq_ok_iff, exists_eq_left, valid_iff, validSlots_iff, and_assoc, hperm.mem_iff]
  apply and_congr_right
  intro hlt
  apply and_congr_right
  intro horder
  have horder := pairwise_offset (fun e he => hduration e (hperm.mem_iff.mp he)) horder
  rw [SortedGroups.forall_mem_groups_iff hsorted (fun g => sameParameters g = true ∧
    ∀ e ∈ windows g, inPeriod frameSize e = .next true)]
  simp only [((sortByIdAndOffset.perm _).trans hperm).mem_iff]
  apply forall₂_congr
  intro e he
  exact group_iff hperm horder hlt hsome he rfl

theorem Periodic.count_eq {e : RuntimeSchedTableEntry} (h : Periodic frameSize entries e)
    (hduration : ∀ e ∈ entries, e.duration ≠ .zero) (hlt : ∀ e ∈ entries, e.offset < frameSize)
    (horder : InOrder (sortByOffset.sort entries)) (he : e ∈ entries)
    : e.period.nanos ∣ frameSize.nanos ∧
        (entries.filter (·.inspectorId = e.inspectorId)).length = frameSize.nanos / e.period.nanos := by
  have hperm := sortByOffset.perm entries
  have horder := pairwise_offset (fun e he => hduration e (hperm.mem_iff.mp he)) horder
  have hframe := h.frame_eq (g := (SortUnstable.insertionSort byIdAndOffset).sort _ |>.filter
    (·.inspectorId.val = e.inspectorId.val)) hperm horder hlt he rfl
  have hpos : 0 < frameSize.nanos := Nat.lt_of_le_of_lt (Nat.zero_le _) (hlt e he)
  have hperiod : 0 < e.period.nanos := by
    apply Nat.pos_of_ne_zero
    intro hzero
    simp [hframe, hzero] at hpos
  refine ⟨⟨_, by rw [hframe, Nat.mul_comm]⟩, ?_⟩
  rw [hframe, Nat.mul_div_cancel _ hperiod]

/--
A list of entries is accepted if and only if the slots are in order and every inspector is periodic.
Then the period of an inspector divides the frame, and it has one entry for each of its periods.
-/
theorem new_ok_iff (hduration : ∀ e ∈ entries, e.duration ≠ .zero)
    (hsome : ∀ e ∈ entries, (e.offset.add frameSize).isSome = true)
    : ((∃ t, new sortByOffset sortByIdAndOffset frameSize entries = .next (.ok t)) ↔
          (∀ e ∈ entries, e.offset < frameSize) ∧ InOrder (sortByOffset.sort entries) ∧
            ∀ e ∈ entries, Periodic frameSize entries e) ∧
        ((∃ t, new sortByOffset sortByIdAndOffset frameSize entries = .next (.ok t)) →
          ∀ e ∈ entries, e.period.nanos ∣ frameSize.nanos ∧
            (entries.filter (·.inspectorId = e.inspectorId)).length =
              frameSize.nanos / e.period.nanos) := by
  refine ⟨new_ok_iff_periodic hduration hsome, ?_⟩
  intro hok e he
  obtain ⟨hlt, horder, hperiodic⟩ := (new_ok_iff_periodic hduration hsome).mp hok
  exact (hperiodic e he).count_eq hduration hlt horder he

theorem new_twoSlots_ok
    : (∀ e ∈ twoSlots (.fromNanos 5), e.duration ≠ .zero) ∧
        (∀ e ∈ twoSlots (.fromNanos 5), (e.offset.add (.fromNanos 10)).isSome = true) ∧
        ∀ e ∈ twoSlots (.fromNanos 5), Periodic (.fromNanos 10) (twoSlots (.fromNanos 5)) e := by
  have hduration : ∀ e ∈ twoSlots (.fromNanos 5), e.duration ≠ .zero := by decide +kernel
  have hsome : ∀ e ∈ twoSlots (.fromNanos 5), (e.offset.add (.fromNanos 10)).isSome = true := by
    decide +kernel
  have hok : new (.insertionSort _) (.insertionSort _) (.fromNanos 10) (twoSlots (.fromNanos 5)) =
      .next (.ok ⟨.fromNanos 10, twoSlots (.fromNanos 5), 0, .zero⟩) := by
    decide +kernel
  exact ⟨hduration, hsome, ((new_ok_iff hduration hsome).1.mp ⟨_, hok⟩).2.2⟩

end RuntimeSchedTable

end Jrinx
