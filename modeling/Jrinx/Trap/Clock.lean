import Jrinx.Trap.DueTime

/-!
This module contains the range of tick counts in which the clock of `hal/src/arch/riscv/cpu.rs` is
exact. `get_time` multiplies in 64 bits and then divides, so that it is the product and not the time
that has to fit.
-/

namespace Jrinx

theorem TimedEventQueue.peekOutdated_mono {q : TimedEventQueue} {tracker : TimedEventTracker}
    {now later : Duration} (hle : now ≤ later) (h : q.peekOutdated now = .next (some tracker))
    : q.peekOutdated later = .next (some tracker) := by
  unfold peekOutdated at *
  cases hpeek : q.peek with
  | panic | disabled => simp [hpeek, Outcome.map] at h
  | next first =>
    simp only [hpeek, Outcome.map, Outcome.next.injEq, Option.filter_eq_some_iff, decide_eq_true_eq]
      at h ⊢
    exact ⟨h.1, Nat.le_trans h.2 hle⟩

namespace Cpu

/--
If the time of the tick count `n` fits into 64 bits then `get_time` returns it, and no time that is
read at an earlier tick count is past it: an event that was due then is due at `n`.
-/
def ClockExact (freq n : Nat) : Prop :=
  n * 10 ^ 9 / freq < 2 ^ 64 →
    (getTime freq n).nanos = n * 10 ^ 9 / freq ∧
    ∀ m, m ≤ n →
      getTime freq m ≤ getTime freq n ∧
      ∀ (q : TimedEventQueue) (tracker : TimedEventTracker),
        q.peekOutdated (getTime freq m) = .next (some tracker) →
          q.peekOutdated (getTime freq n) = .next (some tracker)

theorem getTime_mono {freq m n : Nat} (hfreq : 0 < freq) (hle : m ≤ n) (h : n * 10 ^ 9 < 2 ^ 64)
    : getTime freq m ≤ getTime freq n := by
  have hmul : m * 10 ^ 9 ≤ n * 10 ^ 9 := Nat.mul_le_mul_right _ hle
  rw [Duration.le_def, getTime_nanos hfreq h, getTime_nanos hfreq (Nat.lt_of_le_of_lt hmul h)]
  exact Nat.div_le_div_right hmul

theorem getTime_nanos_lt {freq n : Nat} (hfreq : 0 < freq) (hlt : freq < 2 ^ 64)
    (h : 2 ^ 64 ≤ n * 10 ^ 9)
    : (getTime freq n).nanos < n * 10 ^ 9 / freq := by
  have hmod : n * 10 ^ 9 % 2 ^ 64 + freq ≤ n * 10 ^ 9 := by omega
  unfold getTime
  rw [if_pos (by omega)]
  calc
    n * 10 ^ 9 % 2 ^ 64 / freq
      < n * 10 ^ 9 % 2 ^ 64 / freq + 1 := Nat.lt_succ_self _
    _ = (n * 10 ^ 9 % 2 ^ 64 + freq) / freq := (Nat.add_div_right _ hfreq).symm
    _ ≤ n * 10 ^ 9 / freq := Nat.div_le_div_right hmod

theorem clockExact_iff {freq n : Nat} (hfreq : 0 < freq) (hlt : freq < 2 ^ 64)
    : ClockExact freq n ↔ n * 10 ^ 9 < 2 ^ 64 ∨ 2 ^ 64 ≤ n * 10 ^ 9 / freq := by
  constructor
  . intro h
    by_cases hfits : n * 10 ^ 9 / freq < 2 ^ 64
    . left
      have hexact := (h hfits).1
      apply Nat.lt_of_not_le
      intro hwrap
      have hshort := getTime_nanos_lt hfreq hlt hwrap
      omega
    . exact Or.inr (Nat.le_of_not_lt hfits)
  . intro h hfits
    have hprod : n * 10 ^ 9 < 2 ^ 64 := h.resolve_right (Nat.not_le_of_lt hfits)
    refine ⟨getTime_nanos hfreq hprod, ?_⟩
    intro m hle
    have hmono := getTime_mono hfreq hle hprod
    exact ⟨hmono, fun q tracker => TimedEventQueue.peekOutdated_mono hmono⟩

theorem clockExact_second : ClockExact 10000000 10000000 :=
  (clockExact_iff (by decide) (by decide)).mpr (by decide)

-- Half an hour after the start of the same clock, the time falls back to its start.
theorem not_clockExact_halfHour
    : (getTime 10000000 18446744073).nanos = 1844674407300 ∧
      18446744074 * 10 ^ 9 / 10000000 = 1844674407400 ∧
      (getTime 10000000 18446744074).nanos = 29 ∧
      ¬ClockExact 10000000 18446744074 := by
  refine ⟨by decide, by decide, by decide, ?_⟩
  intro h
  have hexact := (h (by decide)).1
  revert hexact
  decide

end Cpu

end Jrinx
