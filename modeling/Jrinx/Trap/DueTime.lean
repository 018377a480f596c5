import Jrinx.Hal.Timer
import Jrinx.TimedEvent.Queue

/-!
This module relates the two conversions of `hal/src/arch/riscv/cpu.rs`: the tick count that
`set_timer` programs for a time, and the time that `get_time` reads at a tick count.
-/

namespace Jrinx

namespace Cpu

/--
Every reading of the clock from the programmed tick on is at or past `d`, and an event at `d` that
is the first one of its queue is due then.
-/
def NeverEarly (freq : Nat) (d : Duration) : Prop :=
  ∀ n, timerTicks freq d ≤ n → n * 10 ^ 9 < 2 ^ 64 →
    d ≤ getTime freq n ∧
    ∀ (q : TimedEventQueue) (tracker : TimedEventTracker),
      q.peek = .next (some tracker) → tracker.time = d →
        q.peekOutdated (getTime freq n) = .next (some tracker)

theorem getTime_nanos {freq n : Nat} (hfreq : 0 < freq) (h : n * 10 ^ 9 < 2 ^ 64)
    : (getTime freq n).nanos = n * 10 ^ 9 / freq := by
  unfold getTime
  rw [if_pos (by omega)]
  simp only [Nat.mod_eq_of_lt h]

theorem le_getTime_iff {freq n : Nat} {d : Duration} (hfreq : 0 < freq) (h : n * 10 ^ 9 < 2 ^ 64)
    : d ≤ getTime freq n ↔ d.nanos * freq ≤ n * 10 ^ 9 := by
  rw [Duration.le_def, getTime_nanos hfreq h, Nat.le_div_iff_mul_le hfreq]

theorem timerTicks_of_lt {freq : Nat} {d : Duration} (h : d.nanos * freq < 2 ^ 64)
    : timerTicks freq d = d.nanos * freq / 10 ^ 9 := by
  unfold timerTicks
  have hdiv : d.nanos * freq / 10 ^ 9 ≤ d.nanos * freq := Nat.div_le_self _ _
  rw [Nat.mod_eq_of_lt (Nat.lt_trans h (by decide)), Nat.mod_eq_of_lt (Nat.lt_of_le_of_lt hdiv h)]

theorem le_timerTicks_iff {freq : Nat} {d : Duration} (h : timerTicks freq d * 10 ^ 9 < 2 ^ 64)
    : d.nanos * freq ≤ timerTicks freq d * 10 ^ 9
        ↔
      10 ^ 9 ∣ d.nanos * freq ∧ d.nanos * freq < 2 ^ 64 := by
  constructor
  . intro hle
    have heq : d.nanos * freq = timerTicks freq d * 10 ^ 9 :=
      Nat.le_antisymm hle (timerTicks_le freq d)
    refine ⟨?_, by omega⟩
    rw [heq]
    exact Nat.dvd_mul_left _ _
  . rintro ⟨hdvd, hlt⟩
    rw [timerTicks_of_lt hlt, Nat.div_mul_cancel hdvd]

end Cpu

theorem TimedEventQueue.peekOutdated_of_le {q : TimedEventQueue} {tracker : TimedEventTracker}
    {now : Duration} (hpeek : q.peek = .next (some tracker)) (hle : tracker.time ≤ now)
    : q.peekOutdated now = .next (some tracker) := by
  simp [peekOutdated, hpeek, Outcome.map, Option.filter, hle]

namespace Cpu

theorem neverEarly_iff {freq : Nat} {d : Duration} (hfreq : 0 < freq)
    : NeverEarly freq d
        ↔
      (10 ^ 9 ∣ d.nanos * freq ∧ d.nanos * freq < 2 ^ 64)
        ∨ 2 ^ 64 ≤ d.nanos * freq % 2 ^ 128 / 10 ^ 9 % 2 ^ 64 * 10 ^ 9 := by
  constructor
  . intro h
    by_cases hticks : timerTicks freq d * 10 ^ 9 < 2 ^ 64
    . have hdue := (h _ (Nat.le_refl _) hticks).1
      rw [le_getTime_iff hfreq hticks] at hdue
      exact Or.inl ((le_timerTicks_iff hticks).mp hdue)
    . exact Or.inr (Nat.le_of_not_lt hticks)
  . intro h n hn hlt
    have hmul : timerTicks freq d * 10 ^ 9 ≤ n * 10 ^ 9 := Nat.mul_le_mul_right _ hn
    have hticks : timerTicks freq d * 10 ^ 9 < 2 ^ 64 := Nat.lt_of_le_of_lt hmul hlt
    have hexact := h.resolve_right (Nat.not_le_of_lt hticks)
    have hdue : d ≤ getTime freq n :=
      (le_getTime_iff hfreq hlt).mpr (Nat.le_trans ((le_timerTicks_iff hticks).mpr hexact) hmul)
    refine ⟨hdue, ?_⟩
    intro q tracker hpeek htime
    exact TimedEventQueue.peekOutdated_of_le hpeek (htime ▸ hdue)

-- A whole number of microseconds on a clock of 10 MHz.
theorem neverEarly_micros : NeverEarly 10000000 (.fromNanos 1000000) :=
  (neverEarly_iff (by decide)).mpr (Or.inl (by decide))

def betweenTicks : TimedEventTracker where
  id := ⟨1⟩
  cpuId := 0
  time := .fromNanos 1000000050

theorem not_neverEarly_betweenTicks
    : (TimedEventQueue.new.add betweenTicks).peek = .next (some betweenTicks) ∧
      timerTicks 10000000 betweenTicks.time ≤ 10000000 ∧
      (TimedEventQueue.new.add betweenTicks).peekOutdated (getTime 10000000 10000000) = .next none ∧
      ¬NeverEarly 10000000 betweenTicks.time := by
  have hpeek : (TimedEventQueue.new.add betweenTicks).peek = .next (some betweenTicks) := by
    decide +kernel
  have hticks : timerTicks 10000000 betweenTicks.time ≤ 10000000 := by decide
  have hout : (TimedEventQueue.new.add betweenTicks).peekOutdated (getTime 10000000 10000000) =
      .next none := by
    decide +kernel
  refine ⟨hpeek, hticks, hout, ?_⟩
  intro h
  have hdue := (h 10000000 hticks (by decide)).2 _ _ hpeek rfl
  rw [hout] at hdue
  simp at hdue

end Cpu

end Jrinx
