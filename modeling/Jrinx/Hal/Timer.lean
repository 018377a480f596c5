import Jrinx.Time

/-!
This module contains the conversions between durations and ticks of the RISC-V `time` counter, from
`hal/src/arch/riscv/cpu.rs`. The arithmetic wraps around, as it does in a release build.
-/

namespace Jrinx

namespace Cpu

def getTime (freq ticks : Nat) : Duration :=
  if freq ≠ 0 then
    ⟨ticks * 10 ^ 9 % 2 ^ 64 / freq, by
      have hmod : ticks * 10 ^ 9 % 2 ^ 64 < 2 ^ 64 := Nat.mod_lt _ (by decide)
      have hdiv : ticks * 10 ^ 9 % 2 ^ 64 / freq ≤ ticks * 10 ^ 9 % 2 ^ 64 := Nat.div_le_self _ _
      omega⟩
  else
    .zero

def timerTicks (freq : Nat) (next : Duration) : Nat :=
  next.nanos * freq % 2 ^ 128 / 10 ^ 9 % 2 ^ 64

theorem timerTicks_le (freq : Nat) (next : Duration)
    : timerTicks freq next * 10 ^ 9 ≤ next.nanos * freq := by
  unfold timerTicks
  calc
    next.nanos * freq % 2 ^ 128 / 10 ^ 9 % 2 ^ 64 * 10 ^ 9
      ≤ next.nanos * freq % 2 ^ 128 / 10 ^ 9 * 10 ^ 9 := Nat.mul_le_mul_right _ (Nat.mod_le _ _)
    _ ≤ next.nanos * freq % 2 ^ 128 := Nat.div_mul_le_self _ _
    _ ≤ next.nanos * freq := Nat.mod_le _ _

end Cpu

end Jrinx
