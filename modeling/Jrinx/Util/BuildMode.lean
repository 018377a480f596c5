import Jrinx.Util.Ensures

/-!
This module contains the two ways to build a program: in a release build integers wrap around and there are no
debug assertions.
-/

universe u

namespace Jrinx

inductive BuildMode where
  | debug
  | release
  deriving DecidableEq, Repr

-- `debug_assert`
def BuildMode.check {π : Type u} (mode : BuildMode) (why : π) (p : Prop) [Decidable p] : Except (Halt π) Unit :=
  if mode = .debug ∧ ¬ p then throw (.panic why) else return ()

namespace BuildMode

variable {π : Type u} {mode : BuildMode} {why : π} {p : Prop} [Decidable p]

theorem check_of (h : p) : mode.check why p = .ok () := by
  rw [check, if_neg fun hfails => hfails.2 h]
  rfl

theorem check_eq_ok_iff : mode.check why p = .ok () ↔ (mode = .debug → p) := by
  unfold check
  split
  . next h =>
    constructor
    . intro h
      cases h
    . exact fun himp => absurd (himp h.1) h.2
  . next h =>
    simp only [not_and, not_not] at h
    exact ⟨fun _ => h, fun _ => rfl⟩

theorem check_release : BuildMode.release.check why p = .ok () := by
  rw [check, if_neg fun hfails => by cases hfails.1]
  rfl

theorem check_debug (h : ¬ p) : BuildMode.debug.check why p = .error (.panic why) := by
  rw [check, if_pos ⟨rfl, h⟩]
  rfl

end BuildMode

end Jrinx
