import Jrinx.Util.Outcome

/-!
This module contains calls that may come to a halt, either because they panic or because what they were
given cannot happen in the current state, and the rules to prove that a call only halts for certain
reasons and what holds of its result.
-/

universe u v w

inductive Halt (π : Type u) where
  | panic (why : π)
  -- Nothing like this happens in the current state.
  | disabled
  deriving DecidableEq, Repr

namespace Outcome

variable {π : Type u} {σ : Type v}

def ofExcept (m : Except (Halt π) σ) : Outcome σ :=
  match m with
  | .ok s => .next s
  | .error (.panic _) => .panic
  | .error .disabled => .disabled

theorem ofExcept_eq_next {m : Except (Halt π) σ} {s : σ} (h : ofExcept m = .next s) : m = .ok s := by
  unfold ofExcept at h
  split at h
  . simpa using h
  . simp at h
  . simp at h

end Outcome

theorem Except.bind_eq_ok_iff {ε : Type u} {α β : Type v} {m : Except ε α} {f : α → Except ε β} {b : β}
    : m >>= f = .ok b ↔ ∃ a, m = .ok a ∧ f a = .ok b := by
  cases m with
  | ok a =>
    constructor
    . exact fun h => ⟨a, rfl, h⟩
    . rintro ⟨_, ⟨⟩, h⟩
      exact h
  | error e =>
    constructor
    . intro h
      cases h
    . rintro ⟨_, h, _⟩
      cases h

theorem Except.pure_eq_ok_iff {ε : Type u} {α : Type v} {a b : α}
    : (pure a : Except ε α) = .ok b ↔ a = b := by
  constructor
  . rintro ⟨⟩
    rfl
  . rintro rfl
    rfl

/--
If `m` returns then its value meets `post`, and if it halts then for a reason that meets `halt`.
-/
def Ensures {ε : Type u} {α : Type v} (m : Except ε α) (halt : ε → Prop) (post : α → Prop) : Prop :=
  match m with
  | .ok a => post a
  | .error e => halt e

namespace Ensures

variable {ε : Type u} {α β : Type v} {m : Except ε α} {halt : ε → Prop} {post : α → Prop}

theorem pure {a : α} (h : post a) : Ensures (Pure.pure a : Except ε α) halt post := h

theorem throw {e : ε} (h : halt e) : Ensures (throw e : Except ε α) halt post := h

theorem bind {f : α → Except ε β} {post' : β → Prop} (h : Ensures m halt post)
    (hf : ∀ a, post a → Ensures (f a) halt post')
    : Ensures (m >>= f) halt post' := by
  cases m with
  | ok a => exact hf a h
  | error e => exact h

theorem bind_any {f : α → Except ε β} {post' : β → Prop} (hhalt : ∀ e, halt e)
    (hf : ∀ a, Ensures (f a) halt post')
    : Ensures (m >>= f) halt post' := by
  cases m with
  | ok a => exact hf a
  | error e => exact hhalt e

theorem map {f : α → β} {post' : β → Prop} (h : Ensures m halt post) (hf : ∀ a, post a → post' (f a))
    : Ensures (f <$> m) halt post' := by
  cases m with
  | ok a => exact hf a h
  | error e => exact h

theorem mono {post' : α → Prop} (h : Ensures m halt post) (hpost : ∀ a, post a → post' a)
    : Ensures m halt post' := by
  cases m with
  | ok a => exact hpost a h
  | error e => exact h

theorem mono_halt {halt' : ε → Prop} (h : Ensures m halt post) (himp : ∀ e, halt e → halt' e)
    : Ensures m halt' post := by
  cases m with
  | ok a => exact h
  | error e => exact himp e h

theorem ok {a : α} (h : Ensures m halt post) (ha : m = .ok a) : post a := by
  rw [ha] at h
  exact h

theorem error {e : ε} (h : Ensures m halt post) (he : m = .error e) : halt e := by
  rw [he] at h
  exact h

theorem exists_ok (h : Ensures m (fun _ => False) post) : ∃ a, m = .ok a ∧ post a := by
  cases m with
  | ok a => exact ⟨a, rfl, h⟩
  | error e => exact h.elim

theorem eq_error {e : ε} (h : Ensures m (· = e) (fun _ => False)) : m = .error e := by
  cases m with
  | ok a => exact h.elim
  | error e' => exact congrArg Except.error h

instance [DecidablePred halt] [DecidablePred post] : Decidable (Ensures m halt post) :=
  match m with
  | .ok a => inferInstanceAs (Decidable (post a))
  | .error e => inferInstanceAs (Decidable (halt e))

end Ensures
