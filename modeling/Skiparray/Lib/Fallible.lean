import Mathlib

/-!
# Computations that may fault

Rules for `Except`-valued programs: how a successful prefix is peeled off a
bind, the inversion of a bind that succeeded, and a counted loop with its
invariant rule. Nothing here depends on what the faults are.
-/

namespace Fallible

variable {ε α β : Type}

@[simp] theorem ok_bind (a : α) (f : α → Except ε β) :
    (Except.ok a >>= f) = f a := rfl

@[simp] theorem error_bind (e : ε) (f : α → Except ε β) :
    ((Except.error e : Except ε α) >>= f) = .error e := rfl

@[simp] theorem pure_eq_ok (a : α) : (pure a : Except ε α) = .ok a := rfl

theorem bind_of_ok {x : Except ε α} {a : α} {f : α → Except ε β} (h : x = .ok a) :
    (x >>= f) = f a := by
  rw [h, ok_bind]

/-- A bind succeeds exactly when both halves do. -/
theorem bind_eq_ok {x : Except ε α} {f : α → Except ε β} {b : β} :
    (x >>= f) = .ok b ↔ ∃ a, x = .ok a ∧ f a = .ok b := by
  cases x with
  | error e => simp
  | ok a => simp

/-- `for (i = 0; i < n; i++) { s = body(i, s) }`. -/
def forUp (body : ℕ → α → Except ε α) : ℕ → α → Except ε α
  | 0, s => .ok s
  | n + 1, s => forUp body n s >>= body n

/-- A counted loop whose body succeeds and keeps `P` runs to its end. -/
theorem forUp_ok {body : ℕ → α → Except ε α} {P : ℕ → α → Prop} :
    ∀ {n : ℕ} {s : α}, P 0 s →
      (∀ i s, i < n → P i s → ∃ s', body i s = .ok s' ∧ P (i + 1) s') →
      ∃ s', forUp body n s = .ok s' ∧ P n s'
  | 0, s, h0, _ => ⟨s, rfl, h0⟩
  | n + 1, s, h0, hstep => by
      obtain ⟨s₁, h₁, hP₁⟩ := forUp_ok (n := n) h0
        fun i s hi hP => hstep i s (by omega) hP
      obtain ⟨s₂, h₂, hP₂⟩ := hstep n s₁ (by omega) hP₁
      exact ⟨s₂, by rw [forUp, h₁, ok_bind, h₂], hP₂⟩

end Fallible
