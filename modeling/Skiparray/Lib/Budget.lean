import Mathlib

/-!
# Loops on a budget

A loop that is run for a number of iterations at most: `loop fuel s` is its
outcome from state `s`. A run that comes to an end by itself is described one
iteration at a time, with no budget to stop it.

- `Stops`, `Turns` — what one iteration does, whatever the budget;
- `Winds` — the loop ends, and every iteration on the way moves `onward`;
- `winds_of_bound` — a loop with a bound on the iterations to go ends;
- `Winds.eq` — any larger budget is enough.
-/

namespace Budget

variable {σ β : Type}

/-- The loop ends in `s` with `r`. -/
def Stops (loop : ℕ → σ → β) (s : σ) (r : β) : Prop := ∀ fuel, loop (fuel + 1) s = r

/-- One iteration leads from `s` to `s'`. -/
def Turns (loop : ℕ → σ → β) (s s' : σ) : Prop := ∀ fuel, loop (fuel + 1) s = loop fuel s'

/-- From `s` the loop comes to its end, with `r`, after at most `n` iterations
that each move `onward`. -/
inductive Winds (loop : ℕ → σ → β) (onward : σ → σ → Prop) : ℕ → σ → β → Prop
  | stop {n : ℕ} {s : σ} {r : β} (h : Stops loop s r) : Winds loop onward n s r
  | turn {n : ℕ} {s s' : σ} {r : β} (h : Turns loop s s') (ho : onward s s')
      (hw : Winds loop onward n s' r) : Winds loop onward (n + 1) s r

variable {loop : ℕ → σ → β} {onward : σ → σ → Prop} {n m : ℕ} {s : σ} {r : β}

theorem Winds.mono (h : Winds loop onward n s r) (hle : n ≤ m) : Winds loop onward m s r := by
  induction h generalizing m with
  | stop h => exact .stop h
  | turn h ho _ ih =>
      obtain ⟨k, rfl⟩ := Nat.exists_eq_succ_of_ne_zero (Nat.ne_of_gt (Nat.zero_lt_of_lt hle))
      exact .turn h ho (ih (Nat.le_of_succ_le_succ hle))

/-- A budget beyond the bound is enough. -/
theorem Winds.eq (h : Winds loop onward n s r) {fuel : ℕ} (hf : n < fuel) : loop fuel s = r := by
  induction h generalizing fuel with
  | stop h =>
      obtain ⟨k, rfl⟩ := Nat.exists_eq_succ_of_ne_zero (Nat.ne_of_gt (Nat.zero_lt_of_lt hf))
      exact h k
  | turn h _ _ ih =>
      obtain ⟨k, rfl⟩ := Nat.exists_eq_succ_of_ne_zero (Nat.ne_of_gt (Nat.zero_lt_of_lt hf))
      exact (h k).trans (ih (Nat.lt_of_succ_lt_succ hf))

/-- If `Inv n s` promises at most `n` more iterations, and each iteration keeps
the promise, the loop ends. -/
theorem winds_of_bound {Inv : ℕ → σ → Prop} {Post : β → Prop}
    (hstep : ∀ n s, Inv n s → (∃ r, Stops loop s r ∧ Post r) ∨
      ∃ m s', m < n ∧ Turns loop s s' ∧ onward s s' ∧ Inv m s') :
    ∀ {n : ℕ} {s : σ}, Inv n s → ∃ r, Post r ∧ Winds loop onward n s r := by
  intro n
  induction n using Nat.strong_induction_on with
  | _ n ih =>
      intro s hs
      rcases hstep n s hs with ⟨r, hstop, hr⟩ | ⟨m, s', hlt, hturn, ho, hs'⟩
      · exact ⟨r, hr, .stop hstop⟩
      · obtain ⟨r, hr, hw⟩ := ih m hlt hs'
        exact ⟨r, hr, (Winds.turn hturn ho hw).mono hlt⟩

end Budget
