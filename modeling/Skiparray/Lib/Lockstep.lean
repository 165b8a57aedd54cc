import Skiparray.Lib.Fallible

/-!
# Computations in lockstep

Two programs that may fault run in lockstep when both come back, with related
results, or both fault in the same way. The rules follow the shape of the
programs: a bind, a counted loop, a list of elements.
-/

namespace Fallible

variable {ε α β γ δ : Type}

/-- Two computations with results related by `R`, or with the same fault. -/
inductive Together (R : α → β → Prop) : Except ε α → Except ε β → Prop where
  | ok {a : α} {b : β} (h : R a b) : Together R (.ok a) (.ok b)
  | error (e : ε) : Together R (.error e) (.error e)

namespace Together

variable {R R' : α → β → Prop} {S : γ → δ → Prop} {x : Except ε α} {y : Except ε β}

theorem refl (x : Except ε α) : Together Eq x x := by
  cases x with
  | error e => exact .error e
  | ok a => exact .ok rfl

theorem eq {x y : Except ε α} (h : Together Eq x y) : x = y := by
  cases h with
  | ok hab => exact congrArg Except.ok hab
  | error e => rfl

theorem mono (h : Together R x y) (himp : ∀ a b, R a b → R' a b) : Together R' x y := by
  cases h with
  | ok hab => exact .ok (himp _ _ hab)
  | error e => exact .error e

/-- A bind whose continuations may use where their arguments come from. -/
theorem bind_of (h : Together R x y) {f : α → Except ε γ} {g : β → Except ε δ}
    (hfg : ∀ a b, x = .ok a → y = .ok b → R a b → Together S (f a) (g b)) :
    Together S (x >>= f) (y >>= g) := by
  cases h with
  | ok hab => exact hfg _ _ rfl rfl hab
  | error e => exact .error e

theorem bind (h : Together R x y) {f : α → Except ε γ} {g : β → Except ε δ}
    (hfg : ∀ a b, R a b → Together S (f a) (g b)) : Together S (x >>= f) (y >>= g) :=
  h.bind_of fun a b _ _ => hfg a b

/-- Two continuations of one computation. -/
theorem same (x : Except ε α) {f : α → Except ε γ} {g : α → Except ε δ}
    (hfg : ∀ a, Together S (f a) (g a)) : Together S (x >>= f) (x >>= g) := by
  apply (refl x).bind
  rintro a b rfl
  exact hfg a

/-- What both results say is said alike. -/
theorem map_eq (h : Together R x y) {f : α → γ} {g : β → γ} (hfg : ∀ a b, R a b → f a = g b) :
    x.map f = y.map g := by
  cases h with
  | ok hab => exact congrArg Except.ok (hfg _ _ hab)
  | error e => rfl

/-- Results that are related once they are mapped. -/
theorem of_map {f : α → γ} {g : β → δ} (h : Together S (x.map f) (y.map g)) :
    Together (fun a b => S (f a) (g b)) x y := by
  cases x with
  | error e =>
      cases y with
      | error e' =>
          cases h
          exact .error e
      | ok b => cases h
  | ok a =>
      cases y with
      | error e' => cases h
      | ok b =>
          cases h with
          | ok hab => exact .ok hab

theorem of_ok (h : Together R x y) {a : α} (hx : x = .ok a) : ∃ b, y = .ok b ∧ R a b := by
  subst hx
  cases h with
  | ok hab => exact ⟨_, rfl, hab⟩

/-- Two counted loops whose bodies keep related states related. -/
theorem forUp {body : ℕ → α → Except ε α} {body' : ℕ → β → Except ε β}
    (hstep : ∀ i a b, R a b → Together R (body i a) (body' i b)) :
    ∀ (n : ℕ) {a : α} {b : β}, R a b →
      Together R (Fallible.forUp body n a) (Fallible.forUp body' n b)
  | 0, _, _, h => .ok h
  | n + 1, _, _, h => (Together.forUp hstep n h).bind fun a b hab => hstep n a b hab

end Together

end Fallible
