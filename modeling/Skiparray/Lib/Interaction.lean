import Skiparray.Lib.Fallible

/-!
# Systems and their clients

A system is asked one request at a time and replies; its client chooses the next
request by what it has asked and heard so far. A specification says which requests
a client may make and what the system may reply. A system that meets each permitted
request serves every client that keeps to what is permitted, for as long as they
go on.
-/

namespace Interaction

variable {σ α ρ ω ε : Type}

/-- What is permitted, and what may happen then. -/
structure Spec (α ρ ω : Type) where
  Legal : α → ρ → Prop
  Step : α → ρ → ω → α → Prop

/-- The next request, given the requests so far and their replies; or none. -/
abbrev Client (ρ ω : Type) : Type := List (ρ × ω) → Option ρ

/-- What the client may have asked and heard, and what that leads to. -/
inductive Spec.Plays (S : Spec α ρ ω) (client : Client ρ ω) (a₀ : α) : List (ρ × ω) → α → Prop where
  | start : Plays S client a₀ [] a₀
  | next {history : List (ρ × ω)} {a a' : α} {req : ρ} {reply : ω} (h : Plays S client a₀ history a)
      (hreq : client history = some req) (hlegal : S.Legal a req) (hstep : S.Step a req reply a') :
      Plays S client a₀ (history ++ [(req, reply)]) a'

/-- The client never asks for what is not permitted, whatever it may have heard. -/
def Spec.Keeps (S : Spec α ρ ω) (client : Client ρ ω) (a₀ : α) : Prop :=
  ∀ history a req, S.Plays client a₀ history a → client history = some req → S.Legal a req

/-- A client and a system, for `n` more requests. -/
def play (step : σ → ρ → Except ε (ω × σ)) (client : Client ρ ω) :
    ℕ → List (ρ × ω) → σ → Except ε (List (ρ × ω) × σ)
  | 0, history, s => .ok (history, s)
  | n + 1, history, s =>
    match client history with
    | none => .ok (history, s)
    | some req => do
      let (reply, s) ← step s req
      play step client n (history ++ [(req, reply)]) s

/-- In states related by `R`, the system meets what the specification permits. -/
def Meets (step : σ → ρ → Except ε (ω × σ)) (S : Spec α ρ ω) (R : σ → α → Prop) : Prop :=
  ∀ s a req, R s a → S.Legal a req →
    ∃ reply s' a', step s req = .ok (reply, s') ∧ S.Step a req reply a' ∧ R s' a'

variable {step : σ → ρ → Except ε (ω × σ)} {S : Spec α ρ ω} {R : σ → α → Prop}
  {client : Client ρ ω} {a₀ a : α} {s : σ} {history : List (ρ × ω)}

theorem Meets.play_from (h : Meets step S R) (hk : S.Keeps client a₀) : ∀ (n : ℕ)
    {history : List (ρ × ω)} {s : σ} {a : α}, S.Plays client a₀ history a → R s a →
    ∃ history' s' a', play step client n history s = .ok (history', s') ∧
      S.Plays client a₀ history' a' ∧ R s' a'
  | 0, history, s, a, hp, hr => ⟨history, s, a, rfl, hp, hr⟩
  | n + 1, history, s, a, hp, hr => by
      rw [play]
      cases hreq : client history with
      | none => exact ⟨history, s, a, rfl, hp, hr⟩
      | some req =>
          have hlegal := hk history a req hp hreq
          obtain ⟨reply, s', a', hstep, hspec, hr'⟩ := h s a req hr hlegal
          simp only [hstep, Fallible.ok_bind]
          exact h.play_from hk n (hp.next hreq hlegal hspec) hr'

/-- A system that meets each permitted request serves every client that makes no
other: it comes back, and what the client hears is what the specification allows. -/
theorem Meets.play (h : Meets step S R) (hk : S.Keeps client a₀) (hr : R s a₀) (n : ℕ) :
    ∃ history s' a, play step client n [] s = .ok (history, s') ∧ S.Plays client a₀ history a ∧
      R s' a :=
  h.play_from hk n .start hr

/-- What each permitted step carries on, all that a client does carries on. -/
theorem Spec.Plays.carries {P : List (ρ × ω) → α → Prop} (hp : S.Plays client a₀ history a)
    (h₀ : P [] a₀) (hstep : ∀ history a req reply a', P history a → S.Legal a req →
      S.Step a req reply a' → P (history ++ [(req, reply)]) a') : P history a := by
  induction hp with
  | start => exact h₀
  | next _ _ hlegal hspec ih => exact hstep _ _ _ _ _ ih hlegal hspec

end Interaction
