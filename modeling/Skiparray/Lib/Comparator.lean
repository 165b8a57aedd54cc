import Mathlib

/-!
# Three-way comparison callbacks

A C comparison callback answers a signed number. `LawfulCmp` says that the
signs describe a total preorder; the lemmas are the order facts a client
needs about mixed strict and weak comparisons. Two keys that compare equal
need not be the same instance.
-/

/-- The signs of `cmp` describe a total preorder. -/
structure LawfulCmp {K : Type} (cmp : K → K → ℤ) : Prop where
  swap : ∀ a b, cmp a b < 0 ↔ 0 < cmp b a
  trans : ∀ a b c, cmp a b ≤ 0 → cmp b c ≤ 0 → cmp a c ≤ 0

namespace LawfulCmp

variable {K V : Type} {cmp : K → K → ℤ}

theorem refl (h : LawfulCmp cmp) (a : K) : cmp a a = 0 := by
  have := h.swap a a
  omega

theorem symm (h : LawfulCmp cmp) {a b : K} (hab : cmp a b = 0) : cmp b a = 0 := by
  have h₁ := h.swap a b
  have h₂ := h.swap b a
  omega

theorem le_of_not_lt (h : LawfulCmp cmp) {a b : K} (hab : ¬ cmp a b < 0) : cmp b a ≤ 0 := by
  have := h.swap a b
  omega

theorem lt_of_lt_of_le (h : LawfulCmp cmp) {a b c : K}
    (hab : cmp a b < 0) (hbc : cmp b c ≤ 0) : cmp a c < 0 := by
  by_contra hac
  have hba := h.trans b c a hbc (h.le_of_not_lt hac)
  have := h.swap a b
  omega

theorem lt_of_le_of_lt (h : LawfulCmp cmp) {a b c : K}
    (hab : cmp a b ≤ 0) (hbc : cmp b c < 0) : cmp a c < 0 := by
  by_contra hac
  have hcb := h.trans c a b (h.le_of_not_lt hac) hab
  have := h.swap b c
  omega

theorem lt_trans (h : LawfulCmp cmp) {a b c : K}
    (hab : cmp a b < 0) (hbc : cmp b c < 0) : cmp a c < 0 :=
  h.lt_of_lt_of_le hab (by omega)

theorem eq_trans (h : LawfulCmp cmp) {a b c : K}
    (hab : cmp a b = 0) (hbc : cmp b c = 0) : cmp a c = 0 := by
  have h₁ := h.trans a b c (le_of_eq hab) (le_of_eq hbc)
  have h₂ := h.trans c b a (le_of_eq (h.symm hbc)) (le_of_eq (h.symm hab))
  have := h.swap a c
  have := h.swap c a
  omega

/-- Equal keys compare alike on the left. -/
theorem congr_left (h : LawfulCmp cmp) {a b : K} (hab : cmp a b = 0) (c : K) :
    cmp a c = 0 ↔ cmp b c = 0 :=
  ⟨fun hac => h.eq_trans (h.symm hab) hac, fun hbc => h.eq_trans hab hbc⟩

/-- Subtraction compares integers. -/
theorem int_sub : LawfulCmp fun a b : ℤ => a - b :=
  ⟨fun a b => by omega, fun a b c _ _ => by omega⟩

end LawfulCmp

/-! ## Strictly ascending bindings -/

/-- The keys of a list of bindings strictly ascend. -/
def Ascending {K V : Type} (cmp : K → K → ℤ) (l : List (K × V)) : Prop :=
  l.Pairwise fun p q => cmp p.1 q.1 < 0

namespace Ascending

variable {K V : Type} {cmp : K → K → ℤ} {l l₁ l₂ : List (K × V)} {p : K × V}

@[simp] theorem nil : Ascending cmp ([] : List (K × V)) := List.Pairwise.nil

@[simp] theorem singleton : Ascending cmp [p] := List.pairwise_singleton _ _

theorem cons_iff :
    Ascending cmp (p :: l) ↔ (∀ q ∈ l, cmp p.1 q.1 < 0) ∧ Ascending cmp l :=
  List.pairwise_cons

theorem append_iff :
    Ascending cmp (l₁ ++ l₂) ↔ Ascending cmp l₁ ∧ Ascending cmp l₂ ∧
      ∀ p ∈ l₁, ∀ q ∈ l₂, cmp p.1 q.1 < 0 :=
  List.pairwise_append

theorem sublist (h : Ascending cmp l) (hs : l₁.Sublist l) : Ascending cmp l₁ :=
  List.Pairwise.sublist hs h

/-- Replacing the pair at a position by one with an equal key keeps the order. -/
theorem replace (hc : LawfulCmp cmp) {k k' : K} {v v' : V}
    (h : Ascending cmp (l₁ ++ (k, v) :: l₂)) (hk : cmp k' k = 0) :
    Ascending cmp (l₁ ++ (k', v') :: l₂) := by
  rw [append_iff, cons_iff] at h ⊢
  obtain ⟨h₁, ⟨hkl, h₂⟩, hx⟩ := h
  refine ⟨h₁, ⟨fun q hq => hc.lt_of_le_of_lt (le_of_eq hk) (hkl q hq), h₂⟩, ?_⟩
  intro p hp q hq
  rcases List.mem_cons.mp hq with rfl | hq
  · have hpk : cmp p.1 k < 0 := hx p hp (k, v) List.mem_cons_self
    exact hc.lt_of_lt_of_le hpk (le_of_eq (hc.symm hk))
  · exact hx p hp q (List.mem_cons_of_mem _ hq)

/-- A key between two halves may be inserted there. -/
theorem insert {k : K} {v : V} (h : Ascending cmp (l₁ ++ l₂))
    (hlo : ∀ p ∈ l₁, cmp p.1 k < 0) (hhi : ∀ q ∈ l₂, cmp k q.1 < 0) :
    Ascending cmp (l₁ ++ (k, v) :: l₂) := by
  rw [append_iff] at h
  rw [append_iff, cons_iff]
  refine ⟨h.1, ⟨hhi, h.2.1⟩, ?_⟩
  intro p hp q hq
  rcases List.mem_cons.mp hq with rfl | hq
  · exact hlo p hp
  · exact h.2.2 p hp q hq

theorem nodup (hc : LawfulCmp cmp) (h : Ascending cmp l) : l.Nodup := by
  apply h.imp
  rintro p _ hlt rfl
  rw [hc.refl] at hlt
  exact lt_irrefl 0 hlt

/-- Ascending lists of the same pairs are the same. -/
theorem eq_of_perm (hc : LawfulCmp cmp) (h₁ : Ascending cmp l₁) (h₂ : Ascending cmp l₂)
    (hp : l₁.Perm l₂) : l₁ = l₂ := by
  apply List.Perm.eq_of_pairwise _ h₁ h₂ hp
  intro p q _ _ hpq hqp
  exact absurd (hc.lt_trans hpq hqp) (by rw [hc.refl]; exact lt_irrefl 0)

theorem eq_of_mem_iff (hc : LawfulCmp cmp) (h₁ : Ascending cmp l₁) (h₂ : Ascending cmp l₂)
    (h : ∀ p, p ∈ l₁ ↔ p ∈ l₂) : l₁ = l₂ :=
  h₁.eq_of_perm hc h₂ ((List.perm_ext_iff_of_nodup (h₁.nodup hc) (h₂.nodup hc)).mpr h)

end Ascending
