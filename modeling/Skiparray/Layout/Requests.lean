import Skiparray.Layout.Build
import Skiparray.Layout.FoldInit

/-!
# Counting requests

How many requests for memory an operation makes if none is refused; it succeeds
if and only if none of those is.
-/

namespace Skiparray

open SkipLinks Fallible

variable {K V U W : Type}

/-- From `c` to `c'`: `n` requests if all are met, which is so if and only if `met`. -/
structure Takes (cb : Callbacks K U) (c : Ctx K V U) (n : ℕ) (met : Prop) (c' : Ctx K V U) :
    Prop where
  iff : met ↔ ∀ i < n, cb.grant (c.requests + i) = true
  requests : met → c'.requests = c.requests + n

section Takes

variable {cb : Callbacks K U} {c c₁ c₂ : Ctx K V U} {m n : ℕ} {met : Prop}

theorem Takes.refl (c : Ctx K V U) : Takes cb c 0 True c :=
  ⟨⟨fun _ i hi => absurd hi (Nat.not_lt_zero i), fun _ => trivial⟩, fun _ => rfl⟩

theorem Takes.congr {c₀ : Ctx K V U} (h : Takes cb c n met c₁) (hstart : c₀.requests = c.requests)
    (hreq : c₂.requests = c₁.requests) : Takes cb c₀ n met c₂ := by
  constructor
  · rw [hstart]
    exact h.iff
  · intro hm
    rw [hreq, hstart]
    exact h.requests hm

theorem Takes.alloc {o : Option ℕ} (h : c.alloc cb = (o, c₁)) :
    Takes cb c 1 (o.isSome = true) c₁ := by
  rw [Ctx.alloc, Prod.mk.injEq] at h
  obtain ⟨rfl, rfl⟩ := h
  constructor
  · constructor
    · intro hsome i hi
      obtain rfl : i = 0 := Nat.lt_one_iff.mp hi
      by_contra hno
      rw [Nat.add_zero] at hno
      rw [if_neg hno] at hsome
      cases hsome
    · intro hall
      have hgrant : cb.grant c.requests = true := hall 0 Nat.one_pos
      rw [if_pos hgrant]
      rfl
  · intro _
    rfl

/-- The requests that come after `n` met ones. -/
theorem Takes.then (h₁ : Takes cb c n True c₁) (h₂ : Takes cb c₁ m met c₂) :
    Takes cb c (n + m) met c₂ := by
  have hreq := h₁.requests trivial
  constructor
  · rw [h₂.iff, hreq]
    constructor
    · intro hall i hi
      by_cases hin : i < n
      · exact h₁.iff.mp trivial i hin
      · obtain ⟨j, rfl⟩ := Nat.exists_eq_add_of_le (Nat.le_of_not_lt hin)
        rw [← Nat.add_assoc]
        exact hall j (Nat.lt_of_add_lt_add_left hi)
    · intro hall i hi
      rw [Nat.add_assoc]
      exact hall (n + i) (Nat.add_lt_add_left hi n)
  · intro hm
    rw [h₂.requests hm, hreq, Nat.add_assoc]

/-- No requests come after one that was refused. -/
theorem Takes.stop (h : Takes cb c n False c₁) (m : ℕ) (c₂ : Ctx K V U) :
    Takes cb c (n + m) False c₂ := by
  constructor
  · constructor
    · intro hno
      exact hno.elim
    · intro hall
      exact h.iff.mpr fun i hi => hall i (Nat.lt_add_right m hi)
  · intro hno
    exact hno.elim

theorem Takes.of_iff {met' : Prop} (h : Takes cb c n met c₁) (hiff : met' ↔ met) :
    Takes cb c n met' c₁ := ⟨hiff.trans h.iff, fun hm => h.requests (hiff.mp hm)⟩

theorem Takes.alloc_some {block : ℕ} (h : c.alloc cb = (some block, c₁)) : Takes cb c 1 True c₁ :=
  (Takes.alloc h).of_iff (by simp)

theorem Takes.alloc_none (h : c.alloc cb = (none, c₁)) : Takes cb c 1 False c₁ :=
  (Takes.alloc h).of_iff (by simp)

end Takes

section Operations

variable [Inhabited K] [Inhabited V] {cb : Callbacks K U} {c c' : Ctx K V U}

/-- The requests for a node: the node, its keys, and its values if it has any. -/
def nodeRequests (useValues : Bool) : ℕ := if useValues then 3 else 2

theorem nodeAlloc_takes {height nodeSize : ℕ} {useValues : Bool} {r : Option (Node K V)}
    (h : nodeAlloc cb height nodeSize useValues c = .ok (r, c')) :
    Takes cb c (nodeRequests useValues) (r.isSome = true) c' := by
  obtain ⟨-, -, h⟩ := bind_eq_ok.mp h
  obtain ⟨-, -, h⟩ := bind_eq_ok.mp h
  have hmore : nodeRequests useValues = 1 + (1 + (if useValues then 1 else 0)) := by
    cases useValues with
    | true => rfl
    | false => rfl
  rw [hmore]
  rcases h₁ : c.alloc cb with ⟨_ | block, c₁⟩
  · rw [h₁] at h
    cases h
    exact ((Takes.alloc_none h₁).stop _ _).of_iff (by simp)
  rw [h₁] at h
  refine (Takes.alloc_some h₁).then ?_
  rcases h₂ : c₁.alloc cb with ⟨_ | keysBlock, c₂⟩
  · simp only [h₂] at h
    cases h
    exact ((Takes.alloc_none h₂).stop _ _).of_iff (by simp)
  simp only [h₂] at h
  refine (Takes.alloc_some h₂).then ?_
  cases hu : useValues with
  | false =>
      rw [hu] at h
      cases h
      exact (Takes.refl c').of_iff (by simp)
  | true =>
      rw [hu] at h
      rcases h₃ : c₂.alloc cb with ⟨_ | valuesBlock, c₃⟩
      · simp only [h₃, if_true] at h
        cases h
        exact ((Takes.alloc_none h₃).stop 0 _).of_iff (by simp)
      · simp only [h₃, if_true] at h
        cases h
        exact (Takes.alloc_some h₃).of_iff (by simp)

/-- `skiparray_new` asks for the skiparray and its first node. -/
theorem skiparrayNew_takes {config : Config} (hcmp : config.cmp ≠ none) (hsize : config.nodeSize ≠ 1)
    {res : NewRes} {osa : Option (SkipArray K V)}
    (h : skiparrayNew cb (some config) c = .ok (res, osa, c')) :
    Takes cb c (1 + nodeRequests (!config.ignoreValues)) (res = .ok) c' := by
  obtain ⟨cmp, hcmp⟩ := Option.ne_none_iff_exists'.mp hcmp
  simp only [skiparrayNew, hcmp, if_neg hsize] at h
  rcases h₁ : c.alloc cb with ⟨_ | block, c₁⟩
  · rw [h₁] at h
    cases h
    exact ((Takes.alloc_none h₁).stop _ _).of_iff (by simp)
  rw [h₁] at h
  refine (Takes.alloc_some h₁).then ?_
  obtain ⟨⟨r, c₂⟩, halloc, h⟩ := bind_eq_ok.mp h
  have htakes : Takes cb c₁ _ _ c₂ := (nodeAlloc_takes halloc).congr rfl rfl
  cases r with
  | none =>
      cases h
      exact ((htakes.of_iff (by simp)).stop 0 _).of_iff (by simp)
  | some root =>
      cases h
      exact htakes.of_iff (by simp)

/-- `skiparray_builder_new` asks for the builder besides. -/
theorem skiparrayBuilderNew_takes {config : Config} (hcmp : config.cmp ≠ none)
    (hsize : config.nodeSize ≠ 1) {skip : Bool} {res : BuilderNewRes} {ob : Option (Builder K V)}
    (h : skiparrayBuilderNew cb (some config) skip c = .ok (res, ob, c')) :
    Takes cb c (1 + nodeRequests (!config.ignoreValues) + 1) (res = .ok) c' := by
  obtain ⟨⟨r, osa, c₁⟩, hnew, h⟩ := bind_eq_ok.mp h
  have htakes := skiparrayNew_takes hcmp hsize hnew
  cases r with
  | errorNull =>
      cases h
      exact ((htakes.of_iff (by simp)).stop _ _).of_iff (by simp)
  | errorConfig =>
      cases h
      exact ((htakes.of_iff (by simp)).stop _ _).of_iff (by simp)
  | errorMemory =>
      cases h
      exact ((htakes.of_iff (by simp)).stop _ _).of_iff (by simp)
  | ok =>
      refine (htakes.of_iff (by simp)).then ?_
      cases osa with
      | none => cases h
      | some sa =>
          rcases halloc : c₁.alloc cb with ⟨_ | block, c₂⟩
          · simp only [halloc] at h
            obtain ⟨c₃, -, h⟩ := bind_eq_ok.mp h
            cases h
            exact ((Takes.alloc_none halloc).stop 0 _).of_iff (by simp)
          · simp only [halloc] at h
            obtain ⟨last, -, h⟩ := bind_eq_ok.mp h
            obtain ⟨nd, -, h⟩ := bind_eq_ok.mp h
            obtain ⟨sa', -, h⟩ := bind_eq_ok.mp h
            obtain ⟨trail, -, h⟩ := bind_eq_ok.mp h
            cases h
            exact (Takes.alloc_some halloc).of_iff (by simp)

/-- A fold of one skiparray asks for its state, its queue, and an iterator unless
the skiparray is empty. -/
theorem openFold_takes {type : FoldType}
    {fold : K → V → W → Ctx K V U → Except Fault (W × Ctx K V U)}
    {merge : Option (MergeFun K V U W)} {sas sas' : List (SkipArray K V)} {sa sa₀ : SkipArray K V}
    {g : ℕ} {cmp : K → K → ℤ} {bs : List (Block K V)} {its : List Ptr} {res : FoldRes}
    {fs : Option (FoldState K V U W)} (hsa : sas[g]? = some sa) (hwf : sa.Wf cmp bs)
    (hcur : sa.Cursors its)
    (h : openFold cb type fold merge sas c [g] sa₀ = .ok (res, fs, sas', c')) :
    Takes cb c (1 + (1 + if (bindings bs).isEmpty then 0 else 1)) (res = .ok) c' := by
  unfold openFold at h
  rcases h₁ : c.alloc cb with ⟨_ | block, c₁⟩
  · rw [h₁] at h
    cases h
    exact ((Takes.alloc_none h₁).stop _ _).of_iff (by simp)
  rw [h₁] at h
  refine (Takes.alloc_some h₁).then ?_
  rcases h₂ : c₁.alloc cb with ⟨_ | idsBlock, c₂⟩
  · simp only [h₂] at h
    cases h
    exact ((Takes.alloc_none h₂).stop _ _).of_iff (by simp)
  simp only [h₂] at h
  refine (Takes.alloc_some h₂).then ?_
  obtain ⟨rit, it, sa₁, c₃, hit, hout⟩ := skiparrayIterNew_spec cb hwf hcur c₂
  rw [initIters, slot_of_getElem? hsa, ok_bind, hit, ok_bind] at h
  cases hout with
  | empty hnil =>
      cases h
      rw [hnil]
      exact (Takes.refl c').of_iff (by simp)
  | memory hne ha =>
      rw [if_neg (by simpa using hne)]
      obtain ⟨loop, hloop, h⟩ := bind_eq_ok.mp h
      cases hloop
      obtain ⟨⟨sas₁, c₄⟩, -, h⟩ := bind_eq_ok.mp h
      cases h
      exact ((Takes.alloc_none ha).stop 0 _).of_iff (by simp)
  | ok hne ha =>
      rw [if_neg (by simpa using hne)]
      obtain ⟨⟨done, iters, live, sas₁, c₄⟩, hseek, h⟩ := bind_eq_ok.mp h
      obtain ⟨sa₂, -, hseek⟩ := bind_eq_ok.mp hseek
      cases hseek
      cases h
      exact (Takes.alloc_some ha).of_iff (by simp)

end Operations

end Skiparray
