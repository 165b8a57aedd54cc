import Skiparray.Lib.OrderedMap

/-!
# Ascending association lists

The executable counterpart of `OrderedMap`: lookup, binding and unbinding on a
list of bindings in ascending order. `below` and `above` cut such a list where
a key belongs; every operation acts at the cut, and the last section says that
it does to the list what the map's operation does to the map.
-/

namespace Assoc

variable {K V : Type} {cmp : K → K → ℤ} {l pre post : List (K × V)} {p : K × V} {k k₀ : K}
  {v v₀ : V}

/-- The bindings with smaller keys than `k`. -/
def below (cmp : K → K → ℤ) (k : K) (l : List (K × V)) : List (K × V) :=
  l.takeWhile fun p => decide (cmp p.1 k < 0)

/-- The bindings from `k` on. -/
def above (cmp : K → K → ℤ) (k : K) (l : List (K × V)) : List (K × V) :=
  l.dropWhile fun p => decide (cmp p.1 k < 0)

/-- The binding of the class of `k`. -/
def find? (cmp : K → K → ℤ) (k : K) (l : List (K × V)) : Option (K × V) :=
  match above cmp k l with
  | [] => none
  | p :: _ => if cmp k p.1 = 0 then some p else none

/-- Bind the class of `k` to `v`. A key instance already there makes way for
`k` if `replaceKey` says so. -/
def put (cmp : K → K → ℤ) (k : K) (v : V) (replaceKey : Bool) (l : List (K × V)) :
    List (K × V) :=
  match above cmp k l with
  | [] => below cmp k l ++ [(k, v)]
  | p :: ps =>
    if cmp k p.1 = 0 then below cmp k l ++ (if replaceKey then k else p.1, v) :: ps
    else below cmp k l ++ (k, v) :: p :: ps

/-- Drop the binding of the class of `k`. -/
def erase (cmp : K → K → ℤ) (k : K) (l : List (K × V)) : List (K × V) :=
  match above cmp k l with
  | [] => l
  | p :: ps => if cmp k p.1 = 0 then below cmp k l ++ ps else l

/-! ## The cut -/

theorem below_append_above : below cmp k l ++ above cmp k l = l :=
  List.takeWhile_append_dropWhile

/-- The cut is where the keys stop being smaller. -/
theorem cut_eq (hlo : ∀ q ∈ pre, cmp q.1 k < 0) (hhi : ∀ q, post.head? = some q → ¬ cmp q.1 k < 0) :
    below cmp k (pre ++ post) = pre ∧ above cmp k (pre ++ post) = post := by
  have hpost : post.takeWhile (fun q => decide (cmp q.1 k < 0)) = [] ∧
      post.dropWhile (fun q => decide (cmp q.1 k < 0)) = post := by
    cases post with
    | nil => exact ⟨rfl, rfl⟩
    | cons q post =>
        have := hhi q rfl
        simp [this]
  have hpre : ∀ q ∈ pre, decide (cmp q.1 k < 0) = true := by
    intro q hq
    simpa using hlo q hq
  unfold below above
  rw [List.takeWhile_append_of_pos hpre, List.dropWhile_append_of_pos hpre, hpost.1, hpost.2]
  simp

/-- `k` is bound, at `p`. -/
structure Hit (cmp : K → K → ℤ) (k : K) (pre : List (K × V)) (p : K × V)
    (post : List (K × V)) : Prop where
  ascending : Ascending cmp (pre ++ p :: post)
  eq : cmp k p.1 = 0

/-- `k` is not bound, and belongs between `pre` and `post`. -/
structure Miss (cmp : K → K → ℤ) (k : K) (pre post : List (K × V)) : Prop where
  lo : ∀ q ∈ pre, cmp q.1 k < 0
  hi : ∀ q ∈ post, cmp k q.1 < 0

theorem Hit.lo (hc : LawfulCmp cmp) (h : Hit cmp k pre p post) : ∀ q ∈ pre, cmp q.1 k < 0 := by
  intro q hq
  have hlt := (Ascending.append_iff.mp h.ascending).2.2 q hq p List.mem_cons_self
  exact hc.lt_of_lt_of_le hlt (le_of_eq (hc.symm h.eq))

theorem Hit.cut (hc : LawfulCmp cmp) (h : Hit cmp k pre p post) :
    below cmp k (pre ++ p :: post) = pre ∧ above cmp k (pre ++ p :: post) = p :: post := by
  refine cut_eq (h.lo hc) ?_
  rintro q hq
  cases hq
  have := hc.symm h.eq
  omega

theorem Miss.cut (hc : LawfulCmp cmp) (h : Miss cmp k pre post) :
    below cmp k (pre ++ post) = pre ∧ above cmp k (pre ++ post) = post := by
  refine cut_eq h.lo ?_
  intro q hq
  have hlt := h.hi q (List.mem_of_mem_head? hq)
  have := hc.swap k q.1
  omega

/-- Either way, a key has one place in an ascending list. -/
theorem hit_or_miss (hc : LawfulCmp cmp) (ha : Ascending cmp l) (k : K) :
    (∃ pre p post, l = pre ++ p :: post ∧ Hit cmp k pre p post) ∨
      ∃ pre post, l = pre ++ post ∧ Miss cmp k pre post := by
  induction l with
  | nil => exact Or.inr ⟨[], [], rfl, by simp, by simp⟩
  | cons q l ih =>
      obtain ⟨hq, hl⟩ := Ascending.cons_iff.mp ha
      rcases lt_trichotomy (cmp k q.1) 0 with hlt | heq | hgt
      · refine Or.inr ⟨[], q :: l, rfl, by simp, ?_⟩
        intro x hx
        rcases List.mem_cons.mp hx with rfl | hx
        · exact hlt
        · exact hc.lt_trans hlt (hq x hx)
      · exact Or.inl ⟨[], q, l, rfl, ha, heq⟩
      · have hqk : cmp q.1 k < 0 := (hc.swap q.1 k).mpr hgt
        rcases ih hl with ⟨pre, p, post, rfl, h⟩ | ⟨pre, post, rfl, h⟩
        · exact Or.inl ⟨q :: pre, p, post, rfl, ha, h.eq⟩
        · refine Or.inr ⟨q :: pre, post, rfl, ?_, h.hi⟩
          intro x hx
          rcases List.mem_cons.mp hx with rfl | hx
          · exact hqk
          · exact h.lo x hx

/-! ## The operations at the cut -/

theorem Hit.find?_eq (hc : LawfulCmp cmp) (h : Hit cmp k pre p post) :
    find? cmp k (pre ++ p :: post) = some p := by
  rw [find?, (h.cut hc).2]
  exact if_pos h.eq

theorem Hit.put_eq (hc : LawfulCmp cmp) (h : Hit cmp k pre p post) (replaceKey : Bool) :
    put cmp k v replaceKey (pre ++ p :: post) =
      pre ++ (if replaceKey then k else p.1, v) :: post := by
  rw [put, (h.cut hc).1, (h.cut hc).2]
  exact if_pos h.eq

theorem Hit.erase_eq (hc : LawfulCmp cmp) (h : Hit cmp k pre p post) :
    erase cmp k (pre ++ p :: post) = pre ++ post := by
  rw [erase, (h.cut hc).1, (h.cut hc).2]
  exact if_pos h.eq

/-- The binding next to the cut has a greater key. -/
theorem Miss.head_ne (h : Miss cmp k pre (p :: post)) : cmp k p.1 ≠ 0 :=
  ne_of_lt (h.hi p List.mem_cons_self)

theorem Miss.find?_eq (hc : LawfulCmp cmp) (h : Miss cmp k pre post) :
    find? cmp k (pre ++ post) = none := by
  rw [find?, (h.cut hc).2]
  cases post with
  | nil => rfl
  | cons p post => exact if_neg h.head_ne

theorem Miss.put_eq (hc : LawfulCmp cmp) (h : Miss cmp k pre post) (replaceKey : Bool) :
    put cmp k v replaceKey (pre ++ post) = pre ++ (k, v) :: post := by
  rw [put, (h.cut hc).1, (h.cut hc).2]
  cases post with
  | nil => rfl
  | cons p post => exact if_neg h.head_ne

theorem Miss.erase_eq (hc : LawfulCmp cmp) (h : Miss cmp k pre post) :
    erase cmp k (pre ++ post) = pre ++ post := by
  rw [erase, (h.cut hc).2]
  cases post with
  | nil => rfl
  | cons p post => exact if_neg h.head_ne

/-! ## The pairs of a list -/

theorem mem_of_find? (h : find? cmp k l = some p) : p ∈ l := by
  have hcut : p ∈ below cmp k l ++ above cmp k l := by
    rw [find?] at h
    rcases habove : above cmp k l with _ | ⟨q, qs⟩
    · rw [habove] at h
      cases h
    · simp only [habove] at h
      obtain ⟨-, hq⟩ := Option.ite_none_right_eq_some.mp h
      cases hq
      exact List.mem_append_right _ List.mem_cons_self
  rwa [below_append_above] at hcut

/-- A pair of an ascending list is what its key finds. -/
theorem find?_mem (hc : LawfulCmp cmp) (ha : Ascending cmp l) (hp : p ∈ l) :
    find? cmp p.1 l = some p := by
  obtain ⟨pre, post, rfl⟩ := List.append_of_mem hp
  exact Hit.find?_eq hc ⟨ha, hc.refl p.1⟩

/-- Binding a new key adds its pair. -/
theorem put_perm (hc : LawfulCmp cmp) (ha : Ascending cmp l) (hnone : find? cmp k l = none) (v : V)
    (replaceKey : Bool) : (put cmp k v replaceKey l).Perm (l ++ [(k, v)]) := by
  rcases hit_or_miss hc ha k with ⟨pre, p, post, rfl, hhit⟩ | ⟨pre, post, rfl, hmiss⟩
  · rw [hhit.find?_eq hc] at hnone
    cases hnone
  · rw [hmiss.put_eq hc, List.append_assoc]
    exact (List.perm_append_singleton (k, v) post).symm.append_left pre

/-! ## Agreement with the map -/

variable {m : OrderedMap cmp V}

theorem find?_lists (hc : LawfulCmp cmp) (hl : m.Lists l) (k : K) :
    m.binding k = find? cmp k l := by
  rcases hit_or_miss hc hl.1 k with ⟨pre, p, post, rfl, h⟩ | ⟨pre, post, rfl, h⟩
  · rw [h.find?_eq hc]
    exact hl.binding_eq (by simp) h.eq
  · rw [h.find?_eq hc]
    apply hl.binding_none
    intro q hq
    rcases List.mem_append.mp hq with hq | hq
    · have hlt := h.lo q hq
      have := hc.swap q.1 k
      omega
    · exact ne_of_lt (h.hi q hq)

/-- `put` binds the instance `k`, or keeps the one that was there. -/
theorem put_lists (hc : LawfulCmp cmp) (hl : m.Lists l) (k : K) (v : V) (replaceKey : Bool) :
    (m.insert hc (if replaceKey then k else ((m.binding k).map Prod.fst).getD k) v).Lists
      (put cmp k v replaceKey l) := by
  rw [find?_lists hc hl]
  rcases hit_or_miss hc hl.1 k with ⟨pre, p, post, rfl, h⟩ | ⟨pre, post, rfl, h⟩
  · obtain ⟨k₀, v₀⟩ := p
    rw [h.find?_eq hc, h.put_eq hc]
    cases replaceKey with
    | true => exact hl.replace hc h.eq
    | false => exact hl.replace hc (hc.refl k₀)
  · rw [h.find?_eq hc, h.put_eq hc]
    have : (if replaceKey = true then k else ((none : Option (K × V)).map Prod.fst).getD k) = k := by
      simp
    rw [this]
    exact hl.insert hc h.lo h.hi

theorem erase_lists (hc : LawfulCmp cmp) (hl : m.Lists l) (k : K) :
    (m.erase hc k).Lists (erase cmp k l) := by
  rcases hit_or_miss hc hl.1 k with ⟨pre, p, post, rfl, h⟩ | ⟨pre, post, rfl, h⟩
  · obtain ⟨k₀, v₀⟩ := p
    rw [h.erase_eq hc]
    exact hl.erase hc h.eq
  · rw [h.erase_eq hc]
    refine ⟨hl.1, ?_⟩
    intro q
    rw [← hl.2 q, OrderedMap.erase]
    have hnone : m.binding k = none := by
      rw [find?_lists hc hl, h.find?_eq hc]
    constructor
    · intro he
      simp only at he
      split_ifs at he
      exact he
    · intro he
      by_cases hqk : cmp q.1 k = 0
      · rw [m.congr q.1 k hqk, hnone] at he
        cases he
      · simpa [hqk] using he

end Assoc
