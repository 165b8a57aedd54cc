import Skiparray.Lib.Comparator

/-!
# Finite maps over comparison classes

The purpose of an ordered collection, stated without any representation: a
finite map whose arguments are the classes of a total preorder. A binding
remembers which instance of the key it was made with. Minimum, maximum and
size are defined from the map alone; `OrderedMap.Lists` relates a map to an
ascending list of its bindings, and the lemmas say how list surgery tracks
the map's operations.
-/

/-- `binding k` is what the class of `k` is bound to, with the key stored. -/
structure OrderedMap {K : Type} (cmp : K → K → ℤ) (V : Type) where
  binding : K → Option (K × V)
  congr : ∀ a b, cmp a b = 0 → binding a = binding b
  stored : ∀ a p, binding a = some p → cmp a p.1 = 0
  finite : {p | binding p.1 = some p}.Finite

namespace OrderedMap

variable {K V : Type} {cmp : K → K → ℤ}

def empty : OrderedMap cmp V where
  binding _ := none
  congr _ _ _ := rfl
  stored _ _ h := by simp at h
  finite := by simp

/-- Bind the class of `k` to `v`, storing the instance `k`. -/
def insert (h : LawfulCmp cmp) (m : OrderedMap cmp V) (k : K) (v : V) : OrderedMap cmp V where
  binding a := if cmp a k = 0 then some (k, v) else m.binding a
  congr a b hab := by simp only [h.congr_left hab k, m.congr a b hab]
  stored a p hp := by
    split_ifs at hp with ha
    · cases hp; exact ha
    · exact m.stored a p hp
  finite := by
    refine (m.finite.insert (k, v)).subset ?_
    intro p hp
    simp only [Set.mem_ofPred_eq] at hp
    split_ifs at hp with ha
    · exact Or.inl (Option.some.inj hp).symm
    · exact Or.inr hp

/-- Drop the binding of the class of `k`. -/
def erase (h : LawfulCmp cmp) (m : OrderedMap cmp V) (k : K) : OrderedMap cmp V where
  binding a := if cmp a k = 0 then none else m.binding a
  congr a b hab := by simp only [h.congr_left hab k, m.congr a b hab]
  stored a p hp := by
    split_ifs at hp
    exact m.stored a p hp
  finite := by
    refine m.finite.subset ?_
    intro p hp
    simp only [Set.mem_ofPred_eq] at hp
    split_ifs at hp
    exact hp

/-- How many classes are bound. -/
noncomputable def size (m : OrderedMap cmp V) : ℕ := Set.ncard {p | m.binding p.1 = some p}

/-- `p` is a binding and no binding has a smaller key. -/
def IsMin (m : OrderedMap cmp V) (p : K × V) : Prop :=
  m.binding p.1 = some p ∧ ∀ q, m.binding q.1 = some q → cmp p.1 q.1 ≤ 0

/-- `p` is a binding and no binding has a greater key. -/
def IsMax (m : OrderedMap cmp V) (p : K × V) : Prop :=
  m.binding p.1 = some p ∧ ∀ q, m.binding q.1 = some q → cmp q.1 p.1 ≤ 0

open Classical in
noncomputable def min? (m : OrderedMap cmp V) : Option (K × V) :=
  if h : ∃ p, m.IsMin p then some h.choose else none

open Classical in
noncomputable def max? (m : OrderedMap cmp V) : Option (K × V) :=
  if h : ∃ p, m.IsMax p then some h.choose else none

/-! ## Maps as ascending lists -/

/-- `l` lists the bindings of `m` in ascending order. -/
def Lists (m : OrderedMap cmp V) (l : List (K × V)) : Prop :=
  Ascending cmp l ∧ ∀ p, m.binding p.1 = some p ↔ p ∈ l

variable {m : OrderedMap cmp V} {l l₁ l₂ : List (K × V)} {p : K × V} {k k' k₀ : K} {v v₀ : V}

theorem lists_empty : (empty : OrderedMap cmp V).Lists [] := ⟨.nil, by simp [empty]⟩

/-- A binding found under `k` is one of the listed ones. -/
theorem Lists.mem_of_binding (hl : m.Lists l) (hk : m.binding k = some p) : p ∈ l := by
  have hkp := m.congr k p.1 (m.stored k p hk)
  exact (hl.2 p).mp (hkp ▸ hk)

theorem Lists.binding_eq (hl : m.Lists l) (hp : p ∈ l) (hk : cmp k p.1 = 0) :
    m.binding k = some p := by
  rw [m.congr k p.1 hk]
  exact (hl.2 p).mpr hp

theorem Lists.binding_none (hl : m.Lists l) (hk : ∀ q ∈ l, cmp k q.1 ≠ 0) :
    m.binding k = none := by
  cases hb : m.binding k with
  | none => rfl
  | some q => exact absurd (m.stored k q hb) (hk q (hl.mem_of_binding hb))

/-- Away from the middle of an ascending list no key has the middle's class. -/
theorem ne_zero_of_ascending (h : LawfulCmp cmp)
    (ha : Ascending cmp (l₁ ++ (k₀, v₀) :: l₂)) (hk : cmp k k₀ = 0)
    (hp : p ∈ l₁ ++ l₂) : cmp p.1 k ≠ 0 := by
  rw [Ascending.append_iff, Ascending.cons_iff] at ha
  obtain ⟨-, ⟨hgt, -⟩, hlt⟩ := ha
  rcases List.mem_append.mp hp with hp | hp
  · have : cmp p.1 k₀ < 0 := hlt p hp _ List.mem_cons_self
    exact ne_of_lt (h.lt_of_lt_of_le this (le_of_eq (h.symm hk)))
  · have : cmp k p.1 < 0 := h.lt_of_le_of_lt (le_of_eq hk) (hgt p hp)
    have := (h.swap k p.1).mp this
    omega

theorem Lists.replace (h : LawfulCmp cmp) (hl : m.Lists (l₁ ++ (k₀, v₀) :: l₂))
    (hk : cmp k' k₀ = 0) : (m.insert h k' v).Lists (l₁ ++ (k', v) :: l₂) := by
  refine ⟨hl.1.replace h hk, fun p => ?_⟩
  have hmem := hl.2 p
  simp only [insert]
  split_ifs with hp
  · constructor
    · rintro he
      rw [← Option.some.inj he]
      simp
    · intro hpm
      rcases List.mem_append.mp hpm with hp₁ | hp₂
      · exact absurd hp (ne_zero_of_ascending h hl.1 hk (List.mem_append_left _ hp₁))
      rcases List.mem_cons.mp hp₂ with rfl | hp₂
      · rfl
      · exact absurd hp (ne_zero_of_ascending h hl.1 hk (List.mem_append_right _ hp₂))
  · rw [hmem]
    have hne : p ≠ (k', v) := by
      rintro rfl
      exact hp (h.refl k')
    have hne₀ : p ≠ (k₀, v₀) := by
      rintro rfl
      exact hp (h.symm hk)
    simp [hne, hne₀]

theorem Lists.insert (h : LawfulCmp cmp) (hl : m.Lists (l₁ ++ l₂))
    (hlo : ∀ p ∈ l₁, cmp p.1 k < 0) (hhi : ∀ q ∈ l₂, cmp k q.1 < 0) :
    (m.insert h k v).Lists (l₁ ++ (k, v) :: l₂) := by
  have hasc := hl.1.insert (v := v) hlo hhi
  refine ⟨hasc, fun p => ?_⟩
  simp only [OrderedMap.insert]
  split_ifs with hp
  · constructor
    · intro he
      rw [← Option.some.inj he]
      simp
    · intro hpm
      by_cases hpe : p = (k, v)
      · rw [hpe]
      · have : p ∈ l₁ ++ l₂ := by
          simpa [hpe] using hpm
        exact absurd hp (ne_zero_of_ascending h hasc (h.refl k) this)
  · rw [hl.2 p]
    have hne : p ≠ (k, v) := by
      rintro rfl
      exact hp (h.refl k)
    simp [hne]

theorem Lists.erase (h : LawfulCmp cmp) (hl : m.Lists (l₁ ++ (k₀, v₀) :: l₂))
    (hk : cmp k k₀ = 0) : (m.erase h k).Lists (l₁ ++ l₂) := by
  refine ⟨hl.1.sublist (by simp), fun p => ?_⟩
  simp only [OrderedMap.erase]
  split_ifs with hp
  · constructor
    · intro he; simp at he
    · intro hpm
      exact absurd hp (ne_zero_of_ascending h hl.1 hk hpm)
  · rw [hl.2 p]
    have hne : p ≠ (k₀, v₀) := by
      rintro rfl
      exact hp (h.symm hk)
    simp [hne]

theorem Lists.size_eq (h : LawfulCmp cmp) (hl : m.Lists l) : m.size = l.length := by
  classical
  have hnd : l.Nodup := hl.1.imp fun {a b} hab => by
    rintro rfl
    have := h.refl a.1
    omega
  have hset : {p | m.binding p.1 = some p} = (l.toFinset : Set (K × V)) := by
    ext p
    simp [hl.2 p]
  rw [size, hset, Set.ncard_coe_finset, List.toFinset_card_of_nodup hnd]

theorem Lists.min?_eq (h : LawfulCmp cmp) (hl : m.Lists l) : m.min? = l.head? := by
  cases l with
  | nil =>
      have hnone : ¬ ∃ p, m.IsMin p := by
        rintro ⟨p, hp, -⟩
        simpa using (hl.2 p).mp hp
      rw [min?, dif_neg hnone]
      rfl
  | cons p l =>
      have hlt := (Ascending.cons_iff.mp hl.1).1
      have hmin : m.IsMin p := by
        refine ⟨(hl.2 p).mpr List.mem_cons_self, fun q hq => ?_⟩
        rcases List.mem_cons.mp ((hl.2 q).mp hq) with rfl | hq
        · rw [h.refl]
        · exact le_of_lt (hlt q hq)
      have hex : ∃ p, m.IsMin p := ⟨p, hmin⟩
      rw [min?, dif_pos hex]
      obtain ⟨hb, hle⟩ := hex.choose_spec
      rcases List.mem_cons.mp ((hl.2 _).mp hb) with he | hmem
      · rw [he]; rfl
      · have h₁ := hlt _ hmem
        have h₂ := hle p hmin.1
        have := h.swap p.1 hex.choose.1
        omega

theorem Lists.max?_eq (h : LawfulCmp cmp) (hl : m.Lists l) : m.max? = l.getLast? := by
  rcases List.eq_nil_or_concat l with rfl | ⟨l, p, rfl⟩
  · have hnone : ¬ ∃ p, m.IsMax p := by
      rintro ⟨p, hp, -⟩
      simpa using (hl.2 p).mp hp
    rw [max?, dif_neg hnone]
    rfl
  · rw [List.concat_eq_append] at hl ⊢
    have hlt := (Ascending.append_iff.mp hl.1).2.2
    have hmax : m.IsMax p := by
      refine ⟨(hl.2 p).mpr (by simp), fun q hq => ?_⟩
      rcases List.mem_append.mp ((hl.2 q).mp hq) with hq | hq
      · exact le_of_lt (hlt q hq p (by simp))
      · rw [List.mem_singleton.mp hq, h.refl]
    have hex : ∃ p, m.IsMax p := ⟨p, hmax⟩
    rw [max?, dif_pos hex]
    obtain ⟨hb, hle⟩ := hex.choose_spec
    rcases List.mem_append.mp ((hl.2 _).mp hb) with hmem | he
    · have h₁ := hlt _ hmem p (by simp)
      have h₂ := hle p hmax.1
      have := h.swap hex.choose.1 p.1
      omega
    · rw [List.mem_singleton.mp he]
      simp

end OrderedMap
