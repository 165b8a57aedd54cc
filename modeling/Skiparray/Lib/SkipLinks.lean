import Mathlib

/-!
# Multi-level linked lists

A skip list's pointers, apart from what its nodes hold: a list head and a
forward link for each level, and one back link a node. A structure is
described by the list of its towers (node and height) in order; level `i`
must spell the towers taller than `i`.

- `Seg` — following one link function spells a list and arrives somewhere;
- `Backs` — each node's back link is its predecessor;
- `Links.Level`, `Links.insertLevel`, `Links.removeLevel` — one level, and what
  adding or unlinking a tower must do to it;
- `Links.Onward` — one step of a walk over the levels.
-/

namespace SkipLinks

variable {P : Type}

/-! ## Segments of a singly linked chain -/

/-- Following `next` from `h` spells `ps` and arrives at `t`. -/
def Seg (next : P → Option P) : Option P → List P → Option P → Prop
  | h, [], t => h = t
  | h, p :: ps, t => h = some p ∧ Seg next (next p) ps t

variable {next next' : P → Option P} {h h' t : Option P} {xs ys ps : List P} {x c n : P}

@[simp] theorem seg_nil : Seg next h [] t ↔ h = t := Iff.rfl

@[simp] theorem seg_cons :
    Seg next h (x :: xs) t ↔ h = some x ∧ Seg next (next x) xs t := Iff.rfl

theorem seg_append :
    Seg next h (xs ++ ys) t ↔ ∃ m, Seg next h xs m ∧ Seg next m ys t := by
  induction xs generalizing h with
  | nil => simp
  | cons x xs ih =>
      simp only [List.cons_append, seg_cons, ih]
      constructor
      · rintro ⟨hx, m, hxs, hys⟩
        exact ⟨m, ⟨hx, hxs⟩, hys⟩
      · rintro ⟨m, ⟨hx, hxs⟩, hys⟩
        exact ⟨hx, m, hxs, hys⟩

theorem Seg.congr : ∀ {ps : List P} {h : Option P}, Seg next h ps t →
    (∀ p ∈ ps, next' p = next p) → Seg next' h ps t
  | [], _, hs, _ => hs
  | p :: ps, _, hs, hagree => by
      refine ⟨hs.1, ?_⟩
      rw [hagree p List.mem_cons_self]
      exact Seg.congr hs.2 fun q hq => hagree q (List.mem_cons_of_mem _ hq)

/-- A complete chain starts at its first node. -/
theorem Seg.head_eq (hs : Seg next h ps none) : h = ps.head? := by
  cases ps with
  | nil => exact hs
  | cons p ps => exact hs.1

/-- A chain that ends is determined by its head. -/
theorem Seg.unique : ∀ {ps qs : List P} {h : Option P}, Seg next h ps none → Seg next h qs none →
    ps = qs
  | [], [], _, _, _ => rfl
  | [], q :: qs, _, hp, hq => by
      cases hp
      cases hq.1
  | p :: ps, [], _, hp, hq => by
      cases hq
      cases hp.1
  | p :: ps, q :: qs, _, hp, hq => by
      obtain rfl : p = q := Option.some.inj (hp.1.symm.trans hq.1)
      rw [Seg.unique hp.2 hq.2]

/-- In a complete chain each node points at the one after it. -/
theorem Seg.next_eq (hs : Seg next h (xs ++ x :: ys) none) : next x = ys.head? := by
  obtain ⟨m, -, -, hys⟩ := seg_append.mp hs
  exact hys.head_eq

/-- A new node spliced in after `x`. -/
theorem Seg.insertAfter (hs : Seg next h (xs ++ x :: ys) none)
    (hxs : ∀ p ∈ xs, next' p = next p) (hys : ∀ p ∈ ys, next' p = next p)
    (hx : next' x = some n) (hn : next' n = ys.head?) :
    Seg next' h (xs ++ x :: n :: ys) none := by
  obtain ⟨m, h₁, h₂, h₃⟩ := seg_append.mp hs
  refine seg_append.mpr ⟨m, h₁.congr hxs, h₂, ?_⟩
  rw [hx]
  refine ⟨rfl, ?_⟩
  rw [hn, ← h₃.head_eq]
  exact h₃.congr hys

/-- A new node put in front. -/
theorem Seg.insertFront (hs : Seg next h ys none)
    (hys : ∀ p ∈ ys, next' p = next p) (hn : next' n = ys.head?) :
    Seg next' (some n) (n :: ys) none := by
  refine ⟨rfl, ?_⟩
  rw [hn, ← hs.head_eq]
  exact hs.congr hys

/-- The node after `x` bypassed. -/
theorem Seg.removeAfter (hs : Seg next h (xs ++ x :: c :: ys) none)
    (hxs : ∀ p ∈ xs, next' p = next p) (hys : ∀ p ∈ ys, next' p = next p)
    (hx : next' x = ys.head?) :
    Seg next' h (xs ++ x :: ys) none := by
  obtain ⟨m, h₁, h₂, -, h₃⟩ := seg_append.mp hs
  refine seg_append.mpr ⟨m, h₁.congr hxs, h₂, ?_⟩
  rw [hx, ← h₃.head_eq]
  exact h₃.congr hys

/-! ## Back links -/

/-- Each node's back link is its predecessor, `prev` for the first. -/
def Backs (back : P → Option P) : Option P → List P → Prop
  | _, [] => True
  | prev, p :: ps => back p = prev ∧ Backs back (some p) ps

variable {back back' : P → Option P}

@[simp] theorem backs_nil : Backs back h [] := trivial

@[simp] theorem backs_cons :
    Backs back h (x :: xs) ↔ back x = h ∧ Backs back (some x) xs := Iff.rfl

theorem backs_append :
    Backs back h (xs ++ ys) ↔ Backs back h xs ∧ Backs back (xs.getLast?.or h) ys := by
  induction xs generalizing h with
  | nil => simp
  | cons x xs ih =>
      simp only [List.cons_append, backs_cons, ih, and_assoc]
      cases xs with
      | nil => simp
      | cons y xs => simp [List.getLast?_cons]

theorem Backs.congr : ∀ {ps : List P} {h : Option P}, Backs back h ps →
    (∀ p ∈ ps, back' p = back p) → Backs back' h ps
  | [], _, _, _ => trivial
  | p :: _, _, hb, hagree =>
      ⟨(hagree p List.mem_cons_self).trans hb.1,
        Backs.congr hb.2 fun q hq => hagree q (List.mem_cons_of_mem _ hq)⟩

/-- Each node's back link but the first after a splice or bypass. -/
theorem Backs.reroot (hb : Backs back h ps) (hnodup : ps.Nodup)
    (hhead : ∀ p, ps.head? = some p → back' p = h')
    (hagree : ∀ p ∈ ps, ps.head? ≠ some p → back' p = back p) : Backs back' h' ps := by
  cases ps with
  | nil => trivial
  | cons p ps =>
      refine ⟨hhead p rfl, hb.2.congr fun q hq => hagree q (List.mem_cons_of_mem _ hq) ?_⟩
      rintro heq
      cases heq
      exact (List.nodup_cons.mp hnodup).1 hq

/-- A node spliced in after `x`: it and its successor get new back links. -/
theorem Backs.insertAfter (hb : Backs back h (xs ++ x :: ys)) (hnodup : (xs ++ x :: ys).Nodup)
    (hn : back' n = some x) (hhead : ∀ p, ys.head? = some p → back' p = some n)
    (hagree : ∀ p ∈ xs ++ x :: ys, ys.head? ≠ some p → back' p = back p) :
    Backs back' h (xs ++ x :: n :: ys) := by
  rw [backs_append, backs_cons] at hb ⊢
  have hdis : ∀ p ∈ xs ++ [x], ys.head? ≠ some p := by
    intro p hp hys
    have hmem : p ∈ ys := List.mem_of_head? hys
    rw [← List.singleton_append, ← List.append_assoc, List.nodup_append] at hnodup
    exact hnodup.2.2 p hp p hmem rfl
  have hys : ys.Nodup := (List.nodup_append.mp hnodup).2.1.of_cons
  refine ⟨hb.1.congr fun p hp => hagree p (by simp [hp]) (hdis p (by simp [hp])), ?_, hn, ?_⟩
  · rw [hagree x (by simp) (hdis x (by simp))]
    exact hb.2.1
  · exact hb.2.2.reroot hys hhead fun p hp hne => hagree p (by simp [hp]) hne

/-- The node after `x` bypassed: its successor gets a new back link. -/
theorem Backs.removeAfter (hb : Backs back h (xs ++ x :: c :: ys))
    (hnodup : (xs ++ x :: c :: ys).Nodup)
    (hhead : ∀ p, ys.head? = some p → back' p = some x)
    (hagree : ∀ p ∈ xs ++ x :: ys, ys.head? ≠ some p → back' p = back p) :
    Backs back' h (xs ++ x :: ys) := by
  rw [backs_append, backs_cons, backs_cons] at hb
  rw [backs_append, backs_cons]
  have hsub : (xs ++ x :: ys).Nodup := hnodup.sublist (by simp)
  have hdis : ∀ p ∈ xs ++ [x], ys.head? ≠ some p := by
    intro p hp hys
    have hmem : p ∈ ys := List.mem_of_head? hys
    rw [← List.singleton_append, ← List.append_assoc, List.nodup_append] at hsub
    exact hsub.2.2 p hp p hmem rfl
  have hys : ys.Nodup := (List.nodup_append.mp hsub).2.1.of_cons
  refine ⟨hb.1.congr fun p hp => hagree p (by simp [hp]) (hdis p (by simp [hp])), ?_, ?_⟩
  · rw [hagree x (by simp) (hdis x (by simp))]
    exact hb.2.1
  · exact hb.2.2.2.reroot hys hhead fun p hp hne => hagree p (by simp [hp]) hne

/-! ## Towers and levels -/

/-- The nodes of a list of towers that reach level `i`, in order. -/
def onLevel (i : ℕ) (ts : List (P × ℕ)) : List P :=
  (ts.filter fun t => i < t.2).map Prod.fst

section onLevel

variable {i : ℕ} {ts us : List (P × ℕ)} {u : P × ℕ}

@[simp] theorem onLevel_nil : onLevel i ([] : List (P × ℕ)) = [] := rfl

@[simp] theorem onLevel_append : onLevel i (ts ++ us) = onLevel i ts ++ onLevel i us := by
  simp [onLevel]

theorem onLevel_cons_of_lt (hi : i < u.2) : onLevel i (u :: us) = u.1 :: onLevel i us := by
  simp [onLevel, hi]

theorem onLevel_cons_of_le (hi : u.2 ≤ i) : onLevel i (u :: us) = onLevel i us := by
  simp [onLevel, hi]

theorem onLevel_subset {p : P} (hp : p ∈ onLevel i ts) : p ∈ ts.map Prod.fst :=
  (List.filter_sublist.map Prod.fst).subset hp

theorem onLevel_zero (hts : ∀ t ∈ ts, 0 < t.2) : onLevel 0 ts = ts.map Prod.fst := by
  rw [onLevel, List.filter_eq_self.mpr fun t ht => by simpa using hts t ht]

theorem onLevel_eq_nil (hts : ∀ t ∈ ts, t.2 ≤ i) : onLevel i ts = [] := by
  rw [onLevel, List.filter_eq_nil_iff.mpr fun t ht => by simpa using hts t ht, List.map_nil]

theorem onLevel_eq_nil_iff : onLevel i ts = [] ↔ ∀ t ∈ ts, t.2 ≤ i := by
  simp [onLevel, List.filter_eq_nil_iff]

/-- The first tower on a level splits the list at itself. -/
theorem onLevel_eq_cons {p : P} {ps : List P} (h : onLevel i ts = p :: ps) :
    ∃ ts₁ k ts₂, ts = ts₁ ++ (p, k) :: ts₂ ∧ i < k ∧ onLevel i ts₁ = [] ∧
      onLevel i ts₂ = ps := by
  obtain ⟨⟨q, k⟩, us, hf, rfl, rfl⟩ := List.map_eq_cons_iff.mp h
  obtain ⟨ts₁, ts₂, rfl, hts₁, hk, rfl⟩ := List.filter_eq_cons_iff.mp hf
  refine ⟨ts₁, k, ts₂, rfl, by simpa using hk, ?_, rfl⟩
  exact onLevel_eq_nil fun t ht => by simpa using hts₁ t ht

/-- The last tower on a level splits the list at itself. -/
theorem onLevel_eq_concat {p : P} {ps : List P} (h : onLevel i ts = ps ++ [p]) :
    ∃ ts₁ k ts₂, ts = ts₁ ++ (p, k) :: ts₂ ∧ i < k ∧ onLevel i ts₁ = ps ∧
      onLevel i ts₂ = [] := by
  obtain ⟨us₁, us₂, rfl, h₁, h₂⟩ : ∃ us₁ us₂, ts = us₁ ++ us₂ ∧ onLevel i us₁ = ps ∧
      onLevel i us₂ = [p] := by
    obtain ⟨vs₁, vs₂, hf, rfl, h₂⟩ := List.map_eq_append_iff.mp h
    obtain ⟨us₁, us₂, rfl, rfl, rfl⟩ := List.filter_eq_append_iff.mp hf
    exact ⟨us₁, us₂, rfl, rfl, h₂⟩
  obtain ⟨ts₁, k, ts₂, rfl, hk, hn, hn'⟩ := onLevel_eq_cons h₂
  exact ⟨us₁ ++ ts₁, k, ts₂, by simp, hk, by simp [h₁, hn], hn'⟩

end onLevel

/-- The pointers of a skip list. -/
structure Links (P : Type) where
  head : ℕ → Option P
  fwd : ℕ → P → Option P
  back : P → Option P

namespace Links

variable {L L' : Links P} {i k : ℕ} {A B : List (P × ℕ)}

/-- Level `i` spells the towers of `ts` that reach it. -/
def Level (L : Links P) (i : ℕ) (ts : List (P × ℕ)) : Prop :=
  Seg (L.fwd i) (L.head i) (onLevel i ts) none

theorem Level.head_eq {ts : List (P × ℕ)} (hl : L.Level i ts) :
    L.head i = (onLevel i ts).head? := Seg.head_eq hl

/-- The forward link of a tower leads to the next tower on that level. -/
theorem Level.fwd_eq (hl : L.Level i (A ++ (x, k) :: B)) (hi : i < k) :
    L.fwd i x = (onLevel i B).head? := by
  rw [Level, onLevel_append, onLevel_cons_of_lt hi] at hl
  exact Seg.next_eq hl

theorem Level.congr {ts : List (P × ℕ)} (hl : L.Level i ts) (hhead : L'.head i = L.head i)
    (hfwd : ∀ p ∈ onLevel i ts, L'.fwd i p = L.fwd i p) : L'.Level i ts := by
  unfold Level
  rw [hhead]
  exact Seg.congr hl hfwd

/-- On level `i`, `next` is behind `cur` on a chain that comes to an end; where
there is no `cur`, behind the list head. -/
def Ahead (L : Links P) (i : ℕ) (cur next : Option P) : Prop :=
  ∃ us q vs, Seg (L.fwd i) (L.head i) (us ++ q :: vs) none ∧ (us ++ q :: vs).Nodup ∧
    next = some q ∧ ∀ p, cur = some p → p ∈ us

/-- A walk over the levels goes down, or forward on its level. -/
def Onward (L : Links P) (i : ℕ) (cur : Option P) (i' : ℕ) (cur' : Option P) : Prop :=
  i' < i ∨ i' = i ∧ L.Ahead i cur cur'

/-- The next tower on a level is ahead. -/
theorem Level.ahead (hl : L.Level i (A ++ (x, k) :: B))
    (hnodup : (onLevel i (A ++ (x, k) :: B)).Nodup) (hi : i < k)
    (hn : (onLevel i B).head? = some n) : L.Ahead i (some x) (some n) := by
  obtain ⟨vs, hvs⟩ := List.head?_eq_some_iff.mp hn
  have hon : onLevel i (A ++ (x, k) :: B) = (onLevel i A ++ [x]) ++ n :: vs := by
    rw [onLevel_append, onLevel_cons_of_lt hi, hvs]
    simp
  rw [Level, hon] at hl
  rw [hon] at hnodup
  refine ⟨onLevel i A ++ [x], n, vs, hl, hnodup, rfl, ?_⟩
  rintro p hp
  cases hp
  simp

/-- `L'` is `L` after writes to pointers of level `i`. -/
structure SameBut (i : ℕ) (L L' : Links P) : Prop where
  head : ∀ j, j ≠ i → L'.head j = L.head j
  fwd : ∀ j, j ≠ i → L'.fwd j = L.fwd j
  back : L'.back = L.back

theorem SameBut.refl (i : ℕ) (L : Links P) : L.SameBut i L :=
  ⟨fun _ _ => rfl, fun _ _ => rfl, rfl⟩

theorem SameBut.trans {L₁ L₂ L₃ : Links P} (h₁ : L₁.SameBut i L₂) (h₂ : L₂.SameBut i L₃) :
    L₁.SameBut i L₃ :=
  ⟨fun j hj => (h₂.head j hj).trans (h₁.head j hj),
    fun j hj => (h₂.fwd j hj).trans (h₁.fwd j hj), h₂.back.trans h₁.back⟩

/-- Writes to one level leave the others alone. -/
theorem Level.of_sameBut {ts : List (P × ℕ)} {j : ℕ} (hl : L.Level j ts)
    (h : L.SameBut i L') (hj : j ≠ i) : L'.Level j ts :=
  hl.congr (h.head j hj) fun p _ => by rw [h.fwd j hj]

/-- What adding tower `n` between `A` and `B` must do to a level it reaches:
point the last tower of `A` on the level, or the head, at `n`. -/
theorem insertLevel (hl : L.Level i (A ++ B)) (hi : i < k)
    (hnodup : (onLevel i (A ++ B)).Nodup) (hn : n ∉ onLevel i (A ++ B))
    (hnew : L'.fwd i n = (onLevel i B).head?)
    (hfront : onLevel i A = [] → L'.head i = some n)
    (hafter : ∀ x, (onLevel i A).getLast? = some x →
      L'.head i = L.head i ∧ L'.fwd i x = some n)
    (hframe : ∀ p, p ≠ n → (onLevel i A).getLast? ≠ some p → L'.fwd i p = L.fwd i p) :
    L'.Level i (A ++ (n, k) :: B) := by
  unfold Level at hl ⊢
  rw [onLevel_append] at hl hnodup hn ⊢
  rw [onLevel_cons_of_lt hi]
  rcases List.eq_nil_or_concat (onLevel i A) with hA | ⟨xs, x, hA⟩
  · rw [hA, List.nil_append] at hl hn ⊢
    rw [hfront hA]
    refine Seg.insertFront hl (fun p hp => hframe p ?_ ?_) hnew
    · rintro rfl; exact hn hp
    · simp [hA]
  · rw [List.concat_eq_append] at hA
    have hlast : (onLevel i A).getLast? = some x := by simp [hA]
    obtain ⟨hhead, hx⟩ := hafter x hlast
    rw [hA, List.append_assoc, List.singleton_append] at hl hnodup hn ⊢
    rw [hhead]
    have hxne : ∀ p ∈ xs ++ onLevel i B, p ≠ x := by
      rintro p hp rfl
      have := List.nodup_middle.mp hnodup
      exact (List.nodup_cons.mp this).1 hp
    have hagree : ∀ p ∈ xs ++ onLevel i B, L'.fwd i p = L.fwd i p := by
      intro p hp
      refine hframe p ?_ ?_
      · rintro rfl
        rcases List.mem_append.mp hp with h | h
        · exact hn (List.mem_append_left _ h)
        · exact hn (List.mem_append_right _ (List.mem_cons_of_mem _ h))
      · rw [hlast]
        exact fun he => hxne p hp (Option.some.inj he).symm
    exact hl.insertAfter (fun p hp => hagree p (List.mem_append_left _ hp))
      (fun p hp => hagree p (List.mem_append_right _ hp)) hx hnew

/-- A level an added tower does not reach is left alone. -/
theorem insertLevel_of_le (hl : L.Level i (A ++ B)) (hi : k ≤ i)
    (hhead : L'.head i = L.head i)
    (hfwd : ∀ p ∈ onLevel i (A ++ B), L'.fwd i p = L.fwd i p) :
    L'.Level i (A ++ (n, k) :: B) := by
  have hon : onLevel i (A ++ (n, k) :: B) = onLevel i (A ++ B) := by
    simp [onLevel_cons_of_le (u := (n, k)) hi]
  unfold Level
  rw [hon]
  exact Level.congr hl hhead hfwd

/-- What unlinking tower `c` must do to a level it reaches: make the last
tower of `A` on the level, or the head, point past `c`. -/
theorem removeLevel (hl : L.Level i (A ++ (c, k) :: B)) (hi : i < k)
    (hnodup : (onLevel i (A ++ (c, k) :: B)).Nodup)
    (hfront : onLevel i A = [] → L'.head i = (onLevel i B).head?)
    (hafter : ∀ x, (onLevel i A).getLast? = some x →
      L'.head i = L.head i ∧ L'.fwd i x = (onLevel i B).head?)
    (hframe : ∀ p ∈ onLevel i (A ++ B), (onLevel i A).getLast? ≠ some p →
      L'.fwd i p = L.fwd i p) :
    L'.Level i (A ++ B) := by
  unfold Level at hl ⊢
  rw [onLevel_append] at hl hnodup hframe ⊢
  rw [onLevel_cons_of_lt hi] at hl hnodup
  rcases List.eq_nil_or_concat (onLevel i A) with hA | ⟨xs, x, hA⟩
  · rw [hA, List.nil_append] at hl hframe ⊢
    rw [hfront hA]
    have hseg := hl.2
    rw [← hseg.head_eq]
    exact hseg.congr fun p hp => hframe p hp (by simp)
  · rw [List.concat_eq_append] at hA
    have hlast : (onLevel i A).getLast? = some x := by simp [hA]
    obtain ⟨hhead, hx⟩ := hafter x hlast
    rw [hA, List.append_assoc, List.singleton_append] at hl hnodup hframe ⊢
    rw [hhead]
    have hagree : ∀ p ∈ xs ++ onLevel i B, L'.fwd i p = L.fwd i p := by
      intro p hp
      have hpx : p ≠ x := by
        rintro rfl
        have hnd := (List.nodup_cons.mp (List.nodup_middle.mp hnodup)).1
        rcases List.mem_append.mp hp with h | h
        · exact hnd (List.mem_append_left _ h)
        · exact hnd (List.mem_append_right _ (List.mem_cons_of_mem _ h))
      refine hframe p ?_ (by simpa using Ne.symm hpx)
      rcases List.mem_append.mp hp with h | h
      · exact List.mem_append_left _ h
      · exact List.mem_append_right _ (List.mem_cons_of_mem _ h)
    exact hl.removeAfter (fun p hp => hagree p (List.mem_append_left _ hp))
      (fun p hp => hagree p (List.mem_append_right _ hp)) hx

/-- The pointers of a skip list with `m` levels describe exactly `ts`. -/
structure Spells (L : Links P) (m : ℕ) (ts : List (P × ℕ)) : Prop where
  nodup : (ts.map Prod.fst).Nodup
  level : ∀ i < m, L.Level i ts
  backs : Backs L.back none (ts.map Prod.fst)

theorem Spells.nodup_onLevel {m : ℕ} {ts : List (P × ℕ)} (hs : L.Spells m ts) (i : ℕ) :
    (onLevel i ts).Nodup :=
  hs.nodup.sublist (List.filter_sublist.map Prod.fst)

end Links

end SkipLinks
