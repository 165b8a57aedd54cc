import Skiparray.Lib.Comparator

/-!
# Merging lanes through a sorted queue

Several lanes of items are merged through a queue that holds the next item of
each lane. Before anything leaves, each lane without an item in the queue puts
its next one there, in front of the first that is not smaller. What leaves is
the item at the front or, if that equals its successor, all the items from the
front on that equal their successors.

The last of several equal items stays behind. So the merge is exact only when
no two lanes share an item.
-/

namespace Lanes

variable {α β : Type}

/-- What the lanes have still to send, and the queue of items with their lanes. -/
structure State (α : Type) where
  rests : List (List α)
  queue : List (ℕ × α)
deriving Repr

/-- What leaves the queue at once. -/
inductive Delivery (α : Type) where
  | single (x : α)
  | merged (xs : List α)
deriving DecidableEq, Repr

namespace Delivery

def items : Delivery α → List α
  | single x => [x]
  | merged xs => xs

def map (f : α → β) : Delivery α → Delivery β
  | single x => single (f x)
  | merged xs => merged (xs.map f)

@[simp] theorem items_single (x : α) : (single x).items = [x] := rfl

@[simp] theorem items_merged (xs : List α) : (merged xs).items = xs := rfl

@[simp] theorem items_map (f : α → β) (d : Delivery α) : (d.map f).items = d.items.map f := by
  cases d <;> rfl

end Delivery

/-! ## Steps -/

section Steps

variable (cmp : α → α → ℤ)

/-- In front of the first item that is not smaller. -/
def insert (x : ℕ × α) : List (ℕ × α) → List (ℕ × α)
  | [] => [x]
  | y :: q => if cmp x.2 y.2 ≤ 0 then x :: y :: q else y :: insert x q

/-- Lane `i` sends its next item, unless it has one in the queue. -/
def feed (i : ℕ) (s : State α) : State α :=
  if i ∈ s.queue.map Prod.fst then s
  else match s.rests[i]? with
    | some (x :: rest) => ⟨s.rests.set i rest, insert cmp (i, x) s.queue⟩
    | _ => s

/-- The first `n` lanes in turn. -/
def feedUpTo : ℕ → State α → State α
  | 0, s => s
  | n + 1, s => feed cmp n (feedUpTo n s)

def State.fed (s : State α) : State α := feedUpTo cmp s.rests.length s

/-- The items from the front on that equal their successors. -/
def equalRun : List (ℕ × α) → List (ℕ × α)
  | x :: y :: q => if cmp x.2 y.2 = 0 then x :: equalRun (y :: q) else []
  | _ => []

/-- What leaves a queue with `x` at the front. -/
def delivery (x : ℕ × α) (q : List (ℕ × α)) : Delivery (ℕ × α) :=
  if equalRun cmp (x :: q) = [] then .single x else .merged (equalRun cmp (x :: q))

/-- All lanes are fed, and something leaves. -/
inductive Next (s : State α) : Delivery (ℕ × α) → State α → Prop where
  | intro {x : ℕ × α} {q : List (ℕ × α)} (hq : (s.fed cmp).queue = x :: q) :
      Next s (delivery cmp x q)
        ⟨(s.fed cmp).rests, (x :: q).drop (delivery cmp x q).items.length⟩

/-- Nothing is left. -/
def State.Done (s : State α) : Prop := s.queue = [] ∧ ∀ r ∈ s.rests, r = []

/-- A run to the end. -/
inductive Delivers : State α → List (Delivery (ℕ × α)) → Prop where
  | done {s : State α} (h : s.Done) : Delivers s []
  | next {s s' : State α} {d : Delivery (ℕ × α)} {ds : List (Delivery (ℕ × α))}
      (h : Next cmp s d s') (hrun : Delivers s' ds) : Delivers s (d :: ds)

/-- Some steps. -/
inductive Run (s : State α) : List (Delivery (ℕ × α)) → State α → Prop where
  | start : Run s [] s
  | next {s₁ s₂ : State α} {d : Delivery (ℕ × α)} {ds : List (Delivery (ℕ × α))}
      (hrun : Run s ds s₁) (h : Next cmp s₁ d s₂) : Run s (ds ++ [d]) s₂

end Steps

/-- What lane `i` has still to deliver. -/
def State.lane (s : State α) (i : ℕ) : List α :=
  (s.queue.filter fun x => x.1 = i).map Prod.snd ++ s.rests.getD i []

/-- All that is still to come. -/
def State.total (s : State α) : ℕ := (s.rests.map List.length).sum + s.queue.length

/-- No lane has two items in the queue, and lanes have numbers. -/
structure State.Valid (s : State α) : Prop where
  nodup : (s.queue.map Prod.fst).Nodup
  lanes : ∀ x ∈ s.queue, x.1 < s.rests.length

variable {cmp : α → α → ℤ} {s s' : State α} {x y z : ℕ × α} {q : List (ℕ × α)} {i j n : ℕ}
  {d : Delivery (ℕ × α)} {ds : List (Delivery (ℕ × α))}

/-! ## Insertion -/

theorem insert_perm (x : ℕ × α) (q : List (ℕ × α)) : (insert cmp x q).Perm (x :: q) := by
  induction q with
  | nil => exact .refl _
  | cons y q ih =>
      rw [insert]
      split_ifs
      · exact .refl _
      · exact (ih.cons y).trans (.swap x y q)

theorem mem_insert : y ∈ insert cmp x q ↔ y = x ∨ y ∈ q := by
  rw [(insert_perm x q).mem_iff, List.mem_cons]

/-- Where the new item is. -/
theorem insert_split (cmp : α → α → ℤ) (x : ℕ × α) (q : List (ℕ × α)) :
    ∃ A B, q = A ++ B ∧ insert cmp x q = A ++ x :: B ∧ (∀ y ∈ A, 0 < cmp x.2 y.2) ∧
      ∀ y, B.head? = some y → cmp x.2 y.2 ≤ 0 := by
  induction q with
  | nil => exact ⟨[], [], rfl, rfl, by simp, by simp⟩
  | cons y q ih =>
      rw [insert]
      by_cases hle : cmp x.2 y.2 ≤ 0
      · rw [if_pos hle]
        refine ⟨[], y :: q, rfl, rfl, by simp, ?_⟩
        intro z hz
        obtain rfl : y = z := Option.some.inj hz
        exact hle
      · rw [if_neg hle]
        obtain ⟨A, B, rfl, hins, hA, hB⟩ := ih
        refine ⟨y :: A, B, rfl, by rw [hins]; rfl, ?_, hB⟩
        intro z hz
        rcases List.mem_cons.mp hz with rfl | hz
        · exact lt_of_not_ge hle
        · exact hA z hz

theorem filter_insert_ne (h : x.1 ≠ j) :
    (insert cmp x q).filter (fun y => y.1 = j) = q.filter fun y => y.1 = j := by
  obtain ⟨A, B, rfl, hins, -⟩ := insert_split cmp x q
  simp [hins, h]

theorem filter_insert_self (h : x.1 ∉ q.map Prod.fst) :
    (insert cmp x q).filter (fun y => y.1 = x.1) = [x] := by
  apply List.Perm.eq_singleton
  refine ((insert_perm x q).filter _).trans ?_
  rw [List.filter_cons_of_pos (by simp), List.filter_eq_nil_iff.mpr]
  intro y hy
  simp only [decide_eq_true_eq]
  intro hyx
  exact h (hyx ▸ List.mem_map_of_mem hy)

/-- The queue is sorted. -/
def Sorted (cmp : α → α → ℤ) (q : List (ℕ × α)) : Prop := q.Pairwise fun x y => cmp x.2 y.2 ≤ 0

theorem insert_sorted (hc : LawfulCmp cmp) (h : Sorted cmp q) : Sorted cmp (insert cmp x q) := by
  obtain ⟨A, B, rfl, hins, hA, hB⟩ := insert_split cmp x q
  unfold Sorted at h ⊢
  rw [List.pairwise_append] at h
  rw [hins, List.pairwise_append, List.pairwise_cons]
  have hxB : ∀ y ∈ B, cmp x.2 y.2 ≤ 0 := by
    cases B with
    | nil => simp
    | cons b B =>
        have hxb := hB b rfl
        intro y hy
        rcases List.mem_cons.mp hy with rfl | hy
        · exact hxb
        · exact hc.trans _ _ _ hxb ((List.pairwise_cons.mp h.2.1).1 y hy)
  refine ⟨h.1, ⟨hxB, h.2.1⟩, ?_⟩
  intro a ha y hy
  rcases List.mem_cons.mp hy with rfl | hy
  · exact ((hc.swap a.2 y.2).mpr (hA a ha)).le
  · exact h.2.2 a ha y hy

/-! ## Feeding -/

/-- A lane sends its item, or there is nothing to do. -/
theorem feed_cases (cmp : α → α → ℤ) (i : ℕ) (s : State α) :
    (feed cmp i s = s ∧ (i ∈ s.queue.map Prod.fst ∨ s.rests.getD i [] = [])) ∨
    ∃ x rest, i ∉ s.queue.map Prod.fst ∧ s.rests[i]? = some (x :: rest) ∧
      feed cmp i s = ⟨s.rests.set i rest, insert cmp (i, x) s.queue⟩ := by
  unfold feed
  by_cases hi : i ∈ s.queue.map Prod.fst
  · rw [if_pos hi]
    exact Or.inl ⟨rfl, Or.inl hi⟩
  · rw [if_neg hi]
    cases hr : s.rests[i]? with
    | none => exact Or.inl ⟨rfl, Or.inr (by rw [List.getD_eq_getElem?_getD, hr]; rfl)⟩
    | some r =>
        cases r with
        | nil => exact Or.inl ⟨rfl, Or.inr (by rw [List.getD_eq_getElem?_getD, hr]; rfl)⟩
        | cons x rest => exact Or.inr ⟨x, rest, hi, rfl, rfl⟩

theorem feed_length : (feed cmp i s).rests.length = s.rests.length := by
  rcases feed_cases cmp i s with ⟨h, -⟩ | ⟨x, rest, -, -, h⟩
  · rw [h]
  · rw [h, List.length_set]

theorem feed_valid (h : s.Valid) : (feed cmp i s).Valid := by
  rcases feed_cases cmp i s with ⟨heq, -⟩ | ⟨x, rest, hi, hr, heq⟩
  · rwa [heq]
  · rw [heq]
    constructor
    · rw [((insert_perm (i, x) s.queue).map Prod.fst).nodup_iff, List.map_cons, List.nodup_cons]
      exact ⟨hi, h.nodup⟩
    · intro y hy
      rw [List.length_set]
      rcases mem_insert.mp hy with rfl | hy
      · exact (List.getElem?_eq_some_iff.mp hr).1
      · exact h.lanes y hy

theorem feed_sorted (hc : LawfulCmp cmp) (h : Sorted cmp s.queue) :
    Sorted cmp (feed cmp i s).queue := by
  rcases feed_cases cmp i s with ⟨heq, -⟩ | ⟨x, rest, hi, hr, heq⟩
  · rwa [heq]
  · rw [heq]
    exact insert_sorted hc h

/-- Feeding loses nothing and adds nothing. -/
theorem feed_lane (i j : ℕ) (s : State α) : (feed cmp i s).lane j = s.lane j := by
  rcases feed_cases cmp i s with ⟨heq, -⟩ | ⟨x, rest, hi, hr, heq⟩
  · rw [heq]
  · rw [heq]
    unfold State.lane
    have hlt := (List.getElem?_eq_some_iff.mp hr).1
    simp only [List.getD_eq_getElem?_getD]
    by_cases hij : i = j
    · subst hij
      have hnil : (s.queue.filter fun y => y.1 = i) = [] := by
        rw [List.filter_eq_nil_iff]
        intro y hy
        simp only [decide_eq_true_eq]
        intro hyi
        exact hi (hyi ▸ List.mem_map_of_mem hy)
      have hself : (insert cmp (i, x) s.queue).filter (fun y => y.1 = i) = [(i, x)] :=
        filter_insert_self (x := (i, x)) hi
      rw [hself, hnil, List.getElem?_set_self hlt, hr]
      rfl
    · rw [filter_insert_ne (x := (i, x)) hij, List.getElem?_set_ne hij]

theorem feed_total (i : ℕ) (s : State α) : (feed cmp i s).total = s.total := by
  rcases feed_cases cmp i s with ⟨heq, -⟩ | ⟨x, rest, hi, hr, heq⟩
  · rw [heq]
  · obtain ⟨hlt, hget⟩ := List.getElem?_eq_some_iff.mp hr
    rw [heq]
    unfold State.total
    have hsum : ((s.rests.set i rest).map List.length).sum + 1 = (s.rests.map List.length).sum := by
      have hsplit : s.rests = s.rests.take i ++ (x :: rest) :: s.rests.drop (i + 1) := by
        rw [← hget, List.cons_getElem_drop_succ, List.take_append_drop]
      rw [hsplit, List.set_append_right _ _ (by simp), List.length_take_of_le hlt.le,
        Nat.sub_self, List.set_cons_zero]
      simp only [List.map_append, List.map_cons, List.sum_append, List.sum_cons, List.length_cons]
      omega
    rw [(insert_perm (i, x) s.queue).length_eq, List.length_cons]
    change ((s.rests.set i rest).map List.length).sum + (s.queue.length + 1) = _
    omega

theorem feedUpTo_length (n : ℕ) (s : State α) :
    (feedUpTo cmp n s).rests.length = s.rests.length := by
  induction n with
  | zero => rfl
  | succ n ih => rw [feedUpTo, feed_length, ih]

theorem feedUpTo_valid (h : s.Valid) (n : ℕ) : (feedUpTo cmp n s).Valid := by
  induction n with
  | zero => exact h
  | succ n ih => exact feed_valid ih

theorem feedUpTo_sorted (hc : LawfulCmp cmp) (h : Sorted cmp s.queue) (n : ℕ) :
    Sorted cmp (feedUpTo cmp n s).queue := by
  induction n with
  | zero => exact h
  | succ n ih => exact feed_sorted hc ih

theorem feedUpTo_lane (cmp : α → α → ℤ) (n j : ℕ) (s : State α) :
    (feedUpTo cmp n s).lane j = s.lane j := by
  induction n with
  | zero => rfl
  | succ n ih => rw [feedUpTo, feed_lane, ih]

theorem feedUpTo_total (cmp : α → α → ℤ) (n : ℕ) (s : State α) :
    (feedUpTo cmp n s).total = s.total := by
  induction n with
  | zero => rfl
  | succ n ih => rw [feedUpTo, feed_total, ih]

/-- Items in the queue stay there while lanes are fed. -/
theorem feed_sublist (i : ℕ) (s : State α) : s.queue.Sublist (feed cmp i s).queue := by
  rcases feed_cases cmp i s with ⟨heq, -⟩ | ⟨x, rest, hi, hr, heq⟩
  · rw [heq]
  · obtain ⟨A, B, hq, hins, -⟩ := insert_split cmp (i, x) s.queue
    rw [heq, hins, hq]
    exact (List.sublist_cons_self _ B).append_left A

theorem feedUpTo_sublist (n : ℕ) (s : State α) : s.queue.Sublist (feedUpTo cmp n s).queue := by
  induction n with
  | zero => exact List.Sublist.refl _
  | succ n ih => exact ih.trans (feed_sublist n _)

/-- A lane that was fed has an item in the queue, or nothing more to send. -/
theorem feed_covers (i : ℕ) (s : State α) : i ∈ (feed cmp i s).queue.map Prod.fst ∨
    (feed cmp i s).rests.getD i [] = [] := by
  rcases feed_cases cmp i s with ⟨heq, h⟩ | ⟨x, rest, hi, hr, heq⟩
  · rw [heq]
    exact h
  · rw [heq]
    exact Or.inl (List.mem_map_of_mem (mem_insert.mpr (Or.inl rfl)))

theorem feedUpTo_covers (cmp : α → α → ℤ) (s : State α) :
    i < n → i ∈ (feedUpTo cmp n s).queue.map Prod.fst ∨
      (feedUpTo cmp n s).rests.getD i [] = [] := by
  induction n with
  | zero => simp
  | succ n ih =>
      intro hi
      by_cases hin : i = n
      · subst hin
        exact feed_covers i _
      · rcases ih (by omega) with hq | hr
        · exact Or.inl (((feed_sublist n _).map Prod.fst).subset hq)
        · rcases feed_cases cmp n (feedUpTo cmp n s) with ⟨heq, -⟩ | ⟨x, rest, -, -, heq⟩
          · rw [feedUpTo, heq]
            exact Or.inr hr
          · rw [feedUpTo, heq, List.getD_eq_getElem?_getD, List.getElem?_set_ne (Ne.symm hin),
              ← List.getD_eq_getElem?_getD]
            exact Or.inr hr

/-- Once all lanes are fed, what has something to deliver is in the queue. -/
theorem fed_covers (h : (s.fed cmp).lane i ≠ []) : i ∈ (s.fed cmp).queue.map Prod.fst := by
  by_contra hi
  have hnil : ((s.fed cmp).queue.filter fun y => y.1 = i) = [] := by
    rw [List.filter_eq_nil_iff]
    intro y hy
    simp only [decide_eq_true_eq]
    intro hyi
    exact hi (hyi ▸ List.mem_map_of_mem hy)
  rw [State.lane, hnil, List.map_nil, List.nil_append] at h
  by_cases hlt : i < s.rests.length
  · rcases feedUpTo_covers cmp s hlt with hq | hr
    · exact hi hq
    · exact h hr
  · apply h
    rw [State.fed, List.getD_eq_default]
    rw [feedUpTo_length]
    exact Nat.le_of_not_lt hlt

/-! ## What leaves -/

theorem equalRun_cons_cons : equalRun cmp (x :: y :: q) =
    if cmp x.2 y.2 = 0 then x :: equalRun cmp (y :: q) else [] := rfl

/-- Items that equal their successor, and the last one, which does not. -/
theorem equalRun_split (hc : LawfulCmp cmp) (x : ℕ × α) (q : List (ℕ × α)) :
    ∃ z rest, x :: q = equalRun cmp (x :: q) ++ z :: rest ∧
      ∀ y ∈ equalRun cmp (x :: q), cmp y.2 z.2 = 0 := by
  induction q generalizing x with
  | nil => exact ⟨x, [], rfl, by simp [equalRun]⟩
  | cons y q ih =>
      rw [equalRun_cons_cons]
      by_cases heq : cmp x.2 y.2 = 0
      · rw [if_pos heq]
        obtain ⟨z, rest, hsplit, hall⟩ := ih y
        refine ⟨z, rest, by rw [List.cons_append, ← hsplit], ?_⟩
        have hyz : cmp y.2 z.2 = 0 := by
          cases hrun : equalRun cmp (y :: q) with
          | nil =>
              rw [hrun, List.nil_append, List.cons.injEq] at hsplit
              rw [hsplit.1]
              exact hc.refl z.2
          | cons a as =>
              rw [hrun, List.cons_append, List.cons.injEq] at hsplit
              apply hall
              rw [hrun, hsplit.1]
              exact List.mem_cons_self
        intro w hw
        rcases List.mem_cons.mp hw with rfl | hw
        · exact hc.eq_trans heq hyz
        · exact hall w hw
      · rw [if_neg heq]
        exact ⟨x, y :: q, rfl, by simp⟩

/-- What leaves is a front part of the queue, not empty. -/
theorem delivery_prefix (hc : LawfulCmp cmp) (x : ℕ × α) (q : List (ℕ × α)) :
    ∃ rest, x :: q = (delivery cmp x q).items ++ rest ∧ (delivery cmp x q).items ≠ [] := by
  unfold delivery
  by_cases hrun : equalRun cmp (x :: q) = []
  · rw [if_pos hrun]
    exact ⟨q, rfl, by simp⟩
  · rw [if_neg hrun]
    obtain ⟨z, rest, hsplit, -⟩ := equalRun_split hc x q
    exact ⟨z :: rest, hsplit, hrun⟩

theorem Next.split (hc : LawfulCmp cmp) (h : Next cmp s d s') :
    (s.fed cmp).queue = d.items ++ s'.queue ∧ d.items ≠ [] ∧ s'.rests = (s.fed cmp).rests := by
  cases h with
  | @intro x q hq =>
      obtain ⟨rest, hsplit, hne⟩ := delivery_prefix hc x q
      refine ⟨?_, hne, rfl⟩
      change _ = _ ++ (x :: q).drop _
      rw [hq]
      conv_lhs => rw [hsplit]
      conv_rhs => rw [hsplit, List.drop_left]

/-- What leaves is taken from the front of its lane. -/
theorem Next.lane (hc : LawfulCmp cmp) (h : Next cmp s d s') (i : ℕ) :
    s.lane i = (d.items.filter fun x => x.1 = i).map Prod.snd ++ s'.lane i := by
  obtain ⟨hq, -, hr⟩ := h.split hc
  rw [← feedUpTo_lane cmp s.rests.length i s]
  unfold State.lane
  rw [hr, ← List.append_assoc, ← List.map_append, ← List.filter_append, ← hq]
  rfl

theorem Next.valid (hc : LawfulCmp cmp) (h : Next cmp s d s') (hv : s.Valid) : s'.Valid := by
  obtain ⟨hq, -, hr⟩ := h.split hc
  have hfed : (s.fed cmp).Valid := feedUpTo_valid hv _
  have hsub : s'.queue.Sublist (s.fed cmp).queue := by
    rw [hq]
    exact List.sublist_append_right _ _
  refine ⟨hfed.nodup.sublist (hsub.map Prod.fst), ?_⟩
  intro x hx
  rw [hr]
  exact hfed.lanes x (hsub.subset hx)

theorem State.Valid.length_le (h : s.Valid) : s.queue.length ≤ s.rests.length := by
  have hsub : s.queue.map Prod.fst ⊆ List.range s.rests.length := by
    intro i hi
    obtain ⟨x, hx, rfl⟩ := List.mem_map.mp hi
    exact List.mem_range.mpr (h.lanes x hx)
  have hlen := (List.Nodup.subperm h.nodup hsub).length_le
  rwa [List.length_map, List.length_range] at hlen

theorem State.Valid.lt_of_mem_lane {a : α} (h : s.Valid) (ha : a ∈ s.lane i) : i < s.rests.length := by
  by_contra hge
  unfold State.lane at ha
  rw [List.getD_eq_default _ _ (Nat.le_of_not_lt hge), List.append_nil] at ha
  obtain ⟨x, hx, -⟩ := List.mem_map.mp ha
  obtain ⟨hx, hxi⟩ := List.mem_filter.mp hx
  simp only [decide_eq_true_eq] at hxi
  exact hge (hxi ▸ h.lanes x hx)

/-- A single lane is sent as it is. -/
theorem Next.one_lane (hc : LawfulCmp cmp) (h : Next cmp s d s') (hv : s.Valid)
    (hone : s.rests.length = 1) : ∃ a, d = .single (0, a) ∧ s.lane 0 = a :: s'.lane 0 := by
  have hfed : (s.fed cmp).Valid := feedUpTo_valid hv _
  have hle := hfed.length_le
  have hlanes := hfed.lanes
  rw [State.fed, feedUpTo_length, hone] at hle hlanes
  have hlane := h.lane hc 0
  cases h with
  | @intro x q hq =>
      have hqueue : (feedUpTo cmp s.rests.length s).queue = x :: q := hq
      rw [hone] at hqueue
      rw [hqueue] at hle hlanes
      have hnil : q = [] := by
        rw [List.length_cons] at hle
        exact List.length_eq_zero_iff.mp (by omega)
      subst hnil
      obtain ⟨i, a⟩ := x
      have hi : i = 0 := Nat.lt_one_iff.mp (hlanes (i, a) List.mem_cons_self)
      subst hi
      refine ⟨a, rfl, ?_⟩
      rw [hlane]
      rfl

/-- Merging takes two lanes. -/
theorem Next.merged {xs : List (ℕ × α)} (hc : LawfulCmp cmp) (h : Next cmp s (.merged xs) s')
    (hv : s.Valid) : xs ≠ [] ∧ 2 ≤ s.rests.length := by
  have hfed : (s.fed cmp).Valid := feedUpTo_valid hv _
  have hle := hfed.length_le
  rw [State.fed, feedUpTo_length] at hle
  obtain ⟨-, hne, -⟩ := h.split hc
  refine ⟨hne, ?_⟩
  generalize hd : Delivery.merged xs = d at h
  cases h with
  | @intro x q hq =>
      obtain ⟨z, rest, hsplit, -⟩ := equalRun_split hc x q
      unfold delivery at hd
      by_cases hrun : equalRun cmp (x :: q) = []
      · rw [if_pos hrun] at hd
        cases hd
      · have hpos := List.length_pos_of_ne_nil hrun
        have hlen := congrArg List.length hsplit
        rw [List.length_append, List.length_cons (a := z)] at hlen
        have hqueue : (feedUpTo cmp s.rests.length s).queue = x :: q := hq
        rw [hqueue] at hle
        omega

theorem Next.sorted (hc : LawfulCmp cmp) (h : Next cmp s d s') (hs : Sorted cmp s.queue) :
    Sorted cmp (s.fed cmp).queue ∧ Sorted cmp s'.queue := by
  have hfed : Sorted cmp (s.fed cmp).queue := feedUpTo_sorted hc hs _
  obtain ⟨hq, -, -⟩ := h.split hc
  refine ⟨hfed, ?_⟩
  unfold Sorted at hfed
  rw [hq, List.pairwise_append] at hfed
  exact hfed.2.1

theorem Next.total (hc : LawfulCmp cmp) (h : Next cmp s d s') :
    s.total = d.items.length + s'.total := by
  obtain ⟨hq, -, hr⟩ := h.split hc
  rw [← feedUpTo_total cmp s.rests.length s]
  change (s.fed cmp).total = _
  unfold State.total
  rw [hq, hr, List.length_append]
  omega

theorem Next.lt (hc : LawfulCmp cmp) (h : Next cmp s d s') : s'.total < s.total := by
  have htotal := h.total hc
  have hpos := List.length_pos_of_ne_nil (h.split hc).2.1
  omega

theorem State.done_iff : s.Done ↔ s.total = 0 := by
  unfold State.Done State.total
  rw [Nat.add_eq_zero_iff, List.sum_eq_zero_iff, List.length_eq_zero_iff, and_comm]
  simp

/-- As long as something is to come, something leaves. -/
theorem exists_next (cmp : α → α → ℤ) (h : ¬ s.Done) : ∃ d s', Next cmp s d s' := by
  cases hq : (s.fed cmp).queue with
  | cons x q => exact ⟨_, _, .intro hq⟩
  | nil =>
      exfalso
      apply h
      rw [State.done_iff, ← feedUpTo_total cmp s.rests.length s, ← State.done_iff]
      refine ⟨hq, ?_⟩
      intro r hr
      obtain ⟨i, hi⟩ := List.getElem?_of_mem hr
      by_contra hne
      have hlane : (s.fed cmp).lane i ≠ [] := by
        unfold State.lane
        rw [hq, List.filter_nil, List.map_nil, List.nil_append, List.getD_eq_getElem?_getD]
        exact fun hnil => hne ((congrArg (fun o => o.getD []) hi).symm.trans hnil)
      have hcover := fed_covers hlane
      rw [hq] at hcover
      cases hcover

theorem Next.not_done (hc : LawfulCmp cmp) (h : Next cmp s d s') : ¬ s.Done := by
  rw [State.done_iff]
  exact (Nat.zero_lt_of_lt (h.lt hc)).ne'

/-- There is one way to go on. -/
theorem Next.unique {d' : Delivery (ℕ × α)} {s'' : State α} (h : Next cmp s d s')
    (h' : Next cmp s d' s'') : d = d' ∧ s' = s'' := by
  cases h with
  | @intro x q hq =>
      cases h' with
      | @intro y r hr =>
          obtain ⟨rfl, rfl⟩ := List.cons.inj (hq.symm.trans hr)
          exact ⟨rfl, rfl⟩

/-! ## Whole runs -/

/-- The items of a run. -/
def flat (ds : List (Delivery α)) : List α := ds.flatMap Delivery.items

@[simp] theorem flat_nil : flat ([] : List (Delivery α)) = [] := rfl

@[simp] theorem flat_cons (d : Delivery α) (ds : List (Delivery α)) :
    flat (d :: ds) = d.items ++ flat ds := rfl

@[simp] theorem flat_append (ds es : List (Delivery α)) : flat (ds ++ es) = flat ds ++ flat es :=
  List.flatMap_append

theorem State.Done.lane (h : s.Done) (i : ℕ) : s.lane i = [] := by
  unfold State.lane
  rw [h.1, List.getD_eq_getElem?_getD]
  cases hr : s.rests[i]? with
  | none => rfl
  | some r =>
      rw [h.2 r (List.mem_of_getElem? hr)]
      rfl

/-- A run delivers each lane's items once, in their order. -/
theorem Delivers.lane (hc : LawfulCmp cmp) (h : Delivers cmp s ds) (i : ℕ) :
    ((flat ds).filter fun x => x.1 = i).map Prod.snd = s.lane i := by
  induction h with
  | done h => rw [h.lane i, flat_nil, List.filter_nil, List.map_nil]
  | next h _ ih => rw [flat_cons, List.filter_append, List.map_append, ih, h.lane hc i]

theorem Run.cons {s'' : State α} (h : Next cmp s d s') (hrun : Run cmp s' ds s'') :
    Run cmp s (d :: ds) s'' := by
  induction hrun with
  | start => exact .next .start h
  | next _ hlast ih => exact .next ih hlast

/-- A run that goes anywhere starts with the next step. -/
theorem Run.cases_head {s'' : State α} (hrun : Run cmp s ds s'') (h : Next cmp s d s') :
    (ds = [] ∧ s'' = s) ∨ ∃ ds', ds = d :: ds' ∧ Run cmp s' ds' s'' := by
  induction hrun with
  | start => exact Or.inl ⟨rfl, rfl⟩
  | next _ hlast ih =>
      refine Or.inr ?_
      rcases ih with ⟨rfl, rfl⟩ | ⟨ds', rfl, hrun⟩
      · obtain ⟨rfl, rfl⟩ := h.unique hlast
        exact ⟨[], rfl, .start⟩
      · exact ⟨_, rfl, .next hrun hlast⟩

/-- As many steps lead to the same state. -/
theorem Run.unique {ds' : List (Delivery (ℕ × α))} {s'' : State α} (h : Run cmp s ds s')
    (h' : Run cmp s ds' s'') (hlen : ds.length = ds'.length) : ds = ds' ∧ s' = s'' := by
  induction h generalizing ds' s'' with
  | start =>
      cases h' with
      | start => exact ⟨rfl, rfl⟩
      | next _ _ => simp at hlen
  | next _ hnext ih =>
      cases h' with
      | start => simp at hlen
      | next hrun' hnext' =>
          obtain ⟨rfl, rfl⟩ := ih hrun' (by simpa using hlen)
          obtain ⟨rfl, rfl⟩ := hnext.unique hnext'
          exact ⟨rfl, rfl⟩

theorem Run.delivers (h : Run cmp s ds s') {ds' : List (Delivery (ℕ × α))}
    (hrest : Delivers cmp s' ds') : Delivers cmp s (ds ++ ds') := by
  induction h generalizing ds' with
  | start => exact hrest
  | next _ h ih =>
      rw [List.append_assoc]
      exact ih (.next h hrest)

theorem Run.valid (hc : LawfulCmp cmp) (h : Run cmp s ds s') (hv : s.Valid) : s'.Valid := by
  induction h with
  | start => exact hv
  | next _ h ih => exact h.valid hc ih

theorem Run.sorted (hc : LawfulCmp cmp) (h : Run cmp s ds s') (hs : Sorted cmp s.queue) :
    Sorted cmp s'.queue := by
  induction h with
  | start => exact hs
  | next _ h ih => exact (h.sorted hc ih).2

theorem Run.total_le (hc : LawfulCmp cmp) (h : Run cmp s ds s') : s'.total ≤ s.total := by
  induction h with
  | start => exact le_rfl
  | next _ h ih => exact (h.lt hc).le.trans ih

/-- Each step takes something out. -/
theorem Run.length_add_total_le (hc : LawfulCmp cmp) (h : Run cmp s ds s') :
    ds.length + s'.total ≤ s.total := by
  induction h with
  | start => simp
  | next _ h ih =>
      have hlt := h.lt hc
      rw [List.length_append, List.length_singleton]
      omega

/-- A run takes the items of a lane from its front. -/
theorem Run.lane (hc : LawfulCmp cmp) (h : Run cmp s ds s') (i : ℕ) :
    s.lane i = ((flat ds).filter fun x => x.1 = i).map Prod.snd ++ s'.lane i := by
  induction h with
  | start => rfl
  | next _ h ih =>
      rw [ih, h.lane hc i, flat_append, List.filter_append, List.map_append, List.append_assoc,
        flat_cons, flat_nil, List.append_nil]

theorem Delivers.mem (hc : LawfulCmp cmp) (h : Delivers cmp s ds) {a : α} :
    (i, a) ∈ flat ds ↔ a ∈ s.lane i := by
  rw [← h.lane hc i]
  simp

theorem mem_lane_of_queue (hx : x ∈ s.queue) : x.2 ∈ s.lane x.1 := by
  unfold State.lane
  rw [List.mem_append, List.mem_map]
  exact Or.inl ⟨x, List.mem_filter.mpr ⟨hx, by simp⟩, rfl⟩

theorem Delivers.length_le (hc : LawfulCmp cmp) (h : Delivers cmp s ds) : ds.length ≤ s.total := by
  induction h with
  | done h => exact Nat.zero_le _
  | next h _ ih =>
      rw [List.length_cons]
      exact lt_of_le_of_lt ih (h.lt hc)

/-- The lanes of what is delivered. -/
theorem Delivers.lanes (hc : LawfulCmp cmp) (h : Delivers cmp s ds) (hv : s.Valid) :
    ∀ x ∈ flat ds, x.1 < s.rests.length := by
  intro x hx
  exact hv.lt_of_mem_lane ((h.mem hc).mp hx)

end Lanes
