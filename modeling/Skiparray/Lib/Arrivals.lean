import Skiparray.Lib.Merging

/-!
# In which order equal items arrive

A lane sends its next item when the one before has left. Of several equal items all
but the first to arrive leave together, the last to arrive in front; the first to
arrive leaves after them. So which lane is ahead of which at an item depends on
the items before it, and on nothing else: `InTurn` goes through these items, and
says of the lanes alone whether what leaves together always stands in the order of
the lanes.
-/

namespace Lanes

variable {α : Type}

/-! ## Lanes in the order of their last items -/

/-- The lanes `sent` send again, one after the other, and come last. -/
def requeue (sent order : List ℕ) : List ℕ :=
  order.filter (fun i => i ∉ sent) ++ (List.range order.length).filter fun i => i ∈ sent

/-- The lanes that share an item send again: all but the first of them, and then
the first. -/
def resend (shares : ℕ → Bool) (order : List ℕ) : List ℕ :=
  match order.filter shares with
  | [] => order
  | first :: others => requeue [first] (requeue others order)

/-- Item by item, the lanes that share it stand in descending order, but for the
first of them. -/
def InTurn (shares : α → ℕ → Bool) : List ℕ → List α → Prop
  | _, [] => True
  | order, a :: as => (order.filter (shares a)).tail.Pairwise (· > ·) ∧
    InTurn shares (resend (shares a) order) as

instance decidableInTurn (shares : α → ℕ → Bool) :
    ∀ (order : List ℕ) (as : List α), Decidable (InTurn shares order as)
  | _, [] => .isTrue trivial
  | order, a :: as =>
    have := decidableInTurn shares (resend (shares a) order) as
    inferInstanceAs (Decidable (_ ∧ _))

section Distinct

variable (cmp : α → α → ℤ)

/-- Among ascending items, unless there is an equal one. -/
def addNew (a : α) : List α → List α
  | [] => [a]
  | b :: as =>
    if cmp a b < 0 then a :: b :: as else if cmp a b = 0 then b :: as else b :: addNew a as

/-- The items of all lanes, in ascending order, one of each kind. -/
def distinct (lanes : List (List α)) : List α := lanes.flatten.foldr (addNew cmp) []

/-- Lane `i` has an item equal to `a`. -/
def shares (lanes : List (List α)) (a : α) (i : ℕ) : Bool :=
  (lanes.getD i []).any fun b => cmp b a = 0

/-- `InTurn` for lanes that all send their first items in turn. -/
def SharedInTurn (lanes : List (List α)) : Prop :=
  InTurn (shares cmp lanes) (List.range lanes.length) (distinct cmp lanes)

instance (lanes : List (List α)) : Decidable (SharedInTurn cmp lanes) :=
  inferInstanceAs (Decidable (InTurn _ _ _))

end Distinct

/-- Equal items stand with the last to arrive in front. -/
def Stacked (cmp : α → α → ℤ) (order : List ℕ) (q : List (ℕ × α)) : Prop :=
  q.Pairwise fun x y => cmp x.2 y.2 = 0 → [y.1, x.1].Sublist order

/-- Whatever leaves together stands in the order of the lanes. -/
def State.MergesAscending (cmp : α → α → ℤ) (s : State α) : Prop :=
  ∀ ⦃ds s₁ xs s₂⦄, Run cmp s ds s₁ → Next cmp s₁ (.merged xs) s₂ →
    (xs.map Prod.fst).Pairwise (· < ·)

variable {cmp : α → α → ℤ} {s s' : State α} {x y : ℕ × α} {q : List (ℕ × α)} {i j n : ℕ}
  {a b : α} {as : List α} {d : Delivery (ℕ × α)} {ds : List (Delivery (ℕ × α))}
  {order sent : List ℕ}

/-! ## The order -/

theorem pair_sublist {l : List ℕ} (h : l.Pairwise (· < ·)) (hi : i ∈ l) (hj : j ∈ l) (hlt : i < j) :
    [i, j].Sublist l := by
  obtain ⟨A, B, rfl⟩ := List.append_of_mem hi
  obtain ⟨-, hB, hcross⟩ := List.pairwise_append.mp h
  have hjB : j ∈ B := by
    rcases List.mem_append.mp hj with hA | hB'
    · exact absurd (hcross j hA i List.mem_cons_self) (by omega)
    · exact (List.mem_cons.mp hB').resolve_left (by omega)
  exact ((List.singleton_sublist.mpr hjB).cons_cons i).trans (List.sublist_append_right A _)

theorem requeue_perm (h : order.Perm (List.range n)) (sent : List ℕ) :
    (requeue sent order).Perm (List.range n) := by
  unfold requeue
  rw [h.length_eq, List.length_range]
  refine ((h.filter _).append_right _).trans ?_
  refine List.perm_append_comm.trans ?_
  simpa using List.filter_append_perm (fun i => decide (i ∈ sent)) (List.range n)

theorem requeue_congr {sent' : List ℕ} (h : ∀ i, i ∈ sent ↔ i ∈ sent') (order : List ℕ) :
    requeue sent order = requeue sent' order := by
  simp only [requeue, h]

@[simp] theorem requeue_nil (order : List ℕ) : requeue [] order = order := by
  simp [requeue]

/-- Of some lanes those that do not send keep their order. -/
theorem filter_requeue (P : ℕ → Bool) (sent order : List ℕ) :
    (requeue sent order).filter (fun i => P i && decide (i ∉ sent)) =
      (order.filter P).filter fun i => i ∉ sent := by
  unfold requeue
  rw [List.filter_append, List.filter_filter, List.filter_filter, List.filter_filter]
  have hnone : ((List.range order.length).filter fun i =>
      P i && decide (i ∉ sent) && decide (i ∈ sent)) = [] := by
    rw [List.filter_eq_nil_iff]
    intro i _
    simp
  rw [hnone, List.append_nil]
  apply List.filter_congr
  intro i _
  cases P i <;> simp

theorem resend_nil {shares : ℕ → Bool} (h : order.filter shares = []) : resend shares order = order := by
  unfold resend
  rw [h]

theorem resend_cons {shares : ℕ → Bool} {first : ℕ} {others : List ℕ}
    (h : order.filter shares = first :: others) :
    resend shares order = requeue [first] (requeue others order) := by
  unfold resend
  rw [h]

/-- Those that did not send stay as they were. -/
theorem requeue_old (h : [i, j].Sublist order) (hi : i ∉ sent) (hj : j ∉ sent) :
    [i, j].Sublist (requeue sent order) := by
  have hkept := h.filter fun i => decide (i ∉ sent)
  rw [List.filter_cons_of_pos (by simpa using hi), List.filter_cons_of_pos (by simpa using hj)] at hkept
  exact hkept.trans (List.sublist_append_left _ _)

/-- A lane that sends again comes after those that did not. -/
theorem requeue_new (hperm : order.Perm (List.range n)) (hi : i < n) (hj : j < n) (hnot : i ∉ sent)
    (hsent : j ∈ sent) : [i, j].Sublist (requeue sent order) := by
  have hmem : ∀ {k}, k < n → k ∈ order := fun hk => hperm.mem_iff.mpr (List.mem_range.mpr hk)
  have hold : i ∈ order.filter fun i => decide (i ∉ sent) := by simpa [hnot] using hmem hi
  have hnew : j ∈ (List.range order.length).filter fun i => decide (i ∈ sent) := by
    rw [hperm.length_eq, List.length_range]
    simpa [hsent] using hj
  exact (List.singleton_sublist.mpr hold).append (List.singleton_sublist.mpr hnew)

/-- And after smaller ones that send again. -/
theorem requeue_lt (hperm : order.Perm (List.range n)) (hlt : i < j) (hj : j < n) (hi : i ∈ sent)
    (hsent : j ∈ sent) : [i, j].Sublist (requeue sent order) := by
  refine List.Sublist.trans ?_ (List.sublist_append_right _ _)
  rw [hperm.length_eq, List.length_range]
  refine pair_sublist (List.pairwise_lt_range.filter _) ?_ ?_ hlt
  · simpa [hi] using hlt.trans hj
  · simpa [hsent] using hj

/-! ## Arrival -/

/-- A new item stands in front of its equals. -/
theorem insert_stacked (hc : LawfulCmp cmp) (hs : Sorted cmp q) (hq : Stacked cmp order q)
    (hx : ∀ y ∈ q, [y.1, x.1].Sublist order) : Stacked cmp order (insert cmp x q) := by
  obtain ⟨A, B, rfl, hins, hA, -⟩ := insert_split cmp x q
  unfold Stacked at hq ⊢
  rw [List.pairwise_append] at hq
  rw [hins, List.pairwise_append, List.pairwise_cons]
  refine ⟨hq.1, ⟨?_, hq.2.1⟩, ?_⟩
  · intro y hy _
    exact hx y (List.mem_append_right _ hy)
  · intro y hy z hz heq
    rcases List.mem_cons.mp hz with rfl | hz
    · have hlt := hA y hy
      rw [hc.symm heq] at hlt
      exact absurd hlt (lt_irrefl 0)
    · exact hq.2.2 y hy z hz heq

/-- Lanes that are fed in turn send their items one after the other. -/
theorem feedUpTo_stacked (hc : LawfulCmp cmp) (hv : s.Valid) (hs : Sorted cmp s.queue)
    (hperm : order.Perm (List.range s.rests.length))
    (hold : Stacked cmp (requeue sent order) s.queue) (hnot : ∀ x ∈ s.queue, x.1 ∉ sent)
    (hidle : ∀ i a rest, i ∉ s.queue.map Prod.fst → s.rests[i]? = some (a :: rest) → i ∈ sent) (n : ℕ) :
    Stacked cmp (requeue sent order) (feedUpTo cmp n s).queue ∧
      (∀ x ∈ (feedUpTo cmp n s).queue, x.1 ∈ sent → x.1 < n) ∧
      ∀ i, n ≤ i → (feedUpTo cmp n s).rests[i]? = s.rests[i]? := by
  induction n with
  | zero => exact ⟨hold, fun x hx hsent => absurd hsent (hnot x hx), fun _ _ => rfl⟩
  | succ n ih =>
      obtain ⟨hstacked, hbelow, hrests⟩ := ih
      rcases feed_cases cmp n (feedUpTo cmp n s) with ⟨heq, -⟩ | ⟨a, rest, hfresh, hrest, heq⟩
      · rw [feedUpTo, heq]
        exact ⟨hstacked, fun x hx hsent => (hbelow x hx hsent).trans (Nat.lt_succ_self n),
          fun i hi => hrests i (Nat.le_of_succ_le hi)⟩
      · have hvalid : (feedUpTo cmp n s).Valid := feedUpTo_valid hv n
        have hmem : n ∈ sent := by
          refine hidle n a rest ?_ ((hrests n le_rfl).symm.trans hrest)
          exact fun hn => hfresh (((feedUpTo_sublist n s).map Prod.fst).subset hn)
        have hlength : (feedUpTo cmp n s).rests.length = s.rests.length := feedUpTo_length n s
        have hlt : n < s.rests.length := hlength ▸ (List.getElem?_eq_some_iff.mp hrest).1
        rw [feedUpTo, heq]
        refine ⟨insert_stacked hc (feedUpTo_sorted hc hs n) hstacked ?_, ?_, ?_⟩
        · intro y hy
          by_cases hy' : y.1 ∈ sent
          · exact requeue_lt hperm (hbelow y hy hy') hlt hy' hmem
          · exact requeue_new hperm (hlength ▸ hvalid.lanes y hy) hlt hy' hmem
        · intro y hy hy'
          rcases mem_insert.mp hy with rfl | hy
          · exact Nat.lt_succ_self n
          · exact (hbelow y hy hy').trans (Nat.lt_succ_self n)
        · intro i hi
          change ((feedUpTo cmp n s).rests.set n rest)[i]? = _
          rw [List.getElem?_set_ne (Nat.ne_of_lt hi)]
          exact hrests i (Nat.le_of_succ_le hi)

/-- Where a run stands: the lanes ascend, and have sent their last items in the
order `order`. -/
structure Stands (cmp : α → α → ℤ) (order : List ℕ) (s : State α) : Prop where
  valid : s.Valid
  sorted : Sorted cmp s.queue
  ascends : ∀ i, (s.lane i).Pairwise fun a b => cmp a b < 0
  perm : order.Perm (List.range s.rests.length)
  stacked : Stacked cmp order (s.fed cmp).queue

/-- At first no lane has sent. -/
theorem Stands.start (hc : LawfulCmp cmp) {lanes : List (List α)}
    (h : ∀ lane ∈ lanes, lane.Pairwise fun a b => cmp a b < 0) :
    Stands cmp (List.range lanes.length) ⟨lanes, []⟩ := by
  have hv : (⟨lanes, []⟩ : State α).Valid := ⟨List.nodup_nil, by simp⟩
  refine ⟨hv, List.Pairwise.nil, ?_, .refl _, ?_⟩
  · intro i
    change (lanes.getD i []).Pairwise _
    rw [List.getD_eq_getElem?_getD]
    cases hi : lanes[i]? with
    | none => exact List.Pairwise.nil
    | some lane => exact h lane (List.mem_of_getElem? hi)
  · have hall : requeue (List.range lanes.length) (List.range lanes.length) =
        List.range lanes.length := by
      unfold requeue
      rw [List.length_range, List.filter_eq_nil_iff.mpr (by simp), List.nil_append,
        List.filter_eq_self.mpr (by simp)]
    have hidle : ∀ i a rest, i ∉ ([] : List (ℕ × α)).map Prod.fst → lanes[i]? = some (a :: rest) →
        i ∈ List.range lanes.length := by
      intro i a rest _ hrest
      exact List.mem_range.mpr (List.getElem?_eq_some_iff.mp hrest).1
    have hfed := (feedUpTo_stacked hc hv List.Pairwise.nil (.refl _) List.Pairwise.nil (by simp)
      hidle lanes.length).1
    rwa [hall] at hfed

/-- The lanes of what leaves send again. -/
theorem Stands.next (hc : LawfulCmp cmp) (h : Stands cmp order s) (hnext : Next cmp s d s') :
    Stands cmp (requeue (d.items.map Prod.fst) order) s' := by
  obtain ⟨hq, -, hr⟩ := hnext.split hc
  have hv := hnext.valid hc h.valid
  have hfed : (s.fed cmp).Valid := feedUpTo_valid h.valid _
  have hlength : s'.rests.length = s.rests.length := by
    rw [hr]
    exact feedUpTo_length ..
  have hperm : order.Perm (List.range s'.rests.length) := hlength ▸ h.perm
  have hnodup := hfed.nodup
  rw [hq, List.map_append, List.nodup_append] at hnodup
  have hnot : ∀ x ∈ s'.queue, x.1 ∉ d.items.map Prod.fst := by
    intro x hx hsent
    exact hnodup.2.2 x.1 hsent x.1 (List.mem_map_of_mem hx) rfl
  have hold : Stacked cmp (requeue (d.items.map Prod.fst) order) s'.queue := by
    have hstacked := h.stacked
    unfold Stacked at hstacked
    rw [hq, List.pairwise_append] at hstacked
    refine hstacked.2.1.imp_of_mem ?_
    intro x y hx hy hxy heq
    exact requeue_old (hxy heq) (hnot y hy) (hnot x hx)
  refine ⟨hv, (hnext.sorted hc h.sorted).2, fun i => (h.ascends i).sublist (hnext.lane_sublist hc i),
    requeue_perm hperm _, (feedUpTo_stacked hc hv (hnext.sorted hc h.sorted).2 hperm hold hnot ?_ _).1⟩
  intro i a rest hidle hrest
  rw [hr] at hrest
  have hlt : i < s.rests.length := by
    rw [← hlength, hr]
    exact (List.getElem?_eq_some_iff.mp hrest).1
  rcases feedUpTo_covers cmp s hlt with hi | hi
  · change i ∈ (s.fed cmp).queue.map Prod.fst at hi
    rw [hq, List.map_append, List.mem_append] at hi
    exact hi.resolve_right hidle
  · change (s.fed cmp).rests.getD i [] = [] at hi
    rw [List.getD_eq_getElem?_getD, hrest] at hi
    cases hi

/-! ## Equal items -/

/-- The smallest items of a sorted queue are in front. -/
theorem sorted_split (hc : LawfulCmp cmp) (hs : Sorted cmp q) (hmin : ∀ x ∈ q, cmp a x.2 ≤ 0) :
    ∃ A B, q = A ++ B ∧ (∀ x ∈ A, cmp x.2 a = 0) ∧ ∀ x ∈ B, cmp a x.2 < 0 := by
  induction q with
  | nil => exact ⟨[], [], rfl, by simp, by simp⟩
  | cons y q ih =>
      unfold Sorted at hs
      obtain ⟨hy, hq⟩ := List.pairwise_cons.mp hs
      rcases (hmin y List.mem_cons_self).lt_or_eq with hlt | heq
      · refine ⟨[], y :: q, rfl, by simp, ?_⟩
        intro x hx
        rcases List.mem_cons.mp hx with rfl | hx
        · exact hlt
        · exact hc.lt_of_lt_of_le hlt (hy x hx)
      · obtain ⟨A, B, rfl, hA, hB⟩ := ih hq fun x hx => hmin x (List.mem_cons_of_mem _ hx)
        refine ⟨y :: A, B, rfl, ?_, hB⟩
        intro x hx
        rcases List.mem_cons.mp hx with rfl | hx
        · exact hc.symm heq
        · exact hA x hx

theorem sublist_pair_antisymm {l : List ℕ} (hl : l.Nodup) (h : [i, j].Sublist l)
    (h' : [j, i].Sublist l) : i = j := by
  induction l with
  | nil => cases h
  | cons k l ih =>
      obtain ⟨hk, hl⟩ := List.nodup_cons.mp hl
      cases h with
      | cons _ h =>
          cases h' with
          | cons _ h' => exact ih hl h h'
          | cons_cons _ h' => exact absurd (h.subset (by simp)) hk
      | cons_cons _ h =>
          cases h' with
          | cons _ h' => exact absurd (h'.subset (by simp)) hk
          | cons_cons _ h' => rfl

/-- What a state has to do with the smallest item `a`: the lanes `shares` have it. -/
structure Front (cmp : α → α → ℤ) (shares : ℕ → Bool) (a : α) (s : State α) : Prop where
  senders : ∀ i, shares i ↔ ∃ b ∈ s.lane i, cmp b a = 0
  least : ∀ i, ∀ b ∈ s.lane i, cmp a b ≤ 0

theorem Stands.nodup (h : Stands cmp order s) : order.Nodup :=
  h.perm.nodup_iff.mpr List.nodup_range

theorem Stands.mem_order (h : Stands cmp order s) (hb : b ∈ s.lane i) : i ∈ order := by
  rw [h.perm.mem_iff, List.mem_range]
  exact h.valid.lt_of_mem_lane hb

/-- Once all lanes are fed, their smallest items are in front, the last to arrive first. -/
theorem Stands.front (hc : LawfulCmp cmp) (h : Stands cmp order s) {P : ℕ → Bool}
    (hf : Front cmp P a s) :
    ∃ A B, (s.fed cmp).queue = A ++ B ∧ (∀ x ∈ A, cmp x.2 a = 0) ∧ (∀ x ∈ B, cmp a x.2 < 0) ∧
      A.map Prod.fst = (order.filter P).reverse := by
  have hlane : ∀ {x}, x ∈ (s.fed cmp).queue → x.2 ∈ s.lane x.1 := by
    intro x hx
    rw [← feedUpTo_lane cmp s.rests.length x.1 s]
    exact mem_lane_of_queue hx
  obtain ⟨A, B, hq, hA, hB⟩ := sorted_split hc (feedUpTo_sorted hc h.sorted _)
    fun x hx => hf.least x.1 _ (hlane hx)
  refine ⟨A, B, hq, hA, hB, ?_⟩
  change (s.fed cmp).queue = A ++ B at hq
  have hfed : (s.fed cmp).Valid := feedUpTo_valid h.valid _
  have hstacked := h.stacked
  have hnodup := hfed.nodup
  unfold Stacked at hstacked
  rw [hq, List.pairwise_append] at hstacked
  rw [hq, List.map_append, List.nodup_append] at hnodup
  have hmem : ∀ i, i ∈ A.map Prod.fst ↔ i ∈ (order.filter P).reverse := by
    intro i
    rw [List.mem_reverse, List.mem_filter, hf.senders]
    constructor
    · intro hi
      obtain ⟨x, hx, rfl⟩ := List.mem_map.mp hi
      have hxlane := hlane (hq ▸ List.mem_append_left B hx)
      exact ⟨h.mem_order hxlane, x.2, hxlane, hA x hx⟩
    · rintro ⟨-, b, hb, hba⟩
      -- the item is the first of its lane, since the lane ascends
      obtain ⟨e, l, hl⟩ := List.exists_cons_of_ne_nil (List.ne_nil_of_mem hb)
      have hea : cmp e a = 0 := by
        refine le_antisymm ?_ ?_
        · have hasc := h.ascends i
          rw [hl] at hb hasc
          rcases List.mem_cons.mp hb with rfl | hb
          · exact hba.le
          · exact hc.trans _ _ _ ((List.pairwise_cons.mp hasc).1 b hb).le hba.le
        · have hle := hf.least i e (by rw [hl]; exact List.mem_cons_self)
          have hswap := hc.swap e a
          omega
      have hhead : (i, e) ∈ (s.fed cmp).queue := fed_head (by rw [hl]; rfl)
      rw [hq] at hhead
      rcases List.mem_append.mp hhead with hi | hi
      · exact List.mem_map_of_mem hi
      · have hlt := hB _ hi
        have hswap := hc.symm hea
        exact absurd hlt (by simp only [hswap]; exact lt_irrefl 0)
  have hanti : ∀ i j, i ∈ A.map Prod.fst → j ∈ (order.filter P).reverse →
      [j, i].Sublist order → [i, j].Sublist order → i = j := by
    intro i j _ _ hij hji
    exact sublist_pair_antisymm h.nodup hji hij
  have hA' : (A.map Prod.fst).Pairwise fun i j => [j, i].Sublist order := by
    rw [List.pairwise_map]
    refine hstacked.1.imp_of_mem ?_
    intro x y hx hy hxy
    exact hxy (hc.eq_trans (hA x hx) (hc.symm (hA y hy)))
  have horder : (order.filter P).reverse.Pairwise fun i j => [j, i].Sublist order := by
    rw [List.pairwise_reverse, List.pairwise_iff_forall_sublist]
    exact fun hij => hij.trans List.filter_sublist
  have hperm : (A.map Prod.fst).Perm (order.filter P).reverse :=
    (List.perm_ext_iff_of_nodup hnodup.1 (List.nodup_reverse.mpr (h.nodup.filter _))).mpr hmem
  exact hperm.eq_of_pairwise hanti hA' horder

/-- One lane sends its item at once; of several, all but the first. -/
theorem Stands.leaves (hc : LawfulCmp cmp) (h : Stands cmp order s) {P : ℕ → Bool}
    (hf : Front cmp P a s) (hnext : Next cmp s d s') {first : ℕ} {others : List ℕ}
    (horder : order.filter P = first :: others) :
    (∀ x ∈ d.items, cmp x.2 a = 0) ∧
      ((others = [] ∧ ∃ b, d = .single (first, b)) ∨
        (others ≠ [] ∧ ∃ xs, d = .merged xs ∧ xs.map Prod.fst = others.reverse)) := by
  obtain ⟨A, B, hq, hA, hB, hlanes⟩ := h.front hc hf
  rw [horder, List.reverse_cons] at hlanes
  have hne : A ≠ [] := by
    rintro rfl
    simp at hlanes
  have hrun : equalRun cmp (s.fed cmp).queue = A.dropLast := by
    rw [hq]
    refine equalRun_append ?_ ?_ hne
    · intro x hx y hy
      exact hc.eq_trans (hA x hx) (hc.symm (hA y hy))
    · intro x hx y hy heq
      have hlt := hc.lt_of_le_of_lt (hA x hx).le (hB y hy)
      exact absurd hlt (by simp only [heq]; exact lt_irrefl 0)
  cases hnext with
  | @intro x q hx =>
      rw [hx] at hrun
      unfold delivery
      rw [hrun]
      have hdrop : A.dropLast.map Prod.fst = others.reverse := by
        rw [List.map_dropLast, hlanes, List.dropLast_concat]
      by_cases hnil : A.dropLast = []
      · rw [hnil, List.map_nil] at hdrop
        have hothers : others = [] := List.reverse_eq_nil_iff.mp hdrop.symm
        subst hothers
        obtain ⟨y, rfl⟩ : ∃ y, A = [y] := by
          rw [← List.dropLast_concat_getLast hne, hnil]
          exact ⟨_, rfl⟩
        rw [hx, List.singleton_append] at hq
        obtain ⟨rfl, -⟩ := List.cons.inj hq
        rw [if_pos hnil]
        refine ⟨by simpa using hA, Or.inl ⟨rfl, x.2, ?_⟩⟩
        have hfst : x.1 = first := by simpa using hlanes
        rw [← hfst]
      · rw [if_neg hnil]
        refine ⟨fun y hy => hA y (List.dropLast_subset A hy), Or.inr ⟨?_, _, rfl, hdrop⟩⟩
        rintro rfl
        exact hnil (List.map_eq_nil_iff.mp hdrop)

/-- What leaves is not in its lane any more, and nothing else is gone. -/
theorem Stands.mem_lane (hc : LawfulCmp cmp) (h : Stands cmp order s) (hnext : Next cmp s d s')
    (ha : ∀ x ∈ d.items, cmp x.2 a = 0) :
    b ∈ s'.lane i ↔ b ∈ s.lane i ∧ ¬ (cmp b a = 0 ∧ i ∈ d.items.map Prod.fst) := by
  constructor
  · intro hb
    refine ⟨(hnext.lane_sublist hc i).subset hb, ?_⟩
    rintro ⟨hba, hi⟩
    obtain ⟨x, hx, rfl⟩ := List.mem_map.mp hi
    have hlt := hnext.lt_own hc h.ascends hx hb
    exact absurd hlt (by simp only [hc.eq_trans (ha x hx) (hc.symm hba)]; exact lt_irrefl 0)
  · rintro ⟨hb, hnot⟩
    rcases hnext.mem_cases hc hb with hd | hs'
    · exact absurd ⟨ha _ hd, List.mem_map_of_mem hd⟩ hnot
    · exact hs'

/-- The first step, and the others. -/
theorem State.mergesAscending_next (h : Next cmp s d s') : s.MergesAscending cmp ↔
    (∀ xs, d = .merged xs → (xs.map Prod.fst).Pairwise (· < ·)) ∧ s'.MergesAscending cmp := by
  constructor
  · intro hs
    constructor
    · rintro xs rfl
      exact hs .start h
    · intro ds s₁ xs s₂ hrun hlast
      exact hs (hrun.cons h) hlast
  · rintro ⟨hd, hs'⟩ ds s₁ xs s₂ hrun hlast
    rcases hrun.cases_head h with ⟨rfl, rfl⟩ | ⟨ds', rfl, hrun'⟩
    · exact hd xs (h.unique hlast).1
    · exact hs' hrun' hlast

/-- The lanes `sent` have no such item any more. -/
theorem Stands.rest (hc : LawfulCmp cmp) (h : Stands cmp order s) {P : ℕ → Bool}
    (hf : Front cmp P a s) (hnext : Next cmp s d s') (ha : ∀ x ∈ d.items, cmp x.2 a = 0)
    (hsent : ∀ i, i ∈ d.items.map Prod.fst ↔ i ∈ sent) :
    Front cmp (fun i => P i && decide (i ∉ sent)) a s' := by
  constructor
  · intro i
    rw [Bool.and_eq_true, hf.senders, decide_eq_true_iff]
    constructor
    · rintro ⟨⟨b, hb, hba⟩, hi⟩
      exact ⟨b, (h.mem_lane hc hnext ha).mpr ⟨hb, fun hnot => hi ((hsent i).mp hnot.2)⟩, hba⟩
    · rintro ⟨b, hb, hba⟩
      obtain ⟨hbs, hnot⟩ := (h.mem_lane hc hnext ha).mp hb
      exact ⟨⟨b, hbs, hba⟩, fun hi => hnot ⟨hba, (hsent i).mpr hi⟩⟩
  · intro i b hb
    exact hf.least i b ((hnext.lane_sublist hc i).subset hb)

/-- A step at the lanes `first :: others`. -/
theorem Stands.leave (hc : LawfulCmp cmp) (h : Stands cmp order s) {P : ℕ → Bool}
    (hf : Front cmp P a s) {first : ℕ} {others : List ℕ} (horder : order.filter P = first :: others)
    (hsent : (others = [] ∧ sent = [first]) ∨ (others ≠ [] ∧ sent = others)) :
    ∃ s', Stands cmp (requeue sent order) s' ∧
      Front cmp (fun i => P i && decide (i ∉ sent)) a s' ∧
      (∀ i b, b ∈ s'.lane i → b ∈ s.lane i) ∧
      (∀ i b, b ∈ s.lane i → cmp b a ≠ 0 → b ∈ s'.lane i) ∧
      (s.MergesAscending cmp ↔ others.Pairwise (· > ·) ∧ s'.MergesAscending cmp) := by
  have hleft : ¬ s.Done := by
    intro hdone
    have hmem : first ∈ order.filter P := horder ▸ List.mem_cons_self
    obtain ⟨b, hb, -⟩ := (hf.senders first).mp (List.mem_filter.mp hmem).2
    rw [hdone.lane first] at hb
    cases hb
  obtain ⟨d, s', hnext⟩ := exists_next cmp hleft
  obtain ⟨ha, hcase⟩ := h.leaves hc hf hnext horder
  have hlanes : ∀ i, i ∈ d.items.map Prod.fst ↔ i ∈ sent := by
    intro i
    rcases hcase with ⟨rfl, b, rfl⟩ | ⟨hne, xs, rfl, hxs⟩
    · obtain ⟨-, rfl⟩ := hsent.resolve_right fun hother => hother.1 rfl
      rfl
    · obtain ⟨-, rfl⟩ := hsent.resolve_left fun hother => hne hother.1
      rw [Delivery.items_merged, hxs, List.mem_reverse]
  refine ⟨s', requeue_congr hlanes order ▸ h.next hc hnext, h.rest hc hf hnext ha hlanes,
    fun i b hb => (hnext.lane_sublist hc i).subset hb, ?_, ?_⟩
  · intro i b hb hba
    exact (h.mem_lane hc hnext ha).mpr ⟨hb, fun hnot => hba hnot.1⟩
  · rw [State.mergesAscending_next hnext]
    refine and_congr_left fun _ => ?_
    rcases hcase with ⟨rfl, b, rfl⟩ | ⟨-, xs, rfl, hxs⟩
    · simp
    · rw [← List.pairwise_reverse, ← hxs]
      constructor
      · exact fun hall => hall xs rfl
      · rintro hxs' _ ⟨⟩
        exact hxs'

/-- All items equal to `a` leave, in one step or two. -/
theorem Stands.pass (hc : LawfulCmp cmp) (h : Stands cmp order s) {P : ℕ → Bool}
    (hf : Front cmp P a s) : ∃ s', Stands cmp (resend P order) s' ∧
      (∀ i b, b ∈ s'.lane i ↔ b ∈ s.lane i ∧ cmp b a ≠ 0) ∧
      (s.MergesAscending cmp ↔ (order.filter P).tail.Pairwise (· > ·) ∧ s'.MergesAscending cmp) := by
  -- nothing equal to `a` is left once no lane has it
  have hgone : ∀ {order' P' s'}, Stands cmp order' s' → Front cmp P' a s' →
      order'.filter P' = [] → ∀ {i b}, b ∈ s'.lane i → cmp b a ≠ 0 := by
    intro order' P' s' h' hf' hnone i b hb hba
    have hi : i ∈ order'.filter P' :=
      List.mem_filter.mpr ⟨h'.mem_order hb, (hf'.senders i).mpr ⟨b, hb, hba⟩⟩
    rw [hnone] at hi
    cases hi
  cases horder : order.filter P with
  | nil =>
      rw [resend_nil horder]
      refine ⟨s, h, ?_, by simp⟩
      exact fun i b => ⟨fun hb => ⟨hb, hgone h hf horder hb⟩, fun hb => hb.1⟩
  | cons first others =>
      rw [resend_cons horder]
      by_cases hnil : others = []
      · subst hnil
        obtain ⟨s', h', hf', hold, hkept, hiff⟩ := h.leave hc hf horder (Or.inl ⟨rfl, rfl⟩)
        have hnone : (requeue [first] order).filter (fun i => P i && decide (i ∉ [first])) = [] := by
          rw [filter_requeue, horder]
          simp
        rw [requeue_nil]
        exact ⟨s', h', fun i b => ⟨fun hb => ⟨hold i b hb, hgone h' hf' hnone hb⟩,
          fun hb => hkept i b hb.1 hb.2⟩, hiff⟩
      · obtain ⟨s₁, h₁, hf₁, hold₁, hkept₁, hiff₁⟩ := h.leave hc hf horder (Or.inr ⟨hnil, rfl⟩)
        have hnodup : (first :: others).Nodup := horder ▸ h.nodup.filter _
        have hone : (requeue others order).filter (fun i => P i && decide (i ∉ others)) = [first] := by
          rw [filter_requeue, horder]
          simp [(List.nodup_cons.mp hnodup).1]
        obtain ⟨s₂, h₂, hf₂, hold₂, hkept₂, hiff₂⟩ := h₁.leave hc hf₁ hone (Or.inl ⟨rfl, rfl⟩)
        have hnone : (requeue [first] (requeue others order)).filter
            (fun i => (P i && decide (i ∉ others)) && decide (i ∉ [first])) = [] := by
          rw [filter_requeue, hone]
          simp
        refine ⟨s₂, h₂, ?_, ?_⟩
        · intro i b
          exact ⟨fun hb => ⟨hold₁ i b (hold₂ i b hb), hgone h₂ hf₂ hnone hb⟩,
            fun hb => hkept₂ i b (hkept₁ i b hb.1 hb.2) hb.2⟩
        · rw [hiff₁, hiff₂, and_iff_right List.Pairwise.nil]
          rfl

/-! ## All items -/

/-- The items of the lanes are those of `as`, which ascend. -/
structure Awaits (cmp : α → α → ℤ) (shares : α → ℕ → Bool) (as : List α) (s : State α) : Prop where
  ascends : as.Pairwise fun a b => cmp a b < 0
  covers : ∀ i, ∀ b ∈ s.lane i, ∃ a ∈ as, cmp b a = 0
  senders : ∀ a ∈ as, ∀ i, shares a i ↔ ∃ b ∈ s.lane i, cmp b a = 0

section Awaits

variable {shares : α → ℕ → Bool}

theorem Awaits.front (hc : LawfulCmp cmp) (h : Awaits cmp shares (a :: as) s) :
    Front cmp (shares a) a s := by
  refine ⟨h.senders a List.mem_cons_self, ?_⟩
  intro i b hb
  obtain ⟨c, hca, hbc⟩ := h.covers i b hb
  rcases List.mem_cons.mp hca with rfl | hca
  · exact (hc.symm hbc).le
  · have hlt := (List.pairwise_cons.mp h.ascends).1 c hca
    exact hc.trans _ _ _ hlt.le (hc.symm hbc).le

theorem Awaits.tail (hc : LawfulCmp cmp) (h : Awaits cmp shares (a :: as) s)
    (hs' : ∀ i b, b ∈ s'.lane i ↔ b ∈ s.lane i ∧ cmp b a ≠ 0) : Awaits cmp shares as s' := by
  obtain ⟨ha, has⟩ := List.pairwise_cons.mp h.ascends
  refine ⟨has, ?_, ?_⟩
  · intro i b hb
    obtain ⟨hbs, hba⟩ := (hs' i b).mp hb
    obtain ⟨c, hcas, hbc⟩ := h.covers i b hbs
    rcases List.mem_cons.mp hcas with rfl | hcas
    · exact absurd hbc hba
    · exact ⟨c, hcas, hbc⟩
  · intro c hcas i
    rw [h.senders c (List.mem_cons_of_mem _ hcas)]
    constructor
    · rintro ⟨b, hb, hbc⟩
      refine ⟨b, (hs' i b).mpr ⟨hb, fun hba => ?_⟩, hbc⟩
      have hac := hc.eq_trans (hc.symm hba) hbc
      exact absurd (ha c hcas) (by simp only [hac]; exact lt_irrefl 0)
    · rintro ⟨b, hb, hbc⟩
      exact ⟨b, ((hs' i b).mp hb).1, hbc⟩

theorem Stands.mergesAscending_iff (hc : LawfulCmp cmp) (h : Stands cmp order s)
    (ha : Awaits cmp shares as s) : s.MergesAscending cmp ↔ InTurn shares order as := by
  induction as generalizing s order with
  | nil =>
      refine iff_of_true ?_ trivial
      intro ds s₁ xs s₂ hrun hnext
      obtain ⟨x, hx⟩ := List.exists_mem_of_ne_nil _ (hnext.split hc).2.1
      have hmem : x.2 ∈ s.lane x.1 := by
        rw [hrun.lane hc x.1]
        exact List.mem_append_right _ (hnext.mem_lane hc hx)
      obtain ⟨a, ha, -⟩ := ha.covers x.1 x.2 hmem
      cases ha
  | cons a as ih =>
      obtain ⟨s', h', hlanes, hiff⟩ := h.pass hc (ha.front hc)
      rw [hiff, ih h' (ha.tail hc hlanes)]
      rfl

end Awaits

section Distinct

variable {lanes : List (List α)}

theorem mem_of_mem_addNew (h : b ∈ addNew cmp a as) : b = a ∨ b ∈ as := by
  induction as with
  | nil => exact Or.inl (List.mem_singleton.mp h)
  | cons c as ih =>
      unfold addNew at h
      split_ifs at h
      · exact List.mem_cons.mp h
      · exact Or.inr h
      · rcases List.mem_cons.mp h with rfl | h
        · exact Or.inr List.mem_cons_self
        · exact (ih h).imp_right (List.mem_cons_of_mem c)

theorem addNew_ascends (hc : LawfulCmp cmp) (h : as.Pairwise fun a b => cmp a b < 0) :
    (addNew cmp a as).Pairwise fun a b => cmp a b < 0 := by
  induction as with
  | nil => exact List.pairwise_singleton _ _
  | cons c as ih =>
      obtain ⟨hfirst, has⟩ := List.pairwise_cons.mp h
      unfold addNew
      split_ifs with hlt heq
      · refine List.pairwise_cons.mpr ⟨?_, h⟩
        intro b hb
        rcases List.mem_cons.mp hb with rfl | hb
        · exact hlt
        · exact hc.lt_of_lt_of_le hlt (hfirst b hb).le
      · exact h
      · refine List.pairwise_cons.mpr ⟨?_, ih has⟩
        intro b hb
        rcases mem_of_mem_addNew hb with rfl | hb
        · have hswap := hc.swap c b
          omega
        · exact hfirst b hb

theorem addNew_covers (hc : LawfulCmp cmp) (h : b = a ∨ ∃ c ∈ as, cmp b c = 0) :
    ∃ c ∈ addNew cmp a as, cmp b c = 0 := by
  induction as with
  | nil =>
      rcases h with rfl | ⟨c, hcas, -⟩
      · exact ⟨b, List.mem_singleton_self b, hc.refl b⟩
      · cases hcas
  | cons e as ih =>
      unfold addNew
      split_ifs with hlt heq
      · rcases h with rfl | ⟨c, hcas, hbc⟩
        · exact ⟨b, List.mem_cons_self, hc.refl b⟩
        · exact ⟨c, List.mem_cons_of_mem _ hcas, hbc⟩
      · rcases h with rfl | h
        · exact ⟨e, List.mem_cons_self, heq⟩
        · exact h
      · rcases h with rfl | ⟨c, hcas, hbc⟩
        · obtain ⟨c, hcas, hbc⟩ := ih (Or.inl rfl)
          exact ⟨c, List.mem_cons_of_mem _ hcas, hbc⟩
        · rcases List.mem_cons.mp hcas with rfl | hcas
          · exact ⟨c, List.mem_cons_self, hbc⟩
          · obtain ⟨c', hcas', hbc'⟩ := ih (Or.inr ⟨c, hcas, hbc⟩)
            exact ⟨c', List.mem_cons_of_mem _ hcas', hbc'⟩

theorem distinct_ascends (hc : LawfulCmp cmp) (lanes : List (List α)) :
    (distinct cmp lanes).Pairwise fun a b => cmp a b < 0 := by
  unfold distinct
  generalize lanes.flatten = as
  induction as with
  | nil => exact List.Pairwise.nil
  | cons a as ih => exact addNew_ascends hc ih

theorem distinct_covers (hc : LawfulCmp cmp) (h : b ∈ lanes.flatten) :
    ∃ a ∈ distinct cmp lanes, cmp b a = 0 := by
  unfold distinct
  generalize lanes.flatten = as at h ⊢
  induction as with
  | nil => cases h
  | cons a as ih =>
      refine addNew_covers hc ?_
      rcases List.mem_cons.mp h with rfl | h
      · exact Or.inl rfl
      · exact Or.inr (ih h)

theorem Awaits.start (hc : LawfulCmp cmp) (lanes : List (List α)) :
    Awaits cmp (shares cmp lanes) (distinct cmp lanes) ⟨lanes, []⟩ := by
  refine ⟨distinct_ascends hc lanes, ?_, ?_⟩
  · intro i b hb
    change b ∈ lanes.getD i [] at hb
    refine distinct_covers hc (List.mem_flatten.mpr ⟨_, ?_, hb⟩)
    rw [List.getD_eq_getElem?_getD] at hb ⊢
    cases hi : lanes[i]? with
    | none =>
        rw [hi] at hb
        cases hb
    | some lane => exact List.mem_of_getElem? hi
  · intro a _ i
    change (lanes.getD i []).any _ = true ↔ ∃ b ∈ lanes.getD i [], _
    simp only [List.any_eq_true, decide_eq_true_iff]

/-- From the start on, everything that leaves together stands in the order of the lanes
if and only if the lanes say so. -/
theorem mergesAscending_iff (hc : LawfulCmp cmp)
    (h : ∀ lane ∈ lanes, lane.Pairwise fun a b => cmp a b < 0) :
    (⟨lanes, []⟩ : State α).MergesAscending cmp ↔ SharedInTurn cmp lanes :=
  (Stands.start hc h).mergesAscending_iff hc (.start hc lanes)

end Distinct

end Lanes
