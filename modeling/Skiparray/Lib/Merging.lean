import Skiparray.Lib.Lanes

/-!
# What comes when

The order in which lanes are delivered. Ascending lanes come in ascending order,
and one by one if no two of them share an item; if two do, equal items are
delivered apart from each other. Descending lanes, of which the queue sends the
smallest item first, come in descending order in one degenerate case only.
-/

namespace Lanes

variable {α : Type} {cmp : α → α → ℤ} {s s' : State α} {x y : ℕ × α} {a b : α} {i j : ℕ}
  {d : Delivery (ℕ × α)} {ds : List (Delivery (ℕ × α))} {R : α → α → Prop}

/-! ## Items and lanes -/

/-- Every item of an earlier delivery is related to every item of a later one. -/
def InOrder (R : α → α → Prop) (ds : List (Delivery (ℕ × α))) : Prop :=
  ds.Pairwise fun d d' => ∀ x ∈ d.items, ∀ y ∈ d'.items, R x.2 y.2

theorem inOrder_cons : InOrder R (d :: ds) ↔
    (∀ x ∈ d.items, ∀ y ∈ flat ds, R x.2 y.2) ∧ InOrder R ds := by
  unfold InOrder flat
  rw [List.pairwise_cons]
  constructor
  · rintro ⟨hd, hds⟩
    refine ⟨?_, hds⟩
    intro x hx y hy
    obtain ⟨d', hd', hyd⟩ := List.mem_flatMap.mp hy
    exact hd d' hd' x hx y hyd
  · rintro ⟨hd, hds⟩
    refine ⟨?_, hds⟩
    intro d' hd' x hx y hy
    exact hd x hx y (List.mem_flatMap.mpr ⟨d', hd', hy⟩)

/-- Items in order make deliveries in order. -/
theorem inOrder_of_flat (h : (flat ds).Pairwise fun x y => R x.2 y.2) : InOrder R ds := by
  induction ds with
  | nil => exact List.Pairwise.nil
  | cons d ds ih =>
      rw [flat_cons, List.pairwise_append] at h
      exact inOrder_cons.mpr ⟨h.2.2, ih h.2.1⟩

/-- A list of items, lane by lane. -/
theorem perm_lanes {xs : List (ℕ × α)} {n : ℕ} (h : ∀ x ∈ xs, x.1 < n) :
    ((List.range n).flatMap fun i => xs.filter fun x => x.1 = i).Perm xs := by
  induction n generalizing xs with
  | zero =>
      have hnil : xs = [] := by
        rw [List.eq_nil_iff_forall_not_mem]
        intro x hx
        exact absurd (h x hx) (Nat.not_lt_zero _)
      rw [hnil]
      exact List.Perm.refl _
  | succ n ih =>
      have hlow := @ih (xs.filter fun x => x.1 ≠ n) (by
        intro x hx
        obtain ⟨hmem, hne⟩ := List.mem_filter.mp hx
        exact Nat.lt_of_le_of_ne (Nat.le_of_lt_succ (h x hmem)) (by simpa using hne))
      have hsame : ((List.range n).flatMap fun i => xs.filter fun x => x.1 = i) =
          (List.range n).flatMap fun i => (xs.filter fun x => x.1 ≠ n).filter fun x => x.1 = i := by
        apply List.flatMap_congr
        intro i hi
        rw [List.filter_filter]
        apply List.filter_congr
        intro x _
        have hin : i ≠ n := (List.mem_range.mp hi).ne
        by_cases hx : x.1 = i
        · simp [hx, hin]
        · simp [hx]
      rw [List.range_succ, List.flatMap_append, hsame, List.flatMap_singleton]
      refine (hlow.append_right _).trans ?_
      refine List.perm_append_comm.trans ?_
      simpa using List.filter_append_perm (fun x : ℕ × α => decide (x.1 = n)) xs

/-- What is delivered is what the lanes hold. -/
theorem Delivers.perm (hc : LawfulCmp cmp) (h : Delivers cmp s ds) (hv : s.Valid) :
    ((flat ds).map Prod.snd).Perm ((List.range s.rests.length).flatMap s.lane) := by
  have hperm := (perm_lanes (h.lanes hc hv)).map Prod.snd
  rw [List.map_flatMap] at hperm
  have hlanes : (List.range s.rests.length).flatMap s.lane =
      (List.range s.rests.length).flatMap fun i =>
        ((flat ds).filter fun x => x.1 = i).map Prod.snd := by
    apply List.flatMap_congr
    intro i _
    exact (h.lane hc i).symm
  rw [hlanes]
  exact hperm.symm

theorem Next.mem_lane (hc : LawfulCmp cmp) (h : Next cmp s d s') (hx : x ∈ d.items) :
    x.2 ∈ s.lane x.1 := by
  rw [h.lane hc x.1]
  apply List.mem_append_left
  exact List.mem_map_of_mem (List.mem_filter.mpr ⟨hx, by simp⟩)

/-- An item leaves or stays. -/
theorem Next.mem_cases (hc : LawfulCmp cmp) (h : Next cmp s d s') (ha : a ∈ s.lane i) :
    (i, a) ∈ d.items ∨ a ∈ s'.lane i := by
  rw [h.lane hc i] at ha
  rcases List.mem_append.mp ha with ha | ha
  · obtain ⟨y, hy, rfl⟩ := List.mem_map.mp ha
    obtain ⟨hmem, hlane⟩ := List.mem_filter.mp hy
    have hi : y.1 = i := by simpa using hlane
    exact Or.inl (hi ▸ hmem)
  · exact Or.inr ha

/-- The next item of a lane is in the queue once all lanes are fed. -/
theorem fed_head (ha : (s.lane i).head? = some a) : (i, a) ∈ (s.fed cmp).queue := by
  rw [← feedUpTo_lane cmp s.rests.length i s] at ha
  change ((s.fed cmp).lane i).head? = some a at ha
  have hi : i ∈ (s.fed cmp).queue.map Prod.fst := by
    apply fed_covers
    intro hnil
    rw [hnil] at ha
    cases ha
  obtain ⟨y, hy, rfl⟩ := List.mem_map.mp hi
  unfold State.lane at ha
  cases hq : (s.fed cmp).queue.filter fun z => z.1 = y.1 with
  | nil =>
      have hmem : y ∈ (s.fed cmp).queue.filter fun z => z.1 = y.1 :=
        List.mem_filter.mpr ⟨hy, by simp⟩
      rw [hq] at hmem
      cases hmem
  | cons z q =>
      have hz : z ∈ (s.fed cmp).queue.filter fun z => z.1 = y.1 := by
        rw [hq]
        exact List.mem_cons_self
      obtain ⟨hz, hlane⟩ := List.mem_filter.mp hz
      rw [hq] at ha
      obtain rfl : z.2 = a := Option.some.inj ha
      have hfst : z.1 = y.1 := by simpa using hlane
      rw [← hfst]
      exact hz

/-! ## Equal items -/

/-- Of several equal items the last one stays, at the front of the queue. -/
theorem Next.twin {xs : List (ℕ × α)} (hc : LawfulCmp cmp) (h : Next cmp s (.merged xs) s') :
    ∃ z q, s'.queue = z :: q ∧ ∀ x ∈ xs, cmp x.2 z.2 = 0 := by
  obtain ⟨hqueue, -, -⟩ := h.split hc
  generalize hd : Delivery.merged xs = d at h
  cases h with
  | @intro x q hq =>
      obtain ⟨z, rest, hsplit, hall⟩ := equalRun_split hc x q
      unfold delivery at hd
      by_cases hrun : equalRun cmp (x :: q) = []
      · rw [if_pos hrun] at hd
        cases hd
      · rw [if_neg hrun] at hd
        obtain rfl := Delivery.merged.inj hd
        rw [hq, Delivery.items_merged] at hqueue
        exact ⟨z, rest, (List.append_cancel_left (hsplit.symm.trans hqueue)).symm, hall⟩

theorem Next.equal (hc : LawfulCmp cmp) (h : Next cmp s d s') (hx : x ∈ d.items)
    (hy : y ∈ d.items) : cmp x.2 y.2 = 0 := by
  cases d with
  | single z =>
      rw [List.mem_singleton.mp hx, List.mem_singleton.mp hy]
      exact hc.refl z.2
  | merged xs =>
      obtain ⟨z, q, -, hall⟩ := h.twin hc
      exact hc.eq_trans (hall x hx) (hc.symm (hall y hy))

/-- What leaves is the smallest of what the lanes have next. -/
theorem Next.le_head (hc : LawfulCmp cmp) (hs : Sorted cmp s.queue) (h : Next cmp s d s')
    (hx : x ∈ d.items) (ha : (s.lane i).head? = some a) : cmp x.2 a ≤ 0 := by
  have hmem : (i, a) ∈ (s.fed cmp).queue := fed_head ha
  have hsorted := (h.sorted hc hs).1
  obtain ⟨hq, -, -⟩ := h.split hc
  unfold Sorted at hsorted
  rw [hq] at hmem hsorted
  rcases List.mem_append.mp hmem with hd | hq'
  · exact (h.equal hc hx hd).le
  · exact (List.pairwise_append.mp hsorted).2.2 x hx _ hq'

/-! ## Ascending lanes -/

/-- What leaves is not above anything that stays, if the lanes ascend. -/
theorem Next.le_rest (hc : LawfulCmp cmp) (hs : Sorted cmp s.queue)
    (hasc : ∀ i, (s.lane i).Pairwise fun a b => cmp a b ≤ 0) (h : Next cmp s d s')
    (hx : x ∈ d.items) (ha : a ∈ s'.lane i) : cmp x.2 a ≤ 0 := by
  have hmem : a ∈ s.lane i := by
    rw [h.lane hc i]
    exact List.mem_append_right _ ha
  obtain ⟨b, l, hl⟩ := List.exists_cons_of_ne_nil (List.ne_nil_of_mem hmem)
  have hxb : cmp x.2 b ≤ 0 := h.le_head hc hs hx (by rw [hl]; rfl)
  have hlane := hasc i
  rw [hl] at hmem hlane
  rcases List.mem_cons.mp hmem with rfl | hmem
  · exact hxb
  · exact hc.trans _ _ _ hxb ((List.pairwise_cons.mp hlane).1 a hmem)

theorem Next.lane_sublist (hc : LawfulCmp cmp) (h : Next cmp s d s') (i : ℕ) :
    (s'.lane i).Sublist (s.lane i) := by
  rw [h.lane hc i]
  exact List.sublist_append_right _ _

/-- No two lanes share an item. -/
def State.Disjoint (cmp : α → α → ℤ) (s : State α) : Prop :=
  ∀ {i j : ℕ} {a b : α}, i ≠ j → a ∈ s.lane i → b ∈ s.lane j → cmp a b ≠ 0

theorem Next.disjoint (hc : LawfulCmp cmp) (h : Next cmp s d s') (hd : s.Disjoint cmp) :
    s'.Disjoint cmp := by
  intro i j a b hij ha hb
  exact hd hij ((h.lane_sublist hc i).subset ha) ((h.lane_sublist hc j).subset hb)

/-- Then nothing is merged. -/
theorem Next.single (hc : LawfulCmp cmp) (h : Next cmp s d s') (hv : s.Valid)
    (hd : s.Disjoint cmp) : ∃ x, d = .single x := by
  cases d with
  | single x => exact ⟨x, rfl⟩
  | merged xs =>
      exfalso
      obtain ⟨hq, hne, -⟩ := h.split hc
      obtain ⟨z, q, hz, hall⟩ := h.twin hc
      obtain ⟨x, xs, rfl⟩ := List.exists_cons_of_ne_nil hne
      have hfed : (feedUpTo cmp s.rests.length s).Valid := feedUpTo_valid hv _
      have hnodup := hfed.nodup
      change ((s.fed cmp).queue.map Prod.fst).Nodup at hnodup
      rw [hq, hz, List.map_append, List.nodup_append] at hnodup
      have hxz : x.1 ≠ z.1 := hnodup.2.2 x.1 (by simp) z.1 (by simp)
      have hzlane : z.2 ∈ s'.lane z.1 := mem_lane_of_queue (by rw [hz]; exact List.mem_cons_self)
      exact hd hxz (h.mem_lane hc List.mem_cons_self) ((h.lane_sublist hc z.1).subset hzlane)
        (hall x List.mem_cons_self)

theorem Delivers.single (hc : LawfulCmp cmp) (h : Delivers cmp s ds) (hv : s.Valid)
    (hd : s.Disjoint cmp) : ∀ d ∈ ds, ∃ x, d = .single x := by
  induction h with
  | done _ => simp
  | @next s s' d ds h hrun ih =>
      intro d' hd'
      rcases List.mem_cons.mp hd' with rfl | hd'
      · exact h.single hc hv hd
      · exact ih (h.valid hc hv) (h.disjoint hc hd) d' hd'

/-- What leaves is below what stays in its lane. -/
theorem Next.lt_own (hc : LawfulCmp cmp) (hasc : ∀ i, (s.lane i).Pairwise fun a b => cmp a b < 0)
    (h : Next cmp s d s') (hx : x ∈ d.items) (ha : a ∈ s'.lane x.1) : cmp x.2 a < 0 := by
  have hlane := hasc x.1
  rw [h.lane hc x.1, List.pairwise_append] at hlane
  refine hlane.2.2 x.2 ?_ a ha
  exact List.mem_map_of_mem (List.mem_filter.mpr ⟨hx, by simp⟩)

/-- And everything comes in strictly ascending order. -/
theorem Delivers.inOrder_lt (hc : LawfulCmp cmp) (h : Delivers cmp s ds) (hs : Sorted cmp s.queue)
    (hasc : ∀ i, (s.lane i).Pairwise fun a b => cmp a b < 0) (hd : s.Disjoint cmp) :
    InOrder (fun a b => cmp a b < 0) ds := by
  induction h with
  | done _ => exact List.Pairwise.nil
  | @next s s' d ds h hrun ih =>
      refine inOrder_cons.mpr ⟨?_, ih (h.sorted hc hs).2
        (fun i => (hasc i).sublist (h.lane_sublist hc i)) (h.disjoint hc hd)⟩
      intro x hx y hy
      have hmem := (hrun.mem hc).mp hy
      by_cases hxy : x.1 = y.1
      · rw [← hxy] at hmem
        exact h.lt_own hc hasc hx hmem
      · have hle := h.le_rest hc hs (fun i => (hasc i).imp fun hlt => hlt.le) hx hmem
        have hne := hd hxy (h.mem_lane hc hx) ((h.lane_sublist hc y.1).subset hmem)
        exact lt_of_le_of_ne hle hne

/-- If two lanes share an item, it is delivered twice. -/
theorem Delivers.shared (hc : LawfulCmp cmp) (h : Delivers cmp s ds) (hij : i ≠ j)
    (ha : a ∈ s.lane i) (hb : b ∈ s.lane j) (hab : cmp a b = 0) :
    ¬ InOrder (fun a b => cmp a b ≠ 0) ds := by
  induction h with
  | done h =>
      rw [h.lane i] at ha
      cases ha
  | @next s s' d ds h hrun ih =>
      intro horder
      obtain ⟨hfirst, hrest⟩ := inOrder_cons.mp horder
      rcases h.mem_cases hc ha with hda | hsa
      · rcases h.mem_cases hc hb with hdb | hsb
        · -- both leave now, with a twin staying behind
          cases d with
          | single z =>
              have h₁ := List.mem_singleton.mp hda
              have h₂ := List.mem_singleton.mp hdb
              exact hij (congrArg Prod.fst (h₁.trans h₂.symm))
          | merged xs =>
              obtain ⟨z, q, hz, hall⟩ := h.twin hc
              have hzlane : z.2 ∈ s'.lane z.1 :=
                mem_lane_of_queue (by rw [hz]; exact List.mem_cons_self)
              exact hfirst _ hda z ((hrun.mem hc).mpr hzlane) (hall _ hda)
        · exact hfirst _ hda (j, b) ((hrun.mem hc).mpr hsb) hab
      · rcases h.mem_cases hc hb with hdb | hsb
        · exact hfirst _ hdb (i, a) ((hrun.mem hc).mpr hsa) (hc.symm hab)
        · exact ih hsa hsb hrest

/-! ## Descending lanes -/

/-- If only lane `i` sends, its items come as they are. -/
theorem Delivers.inOrder_lane (hc : LawfulCmp cmp) (h : Delivers cmp s ds)
    (hother : ∀ j, j ≠ i → s.lane j = []) (hlane : (s.lane i).Pairwise R) : InOrder R ds := by
  have hall : ∀ x ∈ flat ds, x.1 = i := by
    intro x hx
    by_contra hne
    have hmem := (h.mem hc).mp hx
    rw [hother x.1 hne] at hmem
    cases hmem
  apply inOrder_of_flat
  rw [← h.lane hc i, List.filter_eq_self.mpr (by simpa using hall), List.pairwise_map] at hlane
  exact hlane

/-- What lane `i` would send to an empty queue. -/
def State.head (s : State α) (i : ℕ) : Option (ℕ × α) := (s.rests.getD i []).head?.map (Prod.mk i)

/-- Items that are all equal queue up in reverse. -/
theorem feedUpTo_equal (hq : s.queue = [])
    (heq : ∀ i j x y, s.head i = some x → s.head j = some y → cmp x.2 y.2 = 0) (n : ℕ) :
    (feedUpTo cmp n s).queue = ((List.range n).filterMap s.head).reverse ∧
      ∀ i, n ≤ i → (feedUpTo cmp n s).rests[i]? = s.rests[i]? := by
  induction n with
  | zero => exact ⟨hq, fun _ _ => rfl⟩
  | succ n ih =>
      obtain ⟨hqueue, hrests⟩ := ih
      have hnot : n ∉ (feedUpTo cmp n s).queue.map Prod.fst := by
        rw [hqueue]
        intro hn
        obtain ⟨x, hx, rfl⟩ := List.mem_map.mp hn
        obtain ⟨i, hi, hix⟩ := List.mem_filterMap.mp (List.mem_reverse.mp hx)
        obtain ⟨a, -, rfl⟩ := Option.map_eq_some_iff.mp hix
        exact lt_irrefl _ (List.mem_range.mp hi)
      have hn := hrests n le_rfl
      rw [List.range_succ, List.filterMap_append, List.reverse_append, feedUpTo]
      unfold feed
      rw [if_neg hnot, hn]
      have hhead : s.head n = (s.rests[n]?.getD []).head?.map (Prod.mk n) := by
        rw [State.head, List.getD_eq_getElem?_getD]
      cases hr : s.rests[n]? with
      | none =>
          rw [hr] at hhead
          refine ⟨by simpa [hhead] using hqueue, ?_⟩
          intro i hi
          exact hrests i (Nat.le_of_succ_le hi)
      | some r =>
          rw [hr] at hhead
          cases r with
          | nil =>
              refine ⟨by simpa [hhead] using hqueue, ?_⟩
              intro i hi
              exact hrests i (Nat.le_of_succ_le hi)
          | cons a rest =>
              have hhead' : s.head n = some (n, a) := hhead
              constructor
              · show insert cmp (n, a) (feedUpTo cmp n s).queue = _
                rw [hqueue]
                simp only [List.filterMap_cons, hhead', List.filterMap_nil, List.reverse_cons,
                  List.reverse_nil, List.nil_append, List.singleton_append]
                cases hrev : ((List.range n).filterMap s.head).reverse with
                | nil => rfl
                | cons y q =>
                    have hy : y ∈ (List.range n).filterMap s.head := by
                      rw [← List.mem_reverse, hrev]
                      exact List.mem_cons_self
                    obtain ⟨i, -, hiy⟩ := List.mem_filterMap.mp hy
                    rw [insert, if_pos (heq n i _ y hhead' hiy).le]
              · intro i hi
                show ((feedUpTo cmp n s).rests.set n rest)[i]? = _
                rw [List.getElem?_set_ne (Nat.ne_of_lt hi)]
                exact hrests i (Nat.le_of_succ_le hi)

/-- Of equal items at the front all but the last leave. -/
theorem equalRun_append {A B : List (ℕ × α)} (hA : ∀ x ∈ A, ∀ y ∈ A, cmp x.2 y.2 = 0)
    (hB : ∀ x ∈ A, ∀ y ∈ B, cmp x.2 y.2 ≠ 0) (hne : A ≠ []) : equalRun cmp (A ++ B) = A.dropLast := by
  induction A with
  | nil => exact absurd rfl hne
  | cons x A ih =>
      cases A with
      | nil =>
          cases B with
          | nil => rfl
          | cons y B =>
              have hxy := hB x List.mem_cons_self y List.mem_cons_self
              rw [List.singleton_append, equalRun_cons_cons, if_neg hxy]
              rfl
      | cons y A =>
          have hxy := hA x List.mem_cons_self y (List.mem_cons_of_mem _ List.mem_cons_self)
          have htail : equalRun cmp (y :: A ++ B) = (y :: A).dropLast := by
            refine ih ?_ ?_ (List.cons_ne_nil y A)
            · intro z hz w hw
              exact hA z (List.mem_cons_of_mem _ hz) w (List.mem_cons_of_mem _ hw)
            · intro z hz w hw
              exact hB z (List.mem_cons_of_mem _ hz) w hw
          rw [List.cons_append, List.cons_append, equalRun_cons_cons, if_pos hxy,
            List.dropLast_cons_cons, ← htail, List.cons_append]

theorem State.head_eq (hq : s.queue = []) (i : ℕ) : s.head i = (s.lane i).head?.map (Prod.mk i) := by
  rw [State.head, State.lane, hq]
  rfl

/-- Lanes that start with equal items: those of all but the first lane leave. -/
theorem Next.equal_heads (hc : LawfulCmp cmp) (hq : s.queue = [])
    (heq : ∀ i j x y, s.head i = some x → s.head j = some y → cmp x.2 y.2 = 0)
    (hfirst : ∀ k < i, s.lane k = []) (ha : (s.lane i).head? = some a) (hij : i ≠ j)
    (hb : (s.lane j).head? = some b) (h : Next cmp s d s') :
    ∃ Q, d = .merged Q ∧ s'.queue = [(i, a)] ∧ (Q ++ [(i, a)]).Perm
      ((List.range s.rests.length).filterMap s.head) := by
  have hqueue := (feedUpTo_equal hq heq s.rests.length).1
  have hhead : ∀ {k : ℕ} {e : α}, (s.lane k).head? = some e → s.head k = some (k, e) := by
    intro k e he
    rw [State.head_eq hq, he]
    rfl
  have hlt : ∀ {k : ℕ} {x : ℕ × α}, s.head k = some x → k < s.rests.length := by
    intro k x hx
    by_contra hge
    rw [State.head, List.getD_eq_default _ _ (Nat.le_of_not_lt hge)] at hx
    cases hx
  obtain ⟨A, B, hsplit⟩ := List.append_of_mem (List.mem_range.mpr (hlt (hhead ha)))
  have hnone : A.filterMap s.head = [] := by
    rw [List.filterMap_eq_nil_iff]
    intro k hk
    have hsorted := List.pairwise_lt_range (n := s.rests.length)
    rw [hsplit, List.pairwise_append] at hsorted
    rw [State.head_eq hq, hfirst k (hsorted.2.2 k hk i List.mem_cons_self)]
    rfl
  have hlist : (List.range s.rests.length).filterMap s.head = (i, a) :: B.filterMap s.head := by
    rw [hsplit, List.filterMap_append, hnone, List.nil_append, List.filterMap_cons_some (hhead ha)]
  rw [hlist, List.reverse_cons] at hqueue
  have hall : ∀ x ∈ (B.filterMap s.head).reverse ++ [(i, a)],
      ∀ y ∈ (B.filterMap s.head).reverse ++ [(i, a)], cmp x.2 y.2 = 0 := by
    have hmem : ∀ x ∈ (B.filterMap s.head).reverse ++ [(i, a)], ∃ k, s.head k = some x := by
      intro x hx
      rw [← List.reverse_cons, ← hlist, List.mem_reverse] at hx
      obtain ⟨k, -, hk⟩ := List.mem_filterMap.mp hx
      exact ⟨k, hk⟩
    intro x hx y hy
    obtain ⟨k, hk⟩ := hmem x hx
    obtain ⟨l, hl⟩ := hmem y hy
    exact heq k l x y hk hl
  have hne : (B.filterMap s.head).reverse ≠ [] := by
    have hj : (j, b) ∈ (List.range s.rests.length).filterMap s.head :=
      List.mem_filterMap.mpr ⟨j, List.mem_range.mpr (hlt (hhead hb)), hhead hb⟩
    rw [hlist, List.mem_cons] at hj
    rcases hj with hj | hj
    · exact absurd (congrArg Prod.fst hj).symm hij
    · exact List.ne_nil_of_mem (List.mem_reverse.mpr hj)
  have hd : d = .merged (B.filterMap s.head).reverse := by
    cases h with
    | @intro x q hx =>
        have hrun : equalRun cmp (x :: q) = (B.filterMap s.head).reverse := by
          rw [← hx]
          change equalRun cmp (feedUpTo cmp s.rests.length s).queue = _
          have hall' := equalRun_append hall (B := []) (by simp) (by simp)
          rw [List.append_nil, List.dropLast_concat] at hall'
          rw [hqueue, hall']
        rw [delivery, hrun, if_neg hne]
  refine ⟨_, hd, ?_, ?_⟩
  · obtain ⟨hsplit', -, -⟩ := h.split hc
    change (feedUpTo cmp s.rests.length s).queue = _ at hsplit'
    rw [hqueue, hd, Delivery.items_merged] at hsplit'
    exact (List.append_cancel_left hsplit').symm
  · rw [← List.reverse_cons, hlist]
    exact List.reverse_perm _

theorem filter_fst_of_mem {q : List (ℕ × α)} (hn : (q.map Prod.fst).Nodup) (hx : x ∈ q) :
    (q.filter fun y => y.1 = x.1) = [x] := by
  obtain ⟨A, B, rfl⟩ := List.append_of_mem hx
  rw [List.map_append, List.map_cons, List.nodup_append, List.nodup_cons] at hn
  have hA : (A.filter fun y => y.1 = x.1) = [] := by
    rw [List.filter_eq_nil_iff]
    intro y hy
    simpa using hn.2.2 y.1 (List.mem_map_of_mem hy) x.1 List.mem_cons_self
  have hB : (B.filter fun y => y.1 = x.1) = [] := by
    rw [List.filter_eq_nil_iff]
    intro y hy
    simp only [decide_eq_true_eq]
    intro hyx
    exact hn.2.1.1 (hyx ▸ List.mem_map_of_mem hy)
  rw [List.filter_append, hA, List.filter_cons_of_pos (by simp), hB, List.nil_append]

/-- The first lane still has all its items after that, each other one all but its
first, which has left. -/
theorem Next.after_equal (hc : LawfulCmp cmp) (hq : s.queue = [])
    (heq : ∀ i j x y, s.head i = some x → s.head j = some y → cmp x.2 y.2 = 0)
    (hfirst : ∀ k < i, s.lane k = []) (ha : (s.lane i).head? = some a) (hij : i ≠ j)
    (hb : (s.lane j).head? = some b) (h : Next cmp s d s') :
    s'.lane i = s.lane i ∧ s'.queue = [(i, a)] ∧
      ∀ k, k ≠ i → ∀ e l, s.lane k = e :: l → (k, e) ∈ d.items ∧ s'.lane k = l := by
  obtain ⟨Q, rfl, hqueue, hperm⟩ := h.equal_heads hc hq heq hfirst ha hij hb
  have hv : s.Valid := ⟨by rw [hq]; exact List.nodup_nil, by rw [hq]; simp⟩
  have hfed : (feedUpTo cmp s.rests.length s).Valid := feedUpTo_valid hv _
  have hnodup := hfed.nodup
  obtain ⟨hsplit, -, -⟩ := h.split hc
  change ((s.fed cmp).queue.map Prod.fst).Nodup at hnodup
  rw [hsplit, hqueue, Delivery.items_merged, List.map_append, List.nodup_append] at hnodup
  refine ⟨?_, hqueue, ?_⟩
  · have hlane := h.lane hc i
    rw [Delivery.items_merged, List.filter_eq_nil_iff.mpr, List.map_nil, List.nil_append] at hlane
    · exact hlane.symm
    · intro x hx
      simpa using hnodup.2.2 x.1 (List.mem_map_of_mem hx) i (by simp)
  · intro k hk e l hl
    have hhead : s.head k = some (k, e) := by
      rw [State.head_eq hq, hl]
      rfl
    have hlt : k < s.rests.length := by
      by_contra hge
      rw [State.head, List.getD_eq_default _ _ (Nat.le_of_not_lt hge)] at hhead
      cases hhead
    have hmem : (k, e) ∈ Q := by
      have hlist : (k, e) ∈ Q ++ [(i, a)] :=
        hperm.mem_iff.mpr (List.mem_filterMap.mpr ⟨k, List.mem_range.mpr hlt, hhead⟩)
      rcases List.mem_append.mp hlist with hQ | hlast
      · exact hQ
      · exact absurd (congrArg Prod.fst (List.mem_singleton.mp hlast)) hk
    refine ⟨hmem, ?_⟩
    have hlane := h.lane hc k
    have hone := filter_fst_of_mem hnodup.1 hmem
    rw [hl, Delivery.items_merged, hone] at hlane
    exact (List.cons.inj hlane).2.symm

/-- Of several lanes that send, all but the first send one item, equal to the first
item of the first. -/
def State.Degenerate (cmp : α → α → ℤ) (s : State α) : Prop :=
  ∀ {i j : ℕ}, i < j → (∀ k < i, s.lane k = []) → s.lane i ≠ [] → s.lane j ≠ [] →
    ∃ a b, (s.lane i).head? = some a ∧ s.lane j = [b] ∧ cmp a b = 0

/-- There is a first lane that sends. -/
theorem State.exists_first (h : s.lane i ≠ []) : ∃ j ≤ i, s.lane j ≠ [] ∧ ∀ k < j, s.lane k = [] := by
  classical
  have hex : ∃ j, s.lane j ≠ [] := ⟨i, h⟩
  refine ⟨Nat.find hex, Nat.find_min' hex h, Nat.find_spec hex, ?_⟩
  intro k hk
  by_contra hne
  exact Nat.find_min hex hk hne

theorem Delivers.degenerate (hc : LawfulCmp cmp) (hq : s.queue = [])
    (hdesc : ∀ i, (s.lane i).Pairwise fun a b => cmp b a < 0) (h : Delivers cmp s ds)
    (horder : InOrder (fun a b => cmp b a ≤ 0) ds) : s.Degenerate cmp := by
  intro i j hij hfirst hi hj
  obtain ⟨a, la, hla⟩ := List.exists_cons_of_ne_nil hi
  obtain ⟨b, lb, hlb⟩ := List.exists_cons_of_ne_nil hj
  have ha : (s.lane i).head? = some a := by rw [hla]; rfl
  have hb : (s.lane j).head? = some b := by rw [hlb]; rfl
  have hsorted : Sorted cmp s.queue := by
    rw [hq]
    exact List.Pairwise.nil
  cases h with
  | done hdone => exact absurd (hdone.lane i) hi
  | @next _ s₁ d ds h hrun =>
      obtain ⟨hd, hds⟩ := inOrder_cons.mp horder
      obtain ⟨x, hx⟩ := List.exists_mem_of_ne_nil _ (h.split hc).2.1
      -- nothing that comes later may be above the first items
      have hheads : ∀ {k : ℕ} {e : α}, (s.lane k).head? = some e → cmp x.2 e = 0 := by
        intro k e he
        have hle := h.le_head hc hsorted hx he
        have hmem : e ∈ s.lane k := List.mem_of_head? he
        rcases h.mem_cases hc hmem with hnow | hlater
        · exact h.equal hc hx hnow
        · have hge := hd x hx (k, e) ((hrun.mem hc).mpr hlater)
          have hswap := hc.swap x.2 e
          change cmp e x.2 ≤ 0 at hge
          omega
      have heq : ∀ i j x y, s.head i = some x → s.head j = some y → cmp x.2 y.2 = 0 := by
        intro k l y z hy hz
        rw [State.head_eq hq] at hy hz
        obtain ⟨e, he, rfl⟩ := Option.map_eq_some_iff.mp hy
        obtain ⟨e', he', rfl⟩ := Option.map_eq_some_iff.mp hz
        exact hc.eq_trans (hc.symm (hheads he)) (hheads he')
      have hab : cmp a b = 0 := hc.eq_trans (hc.symm (hheads ha)) (hheads hb)
      obtain ⟨hlane, -, hrest⟩ := h.after_equal hc hq heq hfirst ha hij.ne hb
      obtain ⟨-, hlane'⟩ := hrest j hij.ne' b lb hlb
      refine ⟨a, b, ha, ?_, hab⟩
      rw [hlb]
      congr 1
      by_contra hne
      obtain ⟨b', lb', rfl⟩ := List.exists_cons_of_ne_nil hne
      have hb'a : cmp b' a < 0 := by
        have hlt := hdesc j
        rw [hlb, List.pairwise_cons] at hlt
        exact hc.lt_of_lt_of_le (hlt.1 b' List.mem_cons_self) (hc.symm hab).le
      have hamem : a ∈ s₁.lane i := by
        rw [hlane]
        exact List.mem_of_head? ha
      -- a second item of lane `j` would come before the first of lane `i`
      cases hrun with
      | done hdone =>
          rw [hdone.lane i] at hamem
          cases hamem
      | @next _ s₂ d₂ ds₂ h₂ hrun₂ =>
          obtain ⟨y, hy⟩ := List.exists_mem_of_ne_nil _ (h₂.split hc).2.1
          have hyb : cmp y.2 b' ≤ 0 :=
            h₂.le_head hc (h.sorted hc hsorted).2 hy (i := j) (by rw [hlane']; rfl)
          have hya := hc.lt_of_le_of_lt hyb hb'a
          rcases h₂.mem_cases hc hamem with hnow | hlater
          · have hzero := h₂.equal hc hy hnow
            exact absurd hya (by simp only [hzero]; exact lt_irrefl 0)
          · have hge := (inOrder_cons.mp hds).1 y hy (i, a) ((hrun₂.mem hc).mpr hlater)
            have hswap := hc.swap y.2 a
            change cmp a y.2 ≤ 0 at hge
            omega

theorem Delivers.of_degenerate (hc : LawfulCmp cmp) (hq : s.queue = [])
    (hdesc : ∀ i, (s.lane i).Pairwise fun a b => cmp b a < 0) (h : Delivers cmp s ds)
    (hdeg : s.Degenerate cmp) : InOrder (fun a b => cmp b a ≤ 0) ds := by
  have hweak : ∀ i, (s.lane i).Pairwise fun a b => cmp b a ≤ 0 :=
    fun i => (hdesc i).imp fun hlt => hlt.le
  by_cases hsend : ∃ i, s.lane i ≠ []
  · obtain ⟨i₀, hi₀⟩ := hsend
    obtain ⟨i, -, hi, hfirst⟩ := State.exists_first hi₀
    by_cases hmore : ∃ j, j ≠ i ∧ s.lane j ≠ []
    · obtain ⟨j, hji, hj⟩ := hmore
      obtain ⟨a, la, hla⟩ := List.exists_cons_of_ne_nil hi
      have ha : (s.lane i).head? = some a := by rw [hla]; rfl
      -- every other lane has one item, equal to `a`
      have hothers : ∀ k, k ≠ i → s.lane k = [] ∨ ∃ b, s.lane k = [b] ∧ cmp a b = 0 := by
        intro k hk
        by_cases hnil : s.lane k = []
        · exact Or.inl hnil
        · have hik : i < k := by
            rcases Nat.lt_or_gt_of_ne hk with hlt | hgt
            · exact absurd (hfirst k hlt) hnil
            · exact hgt
          obtain ⟨a', b, ha', hb, hab⟩ := hdeg hik hfirst hi hnil
          rw [ha] at ha'
          cases ha'
          exact Or.inr ⟨b, hb, hab⟩
      have hheads : ∀ k x, s.head k = some x → cmp a x.2 = 0 := by
        intro k x hx
        rw [State.head_eq hq] at hx
        obtain ⟨e, he, rfl⟩ := Option.map_eq_some_iff.mp hx
        by_cases hk : k = i
        · rw [hk, ha] at he
          obtain rfl : a = e := Option.some.inj he
          exact hc.refl a
        · rcases hothers k hk with hnil | ⟨b, hb, hab⟩
          · rw [hnil] at he
            cases he
          · rw [hb] at he
            obtain rfl : b = e := Option.some.inj he
            exact hab
      have heq : ∀ k l x y, s.head k = some x → s.head l = some y → cmp x.2 y.2 = 0 := by
        intro k l x y hx hy
        exact hc.eq_trans (hc.symm (hheads k x hx)) (hheads l y hy)
      obtain ⟨b, hb, hab⟩ := (hothers j hji).resolve_left hj
      cases h with
      | done hdone => exact absurd (hdone.lane i) hi
      | @next _ s₁ d ds h hrun =>
          obtain ⟨hlane, -, hrest⟩ :=
            h.after_equal hc hq heq hfirst ha hji.symm (show (s.lane j).head? = some b by rw [hb]; rfl)
          have hempty : ∀ k, k ≠ i → s₁.lane k = [] := by
            intro k hk
            rcases hothers k hk with hnil | ⟨e, he, -⟩
            · have hsub := h.lane_sublist hc k
              rw [hnil] at hsub
              exact List.sublist_nil.mp hsub
            · exact (hrest k hk e [] he).2
          refine inOrder_cons.mpr ⟨?_, hrun.inOrder_lane hc hempty (hlane ▸ hweak i)⟩
          intro x hx y hy
          have hylane := (hrun.mem hc).mp hy
          have hyi : y.1 = i := by
            by_contra hne
            rw [hempty _ hne] at hylane
            cases hylane
          rw [hyi, hlane, hla] at hylane
          have hya : cmp y.2 a ≤ 0 := by
            rcases List.mem_cons.mp hylane with hya | hya
            · rw [hya]
              exact (hc.refl a).le
            · have hw := hweak i
              rw [hla, List.pairwise_cons] at hw
              exact hw.1 _ hya
          have hxb : cmp x.2 b = 0 := h.equal hc hx (hrest j hji b [] hb).1
          have hax : cmp a x.2 = 0 := hc.eq_trans hab (hc.symm hxb)
          exact hc.trans _ _ _ hya hax.le
    · have hother : ∀ j, j ≠ i → s.lane j = [] := by
        intro j hj
        by_contra hne
        exact hmore ⟨j, hj, hne⟩
      exact h.inOrder_lane hc hother (hweak i)
  · apply h.inOrder_lane hc (i := 0) _ (hweak 0)
    intro j _
    by_contra hne
    exact hsend ⟨j, hne⟩

end Lanes
