import Skiparray.Layout.Unlink
import Skiparray.Layout.Reads

/-!
# Balancing

What `shift_or_merge` and the inline code of `skiparray_pop_first` make of an
underfull block: it is merged with a neighbour, which is then unlinked, or it
takes pairs from the next one. Either way the pairs stay, in order, and the
occupancy rules hold again.
-/

namespace Skiparray

open SkipLinks Fallible Window

variable {K V U : Type} [Inhabited V] {cmp : K → K → ℤ} {s : Settings} {sa : SkipArray K V}
  {A C : List (Block K V)} {b x : Block K V} {n m : Node K V}

/-! ## Moving pairs between two nodes -/

theorem slideToFront_spec (h : Holds s n b) :
    ∃ n', slideToFront n = .ok n' ∧ Holds s n' { b with offset := 0 } ∧ n.SameLinks n' := by
  have hbound := h.bound
  by_cases hpos : 0 < n.offset
  · obtain ⟨n', hshift, hh, hsame, -⟩ := h.slide (show 0 + b.pairs.length ≤ s.nodeSize by omega)
    exact ⟨_, by rw [slideToFront, if_pos hpos, hshift]; rfl, hh, hsame⟩
  · have hzero : b.offset = 0 := by
      rw [← h.offset]
      omega
    refine ⟨n, by rw [slideToFront, if_neg hpos]; rfl, ?_, .refl n⟩
    rw [← hzero]
    exact h

/-- A node at the front of its buffers takes the first `k` pairs of another. -/
theorem absorb_spec (hs : s.Ok) (h : Holds s n b) (hoff : b.offset = 0) (hx : Holds s m x) {k : ℕ}
    (hk : k ≤ x.pairs.length) (hfit : b.pairs.length + k ≤ s.nodeSize) :
    ∃ n', movePairs n m n.count m.offset k = .ok n' ∧
      Holds s { n' with count := u16 ((n'.count : ℤ) + k) }
        { b with pairs := b.pairs ++ x.pairs.take k } ∧
      n.SameLinks { n' with count := u16 ((n'.count : ℤ) + k) } := by
  have hlt := hs.nodeSize_lt
  obtain ⟨n', hmove, hh, hsame, -, hcnt⟩ := h.append hx (show 0 + k ≤ x.pairs.length by omega)
    (show b.offset + b.pairs.length + k ≤ s.nodeSize by omega)
  have hu : u16 ((n'.count : ℤ) + k) = b.pairs.length + k := by
    rw [hcnt, h.count]
    exact_mod_cast u16_of_lt (n := b.pairs.length + k) (by omega)
  rw [hoff, Nat.zero_add, Nat.add_zero, ← h.count, ← hx.offset] at hmove
  rw [List.drop_zero] at hh
  refine ⟨n', hmove, ?_, ?_⟩
  · rw [hu]
    exact hh
  · rw [hu]
    exact hsame

/-- The state in which a block has the pairs of the next one, too. -/
theorem SkipArray.Sound.merged (h : sa.Sound cmp (A ++ b :: x :: C))
    (hn : sa.node? b.ptr = some n) (hs : n.SameLinks m)
    (hh : Holds sa.toSettings m { b with offset := 0, pairs := b.pairs ++ x.pairs })
    (hne : b.pairs ++ x.pairs ≠ []) (hAC : ∀ y ∈ A ++ C, y.pairs ≠ []) :
    Unlinking cmp (sa.setNode b.ptr m) A { b with offset := 0, pairs := b.pairs ++ x.pairs } x C ∧
      (sa.setNode b.ptr m).Linked
        (A ++ { b with offset := 0, pairs := b.pairs ++ x.pairs } :: x :: C) ∧
      (sa.setNode b.ptr m).Tallest
        (A ++ { b with offset := 0, pairs := b.pairs ++ x.pairs } :: x :: C) := by
  have hl : (sa.setNode b.ptr m).Linked
      (A ++ { b with offset := 0, pairs := b.pairs ++ x.pairs } :: x :: C) :=
    (h.linked.setNode hn hs).of_towers (by simp)
  have htwo := h.settings.two_le
  have hoff := (forall_mem_middle.mp h.offset_lt).2
  refine ⟨⟨h.settings, h.linked.nodesLen, ?_, hl.alive, hl.top, ?_, ?_, ?_, hl.spells.nodup⟩, hl,
    h.tallest.replace rfl rfl⟩
  · refine forall_mem_middle.mpr ⟨SkipArray.Stores.setNode_self
      (b := { b with offset := 0, pairs := b.pairs ++ x.pairs }) hn hh, fun y hy => ?_⟩
    have hy' : y ∈ A ++ x :: C := by
      rcases List.mem_append.mp hy with hy | hy <;> simp [hy]
    exact ((forall_mem_middle.mp h.stores).2 y hy').setNode_ne (h.linked.ptr_ne hy')
  · exact forall_mem_middle.mpr ⟨hne, hAC⟩
  · refine forall_mem_middle.mpr ⟨show 0 < sa.nodeSize by omega, fun y hy => hoff y ?_⟩
    rcases List.mem_append.mp hy with hy | hy <;> simp [hy]
  · simpa using h.ascending

omit [Inhabited V] in
/-- The memory of the next block goes out of use once it is unlinked. -/
theorem Removes.trades_merged (cb : Callbacks K U) {sa' : SkipArray K V} {c c' : Ctx K V U}
    (hrem : Removes (sa.setNode b.ptr m) c x.ptr sa' c') (h : sa.Linked (A ++ b :: x :: C))
    (hn : sa.node? b.ptr = some n) (hs : n.SameLinks m) {off : ℕ} {ps : List (K × V)} :
    Trades cb c (sa.blocks (A ++ b :: x :: C)) c'
      (sa'.blocks (A ++ { b with offset := off, pairs := ps } :: C)) := by
  rw [← SkipArray.blocks_setNode hn hs]
  apply hrem.trades cb _ h.ptr_nodup
  rw [List.append_cons, List.append_cons A { b with offset := off, pairs := ps }, List.map_append,
    List.map_append, List.map_append, List.map_append]
  exact List.perm_middle

omit [Inhabited V] in
theorem bindings_steal (k : ℕ) :
    bindings (A ++ { b with offset := 0, pairs := b.pairs ++ x.pairs.take k } ::
        { x with offset := x.offset + k, pairs := x.pairs.drop k } :: C) =
      bindings (A ++ b :: x :: C) := by
  simp only [bindings_append, bindings_cons, List.append_assoc]
  rw [← List.append_assoc (x.pairs.take k), List.take_append_drop]

/-- The state after a block took the first `k` pairs of the next one. -/
theorem SkipArray.Sound.steal (h : sa.Sound cmp (A ++ b :: x :: C)) {nb nx mb mx : Node K V}
    {k : ℕ} (hnb : sa.node? b.ptr = some nb) (hnx : sa.node? x.ptr = some nx)
    (hsb : nb.SameLinks mb) (hsx : nx.SameLinks mx)
    (hb : Holds sa.toSettings mb { b with offset := 0, pairs := b.pairs ++ x.pairs.take k })
    (hx : Holds sa.toSettings mx { x with offset := x.offset + k, pairs := x.pairs.drop k })
    (hk : x.offset + k < sa.nodeSize) :
    ((sa.setNode x.ptr mx).setNode b.ptr mb).Sound cmp
      (A ++ { b with offset := 0, pairs := b.pairs ++ x.pairs.take k } ::
        { x with offset := x.offset + k, pairs := x.pairs.drop k } :: C) := by
  have hne : b.ptr ≠ x.ptr := (h.linked.ptr_ne (x := x) (by simp)).symm
  rw [List.append_cons] at h
  have hasc := h.ascending
  have h₁ := h.update hnx hsx hx hk (by
    refine hasc.sublist ?_
    simp [List.drop_sublist])
  rw [← List.append_cons] at h₁
  refine h₁.update (by rw [SkipArray.node?_setNode_ne hne]; exact hnb) hsb hb
    (show 0 < sa.nodeSize by omega) ?_
  rw [bindings_steal, List.append_cons]
  exact hasc

/-! ## After a removal -/

/-- Block `b` may be less than half full, or empty; the other blocks obey the
occupancy rules. -/
structure ShapeBut (nodeSize : ℕ) (A : List (Block K V)) (C : List (Block K V)) : Prop where
  before : ∀ x ∈ A, nodeSize / 2 ≤ x.pairs.length
  after : ∀ x ∈ C.dropLast, nodeSize / 2 ≤ x.pairs.length
  nonempty : ∀ x ∈ A ++ C, x.pairs ≠ []

omit [Inhabited V] in
theorem Shape.but {nodeSize : ℕ} (h : Shape nodeSize (A ++ b :: C)) : ShapeBut nodeSize A C := by
  rw [shape_middle_iff] at h
  refine ⟨h.1.1, h.1.2.2, fun x hx => ?_⟩
  exact (h.2 (List.ne_nil_of_mem hx)).2 x hx

omit [Inhabited V] in
/-- The occupancy rules hold again once `b` is at least half full, or last. -/
theorem ShapeBut.shape {nodeSize : ℕ} (h : ShapeBut nodeSize A C)
    (hhalf : C ≠ [] → nodeSize / 2 ≤ b.pairs.length) (hne : A ++ C ≠ [] → b.pairs ≠ []) :
    Shape nodeSize (A ++ b :: C) :=
  shape_middle_iff.mpr ⟨⟨h.before, hhalf, h.after⟩, fun hAC => ⟨hne hAC, h.nonempty⟩⟩

omit [Inhabited V] in
/-- Leaving out the block behind `b`. -/
theorem ShapeBut.merge {nodeSize : ℕ} (h : ShapeBut nodeSize A (x :: C)) : ShapeBut nodeSize A C := by
  refine ⟨h.before, fun y hy => h.after y ?_, fun y hy => h.nonempty y ?_⟩
  · cases C with
    | nil => simp at hy
    | cons c C =>
        rw [List.dropLast_cons_of_ne_nil (by simp)]
        exact List.mem_cons_of_mem _ hy
  · rcases List.mem_append.mp hy with hy | hy <;> simp [hy]

/-- Merging the next block into an underfull one, given its unlinking. -/
theorem merge_wf {sa' : SkipArray K V}
    (h : sa'.Sound cmp (A ++ { b with offset := 0, pairs := b.pairs ++ x.pairs } :: C))
    (hs : ShapeBut sa'.nodeSize A (x :: C)) :
    sa'.Wf cmp (A ++ { b with offset := 0, pairs := b.pairs ++ x.pairs } :: C) := by
  refine ⟨h, hs.merge.shape (fun hC => ?_) fun _ => ?_⟩
  · have := hs.after x (by rw [List.dropLast_cons_of_ne_nil hC]; exact List.mem_cons_self)
    simp only [List.length_append]
    omega
  · have := hs.nonempty x (by simp)
    simp [this]

/-- Taking pairs from the next block, so that it keeps exactly half a buffer. -/
theorem steal_wf {sa' : SkipArray K V}
    (h : sa'.Sound cmp (A ++ { b with
        offset := 0, pairs := b.pairs ++ x.pairs.take (x.pairs.length - sa'.nodeSize / 2) } ::
      { x with
        offset := x.offset + (x.pairs.length - sa'.nodeSize / 2)
        pairs := x.pairs.drop (x.pairs.length - sa'.nodeSize / 2) } :: C))
    (hs : ShapeBut sa'.nodeSize A (x :: C))
    (hsum : sa'.nodeSize < b.pairs.length + x.pairs.length)
    (hless : b.pairs.length < sa'.nodeSize / 2) :
    sa'.Wf cmp (A ++ { b with
        offset := 0, pairs := b.pairs ++ x.pairs.take (x.pairs.length - sa'.nodeSize / 2) } ::
      { x with
        offset := x.offset + (x.pairs.length - sa'.nodeSize / 2)
        pairs := x.pairs.drop (x.pairs.length - sa'.nodeSize / 2) } :: C) := by
  refine ⟨h, shape_middle_iff.mpr ⟨⟨hs.before, fun _ => ?_, fun y hy => ?_⟩, fun _ => ⟨?_, ?_⟩⟩⟩
  · simp only [List.length_append, List.length_take]
    omega
  · cases C with
    | nil => simp at hy
    | cons c C =>
        rw [List.dropLast_cons_of_ne_nil (by simp)] at hy
        rcases List.mem_cons.mp hy with rfl | hy
        · simp only [List.length_drop]
          omega
        · exact hs.after y (by
            rw [List.dropLast_cons_of_ne_nil (by simp)]
            exact List.mem_cons_of_mem _ hy)
  · refine List.ne_nil_of_length_pos ?_
    simp only [List.length_append, List.length_take]
    omega
  · refine forall_mem_middle.mpr ⟨List.ne_nil_of_length_pos ?_,
      (forall_mem_middle.mp hs.nonempty).2⟩
    simp only [List.length_drop]
    omega

/-- All pairs of the next block fit: they move over, and it is left to unlink. -/
theorem mergeNext_spec (h : sa.Sound cmp (A ++ b :: x :: C)) (hs : ShapeBut sa.nodeSize A (x :: C))
    (hfit : b.pairs.length + x.pairs.length ≤ sa.nodeSize) {nb nx n₁ : Node K V}
    (hnb : sa.node? b.ptr = some nb) (hnx : Holds sa.toSettings nx x)
    (hn₁ : Holds sa.toSettings n₁ { b with offset := 0 }) (hsame : nb.SameLinks n₁) :
    ∃ n₂, movePairs n₁ nx n₁.count nx.offset x.pairs.length = .ok n₂ ∧
      nb.SameLinks { n₂ with count := u16 ((n₂.count : ℤ) + x.pairs.length) } ∧
      Unlinking cmp (sa.setNode b.ptr { n₂ with count := u16 ((n₂.count : ℤ) + x.pairs.length) }) A
        { b with offset := 0, pairs := b.pairs ++ x.pairs } x C ∧
      (sa.setNode b.ptr { n₂ with count := u16 ((n₂.count : ℤ) + x.pairs.length) }).Linked
        (A ++ { b with offset := 0, pairs := b.pairs ++ x.pairs } :: x :: C) ∧
      (sa.setNode b.ptr { n₂ with count := u16 ((n₂.count : ℤ) + x.pairs.length) }).Tallest
        (A ++ { b with offset := 0, pairs := b.pairs ++ x.pairs } :: x :: C) := by
  obtain ⟨n₂, hmove, hh₂, hsame₂⟩ := absorb_spec h.settings hn₁ rfl hnx (le_refl _) hfit
  rw [List.take_length] at hh₂
  refine ⟨n₂, hmove, hsame.trans hsame₂,
    h.merged hnb (hsame.trans hsame₂) hh₂ ?_ fun y hy => hs.nonempty y ?_⟩
  · simp [hs.nonempty x (by simp)]
  · rcases List.mem_append.mp hy with hy | hy <;> simp [hy]

/-- They do not fit: enough move over to leave the next block half full. -/
theorem stealNext_spec (h : sa.Sound cmp (A ++ b :: x :: C)) (hs : ShapeBut sa.nodeSize A (x :: C))
    (hless : b.pairs.length < sa.nodeSize / 2)
    (hsum : sa.nodeSize < b.pairs.length + x.pairs.length) {nb nx n₁ : Node K V} {k : ℕ}
    (hk : k = u16 ((x.pairs.length : ℤ) - (sa.nodeSize / 2 : ℕ)))
    (hnb : sa.node? b.ptr = some nb) (hnx : sa.node? x.ptr = some nx)
    (hhx : Holds sa.toSettings nx x)
    (hn₁ : Holds sa.toSettings n₁ { b with offset := 0 }) (hsame : nb.SameLinks n₁) :
    ∃ n₂, movePairs n₁ nx n₁.count nx.offset k = .ok n₂ ∧
      Inherits sa ((sa.setNode x.ptr { nx with
          count := u16 ((x.pairs.length : ℤ) - k), offset := u16 ((nx.offset : ℤ) + k) }).setNode
        b.ptr { n₂ with count := u16 ((n₂.count : ℤ) + k) }) ∧
      ((sa.setNode x.ptr { nx with
          count := u16 ((x.pairs.length : ℤ) - k), offset := u16 ((nx.offset : ℤ) + k) }).setNode
        b.ptr { n₂ with count := u16 ((n₂.count : ℤ) + k) }).Wf cmp (A ++ { b with
            offset := 0, pairs := b.pairs ++ x.pairs.take (x.pairs.length - sa.nodeSize / 2) } ::
          { x with
            offset := x.offset + (x.pairs.length - sa.nodeSize / 2)
            pairs := x.pairs.drop (x.pairs.length - sa.nodeSize / 2) } :: C) ∧
      u16 ((x.pairs.length : ℤ) - k) = sa.nodeSize / 2 ∧
      u16 ((n₂.count : ℤ) + k) ≤ sa.nodeSize ∧
      ∀ bs, ((sa.setNode x.ptr { nx with
          count := u16 ((x.pairs.length : ℤ) - k), offset := u16 ((nx.offset : ℤ) + k) }).setNode
        b.ptr { n₂ with count := u16 ((n₂.count : ℤ) + k) }).blocks bs = sa.blocks bs := by
  have hlt := h.settings.nodeSize_lt
  have hbound := hhx.bound
  have hk' : k = x.pairs.length - sa.nodeSize / 2 := by
    rw [hk]
    exact u16_sub (by omega) (by omega)
  obtain ⟨n₂, hmove, hh₂, hsame₂⟩ := absorb_spec h.settings hn₁ rfl hhx
    (show k ≤ x.pairs.length by omega) (show b.pairs.length + k ≤ sa.nodeSize by omega)
  have hcnt : u16 ((x.pairs.length : ℤ) - k) = x.pairs.length - k :=
    u16_sub (by omega) (by omega)
  have hoff : u16 ((nx.offset : ℤ) + k) = x.offset + k := by
    rw [hhx.offset]
    exact_mod_cast u16_of_lt (n := x.offset + k) (by omega)
  have hdrop := hhx.drop (show k ≤ x.pairs.length by omega)
  rw [← hcnt] at hdrop
  have hlen := hh₂.count
  simp only [List.length_append, List.length_take] at hlen
  have hsx : nx.SameLinks
      { nx with count := u16 ((x.pairs.length : ℤ) - k), offset := x.offset + k } :=
    ⟨rfl, rfl, rfl, rfl⟩
  have hsound := h.steal hnb hnx (hsame.trans hsame₂) hsx hh₂ hdrop (by omega)
  have hne : b.ptr ≠ x.ptr := (h.linked.ptr_ne (x := x) (by simp)).symm
  have hnb' : (sa.setNode x.ptr { nx with
      count := u16 ((x.pairs.length : ℤ) - k), offset := x.offset + k }).node? b.ptr = some nb := by
    rw [SkipArray.node?_setNode_ne hne]
    exact hnb
  have hinh := (Inherits.setNode hnx hsx.height).trans
    (Inherits.setNode hnb' (hsame.trans hsame₂).height)
  rw [hoff]
  refine ⟨n₂, hmove, hinh, ?_, by omega, by omega, fun bs => ?_⟩
  · subst hk'
    exact steal_wf hsound hs hsum hless
  · rw [SkipArray.blocks_setNode hnb' (hsame.trans hsame₂), SkipArray.blocks_setNode hnx hsx]

/-- What `shift_or_merge` does to an underfull block that is not last, from the
nodes on: it leaves the unlinking to `unlink_node`, or takes some pairs. -/
theorem shiftOrMerge_eq (h : sa.Sound cmp (A ++ b :: x :: C)) (hs : ShapeBut sa.nodeSize A (x :: C))
    (hless : b.pairs.length < sa.nodeSize / 2) {nb nx n₁ : Node K V} (hnb : sa.node? b.ptr = some nb)
    (hnx : sa.node? x.ptr = some nx) (hhb : Holds sa.toSettings nb b)
    (hhx : Holds sa.toSettings nx x) (hslide : slideToFront nb = .ok n₁)
    (hh₁ : Holds sa.toSettings n₁ { b with offset := 0 }) (hsame : nb.SameLinks n₁)
    (c : Ctx K V U) :
    (b.pairs.length + x.pairs.length ≤ sa.nodeSize → ∀ n₂,
      movePairs n₁ nx n₁.count nx.offset x.pairs.length = .ok n₂ →
      shiftOrMerge cmp sa c b.ptr = unlinkNode cmp
        (sa.setNode b.ptr { n₂ with count := u16 ((n₂.count : ℤ) + x.pairs.length) }) c x.ptr) ∧
    (¬ b.pairs.length + x.pairs.length ≤ sa.nodeSize → ∀ k n₂,
      k = u16 ((x.pairs.length : ℤ) - (sa.nodeSize / 2 : ℕ)) →
      movePairs n₁ nx n₁.count nx.offset k = .ok n₂ →
      shiftOrMerge cmp sa c b.ptr = .ok ((sa.setNode x.ptr { nx with
          count := u16 ((x.pairs.length : ℤ) - k), offset := u16 ((nx.offset : ℤ) + k) }).setNode
        b.ptr { n₂ with count := u16 ((n₂.count : ℤ) + k) }, c)) := by
  have hnext := h.linked.next
  have hfirst := h.linked.first h.settings.pos
  simp only [shiftOrMerge, hfirst, ok_bind, SkipArray.load_eq hnb, hnext, List.map_cons,
    List.head?_cons, reduceCtorEq, and_false, if_false, hhb.count, check_of_pos hless,
    SkipArray.load_eq hnx, hhx.count, hslide]
  constructor
  · intro hfit n₂ hmove
    rw [if_pos (by omega), hmove, ok_bind, SkipArray.store, ok_bind]
  · rintro hfit k n₂ rfl hmove
    obtain ⟨n₂', hmove', -, -, hreq, hle, -⟩ :=
      stealNext_spec h hs hless (by omega) rfl hnb hnx hhx hh₁ hsame
    obtain rfl : n₂' = n₂ := Except.ok.inj (hmove'.symm.trans hmove)
    simp only [if_neg (show ¬ x.pairs.length + b.pairs.length ≤ sa.nodeSize by omega), hmove,
      ok_bind, SkipArray.store, check_of_pos hreq]
    rw [check_of_pos, ok_bind]
    · rfl
    · exact hle

/-- `shift_or_merge` on an underfull block that is not last. -/
theorem shiftOrMerge_next (hc : LawfulCmp cmp) (h : sa.Sound cmp (A ++ b :: x :: C))
    (hs : ShapeBut sa.nodeSize A (x :: C)) (hless : b.pairs.length < sa.nodeSize / 2)
    (c : Ctx K V U) :
    ∃ sa' c' bs', shiftOrMerge cmp sa c b.ptr = .ok (sa', c') ∧ c'.freed = c.freed ∧
      Keeps sa sa' ∧ Inherits sa sa' ∧ sa'.Wf cmp bs' ∧
      bindings bs' = bindings (A ++ b :: x :: C) ∧
      ∀ cb : Callbacks K U, Trades cb c (sa.blocks (A ++ b :: x :: C)) c' (sa'.blocks bs') := by
  obtain ⟨nb, hnb, hhb⟩ := h.stores b (by simp)
  obtain ⟨nx, hnx, hhx⟩ := h.stores x (by simp)
  obtain ⟨n₁, hslide, hh₁, hsame₁⟩ := slideToFront_spec hhb
  obtain ⟨hmerge, hsteal⟩ := shiftOrMerge_eq h hs hless hnb hnx hhb hhx hslide hh₁ hsame₁ c
  by_cases hfit : b.pairs.length + x.pairs.length ≤ sa.nodeSize
  · obtain ⟨n₂, hmove, hsame₂, hu, hl, ht⟩ := mergeNext_spec h hs hfit hnb hhx hh₁ hsame₁
    obtain ⟨sa', c', hunlink, hrem, hsound⟩ := unlinkNode_spec hc hu hl ht (c := c)
    have hkeep := hrem.keeps
    exact ⟨sa', c', _, (hmerge hfit n₂ hmove).trans hunlink, hrem.freed,
      ⟨hkeep.settings, hkeep.iter, hkeep.iters⟩,
      (Inherits.setNode hnb hsame₂.height).trans hrem.inherits,
      merge_wf hsound (by rw [hkeep.settings]; exact hs), by simp,
      fun cb => hrem.trades_merged cb h.linked hnb hsame₂⟩
  · obtain ⟨n₂, hmove, hinh, hwf, -, -, hblocks⟩ :=
      stealNext_spec h hs hless (by omega) rfl hnb hnx hhx hh₁ hsame₁
    refine ⟨_, c, _, hsteal hfit _ n₂ rfl hmove, rfl, ⟨rfl, rfl, rfl⟩, hinh, hwf, bindings_steal _, ?_⟩
    intro cb
    rw [hblocks]
    exact .of_ptrs cb c sa (by simp)

/-- What `shift_or_merge` does to an underfull last block, from the nodes on: it leaves
the unlinking to `unlink_node`, or everything as it is. -/
theorem shiftOrMerge_last_eq {a : Block K V} (h : sa.Sound cmp (A ++ a :: [b]))
    (hless : b.pairs.length < sa.nodeSize / 2) {na nb : Node K V} (hna : sa.node? a.ptr = some na)
    (hnb : sa.node? b.ptr = some nb) (hha : Holds sa.toSettings na a)
    (hhb : Holds sa.toSettings nb b) (c : Ctx K V U) :
    (a.pairs.length + b.pairs.length ≤ sa.nodeSize → ∃ m, na.SameLinks m ∧
      Holds sa.toSettings m { a with offset := 0, pairs := a.pairs ++ b.pairs } ∧
      shiftOrMerge cmp sa c b.ptr = unlinkNode cmp (sa.setNode a.ptr m) c b.ptr) ∧
    (¬ a.pairs.length + b.pairs.length ≤ sa.nodeSize →
      shiftOrMerge cmp sa c b.ptr = .ok (sa, c)) := by
  have hl' := h.linked
  rw [List.append_cons] at hl'
  have hnext := hl'.next
  have hback : nb.back = some a.ptr := by
    rw [hl'.back hnb]
    simp
  have hfirst := h.linked.first h.settings.pos
  have hne : ((A ++ a :: [b]).map Block.ptr).head? ≠ some b.ptr := by
    intro heq
    obtain ⟨y, hy, hyp⟩ : ∃ y ∈ A ++ [a], y.ptr = b.ptr := by
      cases A with
      | nil => exact ⟨a, by simp, Option.some.inj heq⟩
      | cons y A => exact ⟨y, by simp, Option.some.inj heq⟩
    exact hl'.ptr_ne (x := y) (by simpa using hy) hyp
  simp only [shiftOrMerge, hfirst, ok_bind, SkipArray.load_eq hnb, hnext, List.map_nil,
    List.head?_nil, hne, false_and, if_false, hhb.count, check_of_pos hless, hback, check_of_pos (Option.some_ne_none a.ptr), SkipArray.load_eq hna,
    hha.count]
  constructor
  · intro hfit
    obtain ⟨n₁, hshift, hh₁, hsame₁, hcnt₁⟩ :=
      hha.slide (show 0 + a.pairs.length ≤ sa.nodeSize by omega)
    obtain ⟨n₂, hmove, hh₂, hsame₂⟩ := absorb_spec h.settings hh₁ rfl hhb (le_refl _) hfit
    rw [List.take_length] at hh₂
    rw [hha.count] at hshift
    refine ⟨_, hsame₁.trans hsame₂, hh₂, ?_⟩
    simp only [if_pos hfit, hshift, ok_bind, hmove, SkipArray.store]
  · intro hfit
    rw [if_neg hfit]
    rfl

/-- `shift_or_merge` on an underfull last block that is not the only one. -/
theorem shiftOrMerge_last (hc : LawfulCmp cmp) {a : Block K V}
    (h : sa.Sound cmp (A ++ a :: [b])) (hs : ShapeBut sa.nodeSize (A ++ [a]) [])
    (hless : b.pairs.length < sa.nodeSize / 2) (c : Ctx K V U) :
    ∃ sa' c' bs', shiftOrMerge cmp sa c b.ptr = .ok (sa', c') ∧ c'.freed = c.freed ∧
      Keeps sa sa' ∧ Inherits sa sa' ∧ sa'.Wf cmp bs' ∧
      bindings bs' = bindings (A ++ a :: [b]) ∧
      ∀ cb : Callbacks K U, Trades cb c (sa.blocks (A ++ a :: [b])) c' (sa'.blocks bs') := by
  obtain ⟨na, hna, hha⟩ := h.stores a (by simp)
  obtain ⟨nb, hnb, hhb⟩ := h.stores b (by simp)
  have hafull : a.pairs ≠ [] := hs.nonempty a (by simp)
  obtain ⟨hmerge, hstay⟩ := shiftOrMerge_last_eq h hless hna hnb hha hhb c
  by_cases hfit : a.pairs.length + b.pairs.length ≤ sa.nodeSize
  · obtain ⟨m, hsame, hh, heq⟩ := hmerge hfit
    obtain ⟨hu, hl, ht⟩ := h.merged hna hsame hh (by simp [hafull])
      fun y hy => hs.nonempty y (by simpa using Or.inl (by simpa using hy))
    obtain ⟨sa', c', hunlink, hrem, hsound⟩ := unlinkNode_spec hc hu hl ht (c := c)
    have hkeep := hrem.keeps
    refine ⟨sa', c', _, heq.trans hunlink, hrem.freed, ⟨hkeep.settings, hkeep.iter, hkeep.iters⟩,
      (Inherits.setNode hna hsame.height).trans hrem.inherits, ⟨hsound, ?_⟩,
      by simp, fun cb => hrem.trades_merged cb h.linked hna hsame⟩
    rw [hkeep.settings]
    refine shape_middle_iff.mpr ⟨⟨fun y hy => hs.before y (by simp [hy]), by simp, by simp⟩,
      fun _ => ⟨by simp [hafull], fun y hy => hs.nonempty y ?_⟩⟩
    simpa using Or.inl (by simpa using hy)
  · refine ⟨sa, c, _, hstay hfit, rfl, .refl sa, .refl sa, ⟨h, ?_⟩, rfl, fun cb => .refl _ _⟩
    rw [List.append_cons]
    refine hs.shape (by simp) fun _ => List.ne_nil_of_length_pos ?_
    have := hha.bound
    omega

/-- A lone block may hold as little as it likes. -/
theorem shiftOrMerge_lone (h : sa.Sound cmp [b]) (c : Ctx K V U) :
    shiftOrMerge cmp sa c b.ptr = .ok (sa, c) := by
  obtain ⟨nb, hnb, hhb⟩ := h.stores b (by simp)
  have hl : sa.Linked ([] ++ [b]) := h.linked
  simp only [shiftOrMerge, h.linked.first h.settings.pos, hl.next, ok_bind,
    SkipArray.load_eq hnb, List.map_cons, List.map_nil, List.head?_cons, List.head?_nil, and_self,
    if_true]
  rfl

/-- `shift_or_merge` brings an underfull block back in line. -/
theorem shiftOrMerge_spec (hc : LawfulCmp cmp) (h : sa.Sound cmp (A ++ b :: C))
    (hs : ShapeBut sa.nodeSize A C) (hless : b.pairs.length < sa.nodeSize / 2) (c : Ctx K V U) :
    ∃ sa' c' bs', shiftOrMerge cmp sa c b.ptr = .ok (sa', c') ∧ c'.freed = c.freed ∧
      Keeps sa sa' ∧ Inherits sa sa' ∧ sa'.Wf cmp bs' ∧
      bindings bs' = bindings (A ++ b :: C) ∧
      ∀ cb : Callbacks K U, Trades cb c (sa.blocks (A ++ b :: C)) c' (sa'.blocks bs') := by
  cases C with
  | cons x C => exact shiftOrMerge_next hc h hs hless c
  | nil =>
      rcases List.eq_nil_or_concat A with rfl | ⟨A, a, rfl⟩
      · exact ⟨sa, c, [b], shiftOrMerge_lone h c, rfl, .refl sa, .refl sa,
          ⟨h, hs.shape (by simp) (by simp)⟩, rfl, fun cb => .refl _ _⟩
      · rw [List.concat_eq_append] at h hs ⊢
        rw [← List.append_cons] at h ⊢
        exact shiftOrMerge_last hc h hs hless c

/-! ## The first block -/

section First

variable {dead : Block K V} {i : ℕ}

/-- One level of the loop of `skiparray_pop_first` that takes `dead` out. -/
theorem bypassLevel_spec (h : Unlinking cmp sa [] b dead C) {k : ℕ} (hki : k = i)
    (hi : i < dead.height)
    (hb : Bypassed (fun j => dead.height ≤ j ∨ j < k) sa [] b dead C) :
    ∃ sa', bypassLevel b.ptr dead.ptr i sa = .ok sa' ∧ LevelStep i sa sa' ∧
      sa'.links.fwd i dead.ptr = sa.links.fwd i dead.ptr ∧
      Bypassed (fun j => dead.height ≤ j ∨ j < k + 1) sa' [] b dead C := by
  subst hki
  have hne := h.dead_ne (x := b) (by simp)
  obtain ⟨nb, hnb, hnbh, -⟩ := h.alive b (by simp)
  have him : k < sa.maxLevel := by
    have := (h.top dead (by simp)).2
    omega
  have hl := hb.pending k him (by omega)
  have hfwd : sa.links.fwd k dead.ptr = (onLevel k (towers C)).head? := by
    have hl' := hl
    rw [List.append_cons, towers_append, towers_cons] at hl'
    exact hl'.fwd_eq hi
  have hone : onLevel k (towers ([] ++ [b])) = if k < b.height then [b.ptr] else [] := by
    split_ifs with hkb
    · exact onLevel_cons_of_lt (by simpa using hkb)
    · exact onLevel_cons_of_le (by simpa using hkb)
  rw [bypassLevel, SkipArray.load_eq hnb, ok_bind, h.fwdAt (x := dead) (by simp) hi, ok_bind, hnbh,
    hfwd]
  by_cases hkb : k < b.height
  · rw [if_pos hkb]
    rw [if_pos hkb] at hone
    obtain ⟨sa', hset, hstep, hhead, hfwd'⟩ :=
      h.setFwd (x := b) (by simp) hkb (onLevel k (towers C)).head?
    refine ⟨sa', hset, hstep, by rw [hfwd', if_neg hne.symm, hfwd],
      (hb.step hstep (h.removeLevel hl hi ?_ ?_ ?_)).congr fun j => by omega⟩
    · rw [hone]
      simp
    · intro p hp
      rw [hone, List.getLast?_singleton, Option.some.injEq] at hp
      exact ⟨hhead, by rw [hfwd', if_pos hp.symm]⟩
    · intro p hp
      rw [hone, List.getLast?_singleton, ne_eq, Option.some.injEq] at hp
      rw [hfwd', if_neg fun heq => hp heq.symm]
  · rw [if_neg hkb]
    rw [if_neg hkb] at hone
    have hhead : sa.headAt k = .ok (some dead.ptr) := by
      rw [SkipArray.headAt_eq h.nodesLen him hl, List.append_cons, towers_append, onLevel_append,
        hone, towers_cons, onLevel_cons_of_lt (by simpa using hi)]
      rfl
    obtain ⟨sa', hset, hstep, hhead', hfwd'⟩ := SkipArray.setHead_spec
      (onLevel k (towers C)).head? (show k < sa.nodes.length by rw [h.nodesLen]; exact him)
    refine ⟨sa', ?_, hstep, by rw [hfwd', hfwd],
      (hb.step hstep (h.removeLevel hl hi (fun _ => hhead') ?_ ?_)).congr fun j => by omega⟩
    · rw [hhead, ok_bind, check_of_pos rfl, ok_bind, hset]
    · intro p hp
      rw [hone] at hp
      cases hp
    · intro p _
      rw [hfwd']

/-- The inline code of `skiparray_pop_first` takes the second block out. -/
theorem bypassNode_spec (h : Unlinking cmp sa [] b dead C) (hl : sa.Linked (b :: dead :: C))
    (ht : sa.Tallest (b :: dead :: C)) (c : Ctx K V U) :
    ∃ sa' c', bypassNode sa c b.ptr dead.ptr = .ok (sa', c') ∧ Removes sa c dead.ptr sa' c' ∧
      sa'.Sound cmp (b :: C) := by
  obtain ⟨nd, hnd, hndh, -⟩ := h.alive dead (by simp)
  have hsize : sa.height ≤ sa.maxLevel := by
    obtain ⟨t, htm, hth⟩ := ht.2
    have := (h.top t htm).2
    omega
  have hpos : 1 ≤ sa.height := by
    obtain ⟨t, htm, hth⟩ := ht.2
    have := (h.top t htm).1
    omega
  obtain ⟨sa₁, h₁, ⟨hlo₁, hh₁, hback₁, hdead₁⟩, hb₁⟩ : ∃ sa₁,
      forUp (bypassLevel b.ptr dead.ptr) dead.height sa = .ok sa₁ ∧
      (LinkOnly sa sa₁ ∧ sa₁.height = sa.height ∧ sa₁.links.back = sa.links.back ∧
        ∀ j, sa₁.links.fwd j dead.ptr = sa.links.fwd j dead.ptr) ∧
      Bypassed (fun j => dead.height ≤ j ∨ j < dead.height) sa₁ [] b dead C :=
    forUp_ok (P := fun k s =>
        (LinkOnly sa s ∧ s.height = sa.height ∧ s.links.back = sa.links.back ∧
          ∀ j, s.links.fwd j dead.ptr = sa.links.fwd j dead.ptr) ∧
        Bypassed (fun j => dead.height ≤ j ∨ j < k) s [] b dead C)
      ⟨⟨.refl sa, rfl, rfl, fun _ => rfl⟩, fun i hi hdone => by
          have := hl.spells.level i hi
          have hd : dead.height ≤ i := hdone.resolve_right (by omega)
          rw [Links.Level, ← List.nil_append (b :: dead :: C), onLevel_dead hd] at this
          exact this, fun i hi _ => hl.spells.level i hi⟩
      fun k s hk ⟨⟨hlo, hh, hbk, hdd⟩, hb⟩ => by
        obtain ⟨s', hs', hstep, hfix, hb'⟩ := bypassLevel_spec (h.of_linkOnly hlo) rfl hk hb
        refine ⟨s', hs', ⟨hlo.trans hstep.linkOnly, hstep.height.trans hh,
          hstep.same.back.trans hbk, fun j => ?_⟩, hb'⟩
        rw [← hdd j]
        by_cases hj : j = k
        · rw [hj]
          exact hfix
        · rw [hstep.same.fwd j hj]
  have hu₁ := h.of_linkOnly hlo₁
  have hlev₁ : ∀ i < sa₁.maxLevel, sa₁.links.Level i (towers ([] ++ b :: C)) := fun i hi =>
    hb₁.finished i hi (by omega)
  -- the back link of the successor; `dead` still leads to it
  have hfollow : sa₁.fwdAt (some dead.ptr) 0 = .ok (C.map Block.ptr).head? := by
    have hl' := hl
    rw [← List.singleton_append] at hl'
    have hn := hl'.next
    rw [h.fwdAt (x := dead) (by simp) (h.top dead (by simp)).1, Except.ok.injEq] at hn
    rw [hu₁.fwdAt (x := dead) (by simp) (h.top dead (by simp)).1, hdead₁, hn]
  obtain ⟨sa₂, h₂, hlo₂, hh₂, hhead₂, hfwd₂, hbacks₂⟩ : ∃ sa₂,
      (if (C.map Block.ptr).head? ≠ none then
        sa₁.setBack (C.map Block.ptr).head? (some b.ptr) else pure sa₁) = .ok sa₂ ∧
      LinkOnly sa₁ sa₂ ∧ sa₂.height = sa₁.height ∧ sa₂.links.head = sa₁.links.head ∧
      sa₂.links.fwd = sa₁.links.fwd ∧
      Backs sa₂.links.back none ((towers ([] ++ b :: C)).map Prod.fst) := by
    have hbk := hl.spells.backs
    have hnd := h.nodup
    rw [← hback₁, towers_fst, List.map_cons, List.map_cons, ← List.nil_append (b.ptr :: _)] at hbk
    rw [towers_fst, List.nil_append, List.map_cons, List.map_cons,
      ← List.nil_append (b.ptr :: _)] at hnd
    rw [towers_fst, List.nil_append, List.map_cons, ← List.nil_append (b.ptr :: _)]
    cases C with
    | nil => exact ⟨sa₁, rfl, .refl sa₁, rfl, rfl, rfl, hbk.removeAfter hnd (by simp) fun p _ _ => rfl⟩
    | cons y C =>
        obtain ⟨ny, hny, -⟩ := hu₁.alive y (by simp)
        obtain ⟨sa₂, h₂, hlo, hh, hhead, hfwd, hback₂⟩ := SkipArray.setBack_spec (some b.ptr) hny
        refine ⟨sa₂, by simpa using h₂, hlo, hh, hhead, hfwd,
          hbk.removeAfter hnd (fun p hp => ?_) fun p _ hp => ?_⟩
        · rw [List.map_cons, List.head?_cons, Option.some.injEq] at hp
          rw [hback₂, if_pos hp.symm]
        · rw [List.map_cons, List.head?_cons, ne_eq, Option.some.injEq] at hp
          rw [hback₂, if_neg fun heq => hp heq.symm]
  have hu₂ := hu₁.of_linkOnly hlo₂
  have hmax₂ : sa₂.maxLevel = sa.maxLevel :=
    congrArg Settings.maxLevel (hlo₁.trans hlo₂).settings
  have hlev₂ : ∀ i < sa₂.maxLevel, sa₂.links.Level i (towers ([] ++ b :: C)) := fun i hi =>
    (hlev₁ i (by rw [hlo₂.settings] at hi; exact hi)).congr (by rw [hhead₂])
      fun p _ => by rw [hfwd₂]
  obtain ⟨nd₂, hnd₂, -⟩ := hu₂.alive dead (by simp)
  obtain ⟨height, h₃, hpos₃, hle₃, hlow₃, hnone₃⟩ := trimHeight_spec sa₂.nodes
    (h := sa.height) hpos (by rw [hu₂.nodesLen, hmax₂]; exact hsize)
  have htall := tallest_of_trim sa₂ ([] ++ b :: C) (by simp)
    (fun i hi => (hlev₂ i hi).head_eq) (fun x hx => hu₂.top x (hu₂.mem_old hx))
    (fun x hx => ht.1 x (h.mem_old hx)) hpos₃ hlow₃ (by omega) hnone₃
  have hlo₃ : LinkOnly sa₂ { sa₂ with height } := ⟨rfl, rfl, rfl, rfl, rfl, rfl, fun _ => rfl⟩
  have hsound := (hu₂.of_linkOnly hlo₃).sound hlev₂ hbacks₂ htall
  have hrem := ((hlo₁.trans hlo₂).trans hlo₃).removes (c := c) hnd₂
  refine ⟨_, nd₂.blocks.foldl Ctx.release c, ?_, hrem, hsound⟩
  · have htrim : trimHeight (sa₂.clearNode dead.ptr).nodes (sa₂.clearNode dead.ptr).height =
        .ok height := by
      rw [← h₃, ← hh₁, ← hh₂]
      rfl
    simp only [bypassNode, SkipArray.load_eq hnd, ok_bind, hndh, h₁, hfollow, h₂, nodeFree_eq hnd₂,
      htrim]
    rfl

/-- What `skiparray_pop_first` does to an underfull first block, from the nodes
on: the same as `shift_or_merge`, but for the code that takes the next node out. -/
theorem popFirstBalance_eq {nb nx n₁ : Node K V} (hnb : sa.node? b.ptr = some nb)
    (hnx : sa.node? x.ptr = some nx) (hhx : Holds sa.toSettings nx x)
    (hslide : slideToFront nb = .ok n₁) (hh₁ : Holds sa.toSettings n₁ { b with offset := 0 })
    (c : Ctx K V U) :
    (b.pairs.length + x.pairs.length ≤ sa.nodeSize → ∀ n₂,
      movePairs n₁ nx n₁.count nx.offset x.pairs.length = .ok n₂ →
      popFirstBalance sa c b.ptr x.ptr = bypassNode
        (sa.setNode b.ptr { n₂ with count := u16 ((n₂.count : ℤ) + x.pairs.length) }) c b.ptr
        x.ptr) ∧
    (¬ b.pairs.length + x.pairs.length ≤ sa.nodeSize → ∀ k n₂,
      k = u16 ((x.pairs.length : ℤ) - (sa.nodeSize / 2 : ℕ)) →
      movePairs n₁ nx n₁.count nx.offset k = .ok n₂ →
      popFirstBalance sa c b.ptr x.ptr = .ok ((sa.setNode x.ptr { nx with
          count := u16 ((x.pairs.length : ℤ) - k), offset := u16 ((nx.offset : ℤ) + k) }).setNode
        b.ptr { n₂ with count := u16 ((n₂.count : ℤ) + k) }, c)) := by
  have hcnt₁ : n₁.count = b.pairs.length := hh₁.count
  simp only [popFirstBalance, ok_bind, SkipArray.load_eq hnb, SkipArray.load_eq hnx, hslide,
    hhx.count]
  constructor
  · intro hfit n₂ hmove
    rw [if_pos (by omega), hmove, ok_bind, SkipArray.store, ok_bind]
  · rintro hfit k n₂ rfl hmove
    simp only [if_neg (show ¬ n₁.count + x.pairs.length ≤ sa.nodeSize by omega), hmove, ok_bind,
      SkipArray.store]
    rfl

/-- `skiparray_pop_first` brings an underfull first block back in line. -/
theorem popFirstBalance_spec (h : sa.Sound cmp (b :: x :: C)) (hs : ShapeBut sa.nodeSize [] (x :: C))
    (hless : b.pairs.length < sa.nodeSize / 2) (c : Ctx K V U) :
    ∃ sa' c' bs', popFirstBalance sa c b.ptr x.ptr = .ok (sa', c') ∧ c'.freed = c.freed ∧
      Keeps sa sa' ∧ Inherits sa sa' ∧ sa'.Wf cmp bs' ∧ bindings bs' = bindings (b :: x :: C) ∧
      ∀ cb : Callbacks K U, Trades cb c (sa.blocks (b :: x :: C)) c' (sa'.blocks bs') := by
  obtain ⟨nb, hnb, hhb⟩ := h.stores b (by simp)
  obtain ⟨nx, hnx, hhx⟩ := h.stores x (by simp)
  obtain ⟨n₁, hslide, hh₁, hsame₁⟩ := slideToFront_spec hhb
  obtain ⟨hmerge, hsteal⟩ := popFirstBalance_eq hnb hnx hhx hslide hh₁ c
  rw [← List.nil_append (b :: x :: C)] at h
  by_cases hfit : b.pairs.length + x.pairs.length ≤ sa.nodeSize
  · obtain ⟨n₂, hmove, hsame₂, hu, hl, ht⟩ := mergeNext_spec h hs hfit hnb hhx hh₁ hsame₁
    obtain ⟨sa', c', hbypass, hrem, hsound⟩ := bypassNode_spec hu hl ht c
    rw [← List.nil_append (_ :: C)] at hsound
    have hkeep := hrem.keeps
    exact ⟨sa', c', _, (hmerge hfit n₂ hmove).trans hbypass, hrem.freed,
      ⟨hkeep.settings, hkeep.iter, hkeep.iters⟩,
      (Inherits.setNode hnb hsame₂.height).trans hrem.inherits,
      merge_wf hsound (by rw [hkeep.settings]; exact hs), by simp,
      fun cb => hrem.trades_merged cb h.linked hnb hsame₂⟩
  · obtain ⟨n₂, hmove, hinh, hwf, -, -, hblocks⟩ :=
      stealNext_spec h hs hless (by omega) rfl hnb hnx hhx hh₁ hsame₁
    refine ⟨_, c, _, hsteal hfit _ n₂ rfl hmove, rfl, ⟨rfl, rfl, rfl⟩, hinh, hwf, bindings_steal _, ?_⟩
    intro cb
    rw [hblocks]
    exact .of_ptrs cb c sa (by simp)

end First

end Skiparray
