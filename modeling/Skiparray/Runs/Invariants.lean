import Skiparray.Runs.Reachable

/-!
# What a reachable skiparray looks like in memory

The invariants of `test_skiparray_invariants.c`, read off the heap by following
pointers, with no mention of blocks: the chains of the skip list, the occupancy
of its nodes, and the sizes of its buffers, inside which every call stays.
-/

namespace Skiparray

open SkipLinks Fallible

variable {K V U : Type}

/-! ## Following pointers -/

/-- From pointer `q`, the links of level `i` lead through `ns` to NULL. -/
def SkipArray.Follows (sa : SkipArray K V) (i : ℕ) : Option Ptr → List (Ptr × Node K V) → Prop
  | q, [] => q = none
  | q, (p, n) :: ns =>
    q = some p ∧ sa.node? p = some n ∧ ∃ q', n.fwd[i]? = some q' ∧ sa.Follows i q' ns

/-- The keys in the window of a node. -/
def Node.liveKeys (n : Node K V) : List K := (n.keys.drop n.offset).take n.count

/-- `sa` is a skip list of the nodes `ns`, with keys ascending in `cmp`. -/
structure SkipList (cmp : K → K → ℤ) (sa : SkipArray K V) (ns : List (Ptr × Node K V)) : Prop where
  chain : ∃ q, sa.nodes[0]? = some q ∧ sa.Follows 0 q ns
  nonempty : ns ≠ []
  acyclic : (ns.map Prod.fst).Nodup
  first : ∀ x, ns[0]? = some x → x.2.back = none
  back : ∀ i x y, ns[i]? = some x → ns[i + 1]? = some y → y.2.back = some x.1
  levels : ∀ i < sa.height, ∃ q, sa.nodes[i]? = some q ∧
    sa.Follows i q (ns.filter fun x => i < x.2.height)
  tallest : (∀ x ∈ ns, x.2.height ≤ sa.height) ∧ ∃ x ∈ ns, x.2.height = sa.height
  bounds : 1 ≤ sa.height ∧ sa.height ≤ sa.maxLevel
  above : ∀ i, sa.height ≤ i → i < sa.maxLevel → sa.nodes[i]? = some none
  ascending : (ns.flatMap fun x => x.2.liveKeys).Pairwise fun a b => cmp a b < 0

/-- The occupancy of the nodes `ns` of a skiparray. -/
structure Occupied (nodeSize : ℕ) (ns : List (Ptr × Node K V)) : Prop where
  half : ∀ x ∈ ns.dropLast, nodeSize / 2 ≤ x.2.count
  nonempty : 2 ≤ ns.length → ∀ x ∈ ns, x.2.count ≠ 0
  fits : ∀ x ∈ ns, x.2.count ≤ nodeSize ∧ x.2.offset < nodeSize ∧
    x.2.offset + x.2.count ≤ nodeSize

/-- The buffers of node `n` have the sizes `node_alloc` gave them. -/
structure Allocated (s : Settings) (n : Node K V) : Prop where
  keys : n.keys.length = s.nodeSize
  values : ∀ vs, n.values = some vs → vs.length = s.nodeSize
  fwd : n.fwd.length = n.height

/-! ## From blocks to nodes -/

/-- The nodes of some blocks. -/
def SkipArray.nodesOf (sa : SkipArray K V) (bs : List (Block K V)) : List (Ptr × Node K V) :=
  bs.filterMap fun b => (sa.node? b.ptr).map fun n => (b.ptr, n)

section Nodes

variable {sa : SkipArray K V} {bs A C : List (Block K V)} {b : Block K V} {n : Node K V} {i : ℕ}

theorem SkipArray.nodesOf_cons (hn : sa.node? b.ptr = some n) :
    sa.nodesOf (b :: C) = (b.ptr, n) :: sa.nodesOf C := by
  simp [SkipArray.nodesOf, hn]

theorem SkipArray.nodesOf_append : sa.nodesOf (A ++ C) = sa.nodesOf A ++ sa.nodesOf C :=
  List.filterMap_append

theorem mem_nodesOf {x : Ptr × Node K V} (hx : x ∈ sa.nodesOf bs) :
    ∃ b ∈ bs, x.1 = b.ptr ∧ sa.node? b.ptr = some x.2 := by
  obtain ⟨b, hb, hbx⟩ := List.mem_filterMap.mp hx
  obtain ⟨n, hn, rfl⟩ := Option.map_eq_some_iff.mp hbx
  exact ⟨b, hb, rfl, hn⟩

/-- Each block has its node. -/
theorem SkipArray.Linked.nodesOf_length (h : sa.Linked bs) :
    ∀ {A C : List (Block K V)}, bs = A ++ C → (sa.nodesOf C).length = C.length ∧
      (sa.nodesOf C).map Prod.fst = C.map Block.ptr
  | _, [], _ => ⟨rfl, rfl⟩
  | A, b :: C, hsplit => by
      obtain ⟨n, hn, -⟩ := h.alive b (by simp [hsplit])
      obtain ⟨hlen, hmap⟩ := h.nodesOf_length (A := A ++ [b]) (C := C) (by simp [hsplit])
      rw [SkipArray.nodesOf_cons hn]
      exact ⟨by simp [hlen], by simp [hmap]⟩

/-- The forward pointer of a block's node. -/
theorem SkipArray.Linked.fwd_slot (h : sa.Linked (A ++ b :: C)) (hn : sa.node? b.ptr = some n)
    (hi : i < b.height) : n.fwd[i]? = some (onLevel i (towers C)).head? := by
  have hnext := h.fwdAt hi
  rw [SkipArray.fwdAt, SkipArray.load_eq hn, ok_bind] at hnext
  exact slot_ok hnext

theorem SkipArray.Linked.head_slot (h : sa.Linked bs) (hi : i < sa.maxLevel) :
    sa.nodes[i]? = some (onLevel i (towers bs)).head? := slot_ok (h.headAt hi)

/-- The links of level `i` lead through the blocks that reach it. -/
theorem SkipArray.Linked.follows (h : sa.Linked bs) :
    ∀ {A C : List (Block K V)}, bs = A ++ C →
      sa.Follows i (onLevel i (towers C)).head? (sa.nodesOf (C.filter fun b => i < b.height))
  | _, [], _ => rfl
  | A, b :: C, hsplit => by
      obtain ⟨n, hn, hh, -⟩ := h.alive b (by simp [hsplit])
      have hrest := h.follows (A := A ++ [b]) (C := C) (by simp [hsplit])
      by_cases hi : i < b.height
      · have hlt : i < (b.ptr, b.height).2 := hi
        rw [List.filter_cons_of_pos (by simpa using hi), SkipArray.nodesOf_cons hn, towers_cons,
          onLevel_cons_of_lt hlt]
        refine ⟨rfl, hn, _, ?_, hrest⟩
        rw [hsplit] at h
        exact h.fwd_slot hn hi
      · have hle : (b.ptr, b.height).2 ≤ i := Nat.le_of_not_lt hi
        rw [List.filter_cons_of_neg (by simpa using hi), towers_cons, onLevel_cons_of_le hle]
        exact hrest

theorem SkipArray.Linked.nodesOf_filter (h : sa.Linked bs) :
    ∀ {A C : List (Block K V)}, bs = A ++ C →
      sa.nodesOf (C.filter fun b => i < b.height) =
        (sa.nodesOf C).filter fun x => i < x.2.height
  | _, [], _ => rfl
  | A, b :: C, hsplit => by
      obtain ⟨n, hn, hh, -⟩ := h.alive b (by simp [hsplit])
      have hrest := h.nodesOf_filter (A := A ++ [b]) (C := C) (by simp [hsplit])
      rw [SkipArray.nodesOf_cons hn]
      by_cases hi : i < b.height
      · rw [List.filter_cons_of_pos (by simpa using hi), SkipArray.nodesOf_cons hn,
          List.filter_cons_of_pos (by simpa [hh] using hi), hrest]
      · rw [List.filter_cons_of_neg (by simpa using hi), List.filter_cons_of_neg
          (by simpa [hh] using hi), hrest]

/-- The back pointer of the node that follows another. -/
theorem SkipArray.Linked.nodesOf_back (h : sa.Linked bs) {x y : Ptr × Node K V}
    {xs ys : List (Ptr × Node K V)} (hns : sa.nodesOf bs = xs ++ x :: y :: ys) :
    y.2.back = some x.1 := by
  obtain ⟨A, B, rfl, hA, hB⟩ := List.filterMap_eq_append_iff.mp hns
  obtain ⟨B₁, b, C, rfl, hB₁, hb, hC⟩ := List.filterMap_eq_cons_iff.mp hB
  obtain ⟨C₁, c, D, rfl, hC₁, hc, hD⟩ := List.filterMap_eq_cons_iff.mp hC
  have hnone : ∀ z ∈ A ++ (B₁ ++ b :: (C₁ ++ c :: D)),
      (sa.node? z.ptr).map (fun n => (z.ptr, n)) ≠ none := by
    intro z hz
    obtain ⟨n, hn, -⟩ := h.alive z hz
    simp [hn]
  have hC₁' : C₁ = [] := by
    cases C₁ with
    | nil => rfl
    | cons z C₁ => exact absurd (hC₁ z (by simp)) (hnone z (by simp))
  subst hC₁'
  obtain ⟨nb, hnb, rfl⟩ := Option.map_eq_some_iff.mp hb
  obtain ⟨nc, hnc, rfl⟩ := Option.map_eq_some_iff.mp hc
  have hl : sa.Linked ((A ++ B₁ ++ [b]) ++ c :: D) := by simpa using h
  rw [hl.back hnc]
  simp

theorem SkipArray.Linked.nodesOf_first (h : sa.Linked bs) {y : Ptr × Node K V}
    {ys : List (Ptr × Node K V)} (hns : sa.nodesOf bs = y :: ys) : y.2.back = none := by
  obtain ⟨B₁, b, C, rfl, hB₁, hb, hC⟩ := List.filterMap_eq_cons_iff.mp hns
  have hB₁' : B₁ = [] := by
    cases B₁ with
    | nil => rfl
    | cons z B₁ =>
        obtain ⟨n, hn, -⟩ := h.alive z (by simp)
        have := hB₁ z (by simp)
        simp [hn] at this
  subst hB₁'
  obtain ⟨nb, hnb, rfl⟩ := Option.map_eq_some_iff.mp hb
  rw [SkipArray.Linked.back (A := []) h hnb]
  rfl

variable [Inhabited V]

/-- The window of a node holds the keys of its block. -/
theorem Holds.liveKeys {s : Settings} (h : Holds s n b) : n.liveKeys = b.pairs.map Prod.fst := by
  have hread := h.keys.read
  rw [List.length_map] at hread
  rw [Node.liveKeys, h.offset, h.count, hread]

theorem SkipArray.Sound.liveKeys {cmp : K → K → ℤ} (h : sa.Sound cmp bs) :
    ∀ {A C : List (Block K V)}, bs = A ++ C →
      ((sa.nodesOf C).flatMap fun x => x.2.liveKeys) = (bindings C).map Prod.fst
  | _, [], _ => rfl
  | A, b :: C, hsplit => by
      obtain ⟨n, hn, hh⟩ := h.stores b (by simp [hsplit])
      rw [SkipArray.nodesOf_cons hn, List.flatMap_cons, hh.liveKeys, bindings_cons, List.map_append,
        h.liveKeys (A := A ++ [b]) (C := C) (by simp [hsplit])]

/-- A sound skiparray is a skip list. -/
theorem SkipArray.Sound.skipList {cmp : K → K → ℤ} (h : sa.Sound cmp bs) :
    SkipList cmp sa (sa.nodesOf bs) := by
  obtain ⟨hpos, hmax, -⟩ := h.topmost
  obtain ⟨hlen, hptr⟩ := h.linked.nodesOf_length (A := []) (C := bs) rfl
  have hlevel : ∀ i < sa.maxLevel, ∃ q, sa.nodes[i]? = some q ∧
      sa.Follows i q ((sa.nodesOf bs).filter fun x => i < x.2.height) := by
    intro i hi
    refine ⟨_, h.linked.head_slot hi, ?_⟩
    rw [← h.linked.nodesOf_filter (A := []) rfl]
    exact h.linked.follows (A := []) rfl
  have hheight : ∀ x ∈ sa.nodesOf bs, ∃ b ∈ bs, x.2.height = b.height := by
    intro x hx
    obtain ⟨b, hb, -, hn⟩ := mem_nodesOf hx
    obtain ⟨n, hn', hh, -⟩ := h.linked.alive b hb
    rw [hn, Option.some.injEq] at hn'
    exact ⟨b, hb, hn' ▸ hh⟩
  refine ⟨?_, ?_, ?_, ?_, ?_, ?_, ⟨?_, ?_⟩, ⟨hpos, hmax⟩, ?_, ?_⟩
  · obtain ⟨q, hq, hf⟩ := hlevel 0 h.settings.pos
    refine ⟨q, hq, ?_⟩
    have hall : (sa.nodesOf bs).filter (fun x => 0 < x.2.height) = sa.nodesOf bs := by
      rw [List.filter_eq_self]
      intro x hx
      obtain ⟨b, hb, hh⟩ := hheight x hx
      have := (h.linked.top b hb).1
      simpa [hh] using this
    rwa [hall] at hf
  · intro hnil
    rw [hnil] at hlen
    exact h.tallest.ne_nil (List.length_eq_zero_iff.mp hlen.symm)
  · rw [hptr]
    exact h.linked.ptr_nodup
  · intro x hx
    cases hns : sa.nodesOf bs with
    | nil =>
        rw [hns] at hx
        cases hx
    | cons y ys =>
        rw [hns] at hx
        cases hx
        exact h.linked.nodesOf_first hns
  · intro i x y hx hy
    obtain ⟨hi, hix⟩ := List.getElem?_eq_some_iff.mp hx
    obtain ⟨hi', hiy⟩ := List.getElem?_eq_some_iff.mp hy
    have hcut : sa.nodesOf bs =
        (sa.nodesOf bs).take i ++ x :: y :: (sa.nodesOf bs).drop (i + 2) := by
      rw [← hix, ← hiy, ← List.drop_eq_getElem_cons hi', ← List.drop_eq_getElem_cons hi,
        List.take_append_drop]
    exact h.linked.nodesOf_back hcut
  · intro i hi
    exact hlevel i (by omega)
  · intro x hx
    obtain ⟨b, hb, hh⟩ := hheight x hx
    rw [hh]
    exact h.tallest.1 b hb
  · obtain ⟨b, hb, hbh⟩ := h.tallest.2
    obtain ⟨n, hn, hh, -⟩ := h.linked.alive b hb
    refine ⟨(b.ptr, n), ?_, hh.trans hbh⟩
    exact List.mem_filterMap.mpr ⟨b, hb, by rw [hn]; rfl⟩
  · intro i hlo hhi
    rw [h.linked.head_slot hhi, onLevel_eq_nil]
    · rfl
    · intro t ht
      obtain ⟨b, hb, rfl⟩ := List.mem_map.mp ht
      exact le_trans (h.tallest.1 b hb) hlo
  · rw [h.liveKeys (A := []) rfl, List.pairwise_map]
    exact h.ascending

/-- A well-formed skiparray obeys the occupancy rules. -/
theorem SkipArray.Wf.occupied {cmp : K → K → ℤ} (h : sa.Wf cmp bs) :
    Occupied sa.nodeSize (sa.nodesOf bs) := by
  have hcount : ∀ b ∈ bs, ∀ n, sa.node? b.ptr = some n → Holds sa.toSettings n b := by
    intro b hb n hn
    obtain ⟨n', hn', hh⟩ := h.stores b hb
    rw [hn, Option.some.injEq] at hn'
    exact hn' ▸ hh
  refine ⟨?_, ?_, ?_⟩
  · intro x hx
    rcases List.eq_nil_or_concat bs with rfl | ⟨A, b, rfl⟩
    · cases hx
    · rw [List.concat_eq_append] at *
      obtain ⟨n, hn, -⟩ := h.stores b (by simp)
      rw [SkipArray.nodesOf_append, SkipArray.nodesOf_cons hn] at hx
      change x ∈ (sa.nodesOf A ++ [(b.ptr, n)]).dropLast at hx
      rw [List.dropLast_concat] at hx
      obtain ⟨a, ha, -, hna⟩ := mem_nodesOf hx
      rw [(hcount a (by simp [ha]) _ hna).count]
      exact h.shape.half a (by rw [List.dropLast_concat]; exact ha)
  · intro hlen x hx
    obtain ⟨b, hb, -, hn⟩ := mem_nodesOf hx
    rw [(h.linked.nodesOf_length (A := []) rfl).1] at hlen
    rw [(hcount b hb _ hn).count]
    intro hzero
    exact h.shape.nonempty hlen b hb (List.length_eq_zero_iff.mp hzero)
  · intro x hx
    obtain ⟨b, hb, -, hn⟩ := mem_nodesOf hx
    have hh := hcount b hb _ hn
    have hbound := hh.bound
    rw [hh.count, hh.offset]
    exact ⟨by omega, h.offset_lt b hb, hbound⟩

/-- The buffers of a sound skiparray have their full sizes. -/
theorem SkipArray.Sound.allocated {cmp : K → K → ℤ} (h : sa.Sound cmp bs) :
    ∀ x ∈ sa.nodesOf bs, Allocated sa.toSettings x.2 := by
  intro x hx
  obtain ⟨b, hb, -, hn⟩ := mem_nodesOf hx
  obtain ⟨n, hn', hh⟩ := h.stores b hb
  obtain ⟨m, hm, hmh, hmf⟩ := h.linked.alive b hb
  rw [hn, Option.some.injEq] at hn' hm
  subst hn' hm
  refine ⟨hh.keys.size_eq, ?_, hmf.trans hmh.symm⟩
  intro vs hvs
  cases hu : sa.useValues with
  | false =>
      rw [(hh.valuesNone hu).1] at hvs
      cases hvs
  | true =>
      obtain ⟨vs', hvs', hlive⟩ := hh.valuesSome hu
      rw [hvs, Option.some.injEq] at hvs'
      subst hvs'
      exact hlive.size_eq

end Nodes

/-! ## The invariants -/

section Main

variable [Inhabited K] [Inhabited V]

/-- Every reachable skiparray is a skip list. -/
theorem reachable_skipList {cb : Callbacks K U} {f : ℕ} {sa : SkipArray K V}
    (hc : LawfulCmp (cb.cmp f)) (h : Reachable cb f sa) : ∃ ns, SkipList (cb.cmp f) sa ns := by
  obtain ⟨-, bs, its, hco⟩ := h.coherent hc
  exact ⟨_, hco.toSound.skipList⟩

theorem reachable_skipList_flatSplit :
    ∃ ns, SkipList (Callbacks.plain.cmp 0) SkipArray.flatSplit ns :=
  reachable_skipList LawfulCmp.int_sub SkipArray.flatSplit_reachable

/-- The nodes of every reachable skiparray obey the occupancy rules. -/
theorem reachable_occupied {cb : Callbacks K U} {f : ℕ} {sa : SkipArray K V}
    (hc : LawfulCmp (cb.cmp f)) (h : Reachable cb f sa) :
    2 ≤ sa.nodeSize ∧ ∃ q ns, sa.nodes[0]? = some q ∧ sa.Follows 0 q ns ∧
      Occupied sa.nodeSize ns := by
  obtain ⟨-, bs, its, hco⟩ := h.coherent hc
  obtain ⟨q, hq, hfollow⟩ := hco.toSound.skipList.chain
  exact ⟨hco.settings.two_le, q, _, hq, hfollow, hco.toWf.occupied⟩

theorem reachable_occupied_flatSplit :
    2 ≤ SkipArray.flatSplit.nodeSize ∧ ∃ q ns, SkipArray.flatSplit.nodes[0]? = some q ∧
      SkipArray.flatSplit.Follows 0 q ns ∧ Occupied SkipArray.flatSplit.nodeSize ns :=
  reachable_occupied LawfulCmp.int_sub SkipArray.flatSplit_reachable

/-- No call on a reachable skiparray faults: all its asserts hold, and it stays
inside its buffers, which have the sizes that the model checks against. -/
theorem reachable_safe {cb : Callbacks K U} {f : ℕ} {sa : SkipArray K V}
    (hc : LawfulCmp (cb.cmp f)) (h : Reachable cb f sa) (hmax : sa.maxLevel ≤ maxMaxLevel)
    (c : Ctx K V U) (call : Call K V) :
    (∃ answer sa' c', sa.call cb c call = .ok (answer, sa', c')) ∧
      ∃ q ns, sa.nodes[0]? = some q ∧ sa.Follows 0 q ns ∧ ∀ x ∈ ns, Allocated sa.toSettings x.2 := by
  obtain ⟨rfl, bs, its, hco⟩ := h.coherent hc
  have hheight := hco.toSound.height_le
  unfold maxMaxLevel at hmax
  obtain ⟨answer, sa', c', l', hcall, -⟩ := call_spec hc hco.toWf c call fun _ _ _ => by omega
  obtain ⟨q, hq, hfollow⟩ := hco.toSound.skipList.chain
  exact ⟨⟨answer, sa', c', hcall⟩, q, _, hq, hfollow, hco.toSound.allocated⟩

/-- A split of the second node, a merge of both, and a walk over two levels. -/
theorem reachable_safe_flatSplit :
    (∃ answer sa' c', SkipArray.flatSplit.call Callbacks.plain (⟨(), 7, [], []⟩ : Ctx ℤ ℤ Unit)
      (.set 4 40) = .ok (answer, sa', c')) ∧
    (∃ answer sa' c', SkipArray.flatSplit.call Callbacks.plain (⟨(), 7, [], []⟩ : Ctx ℤ ℤ Unit)
      (.forget 1) = .ok (answer, sa', c')) ∧
    (∃ answer sa' c', SkipArray.flatSplit.call Callbacks.plain (⟨(), 7, [], []⟩ : Ctx ℤ ℤ Unit)
      .popLast = .ok (answer, sa', c')) ∧
    ∃ q ns, SkipArray.flatSplit.nodes[0]? = some q ∧ SkipArray.flatSplit.Follows 0 q ns ∧
      ∀ x ∈ ns, Allocated SkipArray.flatSplit.toSettings x.2 := by
  have hsafe := reachable_safe LawfulCmp.int_sub SkipArray.flatSplit_reachable (by decide)
    (⟨(), 7, [], []⟩ : Ctx ℤ ℤ Unit)
  exact ⟨(hsafe (.set 4 40)).1, (hsafe (.forget 1)).1, hsafe .popLast⟩

end Main

end Skiparray
