import Skiparray.Runs.Contents
import Skiparray.Runs.Levels

/-!
# Linking and unlinking, level by level

What `skiparray_set_with_pair` does to the chains when it splits a full node,
and what `unlink_node` does to them, both read off the heap: a chain is the list
of nodes met by following the pointers of one level.
-/

namespace Skiparray

open SkipLinks Fallible

variable {K V U : Type}

/-- On level `i` the pointers lead from the list head through `ps` to NULL. -/
def SkipArray.Chain (sa : SkipArray K V) (i : ℕ) (ps : List Ptr) : Prop :=
  ∃ q ns, sa.nodes[i]? = some q ∧ sa.Follows i q ns ∧ ns.map Prod.fst = ps

section Chain

variable {sa : SkipArray K V} {bs A C : List (Block K V)} {b : Block K V} {i : ℕ}
  {xs ys : List Ptr} {p : Ptr}

/-- There is one way to follow pointers. -/
theorem SkipArray.Follows.unique : ∀ {q : Option Ptr} {ns ms : List (Ptr × Node K V)},
    sa.Follows i q ns → sa.Follows i q ms → ns = ms
  | _, [], [], _, _ => rfl
  | _, [], (p, n) :: ms, hn, hm => by cases hn.symm.trans hm.1
  | _, (p, n) :: ns, [], hn, hm => by cases hm.symm.trans hn.1
  | _, (p, n) :: ns, (p', n') :: ms, hn, hm => by
      obtain ⟨hq, hnode, q₁, hq₁, hns⟩ := hn
      obtain ⟨hq', hnode', q₂, hq₂, hms⟩ := hm
      obtain rfl : p = p' := Option.some.inj (hq.symm.trans hq')
      obtain rfl : n = n' := Option.some.inj (hnode.symm.trans hnode')
      obtain rfl : q₁ = q₂ := Option.some.inj (hq₁.symm.trans hq₂)
      rw [hns.unique hms]

theorem SkipArray.Chain.unique (hx : sa.Chain i xs) (hy : sa.Chain i ys) : xs = ys := by
  obtain ⟨q, ns, hq, hns, rfl⟩ := hx
  obtain ⟨q', ms, hq', hms, rfl⟩ := hy
  obtain rfl : q = q' := Option.some.inj (hq.symm.trans hq')
  rw [hns.unique hms]

/-- The chains of linked blocks. -/
theorem SkipArray.Linked.chain (h : sa.Linked bs) (hi : i < sa.maxLevel) :
    sa.Chain i (onLevel i (towers bs)) := by
  refine ⟨_, _, h.head_slot hi, h.follows (A := []) rfl, ?_⟩
  have hmap : ∀ {A C : List (Block K V)}, bs = A ++ C →
      (sa.nodesOf (C.filter fun b => i < b.height)).map Prod.fst = onLevel i (towers C) := by
    intro A C
    induction C generalizing A with
    | nil => intro _; rfl
    | cons b C ih =>
        intro hsplit
        obtain ⟨n, hn, -⟩ := h.alive b (by simp [hsplit])
        have hrest := ih (A := A ++ [b]) (by simp [hsplit])
        by_cases hi : i < b.height
        · have hlt : i < (b.ptr, b.height).2 := hi
          rw [List.filter_cons_of_pos (by simpa using hi), SkipArray.nodesOf_cons hn, towers_cons,
            onLevel_cons_of_lt hlt, List.map_cons, hrest]
        · have hle : (b.ptr, b.height).2 ≤ i := Nat.le_of_not_lt hi
          rw [List.filter_cons_of_neg (by simpa using hi), towers_cons, onLevel_cons_of_le hle,
            hrest]
  exact hmap (A := []) rfl

theorem SkipArray.Linked.chain_zero (h : sa.Linked bs) (hpos : 0 < sa.maxLevel) :
    sa.Chain 0 (bs.map Block.ptr) := by
  have hchain := h.chain hpos
  rw [onLevel_zero, towers_fst] at hchain
  · exact hchain
  · intro t ht
    obtain ⟨b, hb, rfl⟩ := List.mem_map.mp ht
    exact (h.top b hb).1

/-- The block at a node of level 0. -/
theorem SkipArray.Linked.split_at (h : sa.Linked bs) (hpos : 0 < sa.maxLevel)
    (hchain : sa.Chain 0 (xs ++ p :: ys)) :
    ∃ A b C, bs = A ++ b :: C ∧ xs = A.map Block.ptr ∧ p = b.ptr ∧ ys = C.map Block.ptr := by
  have heq := (h.chain_zero hpos).unique hchain
  obtain ⟨A, B, rfl, rfl, hB⟩ := List.map_eq_append_iff.mp heq
  obtain ⟨b, C, rfl, rfl, rfl⟩ := List.map_eq_cons_iff.mp hB
  exact ⟨A, b, C, rfl, rfl, rfl, rfl⟩

theorem onLevel_sublist (bs : List (Block K V)) :
    (onLevel i (towers bs)).Sublist (bs.map Block.ptr) := by
  rw [← towers_fst]
  exact List.filter_sublist.map Prod.fst

end Chain

/-! ## Splitting a full node -/

/-- `sa'` is `sa` with a node `q` of height `height` put behind node `p` on every
level it reaches; `xs` and `ys` are the nodes before and after `p`. -/
structure LinkedBehind [Inhabited V] (sa : SkipArray K V) (xs : List Ptr) (p : Ptr) (ys : List Ptr)
    (q : Ptr) (height : ℕ) (sa' : SkipArray K V) : Prop where
  fresh : sa.node? q = none
  bottom : sa'.Chain 0 (xs ++ p :: q :: ys)
  level : ∀ i < sa.maxLevel, ∃ before after, sa.Chain i (before ++ after) ∧
    before.Sublist (xs ++ [p]) ∧ after.Sublist ys ∧
    (∀ n, sa.node? p = some n → i < n.height → before.getLast? = some p) ∧
    sa'.Chain i (if i < height then before ++ q :: after else before ++ after)
  node : ∃ m, sa'.node? q = some m ∧ m.height = height ∧ m.back = some p
  successor : ∀ s, ys.head? = some s → ∃ m, sa'.node? s = some m ∧ m.back = some q
  listHeight : sa'.height = max sa.height height
  contents : sa'.contents = sa.contents

section Split

variable [Inhabited K] [Inhabited V] {cmp : K → K → ℤ} {sa sa' : SkipArray K V}
  {A C : List (Block K V)} {b new : Block K V}

omit [Inhabited K] in
theorem SkipArray.Wf.linkedBehind (h : sa.Wf cmp (A ++ b :: C)) {b' : Block K V}
    (h' : sa'.Wf cmp (A ++ b' :: new :: C)) (hset : sa'.toSettings = sa.toSettings)
    (hb : b'.tower = b.tower) (hfresh : sa.node? new.ptr = none)
    (hpairs : bindings (A ++ b' :: new :: C) = bindings (A ++ b :: C)) :
    LinkedBehind sa (A.map Block.ptr) b.ptr (C.map Block.ptr) new.ptr new.height sa' := by
  have hmax : sa'.maxLevel = sa.maxLevel := congrArg Settings.maxLevel hset
  have hptr : b'.ptr = b.ptr := congrArg Prod.fst hb
  have hht : b'.height = b.height := congrArg Prod.snd hb
  refine ⟨hfresh, ?_, fun i hi => ?_, ?_, fun s hs => ?_, ?_, ?_⟩
  · have := h'.linked.chain_zero h'.settings.pos
    simpa [hptr] using this
  · refine ⟨onLevel i (towers (A ++ [b])), onLevel i (towers C), ?_, ?_, onLevel_sublist C, ?_, ?_⟩
    · have := h.linked.chain hi
      rwa [List.append_cons, towers_append, onLevel_append] at this
    · simpa using onLevel_sublist (i := i) (A ++ [b])
    · intro n hn hin
      obtain ⟨m, hm, hmh, -⟩ := h.linked.alive b (by simp)
      obtain rfl : n = m := Option.some.inj (hn.symm.trans hm)
      have hlt : i < (b.ptr, b.height).2 := by simpa [← hmh] using hin
      rw [towers_append, onLevel_append, towers_cons, towers_nil, onLevel_cons_of_lt hlt]
      simp
    · have hchain := h'.linked.chain (i := i) (by rw [hmax]; exact hi)
      have hAb : towers (A ++ [b']) = towers (A ++ [b]) := by simp [hptr, hht]
      rw [List.append_cons, towers_append, onLevel_append, hAb] at hchain
      by_cases hin : i < new.height
      · have hlt : i < (new.ptr, new.height).2 := hin
        rw [towers_cons, onLevel_cons_of_lt hlt] at hchain
        rw [if_pos hin]
        exact hchain
      · have hle : (new.ptr, new.height).2 ≤ i := Nat.le_of_not_lt hin
        rw [towers_cons, onLevel_cons_of_le hle] at hchain
        rw [if_neg hin]
        exact hchain
  · obtain ⟨m, hm, hmh, -⟩ := h'.linked.alive new (by simp)
    have hl := h'.linked
    rw [List.append_cons] at hl
    have hback := hl.back hm
    rw [List.map_append, List.getLast?_append] at hback
    exact ⟨m, hm, hmh, by simpa [hptr] using hback⟩
  · cases C with
    | nil => cases hs
    | cons c C =>
        cases hs
        obtain ⟨m, hm, -⟩ := h'.linked.alive c (by simp)
        have hl : sa'.Linked ((A ++ [b', new]) ++ c :: C) := by simpa using h'.linked
        refine ⟨m, hm, ?_⟩
        rw [hl.back hm, List.map_append, List.getLast?_append]
        rfl
  · refine le_antisymm ?_ (max_le ?_ (h'.tallest.1 new (by simp)))
    · obtain ⟨t, htm, hth⟩ := h'.tallest.2
      have hcases : t.height = b.height ∨ t ∈ A ++ C ∨ t = new := by
        rcases List.mem_append.mp htm with htm | htm
        · exact Or.inr (Or.inl (by simp [htm]))
        · rcases List.mem_cons.mp htm with rfl | htm
          · exact Or.inl hht
          · rcases List.mem_cons.mp htm with rfl | htm
            · exact Or.inr (Or.inr rfl)
            · exact Or.inr (Or.inl (by simp [htm]))
      have hle := forall_mem_middle.mp h.tallest.1
      rw [← hth]
      rcases hcases with heq | hmem | rfl
      · exact le_max_of_le_left (heq ▸ hle.1)
      · exact le_max_of_le_left (hle.2 t hmem)
      · exact le_max_right _ _
    · obtain ⟨t, htm, hth⟩ := h.tallest.2
      rw [← hth]
      rcases List.mem_append.mp htm with htm | htm
      · exact h'.tallest.1 t (by simp [htm])
      · rcases List.mem_cons.mp htm with rfl | htm
        · rw [← hht]
          exact h'.tallest.1 b' (by simp)
        · exact h'.tallest.1 t (by simp [htm])
  · rw [h.contents_eq, h'.contents_eq, hpairs]

omit [Inhabited K] [Inhabited V] in
/-- Every height up to `max_level` is drawn by some answer of the level callback. -/
theorem newHeight_onto {maxLevel height : ℕ} (hpos : 1 ≤ height) (hle : height ≤ maxLevel)
    (hlt : maxLevel < 256) : newHeight maxLevel ((height : ℤ) - 2) = height := by
  have hlevel : u8 ((height : ℤ) - 2 + 1) = height - 1 := by
    have := u8_of_lt (n := height - 1) (by omega)
    rw [← this]
    congr 1
    omega
  have hup : u8 (((height - 1 : ℕ) : ℤ) + 1) = height := by
    have := u8_of_lt (n := height) (by omega)
    rw [← this]
    congr 1
    omega
  rw [newHeight, hlevel, if_neg (by omega), hup]

/-- Splitting a full node links the new one right behind it on every level,
whatever the level callback answers, and some answer draws each height. -/
theorem split_relinks {cb : Callbacks K U} {bs : List (Block K V)}
    (hc : LawfulCmp (cb.cmp sa.cmp)) (h : sa.Wf (cb.cmp sa.cmp) bs) {xs ys : List Ptr} {p : Ptr}
    {n : Node K V} (hchain : sa.Chain 0 (xs ++ p :: ys)) (hn : sa.node? p = some n)
    (hfull : n.count = sa.nodeSize) (c : Ctx K V U) (index : ℕ) :
    (∀ height : ℕ, 1 ≤ height → height ≤ sa.maxLevel →
      newHeight sa.maxLevel ((height : ℤ) - 2) = height) ∧
    ∃ r sa' c', splitAndLink cb sa c (some p) index = .ok (r, sa', c') ∧
      (cb.AllGranted → r ≠ none) ∧
      (r ≠ none → LinkedBehind sa xs p ys sa.heap.length
        (newHeight sa.maxLevel (sa.nextLevel cb c)) sa') := by
  refine ⟨fun height hpos hle => newHeight_onto hpos hle h.settings.maxLevel_lt, ?_⟩
  obtain ⟨A, b, C, rfl, rfl, rfl, rfl⟩ := h.linked.split_at h.settings.pos hchain
  obtain ⟨m, hm, hh⟩ := h.stores b (by simp)
  obtain rfl : n = m := Option.some.inj (hn.symm.trans hm)
  rw [hh.count] at hfull
  obtain ⟨r, sa', c', hsplit, -, hkeep, hgrant, -, hsome⟩ :=
    splitAndLink_spec cb c hc h hfull index rfl
  refine ⟨r, sa', c', hsplit, hgrant, ?_⟩
  intro hr
  obtain ⟨place, rfl⟩ := Option.ne_none_iff_exists'.mp hr
  obtain ⟨-, -, hwf, -⟩ := hsome place rfl
  have hfresh : sa.node? sa.heap.length = none := by simp [SkipArray.node?]
  exact h.linkedBehind hwf hkeep.settings rfl hfresh (bindings_halves b _ _)

end Split

/-- The second of two nodes is full. -/
theorem split_relinks_flatSplit :
    ∃ r sa' c', splitAndLink Callbacks.plain SkipArray.flatSplit ⟨(), 7, [], []⟩ (some 1) 2 =
        .ok (r, sa', c') ∧
      LinkedBehind SkipArray.flatSplit [0] 1 [] 2
        (newHeight 2 (SkipArray.flatSplit.nextLevel Callbacks.plain
          (⟨(), 7, [], []⟩ : Ctx ℤ ℤ Unit))) sa' := by
  obtain ⟨-, bs, its, hco⟩ := SkipArray.flatSplit_reachable.coherent LawfulCmp.int_sub
  have hchain : SkipArray.flatSplit.Chain 0 ([0] ++ 1 :: []) :=
    ⟨some 0, [(0, _), (1, _)], rfl, ⟨rfl, rfl, _, rfl, rfl, rfl, _, rfl, rfl⟩, rfl⟩
  obtain ⟨-, r, sa', c', hsplit, hgrant, hlink⟩ :=
    split_relinks LawfulCmp.int_sub hco.toWf hchain rfl rfl (⟨(), 7, [], []⟩ : Ctx ℤ ℤ Unit) 2
  exact ⟨r, sa', c', hsplit, hlink (hgrant fun _ => rfl)⟩

/-! ## Unlinking a node -/

/-- `n` with its pointers to the node `dead` at `p` led past it. -/
def Node.bypass (n : Node K V) (p : Ptr) (dead : Node K V) : Node K V :=
  { n with
    back := if n.back = some p then dead.back else n.back
    fwd := n.fwd.mapIdx fun i q => if q = some p then dead.fwd[i]?.join else q }

/-- `sa'` is `sa` without its node `p`; `xs` and `ys` are the nodes before and
after it. -/
structure Unlinked (sa : SkipArray K V) (xs : List Ptr) (p : Ptr) (ys : List Ptr)
    (sa' : SkipArray K V) : Prop where
  chain : sa.Chain 0 (xs ++ p :: ys)
  level : ∀ i < sa.maxLevel, ∀ ps, sa.Chain i ps → sa'.Chain i (ps.filter (· ≠ p))
  successor : ∀ s, ys.head? = some s → ∃ m, sa'.node? s = some m ∧ m.back = xs.getLast?
  heads : ∀ i : ℕ, sa.nodes[i]? = some (some p) →
    ∃ n, sa.node? p = some n ∧ sa'.nodes[i]? = n.fwd[i]?
  others : ∀ q ∈ xs ++ ys, ∀ m n, sa.node? q = some m → sa.node? p = some n →
    sa'.node? q = some (m.bypass p n)
  listHeight : (∀ q ∈ xs ++ ys, ∃ m, sa'.node? q = some m ∧ m.height ≤ sa'.height) ∧
    ∃ q ∈ xs ++ ys, ∃ m, sa'.node? q = some m ∧ m.height = sa'.height
  freed : sa'.node? p = none

section Links

variable {sa sa' : SkipArray K V} {bs A C : List (Block K V)} {b dead : Block K V} {i : ℕ}
  {us vs xs ys : List Ptr} {p q : Ptr} {n m : Node K V}

theorem SkipArray.Follows.fwd : ∀ {us : List Ptr} {h : Option Ptr} {ns : List (Ptr × Node K V)},
    sa.Follows i h ns → ns.map Prod.fst = us ++ q :: vs →
      ∃ n, sa.node? q = some n ∧ n.fwd[i]? = some vs.head?
  | _, _, [], _, heq => by simp at heq
  | [], _, (p, n) :: ns, ⟨_, hn, q', hq', hf⟩, heq => by
      simp only [List.map_cons, List.nil_append, List.cons.injEq] at heq
      obtain ⟨rfl, rfl⟩ := heq
      refine ⟨n, hn, hq'.trans ?_⟩
      cases ns with
      | nil => rw [hf]; rfl
      | cons x ns => rw [hf.1]; rfl
  | u :: us, _, (p, n) :: ns, ⟨_, _, _, _, hf⟩, heq => by
      simp only [List.map_cons, List.cons_append, List.cons.injEq] at heq
      exact hf.fwd heq.2

/-- A forward pointer leads to the next node of the chain. -/
theorem SkipArray.Chain.fwd (h : sa.Chain i (us ++ q :: vs)) :
    ∃ n, sa.node? q = some n ∧ n.fwd[i]? = some vs.head? := by
  obtain ⟨h₀, ns, -, hf, hns⟩ := h
  exact hf.fwd hns

theorem SkipArray.Chain.head (h : sa.Chain i us) : sa.nodes[i]? = some us.head? := by
  obtain ⟨q, ns, hq, hf, rfl⟩ := h
  rw [hq]
  cases ns with
  | nil => rw [hf]; rfl
  | cons x ns => rw [hf.1]; rfl

/-- What follows a node once `p` is left out. -/
theorem head?_filter_ne (hnd : (us ++ q :: vs).Nodup) :
    (vs.filter (· ≠ p)).head? = if vs.head? = some p then vs.tail.head? else vs.head? := by
  cases vs with
  | nil => simp
  | cons v vs =>
      by_cases hv : v = p
      · subst hv
        have hnot : v ∉ vs := by
          have := (List.nodup_append.mp hnd).2.1
          simp only [List.nodup_cons] at this
          exact this.2.1
        have hall : vs.filter (· ≠ v) = vs := by
          rw [List.filter_eq_self]
          intro w hw
          simpa using fun heq : w = v => hnot (heq ▸ hw)
        rw [List.filter_cons_of_neg (by simp), hall]
        simp
      · rw [List.filter_cons_of_pos (by simpa using hv)]
        simp [hv]

/-- Leaving a node out of every chain sends the pointers to it past it. -/
theorem SkipArray.Chain.bypass (h : sa.Chain i (us ++ q :: vs)) (hnd : (us ++ q :: vs).Nodup)
    (hn : sa.node? p = some n) (hq : q ≠ p)
    (h' : sa'.Chain i ((us ++ q :: vs).filter (· ≠ p))) :
    ∃ m m', sa.node? q = some m ∧ sa'.node? q = some m' ∧
      m'.fwd[i]? = m.fwd[i]?.map fun r => if r = some p then n.fwd[i]?.join else r := by
  obtain ⟨m, hm, hfwd⟩ := h.fwd
  rw [List.filter_append, List.filter_cons_of_pos (by simpa using hq)] at h'
  obtain ⟨m', hm', hfwd'⟩ := h'.fwd
  refine ⟨m, m', hm, hm', ?_⟩
  rw [hfwd', hfwd, head?_filter_ne hnd, Option.map_some]
  by_cases hp : vs.head? = some p
  · obtain ⟨ws, rfl⟩ := List.head?_eq_some_iff.mp hp
    rw [List.append_cons] at h
    obtain ⟨k, hk, hfk⟩ := h.fwd
    obtain rfl : n = k := Option.some.inj (hn.symm.trans hk)
    rw [if_pos hp, if_pos hp, hfk]
    rfl
  · rw [if_neg hp, if_neg hp]

/-- A node's back pointer is the node before it. -/
theorem SkipArray.Linked.back_at (h : sa.Linked bs) (hbs : bs.map Block.ptr = us ++ q :: vs)
    (hn : sa.node? q = some n) : n.back = us.getLast? := by
  obtain ⟨A, B, rfl, rfl, hB⟩ := List.map_eq_append_iff.mp hbs
  obtain ⟨b, C, rfl, rfl, rfl⟩ := List.map_eq_cons_iff.mp hB
  exact h.back hn

theorem onLevel_filter_ne (hnd : ((A ++ b :: dead :: C).map Block.ptr).Nodup) :
    (onLevel i (towers (A ++ b :: dead :: C))).filter (· ≠ dead.ptr) =
      onLevel i (towers (A ++ b :: C)) := by
  have hne : ∀ x ∈ A ++ b :: C, x.ptr ≠ dead.ptr := by
    intro x hx heq
    rw [List.append_cons, List.map_append, List.map_cons, List.nodup_middle, List.nodup_cons,
      ← List.map_append, ← List.append_cons] at hnd
    exact hnd.1 (List.mem_map.mpr ⟨x, hx, heq⟩)
  have hkeep : ∀ B : List (Block K V), (∀ x ∈ B, x ∈ A ++ b :: C) →
      (onLevel i (towers B)).filter (· ≠ dead.ptr) = onLevel i (towers B) := by
    intro B hB
    rw [List.filter_eq_self]
    intro r hr
    obtain ⟨x, hx, rfl⟩ := List.mem_map.mp ((onLevel_sublist B).subset hr)
    simpa using hne x (hB x hx)
  have hA := hkeep (A ++ [b]) (by simp; tauto)
  have hC := hkeep C (by simp; tauto)
  rw [List.append_cons, List.append_cons A b C, towers_append, towers_append (A ++ [b]) C,
    onLevel_append, onLevel_append, List.filter_append, hA]
  congr 1
  by_cases hi : i < dead.height
  · have hlt : i < (dead.ptr, dead.height).2 := hi
    rw [towers_cons, onLevel_cons_of_lt hlt, List.filter_cons_of_neg (by simp), hC]
  · have hle : (dead.ptr, dead.height).2 ≤ i := Nat.le_of_not_lt hi
    rw [towers_cons, onLevel_cons_of_le hle, hC]

theorem Node.eq_bypass {k : Node K V} (hpay : m.payload = n.payload)
    (hback : m.back = if n.back = some p then k.back else n.back)
    (hfwd : ∀ i : ℕ, m.fwd[i]? = n.fwd[i]?.map fun r => if r = some p then k.fwd[i]?.join else r) :
    m = n.bypass p k := by
  have hlist : m.fwd = n.fwd.mapIdx fun i r => if r = some p then k.fwd[i]?.join else r := by
    ext1 i
    rw [hfwd, List.getElem?_mapIdx]
  obtain ⟨height, offset, count, keys, values, back, fwd, block, keysBlock, valuesBlock⟩ := m
  simp only [Node.payload, Node.mk.injEq] at hpay
  obtain ⟨rfl, rfl, rfl, rfl, rfl, -, -, rfl, rfl, rfl⟩ := hpay
  simp only at hback hlist
  rw [Node.bypass, hback, hlist]

/-- The back pointers of the other nodes once `p` is left out. -/
theorem SkipArray.Linked.back_bypass {bs' : List (Block K V)} {k m' : Node K V} (h : sa.Linked bs)
    (h' : sa'.Linked bs') (hbs : bs.map Block.ptr = xs ++ p :: ys)
    (hbs' : bs'.map Block.ptr = xs ++ ys) (hq : q ∈ xs ++ ys) (hm : sa.node? q = some m)
    (hm' : sa'.node? q = some m') (hk : sa.node? p = some k) :
    m'.back = if m.back = some p then k.back else m.back := by
  have hnd := h.ptr_nodup
  rw [hbs] at hnd
  have hp := (List.nodup_cons.mp (List.nodup_middle.mp hnd)).1
  rcases List.mem_append.mp hq with hq | hq
  · obtain ⟨us, vs, rfl⟩ := List.append_of_mem hq
    have hback := h.back_at
      (show bs.map Block.ptr = us ++ q :: (vs ++ p :: ys) by simp [hbs]) hm
    have hback' := h'.back_at
      (show bs'.map Block.ptr = us ++ q :: (vs ++ ys) by simp [hbs']) hm'
    have hlast : us.getLast? ≠ some p := fun heq => hp (by simp [List.mem_of_getLast? heq])
    rw [hback', hback, if_neg hlast]
  · obtain ⟨us, vs, rfl⟩ := List.append_of_mem hq
    have hback := h.back_at
      (show bs.map Block.ptr = (xs ++ p :: us) ++ q :: vs by simp [hbs]) hm
    have hback' := h'.back_at
      (show bs'.map Block.ptr = (xs ++ us) ++ q :: vs by simp [hbs']) hm'
    rw [hback', hback, h.back_at hbs hk]
    rcases List.eq_nil_or_concat us with rfl | ⟨ws, w, rfl⟩
    · simp
    · have hw : w ≠ p := by
        rintro rfl
        exact hp (by simp)
      rw [List.concat_eq_append, ← List.append_assoc, ← List.cons_append, ← List.append_assoc,
        List.getLast?_concat, List.getLast?_concat, if_neg (by simpa using hw)]

/-- Two lists of linked blocks that differ in `dead` only, over the same payloads. -/
theorem SkipArray.Linked.unlinked {s : SkipArray K V} (h : sa.Linked (A ++ b :: dead :: C))
    (hpos : 0 < sa.maxLevel) (hlo : LinkOnly sa s)
    (h' : (s.clearNode dead.ptr).Linked (A ++ b :: C))
    (ht : (s.clearNode dead.ptr).Tallest (A ++ b :: C)) :
    Unlinked sa ((A ++ [b]).map Block.ptr) dead.ptr (C.map Block.ptr) (s.clearNode dead.ptr) := by
  have hmax : (s.clearNode dead.ptr).maxLevel = sa.maxLevel :=
    congrArg Settings.maxLevel hlo.settings
  have hlevel : ∀ i < sa.maxLevel, ∀ ps, sa.Chain i ps →
      (s.clearNode dead.ptr).Chain i (ps.filter (· ≠ dead.ptr)) := by
    intro i hi ps hps
    rw [hps.unique (h.chain hi), onLevel_filter_ne h.ptr_nodup]
    exact h'.chain (by rw [hmax]; exact hi)
  have hptrs : (A ++ b :: dead :: C).map Block.ptr =
      (A ++ [b]).map Block.ptr ++ dead.ptr :: C.map Block.ptr := by simp
  have hptrs' : (A ++ b :: C).map Block.ptr = (A ++ [b]).map Block.ptr ++ C.map Block.ptr := by simp
  have hnd := h.ptr_nodup
  rw [hptrs] at hnd
  have hne : ∀ q ∈ (A ++ [b]).map Block.ptr ++ C.map Block.ptr, q ≠ dead.ptr := by
    rintro q hq rfl
    exact (List.nodup_cons.mp (List.nodup_middle.mp hnd)).1 hq
  have hblock : ∀ q ∈ (A ++ [b]).map Block.ptr ++ C.map Block.ptr, ∃ x ∈ A ++ b :: C,
      x ∈ A ++ b :: dead :: C ∧ q = x.ptr := by
    intro q hq
    rw [← hptrs'] at hq
    obtain ⟨x, hx, rfl⟩ := List.mem_map.mp hq
    refine ⟨x, hx, ?_, rfl⟩
    rcases List.mem_append.mp hx with hx | hx
    · simp [hx]
    · rcases List.mem_cons.mp hx with rfl | hx <;> simp [*]
  refine ⟨hptrs ▸ h.chain_zero hpos, hlevel, ?_, ?_, ?_, ⟨?_, ?_⟩, ?_⟩
  · intro q hq
    obtain ⟨ys, hys⟩ := List.head?_eq_some_iff.mp hq
    obtain ⟨x, hx, -, rfl⟩ := hblock q (by rw [hys]; simp)
    obtain ⟨m, hm, -⟩ := h'.alive x hx
    exact ⟨m, hm, h'.back_at (hptrs'.trans (by rw [hys])) hm⟩
  · intro i hi
    obtain ⟨n, hn, -⟩ := h.alive dead (by simp)
    refine ⟨n, hn, ?_⟩
    have him : i < sa.maxLevel := by
      rw [← h.nodesLen]
      exact (List.getElem?_eq_some_iff.mp hi).1
    have hchain := h.chain him
    have hhead : (onLevel i (towers (A ++ b :: dead :: C))).head? = some dead.ptr :=
      Option.some.inj (hchain.head.symm.trans hi)
    obtain ⟨vs, hvs⟩ := List.head?_eq_some_iff.mp hhead
    have hnd' := h.spells.nodup_onLevel i
    rw [hvs] at hchain hnd'
    obtain ⟨k, hk, hfwd⟩ := (show sa.Chain i ([] ++ dead.ptr :: vs) from hchain).fwd
    obtain rfl : n = k := Option.some.inj (hn.symm.trans hk)
    have hnew := (hlevel i him _ hchain).head
    rw [hnew, hfwd, List.filter_cons_of_neg (by simp), List.filter_eq_self.mpr]
    intro r hr
    simpa using fun heq : r = dead.ptr => (List.nodup_cons.mp hnd').1 (heq ▸ hr)
  · intro q hq m n hm hn
    obtain ⟨x, hx, hx', rfl⟩ := hblock q hq
    obtain ⟨m', hm', hh', hlen'⟩ := h'.alive x hx
    obtain ⟨k, hk, hh, hlen⟩ := h.alive x hx'
    obtain rfl : m = k := Option.some.inj (hm.symm.trans hk)
    rw [hm', Option.some.injEq]
    have hpay : m'.payload = m.payload := by
      have := hlo.payload x.ptr
      rw [SkipArray.node?_clearNode_ne (hne _ hq)] at hm'
      rw [hm', hm] at this
      exact Option.some.inj this
    refine Node.eq_bypass hpay ?_ fun i => ?_
    · exact h.back_bypass h' hptrs hptrs' hq hm hm' hn
    · by_cases hi : i < x.height
      · have him : i < sa.maxLevel := lt_of_lt_of_le hi (h.top x hx').2
        have hmem : x.ptr ∈ onLevel i (towers (A ++ b :: dead :: C)) := by
          refine List.mem_map.mpr ⟨x.tower, ?_, rfl⟩
          rw [List.mem_filter]
          exact ⟨List.mem_map_of_mem hx', decide_eq_true hi⟩
        obtain ⟨us, vs, hsplit⟩ := List.append_of_mem hmem
        have hchain := h.chain him
        have hnd' := h.spells.nodup_onLevel i
        rw [hsplit] at hchain hnd'
        obtain ⟨m₁, m₂, hm₁, hm₂, hfwd⟩ := hchain.bypass hnd' hn (hne _ hq) (hlevel i him _ hchain)
        obtain rfl : m = m₁ := Option.some.inj (hm.symm.trans hm₁)
        obtain rfl : m' = m₂ := Option.some.inj (hm'.symm.trans hm₂)
        exact hfwd
      · have hend : m.fwd[i]? = none := List.getElem?_eq_none (by omega)
        have hend' : m'.fwd[i]? = none := List.getElem?_eq_none (by omega)
        rw [hend, hend']
        rfl
  · intro q hq
    obtain ⟨x, hx, -, rfl⟩ := hblock q hq
    obtain ⟨m, hm, hh, -⟩ := h'.alive x hx
    exact ⟨m, hm, hh ▸ ht.1 x hx⟩
  · obtain ⟨x, hx, hxh⟩ := ht.2
    obtain ⟨m, hm, hh, -⟩ := h'.alive x hx
    refine ⟨x.ptr, ?_, m, hm, hh.trans hxh⟩
    rw [← hptrs']
    exact List.mem_map_of_mem hx
  · simp only [SkipArray.node?, SkipArray.clearNode, List.getElem?_set_self', Option.map_eq_map]
    cases s.heap[dead.ptr]? <;> rfl

end Links

/-! ### The keys of the node that leaves -/

/-- `sa` with other keys in the buffer of the node at `p`. -/
def SkipArray.withKeys (sa : SkipArray K V) (p : Ptr) (keys : List K) : SkipArray K V :=
  { sa with heap := sa.heap.modify p (Option.map fun n => { n with keys }) }

section Keys

variable {cmp : K → K → ℤ} {sa sa' t : SkipArray K V} {p q : Ptr} {keys : List K} {n : Node K V}

theorem SkipArray.withKeys_withKeys (keys' : List K) :
    (sa.withKeys p keys).withKeys p keys' = sa.withKeys p keys' := by
  have hcomp : ((Option.map fun n : Node K V => { n with keys := keys' }) ∘
      Option.map fun n : Node K V => { n with keys }) =
        Option.map fun n : Node K V => { n with keys := keys' } := by
    funext n
    cases n <;> rfl
  simp only [SkipArray.withKeys, List.modify_modify_eq, hcomp]

theorem SkipArray.node?_withKeys : (sa.withKeys p keys).node? q =
    (sa.node? q).map fun n => if q = p then { n with keys } else n := by
  by_cases hq : q = p
  · subst hq
    simp only [SkipArray.node?, SkipArray.withKeys, List.getElem?_modify_eq, if_true]
    cases sa.heap[q]? <;> rfl
  · simp only [SkipArray.node?, SkipArray.withKeys, if_neg hq, Option.map_id']
    rw [List.getElem?_modify_ne _ _ (Ne.symm hq)]

theorem SkipArray.load_withKeys (r : Option Ptr) : (sa.withKeys p keys).load r =
    (sa.load r).map fun n => if r = some p then { n with keys } else n := by
  cases r with
  | none => rfl
  | some q =>
      simp only [SkipArray.load, SkipArray.node?_withKeys, Option.some.injEq]
      cases sa.node? q <;> rfl

theorem SkipArray.setNode_withKeys (sa : SkipArray K V) (p q : Ptr) (keys : List K)
    (m : Node K V) : (sa.withKeys p keys).setNode q
    (if q = p then { m with keys } else m) = (sa.setNode q m).withKeys p keys := by
  have hheap : (sa.heap.modify p (Option.map fun n => { n with keys })).set q
      (some (if q = p then { m with keys } else m)) =
        (sa.heap.set q (some m)).modify p (Option.map fun n => { n with keys }) := by
    ext1 i
    by_cases hi : q = i
    · subst hi
      rw [List.getElem?_set_self']
      by_cases hq : q = p
      · subst hq
        rw [List.getElem?_modify_eq, List.getElem?_modify_eq, List.getElem?_set_self', if_pos rfl]
        cases sa.heap[q]? <;> rfl
      · rw [List.getElem?_modify_ne _ _ (Ne.symm hq), List.getElem?_modify_ne _ _ (Ne.symm hq),
          List.getElem?_set_self', if_neg hq]
    · rw [List.getElem?_set_ne hi, List.getElem?_modify, List.getElem?_modify,
        List.getElem?_set_ne hi]
  simp only [SkipArray.setNode, SkipArray.withKeys, hheap]

theorem SkipArray.fwdAt_withKeys (r : Option Ptr) (i : ℕ) :
    (sa.withKeys p keys).fwdAt r i = sa.fwdAt r i := by
  rw [SkipArray.fwdAt, SkipArray.fwdAt, SkipArray.load_withKeys]
  cases sa.load r with
  | error e => rfl
  | ok n =>
      by_cases hr : r = some p
      · simp only [hr, Except.map, if_true, ok_bind]
      · simp only [hr, Except.map, if_false, ok_bind]

theorem SkipArray.setFwd_withKeys (r : Option Ptr) (i : ℕ) (x : Option Ptr) :
    (sa.withKeys p keys).setFwd r i x = (sa.setFwd r i x).map fun s => s.withKeys p keys := by
  rw [SkipArray.setFwd, SkipArray.setFwd, SkipArray.load_withKeys]
  cases r with
  | none => rfl
  | some q =>
      cases sa.load (some q) with
      | error e => rfl
      | ok n =>
          have hset := fun fwd => sa.setNode_withKeys p q keys { n with fwd }
          simp only [Except.map, ok_bind, Option.some.injEq, SkipArray.store]
          by_cases hq : q = p
          · simp only [if_pos hq] at hset ⊢
            cases putSlot n.fwd i x with
            | error e => rfl
            | ok fwd => simp only [ok_bind, hset]
          · simp only [if_neg hq] at hset ⊢
            cases putSlot n.fwd i x with
            | error e => rfl
            | ok fwd => simp only [ok_bind, hset]

theorem SkipArray.setBack_withKeys (r : Option Ptr) (x : Option Ptr) :
    (sa.withKeys p keys).setBack r x = (sa.setBack r x).map fun s => s.withKeys p keys := by
  rw [SkipArray.setBack, SkipArray.setBack, SkipArray.load_withKeys]
  cases r with
  | none => rfl
  | some q =>
      cases sa.load (some q) with
      | error e => rfl
      | ok n =>
          have hset := sa.setNode_withKeys p q keys { n with back := x }
          simp only [Except.map, ok_bind, Option.some.injEq, SkipArray.store]
          by_cases hq : q = p
          · simp only [if_pos hq] at hset ⊢
            rw [hset]
          · simp only [if_neg hq] at hset ⊢
            rw [hset]

theorem SkipArray.setHead_withKeys (i : ℕ) (x : Option Ptr) :
    (sa.withKeys p keys).setHead i x = (sa.setHead i x).map fun s => s.withKeys p keys := by
  rw [SkipArray.setHead, SkipArray.setHead]
  change (putSlot sa.nodes i x >>= _) = _
  cases putSlot sa.nodes i x <;> rfl

theorem unlinkHeads_withKeys : ∀ {k : ℕ} {sa : SkipArray K V}, unlinkHeads p k (sa.withKeys p keys) =
    (unlinkHeads p k sa).map fun s => s.withKeys p keys
  | 0, sa => rfl
  | k + 1, sa => by
      rw [unlinkHeads, unlinkHeads]
      change (sa.headAt k >>= _) = _
      cases sa.headAt k with
      | error e => rfl
      | ok head =>
          simp only [ok_bind, SkipArray.fwdAt_withKeys, SkipArray.setHead_withKeys]
          by_cases hh : head = some p
          · rw [if_pos hh, if_pos hh]
            cases sa.fwdAt (some p) k with
            | error e => rfl
            | ok q =>
                simp only [ok_bind]
                cases sa.setHead k q with
                | error e => rfl
                | ok s => exact unlinkHeads_withKeys
          · rw [if_neg hh, if_neg hh]
            exact unlinkHeads_withKeys

theorem Node.lastKey_nil (h : n.keys = []) : n.lastKey = .error .bounds := by
  unfold Node.lastKey slot
  split_ifs <;> simp [h]

theorem SkipArray.load_withKeys_ne (sa : SkipArray K V) (keys : List K) {r : Option Ptr}
    (hr : r ≠ some p) :
    (sa.withKeys p keys).load r = sa.load r := by
  rw [SkipArray.load_withKeys]
  simp only [if_neg hr]
  cases sa.load r <;> rfl

/-- A comparison that does not fault over an empty key buffer does not look at it. -/
theorem cmpNearest_withKeys {nearest r : Option Ptr} {index : ℕ} {res : ℤ}
    (hnear : nearest ≠ some p)
    (h : cmpNearest cmp (sa.withKeys p []) nearest index r = .ok res) :
    cmpNearest cmp sa nearest index r = .ok res := by
  have hr : r ≠ some p := by
    rintro rfl
    obtain ⟨n, hn, hrest⟩ := bind_eq_ok.mp h
    obtain ⟨k, hk, -⟩ := bind_eq_ok.mp hrest
    rw [SkipArray.load_withKeys] at hn
    simp only [if_true] at hn
    cases hload : sa.load (some p) with
    | error e =>
        rw [hload] at hn
        cases hn
    | ok m =>
        rw [hload] at hn
        cases hn
        rw [Node.lastKey_nil rfl] at hk
        cases hk
  rw [cmpNearest, SkipArray.load_withKeys_ne sa [] hr, SkipArray.load_withKeys_ne sa [] hnear] at h
  exact h

/-- The walk of `unlink_node` takes the same steps whatever keys the node holds,
if it does not fault when there are none. -/
theorem unlinkLoop_withKeys {nearest : Option Ptr} {index : ℕ} {cond : ℤ}
    (hnear : nearest ≠ some p) :
    ∀ {fuel level : ℕ} {cur : Option Ptr} {sa t : SkipArray K V},
      unlinkLoop cmp p nearest index cond fuel level cur (sa.withKeys p []) = .ok t →
      ∃ s, unlinkLoop cmp p nearest index cond fuel level cur sa = .ok s ∧ t = s.withKeys p []
  | 0, _, _, _, _, h => by cases h
  | fuel + 1, 0, cur, sa, t, h => ⟨sa, rfl, (Except.ok.inj h).symm⟩
  | fuel + 1, level + 1, cur, sa, t, h => by
      obtain ⟨before, hbefore, hrest⟩ := bind_eq_ok.mp h
      have hbefore' : (if cur = none then do
            let head ← sa.headAt level
            check (head ≠ none)
            let res ← cmpNearest cmp sa nearest index head
            if res < cond then pure head else pure none
          else pure cur) = Except.ok (ε := Fault) before := by
        by_cases hcur : cur = none
        · rw [if_pos hcur] at hbefore ⊢
          obtain ⟨head, hhead, hb⟩ := bind_eq_ok.mp hbefore
          obtain ⟨u, hu, hb⟩ := bind_eq_ok.mp hb
          obtain ⟨res, hres, hb⟩ := bind_eq_ok.mp hb
          exact bind_eq_ok.mpr ⟨head, hhead, bind_eq_ok.mpr ⟨u, hu,
            bind_eq_ok.mpr ⟨res, cmpNearest_withKeys hnear hres, hb⟩⟩⟩
        · rw [if_neg hcur] at hbefore ⊢
          exact hbefore
      rw [unlinkLoop, hbefore', ok_bind]
      by_cases hnone : before = none
      · rw [if_pos hnone] at hrest ⊢
        exact unlinkLoop_withKeys hnear hrest
      rw [if_neg hnone] at hrest ⊢
      obtain ⟨next, hnext, hrest⟩ := bind_eq_ok.mp hrest
      rw [SkipArray.fwdAt_withKeys] at hnext
      rw [hnext, ok_bind]
      by_cases hend : next = none
      · rw [if_pos hend] at hrest ⊢
        exact unlinkLoop_withKeys hnear hrest
      rw [if_neg hend] at hrest ⊢
      by_cases hdead : next = some p
      · rw [if_pos hdead] at hrest ⊢
        obtain ⟨nfwd, hnfwd, hrest⟩ := bind_eq_ok.mp hrest
        rw [SkipArray.fwdAt_withKeys] at hnfwd
        rw [hnfwd, ok_bind]
        obtain ⟨t₁, h₁, hrest⟩ := bind_eq_ok.mp hrest
        rw [SkipArray.setFwd_withKeys] at h₁
        cases hs₁ : sa.setFwd before level nfwd with
        | error e =>
            rw [hs₁] at h₁
            cases h₁
        | ok s₁ =>
            rw [hs₁] at h₁
            cases h₁
            rw [ok_bind]
            by_cases hback : nfwd ≠ none ∧ level = 0
            · rw [if_pos hback, SkipArray.setBack_withKeys] at hrest
              rw [if_pos hback]
              cases hs₂ : s₁.setBack nfwd before with
              | error e =>
                  rw [hs₂] at hrest
                  cases hrest
              | ok s₂ =>
                  rw [hs₂] at hrest
                  exact unlinkLoop_withKeys hnear hrest
            · rw [if_neg hback] at hrest ⊢
              exact unlinkLoop_withKeys hnear hrest
      · rw [if_neg hdead] at hrest ⊢
        obtain ⟨res, hres, hrest⟩ := bind_eq_ok.mp hrest
        rw [cmpNearest_withKeys hnear hres, ok_bind]
        by_cases hlt : res < cond
        · rw [if_pos hlt] at hrest ⊢
          exact unlinkLoop_withKeys hnear hrest
        · rw [if_neg hlt] at hrest ⊢
          exact unlinkLoop_withKeys hnear hrest

theorem nodeFree_withKeys (c : Ctx K V U) :
    nodeFree (sa.withKeys p keys) (some p) c = nodeFree sa (some p) c := by
  have hheap : (sa.heap.modify p (Option.map fun n => { n with keys })).set p none =
      sa.heap.set p none := by
    ext1 i
    by_cases hi : p = i
    · subst hi
      rw [List.getElem?_set_self', List.getElem?_set_self', List.getElem?_modify_eq]
      cases sa.heap[p]? <;> rfl
    · rw [List.getElem?_set_ne hi, List.getElem?_set_ne hi, List.getElem?_modify_ne _ _ hi]
  rw [nodeFree, nodeFree, SkipArray.load_withKeys]
  simp only [if_true]
  cases sa.load (some p) with
  | error e => rfl
  | ok n => simp only [Except.map, ok_bind, SkipArray.withKeys, hheap, Node.blocks]

/-- So does `unlink_node` as a whole. -/
theorem unlinkNode_withKeys {c c' : Ctx K V U} (hn : sa.node? p = some n)
    (hback : n.back = some q) (hq : q ≠ p)
    (h : unlinkNode cmp (sa.withKeys p []) c p = .ok (t, c')) :
    unlinkNode cmp sa c p = .ok (t, c') := by
  have hload : (sa.withKeys p []).load (some p) = .ok { n with keys := [] } := by
    rw [SkipArray.load_withKeys, SkipArray.load_eq hn]
    simp [Except.map]
  rw [unlinkNode, hload, ok_bind] at h
  rw [unlinkNode, SkipArray.load_eq hn, ok_bind]
  obtain ⟨first, hfirst, h⟩ := bind_eq_ok.mp h
  obtain ⟨next, hnext, h⟩ := bind_eq_ok.mp h
  obtain ⟨u, hcheck, h⟩ := bind_eq_ok.mp h
  have hfirst' : sa.headAt 0 = .ok first := hfirst
  rw [SkipArray.fwdAt_withKeys] at hnext
  rw [hfirst', ok_bind, hnext, ok_bind, hcheck, ok_bind]
  obtain ⟨t₁, h₁, h⟩ := bind_eq_ok.mp h
  have h₁' : (unlinkHeads p sa.height sa).map (fun s => s.withKeys p []) = .ok t₁ := by
    rw [← unlinkHeads_withKeys]
    exact h₁
  cases hs₁ : unlinkHeads p sa.height sa with
  | error e =>
      rw [hs₁] at h₁'
      cases h₁'
  | ok s₁ =>
      rw [hs₁] at h₁'
      cases h₁'
      obtain ⟨height, hheight, h⟩ := bind_eq_ok.mp h
      have hheight' : trimHeight s₁.nodes s₁.height = .ok height := hheight
      simp only [hback, ne_eq, reduceCtorEq, not_false_eq_true, if_true, check_of_pos, ok_bind] at h ⊢
      rw [hheight', ok_bind]
      obtain ⟨near, hnear, h⟩ := bind_eq_ok.mp h
      have hnear' : ({ s₁ with height } : SkipArray K V).load (some q) = .ok near := by
        rw [← hnear]
        exact (SkipArray.load_withKeys_ne { s₁ with height } [] (by simpa using hq)).symm
      rw [hnear', ok_bind]
      obtain ⟨t₂, h₂, h⟩ := bind_eq_ok.mp h
      obtain ⟨s₂, hs₂, rfl⟩ := unlinkLoop_withKeys (show some q ≠ some p by simpa using hq)
        (show unlinkLoop cmp p (some q) _ 1 _ height none
          (({ s₁ with height } : SkipArray K V).withKeys p []) = .ok t₂ from h₂)
      have hbudget : ({ s₁.withKeys p [] with height } : SkipArray K V).budget =
          ({ s₁ with height } : SkipArray K V).budget := by
        simp [SkipArray.budget, SkipArray.withKeys]
      rw [nodeFree_withKeys] at h
      rw [hbudget] at hs₂
      rw [hs₂, ok_bind]
      exact h

end Keys

/-! ### The states in which a node leaves -/

section Departing

variable [Inhabited V] {cmp : K → K → ℤ} {sa : SkipArray K V} {A C : List (Block K V)}
  {b dead : Block K V} {p : Ptr} {keys : List K}

/-- `sa` is well formed but for the node of `dead`, the one behind `b`, that has
just become empty or had its pairs copied to the end of `b`. -/
inductive Departing (cmp : K → K → ℤ) (sa : SkipArray K V) (A : List (Block K V))
    (b dead : Block K V) (C : List (Block K V)) : Prop
  | emptied (h : sa.Sound cmp (A ++ b :: dead :: C)) (hnil : dead.pairs = [])
      (hne : ∀ x ∈ A ++ b :: C, x.pairs ≠ [])
  | copied {before : SkipArray K V} {b₀ : Block K V} {n m : Node K V}
      (h : before.Sound cmp (A ++ b₀ :: dead :: C)) (hn : before.node? b₀.ptr = some n)
      (hs : n.SameLinks m)
      (hb : b = { b₀ with offset := 0, pairs := b₀.pairs ++ dead.pairs })
      (hh : Holds before.toSettings m b) (hsa : sa = before.setNode b₀.ptr m)
      (hne : ∀ x ∈ A ++ b :: C, x.pairs ≠ [])

/-- In both states `unlink_node` finds what it relies on. -/
theorem Departing.unlinking (h : Departing cmp sa A b dead C) :
    Unlinking cmp sa A b dead C ∧ sa.Linked (A ++ b :: dead :: C) ∧
      sa.Tallest (A ++ b :: dead :: C) := by
  cases h with
  | emptied h hnil hne =>
      have hsub : ∀ x ∈ A ++ b :: C, x ∈ A ++ b :: dead :: C := by
        intro x hx
        rcases List.mem_append.mp hx with hx | hx
        · simp [hx]
        · rcases List.mem_cons.mp hx with rfl | hx <;> simp [*]
      have hbind : bindings (A ++ b :: C) = bindings (A ++ b :: dead :: C) := by simp [hnil]
      refine ⟨⟨h.settings, h.linked.nodesLen, fun x hx => h.stores x (hsub x hx), h.linked.alive,
        h.linked.top, hne, fun x hx => h.offset_lt x (hsub x hx), ?_, h.linked.spells.nodup⟩,
        h.linked, h.tallest⟩
      rw [hbind]
      exact h.ascending
  | copied h hn hs hb hh hsa hne =>
      subst hb hsa
      have hne' := forall_mem_middle.mp hne
      exact h.merged hn hs hh hne'.1 hne'.2

/-- `shift_or_merge` calls `unlink_node` in such a state, or not at all. -/
theorem shiftOrMerge_departing (h : sa.Sound cmp (A ++ b :: C)) (hs : ShapeBut sa.nodeSize A C)
    (hless : b.pairs.length < sa.nodeSize / 2) (c : Ctx K V U) :
    (∃ s A' b' dead C', Departing cmp s A' b' dead C' ∧
        shiftOrMerge cmp sa c b.ptr = unlinkNode cmp s c dead.ptr) ∨
      ∃ sa', shiftOrMerge cmp sa c b.ptr = .ok (sa', c) := by
  obtain ⟨nb, hnb, hhb⟩ := h.stores b (by simp)
  cases C with
  | cons x C =>
      obtain ⟨nx, hnx, hhx⟩ := h.stores x (by simp)
      obtain ⟨n₁, hslide, hh₁, hsame₁⟩ := slideToFront_spec hhb
      obtain ⟨hmerge, hsteal⟩ := shiftOrMerge_eq h hs hless hnb hnx hhb hhx hslide hh₁ hsame₁ c
      by_cases hfit : b.pairs.length + x.pairs.length ≤ sa.nodeSize
      · obtain ⟨n₂, hmove, hh₂, hsame₂⟩ := absorb_spec h.settings hh₁ rfl hhx (le_refl _) hfit
        rw [List.take_length] at hh₂
        refine Or.inl ⟨_, A, _, x, C, .copied h hnb (hsame₁.trans hsame₂) rfl hh₂ rfl ?_,
          hmerge hfit n₂ hmove⟩
        refine forall_mem_middle.mpr ⟨?_, fun y hy => hs.nonempty y ?_⟩
        · simp [hs.nonempty x (by simp)]
        · rcases List.mem_append.mp hy with hy | hy <;> simp [hy]
      · obtain ⟨n₂, hmove, -⟩ := stealNext_spec h hs hless (by omega) rfl hnb hnx hhx hh₁ hsame₁
        exact Or.inr ⟨_, hsteal hfit _ n₂ rfl hmove⟩
  | nil =>
      rcases List.eq_nil_or_concat A with rfl | ⟨A, a, rfl⟩
      · exact Or.inr ⟨sa, shiftOrMerge_lone h c⟩
      · rw [List.concat_eq_append] at h hs
        rw [← List.append_cons] at h
        obtain ⟨na, hna, hha⟩ := h.stores a (by simp)
        obtain ⟨hmerge, hstay⟩ := shiftOrMerge_last_eq h hless hna hnb hha hhb c
        by_cases hfit : a.pairs.length + b.pairs.length ≤ sa.nodeSize
        · obtain ⟨m, hsame, hh, heq⟩ := hmerge hfit
          refine Or.inl ⟨_, A, _, b, [], .copied h hna hsame rfl hh rfl ?_, heq⟩
          refine forall_mem_middle.mpr ⟨?_, fun y hy => hs.nonempty y ?_⟩
          · simp [hs.nonempty a (by simp)]
          · simpa using Or.inl (by simpa using hy)
        · exact Or.inr ⟨sa, hstay hfit⟩

/-- So does `skiparray_pop_last`. -/
theorem skiparrayPopLast_departing [Inhabited K] (cb : Callbacks K U) {bs : List (Block K V)}
    (h : sa.Wf (cb.cmp sa.cmp) bs) (hheight : bindings bs ≠ [] → sa.height ≤ 128)
    (c : Ctx K V U) :
    (∃ s A b dead k v, Departing (cb.cmp sa.cmp) s A b dead [] ∧ skiparrayPopLast cb sa c =
        unlinkNode (cb.cmp sa.cmp) s c dead.ptr >>= fun r => .ok (.ok, k, v, r.1, r.2)) ∨
      ∃ res k v sa', skiparrayPopLast cb sa c = .ok (res, k, v, sa', c) := by
  rcases hiter : sa.iter with _ | it
  · obtain ⟨A, b, rfl⟩ : ∃ A b, bs = A ++ [b] := by
      rcases List.eq_nil_or_concat bs with hnil | ⟨A, b, hbs⟩
      · exact absurd hnil h.tallest.ne_nil
      · exact ⟨A, b, by rw [hbs, List.concat_eq_append]⟩
    obtain ⟨n, hn, -⟩ := h.stores b (by simp)
    rcases List.eq_nil_or_concat b.pairs with hempty | ⟨ps, p, hps⟩
    · have hbs := h.shape.eq_singleton (c := b) (by simp) hempty
      rw [hbs] at h
      exact Or.inr ⟨_, _, _, sa, skiparrayPopLast_empty cb h hiter hempty c⟩
    · rw [List.concat_eq_append] at hps
      obtain ⟨hsound, hunlink, hstay⟩ :=
        skiparrayPopLast_eq cb h hiter (hheight (by simp [hps])) hps hn c
      by_cases hgoes : ps = [] ∧ A ≠ []
      · obtain ⟨A', a, hA⟩ := List.eq_nil_or_concat A |>.resolve_left hgoes.2
        rw [List.concat_eq_append] at hA
        subst hA
        rw [← List.append_cons] at hsound
        refine Or.inl ⟨_, A', a, _, _, _, .emptied hsound hgoes.1 ?_, hunlink hgoes⟩
        exact fun x hx => (Shape.but h.shape).nonempty x (by simpa using hx)
      · exact Or.inr ⟨_, _, _, _, hstay hgoes⟩
  · refine Or.inr ⟨.errorLocked, none, none, sa, ?_⟩
    rw [skiparrayPopLast, if_pos (hasIterators_eq_true hiter)]

omit [Inhabited V] in
theorem SkipArray.links_withKeys : (sa.withKeys p keys).links = sa.links := by
  have hfwd : ∀ i q, (sa.withKeys p keys).links.fwd i q = sa.links.fwd i q := by
    intro i q
    simp only [SkipArray.links, SkipArray.node?_withKeys]
    by_cases hq : q = p
    · simp only [if_pos hq]
      cases sa.node? q <;> rfl
    · simp only [if_neg hq]
      cases sa.node? q <;> rfl
  have hback : ∀ q, (sa.withKeys p keys).links.back q = sa.links.back q := by
    intro q
    simp only [SkipArray.links, SkipArray.node?_withKeys]
    by_cases hq : q = p
    · simp only [if_pos hq]
      cases sa.node? q <;> rfl
    · simp only [if_neg hq]
      cases sa.node? q <;> rfl
  have hf : (sa.withKeys p keys).links.fwd = sa.links.fwd := by
    funext i q
    exact hfwd i q
  have hb : (sa.withKeys p keys).links.back = sa.links.back := by
    funext q
    exact hback q
  change Links.mk _ (sa.withKeys p keys).links.fwd (sa.withKeys p keys).links.back = _
  rw [hf, hb]
  rfl

omit [Inhabited V] in
theorem SkipArray.alive_withKeys {q : Ptr} {k : ℕ}
    (h : ∃ n, sa.node? q = some n ∧ n.height = k ∧ n.fwd.length = k) :
    ∃ n, (sa.withKeys p keys).node? q = some n ∧ n.height = k ∧ n.fwd.length = k := by
  obtain ⟨n, hn, hh, hlen⟩ := h
  rw [SkipArray.node?_withKeys, hn]
  by_cases hq : q = p
  · exact ⟨{ n with keys }, by simp [hq], hh, hlen⟩
  · exact ⟨n, by simp [hq], hh, hlen⟩

/-- Neither rests on the keys of the node that leaves. -/
theorem Unlinking.withKeys (h : Unlinking cmp sa A b dead C) (keys : List K) :
    Unlinking cmp (sa.withKeys dead.ptr keys) A b dead C where
  settings := h.settings
  nodesLen := h.nodesLen
  stores x hx := by
    obtain ⟨n, hn, hh⟩ := h.stores x hx
    refine ⟨n, ?_, hh⟩
    rw [SkipArray.node?_withKeys, hn]
    simp [h.dead_ne hx]
  alive x hx := SkipArray.alive_withKeys (h.alive x hx)
  top := h.top
  nonempty := h.nonempty
  offset_lt := h.offset_lt
  ascending := h.ascending
  nodup := h.nodup

/-- `unlink_node` takes the node out of every chain and changes nothing else, and
it comes to the same whatever is in the node's key buffer. -/
theorem unlink_exact (hc : LawfulCmp cmp) (h : Departing cmp sa A b dead C) (c : Ctx K V U) :
    ∃ sa' c', unlinkNode cmp sa c dead.ptr = .ok (sa', c') ∧
      Unlinked sa ((A ++ [b]).map Block.ptr) dead.ptr (C.map Block.ptr) sa' ∧
      ∀ keys, unlinkNode cmp (sa.withKeys dead.ptr keys) c dead.ptr = .ok (sa', c') := by
  obtain ⟨hu, hl, ht⟩ := h.unlinking
  -- a run over an empty key buffer
  have hlinked : (sa.withKeys dead.ptr []).Linked (A ++ b :: dead :: C) :=
    ⟨by rw [SkipArray.links_withKeys]; exact hl.spells, hl.nodesLen,
      fun x hx => SkipArray.alive_withKeys (hl.alive x hx), hl.top⟩
  obtain ⟨t, c', hrun, hrem, hsound⟩ := unlinkNode_spec hc (hu.withKeys []) hlinked ht (c := c)
  obtain ⟨n, hn, -⟩ := hl.alive dead (by simp)
  have hback : n.back = some b.ptr := by
    have hl' := hl
    rw [List.append_cons] at hl'
    rw [hl'.back hn, List.map_append, List.getLast?_append]
    rfl
  have hb : b.ptr ≠ dead.ptr := hu.dead_ne (by simp)
  have hall : ∀ keys, unlinkNode cmp (sa.withKeys dead.ptr keys) c dead.ptr = .ok (t, c') := by
    intro keys
    have hn' : (sa.withKeys dead.ptr keys).node? dead.ptr = some { n with keys } := by
      rw [SkipArray.node?_withKeys, hn]
      simp
    refine unlinkNode_withKeys hn' hback hb ?_
    rw [SkipArray.withKeys_withKeys, hrun]
  have hrun' := unlinkNode_withKeys hn hback hb hrun
  refine ⟨t, c', hrun', ?_, hall⟩
  obtain ⟨sa₂, c₂, hrun₂, hrem₂, hsound₂⟩ := unlinkNode_spec hc hu hl ht (c := c)
  rw [hrun'] at hrun₂
  cases hrun₂
  obtain ⟨⟨s, hlo, rfl⟩, -⟩ := hrem₂
  exact hl.unlinked hu.settings.pos hlo hsound₂.linked hsound₂.tallest

end Departing

/-- `SkipArray.flatSplit` with its second node emptied. -/
def SkipArray.flatEmptied : SkipArray ℤ ℤ :=
  SkipArray.flatSplit.setNode 1 ⟨2, 0, 0, [2, 3], some [20, 30], some 0, [none, none], 4, 5, 6⟩

theorem unlink_exact_flatEmptied :
    ∃ sa' c', unlinkNode (Callbacks.plain.cmp 0) SkipArray.flatEmptied
        (⟨(), 7, [], []⟩ : Ctx ℤ ℤ Unit) 1 = .ok (sa', c') ∧
      Unlinked SkipArray.flatEmptied [0] 1 [] sa' := by
  obtain ⟨-, bs, its, hco⟩ := SkipArray.flatSplit_reachable.coherent LawfulCmp.int_sub
  have hchain : SkipArray.flatSplit.Chain 0 ([0] ++ 1 :: []) :=
    ⟨some 0, [(0, _), (1, _)], rfl, ⟨rfl, rfl, _, rfl, rfl, rfl, _, rfl, rfl⟩, rfl⟩
  have hwf := hco.toWf
  obtain ⟨A, x, C, rfl, hA, hx, hC⟩ := hwf.linked.split_at hwf.settings.pos hchain
  obtain ⟨a, rfl, ha⟩ := List.map_eq_singleton_iff.mp hA.symm
  obtain rfl := List.map_eq_nil_iff.mp hC.symm
  obtain ⟨n, hn, hh⟩ := hwf.stores x (by simp)
  have hnode : n = ⟨2, 0, 2, [2, 3], some [20, 30], some 0, [none, none], 4, 5, 6⟩ := by
    rw [← hx] at hn
    cases hn
    rfl
  subst hnode
  have hempty := hh.take 0
  have hshape := hwf.shape.nonempty (by simp) a (by simp)
  have hasc : Ascending (Callbacks.plain.cmp 0)
      (bindings ([a] ++ { x with offset := x.offset, pairs := x.pairs.take 0 } :: [])) :=
    hwf.ascending.sublist (by simp)
  have hsame : Node.SameLinks
      (⟨2, 0, 2, [2, 3], some [20, 30], some 0, [none, none], 4, 5, 6⟩ : Node ℤ ℤ)
      ⟨2, 0, 0, [2, 3], some [20, 30], some 0, [none, none], 4, 5, 6⟩ := ⟨rfl, rfl, rfl, rfl⟩
  have hsound := hwf.toSound.update hn hsame hempty (hwf.offset_lt x (by simp)) hasc
  have hdep : Departing (Callbacks.plain.cmp 0) SkipArray.flatEmptied [] a
      { x with offset := x.offset, pairs := x.pairs.take 0 } [] := by
    refine .emptied ?_ rfl (by simpa using hshape)
    rw [SkipArray.flatEmptied, hx]
    exact hsound
  obtain ⟨sa', c', hrun, hgone, -⟩ := unlink_exact LawfulCmp.int_sub hdep ⟨(), 7, [], []⟩
  simp only [← hx, List.nil_append, List.map_cons, List.map_nil, ha] at hrun hgone
  exact ⟨sa', c', hrun, hgone⟩

end Skiparray
