import Skiparray.Runs.Reachable

/-!
# The pops against the reads

`skiparray_pop_last` walks to the last node by itself, with a level counter of
eight bits, and `skiparray_pop_first` has its own balancing and unlinking. The
one is compared with `skiparray_last`, the other with `skiparray_forget` of the
first key.
-/

namespace Skiparray

open SkipLinks Fallible

variable {K V U : Type} [Inhabited K] [Inhabited V] {cb : Callbacks K U} {f : ℕ}

/-! ## The last pair -/

section Last

variable {sa : SkipArray K V} {bs : List (Block K V)}

/-- `skiparray_pop_last` hands back the pair that `skiparray_last` sees and
removes it and no other exactly when the levels fit its counter. -/
theorem popLast_agrees_iff (hc : LawfulCmp (cb.cmp f)) (h : Reachable cb f sa)
    (hiter : sa.iter = none) :
    ∃ bs, sa.Wf (cb.cmp f) bs ∧ (bindings bs ≠ [] → ∀ c : Ctx K V U,
      ((∃ key value sa' c', skiparrayLast sa = .ok (.ok, some key, value) ∧
          skiparrayPopLast cb sa c = .ok (.ok, some key, value, sa', c') ∧
          Leaves (cb.cmp f) sa c sa' c' (bindings bs).dropLast) ↔ sa.height ≤ 128)) := by
  obtain ⟨rfl, bs, its, hco⟩ := h.coherent hc
  refine ⟨bs, hco.toWf, ?_⟩
  intro hne c
  constructor
  · rintro ⟨key, value, sa', c', -, hpop, -⟩
    by_contra hheight
    rw [skiparrayPopLast_overflow cb hco.toWf hiter hne (Nat.lt_of_not_le hheight)] at hpop
    cases hpop
  · intro hheight
    obtain ⟨p, hp⟩ := Option.ne_none_iff_exists'.mp (mt List.getLast?_eq_none_iff.mp hne)
    obtain ⟨sa', c', hpop, hl, -⟩ :=
      skiparrayPopLast_spec cb hc hco.toWf hiter (fun _ => hheight) c
    rw [hp] at hpop
    refine ⟨p.1, sa.out p.2, sa', c', ?_, hpop, hl⟩
    rw [skiparrayLast_spec hco.toWf, hp]
    rfl

end Last

theorem popLast_agrees_iff_flatSplit :
    ∃ bs, SkipArray.flatSplit.Wf (Callbacks.plain.cmp 0) bs ∧
      (bindings bs ≠ [] → ∀ c : Ctx ℤ ℤ Unit,
        ((∃ key value sa' c', skiparrayLast SkipArray.flatSplit = .ok (.ok, some key, value) ∧
            skiparrayPopLast Callbacks.plain SkipArray.flatSplit c =
              .ok (.ok, some key, value, sa', c') ∧
            Leaves (Callbacks.plain.cmp 0) SkipArray.flatSplit c sa' c' (bindings bs).dropLast) ↔
          SkipArray.flatSplit.height ≤ 128)) :=
  popLast_agrees_iff LawfulCmp.int_sub SkipArray.flatSplit_reachable rfl

/-! ## More levels than an `int8_t` counts -/

/-- Every node as tall as `Config.tall` lets it be. -/
def Callbacks.tall : Callbacks ℤ Unit :=
  { Callbacks.plain with level := fun _ _ out _ => (128, out, ()) }

def Config.tall : Config := { Config.plain with maxLevel := 129 }

/-- What `skiparray_new` makes of `Config.tall`. -/
def SkipArray.tall : SkipArray ℤ ℤ :=
  { SkipArray.plain with
    maxLevel := 129
    height := 129
    nodes := List.replicate 129 (some 0)
    heap := [some ⟨129, 1, 0, [0, 0], some [0, 0], none, List.replicate 129 none, 1, 2, 3⟩] }

set_option maxRecDepth 4000 in
theorem SkipArray.tall_new :
    skiparrayNew Callbacks.tall (some Config.tall) ⟨(), 0, [], []⟩ =
      .ok (.ok, some SkipArray.tall, ⟨(), 4, [], []⟩) := rfl

/-- `SkipArray.tall` with key 1 bound to 10. -/
def SkipArray.tallOne : SkipArray ℤ ℤ :=
  { SkipArray.tall with
    heap := [some ⟨129, 1, 1, [0, 1], some [0, 10], none, List.replicate 129 none, 1, 2, 3⟩] }

set_option maxRecDepth 4000 in
theorem SkipArray.tallOne_set :
    SkipArray.tall.call Callbacks.tall ⟨(), 4, [], []⟩ (.set 1 10) =
      .ok (.set .bound, SkipArray.tallOne, ⟨(), 4, [], []⟩) := rfl

theorem SkipArray.tallOne_reachable : Reachable Callbacks.tall 0 SkipArray.tallOne :=
  .call (.new rfl SkipArray.tall_new) SkipArray.tallOne_set

set_option maxRecDepth 4000 in
/-- With 129 levels `skiparray_pop_last` reads the heads below level 0, where
`skiparray_last` finds the one pair there is. -/
theorem popLast_overflows :
    Reachable Callbacks.tall 0 SkipArray.tallOne ∧ SkipArray.tallOne.iter = none ∧
      (∀ i out old u, 0 ≤ (Callbacks.tall.level i out old u).1 ∧
        (Callbacks.tall.level i out old u).1 < SkipArray.tallOne.maxLevel) ∧
      skiparrayLast SkipArray.tallOne = .ok (.ok, some 1, some 10) ∧
      skiparrayPopLast Callbacks.tall SkipArray.tallOne ⟨(), 4, [], []⟩ = .error .bounds :=
  ⟨SkipArray.tallOne_reachable, rfl,
    fun _ _ _ _ => ⟨show (0 : ℤ) ≤ 128 by decide, show (128 : ℤ) < (129 : ℕ) by decide⟩, rfl, rfl⟩

/-! ## The first pair -/

section First

omit [Inhabited K] [Inhabited V]

/-- `sa₁` and `sa₂` have the same nodes `bs`, with contents and pointers, and are
alike outside them. -/
structure SameNodes (sa₁ sa₂ : SkipArray K V) (bs : List (Block K V)) : Prop where
  settings : sa₁.toSettings = sa₂.toSettings
  prngState : sa₁.prngState = sa₂.prngState
  iter : sa₁.iter = sa₂.iter
  iters : sa₁.iters = sa₂.iters
  nodes : sa₁.nodes = sa₂.nodes
  height : sa₁.height = sa₂.height
  node : ∀ b ∈ bs, sa₁.node? b.ptr = sa₂.node? b.ptr

variable {sa sa₁ sa₂ : SkipArray K V} {bs A B C : List (Block K V)} {b x : Block K V}
  {c c₁ c₂ : Ctx K V U} {cmp : K → K → ℤ} {p : Ptr}

theorem SameNodes.refl (sa : SkipArray K V) (bs : List (Block K V)) : SameNodes sa sa bs :=
  ⟨rfl, rfl, rfl, rfl, rfl, rfl, fun _ _ => rfl⟩

/-- The pointers of a node are given by its place among the blocks. -/
theorem SkipArray.Linked.node_unique (h₁ : sa₁.Linked (A ++ b :: B))
    (h₂ : sa₂.Linked (A ++ b :: B)) {n₁ n₂ : Node K V} (hn₁ : sa₁.node? b.ptr = some n₁)
    (hn₂ : sa₂.node? b.ptr = some n₂) (hpay : n₁.payload = n₂.payload) : n₁ = n₂ := by
  have hback : n₁.back = n₂.back := by rw [h₁.back hn₁, h₂.back hn₂]
  have hlen := Node.payload_fwdLen hpay
  obtain ⟨m, hm, -, hheight⟩ := h₁.node (b := b) (by simp)
  obtain rfl : n₁ = m := Option.some.inj (hn₁.symm.trans hm)
  have hfwd : n₁.fwd = n₂.fwd := by
    apply List.ext_getElem?
    intro i
    by_cases hi : i < b.height
    · have hf₁ := h₁.fwdAt hi
      have hf₂ := h₂.fwdAt hi
      rw [SkipArray.fwdAt, SkipArray.load_eq hn₁, ok_bind] at hf₁
      rw [SkipArray.fwdAt, SkipArray.load_eq hn₂, ok_bind] at hf₂
      rw [slot_ok hf₁, slot_ok hf₂]
    · rw [List.getElem?_eq_none (by omega), List.getElem?_eq_none (by omega)]
  rw [Node.payload, Node.payload] at hpay
  cases n₁
  cases n₂
  simp_all

/-- So is the list of heads. -/
theorem SkipArray.Linked.nodes_unique (h₁ : sa₁.Linked bs) (h₂ : sa₂.Linked bs)
    (hset : sa₁.toSettings = sa₂.toSettings) : sa₁.nodes = sa₂.nodes := by
  have hmax : sa₁.maxLevel = sa₂.maxLevel := congrArg Settings.maxLevel hset
  have hlen₁ := h₁.nodesLen
  have hlen₂ := h₂.nodesLen
  apply List.ext_getElem?
  intro i
  by_cases hi : i < sa₁.maxLevel
  · rw [slot_ok (h₁.headAt hi), slot_ok (h₂.headAt (hmax ▸ hi))]
  · rw [List.getElem?_eq_none (by omega), List.getElem?_eq_none (by omega)]

theorem SkipArray.Tallest.unique (h₁ : sa₁.Tallest bs) (h₂ : sa₂.Tallest bs) :
    sa₁.height = sa₂.height := by
  obtain ⟨b₁, hb₁, heq₁⟩ := h₁.2
  obtain ⟨b₂, hb₂, heq₂⟩ := h₂.2
  apply le_antisymm
  · rw [← heq₁]
    exact h₂.1 b₁ hb₁
  · rw [← heq₂]
    exact h₁.1 b₂ hb₂

/-- Two ways to take the same node out come to the same. -/
theorem Removes.same [Inhabited V] (h₁ : Removes sa c p sa₁ c₁) (h₂ : Removes sa c p sa₂ c₂)
    (hw₁ : sa₁.Sound cmp bs) (hw₂ : sa₂.Sound cmp bs) (hp : ∀ b ∈ bs, b.ptr ≠ p) :
    c₁ = c₂ ∧ SameNodes sa₁ sa₂ bs := by
  obtain ⟨⟨s₁, hs₁, rfl⟩, n₁, hn₁, rfl⟩ := h₁
  obtain ⟨⟨s₂, hs₂, rfl⟩, n₂, hn₂, rfl⟩ := h₂
  obtain rfl : n₁ = n₂ := Option.some.inj (hn₁.symm.trans hn₂)
  have hset : (s₁.clearNode p).toSettings = (s₂.clearNode p).toSettings :=
    hs₁.settings.trans hs₂.settings.symm
  refine ⟨rfl, hset, hs₁.prngState.trans hs₂.prngState.symm, hs₁.iter.trans hs₂.iter.symm,
    hs₁.iters.trans hs₂.iters.symm, hw₁.linked.nodes_unique hw₂.linked hset,
    hw₁.tallest.unique hw₂.tallest, ?_⟩
  intro b hb
  obtain ⟨m₁, hm₁, -⟩ := hw₁.linked.node hb
  obtain ⟨m₂, hm₂, -⟩ := hw₂.linked.node hb
  have hne := hp b hb
  have hpay : m₁.payload = m₂.payload := by
    have hp₁ := hs₁.payload b.ptr
    have hp₂ := hs₂.payload b.ptr
    rw [SkipArray.node?_clearNode_ne hne] at hm₁ hm₂
    rw [hm₁, Option.map_some] at hp₁
    rw [hm₂, Option.map_some, ← hp₁] at hp₂
    exact (Option.some.inj hp₂).symm
  obtain ⟨A, B, rfl⟩ := List.append_of_mem hb
  rw [hm₁, hm₂, hw₁.linked.node_unique hw₂.linked hm₁ hm₂ hpay]

/-- `skiparray_pop_first` balances an underfull first block as `shift_or_merge` does. -/
theorem balance_same [Inhabited V] (hc : LawfulCmp cmp) (h : sa.Sound cmp ([] ++ b :: x :: C))
    (hs : ShapeBut sa.nodeSize [] (x :: C)) (hless : b.pairs.length < sa.nodeSize / 2)
    (c : Ctx K V U) :
    ∃ sa₁ sa₂ c' bs', popFirstBalance sa c b.ptr x.ptr = .ok (sa₁, c') ∧
      shiftOrMerge cmp sa c b.ptr = .ok (sa₂, c') ∧ sa₁.Wf cmp bs' ∧ sa₂.Wf cmp bs' ∧
      bindings bs' = bindings (b :: x :: C) ∧ SameNodes sa₁ sa₂ bs' := by
  obtain ⟨nb, hnb, hhb⟩ := h.stores b (by simp)
  obtain ⟨nx, hnx, hhx⟩ := h.stores x (by simp)
  obtain ⟨n₁, hslide, hh₁, hsame₁⟩ := slideToFront_spec hhb
  obtain ⟨hpop, hpop'⟩ := popFirstBalance_eq hnb hnx hhx hslide hh₁ c
  obtain ⟨hshift, hshift'⟩ := shiftOrMerge_eq h hs hless hnb hnx hhb hhx hslide hh₁ hsame₁ c
  by_cases hfit : b.pairs.length + x.pairs.length ≤ sa.nodeSize
  · obtain ⟨n₂, hmove, -, hu, hl, ht⟩ := mergeNext_spec h hs hfit hnb hhx hh₁ hsame₁
    obtain ⟨sa₁, c₁, hbypass, hrem₁, hsound₁⟩ := bypassNode_spec hu hl ht c
    obtain ⟨sa₂, c₂, hunlink, hrem₂, hsound₂⟩ := unlinkNode_spec hc hu hl ht (c := c)
    obtain ⟨rfl, hsame⟩ := hrem₁.same hrem₂ hsound₁ hsound₂ fun y hy => hu.dead_ne hy
    refine ⟨sa₁, sa₂, c₁, _, (hpop hfit n₂ hmove).trans hbypass,
      (hshift hfit n₂ hmove).trans hunlink, merge_wf (A := []) hsound₁ ?_,
      merge_wf (A := []) hsound₂ ?_, by simp, hsame⟩
    · rw [hrem₁.keeps.settings]
      exact hs
    · rw [hrem₂.keeps.settings]
      exact hs
  · obtain ⟨n₂, hmove, -, hwf, -, -⟩ :=
      stealNext_spec h hs hless (by omega) rfl hnb hnx hhx hh₁ hsame₁
    exact ⟨_, _, c, _, hpop' hfit _ n₂ rfl hmove, hshift' hfit _ n₂ rfl hmove, hwf, hwf,
      bindings_steal _, .refl _ _⟩

/-- The first key is found at the front of the first block. -/
theorem Position.of_first [Inhabited V] {key : K} {r : SearchEnv} (hc : LawfulCmp cmp)
    (h : sa.Wf cmp bs) (hfirst : (bindings bs).head?.map Prod.fst = some key)
    (hpos : Position cmp sa.nodeSize key bs A b C r) :
    A = [] ∧ r.index = 0 ∧ r.found = true := by
  have hne : bindings bs ≠ [] := by
    rintro hnil
    rw [hnil] at hfirst
    cases hfirst
  obtain rfl := hpos.split
  have hfull : ∀ y ∈ A ++ b :: C, y.pairs ≠ [] := by
    obtain ⟨q, hq⟩ := List.exists_mem_of_ne_nil _ hne
    obtain ⟨y, hy, hqy⟩ := List.mem_flatMap.mp hq
    exact h.shape.nonempty_of hy (List.ne_nil_of_mem hqy)
  -- nothing lies below the first key
  have hnil : (∀ q ∈ bindings A ++ b.pairs.take r.index, cmp q.1 key < 0) →
      bindings A ++ b.pairs.take r.index = [] := by
    intro hlo
    cases hpre : bindings A ++ b.pairs.take r.index with
    | nil => rfl
    | cons q l =>
        rw [bindings_between r.index, hpre, List.cons_append, List.head?_cons, Option.map_some,
          Option.some.injEq] at hfirst
        have := hlo q (by rw [hpre]; exact List.mem_cons_self)
        rw [hfirst, hc.refl] at this
        exact absurd this (lt_irrefl 0)
  cases hf : r.found with
  | true =>
      obtain ⟨p, hp, hk⟩ := hpos.hit hf
      have hpre := List.append_eq_nil_iff.mp (hnil ((hpos.isHit h.ascending hp hk).lo hc))
      have hA : A = [] := by
        cases A with
        | nil => rfl
        | cons y A =>
            rw [bindings_cons, List.append_eq_nil_iff] at hpre
            exact absurd hpre.1.1 (hfull y (by simp))
      refine ⟨hA, ?_, rfl⟩
      rcases List.take_eq_nil_iff.mp hpre.2 with hzero | hb
      · exact hzero
      · exact absurd hb (hfull b (by simp))
  | false =>
      obtain ⟨-, hlo, hhi, -⟩ := hpos.miss hf
      have hpre := hnil hlo
      rw [bindings_between r.index, hpre, List.nil_append] at hfirst
      obtain ⟨q, hq, hkey⟩ := Option.map_eq_some_iff.mp hfirst
      have := hhi q (List.mem_of_mem_head? hq)
      rw [hkey, hc.refl] at this
      exact absurd this (lt_irrefl 0)

/-- Both drop the first pair of the first node and balance it. -/
theorem popFirst_forget_same [Inhabited K] [Inhabited V] (hc : LawfulCmp (cb.cmp sa.cmp))
    (h : sa.Wf (cb.cmp sa.cmp) (b :: C)) (hiter : sa.iter = none) {p : K × V} {ps : List (K × V)}
    (hb : b.pairs = p :: ps) (c : Ctx K V U) :
    ∃ sa₁ sa₂ c' bs', skiparrayPopFirst sa c = .ok (.ok, some p.1, sa.out p.2, sa₁, c') ∧
      skiparrayForget cb sa c p.1 = .ok (.ok, some p, sa₂, c') ∧ sa₁.Wf (cb.cmp sa.cmp) bs' ∧
      sa₂.Wf (cb.cmp sa.cmp) bs' ∧ bindings bs' = ps ++ bindings C ∧ SameNodes sa₁ sa₂ bs' := by
  obtain ⟨n, hn, hh⟩ := h.stores b (by simp)
  have hp : b.pairs[0]? = some p := by simp [hb]
  have hk := hh.keyAt hp
  have hv := hh.valueAt hp
  -- both begin by dropping the first pair of the first node
  obtain ⟨off, hoff, hh', hsame⟩ :=
    dropFirst_spec h.settings hh (List.ne_nil_of_length_pos (by simp [hb]))
  have hdrop : b.pairs.drop 1 = ps := by simp [hb]
  rw [hdrop] at hh'
  have hasc : Ascending (cb.cmp sa.cmp)
      (bindings ([] ++ { b with offset := off, pairs := ps } :: C)) := by
    refine h.ascending.sublist ?_
    simp [hb]
  have hsound := SkipArray.Sound.update (A := []) h.toSound hn hsame hh' hoff hasc
  have hbut : ShapeBut sa.nodeSize [] C := Shape.but (A := []) h.shape
  have hcnt : (dropFirst sa.nodeSize n).count = ps.length := hh'.count
  obtain ⟨r, hr, A, b', C', hpos⟩ := search_spec hc h p.1
  obtain ⟨rfl, hzero, hfound⟩ := hpos.of_first hc h (by simp [hb])
  obtain ⟨rfl, rfl⟩ := List.cons.inj hpos.split
  have hrem : removeAt sa.nodeSize n 0 = .ok (dropFirst sa.nodeSize n) := rfl
  have hne : ¬ b.pairs.length = 0 := by simp [hb]
  have hpopped : ((if sa.useValues then some <$> sa.valueAt n n.offset else pure none) :
      Except Fault (Option V)) = .ok (sa.out p.2) := outValue_eq hv
  have hl : sa.Linked ([] ++ b :: C) := h.linked
  have hl' := hsound.linked
  have hforget : skiparrayForget cb sa c p.1 =
      if (dropFirst sa.nodeSize n).count < sa.nodeSize / 2 then
        shiftOrMerge (cb.cmp sa.cmp) (sa.setNode b.ptr (dropFirst sa.nodeSize n)) c b.ptr >>=
          fun r => .ok (.ok, some p, r.1, r.2)
      else .ok (.ok, some p, sa.setNode b.ptr (dropFirst sa.nodeSize n), c) := by
    simp only [skiparrayForget, hasIterators_eq_false hiter, Bool.false_eq_true, if_false, hr,
      ok_bind, hfound, if_true, hpos.node, SkipArray.load_eq hn, hzero, hh.count,
      check_of_pos (Nat.pos_of_ne_zero hne), hk, hv, hrem]
    rfl
  rw [Nat.add_zero] at hk
  rw [hforget, skiparrayPopFirst, hasIterators_eq_false hiter, if_neg Bool.false_ne_true,
    h.linked.first h.settings.pos]
  simp only [ok_bind, List.map_cons, List.head?_cons, SkipArray.load_eq hn, hh.count, if_neg hne,
    hk, hpopped, SkipArray.store, hl'.next]
  cases C with
  | nil =>
      have hwf := SkipArray.Wf.mk hsound (hbut.shape (by simp) (by simp))
      refine ⟨_, _, c, _, rfl, ?_, hwf, hwf, ?_, .refl _ _⟩
      · have hlone : shiftOrMerge (cb.cmp sa.cmp) _ c _ = .ok (_, c) := shiftOrMerge_lone hsound c
        split_ifs
        · exact bind_eq_ok.mpr ⟨_, hlone, rfl⟩
        · rfl
      · simp
  | cons x C =>
      simp only [List.map_cons, List.head?_cons]
      by_cases hhalf : (dropFirst sa.nodeSize n).count < sa.nodeSize / 2
      · obtain ⟨sa₁, sa₂, c', bs', h₁, h₂, hw₁, hw₂, hbind, hnodes⟩ :=
          balance_same hc hsound hbut (hcnt ▸ hhalf) c
        refine ⟨sa₁, sa₂, c', bs', ?_, ?_, hw₁, hw₂, hbind, hnodes⟩
        · exact (if_pos hhalf).trans (bind_eq_ok.mpr ⟨_, h₁, rfl⟩)
        · exact (if_pos hhalf).trans (bind_eq_ok.mpr ⟨_, h₂, rfl⟩)
      · have hwf := hsound.wf_of_half hbut (hcnt ▸ hhalf)
        exact ⟨_, _, c, _, if_neg hhalf, if_neg hhalf, hwf, hwf, by simp, .refl _ _⟩

end First

/-- `skiparray_pop_first` and `skiparray_forget` of the key that `skiparray_first`
reports hand back the same pair and leave the same nodes. -/
theorem popFirst_eq_forget {sa : SkipArray K V} (hc : LawfulCmp (cb.cmp f))
    (h : Reachable cb f sa) (hiter : sa.iter = none) :
    ∃ bs, sa.Wf (cb.cmp f) bs ∧ (bindings bs ≠ [] → ∀ c : Ctx K V U,
      ∃ p sa₁ sa₂ c' bs', skiparrayFirst sa = .ok (.ok, some p.1, sa.out p.2) ∧
        skiparrayPopFirst sa c = .ok (.ok, some p.1, sa.out p.2, sa₁, c') ∧
        skiparrayForget cb sa c p.1 = .ok (.ok, some p, sa₂, c') ∧
        sa₁.Wf (cb.cmp f) bs' ∧ sa₂.Wf (cb.cmp f) bs' ∧ bindings bs = p :: bindings bs' ∧
        SameNodes sa₁ sa₂ bs') := by
  obtain ⟨rfl, bs, its, hco⟩ := h.coherent hc
  refine ⟨bs, hco.toWf, ?_⟩
  intro hne c
  have hwf := hco.toWf
  obtain ⟨b, C, rfl⟩ := List.exists_cons_of_ne_nil hwf.tallest.ne_nil
  cases hb : b.pairs with
  | nil =>
      obtain rfl := hwf.empty_alone hb
      exact absurd (by simp [hb]) hne
  | cons p ps =>
      obtain ⟨sa₁, sa₂, c', bs', hpop, hforget, hw₁, hw₂, hbind, hnodes⟩ :=
        popFirst_forget_same hc hwf hiter hb c
      refine ⟨p, sa₁, sa₂, c', bs', ?_, hpop, hforget, hw₁, hw₂, ?_, hnodes⟩
      · rw [skiparrayFirst_spec hwf, bindings_cons, hb]
        rfl
      · rw [hbind, bindings_cons, hb, List.cons_append]

theorem popFirst_eq_forget_flatSplit :
    ∃ bs, SkipArray.flatSplit.Wf (Callbacks.plain.cmp 0) bs ∧
      (bindings bs ≠ [] → ∀ c : Ctx ℤ ℤ Unit,
        ∃ p sa₁ sa₂ c' bs',
          skiparrayFirst SkipArray.flatSplit = .ok (.ok, some p.1, SkipArray.flatSplit.out p.2) ∧
          skiparrayPopFirst SkipArray.flatSplit c =
            .ok (.ok, some p.1, SkipArray.flatSplit.out p.2, sa₁, c') ∧
          skiparrayForget Callbacks.plain SkipArray.flatSplit c p.1 = .ok (.ok, some p, sa₂, c') ∧
          sa₁.Wf (Callbacks.plain.cmp 0) bs' ∧ sa₂.Wf (Callbacks.plain.cmp 0) bs' ∧
          bindings bs = p :: bindings bs' ∧ SameNodes sa₁ sa₂ bs') :=
  popFirst_eq_forget LawfulCmp.int_sub SkipArray.flatSplit_reachable rfl

end Skiparray
