import Skiparray.Layout.Create
import Skiparray.Model.Builder

/-!
# Building a skiparray

A builder keeps, next to the skiparray, a trail: the last node on each level,
NULL from the height of the skiparray on. `Building` is that invariant with
the packed layout of the blocks: every window starts at the front of its
buffer, every block but the last is full.
-/

namespace Skiparray

open SkipLinks Fallible Links

variable {K V U : Type}

/-! ## Linking a node behind the last -/

/-- `s` is `sa` after the last node of each level in `done` was pointed at `new`. -/
structure Appending (sa : SkipArray K V) (bs : List (Block K V)) (new : Ptr) (done : ℕ → Prop)
    (s : SkipArray K V) : Prop where
  linkOnly : LinkOnly sa s
  height : s.height = sa.height
  head : s.links.head = sa.links.head
  back : s.links.back = sa.links.back
  written : ∀ i r, done i → (onLevel i (towers bs)).getLast? = some r →
    s.links.fwd i r = some new
  kept : ∀ i r, ¬ (done i ∧ (onLevel i (towers bs)).getLast? = some r) →
    s.links.fwd i r = sa.links.fwd i r

section Appending

variable {sa s : SkipArray K V} {bs A : List (Block K V)} {b x : Block K V} {new : Ptr}
  {done done' : ℕ → Prop} {i : ℕ}

theorem Appending.refl (sa : SkipArray K V) (bs : List (Block K V)) (new : Ptr) :
    Appending sa bs new (fun _ => False) sa :=
  ⟨.refl sa, rfl, rfl, rfl, fun _ _ h => h.elim, fun _ _ _ => rfl⟩

theorem Appending.congr (h : Appending sa bs new done s) (hd : ∀ i, done' i ↔ done i) :
    Appending sa bs new done' s := by
  obtain rfl : done' = done := funext fun i => propext (hd i)
  exact h

/-- A level without nodes needs no write. -/
theorem Appending.skip (h : Appending sa bs new done s)
    (hnil : (onLevel i (towers bs)).getLast? = none) :
    Appending sa bs new (fun j => done j ∨ j = i) s := by
  refine ⟨h.linkOnly, h.height, h.head, h.back, ?_, ?_⟩
  · rintro j r (hj | rfl) hr
    · exact h.written j r hj hr
    · rw [hnil] at hr
      cases hr
  · intro j r hj
    apply h.kept
    rintro ⟨hd, hr⟩
    exact hj ⟨Or.inl hd, hr⟩

/-- Pointing the last node of level `i` at `new`. -/
theorem Appending.write (h : Appending sa bs new done s) {n : Node K V}
    (hn : sa.node? x.ptr = some n) (hi : i < n.fwd.length)
    (hlast : (onLevel i (towers bs)).getLast? = some x.ptr) :
    ∃ s', s.setFwd (some x.ptr) i (some new) = .ok s' ∧
      Appending sa bs new (fun j => done j ∨ j = i) s' := by
  obtain ⟨n', hn', hpay⟩ := h.linkOnly.node hn
  obtain ⟨s', hs', hstep, hhead, hfwd⟩ :=
    SkipArray.setFwd_spec (some new) hn' (by rw [Node.payload_fwdLen hpay]; exact hi)
  refine ⟨s', hs', h.linkOnly.trans hstep.linkOnly, hstep.height.trans h.height, ?_,
    hstep.same.back.trans h.back, ?_, ?_⟩
  · rw [← h.head]
    funext j
    by_cases hj : j = i
    · rw [hj, hhead]
    · exact hstep.same.head j hj
  · rintro j r hdone hr
    by_cases hj : j = i
    · subst hj
      rw [hlast] at hr
      rw [hfwd, if_pos (Option.some.inj hr).symm]
    · rw [hstep.same.fwd j hj]
      exact h.written j r (hdone.resolve_right hj) hr
  · intro j r hnot
    by_cases hj : j = i
    · subst hj
      have hr : r ≠ x.ptr := by
        rintro rfl
        exact hnot ⟨Or.inr rfl, hlast⟩
      rw [hfwd, if_neg hr]
      apply h.kept
      rintro ⟨-, hr'⟩
      rw [hlast] at hr'
      exact hr (Option.some.inj hr').symm
    · rw [hstep.same.fwd j hj]
      apply h.kept
      rintro ⟨hd, hr⟩
      exact hnot ⟨Or.inl hd, hr⟩

/-- The last block is the last node of every level it reaches. -/
theorem getLast?_onLevel (hi : i < b.height) :
    (onLevel i (towers (A ++ [b]))).getLast? = some b.ptr := by
  have hb : i < (b.ptr, b.height).2 := hi
  rw [towers_append, onLevel_append, towers_cons, onLevel_cons_of_lt hb]
  simp

/-- The last node of a level is a block that reaches it. -/
theorem mem_of_getLast?_onLevel {r : Ptr} (h : (onLevel i (towers bs)).getLast? = some r) :
    ∃ x ∈ bs, x.ptr = r ∧ i < x.height := by
  obtain ⟨ps, hps⟩ := List.getLast?_eq_some_iff.mp h
  obtain ⟨ts₁, k, ts₂, hts, hk, -, -⟩ := onLevel_eq_concat hps
  have hmem : (r, k) ∈ towers bs := by simp [hts]
  obtain ⟨x, hx, hxt⟩ := List.mem_map.mp hmem
  have h₁ : x.ptr = r := congrArg Prod.fst hxt
  have h₂ : x.height = k := congrArg Prod.snd hxt
  exact ⟨x, hx, h₁, by omega⟩

/-- What the trail of a builder holds. -/
structure Trail (maxLevel : ℕ) (bs : List (Block K V)) (trail : List (Option Ptr)) : Prop where
  length_eq : trail.length = maxLevel
  last : ∀ i < maxLevel, trail[i]? = some (onLevel i (towers bs)).getLast?

/-- The loop of `skiparray_builder_append` that moves the trail on, `k` levels in. -/
theorem trailLoop_spec (hl : sa.Linked bs) {trail : List (Option Ptr)}
    (ht : Trail sa.maxLevel bs trail) {m₀ : ℕ} (h : Appending sa bs new (fun i => i < m₀) s) :
    ∀ {k : ℕ}, k ≤ sa.maxLevel → ∃ s' trail', forUp (trailLevel new) k (s, trail) = .ok (s', trail') ∧
      Appending sa bs new (fun i => i < m₀ ∨ i < k) s' ∧ trail'.length = sa.maxLevel ∧
      ∀ i < sa.maxLevel, trail'[i]? =
        some (if i < k then some new else (onLevel i (towers bs)).getLast?)
  | 0, _ => ⟨s, trail, rfl, h.congr (by simp), ht.length_eq, by simpa using ht.last⟩
  | k + 1, hk => by
      obtain ⟨s₁, trail₁, h₁, ha₁, hlen₁, ht₁⟩ := trailLoop_spec hl ht h (k := k) (by omega)
      have hslot : slot trail₁ k = .ok (onLevel k (towers bs)).getLast? := by
        apply slot_of_getElem?
        rw [ht₁ k (by omega), if_neg (lt_irrefl k)]
      have hput : putSlot trail₁ k (some new) = .ok (trail₁.set k (some new)) :=
        putSlot_of_lt (by omega)
      -- the trail after the step, whatever was written
      have htrail : ∀ i < sa.maxLevel, (trail₁.set k (some new))[i]? =
          some (if i < k + 1 then some new else (onLevel i (towers bs)).getLast?) := by
        intro i hi
        rw [List.getElem?_set, ht₁ i hi]
        by_cases hik : k = i
        · rw [if_pos hik, if_pos (by omega), if_pos (by omega)]
        · rw [if_neg hik]
          congr 1
          split_ifs <;> first | rfl | omega
      rw [forUp, h₁, ok_bind, trailLevel]
      simp only [hslot, ok_bind]
      cases hr : (onLevel k (towers bs)).getLast? with
      | none =>
          refine ⟨s₁, _, ?_, (ha₁.skip hr).congr ?_, by simpa using hlen₁, htrail⟩
          · rw [if_pos rfl, pure_eq_ok, ok_bind, hput]
            rfl
          · intro i
            omega
      | some r =>
          obtain ⟨x, hx, rfl, hkx⟩ := mem_of_getLast?_onLevel hr
          obtain ⟨n, hn, hnh, hnf⟩ := hl.node hx
          obtain ⟨n', hn', hpay⟩ := ha₁.linkOnly.node hn
          obtain ⟨s', hs', ha'⟩ := ha₁.write hn (by omega) hr
          refine ⟨s', _, ?_, ha'.congr ?_, by simpa using hlen₁, htrail⟩
          · have hcheck : check (k < n'.height) = .ok () := by
              apply check_of_pos
              rw [Node.payload_height hpay]
              omega
            simp only [reduceCtorEq, if_false, SkipArray.load_eq hn', ok_bind, hcheck, hs', hput]
            rfl
          · intro i
            omega

end Appending

section Append

variable [Inhabited V] {cmp : K → K → ℤ} {sa s s' : SkipArray K V} {A bs : List (Block K V)}
  {b new : Block K V}

theorem SkipArray.Sound.pushNode (h : sa.Sound cmp bs) (n : Node K V) :
    (sa.pushNode n).Sound cmp bs :=
  ⟨h.settings, h.linked.pushNode, fun x hx => (h.stores x hx).pushNode, h.tallest, h.offset_lt,
    h.ascending⟩

/-- A node not yet linked, behind the blocks `A ++ [b]`. -/
structure Loose (sa : SkipArray K V) (A : List (Block K V)) (b new : Block K V) : Prop where
  cell : ∃ n, sa.node? new.ptr = some n ∧ Holds sa.toSettings n new ∧ n.height = new.height ∧
    n.fwd = List.replicate new.height none ∧ n.back = some b.ptr
  fresh : new.ptr ∉ (A ++ [b]).map Block.ptr
  pos : 1 ≤ new.height
  le : new.height ≤ sa.maxLevel
  empty : new.pairs = []
  front : new.offset = 0

/-- With the trail moved on and the missing heads set, `new` is the last block. -/
theorem linkLast_spec (h : sa.Sound cmp (A ++ [b])) (hn : Loose sa A b new)
    (ha : Appending sa (A ++ [b]) new.ptr (fun i => i < new.height) s) (hlo : LinkOnly s s')
    (hheight : s'.height = s.height + (new.height - s.height))
    (hfwd : s'.links.fwd = s.links.fwd) (hback : s'.links.back = s.links.back)
    (hhead : ∀ i, s'.links.head i =
      if s.height ≤ i ∧ i < s.height + (new.height - s.height) then some new.ptr
      else s.links.head i) :
    s'.Sound cmp (A ++ b :: [new]) := by
  obtain ⟨n, hcell, hholds, hnh, hnf, hnb⟩ := hn.cell
  have hall := ha.linkOnly.trans hlo
  have hset : s'.toSettings = sa.toSettings := hall.settings
  have hmax : s'.maxLevel = sa.maxLevel := congrArg Settings.maxLevel hset
  have hpos := hn.pos
  have hle := hn.le
  -- one block more, at the end
  have hsplit : ∀ {P : Block K V → Prop}, (∀ x ∈ A ++ [b], P x) → P new →
      ∀ x ∈ A ++ b :: [new], P x := by
    intro P hP hnew x hx
    rw [List.append_cons] at hx
    rcases List.mem_append.mp hx with hx | hx
    · exact hP x hx
    · rw [List.mem_singleton.mp hx]
      exact hnew
  have hnotin : ∀ i, new.ptr ∉ onLevel i (towers (A ++ [b])) := by
    intro i hi
    apply hn.fresh
    rw [← towers_fst]
    exact onLevel_subset hi
  have hnone : ∀ i, s'.links.fwd i new.ptr = none := by
    intro i
    rw [hfwd, ha.kept i new.ptr]
    · simp only [SkipArray.links, hcell, Option.bind_some, hnf, List.getElem?_replicate]
      split_ifs <;> rfl
    · rintro ⟨-, hr⟩
      exact hnotin i (List.mem_of_getLast? hr)
  have hreach : ∀ i < sa.height, onLevel i (towers (A ++ [b])) ≠ [] := by
    intro i hi hnil
    obtain ⟨t, ht, hth⟩ := h.tallest.2
    exact onLevel_towers_ne_nil (i := i) ht (by omega) (by rw [hnil]; rfl)
  have hlevels : ∀ i < sa.maxLevel, s'.links.Level i (towers (A ++ b :: [new])) := by
    intro i hi
    have hl := h.linked.spells.level i hi
    rw [← List.append_nil (towers (A ++ [b]))] at hl
    rw [List.append_cons, towers_append (A ++ [b])]
    by_cases hin : i < new.height
    · refine insertLevel hl hin ?_ ?_ ?_ ?_ ?_ ?_
      · rw [List.map_nil, List.append_nil]
        exact h.linked.spells.nodup_onLevel i
      · rw [List.map_nil, List.append_nil]
        exact hnotin i
      · rw [hnone i]
        rfl
      · intro hnil
        have : ¬ i < sa.height := fun hlt => hreach i hlt hnil
        rw [hhead i, if_pos (by rw [ha.height]; omega)]
      · intro x hx
        have hlt : i < sa.height := by
          by_contra hge
          have : onLevel i (towers (A ++ [b])) = [] := by
            apply onLevel_eq_nil
            intro t ht
            obtain ⟨y, hy, rfl⟩ := List.mem_map.mp ht
            exact le_trans (h.tallest.1 y hy) (by omega)
          rw [this] at hx
          cases hx
        refine ⟨?_, ?_⟩
        · rw [hhead i, if_neg (by rw [ha.height]; omega), ha.head]
        · rw [hfwd, ha.written i x hin hx]
      · intro p _ hp
        rw [hfwd]
        apply ha.kept
        rintro ⟨-, hr⟩
        exact hp hr
    · refine insertLevel_of_le hl (by omega) ?_ ?_
      · rw [hhead i, if_neg (by omega), ha.head]
      · intro p _
        rw [hfwd]
        apply ha.kept
        rintro ⟨hlt, -⟩
        exact hin hlt
  have hnodup : ((towers (A ++ b :: [new])).map Prod.fst).Nodup := by
    rw [towers_fst, List.append_cons, List.map_append, List.nodup_append]
    refine ⟨h.linked.ptr_nodup, by simp, ?_⟩
    rintro p hp q hq rfl
    rw [List.map_cons, List.map_nil, List.mem_singleton] at hq
    exact hn.fresh (hq ▸ hp)
  refine ⟨hset ▸ h.settings, ⟨⟨hnodup, ?_, ?_⟩, ?_, ?_, ?_⟩, ?_, ?_, ?_, ?_⟩
  · rw [hmax]
    exact hlevels
  · have hb := h.linked.spells.backs
    rw [towers_fst] at hb
    rw [towers_fst, List.append_cons, List.map_append, backs_append, hback, ha.back]
    refine ⟨hb, ?_⟩
    simp only [List.map_cons, List.map_nil, backs_cons, backs_nil, and_true]
    rw [SkipArray.links_back hcell, hnb]
    simp
  · rw [hall.nodesLen, h.linked.nodesLen, hmax]
  · refine hsplit (fun x hx => hall.alive (h.linked.alive x hx)) (hall.alive ⟨n, hcell, hnh, ?_⟩)
    rw [hnf, List.length_replicate]
  · rw [hmax]
    exact hsplit h.linked.top ⟨hpos, hle⟩
  · exact hsplit (fun x hx => hall.stores (h.stores x hx)) (hall.stores ⟨n, hcell, hholds⟩)
  · have hh : s'.height = sa.height + (new.height - sa.height) := by rw [hheight, ha.height]
    refine ⟨?_, ?_⟩
    · rw [hh]
      refine hsplit (fun x hx => ?_) (by omega)
      have := h.tallest.1 x hx
      omega
    · obtain ⟨t, ht, hth⟩ := h.tallest.2
      by_cases hgt : sa.height < new.height
      · exact ⟨new, by simp, by omega⟩
      · refine ⟨t, ?_, by omega⟩
        rw [List.append_cons]
        exact List.mem_append_left _ ht
  · have hsize : s'.nodeSize = sa.nodeSize := congrArg Settings.nodeSize hset
    rw [hsize]
    refine hsplit h.offset_lt ?_
    have := h.settings.two_le
    rw [hn.front]
    omega
  · have hbind : bindings (A ++ b :: [new]) = bindings (A ++ [b]) := by simp [hn.empty]
    rw [hbind]
    exact h.ascending

end Append

/-! ## The builder's invariant -/

section Building

variable [Inhabited K] [Inhabited V] {cmp : K → K → ℤ} {b : Builder K V} {A bs : List (Block K V)}
  {x : Block K V} {c : Ctx K V U}

/-- A builder whose skiparray has the blocks `bs`. -/
structure Building (cmp : K → K → ℤ) (b : Builder K V) (bs : List (Block K V)) : Prop where
  wf : b.sa.Wf cmp bs
  iter : b.sa.iter = none
  iters : b.sa.iters = []
  last : b.last = (bs.map Block.ptr).getLast?
  packed : ∀ x ∈ bs, x.offset = 0
  full : ∀ x ∈ bs.dropLast, x.pairs.length = b.sa.nodeSize
  trail : Trail b.sa.maxLevel bs b.trail
  checked : b.hasPrevKey = (b.checkAscending && !(bindings bs).isEmpty)
  prev : b.hasPrevKey = true → ∃ p, (bindings bs).getLast? = some p ∧ b.prevKey = p.1

/-- `skiparray_builder_append` starts a new last node. -/
theorem appendNode_spec (cb : Callbacks K U) (h : Building cmp b (A ++ [x])) (c : Ctx K V U)
    {height : ℕ} (hheight : height = newHeight b.sa.maxLevel (b.sa.nextLevel cb c)) :
    ∃ grown sa' c', appendNode cb b c = .ok (grown, sa', c') ∧ c'.freed = c.freed ∧
      (cb.AllGranted → grown ≠ none) ∧
      (grown = none → (∃ prngState, sa' = { b.sa with prngState }) ∧
        ∀ c₀ live, Ledger cb c₀ c live → Ledger cb c₀ c' live) ∧
      ∀ b', grown = some b' → ∃ new trail, new = ⟨b.sa.heap.length, height, 0, []⟩ ∧
        b' = { b with sa := sa', trail, last := some new.ptr } ∧ Keeps b.sa sa' ∧
        Gains height b.sa sa' ∧
        sa'.Sound cmp (A ++ x :: [new]) ∧ Trail sa'.maxLevel (A ++ x :: [new]) trail ∧
        ∀ c₀ live, Ledger cb c₀ c (b.sa.blocks (A ++ [x]) + live) →
          Ledger cb c₀ c' (sa'.blocks (A ++ x :: [new]) + live) := by
  have hlast : b.last = some x.ptr := by
    rw [h.last]
    simp
  obtain ⟨nx, hnx, hnxh, hnxf⟩ := h.wf.linked.node (b := x) (by simp)
  obtain ⟨⟨lv, prng, udata⟩, hcall⟩ :
    ∃ r, callLevel cb b.sa.level b.sa.prngState b.sa.prngState c.udata = r := ⟨_, rfl⟩
  have hbounds := newHeight_bounds h.wf.settings (b.sa.nextLevel cb c)
  rw [← hheight] at hbounds
  unfold newHeight SkipArray.nextLevel at hheight
  rw [hcall] at hheight
  simp only [appendNode, hlast, SkipArray.load_eq hnx, ok_bind, hcall, ← hheight]
  obtain ⟨r, c', halloc, hfreed, -, hfresh, hgrant⟩ :=
    nodeAlloc_spec cb h.wf.settings hbounds.1 { c with udata }
  have hled : ∀ c₀ live, Ledger cb c₀ c live →
      Ledger cb c₀ c' ((r.elim [] Node.blocks : List ℕ) + live) := fun c₀ live hl =>
    nodeAlloc_ledger (c := { c with udata }) (hl.congr rfl rfl) halloc
  simp only [halloc, ok_bind]
  cases r with
  | none =>
      refine ⟨none, _, c', rfl, hfreed, fun hg => absurd rfl (hgrant hg), fun _ => ⟨⟨prng, rfl⟩, ?_⟩,
        by simp⟩
      intro c₀ live hl
      simpa using hled c₀ live hl
  | some nd =>
      have hf := hfresh nd rfl
      set sa₀ : SkipArray K V := { b.sa with prngState := prng } with hsa₀
      set nd' : Node K V := { nd with back := some x.ptr, offset := 0 } with hnd'
      set new : Block K V := ⟨sa₀.heap.length, height, 0, []⟩ with hnew
      have h₀ : sa₀.Sound cmp (A ++ [x]) := h.wf.toSound.of_body rfl rfl rfl rfl
      have hp := h₀.pushNode nd'
      have hndh : nd.height = height := hf.height_eq
      have hholds : Holds sa₀.toSettings nd' new := by
        have := (hf.holds sa₀.heap.length).moveEmpty rfl (Nat.zero_le _)
        exact ⟨this.offset, this.count, this.keys, this.valuesSome, this.valuesNone⟩
      have hfreshPtr : new.ptr ∉ (A ++ [x]).map Block.ptr := by
        intro hm
        obtain ⟨y, hy, hyp⟩ := List.mem_map.mp hm
        obtain ⟨n, hn, -⟩ := h₀.linked.node hy
        have := SkipArray.lt_of_node? hn
        rw [hyp] at this
        exact lt_irrefl _ this
      have hloose : Loose (sa₀.pushNode nd') A x new :=
        ⟨⟨nd', SkipArray.node?_pushNode_self, hholds, hndh, hf.fwd, rfl⟩, hfreshPtr, hbounds.1,
          hbounds.2, rfl, rfl⟩
      have hnx' : (sa₀.pushNode nd').node? x.ptr = some nx := SkipArray.node?_pushNode hnx
      -- the last node's links
      obtain ⟨s₁, h₁, ha₁⟩ : ∃ s₁, forUp (fun i sa => sa.setFwd (some x.ptr) i (some new.ptr))
          (if nx.height < nd.height then nx.height else nd.height) (sa₀.pushNode nd') = .ok s₁ ∧
          Appending (sa₀.pushNode nd') (A ++ [x]) new.ptr
            (fun i => i < if nx.height < nd.height then nx.height else nd.height) s₁ := by
        refine forUp_ok (P := fun k s => Appending (sa₀.pushNode nd') (A ++ [x]) new.ptr
          (fun i => i < k) s) ((Appending.refl _ _ _).congr (by simp)) ?_
        intro i s hi ha
        have hix : i < x.height := by split_ifs at hi <;> omega
        obtain ⟨s', hs', ha'⟩ := ha.write hnx' (by omega) (getLast?_onLevel hix)
        exact ⟨s', hs', ha'.congr fun j => by omega⟩
      -- the trail
      obtain ⟨s₂, trail, h₂, ha₂, hlen₂, ht₂⟩ := trailLoop_spec hp.linked h.trail ha₁ hbounds.2
      have ha₂' : Appending (sa₀.pushNode nd') (A ++ [x]) new.ptr (fun i => i < new.height) s₂ := by
        apply ha₂.congr
        intro i
        rw [hndh]
        change i < height ↔ _
        split_ifs <;> omega
      -- the missing heads
      have hset₂ : s₂.toSettings = b.sa.toSettings := ha₂.linkOnly.settings
      have hmax₂ : s₂.maxLevel = b.sa.maxLevel := congrArg Settings.maxLevel hset₂
      have hsize : sa₀.height ≤ b.sa.maxLevel := h₀.topmost.2.1
      have hheight₂ : s₂.height = sa₀.height := ha₂.height
      obtain ⟨s₃, h₃, hlo₃, hh₃, hf₃, hb₃, hhd₃⟩ := raiseHeight_spec (p := new.ptr)
        (k := new.height - s₂.height) s₂
        (by rw [ha₂.linkOnly.nodesLen, hmax₂]; exact hp.linked.nodesLen)
        (by rw [hmax₂]; exact h.wf.settings.maxLevel_lt)
        (by rw [hmax₂, hheight₂]; have := hbounds.2; change _ + (height - _) ≤ _; omega)
      have hsound := linkLast_spec hp hloose ha₂' hlo₃ hh₃ hf₃ hb₃ hhd₃
      have hall := ha₂.linkOnly.trans hlo₃
      have hmax₃ : s₃.maxLevel = b.sa.maxLevel := congrArg Settings.maxLevel hall.settings
      have hfirst : s₃.fwdAt (some x.ptr) 0 = .ok (some new.ptr) := by
        have := hsound.linked.next
        simpa using this
      refine ⟨some { b with sa := s₃, trail, last := some new.ptr }, s₃, c', ?_, hfreed, by simp,
        by simp, ?_⟩
      · have h₁' : forUp (fun i sa => sa.setFwd (some x.ptr) i (some b.sa.heap.length))
            (if nx.height < nd.height then nx.height else nd.height) (sa₀.pushNode nd') =
              .ok s₁ := h₁
        have h₂' : forUp (trailLevel b.sa.heap.length) nd.height (s₁, b.trail) =
            .ok (s₂, trail) := by
          rw [hndh]
          exact h₂
        have h₃' : raiseHeight b.sa.heap.length (nd.height - s₂.height) s₂ = .ok s₃ := by
          rw [hndh]
          exact h₃
        have hfirst' : s₃.fwdAt (some x.ptr) 0 = .ok (some b.sa.heap.length) := hfirst
        rw [hnd'] at h₁'
        simp only [h₁', ok_bind, h₂', h₃', hfirst', check_of_pos]
        rfl
      · intro b' hb'
        cases hb'
        have hgain : Gains height sa₀ s₃ := by
          have hheight' : nd'.height = height := hndh
          rw [← hheight']
          exact Gains.pushNode.trans hall.inherits
        refine ⟨new, trail, rfl, rfl, ⟨hall.settings, hall.iter, hall.iters⟩,
          ⟨hgain.heapLen, hgain.old, hgain.new⟩, hsound, ?_, ?_⟩
        · rw [hmax₃]
          refine ⟨hlen₂, ?_⟩
          intro i hi
          have htow : towers (A ++ x :: [new]) = towers (A ++ [x]) ++ [(new.ptr, new.height)] := by
            simp
          rw [ht₂ i hi, htow, onLevel_append]
          by_cases hih : i < height
          · have hn : i < (new.ptr, new.height).2 := hih
            rw [if_pos hih, onLevel_cons_of_lt hn]
            simp
          · have hn : (new.ptr, new.height).2 ≤ i := Nat.le_of_not_lt hih
            rw [if_neg hih, onLevel_cons_of_le hn]
            simp
        · intro c₀ live hl
          rw [hall.blocks, List.append_cons, h₀.blocks_pushNode nd' new rfl, ← Multiset.coe_add,
            add_comm (sa₀.blocks (A ++ [x]) : Multiset ℕ), add_assoc]
          exact hled c₀ _ hl

omit [Inhabited K] in
/-- The last node takes one more pair. -/
theorem storePair_spec {sa : SkipArray K V} (h : sa.Sound cmp (A ++ [x])) (hoff : x.offset = 0)
    (hroom : x.pairs.length < sa.nodeSize) {key : K} (value : V)
    (hasc : ∀ p ∈ bindings (A ++ [x]), cmp p.1 key < 0) :
    ∃ n keys values, sa.node? x.ptr = some n ∧ putSlot n.keys n.count key = .ok keys ∧
      ((match n.values with
        | none => pure none
        | some vs => some <$> putSlot vs n.count value) : Except Fault (Option (List V))) =
          .ok values ∧
      n.SameLinks { n with keys, values, count := u16 (n.count + 1) } ∧
      (sa.setNode x.ptr { n with keys, values, count := u16 (n.count + 1) }).Sound cmp
        (A ++ [{ x with pairs := x.pairs ++ [(key, sa.stored value)] }]) := by
  obtain ⟨n, hn, hh⟩ := h.stores x (by simp)
  have hlt := h.settings.nodeSize_lt
  have hcnt : n.count = 0 + (x.pairs.map Prod.fst).length := by
    rw [hh.count, List.length_map, Nat.zero_add]
  have hcnt' : n.count = 0 + (x.pairs.map Prod.snd).length := by
    rw [hh.count, List.length_map, Nat.zero_add]
  have hu : u16 ((n.count : ℤ) + 1) = x.pairs.length + 1 := by
    rw [hh.count]
    exact_mod_cast u16_of_lt (n := x.pairs.length + 1) (by omega)
  have hkeys := hh.keys
  rw [hoff] at hkeys
  have hklen := hkeys.size_eq
  have hpush := hkeys.push (by rw [List.length_map]; omega) key
  rw [← hcnt] at hpush
  have hbind : bindings (A ++ [{ x with pairs := x.pairs ++ [(key, sa.stored value)] }]) =
      bindings (A ++ [x]) ++ [(key, sa.stored value)] := by
    simp
  have hall : Ascending cmp
      (bindings (A ++ [{ x with pairs := x.pairs ++ [(key, sa.stored value)] }])) := by
    have hfirst : Ascending cmp (bindings (A ++ [x]) ++ []) := by
      rw [List.append_nil]
      exact h.ascending
    rw [hbind]
    exact hfirst.insert (v := sa.stored value) hasc (by simp)
  have hkput : putSlot n.keys n.count key = .ok (n.keys.set n.count key) :=
    putSlot_of_lt (by rw [hh.count]; omega)
  cases hv : sa.useValues with
  | false =>
      obtain ⟨hnone, hdef⟩ := hh.valuesNone hv
      have hsame : n.SameLinks { n with
          keys := n.keys.set n.count key, values := none, count := u16 (n.count + 1) } :=
        ⟨rfl, rfl, rfl, by simp [Node.blocks, hnone]⟩
      refine ⟨n, n.keys.set n.count key, none, hn, hkput, by rw [hnone]; rfl, hsame,
        h.update hn hsame ⟨hh.offset, ?_, ?_, ?_, ?_⟩ ?_ hall⟩
      · rw [List.length_append]
        exact hu
      · rw [hoff]
        simpa using hpush
      · rintro hu'
        exact absurd (hv.symm.trans hu') (by simp)
      · rintro -
        refine ⟨rfl, ?_⟩
        intro p hp
        rcases List.mem_append.mp hp with hp | hp
        · exact hdef p hp
        · rw [List.mem_singleton.mp hp]
          simp [Settings.stored, hv]
      · exact hoff ▸ h.offset_lt x (by simp)
  | true =>
      obtain ⟨vs, hvs, hvals⟩ := hh.valuesSome hv
      rw [hoff] at hvals
      have hvlen := hvals.size_eq
      have hvpush := hvals.push (by rw [List.length_map]; omega) value
      rw [← hcnt'] at hvpush
      have hvput : putSlot vs n.count value = .ok (vs.set n.count value) :=
        putSlot_of_lt (by rw [hh.count]; omega)
      have hsame : n.SameLinks { n with
          keys := n.keys.set n.count key
          values := some (vs.set n.count value)
          count := u16 (n.count + 1) } :=
        ⟨rfl, rfl, rfl, by simp [Node.blocks, hvs]⟩
      refine ⟨n, n.keys.set n.count key, some (vs.set n.count value), hn, hkput, ?_, hsame,
        h.update hn hsame ⟨hh.offset, ?_, ?_, ?_, ?_⟩ ?_ hall⟩
      · rw [hvs]
        simp only [hvput]
        rfl
      · rw [List.length_append]
        exact hu
      · rw [hoff]
        simpa using hpush
      · rintro -
        refine ⟨_, rfl, ?_⟩
        rw [hoff]
        simpa [Settings.stored, hv] using hvpush
      · rintro hu'
        exact absurd (hv.symm.trans hu') (by simp)
      · exact hoff ▸ h.offset_lt x (by simp)

/-- The blocks once pair `p` has been appended to the last one, `x`, or to a new
one when `x` is full. -/
def appendBlocks (nodeSize : ℕ) (new : Ptr) (height : ℕ) (A : List (Block K V)) (x : Block K V)
    (p : K × V) : List (Block K V) :=
  if x.pairs.length = nodeSize then A ++ x :: [⟨new, height, 0, [p]⟩]
  else A ++ [{ x with pairs := x.pairs ++ [p] }]

omit [Inhabited K] [Inhabited V] in
theorem bindings_appendBlocks (nodeSize : ℕ) (new : Ptr) (height : ℕ) (p : K × V) :
    bindings (appendBlocks nodeSize new height A x p) = bindings (A ++ [x]) ++ [p] := by
  unfold appendBlocks
  split_ifs <;> simp

omit [Inhabited K] in
/-- The PRNG state is no concern of the builder. -/
theorem Building.withPrngState (h : Building cmp b bs) (prngState : UInt64) :
    Building cmp { b with sa := { b.sa with prngState } } bs :=
  ⟨⟨h.wf.toSound.of_body rfl rfl rfl rfl, h.wf.shape⟩, h.iter, h.iters, h.last, h.packed, h.full,
    h.trail, h.checked, h.prev⟩

/-- What a call of `skiparray_builder_append` does to a builder. -/
inductive AppendOutcome (cb : Callbacks K U) (b : Builder K V) (bs : List (Block K V))
    (c : Ctx K V U) (key : K) (value : V) : AppendRes → Builder K V → Ctx K V U → Prop where
  | misuse (hge : ∃ p ∈ bindings bs, ¬ cb.cmp b.sa.cmp p.1 key < 0) :
      AppendOutcome cb b bs c key value .errorMisuse b c
  | memory {prngState : UInt64} {c' : Ctx K V U} (hg : ¬ cb.AllGranted) (hne : bindings bs ≠ [])
      (hlt : ∀ p ∈ bindings bs, cb.cmp b.sa.cmp p.1 key < 0)
      (hled : ∀ c₀ live, Ledger cb c₀ c live → Ledger cb c₀ c' live) :
      AppendOutcome cb b bs c key value .errorMemory { b with sa := { b.sa with prngState } } c'
  | ok {b' : Builder K V} {c' : Ctx K V U} {A : List (Block K V)} {x : Block K V}
      {bs' : List (Block K V)} (hlt : ∀ p ∈ bindings bs, cb.cmp b.sa.cmp p.1 key < 0)
      (hbs : bs = A ++ [x])
      (hbs' : bs' = appendBlocks b.sa.nodeSize b.sa.heap.length
        (newHeight b.sa.maxLevel (b.sa.nextLevel cb c)) A x (key, b.sa.stored value))
      (hb : Building (cb.cmp b.sa.cmp) b' bs')
      (hnodes : Inherits b.sa b'.sa ∨
        Gains (newHeight b.sa.maxLevel (b.sa.nextLevel cb c)) b.sa b'.sa)
      (hled : ∀ c₀ live, Ledger cb c₀ c (b.sa.blocks bs + live) →
        Ledger cb c₀ c' (b'.sa.blocks bs' + live)) :
      AppendOutcome cb b bs c key value .ok b' c'

/-- What a call of `skiparray_builder_append` leaves alone in a builder. -/
structure Builder.Keeps (b b' : Builder K V) : Prop where
  settings : b'.sa.toSettings = b.sa.toSettings
  block : b'.block = b.block
  checkAscending : b'.checkAscending = b.checkAscending

omit [Inhabited K] [Inhabited V] in
/-- A key above the last one is above them all. -/
theorem above_all (hc : LawfulCmp cmp) {l : List (K × V)} (ha : Ascending cmp l) {key : K}
    (hlast : ∀ p, l.getLast? = some p → cmp p.1 key < 0) : ∀ p ∈ l, cmp p.1 key < 0 := by
  rcases List.eq_nil_or_concat l with rfl | ⟨xs, q, rfl⟩
  · simp
  · rw [List.concat_eq_append] at ha hlast ⊢
    have hq := hlast q (by simp)
    intro p hp
    rcases List.mem_append.mp hp with hp | hp
    · exact hc.lt_trans ((Ascending.append_iff.mp ha).2.2 p hp q (by simp)) hq
    · rw [List.mem_singleton.mp hp]
      exact hq

omit [Inhabited K] in
/-- Storing the pair completes an append. -/
theorem finishAppend_spec (cb : Callbacks K U) (b₁ : Builder K V) {y : Block K V}
    {bs₁ : List (Block K V)} (hbs : bs₁ = A ++ [y])
    (h : b₁.sa.Sound (cb.cmp b₁.sa.cmp) bs₁) (hiter : b₁.sa.iter = none)
    (hiters : b₁.sa.iters = []) (hlast : b₁.last = some y.ptr) (hpacked : ∀ z ∈ bs₁, z.offset = 0)
    (hfull : ∀ z ∈ A, z.pairs.length = b₁.sa.nodeSize) (ht : Trail b₁.sa.maxLevel bs₁ b₁.trail)
    (hroom : y.pairs.length < b₁.sa.nodeSize)
    (hflag : b₁.checkAscending = false → b₁.hasPrevKey = false) (key : K) (value : V)
    (hasc : ∀ p ∈ bindings bs₁, cb.cmp b₁.sa.cmp p.1 key < 0) (c : Ctx K V U) :
    ∃ b', (do
        let last ← b₁.sa.load b₁.last
        let keys ← putSlot last.keys last.count key
        let values ← (match last.values with
          | none => pure none
          | some vs => some <$> putSlot vs last.count value)
        let sa ← b₁.sa.store b₁.last { last with keys, values, count := u16 (last.count + 1) }
        let b := { b₁ with sa }
        if b.checkAscending then
          return (.ok, { b with hasPrevKey := true, prevKey := key }, c)
        else
          return (.ok, b, c)) = (.ok (.ok, b', c) : Except Fault (AppendRes × Builder K V × Ctx K V U))
        ∧ b₁.Keeps b' ∧ Inherits b₁.sa b'.sa ∧
      Building (cb.cmp b₁.sa.cmp) b' (A ++ [{ y with
        pairs := y.pairs ++ [(key, b₁.sa.stored value)] }]) ∧
      b'.sa.blocks (A ++ [{ y with pairs := y.pairs ++ [(key, b₁.sa.stored value)] }]) =
        b₁.sa.blocks bs₁ := by
  subst hbs
  obtain ⟨n, keys, values, hn, hkeys, hvalues, hsame, hsound⟩ :=
    storePair_spec h (hpacked y (by simp)) hroom value hasc
  set sa' := b₁.sa.setNode y.ptr { n with keys, values, count := u16 (n.count + 1) } with hsa'
  set y' : Block K V := { y with pairs := y.pairs ++ [(key, b₁.sa.stored value)] } with hy'
  have htow : towers (A ++ [y']) = towers (A ++ [y]) := by simp [hy']
  have htwo := h.settings.two_le
  have hwf : sa'.Wf (cb.cmp b₁.sa.cmp) (A ++ [y']) := by
    refine ⟨hsound, ?_⟩
    refine ⟨?_, ?_⟩
    · intro z hz
      rw [List.dropLast_concat] at hz
      rw [hfull z hz]
      exact Nat.div_le_self ..
    · rintro - z hz
      rcases List.mem_append.mp hz with hz | hz
      · apply List.ne_nil_of_length_pos
        rw [hfull z hz]
        omega
      · rw [List.mem_singleton.mp hz, hy']
        simp
  have hbind : bindings (A ++ [y']) = bindings (A ++ [y]) ++ [(key, b₁.sa.stored value)] := by
    simp [hy']
  have hlast' : some y.ptr = ((A ++ [y']).map Block.ptr).getLast? := by
    simp [hy']
  have hpacked' : ∀ z ∈ A ++ [y'], z.offset = 0 := by
    intro z hz
    rcases List.mem_append.mp hz with hz | hz
    · exact hpacked z (by simp [hz])
    · rw [List.mem_singleton.mp hz]
      exact hpacked y (by simp)
  have hfull' : ∀ z ∈ (A ++ [y']).dropLast, z.pairs.length = sa'.nodeSize := by
    rw [List.dropLast_concat]
    exact hfull
  have ht' : Trail sa'.maxLevel (A ++ [y']) b₁.trail := by
    refine ⟨ht.length_eq, ?_⟩
    rw [htow]
    exact ht.last
  have hblocks : sa'.blocks (A ++ [y']) = b₁.sa.blocks (A ++ [y]) := by
    rw [SkipArray.blocks_setNode hn hsame]
    simp [SkipArray.blocks, hy']
  have hinh : Inherits b₁.sa sa' := Inherits.setNode hn hsame.height
  simp only [hlast, SkipArray.load_eq hn, ok_bind, hkeys, hvalues, SkipArray.store]
  cases hcheck : b₁.checkAscending with
  | true =>
      refine ⟨_, rfl, ⟨rfl, rfl, hcheck.symm⟩, hinh,
        ⟨hwf, hiter, hiters, hlast', hpacked', hfull', ht', ?_, ?_⟩, hblocks⟩
      · simp [hbind]
      · rintro -
        refine ⟨(key, b₁.sa.stored value), ?_, rfl⟩
        rw [hbind]
        simp
  | false =>
      have hno := hflag hcheck
      refine ⟨_, rfl, ⟨rfl, rfl, hcheck.symm⟩, hinh,
        ⟨hwf, hiter, hiters, hlast', hpacked', hfull', ht', ?_, ?_⟩, hblocks⟩
      · simp [hno]
      · rintro hyes
        exact absurd (hno.symm.trans hyes) (by simp)

/-- `skiparray_builder_append` rejects a key that is not above the last one, if
it checks, and adds the pair at the end otherwise, if memory suffices. -/
theorem skiparrayBuilderAppend_spec (cb : Callbacks K U) (hc : LawfulCmp (cb.cmp b.sa.cmp))
    (h : Building (cb.cmp b.sa.cmp) b bs) (c : Ctx K V U) (key : K) (value : V)
    (hskip : b.checkAscending = false → ∀ p ∈ bindings bs, cb.cmp b.sa.cmp p.1 key < 0) :
    ∃ res b' c', skiparrayBuilderAppend cb b c key value = .ok (res, b', c') ∧
      c'.freed = c.freed ∧ b.Keeps b' ∧ AppendOutcome cb b bs c key value res b' c' := by
  obtain ⟨A, x, rfl⟩ : ∃ A x, bs = A ++ [x] := by
    rcases List.eq_nil_or_concat bs with hnil | ⟨A, x, hbs⟩
    · exact absurd hnil h.wf.tallest.ne_nil
    · exact ⟨A, x, by rw [hbs, List.concat_eq_append]⟩
  have hlast : b.last = some x.ptr := by
    rw [h.last]
    simp
  obtain ⟨n, hn, hh⟩ := h.wf.stores x (by simp)
  have hoff : n.offset = 0 := by
    rw [hh.offset]
    exact h.packed x (by simp)
  simp only [skiparrayBuilderAppend, hlast, SkipArray.load_eq hn, ok_bind, hoff, check_of_pos]
  by_cases hmis : b.hasPrevKey = true ∧ cb.cmp b.sa.cmp key b.prevKey ≤ 0
  · obtain ⟨p, hp, hprev⟩ := h.prev hmis.1
    rw [if_pos hmis]
    refine ⟨_, b, c, rfl, rfl, ⟨rfl, rfl, rfl⟩, .misuse ⟨p, List.mem_of_getLast? hp, ?_⟩⟩
    have hle := hmis.2
    rw [hprev] at hle
    have := hc.swap p.1 key
    omega
  have hlt : ∀ p ∈ bindings (A ++ [x]), cb.cmp b.sa.cmp p.1 key < 0 := by
    cases hcheck : b.checkAscending with
    | false => exact hskip hcheck
    | true =>
        apply above_all hc h.wf.ascending
        intro p hp
        have hne : (bindings (A ++ [x])).isEmpty = false := by
          cases hb : bindings (A ++ [x]) with
          | nil =>
              rw [hb] at hp
              cases hp
          | cons q l => rfl
        have hyes : b.hasPrevKey = true := by rw [h.checked, hcheck, hne]; rfl
        obtain ⟨q, hq, hprev⟩ := h.prev hyes
        rw [hp] at hq
        cases hq
        have hgt : ¬ cb.cmp b.sa.cmp key b.prevKey ≤ 0 := fun hle => hmis ⟨hyes, hle⟩
        rw [hprev] at hgt
        exact (hc.swap p.1 key).mpr (by omega)
  have hflag : b.checkAscending = false → b.hasPrevKey = false := by
    rintro hno
    rw [h.checked, hno]
    rfl
  rw [if_neg hmis, hh.count]
  by_cases hfull : x.pairs.length = b.sa.nodeSize
  · obtain ⟨grown, sa', c', happ, hfreed, hgrant, hnone, hsome⟩ := appendNode_spec cb h c rfl
    rw [if_pos hfull, happ, ok_bind]
    cases grown with
    | none =>
        obtain ⟨⟨prng, rfl⟩, hled⟩ := hnone rfl
        refine ⟨_, { b with sa := { b.sa with prngState := prng } }, c', ?_, hfreed,
          ⟨rfl, rfl, rfl⟩, .memory (fun hg => hgrant hg rfl) ?_ hlt hled⟩
        · rw [← hlast]
          rfl
        · -- a full node holds pairs
          have htwo := h.wf.settings.two_le
          apply List.ne_nil_of_length_pos
          simp [hfull]
          omega
    | some b₁ =>
        obtain ⟨new, trail, rfl, rfl, hkeep, hgain, hsound, ht, hled⟩ := hsome b₁ rfl
        have hcmp : cb.cmp sa'.cmp = cb.cmp b.sa.cmp := by rw [hkeep.settings]
        have hsize : sa'.nodeSize = b.sa.nodeSize := congrArg Settings.nodeSize hkeep.settings
        have htwo := h.wf.settings.two_le
        generalize hnew : (⟨b.sa.heap.length, newHeight b.sa.maxLevel (b.sa.nextLevel cb c), 0, []⟩ :
          Block K V) = new at hsound ht hled ⊢
        have hnil : new.pairs = [] := by rw [← hnew]
        have hbind : bindings (A ++ x :: [new]) = bindings (A ++ [x]) := by simp [hnil]
        have hpacked : ∀ z ∈ A ++ x :: [new], z.offset = 0 := by
          intro z hz
          rw [List.append_cons] at hz
          rcases List.mem_append.mp hz with hz | hz
          · exact h.packed z hz
          · rw [List.mem_singleton.mp hz, ← hnew]
        have hfull' : ∀ z ∈ A ++ [x], z.pairs.length = sa'.nodeSize := by
          intro z hz
          rw [hsize]
          rcases List.mem_append.mp hz with hz | hz
          · exact h.full z (by rw [List.dropLast_concat]; exact hz)
          · rw [List.mem_singleton.mp hz]
            exact hfull
        set b₁ : Builder K V := { b with sa := sa', trail, last := some new.ptr } with hb₁
        obtain ⟨b', heq, hkeep', hinh, hb', hblocks⟩ := finishAppend_spec cb b₁
          (List.append_cons A x [new]) (hcmp ▸ hsound) (hkeep.iter.trans h.iter)
          (hkeep.iters.trans h.iters) rfl hpacked hfull' ht
          (by rw [hnil, List.length_nil]; change 0 < sa'.nodeSize; omega) hflag key value
          (by
            rw [hbind]
            change ∀ p ∈ bindings (A ++ [x]), cb.cmp sa'.cmp p.1 key < 0
            rw [hcmp]
            exact hlt) c'
        have hlast₁ : ({ new with pairs := new.pairs ++ [(key, b₁.sa.stored value)] } : Block K V) =
            ⟨b.sa.heap.length, newHeight b.sa.maxLevel (b.sa.nextLevel cb c), 0,
              [(key, b.sa.stored value)]⟩ := by
          rw [← hnew, ← hkeep.settings]
          rfl
        rw [hlast₁, ← List.append_cons] at hb' hblocks
        refine ⟨.ok, b', c', heq, hfreed, ⟨hkeep'.settings.trans hkeep.settings, hkeep'.block,
          hkeep'.checkAscending⟩, .ok hlt rfl (by rw [appendBlocks, if_pos hfull]) (hcmp ▸ hb')
          (Or.inr (hgain.trans hinh)) ?_⟩
        intro c₀ live hl
        rw [hblocks]
        exact hled c₀ live hl
  · have hroom : x.pairs.length < b.sa.nodeSize := by
      have := hh.bound
      omega
    obtain ⟨b', heq, hkeep', hinh, hb', hblocks⟩ := finishAppend_spec cb b rfl
      h.wf.toSound h.iter h.iters hlast h.packed (by simpa using h.full) h.trail hroom hflag key
      value hlt c
    rw [if_neg hfull, pure_eq_ok, ok_bind]
    refine ⟨.ok, b', c, heq, rfl, hkeep', .ok hlt rfl (by rw [appendBlocks, if_neg hfull]) hb'
      (Or.inl hinh) ?_⟩
    intro c₀ live hl
    rw [hblocks]
    exact hl

/-! ## A new builder -/

omit [Inhabited K] [Inhabited V] in
/-- The loop of `skiparray_builder_new` over the levels of the first node. -/
theorem firstTrail_spec {sa : SkipArray K V} (h : sa.Linked [x]) {height : ℕ}
    (hheight : height = x.height) :
    ∃ trail, forUp (fun i trail => do
        let head ← sa.headAt i
        check (some x.ptr = head)
        putSlot trail i (some x.ptr)) height (List.replicate sa.maxLevel none) = .ok trail ∧
      Trail sa.maxLevel [x] trail := by
  subst hheight
  have htop := (h.top x (by simp)).2
  obtain ⟨trail, htrail, hlen, hval⟩ : ∃ trail, forUp (fun i trail => do
        let head ← sa.headAt i
        check (some x.ptr = head)
        putSlot trail i (some x.ptr)) x.height (List.replicate sa.maxLevel none) = .ok trail ∧
      trail.length = sa.maxLevel ∧ ∀ i < sa.maxLevel, trail[i]? =
        some (if i < x.height then some x.ptr else none) := by
    refine forUp_ok (P := fun k (t : List (Option Ptr)) => t.length = sa.maxLevel ∧ ∀ i < sa.maxLevel, t[i]? =
      some (if i < k then some x.ptr else none)) ⟨by simp, ?_⟩ ?_
    · intro i hi
      simp [hi]
    · rintro k t hk ⟨hlen, ht⟩
      have hhead : sa.headAt k = .ok (some x.ptr) := by
        rw [h.headAt (by omega), towers_cons, onLevel_cons_of_lt hk]
        rfl
      refine ⟨t.set k (some x.ptr), ?_, by simpa using hlen, ?_⟩
      · rw [hhead, ok_bind, check_of_pos rfl, ok_bind, putSlot_of_lt (by omega)]
      · intro i hi
        rw [List.getElem?_set, ht i hi]
        by_cases hik : k = i
        · rw [if_pos hik, if_pos (by omega), if_pos (by omega)]
        · rw [if_neg hik]
          congr 1
          split_ifs <;> first | rfl | omega
  refine ⟨trail, htrail, hlen, ?_⟩
  intro i hi
  rw [hval i hi, towers_cons]
  by_cases hix : i < x.height
  · rw [if_pos hix, onLevel_cons_of_lt hix]
    rfl
  · rw [if_neg hix, onLevel_cons_of_le (Nat.le_of_not_lt hix)]
    rfl

/-- `skiparray_builder_new` makes an empty builder, unless memory runs out. -/
theorem skiparrayBuilderNew_spec (cb : Callbacks K U) {config : Config} (hcmp : config.cmp ≠ none)
    (hsize : config.nodeSize ≠ 1) (skip : Bool) (c : Ctx K V U)
    (hroot : 1 ≤ rootHeight cb config c) :
    ∃ res ob c', skiparrayBuilderNew cb (some config) skip c = .ok (res, ob, c') ∧
      c'.freed = c.freed ∧
      (res = .errorMemory ∧ ob = none ∧ ¬ cb.AllGranted ∧
          (∀ c₀ live, Ledger cb c₀ c live → Ledger cb c₀ c' live) ∨
        res = .ok ∧ ∃ b bs, ob = some b ∧ (∀ cmp, Building cmp b bs) ∧ bindings bs = [] ∧
          b.checkAscending = !skip ∧
          (∃ cmp block, config.cmp = some cmp ∧ b.sa.toSettings = config.settings cmp block) ∧
          ∀ c₀ live, Ledger cb c₀ c live → Ledger cb c₀ c' (b.block ::ₘ b.sa.blocks bs + live)) := by
  obtain ⟨res, osa, c₁, hnew, hfreed, hres⟩ := skiparrayNew_spec (V := V) cb hcmp hsize c hroot
  rw [skiparrayBuilderNew, hnew, ok_bind]
  rcases hres with ⟨rfl, rfl, hg, hled⟩ | ⟨rfl, sa, bs, rfl, hfresh, hled⟩
  · exact ⟨_, _, c₁, rfl, hfreed, Or.inl ⟨rfl, rfl, hg, hled⟩⟩
  obtain ⟨x, rfl, hnil⟩ := hfresh.lone
  have hsound : ∀ cmp, sa.Sound cmp [x] := fun cmp => (hfresh.wf cmp).toSound
  have h := hsound fun _ _ => 0
  rcases halloc : c₁.alloc cb with ⟨_ | block, c₂⟩
  · obtain ⟨c', hfree, hfreed', hled'⟩ := skiparrayFree_spec h hfresh.iter c₂
    simp only [halloc, hfree, ok_bind]
    refine ⟨_, _, c', rfl, ?_, Or.inl ⟨rfl, rfl, Ctx.alloc_refused halloc, ?_⟩⟩
    · rw [hfreed', (Ctx.alloc_keeps halloc).1, hfreed]
      simp [hnil, Settings.freedPairs]
    · intro c₀ live hl
      exact hled' cb c₀ live ((hled c₀ live hl).alloc_none halloc)
  have hc₂ := (Ctx.alloc_keeps halloc).1
  obtain ⟨n, hn, hh⟩ := h.stores x (by simp)
  obtain ⟨n', hn', hnh, -⟩ := h.linked.node (b := x) (by simp)
  obtain rfl : n' = n := Option.some.inj (hn'.symm.trans hn)
  have hsame : n'.SameLinks { n' with offset := 0 } := ⟨rfl, rfl, rfl, rfl⟩
  have hholds : Holds sa.toSettings { n' with offset := 0 } { x with offset := 0, pairs := [] } := by
    have := hh.moveEmpty hnil (Nat.zero_le _)
    rw [hnil] at this
    exact this
  set sa' := sa.setNode x.ptr { n' with offset := 0 } with hsa'
  have hsound' : ∀ cmp, sa'.Sound cmp [{ x with offset := 0, pairs := [] }] := fun cmp =>
    SkipArray.Sound.update (A := []) (C := []) (hsound cmp) hn hsame hholds
      (by have := h.settings.two_le; omega) (by simp)
  obtain ⟨trail, htrail, ht⟩ := firstTrail_spec (hsound' fun _ _ => 0).linked hnh
  have hfirst := h.linked.first h.settings.pos
  simp only [halloc, hfirst, ok_bind, List.map_cons, List.head?_cons, SkipArray.load_eq hn,
    SkipArray.store]
  have htrail' : forUp (fun i trail => do
        let head ← (sa.setNode x.ptr { n' with offset := 0 }).headAt i
        check (some x.ptr = head)
        putSlot trail i (some x.ptr)) n'.height
          (List.replicate (sa.setNode x.ptr { n' with offset := 0 }).maxLevel none) =
      .ok trail := htrail
  simp only [htrail', ok_bind]
  refine ⟨_, _, c₂, rfl, hc₂.trans hfreed, Or.inr ⟨rfl, _, [{ x with offset := 0, pairs := [] }],
    rfl, ?_, by simp, rfl, hfresh.settings, ?_⟩⟩
  · intro cmp
    exact ⟨⟨hsound' cmp, by simp, by simp⟩, hfresh.iter, hfresh.iters, rfl, by simp, by simp, ht,
      by simp, by simp⟩
  · intro c₀ live hl
    have := (hled c₀ live hl).alloc_some halloc
    have hblocks : sa'.blocks [{ x with offset := 0, pairs := [] }] = sa.blocks [x] := by
      rw [SkipArray.blocks_setNode hn hsame]
      rfl
    change Ledger cb c₀ c₂ (block ::ₘ (sa'.blocks [{ x with offset := 0, pairs := [] }] : List ℕ)
      + live)
    rw [hblocks, Multiset.cons_add]
    exact this

/-- A run of `skiparray_builder_new` that made a builder made an empty one. -/
theorem skiparrayBuilderNew_ok {cb : Callbacks K U} {config : Option Config} {skip : Bool}
    {c c' : Ctx K V U} {b : Builder K V}
    (h : skiparrayBuilderNew cb config skip c = .ok (.ok, some b, c')) :
    ∃ cfg bs, config = some cfg ∧ (∀ cmp, Building cmp b bs) ∧ bindings bs = [] ∧
      b.checkAscending = !skip ∧
      ∃ cmp block, cfg.cmp = some cmp ∧ b.sa.toSettings = cfg.settings cmp block := by
  have haccept : ∃ cfg, config = some cfg ∧ cfg.cmp ≠ none ∧ cfg.nodeSize ≠ 1 ∧
      1 ≤ rootHeight cb cfg c := by
    obtain ⟨⟨res, osa, c₁⟩, hnew, hrest⟩ := bind_eq_ok.mp h
    cases res with
    | errorNull => cases hrest
    | errorConfig => cases hrest
    | errorMemory => cases hrest
    | ok =>
        cases osa with
        | none => cases hrest
        | some sa => exact skiparrayNew_accepts hnew
  obtain ⟨cfg, rfl, hcmp, hsize, hroot⟩ := haccept
  obtain ⟨res, ob, c'', heq, -, hres⟩ := skiparrayBuilderNew_spec cb hcmp hsize skip c hroot
  rw [heq] at h
  cases h
  rcases hres with ⟨hm, -⟩ | ⟨-, b', bs, hb, hbuild, hnil, hcheck, hset, -⟩
  · cases hm
  · cases hb
    exact ⟨cfg, bs, rfl, hbuild, hnil, hcheck, hset⟩

end Building

end Skiparray
