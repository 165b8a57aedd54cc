import Skiparray.Layout.Mutations
import Skiparray.Model.Lifetime

/-!
# Creation and destruction of a skiparray

`skiparray_new` makes one empty block. `skiparray_free` hands every pair to the
free callback and releases every memory block.
-/

namespace Skiparray

open SkipLinks Fallible

variable {K V U : Type}

variable [Inhabited K] [Inhabited V]

/-! ## `skiparray_new` -/

/-- The height of the first node. -/
def rootHeight (cb : Callbacks K U) (config : Config) (c : Ctx K V U) : ℕ :=
  let level := u8 ((callLevel cb config.level config.seed 0 c.udata).1 + 1)
  if config.effMaxLevel ≤ level then config.effMaxLevel else level

/-- The settings a configuration asks for. -/
def Config.settings (config : Config) (cmp block : ℕ) : Settings where
  nodeSize := config.effNodeSize
  maxLevel := config.effMaxLevel
  useValues := !config.ignoreValues
  mem := config.memory
  cmp := cmp
  free := config.free
  level := config.level
  block := block

theorem Config.settings_ok {config : Config} (hsize : config.nodeSize ≠ 1) (cmp block : ℕ) :
    (config.settings cmp block).Ok where
  two_le := by
    change 2 ≤ config.effNodeSize
    unfold Config.effNodeSize defNodeSize
    split_ifs with h0
    · omega
    · have hz : config.nodeSize.toNat ≠ 0 := fun h => h0 (UInt16.toNat_inj.mp h)
      have ho : config.nodeSize.toNat ≠ 1 := fun h => hsize (UInt16.toNat_inj.mp h)
      omega
  nodeSize_lt := by
    change config.effNodeSize < 65536
    unfold Config.effNodeSize defNodeSize
    have := config.nodeSize.toNat_lt
    split_ifs <;> omega
  pos := by
    change 0 < config.effMaxLevel
    unfold Config.effMaxLevel defMaxLevel
    split_ifs with h0
    · omega
    · have hz : config.maxLevel.toNat ≠ 0 := fun h => h0 (UInt8.toNat_inj.mp h)
      omega
  maxLevel_lt := by
    change config.effMaxLevel < 256
    unfold Config.effMaxLevel defMaxLevel
    have := config.maxLevel.toNat_lt
    split_ifs <;> omega

/-- A skiparray as `skiparray_new` leaves it. -/
structure Fresh (config : Config) (sa : SkipArray K V) (bs : List (Block K V)) : Prop where
  wf : ∀ cmp, sa.Wf cmp bs
  lone : ∃ b, bs = [b] ∧ b.pairs = []
  settings : ∃ cmp block, config.cmp = some cmp ∧ sa.toSettings = config.settings cmp block
  iter : sa.iter = none
  iters : sa.iters = []

omit [Inhabited K] in
theorem Fresh.bindings_eq {config : Config} {sa : SkipArray K V} {bs : List (Block K V)}
    (h : Fresh config sa bs) : bindings bs = [] := by
  obtain ⟨b, rfl, hb⟩ := h.lone
  simp [hb]

/-- A single node at the heads of its levels. -/
def SkipArray.ofRoot (s : Settings) (h : ℕ) (prngState : UInt64) (root : Node K V) :
    SkipArray K V :=
  { s with
    height := h
    prngState
    iter := none
    nodes := List.replicate h (some 0) ++ List.replicate (s.maxLevel - h) none
    heap := [some root]
    iters := [] }

omit [Inhabited K] in
theorem ofRoot_wf {s : Settings} (hs : s.Ok) {h : ℕ} (hpos : 1 ≤ h) (hmax : h ≤ s.maxLevel)
    {root : Node K V} (hf : FreshNode s h root) (prngState : UInt64) (cmp : K → K → ℤ) :
    (SkipArray.ofRoot s h prngState root).Wf cmp [⟨0, h, s.nodeSize / 2, []⟩] := by
  have htwo := hs.two_le
  refine ⟨⟨hs, ⟨⟨by simp, ?_, ?_⟩, ?_, ?_, ?_⟩, ?_, ?_, ?_, by simp⟩, ?_⟩
  · intro i hi
    by_cases hih : i < h
    · rw [towers_cons, Links.Level, onLevel_cons_of_lt hih]
      simp [SkipArray.ofRoot, SkipArray.links, SkipArray.node?, hf.fwd, List.getElem?_append, hih]
    · rw [towers_cons, Links.Level, onLevel_cons_of_le (by simpa using hih)]
      simp only [SkipArray.ofRoot, SkipArray.links, towers_nil, onLevel_nil, seg_nil]
      rw [List.getElem?_append_right (by simpa using hih), List.getElem?_replicate]
      split_ifs <;> rfl
  · simp [SkipArray.ofRoot, SkipArray.links, SkipArray.node?, hf.back]
  · simp only [SkipArray.ofRoot, List.length_append, List.length_replicate]
    exact Nat.add_sub_cancel' hmax
  · intro b hb
    rw [List.mem_singleton.mp hb]
    exact ⟨root, rfl, hf.height_eq, by simp [hf.fwd]⟩
  · intro b hb
    rw [List.mem_singleton.mp hb]
    exact ⟨hpos, hmax⟩
  · intro b hb
    rw [List.mem_singleton.mp hb]
    exact ⟨root, rfl, hf.holds 0⟩
  · exact ⟨by simp [SkipArray.ofRoot], by simp [SkipArray.ofRoot]⟩
  · intro b hb
    rw [List.mem_singleton.mp hb]
    change s.nodeSize / 2 < s.nodeSize
    omega
  · exact ⟨by simp, by simp⟩

/-- `skiparray_new` makes an empty skiparray, unless memory runs out. It takes
any level function whose first answer gives a height. -/
theorem skiparrayNew_spec (cb : Callbacks K U) {config : Config} (hcmp : config.cmp ≠ none)
    (hsize : config.nodeSize ≠ 1) (c : Ctx K V U) (hroot : 1 ≤ rootHeight cb config c) :
    ∃ res osa c', skiparrayNew cb (some config) c = .ok (res, osa, c') ∧ c'.freed = c.freed ∧
      (res = .errorMemory ∧ osa = none ∧ ¬ cb.AllGranted ∧
          (∀ c₀ live, Ledger cb c₀ c live → Ledger cb c₀ c' live) ∨
        res = .ok ∧ ∃ sa bs, osa = some sa ∧ Fresh config sa bs ∧
          ∀ c₀ live, Ledger cb c₀ c live → Ledger cb c₀ c' (sa.blocks bs + live)) := by
  obtain ⟨cmp, hcmp⟩ := Option.ne_none_iff_exists'.mp hcmp
  simp only [skiparrayNew, hcmp, if_neg hsize]
  rcases h₁ : c.alloc cb with ⟨_ | block, c₁⟩
  · exact ⟨_, _, _, rfl, (Ctx.alloc_keeps h₁).1, Or.inl ⟨rfl, rfl, Ctx.alloc_refused h₁,
      fun _ _ hl => hl.alloc_none h₁⟩⟩
  have hc₁ := Ctx.alloc_keeps h₁
  obtain ⟨⟨x, prng, udata⟩, hcall⟩ :
    ∃ r, callLevel cb config.level config.seed 0 c.udata = r := ⟨_, rfl⟩
  have hok := Config.settings_ok hsize cmp block
  have hheight : rootHeight cb config c =
      if config.effMaxLevel ≤ u8 (x + 1) then config.effMaxLevel else u8 (x + 1) := by
    simp only [rootHeight, hcall]
  simp only [hc₁.2, hcall]
  rw [← hheight]
  obtain ⟨r, c₂, halloc, hfreed, -, hfresh, hgrant⟩ :=
    nodeAlloc_spec (V := V) cb hok hroot { c₁ with udata }
  have hled : ∀ c₀ live, Ledger cb c₀ c live →
      Ledger cb c₀ c₂ ((r.elim [] Node.blocks : List ℕ) + block ::ₘ live) := fun c₀ live hl =>
    nodeAlloc_ledger (c := { c₁ with udata }) ((hl.alloc_some h₁).congr rfl rfl) halloc
  change nodeAlloc cb _ config.effNodeSize (!config.ignoreValues) _ = _ at halloc
  simp only [halloc, ok_bind]
  cases r with
  | none =>
      refine ⟨_, _, _, rfl, by rw [Ctx.release_freed, hfreed, hc₁.1], Or.inl ⟨rfl, rfl, ?_, ?_⟩⟩
      · intro hg
        exact hgrant hg rfl
      · intro c₀ live hl
        have := hled c₀ live hl
        exact Ledger.release (by simpa using this)
  | some root =>
      have hf := hfresh root rfl
      have hmax : rootHeight cb config c ≤ config.effMaxLevel := by
        rw [hheight]
        split_ifs <;> omega
      have hwf := ofRoot_wf hok hroot hmax hf prng
      refine ⟨_, _, _, rfl, by rw [hfreed, hc₁.1], Or.inr ⟨rfl,
        SkipArray.ofRoot (config.settings cmp block) (rootHeight cb config c) prng root, _, rfl,
        ⟨hwf, ⟨_, rfl, rfl⟩, ⟨cmp, block, hcmp, rfl⟩, rfl, rfl⟩, ?_⟩⟩
      intro c₀ live hl
      have hall := hled c₀ live hl
      rw [Option.elim_some, Multiset.add_cons] at hall
      change Ledger cb c₀ c₂ (((block :: root.blocks ++ [] : List ℕ) : Multiset ℕ) + live)
      rw [List.append_nil, ← Multiset.cons_coe, Multiset.cons_add]
      exact hall

/-- What `skiparray_new` asks of a configuration, and of the first answer of the
level function: a height of zero is an assertion in `node_alloc`. -/
theorem skiparrayNew_accepts {cb : Callbacks K U} {config : Option Config} {c c' : Ctx K V U}
    {sa : SkipArray K V} (h : skiparrayNew cb config c = .ok (.ok, some sa, c')) :
    ∃ cfg, config = some cfg ∧ cfg.cmp ≠ none ∧ cfg.nodeSize ≠ 1 ∧ 1 ≤ rootHeight cb cfg c := by
  cases config with
  | none => cases h
  | some config =>
      have hcmp : config.cmp ≠ none := by
        intro hnone
        simp [skiparrayNew, hnone] at h
      have hsize : config.nodeSize ≠ 1 := by
        intro hone
        obtain ⟨cmp, hc⟩ := Option.ne_none_iff_exists'.mp hcmp
        simp [skiparrayNew, hc, hone] at h
      refine ⟨config, rfl, hcmp, hsize, ?_⟩
      by_contra hroot
      obtain ⟨cmp, hc⟩ := Option.ne_none_iff_exists'.mp hcmp
      simp only [skiparrayNew, hc, if_neg hsize] at h
      rcases h₁ : c.alloc cb with ⟨_ | block, c₁⟩
      · rw [h₁] at h
        cases h
      have hudata := (Ctx.alloc_keeps h₁).2
      simp only [rootHeight] at hroot
      simp only [h₁, hudata] at h
      rw [nodeAlloc, check, if_neg hroot] at h
      cases h

/-- A run of `skiparray_new` that made a skiparray made a fresh one. -/
theorem skiparrayNew_ok {cb : Callbacks K U} {config : Option Config} {c c' : Ctx K V U}
    {sa : SkipArray K V} (h : skiparrayNew cb config c = .ok (.ok, some sa, c')) :
    ∃ cfg bs, config = some cfg ∧ Fresh cfg sa bs ∧ c'.freed = c.freed := by
  obtain ⟨config, rfl, hcmp, hsize, hroot⟩ := skiparrayNew_accepts h
  obtain ⟨res, osa, c'', heq, hfreed, hres⟩ := skiparrayNew_spec cb hcmp hsize c hroot
  rw [heq] at h
  cases h
  rcases hres with ⟨hm, -⟩ | ⟨-, sa', bs, hsa, hfresh, -⟩
  · cases hm
  · cases hsa
    exact ⟨config, bs, rfl, hfresh, hfreed⟩

/-! ## `skiparray_free` -/

section Free

variable {cb : Callbacks K U} {sa : SkipArray K V} {b : Block K V} {n : Node K V} {c : Ctx K V U}

omit [Inhabited K] in
/-- The pairs of a node go to the free callback in order. -/
theorem freePairs_spec (h : Holds sa.toSettings n b) :
    ∀ {k : ℕ}, k ≤ b.pairs.length → forUp (freePair sa n) k c =
      .ok { c with freed := (b.pairs.take k).reverse ++ c.freed }
  | 0, _ => rfl
  | k + 1, hk => by
      have hp : b.pairs[k]? = some b.pairs[k] := List.getElem?_eq_getElem hk
      have hv : sa.valueAt n (n.offset + k) = .ok b.pairs[k].2 := h.valueAt hp
      rw [forUp, freePairs_spec h (by omega), ok_bind, freePair, h.keyAt hp, ok_bind, hv, ok_bind,
        List.take_succ_eq_append_getElem hk, List.reverse_append]
      rfl

/-- The blocks from some node on, linked on level 0. -/
def Chain (sa : SkipArray K V) : List (Block K V) → Prop
  | [] => True
  | b :: C => (∃ n, sa.node? b.ptr = some n ∧ Holds sa.toSettings n b ∧
      n.fwd[0]? = some (C.map Block.ptr).head?) ∧ Chain sa C

omit [Inhabited K] in
theorem SkipArray.Sound.chain {cmp : K → K → ℤ} {bs : List (Block K V)} (h : sa.Sound cmp bs) :
    ∀ {A C : List (Block K V)}, bs = A ++ C → Chain sa C
  | _, [], _ => trivial
  | A, b :: C, hsplit => by
      refine ⟨?_, h.chain (A := A ++ [b]) (by simp [hsplit])⟩
      obtain ⟨n, hn, hh⟩ := h.stores b (by simp [hsplit])
      have hl := h.linked
      rw [hsplit] at hl
      have hnext := hl.next
      rw [SkipArray.fwdAt, SkipArray.load_eq hn, ok_bind, slot] at hnext
      refine ⟨n, hn, hh, ?_⟩
      cases hf : n.fwd[0]? with
      | none =>
          rw [hf] at hnext
          cases hnext
      | some q =>
          rw [hf] at hnext
          cases hnext
          rfl

omit [Inhabited K] in
theorem Chain.clearNode {p : Ptr} : ∀ {C : List (Block K V)}, Chain sa C →
    (∀ x ∈ C, x.ptr ≠ p) → Chain (sa.clearNode p) C
  | [], _, _ => trivial
  | b :: C, ⟨⟨n, hn, hh, hf⟩, hC⟩, hp => by
      refine ⟨⟨n, ?_, hh, hf⟩, hC.clearNode fun x hx => hp x (List.mem_cons_of_mem _ hx)⟩
      rw [SkipArray.node?_clearNode_ne (hp b List.mem_cons_self)]
      exact hn

/-- What freeing the pairs `ps` adds to the log of the free callback. -/
def Settings.freedPairs (s : Settings) (ps : List (K × V)) : List (K × V) :=
  if s.free.isSome then ps.reverse else []

omit [Inhabited K] [Inhabited V] in
@[simp] theorem Settings.freedPairs_append (s : Settings) (ps qs : List (K × V)) :
    s.freedPairs (ps ++ qs) = s.freedPairs qs ++ s.freedPairs ps := by
  unfold Settings.freedPairs
  split_ifs <;> simp

omit [Inhabited K] in
/-- The loop of `skiparray_free` over the nodes of `C`. -/
theorem freeNodes_spec :
    ∀ (C : List (Block K V)) (fuel : ℕ) {sa : SkipArray K V} (c : Ctx K V U),
      C.length ≤ fuel → Chain sa C → (C.map Block.ptr).Nodup →
      ∃ c', freeNodes fuel sa (C.map Block.ptr).head? c = .ok c' ∧
        c'.freed = sa.freedPairs (bindings C) ++ c.freed ∧
        ∀ (cb : Callbacks K U) c₀ live, Ledger cb c₀ c
            ((C.flatMap fun b => (sa.node? b.ptr).elim [] Node.blocks : List ℕ) + live) →
          Ledger cb c₀ c' live
  | [], 0, sa, c, _, _, _ => ⟨c, rfl, by simp [Settings.freedPairs], fun _ _ _ h => by simpa using h⟩
  | [], _ + 1, sa, c, _, _, _ =>
      ⟨c, rfl, by simp [Settings.freedPairs], fun _ _ _ h => by simpa using h⟩
  | _ :: _, 0, _, _, hfuel, _, _ => absurd hfuel (by simp)
  | b :: C, fuel + 1, sa, c, hfuel, ⟨⟨n, hn, hh, hf⟩, hC⟩, hnodup => by
      rw [List.map_cons, List.nodup_cons] at hnodup
      have hne : ∀ x ∈ C, x.ptr ≠ b.ptr := by
        rintro x hx heq
        exact hnodup.1 (heq ▸ List.mem_map_of_mem hx)
      obtain ⟨c₁, h₁, hfreed₁, hreq₁, hrel₁⟩ : ∃ c₁,
          (if sa.free.isSome = true then forUp (freePair sa n) n.count c else pure c) = .ok c₁ ∧
          c₁.freed = sa.freedPairs b.pairs ++ c.freed ∧ c₁.requests = c.requests ∧
          c₁.released = c.released := by
        cases hfree : sa.free.isSome with
        | true =>
            rw [if_pos rfl, hh.count, freePairs_spec hh (le_refl _), List.take_length]
            exact ⟨_, rfl, by simp [Settings.freedPairs, hfree], rfl, rfl⟩
        | false => exact ⟨c, by simp, by simp [Settings.freedPairs, hfree], rfl, rfl⟩
      obtain ⟨c', h', hfreed', hled'⟩ := freeNodes_spec C fuel
        (n.blocks.foldl Ctx.release c₁) (by simpa using hfuel) (hC.clearNode hne) hnodup.2
      refine ⟨c', ?_, ?_, ?_⟩
      · simp only [List.map_cons, List.head?_cons, freeNodes, SkipArray.load_eq hn, ok_bind,
          SkipArray.fwdAt, slot_of_getElem? hf, h₁, nodeFree_eq hn]
        exact h'
      · rw [hfreed', Ctx.releases_freed, hfreed₁, bindings_cons, Settings.freedPairs_append,
          List.append_assoc]
        rfl
      · intro cb c₀ live hl
        apply hled'
        apply Ledger.releases
        have hcells : (C.flatMap fun x => ((sa.clearNode b.ptr).node? x.ptr).elim [] Node.blocks) =
            C.flatMap fun x => (sa.node? x.ptr).elim [] Node.blocks := by
          refine List.flatMap_congr fun x hx => ?_
          rw [SkipArray.node?_clearNode_ne (hne x hx)]
        rw [hcells, ← add_assoc, Multiset.coe_add]
        rw [List.flatMap_cons, hn] at hl
        exact hl.congr hreq₁ hrel₁

omit [Inhabited K] in
/-- `skiparray_free` hands each pair to the free callback once and releases all
memory of the skiparray. -/
theorem skiparrayFree_spec {cmp : K → K → ℤ} {bs : List (Block K V)} (h : sa.Sound cmp bs)
    (hiter : sa.iter = none) (c : Ctx K V U) :
    ∃ c', skiparrayFree sa c = .ok c' ∧ c'.freed = sa.freedPairs (bindings bs) ++ c.freed ∧
      ∀ (cb : Callbacks K U) c₀ live, Ledger cb c₀ c (sa.blocks bs + live) →
        Ledger cb c₀ c' live := by
  have hlen := h.linked.length_le
  obtain ⟨c', h', hfreed, hled⟩ := freeNodes_spec bs sa.budget c
    (by unfold SkipArray.budget; omega) (h.chain (A := []) rfl) h.linked.ptr_nodup
  refine ⟨c'.release sa.block, ?_, hfreed, ?_⟩
  · rw [skiparrayFree, h.linked.first h.settings.pos, ok_bind, h', ok_bind, hiter, freeIters,
      ok_bind]
    rfl
  · intro cb c₀ live hl
    apply Ledger.release
    apply hled
    rw [SkipArray.blocks, ← Multiset.cons_coe, Multiset.cons_add, ← Multiset.add_cons] at hl
    exact hl

end Free

end Skiparray
