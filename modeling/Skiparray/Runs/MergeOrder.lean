import Skiparray.Lib.Arrivals
import Skiparray.Runs.Pending
import Skiparray.Runs.Exactness

/-!
# The order of merged pairs

A merge gets the pairs at the front of the queue. Equal ones were inserted in
front of each other, in the same step or in different ones, so they are in the
order of their inputs only if the inputs were stepped in the reverse order.
-/

namespace Skiparray

open SkipLinks Fallible

variable {K V U W : Type}

section Runs

variable [Inhabited K] [Inhabited V]

omit [Inhabited K] in
/-- Every call that a fold makes of its merge callback: the keys and values are
those of the inputs `ids` at the front of the queue, these are listed in ascending
order, and the choice selects the key that is called back on. -/
def MergesInOrder (cb : Callbacks K U) (inputs : List ℕ) (sas : List (SkipArray K V))
    (fs : FoldState K V U (W × List (FoldEvent K V))) (sas₀ : List (SkipArray K V))
    (w : W × List (FoldEvent K V)) : Prop :=
  ∀ {fs₁ fs₂ fs₃ : FoldState K V U (W × List (FoldEvent K V))} {sas₁ sas₂ : List (SkipArray K V)}
    {w₁ w₂ : W × List (FoldEvent K V)} {c c₁ c₂ : Ctx K V U} {keys : List K} {values : List V}
    {choice : ℕ} {key : K} {value value' : V},
    FoldRun cb fs sas₀ w fs₁ sas₁ w₁ →
    (if 0 < fs₁.iterLive then stepActiveIterators cb fs₁ sas₁ c else pure (fs₁, sas₁, c)) =
      .ok (fs₂, sas₂, c₁) →
    callWithNext fs₂ fs₂.iterCount w₁ c₁ = .ok (fs₃, w₂, c₂) →
    w₂.2 = w₁.2 ++ [.merge keys values choice value, .fold key value'] →
    ∃ (ids : List ℕ) (ps : List (K × V)), ids <+: fs₂.pending ∧
      List.Forall₂ (fun i p => (∃ is, fs₂.iters[i]? = some is ∧ is.pair = p) ∧
        p ∈ inputContents sas inputs i) ids ps ∧
      keys = ps.map Prod.fst ∧ values = ps.map Prod.snd ∧
      ids.Pairwise (· < ·) ∧ keys[choice]? = some key

/-- Keep the inputs in the order in which they were last read, at first as they are
listed. Key by key, of those that have it all but the first stand in descending order.
These are read again next, one after the other, and then the first one. -/
def SharedInTurn (cmp : K → K → ℤ) (sas : List (SkipArray K V)) (inputs : List ℕ) : Prop :=
  Lanes.SharedInTurn (onKeys cmp) (inputs.map (contentsAt sas))

instance (cmp : K → K → ℤ) (sas : List (SkipArray K V)) (inputs : List ℕ) :
    Decidable (SharedInTurn cmp sas inputs) :=
  inferInstanceAs (Decidable (Lanes.SharedInTurn _ _))

variable {cb : Callbacks K U} {type : FoldType} {cbs : FoldCbs K V U W} {inputs : List ℕ}
  {sas sas₀ sas₁ : List (SkipArray K V)} {bs : ℕ → List (Block K V)} {its : ℕ → List Ptr}

/-! ## What a call merges -/

variable {fs fs₁ fs₂ : FoldState K V U (W × List (FoldEvent K V))}
  {w₁ w₂ : W × List (FoldEvent K V)} {st : Lanes.State (K × V)} {w : W} {c c₁ c₂ : Ctx K V U}

omit [Inhabited K] [Inhabited V] in
/-- A call that logs a merge made one. -/
theorem CallsBack.of_log {d : Lanes.Delivery (K × V)} {keys : List K} {values : List V}
    {choice : ℕ} {key : K} {value value' : V} (h : CallsBack cbs.logged w₁ c₁ d w₂ c₂)
    (hlog : w₂.2 = w₁.2 ++ [.merge keys values choice value, .fold key value']) :
    ∃ ps, d = .merged ps ∧ keys = ps.map Prod.fst ∧ values = ps.map Prod.snd ∧
      keys[choice]? = some key := by
  cases h with
  | single hfold =>
      obtain ⟨_, -, hret⟩ := bind_eq_ok.mp hfold
      cases hret
      cases List.append_cancel_left hlog
  | @merged ps _ _ _ _ _ _ _ merge hm h₁ hk h₂ =>
      obtain ⟨merge, -, rfl⟩ := Option.map_eq_some_iff.mp hm
      obtain ⟨_, -, hret₁⟩ := bind_eq_ok.mp h₁
      cases hret₁
      obtain ⟨_, -, hret₂⟩ := bind_eq_ok.mp h₂
      cases hret₂
      change (w₁.2 ++ [_]) ++ [_] = _ at hlog
      rw [List.append_assoc] at hlog
      cases List.append_cancel_left hlog
      exact ⟨ps, rfl, rfl, rfl, hk⟩

omit [Inhabited K] [Inhabited V] in
/-- And a merge is logged. -/
theorem CallsBack.exists_log {ps : List (K × V)} (h : CallsBack cbs.logged w₁ c₁ (.merged ps) w₂ c₂) :
    ∃ choice key value, w₂.2 = w₁.2 ++
      [.merge (ps.map Prod.fst) (ps.map Prod.snd) choice value, .fold key value] := by
  cases h with
  | @merged _ choice key value _ _ _ _ merge hm h₁ hk h₂ =>
      obtain ⟨merge, -, rfl⟩ := Option.map_eq_some_iff.mp hm
      obtain ⟨_, -, hret₁⟩ := bind_eq_ok.mp h₁
      cases hret₁
      obtain ⟨_, -, hret₂⟩ := bind_eq_ok.mp h₂
      cases hret₂
      exact ⟨_, key, _, List.append_assoc ..⟩

omit [Inhabited K] in
theorem Merges.callsBack (hm : Merges cb type cbs inputs sas bs its fs) (hret : cbs.Return)
    (hset : SameSetup fs fs₁) (hf : Folding cb type bs its sas inputs fs₁ sas₁ st)
    {d : Lanes.Delivery (ℕ × (K × V))} {st' : Lanes.State (K × V)}
    (hnext : Lanes.Next (onKeys (cb.cmp fs.cmp)) st d st') (c : Ctx K V U) :
    ∃ w₂ c₂, CallsBack cbs.logged w₁ c (d.map Prod.snd) w₂ c₂ := by
  have hm₁ := hm.of_same hset
  have hcalls := hf.callsBack hm₁.wf (hm₁.cbs_eq ▸ hret.logged) ?_ (hset.cmp ▸ hnext) w₁ c
  · rwa [hm₁.cbs_eq] at hcalls
  · intro hlen
    rw [hm₁.cbs_eq, FoldCbs.logged, Option.isSome_map]
    exact hm.mergeable hlen

omit [Inhabited K] in
/-- A turn of the fold. -/
theorem Merges.turn (hm : Merges cb type cbs inputs sas bs its fs) (hret : cbs.Return)
    (hset : SameSetup fs fs₁) (hf : Folding cb type bs its sas inputs fs₁ sas₁ st)
    (hleft : ¬ st.Done) (w : W × List (FoldEvent K V)) (c : Ctx K V U) :
    ∃ fs₂ sas₂ c₁ d fs₃ st' w' c',
      FoldTurn cb type bs its sas inputs fs₁ sas₁ st w c fs₂ sas₂ c₁ d fs₃ st' w' c' := by
  have hm₁ := hm.of_same hset
  apply exists_turn hm₁.wf hf hleft
  intro d st' c₁ held hnext _
  rw [hm₁.cbs_eq]
  exact hm₁.callsBack hret (.refl fs₁) hf hnext c₁

omit [Inhabited K] in
/-- The pairs at the front of the queue, in the lanes and in the code. -/
theorem Merges.merged (hm : Merges cb type cbs inputs sas bs its fs) (hret : cbs.Return)
    (hset : SameSetup fs fs₁) (hf : Folding cb type bs its sas inputs fs₁ sas₁ st)
    {fs₂ fs₃ : FoldState K V U (W × List (FoldEvent K V))} {sas₂ : List (SkipArray K V)}
    {keys : List K} {values : List V} {choice : ℕ} {key : K} {value value' : V}
    (hfeed : (if 0 < fs₁.iterLive then stepActiveIterators cb fs₁ sas₁ c
      else pure (fs₁, sas₁, c)) = .ok (fs₂, sas₂, c₁))
    (hcall : callWithNext fs₂ fs₂.iterCount w₁ c₁ = .ok (fs₃, w₂, c₂))
    (hlog : w₂.2 = w₁.2 ++ [.merge keys values choice value, .fold key value']) :
    ∃ xs st', Lanes.Next (onKeys (cb.cmp fs.cmp)) st (.merged xs) st' ∧
      xs.map Prod.fst <+: fs₂.pending ∧
      (∀ x ∈ xs, ∃ is, fs₂.iters[x.1]? = some is ∧ is.pair = x.2) ∧
      keys = (xs.map Prod.snd).map Prod.fst ∧ values = (xs.map Prod.snd).map Prod.snd ∧
      keys[choice]? = some key := by
  have hm₁ := hm.of_same hset
  obtain ⟨fs₂', sas₂', c₁', hfeed', hset₂, hf₂, -⟩ := feedAll_spec hm₁.wf hf c
  rw [hfeed] at hfeed'
  cases hfeed'
  have hqueued := hf₂.queued
  cases hq : (st.fed (onKeys (cb.cmp fs₁.cmp))).queue with
  | nil =>
      have hzero : fs₂.ids.available = 0 := by
        rw [hqueued.available, hq]
        rfl
      rw [callWithNext, hzero] at hcall
      cases hcall
  | cons x q =>
      have hnext : Lanes.Next (onKeys (cb.cmp fs₁.cmp)) st _ _ := .intro hq
      obtain ⟨w', c', hback⟩ : ∃ w' c', CallsBack cbs.logged w₁ c₁ _ w' c' :=
        hm₁.callsBack hret (.refl fs₁) hf hnext c₁
      have hin := hm₁.wf
      rw [← hset₂.useValues] at hin
      have hcbs : fs₂.cbs = cbs.logged := hset₂.cbs.trans hm₁.cbs_eq
      obtain ⟨ids, is, hcall', -⟩ := hf₂.callNext hin hset₂.cmp hq (hcbs ▸ hback)
      rw [hcall] at hcall'
      cases hcall'
      obtain ⟨ps, hd, rfl, rfl, hk⟩ := hback.of_log hlog
      rw [hset.cmp] at hnext hd
      cases hdel : Lanes.delivery (onKeys (cb.cmp fs.cmp)) x q with
      | single y =>
          rw [hdel] at hd
          cases hd
      | merged xs =>
          rw [hdel] at hd hnext
          cases hd
          have hsplit := (hnext.split (LawfulCmp.onKeys hm.wf.lawful)).1
          rw [← hset.cmp, Lanes.Delivery.items_merged] at hsplit
          refine ⟨xs, _, hnext, ?_, ?_, rfl, rfl, hk⟩
          · rw [hqueued.pending_eq, hsplit, List.map_append]
            exact List.prefix_append ..
          · intro y hy
            have hmem : y ∈ (st.fed (onKeys (cb.cmp fs₁.cmp))).queue := by
              rw [hsplit]
              exact List.mem_append_left _ hy
            obtain ⟨js, hjs, hpair, -⟩ := hqueued.marked.get hmem
            exact ⟨js, hjs, hpair⟩

/-! ## Runs of the lanes -/

omit [Inhabited K] in
/-- What is in the queue are bindings of the inputs. -/
theorem mem_inputContents (hc : LawfulCmp (cb.cmp fs.cmp)) {ds : List (Lanes.Delivery (ℕ × (K × V)))}
    (hruns : Lanes.Run (onKeys (cb.cmp fs.cmp)) (startLanes type sas inputs) ds st)
    {y : ℕ × (K × V)} (hy : y ∈ (st.fed (onKeys (cb.cmp fs.cmp))).queue) :
    y.2 ∈ inputContents sas inputs y.1 := by
  have hlane : y.2 ∈ st.lane y.1 := by
    rw [← Lanes.feedUpTo_lane (onKeys (cb.cmp fs.cmp)) st.rests.length y.1 st]
    exact Lanes.mem_lane_of_queue hy
  have hstart : y.2 ∈ (startLanes type sas inputs).lane y.1 := by
    rw [hruns.lane (LawfulCmp.onKeys hc) y.1]
    exact List.mem_append_right _ hlane
  rw [startLanes_lane_eq] at hstart
  cases type with
  | left => exact hstart
  | right => exact List.mem_reverse.mp hstart

omit [Inhabited K] in
/-- The fold takes every run of the lanes. -/
theorem Merges.follows (hm : Merges cb type cbs inputs sas bs its fs) (hret : cbs.Return)
    (hf : Folding cb type bs its sas inputs fs sas₀ (startLanes type sas inputs)) (c : Ctx K V U)
    {ds : List (Lanes.Delivery (ℕ × (K × V)))}
    (hruns : Lanes.Run (onKeys (cb.cmp fs.cmp)) (startLanes type sas inputs) ds st) :
    ∃ fs₁ sas₁ w₁, FoldRun cb fs sas₀ (w, []) fs₁ sas₁ w₁ ∧ SameSetup fs fs₁ ∧
      Folding cb type bs its sas inputs fs₁ sas₁ st := by
  induction hruns with
  | start => exact ⟨fs, sas₀, _, .start, .refl fs, hf⟩
  | @next st st' d ds hruns h ih =>
      obtain ⟨fs₁, sas₁, w₁, hrun, hset, hf₁⟩ := ih
      obtain ⟨fs₂, sas₂, c₁, d', fs₃, st₃, w', c', ht⟩ :=
        hm.turn hret hset hf₁ (h.not_done (LawfulCmp.onKeys hm.wf.lawful)) w₁ c
      have hstep := ht.step
      rw [hset.cmp] at hstep
      obtain ⟨rfl, rfl⟩ := hstep.unique h
      exact ⟨fs₃, sas₂, w', .next hrun ht.result, hset.trans ht.same, ht.left⟩

omit [Inhabited K] in
/-- The merges of the code are those of the lanes. -/
theorem Merges.inOrder_iff (hm : Merges cb type cbs inputs sas bs its fs) (hret : cbs.Return)
    (hf : Folding cb type bs its sas inputs fs sas₀ (startLanes type sas inputs)) (c : Ctx K V U) :
    MergesInOrder cb inputs sas fs sas₀ (w, []) ↔
      (startLanes type sas inputs).MergesAscending (onKeys (cb.cmp fs.cmp)) := by
  have hk : LawfulCmp (onKeys (cb.cmp fs.cmp) : K × V → K × V → ℤ) :=
    LawfulCmp.onKeys hm.wf.lawful
  constructor
  · intro h ds st xs st' hruns hnext
    obtain ⟨fs₁, sas₁, w₁, hrun, hset, hf₁⟩ := hm.follows (w := w) hret hf c hruns
    obtain ⟨fs₂, sas₂, c₁, d, fs₃, st₃, w', c', ht⟩ := hm.turn hret hset hf₁ (hnext.not_done hk) w₁ c
    have hstep := ht.step
    rw [hset.cmp] at hstep
    obtain ⟨rfl, rfl⟩ := hstep.unique hnext
    have hback := ht.back
    rw [(hm.of_same hset).cbs_eq] at hback
    obtain ⟨choice, key, value, hlog⟩ := hback.exists_log
    obtain ⟨ids, ps, hpre, hentries, hkeys, -, hasc, -⟩ := h hrun ht.feed ht.call hlog
    -- these are as many of the pending inputs, from the front on
    have hids : xs.map Prod.fst <+: fs₂.pending := by
      rw [ht.fed.queued.pending_eq, hset.cmp, (hstep.split hk).1, List.map_append]
      exact List.prefix_append ..
    have hlen : ids.length = (xs.map Prod.fst).length := by
      have hboth := congrArg List.length hkeys
      simp only [List.length_map] at hboth
      rw [hentries.length_eq, List.length_map, hboth]
    obtain rfl := (List.prefix_of_prefix_length_le hpre hids hlen.le).eq_of_length hlen
    exact hasc
  · intro h fs₁ fs₂ fs₃ sas₁ sas₂ w₁ w₂ c c₁ c₂ keys values choice key value value' hrun hfeed hcall
      hlog
    obtain ⟨st, ds, hruns, -, hset, hf₁⟩ := hm.run hret hf hrun
    obtain ⟨xs, st', hnext, hids, hentries, hkeys, hvalues, hchoice⟩ :=
      hm.merged hret hset hf₁ hfeed hcall hlog
    refine ⟨xs.map Prod.fst, xs.map Prod.snd, hids, ?_, hkeys, hvalues, h hruns hnext, hchoice⟩
    rw [List.forall₂_map_left_iff, List.forall₂_map_right_iff, List.forall₂_same]
    intro x hx
    refine ⟨hentries x hx, mem_inputContents hm.wf.lawful hruns ?_⟩
    rw [(hnext.split hk).1]
    exact List.mem_append_left _ hx

/-- The merges of a fold list their pairs in the order of the inputs if and only if
all but the first of the inputs that share a key stand in descending order, whenever
they do. -/
theorem merges_in_order_iff (hs : Started cb .left cbs inputs sas fs sas₀) (w : W) :
    MergesInOrder cb inputs sas fs sas₀ (w, []) ↔ SharedInTurn (cb.cmp fs.cmp) sas inputs := by
  obtain ⟨bs, its, hm, hf⟩ := hs.merges
  obtain ⟨c, -⟩ := hs.init
  rw [hm.inOrder_iff hs.returns hf c]
  refine Lanes.mergesAscending_iff (LawfulCmp.onKeys hm.wf.lawful) ?_
  intro lane hlane
  obtain ⟨h, hh, rfl⟩ := List.mem_map.mp hlane
  exact hm.ascending hh

theorem flatSplit_flatRest_reachable :
    ∀ sa ∈ [SkipArray.flatSplit, SkipArray.flatRest, SkipArray.flatRest],
      ∃ f, LawfulCmp (Callbacks.plain.cmp f) ∧ Reachable Callbacks.plain f sa := by
  intro sa hsa
  refine ⟨0, LawfulCmp.int_sub, ?_⟩
  rcases List.mem_cons.mp hsa with rfl | hsa
  · exact SkipArray.flatSplit_reachable
  · obtain rfl : sa = SkipArray.flatRest := by simpa using hsa
    exact SkipArray.flatRest_reachable

/-- Keys 1 to 3 and twice 2 and 3. Input 0 was read after the others when these two
keys come, so the pairs of the others are listed as they are. -/
theorem merges_in_order_flat : ∃ fs sas₀,
    Started Callbacks.plain .left FoldCbs.plain [0, 1, 2]
      [SkipArray.flatSplit, SkipArray.flatRest, SkipArray.flatRest] fs sas₀ ∧
    (MergesInOrder Callbacks.plain [0, 1, 2]
        [SkipArray.flatSplit, SkipArray.flatRest, SkipArray.flatRest] fs sas₀ ((), []) ↔
      SharedInTurn (Callbacks.plain.cmp fs.cmp)
        [SkipArray.flatSplit, SkipArray.flatRest, SkipArray.flatRest] [0, 1, 2]) ∧
    SharedInTurn (Callbacks.plain.cmp fs.cmp)
      [SkipArray.flatSplit, SkipArray.flatRest, SkipArray.flatRest] [0, 1, 2] := by
  have hs : Started Callbacks.plain .left FoldCbs.plain [0, 1, 2]
      [SkipArray.flatSplit, SkipArray.flatRest, SkipArray.flatRest] _ _ :=
    ⟨flatSplit_flatRest_reachable, by decide, FoldCbs.plain_return, ⟨(), 0, [], []⟩, _, rfl⟩
  exact ⟨_, _, hs, merges_in_order_iff hs (), by decide⟩

/-- Three inputs with key 1: the merge gets the pairs of the third and the second. -/
theorem merges_out_of_order : ∃ fs sas₀,
    Started Callbacks.plain .left FoldCbs.plain [0, 1, 2]
      [SkipArray.plainOne, SkipArray.plainOne, SkipArray.plainOne] fs sas₀ ∧
    ¬ MergesInOrder Callbacks.plain [0, 1, 2]
      [SkipArray.plainOne, SkipArray.plainOne, SkipArray.plainOne] fs sas₀ ((), []) := by
  have hreach : ∀ sa ∈ [SkipArray.plainOne, SkipArray.plainOne, SkipArray.plainOne],
      ∃ f, LawfulCmp (Callbacks.plain.cmp f) ∧ Reachable Callbacks.plain f sa := by
    intro sa hsa
    obtain rfl : sa = SkipArray.plainOne := by simpa using hsa
    exact ⟨0, LawfulCmp.int_sub, SkipArray.plainOne_reachable⟩
  refine ⟨_, _, ⟨hreach, by decide, FoldCbs.plain_return, ⟨(), 0, [], []⟩, _, rfl⟩, ?_⟩
  intro h
  obtain ⟨ids, ps, ⟨others, hpending⟩, hentries, hkeys, -, hasc, -⟩ :=
    @h _ _ _ _ _ _ _ ⟨(), 0, [], []⟩ _ _ [1, 1] _ _ _ _ _ .start rfl rfl rfl
  have hids : ids ++ others = [2, 1, 0] := hpending
  have hlen : ids.length = 2 := by
    rw [hentries.length_eq, ← ps.length_map Prod.fst, ← hkeys]
    rfl
  obtain ⟨i, j, rfl⟩ := List.length_eq_two.mp hlen
  obtain ⟨rfl, rfl, -⟩ : i = 2 ∧ j = 1 ∧ others = [0] := by simpa using hids
  exact absurd hasc (by decide)

end Runs

end Skiparray
