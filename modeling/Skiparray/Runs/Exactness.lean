import Skiparray.Runs.Folds
import Skiparray.Lib.Merging

/-!
# When a multi-fold merges exactly, and when it is in order

The last of several equal pairs is left out of the merge and delivered by itself,
so a left fold is the merge it is meant to be only if no key is in two inputs.
The queue is sorted upwards for either direction, so a right fold of more than
one input descends in one degenerate case only.
-/

namespace Skiparray

open SkipLinks Fallible

variable {K V U W : Type}

/-! ## The keys a fold calls back on -/

/-- The keys passed to the fold callback. -/
def foldKeys (log : List (FoldEvent K V)) : List K :=
  log.filterMap fun
    | .fold key _ => some key
    | .merge _ _ _ _ => none

theorem Heard.foldKeys {ds : List (Lanes.Delivery (K × V))} {log : List (FoldEvent K V)}
    (h : Heard ds log) : List.Forall₂ (fun d k => ∃ p ∈ d.items, p.1 = k) ds (foldKeys log) := by
  induction h with
  | nil => exact List.Forall₂.nil
  | @single p ds log _ ih => exact List.Forall₂.cons ⟨p, List.mem_singleton_self p, rfl⟩ ih
  | @merged ps choice key value ds log hk _ ih =>
      obtain ⟨p, hp, hpk⟩ := List.mem_map.mp (List.mem_of_getElem? hk)
      exact List.Forall₂.cons ⟨p, hp, hpk⟩ ih

/-- Related lists have related pairs. -/
theorem pairwise_of_forall₂ {α β : Type} {T : α → β → Prop} {R : α → α → Prop} {S : β → β → Prop}
    (himp : ∀ a a' b b', T a b → T a' b' → R a a' → S b b') {as : List α} {bs : List β}
    (h : List.Forall₂ T as bs) (hp : as.Pairwise R) : bs.Pairwise S := by
  induction h with
  | nil => exact List.Pairwise.nil
  | @cons a b as bs hab hrest ih =>
      rw [List.pairwise_cons] at hp ⊢
      refine ⟨?_, ih hp.2⟩
      intro b' hb'
      obtain ⟨i, hi⟩ := List.getElem?_of_mem hb'
      have hlt : i < as.length := by
        rw [hrest.length_eq]
        exact (List.getElem?_eq_some_iff.mp hi).1
      have ha := List.getElem?_eq_getElem hlt
      exact himp _ _ _ _ hab (forall₂_getElem? hrest ha hi) (hp.1 _ (List.getElem_mem hlt))

section Keys

variable {cmp : K → K → ℤ} {st : Lanes.State (K × V)}
  {ds : List (Lanes.Delivery (ℕ × (K × V)))} {log : List (FoldEvent K V)}

/-- Delivery by delivery, the key called back on is that of the items. -/
theorem delivered_keys (hc : LawfulCmp cmp) (h : Lanes.Delivers (onKeys cmp) st ds)
    (hheard : Heard (ds.map (Lanes.Delivery.map Prod.snd)) log) :
    List.Forall₂ (fun d k => (∀ x ∈ d.items, ∀ y ∈ d.items, cmp x.2.1 y.2.1 = 0) ∧
      ∃ x ∈ d.items, x.2.1 = k) ds (foldKeys log) := by
  rw [List.forall₂_and_left]
  constructor
  · have hk : LawfulCmp (onKeys cmp : K × V → K × V → ℤ) := LawfulCmp.onKeys hc
    clear hheard
    induction h with
    | done _ => simp
    | @next s s' d ds h _ ih =>
        intro d' hd'
        rcases List.mem_cons.mp hd' with rfl | hd'
        · intro x hx y hy
          exact h.equal hk hx hy
        · exact ih d' hd'
  · have hkeys := hheard.foldKeys
    rw [List.forall₂_map_left_iff] at hkeys
    refine hkeys.imp ?_
    rintro d k ⟨p, hp, rfl⟩
    rw [Lanes.Delivery.items_map] at hp
    obtain ⟨x, hx, rfl⟩ := List.mem_map.mp hp
    exact ⟨x, hx, rfl⟩

/-- The keys go down exactly if the deliveries do. -/
theorem foldKeys_descend_iff (hc : LawfulCmp cmp) (h : Lanes.Delivers (onKeys cmp) st ds)
    (hheard : Heard (ds.map (Lanes.Delivery.map Prod.snd)) log) :
    (foldKeys log).Pairwise (fun k l => cmp l k ≤ 0) ↔
      Lanes.InOrder (fun p q => onKeys cmp q p ≤ 0) ds := by
  have hkeys := delivered_keys hc h hheard
  constructor
  · refine fun hp => pairwise_of_forall₂ ?_ hkeys.flip hp
    rintro k k' d d' ⟨heq, x, hx, rfl⟩ ⟨heq', x', hx', rfl⟩ hle y hy y' hy'
    have h₁ := hc.trans _ _ _ (heq' y' hy' x' hx').le hle
    exact hc.trans _ _ _ h₁ (heq x hx y hy).le
  · refine fun hp => pairwise_of_forall₂ ?_ hkeys hp
    rintro d d' k k' ⟨-, x, hx, rfl⟩ ⟨-, x', hx', rfl⟩ hle
    exact hle x hx x' hx'

/-- Keys that are all different come from deliveries of different items. -/
theorem inOrder_ne_of_foldKeys (hc : LawfulCmp cmp) (h : Lanes.Delivers (onKeys cmp) st ds)
    (hheard : Heard (ds.map (Lanes.Delivery.map Prod.snd)) log)
    (hp : (foldKeys log).Pairwise fun k l => cmp k l ≠ 0) :
    Lanes.InOrder (fun p q => onKeys cmp p q ≠ 0) ds := by
  refine pairwise_of_forall₂ ?_ (delivered_keys hc h hheard).flip hp
  rintro k k' d d' ⟨heq, x, hx, rfl⟩ ⟨heq', x', hx', rfl⟩ hne y hy y' hy' hyy'
  exact hne (hc.eq_trans (heq x hx y hy) (hc.eq_trans hyy' (heq' y' hy' x' hx')))

end Keys

section Folds

variable [Inhabited K] [Inhabited V] {cb : Callbacks K U} {type : FoldType} {cbs : FoldCbs K V U W}
  {inputs : List ℕ} {sas sas₀ : List (SkipArray K V)}
  {fs : FoldState K V U (W × List (FoldEvent K V))} {fuel : ℕ}

/-- The bindings of the `i`-th input. -/
def inputContents (sas : List (SkipArray K V)) (inputs : List ℕ) (i : ℕ) : List (K × V) :=
  ((inputs[i]?).map (contentsAt sas)).getD []

omit [Inhabited K] in
theorem startLanes_lane_eq (i : ℕ) :
    (startLanes type sas inputs).lane i = type.order (inputContents sas inputs i) := by
  unfold inputContents
  cases hi : inputs[i]? with
  | some h => exact startLanes_lane hi
  | none =>
      have hlen : inputs.length ≤ i := List.getElem?_eq_none_iff.mp hi
      rw [Lanes.State.lane, startLanes, List.filter_nil, List.map_nil, List.nil_append,
        List.getD_eq_default _ _ (by rwa [List.length_map])]
      cases type with
      | left => rfl
      | right => rfl

omit [Inhabited K] in
theorem Merges.ascending (hm : Merges cb type cbs inputs sas bs its fs) {h : ℕ} (hh : h ∈ inputs) :
    Ascending (cb.cmp fs.cmp) (contentsAt sas h) := by
  obtain ⟨sa, -, hwf, -⟩ := hm.wf.wf h hh
  rw [hm.contents h hh]
  exact hwf.ascending

/-- A fold that was started, stepped to its end. -/
theorem Started.delivers (hs : Started cb type cbs inputs sas fs sas₀) (w : W) (c : Ctx K V U)
    (hfuel : (startLanes type sas inputs).total < fuel) :
    ∃ sas₁ w₁ c₁ ds, foldLoop cb fuel fs sas₀ (w, []) c = .ok (sas₁, w₁, c₁) ∧
      LawfulCmp (cb.cmp fs.cmp) ∧
      Lanes.Delivers (onKeys (cb.cmp fs.cmp)) (startLanes type sas inputs) ds ∧
      Heard (ds.map (Lanes.Delivery.map Prod.snd)) w₁.2 ∧
      ∀ i, Ascending (cb.cmp fs.cmp) (inputContents sas inputs i) := by
  obtain ⟨bs, its, hm, hf⟩ := hs.merges
  obtain ⟨sas₁, w₁, c₁, ds, log, hloop, hdel, hheard, -⟩ := foldLoop_spec hm.nonempty hs.returns
    hm.mergeable (w := (w, [])) (c := c) hm.cbs_eq hm.wf hf hfuel
  refine ⟨sas₁, (w₁, log), c₁, ds, hloop, hm.wf.lawful, hdel, hheard, ?_⟩
  intro i
  unfold inputContents
  cases hi : inputs[i]? with
  | none => exact Ascending.nil
  | some h => exact hm.ascending (List.mem_of_getElem? hi)

/-! ## Left folds -/

/-- What the callbacks are told of all the bindings that have one key: the only
binding, or one merge of all of them with the key it chose and the value it made. -/
inductive GroupEvents : List (K × V) → List (FoldEvent K V) → Prop where
  | alone (p : K × V) : GroupEvents [p] [.fold p.1 p.2]
  | merged {ps qs : List (K × V)} {choice : ℕ} {key : K} {value : V} (hlen : 2 ≤ ps.length)
      (hperm : qs.Perm ps) (hk : (qs.map Prod.fst)[choice]? = some key) :
      GroupEvents ps
        [.merge (qs.map Prod.fst) (qs.map Prod.snd) choice value, .fold key value]

/-- The log is the exact merge of the bindings `all`: these fall into groups with
equal keys, the keys ascend from group to group, and each group is told of once. -/
def ExactMerge (cmp : K → K → ℤ) (all : List (K × V)) (log : List (FoldEvent K V)) : Prop :=
  ∃ (groups : List (List (K × V))) (events : List (List (FoldEvent K V))),
    List.Forall₂ GroupEvents groups events ∧ log = events.flatten ∧ groups.flatten.Perm all ∧
    (∀ g ∈ groups, ∀ p ∈ g, ∀ q ∈ g, cmp p.1 q.1 = 0) ∧
    groups.Pairwise fun g g' => ∀ p ∈ g, ∀ q ∈ g', cmp p.1 q.1 < 0

omit [Inhabited K] [Inhabited V] in
theorem GroupEvents.foldKeys {g : List (K × V)} {evs : List (FoldEvent K V)}
    (h : GroupEvents g evs) : ∃ p ∈ g, Skiparray.foldKeys evs = [p.1] := by
  cases h with
  | alone p => exact ⟨p, List.mem_singleton_self p, rfl⟩
  | merged _ hperm hk =>
      obtain ⟨p, hp, rfl⟩ := List.mem_map.mp (List.mem_of_getElem? hk)
      exact ⟨p, hperm.mem_iff.mp hp, rfl⟩

omit [Inhabited K] [Inhabited V] in
/-- An exact merge calls back on strictly ascending keys. -/
theorem ExactMerge.foldKeys {cmp : K → K → ℤ} {all : List (K × V)} {log : List (FoldEvent K V)}
    (h : ExactMerge cmp all log) : (Skiparray.foldKeys log).Pairwise fun k l => cmp k l < 0 := by
  obtain ⟨groups, events, hevents, rfl, -, -, hlt⟩ := h
  have hkeys : List.Forall₂ (fun g k => ∃ p ∈ g, p.1 = k) groups
      (Skiparray.foldKeys events.flatten) := by
    clear hlt
    induction hevents with
    | nil => exact List.Forall₂.nil
    | @cons g evs groups events hg _ ih =>
        obtain ⟨p, hp, hpk⟩ := hg.foldKeys
        unfold Skiparray.foldKeys at hpk ih ⊢
        rw [List.flatten_cons, List.filterMap_append, hpk]
        exact List.Forall₂.cons ⟨p, hp, rfl⟩ ih
  refine pairwise_of_forall₂ ?_ hkeys hlt
  rintro g g' k k' ⟨p, hp, rfl⟩ ⟨q, hq, rfl⟩ hall
  exact hall p hp q hq

omit [Inhabited K] [Inhabited V] in
/-- Deliveries of single items are heard as groups of one. -/
theorem Heard.alone {ds : List (Lanes.Delivery (K × V))} {log : List (FoldEvent K V)}
    (h : Heard ds log) (hone : ∀ d ∈ ds, ∃ p, d = .single p) :
    ∃ events, List.Forall₂ GroupEvents (ds.map Lanes.Delivery.items) events ∧
      log = events.flatten := by
  induction h with
  | nil => exact ⟨[], List.Forall₂.nil, rfl⟩
  | @single p ds log _ ih =>
      obtain ⟨events, hevents, rfl⟩ := ih fun d hd => hone d (List.mem_cons_of_mem _ hd)
      exact ⟨[.fold p.1 p.2] :: events, List.Forall₂.cons (.alone p) hevents, rfl⟩
  | merged _ _ _ =>
      obtain ⟨p, hp⟩ := hone _ List.mem_cons_self
      cases hp

omit [Inhabited K] in
/-- The bindings of the inputs, position by position. -/
theorem flatMap_inputContents : (List.range inputs.length).flatMap (inputContents sas inputs) =
    inputs.flatMap (contentsAt sas) := by
  induction inputs with
  | nil => rfl
  | cons h inputs ih =>
      rw [List.length_cons, List.range_succ_eq_map, List.flatMap_cons, List.flatMap_map,
        List.flatMap_cons, ← ih]
      rfl

/-- A left fold is an exact merge of its inputs if and only if no key is in two of them. -/
theorem left_fold_exact_iff (hs : Started cb .left cbs inputs sas fs sas₀) (w : W)
    (c : Ctx K V U) (hfuel : (startLanes .left sas inputs).total < fuel) :
    ∃ sas₁ w₁ c₁, foldLoop cb fuel fs sas₀ (w, []) c = .ok (sas₁, w₁, c₁) ∧
      (ExactMerge (cb.cmp fs.cmp) (inputs.flatMap (contentsAt sas)) w₁.2 ↔
        ∀ i j p q, i ≠ j → p ∈ inputContents sas inputs i → q ∈ inputContents sas inputs j →
          cb.cmp fs.cmp p.1 q.1 ≠ 0) := by
  obtain ⟨sas₁, w₁, c₁, ds, hloop, hc, hdel, hheard, hasc⟩ := hs.delivers w c hfuel
  have hk : LawfulCmp (onKeys (cb.cmp fs.cmp) : K × V → K × V → ℤ) := LawfulCmp.onKeys hc
  have hlane : ∀ i, (startLanes .left sas inputs).lane i = inputContents sas inputs i :=
    startLanes_lane_eq
  refine ⟨sas₁, w₁, c₁, hloop, ?_⟩
  constructor
  · intro hexact i j p q hij hp hq hpq
    have hne := hexact.foldKeys.imp fun hlt => hlt.ne
    rw [← hlane] at hp hq
    exact hdel.shared hk hij hp hq hpq (inOrder_ne_of_foldKeys hc hdel hheard hne)
  · intro hdisjoint
    have hd : (startLanes .left sas inputs).Disjoint (onKeys (cb.cmp fs.cmp)) := by
      intro i j p q hij hp hq
      rw [hlane] at hp hq
      exact hdisjoint i j p q hij hp hq
    have hone := hdel.single hk startLanes_valid hd
    have hlt := hdel.inOrder_lt hk List.Pairwise.nil (fun i => (hlane i).symm ▸ hasc i) hd
    -- every binding is a group by itself
    have hmap : ∀ d ∈ ds.map (Lanes.Delivery.map Prod.snd), ∃ p, d = .single p := by
      intro d hd
      obtain ⟨d', hd', rfl⟩ := List.mem_map.mp hd
      obtain ⟨x, rfl⟩ := hone d' hd'
      exact ⟨x.2, rfl⟩
    obtain ⟨events, hevents, hlog⟩ := hheard.alone hmap
    refine ⟨_, events, hevents, hlog, ?_, ?_, ?_⟩
    · have hperm := hdel.perm hk startLanes_valid
      have hflat : ((ds.map (Lanes.Delivery.map Prod.snd)).map Lanes.Delivery.items).flatten =
          (Lanes.flat ds).map Prod.snd := by
        rw [Lanes.flat, List.map_flatMap, List.map_map, List.flatMap_def]
        congr 2
        funext d
        exact Lanes.Delivery.items_map Prod.snd d
      rw [hflat, ← flatMap_inputContents]
      rwa [startLanes, List.length_map, ← startLanes, List.flatMap_congr fun i _ => hlane i]
        at hperm
    · intro g hg
      rw [List.map_map] at hg
      obtain ⟨d, hd, rfl⟩ := List.mem_map.mp hg
      obtain ⟨x, rfl⟩ := hone d hd
      intro p hp q hq
      rw [List.mem_singleton.mp hp, List.mem_singleton.mp hq]
      exact hc.refl x.2.1
    · rw [List.map_map, List.pairwise_map]
      refine hlt.imp ?_
      intro d d' hdd p hp q hq
      rw [Function.comp_apply, Lanes.Delivery.items_map] at hp hq
      obtain ⟨x, hx, rfl⟩ := List.mem_map.mp hp
      obtain ⟨y, hy, rfl⟩ := List.mem_map.mp hq
      exact hdd x hx y hy

theorem left_fold_exact_plain : ∃ fs sas₀,
    Started Callbacks.plain .left FoldCbs.plain [0, 1] [SkipArray.plainOne, SkipArray.plainOne]
      fs sas₀ ∧
    ∃ sas₁ w₁ c₁, foldLoop Callbacks.plain 3 fs sas₀ ((), []) ⟨(), 0, [], []⟩ =
        .ok (sas₁, w₁, c₁) ∧
      (ExactMerge (Callbacks.plain.cmp fs.cmp)
          ([0, 1].flatMap (contentsAt [SkipArray.plainOne, SkipArray.plainOne])) w₁.2 ↔
        ∀ i j p q, i ≠ j →
          p ∈ inputContents [SkipArray.plainOne, SkipArray.plainOne] [0, 1] i →
          q ∈ inputContents [SkipArray.plainOne, SkipArray.plainOne] [0, 1] j →
          Callbacks.plain.cmp fs.cmp p.1 q.1 ≠ 0) := by
  obtain ⟨fs, sas₀, hs⟩ := exists_started_plain
  exact ⟨fs, sas₀, hs, left_fold_exact_iff hs () _ (by decide)⟩

/-- Of two bindings with key 1, one goes through the merge alone, then the other
is called back on by itself. -/
theorem left_fold_repeats_key : ∃ fs sas₀,
    Started Callbacks.plain .left FoldCbs.plain [0, 1] [SkipArray.plainOne, SkipArray.plainOne]
      fs sas₀ ∧
    ∃ sas₁ w₁ c₁, foldLoop Callbacks.plain 3 fs sas₀ ((), []) ⟨(), 3, [], []⟩ =
        .ok (sas₁, w₁, c₁) ∧
      w₁.2 = [.merge [1] [10] 0 10, .fold 1 10, .fold 1 10] ∧
      ¬ ExactMerge (Callbacks.plain.cmp fs.cmp)
        ([0, 1].flatMap (contentsAt [SkipArray.plainOne, SkipArray.plainOne])) w₁.2 := by
  have hreach : ∀ sa ∈ [SkipArray.plainOne, SkipArray.plainOne],
      ∃ f, LawfulCmp (Callbacks.plain.cmp f) ∧ Reachable Callbacks.plain f sa := by
    intro sa hsa
    obtain rfl : sa = SkipArray.plainOne := by simpa using hsa
    exact ⟨0, LawfulCmp.int_sub, SkipArray.plainOne_reachable⟩
  refine ⟨_, _, ⟨hreach, by decide, FoldCbs.plain_return, ⟨(), 0, [], []⟩, _, rfl⟩, _, _, _, rfl,
    rfl, ?_⟩
  intro hexact
  have hkeys : [(1 : ℤ), 1].Pairwise fun k l => k - l < 0 := hexact.foldKeys
  revert hkeys
  decide

/-! ## Right folds -/

/-- Of several inputs that have bindings, all but the first have one, with the key
of the last binding of the first. -/
def OnlyFirstLong (cmp : K → K → ℤ) (sas : List (SkipArray K V)) (inputs : List ℕ) : Prop :=
  ∀ i j, i < j → (∀ k < i, inputContents sas inputs k = []) → inputContents sas inputs i ≠ [] →
    inputContents sas inputs j ≠ [] →
    ∃ p q, (inputContents sas inputs i).getLast? = some p ∧ inputContents sas inputs j = [q] ∧
      cmp p.1 q.1 = 0

omit [Inhabited K] in
theorem degenerate_iff {cmp : K → K → ℤ} :
    (startLanes .right sas inputs).Degenerate (onKeys cmp) ↔ OnlyFirstLong cmp sas inputs := by
  have hlane : ∀ i, (startLanes .right sas inputs).lane i =
      (inputContents sas inputs i).reverse := startLanes_lane_eq
  have hnil : ∀ i, (startLanes .right sas inputs).lane i = [] ↔ inputContents sas inputs i = [] := by
    intro i
    rw [hlane, List.reverse_eq_nil_iff]
  constructor
  · intro h i j hij hfirst hi hj
    obtain ⟨p, q, hp, hq, hpq⟩ := h hij (fun k hk => (hnil k).mpr (hfirst k hk))
      (mt (hnil i).mp hi) (mt (hnil j).mp hj)
    rw [hlane, List.head?_reverse] at hp
    rw [hlane, List.reverse_eq_iff] at hq
    exact ⟨p, q, hp, hq, hpq⟩
  · intro h i j hij hfirst hi hj
    obtain ⟨p, q, hp, hq, hpq⟩ := h i j hij (fun k hk => (hnil k).mp (hfirst k hk))
      (mt (hnil i).mpr hi) (mt (hnil j).mpr hj)
    refine ⟨p, q, ?_, ?_, hpq⟩
    · rw [hlane, List.head?_reverse]
      exact hp
    · rw [hlane, hq]
      rfl

/-- The keys of a right fold never increase if and only if of its inputs that have
bindings all but the first have a single one, equal to the last of the first. -/
theorem right_fold_descends_iff (hs : Started cb .right cbs inputs sas fs sas₀) (w : W)
    (c : Ctx K V U) (hfuel : (startLanes .right sas inputs).total < fuel) :
    ∃ sas₁ w₁ c₁, foldLoop cb fuel fs sas₀ (w, []) c = .ok (sas₁, w₁, c₁) ∧
      ((foldKeys w₁.2).Pairwise (fun k l => cb.cmp fs.cmp l k ≤ 0) ↔
        OnlyFirstLong (cb.cmp fs.cmp) sas inputs) := by
  obtain ⟨sas₁, w₁, c₁, ds, hloop, hc, hdel, hheard, hasc⟩ := hs.delivers w c hfuel
  have hk : LawfulCmp (onKeys (cb.cmp fs.cmp) : K × V → K × V → ℤ) := LawfulCmp.onKeys hc
  have hdesc : ∀ i, ((startLanes .right sas inputs).lane i).Pairwise
      fun p q => onKeys (cb.cmp fs.cmp) q p < 0 := by
    intro i
    rw [startLanes_lane_eq]
    exact List.pairwise_reverse.mpr (hasc i)
  refine ⟨sas₁, w₁, c₁, hloop, ?_⟩
  rw [foldKeys_descend_iff hc hdel hheard, ← degenerate_iff]
  constructor
  · intro horder
    exact hdel.degenerate hk rfl hdesc horder
  · intro hdeg
    exact hdel.of_degenerate hk rfl hdesc hdeg

/-- Keys 1 to 3, and key 1 once more. -/
theorem flatSplit_plainOne_reachable : ∀ sa ∈ [SkipArray.flatSplit, SkipArray.plainOne],
    ∃ f, LawfulCmp (Callbacks.plain.cmp f) ∧ Reachable Callbacks.plain f sa := by
  intro sa hsa
  refine ⟨0, LawfulCmp.int_sub, ?_⟩
  rcases List.mem_cons.mp hsa with rfl | hsa
  · exact SkipArray.flatSplit_reachable
  · rw [List.mem_singleton.mp hsa]
    exact SkipArray.plainOne_reachable

theorem right_fold_descends_flat : ∃ fs sas₀,
    Started Callbacks.plain .right FoldCbs.plain [0, 1] [SkipArray.flatSplit, SkipArray.plainOne]
      fs sas₀ ∧
    ∃ sas₁ w₁ c₁, foldLoop Callbacks.plain 5 fs sas₀ ((), []) ⟨(), 0, [], []⟩ =
        .ok (sas₁, w₁, c₁) ∧
      ((foldKeys w₁.2).Pairwise (fun k l => Callbacks.plain.cmp fs.cmp l k ≤ 0) ↔
        OnlyFirstLong (Callbacks.plain.cmp fs.cmp) [SkipArray.flatSplit, SkipArray.plainOne]
          [0, 1]) := by
  have ha : Accepts FoldCbs.plain.logged.merge [SkipArray.flatSplit, SkipArray.plainOne] [0, 1]
      SkipArray.flatSplit := by
    refine ⟨fun _ => rfl, ⟨0, rfl, rfl⟩, ?_⟩
    intro h hh
    fin_cases hh
    · exact ⟨_, rfl, rfl⟩
    · exact ⟨_, rfl, rfl⟩
  obtain ⟨fs, sas₀, hs⟩ := @exists_started ℤ ℤ Unit Unit _ _ Callbacks.plain .right _ _ _ _ (fun _ => rfl)
    flatSplit_plainOne_reachable (by decide) FoldCbs.plain_return ha ⟨(), 0, [], []⟩
  exact ⟨fs, sas₀, hs, right_fold_descends_iff hs () _ (by decide)⟩

/-- Key 1 of the short input comes first, then 3, 2 and 1 of the long one. -/
theorem right_fold_ascends : ∃ fs sas₀,
    Started Callbacks.plain .right FoldCbs.plain [0, 1] [SkipArray.flatSplit, SkipArray.plainOne]
      fs sas₀ ∧
    ∃ sas₁ w₁ c₁, foldLoop Callbacks.plain 5 fs sas₀ ((), []) ⟨(), 3, [], []⟩ =
        .ok (sas₁, w₁, c₁) ∧
      foldKeys w₁.2 = [1, 3, 2, 1] ∧
      ¬ (foldKeys w₁.2).Pairwise (fun k l => Callbacks.plain.cmp fs.cmp l k ≤ 0) := by
  refine ⟨_, _, ⟨flatSplit_plainOne_reachable, by decide, FoldCbs.plain_return,
    ⟨(), 0, [], []⟩, _, rfl⟩, _, _, _, rfl, rfl, ?_⟩
  show ¬ [(1 : ℤ), 3, 2, 1].Pairwise fun k l => l - k ≤ 0
  decide

end Folds

end Skiparray
