import Skiparray.Runs.Folds

/-!
# A fold of one skiparray is a fold of its list of bindings

With one input there is one lane: nothing is ever merged, and what the callback
gets are the bindings in their order. `Carries` is the rule for callbacks that
keep something up from binding to binding; the fold itself only takes memory and
gives it back.
-/

namespace Skiparray

open SkipLinks Fallible

variable {K V U W : Type} [Inhabited K] [Inhabited V]

/-! ## What a callback keeps up -/

/-- The accumulating callback `fold` was called on each of the pairs in turn,
each time with what the call before had left. -/
inductive Accumulates (fold : K → V → W → Ctx K V U → Except Fault (W × Ctx K V U)) :
    List (K × V) → W → W → Prop
  | nil {w : W} : Accumulates fold [] w w
  | snoc {ps : List (K × V)} {p : K × V} {w w₁ w₂ : W} {c c' : Ctx K V U}
      (h : Accumulates fold ps w w₁) (hcall : fold p.1 p.2 w₁ c = .ok (w₂, c')) :
      Accumulates fold (ps ++ [p]) w w₂

/-- `I done w c held` can be kept up over the pairs `l`: it says how things are once
the callback was called on `done`, while the fold holds the memory `held`. -/
structure Carries (cb : Callbacks K U)
    (fold : K → V → W → Ctx K V U → Except Fault (W × Ctx K V U)) (l : List (K × V))
    (I : List (K × V) → W → Ctx K V U → Multiset ℕ → Prop) : Prop where
  call : ∀ {done : List (K × V)} {p : K × V} {todo : List (K × V)} {w : W} {c : Ctx K V U}
    {held : Multiset ℕ}, l = done ++ p :: todo → I done w c held →
    ∃ w' c', fold p.1 p.2 w c = .ok (w', c') ∧ I (done ++ [p]) w' c' held
  hand : ∀ {done : List (K × V)} {w : W} {c c' : Ctx K V U} {held held' : Multiset ℕ},
    I done w c held → HandsOver cb c held c' held' → I done w c' held'

section Lane

variable {cb : Callbacks K U} {type : FoldType} {bs : ℕ → List (Block K V)} {its : ℕ → List Ptr}
  {base : List (SkipArray K V)} {inputs : List ℕ} {l : List (K × V)}
  {fold : K → V → W → Ctx K V U → Except Fault (W × Ctx K V U)}
  {I : List (K × V) → W → Ctx K V U → Multiset ℕ → Prop}

omit [Inhabited K] [Inhabited V] in
theorem Carries.accumulates (hret : ∀ k v w c, ∃ w' c', fold k v w c = .ok (w', c'))
    (l : List (K × V)) (w₀ : W) : Carries cb fold l fun done w _ _ => Accumulates fold done w₀ w := by
  constructor
  · intro done p todo w c held _ h
    obtain ⟨w', c', hcall⟩ := hret p.1 p.2 w c
    exact ⟨w', c', hcall, .snoc h hcall⟩
  · intro done w c c' held held' h _
    exact h

omit [Inhabited K] in
/-- One call of `skiparray_fold_next` calls back on the next binding, if there is one. -/
theorem foldNext_lane {fs : FoldState K V U W} {sas : List (SkipArray K V)}
    {st : Lanes.State (K × V)} {w : W} {c : Ctx K V U} {done : List (K × V)}
    (hI : Carries cb fs.cbs.fold l I) (hone : inputs.length = 1)
    (hin : FoldInputs cb base bs inputs fs.cmp fs.useValues)
    (hf : Folding cb type bs its base inputs fs sas st) (hl : l = done ++ st.lane 0)
    (h : I done w c (fs.memory sas)) :
    (st.lane 0 = [] ∧ ∃ sas' c', skiparrayFoldNext cb fs sas w c = .ok (.done, none, sas', w, c') ∧
      I l w c' 0 ∧ Pool base sas' its []) ∨
    ∃ p fs' sas' st' w' c', skiparrayFoldNext cb fs sas w c = .ok (.ok, some fs', sas', w', c') ∧
      SameSetup fs fs' ∧ Folding cb type bs its base inputs fs' sas' st' ∧
      st.lane 0 = p :: st'.lane 0 ∧ I (done ++ [p]) w' c' (fs'.memory sas') := by
  have hc : LawfulCmp (onKeys (cb.cmp fs.cmp) : K × V → K × V → ℤ) := LawfulCmp.onKeys hin.lawful
  have hne : inputs ≠ [] := List.ne_nil_of_length_pos (by omega)
  have hrests : st.rests.length = 1 := hf.lanes.trans hone
  obtain ⟨res, fs', sas', w', c', hnext, hout⟩ := skiparrayFoldNext_calls hne hin hf w c (by
    intro d st' c₁ held hstep hover
    obtain ⟨p, rfl, hlane⟩ := hstep.one_lane hc hf.valid hrests
    rw [hlane] at hl
    obtain ⟨w', c', hcall, -⟩ := hI.call hl (hI.hand h hover)
    exact ⟨w', c', .single hcall⟩)
  cases hout with
  | done hdone hpool hover =>
      have hnil := hdone.lane 0
      rw [hnil, List.append_nil] at hl
      exact Or.inl ⟨hnil, sas', c', hnext, hl ▸ hI.hand h hover, hpool⟩
  | @ok d st' fs' _ _ c₁ _ hstep hover hcalls hset hf' =>
      obtain ⟨p, rfl, hlane⟩ := hstep.one_lane hc hf.valid hrests
      refine Or.inr ⟨p, fs', sas', st', w', c', hnext, hset, hf', hlane, ?_⟩
      rw [hlane] at hl
      obtain ⟨w'', c'', hcall, hI'⟩ := hI.call hl (hI.hand h hover)
      cases hcalls with
      | single hfold =>
          have heq := hcall.symm.trans hfold
          cases heq
          exact hI'

omit [Inhabited K] in
/-- Calls of `skiparray_fold_next` until DONE call back on all bindings that are left. -/
theorem foldLoop_lane (hone : inputs.length = 1) : ∀ {fuel : ℕ} {fs : FoldState K V U W}
    {sas : List (SkipArray K V)} {st : Lanes.State (K × V)} {w : W} {c : Ctx K V U}
    {done : List (K × V)}, Carries cb fs.cbs.fold l I →
    FoldInputs cb base bs inputs fs.cmp fs.useValues →
    Folding cb type bs its base inputs fs sas st → l = done ++ st.lane 0 →
    I done w c (fs.memory sas) → (st.lane 0).length < fuel →
    ∃ sas' w' c', foldLoop cb fuel fs sas w c = .ok (sas', w', c') ∧ I l w' c' 0 ∧
      Pool base sas' its [] := by
  intro fuel
  induction fuel with
  | zero =>
      intro fs sas st w c done _ _ _ _ _ hlt
      omega
  | succ fuel ih =>
      intro fs sas st w c done hI hin hf hl h hlt
      rcases foldNext_lane hI hone hin hf hl h with
        ⟨-, sas', c', hnext, hdone, hpool⟩ |
        ⟨p, fs', sas', st', w', c', hnext, hset, hf', hlane, h'⟩
      · refine ⟨sas', w, c', ?_, hdone, hpool⟩
        rw [foldLoop, hnext]
        rfl
      · rw [hlane] at hl hlt
        obtain ⟨sas'', w'', c'', hloop, hdone, hpool⟩ := ih (hset.cbs.symm ▸ hI)
          (by rw [hset.cmp, hset.useValues]; exact hin) hf'
          (by rw [hl, List.append_assoc]; rfl) h' (Nat.lt_of_succ_lt_succ hlt)
        refine ⟨sas'', w'', c'', ?_, hdone, hpool⟩
        rw [foldLoop, hnext]
        exact hloop

end Lane

/-! ## `skiparray_fold` -/

section Fold

variable {cb : Callbacks K U} {type : FoldType} {sas : List (SkipArray K V)} {sa : SkipArray K V}
  {h : ℕ} {fold : K → V → W → Ctx K V U → Except Fault (W × Ctx K V U)}

omit [Inhabited K] [Inhabited V] in
theorem sum_le_of_nodup {f : ℕ → ℕ} {ps : List ℕ} {n : ℕ} (hnd : ps.Nodup) (hlt : ∀ p ∈ ps, p < n) :
    (ps.map f).sum ≤ ((List.range n).map f).sum := by
  obtain ⟨qs, hperm, hsub⟩ := List.Nodup.subperm hnd fun p hp => List.mem_range.mpr (hlt p hp)
  rw [← (hperm.map f).sum_eq]
  exact (hsub.map f).sum_le_sum fun _ _ => Nat.zero_le _

omit [Inhabited K] in
/-- The bindings are among the pairs that the nodes hold. -/
theorem SkipArray.Wf.length_le_heldPairs {cmp : K → K → ℤ} {bs : List (Block K V)}
    (hw : sa.Wf cmp bs) : (bindings bs).length ≤ sa.heldPairs := by
  let f : ℕ → ℕ := fun p => ((sa.node? p).map Node.count).getD 0
  have hheap : sa.heldPairs = ((List.range sa.heap.length).map f).sum := by
    unfold SkipArray.heldPairs
    congr 1
    apply List.ext_getElem (by simp)
    intro i hi _
    rw [List.length_map] at hi
    simp [f, SkipArray.node?, List.getElem?_eq_getElem hi]
  have hblocks : (bindings bs).length = ((bs.map Block.ptr).map f).sum := by
    rw [bindings, List.length_flatMap, List.map_map]
    congr 1
    apply List.map_congr_left
    intro b hb
    obtain ⟨n, hn, hh⟩ := hw.stores b hb
    simp [f, hn, hh.count]
  rw [hheap, hblocks]
  apply sum_le_of_nodup hw.linked.ptr_nodup
  intro p hp
  obtain ⟨b, hb, rfl⟩ := List.mem_map.mp hp
  obtain ⟨n, hn, -⟩ := hw.stores b hb
  by_contra hge
  rw [SkipArray.node?, List.getElem?_eq_none (Nat.le_of_not_lt hge)] at hn
  cases hn

/-- `skiparray_fold_init` of a skiparray that a client has made: without memory
there is no fold and nothing has changed, otherwise the fold is about to read all
bindings. -/
theorem skiparrayFoldInit_spec (type : FoldType)
    (fold : K → V → W → Ctx K V U → Except Fault (W × Ctx K V U))
    (hreach : ∀ sa ∈ sas, ∃ f, LawfulCmp (cb.cmp f) ∧ Reachable cb f sa)
    (hsa : sas[h]? = some sa) (c : Ctx K V U) :
    ∃ (bs : ℕ → List (Block K V)) (its : ℕ → List Ptr) (res : FoldRes)
      (fs : Option (FoldState K V U W)) (sas' : List (SkipArray K V)) (c' : Ctx K V U),
      skiparrayFoldInit cb type (some h) (some fold) sas c = .ok (res, fs, sas', c') ∧
      sa.Wf (cb.cmp sa.cmp) (bs h) ∧ sa.contents = bindings (bs h) ∧
      (res = .errorMemory ∧ fs = none ∧ ¬ cb.AllGranted ∧ HandsOver cb c 0 c' 0 ∧
          Pool sas sas' its [] ∨
        res = .ok ∧ ∃ fs₀, fs = some fs₀ ∧ fs₀.cbs.fold = fold ∧
          FoldInputs cb sas bs [h] fs₀.cmp fs₀.useValues ∧ HandsOver cb c 0 c' (fs₀.memory sas') ∧
          ∃ st, Folding cb type bs its sas [h] fs₀ sas' st ∧
            st.lane 0 = type.order sa.contents) := by
  obtain ⟨bs, its, hco⟩ := exists_blocks hreach
  have ha : Accepts (none : Option (MergeFun K V U W)) sas [h] sa := .single hsa
  obtain ⟨res, fs, sas', c', hopen, hfreed, hudata, hout⟩ := openFold_spec cb type fold none sa
    (fun hb => ⟨_, (hco hb).2.toWf⟩) (fun hb => (hco hb).2.cursors) ha.inside c
  have hwf := (hco hsa).2.toWf
  refine ⟨bs, its, res, fs, sas', c', (ha.init_eq c).trans hopen, hwf, hwf.contents_eq, ?_⟩
  cases hout with
  | memory hpool hled hrefused =>
      refine Or.inl ⟨rfl, rfl, hrefused, ⟨hfreed, hudata, ?_⟩, hpool⟩
      intro c₀ live hl
      have hall := hl.trans hled
      rwa [zero_add] at hall
  | @ok iters live block idsBlock _ _ ho hled =>
      refine Or.inr ⟨rfl, _, rfl, rfl, ⟨by simp, (hco hsa).1, ?_⟩, ⟨hfreed, hudata, ?_⟩,
        _, ho.folding fold none sa, ?_⟩
      · intro g hg
        rw [List.mem_singleton.mp hg]
        exact ⟨sa, hsa, hwf, rfl⟩
      · intro c₀ live' hl
        rw [zero_add] at hl
        exact hl.trans hled
      · rw [hwf.contents_eq]
        rfl

/-- What `Carries` says, for a whole `skiparray_fold`. -/
theorem skiparrayFold_carries {I : List (K × V) → W → Ctx K V U → Multiset ℕ → Prop}
    (hreach : ∀ sa ∈ sas, ∃ f, LawfulCmp (cb.cmp f) ∧ Reachable cb f sa)
    (hsa : sas[h]? = some sa) (hI : Carries cb fold (type.order sa.contents) I) (w : W)
    (c : Ctx K V U) (hstart : I [] w c 0) :
    ∃ res sas' w' c', skiparrayFold cb type h fold sas w c = .ok (res, sas', w', c') ∧
      (∃ fs sas₀ c₀, skiparrayFoldInit cb type (some h) (some fold) sas c =
        .ok (res, fs, sas₀, c₀)) ∧
      Restored sas sas' ∧
      (res = .errorMemory ∧ w' = w ∧ ¬ cb.AllGranted ∧ HandsOver cb c 0 c' 0 ∨
        res = .ok ∧ I (type.order sa.contents) w' c' 0) := by
  obtain ⟨bs, its, res, fs, sas₀, c₀, hinit, hwf, hcontents, hres⟩ :=
    skiparrayFoldInit_spec type fold hreach hsa c
  rcases hres with ⟨rfl, rfl, hrefused, hover, hpool⟩ |
    ⟨rfl, fs, rfl, rfl, hin, hover, st, hf, hlane⟩
  · refine ⟨.errorMemory, sas₀, w, c₀, ?_, ⟨_, _, _, hinit⟩, hpool.restored,
      Or.inl ⟨rfl, rfl, hrefused, hover⟩⟩
    rw [skiparrayFold, slot_of_getElem? hsa, ok_bind, hinit]
    rfl
  · have hlen : (st.lane 0).length < sa.heldPairs + 1 := by
      rw [hlane, hcontents]
      have hle := hwf.length_le_heldPairs
      cases type with
      | left => exact Nat.lt_succ_of_le hle
      | right => exact Nat.lt_succ_of_le (by rw [FoldType.order, List.length_reverse]; exact hle)
    obtain ⟨sas', w', c', hloop, hdone, hpool⟩ := foldLoop_lane (show [h].length = 1 from rfl) hI hin hf
      (show type.order sa.contents = [] ++ st.lane 0 from hlane.symm) (hI.hand hstart hover) hlen
    refine ⟨.ok, sas', w', c', ?_, ⟨_, _, _, hinit⟩, hpool.restored, Or.inr ⟨rfl, hdone⟩⟩
    rw [skiparrayFold, slot_of_getElem? hsa, ok_bind, hinit, ok_bind]
    exact bind_eq_ok.mpr ⟨_, hloop, rfl⟩

end Fold

/-! ## Step by step -/

section Steps

variable {cb : Callbacks K U} {type : FoldType} {sas sas₀ sas₁ : List (SkipArray K V)}
  {sa : SkipArray K V} {h k : ℕ} {fold : K → V → W → Ctx K V U → Except Fault (W × Ctx K V U)}
  {fs fs₁ : FoldState K V U W} {w w₁ : W}

/-- `k` calls of `skiparray_fold_next` that answered OK. Between them the client
may have used memory. -/
inductive FoldSteps (cb : Callbacks K U) (fs : FoldState K V U W) (sas : List (SkipArray K V))
    (w : W) : ℕ → FoldState K V U W → List (SkipArray K V) → W → Prop
  | start : FoldSteps cb fs sas w 0 fs sas w
  | next {k : ℕ} {fs₁ fs₂ : FoldState K V U W} {sas₁ sas₂ : List (SkipArray K V)} {w₁ w₂ : W}
      {c c' : Ctx K V U} (hrun : FoldSteps cb fs sas w k fs₁ sas₁ w₁)
      (h : skiparrayFoldNext cb fs₁ sas₁ w₁ c = .ok (.ok, some fs₂, sas₂, w₂, c')) :
      FoldSteps cb fs sas w (k + 1) fs₂ sas₂ w₂

omit [Inhabited K] in
/-- Each step takes one binding off the front. -/
theorem foldSteps_lane {bs : ℕ → List (Block K V)} {its : ℕ → List Ptr}
    {base : List (SkipArray K V)} {inputs : List ℕ} {st : Lanes.State (K × V)}
    (hret : ∀ k v w c, ∃ w' c', fs.cbs.fold k v w c = .ok (w', c')) (hone : inputs.length = 1)
    (hin : FoldInputs cb base bs inputs fs.cmp fs.useValues)
    (hf : Folding cb type bs its base inputs fs sas₀ st)
    (hrun : FoldSteps cb fs sas₀ w k fs₁ sas₁ w₁) :
    ∃ done st₁, SameSetup fs fs₁ ∧ Folding cb type bs its base inputs fs₁ sas₁ st₁ ∧
      done.length = k ∧ st.lane 0 = done ++ st₁.lane 0 ∧
      Accumulates fs.cbs.fold done w w₁ := by
  induction hrun with
  | start => exact ⟨[], st, .refl fs, hf, rfl, rfl, .nil⟩
  | @next k fs₁ fs₂ sas₁ sas₂ w₁ w₂ c c' _ hnext ih =>
      obtain ⟨done, st₁, hset, hf₁, hlen, hlane, hacc⟩ := ih
      have hI : Carries cb fs₁.cbs.fold (st.lane 0) fun done w' _ _ =>
          Accumulates fs₁.cbs.fold done w w' := by
        apply Carries.accumulates
        rw [hset.cbs]
        exact hret
      rcases foldNext_lane hI hone (by rw [hset.cmp, hset.useValues]; exact hin) hf₁ hlane
        (hset.cbs.symm ▸ hacc) with
        ⟨-, sas', c'', heq, -⟩ | ⟨p, fs', sas', st', w', c'', heq, hset', hf', hlane', hacc'⟩
      · rw [hnext] at heq
        cases heq
      · rw [hnext] at heq
        cases heq
        refine ⟨done ++ [p], st', hset.trans hset', hf', by simp [hlen], ?_, hset.cbs ▸ hacc'⟩
        rw [hlane, hlane', List.append_assoc]
        rfl

/-- A fold of one skiparray calls back on its bindings, in ascending order or in
the reverse of it, each once, and leaves the skiparray as it was; stepped by hand,
it has called back on the first `k` of them after `k` steps, and can be halted
there. -/
theorem fold_eq_list_fold
    (hreach : ∀ sa ∈ sas, ∃ f, LawfulCmp (cb.cmp f) ∧ Reachable cb f sa)
    (hsa : sas[h]? = some sa) (hret : ∀ k v w c, ∃ w' c', fold k v w c = .ok (w', c')) (w : W)
    (c : Ctx K V U) :
    (sa.useValues = false → ∀ p ∈ sa.contents, p.2 = default) ∧
    (∃ res sas' w' c', skiparrayFold cb type h fold sas w c = .ok (res, sas', w', c') ∧
      Restored sas sas' ∧ (cb.AllGranted → res = .ok) ∧
      (res = .ok → Accumulates fold (type.order sa.contents) w w') ∧
      (res ≠ .ok → res = .errorMemory ∧ w' = w)) ∧
    ∀ fs sas₀ c₀, skiparrayFoldInit cb type (some h) (some fold) sas c =
        .ok (.ok, some fs, sas₀, c₀) →
      ∀ k fs₁ sas₁ w₁, FoldSteps cb fs sas₀ w k fs₁ sas₁ w₁ →
        k ≤ sa.contents.length ∧ Accumulates fold ((type.order sa.contents).take k) w w₁ ∧
        (∀ c₁, ∃ res fs₂ sas₂ w₂ c₂, skiparrayFoldNext cb fs₁ sas₁ w₁ c₁ =
          .ok (res, fs₂, sas₂, w₂, c₂) ∧ (res = .ok ↔ k < sa.contents.length)) ∧
        ∀ c₁, ∃ sas₂ c₂, skiparrayFoldHalt fs₁ sas₁ c₁ = .ok (sas₂, c₂) ∧ Restored sas sas₂ := by
  obtain ⟨bs, its, res, fs₀, sas₀, c₀, hinit, hwf, hcontents, hres⟩ :=
    skiparrayFoldInit_spec type fold hreach hsa c
  refine ⟨?_, ?_, ?_⟩
  · intro hu
    rw [hcontents]
    exact hwf.value_default hu
  · obtain ⟨res, sas', w', c', hfold, -, hrestored, hcases⟩ := skiparrayFold_carries hreach hsa
      (Carries.accumulates hret (type.order sa.contents) w) w c .nil
    refine ⟨res, sas', w', c', hfold, hrestored, ?_⟩
    rcases hcases with ⟨rfl, hw, hrefused, -⟩ | ⟨rfl, hacc⟩
    · exact ⟨fun hg => absurd hg hrefused, fun hok => (by cases hok), fun _ => ⟨rfl, hw⟩⟩
    · exact ⟨fun _ => rfl, fun _ => hacc, fun hne => absurd rfl hne⟩
  · intro fs sas₀' c₀' hinit' k fs₁ sas₁ w₁ hrun
    rw [hinit] at hinit'
    cases hinit'
    rcases hres with ⟨hmem, -⟩ | ⟨-, fs', hfs, rfl, hin, -, st, hf, hlane⟩
    · cases hmem
    obtain rfl := Option.some.inj hfs
    obtain ⟨done, st₁, hset, hf₁, hlen, hsplit, hacc⟩ :=
      foldSteps_lane hret (show [h].length = 1 from rfl) hin hf hrun
    have hlength : (type.order sa.contents).length = sa.contents.length := by
      cases type with
      | left => rfl
      | right => exact List.length_reverse
    rw [hlane] at hsplit
    rw [hsplit, List.length_append, hlen] at hlength
    refine ⟨by omega, ?_, ?_, ?_⟩
    · rw [hsplit, ← hlen, List.take_left]
      exact hacc
    · intro c₁
      have hI : Carries cb fs₁.cbs.fold (type.order sa.contents) fun done w' _ _ =>
          Accumulates fs₁.cbs.fold done w w' := by
        apply Carries.accumulates
        rw [hset.cbs]
        exact hret
      rcases foldNext_lane (c := c₁) hI (show [h].length = 1 from rfl)
        (by rw [hset.cmp, hset.useValues]; exact hin) hf₁ hsplit (hset.cbs.symm ▸ hacc) with
        ⟨hnil, sas', c', heq, -⟩ | ⟨p, fs', sas', st', w', c', heq, -, -, hcons, -⟩
      · refine ⟨_, _, _, _, _, heq, ?_⟩
        rw [hnil, List.length_nil] at hlength
        constructor
        · intro hok
          cases hok
        · intro hlt
          omega
      · refine ⟨_, _, _, _, _, heq, ?_⟩
        rw [hcons, List.length_cons] at hlength
        exact ⟨fun _ => by omega, fun _ => rfl⟩
    · intro c₁
      have hpos : 0 < fs₁.iterCount := by
        rw [hf₁.count]
        exact Nat.one_pos
      obtain ⟨sas₂, c₂, hhalt, hpool, -⟩ := skiparrayFoldHalt_spec cb hpos hf₁.pool c₁
      exact ⟨sas₂, c₂, hhalt, hpool.restored⟩

theorem fold_eq_list_fold_flatSplit :
    ∃ res sas' w' c', skiparrayFold Callbacks.plain .right 0
        (fun (k v w : ℤ) (c : Ctx ℤ ℤ Unit) => .ok (w + k * v, c)) [SkipArray.flatSplit] 0
        ⟨(), 0, [], []⟩ = .ok (res, sas', w', c') ∧
      Restored [SkipArray.flatSplit] sas' ∧ res = .ok ∧
      Accumulates (fun (k v w : ℤ) (c : Ctx ℤ ℤ Unit) => .ok (w + k * v, c))
        [(3, 30), (2, 20), (1, 10)] 0 w' := by
  have hreach : ∀ sa ∈ [SkipArray.flatSplit],
      ∃ f, LawfulCmp (Callbacks.plain.cmp f) ∧ Reachable Callbacks.plain f sa := by
    intro sa hsa
    rw [List.mem_singleton.mp hsa]
    exact ⟨0, LawfulCmp.int_sub, SkipArray.flatSplit_reachable⟩
  obtain ⟨-, ⟨res, sas', w', c', hfold, hrestored, hok, hacc, -⟩, -⟩ :=
    @fold_eq_list_fold ℤ ℤ Unit ℤ _ _ Callbacks.plain .right _ _ 0 _ hreach
      (show [SkipArray.flatSplit][0]? = some SkipArray.flatSplit from rfl)
      (fun k v w c => ⟨w + k * v, c, rfl⟩) 0 ⟨(), 0, [], []⟩
  have hres := hok fun _ => rfl
  exact ⟨res, sas', w', c', hfold, hrestored, hres, hacc hres⟩

end Steps

end Skiparray
