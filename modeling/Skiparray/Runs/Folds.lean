import Skiparray.Runs.Contents
import Skiparray.Layout.FoldStep

/-!
# Folds from start to end

A fold of accepted skiparrays runs as a merge of their bindings. A log of the
calls made to the callbacks shows what it delivered.
-/

namespace Skiparray

open SkipLinks Fallible

variable {K V U W : Type}

/-! ## The log -/

/-- A call of a callback: `fold`, or `merge` with what it answered. -/
inductive FoldEvent (K V : Type) where
  | fold (key : K) (value : V)
  | merge (keys : List K) (values : List V) (choice : ℕ) (value : V)
deriving DecidableEq, Repr

/-- The callbacks `cbs`, writing a log. -/
def FoldCbs.logged (cbs : FoldCbs K V U W) : FoldCbs K V U (W × List (FoldEvent K V)) where
  fold k v w c := do
    let (w', c) ← cbs.fold k v w.1 c
    return ((w', w.2 ++ [.fold k v]), c)
  merge := cbs.merge.map fun merge ks vs w c => do
    let (choice, value, w', c) ← merge ks vs w.1 c
    return (choice, value, (w', w.2 ++ [.merge ks vs choice value]), c)

/-- What a log says was delivered. -/
inductive Heard : List (Lanes.Delivery (K × V)) → List (FoldEvent K V) → Prop where
  | nil : Heard [] []
  | single {p : K × V} {ds : List (Lanes.Delivery (K × V))} {log : List (FoldEvent K V)}
      (h : Heard ds log) : Heard (.single p :: ds) (.fold p.1 p.2 :: log)
  | merged {ps : List (K × V)} {choice : ℕ} {key : K} {value : V}
      {ds : List (Lanes.Delivery (K × V))} {log : List (FoldEvent K V)}
      (hk : (ps.map Prod.fst)[choice]? = some key) (h : Heard ds log) :
      Heard (.merged ps :: ds)
        (.merge (ps.map Prod.fst) (ps.map Prod.snd) choice value :: .fold key value :: log)

section Log

variable {cbs : FoldCbs K V U W}

theorem Heard.append {ds ds' : List (Lanes.Delivery (K × V))} {log log' : List (FoldEvent K V)}
    (h : Heard ds log) (h' : Heard ds' log') : Heard (ds ++ ds') (log ++ log') := by
  induction h with
  | nil => exact h'
  | single _ ih => exact .single ih
  | merged hk _ ih => exact .merged hk ih

theorem FoldCbs.Return.logged (h : cbs.Return) : cbs.logged.Return := by
  constructor
  · intro k v w c
    obtain ⟨w', c', hfold⟩ := h.fold k v w.1 c
    exact ⟨_, c', bind_eq_ok.mpr ⟨_, hfold, rfl⟩⟩
  · intro m hm ks vs w c hne
    obtain ⟨merge, hmerge, rfl⟩ := Option.map_eq_some_iff.mp hm
    obtain ⟨choice, v, w', c', hcall, hlt⟩ := h.merge merge hmerge ks vs w.1 c hne
    exact ⟨choice, v, _, c', bind_eq_ok.mpr ⟨_, hcall, rfl⟩, hlt⟩

/-- A delivery goes into the log. -/
theorem CallsBack.log {w w' : W × List (FoldEvent K V)} {c c' : Ctx K V U}
    {d : Lanes.Delivery (K × V)} (h : CallsBack cbs.logged w c d w' c') :
    ∃ log, w'.2 = w.2 ++ log ∧ ∀ ds rest, Heard ds rest → Heard (d :: ds) (log ++ rest) := by
  cases h with
  | single hfold =>
      obtain ⟨⟨w₁, c₁⟩, -, hret⟩ := bind_eq_ok.mp hfold
      cases hret
      exact ⟨_, rfl, fun _ _ hrest => .single hrest⟩
  | merged hm h₁ hk h₂ =>
      obtain ⟨merge, -, rfl⟩ := Option.map_eq_some_iff.mp hm
      obtain ⟨⟨choice, v, w₁, c₁⟩, -, hret₁⟩ := bind_eq_ok.mp h₁
      cases hret₁
      obtain ⟨⟨w₂, c₂⟩, -, hret₂⟩ := bind_eq_ok.mp h₂
      cases hret₂
      exact ⟨_, List.append_assoc .., fun _ _ hrest => .merged hk hrest⟩

end Log

/-! ## A run to the end -/

section Run

variable [Inhabited K] [Inhabited V] {cb : Callbacks K U} {type : FoldType}
  {bs : ℕ → List (Block K V)} {its : ℕ → List Ptr} {base sas : List (SkipArray K V)}
  {inputs : List ℕ} {st : Lanes.State (K × V)} {cbs : FoldCbs K V U W}

omit [Inhabited K] in
/-- Calls of `skiparray_fold_next` until DONE deliver what the lanes had left. -/
theorem foldLoop_spec (hpos : inputs ≠ []) (hret : cbs.Return)
    (hmerge : 2 ≤ inputs.length → cbs.merge.isSome = true) :
    ∀ {fuel : ℕ} {fs : FoldState K V U (W × List (FoldEvent K V))} {sas : List (SkipArray K V)}
      {st : Lanes.State (K × V)} {w : W × List (FoldEvent K V)} {c : Ctx K V U},
      fs.cbs = cbs.logged → FoldInputs cb base bs inputs fs.cmp fs.useValues →
      Folding cb type bs its base inputs fs sas st → st.total < fuel →
      ∃ sas' w' c' ds log, foldLoop cb fuel fs sas w c = .ok (sas', (w', w.2 ++ log), c') ∧
        Lanes.Delivers (onKeys (cb.cmp fs.cmp)) st ds ∧
        Heard (ds.map (Lanes.Delivery.map Prod.snd)) log ∧ Pool base sas' its [] := by
  intro fuel
  induction fuel with
  | zero =>
      intro fs sas st w c _ _ _ hlt
      omega
  | succ fuel ih =>
      intro fs sas st w c hcbs hin hf hlt
      have hmerge' : 2 ≤ inputs.length → fs.cbs.merge.isSome = true := by
        intro hlen
        rw [hcbs, FoldCbs.logged, Option.isSome_map]
        exact hmerge hlen
      obtain ⟨res, fs', sas', w', c', hnext, hout⟩ :=
        skiparrayFoldNext_spec hpos hin hf (hcbs ▸ hret.logged) hmerge' w c
      cases hout with
      | done hdone hpool hover =>
          refine ⟨sas', w.1, c', [], [], ?_, .done hdone, .nil, hpool⟩
          rw [foldLoop, hnext, List.append_nil]
          rfl
      | @ok d st' fs' _ _ _ _ hstep hover hcalls hset hf' =>
          rw [hcbs] at hcalls
          obtain ⟨log, hlog, hheard⟩ := hcalls.log
          have hlt' := hstep.lt (LawfulCmp.onKeys hin.lawful)
          obtain ⟨sas'', w'', c'', ds, rest, hloop, hdel, hrest, hpool⟩ := ih (w := w') (c := c')
            (hset.cbs.trans hcbs) (by rw [hset.cmp, hset.useValues]; exact hin) hf' (by omega)
          rw [hset.cmp] at hdel
          refine ⟨sas'', w'', c'', d :: ds, log ++ rest, ?_, .next hstep hdel, hheard _ _ hrest,
            hpool⟩
          rw [foldLoop, hnext, ok_bind, ← List.append_assoc, ← hlog]
          exact hloop

end Run

/-! ## The start -/

section Start

variable [Inhabited K] [Inhabited V] {cb : Callbacks K U} {type : FoldType}
  {bs : ℕ → List (Block K V)} {its : ℕ → List Ptr} {base sas : List (SkipArray K V)}
  {inputs : List ℕ}

omit [Inhabited K] [Inhabited V] in
theorem forall₂_getElem? {α β : Type} {R : α → β → Prop} {xs : List α} {ys : List β}
    (h : List.Forall₂ R xs ys) : ∀ {i : ℕ} {x : α} {y : β}, xs[i]? = some x → ys[i]? = some y →
      R x y := by
  induction h with
  | nil =>
      intro i x y hx
      cases hx
  | cons hxy _ ih =>
      intro i x y hx hy
      cases i with
      | zero =>
          cases hx
          cases hy
          exact hxy
      | succ i => exact ih hx hy

/-- An entry that was just made has all its bindings to read. -/
theorem Opened.reading {h : ℕ} {is : IterState K V} (ho : Opened type bs sas h is) :
    Reading type bs sas h is.iter (type.order (bindings (bs h))) := by
  constructor
  · intro hnone
    rw [ho.empty hnone]
    cases type <;> rfl
  · intro g p hiter
    obtain ⟨rfl, hne, s, hs, hat⟩ := ho.iter hiter
    exact ⟨rfl, s, _, hs, hat, type.start_lt hne, (type.remaining_start hne).symm⟩

/-- A fold starts with all bindings in its lanes, and nothing in the queue. -/
theorem Opening.folding {iters : List (IterState K V)} {live block idsBlock : ℕ}
    (ho : Opening type bs its base sas inputs iters live)
    (fold : K → V → W → Ctx K V U → Except Fault (W × Ctx K V U)) (merge : Option (MergeFun K V U W))
    (sa₀ : SkipArray K V) :
    Folding cb type bs its base inputs
      (startState type fold merge inputs sa₀ iters live block idsBlock) sas
      ⟨inputs.map fun h => type.order (bindings (bs h)), []⟩ := by
  have hget : ∀ {i : ℕ} {is : IterState K V}, iters[i]? = some is →
      ∃ h, inputs[i]? = some h ∧ Opened type bs sas h is := by
    intro i is his
    have hlt : i < inputs.length := by
      rw [ho.entries.length_eq]
      exact (List.getElem?_eq_some_iff.mp his).1
    have hh := List.getElem?_eq_getElem hlt
    exact ⟨_, hh, forall₂_getElem? ho.entries hh his⟩
  refine ⟨ho.pool, rfl, rfl, ho.live_eq, ?_, List.length_map .., ?_, ?_⟩
  · refine ⟨ho.entries.length_eq.symm, .replicate (Nat.zero_le _), rfl, trivial, List.nodup_nil, ?_⟩
    intro i is his
    obtain ⟨h, -, hopened⟩ := hget his
    simp [hopened.state]
  · intro i h is rest hh his hrest
    rw [List.getElem?_map, hh, Option.map_some, Option.some.injEq] at hrest
    rw [← hrest]
    exact (forall₂_getElem? ho.entries hh his).reading
  · intro _ i is his
    obtain ⟨h, -, hopened⟩ := hget his
    rw [hopened.pair]
    rfl

end Start

/-! ## Runs -/

section Runs

variable [Inhabited K] [Inhabited V]

/-- The bindings of skiparray `h`. -/
def contentsAt (sas : List (SkipArray K V)) (h : ℕ) : List (K × V) :=
  ((sas[h]?).map SkipArray.contents).getD []

/-- What a fold of `inputs` has to deliver: from each input its bindings, in the
order of the fold. -/
def startLanes (type : FoldType) (sas : List (SkipArray K V)) (inputs : List ℕ) :
    Lanes.State (K × V) :=
  ⟨inputs.map fun h => type.order (contentsAt sas h), []⟩

/-- `skiparray_fold_multi_init` accepted the inputs, 255 of them at most, among
skiparrays that a client has made; `fs` is the fold, `sas'` are the skiparrays. -/
structure Started (cb : Callbacks K U) (type : FoldType) (cbs : FoldCbs K V U W)
    (inputs : List ℕ) (sas : List (SkipArray K V))
    (fs : FoldState K V U (W × List (FoldEvent K V))) (sas' : List (SkipArray K V)) : Prop where
  reachable : ∀ sa ∈ sas, ∃ f, LawfulCmp (cb.cmp f) ∧ Reachable cb f sa
  count : inputs.length ≤ 255
  returns : cbs.Return
  init : ∃ c c', skiparrayFoldMultiInit cb type (some (inputs.map some)) (some cbs.logged.fold)
    cbs.logged.merge sas c = .ok (.ok, some fs, sas', c')

/-- Calls of `skiparray_fold_next` that answered OK. Between them the client may
have used memory. -/
inductive FoldRun (cb : Callbacks K U) (fs : FoldState K V U W) (sas : List (SkipArray K V))
    (w : W) : FoldState K V U W → List (SkipArray K V) → W → Prop where
  | start : FoldRun cb fs sas w fs sas w
  | next {fs₁ fs₂ : FoldState K V U W} {sas₁ sas₂ : List (SkipArray K V)} {w₁ w₂ : W}
      {c c' : Ctx K V U} (hrun : FoldRun cb fs sas w fs₁ sas₁ w₁)
      (h : skiparrayFoldNext cb fs₁ sas₁ w₁ c = .ok (.ok, some fs₂, sas₂, w₂, c')) :
      FoldRun cb fs sas w fs₂ sas₂ w₂

/-- Skiparrays that have the iterators they had before. -/
structure Restored (sas sas' : List (SkipArray K V)) : Prop where
  length : sas'.length = sas.length
  same : ∀ {h : ℕ} {sa sa' : SkipArray K V}, sas[h]? = some sa → sas'[h]? = some sa' →
    IterOnly sa sa' ∧ sa'.iter = sa.iter ∧ ∀ p, sa'.iter? p = sa.iter? p

variable {cb : Callbacks K U} {type : FoldType} {cbs : FoldCbs K V U W} {inputs : List ℕ}
  {sas sas₀ sas₁ : List (SkipArray K V)} {fs fs₁ : FoldState K V U (W × List (FoldEvent K V))}
  {w₁ : W × List (FoldEvent K V)} {w : W}

omit [Inhabited K] [Inhabited V] in
theorem Pool.restored {base : List (SkipArray K V)} {its : ℕ → List Ptr}
    (h : Pool base sas its []) : Restored base sas := by
  refine ⟨h.length, ?_⟩
  intro g sa sa' hsa hsa'
  have hold := h.each hsa hsa'
  exact ⟨hold.only, hold.restored⟩

/-- The blocks and the iterators of skiparrays that a client has made. -/
theorem exists_blocks (h : ∀ sa ∈ sas, ∃ f, LawfulCmp (cb.cmp f) ∧ Reachable cb f sa) :
    ∃ (bs : ℕ → List (Block K V)) (its : ℕ → List Ptr), ∀ {g : ℕ} {sa : SkipArray K V},
      sas[g]? = some sa →
        LawfulCmp (cb.cmp sa.cmp) ∧ sa.Coherent (cb.cmp sa.cmp) (bs g) (its g) := by
  have hall : ∀ g : ℕ, ∃ (bs : List (Block K V)) (its : List Ptr), ∀ sa : SkipArray K V,
      sas[g]? = some sa → LawfulCmp (cb.cmp sa.cmp) ∧ sa.Coherent (cb.cmp sa.cmp) bs its := by
    intro g
    cases hsa : sas[g]? with
    | none => exact ⟨[], [], by simp⟩
    | some sa =>
        obtain ⟨f, hc, hreach⟩ := h sa (List.mem_of_getElem? hsa)
        obtain ⟨rfl, bs, its, hco⟩ := hreach.coherent hc
        refine ⟨bs, its, ?_⟩
        intro s hs
        obtain rfl : sa = s := Option.some.inj hs
        exact ⟨hc, hco⟩
  choose bs its hboth using hall
  exact ⟨bs, its, fun hsa => hboth _ _ hsa⟩

/-- The fold that was started, and the lanes it merges. -/
structure Merges (cb : Callbacks K U) (type : FoldType) (cbs : FoldCbs K V U W)
    (inputs : List ℕ) (sas : List (SkipArray K V)) (bs : ℕ → List (Block K V))
    (its : ℕ → List Ptr) (fs : FoldState K V U (W × List (FoldEvent K V))) : Prop where
  nonempty : inputs ≠ []
  cbs_eq : fs.cbs = cbs.logged
  mergeable : 2 ≤ inputs.length → cbs.merge.isSome = true
  wf : FoldInputs cb sas bs inputs fs.cmp fs.useValues
  contents : ∀ h ∈ inputs, contentsAt sas h = bindings (bs h)

theorem Started.merges (hs : Started cb type cbs inputs sas fs sas₀) :
    ∃ bs its, Merges cb type cbs inputs sas bs its fs ∧
      Folding cb type bs its sas inputs fs sas₀ (startLanes type sas inputs) := by
  obtain ⟨c, c', hinit⟩ := hs.init
  obtain ⟨inputs', sa₀, fold, hinputs, hfold, ha⟩ := accepts_of_init hinit (by simp)
  obtain rfl : inputs = inputs' := by
    rw [Option.some.injEq] at hinputs
    exact (List.map_injective_iff.mpr (Option.some_injective ℕ)) hinputs
  cases hfold
  obtain ⟨bs, its, hco⟩ := exists_blocks hs.reachable
  rw [ha.init_eq] at hinit
  obtain ⟨res, fs', sas', c'', heq, -, -, hout⟩ := openFold_spec cb type cbs.logged.fold
    cbs.logged.merge sa₀ (fun hb => ⟨_, (hco hb).2.toWf⟩) (fun hb => (hco hb).2.cursors) ha.inside c
  rw [hinit] at heq
  cases heq
  cases hout with
  | ok ho _ =>
      have hcontents : ∀ h ∈ inputs, contentsAt sas h = bindings (bs h) := by
        intro h hh
        obtain ⟨sa, hsa, -⟩ := ha.same h hh
        rw [contentsAt, hsa]
        exact (hco hsa).2.toWf.contents_eq
      refine ⟨bs, its, ⟨?_, rfl, ?_, ⟨hs.count, ?_, ?_⟩, hcontents⟩, ?_⟩
      · rintro rfl
        obtain ⟨h₀, hhead, -⟩ := ha.first
        cases hhead
      · intro hlen
        have hsome := ha.merges hlen
        rwa [FoldCbs.logged, Option.isSome_map] at hsome
      · obtain ⟨h₀, -, hsa₀⟩ := ha.first
        exact (hco hsa₀).1
      · intro h hh
        obtain ⟨sa, hsa, hsame⟩ := ha.same h hh
        simp only [sameCallbacks, decide_eq_true_eq] at hsame
        obtain ⟨hcmp, -, -, huse⟩ := hsame
        have hwf := (hco hsa).2.toWf
        rw [hcmp] at hwf
        exact ⟨sa, hsa, hwf, huse⟩
      · have hlanes : startLanes type sas inputs =
            ⟨inputs.map fun h => type.order (bindings (bs h)), []⟩ := by
          unfold startLanes
          congr 1
          apply List.map_congr_left
          intro h hh
          rw [hcontents h hh]
        rw [hlanes]
        exact ho.folding ..

/-- With memory for everything, accepted inputs are folded. -/
theorem exists_started {sa₀ : SkipArray K V} (hg : cb.AllGranted)
    (hreach : ∀ sa ∈ sas, ∃ f, LawfulCmp (cb.cmp f) ∧ Reachable cb f sa)
    (hcount : inputs.length ≤ 255) (hret : cbs.Return)
    (ha : Accepts cbs.logged.merge sas inputs sa₀) (c : Ctx K V U) :
    ∃ fs sas₀, Started cb type cbs inputs sas fs sas₀ := by
  obtain ⟨bs, its, hco⟩ := exists_blocks hreach
  obtain ⟨res, fs, sas₀, c', hopen, -, -, hout⟩ := openFold_spec cb type cbs.logged.fold
    cbs.logged.merge sa₀ (fun hb => ⟨_, (hco hb).2.toWf⟩) (fun hb => (hco hb).2.cursors) ha.inside c
  cases hout with
  | memory _ _ hrefused => exact absurd hg hrefused
  | ok _ _ => exact ⟨_, sas₀, hreach, hcount, hret, c, c', (ha.init_eq c).trans hopen⟩

omit [Inhabited K] in
theorem Merges.of_same {bs : ℕ → List (Block K V)} {its : ℕ → List Ptr}
    (hm : Merges cb type cbs inputs sas bs its fs) (hset : SameSetup fs fs₁) :
    Merges cb type cbs inputs sas bs its fs₁ := by
  refine ⟨hm.nonempty, hset.cbs.trans hm.cbs_eq, hm.mergeable, ?_, hm.contents⟩
  rw [hset.cmp, hset.useValues]
  exact hm.wf

omit [Inhabited K] in
/-- One call of `skiparray_fold_next`, as its client hears it. -/
theorem Merges.next {bs : ℕ → List (Block K V)} {its : ℕ → List Ptr} {st : Lanes.State (K × V)}
    (hm : Merges cb type cbs inputs sas bs its fs) (hret : cbs.Return)
    (hf : Folding cb type bs its sas inputs fs sas₀ st) (w : W × List (FoldEvent K V))
    (c : Ctx K V U) :
    ∃ res fs' sas' w' c', skiparrayFoldNext cb fs sas₀ w c = .ok (res, fs', sas', w', c') ∧
      FoldNextOutcome cb type bs its sas inputs fs sas₀ st w c res fs' sas' w' c' := by
  refine skiparrayFoldNext_spec hm.nonempty hm.wf hf (hm.cbs_eq ▸ hret.logged) ?_ w c
  intro hlen
  rw [hm.cbs_eq, FoldCbs.logged, Option.isSome_map]
  exact hm.mergeable hlen

omit [Inhabited K] in
/-- After some calls, some deliveries have been made, and the log shows them. -/
theorem Merges.run {bs : ℕ → List (Block K V)} {its : ℕ → List Ptr} {st : Lanes.State (K × V)}
    (hm : Merges cb type cbs inputs sas bs its fs) (hret : cbs.Return)
    (hf : Folding cb type bs its sas inputs fs sas₀ st)
    (hrun : FoldRun cb fs sas₀ (w, []) fs₁ sas₁ w₁) :
    ∃ st₁ ds, Lanes.Run (onKeys (cb.cmp fs.cmp)) st ds st₁ ∧
      Heard (ds.map (Lanes.Delivery.map Prod.snd)) w₁.2 ∧ SameSetup fs fs₁ ∧
      Folding cb type bs its sas inputs fs₁ sas₁ st₁ := by
  induction hrun with
  | start => exact ⟨st, [], .start, .nil, .refl fs, hf⟩
  | @next fs₁ fs₂ sas₁ sas₂ w₁ w₂ c c' _ h ih =>
      obtain ⟨st₁, ds, hruns, hheard, hset, hf₁⟩ := ih
      have hm₁ := hm.of_same hset
      obtain ⟨res, fs', sas', w', c'', hnext, hout⟩ := hm₁.next hret hf₁ w₁ c
      rw [h] at hnext
      cases hnext
      cases hout with
      | @ok d st₂ _ _ _ _ _ hstep hover hcalls hset' hf₂ =>
          rw [hm₁.cbs_eq] at hcalls
          obtain ⟨log, hlog, hcons⟩ := hcalls.log
          have hd := hcons [] [] .nil
          rw [List.append_nil] at hd
          refine ⟨st₂, ds ++ [d], .next hruns (hset.cmp ▸ hstep), ?_, hset.trans hset', hf₂⟩
          rw [List.map_append, hlog]
          exact hheard.append hd

/-! ## Everything is delivered -/

omit [Inhabited K] in
theorem startLanes_lane {i h : ℕ} (hi : inputs[i]? = some h) :
    (startLanes type sas inputs).lane i = type.order (contentsAt sas h) := by
  unfold startLanes Lanes.State.lane
  rw [List.getD_eq_getElem?_getD, List.getElem?_map, hi]
  rfl

omit [Inhabited K] in
theorem startLanes_valid : (startLanes type sas inputs).Valid :=
  ⟨List.nodup_nil, fun _ hx => absurd hx List.not_mem_nil⟩

/-- The log shows every binding of every input once, those of one input in the
order of the fold. -/
def DeliveredAll (type : FoldType) (sas : List (SkipArray K V)) (inputs : List ℕ)
    (log : List (FoldEvent K V)) : Prop :=
  ∃ ds : List (Lanes.Delivery (ℕ × (K × V))),
    Heard (ds.map (Lanes.Delivery.map Prod.snd)) log ∧
    (∀ x ∈ Lanes.flat ds, x.1 < inputs.length) ∧
    ∀ i h, inputs[i]? = some h →
      ((Lanes.flat ds).filter fun x => x.1 = i).map Prod.snd = type.order (contentsAt sas h)

/-- From wherever a fold is, calls of `skiparray_fold_next` take it to DONE, with
everything delivered; and there, or after `skiparray_fold_halt` at any point, the
skiparrays have the iterators they had before. -/
theorem fold_delivers_all (hs : Started cb type cbs inputs sas fs sas₀)
    (hrun : FoldRun cb fs sas₀ (w, []) fs₁ sas₁ w₁) (c : Ctx K V U) :
    (∀ fuel, (startLanes type sas inputs).total < fuel →
      ∃ sas₂ w₂ c₂, foldLoop cb fuel fs₁ sas₁ w₁ c = .ok (sas₂, w₂, c₂) ∧
        DeliveredAll type sas inputs w₂.2 ∧ Restored sas sas₂) ∧
    ∃ sas₂ c₂, skiparrayFoldHalt fs₁ sas₁ c = .ok (sas₂, c₂) ∧ Restored sas sas₂ := by
  obtain ⟨bs, its, hm, hf⟩ := hs.merges
  have hc : LawfulCmp (onKeys (cb.cmp fs.cmp) : K × V → K × V → ℤ) :=
    LawfulCmp.onKeys hm.wf.lawful
  obtain ⟨st, ds, hruns, hheard, hset, hf₁⟩ := hm.run hs.returns hf hrun
  have hm₁ := hm.of_same hset
  constructor
  · intro fuel hfuel
    have hlt := lt_of_le_of_lt (hruns.total_le hc) hfuel
    obtain ⟨sas₂, w₂, c₂, ds', log, hloop, hdel, hrest, hpool⟩ := foldLoop_spec hm.nonempty
      hs.returns hm.mergeable (w := w₁) (c := c) hm₁.cbs_eq hm₁.wf hf₁ hlt
    rw [hset.cmp] at hdel
    have hall := hruns.delivers hdel
    refine ⟨sas₂, (w₂, w₁.2 ++ log), c₂, hloop, ⟨ds ++ ds', ?_, ?_, ?_⟩, hpool.restored⟩
    · rw [List.map_append]
      exact hheard.append hrest
    · intro x hx
      have hlane := hall.lanes hc startLanes_valid x hx
      rwa [startLanes, List.length_map] at hlane
    · intro i h hi
      rw [hall.lane hc i, startLanes_lane hi]
  · have hpos : 0 < fs₁.iterCount := by
      rw [hf₁.count]
      exact List.length_pos_of_ne_nil hm.nonempty
    obtain ⟨sas₂, c₂, hhalt, hpool, -⟩ := skiparrayFoldHalt_spec cb hpos hf₁.pool c
    exact ⟨sas₂, c₂, hhalt, hpool.restored⟩

/-- Callbacks that keep the first key and add the values. -/
def FoldCbs.plain : FoldCbs ℤ ℤ Unit Unit :=
  ⟨fun _ _ w c => .ok (w, c), some fun _ vs w c => .ok (0, vs.sum, w, c)⟩

theorem FoldCbs.plain_return : FoldCbs.plain.Return := by
  constructor
  · intro k v w c
    exact ⟨w, c, rfl⟩
  · intro m hm ks vs w c hne
    cases hm
    exact ⟨0, vs.sum, w, c, rfl, List.length_pos_of_ne_nil hne⟩

/-- Two inputs with the same key. -/
theorem exists_started_plain : ∃ fs sas₀,
    Started Callbacks.plain .left FoldCbs.plain [0, 1] [SkipArray.plainOne, SkipArray.plainOne]
      fs sas₀ := by
  have hreach : ∀ sa ∈ [SkipArray.plainOne, SkipArray.plainOne],
      ∃ f, LawfulCmp (Callbacks.plain.cmp f) ∧ Reachable Callbacks.plain f sa := by
    intro sa hsa
    obtain rfl : sa = SkipArray.plainOne := by simpa using hsa
    exact ⟨0, LawfulCmp.int_sub, SkipArray.plainOne_reachable⟩
  have ha : Accepts FoldCbs.plain.logged.merge [SkipArray.plainOne, SkipArray.plainOne] [0, 1]
      SkipArray.plainOne := by
    refine ⟨fun _ => rfl, ⟨0, rfl, rfl⟩, ?_⟩
    intro h hh
    fin_cases hh <;> exact ⟨_, rfl, rfl⟩
  exact exists_started (fun _ => rfl) hreach (by decide) FoldCbs.plain_return ha ⟨(), 0, [], []⟩

theorem fold_delivers_all_plain : ∃ fs sas₀,
    Started Callbacks.plain .left FoldCbs.plain [0, 1] [SkipArray.plainOne, SkipArray.plainOne]
      fs sas₀ ∧
    (∀ fuel, 2 < fuel → ∃ sas₂ w₂ c₂, foldLoop Callbacks.plain fuel fs sas₀ ((), [])
        ⟨(), 0, [], []⟩ = .ok (sas₂, w₂, c₂) ∧
      DeliveredAll .left [SkipArray.plainOne, SkipArray.plainOne] [0, 1] w₂.2 ∧
      Restored [SkipArray.plainOne, SkipArray.plainOne] sas₂) ∧
    ∃ sas₂ c₂, skiparrayFoldHalt fs sas₀ ⟨(), 0, [], []⟩ = .ok (sas₂, c₂) ∧
      Restored [SkipArray.plainOne, SkipArray.plainOne] sas₂ := by
  obtain ⟨fs, sas₀, hs⟩ := exists_started_plain
  exact ⟨fs, sas₀, hs, fold_delivers_all hs .start _⟩

end Runs

end Skiparray
