import Skiparray.Runs.Folds

/-!
# The pending queue

`fs->ids` is a window of input numbers, each with a pair waiting in its entry,
in the order of the keys. The marks on the entries are set when a pair is
inserted and not looked at again until it leaves.
-/

namespace Skiparray

open SkipLinks Fallible Window

variable {K V U W : Type}

/-! ## What is in the queue -/

/-- `current[offset .. offset + available)` -/
def FoldState.pending (fs : FoldState K V U W) : List ℕ :=
  (fs.ids.current.drop fs.ids.offset).take fs.ids.available

/-- The entries of these inputs. -/
def FoldState.waiting (fs : FoldState K V U W) : List (IterState K V) :=
  fs.pending.filterMap fun i => fs.iters[i]?

/-- How an entry should be marked, from the next one in the queue. -/
def markBefore (cmp : K → K → ℤ) (is : IterState K V) : Option (IterState K V) → PairState
  | some next => if cmp is.pair.1 next.pair.1 = 0 then .availableEq else .availableLt
  | none => .availableLt

/-- The queue means what its declaration says. -/
structure FoldState.QueueOk (cmp : K → K → ℤ) (fs : FoldState K V U W) : Prop where
  counters : fs.ids.offset + fs.ids.available ≤ fs.iterCount ∧ fs.iterCount ≤ 255
  distinct : fs.pending.Nodup
  inside : ∀ i ∈ fs.pending, i < fs.iters.length
  waiting : ∀ i is, fs.iters[i]? = some is → (i ∈ fs.pending ↔ is.state ≠ .none)
  ascending : (fs.waiting.map fun is => is.pair.1).Pairwise fun k l => cmp k l ≤ 0
  marks : ∀ j is, fs.waiting[j]? = some is → is.state = markBefore cmp is fs.waiting[j + 1]?

section Queue

variable {cmp : K → K → ℤ} {fs : FoldState K V U W} {q : List (ℕ × (K × V))} {n : ℕ}

theorem Queued.pending_eq (h : Queued cmp n fs.ids fs.iters q) : fs.pending = q.map Prod.fst := by
  have hread := h.window.read
  rw [List.length_map, ← h.available] at hread
  exact hread

/-- The waiting entries hold the pairs of the queue and the marks these call for. -/
theorem Marked.entries {iters : List (IterState K V)} (h : Marked cmp iters q) :
    ∃ es : List (IterState K V), (q.map Prod.fst).filterMap (fun i => iters[i]?) = es ∧
      es.map IterState.pair = q.map Prod.snd ∧
      ∀ j is, es[j]? = some is → is.state = markBefore cmp is es[j + 1]? := by
  induction q with
  | nil => exact ⟨[], rfl, rfl, by simp⟩
  | cons x q ih =>
      obtain ⟨⟨is, his, hpair, hstate⟩, hrest⟩ := h
      obtain ⟨es, hes, hpairs, hmarks⟩ := ih hrest
      refine ⟨is :: es, ?_, ?_, ?_⟩
      · rw [List.map_cons, List.filterMap_cons_some his, hes]
      · rw [List.map_cons, List.map_cons, hpairs, hpair]
      · intro j js hjs
        cases j with
        | succ j => exact hmarks j js hjs
        | zero =>
            obtain rfl : is = js := Option.some.inj hjs
            rw [hstate, ← hpair]
            cases q with
            | nil =>
                rw [List.map_nil, List.map_eq_nil_iff] at hpairs
                rw [hpairs]
                rfl
            | cons y q =>
                obtain ⟨e, rest, rfl⟩ : ∃ e rest, es = e :: rest := by
                  cases es with
                  | nil => cases hpairs
                  | cons e rest => exact ⟨e, rest, rfl⟩
                rw [List.map_cons, List.map_cons, List.cons.injEq] at hpairs
                show mark cmp is.pair (y :: q) = markBefore cmp is (some e)
                rw [mark, markBefore, hpairs.1]

theorem Queued.ok (h : Queued cmp n fs.ids fs.iters q) (hs : Lanes.Sorted (onKeys cmp) q)
    (hn : n ≤ 255) (hcount : fs.iterCount = n) : fs.QueueOk cmp := by
  obtain ⟨es, hes, hpairs, hmarks⟩ := h.marked.entries
  rw [← h.pending_eq] at hes
  have hwaiting : fs.waiting = es := hes
  have hbound := h.window.bound
  rw [List.length_map, ← h.available] at hbound
  constructor
  · rw [hcount]
    exact ⟨hbound, hn⟩
  · rw [h.pending_eq]
    exact h.nodup
  · intro i hi
    rw [h.pending_eq] at hi
    rw [h.size]
    exact h.lt i hi
  · intro i is his
    rw [h.pending_eq, ne_eq, h.idle his, not_not]
  · have hkeys : (fs.waiting.map fun is => is.pair.1) = q.map fun x => x.2.1 := by
      rw [hwaiting]
      have hfst := congrArg (List.map Prod.fst) hpairs
      rwa [List.map_map, List.map_map] at hfst
    rw [hkeys, List.pairwise_map]
    exact hs
  · rw [hwaiting]
    exact hmarks

end Queue

/-! ## In every state of a fold -/

section Runs

variable [Inhabited K] [Inhabited V] {cb : Callbacks K U} {type : FoldType}
  {cbs : FoldCbs K V U W} {inputs : List ℕ} {sas sas₀ : List (SkipArray K V)} {w : W}

/-- A state that a fold is in between two calls of `insert_pair` or
`call_with_next`: where a call of `skiparray_fold_next` ended, where the loop of
`step_active_iterators` has stepped the first `n` iterators, and where it has
just inserted the pair of the next one. -/
inductive BetweenCalls (cb : Callbacks K U) (fs : FoldState K V U W)
    (sas : List (SkipArray K V)) (w : W) : FoldState K V U W → Prop
  | called {fs₁ : FoldState K V U W} {sas₁ : List (SkipArray K V)} {w₁ : W}
      (hrun : FoldRun cb fs sas w fs₁ sas₁ w₁) : BetweenCalls cb fs sas w fs₁
  | stepped {fs₁ fs₂ : FoldState K V U W} {sas₁ sas₂ : List (SkipArray K V)} {w₁ : W} {n : ℕ}
      {c c' : Ctx K V U} (hrun : FoldRun cb fs sas w fs₁ sas₁ w₁) (hn : n ≤ fs₁.iterCount)
      (hloop : forUp (stepIterator cb) n (fs₁, sas₁, c) = .ok (fs₂, sas₂, c')) :
      BetweenCalls cb fs sas w fs₂
  | inserted {fs₁ fs₂ fs₃ : FoldState K V U W} {sas₁ sas₂ : List (SkipArray K V)} {w₁ : W} {n : ℕ}
      {c c' : Ctx K V U} {is : IterState K V} {pair : K × V}
      (hrun : FoldRun cb fs sas w fs₁ sas₁ w₁) (hn : n < fs₁.iterCount)
      (hloop : forUp (stepIterator cb) n (fs₁, sas₁, c) = .ok (fs₂, sas₂, c'))
      (his : fs₂.iters[n]? = some is) (hidle : is.state = .none)
      (hins : insertPair (cb.cmp fs₂.cmp) { fs₂ with iters := fs₂.iters.set n { is with pair } } n =
        .ok fs₃) : BetweenCalls cb fs sas w fs₃

variable {fs fs₁ fs₂ : FoldState K V U (W × List (FoldEvent K V))}
  {sas₁ sas₂ : List (SkipArray K V)} {w₁ : W × List (FoldEvent K V)} {n : ℕ} {c c' : Ctx K V U}
  {bs : ℕ → List (Block K V)} {its : ℕ → List Ptr} {st : Lanes.State (K × V)}

omit [Inhabited K] in
/-- The queue stays sorted from call to call. -/
theorem Merges.run_sorted (hm : Merges cb type cbs inputs sas bs its fs) (hret : cbs.Return)
    (hf : Folding cb type bs its sas inputs fs sas₀ (startLanes type sas inputs))
    (hrun : FoldRun cb fs sas₀ (w, []) fs₁ sas₁ w₁) :
    ∃ st, SameSetup fs fs₁ ∧ Folding cb type bs its sas inputs fs₁ sas₁ st ∧
      Lanes.Sorted (onKeys (cb.cmp fs.cmp)) st.queue := by
  obtain ⟨st, ds, hruns, -, hset, hf₁⟩ := hm.run hret hf hrun
  exact ⟨st, hset, hf₁, hruns.sorted (LawfulCmp.onKeys hm.wf.lawful) List.Pairwise.nil⟩

omit [Inhabited K] in
/-- And from iterator to iterator within a call. -/
theorem Merges.feed_sorted (hm : Merges cb type cbs inputs sas bs its fs) (hset : SameSetup fs fs₁)
    (hf : Folding cb type bs its sas inputs fs₁ sas₁ st)
    (hs : Lanes.Sorted (onKeys (cb.cmp fs.cmp)) st.queue) (hn : n ≤ fs₁.iterCount)
    (hloop : forUp (stepIterator cb) n (fs₁, sas₁, c) = .ok (fs₂, sas₂, c')) :
    ∃ st, SameSetup fs fs₂ ∧ Folding cb type bs its sas inputs fs₂ sas₂ st ∧
      Lanes.Sorted (onKeys (cb.cmp fs.cmp)) st.queue := by
  obtain ⟨fs', sas', c'', hloop', hset', hf', -⟩ :=
    feedLoop_spec (hm.of_same hset).wf hf c n (hf.count ▸ hn)
  rw [hloop] at hloop'
  cases hloop'
  rw [hset.cmp] at hf'
  exact ⟨_, hset.trans hset', hf',
    Lanes.feedUpTo_sorted (LawfulCmp.onKeys hm.wf.lawful) hs n⟩

omit [Inhabited K] in
theorem Folding.queue_ok (hm : Merges cb type cbs inputs sas bs its fs) (hset : SameSetup fs fs₁)
    (hf : Folding cb type bs its sas inputs fs₁ sas₁ st)
    (hs : Lanes.Sorted (onKeys (cb.cmp fs.cmp)) st.queue) : fs₁.QueueOk (cb.cmp fs₁.cmp) := by
  have hq := hf.queued
  rw [hset.cmp] at hq ⊢
  exact hq.ok hs hm.wf.le hf.count

/-- In every state of every fold the queue is as it should be. -/
theorem fold_queue_ok (hs : Started cb type cbs inputs sas fs sas₀)
    (h : BetweenCalls cb fs sas₀ (w, []) fs₁) : fs₁.QueueOk (cb.cmp fs₁.cmp) := by
  obtain ⟨bs, its, hm, hf⟩ := hs.merges
  cases h with
  | called hrun =>
      obtain ⟨st, hset, hf₁, hsorted⟩ := hm.run_sorted hs.returns hf hrun
      exact hf₁.queue_ok hm hset hsorted
  | stepped hrun hn hloop =>
      obtain ⟨st, hset, hf₁, hsorted⟩ := hm.run_sorted hs.returns hf hrun
      obtain ⟨st₂, hset₂, hf₂, hsorted₂⟩ := hm.feed_sorted hset hf₁ hsorted hn hloop
      exact hf₂.queue_ok hm hset₂ hsorted₂
  | @inserted fs₁ fs₂ _ sas₁ sas₂ w₁ n c c' is pair hrun hn hloop his hidle hins =>
      obtain ⟨st, hset, hf₁, hsorted⟩ := hm.run_sorted hs.returns hf hrun
      obtain ⟨st₂, hset₂, hf₂, hsorted₂⟩ := hm.feed_sorted hset hf₁ hsorted hn.le hloop
      have hq := hf₂.queued
      have hfresh : n ∉ st₂.queue.map Prod.fst := (hq.idle his).mp hidle
      have hq' := hq.set (b := { is with pair }) his rfl fun hmem => absurd hmem hfresh
      have hlt := (List.getElem?_eq_some_iff.mp his).1
      obtain ⟨ids, state, hins', -, hq₃⟩ := insertPair_spec (hset₂.cmp ▸ hm.wf.lawful) hm.wf.le
        (show Queued _ _ ({ fs₂ with iters := fs₂.iters.set n { is with pair } } :
          FoldState K V U _).ids _ _ from hq') (List.getElem?_set_self hlt) hfresh
      rw [hins] at hins'
      cases hins'
      have hsorted₃ := Lanes.insert_sorted (x := (n, pair)) (LawfulCmp.onKeys hm.wf.lawful) hsorted₂
      rw [← hset₂.cmp] at hsorted₃
      exact hq₃.ok hsorted₃ hm.wf.le hf₂.count

/-- Two inputs with the same key, both of them waiting. -/
theorem fold_queue_ok_plain : ∃ fs sas₀ fs₁,
    Started Callbacks.plain .left FoldCbs.plain [0, 1] [SkipArray.plainOne, SkipArray.plainOne]
      fs sas₀ ∧
    BetweenCalls Callbacks.plain fs sas₀ ((), []) fs₁ ∧ fs₁.ids.available = 2 ∧
    fs₁.QueueOk (Callbacks.plain.cmp fs₁.cmp) := by
  obtain ⟨fs, sas₀, hs⟩ := exists_started_plain
  obtain ⟨bs, its, hm, hf⟩ := hs.merges
  obtain ⟨fs₁, sas₁, c', hloop, -, hf₁, -⟩ := feedLoop_spec hm.wf hf ⟨(), 0, [], []⟩ 2 le_rfl
  have hstep : BetweenCalls Callbacks.plain fs sas₀ ((), []) fs₁ :=
    .stepped .start hf.count.ge hloop
  refine ⟨fs, sas₀, fs₁, hs, hstep, ?_, fold_queue_ok hs hstep⟩
  rw [hf₁.queued.available]
  rfl

end Runs

end Skiparray
