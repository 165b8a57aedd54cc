import Skiparray.Layout.FoldInit
import Skiparray.Layout.FoldQueue

/-!
# A fold merges lanes

A fold in progress is a merge of lanes through a sorted queue: the lane of an
input is what its iterator has still to read. `Folding` relates the two; feeding
the lanes is `step_active_iterators`, and what leaves the queue goes to the
callbacks.
-/

namespace Skiparray

open SkipLinks Fallible

variable {K V U W : Type}

/-! ## The direction of a fold -/

/-- The bindings `l` in the order of a fold. -/
def FoldType.order {α : Type} (type : FoldType) (l : List α) : List α :=
  match type with
  | .left => l
  | .right => l.reverse

/-- What is left of them when the iterator is at position `pos`. -/
def FoldType.remaining {α : Type} (type : FoldType) (l : List α) (pos : ℕ) : List α :=
  match type with
  | .left => l.drop pos
  | .right => (l.take (pos + 1)).reverse

theorem FoldType.remaining_start (type : FoldType) {l : List (K × V)} (hne : l ≠ []) :
    type.remaining l (type.start l) = type.order l := by
  have hpos := List.length_pos_of_ne_nil hne
  cases type with
  | left => rfl
  | right =>
      simp only [FoldType.remaining, FoldType.start, FoldType.order]
      rw [Nat.sub_add_cancel hpos, List.take_length]

theorem FoldType.start_lt (type : FoldType) {l : List (K × V)} (hne : l ≠ []) :
    type.start l < l.length := by
  have hpos := List.length_pos_of_ne_nil hne
  cases type with
  | left => exact hpos
  | right => exact Nat.sub_lt hpos Nat.one_pos

section Advance

variable [Inhabited V] {cmp : K → K → ℤ} {sa : SkipArray K V} {bs : List (Block K V)} {p : Ptr}
  {pos : ℕ}

/-- The movement of an iterator in a fold: END when that was the last binding. -/
theorem advance_spec (type : FoldType) (h : sa.Wf cmp bs) (hat : sa.At bs p pos)
    (hpos : pos < (bindings bs).length) :
    ∃ (x : K × V) (res : StepRes) (sa' : SkipArray K V), (bindings bs)[pos]? = some x ∧ (match type with
        | .right => skiparrayIterPrev sa p
        | .left => skiparrayIterNext sa p) = .ok (res, sa') ∧ sa.Moves p sa' ∧
      (res = .ended ∧ type.remaining (bindings bs) pos = [x] ∨
        res = .ok ∧ ∃ pos', sa'.At bs p pos' ∧ pos' < (bindings bs).length ∧
          type.remaining (bindings bs) pos = x :: type.remaining (bindings bs) pos') := by
  have hne : bindings bs ≠ [] := List.ne_nil_of_length_pos (by omega)
  have hx := List.getElem?_eq_getElem hpos
  cases type with
  | left =>
      obtain ⟨res, sa', pos', heq, hm, hat', hres⟩ := skiparrayIterNext_spec h hne hat
      obtain ⟨rfl, rfl⟩ := hres (hat.index_lt h hpos)
      refine ⟨_, _, sa', hx, heq, hm, ?_⟩
      simp only [FoldType.remaining]
      rw [List.drop_eq_getElem_cons hpos]
      by_cases hlast : pos + 1 = (bindings bs).length
      · rw [if_pos hlast, hlast, List.drop_length]
        exact Or.inl ⟨rfl, rfl⟩
      · rw [if_neg hlast]
        exact Or.inr ⟨rfl, pos + 1, hat', by omega, rfl⟩
  | right =>
      obtain ⟨sa', heq, hm, hat', -⟩ := skiparrayIterPrev_spec h hne hat
      refine ⟨_, _, sa', hx, heq, hm, ?_⟩
      simp only [FoldType.remaining]
      have hrest : ((bindings bs).take (pos + 1)).reverse =
          (bindings bs)[pos] :: ((bindings bs).take pos).reverse := by
        rw [List.take_add_one, List.getElem?_eq_getElem hpos]
        simp
      rw [hrest]
      by_cases hfirst : pos = 0
      · rw [if_pos hfirst]
        subst hfirst
        exact Or.inl ⟨rfl, rfl⟩
      · rw [if_neg hfirst]
        refine Or.inr ⟨rfl, pos - 1, hat', by omega, ?_⟩
        rw [Nat.sub_add_cancel (by omega)]

/-- Without values, the values are NULL. -/
theorem SkipArray.Wf.value_default (h : sa.Wf cmp bs) (hu : sa.useValues = false) :
    ∀ x ∈ bindings bs, x.2 = default := by
  intro x hx
  obtain ⟨b, hb, hxb⟩ := List.mem_flatMap.mp hx
  obtain ⟨n, -, hh⟩ := h.stores b hb
  exact (hh.valuesNone hu).2 x hxb

end Advance

/-! ## Fold states and lanes -/

section Sim

variable [Inhabited K] [Inhabited V]

omit [Inhabited K] in
/-- The lane of input `h` has still to send `rest`. -/
structure Reading (type : FoldType) (bs : ℕ → List (Block K V)) (sas : List (SkipArray K V))
    (h : ℕ) (iter : Option (ℕ × Ptr)) (rest : List (K × V)) : Prop where
  done : iter = none → rest = []
  live : ∀ {g p}, iter = some (g, p) → g = h ∧ ∃ s pos, sas[h]? = some s ∧ s.At (bs h) p pos ∧
    pos < (bindings (bs h)).length ∧ rest = type.remaining (bindings (bs h)) pos

omit [Inhabited K] in
/-- The inputs of a fold: well-formed, with one order, with values or without. -/
structure FoldInputs (cb : Callbacks K U) (base : List (SkipArray K V)) (bs : ℕ → List (Block K V))
    (inputs : List ℕ) (f : ℕ) (useValues : Bool) : Prop where
  le : inputs.length ≤ 255
  lawful : LawfulCmp (cb.cmp f)
  wf : ∀ h ∈ inputs, ∃ b, base[h]? = some b ∧ b.Wf (cb.cmp f) (bs h) ∧ b.useValues = useValues

omit [Inhabited K] in
/-- The fold state `fs` over `sas` is where the merge of lanes is at `st`. -/
structure Folding (cb : Callbacks K U) (type : FoldType) (bs : ℕ → List (Block K V))
    (its : ℕ → List Ptr) (base : List (SkipArray K V)) (inputs : List ℕ) (fs : FoldState K V U W)
    (sas : List (SkipArray K V)) (st : Lanes.State (K × V)) : Prop where
  pool : Pool base sas its (holds fs.iters)
  count : fs.iterCount = inputs.length
  type_eq : fs.type = type
  live : fs.iterLive = (holds fs.iters).length
  queued : Queued (cb.cmp fs.cmp) inputs.length fs.ids fs.iters st.queue
  lanes : st.rests.length = inputs.length
  reads : ∀ {i h : ℕ} {is : IterState K V} {rest : List (K × V)}, inputs[i]? = some h → fs.iters[i]? = some is →
    st.rests[i]? = some rest → Reading type bs sas h is.iter rest
  values : fs.useValues = false → ∀ {i : ℕ} {is : IterState K V}, fs.iters[i]? = some is → is.pair.2 = default

section Holds

omit [Inhabited K] [Inhabited V]

variable {iters : List (IterState K V)} {i j : ℕ} {a b : IterState K V} {x : ℕ × Ptr}

/-- An entry of a list, with what is before and behind it. -/
theorem split_at {α : Type} {xs : List α} {x : α} (h : xs[i]? = some x) :
    ∃ A B, xs = A ++ x :: B ∧ A.length = i ∧ ∀ y, xs.set i y = A ++ y :: B := by
  obtain ⟨hlt, rfl⟩ := List.getElem?_eq_some_iff.mp h
  have hlen : (xs.take i).length = i := List.length_take_of_le hlt.le
  have hsplit : xs = xs.take i ++ xs[i] :: xs.drop (i + 1) := by
    rw [List.cons_getElem_drop_succ, List.take_append_drop]
  refine ⟨_, _, hsplit, hlen, ?_⟩
  intro y
  conv_lhs => rw [hsplit]
  rw [List.set_append_right _ _ hlen.le, hlen, Nat.sub_self, List.set_cons_zero]

theorem holds_set_same (ha : iters[i]? = some a) (hab : b.iter = a.iter) :
    holds (iters.set i b) = holds iters := by
  obtain ⟨A, B, rfl, -, hset⟩ := split_at ha
  rw [hset]
  simp [holds, hab, List.filterMap_cons]

theorem holds_set_none (ha : iters[i]? = some a) (hx : a.iter = some x) (hb : b.iter = none) :
    (holds iters).Perm (x :: holds (iters.set i b)) := by
  obtain ⟨A, B, rfl, -, hset⟩ := split_at ha
  rw [hset]
  simp only [holds, List.filterMap_append, List.filterMap_cons, hx, hb]
  exact List.perm_middle

theorem mem_holds (ha : iters[i]? = some a) (hx : a.iter = some x) : x ∈ holds iters :=
  List.mem_filterMap.mpr ⟨a, List.mem_of_getElem? ha, hx⟩

/-- Entries hold different iterators. -/
theorem holds_inj (hn : (holds iters).Nodup) (ha : iters[i]? = some a) (hb : iters[j]? = some b)
    (hax : a.iter = some x) (hbx : b.iter = some x) : i = j := by
  by_contra hij
  have hperm := holds_set_none (b := { a with iter := none }) ha hax rfl
  rw [hperm.nodup_iff, List.nodup_cons] at hn
  apply hn.1
  rw [← List.getElem?_set_ne hij] at hb
  exact mem_holds hb hbx

end Holds

section Fixed

omit [Inhabited K]

variable {cb : Callbacks K U} {type : FoldType} {bs : ℕ → List (Block K V)} {its : ℕ → List Ptr}
  {base : List (SkipArray K V)} {inputs : List ℕ} {fs : FoldState K V U W}
  {sas : List (SkipArray K V)} {st : Lanes.State (K × V)} {f : ℕ} {useValues : Bool} {i : ℕ}

omit [Inhabited V] in
/-- A lane is not disturbed by what happens to other iterators. -/
theorem Reading.of_set {h g : ℕ} {iter : Option (ℕ × Ptr)} {rest : List (K × V)}
    {s s' : SkipArray K V} {p : Ptr} (hr : Reading type bs sas g iter rest) (hs : sas[h]? = some s)
    (hpay : ∀ q, q ≠ p → (s'.iter? q).map Iter.payload = (s.iter? q).map Iter.payload)
    (hne : iter ≠ some (h, p)) : Reading type bs (sas.set h s') g iter rest := by
  refine ⟨hr.done, ?_⟩
  intro g' q hiter
  obtain ⟨rfl, t, pos, ht, hat, hpos, hrest⟩ := hr.live hiter
  refine ⟨rfl, ?_⟩
  by_cases hh : h = g'
  · subst hh
    obtain rfl : s = t := Option.some.inj (hs.symm.trans ht)
    have hqp : q ≠ p := by
      rintro rfl
      exact hne hiter
    exact ⟨s', pos, List.getElem?_set_self (List.getElem?_eq_some_iff.mp hs).1,
      hat.congr (hpay q hqp), hpos, hrest⟩
  · exact ⟨t, pos, by rw [List.getElem?_set_ne hh]; exact ht, hat, hpos, hrest⟩

end Fixed

section Step

variable {cb : Callbacks K U} {type : FoldType} {bs : ℕ → List (Block K V)} {its : ℕ → List Ptr}
  {base : List (SkipArray K V)} {inputs : List ℕ} {fs : FoldState K V U W}
  {sas : List (SkipArray K V)} {st : Lanes.State (K × V)} {i : ℕ}

/-- `fs'` differs from `fs` in its queue and its iterators only. -/
structure SameSetup (fs fs' : FoldState K V U W) : Prop where
  useValues : fs'.useValues = fs.useValues
  cbs : fs'.cbs = fs.cbs
  cmp : fs'.cmp = fs.cmp
  block : fs'.block = fs.block
  idsBlock : fs'.idsBlock = fs.idsBlock

omit [Inhabited K] [Inhabited V] in
theorem SameSetup.refl (fs : FoldState K V U W) : SameSetup fs fs := ⟨rfl, rfl, rfl, rfl, rfl⟩

omit [Inhabited K] [Inhabited V] in
theorem SameSetup.trans {fs₁ fs₂ fs₃ : FoldState K V U W} (h₁ : SameSetup fs₁ fs₂)
    (h₂ : SameSetup fs₂ fs₃) : SameSetup fs₁ fs₃ :=
  ⟨h₂.useValues.trans h₁.useValues, h₂.cbs.trans h₁.cbs, h₂.cmp.trans h₁.cmp,
    h₂.block.trans h₁.block, h₂.idsBlock.trans h₁.idsBlock⟩

/-- From `c` to `c'` the memory that a fold holds has gone from `held` to `held'`,
and nothing else has happened. -/
structure HandsOver (cb : Callbacks K U) (c : Ctx K V U) (held : Multiset ℕ) (c' : Ctx K V U)
    (held' : Multiset ℕ) : Prop where
  freed : c'.freed = c.freed
  udata : c'.udata = c.udata
  ledger : ∀ c₀ live, Ledger cb c₀ c (held + live) → Ledger cb c₀ c' (held' + live)

omit [Inhabited K] [Inhabited V] in
theorem HandsOver.refl (c : Ctx K V U) (held : Multiset ℕ) : HandsOver cb c held c held :=
  ⟨rfl, rfl, fun _ _ hl => hl⟩

omit [Inhabited K] [Inhabited V] in
theorem HandsOver.trans {c₁ c₂ c₃ : Ctx K V U} {held₁ held₂ held₃ : Multiset ℕ}
    (h₁ : HandsOver cb c₁ held₁ c₂ held₂) (h₂ : HandsOver cb c₂ held₂ c₃ held₃) :
    HandsOver cb c₁ held₁ c₃ held₃ :=
  ⟨h₂.freed.trans h₁.freed, h₂.udata.trans h₁.udata,
    fun c₀ live hl => h₂.ledger c₀ live (h₁.ledger c₀ live hl)⟩

omit [Inhabited K] [Inhabited V] in
/-- The same with more in hand. -/
theorem HandsOver.frame {c c' : Ctx K V U} {held held' : Multiset ℕ}
    (h : HandsOver cb c held c' held') (more : Multiset ℕ) :
    HandsOver cb c (held + more) c' (held' + more) := by
  refine ⟨h.freed, h.udata, ?_⟩
  intro c₀ live hl
  rw [add_assoc] at hl ⊢
  exact h.ledger c₀ _ hl

omit [Inhabited K] in
/-- Entry `i` has a new state, and skiparray `g` has changed in iterator `p` only. -/
theorem Folding.reads_set (h : Folding cb type bs its base inputs fs sas st) {is is' : IterState K V}
    {g : ℕ} {p : Ptr} {s s' : SkipArray K V} {rest : List (K × V)} (hg : inputs[i]? = some g)
    (his : fs.iters[i]? = some is) (hiter : is.iter = some (g, p)) (hs : sas[g]? = some s)
    (hpay : ∀ q, q ≠ p → (s'.iter? q).map Iter.payload = (s.iter? q).map Iter.payload)
    (hread : Reading type bs (sas.set g s') g is'.iter rest) :
    ∀ {j k : ℕ} {js : IterState K V} {r : List (K × V)}, inputs[j]? = some k →
      (fs.iters.set i is')[j]? = some js → (st.rests.set i rest)[j]? = some r →
      Reading type bs (sas.set g s') k js.iter r := by
  intro j k js r hk hjs hr
  by_cases hij : i = j
  · subst hij
    rw [List.getElem?_set_self (List.getElem?_eq_some_iff.mp his).1, Option.some.injEq] at hjs
    have hlt : i < st.rests.length := by
      have := (List.getElem?_eq_some_iff.mp hr).1
      rwa [List.length_set] at this
    rw [List.getElem?_set_self hlt, Option.some.injEq] at hr
    obtain rfl : g = k := Option.some.inj (hg.symm.trans hk)
    rw [← hjs, ← hr]
    exact hread
  · rw [List.getElem?_set_ne hij] at hjs hr
    refine (h.reads hk hjs hr).of_set hs hpay ?_
    intro hsame
    exact hij (holds_inj h.pool.nodup his hjs hiter hsame)

omit [Inhabited K] in
/-- The body of `step_active_iterators` feeds its lane. -/
theorem stepIterator_spec (hin : FoldInputs cb base bs inputs fs.cmp fs.useValues)
    (h : Folding cb type bs its base inputs fs sas st) (hi : i < inputs.length) (c : Ctx K V U) :
    ∃ fs' sas' c', stepIterator cb i (fs, sas, c) = .ok (fs', sas', c') ∧ SameSetup fs fs' ∧
      Folding cb type bs its base inputs fs' sas' (Lanes.feed (onKeys (cb.cmp fs.cmp)) i st) ∧
      HandsOver cb c (heldBlocks sas fs.iters) c' (heldBlocks sas' fs'.iters) := by
  have hilt : i < fs.iters.length := by rw [h.queued.size]; exact hi
  have his := List.getElem?_eq_getElem hilt
  generalize fs.iters[i] = is at his
  have hih := List.getElem?_eq_getElem hi
  generalize inputs[i] = g at hih
  have hir : ∃ rest, st.rests[i]? = some rest := ⟨_, List.getElem?_eq_getElem (h.lanes ▸ hi)⟩
  obtain ⟨rest, hrest⟩ := hir
  have hreads := h.reads hih his hrest
  simp only [stepIterator, slot_of_getElem? his, ok_bind]
  cases hiter : is.iter with
  | none =>
      have hsame : Lanes.feed (onKeys (cb.cmp fs.cmp)) i st = st := by
        rcases Lanes.feed_cases (onKeys (cb.cmp fs.cmp)) i st with ⟨heq, -⟩ | ⟨x, r, -, hr, -⟩
        · exact heq
        · rw [hrest, hreads.done hiter] at hr
          cases hr
      rw [hsame]
      exact ⟨fs, sas, c, rfl, .refl fs, h, .refl c _⟩
  | some x =>
      obtain ⟨g', p⟩ := x
      by_cases hstate : is.state = .none
      · have hfresh : i ∉ st.queue.map Prod.fst := (h.queued.idle his).mp hstate
        obtain ⟨rfl, s, pos, hs, hat, hpos, hremain⟩ := hreads.live hiter
        have hgin : g' ∈ inputs := List.mem_of_getElem? hih
        obtain ⟨b, hb, hbwf, hbuse⟩ := hin.wf g' hgin
        have hold := h.pool.each hb hs
        have hwf := hold.wf hbwf
        have huse : s.useValues = fs.useValues := by rw [hold.only.settings, hbuse]
        obtain ⟨⟨key, value⟩, res, s', hx, hmove, hm, hres⟩ := advance_spec type hwf hat hpos
        have hne : bindings (bs g') ≠ [] := List.ne_nil_of_length_pos (by omega)
        have hget : skiparrayIterGet s p = .ok (key, s.out value) := by
          rw [skiparrayIterGet_spec hwf hne hat, hx]
        have hdefault : fs.useValues = false → value = default := by
          intro hu
          exact hwf.value_default (huse.trans hu) _ (List.mem_of_getElem? hx)
        have hvalue : (s.out value).getD is.pair.2 = value := by
          unfold Settings.out
          cases hu : s.useValues with
          | true => rfl
          | false => rw [hdefault (huse ▸ hu)]; exact h.values (huse ▸ hu) his
        have hqueued := h.queued.set (b := { is with pair := (key, value) }) his rfl
          fun hmem => absurd hmem hfresh
        have hget₁ : (fs.iters.set i { is with pair := (key, value) })[i]? =
            some { is with pair := (key, value) } := List.getElem?_set_self hilt
        obtain ⟨ids, state, hins, hwaits, hq⟩ := insertPair_spec hin.lawful hin.le
          (show Queued _ _ ({ fs with iters := fs.iters.set i { is with pair := (key, value) } } :
            FoldState K V U W).ids _ _ from hqueued) hget₁ hfresh
        simp only [List.set_set, hiter] at hins hq
        have hget₂ : (fs.iters.set i ⟨state, (key, value), some (g', p)⟩)[i]? =
            some ⟨state, (key, value), some (g', p)⟩ := List.getElem?_set_self hilt
        have hfeed : ∀ rest', rest = (key, value) :: rest' →
            Lanes.feed (onKeys (cb.cmp fs.cmp)) i st = ⟨st.rests.set i rest',
              Lanes.insert (onKeys (cb.cmp fs.cmp)) (i, key, value) st.queue⟩ := by
          rintro rest' rfl
          rw [Lanes.feed, if_neg hfresh, hrest]
        have hvalues : ∀ iter, fs.useValues = false → ∀ {j : ℕ} {js : IterState K V},
            (fs.iters.set i ⟨state, (key, value), iter⟩)[j]? = some js → js.pair.2 = default := by
          intro iter hu j js hjs
          by_cases hij : i = j
          · rw [← hij, List.getElem?_set_self hilt, Option.some.injEq] at hjs
            rw [← hjs]
            exact hdefault hu
          · rw [List.getElem?_set_ne hij] at hjs
            exact h.values hu hjs
        have hmoved := h.pool.moves hs (mem_holds his hiter) hm
        have hset := List.getElem?_set_self (a := s') (List.getElem?_eq_some_iff.mp hs).1
        simp only [if_neg (not_not.mpr hstate), slot_of_getElem? hs, hget, ok_bind, hvalue,
          putSlot_of_lt hilt, hins, slot_of_getElem? hget₂, check_of_pos hwaits]
        rw [h.type_eq]
        rcases hres with ⟨rfl, hlast⟩ | ⟨rfl, pos', hat', hpos', hmore⟩
        · -- the last binding was read: the iterator is given back
          have hrest' : rest = (key, value) :: [] := hremain.trans hlast
          have hheld : (holds fs.iters).Perm
              ((g', p) :: holds (fs.iters.set i ⟨state, (key, value), none⟩)) :=
            holds_set_none his hiter rfl
          obtain ⟨s₁, s'', hs₁, hfree, hpool, hpay⟩ := (hmoved.perm hheld).free c
          obtain rfl : s' = s₁ := Option.some.inj (hset.symm.trans hs₁)
          rw [List.set_set] at hpool
          have hlive : fs.iterLive = (holds (fs.iters.set i ⟨state, (key, value), none⟩)).length + 1 := by
            rw [h.live, hheld.length_eq, List.length_cons]
          have hqueued' := hq.set (b := ⟨state, (key, value), none⟩) hget₂ rfl fun _ => rfl
          rw [List.set_set] at hqueued'
          let fs' : FoldState K V U W :=
            { fs with
              type
              ids
              iterLive := fs.iterLive - 1
              iters := fs.iters.set i ⟨state, (key, value), none⟩ }
          refine ⟨fs', sas.set g' s'', c.release (blockOf (sas.set g' s') (g', p)),
            bind_eq_ok.mpr ⟨_, hmove, ?_⟩, ?_, ?_, ?_⟩
          · rw [if_pos rfl]
            simp only [hfree, ok_bind]
            rw [putSlot_of_lt (by rw [List.length_set]; exact hilt), ok_bind, List.set_set,
              check_of_pos (by omega), ok_bind]
            rfl
          · exact ⟨rfl, rfl, rfl, rfl, rfl⟩
          · rw [hfeed [] hrest']
            refine ⟨hpool, h.count, rfl, ?_, hqueued', by rw [List.length_set, h.lanes], ?_, hvalues _⟩
            · change fs.iterLive - 1 = _
              rw [hlive]
              rfl
            · refine h.reads_set hih his hiter hs ?_ ⟨fun _ => rfl, fun hno => by cases hno⟩
              intro q hqp
              rw [hpay q hqp, hm.iter?_ne hqp]
          · refine ⟨rfl, rfl, ?_⟩
            intro c₀ live hl
            have hblocks : heldBlocks sas fs.iters =
                blockOf (sas.set g' s') (g', p) ::ₘ heldBlocks (sas.set g' s'') fs'.iters := by
              have hgone := blockOf_free (hmoved.perm hheld) hset hpay
              rw [List.set_set] at hgone
              unfold heldBlocks
              rw [hgone, List.map_congr_left fun x _ => blockOf_moves hs hm x, blockOf_moves hs hm,
                Multiset.cons_coe, ← List.map_cons]
              exact Multiset.coe_eq_coe.mpr (hheld.map _)
            rw [hblocks, Multiset.cons_add] at hl
            exact hl.release
        · have hrest' := hremain.trans hmore
          have hsame : holds (fs.iters.set i ⟨state, (key, value), some (g', p)⟩) = holds fs.iters :=
            holds_set_same his hiter.symm
          let fs' : FoldState K V U W :=
            { fs with type, ids, iters := fs.iters.set i ⟨state, (key, value), some (g', p)⟩ }
          refine ⟨fs', sas.set g' s', c, bind_eq_ok.mpr ⟨_, hmove, ?_⟩, ?_, ?_, ?_⟩
          · rw [if_neg (by simp)]
            rfl
          · exact ⟨rfl, rfl, rfl, rfl, rfl⟩
          · rw [hfeed _ hrest']
            refine ⟨hsame ▸ hmoved, h.count, rfl, hsame ▸ h.live, hq, by rw [List.length_set, h.lanes],
              ?_, hvalues _⟩
            refine h.reads_set hih his hiter hs (fun q hqp => by rw [hm.iter?_ne hqp]) ⟨?_, ?_⟩
            · intro hno
              cases hno
            · intro g'' p' heq
              cases heq
              exact ⟨rfl, s', pos', hset, hat', hpos', rfl⟩
          · have hblocks : heldBlocks (sas.set g' s') fs'.iters = heldBlocks sas fs.iters := by
              unfold heldBlocks
              rw [show holds fs'.iters = holds fs.iters from hsame,
                List.map_congr_left fun x _ => blockOf_moves hs hm x]
            rw [hblocks]
            exact .refl c _
      · have hmem : i ∈ st.queue.map Prod.fst := by
          by_contra hnot
          exact hstate ((h.queued.idle his).mpr hnot)
        have hsame : Lanes.feed (onKeys (cb.cmp fs.cmp)) i st = st := by
          rw [Lanes.feed, if_pos hmem]
        simp only [if_pos hstate]
        rw [hsame]
        exact ⟨fs, sas, c, rfl, .refl fs, h, .refl c _⟩

omit [Inhabited K] in
theorem feedLoop_spec (hin : FoldInputs cb base bs inputs fs.cmp fs.useValues)
    (h : Folding cb type bs its base inputs fs sas st) (c : Ctx K V U) :
    ∀ n ≤ inputs.length, ∃ fs' sas' c', forUp (stepIterator cb) n (fs, sas, c) = .ok (fs', sas', c') ∧
      SameSetup fs fs' ∧ Folding cb type bs its base inputs fs' sas'
        (Lanes.feedUpTo (onKeys (cb.cmp fs.cmp)) n st) ∧
      HandsOver cb c (heldBlocks sas fs.iters) c' (heldBlocks sas' fs'.iters) := by
  intro n
  induction n with
  | zero =>
      intro _
      exact ⟨fs, sas, c, rfl, .refl fs, h, .refl c _⟩
  | succ n ih =>
      intro hn
      obtain ⟨fs₁, sas₁, c₁, hloop, hset₁, h₁, hover₁⟩ := ih (by omega)
      rw [← hset₁.cmp, ← hset₁.useValues] at hin
      obtain ⟨fs₂, sas₂, c₂, hstep, hset₂, h₂, hover₂⟩ :=
        stepIterator_spec hin h₁ (Nat.lt_of_succ_le hn) c₁
      rw [hset₁.cmp] at h₂
      exact ⟨fs₂, sas₂, c₂, bind_eq_ok.mpr ⟨_, hloop, hstep⟩, hset₁.trans hset₂, h₂,
        hover₁.trans hover₂⟩

omit [Inhabited K] in
theorem Folding.valid (h : Folding cb type bs its base inputs fs sas st) : st.Valid := by
  refine ⟨h.queued.nodup, ?_⟩
  intro x hx
  rw [h.lanes]
  exact h.queued.lt x.1 (List.mem_map_of_mem hx)

omit [Inhabited K] [Inhabited V] in
/-- Lanes are empty that have no iterator any more. -/
theorem Reading.eq_nil_iff {h : ℕ} {iter : Option (ℕ × Ptr)} {rest : List (K × V)}
    (hr : Reading type bs sas h iter rest) : rest = [] ↔ iter = none := by
  refine ⟨?_, hr.done⟩
  rintro rfl
  rcases hiter : iter with _ | ⟨g, p⟩
  · rfl
  · obtain ⟨-, s, pos, -, -, hpos, hrest⟩ := hr.live hiter
    cases type with
    | left =>
        have hlen := congrArg List.length hrest
        simp only [FoldType.remaining, List.length_nil, List.length_drop] at hlen
        omega
    | right =>
        have hlen := congrArg List.length hrest
        simp only [FoldType.remaining, List.length_nil, List.length_reverse, List.length_take] at hlen
        omega

omit [Inhabited K] in
theorem Folding.rests_nil_iff (h : Folding cb type bs its base inputs fs sas st) :
    fs.iterLive = 0 ↔ ∀ r ∈ st.rests, r = [] := by
  rw [h.live, List.length_eq_zero_iff]
  constructor
  · intro hnone r hr
    obtain ⟨i, hi⟩ := List.getElem?_of_mem hr
    have hlt : i < inputs.length := by
      rw [← h.lanes]
      exact (List.getElem?_eq_some_iff.mp hi).1
    have his := List.getElem?_eq_getElem (h.queued.size.symm ▸ hlt : i < fs.iters.length)
    have hread := h.reads (List.getElem?_eq_getElem hlt) his hi
    rw [hread.eq_nil_iff]
    by_contra hsome
    obtain ⟨x, hx⟩ := Option.ne_none_iff_exists'.mp hsome
    have := mem_holds his hx
    rw [hnone] at this
    cases this
  · intro hall
    rw [List.eq_nil_iff_forall_not_mem]
    intro x hx
    obtain ⟨is, his, hiter⟩ := List.mem_filterMap.mp hx
    obtain ⟨i, hi⟩ := List.getElem?_of_mem his
    have hlt : i < inputs.length := by
      rw [← h.queued.size]
      exact (List.getElem?_eq_some_iff.mp hi).1
    have hr := List.getElem?_eq_getElem (h.lanes.symm ▸ hlt : i < st.rests.length)
    have hread := h.reads (List.getElem?_eq_getElem hlt) hi hr
    have hnil := hread.eq_nil_iff.mp (hall _ (List.mem_of_getElem? hr))
    rw [hnil] at hiter
    cases hiter

omit [Inhabited K] in
theorem Folding.done_iff (h : Folding cb type bs its base inputs fs sas st) :
    fs.iterLive = 0 ∧ fs.ids.available = 0 ↔ st.Done := by
  rw [h.rests_nil_iff, h.queued.available, List.length_eq_zero_iff, and_comm]
  rfl

omit [Inhabited K] [Inhabited V] in
/-- `skiparray_fold_halt` gives all iterators back, and the fold state. -/
theorem skiparrayFoldHalt_spec (cb : Callbacks K U) (hpos : 0 < fs.iterCount)
    (h : Pool base sas its (holds fs.iters)) (c : Ctx K V U) :
    ∃ sas' c', skiparrayFoldHalt fs sas c = .ok (sas', c') ∧ Pool base sas' its [] ∧
      HandsOver cb c (heldBlocks sas fs.iters + {fs.idsBlock, fs.block}) c' 0 := by
  obtain ⟨sas', c', hfree, hpool, hfreed, hudata, hled⟩ := freeFoldIters_spec fs.iters h c
  refine ⟨sas', (c'.release fs.idsBlock).release fs.block, ?_, hpool, hfreed, hudata, ?_⟩
  · rw [skiparrayFoldHalt, check_of_pos hpos, ok_bind, hfree]
    rfl
  · intro c₀ live hl
    rw [add_assoc] at hl
    have hrest := hled cb c₀ _ hl
    rw [Multiset.insert_eq_cons, Multiset.cons_add, Multiset.singleton_add] at hrest
    rw [zero_add]
    exact hrest.release.release

omit [Inhabited K] [Inhabited V] in
theorem holds_clearOn (is : List ℕ) (iters : List (IterState K V)) :
    holds (clearOn is iters) = holds iters := by
  have hmap : (clearOn is iters).map IterState.iter = iters.map IterState.iter := by
    apply List.ext_getElem?
    intro j
    rw [List.getElem?_map, List.getElem?_map, getElem?_clearOn, Option.map_map]
    cases iters[j]? with
    | none => rfl
    | some b =>
        simp only [Option.map_some, Function.comp_apply]
        split_ifs <;> rfl
  have hheld := congrArg (List.filterMap id) hmap
  rwa [List.filterMap_map, List.filterMap_map] at hheld

omit [Inhabited K] in
/-- What left the queue leaves the fold state. -/
theorem Folding.drop (h : Folding cb type bs its base inputs fs sas st) {ids : Ids} {is : List ℕ}
    {q : List (ℕ × (K × V))}
    (hq : Queued (cb.cmp fs.cmp) inputs.length ids (clearOn is fs.iters) q) :
    Folding cb type bs its base inputs { fs with ids, iters := clearOn is fs.iters } sas
      ⟨st.rests, q⟩ := by
  have hget : ∀ {i : ℕ} {a : IterState K V}, (clearOn is fs.iters)[i]? = some a →
      ∃ b, fs.iters[i]? = some b ∧ a.iter = b.iter ∧ a.pair = b.pair := by
    intro i a ha
    rw [getElem?_clearOn, Option.map_eq_some_iff] at ha
    obtain ⟨b, hb, rfl⟩ := ha
    refine ⟨b, hb, ?_⟩
    split_ifs <;> exact ⟨rfl, rfl⟩
  have hholds := holds_clearOn is fs.iters
  refine ⟨hholds ▸ h.pool, h.count, h.type_eq, hholds ▸ h.live, hq, h.lanes, ?_, ?_⟩
  · intro i k a rest hk ha hr
    obtain ⟨b, hb, hiter, -⟩ := hget ha
    rw [hiter]
    exact h.reads hk hb hr
  · intro hu i a ha
    obtain ⟨b, hb, -, hpair⟩ := hget ha
    rw [hpair]
    exact h.values hu hb

omit [Inhabited K] [Inhabited V] in
/-- With nothing to send, feeding does nothing. -/
theorem fed_of_rests_nil {cmp : K × V → K × V → ℤ} (h : ∀ r ∈ st.rests, r = []) :
    st.fed cmp = st := by
  have hfeed : ∀ n, Lanes.feedUpTo cmp n st = st := by
    intro n
    induction n with
    | zero => rfl
    | succ n ih =>
        rw [Lanes.feedUpTo, ih]
        rcases Lanes.feed_cases cmp n st with ⟨heq, -⟩ | ⟨x, rest, -, hr, -⟩
        · exact heq
        · cases h _ (List.mem_of_getElem? hr)
  exact hfeed _

/-- The memory of a fold: its iterators, its queue and its state. -/
def FoldState.memory (fs : FoldState K V U W) (sas : List (SkipArray K V)) : Multiset ℕ :=
  heldBlocks sas fs.iters + {fs.idsBlock, fs.block}

/-- What a call of `skiparray_fold_next` does. -/
inductive FoldNextOutcome (cb : Callbacks K U) (type : FoldType) (bs : ℕ → List (Block K V))
    (its : ℕ → List Ptr) (base : List (SkipArray K V)) (inputs : List ℕ) (fs : FoldState K V U W)
    (sas : List (SkipArray K V)) (st : Lanes.State (K × V)) (w : W) (c : Ctx K V U) :
    FoldNextRes → Option (FoldState K V U W) → List (SkipArray K V) → W → Ctx K V U → Prop where
  | done {sas' : List (SkipArray K V)} {c' : Ctx K V U} (hdone : st.Done)
      (hpool : Pool base sas' its []) (hover : HandsOver cb c (fs.memory sas) c' 0) :
      FoldNextOutcome cb type bs its base inputs fs sas st w c .done none sas' w c'
  | ok {d : Lanes.Delivery (ℕ × (K × V))} {st' : Lanes.State (K × V)} {fs' : FoldState K V U W}
      {sas' : List (SkipArray K V)} {w' : W} {c₁ c' : Ctx K V U}
      (hnext : Lanes.Next (onKeys (cb.cmp fs.cmp)) st d st')
      (hover : HandsOver cb c (fs.memory sas) c₁ (fs'.memory sas'))
      (hcalls : CallsBack fs.cbs w c₁ (d.map Prod.snd) w' c') (hset : SameSetup fs fs')
      (hf : Folding cb type bs its base inputs fs' sas' st') :
      FoldNextOutcome cb type bs its base inputs fs sas st w c .ok (some fs') sas' w' c'

omit [Inhabited K] [Inhabited V] in
theorem heldBlocks_clearOn (sas : List (SkipArray K V)) (is : List ℕ)
    (iters : List (IterState K V)) : heldBlocks sas (clearOn is iters) = heldBlocks sas iters := by
  unfold heldBlocks
  rw [holds_clearOn]

omit [Inhabited K] in
/-- What `skiparray_fold_next` does before it calls back. -/
theorem feedAll_spec (hin : FoldInputs cb base bs inputs fs.cmp fs.useValues)
    (h : Folding cb type bs its base inputs fs sas st) (c : Ctx K V U) :
    ∃ fs₁ sas₁ c₁,
      (if 0 < fs.iterLive then stepActiveIterators cb fs sas c else pure (fs, sas, c)) =
        .ok (fs₁, sas₁, c₁) ∧ SameSetup fs fs₁ ∧
      Folding cb type bs its base inputs fs₁ sas₁ (st.fed (onKeys (cb.cmp fs.cmp))) ∧
      HandsOver cb c (heldBlocks sas fs.iters) c₁ (heldBlocks sas₁ fs₁.iters) := by
  by_cases hlive : 0 < fs.iterLive
  · obtain ⟨fs₁, sas₁, c₁, hloop, hset, hf, hover⟩ := feedLoop_spec hin h c inputs.length le_rfl
    refine ⟨fs₁, sas₁, c₁, ?_, hset, ?_, hover⟩
    · rw [if_pos hlive, stepActiveIterators, check_of_pos hlive, ok_bind, h.count, hloop]
    · rw [Lanes.State.fed, h.lanes]
      exact hf
  · refine ⟨fs, sas, c, if_neg hlive, .refl fs, ?_, .refl c _⟩
    rw [fed_of_rests_nil (h.rests_nil_iff.mp (Nat.eq_zero_of_not_pos hlive))]
    exact h

omit [Inhabited K] in
/-- `call_with_next` in a fold, if the callbacks take what it delivers. -/
theorem Folding.callNext {f : ℕ} (hin : FoldInputs cb base bs inputs f fs.useValues)
    (hcmp : fs.cmp = f) (h : Folding cb type bs its base inputs fs sas st) {x : ℕ × (K × V)} {q : List (ℕ × (K × V))}
    (hq : st.queue = x :: q) {w w' : W} {c c' : Ctx K V U}
    (hback : CallsBack fs.cbs w c
      ((Lanes.delivery (onKeys (cb.cmp f)) x q).map Prod.snd) w' c') :
    ∃ ids is, callWithNext fs fs.iterCount w c =
        .ok ({ fs with ids, iters := clearOn is fs.iters }, w', c') ∧
      Folding cb type bs its base inputs { fs with ids, iters := clearOn is fs.iters } sas
        ⟨st.rests, (x :: q).drop (Lanes.delivery (onKeys (cb.cmp f)) x q).items.length⟩ := by
  subst hcmp
  have hqueued := h.queued
  rw [hq] at hqueued
  have hdefault : ∀ y ∈ x :: q, fs.useValues = false → y.2.2 = default := by
    intro y hy hu
    obtain ⟨is, his, hpair, -⟩ := hqueued.marked.get hy
    rw [← hpair]
    exact h.values hu his
  obtain ⟨ids, is, hcall, hqueued'⟩ := callWithNext_spec hin.lawful hin.le hqueued hdefault hback
  rw [← h.count] at hcall
  exact ⟨ids, is, hcall, h.drop hqueued'⟩

/-- A call of `skiparray_fold_next` that delivers `d`: it feeds the lanes, which
takes the fold to `fs₁` and `sas₁`, and calls back, which takes it to `fs'`. -/
structure FoldTurn (cb : Callbacks K U) (type : FoldType) (bs : ℕ → List (Block K V))
    (its : ℕ → List Ptr) (base : List (SkipArray K V)) (inputs : List ℕ) (fs : FoldState K V U W)
    (sas : List (SkipArray K V)) (st : Lanes.State (K × V)) (w : W) (c : Ctx K V U)
    (fs₁ : FoldState K V U W) (sas₁ : List (SkipArray K V)) (c₁ : Ctx K V U)
    (d : Lanes.Delivery (ℕ × (K × V))) (fs' : FoldState K V U W) (st' : Lanes.State (K × V))
    (w' : W) (c' : Ctx K V U) : Prop where
  feed : (if 0 < fs.iterLive then stepActiveIterators cb fs sas c else pure (fs, sas, c)) =
    .ok (fs₁, sas₁, c₁)
  call : callWithNext fs₁ fs₁.iterCount w c₁ = .ok (fs', w', c')
  result : skiparrayFoldNext cb fs sas w c = .ok (.ok, some fs', sas₁, w', c')
  same₁ : SameSetup fs fs₁
  fed : Folding cb type bs its base inputs fs₁ sas₁ (st.fed (onKeys (cb.cmp fs.cmp)))
  step : Lanes.Next (onKeys (cb.cmp fs.cmp)) st d st'
  back : CallsBack fs.cbs w c₁ (d.map Prod.snd) w' c'
  hands : HandsOver cb c (fs.memory sas) c₁ (fs'.memory sas₁)
  same : SameSetup fs fs'
  left : Folding cb type bs its base inputs fs' sas₁ st'

omit [Inhabited K] in
theorem Folding.counters (h : Folding cb type bs its base inputs fs sas st) :
    fs.ids.available ≤ fs.iterCount ∧ fs.iterLive ≤ fs.iterCount := by
  have hbound := h.queued.window.bound
  rw [List.length_map, ← h.queued.available] at hbound
  rw [h.count, h.live, ← h.queued.size]
  refine ⟨?_, List.length_filterMap_le ..⟩
  rw [h.queued.size]
  exact le_trans (Nat.le_add_left ..) hbound

omit [Inhabited K] in
/-- A call delivers something if there is something left and the callbacks take it. -/
theorem exists_turn (hin : FoldInputs cb base bs inputs fs.cmp fs.useValues)
    (h : Folding cb type bs its base inputs fs sas st) (hleft : ¬ st.Done) (w : W) (c : Ctx K V U)
    (hcalls : ∀ d st' c₁ held, Lanes.Next (onKeys (cb.cmp fs.cmp)) st d st' →
      HandsOver cb c (fs.memory sas) c₁ held → ∃ w' c', CallsBack fs.cbs w c₁ (d.map Prod.snd) w' c') :
    ∃ fs₁ sas₁ c₁ d fs' st' w' c',
      FoldTurn cb type bs its base inputs fs sas st w c fs₁ sas₁ c₁ d fs' st' w' c' := by
  obtain ⟨fs₁, sas₁, c₁, hfeed, hset₁, h₁, hover₁⟩ := feedAll_spec hin h c
  have hover : HandsOver cb c (fs.memory sas) c₁ (fs₁.memory sas₁) := by
    unfold FoldState.memory
    rw [hset₁.block, hset₁.idsBlock]
    exact hover₁.frame _
  obtain ⟨d, st', hnext⟩ := Lanes.exists_next (onKeys (cb.cmp fs.cmp)) hleft
  obtain ⟨w', c', hback⟩ := hcalls d st' c₁ _ hnext hover
  cases hnext with
  | @intro x q hq =>
      rw [← hset₁.useValues] at hin
      obtain ⟨ids, is, hcall, hf⟩ := h₁.callNext hin hset₁.cmp hq (hset₁.cbs.symm ▸ hback)
      let fs' : FoldState K V U W := { fs₁ with ids, iters := clearOn is fs₁.iters }
      have hmemory : fs'.memory sas₁ = fs₁.memory sas₁ := by
        unfold FoldState.memory
        rw [heldBlocks_clearOn]
      refine ⟨fs₁, sas₁, c₁, _, fs', _, w', c', hfeed, hcall, ?_, hset₁, h₁, .intro hq, hback,
        hmemory ▸ hover, hset₁.trans ⟨rfl, rfl, rfl, rfl, rfl⟩, hf⟩
      obtain ⟨havailable, hlive⟩ := h.counters
      rw [skiparrayFoldNext, check_of_pos havailable, ok_bind, check_of_pos hlive, ok_bind,
        if_neg (mt h.done_iff.mp hleft)]
      exact bind_eq_ok.mpr ⟨_, hfeed, bind_eq_ok.mpr ⟨_, hcall, rfl⟩⟩

omit [Inhabited K] in
/-- One call of `skiparray_fold_next`, if the callbacks take what it delivers. -/
theorem skiparrayFoldNext_calls (hpos : inputs ≠ [])
    (hin : FoldInputs cb base bs inputs fs.cmp fs.useValues)
    (h : Folding cb type bs its base inputs fs sas st) (w : W) (c : Ctx K V U)
    (hcalls : ∀ d st' c₁ held, Lanes.Next (onKeys (cb.cmp fs.cmp)) st d st' →
      HandsOver cb c (fs.memory sas) c₁ held → ∃ w' c', CallsBack fs.cbs w c₁ (d.map Prod.snd) w' c') :
    ∃ res fs' sas' w' c', skiparrayFoldNext cb fs sas w c = .ok (res, fs', sas', w', c') ∧
      FoldNextOutcome cb type bs its base inputs fs sas st w c res fs' sas' w' c' := by
  by_cases hdone : st.Done
  · have hlen := List.length_pos_of_ne_nil hpos
    obtain ⟨sas', c', hhalt, hpool, hover⟩ := skiparrayFoldHalt_spec cb (h.count ▸ hlen) h.pool c
    refine ⟨.done, none, sas', w, c', ?_, .done hdone hpool hover⟩
    obtain ⟨havailable, hlive⟩ := h.counters
    rw [skiparrayFoldNext, check_of_pos havailable, ok_bind, check_of_pos hlive, ok_bind,
      if_pos (h.done_iff.mpr hdone)]
    exact bind_eq_ok.mpr ⟨_, hhalt, rfl⟩
  · obtain ⟨_, sas₁, _, _, fs', _, w', c', ht⟩ := exists_turn hin h hdone w c hcalls
    exact ⟨.ok, some fs', sas₁, w', c', ht.result, .ok ht.step ht.hands ht.back ht.same ht.left⟩

omit [Inhabited K] in
/-- Callbacks that return take anything. -/
theorem Folding.callsBack (hin : FoldInputs cb base bs inputs fs.cmp fs.useValues)
    (h : Folding cb type bs its base inputs fs sas st) (hret : fs.cbs.Return)
    (hmerge : 2 ≤ inputs.length → fs.cbs.merge.isSome = true)
    {d : Lanes.Delivery (ℕ × (K × V))} {st' : Lanes.State (K × V)}
    (hnext : Lanes.Next (onKeys (cb.cmp fs.cmp)) st d st') (w : W) (c : Ctx K V U) :
    ∃ w' c', CallsBack fs.cbs w c (d.map Prod.snd) w' c' := by
  refine hret.callsBack ?_ w c
  rintro ps hps
  cases d with
  | single x => cases hps
  | merged xs =>
      cases hps
      obtain ⟨hne, htwo⟩ := hnext.merged (LawfulCmp.onKeys hin.lawful) h.valid
      rw [h.lanes] at htwo
      exact ⟨by simpa using hne, hmerge htwo⟩

omit [Inhabited K] in
theorem skiparrayFoldNext_spec (hpos : inputs ≠ [])
    (hin : FoldInputs cb base bs inputs fs.cmp fs.useValues)
    (h : Folding cb type bs its base inputs fs sas st) (hret : fs.cbs.Return)
    (hmerge : 2 ≤ inputs.length → fs.cbs.merge.isSome = true) (w : W) (c : Ctx K V U) :
    ∃ res fs' sas' w' c', skiparrayFoldNext cb fs sas w c = .ok (res, fs', sas', w', c') ∧
      FoldNextOutcome cb type bs its base inputs fs sas st w c res fs' sas' w' c' := by
  apply skiparrayFoldNext_calls hpos hin h
  intro d st' c₁ held hnext _
  exact h.callsBack hin hret hmerge hnext w c₁

end Step

end Sim

end Skiparray
