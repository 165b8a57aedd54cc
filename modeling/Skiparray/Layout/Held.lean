import Skiparray.Layout.Cursor
import Skiparray.Layout.Ledger
import Skiparray.Model.Fold

/-!
# Iterators held by a fold

A fold takes an iterator on each of its inputs, several on one skiparray if that
is named more than once, and gives them back one by one. `Holding` compares a
skiparray with what it was before the first was taken, `Pool` a whole list of
skiparrays; once nothing is held any more, they are the same.
-/

namespace Skiparray

open SkipLinks Fallible

variable {K V U : Type}

/-! ## One skiparray -/

/-- `sa` is `base`, whose iterators are `its`, with the iterators `mine` in addition. -/
structure Holding (base sa : SkipArray K V) (its mine : List Ptr) : Prop where
  only : IterOnly base sa
  before : base.Cursors its
  cursors : ∃ ps : List Ptr, ps.Perm mine ∧ sa.Cursors (ps ++ its)
  payload : ∀ p, p ∉ mine → (sa.iter? p).map Iter.payload = (base.iter? p).map Iter.payload

namespace Holding

variable {base sa sa' : SkipArray K V} {its mine mine' : List Ptr} {p : Ptr}

theorem refl (h : base.Cursors its) : Holding base base its [] :=
  ⟨.refl base, h, ⟨[], .nil, h⟩, fun _ _ => rfl⟩

theorem perm (h : Holding base sa its mine) (hp : mine.Perm mine') : Holding base sa its mine' := by
  obtain ⟨ps, hps, hcur⟩ := h.cursors
  refine ⟨h.only, h.before, ⟨ps, hps.trans hp, hcur⟩, ?_⟩
  intro q hq
  apply h.payload
  rwa [hp.mem_iff]

/-- With nothing held, the iterators are what they were before. -/
theorem restored (h : Holding base sa its []) :
    sa.iter = base.iter ∧ ∀ p, sa.iter? p = base.iter? p := by
  obtain ⟨ps, hps, hcur⟩ := h.cursors
  obtain rfl := List.Perm.eq_nil hps
  rw [List.nil_append] at hcur
  refine ⟨by rw [hcur.head_eq, h.before.head_eq], ?_⟩
  exact h.before.iter?_congr hcur fun q => h.payload q (by simp)

/-- An iterator that is held was not there before. -/
theorem fresh (h : Holding base sa its mine) (hp : p ∈ mine) : base.iter? p = none := by
  obtain ⟨ps, hps, hcur⟩ := h.cursors
  have hnot : p ∉ its := by
    intro hmem
    exact (List.nodup_append.mp hcur.nodup).2.2 p (hps.mem_iff.mpr hp) p hmem rfl
  rw [h.before.live, Bool.not_eq_true, Option.isSome_eq_false_iff, Option.isNone_iff_eq_none] at hnot
  exact hnot

theorem nodup (h : Holding base sa its mine) : mine.Nodup := by
  obtain ⟨ps, hps, hcur⟩ := h.cursors
  exact hps.nodup_iff.mp (List.nodup_append.mp hcur.nodup).1

theorem isSome (h : Holding base sa its mine) (hp : p ∈ mine) : ∃ it, sa.iter? p = some it := by
  obtain ⟨ps, hps, hcur⟩ := h.cursors
  exact hcur.isSome (List.mem_append_left _ (hps.mem_iff.mpr hp))

theorem new (h : Holding base sa its mine) (n : Option Ptr) (block : ℕ) :
    Holding base (sa.withIter n block) its (sa.iters.length :: mine) := by
  obtain ⟨ps, hps, hcur⟩ := h.cursors
  refine ⟨h.only.trans (.withIter ..), h.before, ⟨_, hps.cons _, hcur.withIter n block⟩, ?_⟩
  intro q hq
  rw [List.mem_cons, not_or] at hq
  rw [SkipArray.payload_withIter hq.1, h.payload q hq.2]

theorem moves (h : Holding base sa its mine) (hp : p ∈ mine) (hm : sa.Moves p sa') :
    Holding base sa' its mine := by
  obtain ⟨ps, hps, hcur⟩ := h.cursors
  refine ⟨h.only.trans hm.iterOnly, h.before, ⟨ps, hps, hm.cursors hcur⟩, ?_⟩
  intro q hq
  have hne : q ≠ p := by
    rintro rfl
    exact hq hp
  rw [hm.iter?_ne hne, h.payload q hq]

theorem free (h : Holding base sa its mine) (hp : mine.Perm (p :: mine')) (c : Ctx K V U) :
    ∃ sa' it, sa.iter? p = some it ∧
      skiparrayIterFree sa c (some p) = .ok (sa', c.release it.block) ∧
      Holding base sa' its mine' ∧
      ∀ q ≠ p, (sa'.iter? q).map Iter.payload = (sa.iter? q).map Iter.payload := by
  have hmem : p ∈ mine := hp.mem_iff.mpr List.mem_cons_self
  obtain ⟨it, hit⟩ := h.isSome hmem
  have hfresh := h.fresh hmem
  obtain ⟨ps, hps, hcur⟩ := h.cursors
  obtain ⟨xs, ys, rfl⟩ := List.append_of_mem (hps.mem_iff.mpr hmem)
  rw [List.append_assoc, List.cons_append] at hcur
  obtain ⟨sa', hfree, ho, hcur', -, hgone, hpay⟩ := skiparrayIterFree_spec hcur hit c
  refine ⟨sa', it, hit, hfree, ⟨h.only.trans ho, h.before, ⟨xs ++ ys, ?_, ?_⟩, ?_⟩, hpay⟩
  · exact (List.perm_middle.symm.trans (hps.trans hp)).cons_inv
  · rw [List.append_assoc]
    exact hcur'
  · intro q hq
    by_cases hqp : q = p
    · rw [hqp, hgone, hfresh]
    · rw [hpay q hqp, h.payload q]
      rw [hp.mem_iff, List.mem_cons, not_or]
      exact ⟨hqp, hq⟩

theorem wf [Inhabited V] (h : Holding base sa its mine) {cmp : K → K → ℤ} {bs : List (Block K V)}
    (hwf : base.Wf cmp bs) : sa.Wf cmp bs := h.only.wf hwf

end Holding

/-! ## A list of skiparrays -/

/-- The iterators on skiparray `h` among those held. -/
def heldOn (held : List (ℕ × Ptr)) (h : ℕ) : List Ptr :=
  (held.filter fun x => x.1 = h).map Prod.snd

@[simp] theorem heldOn_nil (h : ℕ) : heldOn [] h = [] := rfl

theorem heldOn_cons_self (h : ℕ) (p : Ptr) (held : List (ℕ × Ptr)) :
    heldOn ((h, p) :: held) h = p :: heldOn held h := by
  simp [heldOn]

theorem heldOn_cons_ne {g h : ℕ} (hne : g ≠ h) (p : Ptr) (held : List (ℕ × Ptr)) :
    heldOn ((g, p) :: held) h = heldOn held h := by
  simp [heldOn, hne]

theorem heldOn_perm {held held' : List (ℕ × Ptr)} (hp : held.Perm held') (h : ℕ) :
    (heldOn held h).Perm (heldOn held' h) := (hp.filter _).map _

theorem mem_heldOn {held : List (ℕ × Ptr)} {h : ℕ} {p : Ptr} :
    p ∈ heldOn held h ↔ (h, p) ∈ held := by
  simp [heldOn]

theorem nodup_of_heldOn : ∀ {held : List (ℕ × Ptr)}, (∀ x ∈ held, (heldOn held x.1).Nodup) →
    held.Nodup
  | [], _ => List.nodup_nil
  | (h, p) :: held, hn => by
      have hself := hn (h, p) List.mem_cons_self
      rw [heldOn_cons_self, List.nodup_cons, mem_heldOn] at hself
      refine List.nodup_cons.mpr ⟨hself.1, nodup_of_heldOn ?_⟩
      rintro ⟨g, q⟩ hx
      have hg := hn (g, q) (List.mem_cons_of_mem _ hx)
      by_cases hgh : h = g
      · exact hgh ▸ hself.2
      · rwa [heldOn_cons_ne hgh] at hg

/-- `sas` are the skiparrays `base`, which had the iterators `its`, with the
iterators `held` in addition. -/
structure Pool (base sas : List (SkipArray K V)) (its : ℕ → List Ptr) (held : List (ℕ × Ptr)) :
    Prop where
  length : sas.length = base.length
  inside : ∀ x ∈ held, x.1 < base.length
  each : ∀ {h b s}, base[h]? = some b → sas[h]? = some s → Holding b s (its h) (heldOn held h)

/-- The memory block of an iterator that is held. -/
def blockOf (sas : List (SkipArray K V)) (x : ℕ × Ptr) : ℕ :=
  ((sas[x.1]?.bind fun sa => sa.iter? x.2).map Iter.block).getD 0

theorem blockOf_set_of_block {sas : List (SkipArray K V)} {h : ℕ} {s s' : SkipArray K V}
    {x : ℕ × Ptr} (hs : sas[h]? = some s)
    (hblock : h = x.1 → (s'.iter? x.2).map Iter.block = (s.iter? x.2).map Iter.block) :
    blockOf (sas.set h s') x = blockOf sas x := by
  unfold blockOf
  by_cases hx : h = x.1
  · have hlt := (List.getElem?_eq_some_iff.mp hs).1
    rw [← hx, List.getElem?_set_self hlt, hs, Option.bind_some, Option.bind_some]
    exact congrArg (fun o => o.getD 0) (hblock hx)
  · rw [List.getElem?_set_ne hx]

theorem blockOf_set {sas : List (SkipArray K V)} {h : ℕ} {s s' : SkipArray K V} {x : ℕ × Ptr}
    (hs : sas[h]? = some s)
    (hpay : h = x.1 → (s'.iter? x.2).map Iter.payload = (s.iter? x.2).map Iter.payload) :
    blockOf (sas.set h s') x = blockOf sas x := by
  apply blockOf_set_of_block hs
  intro hx
  have hblock := congrArg (Option.map Iter.block) (hpay hx)
  rwa [Option.map_map, Option.map_map] at hblock

/-- Moving an iterator leaves the memory blocks of all of them alone. -/
theorem blockOf_moves {sas : List (SkipArray K V)} {h : ℕ} {s s' : SkipArray K V} {p : Ptr}
    (hs : sas[h]? = some s) (hm : s.Moves p s') (x : ℕ × Ptr) :
    blockOf (sas.set h s') x = blockOf sas x := by
  apply blockOf_set_of_block hs
  intro _
  by_cases hx : x.2 = p
  · obtain ⟨it, m, hit, -, -, hblock, rfl⟩ := hm
    rw [hx, SkipArray.iter?_setIter hit, if_pos rfl, hit, Option.map_some, Option.map_some, hblock]
  · rw [hm.iter?_ne hx]

namespace Pool

variable {base sas : List (SkipArray K V)} {its : ℕ → List Ptr} {held held' : List (ℕ × Ptr)}
  {h : ℕ} {b s s' : SkipArray K V} {p : Ptr}

theorem refl (hcur : ∀ {h : ℕ} {b : SkipArray K V}, base[h]? = some b → b.Cursors (its h)) : Pool base base its [] := by
  refine ⟨rfl, by simp, ?_⟩
  intro h b s hb hs
  obtain rfl : b = s := Option.some.inj (hb.symm.trans hs)
  exact .refl (hcur hb)

theorem perm (hpool : Pool base sas its held) (hp : held.Perm held') : Pool base sas its held' := by
  refine ⟨hpool.length, ?_, ?_⟩
  · intro x hx
    exact hpool.inside x (hp.mem_iff.mpr hx)
  · intro h b s hb hs
    exact (hpool.each hb hs).perm (heldOn_perm hp h)

/-- A skiparray of the list, with what it was before. -/
theorem get (hpool : Pool base sas its held) (hs : sas[h]? = some s) :
    ∃ b, base[h]? = some b ∧ Holding b s (its h) (heldOn held h) := by
  have hlt : h < base.length := by
    rw [← hpool.length]
    exact (List.getElem?_eq_some_iff.mp hs).1
  exact ⟨_, List.getElem?_eq_getElem hlt, hpool.each (List.getElem?_eq_getElem hlt) hs⟩

theorem get_held (hpool : Pool base sas its held) (hx : (h, p) ∈ held) : ∃ s, sas[h]? = some s := by
  have hlt : h < sas.length := by
    rw [hpool.length]
    exact hpool.inside _ hx
  exact ⟨_, List.getElem?_eq_getElem hlt⟩

/-- Exchanging one skiparray. -/
theorem set (hpool : Pool base sas its held) (hb : base[h]? = some b)
    (hold : Holding b s' (its h) (heldOn held' h))
    (hother : ∀ g, g ≠ h → heldOn held' g = heldOn held g) (hin : ∀ x ∈ held', x.1 < base.length) :
    Pool base (sas.set h s') its held' := by
  refine ⟨by rw [List.length_set, hpool.length], hin, ?_⟩
  intro g b' t hb' ht
  by_cases hg : h = g
  · subst hg
    have hlt : h < sas.length := by
      rw [hpool.length]
      exact (List.getElem?_eq_some_iff.mp hb).1
    rw [List.getElem?_set_self hlt, Option.some.injEq] at ht
    obtain rfl : b = b' := Option.some.inj (hb.symm.trans hb')
    exact ht ▸ hold
  · rw [List.getElem?_set_ne hg] at ht
    rw [hother g (Ne.symm hg)]
    exact hpool.each hb' ht

theorem moves (hpool : Pool base sas its held) (hs : sas[h]? = some s) (hx : (h, p) ∈ held)
    (hm : s.Moves p s') : Pool base (sas.set h s') its held := by
  obtain ⟨b, hb, hold⟩ := hpool.get hs
  exact hpool.set hb (hold.moves (mem_heldOn.mpr hx) hm) (fun _ _ => rfl) hpool.inside

theorem new (hpool : Pool base sas its held) (hs : sas[h]? = some s) (n : Option Ptr) (block : ℕ) :
    Pool base (sas.set h (s.withIter n block)) its ((h, s.iters.length) :: held) := by
  obtain ⟨b, hb, hold⟩ := hpool.get hs
  refine hpool.set hb ?_ (fun g hg => heldOn_cons_ne (Ne.symm hg) ..) ?_
  · rw [heldOn_cons_self]
    exact hold.new n block
  · intro x hx
    rcases List.mem_cons.mp hx with rfl | hx
    · exact (List.getElem?_eq_some_iff.mp hb).1
    · exact hpool.inside x hx

theorem free (hpool : Pool base sas its ((h, p) :: held)) (c : Ctx K V U) :
    ∃ s s', sas[h]? = some s ∧
      skiparrayIterFree s c (some p) = .ok (s', c.release (blockOf sas (h, p))) ∧
      Pool base (sas.set h s') its held ∧
      ∀ q ≠ p, (s'.iter? q).map Iter.payload = (s.iter? q).map Iter.payload := by
  obtain ⟨s, hs⟩ := hpool.get_held List.mem_cons_self
  obtain ⟨b, hb, hold⟩ := hpool.get hs
  rw [heldOn_cons_self] at hold
  obtain ⟨s', it, hit, hfree, hold', hpay⟩ := hold.free (.refl _) c
  refine ⟨s, s', hs, ?_, hpool.set hb hold' (fun g hg => (heldOn_cons_ne (Ne.symm hg) ..).symm)
    fun x hx => hpool.inside x (List.mem_cons_of_mem _ hx), hpay⟩
  rw [hfree, blockOf, hs, Option.bind_some, hit]
  rfl

/-- Each iterator is held once. -/
theorem nodup (hpool : Pool base sas its held) : held.Nodup := by
  apply nodup_of_heldOn
  rintro ⟨h, p⟩ hx
  obtain ⟨s, hs⟩ := hpool.get_held hx
  obtain ⟨b, -, hold⟩ := hpool.get hs
  exact hold.nodup

end Pool

/-! ## Giving the iterators back -/

/-- The iterators in the entries of a fold. -/
def holds (iters : List (IterState K V)) : List (ℕ × Ptr) := iters.filterMap IterState.iter

/-- The memory blocks of the iterators in the entries of a fold. -/
def heldBlocks (sas : List (SkipArray K V)) (iters : List (IterState K V)) : Multiset ℕ :=
  ((holds iters).map (blockOf sas) : List ℕ)

/-- Giving back one iterator does not concern the blocks of the others. -/
theorem blockOf_free {base sas : List (SkipArray K V)} {its : ℕ → List Ptr}
    {held : List (ℕ × Ptr)} {h : ℕ} {p : Ptr} {s s' : SkipArray K V}
    (hpool : Pool base sas its ((h, p) :: held)) (hs : sas[h]? = some s)
    (hpay : ∀ q ≠ p, (s'.iter? q).map Iter.payload = (s.iter? q).map Iter.payload) :
    held.map (blockOf (sas.set h s')) = held.map (blockOf sas) := by
  apply List.map_congr_left
  intro x hx
  apply blockOf_set hs
  intro hh
  apply hpay
  rintro rfl
  exact (List.nodup_cons.mp hpool.nodup).1 (hh ▸ hx)

/-- `skiparray_iter_free` on every iterator that a fold still has. -/
theorem freeFoldIters_spec {base : List (SkipArray K V)} {its : ℕ → List Ptr} :
    ∀ (iters : List (IterState K V)) {sas : List (SkipArray K V)},
      Pool base sas its (holds iters) → ∀ c : Ctx K V U,
      ∃ sas' c', freeFoldIters iters sas c = .ok (sas', c') ∧ Pool base sas' its [] ∧
        c'.freed = c.freed ∧ c'.udata = c.udata ∧ ∀ cb c₀ live,
          Ledger cb c₀ c (((holds iters).map (blockOf sas) : List ℕ) + live) → Ledger cb c₀ c' live
  | [], sas, hpool, c => ⟨sas, c, rfl, hpool, rfl, rfl,
      fun cb c₀ live hl => by simpa [holds] using hl⟩
  | is :: iters, sas, hpool, c => by
      cases hiter : is.iter with
      | none =>
          have hsame : holds (is :: iters) = holds iters := by simp [holds, hiter]
          rw [hsame] at hpool ⊢
          rw [freeFoldIters, hiter]
          exact freeFoldIters_spec iters hpool c
      | some x =>
          obtain ⟨h, p⟩ := x
          have hcons : holds (is :: iters) = (h, p) :: holds iters := by simp [holds, hiter]
          rw [hcons] at hpool ⊢
          obtain ⟨s, s', hs, hfree, hpool', hpay⟩ := hpool.free c
          obtain ⟨sas', c', hrest, hnone, hfreed, hudata, hled⟩ :=
            freeFoldIters_spec iters hpool' (c.release (blockOf sas (h, p)))
          refine ⟨sas', c', ?_, hnone, hfreed, hudata, ?_⟩
          · rw [freeFoldIters, hiter]
            simp only [slot_of_getElem? hs, ok_bind, hfree]
            exact hrest
          · intro cb c₀ live hl
            apply hled cb c₀ live
            rw [blockOf_free hpool hs hpay]
            rw [List.map_cons, ← Multiset.cons_coe, Multiset.cons_add] at hl
            exact hl.release

/-! ## Taking the iterators -/

/-- Where a fold of the bindings `l` starts to read. -/
def FoldType.start (type : FoldType) (l : List (K × V)) : ℕ :=
  match type with
  | .left => 0
  | .right => l.length - 1

section Open

variable [Inhabited K] [Inhabited V] {base sas : List (SkipArray K V)} {its : ℕ → List Ptr}
  {bs : ℕ → List (Block K V)} {type : FoldType}

/-- `is` is the entry that a fold makes for input `h`. -/
structure Opened (type : FoldType) (bs : ℕ → List (Block K V)) (sas : List (SkipArray K V))
    (h : ℕ) (is : IterState K V) : Prop where
  state : is.state = .none
  pair : is.pair = default
  empty : is.iter = none → bindings (bs h) = []
  iter : ∀ {g p}, is.iter = some (g, p) → g = h ∧ bindings (bs h) ≠ [] ∧
    ∃ s, sas[h]? = some s ∧ s.At (bs h) p (type.start (bindings (bs h)))

theorem Opened.of_set {g h : ℕ} {is : IterState K V} {s s' : SkipArray K V}
    (ho : Opened type bs sas g is) (hs : sas[h]? = some s)
    (hpay : ∀ p, is.iter = some (h, p) →
      (s'.iter? p).map Iter.payload = (s.iter? p).map Iter.payload) :
    Opened type bs (sas.set h s') g is := by
  refine ⟨ho.state, ho.pair, ho.empty, ?_⟩
  intro g' p hiter
  obtain ⟨rfl, hne, t, ht, hat⟩ := ho.iter hiter
  refine ⟨rfl, hne, ?_⟩
  by_cases hg : h = g'
  · subst hg
    obtain rfl : s = t := Option.some.inj (hs.symm.trans ht)
    exact ⟨s', List.getElem?_set_self (List.getElem?_eq_some_iff.mp hs).1,
      hat.congr (hpay p hiter)⟩
  · exact ⟨t, by rw [List.getElem?_set_ne hg]; exact ht, hat⟩

theorem set_same {α : Type} {xs : List α} {i : ℕ} {x : α} (h : xs[i]? = some x) :
    xs.set i x = xs := by
  obtain ⟨hlt, rfl⟩ := List.getElem?_eq_some_iff.mp h
  exact List.set_getElem_self hlt

omit [Inhabited K] in
/-- The new iterator of a fold, moved to where the fold starts. -/
theorem startIter_spec {cmp : K → K → ℤ} {s : SkipArray K V} {bs : List (Block K V)}
    (type : FoldType) (h : s.Wf cmp bs) (hne : bindings bs ≠ []) (block : ℕ) :
    ∃ s', (match type with
        | .right => skiparrayIterSeekEndpoint (s.withIter (bs.map Block.ptr).head? block)
            s.iters.length .last
        | .left => pure (s.withIter (bs.map Block.ptr).head? block)) = .ok s' ∧
      (s.withIter (bs.map Block.ptr).head? block).Moves s.iters.length s' ∧
      s'.At bs s.iters.length (type.start (bindings bs)) := by
  have hat := SkipArray.At.withIter h hne block
  obtain ⟨it, hit⟩ := hat.isSome
  cases type with
  | left => exact ⟨_, rfl, .refl hit, hat⟩
  | right => exact skiparrayIterSeekEndpoint_spec ((IterOnly.withIter ..).wf h) hne hit .last

theorem forall₂_imp_mem {α β : Type} {R S : α → β → Prop} {xs : List α} {ys : List β}
    (h : List.Forall₂ R xs ys) (hRS : ∀ x y, y ∈ ys → R x y → S x y) : List.Forall₂ S xs ys := by
  induction h with
  | nil => exact .nil
  | cons hxy hrest ih =>
      refine .cons (hRS _ _ List.mem_cons_self hxy) (ih ?_)
      intro x y hy
      exact hRS x y (List.mem_cons_of_mem _ hy)

/-- What the loop of `skiparray_fold_multi_init` has done after the inputs `done`. -/
structure Opening (type : FoldType) (bs : ℕ → List (Block K V)) (its : ℕ → List Ptr)
    (base sas : List (SkipArray K V)) (done : List ℕ) (iters : List (IterState K V)) (live : ℕ) :
    Prop where
  pool : Pool base sas its (holds iters)
  entries : List.Forall₂ (Opened type bs sas) done iters
  live_eq : live = (holds iters).length

omit [Inhabited K] [Inhabited V] in
theorem holds_concat (iters : List (IterState K V)) (is : IterState K V) :
    holds (iters ++ [is]) = holds iters ++ is.iter.toList := by
  cases hi : is.iter <;> simp [holds, hi]

namespace Opening

variable {done : List ℕ} {iters : List (IterState K V)} {live h : ℕ}

/-- An empty input gets no iterator. -/
theorem skip (ho : Opening type bs its base sas done iters live) (hnil : bindings (bs h) = []) :
    Opening type bs its base sas (done ++ [h]) (iters ++ [⟨.none, default, none⟩]) live := by
  have hholds : holds (iters ++ [⟨.none, default, none⟩]) = holds iters := by
    rw [holds_concat]
    exact List.append_nil _
  refine ⟨by rw [hholds]; exact ho.pool, ?_, by rw [hholds]; exact ho.live_eq⟩
  refine List.rel_append ho.entries (.cons ⟨rfl, rfl, fun _ => hnil, ?_⟩ .nil)
  intro g p hiter
  cases hiter

/-- The others get one. -/
theorem take (ho : Opening type bs its base sas done iters live) {s s' : SkipArray K V} {block : ℕ}
    (hs : sas[h]? = some s) (hne : bindings (bs h) ≠ [])
    (hm : (s.withIter ((bs h).map Block.ptr).head? block).Moves s.iters.length s')
    (hat : s'.At (bs h) s.iters.length (type.start (bindings (bs h)))) :
    Opening type bs its base (sas.set h s') (done ++ [h])
        (iters ++ [⟨.none, default, some (h, s.iters.length)⟩]) (live + 1) ∧
      (holds (iters ++ [⟨.none, default, some (h, s.iters.length)⟩])).map
          (blockOf (sas.set h s')) = (holds iters).map (blockOf sas) ++ [block] := by
  have hlt := (List.getElem?_eq_some_iff.mp hs).1
  have hfresh : (h, s.iters.length) ∉ holds iters := by
    intro hmem
    obtain ⟨b, -, hold⟩ := ho.pool.get hs
    obtain ⟨it, hit⟩ := hold.isSome (mem_heldOn.mpr hmem)
    exact lt_irrefl _ (SkipArray.iter_lt hit)
  have hpay : ∀ p, p ≠ s.iters.length →
      (s'.iter? p).map Iter.payload = (s.iter? p).map Iter.payload := by
    intro p hp
    rw [hm.iter?_ne hp, SkipArray.payload_withIter hp]
  have hholds : holds (iters ++ [⟨.none, default, some (h, s.iters.length)⟩]) =
      holds iters ++ [(h, s.iters.length)] := holds_concat ..
  have hpool := ho.pool.new hs ((bs h).map Block.ptr).head? block
  have hmoved := hpool.moves (List.getElem?_set_self hlt) List.mem_cons_self hm
  rw [List.set_set] at hmoved
  refine ⟨⟨?_, ?_, ?_⟩, ?_⟩
  · rw [hholds]
    exact hmoved.perm (List.perm_append_singleton _ _).symm
  · refine List.rel_append ?_ (.cons ⟨rfl, rfl, ?_, ?_⟩ .nil)
    · apply forall₂_imp_mem ho.entries
      intro g is his hopened
      apply hopened.of_set hs
      intro p hiter
      apply hpay
      rintro rfl
      exact hfresh (List.mem_filterMap.mpr ⟨is, his, hiter⟩)
    · intro hno
      cases hno
    · intro g p hiter
      cases hiter
      exact ⟨rfl, hne, s', List.getElem?_set_self hlt, hat⟩
  · rw [hholds, List.length_append, ho.live_eq]
    rfl
  · rw [hholds, List.map_append]
    congr 1
    · apply List.map_congr_left
      rintro ⟨g, p⟩ hx
      apply blockOf_set hs
      rintro rfl
      apply hpay
      rintro rfl
      exact hfresh hx
    · obtain ⟨it, m, hit, -, -, hblock, rfl⟩ := hm
      rw [SkipArray.iter?_withIter, if_pos rfl, Option.some.injEq] at hit
      rw [List.map_singleton, blockOf, List.getElem?_set_self hlt, Option.bind_some,
        SkipArray.iter?_setIter (by rw [SkipArray.iter?_withIter, if_pos rfl]), if_pos rfl,
        Option.map_some, hblock, ← hit]
      rfl

end Opening

/-- The loop of `skiparray_fold_multi_init` that creates the iterators. -/
theorem initIters_spec (cb : Callbacks K U) (hwf : ∀ {h : ℕ} {b : SkipArray K V},
      base[h]? = some b → ∃ cmp, b.Wf cmp (bs h)) :
    ∀ (inputs : List ℕ) {sas : List (SkipArray K V)} {done : List ℕ}
      {iters : List (IterState K V)} {live : ℕ}, (∀ h ∈ inputs, h < base.length) →
      Opening type bs its base sas done iters live → ∀ c : Ctx K V U,
      ∃ ok iters' live' sas' c', initIters cb type inputs sas c iters live =
          .ok (ok, iters', live', sas', c') ∧
        Pool base sas' its (holds iters') ∧ c'.freed = c.freed ∧ c'.udata = c.udata ∧
        (∀ c₀ rest, Ledger cb c₀ c (((holds iters).map (blockOf sas) : List ℕ) + rest) →
          Ledger cb c₀ c' (((holds iters').map (blockOf sas') : List ℕ) + rest)) ∧
        (ok = false → ¬ cb.AllGranted) ∧
        (ok = true → Opening type bs its base sas' (done ++ inputs) iters' live')
  | [], sas, done, iters, live, _, ho, c =>
      ⟨true, iters, live, sas, c, rfl, ho.pool, rfl, rfl, fun _ _ hl => hl, by simp,
        fun _ => by rw [List.append_nil]; exact ho⟩
  | h :: inputs, sas, done, iters, live, hin, ho, c => by
      have hlt : h < sas.length := by
        rw [ho.pool.length]
        exact hin h List.mem_cons_self
      have hs : sas[h]? = some sas[h] := List.getElem?_eq_getElem hlt
      generalize sas[h] = s at hs
      obtain ⟨b, hb, hold⟩ := ho.pool.get hs
      obtain ⟨cmp, hbwf⟩ := hwf hb
      have hswf := hold.wf hbwf
      obtain ⟨ps, -, hcur⟩ := hold.cursors
      obtain ⟨res, it, s₁, c₁, hnew, hout⟩ := skiparrayIterNew_spec cb hswf hcur c
      have hrest : ∀ g ∈ inputs, g < base.length := fun g hg => hin g (List.mem_cons_of_mem _ hg)
      rw [initIters, slot_of_getElem? hs, ok_bind, hnew, ok_bind]
      have hkeep : ∀ {o c₁}, c.alloc cb = (o, c₁) → c₁.freed = c.freed ∧ c₁.udata = c.udata :=
        fun ha => Ctx.alloc_keeps ha
      cases hout with
      | empty hnil =>
          have hsame : holds (iters ++ [⟨.none, default, none⟩]) = holds iters := by
            rw [holds_concat]
            exact List.append_nil _
          have hnext := initIters_spec cb hwf inputs hrest (ho.skip hnil) c
          rw [hsame, ← List.append_cons] at hnext
          simp only [set_same hs]
          exact hnext
      | memory hne ha =>
          simp only [set_same hs]
          exact ⟨false, iters, live, sas, c₁, rfl, ho.pool, (hkeep ha).1, (hkeep ha).2,
            fun _ _ hl => hl.alloc_none ha, fun _ => Ctx.alloc_refused ha, by simp⟩
      | @ok _ block hne ha =>
          obtain ⟨s₂, hstart, hm, hat⟩ := startIter_spec type hswf hne block
          obtain ⟨ho', hblocks⟩ := ho.take hs hne hm hat
          obtain ⟨ok, iters', live', sas', c', hloop, hpool, hfreed, hudata, hled, hno, hyes⟩ :=
            initIters_spec cb hwf inputs hrest ho' c₁
          refine ⟨ok, iters', live', sas', c', bind_eq_ok.mpr ⟨s₂, hstart, hloop⟩, hpool,
            hfreed.trans (hkeep ha).1, hudata.trans (hkeep ha).2, ?_, hno, ?_⟩
          · intro c₀ rest hl
            apply hled
            have hadd := hl.alloc_some ha
            rw [hblocks, Multiset.coe_eq_coe.mpr (List.perm_append_singleton block _),
              ← Multiset.cons_coe, Multiset.cons_add]
            exact hadd
          · rw [List.append_cons]
            exact hyes

end Open

end Skiparray
