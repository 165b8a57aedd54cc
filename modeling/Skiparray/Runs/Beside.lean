import Skiparray.Runs.FoldMoves

/-!
# A fold among other iterators

What a fold does to skiparrays that others have iterators on, too: it moves its
own iterators and gives them back, wherever they stand in the lists, and leaves
those of the others at their bindings. What it delivers is what its inputs had
when it was started.
-/

namespace Skiparray

open SkipLinks Fallible

variable {K V U W : Type}

/-! ## Iterators apart -/

/-- Iterator `x.2` of skiparray `x.1` is live. -/
def Live (sas : List (SkipArray K V)) (x : ℕ × Ptr) : Prop :=
  ∃ s it, sas[x.1]? = some s ∧ s.iter? x.2 = some it

/-- From `sas` to `sas'` only the iterators `mine` have been touched. -/
structure Beside (mine : List (ℕ × Ptr)) (sas sas' : List (SkipArray K V)) : Prop where
  length : sas'.length = sas.length
  each : ∀ {h : ℕ} {s s' : SkipArray K V}, sas[h]? = some s → sas'[h]? = some s' →
    IterOnly s s' ∧ ∀ q, (h, q) ∉ mine →
      (s'.iter? q).map Iter.payload = (s.iter? q).map Iter.payload

section Apart

variable {p : Ptr} {h : ℕ} {s s' : SkipArray K V} {mine mine' : List (ℕ × Ptr)}
  {sas sas₁ sas' : List (SkipArray K V)} {x : ℕ × Ptr}

theorem Beside.refl (mine : List (ℕ × Ptr)) (sas : List (SkipArray K V)) : Beside mine sas sas := by
  refine ⟨rfl, ?_⟩
  intro h s s' hs hs'
  obtain rfl : s = s' := Option.some.inj (hs.symm.trans hs')
  exact ⟨.refl s, fun _ _ => rfl⟩

/-- A skiparray afterwards, with what it was before. -/
theorem Beside.before (hb : Beside mine sas sas') (hs' : sas'[h]? = some s') :
    ∃ s, sas[h]? = some s ∧ IterOnly s s' ∧ ∀ q, (h, q) ∉ mine →
      (s'.iter? q).map Iter.payload = (s.iter? q).map Iter.payload := by
  have hlt : h < sas.length := by
    rw [← hb.length]
    exact (List.getElem?_eq_some_iff.mp hs').1
  exact ⟨_, List.getElem?_eq_getElem hlt, hb.each (List.getElem?_eq_getElem hlt) hs'⟩

/-- A skiparray before, with what has become of it. -/
theorem Beside.after (hb : Beside mine sas sas') (hs : sas[h]? = some s) :
    ∃ s', sas'[h]? = some s' ∧ IterOnly s s' ∧ ∀ q, (h, q) ∉ mine →
      (s'.iter? q).map Iter.payload = (s.iter? q).map Iter.payload := by
  have hlt : h < sas'.length := by
    rw [hb.length]
    exact (List.getElem?_eq_some_iff.mp hs).1
  exact ⟨_, List.getElem?_eq_getElem hlt, hb.each hs (List.getElem?_eq_getElem hlt)⟩

theorem Beside.trans (h₁ : Beside mine sas sas₁) (h₂ : Beside mine sas₁ sas') :
    Beside mine sas sas' := by
  refine ⟨h₂.length.trans h₁.length, ?_⟩
  intro h s s' hs hs'
  obtain ⟨s₁, hs₁, ho₁, hpay₁⟩ := h₁.after hs
  obtain ⟨ho₂, hpay₂⟩ := h₂.each hs₁ hs'
  exact ⟨ho₁.trans ho₂, fun q hq => (hpay₂ q hq).trans (hpay₁ q hq)⟩

theorem Beside.mono (hb : Beside mine sas sas') (hsub : ∀ x ∈ mine, x ∈ mine') :
    Beside mine' sas sas' := by
  refine ⟨hb.length, ?_⟩
  intro h s s' hs hs'
  obtain ⟨ho, hpay⟩ := hb.each hs hs'
  exact ⟨ho, fun q hq => hpay q (mt (hsub _) hq)⟩

theorem Beside.set (hs : sas[h]? = some s) (ho : IterOnly s s') (hmem : (h, p) ∈ mine)
    (hpay : ∀ q, q ≠ p → (s'.iter? q).map Iter.payload = (s.iter? q).map Iter.payload) :
    Beside mine sas (sas.set h s') := by
  refine ⟨List.length_set, ?_⟩
  intro g t t' ht hset
  by_cases hg : h = g
  · subst hg
    rw [List.getElem?_set_self (List.getElem?_eq_some_iff.mp hs).1, Option.some.injEq] at hset
    obtain rfl : s = t := Option.some.inj (hs.symm.trans ht)
    subst hset
    refine ⟨ho, ?_⟩
    intro q hq
    apply hpay
    rintro rfl
    exact hq hmem
  · rw [List.getElem?_set_ne hg] at hset
    obtain rfl : t = t' := Option.some.inj (ht.symm.trans hset)
    exact ⟨.refl t, fun _ _ => rfl⟩

/-- The others stay live, or not. -/
theorem Beside.live_iff (hb : Beside mine sas sas') (hx : x ∉ mine) : Live sas' x ↔ Live sas x := by
  constructor
  · rintro ⟨s', it, hs', hit⟩
    obtain ⟨s, hs, -, hpay⟩ := hb.before hs'
    have := hpay x.2 hx
    rw [hit, Option.map_some, eq_comm, Option.map_eq_some_iff] at this
    obtain ⟨m, hm, -⟩ := this
    exact ⟨s, m, hs, hm⟩
  · rintro ⟨s, it, hs, hit⟩
    obtain ⟨s', hs', -, hpay⟩ := hb.after hs
    have := hpay x.2 hx
    rw [hit, Option.map_some, Option.map_eq_some_iff] at this
    obtain ⟨m, hm, -⟩ := this
    exact ⟨s', m, hs', hm⟩

end Apart

section Release

variable [Inhabited K] [Inhabited V] {cb : Callbacks K U} {sas : List (SkipArray K V)} {h : ℕ}
  {p : Ptr} {s : SkipArray K V}

/-- `skiparray_iter_free` of one iterator, wherever it stands. -/
theorem iterFree_beside (hmade : Made cb sas) (hlive : Live sas (h, p)) (c : Ctx K V U) :
    ∃ s s' c', sas[h]? = some s ∧ skiparrayIterFree s c (some p) = .ok (s', c') ∧
      Beside [(h, p)] sas (sas.set h s') ∧ ¬ Live (sas.set h s') (h, p) := by
  obtain ⟨s, it, hs, hit⟩ := hlive
  obtain ⟨-, bs, its, hco⟩ := hmade.coherent hs
  obtain ⟨xs, ys, rfl⟩ := List.append_of_mem (hco.cursors.mem hit)
  obtain ⟨s', hfree, ho, -, -, hgone, hpay⟩ := skiparrayIterFree_spec hco.cursors hit c
  refine ⟨s, s', _, hs, hfree, .set hs ho List.mem_cons_self hpay, ?_⟩
  rintro ⟨t, m, ht, hm⟩
  rw [List.getElem?_set_self (List.getElem?_eq_some_iff.mp hs).1, Option.some.injEq] at ht
  subst ht
  rw [hgone] at hm
  cases hm

/-- The iterators of a fold are given back. -/
theorem freeFoldIters_beside : ∀ (iters : List (IterState K V)) {sas : List (SkipArray K V)},
    Made cb sas → (holds iters).Nodup → (∀ x ∈ holds iters, Live sas x) → ∀ c : Ctx K V U,
    ∃ sas' c', freeFoldIters iters sas c = .ok (sas', c') ∧ Beside (holds iters) sas sas' ∧
      ∀ x ∈ holds iters, ¬ Live sas' x
  | [], sas, _, _, _, c => ⟨sas, c, rfl, .refl .., by simp [holds]⟩
  | is :: iters, sas, hmade, hn, hlive, c => by
      rcases hiter : is.iter with _ | ⟨g, p⟩
      · have hsame : holds (is :: iters) = holds iters := by simp [holds, hiter]
        rw [hsame] at hn hlive ⊢
        rw [freeFoldIters, hiter]
        exact freeFoldIters_beside iters hmade hn hlive c
      · have hcons : holds (is :: iters) = (g, p) :: holds iters := by simp [holds, hiter]
        rw [hcons] at hn hlive ⊢
        rw [List.nodup_cons] at hn
        obtain ⟨s, s', c₁, hs, hfree, hb, hgone⟩ := iterFree_beside hmade (hlive _ List.mem_cons_self) c
        have hother : ∀ x ∈ holds iters, x ∉ [(g, p)] := by
          rintro x hx hxg
          rw [List.mem_singleton] at hxg
          exact hn.1 (hxg ▸ hx)
        obtain ⟨sas', c', hrest, hb', hgone'⟩ := freeFoldIters_beside iters
          (hmade.set hs (fun f hr => hr.iterFree hfree) g) hn.2
          (fun x hx => (hb.live_iff (hother x hx)).mpr (hlive x (List.mem_cons_of_mem _ hx))) c₁
        refine ⟨sas', c', ?_, ?_, ?_⟩
        · rw [freeFoldIters, hiter]
          exact bind_eq_ok.mpr ⟨s, slot_of_getElem? hs, bind_eq_ok.mpr ⟨_, hfree, hrest⟩⟩
        · exact (hb.mono (by simp)).trans (hb'.mono fun x hx => List.mem_cons_of_mem _ hx)
        · intro x hx
          rcases List.mem_cons.mp hx with rfl | hx
          · rwa [hb'.live_iff hn.1]
          · exact hgone' x hx

end Release

/-! ## A fold in progress -/

/-- A fold as its client sees it: a merge of lanes. -/
structure FoldView (K V W : Type) where
  type : FoldType
  cmp : ℕ
  inputs : List ℕ
  fold : K → V → W → W
  merge : Option (List K → List V → W → ℕ × V × W)
  lanes : Lanes.State (K × V)

/-- What a delivery makes of the client's state. -/
def FoldView.deliver [Inhabited K] (v : FoldView K V W) (w : W) : Lanes.Delivery (K × V) → W
  | .single x => v.fold x.1 x.2 w
  | .merged xs =>
    match v.merge with
    | none => w
    | some merge =>
      let (choice, value, w) := merge (xs.map Prod.fst) (xs.map Prod.snd) w
      v.fold ((xs.map Prod.fst).getD choice default) value w

section View

variable [Inhabited V]

/-- The lane of input `h` has still to send `rest`, which its iterator is about to
read, if it has one. -/
structure Sends (cb : Callbacks K U) (type : FoldType) (useValues : Bool)
    (sas : List (SkipArray K V)) (h : ℕ) (iter : Option (ℕ × Ptr)) (rest : List (K × V)) : Prop where
  done : iter = none → rest = []
  live : ∀ {g p}, iter = some (g, p) → g = h ∧ ∃ s bs pos, sas[h]? = some s ∧
    s.Wf (cb.cmp s.cmp) bs ∧ s.useValues = useValues ∧ s.At bs p pos ∧
    pos < (bindings bs).length ∧ rest = type.remaining (bindings bs) pos

/-- What a fold is given when it starts. -/
structure FoldView.Sound (cb : Callbacks K U) (v : FoldView K V W) : Prop where
  nonempty : v.inputs ≠ []
  le : v.inputs.length ≤ 255
  lawful : LawfulCmp (cb.cmp v.cmp)
  merges : 2 ≤ v.inputs.length → v.merge.isSome = true
  chooses : ∀ merge, v.merge = some merge → ∀ ks vs w, ks ≠ [] → (merge ks vs w).1 < ks.length

omit [Inhabited V] in
theorem FoldView.Sound.withLanes {cb : Callbacks K U} {v : FoldView K V W} (h : v.Sound cb)
    (lanes : Lanes.State (K × V)) : ({ v with lanes } : FoldView K V W).Sound cb :=
  ⟨h.nonempty, h.le, h.lawful, h.merges, h.chooses⟩

/-- The fold state `fs` over `sas` is what its client sees as `v`. -/
structure InProgress (cb : Callbacks K U) (sas : List (SkipArray K V)) (fs : FoldState K V U W)
    (v : FoldView K V W) : Prop where
  sound : v.Sound cb
  count : fs.iterCount = v.inputs.length
  type_eq : fs.type = v.type
  cmp_eq : fs.cmp = v.cmp
  cbs_eq : fs.cbs = ⟨clientFold v.fold, v.merge.map clientMerge⟩
  queued : Queued (cb.cmp v.cmp) v.inputs.length fs.ids fs.iters v.lanes.queue
  lanes : v.lanes.rests.length = v.inputs.length
  live : fs.iterLive = (holds fs.iters).length
  distinct : (holds fs.iters).Nodup
  sends : ∀ {i h : ℕ} {is : IterState K V} {rest : List (K × V)}, v.inputs[i]? = some h →
    fs.iters[i]? = some is → v.lanes.rests[i]? = some rest →
    Sends cb v.type fs.useValues sas h is.iter rest
  values : fs.useValues = false → ∀ {i : ℕ} {is : IterState K V}, fs.iters[i]? = some is →
    is.pair.2 = default

variable {cb : Callbacks K U} {sas sas' : List (SkipArray K V)} {mine : List (ℕ × Ptr)} {i h : ℕ}
  {type : FoldType} {u : Bool} {iter : Option (ℕ × Ptr)} {rest : List (K × V)}
  {fs : FoldState K V U W} {v : FoldView K V W}

/-- Iterator `x` is in `sas'` where it was in `sas`. -/
def Unmoved (sas sas' : List (SkipArray K V)) (x : ℕ × Ptr) : Prop :=
  ∀ s, sas[x.1]? = some s → ∃ s', sas'[x.1]? = some s' ∧ IterOnly s s' ∧
    (s'.iter? x.2).map Iter.payload = (s.iter? x.2).map Iter.payload

omit [Inhabited V] in
theorem Beside.unmoved (hb : Beside mine sas sas') {x : ℕ × Ptr} (hx : x ∉ mine) :
    Unmoved sas sas' x := by
  intro s hs
  obtain ⟨s', hs', ho, hpay⟩ := hb.after hs
  exact ⟨s', hs', ho, hpay x.2 hx⟩

/-- A lane only notices what happens to its iterator. -/
theorem Sends.congr (hr : Sends cb type u sas h iter rest)
    (hkeep : ∀ x, iter = some x → Unmoved sas sas' x) : Sends cb type u sas' h iter rest := by
  refine ⟨hr.done, ?_⟩
  intro g p hiter
  obtain ⟨rfl, s, bs, pos, hs, hwf, hu, hat, hpos, hrest⟩ := hr.live hiter
  obtain ⟨s', hs', ho, hpay⟩ := hkeep _ hiter s hs
  refine ⟨rfl, s', bs, pos, hs', ?_, ?_, hat.congr hpay, hpos, hrest⟩
  · rw [ho.settings]
    exact ho.wf hwf
  · rw [ho.settings]
    exact hu

omit [Inhabited V] in
theorem FoldType.remaining_ne_nil {l : List (K × V)} {pos : ℕ} (hpos : pos < l.length) :
    type.remaining l pos ≠ [] := by
  cases type with
  | left => simpa [FoldType.remaining] using hpos
  | right =>
      have hne : l ≠ [] := List.ne_nil_of_length_pos (by omega)
      simpa [FoldType.remaining] using hne

theorem Sends.eq_nil_iff (hr : Sends cb type u sas h iter rest) : rest = [] ↔ iter = none := by
  refine ⟨?_, hr.done⟩
  rintro rfl
  rcases hiter : iter with _ | ⟨g, p⟩
  · rfl
  · obtain ⟨-, s, bs, pos, -, -, -, -, hpos, hrest⟩ := hr.live hiter
    exact absurd hrest.symm (FoldType.remaining_ne_nil hpos)

namespace InProgress

variable (hp : InProgress cb sas fs v)

include hp

/-- A fold only notices what happens to its iterators. -/
theorem congr (hkeep : ∀ x ∈ holds fs.iters, Unmoved sas sas' x) : InProgress cb sas' fs v := by
  refine { hp with sends := ?_ }
  intro i h is rest hh his hrest
  refine (hp.sends hh his hrest).congr ?_
  intro x hx
  exact hkeep x (mem_holds his hx)

/-- The entry and the lane of an input. -/
theorem entry (hh : v.inputs[i]? = some h) : ∃ is rest, fs.iters[i]? = some is ∧
    v.lanes.rests[i]? = some rest ∧ Sends cb v.type fs.useValues sas h is.iter rest := by
  have hi := (List.getElem?_eq_some_iff.mp hh).1
  have his := List.getElem?_eq_getElem (hp.queued.size.symm ▸ hi : i < fs.iters.length)
  have hrest := List.getElem?_eq_getElem (hp.lanes.symm ▸ hi : i < v.lanes.rests.length)
  exact ⟨_, _, his, hrest, hp.sends hh his hrest⟩

/-- The iterators of a fold are those of the lanes that have something to send. -/
theorem mem_holds_iff {x : ℕ × Ptr} : x ∈ holds fs.iters ↔ ∃ (i : ℕ) (is : IterState K V),
    v.inputs[i]? = some x.1 ∧ fs.iters[i]? = some is ∧ is.iter = some x := by
  constructor
  · intro hx
    obtain ⟨is, hmem, hiter⟩ := List.mem_filterMap.mp hx
    obtain ⟨i, his⟩ := List.getElem?_of_mem hmem
    have hlt : i < v.inputs.length := by
      rw [← hp.queued.size]
      exact (List.getElem?_eq_some_iff.mp his).1
    obtain ⟨is', rest, his', -, hsend⟩ := hp.entry (List.getElem?_eq_getElem hlt)
    obtain rfl : is = is' := Option.some.inj (his.symm.trans his')
    obtain ⟨heq, -⟩ := hsend.live (p := x.2) hiter
    exact ⟨i, is, by rw [List.getElem?_eq_getElem hlt, heq], his, hiter⟩
  · rintro ⟨i, is, -, his, hiter⟩
    exact mem_holds his hiter

theorem holds_live : ∀ x ∈ holds fs.iters, Live sas x := by
  intro x hx
  obtain ⟨i, is, hh, his, hiter⟩ := hp.mem_holds_iff.mp hx
  obtain ⟨is', rest, his', -, hsend⟩ := hp.entry hh
  obtain rfl : is = is' := Option.some.inj (his.symm.trans his')
  obtain ⟨-, s, bs, pos, hs, -, -, hat, -⟩ := hsend.live (p := x.2) hiter
  obtain ⟨it, hit⟩ := hat.isSome
  exact ⟨s, it, hs, hit⟩

theorem rests_nil_iff : fs.iterLive = 0 ↔ ∀ r ∈ v.lanes.rests, r = [] := by
  rw [hp.live, List.length_eq_zero_iff, List.eq_nil_iff_forall_not_mem]
  constructor
  · intro hnone r hr
    obtain ⟨i, hi⟩ := List.getElem?_of_mem hr
    have hlt : i < v.inputs.length := by
      rw [← hp.lanes]
      exact (List.getElem?_eq_some_iff.mp hi).1
    obtain ⟨is, rest, his, hrest, hsend⟩ := hp.entry (List.getElem?_eq_getElem hlt)
    obtain rfl : r = rest := Option.some.inj (hi.symm.trans hrest)
    rw [hsend.eq_nil_iff]
    by_contra hsome
    obtain ⟨x, hx⟩ := Option.ne_none_iff_exists'.mp hsome
    exact hnone x (mem_holds his hx)
  · intro hall x hx
    obtain ⟨i, is, hh, his, hiter⟩ := hp.mem_holds_iff.mp hx
    obtain ⟨is', rest, his', hrest, hsend⟩ := hp.entry hh
    obtain rfl : is = is' := Option.some.inj (his.symm.trans his')
    rw [hsend.eq_nil_iff.mp (hall _ (List.mem_of_getElem? hrest))] at hiter
    cases hiter

theorem done_iff : fs.iterLive = 0 ∧ fs.ids.available = 0 ↔ v.lanes.Done := by
  rw [hp.rests_nil_iff, hp.queued.available, List.length_eq_zero_iff, and_comm]
  rfl

theorem valid : v.lanes.Valid := by
  refine ⟨hp.queued.nodup, ?_⟩
  intro x hx
  rw [hp.lanes]
  exact hp.queued.lt x.1 (List.mem_map_of_mem hx)

theorem counters : fs.ids.available ≤ fs.iterCount ∧ fs.iterLive ≤ fs.iterCount := by
  have hbound := hp.queued.window.bound
  rw [List.length_map, ← hp.queued.available] at hbound
  rw [hp.count, hp.live, ← hp.queued.size]
  refine ⟨?_, List.length_filterMap_le ..⟩
  rw [hp.queued.size]
  exact le_trans (Nat.le_add_left ..) hbound

end InProgress

end View

/-! ## Reading on -/

section Steps

variable [Inhabited K] [Inhabited V] {cb : Callbacks K U} {sas sas' : List (SkipArray K V)}
  {fs fs' : FoldState K V U W} {v v' : FoldView K V W} {i : ℕ}

omit [Inhabited K] in
/-- What a fold is after a part of its work. -/
structure Proceeds (cb : Callbacks K U) (sas : List (SkipArray K V)) (fs : FoldState K V U W)
    (sas' : List (SkipArray K V)) (fs' : FoldState K V U W) (v' : FoldView K V W) : Prop where
  fold : InProgress cb sas' fs' v'
  beside : Beside (holds fs.iters) sas sas'
  sub : ∀ x ∈ holds fs'.iters, x ∈ holds fs.iters
  gone : ∀ x ∈ holds fs.iters, x ∉ holds fs'.iters → ¬ Live sas' x

omit [Inhabited K] in
theorem Proceeds.refl (h : InProgress cb sas fs v) : Proceeds cb sas fs sas fs v :=
  ⟨h, .refl .., fun _ hx => hx, fun _ hx hno => absurd hx hno⟩

omit [Inhabited K] in
theorem Proceeds.trans {sas₁ : List (SkipArray K V)} {fs₁ : FoldState K V U W} {v₁ : FoldView K V W}
    (h₁ : Proceeds cb sas fs sas₁ fs₁ v₁) (h₂ : Proceeds cb sas₁ fs₁ sas' fs' v') :
    Proceeds cb sas fs sas' fs' v' := by
  refine ⟨h₂.fold, h₁.beside.trans (h₂.beside.mono h₁.sub), fun x hx => h₁.sub x (h₂.sub x hx), ?_⟩
  intro x hx hno
  by_cases hx₁ : x ∈ holds fs₁.iters
  · exact h₂.gone x hx₁ hno
  · rw [h₂.beside.live_iff hx₁]
    exact h₁.gone x hx hx₁

omit [Inhabited K] in
/-- Entry `i` has been read: it waits, and its lane has `rest` left. -/
theorem InProgress.read (h : InProgress cb sas fs v) {g : ℕ} {p : Ptr} {is is' : IterState K V}
    {ids : Ids} {live : ℕ} {rest : List (K × V)} {queue : List (ℕ × (K × V))}
    (hih : v.inputs[i]? = some g) (his : fs.iters[i]? = some is) (hiter : is.iter = some (g, p))
    (hb : Beside [(g, p)] sas sas')
    (hq : Queued (cb.cmp v.cmp) v.inputs.length ids (fs.iters.set i is') queue)
    (hkeep : is'.iter = is.iter ∨ is'.iter = none)
    (hlive : live = (holds (fs.iters.set i is')).length)
    (hsend : Sends cb v.type fs.useValues sas' g is'.iter rest)
    (hvalue : fs.useValues = false → is'.pair.2 = default) :
    InProgress cb sas' { fs with ids, iterLive := live, iters := fs.iters.set i is' }
      { v with lanes := ⟨v.lanes.rests.set i rest, queue⟩ } := by
  have hilt := (List.getElem?_eq_some_iff.mp his).1
  refine { h with
    sound := h.sound.withLanes _
    queued := hq
    lanes := by rw [List.length_set, h.lanes]
    live := hlive
    distinct := ?_
    sends := ?_
    values := ?_ }
  · change (holds (fs.iters.set i is')).Nodup
    rcases hkeep with hsame | hnone
    · rw [holds_set_same his hsame]
      exact h.distinct
    · have hdistinct := h.distinct
      rw [(holds_set_none his hiter hnone).nodup_iff, List.nodup_cons] at hdistinct
      exact hdistinct.2
  · intro j k js r hk hjs hr
    change (fs.iters.set i is')[j]? = some js at hjs
    change (v.lanes.rests.set i rest)[j]? = some r at hr
    by_cases hij : i = j
    · subst hij
      rw [List.getElem?_set_self hilt, Option.some.injEq] at hjs
      have hlt : i < v.lanes.rests.length := by
        have := (List.getElem?_eq_some_iff.mp hr).1
        rwa [List.length_set] at this
      rw [List.getElem?_set_self hlt, Option.some.injEq] at hr
      obtain rfl : g = k := Option.some.inj (hih.symm.trans hk)
      rw [← hjs, ← hr]
      exact hsend
    · rw [List.getElem?_set_ne hij] at hjs hr
      refine (h.sends hk hjs hr).congr ?_
      intro x hx
      apply hb.unmoved
      rw [List.mem_singleton]
      rintro rfl
      exact hij (holds_inj h.distinct his hjs hiter hx)
  · intro hu j js hjs
    change (fs.iters.set i is')[j]? = some js at hjs
    by_cases hij : i = j
    · rw [← hij, List.getElem?_set_self hilt, Option.some.injEq] at hjs
      rw [← hjs]
      exact hvalue hu
    · rw [List.getElem?_set_ne hij] at hjs
      exact h.values hu hjs

/-- The body of `step_active_iterators` feeds its lane. -/
theorem stepIterator_beside (hmade : Made cb sas) (h : InProgress cb sas fs v)
    (hi : i < v.inputs.length) (c : Ctx K V U) :
    ∃ fs' sas' c', stepIterator cb i (fs, sas, c) = .ok (fs', sas', c') ∧
      Proceeds cb sas fs sas' fs' { v with lanes := Lanes.feed (onKeys (cb.cmp v.cmp)) i v.lanes } := by
  have hih := List.getElem?_eq_getElem hi
  generalize v.inputs[i] = g at hih
  obtain ⟨is, rest, his, hrest, hsend⟩ := h.entry hih
  have hilt := (List.getElem?_eq_some_iff.mp his).1
  simp only [stepIterator, slot_of_getElem? his, ok_bind]
  cases hiter : is.iter with
  | none =>
      have hsame : Lanes.feed (onKeys (cb.cmp v.cmp)) i v.lanes = v.lanes := by
        rcases Lanes.feed_cases (onKeys (cb.cmp v.cmp)) i v.lanes with ⟨heq, -⟩ | ⟨x, r, -, hr, -⟩
        · exact heq
        · rw [hrest, hsend.done hiter] at hr
          cases hr
      rw [hsame]
      exact ⟨fs, sas, c, rfl, .refl h⟩
  | some x =>
      obtain ⟨g', p⟩ := x
      by_cases hstate : is.state = .none
      · have hfresh : i ∉ v.lanes.queue.map Prod.fst := (h.queued.idle his).mp hstate
        obtain ⟨rfl, s, bs, pos, hs, hwf, huse, hat, hpos, hremain⟩ := hsend.live hiter
        obtain ⟨⟨key, value⟩, res, s', hx, hmove, hm, hres⟩ := advance_spec v.type hwf hat hpos
        have hne : bindings bs ≠ [] := List.ne_nil_of_length_pos (by omega)
        have hget : skiparrayIterGet s p = .ok (key, s.out value) := by
          rw [skiparrayIterGet_spec hwf hne hat, hx]
        have hdefault : fs.useValues = false → value = default := by
          intro hu
          exact hwf.value_default (huse.trans hu) _ (List.mem_of_getElem? hx)
        have hvalue : (s.out value).getD is.pair.2 = value := by
          unfold Settings.out
          cases hu : s.useValues with
          | true => rfl
          | false => rw [hdefault (huse ▸ hu)]; exact h.values (huse ▸ hu) his
        have hqueued := h.queued.set (b := { is with pair := (key, value) }) his rfl
          fun hmem => absurd hmem hfresh
        have hget₁ : (fs.iters.set i { is with pair := (key, value) })[i]? =
            some { is with pair := (key, value) } := List.getElem?_set_self hilt
        obtain ⟨ids, state, hins, hwaits, hq⟩ := insertPair_spec h.sound.lawful h.sound.le
          (show Queued _ _ ({ fs with iters := fs.iters.set i { is with pair := (key, value) } } :
            FoldState K V U W).ids _ _ from hqueued) hget₁ hfresh
        simp only [List.set_set, hiter] at hins hq
        rw [← h.cmp_eq] at hins
        have hget₂ : (fs.iters.set i ⟨state, (key, value), some (g', p)⟩)[i]? =
            some ⟨state, (key, value), some (g', p)⟩ := List.getElem?_set_self hilt
        have hfeed : ∀ rest', rest = (key, value) :: rest' →
            Lanes.feed (onKeys (cb.cmp v.cmp)) i v.lanes = ⟨v.lanes.rests.set i rest',
              Lanes.insert (onKeys (cb.cmp v.cmp)) (i, key, value) v.lanes.queue⟩ := by
          rintro rest' rfl
          rw [Lanes.feed, if_neg hfresh, hrest]
        have hglt := (List.getElem?_eq_some_iff.mp hs).1
        have hbeside : Beside [(g', p)] sas (sas.set g' s') :=
          .set hs hm.iterOnly List.mem_cons_self fun q hq => by rw [hm.iter?_ne hq]
        have hheld : (g', p) ∈ holds fs.iters := mem_holds his hiter
        have hmine : ∀ x ∈ [(g', p)], x ∈ holds fs.iters := by
          intro x hx
          rw [List.mem_singleton] at hx
          exact hx ▸ hheld
        simp only [if_neg (not_not.mpr hstate), slot_of_getElem? hs, hget, ok_bind, hvalue,
          putSlot_of_lt hilt, hins, slot_of_getElem? hget₂, check_of_pos hwaits]
        rw [← h.type_eq] at hmove
        rcases hres with ⟨rfl, hlast⟩ | ⟨rfl, pos', hat', hpos', hmore⟩
        · -- the last binding was read: the iterator is given back
          have hmade' : Made cb (sas.set g' s') :=
            (IterSteps.advance (c := c) .refl hs fs.type hmove).made hmade
          have hlive' : Live (sas.set g' s') (g', p) := by
            obtain ⟨it, m, hit, -, -, -, rfl⟩ := hm
            exact ⟨_, m, List.getElem?_set_self hglt, by rw [SkipArray.iter?_setIter hit, if_pos rfl]⟩
          obtain ⟨s₁, s'', c', hs₁, hfree, hb', hgone⟩ := iterFree_beside hmade' hlive' c
          rw [List.getElem?_set_self hglt, Option.some.injEq] at hs₁
          subst hs₁
          rw [List.set_set] at hb' hgone
          have hperm : (holds fs.iters).Perm
              ((g', p) :: holds (fs.iters.set i ⟨state, (key, value), none⟩)) :=
            holds_set_none his hiter rfl
          have hlive : fs.iterLive = (holds (fs.iters.set i ⟨state, (key, value), none⟩)).length + 1 := by
            rw [h.live, hperm.length_eq, List.length_cons]
          have hq' := hq.set (b := ⟨state, (key, value), none⟩) hget₂ rfl fun _ => rfl
          rw [List.set_set] at hq'
          let fs' : FoldState K V U W :=
            { fs with
              ids
              iterLive := fs.iterLive - 1
              iters := fs.iters.set i ⟨state, (key, value), none⟩ }
          have hfold : InProgress cb (sas.set g' s'') fs'
              { v with lanes := Lanes.feed (onKeys (cb.cmp v.cmp)) i v.lanes } := by
            rw [hfeed [] (hremain.trans hlast)]
            exact h.read hih his hiter (hbeside.trans hb') hq' (Or.inr rfl) (by omega)
              ⟨fun _ => rfl, fun hno => by cases hno⟩ hdefault
          refine ⟨fs', sas.set g' s'', c', bind_eq_ok.mpr ⟨_, hmove, ?_⟩, hfold,
            (hbeside.trans hb').mono hmine, ?_, ?_⟩
          · rw [if_pos rfl]
            simp only [hfree, ok_bind]
            rw [putSlot_of_lt (by rw [List.length_set]; exact hilt), ok_bind, List.set_set,
              check_of_pos (by omega), ok_bind]
            rfl
          · intro x hx
            exact hperm.mem_iff.mpr (List.mem_cons_of_mem _ hx)
          · intro x hx hno
            rcases List.mem_cons.mp (hperm.mem_iff.mp hx) with rfl | hx
            · exact hgone
            · exact absurd hx hno
        · have hsame : holds (fs.iters.set i ⟨state, (key, value), some (g', p)⟩) = holds fs.iters :=
            holds_set_same his hiter.symm
          let fs' : FoldState K V U W :=
            { fs with ids, iters := fs.iters.set i ⟨state, (key, value), some (g', p)⟩ }
          have hfold : InProgress cb (sas.set g' s') fs'
              { v with lanes := Lanes.feed (onKeys (cb.cmp v.cmp)) i v.lanes } := by
            rw [hfeed _ (hremain.trans hmore)]
            refine h.read hih his hiter hbeside hq (Or.inl hiter.symm) (hsame ▸ h.live) ⟨?_, ?_⟩ hdefault
            · intro hno
              cases hno
            · intro g'' p' heq
              cases heq
              refine ⟨rfl, s', bs, pos', List.getElem?_set_self hglt, ?_, ?_, hat', hpos', rfl⟩
              · rw [hm.iterOnly.settings]
                exact hm.iterOnly.wf hwf
              · rw [hm.iterOnly.settings]
                exact huse
          refine ⟨fs', sas.set g' s', c, bind_eq_ok.mpr ⟨_, hmove, ?_⟩, hfold, hbeside.mono hmine, ?_, ?_⟩
          · rw [if_neg (by simp)]
            rfl
          · intro x hx
            exact hsame ▸ hx
          · intro x hx hno
            exact absurd (show x ∈ holds fs'.iters from hsame.symm ▸ hx) hno
      · have hmem : i ∈ v.lanes.queue.map Prod.fst := by
          by_contra hnot
          exact hstate ((h.queued.idle his).mpr hnot)
        have hsame : Lanes.feed (onKeys (cb.cmp v.cmp)) i v.lanes = v.lanes := by
          rw [Lanes.feed, if_pos hmem]
        simp only [if_pos hstate]
        rw [hsame]
        exact ⟨fs, sas, c, rfl, .refl h⟩

theorem feedLoop_beside (hmade : Made cb sas) (h : InProgress cb sas fs v) (c : Ctx K V U) :
    ∀ n ≤ v.inputs.length, ∃ fs' sas' c',
      forUp (stepIterator cb) n (fs, sas, c) = .ok (fs', sas', c') ∧ Proceeds cb sas fs sas' fs'
        { v with lanes := Lanes.feedUpTo (onKeys (cb.cmp v.cmp)) n v.lanes } := by
  intro n
  induction n with
  | zero =>
      intro _
      exact ⟨fs, sas, c, rfl, .refl h⟩
  | succ n ih =>
      intro hn
      obtain ⟨fs₁, sas₁, c₁, hloop, hp₁⟩ := ih (by omega)
      obtain ⟨fs₂, sas₂, c₂, hstep, hp₂⟩ :=
        stepIterator_beside ((feedLoop_steps hloop).2.made hmade) hp₁.fold (Nat.lt_of_succ_le hn) c₁
      exact ⟨fs₂, sas₂, c₂, bind_eq_ok.mpr ⟨_, hloop, hstep⟩, hp₁.trans hp₂⟩

/-- What `skiparray_fold_next` does before it calls back. -/
theorem feedAll_beside (hmade : Made cb sas) (h : InProgress cb sas fs v) (c : Ctx K V U) :
    ∃ fs₁ sas₁ c₁,
      (if 0 < fs.iterLive then stepActiveIterators cb fs sas c else pure (fs, sas, c)) =
        .ok (fs₁, sas₁, c₁) ∧
      Proceeds cb sas fs sas₁ fs₁ { v with lanes := v.lanes.fed (onKeys (cb.cmp v.cmp)) } := by
  by_cases hlive : 0 < fs.iterLive
  · obtain ⟨fs₁, sas₁, c₁, hloop, hp⟩ := feedLoop_beside hmade h c v.inputs.length le_rfl
    refine ⟨fs₁, sas₁, c₁, ?_, ?_⟩
    · rw [if_pos hlive, stepActiveIterators, check_of_pos hlive, ok_bind, h.count, hloop]
    · rw [Lanes.State.fed, h.lanes]
      exact hp
  · refine ⟨fs, sas, c, if_neg hlive, ?_⟩
    rw [fed_of_rests_nil (h.rests_nil_iff.mp (Nat.eq_zero_of_not_pos hlive))]
    exact .refl h

omit [Inhabited K] in
/-- What left the queue leaves the fold state. -/
theorem InProgress.drop (h : InProgress cb sas fs v) {ids : Ids} {is : List ℕ}
    {q : List (ℕ × (K × V))}
    (hq : Queued (cb.cmp v.cmp) v.inputs.length ids (clearOn is fs.iters) q) :
    Proceeds cb sas fs sas { fs with ids, iters := clearOn is fs.iters }
      { v with lanes := ⟨v.lanes.rests, q⟩ } := by
  have hget : ∀ {i : ℕ} {a : IterState K V}, (clearOn is fs.iters)[i]? = some a →
      ∃ b, fs.iters[i]? = some b ∧ a.iter = b.iter ∧ a.pair = b.pair := by
    intro i a ha
    rw [getElem?_clearOn, Option.map_eq_some_iff] at ha
    obtain ⟨b, hb, rfl⟩ := ha
    refine ⟨b, hb, ?_⟩
    split_ifs <;> exact ⟨rfl, rfl⟩
  have hholds := holds_clearOn is fs.iters
  refine ⟨{ h with
    sound := h.sound.withLanes _
    queued := hq
    lanes := h.lanes
    live := hholds ▸ h.live
    distinct := hholds ▸ h.distinct
    sends := ?_
    values := ?_ }, .refl .., ?_, ?_⟩
  · intro i k a rest hk ha hr
    obtain ⟨b, hb, hiter, -⟩ := hget ha
    rw [hiter]
    exact h.sends hk hb hr
  · intro hu i a ha
    obtain ⟨b, hb, -, hpair⟩ := hget ha
    rw [hpair]
    exact h.values hu hb
  · intro x hx
    exact hholds ▸ hx
  · intro x hx hno
    exact absurd (show x ∈ holds (clearOn is fs.iters) from hholds.symm ▸ hx) hno

/-- The callbacks of a client take what its fold delivers. -/
theorem InProgress.callsBack (h : InProgress cb sas fs v) {d : Lanes.Delivery (ℕ × (K × V))}
    {st : Lanes.State (K × V)} (hnext : Lanes.Next (onKeys (cb.cmp v.cmp)) v.lanes d st) (w : W)
    (c : Ctx K V U) : CallsBack fs.cbs w c (d.map Prod.snd) (v.deliver w (d.map Prod.snd)) c := by
  rw [h.cbs_eq]
  cases d with
  | single x => exact .single rfl
  | merged xs =>
      obtain ⟨hne, htwo⟩ := hnext.merged (LawfulCmp.onKeys h.sound.lawful) h.valid
      rw [h.lanes] at htwo
      obtain ⟨merge, hmerge⟩ := Option.isSome_iff_exists.mp (h.sound.merges htwo)
      have hchoice := h.sound.chooses merge hmerge ((xs.map Prod.snd).map Prod.fst)
        ((xs.map Prod.snd).map Prod.snd) w (by simpa using hne)
      refine .merged (congrArg (Option.map clientMerge) hmerge) rfl (List.getElem?_eq_getElem hchoice) ?_
      simp only [FoldView.deliver, Lanes.Delivery.map, hmerge, clientFold]
      rw [List.getD_eq_getElem _ _ hchoice]

/-- A call of `skiparray_fold_next` while other iterators are about. -/
theorem foldNext_beside (hmade : Made cb sas) (h : InProgress cb sas fs v) (w : W) (c : Ctx K V U)
    {d : Lanes.Delivery (ℕ × (K × V))} {st : Lanes.State (K × V)}
    (hnext : Lanes.Next (onKeys (cb.cmp v.cmp)) v.lanes d st) :
    ∃ fs' sas' c', skiparrayFoldNext cb fs sas w c =
        .ok (.ok, some fs', sas', v.deliver w (d.map Prod.snd), c') ∧
      Proceeds cb sas fs sas' fs' { v with lanes := st } := by
  obtain ⟨fs₁, sas₁, c₁, hfeed, hp⟩ := feedAll_beside hmade h c
  have hback := h.callsBack hnext w c₁
  cases hnext with
  | @intro x q hq =>
      have hleft : ¬ v.lanes.Done := by
        intro hdone
        rw [fed_of_rests_nil hdone.2, hdone.1] at hq
        cases hq
      have hqueued := hp.fold.queued
      change Queued _ _ _ _ (v.lanes.fed (onKeys (cb.cmp v.cmp))).queue at hqueued
      rw [hq] at hqueued
      have hdefault : ∀ y ∈ x :: q, fs₁.useValues = false → y.2.2 = default := by
        intro y hy hu
        obtain ⟨is, his, hpair, -⟩ := hqueued.marked.get hy
        rw [← hpair]
        exact hp.fold.values hu his
      rw [h.cbs_eq, ← hp.fold.cbs_eq] at hback
      obtain ⟨ids, is, hcall, hqueued'⟩ :=
        callWithNext_spec h.sound.lawful h.sound.le hqueued hdefault hback
      rw [← hp.fold.count] at hcall
      obtain ⟨havailable, hlive⟩ := h.counters
      refine ⟨_, sas₁, c₁, ?_, hp.trans (hp.fold.drop hqueued')⟩
      rw [skiparrayFoldNext, check_of_pos havailable, ok_bind, check_of_pos hlive, ok_bind,
        if_neg (mt h.done_iff.mp hleft)]
      exact bind_eq_ok.mpr ⟨_, hfeed, bind_eq_ok.mpr ⟨_, hcall, rfl⟩⟩

/-- `skiparray_fold_halt` while other iterators are about. -/
theorem foldHalt_beside (hmade : Made cb sas) (h : InProgress cb sas fs v) (c : Ctx K V U) :
    ∃ sas' c', skiparrayFoldHalt fs sas c = .ok (sas', c') ∧ Beside (holds fs.iters) sas sas' ∧
      ∀ x ∈ holds fs.iters, ¬ Live sas' x := by
  obtain ⟨sas', c', hfree, hb, hgone⟩ := freeFoldIters_beside fs.iters hmade h.distinct h.holds_live c
  have hpos : 0 < fs.iterCount := by
    rw [h.count]
    exact List.length_pos_of_ne_nil h.sound.nonempty
  refine ⟨sas', (c'.release fs.idsBlock).release fs.block, ?_, hb, hgone⟩
  rw [skiparrayFoldHalt, check_of_pos hpos, ok_bind, hfree]
  rfl

/-- The last call of `skiparray_fold_next`. -/
theorem foldDone_beside (hmade : Made cb sas) (h : InProgress cb sas fs v) (w : W) (c : Ctx K V U)
    (hdone : v.lanes.Done) :
    ∃ sas' c', skiparrayFoldNext cb fs sas w c = .ok (.done, none, sas', w, c') ∧
      Beside (holds fs.iters) sas sas' ∧ ∀ x ∈ holds fs.iters, ¬ Live sas' x := by
  obtain ⟨sas', c', hhalt, hb, hgone⟩ := foldHalt_beside hmade h c
  obtain ⟨havailable, hlive⟩ := h.counters
  refine ⟨sas', c', ?_, hb, hgone⟩
  rw [skiparrayFoldNext, check_of_pos havailable, ok_bind, check_of_pos hlive, ok_bind,
    if_pos (h.done_iff.mpr hdone)]
  exact bind_eq_ok.mpr ⟨_, hhalt, rfl⟩

end Steps

/-! ## Starting, and folding at once -/

section Start

variable [Inhabited K] [Inhabited V] {cb : Callbacks K U} {sas sas' : List (SkipArray K V)}
  {type : FoldType} {inputs : List ℕ} {sa₀ sa : SkipArray K V} {fold : K → V → W → W}
  {merge : Option (List K → List V → W → ℕ × V × W)}

omit [Inhabited K] [Inhabited V] in
/-- A fold stands beside what was there before. -/
theorem Pool.beside {its : ℕ → List Ptr} {held : List (ℕ × Ptr)} (h : Pool sas sas' its held) :
    Beside held sas sas' ∧ ∀ x ∈ held, ¬ Live sas x := by
  refine ⟨⟨h.length, ?_⟩, ?_⟩
  · intro g s s' hs hs'
    have hold := h.each hs hs'
    refine ⟨hold.only, ?_⟩
    intro q hq
    exact hold.payload q (mt mem_heldOn.mp hq)
  · rintro ⟨g, p⟩ hx ⟨s, it, hs, hit⟩
    obtain ⟨s', hs'⟩ := h.get_held hx
    have hfresh := (h.each hs hs').fresh (mem_heldOn.mpr hx)
    rw [hfresh] at hit
    cases hit

omit [Inhabited K] [Inhabited V] in
theorem Restored.beside (h : Restored sas sas') : Beside [] sas sas' := by
  refine ⟨h.length, ?_⟩
  intro g s s' hs hs'
  obtain ⟨ho, -, hiter⟩ := h.same hs hs'
  exact ⟨ho, fun q _ => congrArg _ (hiter q)⟩

variable (type fold) in
/-- `skiparray_fold_multi_init` with accepted inputs. -/
theorem foldInit_beside (hmade : Made cb sas) (hle : inputs.length ≤ 255)
    (hchoose : ∀ m, merge = some m → ∀ ks vs w, ks ≠ [] → (m ks vs w).1 < ks.length)
    (ha : Accepts (merge.map clientMerge : Option (MergeFun K V U W)) sas inputs sa₀)
    (c : Ctx K V U) :
    ∃ res next sas' c', skiparrayFoldMultiInit cb type (some (inputs.map some))
        (some (clientFold fold)) (merge.map clientMerge) sas c = .ok (res, next, sas', c') ∧
      Made cb sas' ∧
      (res = .errorMemory ∧ next = none ∧ ¬ cb.AllGranted ∧ Beside [] sas sas' ∨
        res = .ok ∧ ∃ fs, next = some fs ∧ Beside (holds fs.iters) sas sas' ∧
          (∀ x ∈ holds fs.iters, ¬ Live sas x) ∧ InProgress cb sas' fs
            ⟨type, sa₀.cmp, inputs, fold, merge, startLanes type sas inputs⟩) := by
  obtain ⟨bs, its, hco⟩ := exists_blocks hmade
  obtain ⟨res, next, sas', c', hopen, -, -, hout⟩ := openFold_spec cb type (clientFold fold)
    (merge.map clientMerge) sa₀ (fun hb => ⟨_, (hco hb).2.toWf⟩) (fun hb => (hco hb).2.cursors)
    ha.inside c
  refine ⟨res, next, sas', c', (ha.init_eq c).trans hopen, hmade.openFold hopen, ?_⟩
  cases hout with
  | memory hpool _ hrefused => exact Or.inl ⟨rfl, rfl, hrefused, hpool.beside.1⟩
  | @ok iters live block idsBlock _ _ ho _ =>
      obtain ⟨hb, hfresh⟩ := ho.pool.beside
      refine Or.inr ⟨rfl, _, rfl, hb, hfresh, ?_⟩
      obtain ⟨h₀, hhead, hsa₀⟩ := ha.first
      have hcontents : ∀ g ∈ inputs, contentsAt sas g = bindings (bs g) := by
        intro g hg
        obtain ⟨s, hs, -⟩ := ha.same g hg
        rw [contentsAt, hs]
        exact (hco hs).2.toWf.contents_eq
      have hlanes : startLanes type sas inputs =
          ⟨inputs.map fun g => type.order (bindings (bs g)), []⟩ := by
        unfold startLanes
        congr 1
        apply List.map_congr_left
        intro g hg
        rw [hcontents g hg]
      have hf : Folding cb type bs its sas inputs (startState type (clientFold fold)
          (merge.map clientMerge) inputs sa₀ iters live block idsBlock) sas'
          (startLanes type sas inputs) := by
        rw [hlanes]
        exact ho.folding ..
      refine ⟨⟨?_, hle, (hco hsa₀).1, ?_, hchoose⟩, rfl, rfl, rfl, rfl, hf.queued, hf.lanes,
        hf.live, ho.pool.nodup, ?_, hf.values⟩
      · rintro rfl
        cases hhead
      · intro htwo
        have hsome := ha.merges htwo
        rwa [Option.isSome_map] at hsome
      · intro i g is rest hg his hrest
        have hread := hf.reads hg his hrest
        refine ⟨hread.done, ?_⟩
        intro g' p hiter
        obtain ⟨rfl, s', pos, hs', hat, hpos, hremain⟩ := hread.live hiter
        obtain ⟨s, hs, hsame⟩ := ha.same g' (List.mem_of_getElem? hg)
        simp only [sameCallbacks, decide_eq_true_eq] at hsame
        obtain ⟨ho', -⟩ := hb.each hs hs'
        refine ⟨rfl, s', bs g', pos, hs', ?_, ?_, hat, hpos, hremain⟩
        · rw [ho'.settings]
          exact ho'.wf (hco hs).2.toWf
        · rw [ho'.settings]
          exact hsame.2.2.2

theorem Made.foldWhole {h : ℕ} {f : K → V → W → Ctx K V U → Except Fault (W × Ctx K V U)} {res : FoldRes}
    {w w' : W} {c c' : Ctx K V U} (hmade : Made cb sas)
    (hfold : skiparrayFold cb type h f sas w c = .ok (res, sas', w', c')) : Made cb sas' := by
  obtain ⟨s, hs, hrest⟩ := bind_eq_ok.mp hfold
  obtain ⟨⟨res₁, next, sas₁, c₁⟩, hinit, hrest⟩ := bind_eq_ok.mp hrest
  have ha : Accepts (none : Option (MergeFun K V U W)) sas [h] s := .single (slot_ok hs)
  have hmade₁ : Made cb sas₁ := hmade.openFold ((ha.init_eq c).symm.trans hinit)
  cases res₁ with
  | ok =>
      cases next with
      | none => cases hrest
      | some fs =>
          obtain ⟨⟨sas₂, w₂, c₂⟩, hloop, hrest⟩ := bind_eq_ok.mp hrest
          cases hrest
          exact hmade₁.foldLoop hloop
  | errorMisuse =>
      cases hrest
      exact hmade₁
  | errorMemory =>
      cases hrest
      exact hmade₁

omit [Inhabited K] [Inhabited V] in
/-- The client's callback, called on each of the pairs in turn. -/
theorem Accumulates.eq_foldl {l : List (K × V)} {w w' : W}
    (h : Accumulates (clientFold fold : K → V → W → Ctx K V U → _) l w w') :
    w' = l.foldl (fun w p => fold p.1 p.2 w) w := by
  induction h with
  | nil => rfl
  | snoc _ hcall ih =>
      cases hcall
      rw [List.foldl_append, ← ih]
      rfl

variable (type fold) in
/-- `skiparray_fold` while iterators are about. -/
theorem fold_beside {h : ℕ} (hmade : Made cb sas) (hsa : sas[h]? = some sa) (w : W) (c : Ctx K V U) :
    ∃ res sas' w' c', skiparrayFold cb type h (clientFold fold) sas w c = .ok (res, sas', w', c') ∧
      Made cb sas' ∧ Beside [] sas sas' ∧
      (res = .errorMemory ∧ w' = w ∧ ¬ cb.AllGranted ∨
        res = .ok ∧ w' = (type.order sa.contents).foldl (fun w p => fold p.1 p.2 w) w) := by
  have hcarries : Carries cb (clientFold fold) (type.order sa.contents)
      fun done w' _ _ => Accumulates (clientFold fold) done w w' :=
    .accumulates (fun k v w c => ⟨_, _, rfl⟩) _ w
  obtain ⟨res, sas', w', c', hfold, -, hrestored, hres⟩ :=
    skiparrayFold_carries hmade hsa hcarries w c .nil
  refine ⟨res, sas', w', c', hfold, hmade.foldWhole hfold, hrestored.beside, ?_⟩
  rcases hres with ⟨rfl, rfl, hrefused, -⟩ | ⟨rfl, hacc⟩
  · exact Or.inl ⟨rfl, rfl, hrefused⟩
  · exact Or.inr ⟨rfl, hacc.eq_foldl⟩

end Start

end Skiparray
