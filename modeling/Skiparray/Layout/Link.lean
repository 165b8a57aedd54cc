import Skiparray.Layout.Search

/-!
# Linking a node split off another

While `new` is linked behind `b`, some levels already spell the blocks with
`new` and the others still spell them without it. `Spliced` says which; every
step below writes to one level and moves it from the one kind to the other.
-/

namespace Skiparray

open SkipLinks Fallible Budget

variable {K V U : Type} {cmp : K → K → ℤ} {sa sa' : SkipArray K V}
  {A C : List (Block K V)} {b new x : Block K V} {i : ℕ}

section

variable [Inhabited V]

/-- What no write to a pointer changes while `new` is linked behind `b`: the
pairs are all in place. -/
structure Splitting (cmp : K → K → ℤ) (sa : SkipArray K V) (A : List (Block K V))
    (b new : Block K V) (C : List (Block K V)) : Prop where
  settings : sa.toSettings.Ok
  nodesLen : sa.nodes.length = sa.maxLevel
  stores : ∀ x ∈ A ++ b :: new :: C, sa.Stores x
  alive : ∀ x ∈ A ++ b :: new :: C, ∃ n, sa.node? x.ptr = some n ∧ n.height = x.height ∧
    n.fwd.length = x.height
  top : ∀ x ∈ A ++ b :: new :: C, 0 < x.height ∧ x.height ≤ sa.maxLevel
  nonempty : ∀ x ∈ A ++ b :: new :: C, x.pairs ≠ []
  ascending : Ascending cmp (bindings (A ++ b :: new :: C))
  nodup : ((towers (A ++ b :: new :: C)).map Prod.fst).Nodup

theorem Splitting.of_linkOnly (h : Splitting cmp sa A b new C) (hl : LinkOnly sa sa') :
    Splitting cmp sa' A b new C where
  settings := hl.settings ▸ h.settings
  nodesLen := by rw [hl.nodesLen, h.nodesLen, hl.settings]
  stores x hx := hl.stores (h.stores x hx)
  alive x hx := hl.alive (h.alive x hx)
  top x hx := by
    rw [hl.settings]
    exact h.top x hx
  nonempty := h.nonempty
  ascending := h.ascending
  nodup := h.nodup

end

/-- The levels that satisfy `done` spell the blocks with `new`, the others
without it. -/
structure Spliced (done : ℕ → Prop) (sa : SkipArray K V) (A : List (Block K V))
    (b new : Block K V) (C : List (Block K V)) : Prop where
  finished : ∀ i < sa.maxLevel, done i → sa.links.Level i (towers (A ++ b :: new :: C))
  pending : ∀ i < sa.maxLevel, ¬ done i → sa.links.Level i (towers (A ++ b :: C)) ∧
    sa.links.fwd i new.ptr = none
  backs : Backs sa.links.back none ((towers (A ++ b :: new :: C)).map Prod.fst)

theorem Spliced.congr {done done' : ℕ → Prop} (h : Spliced done sa A b new C)
    (hd : ∀ i, done' i ↔ done i) : Spliced done' sa A b new C where
  finished i hi hdone := h.finished i hi ((hd i).mp hdone)
  pending i hi hdone := h.pending i hi fun hdone' => hdone ((hd i).mpr hdone')
  backs := h.backs

/-- Finishing one more level. -/
theorem Spliced.step {done : ℕ → Prop} (h : Spliced done sa A b new C) (hs : LevelStep i sa sa')
    (hi : sa'.links.Level i (towers (A ++ b :: new :: C))) :
    Spliced (fun j => done j ∨ j = i) sa' A b new C where
  finished j hj hdone := by
    rw [hs.linkOnly.settings] at hj
    by_cases hji : j = i
    · rw [hji]
      exact hi
    · exact (h.finished j hj (hdone.resolve_right hji)).of_sameBut hs.same hji
  pending j hj hdone := by
    rw [hs.linkOnly.settings] at hj
    push Not at hdone
    obtain ⟨hl, hn⟩ := h.pending j hj hdone.1
    exact ⟨hl.of_sameBut hs.same hdone.2, by rw [hs.same.fwd j hdone.2]; exact hn⟩
  backs := by
    rw [hs.same.back]
    exact h.backs

/-- Where the walk of one level stands. -/
structure RelinkState (K V : Type) where
  sa : SkipArray K V
  prev : Option Ptr
  cur : Option Ptr

def RelinkState.loop [Inhabited V] (cmp : K → K → ℤ) (new : Ptr) (level fuel : ℕ)
    (s : RelinkState K V) : Except Fault (SkipArray K V × Option Ptr) :=
  relinkWalk cmp new level fuel s.sa s.prev s.cur

def RelinkState.onward (level : ℕ) (s s' : RelinkState K V) : Prop :=
  s.sa.links.Ahead level s.cur s'.cur

section Walk

variable [Inhabited V] (h : Splitting cmp sa A b new C)
include h

theorem Splitting.nodup_onLevel (i : ℕ) : (onLevel i (towers (A ++ b :: new :: C))).Nodup :=
  h.nodup.sublist (List.filter_sublist.map Prod.fst)

theorem Splitting.new_notMem : new.ptr ∉ onLevel i (towers (A ++ b :: C)) := by
  intro hm
  have hnd := h.nodup
  simp only [towers_append, towers_cons, List.map_append, List.map_cons] at hnd
  rw [List.append_cons, List.nodup_middle] at hnd
  refine (List.nodup_cons.mp hnd).1 ?_
  simpa using onLevel_subset hm

theorem Splitting.nodup_old : (onLevel i (towers (A ++ b :: C))).Nodup := by
  refine (h.nodup_onLevel i).sublist ?_
  refine (List.Sublist.filter _ ?_).map Prod.fst
  simp

/-- The comparison of the relinking walk: `new` belongs behind the blocks of
`A` and before those of `C`, and is equal to none. -/
theorem Splitting.compare (hc : LawfulCmp cmp) (hx : x ∈ A ∨ x ∈ C) :
    ∃ n nw first last, sa.node? x.ptr = some n ∧ 0 < n.count ∧ n.fwd.length = x.height ∧
      sa.node? new.ptr = some nw ∧ slot nw.keys nw.offset = .ok first ∧ n.lastKey = .ok last ∧
      (x ∈ A → 0 < cmp first last) ∧ (x ∈ C → cmp first last < 0) := by
  have hxm : x ∈ A ++ b :: new :: C := by rcases hx with hx | hx <;> simp [hx]
  have hnm : new ∈ A ++ b :: new :: C := by simp
  obtain ⟨n, hn, hh⟩ := h.stores x hxm
  obtain ⟨m, hm, -, hlen⟩ := h.alive x hxm
  obtain rfl : m = n := Option.some.inj (hm.symm.trans hn)
  obtain ⟨nw, hnw, hhw⟩ := h.stores new hnm
  obtain ⟨q, qs, hq⟩ := List.exists_cons_of_ne_nil (h.nonempty x hxm)
  obtain ⟨f, fs, hf⟩ := List.exists_cons_of_ne_nil (h.nonempty new hnm)
  obtain ⟨l, hl⟩ : ∃ l, x.pairs.getLast? = some l := by
    rw [hq]
    exact ⟨_, List.getLast?_cons⟩
  have hfirst : slot nw.keys nw.offset = .ok f.1 := hhw.keyAt (i := 0) (by rw [hf]; rfl)
  have hlast := hh.lastKey hl
  refine ⟨m, nw, f.1, l.1, hn, ?_, hlen, hnw, hfirst, hlast, fun hA => ?_, fun hC => ?_⟩
  · rw [hh.count, hq]
    simp
  all_goals
    have hasc := h.ascending
    have hlx := List.mem_of_getLast? hl
    have hfn : f ∈ new.pairs := by simp [hf]
    rw [bindings_append, bindings_cons, bindings_cons, Ascending.append_iff,
      Ascending.append_iff, Ascending.append_iff] at hasc
    obtain ⟨-, ⟨-, ⟨-, -, hafter⟩, -⟩, hbefore⟩ := hasc
  · have hmem : l ∈ bindings A := List.mem_flatMap.mpr ⟨x, hA, hlx⟩
    exact (hc.swap _ _).mp (hbefore l hmem f (by simp [hfn]))
  · exact hafter f hfn l (List.mem_flatMap.mpr ⟨x, hC, hlx⟩)

/-- The walk of one level from a block `x` of `A` stops at the last block of
`A` there; on an exhausted level that block already points at `new`. -/
theorem relinkWalk_from (hc : LawfulCmp cmp) (hl : sa.links.Level i (towers (A ++ b :: C)))
    (hb : b.height ≤ i) {A₁ A₂ : List (Block K V)} {x : Block K V} (prev : Option Ptr)
    (hA : A = A₁ ++ x :: A₂) (hi : i < x.height) :
    ∃ sa' A₃ y A₄, A = A₃ ++ y :: A₄ ∧ i < y.height ∧ onLevel i (towers A₄) = [] ∧
      Winds (RelinkState.loop cmp new.ptr i) (RelinkState.onward i) (A₂.length + 1)
        ⟨sa, prev, some x.ptr⟩ (.ok (sa', some y.ptr)) ∧
      LevelStep i sa sa' ∧ sa'.links.head i = sa.links.head i ∧
      (∀ r, r ≠ y.ptr → sa'.links.fwd i r = sa.links.fwd i r) ∧
      (sa'.links.fwd i y.ptr = (onLevel i (towers C)).head? ∨
        onLevel i (towers C) = [] ∧ sa'.links.fwd i y.ptr = some new.ptr) := by
  obtain ⟨n, nw, first, last, hn, hcnt, hlen, hnw, hfirst, hlast, hgt, -⟩ :=
    h.compare hc (x := x) (Or.inl (by simp [hA]))
  have hgt := hgt (by simp [hA])
  have hnd := h.nodup_old (i := i)
  have hsplit : A ++ b :: C = A₁ ++ x :: (A₂ ++ b :: C) := by simp [hA]
  have hrest : onLevel i (towers (A₂ ++ b :: C)) =
      onLevel i (towers A₂) ++ onLevel i (towers C) := by
    rw [towers_append, towers_cons, onLevel_append, onLevel_cons_of_le (by simpa using hb)]
  have hnext : sa.links.fwd i x.ptr = (onLevel i (towers A₂) ++ onLevel i (towers C)).head? := by
    rw [hsplit, towers_append, towers_cons] at hl
    rw [← hrest]
    exact hl.fwd_eq hi
  have hstep : ∀ fuel, relinkWalk cmp new.ptr i (fuel + 1) sa prev (some x.ptr) =
      if sa.links.fwd i x.ptr = none then (do
        let sa ← sa.setFwd (some x.ptr) i (some new.ptr)
        return (sa, some x.ptr))
      else relinkWalk cmp new.ptr i fuel sa (some x.ptr) (sa.links.fwd i x.ptr) := by
    intro fuel
    simp only [relinkWalk, SkipArray.load_eq hn, SkipArray.load_eq hnw, ok_bind,
      check_of_pos hcnt, hfirst, hlast, if_neg (not_lt.mpr (le_of_lt hgt)), if_pos hgt,
      SkipArray.fwdAt_eq hn (by omega : i < n.fwd.length)]
  -- as long as there is a next block, the walk moves ahead to it
  have hturn : ∀ q, sa.links.fwd i x.ptr = some q →
      Turns (RelinkState.loop cmp new.ptr i) ⟨sa, prev, some x.ptr⟩ ⟨sa, some x.ptr, some q⟩ ∧
      RelinkState.onward i (K := K) (V := V) ⟨sa, prev, some x.ptr⟩ ⟨sa, some x.ptr, some q⟩ := by
    intro q hq
    refine ⟨fun fuel => ?_, ?_⟩
    · rw [RelinkState.loop, hstep fuel, hq, if_neg (by simp)]
      rfl
    · rw [hsplit, towers_append, towers_cons] at hl hnd
      refine hl.ahead hnd hi ?_
      rw [hrest, ← hnext, hq]
  cases hA₂ : onLevel i (towers A₂) with
  | cons p ps =>
      -- the next block on the level is again one of `A`
      obtain ⟨B₁, y, B₂, rfl, rfl, hiy, -, -⟩ := onLevel_towers_cons hA₂
      have hA' : A = (A₁ ++ x :: B₁) ++ y :: B₂ := by simp [hA]
      obtain ⟨ht, ho⟩ := hturn y.ptr (by rw [hnext, hA₂]; rfl)
      obtain ⟨sa', A₃, z, A₄, hA₃, hz, hA₄, hw, hspec⟩ :=
        relinkWalk_from hc hl hb (some x.ptr) hA' hiy
      refine ⟨sa', A₃, z, A₄, hA₃, hz, hA₄, .turn ht ho (hw.mono ?_), hspec⟩
      simp only [List.length_append, List.length_cons]
      omega
  | nil =>
      rw [hA₂, List.nil_append] at hnext
      cases hC : onLevel i (towers C) with
      | nil =>
          obtain ⟨sa', hset, hstep', hhead, hfwd⟩ :=
            SkipArray.setFwd_spec (some new.ptr) hn (by omega : i < n.fwd.length)
          rw [hC] at hnext
          refine ⟨sa', A₁, x, A₂, hA, hi, hA₂, .stop fun fuel => ?_, hstep', hhead,
            fun r hr => ?_, Or.inr ⟨rfl, by rw [hfwd, if_pos rfl]⟩⟩
          · rw [RelinkState.loop, hstep fuel, hnext, if_pos List.head?_nil, hset]
            rfl
          · rw [hfwd, if_neg hr]
      | cons p ps =>
          -- the walk overshoots into `C`
          obtain ⟨C₁, y, C₂, rfl, rfl, -, -, -⟩ := onLevel_towers_cons hC
          obtain ⟨m, nw', first', last', hm, hcnt', -, hnw', hfirst', hlast', -, hlt⟩ :=
            h.compare hc (x := y) (Or.inr (by simp))
          have hlt := hlt (by simp)
          rw [hC] at hnext
          obtain ⟨ht, ho⟩ := hturn y.ptr hnext
          refine ⟨sa, A₁, x, A₂, hA, hi, hA₂, .turn ht ho (.stop fun fuel => ?_), .refl i sa, rfl,
            fun _ _ => rfl, Or.inl hnext⟩
          simp only [RelinkState.loop, relinkWalk, SkipArray.load_eq hm, SkipArray.load_eq hnw',
            ok_bind, check_of_pos hcnt', hfirst', hlast', if_pos hlt, reduceCtorEq, if_false]
          rfl
termination_by A₂.length

/-- What a write pattern on level `i` must do to link `new` there. -/
theorem Splitting.insertLevel (hl : sa.links.Level i (towers (A ++ b :: C)))
    (hi : i < new.height) (hnew : sa'.links.fwd i new.ptr = (onLevel i (towers C)).head?)
    (hfront : onLevel i (towers (A ++ [b])) = [] → sa'.links.head i = some new.ptr)
    (hafter : ∀ p, (onLevel i (towers (A ++ [b]))).getLast? = some p →
      sa'.links.head i = sa.links.head i ∧ sa'.links.fwd i p = some new.ptr)
    (hframe : ∀ p, p ≠ new.ptr → (onLevel i (towers (A ++ [b]))).getLast? ≠ some p →
      sa'.links.fwd i p = sa.links.fwd i p) :
    sa'.links.Level i (towers (A ++ b :: new :: C)) := by
  have hnd := h.nodup_old (i := i)
  have hnm := h.new_notMem (i := i)
  rw [List.append_cons, towers_append] at hl hnd hnm ⊢
  exact Links.insertLevel hl hi hnd hnm hnew hfront hafter hframe

theorem Splitting.fwdAt (hx : x ∈ A ++ b :: new :: C) (hi : i < x.height) :
    sa.fwdAt (some x.ptr) i = .ok (sa.links.fwd i x.ptr) := by
  obtain ⟨n, hn, -, hlen⟩ := h.alive x hx
  exact SkipArray.fwdAt_eq hn (by omega)

theorem Splitting.setFwd (hx : x ∈ A ++ b :: new :: C) (hi : i < x.height) (q : Option Ptr) :
    ∃ sa', sa.setFwd (some x.ptr) i q = .ok sa' ∧ LevelStep i sa sa' ∧
      sa'.links.head i = sa.links.head i ∧
      ∀ r, sa'.links.fwd i r = if r = x.ptr then q else sa.links.fwd i r := by
  obtain ⟨n, hn, -, hlen⟩ := h.alive x hx
  exact SkipArray.setFwd_spec q hn (by omega)

theorem Splitting.new_ne (hx : x ∈ A ++ b :: C) : x.ptr ≠ new.ptr := by
  intro heq
  have hnd := h.nodup
  rw [towers_fst, List.append_cons, List.map_append, List.map_cons, List.nodup_middle,
    List.nodup_cons, ← List.map_append, ← List.append_cons] at hnd
  exact hnd.1 (List.mem_map.mpr ⟨x, hx, heq⟩)

/-- The first block of `C` on a level, if there is one, is tall enough. -/
theorem Splitting.check_follow {p : Ptr} (hp : (onLevel i (towers C)).head? = some p) :
    ∃ n, sa.node? p = some n ∧ i < n.height ∧ p ≠ new.ptr := by
  obtain ⟨ps, hps⟩ := List.head?_eq_some_iff.mp hp
  obtain ⟨C₁, z, C₂, rfl, rfl, hiz, -, -⟩ := onLevel_towers_cons hps
  obtain ⟨n, hn, hh, -⟩ := h.alive z (by simp)
  exact ⟨n, hn, by omega, h.new_ne (by simp)⟩

/-- What follows the walk of a level that stopped at the last block `y` of `A`. -/
theorem relinkAfter_spec {y : Block K V} (hy : y ∈ A) (hiy : i < y.height) (hi : i < new.height)
    (hfy : sa.links.fwd i y.ptr = (onLevel i (towers C)).head? ∨
      onLevel i (towers C) = [] ∧ sa.links.fwd i y.ptr = some new.ptr)
    (hfn : sa.links.fwd i new.ptr = none) :
    ∃ sa', relinkAfter new.ptr i sa (some y.ptr) = .ok sa' ∧ LevelStep i sa sa' ∧
      sa'.links.head i = sa.links.head i ∧
      sa'.links.fwd i new.ptr = (onLevel i (towers C)).head? ∧
      sa'.links.fwd i y.ptr = some new.ptr ∧
      ∀ r, r ≠ new.ptr → r ≠ y.ptr → sa'.links.fwd i r = sa.links.fwd i r := by
  have hym : y ∈ A ++ b :: new :: C := by simp [hy]
  have hnm : new ∈ A ++ b :: new :: C := by simp
  have hne : new.ptr ≠ y.ptr := (h.new_ne (by simp [hy])).symm
  -- the forward pointer of `new`, unless `y` already points at `new`
  obtain ⟨sa₁, h₁, hstep₁, hhead₁, hnew₁, hother₁⟩ : ∃ sa₁,
      (if sa.links.fwd i y.ptr ≠ some new.ptr then
        sa.setFwd (some new.ptr) i (sa.links.fwd i y.ptr) else pure sa) = .ok sa₁ ∧
      LevelStep i sa sa₁ ∧ sa₁.links.head i = sa.links.head i ∧
      sa₁.links.fwd i new.ptr = (onLevel i (towers C)).head? ∧
      ∀ r, r ≠ new.ptr → sa₁.links.fwd i r = sa.links.fwd i r := by
    rcases hfy with hq | ⟨hC, hq⟩
    · have hqne : sa.links.fwd i y.ptr ≠ some new.ptr := by
        rw [hq]
        intro heq
        obtain ⟨n, -, -, hpne⟩ := h.check_follow heq
        exact hpne rfl
      obtain ⟨sa₁, hset, hstep, hhead, hfwd⟩ := h.setFwd hnm hi (sa.links.fwd i y.ptr)
      refine ⟨sa₁, by rw [if_pos hqne, hset], hstep, hhead, by rw [hfwd, if_pos rfl, hq],
        fun r hr => by rw [hfwd, if_neg hr]⟩
    · refine ⟨sa, by rw [if_neg (by simp [hq])]; rfl, .refl i sa, rfl, by rw [hfn, hC]; rfl,
        fun _ _ => rfl⟩
  have hs₁ := h.of_linkOnly hstep₁.linkOnly
  obtain ⟨sa₂, h₂, hstep₂, hhead₂, hfwd₂⟩ := hs₁.setFwd hym hiy (some new.ptr)
  have hs₂ := hs₁.of_linkOnly hstep₂.linkOnly
  have hnew₂ : sa₂.links.fwd i new.ptr = (onLevel i (towers C)).head? := by
    rw [hfwd₂, if_neg hne, hnew₁]
  refine ⟨sa₂, ?_, hstep₁.trans hstep₂, hhead₂.trans hhead₁, hnew₂, by rw [hfwd₂, if_pos rfl],
    fun r hr hry => by rw [hfwd₂, if_neg hry, hother₁ r hr]⟩
  rw [relinkAfter, if_neg (by simp), h.fwdAt hym hiy, ok_bind, h₁, ok_bind, h₂, ok_bind,
    hs₂.fwdAt hnm hi, ok_bind, hnew₂]
  cases hq : (onLevel i (towers C)).head? with
  | none => simp
  | some p =>
      obtain ⟨n, hn, hin, -⟩ := hs₂.check_follow hq
      simp [SkipArray.load_eq hn, check_of_pos hin]

/-- Walking a level from a block `x` of `A` links `new` there. -/
theorem relinkLevel_from (hc : LawfulCmp cmp) (hl : sa.links.Level i (towers (A ++ b :: C)))
    (hb : b.height ≤ i) (hi : i < new.height) (hfn : sa.links.fwd i new.ptr = none)
    {A₁ A₂ : List (Block K V)} (prev : Option Ptr) (hA : A = A₁ ++ x :: A₂)
    (hix : i < x.height) :
    ∃ sa₁ sa' y, y ∈ A ∧ i < y.height ∧ LevelStep i sa sa' ∧
      Winds (RelinkState.loop cmp new.ptr i) (RelinkState.onward i) (A₂.length + 1)
        ⟨sa, prev, some x.ptr⟩ (.ok (sa₁, some y.ptr)) ∧
      relinkAfter new.ptr i sa₁ (some y.ptr) = .ok sa' ∧
      sa'.links.Level i (towers (A ++ b :: new :: C)) := by
  obtain ⟨sa₁, A₃, y, A₄, hA', hiy, hA₄, hwalk, hstep₁, hhead₁, hfwd₁, hy₁⟩ :=
    relinkWalk_from h hc hl hb prev hA hix
  have hy : y ∈ A := by simp [hA']
  have hne := h.new_ne (x := y) (by simp [hy])
  obtain ⟨sa₂, hafter, hstep₂, hhead₂, hnew₂, hy₂, hother₂⟩ :=
    relinkAfter_spec (h.of_linkOnly hstep₁.linkOnly) hy hiy hi hy₁
      (by rw [hfwd₁ _ hne.symm, hfn])
  -- `y` is the last block before `new` on the level
  have hlast : (onLevel i (towers (A ++ [b]))).getLast? = some y.ptr := by
    rw [towers_append, onLevel_append, towers_cons, onLevel_cons_of_le (by simpa using hb), hA',
      towers_append, onLevel_append, towers_cons, onLevel_cons_of_lt (by simpa using hiy), hA₄]
    simp
  refine ⟨sa₁, sa₂, y, hy, hiy, hstep₁.trans hstep₂, hwalk, hafter, ?_⟩
  refine h.insertLevel hl hi hnew₂ (fun hnil => absurd hlast (by rw [hnil]; simp)) (fun p hp => ?_)
    fun p hp hpy => ?_
  · obtain rfl : y.ptr = p := Option.some.inj (hlast.symm.trans hp)
    exact ⟨hhead₂.trans hhead₁, hy₂⟩
  · rw [hlast] at hpy
    have hpy : p ≠ y.ptr := fun heq => hpy (by rw [heq])
    rw [hother₂ p hp hpy, hfwd₁ p hpy]

/-- On a level that no block of `A` reaches, `new` becomes the head. -/
theorem relinkLevel_front (hc : LawfulCmp cmp) (hl : sa.links.Level i (towers (A ++ b :: C)))
    (hb : b.height ≤ i) (hi : i < new.height) (hA : onLevel i (towers A) = [])
    {p : Ptr} (hp : (onLevel i (towers C)).head? = some p) :
    ∃ sa', LevelStep i sa sa' ∧
      Winds (RelinkState.loop cmp new.ptr i) (RelinkState.onward i) 0 ⟨sa, none, some p⟩
        (.ok (sa', none)) ∧
      sa'.links.Level i (towers (A ++ b :: new :: C)) := by
  obtain ⟨ps, hps⟩ := List.head?_eq_some_iff.mp hp
  obtain ⟨C₁, z, C₂, hC, rfl, hiz, -, -⟩ := onLevel_towers_cons hps
  obtain ⟨n, nw, first, last, hn, hcnt, -, hnw, hfirst, hlast, -, hlt⟩ :=
    h.compare hc (x := z) (Or.inr (by simp [hC]))
  have hless := hlt (by simp [hC])
  have hold : onLevel i (towers (A ++ [b])) = [] := by
    simp [hA, onLevel_cons_of_le (u := (b.ptr, b.height)) hb]
  have him : i < sa.maxLevel := by
    have := (h.top new (by simp)).2
    omega
  have hhead : sa.headAt i = .ok (onLevel i (towers C)).head? := by
    rw [SkipArray.headAt_eq h.nodesLen him hl, List.append_cons, towers_append, onLevel_append,
      hold, List.nil_append]
  obtain ⟨sa₁, h₁, hstep₁, hhead₁, hfwd₁⟩ :=
    h.setFwd (x := new) (by simp) hi (onLevel i (towers C)).head?
  have hs₁ := h.of_linkOnly hstep₁.linkOnly
  have hlt : i < sa₁.nodes.length := by
    rw [hs₁.nodesLen, hstep₁.linkOnly.settings]
    exact him
  obtain ⟨sa₂, h₂, hstep₂, hhead₂, hfwd₂⟩ := SkipArray.setHead_spec (some new.ptr) hlt
  refine ⟨sa₂, hstep₁.trans hstep₂, .stop fun fuel => ?_, ?_⟩
  · simp [RelinkState.loop, relinkWalk, SkipArray.load_eq hn, SkipArray.load_eq hnw, hcnt, hfirst,
      hlast, hless, hhead, h₁, h₂]
  · refine h.insertLevel hl hi (by rw [hfwd₂, hfwd₁, if_pos rfl]) (fun _ => hhead₂)
      (fun q hq => absurd hq (by rw [hold]; simp)) fun q hq _ => ?_
    rw [hfwd₂, hfwd₁, if_neg hq]

end Walk

/-! ## All levels -/

section Levels

variable [Inhabited V]

/-- A pointer the relinking loop may carry down to level `i`: none, or a block
of `A` that reaches the level. -/
def CarriesTo (A : List (Block K V)) (i : ℕ) (prev : Option Ptr) : Prop :=
  prev = none ∨ ∃ x ∈ A, i ≤ x.height ∧ prev = some x.ptr

/-- The relinking loop comes to its end: every round takes it down a level, and
the walk of each level ends. -/
inductive Relinks (cmp : K → K → ℤ) (new : Ptr) (base : ℕ) :
    ℕ → SkipArray K V → Option Ptr → SkipArray K V → Prop
  | finish {sa : SkipArray K V} {prev : Option Ptr} : Relinks cmp new base 0 sa prev sa
  | above {k : ℕ} {sa sa' : SkipArray K V} {prev : Option Ptr} (hk : sa.height < base + k)
      (hr : Relinks cmp new base k sa prev sa') : Relinks cmp new base (k + 1) sa prev sa'
  | bare {k : ℕ} {sa sa' : SkipArray K V} (hcur : sa.headAt (base + k) = .ok none)
      (hr : Relinks cmp new base k sa none sa') : Relinks cmp new base (k + 1) sa none sa'
  | walk {k n : ℕ} {sa sa₁ sa₂ sa' : SkipArray K V} {prev prev₁ : Option Ptr} {p : Ptr}
      (hk : base + k ≤ sa.height)
      (hcur : (if prev = none then sa.headAt (base + k) else pure prev) = .ok (some p))
      (hw : Winds (RelinkState.loop cmp new (base + k)) (RelinkState.onward (base + k)) n
        ⟨sa, prev, some p⟩ (.ok (sa₁, prev₁))) (hn : n < sa.budget)
      (hafter : relinkAfter new (base + k) sa₁ prev₁ = .ok sa₂)
      (hr : Relinks cmp new base k sa₂ prev₁ sa') : Relinks cmp new base (k + 1) sa prev sa'

theorem Relinks.eq {new : Ptr} {base k : ℕ} {prev : Option Ptr}
    (h : Relinks cmp new base k sa prev sa') : relinkLevels cmp new base k sa prev = .ok sa' := by
  induction h with
  | finish => rfl
  | above hk _ ih => rw [relinkLevels, if_pos hk, ih]
  | @bare k sa sa' hcur _ ih =>
      by_cases hk : sa.height < base + k
      · rw [relinkLevels, if_pos hk, ih]
      · rw [relinkLevels, if_neg hk, if_pos rfl, hcur, ok_bind, if_pos rfl, ih]
  | walk hk hcur hw hn hafter _ ih =>
      have hwalk := hw.eq hn
      simp only [RelinkState.loop] at hwalk
      rw [relinkLevels, if_neg (not_lt.mpr hk), hcur, ok_bind, if_neg (by simp), hwalk, ok_bind]
      simp only [hafter, ok_bind, ih]

theorem relinkLevels_spec (hc : LawfulCmp cmp) :
    ∀ {k : ℕ} {sa : SkipArray K V} {prev : Option Ptr}, Splitting cmp sa A b new C →
      b.height + k ≤ new.height → sa.Tallest (A ++ b :: C) → CarriesTo A (b.height + k) prev →
      Spliced (fun i => new.height ≤ i ∨ b.height + k ≤ i ∧ i < sa.height) sa A b new C →
      ∃ sa', Relinks cmp new.ptr b.height k sa prev sa' ∧ LinkOnly sa sa' ∧
        sa'.height = sa.height ∧
        Spliced (fun i => new.height ≤ i ∨ b.height ≤ i ∧ i < sa'.height) sa' A b new C
  | 0, sa, prev, _, _, _, _, hs => ⟨sa, .finish, .refl sa, rfl, hs⟩
  | k + 1, sa, prev, h, hk, ht, hprev, hs => by
      have him : b.height + k < sa.maxLevel := by
        have := (h.top new (by simp)).2
        omega
      obtain ⟨hl, hfn⟩ := hs.pending (b.height + k) him (by omega)
      have hnb : b.height ≤ b.height + k := by omega
      have hdown : CarriesTo A (b.height + k) prev :=
        hprev.imp id fun ⟨x, hx, hix, hp⟩ => ⟨x, hx, by omega, hp⟩
      -- above `sa->height` there is nothing to do
      have hskip : sa.height ≤ b.height + k →
          ∃ sa', Relinks cmp new.ptr b.height k sa prev sa' ∧ LinkOnly sa sa' ∧
            sa'.height = sa.height ∧
            Spliced (fun i => new.height ≤ i ∨ b.height ≤ i ∧ i < sa'.height) sa' A b new C :=
        fun hge => relinkLevels_spec hc h (by omega) ht hdown (hs.congr fun i => by omega)
      -- a level that was linked leads on to the one below
      have hgo : ∀ {sa₁ prev₁}, LevelStep (b.height + k) sa sa₁ →
          sa₁.links.Level (b.height + k) (towers (A ++ b :: new :: C)) →
          b.height + k < sa.height → CarriesTo A (b.height + k) prev₁ →
          ∃ sa', Relinks cmp new.ptr b.height k sa₁ prev₁ sa' ∧ LinkOnly sa sa' ∧
            sa'.height = sa.height ∧
            Spliced (fun i => new.height ≤ i ∨ b.height ≤ i ∧ i < sa'.height) sa' A b new C := by
        intro sa₁ prev₁ hstep hl₁ hlt hprev₁
        have ht₁ : sa₁.Tallest (A ++ b :: C) := by
          rw [SkipArray.Tallest, hstep.height]
          exact ht
        obtain ⟨sa', hr, hlo, hh, hs'⟩ := relinkLevels_spec hc (h.of_linkOnly hstep.linkOnly)
          (by omega) ht₁ hprev₁
          ((hs.step hstep hl₁).congr fun i => by rw [hstep.height]; omega)
        exact ⟨sa', hr, hstep.linkOnly.trans hlo, hh.trans hstep.height, hs'⟩
      have hbudget : A.length + 2 ≤ sa.heap.length := by
        have := SkipArray.length_le_heap h.nodup fun x hx => (h.alive x hx).imp fun _ hn => hn.1
        simp only [List.length_append, List.length_cons] at this
        omega
      have hfuel : ∀ {A₁ A₂ : List (Block K V)} {x : Block K V}, A = A₁ ++ x :: A₂ →
          A₂.length + 1 < sa.budget := by
        intro A₁ A₂ x hA
        rw [hA, List.length_append, List.length_cons] at hbudget
        simp only [SkipArray.budget]
        omega
      have hreach : ∀ {x : Block K V}, x ∈ A ++ b :: C → b.height + k < x.height →
          b.height + k < sa.height := fun hx hlt => lt_of_lt_of_le hlt (ht.1 _ hx)
      by_cases hover : sa.height < b.height + k
      · obtain ⟨sa', hr, hspec⟩ := hskip (by omega)
        exact ⟨sa', .above hover hr, hspec⟩
      have hover := not_lt.mp hover
      rcases hprev with rfl | ⟨x, hx, hix, rfl⟩
      · have hhead := SkipArray.headAt_eq h.nodesLen him hl
        cases hA : onLevel (b.height + k) (towers A) with
        | cons p ps =>
            -- the first block on the level is one of `A`
            obtain ⟨A₁, x, A₂, hAx, rfl, hix, -, -⟩ := onLevel_towers_cons hA
            have hcur : (onLevel (b.height + k) (towers (A ++ b :: C))).head? = some x.ptr := by
              rw [towers_append, onLevel_append, hA]
              rfl
            obtain ⟨sa₀, sa₁, y, hy, hiy, hstep, hw, hafter, hl₁⟩ := relinkLevel_from h hc hl hnb
              (by omega) hfn none hAx hix
            obtain ⟨sa', hr, hspec⟩ := hgo hstep hl₁ (hreach (x := x) (by simp [hAx]) hix)
              (Or.inr ⟨y, hy, by omega, rfl⟩)
            exact ⟨sa', .walk hover (by rw [if_pos rfl, hhead, hcur]) hw (hfuel hAx) hafter hr,
              hspec⟩
        | nil =>
            have hcur : (onLevel (b.height + k) (towers (A ++ b :: C))).head? =
                (onLevel (b.height + k) (towers C)).head? := by
              rw [towers_append, onLevel_append, hA, towers_cons,
                onLevel_cons_of_le (by simp), List.nil_append]
            cases hC : (onLevel (b.height + k) (towers C)).head? with
            | none =>
                rw [hcur, hC] at hhead
                obtain ⟨sa', hr, hspec⟩ := hskip (by
                  -- some block reaches every level below the height
                  obtain ⟨t, htm, hth⟩ := ht.2
                  by_contra hlt
                  refine onLevel_towers_ne_nil htm (i := b.height + k) (by omega) ?_
                  rw [hcur, hC])
                exact ⟨sa', .bare hhead hr, hspec⟩
            | some p =>
                obtain ⟨sa₁, hstep, hw, hl₁⟩ :=
                  relinkLevel_front h hc hl hnb (by omega) hA hC
                obtain ⟨ps, hps⟩ := List.head?_eq_some_iff.mp hC
                obtain ⟨C₁, z, C₂, hCz, -, hiz, -, -⟩ := onLevel_towers_cons hps
                obtain ⟨sa', hr, hspec⟩ :=
                  hgo hstep hl₁ (hreach (x := z) (by simp [hCz]) hiz) (Or.inl rfl)
                exact ⟨sa', .walk hover (by rw [if_pos rfl, hhead, hcur, hC]) hw
                  (by rw [SkipArray.budget]; omega) (if_pos rfl) hr, hspec⟩
      · obtain ⟨A₁, A₂, hAx⟩ := List.append_of_mem hx
        obtain ⟨sa₀, sa₁, y, hy, hiy, hstep, hw, hafter, hl₁⟩ := relinkLevel_from h hc hl hnb
          (by omega) hfn (some x.ptr) hAx (by omega)
        obtain ⟨sa', hr, hspec⟩ := hgo hstep hl₁ (hreach (x := x) (by simp [hx]) (by omega))
          (Or.inr ⟨y, hy, by omega, rfl⟩)
        exact ⟨sa', .walk hover (by rw [if_neg (by simp)]; rfl) hw (hfuel hAx) hafter hr, hspec⟩

end Levels

/-- `while (new->height > sa->height)`: the missing heads. -/
theorem raiseHeight_spec {p : Ptr} :
    ∀ {k : ℕ} (sa : SkipArray K V), sa.nodes.length = sa.maxLevel → sa.maxLevel < 256 →
      sa.height + k ≤ sa.maxLevel →
      ∃ sa', raiseHeight p k sa = .ok sa' ∧ LinkOnly sa sa' ∧ sa'.height = sa.height + k ∧
        sa'.links.fwd = sa.links.fwd ∧ sa'.links.back = sa.links.back ∧
        ∀ i, sa'.links.head i =
          if sa.height ≤ i ∧ i < sa.height + k then some p else sa.links.head i
  | 0, sa, _, _, _ => ⟨sa, rfl, .refl sa, rfl, rfl, rfl, fun i => by rw [if_neg (by omega)]⟩
  | k + 1, sa, hlen, hlt, hk => by
      obtain ⟨sa₁, h₁, hstep, hhead, hfwd⟩ :=
        SkipArray.setHead_spec (some p) (show sa.height < sa.nodes.length by omega)
      have hu : u8 ((sa₁.height : ℤ) + 1) = sa.height + 1 := by
        rw [hstep.height]
        exact_mod_cast u8_of_lt (n := sa.height + 1) (by omega)
      have hset := hstep.linkOnly.settings
      have hmax : sa₁.maxLevel = sa.maxLevel := congrArg Settings.maxLevel hset
      have hsame : LinkOnly sa { sa₁ with height := sa.height + 1 } :=
        ⟨hset, hstep.linkOnly.prngState, hstep.linkOnly.iter, hstep.linkOnly.iters,
          hstep.linkOnly.nodesLen, hstep.linkOnly.heapLen, hstep.linkOnly.payload⟩
      obtain ⟨sa₂, h₂, hlo, hh, hf, hb, hhd⟩ := raiseHeight_spec (p := p) (k := k)
        { sa₁ with height := sa.height + 1 }
        (by simp only [hstep.linkOnly.nodesLen, hlen, hmax]) (by simp only [hmax, hlt])
        (by simp only [hmax]; omega)
      refine ⟨sa₂, ?_, hsame.trans hlo, by rw [hh]; simp only; omega, ?_, ?_, fun i => ?_⟩
      · rw [raiseHeight, h₁, ok_bind, hu]
        exact h₂
      · rw [hf]
        funext j
        by_cases hj : j = sa.height
        · rw [hj]
          exact hfwd
        · exact hstep.same.fwd j hj
      · rw [hb]
        exact hstep.same.back
      · rw [hhd]
        simp only
        by_cases hi : i = sa.height
        · subst hi
          rw [if_neg (by omega), if_pos (by omega)]
          exact hhead
        · have := hstep.same.head i hi
          split_ifs <;> first | rfl | omega | exact this

section New

variable [Inhabited V]

/-- The levels above the old height spell `new` alone. -/
theorem Spliced.raise (h : Splitting cmp sa A b new C) (ht : sa.Tallest (A ++ b :: C))
    (hs : Spliced (fun i => new.height ≤ i ∨ b.height ≤ i ∧ i < sa.height) sa A b new C)
    (hfwd : sa'.links.fwd = sa.links.fwd) (hback : sa'.links.back = sa.links.back)
    (hset : sa'.toSettings = sa.toSettings)
    (hhead : ∀ i, sa'.links.head i =
      if sa.height ≤ i ∧ i < sa.height + (new.height - sa.height) then some new.ptr
      else sa.links.head i) :
    Spliced (fun i => new.height ≤ i ∨ b.height ≤ i) sa' A b new C where
  finished i hi hdone := by
    rw [hset] at hi
    by_cases hnew : sa.height ≤ i ∧ i < new.height
    · obtain ⟨hl, hfn⟩ := hs.pending i hi (by omega)
      have hnone : ∀ bs : List (Block K V), (∀ x ∈ bs, x ∈ A ++ b :: C) →
          onLevel i (towers bs) = [] := fun bs hbs => onLevel_eq_nil fun t htm => by
        obtain ⟨x, hx, rfl⟩ := List.mem_map.mp htm
        exact le_trans (ht.1 x (hbs x hx)) hnew.1
      have hA := hnone (A ++ [b]) fun x hx => by
        rcases List.mem_append.mp hx with hx | hx
        · simp [hx]
        · simp [List.mem_singleton.mp hx]
      have hC := hnone C fun x hx => by simp [hx]
      refine h.insertLevel hl hnew.2 (by rw [hfwd, hfn, hC]; rfl) (fun _ => ?_)
        (fun p hp => absurd hp (by rw [hA]; simp)) fun p _ _ => by rw [hfwd]
      rw [hhead, if_pos (by omega)]
    · refine (hs.finished i hi ?_).congr ?_ fun p _ => by rw [hfwd]
      · omega
      · rw [hhead, if_neg (by omega)]
  pending i hi hdone := by
    rw [hset] at hi
    have hb := (ht.1 b (by simp))
    obtain ⟨hl, hfn⟩ := hs.pending i hi (by omega)
    refine ⟨hl.congr ?_ fun p _ => by rw [hfwd], by rw [hfwd, hfn]⟩
    rw [hhead, if_neg (by omega)]
  backs := by
    rw [hback]
    exact hs.backs

/-- The loop over the levels `b` and `new` share. -/
theorem linkCommon_spec (h : Splitting cmp sa A b new C) (hi : i < b.height)
    (hin : i < new.height) {k : ℕ} (hki : k = i)
    (hs : Spliced (fun j => new.height ≤ j ∨ b.height ≤ j ∨ j < k) sa A b new C) :
    ∃ sa', linkCommon (some b.ptr) new.ptr i sa = .ok sa' ∧ LevelStep i sa sa' ∧
      Spliced (fun j => new.height ≤ j ∨ b.height ≤ j ∨ j < k + 1) sa' A b new C := by
  subst hki
  have him : k < sa.maxLevel := by
    have := (h.top new (by simp)).2
    omega
  obtain ⟨hl, hfn⟩ := hs.pending k him (by omega)
  have hq : sa.links.fwd k b.ptr = (onLevel k (towers C)).head? := by
    rw [towers_append, towers_cons] at hl
    exact hl.fwd_eq hi
  have hne := h.new_ne (x := b) (by simp)
  obtain ⟨sa₁, h₁, hstep₁, hhead₁, hfwd₁⟩ :=
    h.setFwd (x := new) (by simp) hin (sa.links.fwd k b.ptr)
  obtain ⟨sa₂, h₂, hstep₂, hhead₂, hfwd₂⟩ :=
    (h.of_linkOnly hstep₁.linkOnly).setFwd (x := b) (by simp) hi (some new.ptr)
  have hlast : (onLevel k (towers (A ++ [b]))).getLast? = some b.ptr := by
    rw [towers_append, onLevel_append, towers_cons, onLevel_cons_of_lt (by simpa using hi)]
    simp
  refine ⟨sa₂, ?_, hstep₁.trans hstep₂, ?_⟩
  · rw [linkCommon, h.fwdAt (x := b) (by simp) hi, ok_bind, h₁, ok_bind, h₂]
  · refine (hs.step (hstep₁.trans hstep₂) ?_).congr fun j => by omega
    refine h.insertLevel hl hin ?_ (fun hnil => absurd hlast (by rw [hnil]; simp))
      (fun p hp => ?_) fun p hp hpb => ?_
    · rw [hfwd₂, if_neg hne.symm, hfwd₁, if_pos rfl, hq]
    · obtain rfl : b.ptr = p := Option.some.inj (hlast.symm.trans hp)
      exact ⟨hhead₂.trans hhead₁, by rw [hfwd₂, if_pos rfl]⟩
    · rw [hlast] at hpb
      rw [hfwd₂, if_neg fun heq => hpb (by rw [heq]), hfwd₁, if_neg hp]

/-- In `linkNew`, the relinking loop comes to its end. -/
def SkipArray.RelinksNew (cmp : K → K → ℤ) (sa : SkipArray K V) (n : Option Ptr) (new : Ptr) :
    Prop :=
  ∃ nw next sa₀ nd sa₁, sa.load (some new) = .ok nw ∧ sa.fwdAt n 0 = .ok next ∧
    (if next ≠ none then sa.setBack next (some new) else pure sa) = .ok sa₀ ∧
    sa₀.load n = .ok nd ∧ Relinks cmp new nd.height (nw.height - nd.height) sa₀ none sa₁

/-- Linking the node that was split off `b` puts it behind `b` on every level
it reaches. -/
theorem linkNew_spec (hc : LawfulCmp cmp) (h : Splitting cmp sa A b new C)
    (hl : sa.Linked (A ++ b :: C)) (ht : sa.Tallest (A ++ b :: C))
    (hback : sa.links.back new.ptr = some b.ptr)
    (hfwd : ∀ i, sa.links.fwd i new.ptr = none) :
    sa.RelinksNew cmp (some b.ptr) new.ptr ∧
      ∃ sa', linkNew cmp sa (some b.ptr) new.ptr = .ok sa' ∧ LinkOnly sa sa' ∧
        sa'.Linked (A ++ b :: new :: C) ∧ sa'.Tallest (A ++ b :: new :: C) := by
  obtain ⟨nw, hnw, hnwh, -⟩ := h.alive new (by simp)
  obtain ⟨nw', hnw', hhw⟩ := h.stores new (by simp)
  obtain rfl : nw' = nw := Option.some.inj (hnw'.symm.trans hnw)
  have hcount : 0 < nw'.count := by
    rw [hhw.count]
    exact List.length_pos_of_ne_nil (h.nonempty new (by simp))
  have hbpos := (h.top b (by simp)).1
  -- the back pointer of the successor
  have hnext : sa.fwdAt (some b.ptr) 0 = .ok ((C.map Block.ptr).head?) := by
    rw [hl.fwdAt hbpos, onLevel_zero, towers_fst]
    intro t htm
    obtain ⟨x, hx, rfl⟩ := List.mem_map.mp htm
    exact (h.top x (by simp [hx])).1
  obtain ⟨sa₁, h₁, hlo₁, hh₁, hhead₁, hfwd₁, hbacks₁⟩ : ∃ sa₁,
      (if (C.map Block.ptr).head? ≠ none then
        sa.setBack (C.map Block.ptr).head? (some new.ptr) else pure sa) = .ok sa₁ ∧
      LinkOnly sa sa₁ ∧ sa₁.height = sa.height ∧ sa₁.links.head = sa.links.head ∧
      sa₁.links.fwd = sa.links.fwd ∧
      Backs sa₁.links.back none ((towers (A ++ b :: new :: C)).map Prod.fst) := by
    have hnd := hl.spells.nodup
    have hb := hl.spells.backs
    rw [towers_fst, List.map_append, List.map_cons] at hb hnd
    rw [towers_fst, List.map_append, List.map_cons, List.map_cons]
    cases C with
    | nil =>
        refine ⟨sa, rfl, .refl sa, rfl, rfl, rfl, ?_⟩
        exact hb.insertAfter hnd hback (by simp) fun p _ _ => rfl
    | cons c C =>
        obtain ⟨nc, hnc, -⟩ := h.alive c (by simp)
        have hcn := h.new_ne (x := c) (by simp)
        obtain ⟨sa₁, h₁, hlo, hh, hhead, hfwd, hback₁⟩ :=
          SkipArray.setBack_spec (some new.ptr) hnc
        refine ⟨sa₁, by simpa using h₁, hlo, hh, hhead, hfwd,
          hb.insertAfter hnd ?_ (fun p hp => ?_) fun p _ hp => ?_⟩
        · rw [hback₁, if_neg hcn.symm, hback]
        · rw [List.map_cons, List.head?_cons, Option.some.injEq] at hp
          rw [hback₁, if_pos hp.symm]
        · rw [List.map_cons, List.head?_cons, ne_eq, Option.some.injEq] at hp
          rw [hback₁, if_neg fun heq => hp heq.symm]
  have hs₁ := h.of_linkOnly hlo₁
  have hset₁ := hlo₁.settings
  have ht₁ : sa₁.Tallest (A ++ b :: C) := by
    rw [SkipArray.Tallest, hh₁]
    exact ht
  obtain ⟨nb, hnb, hnbh, -⟩ := hs₁.alive b (by simp)
  -- no level is linked yet, those above `new` need nothing
  have hspl₁ : Spliced (fun i => new.height ≤ i) sa₁ A b new C := by
    refine ⟨fun i hi hge => ?_, fun i hi _ => ⟨?_, by rw [hfwd₁]; exact hfwd i⟩, hbacks₁⟩
    all_goals
      rw [hset₁] at hi
      have hlev : sa₁.links.Level i (towers (A ++ b :: C)) :=
        (hl.spells.level i hi).congr (by rw [hhead₁]) fun p _ => by rw [hfwd₁]
    · rw [List.append_cons, towers_append] at hlev ⊢
      exact Links.insertLevel_of_le hlev hge rfl fun _ _ => rfl
    · exact hlev
  obtain ⟨sa₂, hr₂, hlo₂, hh₂, hspl₂⟩ : ∃ sa₂,
      Relinks cmp new.ptr b.height (new.height - b.height) sa₁ none sa₂ ∧
      LinkOnly sa₁ sa₂ ∧ sa₂.height = sa₁.height ∧
      Spliced (fun i => new.height ≤ i ∨ b.height ≤ i ∧ i < sa₂.height) sa₂ A b new C := by
    by_cases hle : b.height ≤ new.height
    · exact relinkLevels_spec hc hs₁ (by omega) ht₁ (Or.inl rfl)
        (hspl₁.congr fun i => by omega)
    · rw [Nat.sub_eq_zero_of_le (by omega)]
      exact ⟨sa₁, .finish, .refl sa₁, rfl, hspl₁.congr fun i => by omega⟩
  have h₂ := hr₂.eq
  have hs₂ := hs₁.of_linkOnly hlo₂
  have ht₂ : sa₂.Tallest (A ++ b :: C) := by
    rw [SkipArray.Tallest, hh₂]
    exact ht₁
  have hmax₂ : sa₂.maxLevel = sa.maxLevel :=
    congrArg Settings.maxLevel (hlo₂.settings.trans hset₁)
  have hnewmax := (h.top new (by simp)).2
  have hheight : sa.height ≤ sa.maxLevel := by
    obtain ⟨t, htm, hth⟩ := ht.2
    have := (hl.top t htm).2
    omega
  obtain ⟨sa₃, h₃, hlo₃, hh₃, hf₃, hb₃, hhd₃⟩ := raiseHeight_spec (p := new.ptr)
    (k := new.height - sa₂.height) sa₂ hs₂.nodesLen (by rw [hmax₂]; exact h.settings.maxLevel_lt)
    (by rw [hh₂, hh₁, hmax₂]; omega)
  have hs₃ := hs₂.of_linkOnly hlo₃
  have hspl₃ := hspl₂.raise hs₂ ht₂ hf₃ hb₃ hlo₃.settings hhd₃
  obtain ⟨sa₄, h₄, hlo₄, hh₄, hspl₄⟩ : ∃ sa₄, forUp (linkCommon (some b.ptr) new.ptr)
      (if b.height < new.height then b.height else new.height) sa₃ = .ok sa₄ ∧
      LinkOnly sa₃ sa₄ ∧ sa₄.height = sa₃.height ∧
      Spliced (fun j => new.height ≤ j ∨ b.height ≤ j ∨
        j < if b.height < new.height then b.height else new.height) sa₄ A b new C := by
    apply forUp_ok (P := fun k s => LinkOnly sa₃ s ∧ s.height = sa₃.height ∧
        Spliced (fun j => new.height ≤ j ∨ b.height ≤ j ∨ j < k) s A b new C)
      ⟨.refl sa₃, rfl, hspl₃.congr fun i => by omega⟩
    rintro k s hk ⟨hlo, hh, hspl⟩
    have hkb : k < b.height ∧ k < new.height := by split_ifs at hk <;> omega
    obtain ⟨s', hs', hstep, hspl'⟩ :=
      linkCommon_spec (hs₃.of_linkOnly hlo) hkb.1 hkb.2 rfl hspl
    exact ⟨s', hs', hlo.trans hstep.linkOnly, hstep.height.trans hh, hspl'⟩
  have hlo := ((hlo₁.trans hlo₂).trans hlo₃).trans hlo₄
  have hs₄ := h.of_linkOnly hlo
  have hheight₄ : sa₄.height = max sa.height new.height := by
    rw [hh₄, hh₃, hh₂, hh₁]
    omega
  refine ⟨⟨nw', _, sa₁, nb, sa₂, SkipArray.load_eq hnw, hnext, h₁, SkipArray.load_eq hnb, ?_⟩,
    sa₄, ?_, hlo, ⟨⟨h.nodup, fun i hi => hspl₄.finished i hi ?_, hspl₄.backs⟩, hs₄.nodesLen,
    hs₄.alive, hs₄.top⟩, fun x hx => ?_, ?_⟩
  · rw [hnwh, hnbh]
    exact hr₂
  · rw [linkNew, SkipArray.load_eq hnw, ok_bind, check_of_pos hcount, ok_bind, hnext, ok_bind,
      h₁, ok_bind, SkipArray.load_eq hnb, ok_bind, hnwh, hnbh, h₂, ok_bind, h₃, ok_bind]
    exact h₄
  · split_ifs <;> omega
  · rw [hheight₄]
    rw [List.append_cons, List.mem_append, List.mem_cons, ← or_assoc, or_right_comm,
      ← List.mem_append, ← List.append_cons] at hx
    rcases hx with hx | rfl
    · exact le_max_of_le_left (ht.1 x hx)
    · exact le_max_right _ _
  · obtain ⟨t, htm, hth⟩ := ht.2
    rw [hheight₄]
    by_cases hle : new.height ≤ sa.height
    · refine ⟨t, ?_, by omega⟩
      rcases List.mem_append.mp htm with htm | htm
      · simp [htm]
      · rcases List.mem_cons.mp htm with rfl | htm <;> simp [*]
    · exact ⟨new, by simp, by omega⟩

end New

end Skiparray
