import Skiparray.Runs.Calls
import Skiparray.Layout.Build
import Skiparray.Layout.Cursor

/-!
# Reachable skiparrays

`Reachable` collects what a client can make of a new or a built skiparray, with
calls and with iterators. `Coherent` holds of all of it. The rest of the file
says what that means for the memory a client's debugger would show: the chain
of each level, the occupancy of the nodes, and that no call faults.
-/

namespace Skiparray

open SkipLinks Fallible

variable {K V U : Type} [Inhabited K] [Inhabited V]

/-! ## Moving an iterator -/

inductive Move (K : Type) where
  | next
  | prev
  | seek (key : K)
  | seekEndpoint (ends : SeekEndpoint)
deriving DecidableEq, Repr

inductive MoveRes where
  | step (res : StepRes)
  | seek (res : SeekRes)
  | placed
deriving DecidableEq, Repr

/-- A movement of iterator `it`. -/
def SkipArray.move (cb : Callbacks K U) (sa : SkipArray K V) (it : Ptr) :
    Move K → Except Fault (MoveRes × SkipArray K V)
  | .next => do
    let (res, sa) ← skiparrayIterNext sa it
    return (.step res, sa)
  | .prev => do
    let (res, sa) ← skiparrayIterPrev sa it
    return (.step res, sa)
  | .seek key => do
    let (res, sa) ← skiparrayIterSeek cb sa it key
    return (.seek res, sa)
  | .seekEndpoint ends => do
    let sa ← skiparrayIterSeekEndpoint sa it ends
    return (.placed, sa)

/-! ## Reachability -/

/-- The builders a client can get that order keys by comparison callback `f`. One
that was told to skip the ascending check is given ascending keys. -/
inductive Built (cb : Callbacks K U) (f : ℕ) : Builder K V → Prop where
  | new {config : Config} {skip : Bool} {c c' : Ctx K V U} {b : Builder K V}
      (hf : config.cmp = some f)
      (h : skiparrayBuilderNew cb (some config) skip c = .ok (.ok, some b, c')) : Built cb f b
  | append {b b' : Builder K V} {c c' : Ctx K V U} {key : K} {value : V} {res : AppendRes}
      (hb : Built cb f b)
      (hskip : b.checkAscending = false → ∀ k v,
        skiparrayLast b.sa = .ok (.ok, some k, v) → cb.cmp f k key < 0)
      (h : skiparrayBuilderAppend cb b c key value = .ok (res, b', c')) : Built cb f b'

/-- The skiparrays a client can get that order keys by comparison callback `f`. -/
inductive Reachable (cb : Callbacks K U) (f : ℕ) : SkipArray K V → Prop where
  | new {config : Config} {c c' : Ctx K V U} {sa : SkipArray K V} (hf : config.cmp = some f)
      (h : skiparrayNew cb (some config) c = .ok (.ok, some sa, c')) : Reachable cb f sa
  | finish {b : Builder K V} {c c' : Ctx K V U} {sa : SkipArray K V} (hb : Built cb f b)
      (h : skiparrayBuilderFinish b c = (sa, c')) : Reachable cb f sa
  | call {sa sa' : SkipArray K V} {c c' : Ctx K V U} {call : Call K V} {answer : Answer K V}
      (hs : Reachable cb f sa) (h : sa.call cb c call = .ok (answer, sa', c')) : Reachable cb f sa'
  | iterNew {sa sa' : SkipArray K V} {c c' : Ctx K V U} {res : IterNewRes} {it : Option Ptr}
      (hs : Reachable cb f sa) (h : skiparrayIterNew cb sa c = .ok (res, it, sa', c')) :
      Reachable cb f sa'
  | iterFree {sa sa' : SkipArray K V} {c c' : Ctx K V U} {it : Option Ptr}
      (hs : Reachable cb f sa) (h : skiparrayIterFree sa c it = .ok (sa', c')) : Reachable cb f sa'
  | move {sa sa' : SkipArray K V} {it : Ptr} {move : Move K} {res : MoveRes}
      (hs : Reachable cb f sa) (h : sa.move cb it move = .ok (res, sa')) : Reachable cb f sa'

/-! ## The invariant -/

omit [Inhabited K] in
/-- A well-formed skiparray whose live iterators are `its`, each at a position. -/
structure SkipArray.Coherent (cmp : K → K → ℤ) (sa : SkipArray K V) (bs : List (Block K V))
    (its : List Ptr) : Prop extends sa.Wf cmp bs where
  cursors : sa.Cursors its
  placed : ∀ p ∈ its, ∃ pos, sa.At bs p pos
  held : its ≠ [] → bindings bs ≠ []

section Steps

variable {cb : Callbacks K U} {sa sa' : SkipArray K V} {bs : List (Block K V)} {its : List Ptr}
  {c c' : Ctx K V U}

omit [Inhabited K] [Inhabited V] in
theorem SkipArray.Cursors.nil (hiter : sa.iter = none) (hiters : sa.iters = []) :
    sa.Cursors [] := by
  refine ⟨hiter, trivial, List.nodup_nil, ?_⟩
  intro p
  simp [SkipArray.iter?, hiters]

omit [Inhabited K] [Inhabited V] in
theorem SkipArray.iter?_of_load {p : Ptr} {m : Iter} (h : sa.loadIter (some p) = .ok m) :
    sa.iter? p = some m := by
  rw [SkipArray.loadIter] at h
  cases hi : sa.iter? p with
  | none =>
      rw [hi] at h
      cases h
  | some m' =>
      rw [hi] at h
      cases h
      rfl

omit [Inhabited K] in
theorem SkipArray.Wf.coherent {cmp : K → K → ℤ} (h : sa.Wf cmp bs) (hiter : sa.iter = none)
    (hiters : sa.iters = []) : sa.Coherent cmp bs [] :=
  ⟨h, .nil hiter hiters, by simp, by simp⟩

omit [Inhabited K] in
/-- An iterator that stands somewhere is live, and there are bindings. -/
theorem SkipArray.Coherent.of_iter {cmp : K → K → ℤ} (h : sa.Coherent cmp bs its) {p : Ptr}
    {it : Iter} (hit : sa.iter? p = some it) : bindings bs ≠ [] ∧ ∃ pos, sa.At bs p pos := by
  have hp := h.cursors.mem hit
  exact ⟨h.held (List.ne_nil_of_mem hp), h.placed p hp⟩

omit [Inhabited K] in
/-- An unlocked skiparray stays unlocked by what leaves its iterators alone. -/
theorem SkipArray.Coherent.of_keeps {cmp : K → K → ℤ} {bs' : List (Block K V)}
    (h : sa.Coherent cmp bs []) (hkeep : Keeps sa sa') (hwf : sa'.Wf cmp bs') :
    sa'.Coherent cmp bs' [] := by
  refine ⟨hwf, ⟨hkeep.iter.trans h.cursors.chain, trivial, List.nodup_nil, ?_⟩, by simp, by simp⟩
  intro p
  have := h.cursors.live p
  rwa [SkipArray.iter?, ← hkeep.iters] at this

omit [Inhabited K] in
/-- What a call does not touch stays coherent. -/
theorem SkipArray.Coherent.of_leaves {cmp : K → K → ℤ} (h : sa.Coherent cmp bs []) {l : List (K × V)}
    (hl : Leaves cmp sa c sa' c' l) : ∃ bs', sa'.Coherent cmp bs' [] ∧ bindings bs' = l := by
  obtain ⟨hkeep, -, bs', hwf, hbind⟩ := hl
  exact ⟨bs', h.of_keeps hkeep hwf, hbind⟩

theorem SkipArray.Coherent.call (h : sa.Coherent (cb.cmp sa.cmp) bs its)
    (hc : LawfulCmp (cb.cmp sa.cmp)) {call : Call K V} {answer : Answer K V}
    (hcall : sa.call cb c call = .ok (answer, sa', c')) :
    sa'.toSettings = sa.toSettings ∧ ∃ bs', sa'.Coherent (cb.cmp sa.cmp) bs' its := by
  cases hiter : sa.iter with
  | some it =>
      obtain ⟨rfl, -⟩ := call_locked hiter hcall
      exact ⟨rfl, bs, h⟩
  | none =>
      have hnil := h.cursors.iter_eq_none.mp hiter
      subst hnil
      obtain ⟨l', hl, -⟩ := call_ok hc h.toWf hcall
      obtain ⟨bs', hco, -⟩ := h.of_leaves hl
      exact ⟨hl.keeps.settings, bs', hco⟩

omit [Inhabited K] in
theorem SkipArray.Coherent.iterNew {cmp : K → K → ℤ} (h : sa.Coherent cmp bs its)
    {res : IterNewRes} {it : Option Ptr} (hout : IterNewOutcome cb sa bs c res it sa' c') :
    IterOnly sa sa' ∧ sa'.Coherent cmp bs (match it with
      | none => its
      | some p => p :: its) := by
  cases hout with
  | empty hnil => exact ⟨.refl sa, h⟩
  | memory hne ha => exact ⟨.refl sa, h⟩
  | ok hne ha =>
      refine ⟨.withIter .., (IterOnly.withIter ..).wf h.toWf, h.cursors.withIter .., ?_, fun _ => hne⟩
      intro p hp
      rcases List.mem_cons.mp hp with rfl | hp
      · exact ⟨0, .withIter h.toWf hne _⟩
      · obtain ⟨pos, hat⟩ := h.placed p hp
        refine ⟨pos, hat.congr (SkipArray.payload_withIter ?_)⟩
        rintro rfl
        obtain ⟨it, hit⟩ := h.cursors.isSome hp
        exact lt_irrefl _ (SkipArray.iter_lt hit)

omit [Inhabited K] in
theorem SkipArray.Coherent.iterFree {cmp : K → K → ℤ} {xs ys : List Ptr} {p : Ptr}
    (h : sa.Coherent cmp bs (xs ++ p :: ys)) (c : Ctx K V U) :
    ∃ sa' it, sa.iter? p = some it ∧
      skiparrayIterFree sa c (some p) = .ok (sa', c.release it.block) ∧ IterOnly sa sa' ∧
      sa'.Coherent cmp bs (xs ++ ys) := by
  obtain ⟨it, hit⟩ := h.cursors.isSome (p := p) (by simp)
  obtain ⟨sa', hfree, ho, hcur, -, hgone, hpay⟩ := skiparrayIterFree_spec h.cursors hit c
  refine ⟨sa', it, hit, hfree, ho, ho.wf h.toWf, hcur, ?_, fun _ => h.held (by simp)⟩
  intro q hq
  obtain ⟨pos, hat⟩ := h.placed q (by
    rcases List.mem_append.mp hq with hq | hq <;> simp [hq])
  refine ⟨pos, hat.congr (hpay q ?_)⟩
  rintro rfl
  obtain ⟨m, hm⟩ := hcur.isSome hq
  rw [hgone] at hm
  cases hm

omit [Inhabited K] in
/-- A moved iterator stays in the list, the others where they are. -/
theorem SkipArray.Coherent.moves {cmp : K → K → ℤ} (h : sa.Coherent cmp bs its) {p : Ptr} {pos : ℕ}
    (hm : sa.Moves p sa') (hat : sa'.At bs p pos) : sa'.Coherent cmp bs its := by
  refine ⟨hm.iterOnly.wf h.toWf, hm.cursors h.cursors, ?_, h.held⟩
  intro q hq
  by_cases hqp : q = p
  · exact ⟨pos, hqp ▸ hat⟩
  · obtain ⟨pos', hat'⟩ := h.placed q hq
    exact ⟨pos', hat'.of_eq (hm.iter?_ne hqp)⟩

omit [Inhabited K] in
/-- Movements of a live iterator succeed, wherever it stands. -/
theorem SkipArray.Coherent.move (h : sa.Coherent (cb.cmp sa.cmp) bs its)
    (hc : LawfulCmp (cb.cmp sa.cmp)) {p : Ptr} {it : Iter} (hit : sa.iter? p = some it)
    (move : Move K) :
    ∃ res sa', sa.move cb p move = .ok (res, sa') ∧ sa.Moves p sa' ∧
      sa'.Coherent (cb.cmp sa.cmp) bs its := by
  obtain ⟨hne, pos, hat⟩ := h.of_iter hit
  cases move with
  | next =>
      obtain ⟨res, sa', pos', heq, hm, hat', -⟩ := skiparrayIterNext_spec h.toWf hne hat
      exact ⟨_, sa', by rw [SkipArray.move, heq]; rfl, hm, h.moves hm hat'⟩
  | prev =>
      obtain ⟨sa', heq, hm, hat', -⟩ := skiparrayIterPrev_spec h.toWf hne hat
      exact ⟨_, sa', by rw [SkipArray.move, heq]; rfl, hm, h.moves hm hat'⟩
  | seek key =>
      obtain ⟨sa', heq, hm, hat', -⟩ := skiparrayIterSeek_spec hc h.toWf hne hat key
      exact ⟨_, sa', by rw [SkipArray.move, heq]; rfl, hm, h.moves hm hat'⟩
  | seekEndpoint ends =>
      obtain ⟨sa', heq, hm, hat'⟩ := skiparrayIterSeekEndpoint_spec h.toWf hne hit ends
      exact ⟨_, sa', by rw [SkipArray.move, heq]; rfl, hm, h.moves hm hat'⟩

omit [Inhabited K] in
/-- A release that came back took a live iterator out, or none at all. -/
theorem SkipArray.Coherent.of_iterFree {cmp : K → K → ℤ} (h : sa.Coherent cmp bs its)
    {it : Option Ptr} (hfree : skiparrayIterFree sa c it = .ok (sa', c')) :
    IterOnly sa sa' ∧ ∃ its', sa'.Coherent cmp bs its' := by
  cases it with
  | none =>
      cases hfree
      exact ⟨.refl sa, its, h⟩
  | some p =>
      obtain ⟨m, hload, -⟩ := bind_eq_ok.mp hfree
      have hm := SkipArray.iter?_of_load hload
      obtain ⟨xs, ys, rfl⟩ := List.append_of_mem (h.cursors.mem hm)
      obtain ⟨sa'', it, -, hfree', ho, hco⟩ := h.iterFree c
      rw [hfree] at hfree'
      cases hfree'
      exact ⟨ho, _, hco⟩

omit [Inhabited K] [Inhabited V] in
/-- A movement that came back loaded its iterator. -/
theorem SkipArray.isSome_of_move {p : Ptr} {move : Move K} {res : MoveRes}
    (h : sa.move cb p move = .ok (res, sa')) : ∃ it, sa.iter? p = some it := by
  have hload : ∃ it, sa.loadIter (some p) = .ok it := by
    cases move with
    | next =>
        obtain ⟨r, hr, -⟩ := bind_eq_ok.mp h
        exact (bind_eq_ok.mp hr).imp fun _ hm => hm.1
    | prev =>
        obtain ⟨r, hr, -⟩ := bind_eq_ok.mp h
        exact (bind_eq_ok.mp hr).imp fun _ hm => hm.1
    | seek key =>
        obtain ⟨r, hr, -⟩ := bind_eq_ok.mp h
        exact (bind_eq_ok.mp hr).imp fun _ hm => hm.1
    | seekEndpoint ends =>
        obtain ⟨r, hr, -⟩ := bind_eq_ok.mp h
        exact (bind_eq_ok.mp hr).imp fun _ hm => hm.1
  obtain ⟨it, hload⟩ := hload
  exact ⟨it, SkipArray.iter?_of_load hload⟩

omit [Inhabited K] in
theorem SkipArray.Coherent.of_move (h : sa.Coherent (cb.cmp sa.cmp) bs its)
    (hc : LawfulCmp (cb.cmp sa.cmp)) {p : Ptr} {move : Move K} {res : MoveRes}
    (hmove : sa.move cb p move = .ok (res, sa')) :
    IterOnly sa sa' ∧ sa'.Coherent (cb.cmp sa.cmp) bs its := by
  obtain ⟨m, hm⟩ := SkipArray.isSome_of_move hmove
  obtain ⟨res', sa'', heq, hmv, hco⟩ := h.move hc hm move
  rw [hmove] at heq
  cases heq
  exact ⟨hmv.iterOnly, hco⟩

omit [Inhabited K] in
/-- A key above the last one appended is above them all. -/
theorem Building.above {cmp : K → K → ℤ} {b : Builder K V} (h : Building cmp b bs)
    (hc : LawfulCmp cmp) {key : K} (hskip : b.checkAscending = false → ∀ k v,
      skiparrayLast b.sa = .ok (.ok, some k, v) → cmp k key < 0) :
    b.checkAscending = false → ∀ p ∈ bindings bs, cmp p.1 key < 0 := by
  intro hno
  apply above_all hc h.wf.ascending
  intro p hp
  apply hskip hno p.1 (b.sa.out p.2)
  rw [skiparrayLast_spec h.wf, hp]
  rfl

end Steps

section Reach

variable {cb : Callbacks K U} {f : ℕ} {sa : SkipArray K V}

theorem Built.building {b : Builder K V} (h : Built cb f b) (hc : LawfulCmp (cb.cmp f)) :
    b.sa.cmp = f ∧ ∃ bs, Building (cb.cmp f) b bs := by
  induction h with
  | new hf h =>
      obtain ⟨cfg, bs, heq, hbuild, -, -, cmp, block, hcmp, hset⟩ := skiparrayBuilderNew_ok h
      cases heq
      rw [hf, Option.some.injEq] at hcmp
      subst hcmp
      exact ⟨congrArg Settings.cmp hset, bs, hbuild _⟩
  | @append b b' c c' key value res hb hskip h ih =>
      obtain ⟨rfl, bs, hbuild⟩ := ih
      obtain ⟨res', b'', c'', heq, -, hkeep, hout⟩ :=
        skiparrayBuilderAppend_spec cb hc hbuild c key value (hbuild.above hc hskip)
      rw [h] at heq
      cases heq
      refine ⟨congrArg Settings.cmp hkeep.settings, ?_⟩
      cases hout with
      | misuse _ => exact ⟨bs, hbuild⟩
      | memory _ _ _ _ => exact ⟨bs, hbuild.withPrngState _⟩
      | ok _ _ _ hb' _ _ => exact ⟨_, hb'⟩

/-- Every reachable skiparray is coherent. -/
theorem Reachable.coherent (h : Reachable cb f sa) (hc : LawfulCmp (cb.cmp f)) :
    sa.cmp = f ∧ ∃ bs its, sa.Coherent (cb.cmp f) bs its := by
  induction h with
  | new hf h =>
      obtain ⟨cfg, bs, heq, hfresh, -⟩ := skiparrayNew_ok h
      cases heq
      obtain ⟨cmp, block, hcmp, hset⟩ := hfresh.settings
      rw [hf, Option.some.injEq] at hcmp
      subst hcmp
      exact ⟨congrArg Settings.cmp hset, bs, [], (hfresh.wf _).coherent hfresh.iter hfresh.iters⟩
  | finish hb h =>
      obtain ⟨hcmp, bs, hbuild⟩ := hb.building hc
      cases h
      exact ⟨hcmp, bs, [], hbuild.wf.coherent hbuild.iter hbuild.iters⟩
  | call hs h ih =>
      obtain ⟨rfl, bs, its, hco⟩ := ih
      obtain ⟨hset, bs', hco'⟩ := hco.call hc h
      exact ⟨congrArg Settings.cmp hset, bs', its, hco'⟩
  | @iterNew sa sa' c c' res it hs h ih =>
      obtain ⟨rfl, bs, its, hco⟩ := ih
      obtain ⟨res', it', sa'', c'', heq, hout⟩ := skiparrayIterNew_spec cb hco.toWf hco.cursors c
      rw [h] at heq
      cases heq
      obtain ⟨ho, hco'⟩ := hco.iterNew hout
      exact ⟨congrArg Settings.cmp ho.settings, bs, _, hco'⟩
  | iterFree hs h ih =>
      obtain ⟨rfl, bs, its, hco⟩ := ih
      obtain ⟨ho, its', hco'⟩ := hco.of_iterFree h
      exact ⟨congrArg Settings.cmp ho.settings, bs, its', hco'⟩
  | move hs h ih =>
      obtain ⟨rfl, bs, its, hco⟩ := ih
      obtain ⟨ho, hco'⟩ := hco.of_move hc h
      exact ⟨congrArg Settings.cmp ho.settings, bs, its, hco'⟩

end Reach

/-! ## A small instance -/

/-- Integer keys, level 0 only, memory for everything. -/
def Callbacks.plain : Callbacks ℤ Unit where
  cmp _ a b := a - b
  level _ _ out _ := (0, out, ())
  grant _ := true

/-- The smallest nodes there are. -/
def Config.plain : Config where
  nodeSize := 2
  maxLevel := 1
  seed := 0
  ignoreValues := false
  cmp := some 0
  memory := none
  free := some 0
  level := some 0

/-- What `skiparray_new` makes of `Config.plain`. -/
def SkipArray.plain : SkipArray ℤ ℤ where
  nodeSize := 2
  maxLevel := 1
  useValues := true
  mem := none
  cmp := 0
  free := some 0
  level := some 0
  block := 0
  height := 1
  prngState := 0
  iter := none
  nodes := [some 0]
  heap := [some ⟨1, 1, 0, [0, 0], some [0, 0], none, [none], 1, 2, 3⟩]
  iters := []

theorem SkipArray.plain_new :
    skiparrayNew Callbacks.plain (some Config.plain) ⟨(), 0, [], []⟩ =
      .ok (.ok, some SkipArray.plain, ⟨(), 4, [], []⟩) := rfl

theorem SkipArray.plain_reachable : Reachable Callbacks.plain 0 SkipArray.plain :=
  .new rfl SkipArray.plain_new

/-- `SkipArray.plain` with key 1 bound to 10. -/
def SkipArray.plainOne : SkipArray ℤ ℤ where
  toSettings := SkipArray.plain.toSettings
  height := 1
  prngState := 0
  iter := none
  nodes := [some 0]
  heap := [some ⟨1, 1, 1, [0, 1], some [0, 10], none, [none], 1, 2, 3⟩]
  iters := []

theorem SkipArray.plainOne_set :
    SkipArray.plain.call Callbacks.plain ⟨(), 4, [], []⟩ (.set 1 10) =
      .ok (.set .bound, SkipArray.plainOne, ⟨(), 4, [], []⟩) := rfl

theorem SkipArray.plainOne_reachable : Reachable Callbacks.plain 0 SkipArray.plainOne :=
  .call SkipArray.plain_reachable SkipArray.plainOne_set

/-- `SkipArray.plainOne` with an iterator. -/
def SkipArray.plainRead : SkipArray ℤ ℤ :=
  { SkipArray.plainOne with iter := some 0, iters := [some ⟨none, none, some 0, 0, 4⟩] }

theorem SkipArray.plainRead_iterNew :
    skiparrayIterNew Callbacks.plain SkipArray.plainOne ⟨(), 4, [], []⟩ =
      .ok (.ok, some 0, SkipArray.plainRead, ⟨(), 5, [], []⟩) := rfl

theorem SkipArray.plainRead_reachable : Reachable Callbacks.plain 0 SkipArray.plainRead :=
  .iterNew SkipArray.plainOne_reachable SkipArray.plainRead_iterNew

/-- Two levels, of which `Callbacks.plain` only asks for the lower one. -/
def Config.flat : Config := { Config.plain with maxLevel := 2 }

/-- A skiparray made from `Config.flat`, with one node. -/
def SkipArray.flat (offset count : ℕ) (keys values : List ℤ) : SkipArray ℤ ℤ :=
  { SkipArray.plain with
    maxLevel := 2
    nodes := [some 0, none]
    heap := [some ⟨1, offset, count, keys, some values, none, [none], 1, 2, 3⟩] }

/-- After the third pair it has two, the second one on both levels. -/
def SkipArray.flatSplit : SkipArray ℤ ℤ :=
  { SkipArray.plain with
    maxLevel := 2
    height := 2
    nodes := [some 0, some 1]
    heap := [some ⟨1, 0, 1, [1, 2], some [10, 20], none, [some 1], 1, 2, 3⟩,
      some ⟨2, 0, 2, [2, 3], some [20, 30], some 0, [none, none], 4, 5, 6⟩] }

theorem SkipArray.flat_new :
    skiparrayNew Callbacks.plain (some Config.flat) ⟨(), 0, [], []⟩ =
      .ok (.ok, some (SkipArray.flat 1 0 [0, 0] [0, 0]), ⟨(), 4, [], []⟩) := rfl

theorem SkipArray.flat_set_first :
    (SkipArray.flat 1 0 [0, 0] [0, 0]).call Callbacks.plain ⟨(), 4, [], []⟩ (.set 1 10) =
      .ok (.set .bound, SkipArray.flat 1 1 [0, 1] [0, 10], ⟨(), 4, [], []⟩) := rfl

theorem SkipArray.flat_set_second :
    (SkipArray.flat 1 1 [0, 1] [0, 10]).call Callbacks.plain ⟨(), 4, [], []⟩ (.set 2 20) =
      .ok (.set .bound, SkipArray.flat 0 2 [1, 2] [10, 20], ⟨(), 4, [], []⟩) := rfl

theorem SkipArray.flat_set_third :
    (SkipArray.flat 0 2 [1, 2] [10, 20]).call Callbacks.plain ⟨(), 4, [], []⟩ (.set 3 30) =
      .ok (.set .bound, SkipArray.flatSplit, ⟨(), 7, [], []⟩) := rfl

theorem SkipArray.flatSplit_reachable : Reachable Callbacks.plain 0 SkipArray.flatSplit :=
  .call (.call (.call (.new rfl SkipArray.flat_new) SkipArray.flat_set_first)
    SkipArray.flat_set_second) SkipArray.flat_set_third

/-- `SkipArray.flatSplit` without its first pair: the two nodes are merged. -/
def SkipArray.flatRest : SkipArray ℤ ℤ :=
  { SkipArray.plain with
    maxLevel := 2
    nodes := [some 0, none]
    heap := [some ⟨1, 0, 2, [2, 3], some [20, 30], none, [none], 1, 2, 3⟩, none] }

theorem SkipArray.flatSplit_popFirst :
    SkipArray.flatSplit.call Callbacks.plain ⟨(), 7, [], []⟩ .popFirst =
      .ok (.pop .ok (some 1) (some 10), SkipArray.flatRest, ⟨(), 7, [4, 6, 5], []⟩) := rfl

theorem SkipArray.flatRest_reachable : Reachable Callbacks.plain 0 SkipArray.flatRest :=
  .call SkipArray.flatSplit_reachable SkipArray.flatSplit_popFirst

/-- `SkipArray.flatSplit` with an iterator. -/
def SkipArray.flatRead : SkipArray ℤ ℤ :=
  { SkipArray.flatSplit with iter := some 0, iters := [some ⟨none, none, some 0, 0, 7⟩] }

theorem SkipArray.flatRead_iterNew :
    skiparrayIterNew Callbacks.plain SkipArray.flatSplit ⟨(), 7, [], []⟩ =
      .ok (.ok, some 0, SkipArray.flatRead, ⟨(), 8, [], []⟩) := rfl

theorem SkipArray.flatRead_reachable : Reachable Callbacks.plain 0 SkipArray.flatRead :=
  .iterNew SkipArray.flatSplit_reachable SkipArray.flatRead_iterNew

end Skiparray
