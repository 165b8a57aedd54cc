import Skiparray.Runs.Beside
import Skiparray.Runs.Clients
import Skiparray.Runs.Filters

/-!
# What things take up

A skiparray takes up its own block, those of its nodes and those of its iterators,
a fold two blocks, a builder one and its skiparray. Every function of the library
that comes back, with whatever result, trades the memory that its arguments took
up for what they take up then.
-/

namespace Skiparray

open SkipLinks Fallible

variable {K V U W : Type} [Inhabited K] [Inhabited V]

/-! ## Sums over lists -/

section Sums

variable {α : Type} {R : α → Multiset ℕ → Prop} {xs ys : List α} {x : α} {mem mem' : Multiset ℕ}
  {i : ℕ}

/-- What the elements of the list take up, by `R`, is `mem` in total. -/
def SumsTo (R : α → Multiset ℕ → Prop) (xs : List α) (mem : Multiset ℕ) : Prop :=
  ∃ ms, List.Forall₂ R xs ms ∧ mem = ms.sum

theorem SumsTo.nil : SumsTo R [] 0 := ⟨[], .nil, rfl⟩

theorem SumsTo.append (h : SumsTo R xs mem) (h' : SumsTo R ys mem') :
    SumsTo R (xs ++ ys) (mem + mem') := by
  obtain ⟨ms, hall, rfl⟩ := h
  obtain ⟨ms', hall', rfl⟩ := h'
  exact ⟨ms ++ ms', List.rel_append hall hall', by rw [List.sum_append]⟩

theorem SumsTo.singleton (h : R x mem) : SumsTo R [x] mem :=
  ⟨[mem], .cons h .nil, by simp⟩

/-- One of them, and the rest with another in its place, or without it. -/
theorem SumsTo.split (h : SumsTo R xs mem) (hx : xs[i]? = some x) :
    ∃ m rest, R x m ∧ mem = m + rest ∧ SumsTo R (xs.eraseIdx i) rest ∧
      ∀ x' m', R x' m' → SumsTo R (xs.set i x') (m' + rest) := by
  obtain ⟨ms, hall, rfl⟩ := h
  induction hall generalizing i with
  | nil => cases hx
  | @cons y m xs ms hy hall ih =>
      cases i with
      | zero =>
          obtain rfl := Option.some.inj hx
          exact ⟨m, ms.sum, hy, rfl, ⟨ms, hall, rfl⟩, fun x' m' h' => ⟨m' :: ms, .cons h' hall, rfl⟩⟩
      | succ i =>
          obtain ⟨m₁, rest, hm₁, hsum, ⟨ms₁, hall₁, rfl⟩, hset⟩ := ih hx
          refine ⟨m₁, m + ms₁.sum, hm₁, ?_, ⟨m :: ms₁, .cons hy hall₁, rfl⟩, ?_⟩
          · rw [List.sum_cons, hsum, add_left_comm]
          · intro x' m' h'
            obtain ⟨ms', hall', hsum'⟩ := hset x' m' h'
            refine ⟨m :: ms', .cons hy hall', ?_⟩
            rw [List.sum_cons, ← hsum', add_left_comm]

variable {cb : Callbacks K U} {c c' : Ctx K V U} {x' : α}

omit [Inhabited K] [Inhabited V] in
/-- One of them trades. -/
theorem SumsTo.one (h : SumsTo R xs mem) (hx : xs[i]? = some x)
    (hstep : ∀ m, R x m → ∃ m', R x' m' ∧ Trades cb c m c' m') :
    ∃ mem', SumsTo R (xs.set i x') mem' ∧ Trades cb c mem c' mem' := by
  obtain ⟨m, rest, hm, rfl, -, hset⟩ := h.split hx
  obtain ⟨m', hm', ht⟩ := hstep m hm
  exact ⟨m' + rest, hset x' m' hm', ht.frame rest⟩

omit [Inhabited K] [Inhabited V] in
/-- Others join them, with what they were granted. -/
theorem SumsTo.gain (h : SumsTo R xs mem) (hgain : ∃ m, SumsTo R ys m ∧ Trades cb c 0 c' m) :
    ∃ mem', SumsTo R (xs ++ ys) mem' ∧ Trades cb c mem c' mem' := by
  obtain ⟨m, hm, ht⟩ := hgain
  have hframe := ht.frame mem
  rw [zero_add, add_comm] at hframe
  exact ⟨mem + m, h.append hm, hframe⟩

omit [Inhabited K] [Inhabited V] in
/-- One of them gives back all it takes up. -/
theorem SumsTo.drop (h : SumsTo R xs mem) (hx : xs[i]? = some x)
    (hdrop : ∀ m, R x m → Trades cb c m c' 0) :
    ∃ mem', SumsTo R (xs.eraseIdx i) mem' ∧ Trades cb c mem c' mem' := by
  obtain ⟨m, rest, hm, rfl, herase, -⟩ := h.split hx
  have hframe := (hdrop m hm).frame rest
  rw [zero_add] at hframe
  exact ⟨rest, herase, hframe⟩

end Sums

/-! ## What a skiparray takes up -/

/-- The memory block of iterator `p`. -/
def SkipArray.iterBlock (sa : SkipArray K V) (p : Ptr) : ℕ :=
  ((sa.iter? p).map Iter.block).getD 0

/-- A client's skiparray takes up `mem`: its own block, those of its nodes and those
of its iterators. -/
def SkipArray.TakesUp (cb : Callbacks K U) (sa : SkipArray K V) (mem : Multiset ℕ) : Prop :=
  LawfulCmp (cb.cmp sa.cmp) ∧ Reachable cb sa.cmp sa ∧ ∃ bs its,
    sa.Coherent (cb.cmp sa.cmp) bs its ∧
      mem = (its.map sa.iterBlock : List ℕ) + (sa.blocks bs : Multiset ℕ)

section One

variable {cb : Callbacks K U} {sa sa' : SkipArray K V} {bs : List (Block K V)} {its : List Ptr}
  {c c' : Ctx K V U} {mem : Multiset ℕ} {n : ℕ}

omit [Inhabited K] [Inhabited V] in
theorem IterOnly.blocks (h : IterOnly sa sa') (bs : List (Block K V)) :
    sa'.blocks bs = sa.blocks bs := by
  unfold SkipArray.blocks SkipArray.node?
  rw [h.settings, h.heap]

omit [Inhabited K] [Inhabited V] in
theorem SkipArray.iterBlock_congr {q : Ptr}
    (h : (sa'.iter? q).map Iter.payload = (sa.iter? q).map Iter.payload) :
    sa'.iterBlock q = sa.iterBlock q := by
  have hb : (sa'.iter? q).map Iter.block = (sa.iter? q).map Iter.block := by
    have := congrArg (Option.map Iter.block) h
    rwa [Option.map_map, Option.map_map] at this
  rw [SkipArray.iterBlock, SkipArray.iterBlock, hb]

omit [Inhabited K] [Inhabited V] in
theorem SkipArray.iterBlocks_congr (h : ∀ q ∈ its, (sa'.iter? q).map Iter.payload =
    (sa.iter? q).map Iter.payload) : its.map sa'.iterBlock = its.map sa.iterBlock :=
  List.map_congr_left fun q hq => SkipArray.iterBlock_congr (h q hq)

/-- A call on an unlocked skiparray trades the memory of its nodes. -/
theorem call_trades (hc : LawfulCmp (cb.cmp sa.cmp)) (h : sa.Wf (cb.cmp sa.cmp) bs)
    (hiter : sa.iter = none) {call : Call K V} {answer : Answer K V}
    (hcall : sa.call cb c call = .ok (answer, sa', c')) :
    ∃ bs', sa'.Wf (cb.cmp sa.cmp) bs' ∧ Trades cb c (sa.blocks bs) c' (sa'.blocks bs') := by
  have hread : sa' = sa ∧ c' = c →
      ∃ bs', sa'.Wf (cb.cmp sa.cmp) bs' ∧ Trades cb c (sa.blocks bs) c' (sa'.blocks bs') := by
    rintro ⟨rfl, rfl⟩
    exact ⟨bs, h, .refl _ _⟩
  cases call with
  | set key value =>
      obtain ⟨res, prev, s, c₁, heq, -, hmem⟩ :=
        skiparraySetWithPair_memory cb hc h hiter c key value true
      rw [SkipArray.call, skiparraySet, heq] at hcall
      cases hcall
      exact hmem
  | setWithPair key value replaceKey =>
      obtain ⟨res, prev, s, c₁, heq, -, hmem⟩ :=
        skiparraySetWithPair_memory cb hc h hiter c key value replaceKey
      rw [SkipArray.call, heq] at hcall
      cases hcall
      exact hmem
  | forget key =>
      obtain ⟨s, c₁, heq, -, -, hmem⟩ := skiparrayForget_memory cb hc h hiter c key
      rw [SkipArray.call, heq] at hcall
      cases hcall
      exact hmem
  | popFirst =>
      obtain ⟨s, c₁, heq, -, -, bs', hwf, ht⟩ := skiparrayPopFirst_memory h hiter c
      rw [SkipArray.call, heq] at hcall
      cases hcall
      exact ⟨bs', hwf, ht cb⟩
  | popLast =>
      have hheight : bindings bs ≠ [] → sa.height ≤ 128 := by
        intro hne
        by_contra hheight
        rw [SkipArray.call, skiparrayPopLast_overflow cb h hiter hne (by omega)] at hcall
        cases hcall
      obtain ⟨s, c₁, heq, -, -, hmem⟩ := skiparrayPopLast_memory cb hc h hiter hheight c
      rw [SkipArray.call, heq] at hcall
      cases hcall
      exact hmem
  | get key => exact hread (read_keeps hcall)
  | getPair key => exact hread (read_keeps hcall)
  | member key => exact hread (read_keeps hcall)
  | count => exact hread (read_keeps hcall)
  | first => exact hread (read_keeps hcall)
  | last => exact hread (read_keeps hcall)

theorem SkipArray.TakesUp.call (h : sa.TakesUp cb mem) {call : Call K V} {answer : Answer K V}
    (hcall : sa.call cb c call = .ok (answer, sa', c')) :
    ∃ mem', sa'.TakesUp cb mem' ∧ Trades cb c mem c' mem' := by
  obtain ⟨hc, hr, bs, its, hco, rfl⟩ := h
  cases hiter : sa.iter with
  | some it =>
      obtain ⟨rfl, rfl⟩ := call_locked hiter hcall
      exact ⟨_, ⟨hc, hr, bs, its, hco, rfl⟩, .refl _ _⟩
  | none =>
      obtain rfl := hco.cursors.iter_eq_none.mp hiter
      obtain ⟨l', hl, -⟩ := call_ok hc hco.toWf hcall
      obtain ⟨bs', hwf, ht⟩ := call_trades hc hco.toWf hiter hcall
      have hcmp : sa'.cmp = sa.cmp := by rw [hl.keeps.settings]
      refine ⟨_, ⟨hcmp ▸ hc, hcmp ▸ hr.call hcall, bs', [], hcmp ▸ hco.of_keeps hl.keeps hwf, rfl⟩, ?_⟩
      simpa using ht

/-- A new iterator takes up a block. -/
theorem SkipArray.TakesUp.iterNew (h : sa.TakesUp cb mem) {res : IterNewRes} {it : Option Ptr}
    (hnew : skiparrayIterNew cb sa c = .ok (res, it, sa', c')) :
    ∃ mem', sa'.TakesUp cb mem' ∧ Trades cb c mem c' mem' := by
  obtain ⟨hc, hr, bs, its, hco, rfl⟩ := h
  obtain ⟨res', it', s, c₁, heq, hout⟩ := skiparrayIterNew_spec cb hco.toWf hco.cursors c
  rw [hnew] at heq
  cases heq
  obtain ⟨ho, hco'⟩ := hco.iterNew hout
  have hcmp : sa'.cmp = sa.cmp := by rw [ho.settings]
  cases hout with
  | empty _ => exact ⟨_, ⟨hc, hr, bs, its, hco, rfl⟩, .refl _ _⟩
  | memory _ ha => exact ⟨_, ⟨hc, hr, bs, its, hco, rfl⟩, .alloc_none ha _⟩
  | @ok _ block hne ha =>
      refine ⟨_, ⟨hcmp ▸ hc, hcmp ▸ hr.iterNew hnew, bs, _, hcmp ▸ hco', rfl⟩, ?_⟩
      have hothers : its.map (sa.withIter (bs.map Block.ptr).head? block).iterBlock =
          its.map sa.iterBlock := by
        apply SkipArray.iterBlocks_congr
        intro q hq
        apply SkipArray.payload_withIter
        rintro rfl
        obtain ⟨m, hm⟩ := hco.cursors.isSome hq
        exact lt_irrefl _ (SkipArray.iter_lt hm)
      have hown : (sa.withIter (bs.map Block.ptr).head? block).iterBlock sa.iters.length = block := by
        rw [SkipArray.iterBlock, SkipArray.iter?_withIter, if_pos rfl]
        rfl
      rw [ho.blocks, List.map_cons, hothers, hown, ← Multiset.cons_coe, Multiset.cons_add]
      exact .alloc_some ha _

/-- A freed iterator gives its block back. -/
theorem SkipArray.TakesUp.iterFree (h : sa.TakesUp cb mem) {it : Option Ptr}
    (hfree : skiparrayIterFree sa c it = .ok (sa', c')) :
    ∃ mem', sa'.TakesUp cb mem' ∧ Trades cb c mem c' mem' := by
  obtain ⟨hc, hr, bs, its, hco, rfl⟩ := h
  cases it with
  | none =>
      cases hfree
      exact ⟨_, ⟨hc, hr, bs, its, hco, rfl⟩, .refl _ _⟩
  | some p =>
      obtain ⟨m, hload, -⟩ := bind_eq_ok.mp hfree
      have hm := SkipArray.iter?_of_load hload
      obtain ⟨xs, ys, rfl⟩ := List.append_of_mem (hco.cursors.mem hm)
      obtain ⟨s₁, hfree₁, -, -, -, -, hpay⟩ := skiparrayIterFree_spec hco.cursors hm c
      obtain ⟨s₂, m', hm', hfree₂, ho, hco'⟩ := hco.iterFree c
      obtain rfl : m = m' := Option.some.inj (hm.symm.trans hm')
      rw [hfree] at hfree₁ hfree₂
      cases hfree₁
      cases hfree₂
      have hcmp : sa'.cmp = sa.cmp := by rw [ho.settings]
      refine ⟨_, ⟨hcmp ▸ hc, hcmp ▸ hr.iterFree hfree, bs, _, hcmp ▸ hco', rfl⟩, ?_⟩
      have hnodup := hco.cursors.nodup
      have hothers : (xs ++ ys).map sa'.iterBlock = (xs ++ ys).map sa.iterBlock := by
        apply SkipArray.iterBlocks_congr
        intro q hq
        apply hpay
        rintro rfl
        exact (List.nodup_cons.mp (List.nodup_middle.mp hnodup)).1 hq
      have hown : sa.iterBlock p = m.block := by
        rw [SkipArray.iterBlock, hm]
        rfl
      have hsplit : ((xs ++ p :: ys).map sa.iterBlock : Multiset ℕ) =
          m.block ::ₘ ((xs ++ ys).map sa.iterBlock : List ℕ) := by
        rw [Multiset.cons_coe, Multiset.coe_eq_coe, ← hown, ← List.map_cons]
        exact List.perm_middle.map _
      rw [ho.blocks, hothers, hsplit, Multiset.cons_add]
      exact .release _ _

/-- A movement leaves the memory as it is. -/
theorem SkipArray.TakesUp.move (h : sa.TakesUp cb mem) {p : Ptr} {move : Move K} {res : MoveRes}
    (hmove : sa.move cb p move = .ok (res, sa')) : sa'.TakesUp cb mem := by
  obtain ⟨hc, hr, bs, its, hco, rfl⟩ := h
  obtain ⟨m, hm⟩ := SkipArray.isSome_of_move hmove
  obtain ⟨res', s, heq, hmoves, hco'⟩ := hco.move hc hm move
  rw [hmove] at heq
  cases heq
  have ho := hmoves.iterOnly
  have hcmp : sa'.cmp = sa.cmp := by rw [ho.settings]
  have hblock : ∀ q, sa'.iterBlock q = sa.iterBlock q := by
    intro q
    by_cases hq : q = p
    · obtain ⟨it, m', hit, -, -, hb, rfl⟩ := hmoves
      rw [SkipArray.iterBlock, SkipArray.iterBlock, SkipArray.iter?_setIter hit, if_pos hq, hq, hit,
        Option.map_some, Option.map_some, hb]
    · rw [SkipArray.iterBlock, SkipArray.iterBlock, hmoves.iter?_ne hq]
  refine ⟨hcmp ▸ hc, hcmp ▸ hr.move hmove, bs, its, hcmp ▸ hco', ?_⟩
  rw [ho.blocks, List.map_congr_left fun q _ => hblock q]

end One

/-! ## What skiparrays and folds take up together -/

/-- The skiparrays take up `mem` together. -/
abbrev TakeUp (cb : Callbacks K U) (sas : List (SkipArray K V)) (mem : Multiset ℕ) : Prop :=
  SumsTo (SkipArray.TakesUp cb) sas mem

/-- What the skiparrays take up goes along with what is granted and released. -/
def KeepsBooks (cb : Callbacks K U) (sas : List (SkipArray K V)) (c : Ctx K V U)
    (sas' : List (SkipArray K V)) (c' : Ctx K V U) : Prop :=
  ∀ mem, TakeUp cb sas mem → ∃ mem', TakeUp cb sas' mem' ∧ Trades cb c mem c' mem'

section Many

variable {cb : Callbacks K U} {sas sas₁ sas' : List (SkipArray K V)} {s s' : SkipArray K V}
  {c c₁ c' : Ctx K V U} {mem : Multiset ℕ} {g : ℕ} {fs fs' : FoldState K V U W}

namespace KeepsBooks

theorem refl (sas : List (SkipArray K V)) (c : Ctx K V U) : KeepsBooks cb sas c sas c :=
  fun mem h => ⟨mem, h, .refl c mem⟩

theorem trans (h₁ : KeepsBooks cb sas c sas₁ c₁) (h₂ : KeepsBooks cb sas₁ c₁ sas' c') :
    KeepsBooks cb sas c sas' c' := by
  intro mem h
  obtain ⟨mem₁, hmem₁, ht₁⟩ := h₁ mem h
  obtain ⟨mem', hmem', ht'⟩ := h₂ mem₁ hmem₁
  exact ⟨mem', hmem', ht₁.trans ht'⟩

theorem one (hs : sas[g]? = some s)
    (hstep : ∀ m, s.TakesUp cb m → ∃ m', s'.TakesUp cb m' ∧ Trades cb c m c' m') :
    KeepsBooks cb sas c (sas.set g s') c' :=
  fun _ h => h.one hs hstep

end KeepsBooks

/-- Whatever is done with iterators keeps the books. -/
theorem IterSteps.books (h : IterSteps cb sas c sas' c') : KeepsBooks cb sas c sas' c' := by
  induction h with
  | refl => exact .refl _ _
  | iterNew _ hs hnew ih => exact ih.trans (.one hs fun m hm => hm.iterNew hnew)
  | iterFree _ hs hfree ih => exact ih.trans (.one hs fun m hm => hm.iterFree hfree)
  | move _ hs hmove ih => exact ih.trans (.one hs fun m hm => ⟨m, hm.move hmove, .refl _ _⟩)

/-! ## Folds -/

omit [Inhabited K] [Inhabited V] in
theorem FoldState.own_add (fs : FoldState K V U W) (mem : Multiset ℕ) :
    fs.own + mem = fs.idsBlock ::ₘ fs.block ::ₘ mem := by
  rw [FoldState.own, Multiset.insert_eq_cons, Multiset.cons_add, Multiset.singleton_add]

/-- The callbacks of the fold are a client's. -/
def FoldState.OfClient (fs : FoldState K V U W) : Prop :=
  ∃ (fold : K → V → W → W) (merge : Option (List K → List V → W → ℕ × V × W)),
    fs.cbs = ⟨clientFold fold, merge.map clientMerge⟩

omit [Inhabited K] in
/-- The callbacks leave the memory callback alone. -/
theorem callWithNext_goes (hclient : fs.OfClient) {count : ℕ} {w w' : W}
    (h : callWithNext fs count w c = .ok (fs', w', c')) : fs.Goes fs' ∧ c' = c := by
  obtain ⟨fold, merge, hcbs⟩ := hclient
  obtain ⟨-, -, h⟩ := bind_eq_ok.mp h
  obtain ⟨id, -, h⟩ := bind_eq_ok.mp h
  obtain ⟨first, -, h⟩ := bind_eq_ok.mp h
  by_cases hlt : first.state = .availableLt
  · rw [if_pos hlt, hcbs] at h
    obtain ⟨⟨w₁, c₁⟩, hfold, h⟩ := bind_eq_ok.mp h
    cases hfold
    obtain ⟨iters, -, h⟩ := bind_eq_ok.mp h
    cases h
    exact ⟨⟨hcbs.symm, rfl⟩, rfl⟩
  · rw [if_neg hlt, hcbs] at h
    obtain ⟨-, -, h⟩ := bind_eq_ok.mp h
    rcases merge with _ | merge
    · cases h
    · obtain ⟨pairs, -, h⟩ := bind_eq_ok.mp h
      by_cases hcount : count < pairs.length
      · rw [if_pos hcount] at h
        cases h
      · rw [if_neg hcount] at h
        obtain ⟨-, -, h⟩ := bind_eq_ok.mp h
        obtain ⟨⟨choice, v, w₁, c₁⟩, hmerge, h⟩ := bind_eq_ok.mp h
        cases hmerge
        obtain ⟨-, -, h⟩ := bind_eq_ok.mp h
        obtain ⟨key, -, h⟩ := bind_eq_ok.mp h
        obtain ⟨⟨w₂, c₂⟩, hfold, h⟩ := bind_eq_ok.mp h
        cases hfold
        obtain ⟨iters, -, h⟩ := bind_eq_ok.mp h
        cases h
        exact ⟨⟨hcbs.symm, rfl⟩, rfl⟩

/-- `skiparray_fold_halt` gives back all that the fold takes up. -/
theorem foldHalt_books (h : skiparrayFoldHalt fs sas c = .ok (sas', c')) (hmem : TakeUp cb sas mem) :
    ∃ mem', TakeUp cb sas' mem' ∧ Trades cb c (fs.own + mem) c' mem' := by
  obtain ⟨-, -, h⟩ := bind_eq_ok.mp h
  obtain ⟨⟨sas₁, c₁⟩, hfree, h⟩ := bind_eq_ok.mp h
  cases h
  obtain ⟨mem', hmem', ht⟩ := (freeFoldIters_steps .refl hfree).books mem hmem
  refine ⟨mem', hmem', ?_⟩
  rw [add_comm]
  refine (ht.frame fs.own).trans ?_
  rw [add_comm, fs.own_add]
  exact (Trades.release _ _).trans (.release _ _)

/-- A fold that may have ended. -/
def ownOf (fs : Option (FoldState K V U W)) : Multiset ℕ := fs.elim 0 FoldState.own

theorem foldNext_books (hclient : fs.OfClient) {res : FoldNextRes}
    {next : Option (FoldState K V U W)} {w w' : W}
    (h : skiparrayFoldNext cb fs sas w c = .ok (res, next, sas', w', c'))
    (hmem : TakeUp cb sas mem) :
    (∀ fs', next = some fs' → fs'.OfClient) ∧
      ∃ mem', TakeUp cb sas' mem' ∧ Trades cb c (fs.own + mem) c' (ownOf next + mem') := by
  rcases foldNext_cases h with ⟨rfl, hhalt⟩ | ⟨fs₁, c₁, fs₂, rfl, hgoes, hsteps, hcall⟩
  · obtain ⟨mem', hmem', ht⟩ := foldHalt_books hhalt hmem
    refine ⟨by simp, mem', hmem', ?_⟩
    simpa [ownOf] using ht
  · have hclient₁ : fs₁.OfClient := by
      obtain ⟨fold, merge, hcbs⟩ := hclient
      exact ⟨fold, merge, hgoes.cbs.trans hcbs⟩
    obtain ⟨hgoes₂, rfl⟩ := callWithNext_goes hclient₁ hcall
    obtain ⟨mem', hmem', ht⟩ := hsteps.books mem hmem
    refine ⟨?_, mem', hmem', ?_⟩
    · rintro _ ⟨⟩
      obtain ⟨fold, merge, hcbs⟩ := hclient₁
      exact ⟨fold, merge, hgoes₂.cbs.trans hcbs⟩
    · change Trades cb c (fs.own + mem) c' (fs₂.own + mem')
      rw [hgoes₂.own, hgoes.own, add_comm, add_comm fs.own]
      exact ht.frame fs.own

/-- What comes of opening a fold: without success, nothing is taken up. -/
structure Opens (cb : Callbacks K U) (c : Ctx K V U) (mem : Multiset ℕ) (res : FoldRes)
    (next : Option (FoldState K V U W)) (sas' : List (SkipArray K V)) (c' : Ctx K V U) : Prop where
  client : ∀ fs, next = some fs → fs.OfClient
  failed : res ≠ .ok → next = none
  books : ∃ mem', TakeUp cb sas' mem' ∧ Trades cb c mem c' (ownOf next + mem')

theorem Opens.none {res : FoldRes} (hmem : TakeUp cb sas' mem) {mem₀ : Multiset ℕ}
    (ht : Trades cb c mem₀ c' mem) :
    Opens cb c mem₀ res (none : Option (FoldState K V U W)) sas' c' := by
  refine ⟨by simp, fun _ => rfl, mem, hmem, ?_⟩
  rw [ownOf, Option.elim_none, zero_add]
  exact ht

/-- A fold that is opened takes up two blocks and its iterators. -/
theorem openFold_books {type : FoldType} {fold : K → V → W → W}
    {merge : Option (List K → List V → W → ℕ × V × W)} {inputs : List ℕ} {res : FoldRes}
    {next : Option (FoldState K V U W)} {sa₀ : SkipArray K V}
    (h : openFold cb type (clientFold fold) (merge.map clientMerge) sas c inputs sa₀ =
      .ok (res, next, sas', c')) (hmem : TakeUp cb sas mem) :
    Opens cb c mem res next sas' c' := by
  rw [openFold] at h
  rcases h₁ : c.alloc cb with ⟨_ | block, c₁⟩
  · simp only [h₁] at h
    cases h
    exact .none hmem (.alloc_none h₁ mem)
  have t₁ := Trades.alloc_some h₁ mem
  rcases h₂ : c₁.alloc cb with ⟨_ | idsBlock, c₂⟩
  · simp only [h₁, h₂] at h
    cases h
    exact .none hmem ((t₁.trans (.alloc_none h₂ _)).trans (.release block mem))
  have t₂ := t₁.trans (.alloc_some h₂ _)
  simp only [h₁, h₂] at h
  obtain ⟨⟨made, iters, live, sas₁, c₃⟩, hinit, h⟩ := bind_eq_ok.mp h
  obtain ⟨mem₁, hmem₁, ht⟩ := (initIters_steps .refl hinit).books mem hmem
  have t₃ : Trades cb c mem c₃ (idsBlock ::ₘ block ::ₘ mem₁) := by
    refine t₂.trans ?_
    have hframe := ht.frame {idsBlock, block}
    simpa [add_comm, ← Multiset.singleton_add, add_assoc] using hframe
  cases made with
  | false =>
      obtain ⟨⟨sas₂, c₄⟩, hfree, h⟩ := bind_eq_ok.mp h
      cases h
      obtain ⟨mem₂, hmem₂, ht₂⟩ := (freeFoldIters_steps .refl hfree).books mem₁ hmem₁
      have hframe := ht₂.frame {block}
      rw [add_comm, add_comm mem₂, Multiset.singleton_add, Multiset.singleton_add] at hframe
      exact .none hmem₂ (((t₃.trans (.release _ _)).trans hframe).trans (.release _ _))
  | true =>
      cases h
      refine ⟨?_, fun hno => absurd rfl hno, mem₁, hmem₁, ?_⟩
      · rintro _ ⟨⟩
        exact ⟨fold, merge, rfl⟩
      · rw [ownOf, Option.elim_some, FoldState.own_add]
        exact t₃

theorem foldMultiInit_books {type : FoldType} {skiparrays : Option (List (Option ℕ))}
    {fold : Option (K → V → W → W)} {merge : Option (List K → List V → W → ℕ × V × W)}
    {res : FoldRes} {next : Option (FoldState K V U W)}
    (h : skiparrayFoldMultiInit cb type skiparrays (fold.map clientFold) (merge.map clientMerge)
      sas c = .ok (res, next, sas', c')) (hmem : TakeUp cb sas mem) :
    Opens cb c mem res next sas' c' := by
  rcases skiparrays with _ | _ | ⟨_ | h₀, hs⟩
  · cases h
    exact .none hmem (.refl _ _)
  · cases h
    exact .none hmem (.refl _ _)
  · cases h
    exact .none hmem (.refl _ _)
  rcases fold with _ | fold
  · cases h
    exact .none hmem (.refl _ _)
  rw [Option.map_some] at h
  by_cases hm : 0 < hs.length ∧ (merge.map (clientMerge : _ → MergeFun K V U W)).isNone
  · rw [skiparrayFoldMultiInit, if_pos hm] at h
    cases h
    exact .none hmem (.refl _ _)
  rw [skiparrayFoldMultiInit, if_neg hm] at h
  obtain ⟨sa₀, -, h⟩ := bind_eq_ok.mp h
  obtain ⟨rs, -, h⟩ := bind_eq_ok.mp h
  cases hall : rs.allSome with
  | none =>
      rw [hall] at h
      cases h
      exact .none hmem (.refl _ _)
  | some inputs =>
      rw [hall] at h
      exact openFold_books h hmem

theorem foldLoop_books : ∀ {n : ℕ} {fs : FoldState K V U W} {sas : List (SkipArray K V)} {w w' : W}
    {c : Ctx K V U} {mem : Multiset ℕ}, fs.OfClient →
    foldLoop cb n fs sas w c = .ok (sas', w', c') → TakeUp cb sas mem →
    ∃ mem', TakeUp cb sas' mem' ∧ Trades cb c (fs.own + mem) c' mem'
  | 0, _, _, _, _, _, _, _, h, _ => by cases h
  | n + 1, fs, sas, w, w', c, mem, hclient, h, hmem => by
      rw [foldLoop] at h
      obtain ⟨⟨res, next, sas₁, w₁, c₁⟩, hnext, h⟩ := bind_eq_ok.mp h
      obtain ⟨hclient₁, mem₁, hmem₁, ht⟩ := foldNext_books hclient hnext hmem
      cases next with
      | none =>
          cases h
          exact ⟨mem₁, hmem₁, by simpa [ownOf] using ht⟩
      | some fs₁ =>
          obtain ⟨mem', hmem', ht'⟩ := foldLoop_books (hclient₁ fs₁ rfl) h hmem₁
          exact ⟨mem', hmem', ht.trans ht'⟩

/-- `skiparray_fold` gives back all it took. -/
theorem fold_books {type : FoldType} {h : ℕ} {fold : K → V → W → W} {res : FoldRes} {w w' : W}
    (hfold : skiparrayFold cb type h (clientFold fold) sas w c = .ok (res, sas', w', c')) :
    KeepsBooks cb sas c sas' c' := by
  intro mem hmem
  obtain ⟨s, -, hrest⟩ := bind_eq_ok.mp hfold
  obtain ⟨⟨res₁, next, sas₁, c₁⟩, hinit, hrest⟩ := bind_eq_ok.mp hrest
  have hopen : skiparrayFoldMultiInit cb type (some [some h]) ((some fold).map clientFold)
      (Option.map clientMerge none) sas c = .ok (res₁, next, sas₁, c₁) := hinit
  obtain ⟨hclient, hfailed, mem₁, hmem₁, ht⟩ :=
    foldMultiInit_books hopen hmem
  have hdone : res₁ ≠ .ok → ∃ mem', TakeUp cb sas₁ mem' ∧ Trades cb c mem c₁ mem' := by
    intro hno
    rw [hfailed hno, ownOf, Option.elim_none, zero_add] at ht
    exact ⟨mem₁, hmem₁, ht⟩
  cases res₁ with
  | ok =>
      cases next with
      | none => cases hrest
      | some fs =>
          obtain ⟨⟨sas₂, w₂, c₂⟩, hloop, hrest⟩ := bind_eq_ok.mp hrest
          cases hrest
          obtain ⟨mem', hmem', ht'⟩ := foldLoop_books (hclient fs rfl) hloop hmem₁
          exact ⟨mem', hmem', ht.trans ht'⟩
  | errorMisuse =>
      cases hrest
      exact hdone (by simp)
  | errorMemory =>
      cases hrest
      exact hdone (by simp)

end Many

/-! ## The end of a skiparray -/

section Free

variable {cb : Callbacks K U} {sa : SkipArray K V} {c c' : Ctx K V U} {mem : Multiset ℕ}

omit [Inhabited K] [Inhabited V] in
/-- The loop of `skiparray_free` over the iterators `its`. -/
theorem freeIters_spec : ∀ (its : List Ptr) {fuel : ℕ} {p : Option Ptr} (c : Ctx K V U),
    its.length ≤ fuel → Seg sa.iterNext p its none → (∀ q ∈ its, ∃ it, sa.iter? q = some it) →
    freeIters sa fuel p c = .ok ((its.map sa.iterBlock).foldl Ctx.release c)
  | [], 0, _, _, _, hseg, _ => by
      cases hseg
      rfl
  | [], _ + 1, _, _, _, hseg, _ => by
      cases hseg
      rfl
  | _ :: _, 0, _, _, hlen, _, _ => absurd hlen (by simp)
  | q :: its, fuel + 1, p, c, hlen, ⟨hp, hseg⟩, hlive => by
      obtain ⟨it, hit⟩ := hlive q List.mem_cons_self
      rw [SkipArray.iterNext, hit, Option.bind_some] at hseg
      have hblock : sa.iterBlock q = it.block := by
        rw [SkipArray.iterBlock, hit]
        rfl
      rw [hp, freeIters, SkipArray.loadIter_eq hit, ok_bind, List.map_cons, List.foldl_cons, hblock]
      exact freeIters_spec its _ (Nat.le_of_succ_le_succ hlen) hseg
        fun q' hq' => hlive q' (List.mem_cons_of_mem _ hq')

/-- `skiparray_free` gives back all that a skiparray takes up, and its iterators. -/
theorem SkipArray.TakesUp.free (h : sa.TakesUp cb mem) (c : Ctx K V U) :
    ∃ c', skiparrayFree sa c = .ok c' ∧ Trades cb c mem c' 0 := by
  obtain ⟨hc, -, bs, its, hco, rfl⟩ := h
  have hlen := hco.linked.length_le
  obtain ⟨c₁, h₁, -, hled⟩ := freeNodes_spec bs sa.budget c
    (by unfold SkipArray.budget; omega) (hco.toSound.chain (A := []) rfl) hco.linked.ptr_nodup
  have h₂ := freeIters_spec its c₁ (Nat.le_succ_of_le hco.cursors.length_le) hco.cursors.chain
    fun q hq => hco.cursors.isSome hq
  refine ⟨((its.map sa.iterBlock).foldl Ctx.release c₁).release sa.block, ?_, ?_⟩
  · rw [skiparrayFree, hco.linked.first hco.settings.pos, ok_bind, h₁, ok_bind, h₂, ok_bind]
    rfl
  · have hnodes : Trades cb c (sa.blocks bs) c₁ {sa.block} := by
      intro c₀ live hl
      apply hled cb
      rw [SkipArray.blocks, ← Multiset.cons_coe, Multiset.cons_add, ← Multiset.add_cons] at hl
      rwa [Multiset.singleton_add]
    rw [add_comm]
    refine (hnodes.frame _).trans ?_
    rw [add_comm]
    refine (Trades.releases _ _).trans ?_
    exact .release sa.block 0

end Free

/-! ## Creation -/

section Create

variable {cb : Callbacks K U} {c c' : Ctx K V U} {mem : Multiset ℕ}

/-- The comparison callback of a configuration, if it has one, orders the keys. -/
def Config.Lawful (cb : Callbacks K U) (config : Option Config) : Prop :=
  ∀ cfg f, config = some cfg → cfg.cmp = some f → LawfulCmp (cb.cmp f)

/-- A call of `skiparray_new` that came back either took nothing, or the memory of
a new skiparray. -/
theorem skiparrayNew_trades {config : Option Config} {res : NewRes} {osa : Option (SkipArray K V)}
    (h : skiparrayNew cb config c = .ok (res, osa, c')) :
    (osa = none ∧ res ≠ .ok ∧ Trades cb c 0 c' 0) ∨
      res = .ok ∧ ∃ cfg sa bs, config = some cfg ∧ osa = some sa ∧ Fresh cfg sa bs ∧
        Trades cb c 0 c' (sa.blocks bs) := by
  rcases config with _ | config
  · cases h
    exact Or.inl ⟨rfl, by simp, .refl _ _⟩
  by_cases hcmp : config.cmp = none
  · rw [skiparrayNew, hcmp] at h
    cases h
    exact Or.inl ⟨rfl, by simp, .refl _ _⟩
  by_cases hsize : config.nodeSize = 1
  · obtain ⟨cmp, hsome⟩ := Option.ne_none_iff_exists'.mp hcmp
    simp only [skiparrayNew, hsome, if_pos hsize] at h
    cases h
    exact Or.inl ⟨rfl, by simp, .refl _ _⟩
  by_cases hroot : 1 ≤ rootHeight cb config c
  · obtain ⟨res', osa', c'', heq, -, hres⟩ := skiparrayNew_spec cb hcmp hsize c hroot
    rw [h] at heq
    cases heq
    rcases hres with ⟨rfl, rfl, -, hled⟩ | ⟨rfl, sa, bs, rfl, hfresh, hled⟩
    · refine Or.inl ⟨rfl, by simp, ?_⟩
      intro c₀ live hl
      exact hled c₀ _ hl
    · refine Or.inr ⟨rfl, config, sa, bs, rfl, rfl, hfresh, ?_⟩
      intro c₀ live hl
      rw [zero_add] at hl
      exact hled c₀ live hl
  · obtain ⟨cmp, hsome⟩ := Option.ne_none_iff_exists'.mp hcmp
    simp only [skiparrayNew, hsome, if_neg hsize] at h
    rcases halloc : c.alloc cb with ⟨_ | block, c₁⟩
    · rw [halloc] at h
      cases h
      exact Or.inl ⟨rfl, by simp, .alloc_none halloc _⟩
    · have hudata := (Ctx.alloc_keeps halloc).2
      simp only [rootHeight] at hroot
      simp only [halloc, hudata] at h
      rw [nodeAlloc, check, if_neg hroot] at h
      cases h

theorem skiparrayNew_accounts {config : Option Config} (hlaw : Config.Lawful cb config)
    {res : NewRes} {osa : Option (SkipArray K V)}
    (h : skiparrayNew cb config c = .ok (res, osa, c')) :
    ∃ mem, TakeUp cb osa.toList mem ∧ Trades cb c 0 c' mem := by
  rcases skiparrayNew_trades h with ⟨rfl, -, ht⟩ | ⟨rfl, cfg, sa, bs, rfl, rfl, hfresh, ht⟩
  · exact ⟨0, .nil, ht⟩
  · obtain ⟨f, block, hf, hset⟩ := hfresh.settings
    have hcmp : sa.cmp = f := congrArg Settings.cmp hset
    refine ⟨_, .singleton ⟨hcmp ▸ hlaw cfg f rfl hf, hcmp ▸ .new hf h, bs, [],
      (hfresh.wf _).coherent hfresh.iter hfresh.iters, rfl⟩, ?_⟩
    simpa using ht

/-! ## Builders -/

/-- A client's builder takes up `mem`: its own block, and its skiparray. -/
def Builder.TakesUp (cb : Callbacks K U) (b : Builder K V) (mem : Multiset ℕ) : Prop :=
  LawfulCmp (cb.cmp b.sa.cmp) ∧ Built cb b.sa.cmp b ∧ ∃ bs, Building (cb.cmp b.sa.cmp) b bs ∧
    mem = b.block ::ₘ (b.sa.blocks bs : Multiset ℕ)

variable {b b' : Builder K V}

theorem skiparrayBuilderNew_accounts {config : Option Config} (hlaw : Config.Lawful cb config)
    {skip : Bool} {res : BuilderNewRes} {ob : Option (Builder K V)}
    (h : skiparrayBuilderNew cb config skip c = .ok (res, ob, c')) :
    ∃ mem, SumsTo (Builder.TakesUp cb) ob.toList mem ∧ Trades cb c 0 c' mem := by
  obtain ⟨⟨res₁, osa, c₁⟩, hnew, hrest⟩ := bind_eq_ok.mp h
  rcases skiparrayNew_trades hnew with ⟨rfl, hno, ht⟩ | ⟨rfl, cfg, sa, bs, rfl, rfl, -, -⟩
  · cases res₁ with
    | ok => exact absurd rfl hno
    | errorNull =>
        cases hrest
        exact ⟨0, .nil, ht⟩
    | errorConfig =>
        cases hrest
        exact ⟨0, .nil, ht⟩
    | errorMemory =>
        cases hrest
        exact ⟨0, .nil, ht⟩
  · obtain ⟨cfg', hcfg, hcmp, hsize, hroot⟩ := skiparrayNew_accepts hnew
    cases hcfg
    obtain ⟨res', ob', c'', heq, -, hres⟩ := skiparrayBuilderNew_spec cb hcmp hsize skip c hroot
    rw [h] at heq
    cases heq
    rcases hres with ⟨-, rfl, -, hled⟩ | ⟨rfl, b, bs', rfl, hb, -, -, ⟨f, block, hf, hset⟩, hled⟩
    · refine ⟨0, .nil, ?_⟩
      intro c₀ live hl
      exact hled c₀ _ hl
    · have hcmp' : b.sa.cmp = f := congrArg Settings.cmp hset
      refine ⟨_, .singleton ⟨hcmp' ▸ hlaw cfg f rfl hf, hcmp' ▸ .new hf h, bs', hb _, rfl⟩, ?_⟩
      intro c₀ live hl
      rw [zero_add] at hl
      exact hled c₀ live hl

theorem Builder.TakesUp.append (hb : b.TakesUp cb mem) {key : K} {value : V} {res : AppendRes}
    (hskip : b.checkAscending = false → ∀ k v,
      skiparrayLast b.sa = .ok (.ok, some k, v) → cb.cmp b.sa.cmp k key < 0)
    (h : skiparrayBuilderAppend cb b c key value = .ok (res, b', c')) :
    ∃ mem', b'.TakesUp cb mem' ∧ Trades cb c mem c' mem' := by
  obtain ⟨hc, hbuilt, bs, hbuild, rfl⟩ := hb
  obtain ⟨res', b'', c'', heq, -, hkeep, hout⟩ :=
    skiparrayBuilderAppend_spec cb hc hbuild c key value (hbuild.above hc hskip)
  rw [h] at heq
  cases heq
  have hcmp : b'.sa.cmp = b.sa.cmp := congrArg Settings.cmp hkeep.settings
  have hbuilt' : Built cb b'.sa.cmp b' := hcmp ▸ hbuilt.append hskip h
  cases hout with
  | misuse _ => exact ⟨_, ⟨hc, hbuilt, bs, hbuild, rfl⟩, .refl _ _⟩
  | memory _ _ _ hled =>
      refine ⟨_, ⟨hc, hbuilt', bs, hbuild.withPrngState _, rfl⟩, ?_⟩
      intro c₀ live hl
      exact hled c₀ _ hl
  | ok _ _ _ hb' _ hled =>
      refine ⟨_, ⟨hcmp ▸ hc, hbuilt', _, hcmp ▸ hb', rfl⟩, ?_⟩
      intro c₀ live hl
      rw [hkeep.block]
      rw [Multiset.cons_add, ← Multiset.add_cons] at hl ⊢
      exact hled c₀ _ hl

/-- A finished builder leaves its skiparray. -/
theorem Builder.TakesUp.finish (hb : b.TakesUp cb mem) (c : Ctx K V U) :
    ∃ mem', b.sa.TakesUp cb mem' ∧ Trades cb c mem (c.release b.block) mem' := by
  obtain ⟨hc, hbuilt, bs, hbuild, rfl⟩ := hb
  refine ⟨_, ⟨hc, .finish (c := c) hbuilt rfl, bs, [], hbuild.wf.coherent hbuild.iter hbuild.iters, rfl⟩, ?_⟩
  rw [List.map_nil, Multiset.coe_nil, zero_add]
  exact .release _ _

theorem Builder.TakesUp.free (hb : b.TakesUp cb mem) (c : Ctx K V U) :
    ∃ c', skiparrayBuilderFree (some b) c = .ok c' ∧ Trades cb c mem c' 0 := by
  obtain ⟨mem₁, hmem₁, ht₁⟩ := hb.finish c
  obtain ⟨c', hfree, ht⟩ := hmem₁.free (c.release b.block)
  exact ⟨c', hfree, ht₁.trans ht⟩

/-! ## Filters -/

section Filter

variable {S : Type} {sa sa' : SkipArray K V} {keep : K → V → S → Bool × S} {udata udata' : S}
  {copy : Option (SkipArray K V)}

/-- The source of a filter is left as a client could leave it. -/
theorem Made.filter (hmade : Made cb [sa])
    (h : skiparrayFilter cb sa c keep udata = .ok (copy, sa', udata', c')) : Made cb [sa'] := by
  obtain ⟨⟨res, ob, c₁⟩, -, h⟩ := bind_eq_ok.mp h
  cases res with
  | errorMisuse =>
      cases h
      exact hmade
  | errorMemory =>
      cases h
      exact hmade
  | ok =>
      cases ob with
      | none => cases h
      | some b =>
          obtain ⟨⟨res', sas, env, c₂⟩, hfold, h⟩ := bind_eq_ok.mp h
          obtain ⟨s, hs, h⟩ := bind_eq_ok.mp h
          have hsource : Made cb [s] := by
            intro x hx
            rw [List.mem_singleton.mp hx]
            exact hmade.foldWhole hfold s (List.mem_of_getElem? (slot_ok hs))
          by_cases hres : res' ≠ .ok
          · rw [if_pos hres] at h
            obtain ⟨c₃, -, h⟩ := bind_eq_ok.mp h
            cases h
            exact hsource
          rw [if_neg hres] at h
          by_cases hok : env.ok ≠ true
          · rw [if_pos hok] at h
            obtain ⟨c₃, -, h⟩ := bind_eq_ok.mp h
            cases h
            exact hsource
          · rw [if_neg hok] at h
            cases h
            exact hsource

/-- What a skiparray takes up is that of its nodes and iterators. -/
theorem SkipArray.TakesUp.of_same (h : sa.TakesUp cb mem) (hr : Reachable cb sa'.cmp sa')
    (ho : IterOnly sa sa') (hiter : sa'.iter = sa.iter)
    (hiters : ∀ p, sa'.iter? p = sa.iter? p) : sa'.TakesUp cb mem := by
  obtain ⟨hc, -, bs, its, hco, rfl⟩ := h
  have hcmp : sa'.cmp = sa.cmp := by rw [ho.settings]
  have hco' : sa'.Coherent (cb.cmp sa.cmp) bs its := by
    refine ⟨ho.wf hco.toWf, hco.cursors.of_same hiter hiters, ?_, hco.held⟩
    intro p hp
    obtain ⟨pos, hat⟩ := hco.placed p hp
    exact ⟨pos, hat.of_eq (hiters p)⟩
  refine ⟨hcmp ▸ hc, hr, bs, its, hcmp ▸ hco', ?_⟩
  have hblock : ∀ q ∈ its, sa'.iterBlock q = sa.iterBlock q := by
    intro q _
    rw [SkipArray.iterBlock, SkipArray.iterBlock, hiters]
  rw [ho.blocks, List.map_congr_left hblock]

/-- A call of `skiparray_filter` that came back took nothing, or the memory of a copy. -/
theorem SkipArray.TakesUp.filter (h : sa.TakesUp cb mem)
    (hfilter : skiparrayFilter cb sa c keep udata = .ok (copy, sa', udata', c')) :
    sa'.TakesUp cb mem ∧ ∃ mem', TakeUp cb copy.toList mem' ∧ Trades cb c 0 c' mem' := by
  have hcopy := h
  obtain ⟨hc, hr, bs, its, hco, -⟩ := hcopy
  by_cases hroot : 1 ≤ rootHeight cb (filterConfig sa) c
  · obtain ⟨copy', s, udata'', c'', heq, ho, hiter, hiters, hout⟩ :=
      skiparrayFilter_spec hc hr hroot keep udata
    rw [hfilter] at heq
    cases heq
    have hr' : Reachable cb sa'.cmp sa' := by
      have hmade : Made cb [sa] := by
        intro x hx
        rw [List.mem_singleton.mp hx]
        exact ⟨_, hc, hr⟩
      obtain ⟨f, hf, hreach⟩ := hmade.filter hfilter sa' (List.mem_singleton_self _)
      obtain ⟨rfl, -⟩ := hreach.coherent hf
      exact hreach
    refine ⟨h.of_same hr' ho hiter hiters, ?_⟩
    cases hout with
    | early _ _ _ hled => exact ⟨0, .nil, fun c₀ live hl => hled c₀ _ hl⟩
    | late _ _ _ _ _ hled => exact ⟨0, .nil, fun c₀ live hl => hled c₀ _ hl⟩
    | @copy _ copy bs' block hreach hwf hset hnone hnil _ _ hled =>
        have hcmp : copy.cmp = sa.cmp := by rw [hset]
        refine ⟨_, .singleton ⟨hcmp ▸ hc, hcmp ▸ hreach, bs', [],
          hcmp ▸ hwf.coherent hnone hnil, rfl⟩, ?_⟩
        intro c₀ live hl
        rw [zero_add] at hl
        rw [List.map_nil, Multiset.coe_nil, zero_add]
        exact hled c₀ live hl
  · obtain ⟨halloc, rfl, rfl⟩ := filter_without_root hco.settings hroot hfilter
    exact ⟨h, 0, .nil, .alloc_none halloc _⟩

end Filter

end Create

end Skiparray
