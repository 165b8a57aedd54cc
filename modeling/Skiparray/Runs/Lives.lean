import Skiparray.Runs.Memory

/-!
# Whole lives

Skiparrays are made, directly or with a builder, called, iterated, folded, filtered
and freed, in any order and as far as the memory callback goes along. Throughout,
the memory granted and not released is what they take up; at the end none is left.
-/

namespace Skiparray

open Fallible

variable {K V U W : Type} [Inhabited K] [Inhabited V]

/-! ## All that a client can do -/

/-- What a fold takes up, which may have ended. -/
def FoldTakesUp (o : Option (FoldState K V U W)) (mem : Multiset ℕ) : Prop :=
  (∀ fs, o = some fs → fs.OfClient) ∧ mem = ownOf o

/-- The skiparray with number `i` is gone, so that those behind it have other numbers. -/
def FoldState.without (fs : FoldState K V U W) (i : ℕ) : FoldState K V U W :=
  { fs with
    iters := fs.iters.map fun is =>
      { is with iter := is.iter.map fun x => (if i < x.1 then x.1 - 1 else x.1, x.2) } }

/-- What a client comes to from `c₀` on: it makes skiparrays and builders, uses them in
any order, with iterators and folds in progress, and frees them. A skiparray that a
fold has an iterator on is not freed. -/
inductive Course (cb : Callbacks K U) (c₀ : Ctx K V U) :
    World K V U W → List (Builder K V) → Prop where
  | start (acc : W) : Course cb c₀ ⟨[], [], acc, c₀⟩ []
  | new {w : World K V U W} {bds : List (Builder K V)} {config : Option Config} {res : NewRes}
      {osa : Option (SkipArray K V)} {c' : Ctx K V U} (h : Course cb c₀ w bds)
      (hlaw : Config.Lawful cb config) (hnew : skiparrayNew cb config w.c = .ok (res, osa, c')) :
      Course cb c₀ { w with sas := w.sas ++ osa.toList, c := c' } bds
  | request {w w' : World K V U W} {bds : List (Builder K V)} {req : Request K V W}
      {reply : Reply K V W} (h : Course cb c₀ w bds) (hstep : w.step cb req = .ok (reply, w')) :
      Course cb c₀ w' bds
  | filter {S : Type} {w : World K V U W} {bds : List (Builder K V)} {i : ℕ}
      {sa sa' : SkipArray K V} {keep : K → V → S → Bool × S} {udata udata' : S}
      {copy : Option (SkipArray K V)} {c' : Ctx K V U} (h : Course cb c₀ w bds)
      (hsa : w.sas[i]? = some sa)
      (hfilter : skiparrayFilter cb sa w.c keep udata = .ok (copy, sa', udata', c')) :
      Course cb c₀ { w with sas := w.sas.set i sa' ++ copy.toList, c := c' } bds
  | free {w : World K V U W} {bds : List (Builder K V)} {i : ℕ} {sa : SkipArray K V}
      {c' : Ctx K V U} (h : Course cb c₀ w bds)
      (hunread : ∀ fs, some fs ∈ w.folds → ∀ p, (i, p) ∉ holds fs.iters)
      (hsa : w.sas[i]? = some sa) (hfree : skiparrayFree sa w.c = .ok c') :
      Course cb c₀ { w with
        sas := w.sas.eraseIdx i
        folds := w.folds.map (Option.map fun fs => fs.without i)
        c := c' } bds
  | builderNew {w : World K V U W} {bds : List (Builder K V)} {config : Option Config} {skip : Bool}
      {res : BuilderNewRes} {ob : Option (Builder K V)} {c' : Ctx K V U} (h : Course cb c₀ w bds)
      (hlaw : Config.Lawful cb config)
      (hnew : skiparrayBuilderNew cb config skip w.c = .ok (res, ob, c')) :
      Course cb c₀ { w with c := c' } (bds ++ ob.toList)
  | builderAppend {w : World K V U W} {bds : List (Builder K V)} {i : ℕ} {b b' : Builder K V}
      {key : K} {value : V} {res : AppendRes} {c' : Ctx K V U} (h : Course cb c₀ w bds)
      (hb : bds[i]? = some b)
      (hskip : b.checkAscending = false → ∀ k v,
        skiparrayLast b.sa = .ok (.ok, some k, v) → cb.cmp b.sa.cmp k key < 0)
      (happ : skiparrayBuilderAppend cb b w.c key value = .ok (res, b', c')) :
      Course cb c₀ { w with c := c' } (bds.set i b')
  | builderFinish {w : World K V U W} {bds : List (Builder K V)} {i : ℕ} {b : Builder K V}
      {sa : SkipArray K V} {c' : Ctx K V U} (h : Course cb c₀ w bds) (hb : bds[i]? = some b)
      (hfinish : skiparrayBuilderFinish b w.c = (sa, c')) :
      Course cb c₀ { w with sas := w.sas ++ [sa], c := c' } (bds.eraseIdx i)
  | builderFree {w : World K V U W} {bds : List (Builder K V)} {i : ℕ} {b : Builder K V}
      {c' : Ctx K V U} (h : Course cb c₀ w bds) (hb : bds[i]? = some b)
      (hfree : skiparrayBuilderFree (some b) w.c = .ok c') :
      Course cb c₀ { w with c := c' } (bds.eraseIdx i)

/-- Since `c₀`, the memory granted and not released is what skiparrays, folds and
builders take up. -/
def Accounted (cb : Callbacks K U) (c₀ : Ctx K V U) (w : World K V U W)
    (bds : List (Builder K V)) : Prop :=
  ∃ arrays folds builders, TakeUp cb w.sas arrays ∧ SumsTo FoldTakesUp w.folds folds ∧
    SumsTo (Builder.TakesUp cb) bds builders ∧ Ledger cb c₀ w.c (arrays + (folds + builders))

section Course

variable {cb : Callbacks K U} {c₀ : Ctx K V U} {w w' : World K V U W} {bds : List (Builder K V)}
  {mem : Multiset ℕ}

omit [Inhabited K] [Inhabited V] in
theorem loadFold_ok {i : ℕ} {fs : FoldState K V U W} (h : w.loadFold i = .ok fs) :
    w.folds[i]? = some (some fs) := by
  obtain ⟨o, ho, h⟩ := bind_eq_ok.mp h
  cases o with
  | none => cases h
  | some f =>
      cases h
      exact slot_ok ho

/-- The skiparrays change, and the memory along with them. -/
theorem Accounted.books {sas' : List (SkipArray K V)} {c' : Ctx K V U} {acc' : W}
    (h : Accounted cb c₀ w bds) (hbooks : KeepsBooks cb w.sas w.c sas' c') :
    Accounted cb c₀ ⟨sas', w.folds, acc', c'⟩ bds := by
  obtain ⟨arrays, folds, builders, harrays, hfolds, hbuilders, hled⟩ := h
  obtain ⟨arrays', harrays', ht⟩ := hbooks arrays harrays
  exact ⟨arrays', folds, builders, harrays', hfolds, hbuilders, ht c₀ _ hled⟩

/-- The builders change, and the memory along with them. -/
theorem Accounted.builders {bds' : List (Builder K V)} {c' : Ctx K V U}
    (h : Accounted cb c₀ w bds) (hbooks : ∀ mem, SumsTo (Builder.TakesUp cb) bds mem →
      ∃ mem', SumsTo (Builder.TakesUp cb) bds' mem' ∧ Trades cb w.c mem c' mem') :
    Accounted cb c₀ { w with c := c' } bds' := by
  obtain ⟨arrays, folds, builders, harrays, hfolds, hbuilders, hled⟩ := h
  obtain ⟨builders', hbuilders', ht⟩ := hbooks builders hbuilders
  refine ⟨arrays, folds, builders', harrays, hfolds, hbuilders', ?_⟩
  rw [← add_assoc, add_comm] at hled ⊢
  exact ht c₀ _ hled

/-- A fold goes on or ends, and the skiparrays change. -/
theorem Accounted.fold {sas' : List (SkipArray K V)} {c' : Ctx K V U} {acc' : W} {i : ℕ}
    {fs : FoldState K V U W} {next : Option (FoldState K V U W)} (h : Accounted cb c₀ w bds)
    (hfs : w.folds[i]? = some (some fs))
    (hnext : ∀ mem, TakeUp cb w.sas mem → fs.OfClient → (∀ fs', next = some fs' → fs'.OfClient) ∧
      ∃ mem', TakeUp cb sas' mem' ∧ Trades cb w.c (fs.own + mem) c' (ownOf next + mem')) :
    Accounted cb c₀ ⟨sas', w.folds.set i next, acc', c'⟩ bds := by
  obtain ⟨arrays, folds, builders, harrays, hfolds, hbuilders, hled⟩ := h
  obtain ⟨m, rest, ⟨hclient, rfl⟩, rfl, -, hset⟩ := hfolds.split hfs
  obtain ⟨hclient', arrays', harrays', ht⟩ := hnext arrays harrays (hclient fs rfl)
  refine ⟨arrays', ownOf next + rest, builders, harrays', hset next _ ⟨hclient', rfl⟩, hbuilders, ?_⟩
  have hbefore : fs.own + arrays + (rest + builders) =
      arrays + (ownOf (some fs) + rest + builders) := by
    rw [show ownOf (some fs) = fs.own from rfl]
    abel
  have hafter : ownOf next + arrays' + (rest + builders) =
      arrays' + (ownOf next + rest + builders) := by abel
  rw [← hafter]
  rw [← hbefore] at hled
  exact ht c₀ _ hled

/-- Other numbers make no difference to what a fold takes up. -/
theorem Accounted.without (h : Accounted cb c₀ w bds) (i : ℕ) :
    Accounted cb c₀ { w with folds := w.folds.map (Option.map fun fs => fs.without i) } bds := by
  obtain ⟨arrays, folds, builders, harrays, ⟨ms, hall, rfl⟩, hbuilders, hled⟩ := h
  refine ⟨arrays, ms.sum, builders, harrays, ⟨ms, ?_, rfl⟩, hbuilders, hled⟩
  rw [List.forall₂_map_left_iff]
  refine hall.imp ?_
  rintro (_ | fs) m ⟨hclient, rfl⟩
  · exact ⟨by simp, rfl⟩
  · refine ⟨?_, rfl⟩
    rintro fs' hfs'
    obtain rfl := Option.some.inj hfs'
    exact hclient fs rfl

/-- One request. -/
theorem Accounted.step (h : Accounted cb c₀ w bds) {req : Request K V W} {reply : Reply K V W}
    (hstep : w.step cb req = .ok (reply, w')) : Accounted cb c₀ w' bds := by
  cases req with
  | call g call =>
      obtain ⟨sa, hsa, hstep⟩ := bind_eq_ok.mp hstep
      obtain ⟨⟨answer, sa', c'⟩, hcall, hstep⟩ := bind_eq_ok.mp hstep
      cases hstep
      exact h.books (.one (slot_ok hsa) fun m hm => hm.call hcall)
  | iterNew g =>
      obtain ⟨sa, hsa, hstep⟩ := bind_eq_ok.mp hstep
      obtain ⟨⟨res, it, sa', c'⟩, hnew, hstep⟩ := bind_eq_ok.mp hstep
      cases hstep
      exact h.books (.one (slot_ok hsa) fun m hm => hm.iterNew hnew)
  | iterFree g it =>
      obtain ⟨sa, hsa, hstep⟩ := bind_eq_ok.mp hstep
      obtain ⟨⟨sa', c'⟩, hfree, hstep⟩ := bind_eq_ok.mp hstep
      cases hstep
      exact h.books (.one (slot_ok hsa) fun m hm => hm.iterFree hfree)
  | iterGet g it =>
      obtain ⟨sa, -, hstep⟩ := bind_eq_ok.mp hstep
      obtain ⟨kv, -, hstep⟩ := bind_eq_ok.mp hstep
      cases hstep
      exact h
  | move g it move =>
      obtain ⟨sa, hsa, hstep⟩ := bind_eq_ok.mp hstep
      obtain ⟨⟨res, sa'⟩, hmove, hstep⟩ := bind_eq_ok.mp hstep
      cases hstep
      exact h.books (.one (slot_ok hsa) fun m hm => ⟨m, hm.move hmove, .refl _ _⟩)
  | foldInit type skiparrays fold merge =>
      obtain ⟨⟨res, fs, sas', c'⟩, hinit, hstep⟩ := bind_eq_ok.mp hstep
      cases hstep
      obtain ⟨arrays, folds, builders, harrays, hfolds, hbuilders, hled⟩ := h
      obtain ⟨hclient, -, arrays', harrays', ht⟩ := foldMultiInit_books hinit harrays
      refine ⟨arrays', folds + ownOf fs, builders, harrays',
        hfolds.append (.singleton ⟨hclient, rfl⟩), hbuilders, ?_⟩
      have hafter : ownOf fs + arrays' + (folds + builders) =
          arrays' + (folds + ownOf fs + builders) := by abel
      rw [← hafter]
      exact ht c₀ _ hled
  | foldNext i =>
      obtain ⟨fs, hfs, hstep⟩ := bind_eq_ok.mp hstep
      obtain ⟨⟨res, next, sas', acc', c'⟩, hnext, hstep⟩ := bind_eq_ok.mp hstep
      cases hstep
      exact h.fold (loadFold_ok hfs) fun mem hmem hclient => foldNext_books hclient hnext hmem
  | foldHalt i =>
      obtain ⟨fs, hfs, hstep⟩ := bind_eq_ok.mp hstep
      obtain ⟨⟨sas', c'⟩, hhalt, hstep⟩ := bind_eq_ok.mp hstep
      cases hstep
      refine h.fold (loadFold_ok hfs) fun mem hmem _ => ⟨by simp, ?_⟩
      obtain ⟨mem', hmem', ht⟩ := foldHalt_books hhalt hmem
      refine ⟨mem', hmem', ?_⟩
      rw [ownOf, Option.elim_none, zero_add]
      exact ht
  | fold type g fold =>
      obtain ⟨⟨res, sas', acc', c'⟩, hfold, hstep⟩ := bind_eq_ok.mp hstep
      cases hstep
      exact h.books (fold_books hfold)

theorem Course.accounted (h : Course cb c₀ w bds) : Accounted cb c₀ w bds := by
  induction h with
  | start acc => exact ⟨0, 0, 0, .nil, .nil, .nil, by simpa using Ledger.refl cb c₀⟩
  | new _ hlaw hnew ih => exact ih.books fun mem hmem => hmem.gain (skiparrayNew_accounts hlaw hnew)
  | request _ hstep ih => exact ih.step hstep
  | filter _ hsa hfilter ih =>
      apply ih.books
      intro mem hmem
      obtain ⟨m, rest, hm, rfl, -, hset⟩ := hmem.split hsa
      obtain ⟨hm', hgain⟩ := hm.filter hfilter
      exact (hset _ _ hm').gain hgain
  | @free w bds i sa c' _ _ hsa hfree ih =>
      refine (ih.books fun mem hmem => hmem.drop hsa fun m hm => ?_).without i
      obtain ⟨c'', hfree', ht⟩ := hm.free w.c
      rw [hfree] at hfree'
      cases hfree'
      exact ht
  | builderNew _ hlaw hnew ih =>
      exact ih.builders fun mem hmem => hmem.gain (skiparrayBuilderNew_accounts hlaw hnew)
  | builderAppend _ hb hskip happ ih =>
      exact ih.builders fun mem hmem => hmem.one hb fun m hm => hm.append hskip happ
  | @builderFinish w bds i b sa c' _ hb hfinish ih =>
      -- what the builder took up goes over to the skiparrays
      cases hfinish
      obtain ⟨arrays, folds, builders, harrays, hfolds, hbuilders, hled⟩ := ih
      obtain ⟨m, rest, hm, rfl, herase, -⟩ := hbuilders.split hb
      obtain ⟨m', hm', ht⟩ := hm.finish w.c
      refine ⟨arrays + m', folds, rest, harrays.append (.singleton hm'), hfolds, herase, ?_⟩
      rw [add_left_comm folds, add_left_comm arrays] at hled
      rw [add_comm arrays, add_assoc]
      exact ht c₀ _ hled
  | @builderFree w bds i b c' _ hb hfree ih =>
      refine ih.builders fun mem hmem => hmem.drop hb fun m hm => ?_
      obtain ⟨c'', hfree', ht⟩ := hm.free w.c
      rw [hfree] at hfree'
      cases hfree'
      exact ht

/-! ## Nothing is left -/

/-- `skiparray_free`, of one skiparray after the other. -/
def freeAll : List (SkipArray K V) → Ctx K V U → Except Fault (Ctx K V U)
  | [], c => .ok c
  | sa :: sas, c => do
    let c ← skiparrayFree sa c
    freeAll sas c

theorem freeAll_trades {sas : List (SkipArray K V)} (h : TakeUp cb sas mem) (c : Ctx K V U) :
    ∃ c', freeAll sas c = .ok c' ∧ Trades cb c mem c' 0 := by
  obtain ⟨ms, hall, rfl⟩ := h
  induction hall generalizing c with
  | nil => exact ⟨c, rfl, .refl _ _⟩
  | @cons sa m sas ms hsa hall ih =>
      obtain ⟨c₁, hfree, ht₁⟩ := hsa.free c
      obtain ⟨c', hrest, ht⟩ := ih c₁
      refine ⟨c', bind_eq_ok.mpr ⟨c₁, hfree, hrest⟩, ?_⟩
      have hframe := ht₁.frame ms.sum
      rw [zero_add] at hframe
      rw [List.sum_cons]
      exact hframe.trans ht

omit [Inhabited K] [Inhabited V] in
theorem SumsTo.ended {folds : List (Option (FoldState K V U W))} (h : SumsTo FoldTakesUp folds mem)
    (hended : ∀ o ∈ folds, o = none) : mem = 0 := by
  obtain ⟨ms, hall, rfl⟩ := h
  induction hall with
  | nil => rfl
  | cons ho hall ih =>
      obtain rfl := hended _ List.mem_cons_self
      rw [List.sum_cons, ho.2, ih fun o hmem => hended o (List.mem_cons_of_mem _ hmem)]
      rfl

/-- Whatever a client does, with whatever memory it gets: once its builders and its
folds have ended, freeing its skiparrays succeeds, and every block that was granted
since the start has then been released exactly once, those of iterators that were
never freed included. -/
theorem memory_returned (h : Course cb c₀ w []) (hended : ∀ o ∈ w.folds, o = none) :
    ∃ c', freeAll w.sas w.c = .ok c' ∧
      c'.released.Perm (c₀.released ++ cb.granted c₀.requests c'.requests) := by
  obtain ⟨arrays, folds, builders, harrays, hfolds, ⟨ms, hall, rfl⟩, hled⟩ := h.accounted
  cases hall
  obtain rfl := hfolds.ended hended
  obtain ⟨c', hfree, ht⟩ := freeAll_trades harrays w.c
  refine ⟨c', hfree, ?_⟩
  have hbalance := (ht c₀ _ hled).balance
  rw [← Multiset.coe_eq_coe, ← Multiset.coe_add, ← hbalance]
  simp

end Course

/-- All requests for memory but the fifth are granted. -/
def Callbacks.butFifth : Callbacks ℤ Unit := { Callbacks.plain with grant := fun i => i ≠ 4 }

/-- `SkipArray.plain` with one binding, from other memory. -/
def SkipArray.plainFrom (block : ℕ) (key value : ℤ) (iters : List (Option Iter)) : SkipArray ℤ ℤ :=
  { SkipArray.plain with
    block
    heap := [some ⟨1, 0, 1, [key, 0], some [value, 0], none, [none], block + 1, block + 2, block + 3⟩]
    iters }

/-- An iterator is refused to the first skiparray, the second one is built and folded,
the third one is a copy of the first by a filter, and the first one is freed while
the fold is in progress. -/
theorem memory_returned_butFifth : ∃ c',
    freeAll [SkipArray.plainFrom 5 2 20 [none], SkipArray.plainFrom 13 1 10 []]
        (⟨(), 21, [10, 11, 12, 0, 1, 3, 2, 17, 18, 19, 20, 9], [(1, 10)]⟩ : Ctx ℤ ℤ Unit) = .ok c' ∧
      c'.released.Perm ([] ++ Callbacks.butFifth.granted 0 c'.requests) := by
  have hlaw : Config.Lawful Callbacks.butFifth (some Config.plain) := fun _ _ _ _ => LawfulCmp.int_sub
  have hnew : Course Callbacks.butFifth ⟨(), 0, [], []⟩
      (⟨[SkipArray.plain], [], 0, ⟨(), 4, [], []⟩⟩ : World ℤ ℤ Unit ℤ) [] :=
    .new (.start 0) hlaw (show skiparrayNew Callbacks.butFifth (some Config.plain) _ =
      .ok (.ok, some SkipArray.plain, _) from rfl)
  have hset := hnew.request (show World.step Callbacks.butFifth _ (.call 0 (.set 1 10)) =
    .ok (.call (.set .bound), _) from rfl)
  have hrefused := hset.request (show World.step Callbacks.butFifth _ (.iterNew 0) =
    .ok (.iterNew .errorMemory none, _) from rfl)
  have hbuilder := hrefused.builderNew hlaw (show skiparrayBuilderNew Callbacks.butFifth
    (some Config.plain) false _ = .ok (.ok, some _, _) from rfl)
  have happended := hbuilder.builderAppend (i := 0) rfl (fun h => by cases h)
    (show skiparrayBuilderAppend Callbacks.butFifth _ _ 2 20 = .ok (.ok, _, _) from rfl)
  have hbuilt := happended.builderFinish (i := 0) rfl rfl
  have hfold := hbuilt.request (show World.step Callbacks.butFifth _ (.foldInit .left (some [some 1])
    (some fun k v w => w + k * v) none) = .ok (.foldInit .ok, _) from rfl)
  have hcopy := hfold.filter (i := 0) rfl (show skiparrayFilter Callbacks.butFifth _ _
    (fun _ _ s => (true, s)) () = .ok (some _, _, _, _) from rfl)
  have hfreed := hcopy.free (i := 0) (fun fs hfs p => by
    obtain rfl := Option.some.inj (List.mem_singleton.mp hfs)
    change (0, p) ∉ [(1, 0)]
    simp) rfl (show skiparrayFree _ _ = .ok _ from rfl)
  have hnext := hfreed.request (show World.step Callbacks.butFifth _ (.foldNext 0) =
    .ok (.foldNext .ok 40, _) from rfl)
  have hdone := hnext.request (show World.step Callbacks.butFifth _ (.foldNext 0) =
    .ok (.foldNext .done 40, _) from rfl)
  exact memory_returned hdone (fun o ho => List.mem_singleton.mp ho)

end Skiparray
