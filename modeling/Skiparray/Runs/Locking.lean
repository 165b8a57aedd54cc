import Skiparray.Runs.Reachable

/-!
# Locked exactly while an iterator lives

`Session` follows the iterators of a skiparray through any interleaving of
creation, movement, release and calls, and remembers the skiparray that was
there before the first of them.
-/

namespace Skiparray

open SkipLinks Fallible

variable {K V U : Type}

/-- What a mutation answers while iterators are live. -/
def Call.onLocked : Call K V → Option (Answer K V)
  | .set _ _ => some (.set .errorLocked)
  | .setWithPair _ _ _ => some (.setWithPair .errorLocked none)
  | .forget _ => some (.forget .errorLocked none)
  | .popFirst => some (.pop .errorLocked none none)
  | .popLast => some (.pop .errorLocked none none)
  | _ => none

section OnLocked

variable [Inhabited V] {s : Settings} {cmp : K → K → ℤ} {l : List (K × V)} {call : Call K V}
  {answer : Answer K V}

omit [Inhabited V] in
theorem outPair_res_ne {α : Type} {ok empty locked : α} (hok : ok ≠ locked) (hempty : empty ≠ locked)
    (p : Option (K × V)) : (outPair s ok empty p).1 ≠ locked := by
  cases p with
  | none => exact hempty
  | some p => exact hok

omit [Inhabited V] in
theorem setRes_ne_locked (p : Option (K × V)) : setRes p ≠ .errorLocked := by
  unfold setRes
  split_ifs <;> simp

/-- No answer on bare bindings is the locked one. -/
theorem Call.onList_ne_locked (h : call.onLocked = some answer) :
    (call.onList s cmp false l).1 ≠ answer := by
  cases call with
  | set key value =>
      cases h
      intro heq
      exact setRes_ne_locked _ (Answer.set.inj heq)
  | setWithPair key value replaceKey =>
      cases h
      intro heq
      exact setRes_ne_locked _ (Answer.setWithPair.inj heq).1
  | forget key =>
      cases h
      intro heq
      have hres := (Answer.forget.inj heq).1
      split_ifs at hres
  | popFirst =>
      cases h
      intro heq
      exact outPair_res_ne (by simp) (by simp) _ (Answer.pop.inj heq).1
  | popLast =>
      cases h
      intro heq
      exact outPair_res_ne (by simp) (by simp) _ (Answer.pop.inj heq).1
  | _ => cases h

omit [Inhabited V] in
theorem Call.onNoMemory_ne_locked {answer' : Answer K V} (h : call.onLocked = some answer)
    (h' : call.onNoMemory = some answer') : answer' ≠ answer := by
  cases call with
  | set key value =>
      cases h
      cases h'
      simp
  | setWithPair key value replaceKey =>
      cases h
      cases h'
      simp
  | _ => cases h'

end OnLocked

variable [Inhabited K] [Inhabited V]

/-- With an iterator live, a mutation is refused and changes nothing. -/
theorem SkipArray.call_onLocked {cb : Callbacks K U} {sa : SkipArray K V} (hiter : sa.iter ≠ none)
    {call : Call K V} {answer : Answer K V} (hlocked : call.onLocked = some answer)
    (c : Ctx K V U) : sa.call cb c call = .ok (answer, sa, c) := by
  obtain ⟨it, hit⟩ := Option.ne_none_iff_exists'.mp hiter
  have hlock := hasIterators_eq_true hit
  cases call with
  | set key value =>
      cases hlocked
      rw [SkipArray.call, skiparraySet, skiparraySetWithPair, if_pos hlock]
      rfl
  | setWithPair key value replaceKey =>
      cases hlocked
      rw [SkipArray.call, skiparraySetWithPair, if_pos hlock]
      rfl
  | forget key =>
      cases hlocked
      rw [SkipArray.call, skiparrayForget, if_pos hlock]
      rfl
  | popFirst =>
      cases hlocked
      rw [SkipArray.call, skiparrayPopFirst, if_pos hlock]
      rfl
  | popLast =>
      cases hlocked
      rw [SkipArray.call, skiparrayPopLast, if_pos hlock]
      rfl
  | _ => cases hlocked

/-- `Session cb f base sa live`: the client holds the iterators `live` on `sa`,
latest first, and `base` is what the skiparray was when it last held none. -/
inductive Session (cb : Callbacks K U) (f : ℕ) : SkipArray K V → SkipArray K V → List Ptr → Prop where
  | start {sa : SkipArray K V} (h : Reachable cb f sa) (hiter : sa.iter = none) :
      Session cb f sa sa []
  | call {base sa sa' : SkipArray K V} {live : List Ptr} {c c' : Ctx K V U} {call : Call K V}
      {answer : Answer K V} (hs : Session cb f base sa live)
      (h : sa.call cb c call = .ok (answer, sa', c')) :
      Session cb f (if live = [] then sa' else base) sa' live
  | iterNew {base sa sa' : SkipArray K V} {live : List Ptr} {c c' : Ctx K V U} {res : IterNewRes}
      {it : Option Ptr} (hs : Session cb f base sa live)
      (h : skiparrayIterNew cb sa c = .ok (res, it, sa', c')) :
      Session cb f base sa' (it.toList ++ live)
  | iterFree {base sa sa' : SkipArray K V} {live : List Ptr} {c c' : Ctx K V U} {it : Option Ptr}
      (hs : Session cb f base sa live) (hit : ∀ p ∈ it, p ∈ live)
      (h : skiparrayIterFree sa c it = .ok (sa', c')) :
      Session cb f base sa' (live.filter fun p => it ≠ some p)
  | move {base sa sa' : SkipArray K V} {live : List Ptr} {it : Ptr} {move : Move K} {res : MoveRes}
      (hs : Session cb f base sa live) (hit : it ∈ live)
      (h : sa.move cb it move = .ok (res, sa')) : Session cb f base sa' live

variable {cb : Callbacks K U} {f : ℕ} {base sa : SkipArray K V} {live : List Ptr}

theorem List.Nodup.filter_ne_middle {p : Ptr} {xs ys : List Ptr} (h : (xs ++ p :: ys).Nodup) :
    ((xs ++ p :: ys).filter fun q => some p ≠ some q) = xs ++ ys := by
  have hmid := List.nodup_middle.mp h
  have hnot := (List.nodup_cons.mp hmid).1
  have hkeep : ∀ q ∈ xs ++ ys, decide (some p ≠ some q) = true := by
    intro q hq
    simp only [ne_eq, Option.some.injEq, decide_eq_true_eq]
    rintro rfl
    exact hnot hq
  rw [List.filter_append, List.filter_cons_of_neg (by simp), ← List.filter_append,
    List.filter_eq_self.mpr hkeep]

/-- The live iterators are the ones the client holds, and nothing but iterators
has changed since it held none. -/
theorem Session.coherent (hs : Session cb f base sa live) (hc : LawfulCmp (cb.cmp f)) :
    sa.cmp = f ∧ IterOnly base sa ∧ base.iter = none ∧ ∃ bs, sa.Coherent (cb.cmp f) bs live := by
  induction hs with
  | start h hiter =>
      obtain ⟨hcmp, bs, its, hco⟩ := h.coherent hc
      obtain rfl := hco.cursors.iter_eq_none.mp hiter
      exact ⟨hcmp, .refl _, hiter, bs, hco⟩
  | @call base sa sa' live c c' call answer hs h ih =>
      obtain ⟨rfl, ho, hbase, bs, hco⟩ := ih
      obtain ⟨hset, bs', hco'⟩ := hco.call hc h
      refine ⟨congrArg Settings.cmp hset, ?_, ?_, bs', hco'⟩
      · split_ifs with hlive
        · exact .refl _
        · obtain ⟨it, hit⟩ := Option.ne_none_iff_exists'.mp
            (mt hco.cursors.iter_eq_none.mp hlive)
          rw [(call_locked hit h).1]
          exact ho
      · split_ifs with hlive
        · exact hco'.cursors.iter_eq_none.mpr hlive
        · exact hbase
  | @iterNew base sa sa' live c c' res it hs h ih =>
      obtain ⟨rfl, ho, hbase, bs, hco⟩ := ih
      obtain ⟨res', it', sa'', c'', heq, hout⟩ := skiparrayIterNew_spec cb hco.toWf hco.cursors c
      rw [h] at heq
      cases heq
      obtain ⟨ho', hco'⟩ := hco.iterNew hout
      refine ⟨congrArg Settings.cmp ho'.settings, ho.trans ho', hbase, bs, ?_⟩
      cases it with
      | none => exact hco'
      | some p => exact hco'
  | @iterFree base sa sa' live c c' it hs hit h ih =>
      obtain ⟨rfl, ho, hbase, bs, hco⟩ := ih
      cases it with
      | none =>
          cases h
          refine ⟨rfl, ho, hbase, bs, ?_⟩
          rw [List.filter_eq_self.mpr (by simp)]
          exact hco
      | some p =>
          obtain ⟨xs, ys, rfl⟩ := List.append_of_mem (hit p rfl)
          obtain ⟨sa'', m, -, hfree, ho', hco'⟩ := hco.iterFree c
          rw [h] at hfree
          cases hfree
          refine ⟨congrArg Settings.cmp ho'.settings, ho.trans ho', hbase, bs, ?_⟩
          rw [List.Nodup.filter_ne_middle hco.cursors.nodup]
          exact hco'
  | @move base sa sa' live p move res hs hit h ih =>
      obtain ⟨rfl, ho, hbase, bs, hco⟩ := ih
      obtain ⟨m, hm⟩ := hco.cursors.isSome hit
      obtain ⟨res', sa'', heq, hmv, hco'⟩ := hco.move hc hm move
      rw [h] at heq
      cases heq
      exact ⟨congrArg Settings.cmp hmv.iterOnly.settings, ho.trans hmv.iterOnly, hbase, bs, hco'⟩

/-- At any point of a session, the iterators the client holds are exactly the
list at `sa->iter`, and they can all be moved and released; a mutation is
refused and changes nothing just when there is one; and when there is none,
whatever worked before the first of them works, on the same bindings. -/
theorem locked_while_live (hc : LawfulCmp (cb.cmp f)) (hs : Session cb f base sa live) :
    sa.Cursors live ∧ IterOnly base sa ∧
      (∀ it ∈ live, (∀ c : Ctx K V U, ∃ sa' c', skiparrayIterFree sa c (some it) = .ok (sa', c')) ∧
        ∀ move, ∃ res sa', sa.move cb it move = .ok (res, sa')) ∧
      (∀ c : Ctx K V U, ∃ res it sa' c', skiparrayIterNew cb sa c = .ok (res, it, sa', c')) ∧
      ∃ bs, base.Wf (cb.cmp f) bs ∧ sa.Wf (cb.cmp f) bs ∧
        ∀ c call answer, call.onLocked = some answer →
          (live ≠ [] → sa.call cb c call = .ok (answer, sa, c)) ∧
          (live = [] → ∀ answer' sa' c', sa.call cb c call = .ok (answer', sa', c') →
            answer' ≠ answer) ∧
          (live = [] → ∀ c₀ r, base.call cb c₀ call = .ok r →
            ∃ answer' sa' c' l', sa.call cb c call = .ok (answer', sa', c') ∧
              Leaves (cb.cmp f) sa c sa' c' l' ∧
              ((answer', l') = call.onList sa.toSettings (cb.cmp f) false (bindings bs) ∨
                ¬ cb.AllGranted ∧ call.onNoMemory = some answer' ∧ l' = bindings bs)) := by
  obtain ⟨rfl, ho, hbase, bs, hco⟩ := hs.coherent hc
  refine ⟨hco.cursors, ho, ?_, ?_, bs, ho.symm.wf hco.toWf, hco.toWf, ?_⟩
  · intro it hit
    obtain ⟨m, hm⟩ := hco.cursors.isSome hit
    constructor
    · intro c
      obtain ⟨xs, ys, rfl⟩ := List.append_of_mem hit
      obtain ⟨sa', m, -, hfree, -⟩ := hco.iterFree c
      exact ⟨sa', _, hfree⟩
    · intro move
      obtain ⟨res, sa', hmove, -⟩ := hco.move hc hm move
      exact ⟨res, sa', hmove⟩
  · intro c
    obtain ⟨res, it, sa', c', hnew, -⟩ := skiparrayIterNew_spec cb hco.toWf hco.cursors c
    exact ⟨res, it, sa', c', hnew⟩
  · intro c call answer hlocked
    refine ⟨?_, ?_, ?_⟩
    · intro hlive
      exact SkipArray.call_onLocked (mt hco.cursors.iter_eq_none.mp hlive) hlocked c
    · intro hlive answer' sa' c' heq
      have hiter := hco.cursors.iter_eq_none.mpr hlive
      obtain ⟨l', -, hres⟩ := call_ok hc hco.toWf heq
      rcases hres with hres | ⟨-, -, hno, -⟩
      · rw [hiter] at hres
        have hans := congrArg Prod.fst hres
        change answer' = _ at hans
        rw [hans]
        exact Call.onList_ne_locked hlocked
      · exact Call.onNoMemory_ne_locked hlocked hno
    · rintro hlive c₀ ⟨answer₀, sa₀, c₀'⟩ hbefore
      have hiter := hco.cursors.iter_eq_none.mpr hlive
      have hpop : call = .popLast → sa.iter = none → bindings bs ≠ [] → sa.height ≤ 128 := by
        rintro rfl - hne
        by_contra hheight
        rw [SkipArray.call, skiparrayPopLast_overflow cb (ho.symm.wf hco.toWf) hbase hne
          (by rw [← ho.height]; omega)] at hbefore
        cases hbefore
      obtain ⟨answer', sa', c', l', heq, hl, hres⟩ := call_spec hc hco.toWf c call hpop
      refine ⟨answer', sa', c', l', heq, hl, ?_⟩
      rcases hres with hres | ⟨hg, -, hno, hsame⟩
      · rw [hiter] at hres
        exact Or.inl hres
      · exact Or.inr ⟨hg, hno, hsame⟩

/-- `SkipArray.flatSplit` with two iterators. -/
def SkipArray.flatReadTwice : SkipArray ℤ ℤ :=
  { SkipArray.flatSplit with
    iter := some 1
    iters := [some ⟨some 1, none, some 0, 0, 7⟩, some ⟨none, some 0, some 0, 0, 8⟩] }

/-- The older one is freed first. -/
def SkipArray.flatYounger : SkipArray ℤ ℤ :=
  { SkipArray.flatSplit with iter := some 1, iters := [none, some ⟨none, none, some 0, 0, 8⟩] }

/-- And then the other one. -/
def SkipArray.flatFreed : SkipArray ℤ ℤ := { SkipArray.flatSplit with iters := [none, none] }

theorem SkipArray.flatYounger_session :
    Session Callbacks.plain 0 SkipArray.flatSplit SkipArray.flatYounger [1] := by
  have hone : Session Callbacks.plain 0 SkipArray.flatSplit SkipArray.flatRead [0] :=
    .iterNew (.start SkipArray.flatSplit_reachable rfl) SkipArray.flatRead_iterNew
  have hnew : skiparrayIterNew Callbacks.plain SkipArray.flatRead ⟨(), 8, [], []⟩ =
      .ok (.ok, some 1, SkipArray.flatReadTwice, ⟨(), 9, [], []⟩) := rfl
  have hfree : skiparrayIterFree SkipArray.flatReadTwice (⟨(), 9, [], []⟩ : Ctx ℤ ℤ Unit) (some 0) =
      .ok (SkipArray.flatYounger, ⟨(), 9, [7], []⟩) := rfl
  exact .iterFree (.iterNew hone hnew) (by simp) hfree

theorem SkipArray.flatFreed_session :
    Session Callbacks.plain 0 SkipArray.flatSplit SkipArray.flatFreed [] := by
  have hfree : skiparrayIterFree SkipArray.flatYounger (⟨(), 9, [7], []⟩ : Ctx ℤ ℤ Unit) (some 1) =
      .ok (SkipArray.flatFreed, ⟨(), 9, [8, 7], []⟩) := rfl
  exact .iterFree SkipArray.flatYounger_session (by simp) hfree

/-- The younger iterator alone still locks; with none left a new pair goes in. -/
theorem locked_while_live_flat :
    (SkipArray.flatYounger.Cursors [1] ∧ IterOnly SkipArray.flatSplit SkipArray.flatYounger ∧
      (∃ sa' c', skiparrayIterFree SkipArray.flatYounger (⟨(), 9, [7], []⟩ : Ctx ℤ ℤ Unit)
        (some 1) = .ok (sa', c')) ∧
      (∀ move, ∃ res sa', SkipArray.flatYounger.move Callbacks.plain 1 move = .ok (res, sa')) ∧
      ∀ (c : Ctx ℤ ℤ Unit) call answer, call.onLocked = some answer →
        SkipArray.flatYounger.call Callbacks.plain c call =
          .ok (answer, SkipArray.flatYounger, c)) ∧
    SkipArray.flatFreed.Cursors [] ∧ IterOnly SkipArray.flatSplit SkipArray.flatFreed ∧
      ∃ answer sa' c', SkipArray.flatFreed.call Callbacks.plain
        (⟨(), 9, [8, 7], []⟩ : Ctx ℤ ℤ Unit) (.set 4 40) = .ok (answer, sa', c') ∧
        answer ≠ .set .errorLocked := by
  obtain ⟨hone, honly, hlive, -, bs, -, -, hrefused⟩ :=
    locked_while_live LawfulCmp.int_sub SkipArray.flatYounger_session
  obtain ⟨hnone, honly', -, -, bs', -, -, hworks⟩ :=
    locked_while_live LawfulCmp.int_sub SkipArray.flatFreed_session
  obtain ⟨r, hbefore⟩ : ∃ r, SkipArray.flatSplit.call Callbacks.plain
      (⟨(), 7, [], []⟩ : Ctx ℤ ℤ Unit) (.set 4 40) = .ok r := ⟨_, rfl⟩
  refine ⟨⟨hone, honly, (hlive 1 (by simp)).1 _, (hlive 1 (by simp)).2, ?_⟩, hnone, honly', ?_⟩
  · intro c call answer hlocked
    exact (hrefused c call answer hlocked).1 (by simp)
  · obtain ⟨-, hnew, hagain⟩ := hworks (⟨(), 9, [8, 7], []⟩ : Ctx ℤ ℤ Unit) (.set 4 40) _ rfl
    obtain ⟨answer, sa', c', l', hcall, -⟩ := hagain rfl _ r hbefore
    exact ⟨answer, sa', c', hcall, hnew rfl _ _ _ hcall⟩

end Skiparray
