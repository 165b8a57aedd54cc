import Skiparray.Layout.Mutations

/-!
# Runs of calls

The calls a client makes on a skiparray, what they answer, and what the same
call answers on a list of bindings. `call_spec` says that a well-formed
skiparray answers like its bindings, in any layout; `run_spec` carries it
through a run.
-/

namespace Skiparray

open Fallible

variable {K V U : Type}

inductive Call (K V : Type) where
  | set (key : K) (value : V)
  | setWithPair (key : K) (value : V) (replaceKey : Bool)
  | forget (key : K)
  | popFirst
  | popLast
  | get (key : K)
  | getPair (key : K)
  | member (key : K)
  | count
  | first
  | last
deriving DecidableEq, Repr

/-- What a call hands back: its return code and out-parameters. -/
inductive Answer (K V : Type) where
  | set (res : SetRes)
  | setWithPair (res : SetRes) (previous : Option (K × V))
  | forget (res : ForgetRes) (forgotten : Option (K × V))
  | pop (res : PopRes) (key : Option K) (value : Option V)
  | get (found : Bool) (value : Option V)
  | getPair (pair : Option (K × V))
  | member (found : Bool)
  | count (n : ℕ)
  | first (res : FirstRes) (key : Option K) (value : Option V)
  | last (res : LastRes) (key : Option K) (value : Option V)
deriving DecidableEq, Repr

section Machine

variable [Inhabited K] [Inhabited V]

/-- A call on a skiparray. -/
def SkipArray.call (cb : Callbacks K U) (sa : SkipArray K V) (c : Ctx K V U) :
    Call K V → Except Fault (Answer K V × SkipArray K V × Ctx K V U)
  | .set key value => do
    let (res, sa, c) ← skiparraySet cb sa c key value
    return (.set res, sa, c)
  | .setWithPair key value replaceKey => do
    let (res, previous, sa, c) ← skiparraySetWithPair cb sa c key value replaceKey
    return (.setWithPair res previous, sa, c)
  | .forget key => do
    let (res, forgotten, sa, c) ← skiparrayForget cb sa c key
    return (.forget res forgotten, sa, c)
  | .popFirst => do
    let (res, key, value, sa, c) ← skiparrayPopFirst sa c
    return (.pop res key value, sa, c)
  | .popLast => do
    let (res, key, value, sa, c) ← skiparrayPopLast cb sa c
    return (.pop res key value, sa, c)
  | .get key => do
    let (found, value) ← skiparrayGet cb sa key
    return (.get found value, sa, c)
  | .getPair key => do
    let pair ← skiparrayGetPair cb sa key
    return (.getPair pair, sa, c)
  | .member key => do
    let found ← skiparrayMember cb sa key
    return (.member found, sa, c)
  | .count => do
    let n ← skiparrayCount sa
    return (.count n, sa, c)
  | .first => do
    let (res, key, value) ← skiparrayFirst sa
    return (.first res key value, sa, c)
  | .last => do
    let (res, key, value) ← skiparrayLast sa
    return (.last res key value, sa, c)

/-- Calls one after the other, with their answers. -/
def SkipArray.run (cb : Callbacks K U) :
    List (Call K V) → SkipArray K V → Ctx K V U →
      Except Fault (List (Answer K V) × SkipArray K V × Ctx K V U)
  | [], sa, c => .ok ([], sa, c)
  | call :: calls, sa, c => do
    let (answer, sa, c) ← sa.call cb c call
    let (answers, sa, c) ← SkipArray.run cb calls sa c
    return (answer :: answers, sa, c)

end Machine

/-! ## The same calls on a list of bindings -/

section OnList

variable [Inhabited V]

/-- What a call answers on the bindings `l`, and which it leaves. A mutation is
refused while iterators are live. -/
def Call.onList (s : Settings) (cmp : K → K → ℤ) (locked : Bool) :
    Call K V → List (K × V) → Answer K V × List (K × V)
  | .set key value, l =>
    if locked then (.set .errorLocked, l)
    else (.set (setRes (Assoc.find? cmp key l)), Assoc.put cmp key (s.stored value) true l)
  | .setWithPair key value replaceKey, l =>
    if locked then (.setWithPair .errorLocked none, l)
    else (.setWithPair (setRes (Assoc.find? cmp key l)) (Assoc.find? cmp key l),
      Assoc.put cmp key (s.stored value) replaceKey l)
  | .forget key, l =>
    if locked then (.forget .errorLocked none, l)
    else (.forget (if (Assoc.find? cmp key l).isSome then .ok else .notFound)
      (Assoc.find? cmp key l), Assoc.erase cmp key l)
  | .popFirst, l =>
    if locked then (.pop .errorLocked none none, l)
    else match outPair s PopRes.ok .empty l.head? with
      | (res, key, value) => (.pop res key value, l.tail)
  | .popLast, l =>
    if locked then (.pop .errorLocked none none, l)
    else match outPair s PopRes.ok .empty l.getLast? with
      | (res, key, value) => (.pop res key value, l.dropLast)
  | .get key, l => (.get (Assoc.find? cmp key l).isSome ((Assoc.find? cmp key l).map Prod.snd), l)
  | .getPair key, l => (.getPair (Assoc.find? cmp key l), l)
  | .member key, l => (.member (Assoc.find? cmp key l).isSome, l)
  | .count, l => (.count l.length, l)
  | .first, l => match outPair s FirstRes.ok .empty l.head? with
    | (res, key, value) => (.first res key value, l)
  | .last, l => match outPair s LastRes.ok .empty l.getLast? with
    | (res, key, value) => (.last res key value, l)

/-- What a call answers that found no memory for a node. -/
def Call.onNoMemory : Call K V → Option (Answer K V)
  | .set _ _ => some (.set .errorMemory)
  | .setWithPair _ _ _ => some (.setWithPair .errorMemory none)
  | _ => none

/-- Calls on a list of bindings, one after the other. -/
def Call.runOnList (s : Settings) (cmp : K → K → ℤ) :
    List (Call K V) → List (K × V) → List (Answer K V) × List (K × V)
  | [], l => ([], l)
  | call :: calls, l =>
    let (answer, l) := call.onList s cmp false l
    let (answers, l) := Call.runOnList s cmp calls l
    (answer :: answers, l)

end OnList

/-! ## A well-formed skiparray answers like its bindings -/

section Spec

variable [Inhabited K] [Inhabited V] {cb : Callbacks K U} {sa : SkipArray K V}
  {bs : List (Block K V)}

omit [Inhabited K] in
theorem Leaves.of_wf {cmp : K → K → ℤ} (h : sa.Wf cmp bs) (c : Ctx K V U) :
    Leaves cmp sa c sa c (bindings bs) :=
  ⟨.refl sa, rfl, bs, h, rfl⟩

omit [Inhabited K] [Inhabited V] in
theorem hasIterators_eq_true {it : Ptr} (h : sa.iter = some it) : hasIterators sa = true := by
  rw [hasIterators, h]
  rfl

/-- `skiparray_set_with_pair` on a skiparray that may have iterators. -/
theorem setWithPair_call (hc : LawfulCmp (cb.cmp sa.cmp)) (h : sa.Wf (cb.cmp sa.cmp) bs)
    (c : Ctx K V U) (key : K) (value : V) (replaceKey : Bool) :
    ∃ res prev sa' c' l', skiparraySetWithPair cb sa c key value replaceKey =
        .ok (res, prev, sa', c') ∧ Leaves (cb.cmp sa.cmp) sa c sa' c' l' ∧
      (sa.iter.isSome = true ∧ res = .errorLocked ∧ prev = none ∧ l' = bindings bs ∨
        sa.iter.isSome = false ∧ prev = Assoc.find? (cb.cmp sa.cmp) key (bindings bs) ∧
          res = setRes prev ∧
          l' = Assoc.put (cb.cmp sa.cmp) key (sa.stored value) replaceKey (bindings bs) ∨
        ¬ cb.AllGranted ∧ sa.iter = none ∧ res = .errorMemory ∧ prev = none ∧
          l' = bindings bs) := by
  cases hiter : sa.iter with
  | some it =>
      refine ⟨.errorLocked, none, sa, c, _, ?_, .of_wf h c, Or.inl ⟨rfl, rfl, rfl, rfl⟩⟩
      rw [skiparraySetWithPair, hasIterators_eq_true hiter, if_pos rfl]
  | none =>
      obtain ⟨res, prev, sa', c', heq, hres⟩ :=
        skiparraySetWithPair_spec cb hc h hiter c key value replaceKey
      rcases hres.leaves h with ⟨hr, hg, hp, hl⟩ | ⟨hp, hr, hl⟩
      · exact ⟨res, prev, sa', c', _, heq, hl, Or.inr (Or.inr ⟨hg, rfl, hr, hp, rfl⟩)⟩
      · exact ⟨res, prev, sa', c', _, heq, hl, Or.inr (Or.inl ⟨rfl, hp, hr, rfl⟩)⟩

omit [Inhabited K] [Inhabited V] in
/-- A read leaves the skiparray and the rest of the world as they are. -/
theorem read_keeps {α : Type} {x : Except Fault α} {f : α → Answer K V} {c c' : Ctx K V U}
    {answer : Answer K V} {sa' : SkipArray K V}
    (h : (do let a ← x; return (f a, sa, c)) = (.ok (answer, sa', c') : Except Fault _)) :
    sa' = sa ∧ c' = c := by
  obtain ⟨a, -, ha⟩ := bind_eq_ok.mp h
  cases ha
  exact ⟨rfl, rfl⟩

/-- One call, on a skiparray that may have iterators. The last disjunct says
what can differ when memory runs out. -/
theorem call_spec (hc : LawfulCmp (cb.cmp sa.cmp)) (h : sa.Wf (cb.cmp sa.cmp) bs) (c : Ctx K V U)
    (call : Call K V)
    (hpop : call = .popLast → sa.iter = none → bindings bs ≠ [] → sa.height ≤ 128) :
    ∃ answer sa' c' l', sa.call cb c call = .ok (answer, sa', c') ∧
      Leaves (cb.cmp sa.cmp) sa c sa' c' l' ∧
      ((answer, l') = call.onList sa.toSettings (cb.cmp sa.cmp) sa.iter.isSome (bindings bs) ∨
        ¬ cb.AllGranted ∧ sa.iter = none ∧ call.onNoMemory = some answer ∧ l' = bindings bs) := by
  have hkeep := Leaves.of_wf h c
  cases call with
  | set key value =>
      obtain ⟨res, prev, sa', c', l', heq, hl, hres⟩ := setWithPair_call hc h c key value true
      refine ⟨.set res, sa', c', l', by rw [SkipArray.call, skiparraySet, heq]; rfl, hl, ?_⟩
      rcases hres with ⟨hlock, rfl, rfl, rfl⟩ | ⟨hlock, rfl, rfl, rfl⟩ | ⟨hg, hnone, rfl, rfl, rfl⟩
      · exact Or.inl (by rw [hlock]; rfl)
      · exact Or.inl (by rw [hlock]; rfl)
      · exact Or.inr ⟨hg, hnone, rfl, rfl⟩
  | setWithPair key value replaceKey =>
      obtain ⟨res, prev, sa', c', l', heq, hl, hres⟩ :=
        setWithPair_call hc h c key value replaceKey
      refine ⟨.setWithPair res prev, sa', c', l', by rw [SkipArray.call, heq]; rfl, hl, ?_⟩
      rcases hres with ⟨hlock, rfl, rfl, rfl⟩ | ⟨hlock, rfl, rfl, rfl⟩ | ⟨hg, hnone, rfl, rfl, rfl⟩
      · exact Or.inl (by rw [hlock]; rfl)
      · exact Or.inl (by rw [hlock]; rfl)
      · exact Or.inr ⟨hg, hnone, rfl, rfl⟩
  | forget key =>
      cases hiter : sa.iter with
      | some it =>
          refine ⟨.forget .errorLocked none, sa, c, _, ?_, hkeep, Or.inl rfl⟩
          rw [SkipArray.call, skiparrayForget, hasIterators_eq_true hiter]
          rfl
      | none =>
          obtain ⟨sa', c', heq, hl, -⟩ := skiparrayForget_spec cb hc h hiter c key
          exact ⟨_, sa', c', _, by rw [SkipArray.call, heq]; rfl, hl, Or.inl rfl⟩
  | popFirst =>
      cases hiter : sa.iter with
      | some it =>
          refine ⟨.pop .errorLocked none none, sa, c, _, ?_, hkeep, Or.inl rfl⟩
          rw [SkipArray.call, skiparrayPopFirst, hasIterators_eq_true hiter]
          rfl
      | none =>
          obtain ⟨sa', c', heq, hl, -⟩ := skiparrayPopFirst_spec h hiter c
          exact ⟨_, sa', c', _, by rw [SkipArray.call, heq]; rfl, hl, Or.inl rfl⟩
  | popLast =>
      cases hiter : sa.iter with
      | some it =>
          refine ⟨.pop .errorLocked none none, sa, c, _, ?_, hkeep, Or.inl rfl⟩
          rw [SkipArray.call, skiparrayPopLast, hasIterators_eq_true hiter]
          rfl
      | none =>
          obtain ⟨sa', c', heq, hl, -⟩ := skiparrayPopLast_spec cb hc h hiter (hpop rfl hiter) c
          exact ⟨_, sa', c', _, by rw [SkipArray.call, heq]; rfl, hl, Or.inl rfl⟩
  | get key =>
      exact ⟨_, sa, c, _, by rw [SkipArray.call, skiparrayGet_spec hc h key]; rfl, hkeep,
        Or.inl rfl⟩
  | getPair key =>
      exact ⟨_, sa, c, _, by rw [SkipArray.call, skiparrayGetPair_spec hc h key]; rfl, hkeep,
        Or.inl rfl⟩
  | member key =>
      exact ⟨_, sa, c, _, by rw [SkipArray.call, skiparrayMember_spec hc h key]; rfl, hkeep,
        Or.inl rfl⟩
  | count =>
      exact ⟨_, sa, c, _, by rw [SkipArray.call, skiparrayCount_spec h.toSound]; rfl, hkeep,
        Or.inl rfl⟩
  | first =>
      exact ⟨_, sa, c, _, by rw [SkipArray.call, skiparrayFirst_spec h]; rfl, hkeep, Or.inl rfl⟩
  | last =>
      exact ⟨_, sa, c, _, by rw [SkipArray.call, skiparrayLast_spec h]; rfl, hkeep, Or.inl rfl⟩

omit [Inhabited K] in
/-- While an iterator is live, calls change nothing. -/
theorem call_locked {it : Ptr} (hiter : sa.iter = some it) {c c' : Ctx K V U} {call : Call K V}
    {answer : Answer K V} {sa' : SkipArray K V} [Inhabited K]
    (h : sa.call cb c call = .ok (answer, sa', c')) : sa' = sa ∧ c' = c := by
  have hlock := hasIterators_eq_true hiter
  cases call with
  | set key value =>
      rw [SkipArray.call, skiparraySet, skiparraySetWithPair, if_pos hlock] at h
      cases h
      exact ⟨rfl, rfl⟩
  | setWithPair key value replaceKey =>
      rw [SkipArray.call, skiparraySetWithPair, if_pos hlock] at h
      cases h
      exact ⟨rfl, rfl⟩
  | forget key =>
      rw [SkipArray.call, skiparrayForget, if_pos hlock] at h
      cases h
      exact ⟨rfl, rfl⟩
  | popFirst =>
      rw [SkipArray.call, skiparrayPopFirst, if_pos hlock] at h
      cases h
      exact ⟨rfl, rfl⟩
  | popLast =>
      rw [SkipArray.call, skiparrayPopLast, if_pos hlock] at h
      cases h
      exact ⟨rfl, rfl⟩
  | get key => exact read_keeps h
  | getPair key => exact read_keeps h
  | member key => exact read_keeps h
  | count => exact read_keeps h
  | first => exact read_keeps h
  | last => exact read_keeps h

/-- A call that came back, however tall the skiparray. -/
theorem call_ok (hc : LawfulCmp (cb.cmp sa.cmp)) (h : sa.Wf (cb.cmp sa.cmp) bs) {c c' : Ctx K V U}
    {call : Call K V} {answer : Answer K V} {sa' : SkipArray K V}
    (hcall : sa.call cb c call = .ok (answer, sa', c')) :
    ∃ l', Leaves (cb.cmp sa.cmp) sa c sa' c' l' ∧
      ((answer, l') = call.onList sa.toSettings (cb.cmp sa.cmp) sa.iter.isSome (bindings bs) ∨
        ¬ cb.AllGranted ∧ sa.iter = none ∧ call.onNoMemory = some answer ∧ l' = bindings bs) := by
  have hpop : call = .popLast → sa.iter = none → bindings bs ≠ [] → sa.height ≤ 128 := by
    rintro rfl hiter hne
    by_contra hheight
    rw [SkipArray.call, skiparrayPopLast_overflow cb h hiter hne (by omega)] at hcall
    cases hcall
  obtain ⟨answer', sa'', c'', l', heq, hl, hres⟩ := call_spec hc h c call hpop
  rw [hcall] at heq
  cases heq
  exact ⟨l', hl, hres⟩

/-- A run of calls answers like the run on the bindings. -/
theorem run_spec (hg : cb.AllGranted) :
    ∀ (calls : List (Call K V)) {sa : SkipArray K V} {bs : List (Block K V)},
      LawfulCmp (cb.cmp sa.cmp) → sa.Wf (cb.cmp sa.cmp) bs → sa.iter = none → sa.maxLevel ≤ 128 →
      ∀ c : Ctx K V U, ∃ sa' c', SkipArray.run cb calls sa c =
          .ok ((Call.runOnList sa.toSettings (cb.cmp sa.cmp) calls (bindings bs)).1, sa', c') ∧
        Leaves (cb.cmp sa.cmp) sa c sa' c'
          (Call.runOnList sa.toSettings (cb.cmp sa.cmp) calls (bindings bs)).2
  | [], sa, _, _, h, _, _, c => ⟨sa, c, rfl, .of_wf h c⟩
  | call :: calls, sa, bs, hc, h, hiter, hmax, c => by
      have hheight := h.toSound.height_le
      obtain ⟨answer, sa₁, c₁, l₁, hcall, ⟨hkeep₁, hfreed₁, bs₁, hwf₁, rfl⟩, hres⟩ :=
        call_spec hc h c call fun _ _ _ => by omega
      have hres : (answer, bindings bs₁) =
          call.onList sa.toSettings (cb.cmp sa.cmp) false (bindings bs) := by
        rcases hres with hres | ⟨hno, -⟩
        · rwa [hiter] at hres
        · exact absurd hg hno
      have hset := hkeep₁.settings
      have hcmp : cb.cmp sa₁.cmp = cb.cmp sa.cmp := by rw [hset]
      have hmax₁ : sa₁.maxLevel ≤ 128 := by rw [hset]; exact hmax
      obtain ⟨sa', c', hrun, hkeep', hfreed', hwf'⟩ := run_spec hg calls
        (hcmp ▸ hc) (hcmp ▸ hwf₁) (hkeep₁.iter.trans hiter) hmax₁ c₁
      rw [hset] at hrun hwf'
      refine ⟨sa', c', ?_, hkeep₁.trans hkeep', hfreed'.trans hfreed₁, ?_⟩
      · simp only [SkipArray.run, hcall, ok_bind, hrun, Call.runOnList, ← hres]
        rfl
      · simp only [Call.runOnList, ← hres]
        exact hwf'

end Spec

end Skiparray
