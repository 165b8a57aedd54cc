import Skiparray.Runs.Reachable

/-!
# Iterators as cursors

`Move.onIndex` moves an index in the list of bindings, and every movement of an
iterator is that, until it has been moved past the end.
-/

namespace Skiparray

open SkipLinks Fallible

variable {K V U : Type}

/-! ## Movements of an index -/

/-- What a movement answers at index `i` of the bindings `l`, and where it leads. -/
def Move.onIndex (cmp : K → K → ℤ) (l : List (K × V)) : Move K → ℕ → MoveRes × ℕ
  | .next, i => (.step (if i + 1 = l.length then .ended else .ok), i + 1)
  | .prev, i => (.step (if i = 0 then .ended else .ok), i - 1)
  | .seek key, i => (.seek (seekTo cmp key l i).1, (seekTo cmp key l i).2)
  | .seekEndpoint .first, _ => (.placed, 0)
  | .seekEndpoint .last, _ => (.placed, l.length - 1)

/-- Movements of an index, one after the other. -/
def Move.runOnIndex (cmp : K → K → ℤ) (l : List (K × V)) : List (Move K) → ℕ → List MoveRes × ℕ
  | [], i => ([], i)
  | move :: moves, i =>
    let (res, i) := move.onIndex cmp l i
    let (ress, i) := Move.runOnIndex cmp l moves i
    (res :: ress, i)

/-- None of the movements goes past the last binding. -/
def Move.StayInside (cmp : K → K → ℤ) (l : List (K × V)) : List (Move K) → ℕ → Prop
  | [], _ => True
  | move :: moves, i =>
    ¬ (move = .next ∧ i + 1 = l.length) ∧ Move.StayInside cmp l moves (move.onIndex cmp l i).2

/-- An index inside stays inside, unless it goes past the last binding. -/
theorem Move.onIndex_lt {cmp : K → K → ℤ} {l : List (K × V)} {move : Move K} {i : ℕ}
    (hi : i < l.length) (hmove : ¬ (move = .next ∧ i + 1 = l.length)) :
    (move.onIndex cmp l i).2 < l.length := by
  cases move with
  | next =>
      have : i + 1 ≠ l.length := fun h => hmove ⟨rfl, h⟩
      change i + 1 < l.length
      omega
  | prev =>
      change i - 1 < l.length
      omega
  | seek key =>
      have hcut : (Assoc.below cmp key l).length + (Assoc.above cmp key l).length = l.length := by
        rw [← List.length_append, Assoc.below_append_above]
      have hfound : (Assoc.find? cmp key l).isSome = true → Assoc.above cmp key l ≠ [] := by
        intro h hnil
        rw [Assoc.find?, hnil] at h
        cases h
      change (seekTo cmp key l i).2 < l.length
      unfold seekTo
      split_ifs with h₁ h₂ h₃
      · have := List.length_pos_of_ne_nil (hfound h₁)
        simp only
        omega
      · exact hi
      · exact hi
      · have := List.length_pos_of_ne_nil h₃
        simp only
        omega
  | seekEndpoint ends =>
      cases ends with
      | first =>
          change 0 < l.length
          omega
      | last =>
          change l.length - 1 < l.length
          omega

variable [Inhabited K] [Inhabited V]

/-- Movements of iterator `it`, one after the other. -/
def SkipArray.moves (cb : Callbacks K U) (it : Ptr) :
    List (Move K) → SkipArray K V → Except Fault (List MoveRes × SkipArray K V)
  | [], sa => .ok ([], sa)
  | move :: moves, sa => do
    let (res, sa) ← sa.move cb it move
    let (ress, sa) ← SkipArray.moves cb it moves sa
    return (res :: ress, sa)

/-! ## Iterators move like indices -/

section Simulation

variable {cb : Callbacks K U} {sa sa' : SkipArray K V} {bs : List (Block K V)} {its : List Ptr}
  {it : Ptr} {i : ℕ}

omit [Inhabited K] in
/-- A movement of an iterator is that movement of its index. -/
theorem move_onIndex (hc : LawfulCmp (cb.cmp sa.cmp)) (h : sa.Coherent (cb.cmp sa.cmp) bs its)
    (hat : sa.At bs it i) (move : Move K)
    (hwrap : move = .next → ∀ m, sa.iter? it = some m → m.index ≠ 65535) :
    ∃ sa', sa.move cb it move =
        .ok ((move.onIndex (cb.cmp sa.cmp) (bindings bs) i).1, sa') ∧ sa.Moves it sa' ∧
      sa'.Coherent (cb.cmp sa.cmp) bs its ∧
      sa'.At bs it (move.onIndex (cb.cmp sa.cmp) (bindings bs) i).2 := by
  obtain ⟨m, hm⟩ := hat.isSome
  have hne := (h.of_iter hm).1
  cases move with
  | next =>
      obtain ⟨res, sa', i', heq, hmv, hat', hres⟩ := skiparrayIterNext_spec h.toWf hne hat
      obtain ⟨rfl, rfl⟩ := hres (hwrap rfl)
      exact ⟨sa', by rw [SkipArray.move, heq]; rfl, hmv, h.moves hmv hat', hat'⟩
  | prev =>
      obtain ⟨sa', heq, hmv, hat', -⟩ := skiparrayIterPrev_spec h.toWf hne hat
      exact ⟨sa', by rw [SkipArray.move, heq]; rfl, hmv, h.moves hmv hat', hat'⟩
  | seek key =>
      obtain ⟨sa', heq, hmv, hat', -⟩ := skiparrayIterSeek_spec hc h.toWf hne hat key
      exact ⟨sa', by rw [SkipArray.move, heq]; rfl, hmv, h.moves hmv hat', hat'⟩
  | seekEndpoint ends =>
      obtain ⟨sa', heq, hmv, hat'⟩ := skiparrayIterSeekEndpoint_spec h.toWf hne hm ends
      cases ends with
      | first => exact ⟨sa', by rw [SkipArray.move, heq]; rfl, hmv, h.moves hmv hat', hat'⟩
      | last => exact ⟨sa', by rw [SkipArray.move, heq]; rfl, hmv, h.moves hmv hat', hat'⟩

omit [Inhabited K] in
/-- At a binding, `skiparray_iter_get` reads it. -/
theorem SkipArray.Coherent.get {cmp : K → K → ℤ} (h : sa.Coherent cmp bs its) (hat : sa.At bs it i)
    {kv : K × V} (hkv : (bindings bs)[i]? = some kv) :
    skiparrayIterGet sa it = .ok (kv.1, sa.out kv.2) := by
  obtain ⟨m, hm⟩ := hat.isSome
  rw [skiparrayIterGet_spec h.toWf (h.of_iter hm).1 hat, hkv]

omit [Inhabited K] in
/-- Movements that stay inside, one after the other. -/
theorem moves_onIndex :
    ∀ (moves : List (Move K)) {sa : SkipArray K V} {i : ℕ}, LawfulCmp (cb.cmp sa.cmp) →
      sa.Coherent (cb.cmp sa.cmp) bs its → sa.At bs it i → i < (bindings bs).length →
      Move.StayInside (cb.cmp sa.cmp) (bindings bs) moves i →
      ∃ sa', SkipArray.moves cb it moves sa =
          .ok ((Move.runOnIndex (cb.cmp sa.cmp) (bindings bs) moves i).1, sa') ∧
        IterOnly sa sa' ∧ sa'.Coherent (cb.cmp sa.cmp) bs its ∧
        sa'.At bs it (Move.runOnIndex (cb.cmp sa.cmp) (bindings bs) moves i).2 ∧
        (Move.runOnIndex (cb.cmp sa.cmp) (bindings bs) moves i).2 < (bindings bs).length
  | [], sa, i, _, h, hat, hi, _ => ⟨sa, rfl, .refl sa, h, hat, hi⟩
  | move :: moves, sa, i, hc, h, hat, hi, ⟨hstay, hrest⟩ => by
      obtain ⟨sa₁, heq, hmv, h₁, hat₁⟩ :=
        move_onIndex hc h hat move fun _ => hat.index_lt h.toWf hi
      have hset := hmv.iterOnly.settings
      have hcmp : cb.cmp sa₁.cmp = cb.cmp sa.cmp := by rw [hset]
      obtain ⟨sa', hrun, ho, h', hat', hi'⟩ := moves_onIndex moves (hcmp ▸ hc)
        (hcmp ▸ h₁) hat₁ (Move.onIndex_lt hi hstay) (hcmp ▸ hrest)
      rw [hcmp] at hrun h' hat' hi'
      refine ⟨sa', ?_, hmv.iterOnly.trans ho, h', hat', hi'⟩
      simp only [SkipArray.moves, heq, ok_bind, hrun, Move.runOnIndex]
      rfl

end Simulation

/-! ## Reading along -/

/-- From `sa` on, iterator `it` acts as index `i` of the bindings `l`, until it
is moved past the last one. -/
def ActsAs (cb : Callbacks K U) (sa : SkipArray K V) (it : Ptr) (l : List (K × V)) (i : ℕ) : Prop :=
  ∀ moves, Move.StayInside (cb.cmp sa.cmp) l moves i →
    ∃ sa' kv, SkipArray.moves cb it moves sa =
        .ok ((Move.runOnIndex (cb.cmp sa.cmp) l moves i).1, sa') ∧
      l[(Move.runOnIndex (cb.cmp sa.cmp) l moves i).2]? = some kv ∧
      skiparrayIterGet sa' it = .ok (kv.1, sa.out kv.2) ∧
      ((Move.runOnIndex (cb.cmp sa.cmp) l moves i).2 + 1 = l.length →
        ∃ sa'', skiparrayIterNext sa' it = .ok (.ended, sa''))

/-- What `skiparray_iter_get` reads between movements `move`, up to END. -/
inductive Visits (cb : Callbacks K U) (it : Ptr) (move : Move K) :
    SkipArray K V → List (K × Option V) → Prop where
  | last {sa sa' : SkipArray K V} {kv : K × Option V} (hget : skiparrayIterGet sa it = .ok kv)
      (hmove : sa.move cb it move = .ok (.step .ended, sa')) : Visits cb it move sa [kv]
  | more {sa sa' : SkipArray K V} {kv : K × Option V} {kvs : List (K × Option V)}
      (hget : skiparrayIterGet sa it = .ok kv)
      (hmove : sa.move cb it move = .ok (.step .ok, sa')) (hrest : Visits cb it move sa' kvs) :
      Visits cb it move sa (kv :: kvs)

section Reading

variable {cb : Callbacks K U} {sa : SkipArray K V} {bs : List (Block K V)} {its : List Ptr}
  {it : Ptr} {i : ℕ}

omit [Inhabited K] in
theorem SkipArray.At.actsAs (hc : LawfulCmp (cb.cmp sa.cmp))
    (h : sa.Coherent (cb.cmp sa.cmp) bs its) (hat : sa.At bs it i)
    (hi : i < (bindings bs).length) : ActsAs cb sa it (bindings bs) i := by
  intro moves hstay
  obtain ⟨sa', hrun, ho, h', hat', hi'⟩ := moves_onIndex moves hc h hat hi hstay
  refine ⟨sa', _, hrun, List.getElem?_eq_getElem hi', ?_, ?_⟩
  · rw [h'.get hat' (List.getElem?_eq_getElem hi'), ho.settings]
  · intro hlast
    obtain ⟨m, hm⟩ := hat'.isSome
    obtain ⟨res, sa'', j, heq, -, -, hres⟩ :=
      skiparrayIterNext_spec h'.toWf (h'.of_iter hm).1 hat'
    obtain ⟨rfl, -⟩ := hres (hat'.index_lt h'.toWf hi')
    rw [if_pos hlast] at heq
    exact ⟨sa'', heq⟩

omit [Inhabited K] in
/-- Going forward from index `i` visits the bindings from there on. -/
theorem visits_next :
    ∀ {n : ℕ} {sa : SkipArray K V} {i : ℕ}, LawfulCmp (cb.cmp sa.cmp) →
      sa.Coherent (cb.cmp sa.cmp) bs its → sa.At bs it i → i + n + 1 = (bindings bs).length →
      Visits cb it .next sa (((bindings bs).drop i).map fun kv => (kv.1, sa.out kv.2))
  | 0, sa, i, hc, h, hat, hn => by
      have hi : i < (bindings bs).length := by omega
      obtain ⟨sa', heq, -, -, -⟩ :=
        move_onIndex hc h hat .next fun _ => hat.index_lt h.toWf hi
      rw [Move.onIndex, if_pos (by omega)] at heq
      rw [List.drop_eq_getElem_cons hi, List.drop_eq_nil_of_le (by omega), List.map_cons,
        List.map_nil]
      exact .last (h.get hat (List.getElem?_eq_getElem hi)) heq
  | n + 1, sa, i, hc, h, hat, hn => by
      have hi : i < (bindings bs).length := by omega
      obtain ⟨sa', heq, hmv, h', hat'⟩ :=
        move_onIndex hc h hat .next fun _ => hat.index_lt h.toWf hi
      have hset := hmv.iterOnly.settings
      have hcmp : cb.cmp sa'.cmp = cb.cmp sa.cmp := by rw [hset]
      have hrest := visits_next (n := n) (hcmp ▸ hc) (hcmp ▸ h') hat' (by
        change i + 1 + n + 1 = _
        omega)
      rw [Move.onIndex, if_neg (by omega)] at heq
      rw [List.drop_eq_getElem_cons hi, List.map_cons]
      rw [hset] at hrest
      exact .more (h.get hat (List.getElem?_eq_getElem hi)) heq hrest

omit [Inhabited K] in
/-- Going back from index `i` visits the bindings up to there in reverse. -/
theorem visits_prev :
    ∀ {i : ℕ} {sa : SkipArray K V}, LawfulCmp (cb.cmp sa.cmp) →
      sa.Coherent (cb.cmp sa.cmp) bs its → sa.At bs it i → i < (bindings bs).length →
      Visits cb it .prev sa
        (((bindings bs).take (i + 1)).reverse.map fun kv => (kv.1, sa.out kv.2))
  | 0, sa, hc, h, hat, hi => by
      obtain ⟨sa', heq, -, -, -⟩ := move_onIndex hc h hat .prev (by simp)
      rw [Move.onIndex, if_pos rfl] at heq
      rw [List.take_succ_eq_append_getElem hi, List.take_zero, List.nil_append,
        List.reverse_singleton, List.map_singleton]
      exact .last (h.get hat (List.getElem?_eq_getElem hi)) heq
  | i + 1, sa, hc, h, hat, hi => by
      obtain ⟨sa', heq, hmv, h', hat'⟩ := move_onIndex hc h hat .prev (by simp)
      have hset := hmv.iterOnly.settings
      have hcmp : cb.cmp sa'.cmp = cb.cmp sa.cmp := by rw [hset]
      have hrest := visits_prev (i := i) (hcmp ▸ hc) (hcmp ▸ h') hat' (by omega)
      rw [Move.onIndex, if_neg (Nat.succ_ne_zero i)] at heq
      rw [List.take_succ_eq_append_getElem hi, List.reverse_append, List.reverse_singleton,
        List.singleton_append, List.map_cons]
      rw [hset] at hrest
      exact .more (h.get hat (List.getElem?_eq_getElem hi)) heq hrest

/-- An iterator acts as an index into the bindings, from where it is created or
placed, and a walk from one end to the other visits them all. -/
theorem iterators_are_cursors {f : ℕ} (hc : LawfulCmp (cb.cmp f)) (h : Reachable cb f sa) :
    ∃ bs, sa.Wf (cb.cmp f) bs ∧
      (∀ c it sa' c', skiparrayIterNew cb sa c = .ok (.ok, some it, sa', c') →
        ActsAs cb sa' it (bindings bs) 0) ∧
      ∀ it m, sa.iter? it = some m →
        (∃ sa', skiparrayIterSeekEndpoint sa it .first = .ok sa' ∧
          ActsAs cb sa' it (bindings bs) 0 ∧
          Visits cb it .next sa' ((bindings bs).map fun kv => (kv.1, sa.out kv.2))) ∧
        (∃ sa', skiparrayIterSeekEndpoint sa it .last = .ok sa' ∧
          ActsAs cb sa' it (bindings bs) ((bindings bs).length - 1) ∧
          Visits cb it .prev sa' ((bindings bs).reverse.map fun kv => (kv.1, sa.out kv.2))) ∧
        ∀ key res sa', skiparrayIterSeek cb sa it key = .ok (res, sa') →
          (res = .found → ∃ i kv, (bindings bs)[i]? = some kv ∧ cb.cmp f key kv.1 = 0 ∧
            ActsAs cb sa' it (bindings bs) i) ∧
          (res = .notFound → ∃ i kv, (bindings bs)[i]? = some kv ∧ cb.cmp f key kv.1 < 0 ∧
            (∀ q ∈ (bindings bs).take i, cb.cmp f q.1 key < 0) ∧
            ActsAs cb sa' it (bindings bs) i) := by
  obtain ⟨rfl, bs, its, hco⟩ := h.coherent hc
  refine ⟨bs, hco.toWf, ?_, ?_⟩
  · intro c it sa' c' hnew
    obtain ⟨res, it', sa'', c'', heq, hout⟩ := skiparrayIterNew_spec cb hco.toWf hco.cursors c
    rw [hnew] at heq
    cases heq
    have hco' := (hco.iterNew hout).2
    cases hout with
    | @ok _ block hne ha =>
        have hat := SkipArray.At.withIter hco.toWf hne block
        exact hat.actsAs hc hco' (List.length_pos_of_ne_nil hne)
  · intro it m hm
    obtain ⟨hne, i, hat⟩ := hco.of_iter hm
    have hpos := List.length_pos_of_ne_nil hne
    refine ⟨?_, ?_, ?_⟩
    · obtain ⟨sa', heq, hmv, hat'⟩ := skiparrayIterSeekEndpoint_spec hco.toWf hne hm .first
      have hset := hmv.iterOnly.settings
      have hcmp : cb.cmp sa'.cmp = cb.cmp sa.cmp := by rw [hset]
      have hco' := hco.moves hmv hat'
      refine ⟨sa', heq, hat'.actsAs (hcmp ▸ hc) (hcmp ▸ hco') hpos, ?_⟩
      have := visits_next (n := (bindings bs).length - 1) (hcmp ▸ hc) (hcmp ▸ hco') hat'
        (by simp only; omega)
      rwa [List.drop_zero, hset] at this
    · obtain ⟨sa', heq, hmv, hat'⟩ := skiparrayIterSeekEndpoint_spec hco.toWf hne hm .last
      have hset := hmv.iterOnly.settings
      have hcmp : cb.cmp sa'.cmp = cb.cmp sa.cmp := by rw [hset]
      have hco' := hco.moves hmv hat'
      refine ⟨sa', heq, hat'.actsAs (hcmp ▸ hc) (hcmp ▸ hco') (Nat.sub_lt hpos Nat.one_pos), ?_⟩
      have := visits_prev (hcmp ▸ hc) (hcmp ▸ hco') hat' (Nat.sub_lt hpos Nat.one_pos)
      rwa [Nat.sub_add_cancel hpos, List.take_length, hset] at this
    · intro key res sa' hseek
      obtain ⟨sa'', heq, hmv, hat', -⟩ := skiparrayIterSeek_spec hc hco.toWf hne hat key
      rw [hseek, Except.ok.injEq, Prod.mk.injEq] at heq
      obtain ⟨rfl, rfl⟩ := heq
      have hset := hmv.iterOnly.settings
      have hcmp : cb.cmp sa'.cmp = cb.cmp sa.cmp := by rw [hset]
      have hco' := hco.moves hmv hat'
      rcases Assoc.hit_or_miss hc hco.ascending key with
        ⟨pre, kv, post, hsplit, hhit⟩ | ⟨pre, post, hsplit, hmiss⟩
      · have hget : (bindings bs)[pre.length]? = some kv := by
          rw [hsplit]
          simp
        rw [hsplit, seekTo_hit hc hhit] at hat' ⊢
        rw [← hsplit]
        have hacts := hat'.actsAs (hcmp ▸ hc) (hcmp ▸ hco') (List.getElem?_eq_some_iff.mp hget).1
        exact ⟨fun _ => ⟨pre.length, kv, hget, hhit.eq, hacts⟩, by simp⟩
      · rw [hsplit, seekTo_miss hc hmiss] at hat' ⊢
        rw [← hsplit]
        by_cases hends : pre = [] ∨ post = []
        · constructor
          · intro hres
            split_ifs at hres
          · intro hres
            rcases hends with hpre | hpost
            · rw [if_pos hpre] at hres
              cases hres
            · rw [if_pos hpost] at hres
              split_ifs at hres
        · rw [not_or] at hends
          rw [if_neg hends.1, if_neg hends.2] at hat' ⊢
          obtain ⟨kv, post, rfl⟩ := List.exists_cons_of_ne_nil hends.2
          have hget : (bindings bs)[pre.length]? = some kv := by
            rw [hsplit]
            simp
          have hacts := hat'.actsAs (hcmp ▸ hc) (hcmp ▸ hco') (List.getElem?_eq_some_iff.mp hget).1
          refine ⟨by simp, fun _ => ⟨pre.length, kv, hget, hmiss.hi kv List.mem_cons_self, ?_, hacts⟩⟩
          rw [hsplit, List.take_left]
          exact hmiss.lo

theorem iterators_are_cursors_flatRead :
    ∃ bs, SkipArray.flatRead.Wf (Callbacks.plain.cmp 0) bs ∧
      (∀ (c : Ctx ℤ ℤ Unit) it sa' c',
        skiparrayIterNew Callbacks.plain SkipArray.flatRead c = .ok (.ok, some it, sa', c') →
        ActsAs Callbacks.plain sa' it (bindings bs) 0) ∧
      ∀ it m, SkipArray.flatRead.iter? it = some m →
        (∃ sa', skiparrayIterSeekEndpoint SkipArray.flatRead it .first = .ok sa' ∧
          ActsAs Callbacks.plain sa' it (bindings bs) 0 ∧
          Visits Callbacks.plain it .next sa'
            ((bindings bs).map fun kv => (kv.1, SkipArray.flatRead.out kv.2))) ∧
        (∃ sa', skiparrayIterSeekEndpoint SkipArray.flatRead it .last = .ok sa' ∧
          ActsAs Callbacks.plain sa' it (bindings bs) ((bindings bs).length - 1) ∧
          Visits Callbacks.plain it .prev sa'
            ((bindings bs).reverse.map fun kv => (kv.1, SkipArray.flatRead.out kv.2))) ∧
        ∀ key res sa', skiparrayIterSeek Callbacks.plain SkipArray.flatRead it key =
            .ok (res, sa') →
          (res = .found → ∃ i kv, (bindings bs)[i]? = some kv ∧
            Callbacks.plain.cmp 0 key kv.1 = 0 ∧ ActsAs Callbacks.plain sa' it (bindings bs) i) ∧
          (res = .notFound → ∃ i kv, (bindings bs)[i]? = some kv ∧
            Callbacks.plain.cmp 0 key kv.1 < 0 ∧
            (∀ q ∈ (bindings bs).take i, Callbacks.plain.cmp 0 q.1 key < 0) ∧
            ActsAs Callbacks.plain sa' it (bindings bs) i) :=
  iterators_are_cursors LawfulCmp.int_sub SkipArray.flatRead_reachable

end Reading

/-! ## Seeking -/

/-- `skiparray_iter_seek` answers where the key lies among the bindings, and
takes the iterator to the least binding at or above it. -/
theorem iter_seek_least {cb : Callbacks K U} {sa : SkipArray K V} {f : ℕ}
    (hc : LawfulCmp (cb.cmp f)) (h : Reachable cb f sa) :
    ∃ bs, sa.Wf (cb.cmp f) bs ∧ ∀ it m, sa.iter? it = some m → ∀ key,
      ∃ res sa', skiparrayIterSeek cb sa it key = .ok (res, sa') ∧
        (res = .found ↔ ∃ kv ∈ bindings bs, cb.cmp f key kv.1 = 0) ∧
        (res = .errorBeforeFirst ↔ ∀ kv ∈ bindings bs, cb.cmp f key kv.1 < 0) ∧
        (res = .errorAfterLast ↔ ∀ kv ∈ bindings bs, cb.cmp f kv.1 key < 0) ∧
        (res = .found → ∃ kv ∈ bindings bs, cb.cmp f key kv.1 = 0 ∧
          skiparrayIterGet sa' it = .ok (kv.1, sa.out kv.2)) ∧
        (res = .notFound → ∃ kv ∈ bindings bs, cb.cmp f key kv.1 < 0 ∧
          (∀ q ∈ bindings bs, cb.cmp f key q.1 < 0 → cb.cmp f kv.1 q.1 ≤ 0) ∧
          skiparrayIterGet sa' it = .ok (kv.1, sa.out kv.2)) ∧
        (res = .errorBeforeFirst ∨ res = .errorAfterLast → sa' = sa) := by
  obtain ⟨rfl, bs, its, hco⟩ := h.coherent hc
  refine ⟨bs, hco.toWf, ?_⟩
  intro it m hm key
  obtain ⟨hne, i, hat⟩ := hco.of_iter hm
  obtain ⟨sa', heq, hmv, hat', hsame⟩ := skiparrayIterSeek_spec hc hco.toWf hne hat key
  have hset := hmv.iterOnly.settings
  have hco' := hco.moves hmv hat'
  have hread : ∀ {j : ℕ} {kv : K × V}, sa'.At bs it j → (bindings bs)[j]? = some kv →
      skiparrayIterGet sa' it = .ok (kv.1, sa.out kv.2) := by
    intro j kv hj hkv
    rw [hco'.get hj hkv, hset]
  refine ⟨_, sa', heq, ?_⟩
  rcases Assoc.hit_or_miss hc hco.ascending key with
    ⟨pre, kv, post, hsplit, hhit⟩ | ⟨pre, post, hsplit, hmiss⟩
  · -- the key is bound
    have hmem : kv ∈ bindings bs := by simp [hsplit]
    have hget : (bindings bs)[pre.length]? = some kv := by
      rw [hsplit]
      simp
    have hres : seekTo (cb.cmp sa.cmp) key (bindings bs) i = (.found, pre.length) := by
      rw [hsplit, seekTo_hit hc hhit]
    rw [hres] at hat' ⊢
    refine ⟨⟨fun _ => ⟨kv, hmem, hhit.eq⟩, fun _ => rfl⟩, ⟨by simp, ?_⟩, ⟨by simp, ?_⟩,
      fun _ => ⟨kv, hmem, hhit.eq, hread hat' hget⟩, by simp, by simp⟩
    · intro hall
      have := hall kv hmem
      have := hhit.eq
      omega
    · intro hall
      have := hall kv hmem
      have := hc.symm hhit.eq
      omega
  · -- it lies in a gap
    have hno : ∀ kv ∈ bindings bs, cb.cmp sa.cmp key kv.1 ≠ 0 := by
      intro kv hkv hzero
      rw [hsplit] at hkv
      rcases List.mem_append.mp hkv with hkv | hkv
      · have := hmiss.lo kv hkv
        have := hc.symm hzero
        omega
      · have := hmiss.hi kv hkv
        omega
    have hbefore : (∀ kv ∈ bindings bs, cb.cmp sa.cmp key kv.1 < 0) ↔ pre = [] := by
      rw [hsplit]
      constructor
      · intro hall
        cases pre with
        | nil => rfl
        | cons q pre =>
            have h₁ := hall q (by simp)
            have h₂ := hmiss.lo q (by simp)
            have := hc.swap q.1 key
            omega
      · rintro rfl kv hkv
        exact hmiss.hi kv hkv
    have hafter : (∀ kv ∈ bindings bs, cb.cmp sa.cmp kv.1 key < 0) ↔ post = [] := by
      rw [hsplit]
      constructor
      · intro hall
        cases post with
        | nil => rfl
        | cons q post =>
            have h₁ := hall q (by simp)
            have h₂ := hmiss.hi q (by simp)
            have := hc.swap q.1 key
            omega
      · rintro rfl kv hkv
        rw [List.append_nil] at hkv
        exact hmiss.lo kv hkv
    have hfound : ¬ ∃ kv ∈ bindings bs, cb.cmp sa.cmp key kv.1 = 0 := by
      rintro ⟨kv, hkv, hzero⟩
      exact hno kv hkv hzero
    have hres : seekTo (cb.cmp sa.cmp) key (bindings bs) i = if pre = [] then (.errorBeforeFirst, i)
        else if post = [] then (.errorAfterLast, i) else (.notFound, pre.length) := by
      rw [hsplit, seekTo_miss hc hmiss]
    rw [hbefore, hafter]
    rw [hres] at hat' hsame ⊢
    by_cases hpre : pre = []
    · have hpost : post ≠ [] := by
        rintro rfl
        rw [hpre] at hsplit
        exact hne hsplit
      rw [if_pos hpre] at hsame ⊢
      exact ⟨⟨by simp, fun hex => absurd hex hfound⟩, ⟨fun _ => hpre, fun _ => rfl⟩,
        ⟨by simp, fun hnil => absurd hnil hpost⟩, by simp, by simp, hsame⟩
    rw [if_neg hpre] at hat' hsame ⊢
    by_cases hpost : post = []
    · rw [if_pos hpost] at hsame ⊢
      exact ⟨⟨by simp, fun hex => absurd hex hfound⟩, ⟨by simp, fun hnil => absurd hnil hpre⟩,
        ⟨fun _ => hpost, fun _ => rfl⟩, by simp, by simp, hsame⟩
    · rw [if_neg hpost] at hat' ⊢
      obtain ⟨kv, post, rfl⟩ := List.exists_cons_of_ne_nil hpost
      have hget : (bindings bs)[pre.length]? = some kv := by
        rw [hsplit]
        simp
      refine ⟨⟨by simp, fun hex => absurd hex hfound⟩, ⟨by simp, fun hnil => absurd hnil hpre⟩,
        ⟨by simp, fun hnil => absurd hnil hpost⟩, by simp, fun _ => ⟨kv, by simp [hsplit],
          hmiss.hi kv (by simp), ?_, hread hat' hget⟩, by simp⟩
      intro q hq hlt
      have hasc := hco.ascending
      rw [hsplit] at hq hasc
      rcases List.mem_append.mp hq with hq | hq
      · have := hmiss.lo q hq
        have := hc.swap q.1 key
        omega
      · rcases List.mem_cons.mp hq with rfl | hq
        · exact le_of_eq (hc.refl _)
        · exact le_of_lt ((Ascending.cons_iff.mp (Ascending.append_iff.mp hasc).2.1).1 q hq)

theorem iter_seek_least_flatRead :
    ∃ bs, SkipArray.flatRead.Wf (Callbacks.plain.cmp 0) bs ∧
      ∀ it m, SkipArray.flatRead.iter? it = some m → ∀ key,
      ∃ res sa', skiparrayIterSeek Callbacks.plain SkipArray.flatRead it key = .ok (res, sa') ∧
        (res = .found ↔ ∃ kv ∈ bindings bs, Callbacks.plain.cmp 0 key kv.1 = 0) ∧
        (res = .errorBeforeFirst ↔ ∀ kv ∈ bindings bs, Callbacks.plain.cmp 0 key kv.1 < 0) ∧
        (res = .errorAfterLast ↔ ∀ kv ∈ bindings bs, Callbacks.plain.cmp 0 kv.1 key < 0) ∧
        (res = .found → ∃ kv ∈ bindings bs, Callbacks.plain.cmp 0 key kv.1 = 0 ∧
          skiparrayIterGet sa' it = .ok (kv.1, SkipArray.flatRead.out kv.2)) ∧
        (res = .notFound → ∃ kv ∈ bindings bs, Callbacks.plain.cmp 0 key kv.1 < 0 ∧
          (∀ q ∈ bindings bs, Callbacks.plain.cmp 0 key q.1 < 0 →
            Callbacks.plain.cmp 0 kv.1 q.1 ≤ 0) ∧
          skiparrayIterGet sa' it = .ok (kv.1, SkipArray.flatRead.out kv.2)) ∧
        (res = .errorBeforeFirst ∨ res = .errorAfterLast → sa' = SkipArray.flatRead) :=
  iter_seek_least LawfulCmp.int_sub SkipArray.flatRead_reachable

/-! ## Past the end -/

/-- Iterator `it` designates a binding before and after each of the movements,
and END leaves it where it is, to be answered again. -/
def AlwaysValid (cb : Callbacks K U) (it : Ptr) : List (Move K) → SkipArray K V → Prop
  | [], sa => ∃ kv, skiparrayIterGet sa it = .ok kv
  | move :: moves, sa => (∃ kv, skiparrayIterGet sa it = .ok kv) ∧
    ∃ res sa', sa.move cb it move = .ok (res, sa') ∧
      (res = .step .ended → skiparrayIterGet sa' it = skiparrayIterGet sa it ∧
        ∃ sa'', sa'.move cb it move = .ok (.step .ended, sa'')) ∧
      AlwaysValid cb it moves sa'

section PastTheEnd

variable {cb : Callbacks K U} {sa : SkipArray K V} {bs : List (Block K V)} {its : List Ptr}
  {it : Ptr} {i : ℕ}

omit [Inhabited K] in
theorem alwaysValid_iff :
    ∀ (moves : List (Move K)) {sa : SkipArray K V} {i : ℕ}, LawfulCmp (cb.cmp sa.cmp) →
      sa.Coherent (cb.cmp sa.cmp) bs its → sa.At bs it i → i < (bindings bs).length →
      (AlwaysValid cb it moves sa ↔ Move.StayInside (cb.cmp sa.cmp) (bindings bs) moves i)
  | [], sa, i, _, h, hat, hi =>
      ⟨fun _ => trivial, fun _ => ⟨_, h.get hat (List.getElem?_eq_getElem hi)⟩⟩
  | move :: moves, sa, i, hc, h, hat, hi => by
      have hget := h.get hat (List.getElem?_eq_getElem hi)
      obtain ⟨sa', heq, hmv, h', hat'⟩ :=
        move_onIndex hc h hat move fun _ => hat.index_lt h.toWf hi
      have hset := hmv.iterOnly.settings
      have hcmp : cb.cmp sa'.cmp = cb.cmp sa.cmp := by rw [hset]
      by_cases hend : move = .next ∧ i + 1 = (bindings bs).length
      · -- END has moved the iterator off the last binding
        refine ⟨?_, fun hstay => absurd hend hstay.1⟩
        rintro ⟨-, res, sa₁, heq₁, hended, -⟩
        exfalso
        obtain ⟨rfl, hlast⟩ := hend
        rw [heq, Move.onIndex, if_pos hlast] at heq₁
        cases heq₁
        have hgone : skiparrayIterGet sa' it = .error .assertion := by
          obtain ⟨m, hm⟩ := hat'.isSome
          rw [skiparrayIterGet_spec h'.toWf (h'.of_iter hm).1 hat', Move.onIndex,
            List.getElem?_eq_none (by simp only; omega)]
        obtain ⟨hsame, -⟩ := hended rfl
        rw [hgone, hget] at hsame
        cases hsame
      · have ih := alwaysValid_iff moves (hcmp ▸ hc) (hcmp ▸ h') hat'
          (Move.onIndex_lt hi hend)
        rw [hcmp] at ih
        constructor
        · rintro ⟨-, res, sa₁, heq₁, -, hrest⟩
          rw [heq] at heq₁
          cases heq₁
          exact ⟨hend, ih.mp hrest⟩
        · rintro ⟨-, hrest⟩
          refine ⟨⟨_, hget⟩, _, sa', heq, ?_, ih.mpr hrest⟩
          intro hended
          -- the only END left is that of `prev` at the first binding
          have hprev : move = .prev ∧ i = 0 := by
            cases move with
            | next =>
                rw [Move.onIndex] at hended
                by_cases hlast : i + 1 = (bindings bs).length
                · exact absurd ⟨rfl, hlast⟩ hend
                · rw [if_neg hlast] at hended
                  cases hended
            | prev =>
                refine ⟨rfl, ?_⟩
                by_contra hpos
                rw [Move.onIndex, if_neg hpos] at hended
                cases hended
            | seek key => cases hended
            | seekEndpoint ends => cases ends <;> cases hended
          obtain ⟨rfl, rfl⟩ := hprev
          refine ⟨?_, ?_⟩
          · rw [h'.get hat' (List.getElem?_eq_getElem hi), hget, hset]
          · obtain ⟨sa'', heq', -⟩ := move_onIndex (hcmp ▸ hc) (hcmp ▸ h') hat' .prev (by simp)
            exact ⟨sa'', heq'⟩

/-- From its creation on, an iterator stays valid just as long as
`skiparray_iter_next` is not called on it at the last binding. -/
theorem iter_valid_iff {f : ℕ} (hc : LawfulCmp (cb.cmp f)) (h : Reachable cb f sa) :
    ∃ bs, sa.Wf (cb.cmp f) bs ∧
      (∀ c it sa' c', skiparrayIterNew cb sa c = .ok (.ok, some it, sa', c') → ∀ moves,
        (AlwaysValid cb it moves sa' ↔ Move.StayInside (cb.cmp f) (bindings bs) moves 0)) ∧
      ∀ it i, sa.At bs it i → i < (bindings bs).length → ∀ moves,
        (AlwaysValid cb it moves sa ↔ Move.StayInside (cb.cmp f) (bindings bs) moves i) := by
  obtain ⟨rfl, bs, its, hco⟩ := h.coherent hc
  refine ⟨bs, hco.toWf, ?_, fun it i hat hi moves => alwaysValid_iff moves hc hco hat hi⟩
  intro c it sa' c' hnew moves
  obtain ⟨res, it', sa'', c'', heq, hout⟩ := skiparrayIterNew_spec cb hco.toWf hco.cursors c
  rw [hnew] at heq
  cases heq
  have hco' := (hco.iterNew hout).2
  cases hout with
  | @ok _ block hne ha =>
      have hat := SkipArray.At.withIter hco.toWf hne block
      exact alwaysValid_iff moves hc hco' hat (List.length_pos_of_ne_nil hne)

theorem iter_valid_iff_flatRead :
    ∃ bs, SkipArray.flatRead.Wf (Callbacks.plain.cmp 0) bs ∧
      (∀ (c : Ctx ℤ ℤ Unit) it sa' c',
        skiparrayIterNew Callbacks.plain SkipArray.flatRead c = .ok (.ok, some it, sa', c') →
        ∀ moves, (AlwaysValid Callbacks.plain it moves sa' ↔
          Move.StayInside (Callbacks.plain.cmp 0) (bindings bs) moves 0)) ∧
      ∀ it i, SkipArray.flatRead.At bs it i → i < (bindings bs).length → ∀ moves,
        (AlwaysValid Callbacks.plain it moves SkipArray.flatRead ↔
          Move.StayInside (Callbacks.plain.cmp 0) (bindings bs) moves i) :=
  iter_valid_iff LawfulCmp.int_sub SkipArray.flatRead_reachable

/-- One binding and an iterator at it: `skiparray_iter_next` answers END, and
nothing is designated any more. -/
theorem iter_next_leaves_bindings :
    Reachable Callbacks.plain 0 SkipArray.plainRead ∧
      skiparrayIterGet SkipArray.plainRead 0 = .ok (1, some 10) ∧
      ¬ AlwaysValid Callbacks.plain 0 [.next] SkipArray.plainRead := by
  refine ⟨SkipArray.plainRead_reachable, rfl, ?_⟩
  rintro ⟨-, res, sa', hmove, -, kv, hget⟩
  have hnext : SkipArray.plainRead.move Callbacks.plain 0 .next = .ok (.step .ended,
      { SkipArray.plainRead with iters := [some ⟨none, none, some 0, 1, 4⟩] }) := rfl
  rw [hnext] at hmove
  cases hmove
  cases hget

end PastTheEnd

end Skiparray
