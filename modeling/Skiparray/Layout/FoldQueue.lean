import Skiparray.Lib.Lanes
import Skiparray.Layout.NodeOps
import Skiparray.Model.Fold

/-!
# The queue of a fold

`fs->ids` is a window into a buffer of input numbers, sorted by the pairs that
wait in the entries of these inputs. An entry is marked equal if its successor
in the queue is.
-/

namespace Skiparray

open Fallible Window

variable {K V U W : Type}

/-- Pairs compare by their keys. -/
def onKeys (cmp : K → K → ℤ) (p q : K × V) : ℤ := cmp p.1 q.1

theorem LawfulCmp.onKeys {cmp : K → K → ℤ} (hc : LawfulCmp cmp) :
    LawfulCmp (onKeys cmp : K × V → K × V → ℤ) :=
  ⟨fun p q => hc.swap p.1 q.1, fun p q r => hc.trans p.1 q.1 r.1⟩

/-! ## Marks -/

/-- The mark of an entry with pair `p` that is followed by `q` in the queue. -/
def mark (cmp : K → K → ℤ) (p : K × V) : List (ℕ × (K × V)) → PairState
  | [] => .availableLt
  | y :: _ => if cmp p.1 y.2.1 = 0 then .availableEq else .availableLt

/-- The entries in the queue wait with their pairs, marked. -/
def Marked (cmp : K → K → ℤ) (iters : List (IterState K V)) : List (ℕ × (K × V)) → Prop
  | [] => True
  | x :: q => (∃ is, iters[x.1]? = some is ∧ is.pair = x.2 ∧ is.state = mark cmp x.2 q) ∧
    Marked cmp iters q

section Marks

variable {cmp : K → K → ℤ} {iters iters' : List (IterState K V)} {q A B : List (ℕ × (K × V))}
  {x : ℕ × (K × V)}

theorem mark_ne_none (p : K × V) (q : List (ℕ × (K × V))) : mark cmp p q ≠ .none := by
  unfold mark
  split
  · simp
  · split_ifs <;> simp

theorem Marked.congr (h : Marked cmp iters q)
    (hsame : ∀ x ∈ q, ∀ is, iters[x.1]? = some is →
      ∃ is', iters'[x.1]? = some is' ∧ is'.pair = is.pair ∧ is'.state = is.state) :
    Marked cmp iters' q := by
  induction q with
  | nil => exact trivial
  | cons x q ih =>
      obtain ⟨⟨is, his, hpair, hstate⟩, hq⟩ := h
      obtain ⟨is', his', hpair', hstate'⟩ := hsame x List.mem_cons_self is his
      refine ⟨⟨is', his', hpair'.trans hpair, hstate'.trans hstate⟩, ih hq ?_⟩
      intro y hy
      exact hsame y (List.mem_cons_of_mem _ hy)

theorem Marked.append_right (h : Marked cmp iters (A ++ B)) : Marked cmp iters B := by
  induction A with
  | nil => exact h
  | cons a A ih => exact ih h.2

theorem Marked.get (h : Marked cmp iters q) (hx : x ∈ q) :
    ∃ is, iters[x.1]? = some is ∧ is.pair = x.2 ∧ is.state ≠ .none := by
  induction q with
  | nil => cases hx
  | cons y q ih =>
      rcases List.mem_cons.mp hx with rfl | hx
      · obtain ⟨is, his, hpair, hstate⟩ := h.1
        exact ⟨is, his, hpair, by rw [hstate]; exact mark_ne_none _ _⟩
      · exact ih h.2 hx

/-- A new entry goes in where `insert_pair` puts it; the marks of the others stay right. -/
theorem Marked.insert (hc : LawfulCmp cmp) (h : Marked cmp iters (A ++ B))
    (hA : ∀ y ∈ A, 0 < cmp x.2.1 y.2.1)
    (hB : ∀ y, B.head? = some y → cmp x.2.1 y.2.1 ≤ 0)
    {is : IterState K V} (his : iters[x.1]? = some is) (hpair : is.pair = x.2)
    (hstate : is.state = mark cmp x.2 B) : Marked cmp iters (A ++ x :: B) := by
  induction A with
  | nil => exact ⟨⟨is, his, hpair, hstate⟩, h⟩
  | cons a A ih =>
      obtain ⟨⟨m, hm, hmpair, hmstate⟩, hrest⟩ := h
      refine ⟨⟨m, hm, hmpair, ?_⟩, ih hrest fun y hy => hA y (List.mem_cons_of_mem _ hy)⟩
      rw [hmstate]
      cases A with
      | cons b A => rfl
      | nil =>
          -- the new successor is larger, as the old one was
          have hxa := hA a List.mem_cons_self
          have hax : cmp a.2.1 x.2.1 < 0 := (hc.swap ..).mpr hxa
          cases B with
          | nil => simp [mark, hax.ne]
          | cons b B =>
              have hab := hc.lt_of_lt_of_le hax (hB b rfl)
              simp [mark, hax.ne, hab.ne]

end Marks

/-! ## The window -/

/-- The queue of a fold with `n` inputs holds `q`. -/
structure Queued (cmp : K → K → ℤ) (n : ℕ) (ids : Ids) (iters : List (IterState K V))
    (q : List (ℕ × (K × V))) : Prop where
  size : iters.length = n
  window : Live n ids.current ids.offset (q.map Prod.fst)
  available : ids.available = q.length
  marked : Marked cmp iters q
  nodup : (q.map Prod.fst).Nodup
  idle : ∀ {i is}, iters[i]? = some is → (is.state = .none ↔ i ∉ q.map Prod.fst)

section Insert

variable {cmp : K → K → ℤ} {iters : List (IterState K V)} {A B : List (ℕ × (K × V))}
  {x : ℕ × (K × V)} {n : ℕ} {ids : Ids}

/-- The loop of `insert_pair`, behind `A` and before `B`. -/
theorem insertLoop_spec (ids : Ids) (hn : n ≤ 255) (hx : x.1 < n)
    (hwin : Live n ids.current 0 ((A ++ B).map Prod.fst)) (hav : ids.available = (A ++ B).length)
    (hoff : ids.offset = 0) (hroom : (A ++ B).length < n) (hB : Marked cmp iters B) :
    ∃ B₁ B₂ current, B = B₁ ++ B₂ ∧ Lanes.insert (onKeys cmp) x B = B₁ ++ x :: B₂ ∧
      (∀ y ∈ B₁, 0 < cmp x.2.1 y.2.1) ∧ (∀ y, B₂.head? = some y → cmp x.2.1 y.2.1 ≤ 0) ∧
      insertLoop cmp iters x.1 x.2.1 ids A.length B.length =
        .ok (⟨(A ++ B).length + 1, 0, current⟩, mark cmp x.2 B₂) ∧
      Live n current 0 ((A ++ B₁ ++ x :: B₂).map Prod.fst) := by
  have hsize := hwin.size_eq
  have hlen : ((A ++ B).map Prod.fst).length = (A ++ B).length := List.length_map ..
  have hnext : u8 ((ids.available : ℤ) + 1) = (A ++ B).length + 1 := by
    rw [hav]
    exact_mod_cast u8_of_lt (n := (A ++ B).length + 1) (by omega)
  induction B generalizing A with
  | nil =>
      rw [List.append_nil] at hwin hav hroom hlen hnext ⊢
      refine ⟨[], [], ids.current.set ids.available x.1, rfl, rfl, by simp, by simp, ?_, ?_⟩
      · rw [List.length_nil, insertLoop, check_of_pos (by omega), ok_bind, putSlot_of_lt (by omega),
          ok_bind, hnext, hoff]
        rfl
      · have hpush := hwin.push (by omega) x.1
        rw [hlen, Nat.zero_add, ← hav] at hpush
        simpa using hpush
  | cons y B ih =>
      obtain ⟨⟨is, his, hpair, -⟩, hrest⟩ := hB
      have hslot : slot ids.current A.length = .ok y.1 := by
        apply slot_of_getElem?
        have hread := hwin.slots A.length (by simp)
        rw [Nat.zero_add] at hread
        rw [hread]
        simp
      rw [List.length_cons, insertLoop, hslot, ok_bind, slot_of_getElem? his, ok_bind, hpair]
      rw [Lanes.insert]
      by_cases hle : cmp x.2.1 y.2.1 ≤ 0
      · have hcnt : A.length + (ids.available - A.length) = (A ++ y :: B).length := by
          rw [hav, List.length_append]
          omega
        have hopens : Opens n 0 ((A ++ y :: B).map Prod.fst).length A.length (A.length + 1) A.length
            (ids.available - A.length) 0 := by
          rw [hlen]
          refine ⟨by omega, by omega, by omega, ?_, ?_⟩
          · intro i hi
            rw [if_neg (by omega)]
          · intro i hi hi'
            rw [if_pos (by omega)]
            omega
        have hins := hwin.insert (by rw [hlen]; simp) hopens x.1
        have hput : A.length <
            (blit ids.current ids.current (A.length + 1) A.length (ids.available - A.length)).length := by
          rw [length_blit (by omega) (by omega)]
          omega
        have hu : u8 (x.1 : ℤ) = x.1 := u8_of_lt (by omega)
        refine ⟨[], y :: B, (blit ids.current ids.current (A.length + 1) A.length
          (ids.available - A.length)).set A.length x.1, rfl, if_pos hle, by simp, ?_, ?_, ?_⟩
        · intro z hz
          obtain rfl : y = z := Option.some.inj hz
          exact hle
        · simp only [if_pos hle, copySlots_of_le (show A.length + 1 + (ids.available - A.length) ≤
            ids.current.length by omega) (show A.length + (ids.available - A.length) ≤
            ids.current.length by omega), ok_bind, hu, putSlot_of_lt hput, hnext, hoff]
          rfl
        · rw [Nat.zero_add] at hins
          simpa using hins
      · have hgt : ¬ onKeys cmp x.2 y.2 ≤ 0 := hle
        obtain ⟨B₁, B₂, current, rfl, hins, hlo, hhi, hloop, hlive⟩ := ih (A := A ++ [y])
          (by simpa using hwin) (by simpa using hav) (by simpa using hroom) hrest
          (by simp) (by simpa using hnext)
        refine ⟨y :: B₁, B₂, current, rfl, by rw [if_neg hgt, hins]; rfl, ?_, hhi, ?_,
          by simpa using hlive⟩
        · intro z hz
          rcases List.mem_cons.mp hz with rfl | hz
          · exact lt_of_not_ge hle
          · exact hlo z hz
        · simp only [if_neg hle]
          simpa using hloop

theorem Queued.lt {q : List (ℕ × (K × V))} (h : Queued cmp n ids iters q) :
    ∀ i ∈ q.map Prod.fst, i < n := by
  intro i hi
  obtain ⟨x, hx, rfl⟩ := List.mem_map.mp hi
  obtain ⟨is, his, -⟩ := h.marked.get hx
  rw [← h.size]
  exact (List.getElem?_eq_some_iff.mp his).1

/-- An entry may change, as long as its state does not, nor its pair while it waits. -/
theorem Queued.set {q : List (ℕ × (K × V))} (h : Queued cmp n ids iters q) {i : ℕ}
    {a b : IterState K V} (ha : iters[i]? = some a) (hstate : b.state = a.state)
    (hpair : i ∈ q.map Prod.fst → b.pair = a.pair) : Queued cmp n ids (iters.set i b) q := by
  have hlt := (List.getElem?_eq_some_iff.mp ha).1
  refine ⟨by rw [List.length_set, h.size], h.window, h.available, h.marked.congr ?_, h.nodup, ?_⟩
  · intro x hx is his
    by_cases hix : i = x.1
    · rw [← hix, ha, Option.some.injEq] at his
      refine ⟨b, by rw [← hix, List.getElem?_set_self hlt], ?_, his ▸ hstate⟩
      rw [hpair (hix ▸ List.mem_map_of_mem hx), his]
    · exact ⟨is, by rw [List.getElem?_set_ne hix]; exact his, rfl, rfl⟩
  · intro j js hjs
    by_cases hij : i = j
    · rw [← hij, List.getElem?_set_self hlt, Option.some.injEq] at hjs
      rw [← hjs, hstate, ← hij]
      exact h.idle ha
    · rw [List.getElem?_set_ne hij] at hjs
      exact h.idle hjs

/-- There is room for a number that is not in the queue. -/
theorem Queued.room {q : List (ℕ × (K × V))} (h : Queued cmp n ids iters q) {i : ℕ} (hi : i < n)
    (hfresh : i ∉ q.map Prod.fst) : q.length < n := by
  have hsub : (i :: q.map Prod.fst) ⊆ List.range n := by
    intro j hj
    rw [List.mem_range]
    rcases List.mem_cons.mp hj with rfl | hj
    · exact hi
    · exact h.lt j hj
  have hlen := (List.Nodup.subperm (List.nodup_cons.mpr ⟨hfresh, h.nodup⟩) hsub).length_le
  rw [List.length_cons, List.length_map, List.length_range] at hlen
  exact hlen

/-- `insert_pair` -/
theorem insertPair_spec (hc : LawfulCmp cmp) (hn : n ≤ 255) {fs : FoldState K V U W}
    {q : List (ℕ × (K × V))} (h : Queued cmp n fs.ids fs.iters q) {i : ℕ} {is : IterState K V}
    (his : fs.iters[i]? = some is) (hfresh : i ∉ q.map Prod.fst) :
    ∃ ids state, insertPair cmp fs i =
        .ok { fs with ids, iters := fs.iters.set i { is with state } } ∧ state ≠ .none ∧
      Queued cmp n ids (fs.iters.set i { is with state })
        (Lanes.insert (onKeys cmp) (i, is.pair) q) := by
  have hi : i < fs.iters.length := (List.getElem?_eq_some_iff.mp his).1
  have hin : i < n := h.size ▸ hi
  have hroom := h.room hin hfresh
  have hav := h.available
  have hlen : (q.map Prod.fst).length = q.length := List.length_map ..
  obtain ⟨current, hcompact, hwin⟩ : ∃ current, (if 0 < fs.ids.offset then do
      let current ← copySlots fs.ids.current fs.ids.current 0 fs.ids.offset fs.ids.available
      pure { fs.ids with current, offset := 0 }
      else pure fs.ids) = (.ok ⟨fs.ids.available, 0, current⟩ : Except Fault Ids) ∧
      Live n current 0 (q.map Prod.fst) := by
    by_cases hoff : 0 < fs.ids.offset
    · have hsize := h.window.size_eq
      have hbound := h.window.bound
      refine ⟨_, ?_, h.window.slide (show 0 + _ ≤ n by omega)⟩
      rw [if_pos hoff, copySlots_of_le (by omega) (by omega), hlen, ← hav]
      rfl
    · have hzero : fs.ids.offset = 0 := by omega
      refine ⟨fs.ids.current, ?_, hzero ▸ h.window⟩
      rw [if_neg hoff, ← hzero]
      rfl
  obtain ⟨B₁, B₂, current', rfl, hins, hlo, hhi, hloop, hlive⟩ :=
    insertLoop_spec (x := (i, is.pair)) (A := []) ⟨fs.ids.available, 0, current⟩ hn hin
      hwin hav rfl hroom h.marked
  rw [List.nil_append] at hlive hloop
  have hne : ∀ x ∈ B₁ ++ B₂, i ≠ x.1 := by
    rintro x hx rfl
    exact hfresh (List.mem_map_of_mem hx)
  refine ⟨⟨(B₁ ++ B₂).length + 1, 0, current'⟩, mark cmp is.pair B₂, ?_, mark_ne_none _ _, ?_⟩
  · rw [insertPair, hcompact, ok_bind, slot_of_getElem? his, ok_bind]
    rw [← hav] at hloop
    refine bind_eq_ok.mpr ⟨_, hloop, ?_⟩
    simp only [putSlot_of_lt hi, ok_bind, hav]
    rfl
  · have hmarked : Marked cmp (fs.iters.set i { is with state := mark cmp is.pair B₂ })
        (B₁ ++ (i, is.pair) :: B₂) := by
      refine Marked.insert hc (h.marked.congr ?_) hlo hhi (List.getElem?_set_self hi) rfl rfl
      intro x hx js hjs
      exact ⟨js, by rw [List.getElem?_set_ne (hne x hx)]; exact hjs, rfl, rfl⟩
    rw [hins]
    refine ⟨by rw [List.length_set, h.size], hlive, ?_, hmarked, ?_, ?_⟩
    · simp only [List.length_append, List.length_cons]
      omega
    · rw [List.map_append, List.map_cons, List.nodup_middle, ← List.map_append, List.nodup_cons]
      exact ⟨hfresh, h.nodup⟩
    · intro j js hjs
      rw [List.map_append, List.map_cons, List.mem_append, List.mem_cons, or_left_comm,
        ← List.mem_append, ← List.map_append, not_or]
      by_cases hij : i = j
      · subst hij
        rw [List.getElem?_set_self hi, Option.some.injEq] at hjs
        rw [← hjs]
        simp [mark_ne_none]
      · rw [List.getElem?_set_ne hij] at hjs
        rw [h.idle hjs]
        simp [Ne.symm hij]

end Insert

/-! ## Calling back -/

/-- The entries of the inputs `is` are used up. -/
def clearOn (is : List ℕ) (iters : List (IterState K V)) : List (IterState K V) :=
  iters.mapIdx fun j it => if j ∈ is then { it with state := .none } else it

/-- The callbacks called for a delivery: `fold` on a lone pair; `merge` on several,
and `fold` on the key it chose and the value it made. -/
inductive CallsBack (cbs : FoldCbs K V U W) (w : W) (c : Ctx K V U) :
    Lanes.Delivery (K × V) → W → Ctx K V U → Prop where
  | single {p : K × V} {w' : W} {c' : Ctx K V U} (h : cbs.fold p.1 p.2 w c = .ok (w', c')) :
      CallsBack cbs w c (.single p) w' c'
  | merged {ps : List (K × V)} {choice : ℕ} {key : K} {value : V} {w₁ w' : W} {c₁ c' : Ctx K V U}
      {merge : List K → List V → W → Ctx K V U → Except Fault (ℕ × V × W × Ctx K V U)}
      (hm : cbs.merge = some merge)
      (h₁ : merge (ps.map Prod.fst) (ps.map Prod.snd) w c = .ok (choice, value, w₁, c₁))
      (hk : (ps.map Prod.fst)[choice]? = some key)
      (h₂ : cbs.fold key value w₁ c₁ = .ok (w', c')) : CallsBack cbs w c (.merged ps) w' c'

/-- Callbacks that come back, and choose one of the keys they are given. -/
structure FoldCbs.Return (cbs : FoldCbs K V U W) : Prop where
  fold : ∀ k v w c, ∃ w' c', cbs.fold k v w c = .ok (w', c')
  merge : ∀ m, cbs.merge = some m → ∀ ks vs w c, ks ≠ [] →
    ∃ choice v w' c', m ks vs w c = .ok (choice, v, w', c') ∧ choice < ks.length

section Call

variable {cmp : K → K → ℤ} {iters : List (IterState K V)} {q : List (ℕ × (K × V))}
  {x : ℕ × (K × V)} {n : ℕ} {ids : Ids}

theorem getElem?_clearOn (is : List ℕ) (j : ℕ) : (clearOn is iters)[j]? =
    iters[j]?.map fun it => if j ∈ is then { it with state := .none } else it := by
  unfold clearOn
  rw [List.getElem?_mapIdx]

@[simp] theorem length_clearOn (is : List ℕ) : (clearOn is iters).length = iters.length := by
  simp [clearOn]

theorem set_eq_clearOn {is : IterState K V} (h : iters[x.1]? = some is) :
    iters.set x.1 { is with state := .none } = clearOn [x.1] iters := by
  apply List.ext_getElem?
  intro j
  rw [getElem?_clearOn]
  by_cases hj : x.1 = j
  · rw [← hj, List.getElem?_set_self (List.getElem?_eq_some_iff.mp h).1, h]
    simp
  · rw [List.getElem?_set_ne hj]
    cases iters[j]? with
    | none => rfl
    | some js => simp [Ne.symm hj]

/-- The last loop of `call_with_next` clears the first entries of the queue. -/
theorem clearLoop_spec {size off : ℕ} {current is : List ℕ} (hwin : Live size current off is)
    (hlt : ∀ i ∈ is, i < iters.length) :
    ∀ k ≤ is.length, forUp (clearState current off) k iters = .ok (clearOn (is.take k) iters) := by
  intro k
  induction k with
  | zero =>
      intro _
      have hnone : clearOn ([] : List ℕ) iters = iters := by
        apply List.ext_getElem?
        intro j
        rw [getElem?_clearOn]
        simp
      rw [forUp, List.take_zero, hnone]
  | succ k ih =>
      intro hk
      rw [forUp, ih (by omega), ok_bind, clearState]
      have hread : current[off + k]? = some is[k] :=
        (hwin.slots k (by omega)).trans (List.getElem?_eq_getElem (by omega))
      have hstep : is.take (k + 1) = is.take k ++ [is[k]] := by
        rw [List.take_add_one, List.getElem?_eq_getElem]
        rfl
      have hmem : is[k] ∈ is := List.getElem_mem _
      have hjlt := hlt _ hmem
      rw [Nat.add_comm k off, slot_of_getElem? hread, ok_bind]
      have hget : (clearOn (is.take k) iters)[is[k]]? =
          some (if is[k] ∈ is.take k then { iters[is[k]] with state := .none } else iters[is[k]]) := by
        rw [getElem?_clearOn, List.getElem?_eq_getElem hjlt]
        rfl
      rw [slot_of_getElem? hget, ok_bind, putSlot_of_lt (by rw [length_clearOn]; exact hjlt)]
      congr 1
      apply List.ext_getElem?
      intro j
      rw [getElem?_clearOn]
      by_cases hj : is[k] = j
      · subst hj
        rw [List.getElem?_set_self (by rw [length_clearOn]; exact hjlt),
          List.getElem?_eq_getElem hjlt]
        have hin : is[k] ∈ is.take (k + 1) := by
          rw [hstep, List.mem_append, List.mem_singleton]
          exact Or.inr rfl
        simp only [Option.map_some, if_pos hin]
        split_ifs <;> rfl
      · rw [List.getElem?_set_ne hj, getElem?_clearOn]
        have hiff : j ∈ is.take (k + 1) ↔ j ∈ is.take k := by
          rw [hstep, List.mem_append, List.mem_singleton, or_iff_left (Ne.symm hj)]
        simp only [hiff]

/-- The queue without the entries that left. -/
theorem Queued.drop (h : Queued cmp n ids iters q) {k : ℕ} (hk : k ≤ q.length) :
    Queued cmp n { ids with available := ids.available - k, offset := ids.offset + k }
      (clearOn ((q.take k).map Prod.fst) iters) (q.drop k) := by
  have hlen : (q.map Prod.fst).length = q.length := List.length_map ..
  have hwin := h.window.drop (k := k) (by omega)
  rw [← List.map_drop] at hwin
  have hsplit : q.map Prod.fst = (q.take k).map Prod.fst ++ (q.drop k).map Prod.fst := by
    rw [← List.map_append, List.take_append_drop]
  have hnodup := h.nodup
  rw [hsplit, List.nodup_append] at hnodup
  refine ⟨by rw [length_clearOn, h.size], hwin, ?_, ?_, hnodup.2.1, ?_⟩
  · rw [List.length_drop, ← h.available]
  · rw [← List.take_append_drop k q] at h
    apply h.marked.append_right.congr
    intro y hy js hjs
    rw [getElem?_clearOn, hjs]
    have hnot : y.1 ∉ (q.take k).map Prod.fst := by
      intro hmem
      exact hnodup.2.2 y.1 hmem y.1 (List.mem_map_of_mem hy) rfl
    exact ⟨js, by rw [Option.map_some, if_neg hnot], rfl, rfl⟩
  · intro i is his
    rw [getElem?_clearOn, Option.map_eq_some_iff] at his
    obtain ⟨js, hjs, rfl⟩ := his
    by_cases hmem : i ∈ (q.take k).map Prod.fst
    · rw [if_pos hmem]
      simp only [true_iff]
      intro hdrop
      exact hnodup.2.2 i hmem i hdrop rfl
    · rw [if_neg hmem, h.idle hjs, hsplit, List.mem_append, not_or]
      exact ⟨fun hboth => hboth.2, fun hdrop => ⟨hmem, hdrop⟩⟩

/-- The first loop of `call_with_next` collects the pairs that equal their successors. -/
theorem collectEqual_spec [Inhabited V] {fs : FoldState K V U W} {off : ℕ}
    (hwin : Live n fs.ids.current off (q.map Prod.fst)) (hm : Marked cmp fs.iters q)
    (hdefault : ∀ x ∈ q, fs.useValues = false → x.2.2 = default) :
    collectEqual fs off q.length = .ok ((Lanes.equalRun (onKeys cmp) q).map Prod.snd) := by
  induction q generalizing off with
  | nil => rfl
  | cons x q ih =>
      obtain ⟨⟨is, his, hpair, hstate⟩, hrest⟩ := hm
      have hslot : slot fs.ids.current off = .ok x.1 := by
        apply slot_of_getElem?
        exact hwin.slots 0 (by simp)
      rw [List.length_cons, collectEqual, hslot, ok_bind, slot_of_getElem? his, ok_bind]
      cases q with
      | nil =>
          rw [if_pos (by rw [hstate]; simp [mark])]
          rfl
      | cons y q =>
          rw [Lanes.equalRun_cons_cons]
          by_cases heq : cmp x.2.1 y.2.1 = 0
          · have hwin' := hwin.drop (k := 1) (by simp)
            have hcollect := ih hwin' hrest fun z hz => hdefault z (List.mem_cons_of_mem _ hz)
            have hvalue : (if fs.useValues = true then is.pair.2 else default) = x.2.2 := by
              split_ifs with hu
              · rw [hpair]
              · exact (hdefault x List.mem_cons_self (Bool.not_eq_true _ ▸ hu)).symm
            have hequal : onKeys cmp x.2 y.2 = 0 := heq
            rw [if_neg (by rw [hstate]; simp [mark, heq]), hcollect, ok_bind, if_pos hequal, hvalue,
              hpair]
            rfl
          · have hequal : ¬ onKeys cmp x.2 y.2 = 0 := heq
            rw [if_pos (by rw [hstate]; simp [mark, heq]), if_neg hequal]
            rfl

theorem mark_eq_iff {p : K × V} {i : ℕ} : mark cmp p q = .availableLt ↔
    Lanes.equalRun (onKeys cmp) ((i, p) :: q) = [] := by
  cases q with
  | nil => simp [mark, Lanes.equalRun]
  | cons y q =>
      rw [Lanes.equalRun_cons_cons]
      by_cases heq : cmp p.1 y.2.1 = 0
      · simp [mark, onKeys, heq]
      · simp [mark, onKeys, heq]

theorem mark_eq_of_ne {p : K × V} (h : mark cmp p q ≠ .availableLt) :
    mark cmp p q = .availableEq := by
  unfold mark at h ⊢
  split
  · simp at h
  · split_ifs with heq
    · rfl
    · simp [heq] at h

/-- Callbacks that return can take any delivery. -/
theorem FoldCbs.Return.callsBack {cbs : FoldCbs K V U W} (h : cbs.Return)
    {d : Lanes.Delivery (K × V)} (hmerge : ∀ ps, d = .merged ps → ps ≠ [] ∧ cbs.merge.isSome = true)
    (w : W) (c : Ctx K V U) : ∃ w' c', CallsBack cbs w c d w' c' := by
  cases d with
  | single p =>
      obtain ⟨w', c', hfold⟩ := h.fold p.1 p.2 w c
      exact ⟨w', c', .single hfold⟩
  | merged ps =>
      obtain ⟨hne, hsome⟩ := hmerge ps rfl
      obtain ⟨merge, hm⟩ := Option.isSome_iff_exists.mp hsome
      obtain ⟨choice, value, w₁, c₁, hcall, hchoice⟩ :=
        h.merge merge hm (ps.map Prod.fst) (ps.map Prod.snd) w c (by simpa using hne)
      obtain ⟨w', c', hfold⟩ := h.fold (ps.map Prod.fst)[choice] value w₁ c₁
      exact ⟨w', c', .merged hm hcall (List.getElem?_eq_getElem hchoice) hfold⟩

/-- `call_with_next` -/
theorem callWithNext_spec [Inhabited V] (hc : LawfulCmp cmp) (hn : n ≤ 255) {fs : FoldState K V U W}
    (h : Queued cmp n fs.ids fs.iters (x :: q))
    (hdefault : ∀ y ∈ x :: q, fs.useValues = false → y.2.2 = default) {w w' : W} {c c' : Ctx K V U}
    (hcalls : CallsBack fs.cbs w c ((Lanes.delivery (onKeys cmp) x q).map Prod.snd) w' c') :
    ∃ ids is, callWithNext fs n w c = .ok ({ fs with ids, iters := clearOn is fs.iters }, w', c') ∧
      Queued cmp n ids (clearOn is fs.iters)
        ((x :: q).drop (Lanes.delivery (onKeys cmp) x q).items.length) := by
  obtain ⟨⟨is, his, hpair, hstate⟩, -⟩ := h.marked
  have hslot : slot fs.ids.current fs.ids.offset = .ok x.1 := by
    apply slot_of_getElem?
    exact h.window.slots 0 (by simp)
  have hav := h.available
  have hbound := h.window.bound
  rw [List.length_map, List.length_cons] at hbound
  rw [List.length_cons] at hav
  rw [callWithNext, check_of_pos (by omega), ok_bind]
  simp only [hslot, ok_bind, slot_of_getElem? his]
  unfold Lanes.delivery at hcalls ⊢
  by_cases hrun : Lanes.equalRun (onKeys cmp) (x :: q) = []
  · have hlt : is.state = .availableLt := by
      rw [hstate]
      exact mark_eq_iff.mpr hrun
    have hu : u8 ((fs.ids.offset : ℤ) + 1) = fs.ids.offset + 1 := by
      exact_mod_cast u8_of_lt (n := fs.ids.offset + 1) (by omega)
    have hilt := (List.getElem?_eq_some_iff.mp his).1
    rw [if_pos hrun] at hcalls ⊢
    cases hcalls with
    | single hfold =>
        rw [if_pos hlt]
        refine ⟨_, [x.1], ?_, h.drop (k := 1) (by simp)⟩
        rw [← hpair] at hfold
        rw [hfold, ok_bind, putSlot_of_lt hilt, set_eq_clearOn his, hu]
        rfl
  · have heq : ¬ is.state = .availableLt := by
      rw [hstate]
      exact fun hlt => hrun (mark_eq_iff.mp hlt)
    have hmark : is.state = .availableEq := by
      rw [hstate] at heq ⊢
      exact mark_eq_of_ne heq
    obtain ⟨z, rest, hsplit, -⟩ := Lanes.equalRun_split (LawfulCmp.onKeys hc) x q
    have hcollect := collectEqual_spec h.window h.marked hdefault
    rw [List.length_cons, ← hav] at hcollect
    rw [if_neg hrun] at hcalls ⊢
    generalize Lanes.equalRun (onKeys cmp) (x :: q) = run at hrun hsplit hcollect hcalls ⊢
    have hlen := congrArg List.length hsplit
    rw [List.length_append, List.length_cons, List.length_cons] at hlen
    have hpos := List.length_pos_of_ne_nil hrun
    have hu : u8 ((fs.ids.offset : ℤ) + run.length) = fs.ids.offset + run.length := by
      exact_mod_cast u8_of_lt (n := fs.ids.offset + run.length) (by omega)
    have hinside : ∀ i ∈ (x :: q).map Prod.fst, i < fs.iters.length := by
      rw [h.size]
      exact h.lt
    have hclear := clearLoop_spec h.window hinside run.length
      (by rw [List.length_map, List.length_cons]; omega)
    rw [← List.map_take] at hclear
    cases hcalls with
    | @merged _ choice key value w₁ _ c₁ _ merge hm hcall hkey hfold =>
        have hchoice : choice < run.length := by
          have := (List.getElem?_eq_some_iff.mp hkey).1
          rwa [List.length_map, List.length_map] at this
        refine ⟨_, _, ?_, h.drop (k := run.length) ?_⟩
        · rw [if_neg heq, check_of_pos hmark, ok_bind]
          simp only [hm, hcollect, ok_bind, List.length_map]
          rw [if_neg (by omega), check_of_pos hpos, ok_bind, hcall, ok_bind]
          simp only [check_of_pos hchoice, ok_bind, slot_of_getElem? hkey, hfold, hclear, hu]
          rfl
        · rw [List.length_cons]
          omega

end Call

end Skiparray
