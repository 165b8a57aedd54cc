import Skiparray.Layout.Reads
import Skiparray.Layout.Insert
import Skiparray.Model.Iter

/-!
# Iterators of a well-formed skiparray

The live iterators form a doubly linked list that starts at `sa->iter`, in
any order of creation and release. An iterator lies in a block and has an
index there; `At` adds up the bindings before it.
-/

namespace Skiparray

open SkipLinks Fallible

variable {K V U : Type} {sa sa' : SkipArray K V} {bs A C : List (Block K V)} {b : Block K V}
  {its xs ys : List Ptr} {p q : Ptr} {it m : Iter} {pos : ℕ}

/-! ## The list of iterators -/

def SkipArray.iterNext (sa : SkipArray K V) (p : Ptr) : Option Ptr := (sa.iter? p).bind Iter.next

def SkipArray.iterPrev (sa : SkipArray K V) (p : Ptr) : Option Ptr := (sa.iter? p).bind Iter.prev

/-- The live iterators are `its`, doubly linked in this order from `sa->iter`. -/
structure SkipArray.Cursors (sa : SkipArray K V) (its : List Ptr) : Prop where
  chain : Seg sa.iterNext sa.iter its none
  backs : Backs sa.iterPrev none its
  nodup : its.Nodup
  live : ∀ p, p ∈ its ↔ (sa.iter? p).isSome = true

/-- An iterator without its links. -/
def Iter.payload (it : Iter) : Iter := { it with prev := none, next := none }

/-- `sa'` differs from `sa` in its iterators at most. -/
structure IterOnly (sa sa' : SkipArray K V) : Prop where
  settings : sa'.toSettings = sa.toSettings
  height : sa'.height = sa.height
  prngState : sa'.prngState = sa.prngState
  nodes : sa'.nodes = sa.nodes
  heap : sa'.heap = sa.heap

theorem IterOnly.refl (sa : SkipArray K V) : IterOnly sa sa := ⟨rfl, rfl, rfl, rfl, rfl⟩

theorem IterOnly.trans {sa₁ sa₂ sa₃ : SkipArray K V} (h₁ : IterOnly sa₁ sa₂)
    (h₂ : IterOnly sa₂ sa₃) : IterOnly sa₁ sa₃ :=
  ⟨h₂.settings.trans h₁.settings, h₂.height.trans h₁.height, h₂.prngState.trans h₁.prngState,
    h₂.nodes.trans h₁.nodes, h₂.heap.trans h₁.heap⟩

theorem IterOnly.symm (h : IterOnly sa sa') : IterOnly sa' sa :=
  ⟨h.settings.symm, h.height.symm, h.prngState.symm, h.nodes.symm, h.heap.symm⟩

theorem IterOnly.wf [Inhabited V] {cmp : K → K → ℤ} (h : IterOnly sa sa') (hwf : sa.Wf cmp bs) :
    sa'.Wf cmp bs := by
  refine ⟨hwf.toSound.of_body h.settings h.height h.nodes h.heap, ?_⟩
  rw [h.settings]
  exact hwf.shape

section Cells

theorem SkipArray.iter_lt (h : sa.iter? p = some it) : p < sa.iters.length := by
  by_contra hp
  have : sa.iters[p]? = none := List.getElem?_eq_none (Nat.le_of_not_lt hp)
  simp [SkipArray.iter?, this] at h

theorem SkipArray.loadIter_eq (h : sa.iter? p = some it) : sa.loadIter (some p) = .ok it := by
  rw [SkipArray.loadIter, h]

theorem SkipArray.iter?_setIter (h : sa.iter? p = some it) (q : Ptr) :
    (sa.setIter p m).iter? q = if q = p then some m else sa.iter? q := by
  have hlt := SkipArray.iter_lt h
  by_cases hq : q = p
  · subst hq
    simp [SkipArray.iter?, SkipArray.setIter, hlt]
  · simp [SkipArray.iter?, SkipArray.setIter, hq, Ne.symm hq]

theorem IterOnly.of_setIter (p : Ptr) (m : Iter) : IterOnly sa (sa.setIter p m) :=
  ⟨rfl, rfl, rfl, rfl, rfl⟩

end Cells

namespace SkipArray.Cursors

theorem isSome (h : sa.Cursors its) (hp : p ∈ its) : ∃ it, sa.iter? p = some it :=
  Option.isSome_iff_exists.mp ((h.live p).mp hp)

theorem mem (h : sa.Cursors its) (hit : sa.iter? p = some it) : p ∈ its :=
  (h.live p).mpr (by rw [hit]; rfl)

theorem head_eq (h : sa.Cursors its) : sa.iter = its.head? := h.chain.head_eq

/-- Collections without iterators are the unlocked ones. -/
theorem iter_eq_none (h : sa.Cursors its) : sa.iter = none ↔ its = [] := by
  rw [h.head_eq, List.head?_eq_none_iff]

theorem next_eq (h : sa.Cursors (xs ++ p :: ys)) (hit : sa.iter? p = some it) :
    it.next = ys.head? := by
  have := h.chain.next_eq
  rwa [SkipArray.iterNext, hit] at this

theorem prev_eq (h : sa.Cursors (xs ++ p :: ys)) (hit : sa.iter? p = some it) :
    it.prev = xs.getLast? := by
  have := (backs_cons.mp (backs_append.mp h.backs).2).1
  rw [SkipArray.iterPrev, hit, Option.bind_some] at this
  rw [this, Option.or_none]

/-- The links follow from the order. -/
theorem iter?_congr (h : sa.Cursors its) (h' : sa'.Cursors its)
    (hpay : ∀ p, (sa'.iter? p).map Iter.payload = (sa.iter? p).map Iter.payload) (p : Ptr) :
    sa'.iter? p = sa.iter? p := by
  have hp := hpay p
  cases hit : sa.iter? p with
  | none =>
      rw [hit, Option.map_none, Option.map_eq_none_iff] at hp
      exact hp
  | some it =>
      rw [hit, Option.map_some, Option.map_eq_some_iff] at hp
      obtain ⟨it', hit', heq⟩ := hp
      obtain ⟨xs, ys, rfl⟩ := List.append_of_mem (h.mem hit)
      have hn := (h'.next_eq hit').trans (h.next_eq hit).symm
      have hv := (h'.prev_eq hit').trans (h.prev_eq hit).symm
      rw [hit']
      cases it
      cases it'
      simp only [Iter.payload, Iter.mk.injEq] at heq hn hv
      simp [hn, hv, heq]

/-- Each iterator occupies a cell of its own. -/
theorem length_le (h : sa.Cursors its) : its.length ≤ sa.iters.length := by
  have hsub : its ⊆ List.range sa.iters.length := by
    intro p hp
    obtain ⟨it, hit⟩ := h.isSome hp
    exact List.mem_range.mpr (SkipArray.iter_lt hit)
  have := (List.subperm_of_subset h.nodup hsub).length_le
  simpa using this

/-- Which iterators are live is in the cells and the head. -/
theorem of_same (h : sa.Cursors its) (hiter : sa'.iter = sa.iter)
    (hiters : ∀ p, sa'.iter? p = sa.iter? p) : sa'.Cursors its := by
  have hnext : sa'.iterNext = sa.iterNext := by
    funext p
    rw [SkipArray.iterNext, hiters, SkipArray.iterNext]
  have hprev : sa'.iterPrev = sa.iterPrev := by
    funext p
    rw [SkipArray.iterPrev, hiters, SkipArray.iterPrev]
  refine ⟨?_, ?_, h.nodup, ?_⟩
  · rw [hiter, hnext]
    exact h.chain
  · rw [hprev]
    exact h.backs
  · intro p
    rw [hiters]
    exact h.live p

/-- Moving an iterator keeps the list. -/
theorem setIter (h : sa.Cursors its) (hit : sa.iter? p = some it) (hn : m.next = it.next)
    (hv : m.prev = it.prev) : (sa.setIter p m).Cursors its := by
  refine ⟨h.chain.congr ?_, h.backs.congr ?_, h.nodup, ?_⟩
  · intro q _
    rw [SkipArray.iterNext, SkipArray.iter?_setIter hit]
    split_ifs with hq
    · rw [hq, SkipArray.iterNext, hit, Option.bind_some, Option.bind_some, hn]
    · rfl
  · intro q _
    rw [SkipArray.iterPrev, SkipArray.iter?_setIter hit]
    split_ifs with hq
    · rw [hq, SkipArray.iterPrev, hit, Option.bind_some, Option.bind_some, hv]
    · rfl
  · intro q
    rw [h.live, SkipArray.iter?_setIter hit]
    split_ifs with hq
    · rw [hq, hit]
      rfl
    · rfl

end SkipArray.Cursors

/-! ## Creation -/

/-- What `skiparray_iter_new` makes of `sa`: a new iterator at the front of the
list, at node `n`, in memory block `block`. -/
def SkipArray.withIter (sa : SkipArray K V) (n : Option Ptr) (block : ℕ) : SkipArray K V :=
  { sa with
    iter := some sa.iters.length
    iters := (match sa.iter with
      | none => sa.iters
      | some p => sa.iters.modify p (Option.map fun it => { it with prev := some sa.iters.length }))
      ++ [some ⟨none, sa.iter, n, 0, block⟩] }

theorem IterOnly.withIter (sa : SkipArray K V) (n : Option Ptr) (block : ℕ) :
    IterOnly sa (sa.withIter n block) := ⟨rfl, rfl, rfl, rfl, rfl⟩

@[simp] theorem SkipArray.withIter_iter (n : Option Ptr) (block : ℕ) :
    (sa.withIter n block).iter = some sa.iters.length := rfl

theorem SkipArray.withIter_length (n : Option Ptr) (block : ℕ) :
    (sa.withIter n block).iters.length = sa.iters.length + 1 := by
  unfold SkipArray.withIter
  cases sa.iter <;> simp

theorem SkipArray.iter?_withIter (n : Option Ptr) (block : ℕ) (q : Ptr) :
    (sa.withIter n block).iter? q =
      if q = sa.iters.length then some ⟨none, sa.iter, n, 0, block⟩
      else (sa.iter? q).map fun it =>
        { it with prev := if sa.iter = some q then some sa.iters.length else it.prev } := by
  have hout : ∀ {xs : List (Option Iter)} {x : Option Iter}, xs.length = sa.iters.length →
      (xs ++ [x])[q]?.join = if q = sa.iters.length then x else xs[q]?.join := by
    intro xs x hlen
    by_cases hq : q = sa.iters.length
    · rw [if_pos hq, hq, ← hlen]
      simp
    · rw [if_neg hq, List.getElem?_append]
      by_cases hlt : q < xs.length
      · rw [if_pos hlt]
      · have hgt : xs.length < q :=
          lt_of_le_of_ne (Nat.le_of_not_lt hlt) fun h => hq (h.symm.trans hlen)
        rw [if_neg hlt, List.getElem?_eq_none (Nat.sub_pos_of_lt hgt),
          List.getElem?_eq_none hgt.le]
  unfold SkipArray.withIter SkipArray.iter?
  cases hi : sa.iter with
  | none =>
      simp only [hout, reduceCtorEq, if_false]
      cases sa.iters[q]?.join <;> rfl
  | some p =>
      simp only [hout (List.length_modify ..), Option.some.injEq, List.getElem?_modify]
      by_cases hp : p = q
      · subst hp
        simp only [if_true]
        rcases sa.iters[p]? with _ | _ | it <;> rfl
      · simp only [if_neg hp]
        rcases sa.iters[q]? with _ | _ | it <;> rfl

/-- The new iterator comes first. -/
theorem SkipArray.Cursors.withIter (h : sa.Cursors its) (n : Option Ptr) (block : ℕ) :
    (sa.withIter n block).Cursors (sa.iters.length :: its) := by
  have hnew : sa.iters.length ∉ its := by
    intro hmem
    obtain ⟨it, hit⟩ := h.isSome hmem
    exact lt_irrefl _ (SkipArray.iter_lt hit)
  have hne : ∀ q ∈ its, q ≠ sa.iters.length := by
    rintro q hq rfl
    exact hnew hq
  refine ⟨h.chain.insertFront ?_ ?_, ⟨?_, h.backs.reroot h.nodup ?_ ?_⟩,
    List.nodup_cons.mpr ⟨hnew, h.nodup⟩, ?_⟩
  · intro q hq
    rw [SkipArray.iterNext, SkipArray.iter?_withIter, if_neg (hne q hq), SkipArray.iterNext]
    cases sa.iter? q <;> rfl
  · rw [SkipArray.iterNext, SkipArray.iter?_withIter, if_pos rfl, ← h.head_eq]
    rfl
  · rw [SkipArray.iterPrev, SkipArray.iter?_withIter, if_pos rfl]
    rfl
  · intro q hq
    obtain ⟨it, hit⟩ := h.isSome (List.mem_of_head? hq)
    rw [SkipArray.iterPrev, SkipArray.iter?_withIter, if_neg (hne q (List.mem_of_head? hq)), hit,
      Option.map_some, h.head_eq, if_pos hq]
    rfl
  · intro q hq hhead
    rw [SkipArray.iterPrev, SkipArray.iter?_withIter, if_neg (hne q hq), SkipArray.iterPrev]
    cases sa.iter? q with
    | none => rfl
    | some it => rw [Option.map_some, h.head_eq, if_neg hhead]
  · intro q
    rw [List.mem_cons, h.live, SkipArray.iter?_withIter]
    by_cases hq : q = sa.iters.length
    · simp [hq]
    · rw [if_neg hq, Option.isSome_map]
      simp [hq]

/-- The other iterators stay where they are. -/
theorem SkipArray.payload_withIter {n : Option Ptr} {block : ℕ} (hq : q ≠ sa.iters.length) :
    ((sa.withIter n block).iter? q).map Iter.payload = (sa.iter? q).map Iter.payload := by
  rw [SkipArray.iter?_withIter, if_neg hq, Option.map_map]
  rfl

section New

variable [Inhabited V] {cmp : K → K → ℤ}

/-- A skiparray without bindings is a lone empty block. -/
theorem SkipArray.Wf.eq_singleton_of_empty (h : sa.Wf cmp bs) (hnil : bindings bs = []) :
    ∃ b, bs = [b] ∧ b.pairs = [] := by
  obtain ⟨b, C, rfl⟩ := List.exists_cons_of_ne_nil h.tallest.ne_nil
  rw [bindings_cons, List.append_eq_nil_iff] at hnil
  have := h.shape.eq_singleton (c := b) (by simp) hnil.1
  exact ⟨b, this, hnil.1⟩

/-- Otherwise no block is empty. -/
theorem SkipArray.Wf.all_nonempty (h : sa.Wf cmp bs) (hne : bindings bs ≠ []) :
    ∀ b ∈ bs, b.pairs ≠ [] := by
  intro b hb hnil
  have := h.shape.eq_singleton hb hnil
  apply hne
  rw [this]
  simp [hnil]

/-- What a call of `skiparray_iter_new` does. -/
inductive IterNewOutcome (cb : Callbacks K U) (sa : SkipArray K V) (bs : List (Block K V))
    (c : Ctx K V U) : IterNewRes → Option Ptr → SkipArray K V → Ctx K V U → Prop where
  | empty (hnil : bindings bs = []) : IterNewOutcome cb sa bs c .empty none sa c
  | memory {c' : Ctx K V U} (hne : bindings bs ≠ []) (ha : c.alloc cb = (none, c')) :
      IterNewOutcome cb sa bs c .errorMemory none sa c'
  | ok {c' : Ctx K V U} {block : ℕ} (hne : bindings bs ≠ []) (ha : c.alloc cb = (some block, c')) :
      IterNewOutcome cb sa bs c .ok (some sa.iters.length)
        (sa.withIter (bs.map Block.ptr).head? block) c'

theorem skiparrayIterNew_spec (cb : Callbacks K U) (h : sa.Wf cmp bs) (hcur : sa.Cursors its)
    (c : Ctx K V U) :
    ∃ res it sa' c', skiparrayIterNew cb sa c = .ok (res, it, sa', c') ∧
      IterNewOutcome cb sa bs c res it sa' c' := by
  obtain ⟨b, C, rfl⟩ := List.exists_cons_of_ne_nil h.tallest.ne_nil
  obtain ⟨n, hn, hh⟩ := h.stores b (by simp)
  have hl : sa.Linked ([] ++ b :: C) := h.linked
  simp only [skiparrayIterNew, h.linked.first h.settings.pos, ok_bind, List.map_cons,
    List.head?_cons, SkipArray.load_eq hn, hl.next, hh.count]
  by_cases hempty : bindings (b :: C) = []
  · obtain ⟨x, hx, hnil⟩ := h.eq_singleton_of_empty hempty
    rw [List.cons.injEq] at hx
    obtain ⟨rfl, rfl⟩ := hx
    rw [if_pos (by simp [hnil])]
    exact ⟨_, _, _, _, rfl, .empty hempty⟩
  · have hb := h.all_nonempty hempty b (by simp)
    rw [if_neg (by simp [hb])]
    rcases ha : c.alloc cb with ⟨_ | block, c'⟩
    · exact ⟨_, _, _, _, rfl, .memory hempty ha⟩
    · cases hi : sa.iter with
      | none =>
          refine ⟨_, _, _, _, ?_, .ok hempty ha⟩
          simp only [hi, pure_eq_ok, ok_bind, SkipArray.withIter, List.map_cons, List.head?_cons]
      | some p =>
          have hp : p ∈ its := List.mem_of_head? (hcur.head_eq.symm.trans hi)
          obtain ⟨it, hit⟩ := hcur.isSome hp
          have hcell : sa.iters[p]? = some (some it) := by
            rw [SkipArray.iter?] at hit
            exact Option.join_eq_some_iff.mp hit
          refine ⟨_, _, _, _, ?_, .ok hempty ha⟩
          simp only [hi, SkipArray.loadIter_eq hit, pure_eq_ok, ok_bind, SkipArray.withIter,
            SkipArray.setIter, List.map_cons, List.head?_cons]
          rw [List.modify_eq_set_getElem?, hcell]
          rfl

end New

/-! ## Release -/

/-- The body of `skiparray_iter_free`, cell by cell. -/
theorem freed_cursors (h : sa.Cursors (xs ++ p :: ys)) (hit : sa.iter? p = some it)
    (hhead : sa'.iter = (xs ++ ys).head?)
    (hcells : ∀ q, sa'.iter? q = if q = p then none else (sa.iter? q).map fun m =>
      { m with
        next := if it.prev = some q then it.next else m.next
        prev := if it.next = some q then it.prev else m.prev }) :
    sa'.Cursors (xs ++ ys) := by
  have hnodup := h.nodup
  rw [List.nodup_middle, List.nodup_cons] at hnodup
  have hne : ∀ q ∈ xs ++ ys, q ≠ p := by
    rintro q hq rfl
    exact hnodup.1 hq
  have hcell : ∀ q ∈ xs ++ ys, ∃ m, sa.iter? q = some m ∧ sa'.iter? q = some
      { m with
        next := if it.prev = some q then it.next else m.next
        prev := if it.next = some q then it.prev else m.prev } := by
    intro q hq
    have hmem : q ∈ xs ++ p :: ys := by
      rcases List.mem_append.mp hq with hq | hq <;> simp [hq]
    obtain ⟨m, hm⟩ := h.isSome hmem
    exact ⟨m, hm, by rw [hcells, if_neg (hne q hq), hm]; rfl⟩
  have hnext : ∀ q ∈ xs ++ ys, sa'.iterNext q = if xs.getLast? = some q then ys.head? else
      sa.iterNext q := by
    intro q hq
    obtain ⟨m, hm, hm'⟩ := hcell q hq
    rw [SkipArray.iterNext, hm', SkipArray.iterNext, hm, h.prev_eq hit, h.next_eq hit]
    rfl
  have hprev : ∀ q ∈ xs ++ ys, sa'.iterPrev q = if ys.head? = some q then xs.getLast? else
      sa.iterPrev q := by
    intro q hq
    obtain ⟨m, hm, hm'⟩ := hcell q hq
    rw [SkipArray.iterPrev, hm', SkipArray.iterPrev, hm, h.prev_eq hit, h.next_eq hit]
    rfl
  have hys : ∀ q ∈ ys, sa'.iterNext q = sa.iterNext q := by
    intro q hq
    rw [hnext q (by simp [hq]), if_neg]
    intro hlast
    exact (List.nodup_append.mp hnodup.2).2.2 q (List.mem_of_getLast? hlast) q hq rfl
  have hbacks : Backs sa'.iterPrev xs.getLast? ys := by
    have hb := (backs_append.mp h.backs).2
    refine hb.2.reroot (List.nodup_append.mp hnodup.2).2.1 ?_ ?_
    · intro q hq
      rw [hprev q (by simp [List.mem_of_head? hq]), if_pos hq]
    · intro q hq hne'
      rw [hprev q (by simp [hq]), if_neg hne']
  have hxs : Backs sa'.iterPrev none xs := by
    refine (backs_append.mp h.backs).1.congr ?_
    intro q hq
    rw [hprev q (by simp [hq]), if_neg]
    intro hhd
    exact (List.nodup_append.mp hnodup.2).2.2 q hq q (List.mem_of_head? hhd) rfl
  refine ⟨?_, ?_, hnodup.2, ?_⟩
  · rcases List.eq_nil_or_concat xs with rfl | ⟨zs, z, rfl⟩
    · obtain ⟨-, hseg⟩ := h.chain
      rw [List.nil_append] at hhead ⊢
      rw [hhead, ← hseg.head_eq]
      exact hseg.congr hys
    · rw [List.concat_eq_append] at *
      have hc := h.chain
      rw [List.append_assoc, List.singleton_append] at hc
      have hz : sa'.iterNext z = ys.head? := by
        rw [hnext z (by simp), if_pos (by simp)]
      have hzs : ∀ q ∈ zs, sa'.iterNext q = sa.iterNext q := by
        intro q hq
        rw [hnext q (by simp [hq]), if_neg]
        intro hlast
        rw [List.getLast?_concat, Option.some.injEq] at hlast
        subst hlast
        have := (List.nodup_append.mp (List.nodup_append.mp hnodup.2).1).2.2 z hq z (by simp)
        exact this rfl
      have hseg := hc.removeAfter hzs hys hz
      rw [List.append_assoc, List.singleton_append]
      have hh : sa'.iter = sa.iter := by
        rw [hhead, hc.head_eq]
        cases zs <;> simp
      rw [hh]
      exact hseg
  · rw [backs_append, Option.or_none]
    exact ⟨hxs, hbacks⟩
  · intro q
    rw [hcells]
    by_cases hq : q = p
    · rw [if_pos hq, hq]
      simpa using hnodup.1
    · rw [if_neg hq, Option.isSome_map, ← h.live]
      simp [hq]

/-- Two writes to the neighbours, one of which may be missing. -/
theorem relink_next (hit : it.prev = none ∨ ∃ q pr, it.prev = some q ∧ sa.iter? q = some pr)
    (hnext : it.prev = none → sa.iter = some p) (next : Option Ptr) :
    ∃ sa₁, (match it.prev with
      | none => do
        check (sa.iter = some p)
        pure { sa with iter := next }
      | some q => do
        let pr ← sa.loadIter (some q)
        pure (sa.setIter q { pr with next })) = .ok sa₁ ∧ IterOnly sa sa₁ ∧
      sa₁.iter = (if it.prev = none then next else sa.iter) ∧ sa₁.iters.length = sa.iters.length ∧
      ∀ s, sa₁.iter? s = (sa.iter? s).map fun m =>
        { m with next := if it.prev = some s then next else m.next } := by
  rcases hit with hnone | ⟨q, pr, hq, hpr⟩
  · rw [hnone]
    refine ⟨{ sa with iter := next }, ?_, ⟨rfl, rfl, rfl, rfl, rfl⟩, rfl, rfl, ?_⟩
    · simp only [check_of_pos (hnext hnone), ok_bind, pure_eq_ok]
    · intro s
      simp only [reduceCtorEq, if_false]
      change sa.iter? s = _
      cases sa.iter? s <;> rfl
  · rw [hq]
    refine ⟨sa.setIter q { pr with next }, by simp only [SkipArray.loadIter_eq hpr, ok_bind,
      pure_eq_ok], .of_setIter _ _, rfl, by simp [SkipArray.setIter], ?_⟩
    intro s
    rw [SkipArray.iter?_setIter hpr]
    by_cases hs : s = q
    · rw [if_pos hs, hs, hpr, Option.map_some, if_pos rfl]
    · have hne : ¬ some q = some s := fun h => hs (Option.some.inj h).symm
      simp only [if_neg hs, if_neg hne]
      cases sa.iter? s <;> rfl

theorem relink_prev {next : Option Ptr}
    (hit : next = none ∨ ∃ q nx, next = some q ∧ sa.iter? q = some nx) (prev : Option Ptr) :
    ∃ sa₁, (match next with
      | none => pure sa
      | some q => do
        let nx ← sa.loadIter (some q)
        pure (sa.setIter q { nx with prev }) : Except Fault (SkipArray K V)) = .ok sa₁ ∧ IterOnly sa sa₁ ∧
      sa₁.iter = sa.iter ∧ sa₁.iters.length = sa.iters.length ∧
      ∀ s, sa₁.iter? s = (sa.iter? s).map fun m =>
        { m with prev := if next = some s then prev else m.prev } := by
  rcases hit with rfl | ⟨q, nx, rfl, hnx⟩
  · refine ⟨sa, rfl, .refl sa, rfl, rfl, ?_⟩
    intro s
    simp only [reduceCtorEq, if_false]
    cases sa.iter? s <;> rfl
  · refine ⟨sa.setIter q { nx with prev }, by simp only [SkipArray.loadIter_eq hnx, ok_bind,
      pure_eq_ok], .of_setIter _ _, rfl, by simp [SkipArray.setIter], ?_⟩
    intro s
    rw [SkipArray.iter?_setIter hnx]
    by_cases hs : s = q
    · rw [if_pos hs, hs, hnx, Option.map_some, if_pos rfl]
    · have hne : ¬ some q = some s := fun h => hs (Option.some.inj h).symm
      simp only [if_neg hs, if_neg hne]
      cases sa.iter? s <;> rfl

/-- `skiparray_iter_free` takes an iterator out of the list, wherever it stands. -/
theorem skiparrayIterFree_spec (h : sa.Cursors (xs ++ p :: ys)) (hit : sa.iter? p = some it)
    (c : Ctx K V U) :
    ∃ sa', skiparrayIterFree sa c (some p) = .ok (sa', c.release it.block) ∧ IterOnly sa sa' ∧
      sa'.Cursors (xs ++ ys) ∧ sa'.iters.length = sa.iters.length ∧ sa'.iter? p = none ∧
      ∀ q ≠ p, (sa'.iter? q).map Iter.payload = (sa.iter? q).map Iter.payload := by
  have hprev := h.prev_eq hit
  have hnext := h.next_eq hit
  have hp : it.prev = none ∨ ∃ q pr, it.prev = some q ∧ sa.iter? q = some pr := by
    cases hv : it.prev with
    | none => exact Or.inl rfl
    | some q =>
        have hq : q ∈ xs := List.mem_of_getLast? (hprev.symm.trans hv)
        obtain ⟨pr, hpr⟩ := h.isSome (p := q) (by simp [hq])
        exact Or.inr ⟨q, pr, rfl, hpr⟩
  have hfirst : it.prev = none → sa.iter = some p := by
    intro hnone
    rw [hprev, List.getLast?_eq_none_iff] at hnone
    rw [h.head_eq, hnone]
    rfl
  obtain ⟨sa₁, h₁, ho₁, hi₁, hlen₁, hc₁⟩ := relink_next hp hfirst it.next
  have hn : it.next = none ∨ ∃ q nx, it.next = some q ∧ sa₁.iter? q = some nx := by
    cases hx : it.next with
    | none => exact Or.inl rfl
    | some q =>
        have hq : q ∈ ys := List.mem_of_head? (hnext.symm.trans hx)
        obtain ⟨nx, hnx⟩ := h.isSome (p := q) (by simp [hq])
        exact Or.inr ⟨q, _, rfl, by rw [hc₁, hnx]; rfl⟩
  obtain ⟨sa₂, h₂, ho₂, hi₂, hlen₂, hc₂⟩ := relink_prev hn it.prev
  have hlt : p < sa₂.iters.length := by
    rw [hlen₂, hlen₁]
    exact SkipArray.iter_lt hit
  have hcells : ∀ q, ({ sa₂ with iters := sa₂.iters.set p none } : SkipArray K V).iter? q =
      if q = p then none else (sa.iter? q).map fun m =>
        { m with
          next := if it.prev = some q then it.next else m.next
          prev := if it.next = some q then it.prev else m.prev } := by
    intro q
    by_cases hq : q = p
    · subst hq
      simp [SkipArray.iter?, hlt]
    · have : ({ sa₂ with iters := sa₂.iters.set p none } : SkipArray K V).iter? q = sa₂.iter? q := by
        simp [SkipArray.iter?, Ne.symm hq]
      rw [if_neg hq, this, hc₂, hc₁, Option.map_map]
      rfl
  have hhead : sa₂.iter = (xs ++ ys).head? := by
    rw [hi₂, hi₁, hprev, hnext, h.head_eq]
    rcases List.eq_nil_or_concat xs with rfl | ⟨zs, z, rfl⟩
    · simp
    · cases zs <;> simp
  refine ⟨{ sa₂ with iters := sa₂.iters.set p none }, ?_, ?_, freed_cursors h hit hhead hcells, ?_,
    ?_, ?_⟩
  · simp only [skiparrayIterFree, SkipArray.loadIter_eq hit, ok_bind]
    exact bind_eq_ok.mpr ⟨sa₁, h₁, bind_eq_ok.mpr ⟨sa₂, h₂, rfl⟩⟩
  · exact (ho₁.trans ho₂).trans ⟨rfl, rfl, rfl, rfl, rfl⟩
  · simp [hlen₂, hlen₁]
  · rw [hcells, if_pos rfl]
  · intro q hq
    rw [hcells, if_neg hq, Option.map_map]
    rfl

/-! ## Positions -/

/-- Iterator state `it` lies in block `b`, between `A` and `C`, at position `pos`
among all bindings. Beyond the pairs of a block it lies in the last one only,
after END was returned there. -/
structure Stands (it : Iter) (A : List (Block K V)) (b : Block K V) (C : List (Block K V))
    (pos : ℕ) : Prop where
  node : it.n = some b.ptr
  inside : it.index < b.pairs.length ∨ C = []
  small : it.index < 65536
  pos_eq : pos = (bindings A).length + it.index

/-- Iterator `p` is at position `pos` among the bindings of `bs`. -/
def SkipArray.At (sa : SkipArray K V) (bs : List (Block K V)) (p : Ptr) (pos : ℕ) : Prop :=
  ∃ it A b C, sa.iter? p = some it ∧ bs = A ++ b :: C ∧ Stands it A b C pos

/-- `sa'` is `sa` after a movement of iterator `p`. -/
def SkipArray.Moves (sa : SkipArray K V) (p : Ptr) (sa' : SkipArray K V) : Prop :=
  ∃ it m, sa.iter? p = some it ∧ m.prev = it.prev ∧ m.next = it.next ∧ m.block = it.block ∧
    sa' = sa.setIter p m

theorem SkipArray.setIter_self (h : sa.iter? p = some it) : sa.setIter p it = sa := by
  have hcell : sa.iters[p]? = some (some it) := Option.join_eq_some_iff.mp h
  obtain ⟨hlt, hget⟩ := List.getElem?_eq_some_iff.mp hcell
  unfold SkipArray.setIter
  rw [← hget, List.set_getElem_self]

namespace SkipArray.Moves

theorem refl (h : sa.iter? p = some it) : sa.Moves p sa :=
  ⟨it, it, h, rfl, rfl, rfl, (SkipArray.setIter_self h).symm⟩

theorem set (hit : sa.iter? p = some it) (hv : m.prev = it.prev) (hn : m.next = it.next)
    (hk : m.block = it.block) : sa.Moves p (sa.setIter p m) := ⟨it, m, hit, hv, hn, hk, rfl⟩

theorem iterOnly (h : sa.Moves p sa') : IterOnly sa sa' := by
  obtain ⟨it, m, -, -, -, -, rfl⟩ := h
  exact .of_setIter p m

theorem cursors (h : sa.Moves p sa') (hcur : sa.Cursors its) : sa'.Cursors its := by
  obtain ⟨it, m, hit, hv, hn, -, rfl⟩ := h
  exact hcur.setIter hit hn hv

theorem length_eq (h : sa.Moves p sa') : sa'.iters.length = sa.iters.length := by
  obtain ⟨it, m, -, -, -, -, rfl⟩ := h
  simp [SkipArray.setIter]

theorem iter?_ne (h : sa.Moves p sa') (hq : q ≠ p) : sa'.iter? q = sa.iter? q := by
  obtain ⟨it, m, hit, -, -, -, rfl⟩ := h
  rw [SkipArray.iter?_setIter hit, if_neg hq]

end SkipArray.Moves

/-- Positions do not depend on the links of the iterators. -/
theorem SkipArray.At.congr (h : sa.At bs p pos)
    (hpay : (sa'.iter? p).map Iter.payload = (sa.iter? p).map Iter.payload) : sa'.At bs p pos := by
  obtain ⟨it, A, b, C, hit, hbs, hs⟩ := h
  rw [hit, Option.map_some, Option.map_eq_some_iff] at hpay
  obtain ⟨it', hit', heq⟩ := hpay
  have hn : it'.n = it.n := by simpa [Iter.payload] using congrArg (fun i => i.n) heq
  have hi : it'.index = it.index := by simpa [Iter.payload] using congrArg (fun i => i.index) heq
  exact ⟨it', A, b, C, hit', hbs, hn ▸ hs.node, hi ▸ hs.inside, hi ▸ hs.small, hi ▸ hs.pos_eq⟩

theorem SkipArray.At.of_eq (h : sa.At bs p pos) (heq : sa'.iter? p = sa.iter? p) :
    sa'.At bs p pos := h.congr (by rw [heq])

/-- Where an iterator is put. -/
theorem SkipArray.At.setIter (hit : sa.iter? p = some it) (hs : Stands m A b C pos) :
    (sa.setIter p m).At (A ++ b :: C) p pos :=
  ⟨m, A, b, C, by rw [SkipArray.iter?_setIter hit, if_pos rfl], rfl, hs⟩

/-- A position has at most one block. -/
theorem SkipArray.At.isSome (h : sa.At bs p pos) : ∃ it, sa.iter? p = some it := by
  obtain ⟨it, -, -, -, hit, -⟩ := h
  exact ⟨it, hit⟩

section Move

variable [Inhabited V] {cmp : K → K → ℤ}

/-- The new iterator is at the first binding. -/
theorem SkipArray.At.withIter (h : sa.Wf cmp bs) (hne : bindings bs ≠ []) (block : ℕ) :
    (sa.withIter (bs.map Block.ptr).head? block).At bs sa.iters.length 0 := by
  obtain ⟨b, C, rfl⟩ := List.exists_cons_of_ne_nil h.tallest.ne_nil
  have hb := h.all_nonempty hne b (by simp)
  refine ⟨_, [], b, C, by rw [SkipArray.iter?_withIter, if_pos rfl], rfl, rfl, Or.inl ?_, ?_, rfl⟩
  · exact List.length_pos_of_ne_nil hb
  · norm_num

omit [Inhabited V] in
theorem bindings_length : (bindings (A ++ b :: C)).length =
    (bindings A).length + b.pairs.length + (bindings C).length := by
  simp [Nat.add_assoc]

/-- `skiparray_iter_next` moves on by one, and answers END when that leaves the
bindings. Only an index of 65535 wraps around. -/
theorem skiparrayIterNext_spec (h : sa.Wf cmp bs) (hne : bindings bs ≠ []) (hat : sa.At bs p pos) :
    ∃ res sa' pos', skiparrayIterNext sa p = .ok (res, sa') ∧ sa.Moves p sa' ∧ sa'.At bs p pos' ∧
      ((∀ it, sa.iter? p = some it → it.index ≠ 65535) →
        res = (if pos + 1 = (bindings bs).length then .ended else .ok) ∧ pos' = pos + 1) := by
  obtain ⟨it, A, b, C, hit, rfl, hs⟩ := hat
  obtain ⟨n, hn, hh⟩ := h.stores b (by simp)
  have hall := h.all_nonempty hne
  have hb := List.length_pos_of_ne_nil (hall b (by simp))
  have hsmall := hs.small
  have hpos := hs.pos_eq
  have hlen := bindings_length (A := A) (b := b) (C := C)
  simp only [skiparrayIterNext, SkipArray.loadIter_eq hit, ok_bind, hs.node, SkipArray.load_eq hn,
    h.linked.next, hh.count]
  by_cases hwrap : it.index = 65535
  · have hu : u16 ((it.index : ℤ) + 1) = 0 := by rw [hwrap]; rfl
    rw [hu, if_neg (by omega)]
    refine ⟨_, _, (bindings A).length, rfl, .set hit rfl rfl rfl,
      .setIter hit ⟨rfl, Or.inl hb, by norm_num, rfl⟩, fun hno => absurd hwrap (hno it hit)⟩
  have hu : u16 ((it.index : ℤ) + 1) = it.index + 1 := by
    exact_mod_cast u16_of_lt (n := it.index + 1) (by omega)
  rw [hu]
  by_cases hend : it.index + 1 = b.pairs.length
  · rw [if_pos hend]
    cases C with
    | nil =>
        rw [List.map_nil, List.head?_nil, if_pos rfl]
        refine ⟨_, _, pos + 1, rfl, .set hit rfl rfl rfl,
          .setIter hit ⟨rfl, Or.inr rfl, ?_, ?_⟩, fun _ => ⟨?_, rfl⟩⟩
        · simp only
          omega
        · simp only
          omega
        · rw [if_pos]
          rw [hlen, bindings_nil, List.length_nil]
          omega
    | cons x C =>
        have hx := List.length_pos_of_ne_nil (hall x (by simp))
        rw [List.map_cons, List.head?_cons, if_neg (by simp), List.append_cons]
        refine ⟨_, _, pos + 1, rfl, .set hit rfl rfl rfl,
          .setIter hit ⟨rfl, Or.inl hx, by norm_num, ?_⟩, fun _ => ⟨?_, rfl⟩⟩
        · simp only [bindings_append, bindings_cons, bindings_nil, List.length_append,
            List.length_nil]
          omega
        · rw [if_neg]
          rw [← List.append_cons, hlen, bindings_cons, List.length_append]
          omega
  · rw [if_neg hend]
    refine ⟨_, _, pos + 1, rfl, .set hit rfl rfl rfl, .setIter hit ⟨rfl, ?_, ?_, ?_⟩,
      fun _ => ⟨?_, rfl⟩⟩
    · exact hs.inside.imp_left fun hlt => by simp only; omega
    · simp only
      omega
    · simp only
      omega
    · rw [if_neg]
      rw [hlen]
      rcases hs.inside with hin | rfl
      · omega
      · rw [bindings_nil, List.length_nil]
        omega

/-- At a binding, the index cannot wrap around. -/
theorem SkipArray.At.index_lt (h : sa.Wf cmp bs) (hat : sa.At bs p pos)
    (hpos : pos < (bindings bs).length) : ∀ m, sa.iter? p = some m → m.index ≠ 65535 := by
  obtain ⟨m, A, b, C, hm, rfl, hs⟩ := hat
  obtain ⟨n, hn, hh⟩ := h.stores b (by simp)
  have hlt := h.settings.nodeSize_lt
  have hbound := hh.bound
  have heq := hs.pos_eq
  intro m' hm'
  rw [hm, Option.some.injEq] at hm'
  subst hm'
  rcases hs.inside with hin | rfl
  · omega
  · rw [bindings_length, bindings_nil, List.length_nil] at hpos
    omega

/-- `skiparray_iter_prev` moves back by one, and answers END at the first binding. -/
theorem skiparrayIterPrev_spec (h : sa.Wf cmp bs) (hne : bindings bs ≠ []) (hat : sa.At bs p pos) :
    ∃ sa', skiparrayIterPrev sa p = .ok (if pos = 0 then .ended else .ok, sa') ∧ sa.Moves p sa' ∧
      sa'.At bs p (pos - 1) ∧ (pos = 0 → sa' = sa) := by
  have hat' := hat
  obtain ⟨it, A, b, C, hit, rfl, hs⟩ := hat
  obtain ⟨n, hn, hh⟩ := h.stores b (by simp)
  have hall := h.all_nonempty hne
  have hpos := hs.pos_eq
  have hsmall := hs.small
  simp only [skiparrayIterPrev, SkipArray.loadIter_eq hit, ok_bind, hs.node, SkipArray.load_eq hn]
  by_cases h0 : it.index = 0
  · rw [if_pos h0, h.linked.back hn]
    rcases List.eq_nil_or_concat A with rfl | ⟨A, a, rfl⟩
    · have hz : pos = 0 := by
        rw [hpos, h0]
        rfl
      rw [List.map_nil, List.getLast?_nil, if_pos rfl, if_pos hz]
      refine ⟨sa, rfl, .refl hit, ?_, fun _ => rfl⟩
      subst hz
      exact hat'
    · rw [List.concat_eq_append] at *
      obtain ⟨na, hna, hha⟩ := h.stores a (by simp)
      have ha := List.length_pos_of_ne_nil (hall a (by simp))
      have hlt := h.settings.nodeSize_lt
      have hbound := hha.bound
      have hu : u16 ((na.count : ℤ) - 1) = a.pairs.length - 1 := by
        rw [hha.count]
        exact u16_sub (b := 1) ha (by omega)
      have hz : pos ≠ 0 := by
        rw [hpos, bindings_append, bindings_cons, List.length_append, List.length_append]
        omega
      have hlast : ((A ++ [a]).map Block.ptr).getLast? = some a.ptr := by simp
      rw [hlast, if_neg (by simp), SkipArray.load_eq hna, ok_bind, hu, if_neg hz, ← List.append_cons]
      refine ⟨_, rfl, .set hit rfl rfl rfl,
        .setIter hit ⟨rfl, Or.inl ?_, ?_, ?_⟩, fun hzero => absurd hzero hz⟩
      · simp only
        omega
      · simp only
        omega
      · simp only [hpos, h0, bindings_append, bindings_cons, bindings_nil, List.length_append,
          List.length_nil]
        omega
  · have hz : pos ≠ 0 := by omega
    rw [if_neg h0, if_neg hz]
    refine ⟨_, rfl, .set hit rfl rfl rfl, .setIter hit ⟨rfl, ?_, ?_, ?_⟩,
      fun hzero => absurd hzero hz⟩
    · exact hs.inside.imp_left fun hlt => by simp only; omega
    · simp only
      omega
    · simp only
      omega

/-- `skiparray_iter_get` reads the binding at the position, and asserts that
there is one. -/
theorem skiparrayIterGet_spec (h : sa.Wf cmp bs) (hne : bindings bs ≠ []) (hat : sa.At bs p pos) :
    skiparrayIterGet sa p = match (bindings bs)[pos]? with
      | some kv => .ok (kv.1, sa.out kv.2)
      | none => .error .assertion := by
  obtain ⟨it, A, b, C, hit, rfl, hs⟩ := hat
  obtain ⟨n, hn, hh⟩ := h.stores b (by simp)
  have hpos := hs.pos_eq
  have hlt := h.settings.nodeSize_lt
  have hbound := hh.bound
  simp only [skiparrayIterGet, SkipArray.loadIter_eq hit, ok_bind, hs.node, SkipArray.load_eq hn,
    hh.count]
  by_cases hin : it.index < b.pairs.length
  · obtain ⟨kv, hkv⟩ : ∃ kv, b.pairs[it.index]? = some kv :=
      ⟨_, List.getElem?_eq_getElem hin⟩
    have hget : (bindings (A ++ b :: C))[pos]? = some kv := by
      rw [hpos, bindings_append, List.getElem?_append_right (Nat.le_add_right ..),
        Nat.add_sub_cancel_left, bindings_cons, List.getElem?_append_left hin, hkv]
    have hu : u16 ((n.offset : ℤ) + it.index) = n.offset + it.index := by
      rw [hh.offset]
      exact_mod_cast u16_of_lt (n := b.offset + it.index) (by omega)
    rw [hget, check_of_pos hin, ok_bind, hu, hh.keyAt hkv, ok_bind, hh.valueAt hkv]
    cases hv : sa.useValues <;> simp [Settings.out, hv]
  · have hC : C = [] := hs.inside.resolve_left hin
    subst hC
    have hget : (bindings (A ++ [b]))[pos]? = none := by
      rw [List.getElem?_eq_none_iff, bindings_length, bindings_nil, List.length_nil]
      omega
    rw [hget, check, if_neg hin]
    rfl

/-- `skiparray_iter_seek_endpoint` goes to the first or the last binding. -/
theorem skiparrayIterSeekEndpoint_spec (h : sa.Wf cmp bs) (hne : bindings bs ≠ [])
    (hit : sa.iter? p = some it) (ends : SeekEndpoint) :
    ∃ sa', skiparrayIterSeekEndpoint sa p ends = .ok sa' ∧ sa.Moves p sa' ∧
      sa'.At bs p (match ends with
        | .first => 0
        | .last => (bindings bs).length - 1) := by
  have hall := h.all_nonempty hne
  rw [skiparrayIterSeekEndpoint, SkipArray.loadIter_eq hit, ok_bind]
  cases ends with
  | first =>
      obtain ⟨b, C, rfl⟩ := List.exists_cons_of_ne_nil h.tallest.ne_nil
      have hb := List.length_pos_of_ne_nil (hall b (by simp))
      simp only [h.linked.first h.settings.pos, ok_bind, List.map_cons, List.head?_cons]
      exact ⟨_, rfl, .set hit rfl rfl rfl,
        .setIter (A := []) hit ⟨rfl, Or.inl hb, by norm_num, rfl⟩⟩
  | last =>
      obtain ⟨A, b, rfl⟩ : ∃ A b, bs = A ++ [b] := by
        rcases List.eq_nil_or_concat bs with hnil | ⟨A, b, hbs⟩
        · exact absurd hnil h.tallest.ne_nil
        · exact ⟨A, b, by rw [hbs, List.concat_eq_append]⟩
      obtain ⟨n, hn, hh⟩ := h.stores b (by simp)
      have hb := List.length_pos_of_ne_nil (hall b (by simp))
      have hlt := h.settings.nodeSize_lt
      have hbound := hh.bound
      have hu : u16 ((n.count : ℤ) - 1) = b.pairs.length - 1 := by
        rw [hh.count]
        exact u16_sub (b := 1) hb (by omega)
      simp only [lastNode_spec h.toSound, ok_bind, SkipArray.load_eq hn, hu]
      refine ⟨_, rfl, .set hit rfl rfl rfl, .setIter hit ⟨rfl, Or.inl ?_, ?_, ?_⟩⟩
      · simp only
        omega
      · simp only
        omega
      · rw [bindings_length, bindings_nil, List.length_nil]
        simp only
        omega

/-- What `skiparray_iter_seek` answers on the bindings `l`, and where it takes an
iterator that is at `pos`. -/
def seekTo (cmp : K → K → ℤ) (key : K) (l : List (K × V)) (pos : ℕ) : SeekRes × ℕ :=
  if (Assoc.find? cmp key l).isSome then (.found, (Assoc.below cmp key l).length)
  else if Assoc.below cmp key l = [] then (.errorBeforeFirst, pos)
  else if Assoc.above cmp key l = [] then (.errorAfterLast, pos)
  else (.notFound, (Assoc.below cmp key l).length)

omit [Inhabited V] in
theorem seekTo_hit (hc : LawfulCmp cmp) {key : K} {pre post : List (K × V)} {kv : K × V}
    (h : Assoc.Hit cmp key pre kv post) :
    seekTo cmp key (pre ++ kv :: post) pos = (.found, pre.length) := by
  rw [seekTo, h.find?_eq hc, (h.cut hc).1]
  rfl

omit [Inhabited V] in
theorem seekTo_miss (hc : LawfulCmp cmp) {key : K} {pre post : List (K × V)}
    (h : Assoc.Miss cmp key pre post) :
    seekTo cmp key (pre ++ post) pos = if pre = [] then (.errorBeforeFirst, pos)
      else if post = [] then (.errorAfterLast, pos) else (.notFound, pre.length) := by
  rw [seekTo, h.find?_eq hc, (h.cut hc).1, (h.cut hc).2]
  rfl

/-- `skiparray_iter_seek` goes to the key's binding or to the next one above. -/
theorem skiparrayIterSeek_spec {cb : Callbacks K U} (hc : LawfulCmp (cb.cmp sa.cmp))
    (h : sa.Wf (cb.cmp sa.cmp) bs) (hne : bindings bs ≠ []) (hat : sa.At bs p pos) (key : K) :
    ∃ sa', skiparrayIterSeek cb sa p key =
        .ok ((seekTo (cb.cmp sa.cmp) key (bindings bs) pos).1, sa') ∧ sa.Moves p sa' ∧
      sa'.At bs p (seekTo (cb.cmp sa.cmp) key (bindings bs) pos).2 ∧
      ((seekTo (cb.cmp sa.cmp) key (bindings bs) pos).1 = .errorBeforeFirst ∨
        (seekTo (cb.cmp sa.cmp) key (bindings bs) pos).1 = .errorAfterLast → sa' = sa) := by
  obtain ⟨it, hit⟩ := hat.isSome
  obtain ⟨r, hr, A, b, C, hpos⟩ := search_spec hc h key
  have hsplit := hpos.split
  subst hsplit
  have hall := h.all_nonempty hne
  have hb := List.length_pos_of_ne_nil (hall b (by simp))
  obtain ⟨n, hn, hh⟩ := h.stores b (by simp)
  have hlt := h.settings.nodeSize_lt
  have hbound := hh.bound
  simp only [skiparrayIterSeek, SkipArray.loadIter_eq hit, hr, ok_bind, hpos.node,
    check_of_pos (Option.some_ne_none b.ptr)]
  cases hf : r.found with
  | true =>
      obtain ⟨kv, hkv, hk⟩ := hpos.hit hf
      have hi := (List.getElem?_eq_some_iff.mp hkv).1
      rw [bindings_at hkv, seekTo_hit hc (hpos.isHit h.ascending hkv hk)]
      refine ⟨_, rfl, .set hit rfl rfl rfl, .setIter hit ⟨rfl, Or.inl hi, ?_, ?_⟩, by simp⟩
      · simp only
        omega
      · simp only [List.length_append, List.length_take]
        omega
  | false =>
      obtain ⟨hi, -, -, -⟩ := hpos.miss hf
      have hpre : bindings A ++ b.pairs.take r.index = [] ↔ r.index = 0 ∧ A = [] := by
        rw [List.append_eq_nil_iff]
        constructor
        · rintro ⟨hA, htake⟩
          refine ⟨?_, ?_⟩
          · rcases List.take_eq_nil_iff.mp htake with h0 | hnil
            · exact h0
            · exact absurd hnil (hall b (by simp))
          · by_contra hA'
            obtain ⟨a, A, rfl⟩ := List.exists_cons_of_ne_nil hA'
            rw [bindings_cons, List.append_eq_nil_iff] at hA
            exact hall a (by simp) hA.1
        · rintro ⟨h0, rfl⟩
          simp [h0]
      have hpost : b.pairs.drop r.index ++ bindings C = [] ↔
          r.index = b.pairs.length ∧ C = [] := by
        rw [List.append_eq_nil_iff, List.drop_eq_nil_iff]
        constructor
        · rintro ⟨hdrop, hC⟩
          refine ⟨by omega, ?_⟩
          by_contra hC'
          obtain ⟨x, C, rfl⟩ := List.exists_cons_of_ne_nil hC'
          rw [bindings_cons, List.append_eq_nil_iff] at hC
          exact hall x (by simp) hC.1
        · rintro ⟨heq, rfl⟩
          exact ⟨by omega, rfl⟩
      have hback : n.back = none ↔ A = [] := by
        rw [h.linked.back hn, List.getLast?_eq_none_iff, List.map_eq_nil_iff]
      rw [bindings_between r.index, seekTo_miss hc (hpos.isMiss hf)]
      simp only [hpre, hpost, SkipArray.load_eq hn, ok_bind, hback, hh.count, h.linked.next,
        Bool.false_eq_true, if_false]
      by_cases hfirst : r.index = 0 ∧ A = []
      · rw [if_pos hfirst, if_pos hfirst]
        exact ⟨sa, rfl, .refl hit, hat, fun _ => rfl⟩
      rw [if_neg hfirst, if_neg hfirst]
      by_cases hend : r.index = b.pairs.length
      · rw [if_pos hend]
        cases C with
        | nil =>
            rw [List.map_nil, List.head?_nil, if_pos rfl, if_pos ⟨hend, rfl⟩]
            exact ⟨sa, rfl, .refl hit, hat, fun _ => rfl⟩
        | cons x C =>
            have hx := List.length_pos_of_ne_nil (hall x (by simp))
            rw [List.map_cons, List.head?_cons, if_neg (by simp), if_neg (by simp)]
            refine ⟨_, rfl, .set hit rfl rfl rfl, ?_, by simp⟩
            rw [List.append_cons]
            refine .setIter hit ⟨rfl, Or.inl hx, by norm_num, ?_⟩
            simp only [bindings_append, bindings_cons, bindings_nil, List.length_append,
              List.length_take, List.length_nil]
            omega
      · rw [if_neg hend, if_neg (fun hno => hend hno.1)]
        refine ⟨_, rfl, .set hit rfl rfl rfl, .setIter hit ⟨rfl, Or.inl ?_, ?_, ?_⟩, by simp⟩
        · simp only
          omega
        · simp only
          omega
        · simp only [List.length_append, List.length_take]
          omega

end Move

end Skiparray
