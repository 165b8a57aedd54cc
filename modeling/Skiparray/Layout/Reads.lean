import Skiparray.Layout.Search
import Skiparray.Layout.NodeOps
import Skiparray.Lib.Assoc

/-!
# Reading from a well-formed skiparray

Each read answers what the bindings say, whatever the layout of the blocks.
`Position` is restated as the cut of `Assoc`: a found key is a `Hit` in the
bindings, any other a `Miss`.
-/

namespace Skiparray

open SkipLinks Fallible Budget

variable {K V U : Type} {cmp : K → K → ℤ}

/-- What is written through a value pointer: nothing without values. -/
def Settings.out (s : Settings) (v : V) : Option V := if s.useValues then some v else none

/-! ## Positions as cuts of the bindings -/

/-- Pair `i` of block `b` among all bindings. -/
theorem bindings_at {A C : List (Block K V)} {b : Block K V} {i : ℕ} {p : K × V}
    (hp : b.pairs[i]? = some p) :
    bindings (A ++ b :: C) =
      (bindings A ++ b.pairs.take i) ++ p :: (b.pairs.drop (i + 1) ++ bindings C) := by
  obtain ⟨hi, rfl⟩ := List.getElem?_eq_some_iff.mp hp
  have hcut : b.pairs.take i ++ b.pairs[i] :: b.pairs.drop (i + 1) = b.pairs := by
    rw [← List.drop_eq_getElem_cons hi, List.take_append_drop]
  rw [bindings_append, bindings_cons, List.append_assoc, ← List.cons_append,
    ← List.append_assoc (b.pairs.take i), hcut]

/-- A place between two pairs of block `b` among all bindings. -/
theorem bindings_between {A C : List (Block K V)} {b : Block K V} (i : ℕ) :
    bindings (A ++ b :: C) = (bindings A ++ b.pairs.take i) ++ (b.pairs.drop i ++ bindings C) := by
  rw [bindings_append, bindings_cons, List.append_assoc, ← List.append_assoc (b.pairs.take i),
    List.take_append_drop]

section Position

variable {nodeSize : ℕ} {key : K} {bs A C : List (Block K V)} {b : Block K V} {r : SearchEnv}
  {p : K × V}

theorem Position.isHit (h : Position cmp nodeSize key bs A b C r)
    (ha : Ascending cmp (bindings bs)) (hp : b.pairs[r.index]? = some p) (hk : cmp key p.1 = 0) :
    Assoc.Hit cmp key (bindings A ++ b.pairs.take r.index) p
      (b.pairs.drop (r.index + 1) ++ bindings C) := by
  refine ⟨?_, hk⟩
  rw [← bindings_at hp, ← h.split]
  exact ha

theorem Position.isMiss (h : Position cmp nodeSize key bs A b C r) (hr : r.found = false) :
    Assoc.Miss cmp key (bindings A ++ b.pairs.take r.index)
      (b.pairs.drop r.index ++ bindings C) :=
  ⟨(h.miss hr).2.1, (h.miss hr).2.2.1⟩

end Position

variable [Inhabited V] {sa : SkipArray K V} {bs A C : List (Block K V)} {b : Block K V}

/-! ## Lookup -/

/-- Lookup answers the binding of the key's class. -/
theorem skiparrayGetPair_spec {cb : Callbacks K U} (hc : LawfulCmp (cb.cmp sa.cmp))
    (h : sa.Wf (cb.cmp sa.cmp) bs) (key : K) :
    skiparrayGetPair cb sa key = .ok (Assoc.find? (cb.cmp sa.cmp) key (bindings bs)) := by
  obtain ⟨r, hr, A, b, C, hpos⟩ := search_spec hc h key
  have hsplit := hpos.split
  subst hsplit
  simp only [skiparrayGetPair, hr, ok_bind]
  cases hf : r.found with
  | true =>
      obtain ⟨p, hp, hk⟩ := hpos.hit hf
      obtain ⟨n, hn, hh⟩ := h.stores b (by simp)
      rw [bindings_at hp, (hpos.isHit h.ascending hp hk).find?_eq hc, hpos.node,
        SkipArray.load_eq hn]
      simp [hh.keyAt hp, hh.valueAt hp]
  | false =>
      rw [bindings_between r.index, (hpos.isMiss hf).find?_eq hc]
      rfl

theorem skiparrayGet_spec {cb : Callbacks K U} (hc : LawfulCmp (cb.cmp sa.cmp))
    (h : sa.Wf (cb.cmp sa.cmp) bs) (key : K) :
    skiparrayGet cb sa key =
      .ok ((Assoc.find? (cb.cmp sa.cmp) key (bindings bs)).isSome,
        (Assoc.find? (cb.cmp sa.cmp) key (bindings bs)).map Prod.snd) := by
  rw [skiparrayGet, skiparrayGetPair_spec hc h key, ok_bind]
  cases Assoc.find? (cb.cmp sa.cmp) key (bindings bs) <;> rfl

theorem skiparrayMember_spec {cb : Callbacks K U} (hc : LawfulCmp (cb.cmp sa.cmp))
    (h : sa.Wf (cb.cmp sa.cmp) bs) (key : K) :
    skiparrayMember cb sa key =
      .ok (Assoc.find? (cb.cmp sa.cmp) key (bindings bs)).isSome := by
  rw [skiparrayMember, skiparrayGet_spec hc h key]
  rfl

/-! ## The level-0 chain -/

omit [Inhabited V] in
/-- The next block on level 0. -/
theorem SkipArray.Linked.next (h : sa.Linked (A ++ b :: C)) :
    sa.fwdAt (some b.ptr) 0 = .ok (C.map Block.ptr).head? := by
  rw [h.fwdAt (h.top b (by simp)).1, onLevel_zero, towers_fst]
  intro t ht
  obtain ⟨x, hx, rfl⟩ := List.mem_map.mp ht
  exact (h.top x (by simp [hx])).1

omit [Inhabited V] in
/-- The first block on level 0. -/
theorem SkipArray.Linked.first (h : sa.Linked bs) (hm : 0 < sa.maxLevel) :
    sa.headAt 0 = .ok (bs.map Block.ptr).head? := by
  rw [h.headAt hm, onLevel_zero, towers_fst]
  intro t ht
  obtain ⟨x, hx, rfl⟩ := List.mem_map.mp ht
  exact (h.top x hx).1

/-- The loop of `skiparray_count`, with the blocks `C` still to visit. -/
theorem countLoop_spec (h : sa.Sound cmp bs) :
    ∀ {C A : List (Block K V)} {fuel res : ℕ}, bs = A ++ C → C.length ≤ fuel →
      countLoop sa fuel (C.map Block.ptr).head? res = .ok (res + (bindings C).length)
  | [], _, 0, _, _, _ => rfl
  | [], _, _ + 1, _, _, _ => rfl
  | _ :: _, _, 0, _, _, hfuel => absurd hfuel (by simp)
  | b :: C, A, fuel + 1, res, hsplit, hfuel => by
      have hl := h.linked
      rw [hsplit] at hl
      obtain ⟨n, hn, hh⟩ := h.stores b (by simp [hsplit])
      simp only [List.map_cons, List.head?_cons, countLoop, SkipArray.load_eq hn, ok_bind, hl.next,
        hh.count]
      rw [countLoop_spec h (C := C) (A := A ++ [b]) (by simp [hsplit]) (by simpa using hfuel)]
      simp only [bindings_cons, List.length_append]
      congr 1
      omega

theorem skiparrayCount_spec (h : sa.Sound cmp bs) :
    skiparrayCount sa = .ok (bindings bs).length := by
  have hlen := h.linked.length_le
  rw [skiparrayCount, h.linked.first h.settings.pos, ok_bind,
    countLoop_spec h (C := bs) (A := []) rfl (by unfold SkipArray.budget; omega), Nat.zero_add]

omit [Inhabited V] in
/-- There is always a first block. -/
theorem SkipArray.Tallest.ne_nil (h : sa.Tallest bs) : bs ≠ [] := by
  obtain ⟨-, t, ht, -⟩ := h
  exact List.ne_nil_of_mem ht

/-- Only a lone block can be empty, so the first one holds the first binding. -/
theorem SkipArray.Wf.first_pair (h : sa.Wf cmp (b :: C)) :
    b.pairs.head? = (bindings (b :: C)).head? := by
  cases hb : b.pairs with
  | nil =>
      have := h.shape.eq_singleton (c := b) (by simp) hb
      rw [this]
      simp [hb]
  | cons p ps => simp [hb]

theorem SkipArray.Wf.last_pair (h : sa.Wf cmp (A ++ [b])) :
    b.pairs.getLast? = (bindings (A ++ [b])).getLast? := by
  by_cases hb : b.pairs = []
  · have hlone := h.shape.eq_singleton (c := b) (by simp) hb
    rw [hlone]
    simp [hb]
  · rw [bindings_append, bindings_cons, bindings_nil, List.append_nil,
      List.getLast?_append_of_ne_nil _ hb]

/-- What `skiparray_first` and `skiparray_last` hand out. -/
def outPair {R : Type} (s : Settings) (ok empty : R) :
    Option (K × V) → R × Option K × Option V
  | none => (empty, none, none)
  | some p => (ok, some p.1, s.out p.2)

theorem skiparrayFirst_spec (h : sa.Wf cmp bs) :
    skiparrayFirst sa = .ok (outPair sa.toSettings .ok .empty (bindings bs).head?) := by
  obtain ⟨b, C, rfl⟩ := List.exists_cons_of_ne_nil h.tallest.ne_nil
  obtain ⟨n, hn, hh⟩ := h.stores b (by simp)
  rw [← h.first_pair, skiparrayFirst, h.linked.first h.settings.pos, ok_bind, List.map_cons,
    List.head?_cons, SkipArray.load_eq hn, ok_bind, hh.count]
  cases hb : b.pairs.head? with
  | none =>
      rw [if_pos (by simpa using hb)]
      rfl
  | some p =>
      have hp : b.pairs[0]? = some p := by rw [← List.head?_eq_getElem?, hb]
      have hk := hh.keyAt hp
      have hv := hh.valueAt hp
      rw [Nat.add_zero] at hk hv
      have hlen : b.pairs.length ≠ 0 := by
        rintro hnil
        rw [List.length_eq_zero_iff.mp hnil] at hb
        cases hb
      rw [if_neg hlen, hk, hv]
      cases hu : sa.useValues <;> simp [outPair, Settings.out, hu]

/-- A walk to the last node is at a block that reaches the level, with `n`
iterations to go at most. -/
def LastAt (bs : List (Block K V)) (n : ℕ) (s : ℕ × Option Ptr) : Prop :=
  ∃ A a C, bs = A ++ a :: C ∧ s.1 < a.height ∧ s.2 = some a.ptr ∧ n = s.1 + C.length

def SkipArray.onward (sa : SkipArray K V) (s s' : ℕ × Option Ptr) : Prop :=
  sa.links.Onward s.1 s.2 s'.1 s'.2

/-- Each iteration of `last_node` ends at the last block, or goes down or on to a
later block. -/
theorem lastNode_turn (h : sa.Sound cmp bs) {last : Block K V} (hlast : bs.getLast? = some last)
    (n : ℕ) (s : ℕ × Option Ptr) (hat : LastAt bs n s) :
    (∃ r, Stops (fun fuel s => lastNodeLoop sa fuel s.1 s.2) s r ∧ r = .ok (some last.ptr)) ∨
      ∃ m s', m < n ∧ Turns (fun fuel s => lastNodeLoop sa fuel s.1 s.2) s s' ∧ sa.onward s s' ∧
        LastAt bs m s' := by
  obtain ⟨level, cur⟩ := s
  obtain ⟨A, a, C, hsplit, hlevel, hcur, rfl⟩ := hat
  simp only at hlevel hcur
  subst hcur
  have hl := h.linked
  rw [hsplit] at hl
  have hfwd := hl.fwdAt hlevel
  cases hps : onLevel level (towers C) with
  | cons p ps =>
      obtain ⟨B₁, c, B₂, rfl, rfl, hc, -, -⟩ := onLevel_towers_cons hps
      rw [hps, List.head?_cons] at hfwd
      refine Or.inr ⟨_, (level, some c.ptr), ?_, fun fuel => ?_, Or.inr ⟨rfl, ?_⟩, A ++ a :: B₁, c,
        B₂, by simp [hsplit], hc, rfl, rfl⟩
      · simp only [List.length_append, List.length_cons]
        omega
      · show lastNodeLoop sa (fuel + 1) level (some a.ptr) = _
        rw [lastNodeLoop, hfwd, ok_bind, if_pos (by simp)]
      · exact hl.ahead hlevel (by rw [hps]; rfl)
  | nil =>
      rw [hps, List.head?_nil] at hfwd
      by_cases h0 : level = 0
      · subst h0
        have hnil : C = [] := eq_nil_of_onLevel_zero hps fun x hx => (hl.top x (by simp [hx])).1
        rw [hsplit, hnil, List.getLast?_append] at hlast
        refine Or.inl ⟨_, fun fuel => ?_, rfl⟩
        show lastNodeLoop sa (fuel + 1) 0 (some a.ptr) = _
        rw [lastNodeLoop, hfwd, ok_bind, if_neg (by simp), if_pos rfl, ← Option.some.inj hlast]
        rfl
      · refine Or.inr ⟨_, (level - 1, some a.ptr), ?_, fun fuel => ?_, Or.inl (Nat.sub_one_lt h0),
          A, a, C, hsplit, ?_, rfl, rfl⟩
        · simp only
          omega
        · show lastNodeLoop sa (fuel + 1) level (some a.ptr) = _
          rw [lastNodeLoop, hfwd, ok_bind, if_neg (by simp), if_neg h0]
        · simp only
          omega

/-- The walks to the last node start at the first block of the top level. -/
theorem SkipArray.Sound.topmost (h : sa.Sound cmp bs) :
    0 < sa.height ∧ sa.height ≤ sa.maxLevel ∧ ∃ A a C, bs = A ++ a :: C ∧
      sa.headAt (sa.height - 1) = .ok (some a.ptr) ∧ sa.height - 1 < a.height := by
  obtain ⟨-, t, ht, hth⟩ := h.tallest
  have htop := h.linked.top t ht
  have hne := onLevel_towers_ne_nil (i := sa.height - 1) ht (by omega)
  obtain ⟨p, hp⟩ := Option.ne_none_iff_exists'.mp hne
  obtain ⟨ps, hps⟩ := List.head?_eq_some_iff.mp hp
  obtain ⟨A, a, C, hbs, rfl, ha, -, -⟩ := onLevel_towers_cons hps
  refine ⟨by omega, by omega, A, a, C, hbs, ?_, ha⟩
  rw [h.linked.headAt (by omega), hp]

theorem SkipArray.Sound.last_start (h : sa.Sound cmp bs) : ∃ p,
    sa.headAt (sa.height - 1) = .ok (some p) ∧ ∃ n, LastAt bs n (sa.height - 1, some p) ∧
      n < sa.budget := by
  obtain ⟨-, -, B, a, C, hsplit, hhead, ha⟩ := h.topmost
  have hlen := h.linked.length_le
  rw [hsplit] at hlen
  simp only [List.length_append, List.length_cons] at hlen
  refine ⟨a.ptr, hhead, _, ⟨B, a, C, hsplit, ha, rfl, rfl⟩, ?_⟩
  simp only [SkipArray.budget]
  omega

/-- The levels stay within the limit. -/
theorem SkipArray.Sound.height_le (h : sa.Sound cmp bs) : sa.height ≤ sa.maxLevel :=
  h.topmost.2.1

theorem lastNode_spec (h : sa.Sound cmp (A ++ [b])) : lastNode sa = .ok (some b.ptr) := by
  obtain ⟨p, hhead, n, hat, hn⟩ := h.last_start
  have hlast : (A ++ [b]).getLast? = some b := by simp
  obtain ⟨r, rfl, hw⟩ := winds_of_bound (lastNode_turn h hlast) hat
  rw [lastNode, check_of_pos h.topmost.1, ok_bind, hhead, ok_bind]
  exact hw.eq hn

theorem skiparrayLast_spec (h : sa.Wf cmp bs) :
    skiparrayLast sa = .ok (outPair sa.toSettings .ok .empty (bindings bs).getLast?) := by
  obtain ⟨A, b, rfl⟩ : ∃ A b, bs = A ++ [b] := by
    rcases List.eq_nil_or_concat bs with hnil | ⟨A, b, hbs⟩
    · exact absurd hnil h.tallest.ne_nil
    · exact ⟨A, b, by rw [hbs, List.concat_eq_append]⟩
  obtain ⟨n, hn, hh⟩ := h.stores b (by simp)
  rw [← h.last_pair, skiparrayLast, lastNode_spec h.toSound, ok_bind, SkipArray.load_eq hn, ok_bind,
    hh.count]
  cases hb : b.pairs.getLast? with
  | none =>
      have hnil : b.pairs = [] := by simpa using hb
      have hlone := h.shape.eq_singleton (c := b) (by simp) hnil
      rw [if_pos (by simp [hnil]), h.linked.first h.settings.pos, hlone, ok_bind,
        check_of_pos (by simp)]
      rfl
  | some p =>
      have hlen : b.pairs.length ≠ 0 := by
        rintro hnil
        rw [List.length_eq_zero_iff.mp hnil] at hb
        cases hb
      have hp : b.pairs[b.pairs.length - 1]? = some p := by
        rw [← List.getLast?_eq_getElem?, hb]
      have hv := hh.valueAt hp
      rw [← Nat.add_sub_assoc (by omega)] at hv
      rw [if_neg hlen, hh.lastKey hb, ok_bind, hv]
      cases hu : sa.useValues <;> simp [outPair, Settings.out, hu]

end Skiparray
