import Skiparray.Runs.Contents

/-!
# Lookup is exact

`skiparray_bsearch` on its own, with the intervals its loop goes through, and
`search` on a well-formed skiparray: the node and the index it answers are where
the key is, or where it may go.
-/

namespace Skiparray

open SkipLinks Fallible

variable {K V U : Type} {cmp : K → K → ℤ}

/-! ## Within an array -/

/-- The intervals `low`, `high` that the loop of `skiparray_bsearch` goes through. -/
inductive BsearchVisits (cmp : K → K → ℤ) (key : K) (keys : List K) (keyCount : ℕ) :
    ℕ → ℕ → Prop where
  | start : BsearchVisits cmp key keys keyCount 0 keyCount
  | left {low high : ℕ} {k : K} (h : BsearchVisits cmp key keys keyCount low high)
      (hlt : low < high) (hk : keys[(low + high) / 2]? = some k) (hless : cmp key k < 0) :
      BsearchVisits cmp key keys keyCount low ((low + high) / 2)
  | right {low high : ℕ} {k : K} (h : BsearchVisits cmp key keys keyCount low high)
      (hlt : low < high) (hk : keys[(low + high) / 2]? = some k) (hgreater : 0 < cmp key k) :
      BsearchVisits cmp key keys keyCount ((low + high) / 2 + 1) high

section Array

variable {key : K} {keys : List K} {keyCount low high : ℕ}

theorem BsearchVisits.bounds (h : BsearchVisits cmp key keys keyCount low high) :
    low ≤ high ∧ high ≤ keyCount := by
  induction h with
  | start => exact ⟨Nat.zero_le _, le_rfl⟩
  | left _ _ _ _ ih => constructor <;> omega
  | right _ _ _ _ ih => constructor <;> omega

/-- From each of them on, the loop finds what `skiparray_bsearch` answers. -/
theorem BsearchVisits.loop (h : BsearchVisits cmp key keys keyCount low high)
    (hpos : 0 < keyCount) : ∃ fuel, high - low < fuel ∧
      skiparrayBsearch cmp key keys keyCount = bsearchLoop cmp key keys fuel low high := by
  induction h with
  | start =>
      refine ⟨keyCount + 1, by omega, ?_⟩
      rw [skiparrayBsearch, check_of_pos hpos, ok_bind]
  | @left low high k hvisit hlt hk hless ih =>
      obtain ⟨fuel, hfuel, heq⟩ := ih
      obtain ⟨fuel, rfl⟩ : ∃ f, fuel = f + 1 := ⟨fuel - 1, by omega⟩
      refine ⟨fuel, by omega, ?_⟩
      rw [heq, bsearchLoop, if_pos hlt]
      simp only [slot_of_getElem? hk, ok_bind, if_pos hless]
  | @right low high k hvisit hlt hk hgreater ih =>
      obtain ⟨fuel, hfuel, heq⟩ := ih
      obtain ⟨fuel, rfl⟩ : ∃ f, fuel = f + 1 := ⟨fuel - 1, by omega⟩
      refine ⟨fuel, by omega, ?_⟩
      rw [heq, bsearchLoop, if_pos hlt]
      simp only [slot_of_getElem? hk, ok_bind, if_neg (not_lt.mpr hgreater.le), if_pos hgreater]

/-- The loop reads no key from index `high` on. -/
theorem bsearchLoop_append (rest : List K) : ∀ {fuel low high : ℕ}, high ≤ keys.length →
    bsearchLoop cmp key (keys ++ rest) fuel low high = bsearchLoop cmp key keys fuel low high := by
  intro fuel
  induction fuel with
  | zero =>
      intros
      rfl
  | succ fuel ih =>
      intro low high hhigh
      rw [bsearchLoop, bsearchLoop]
      by_cases hlt : low < high
      · have hcur : (low + high) / 2 < keys.length := by omega
        have hslot : slot (keys ++ rest) ((low + high) / 2) = slot keys ((low + high) / 2) := by
          rw [slot, slot, List.getElem?_append_left hcur]
        rw [if_pos hlt, if_pos hlt]
        simp only [hslot, ih hhigh, ih (show (low + high) / 2 ≤ keys.length by omega)]
      · rw [if_neg hlt, if_neg hlt]

theorem Located.found_iff (hc : LawfulCmp cmp) {r : Bool × ℕ} (h : Located cmp keys key r) :
    r.1 = true ↔ ∃ k ∈ keys, cmp key k = 0 := by
  constructor
  · intro hr
    obtain ⟨k, hk, heq⟩ := h.hit hr
    exact ⟨k, List.mem_of_getElem? hk, heq⟩
  · rintro ⟨k, hk, heq⟩
    by_contra hr
    obtain ⟨-, hlo, hhi⟩ := h.miss (Bool.not_eq_true _ ▸ hr)
    rw [← List.take_append_drop r.2 keys, List.mem_append] at hk
    rcases hk with hk | hk
    · exact absurd (hc.symm heq) (hlo k hk).ne
    · exact absurd heq (hhi k hk).ne

/-- The index of a miss counts the smaller keys. -/
theorem Located.count (hc : LawfulCmp cmp) {r : Bool × ℕ} (h : Located cmp keys key r)
    (hr : r.1 = false) : r.2 = keys.countP fun k => cmp k key < 0 := by
  obtain ⟨hle, hlo, hhi⟩ := h.miss hr
  have hall : (keys.take r.2).countP (fun k => cmp k key < 0) = r.2 := by
    rw [List.countP_eq_length.mpr, List.length_take_of_le hle]
    intro k hk
    exact decide_eq_true (hlo k hk)
  have hnone : (keys.drop r.2).countP (fun k => cmp k key < 0) = 0 := by
    rw [List.countP_eq_zero]
    intro k hk
    have hgt := (hc.swap key k).mp (hhi k hk)
    simpa using hgt.le
  conv_rhs => rw [← List.take_append_drop r.2 keys, List.countP_append, hall, hnone]
  rfl

/-- `skiparray_bsearch` finds a key that is there, else the number of smaller keys;
it reads only the first `key_count` keys, and its intervals stay inside. -/
theorem bsearch_exact (hc : LawfulCmp cmp) (hpos : keys ≠ []) (hlen : keys.length ≤ 65535)
    (hasc : keys.Pairwise fun a b => cmp a b < 0) (key : K) :
    (∃ found index, index < 65536 ∧
      (∀ rest, skiparrayBsearch cmp key (keys ++ rest) keys.length = .ok (found, index)) ∧
      (found = true ↔ ∃ k ∈ keys, cmp key k = 0) ∧
      (found = true → ∃ k, keys[index]? = some k ∧ cmp key k = 0) ∧
      (found = false → index = keys.countP fun k => cmp k key < 0)) ∧
    ∀ low high, BsearchVisits cmp key keys keys.length low high →
      low ≤ high ∧ high ≤ keys.length ∧ low + high < 2 ^ 31 ∧
      (low < high → (low + high) / 2 < keys.length) ∧
      ∃ fuel, skiparrayBsearch cmp key keys keys.length =
        bsearchLoop cmp key keys fuel low high := by
  have hcount : 0 < keys.length := List.length_pos_of_ne_nil hpos
  constructor
  · have hfound : ∃ r, skiparrayBsearch cmp key keys keys.length = .ok r ∧ Located cmp keys key r :=
      skiparrayBsearch_spec hc (fun _ _ => rfl) hpos (Nat.lt_succ_of_le hlen) hasc
    obtain ⟨⟨found, index⟩, heq, hloc⟩ := hfound
    have hindex : index < 65536 := by
      cases hf : found with
      | true =>
          obtain ⟨k, hk, -⟩ := hloc.hit hf
          have hlt := (List.getElem?_eq_some_iff.mp hk).1
          simp only at hlt
          omega
      | false =>
          obtain ⟨hle, -⟩ := hloc.miss hf
          simp only at hle
          omega
    refine ⟨found, index, hindex, ?_, hloc.found_iff hc, hloc.hit, hloc.count hc⟩
    intro rest
    rw [← heq, skiparrayBsearch, skiparrayBsearch, bsearchLoop_append rest le_rfl]
  · intro low high hvisit
    obtain ⟨hle, hhigh⟩ := hvisit.bounds
    obtain ⟨fuel, -, hloop⟩ := hvisit.loop hcount
    exact ⟨hle, hhigh, by omega, fun _ => by omega, fuel, hloop⟩

theorem bsearch_exact_int : let cmp : ℤ → ℤ → ℤ := fun a b => a - b
    (∃ found index, index < 65536 ∧
      (∀ rest, skiparrayBsearch cmp 4 ([1, 3, 5] ++ rest) 3 = .ok (found, index)) ∧
      (found = true ↔ ∃ k ∈ [1, 3, 5], cmp 4 k = 0) ∧
      (found = true → ∃ k, [1, 3, 5][index]? = some k ∧ cmp 4 k = 0) ∧
      (found = false → index = [1, 3, 5].countP fun k => cmp k 4 < 0)) ∧
    ∀ low high, BsearchVisits cmp 4 [1, 3, 5] 3 low high →
      low ≤ high ∧ high ≤ 3 ∧ low + high < 2 ^ 31 ∧ (low < high → (low + high) / 2 < 3) ∧
      ∃ fuel, skiparrayBsearch cmp 4 [1, 3, 5] 3 = bsearchLoop cmp 4 [1, 3, 5] fuel low high :=
  bsearch_exact LawfulCmp.int_sub (by decide) (by decide) (by decide) 4

end Array

/-! ## Across the nodes -/

/-- `search` finds a key that is there; otherwise the key may be inserted where it
points, and a node other than the last one then has room at its end. -/
theorem search_exact [Inhabited V] {sa : SkipArray K V} {bs : List (Block K V)}
    (hc : LawfulCmp cmp) (h : sa.Wf cmp bs) (key : K) :
    ∃ r p n before after, search cmp sa key = .ok r ∧ r.n = some p ∧ sa.node? p = some n ∧
      sa.contents = before ++ n.livePairs ++ after ∧
      (r.found = true ↔ ∃ kv ∈ sa.contents, cmp key kv.1 = 0) ∧
      (r.found = true → ∃ kv, n.livePairs[r.index]? = some kv ∧ cmp key kv.1 = 0) ∧
      (r.found = false → r.index ≤ n.count ∧
        (∀ value, Ascending cmp (before ++ (n.livePairs.take r.index ++ (key, value) ::
          n.livePairs.drop r.index) ++ after)) ∧
        (r.index = n.count → n.fwd[0]? ≠ some none → n.count < sa.nodeSize)) := by
  obtain ⟨r, hr, A, b, C, hpos⟩ := search_spec hc h key
  have hsplit := hpos.split
  subst hsplit
  obtain ⟨n, hn, hh⟩ := h.stores b (by simp)
  have hcontents : sa.contents = bindings A ++ n.livePairs ++ bindings C := by
    rw [h.contents_eq, hh.livePairs, bindings_append, bindings_cons, List.append_assoc]
  refine ⟨r, b.ptr, n, bindings A, bindings C, hr, hpos.node, hn, hcontents, ?_, ?_, ?_⟩
  · rw [h.contents_eq]
    constructor
    · intro hf
      obtain ⟨p, hp, heq⟩ := hpos.hit hf
      refine ⟨p, ?_, heq⟩
      rw [bindings_at hp]
      exact List.mem_append_right _ List.mem_cons_self
    · rintro ⟨p, hp, heq⟩
      by_contra hf
      obtain ⟨-, hlo, hhi, -⟩ := hpos.miss (Bool.not_eq_true _ ▸ hf)
      rw [bindings_between r.index, List.mem_append] at hp
      rcases hp with hp | hp
      · exact absurd (hc.symm heq) (hlo p hp).ne
      · exact absurd heq (hhi p hp).ne
  · rw [hh.livePairs]
    exact hpos.hit
  · intro hf
    obtain ⟨hle, hlo, hhi, hroom⟩ := hpos.miss hf
    rw [hh.livePairs, hh.count]
    refine ⟨hle, ?_, ?_⟩
    · intro value
      have hasc := h.ascending
      rw [bindings_between r.index, Ascending.append_iff] at hasc
      rw [← List.append_assoc, List.append_assoc, List.cons_append, Ascending.append_iff]
      refine ⟨hasc.1, ?_, ?_⟩
      · exact List.pairwise_cons.mpr ⟨hhi, hasc.2.1⟩
      · intro p hp q hq
        rcases List.mem_cons.mp hq with rfl | hq
        · exact hlo p hp
        · exact hasc.2.2 p hp q hq
    · intro hindex hnext
      apply hroom hindex
      rintro rfl
      exact hnext (h.linked.fwd_slot hn (h.linked.top b (by simp)).1)

/-- Key 2 is found, and 4 belongs at the end. -/
theorem search_exact_flatSplit :
    (∃ r p n kv, search (Callbacks.plain.cmp 0) SkipArray.flatSplit 2 = .ok r ∧ r.found = true ∧
      r.n = some p ∧ SkipArray.flatSplit.node? p = some n ∧ n.livePairs[r.index]? = some kv ∧
      Callbacks.plain.cmp 0 2 kv.1 = 0) ∧
    ∃ r p n before after, search (Callbacks.plain.cmp 0) SkipArray.flatSplit 4 = .ok r ∧
      r.found = false ∧ r.n = some p ∧ SkipArray.flatSplit.node? p = some n ∧
      SkipArray.flatSplit.contents = before ++ n.livePairs ++ after ∧ r.index ≤ n.count ∧
      ∀ value, Ascending (Callbacks.plain.cmp 0) (before ++ (n.livePairs.take r.index ++
        (4, value) :: n.livePairs.drop r.index) ++ after) := by
  obtain ⟨-, bs, its, hco⟩ := SkipArray.flatSplit_reachable.coherent LawfulCmp.int_sub
  obtain ⟨r, p, n, -, -, hr, hp, hn, -, hfound, hhit, -⟩ :=
    search_exact LawfulCmp.int_sub hco.toWf 2
  obtain ⟨r', p', n', before, after, hr', hp', hn', hcontents, hfound', -, hmiss⟩ :=
    search_exact LawfulCmp.int_sub hco.toWf 4
  have hmem : r.found = true := hfound.mpr (by decide)
  have habsent : r'.found = false := by
    rw [Bool.eq_false_iff, ne_eq, hfound']
    decide
  obtain ⟨kv, hkv, heq⟩ := hhit hmem
  obtain ⟨hindex, hasc, -⟩ := hmiss habsent
  exact ⟨⟨r, p, n, kv, hr, hmem, hp, hn, hkv, heq⟩,
    r', p', n', before, after, hr', habsent, hp', hn', hcontents, hindex, hasc⟩

end Skiparray
