import Skiparray.Layout.Block
import Skiparray.Lib.Budget
import Skiparray.Model.Read

/-!
# Search finds the position of a key

`bsearchLoop_spec` brackets the key within a node. `search_turn` carries the
bracket through one iteration of the descent: the state of the loop is a level and a split
`A ++ B` of the blocks, with every key of `A` below the key searched for and
`prev` the last block of `A`. Each iteration lowers the level or moves blocks
from `B` to `A`.
-/

namespace Skiparray

open SkipLinks Fallible Budget

variable {K V U : Type} {cmp : K → K → ℤ}

/-! ## Within a node -/

/-- What the pair of a found flag and an index says about ascending keys. -/
structure Located (cmp : K → K → ℤ) (ks : List K) (key : K) (r : Bool × ℕ) : Prop where
  hit : r.1 = true → ∃ k, ks[r.2]? = some k ∧ cmp key k = 0
  miss : r.1 = false → r.2 ≤ ks.length ∧ (∀ k ∈ ks.take r.2, cmp k key < 0) ∧
    ∀ k ∈ ks.drop r.2, cmp key k < 0

/-- The half-open bracket `[low, high)` shrinks around the key. -/
theorem bsearchLoop_spec (hc : LawfulCmp cmp) {ks keys : List K} {key : K}
    (hkeys : ∀ i < ks.length, keys[i]? = ks[i]?) (hlen : ks.length < 65536)
    (hasc : ks.Pairwise fun a b => cmp a b < 0) :
    ∀ {fuel low high : ℕ}, low ≤ high → high ≤ ks.length → high - low < fuel →
      (∀ k ∈ ks.take low, cmp k key < 0) → (∀ k ∈ ks.drop high, cmp key k < 0) →
      ∃ r, bsearchLoop cmp key keys fuel low high = .ok r ∧ Located cmp ks key r
  | 0, _, _, _, _, hfuel, _, _ => absurd hfuel (by omega)
  | fuel + 1, low, high, hle, hhigh, hfuel, hlo, hhi => by
      rw [bsearchLoop]
      by_cases hlt : low < high
      · have hcur : (low + high) / 2 < ks.length := by omega
        have hslot := slot_of_getElem? ((hkeys _ hcur).trans (List.getElem?_eq_getElem hcur))
        simp only [if_pos hlt, hslot, ok_bind]
        have hsplit : ks.drop ((low + high) / 2) =
            ks[(low + high) / 2] :: ks.drop ((low + high) / 2 + 1) :=
          List.drop_eq_getElem_cons hcur
        have hasc' := hasc
        rw [← List.take_append_drop ((low + high) / 2) ks, hsplit, List.pairwise_append,
          List.pairwise_cons] at hasc'
        obtain ⟨-, ⟨hafter, -⟩, hbefore⟩ := hasc'
        split_ifs with h₁ h₂
        · refine bsearchLoop_spec hc hkeys hlen hasc (by omega) (by omega) (by omega) hlo ?_
          intro k hk
          rw [hsplit] at hk
          rcases List.mem_cons.mp hk with rfl | hk
          · exact h₁
          · exact hc.lt_trans h₁ (hafter k hk)
        · refine bsearchLoop_spec hc hkeys hlen hasc (by omega) (by omega) (by omega) ?_ hhi
          have hkey := (hc.swap ks[(low + high) / 2] key).mpr h₂
          intro k hk
          rw [List.take_succ_eq_append_getElem hcur] at hk
          rcases List.mem_append.mp hk with hk | hk
          · exact hc.lt_trans (hbefore k hk _ List.mem_cons_self) hkey
          · rw [List.mem_singleton.mp hk]
            exact hkey
        · refine ⟨_, rfl, fun _ => ?_, fun h => by simp at h⟩
          have hcur' : u16 ((low + high) / 2 : ℕ) = (low + high) / 2 := u16_of_lt (by omega)
          refine ⟨ks[(low + high) / 2], ?_, by omega⟩
          rw [hcur', List.getElem?_eq_getElem hcur]
      · rw [if_neg hlt]
        have hlow : u16 low = low := u16_of_lt (by omega)
        have heq : low = high := by omega
        refine ⟨_, rfl, fun h => by simp at h, fun _ => ?_⟩
        simp only [hlow]
        exact ⟨by omega, hlo, heq ▸ hhi⟩

/-- `skiparray_bsearch` brackets the key among strictly ascending keys. -/
theorem skiparrayBsearch_spec (hc : LawfulCmp cmp) {ks keys : List K} {key : K}
    (hkeys : ∀ i < ks.length, keys[i]? = ks[i]?) (hpos : ks ≠ []) (hlen : ks.length < 65536)
    (hasc : ks.Pairwise fun a b => cmp a b < 0) :
    ∃ r, skiparrayBsearch cmp key keys ks.length = .ok r ∧ Located cmp ks key r := by
  have h0 : 0 < ks.length := List.length_pos_of_ne_nil hpos
  rw [skiparrayBsearch, check_of_pos h0, ok_bind]
  exact bsearchLoop_spec hc hkeys hlen hasc (by omega) (le_refl _) (by omega) (by simp) (by simp)

theorem searchWithinNode_spec [Inhabited V] (hc : LawfulCmp cmp) {s : Settings}
    (hs : s.Ok) {n : Node K V} {b : Block K V} (hn : Holds s n b) (hb : b.pairs ≠ []) (hasc : Ascending cmp b.pairs) (key : K) :
    ∃ r, searchWithinNode cmp key n = .ok r ∧ Located cmp (b.pairs.map Prod.fst) key r := by
  have hlen : (b.pairs.map Prod.fst).length = n.count := by rw [List.length_map, hn.count]
  rw [searchWithinNode, ← hlen]
  refine skiparrayBsearch_spec hc ?_ (by simpa using hb) ?_ ?_
  · intro i hi
    rw [List.getElem?_drop, hn.offset]
    exact hn.keys.slots i hi
  · rw [List.length_map]
    have := hn.bound
    have := hs.nodeSize_lt
    omega
  · exact List.pairwise_map.mpr hasc

/-! ## Across the levels -/

/-- Where `search` says the key is, or belongs: block `b` between `A` and `C`. -/
structure Position (cmp : K → K → ℤ) (nodeSize : ℕ) (key : K) (bs A : List (Block K V))
    (b : Block K V) (C : List (Block K V)) (r : SearchEnv) : Prop where
  split : bs = A ++ b :: C
  node : r.n = some b.ptr
  hit : r.found = true → ∃ p, b.pairs[r.index]? = some p ∧ cmp key p.1 = 0
  miss : r.found = false → r.index ≤ b.pairs.length ∧
    (∀ p ∈ bindings A ++ b.pairs.take r.index, cmp p.1 key < 0) ∧
    (∀ q ∈ b.pairs.drop r.index ++ bindings C, cmp key q.1 < 0) ∧
    (r.index = b.pairs.length → C ≠ [] → b.pairs.length < nodeSize)

/-- The first block on a level splits the blocks at itself. -/
theorem onLevel_towers_cons {i : ℕ} {B : List (Block K V)} {p : Ptr} {ps : List Ptr}
    (h : onLevel i (towers B) = p :: ps) :
    ∃ B₁ c B₂, B = B₁ ++ c :: B₂ ∧ c.ptr = p ∧ i < c.height ∧
      onLevel i (towers B₁) = [] ∧ onLevel i (towers B₂) = ps := by
  obtain ⟨ts₁, k, ts₂, hts, hk, h₁, h₂⟩ := onLevel_eq_cons h
  obtain ⟨B₁, B', rfl, rfl, hB'⟩ := List.map_eq_append_iff.mp hts
  obtain ⟨c, B₂, rfl, hc, rfl⟩ := List.map_eq_cons_iff.mp hB'
  obtain ⟨rfl, rfl⟩ := Prod.mk.inj hc
  exact ⟨B₁, c, B₂, rfl, rfl, hk, h₁, h₂⟩

theorem onLevel_towers_ne_nil {i : ℕ} {B : List (Block K V)} {c : Block K V} (hc : c ∈ B)
    (hi : i < c.height) : (onLevel i (towers B)).head? ≠ none := by
  intro h
  rw [List.head?_eq_none_iff, onLevel_eq_nil_iff] at h
  have := h c.tower (List.mem_map.mpr ⟨c, hc, rfl⟩)
  simp only [Block.tower_snd] at this
  omega

/-- On level 0 there is every block. -/
theorem eq_nil_of_onLevel_zero {B : List (Block K V)} (h : onLevel 0 (towers B) = [])
    (ht : ∀ b ∈ B, 0 < b.height) : B = [] := by
  cases B with
  | nil => rfl
  | cons b B =>
      exact absurd (by rw [h]; rfl)
        (onLevel_towers_ne_nil (i := 0) (List.mem_cons_self) (ht b List.mem_cons_self))

/-- Keys up to the end of a block are at most its last. -/
theorem le_last {A : List (Block K V)} {c : Block K V} {x : K × V}
    (hc : LawfulCmp cmp) (hasc : Ascending cmp (bindings A ++ c.pairs))
    (hx : c.pairs.getLast? = some x) {p : K × V} (hp : p ∈ bindings A ++ c.pairs) :
    cmp p.1 x.1 ≤ 0 := by
  obtain ⟨xs, hxs⟩ := List.getLast?_eq_some_iff.mp hx
  rw [hxs, ← List.append_assoc] at hasc hp
  rcases List.mem_append.mp hp with hp | hp
  · exact le_of_lt ((Ascending.append_iff.mp hasc).2.2 p hp x (by simp))
  · rw [List.mem_singleton.mp hp, hc.refl]

/-- The state of the loop of `search`: the blocks split into `A ++ B`. -/
structure Bracket (cmp : K → K → ℤ) (key : K) (A B : List (Block K V)) (level : ℕ)
    (prev cur : Option Ptr) (found : Bool) : Prop where
  prev_eq : prev = (A.map Block.ptr).getLast?
  tall : ∀ b, A.getLast? = some b → level < b.height
  below : ∀ p ∈ bindings A, cmp p.1 key < 0
  cur_eq : cur = (onLevel level (towers B)).head?
  ne_none : cur ≠ none
  flagged : found = true → ∃ b ∈ B, ∃ p, b.pairs.getLast? = some p ∧ cmp key p.1 = 0

/-- `prev ? prev->fwd[level] : sa->nodes[level]` is the first block of `B`
that reaches the level. -/
theorem nextOnLevel_eq {sa : SkipArray K V} {A B : List (Block K V)} {level : ℕ}
    (hl : sa.Linked (A ++ B)) (hm : level < sa.maxLevel)
    (htall : ∀ b, A.getLast? = some b → level < b.height) :
    nextOnLevel sa (A.map Block.ptr).getLast? level =
      .ok (onLevel level (towers B)).head? := by
  rcases List.eq_nil_or_concat A with rfl | ⟨A, a, rfl⟩
  · exact hl.headAt hm
  · rw [List.concat_eq_append] at hl htall ⊢
    have ha := htall a (by simp)
    rw [List.append_assoc, List.singleton_append] at hl
    simpa [nextOnLevel] using hl.fwdAt ha

/-- The `do`-`while` ends at a lower level, at the first block of `B` there. -/
theorem descend_spec {sa : SkipArray K V} {A B : List (Block K V)} {a : Block K V}
    (hl : sa.Linked (A ++ a :: B)) (hB : B ≠ []) (cur : Option Ptr) :
    ∀ {level : ℕ}, 0 < level → level ≤ a.height →
      ∃ level', level' < level ∧
        descend sa (some a.ptr) cur level = .ok (level', (onLevel level' (towers B)).head?) ∧
        (onLevel level' (towers B)).head? ≠ none
  | 0, h0, _ => absurd h0 (by omega)
  | level + 1, _, hle => by
      rw [descend, hl.fwdAt (by omega), ok_bind]
      split_ifs with h
      · obtain ⟨level', hlt, heq, hne⟩ := descend_spec hl hB cur h.2 (by omega)
        exact ⟨level', by omega, heq, hne⟩
      · refine ⟨level, by omega, rfl, fun hn => ?_⟩
        by_cases h0 : 0 < level
        · exact h ⟨Or.inl hn, h0⟩
        · obtain rfl : level = 0 := by omega
          obtain ⟨c, hc⟩ := List.exists_mem_of_ne_nil B hB
          exact onLevel_towers_ne_nil hc (hl.top c (by simp [hc])).1 hn

theorem SkipArray.Linked.ahead {sa : SkipArray K V} {A B : List (Block K V)} {b : Block K V}
    {i : ℕ} {q : Ptr} (h : sa.Linked (A ++ b :: B)) (hi : i < b.height)
    (hq : (onLevel i (towers B)).head? = some q) : sa.links.Ahead i (some b.ptr) (some q) := by
  have hm : i < sa.maxLevel := lt_of_lt_of_le hi (h.top b (by simp)).2
  have hl := h.spells.level i hm
  have hnd := h.spells.nodup_onLevel i
  rw [towers_append, towers_cons] at hl hnd
  exact hl.ahead hnd hi hq

section Loop

variable [Inhabited V] {sa : SkipArray K V} {bs A B : List (Block K V)} {key : K}

/-- What the proofs about the loop of `search` need of the skiparray. -/
structure Searchable (cmp : K → K → ℤ) (sa : SkipArray K V) (bs : List (Block K V)) : Prop
    extends sa.Sound cmp bs where
  nonempty : ∀ b ∈ bs, b.pairs ≠ []

/-- The result on level 0, when the key is below the last key of the first
block of `B`. -/
theorem search_here (hc : LawfulCmp cmp) (hs : Searchable cmp sa (A ++ B))
    {c : Block K V} {C : List (Block K V)} (hB : B = c :: C)
    (hbelow : ∀ p ∈ bindings A, cmp p.1 key < 0) {x : K × V}
    (hx : c.pairs.getLast? = some x) (hlt : cmp key x.1 < 0) {n : Node K V}
    (hn : sa.node? c.ptr = some n) :
    ∃ r, (do
      let (found, index) ← searchWithinNode cmp key n
      if found = false ∧ index = 0 then
        match n.back with
        | none => return ⟨found, some c.ptr, index⟩
        | some back => do
          let b ← sa.load (some back)
          if b.count < n.count then return ⟨found, some back, b.count⟩
          else return ⟨found, some c.ptr, index⟩
      else return ⟨found, some c.ptr, index⟩) = Except.ok (ε := Fault) r ∧
    ∃ A' b' C', Position cmp sa.nodeSize key (A ++ B) A' b' C' r := by
  subst hB
  have hcm : c ∈ A ++ c :: C := by simp
  obtain ⟨n', hn', hh⟩ := hs.stores c hcm
  obtain rfl : n' = n := Option.some.inj (hn'.symm.trans hn)
  have hasc := hs.ascending
  rw [bindings_append, bindings_cons, Ascending.append_iff, Ascending.append_iff] at hasc
  obtain ⟨-, ⟨hascc, -, hcC⟩, hAc⟩ := hasc
  obtain ⟨⟨found, index⟩, hr, hloc⟩ :=
    searchWithinNode_spec hc hs.settings hh (hs.nonempty c hcm) hascc key
  simp only [hr, ok_bind]
  -- the key lies before every later block
  have hCgt : ∀ q ∈ bindings C, cmp key q.1 < 0 := fun q hq =>
    hc.lt_trans hlt (hcC x (List.mem_of_getLast? hx) q hq)
  have hstay : Position cmp sa.nodeSize key (A ++ c :: C) A c C ⟨found, some c.ptr, index⟩ := by
    refine ⟨rfl, rfl, fun hf => ?_, fun hf => ?_⟩
    · obtain ⟨k, hk, hz⟩ := hloc.hit hf
      rw [List.getElem?_map, Option.map_eq_some_iff] at hk
      obtain ⟨p, hp, rfl⟩ := hk
      exact ⟨p, hp, hz⟩
    · obtain ⟨hle, hlo, hhi⟩ := hloc.miss hf
      rw [List.length_map] at hle
      refine ⟨hle, ?_, ?_, fun hidx _ => ?_⟩
      · intro p hp
        rcases List.mem_append.mp hp with hp | hp
        · exact hbelow p hp
        · exact hlo p.1 (by rw [← List.map_take]; exact List.mem_map_of_mem hp)
      · intro q hq
        rcases List.mem_append.mp hq with hq | hq
        · exact hhi q.1 (by rw [← List.map_drop]; exact List.mem_map_of_mem hq)
        · exact hCgt q hq
      · -- the last key is not below the key
        simp only at hidx
        have := hlo x.1 (by
          rw [hidx, ← List.map_take, List.take_length]
          exact List.mem_map_of_mem (List.mem_of_getLast? hx))
        have := hc.swap x.1 key
        omega
  split_ifs with h0
  · obtain ⟨rfl, rfl⟩ := h0
    rw [hs.linked.back hn]
    rcases List.eq_nil_or_concat A with rfl | ⟨A', a, rfl⟩
    · exact ⟨_, rfl, [], c, C, hstay⟩
    · rw [List.concat_eq_append] at hs hstay hbelow hcm ⊢
      have ham : a ∈ A' ++ [a] ++ c :: C := by simp
      obtain ⟨m, hm, hma⟩ := hs.stores a ham
      simp only [List.map_append, List.map_cons, List.map_nil, List.getLast?_append,
        List.getLast?_singleton, Option.some_or, SkipArray.load_eq hm, ok_bind]
      split_ifs with hless
      · refine ⟨_, rfl, A', a, c :: C, by simp, rfl, fun h => by simp at h, fun _ => ?_⟩
        rw [hma.count] at hless
        have hfit := hh.bound
        rw [hh.count] at hless
        simp only [hma.count, List.take_length, List.drop_length, List.nil_append]
        refine ⟨le_refl _, ?_, ?_, fun _ _ => by omega⟩
        · intro p hp
          exact hbelow p (by simpa using hp)
        · intro q hq
          rw [bindings_cons, List.mem_append] at hq
          rcases hq with hq | hq
          · obtain ⟨-, -, hhi⟩ := hloc.miss rfl
            exact hhi q.1 (by simpa using ⟨q.2, hq⟩)
          · exact hCgt q hq
      · exact ⟨_, rfl, _, c, C, hstay⟩
  · exact ⟨_, rfl, A, c, C, hstay⟩

/-- The variables of the loop of `search`. -/
structure SearchState where
  level : ℕ
  prev : Option Ptr
  cur : Option Ptr
  found : Bool
  index : ℕ

def SearchState.loop (cmp : K → K → ℤ) (sa : SkipArray K V) (key : K) (fuel : ℕ)
    (s : SearchState) : Except Fault SearchEnv :=
  searchLoop cmp sa key fuel s.level s.prev s.cur s.found s.index

def SearchState.onward (sa : SkipArray K V) (s s' : SearchState) : Prop :=
  sa.links.Onward s.level s.cur s'.level s'.cur

/-- The loop is at a split of the blocks, with `n` iterations to go at most. -/
def SearchState.At (cmp : K → K → ℤ) (sa : SkipArray K V) (bs : List (Block K V)) (key : K)
    (n : ℕ) (s : SearchState) : Prop :=
  ∃ A B, bs = A ++ B ∧ s.level < sa.maxLevel ∧ n = s.level + B.length ∧
    Bracket cmp key A B s.level s.prev s.cur s.found

/-- Each iteration of `search` ends at the position of the key, or lowers the
level, or moves blocks from `B` to `A`. -/
theorem search_turn (hc : LawfulCmp cmp) (hs : Searchable cmp sa bs) (n : ℕ) (s : SearchState)
    (hat : s.At cmp sa bs key n) :
    (∃ r, Stops (SearchState.loop cmp sa key) s r ∧
      ∃ env, r = .ok env ∧ ∃ A' b' C', Position cmp sa.nodeSize key bs A' b' C' env) ∨
    ∃ m s', m < n ∧ Turns (SearchState.loop cmp sa key) s s' ∧ s.onward sa s' ∧
      SearchState.At cmp sa bs key m s' := by
  obtain ⟨level, prev, cur, found, index⟩ := s
  obtain ⟨A, B, rfl, hm, rfl, hbr⟩ := hat
  simp only at hm hbr
  obtain ⟨p, hp⟩ := Option.ne_none_iff_exists'.mp hbr.ne_none
  have hcons : ∃ ps, onLevel level (towers B) = p :: ps :=
    List.head?_eq_some_iff.mp (hbr.cur_eq.symm.trans hp)
  obtain ⟨ps, hps⟩ := hcons
  obtain ⟨B₁, c, B₂, rfl, rfl, hk, hB₁, hB₂⟩ := onLevel_towers_cons hps
  have hcm : c ∈ A ++ (B₁ ++ c :: B₂) := by simp
  obtain ⟨n, hn, hh⟩ := hs.stores c hcm
  have hcpos : 0 < n.count := by
    rw [hh.count]
    exact List.length_pos_of_ne_nil (hs.nonempty c hcm)
  obtain ⟨x, hx⟩ : ∃ x, c.pairs.getLast? = some x := by
    rw [← Option.ne_none_iff_exists', ne_eq, List.getLast?_eq_none_iff]
    exact hs.nonempty c hcm
  have hasc : Ascending cmp (bindings (A ++ B₁) ++ c.pairs ++ bindings B₂) := by
    simpa using hs.ascending
  have hascx := (Ascending.append_iff.mp hasc).1
  have htops : ∀ b ∈ B₁ ++ c :: B₂, 0 < b.height := fun b hb =>
    (hs.linked.top b (List.mem_append_right _ hb)).1
  subst hp
  have hload := SkipArray.load_eq hn
  have hlast := hh.lastKey hx
  -- going down keeps the split
  have hdown : ∀ {level' prev' found'}, level' < level → prev' = (A.map Block.ptr).getLast? →
      (found' = true → ∃ b ∈ B₁ ++ c :: B₂, ∃ p, b.pairs.getLast? = some p ∧ cmp key p.1 = 0) →
      (onLevel level' (towers (B₁ ++ c :: B₂))).head? ≠ none →
      Bracket cmp key A (B₁ ++ c :: B₂) level' prev'
        (onLevel level' (towers (B₁ ++ c :: B₂))).head? found' :=
    fun hlt hprev hf hne => ⟨hprev, fun b hb => lt_trans hlt (hbr.tall b hb), hbr.below, rfl, hne, hf⟩
  set down := (onLevel (level - 1) (towers (B₁ ++ c :: B₂))).head? with hdn
  have hbelow₁ : down ≠ none :=
    onLevel_towers_ne_nil (c := c) (by simp) (by omega)
  have hnext : nextOnLevel sa prev (level - 1) =
      .ok down := by
    rw [hbr.prev_eq]
    refine nextOnLevel_eq hs.linked (by omega) fun b hb => ?_
    have := hbr.tall b hb
    omega
  by_cases hneg : cmp key x.1 < 0
  · by_cases h0 : level = 0
    · subst h0
      have hnil : B₁ = [] := eq_nil_of_onLevel_zero hB₁ fun b hb => htops b (by simp [hb])
      subst hnil
      obtain ⟨r, hr, hpos⟩ := search_here hc hs rfl hbr.below hx hneg hn
      refine Or.inl ⟨.ok r, fun fuel => ?_, r, rfl, hpos⟩
      simp only [SearchState.loop, searchLoop, hload, ok_bind, check_of_pos hcpos, hlast, if_pos hneg,
        if_true]
      exact hr
    · refine Or.inr ⟨_, ⟨level - 1, prev, down, found, index⟩, ?_, fun fuel => ?_, Or.inl ?_,
        A, _, rfl, ?_, rfl, hdown (Nat.sub_one_lt h0) hbr.prev_eq hbr.flagged hbelow₁⟩
      · simp only
        omega
      · simp only [SearchState.loop, searchLoop, hload, ok_bind, check_of_pos hcpos, hlast,
          if_pos hneg, if_neg h0, hnext]
      · exact Nat.sub_one_lt h0
      · simp only
        omega
  by_cases hpos : 0 < cmp key x.1
  · have hxkey := (hc.swap x.1 key).mpr hpos
    have hbelow : ∀ p ∈ bindings (A ++ B₁) ++ c.pairs, cmp p.1 key < 0 := fun p hp =>
      hc.lt_of_le_of_lt (le_last hc hascx hx hp) hxkey
    -- a flagged match lies beyond `c`
    have hfar : found = true → ∃ b ∈ B₂, ∃ p, b.pairs.getLast? = some p ∧ cmp key p.1 = 0 := by
      intro hf
      obtain ⟨b, hb, p, hp, hz⟩ := hbr.flagged hf
      have hpm := List.mem_of_getLast? hp
      have hno : p ∉ bindings (A ++ B₁) ++ c.pairs := fun hin => by
        have := hbelow p hin
        have := hc.symm hz
        omega
      rcases List.mem_append.mp hb with hb | hb
      · exact absurd (List.mem_append_left _ (by simp [bindings]; exact Or.inr ⟨b, hb, hpm⟩)) hno
      · rcases List.mem_cons.mp hb with rfl | hb
        · exact absurd (List.mem_append_right _ hpm) hno
        · exact ⟨b, hb, p, hp, hz⟩
    have hlinked : sa.Linked ((A ++ B₁) ++ c :: B₂) := by
      rw [List.append_assoc]
      exact hs.linked
    have hfwd : sa.fwdAt (some c.ptr) level = .ok (onLevel level (towers B₂)).head? :=
      hlinked.fwdAt hk
    cases hq : (onLevel level (towers B₂)).head? with
    | some q =>
        rw [hq] at hfwd
        refine Or.inr ⟨_, ⟨level, some c.ptr, some q, found, index⟩, ?_, fun fuel => ?_,
          Or.inr ⟨rfl, ?_⟩, A ++ B₁ ++ [c], B₂, by simp, hm, rfl, ?_⟩
        · simp only [List.length_append, List.length_cons]
          omega
        · simp only [SearchState.loop, searchLoop, hload, ok_bind, check_of_pos hcpos, hlast,
            if_neg hneg, if_pos hpos, hfwd, ne_eq, reduceCtorEq, not_false_eq_true, if_true]
        · exact hlinked.ahead hk hq
        · refine ⟨by simp, fun b hb => ?_, fun p hp => hbelow p (by simpa using hp), hq.symm,
            by simp, hfar⟩
          rw [List.getLast?_append, List.getLast?_singleton, Option.some_or] at hb
          rw [← Option.some.inj hb]
          exact hk
    | none =>
        rw [hq] at hfwd
        by_cases h0 : level = 0
        · subst h0
          have hnil : B₁ = [] := eq_nil_of_onLevel_zero hB₁ fun b hb => htops b (by simp [hb])
          have hnil₂ : B₂ = [] := eq_nil_of_onLevel_zero (List.head?_eq_none_iff.mp hq)
            fun b hb => htops b (by simp [hb])
          subst hnil hnil₂
          have hff : found = false := by
            cases found with
            | false => rfl
            | true => simpa using hfar rfl
          refine Or.inl ⟨_, fun fuel => ?_, ⟨found, some c.ptr, n.count⟩, rfl, A, c, [], rfl, rfl,
            fun h => by simp [hff] at h, fun _ => ?_⟩
          · simp only [SearchState.loop, searchLoop, hload, ok_bind, check_of_pos hcpos, hlast,
              if_neg hneg, if_pos hpos, hfwd, ne_eq, not_true_eq_false, if_false, if_true]
            rfl
          · simp only [hh.count, List.take_length, List.drop_length]
            refine ⟨le_refl _, fun p hp => hbelow p (by simpa using hp), by simp, by simp⟩
        · rcases List.eq_nil_or_concat A with rfl | ⟨A', a, rfl⟩
          · have hprev : prev = none := hbr.prev_eq
            rw [hprev] at hnext
            have hhead : sa.headAt (level - 1) = _ := hnext
            refine Or.inr ⟨_, ⟨level - 1, prev, down, found, index⟩, ?_, fun fuel => ?_, Or.inl ?_,
              [], _, rfl, ?_, rfl, hdown (Nat.sub_one_lt h0) hbr.prev_eq hbr.flagged hbelow₁⟩
            · simp only
              omega
            · simp only [SearchState.loop, searchLoop, hload, ok_bind, check_of_pos hcpos, hlast,
                if_neg hneg, if_pos hpos, hfwd, ne_eq, not_true_eq_false, if_false, if_neg h0,
                if_pos hprev, hhead]
            · exact Nat.sub_one_lt h0
            · simp only
              omega
          · rw [List.concat_eq_append] at *
            have hprev : prev = some a.ptr := by simpa using hbr.prev_eq
            have hlink := hs.linked
            rw [List.append_assoc, List.singleton_append] at hlink
            have hta := hbr.tall a (by simp)
            obtain ⟨level', hlt', hdesc, hne'⟩ := descend_spec hlink (by simp) (some c.ptr)
              (Nat.pos_of_ne_zero h0) (le_of_lt hta)
            refine Or.inr ⟨_, ⟨level', prev, (onLevel level' (towers (B₁ ++ c :: B₂))).head?, found, index⟩, ?_, fun fuel => ?_, Or.inl hlt',
              A' ++ [a], _, rfl, ?_, rfl, hdown hlt' hbr.prev_eq hbr.flagged hne'⟩
            · simp only
              omega
            · simp only [SearchState.loop, searchLoop, hload, ok_bind, check_of_pos hcpos, hlast,
                if_neg hneg, if_pos hpos, hfwd, ne_eq, not_true_eq_false, if_false, if_neg h0,
                hprev, reduceCtorEq, hdesc]
            · simp only
              omega
  · have hz : cmp key x.1 = 0 := by omega
    by_cases h0 : level = 0
    · subst h0
      have hnil : B₁ = [] := eq_nil_of_onLevel_zero hB₁ fun b hb => htops b (by simp [hb])
      subst hnil
      refine Or.inl ⟨_, fun fuel => ?_, ⟨true, some c.ptr, n.count - 1⟩, rfl, A, c, B₂, rfl, rfl,
        fun _ => ⟨x, ?_, hz⟩, fun h => by simp at h⟩
      · simp only [SearchState.loop, searchLoop, hload, ok_bind, check_of_pos hcpos, hlast,
          if_neg hneg, if_neg hpos, if_true]
        rfl
      · simp only [hh.count]
        rw [← List.getLast?_eq_getElem?]
        exact hx
    · refine Or.inr ⟨_, ⟨level - 1, prev, down, true, n.count - 1⟩, ?_, fun fuel => ?_, Or.inl ?_,
        A, _, rfl, ?_, rfl, hdown (Nat.sub_one_lt h0) hbr.prev_eq
          (fun _ => ⟨c, by simp, x, hx, hz⟩) hbelow₁⟩
      · simp only
        omega
      · simp only [SearchState.loop, searchLoop, hload, ok_bind, check_of_pos hcpos, hlast,
          if_neg hneg, if_neg hpos, if_neg h0, hnext]
      · exact Nat.sub_one_lt h0
      · simp only
        omega

end Loop

/-- Where the loop of `search` starts, when `sa` is not empty: at the first node
of the top level. -/
theorem SkipArray.Wf.search_start [Inhabited V] {sa : SkipArray K V} {bs : List (Block K V)}
    (hw : sa.Wf cmp bs) (key : K) : ∃ p n, sa.headAt (sa.height - 1) = .ok (some p) ∧
      sa.node? p = some n ∧ (n.count = 0 → ∃ c, bs = [c] ∧ c.ptr = p ∧ c.pairs = []) ∧
      (n.count ≠ 0 → Searchable cmp sa bs ∧
        SearchState.At cmp sa bs key (sa.height - 1 + bs.length)
          ⟨sa.height - 1, none, some p, false, 0⟩) := by
  obtain ⟨t, ht, hth⟩ := hw.tallest.2
  have htop := hw.linked.top t ht
  have hhead := hw.linked.headAt (i := sa.height - 1) (by omega)
  have hne := onLevel_towers_ne_nil (i := sa.height - 1) ht (by omega)
  obtain ⟨p, hp⟩ := Option.ne_none_iff_exists'.mp hne
  obtain ⟨ps, hps⟩ := List.head?_eq_some_iff.mp hp
  obtain ⟨B₁, c, B₂, hbs, rfl, hk, hB₁, -⟩ := onLevel_towers_cons hps
  obtain ⟨n, hn, hh⟩ := hw.stores c (by simp [hbs])
  rw [hp] at hhead
  refine ⟨c.ptr, n, hhead, hn, ?_, ?_⟩
  · intro hzero
    rw [hh.count, List.length_eq_zero_iff] at hzero
    exact ⟨c, hw.shape.eq_singleton (by simp [hbs]) hzero, rfl, hzero⟩
  · intro hzero
    have hnonempty := hw.shape.nonempty_of (c := c) (by simp [hbs]) fun hnil =>
      hzero (by rw [hh.count, hnil, List.length_nil])
    refine ⟨⟨hw.toSound, hnonempty⟩, [], bs, rfl, ?_, rfl, rfl, by simp, by simp, hp.symm, by simp,
      by simp⟩
    simp only
    omega

/-- `search` finds the position of every key. -/
theorem search_spec [Inhabited V] (hc : LawfulCmp cmp) {sa : SkipArray K V}
    {bs : List (Block K V)} (hw : sa.Wf cmp bs) (key : K) :
    ∃ r, search cmp sa key = .ok r ∧ ∃ A b C, Position cmp sa.nodeSize key bs A b C r := by
  obtain ⟨p, n, hhead, hn, hempty, hstart⟩ := hw.search_start key
  obtain ⟨t, ht, hth⟩ := hw.tallest.2
  have hpos : 1 ≤ sa.height := by
    have := (hw.linked.top t ht).1
    omega
  simp only [search, check_of_pos hpos, ok_bind, hhead, SkipArray.load_eq hn]
  by_cases hzero : n.count = 0
  · rw [if_pos hzero]
    obtain ⟨c, rfl, rfl, hnil⟩ := hempty hzero
    refine ⟨_, rfl, [], c, [], rfl, rfl, fun h => by simp at h, fun _ => ?_⟩
    simp [hnil]
  · rw [if_neg hzero]
    obtain ⟨hs, hat⟩ := hstart hzero
    obtain ⟨r, ⟨env, rfl, hposn⟩, hrun⟩ := winds_of_bound (search_turn hc hs) hat
    refine ⟨env, hrun.eq ?_, hposn⟩
    have := hw.linked.length_le
    simp only [SkipArray.budget]
    omega

end Skiparray
