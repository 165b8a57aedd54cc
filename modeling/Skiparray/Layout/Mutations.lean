import Skiparray.Layout.Reads
import Skiparray.Layout.Insert
import Skiparray.Layout.Balance

/-!
# Mutations of a well-formed skiparray

`skiparray_set_with_pair`, `skiparray_forget` and the two pops: each leaves a
well-formed skiparray whose bindings are those of the list operation, and
answers what the list says.
-/

namespace Skiparray

open SkipLinks Fallible Budget

variable {K V U : Type} [Inhabited K] [Inhabited V] {cmp : K → K → ℤ} {sa : SkipArray K V}
  {bs A C : List (Block K V)} {b : Block K V} {c : Ctx K V U}

/-- A mutation leaves a well-formed skiparray with bindings `l`. -/
structure Leaves (cmp : K → K → ℤ) (sa : SkipArray K V) (c : Ctx K V U) (sa' : SkipArray K V)
    (c' : Ctx K V U) (l : List (K × V)) : Prop where
  keeps : Keeps sa sa'
  freed : c'.freed = c.freed
  wf : ∃ bs, sa'.Wf cmp bs ∧ bindings bs = l

omit [Inhabited K] [Inhabited V] in
/-- Other contents of a node are no matter of memory. -/
theorem setNode_trades {n m : Node K V} (hn : sa.node? b.ptr = some n) (hs : n.SameLinks m)
    (off : ℕ) (ps : List (K × V)) (cb : Callbacks K U) :
    Trades cb c (sa.blocks (A ++ b :: C)) c
      ((sa.setNode b.ptr m).blocks (A ++ { b with offset := off, pairs := ps } :: C)) := by
  rw [SkipArray.blocks_setNode hn hs]
  exact .of_ptrs cb c sa (by simp)

/-! ## Set -/

omit [Inhabited K] in
/-- A block keeps its occupancy when its pairs are exchanged. -/
theorem SkipArray.Wf.exchange (h : sa.Wf cmp (A ++ b :: C)) {n m : Node K V}
    (hn : sa.node? b.ptr = some n) (hs : n.SameLinks m) {ps : List (K × V)}
    (hh : Holds sa.toSettings m { b with pairs := ps }) (hlen : ps.length = b.pairs.length)
    (hpos : b.pairs ≠ []) (hasc : Ascending cmp (bindings (A ++ { b with pairs := ps } :: C))) :
    (sa.setNode b.ptr m).Wf cmp (A ++ { b with pairs := ps } :: C) := by
  refine ⟨h.toSound.update hn hs hh (h.offset_lt b (by simp)) hasc, ?_⟩
  apply h.shape.grow (le_of_eq hlen.symm)
  rintro hnil
  apply hpos
  rw [← List.length_eq_zero_iff, ← hlen]
  exact List.length_eq_zero_iff.mpr hnil

omit [Inhabited K] in
/-- The branch of `skiparray_set_with_pair` that replaces a binding. -/
theorem replace_spec (hc : LawfulCmp cmp) (h : sa.Wf cmp (A ++ b :: C)) {i : ℕ} {p : K × V}
    (hp : b.pairs[i]? = some p) {key : K} (hk : cmp key p.1 = 0) (value : V) {n : Node K V}
    (hn : sa.node? b.ptr = some n) (hh : Holds sa.toSettings n b) :
    ∃ n', putPair sa n (n.offset + i) key value = .ok n' ∧ n.SameLinks n' ∧
      (sa.setNode b.ptr n').Wf cmp (A ++ { b with
        pairs := b.pairs.set i (key, sa.stored value) } :: C) ∧
      bindings (A ++ { b with pairs := b.pairs.set i (key, sa.stored value) } :: C) =
        (bindings A ++ b.pairs.take i) ++ (key, sa.stored value) ::
          (b.pairs.drop (i + 1) ++ bindings C) := by
  have hi := (List.getElem?_eq_some_iff.mp hp).1
  obtain ⟨n', hput, hh', hsame⟩ := putPair_spec hh hi key value
  have hbind : bindings (A ++ { b with pairs := b.pairs.set i (key, sa.stored value) } :: C) =
      (bindings A ++ b.pairs.take i) ++ (key, sa.stored value) ::
        (b.pairs.drop (i + 1) ++ bindings C) := by
    rw [bindings_at (b := { b with pairs := b.pairs.set i (key, sa.stored value) }) (i := i)
      (p := (key, sa.stored value)) (by simp [hi])]
    simp only [List.take_set_of_le (le_refl i), List.drop_set_of_lt (Nat.lt_succ_self i)]
  refine ⟨n', hput, hsame, h.exchange hn hsame hh' (by simp) ?_ ?_, hbind⟩
  · exact List.ne_nil_of_length_pos (by omega)
  · rw [hbind]
    have hasc := h.ascending
    rw [bindings_at hp] at hasc
    exact hasc.replace hc hk

/-- The blocks once pair `p` has gone in at `index` of `b`, which is split first
when it is full. -/
def bindBlocks (nodeSize : ℕ) (new : Ptr) (height : ℕ) (A : List (Block K V)) (b : Block K V)
    (C : List (Block K V)) (index : ℕ) (p : K × V) : List (Block K V) :=
  if b.pairs.length = nodeSize then
    if b.firstHalf.pairs.length < index then
      (A ++ [b.firstHalf]) ++ (b.secondHalf new height).insertPair nodeSize
        (index - b.firstHalf.pairs.length) p :: C
    else A ++ b.firstHalf.insertPair nodeSize index p :: b.secondHalf new height :: C
  else A ++ b.insertPair nodeSize index p :: C

omit [Inhabited K] [Inhabited V] in
/-- What lies before and behind a place in the second half. -/
theorem cut_secondHalf (A C : List (Block K V)) (new : Ptr) (height : ℕ) {i : ℕ} (hlt : b.firstHalf.pairs.length < i) :
    bindings (A ++ [b.firstHalf]) ++
        (b.secondHalf new height).pairs.take (i - b.firstHalf.pairs.length) =
      bindings A ++ b.pairs.take i ∧
    (b.secondHalf new height).pairs.drop (i - b.firstHalf.pairs.length) ++ bindings C =
      b.pairs.drop i ++ bindings C := by
  rw [length_firstHalf] at hlt ⊢
  simp only [Block.firstHalf, Block.secondHalf]
  constructor
  · rw [bindings_append, bindings_cons, bindings_nil, List.append_nil, List.append_assoc,
      ← List.take_add, Nat.add_sub_cancel' (le_of_lt hlt)]
  · rw [List.drop_drop, Nat.add_sub_cancel' (le_of_lt hlt)]

omit [Inhabited K] [Inhabited V] in
/-- What lies before and behind a place in the first half. -/
theorem cut_firstHalf (C : List (Block K V)) (new : Ptr) (height : ℕ) {i : ℕ} (hle : i ≤ b.firstHalf.pairs.length) :
    b.firstHalf.pairs.take i = b.pairs.take i ∧
    b.firstHalf.pairs.drop i ++ bindings (b.secondHalf new height :: C) =
      b.pairs.drop i ++ bindings C := by
  rw [length_firstHalf] at hle
  simp only [Block.firstHalf, Block.secondHalf, bindings_cons]
  constructor
  · rw [List.take_take, Nat.min_eq_left hle]
  · rw [← List.append_assoc, ← List.drop_append_of_le_length (by rw [List.length_take]; omega),
      List.take_append_drop]

omit [Inhabited K] [Inhabited V] in
theorem bindings_insertPair {nodeSize i : ℕ} {p : K × V} :
    bindings (A ++ b.insertPair nodeSize i p :: C) =
      (bindings A ++ b.pairs.take i) ++ p :: (b.pairs.drop i ++ bindings C) := by
  simp [Block.insertPair]

omit [Inhabited K] [Inhabited V] in
theorem bindings_bindBlocks (nodeSize : ℕ) (new : Ptr) (height i : ℕ) (p : K × V) :
    bindings (bindBlocks nodeSize new height A b C i p) =
      (bindings A ++ b.pairs.take i) ++ p :: (b.pairs.drop i ++ bindings C) := by
  unfold bindBlocks
  split_ifs with hfull hlt
  · obtain ⟨hpre, hpost⟩ := cut_secondHalf A C new height hlt
    rw [bindings_insertPair, hpre, hpost]
  · obtain ⟨htake, hdrop⟩ := cut_firstHalf C new height (Nat.le_of_not_lt hlt)
    rw [bindings_insertPair, htake, hdrop]
  · exact bindings_insertPair

/-- The branches of `skiparray_set_with_pair` that make a new binding, in a node
with room or in one of the halves of a full node. -/
theorem bind_spec (cb : Callbacks K U) (hc : LawfulCmp (cb.cmp sa.cmp))
    (h : sa.Wf (cb.cmp sa.cmp) (A ++ b :: C)) {i : ℕ} (hi : i ≤ b.pairs.length) {key : K}
    (hm : Assoc.Miss (cb.cmp sa.cmp) key (bindings A ++ b.pairs.take i)
      (b.pairs.drop i ++ bindings C)) (value : V) {n : Node K V}
    (hh : Holds sa.toSettings n b) (c : Ctx K V U) {height : ℕ}
    (hheight : height = newHeight sa.maxLevel (sa.nextLevel cb c)) :
    ∃ res sa' c', (if n.count = sa.nodeSize then do
        match ← splitAndLink cb sa c (some b.ptr) i with
        | (none, sa, c) => return (SetRes.errorMemory, (none : Option (K × V)), sa, c)
        | (some (p, index), sa, c) =>
          let sa ← insertAt sa p index key value
          return (.bound, none, sa, c)
      else do
        let sa ← insertAt sa (some b.ptr) i key value
        return (.bound, none, sa, c)) = .ok (res, none, sa', c') ∧ c'.freed = c.freed ∧
      (res = .errorMemory ∧ ¬ cb.AllGranted ∧ (∃ prngState, sa' = { sa with prngState }) ∧
          (∀ c₀ live, Ledger cb c₀ c live → Ledger cb c₀ c' live) ∨
        res = .bound ∧ Keeps sa sa' ∧ (Inherits sa sa' ∨ Gains height sa sa') ∧
          sa'.Wf (cb.cmp sa.cmp) (bindBlocks sa.nodeSize sa.heap.length height A b C i
            (key, sa.stored value)) ∧
          Trades cb c (sa.blocks (A ++ b :: C)) c' (sa'.blocks (bindBlocks sa.nodeSize
            sa.heap.length height A b C i (key, sa.stored value)))) := by
  by_cases hfull : b.pairs.length = sa.nodeSize
  · obtain ⟨r, sa₁, c₁, hsplit, hfreed, hkeep, hgrant, hnone, hsome⟩ :=
      splitAndLink_spec cb c hc h hfull i hheight
    simp only [hh.count, if_pos hfull, hsplit, ok_bind]
    cases r with
    | none =>
        obtain ⟨hsa, hled⟩ := hnone rfl
        exact ⟨_, sa₁, c₁, rfl, hfreed, Or.inl ⟨rfl, fun hg => hgrant hg rfl, hsa, hled⟩⟩
    | some place =>
        obtain ⟨rfl, hgain, hwf, htrades⟩ := hsome place rfl
        have htwo := h.settings.two_le
        have hset := hkeep.settings
        have hsize : sa₁.nodeSize = sa.nodeSize := congrArg Settings.nodeSize hset
        have hl₁ := length_firstHalf b
        have hl₂ := length_secondHalf b sa.heap.length height
        rw [bindBlocks, if_pos hfull]
        by_cases hlt : b.firstHalf.pairs.length < i
        · obtain ⟨hpre, hpost⟩ := cut_secondHalf A C sa.heap.length height hlt
          rw [List.append_cons] at hwf
          rw [List.append_cons A b.firstHalf] at htrades
          obtain ⟨sa₂, hins, hkeep₂, hinh, hwf₂, hblocks⟩ := insertAt_spec hwf
            (show i - b.firstHalf.pairs.length ≤ _ by omega) (by omega) value
            (by rw [hpre]; exact hm.lo) (by rw [hpost]; exact hm.hi)
          rw [hset] at hwf₂ hblocks
          rw [← hblocks] at htrades
          rw [if_pos hlt, if_pos hlt]
          have hins' : insertAt sa₁ (some sa.heap.length) (i - b.firstHalf.pairs.length) key
              value = .ok sa₂ := hins
          exact ⟨_, sa₂, c₁, by simp only [hins', ok_bind]; rfl, hfreed,
            Or.inr ⟨rfl, hkeep.trans hkeep₂, Or.inr (hgain.trans hinh), hwf₂, htrades⟩⟩
        · obtain ⟨htake, hdrop⟩ := cut_firstHalf C sa.heap.length height (Nat.le_of_not_lt hlt)
          obtain ⟨sa₂, hins, hkeep₂, hinh, hwf₂, hblocks⟩ := insertAt_spec hwf
            (show i ≤ b.firstHalf.pairs.length by omega) (by omega) value
            (by rw [htake]; exact hm.lo) (by rw [hdrop]; exact hm.hi)
          rw [hset] at hwf₂ hblocks
          rw [← hblocks] at htrades
          rw [if_neg hlt, if_neg hlt]
          have hins' : insertAt sa₁ (some b.ptr) i key value = .ok sa₂ := hins
          exact ⟨_, sa₂, c₁, by simp only [hins', ok_bind]; rfl, hfreed,
            Or.inr ⟨rfl, hkeep.trans hkeep₂, Or.inr (hgain.trans hinh), hwf₂, htrades⟩⟩
  · have hroom : b.pairs.length < sa.nodeSize := by
      have := hh.bound
      omega
    obtain ⟨sa₂, hins, hkeep, hinh, hwf, hblocks⟩ := insertAt_spec h hi hroom value hm.lo hm.hi
    simp only [hh.count, if_neg hfull, hins, ok_bind, bindBlocks]
    exact ⟨_, sa₂, c, rfl, rfl, Or.inr ⟨rfl, hkeep, Or.inl hinh, hwf, hblocks ▸ .refl _ _⟩⟩

/-- What `skiparray_set_with_pair` answers when memory suffices. -/
def setRes (found : Option (K × V)) : SetRes := if found.isSome then .replaced else .bound

omit [Inhabited K] [Inhabited V] in
theorem hasIterators_eq_false (h : sa.iter = none) : hasIterators sa = false := by
  rw [hasIterators, h]
  rfl

/-- What a call of `skiparray_set_with_pair` does to an unlocked skiparray. -/
inductive SetOutcome (cb : Callbacks K U) (sa : SkipArray K V) (bs : List (Block K V))
    (c : Ctx K V U) (key : K) (value : V) (replaceKey : Bool) :
    SetRes → Option (K × V) → SkipArray K V → Ctx K V U → Prop where
  | replaced {p : K × V} {sa' : SkipArray K V}
      (hfind : Assoc.find? (cb.cmp sa.cmp) key (bindings bs) = some p)
      (hl : Leaves (cb.cmp sa.cmp) sa c sa' c
        (Assoc.put (cb.cmp sa.cmp) key (sa.stored value) replaceKey (bindings bs)))
      (hinh : Inherits sa sa') : SetOutcome cb sa bs c key value replaceKey .replaced (some p) sa' c
  | memory {prngState : UInt64} {c' : Ctx K V U} (hg : ¬ cb.AllGranted)
      (hfind : Assoc.find? (cb.cmp sa.cmp) key (bindings bs) = none) (hfreed : c'.freed = c.freed)
      (hled : ∀ c₀ live, Ledger cb c₀ c live → Ledger cb c₀ c' live) :
      SetOutcome cb sa bs c key value replaceKey .errorMemory none { sa with prngState } c'
  | bound {r : SearchEnv} {A C : List (Block K V)} {b : Block K V} {sa' : SkipArray K V}
      {c' : Ctx K V U} (hfind : Assoc.find? (cb.cmp sa.cmp) key (bindings bs) = none)
      (hr : search (cb.cmp sa.cmp) sa key = .ok r) (hn : r.n = some b.ptr) (hbs : bs = A ++ b :: C)
      (hfreed : c'.freed = c.freed) (hkeep : Keeps sa sa')
      (hnodes : Inherits sa sa' ∨ Gains (newHeight sa.maxLevel (sa.nextLevel cb c)) sa sa')
      (hwf : sa'.Wf (cb.cmp sa.cmp) (bindBlocks sa.nodeSize sa.heap.length
        (newHeight sa.maxLevel (sa.nextLevel cb c)) A b C r.index (key, sa.stored value)))
      (hput : (bindings A ++ b.pairs.take r.index) ++ (key, sa.stored value) ::
          (b.pairs.drop r.index ++ bindings C) =
        Assoc.put (cb.cmp sa.cmp) key (sa.stored value) replaceKey (bindings bs)) :
      SetOutcome cb sa bs c key value replaceKey .bound none sa' c'

/-- `skiparray_set_with_pair` binds the key and answers the binding it found, or
fails for want of memory and leaves everything as it was. The memory of a new
node is all that comes into use. -/
theorem skiparraySetWithPair_memory (cb : Callbacks K U) (hc : LawfulCmp (cb.cmp sa.cmp))
    (h : sa.Wf (cb.cmp sa.cmp) bs) (hiter : sa.iter = none) (c : Ctx K V U) (key : K) (value : V)
    (replaceKey : Bool) :
    ∃ res prev sa' c', skiparraySetWithPair cb sa c key value replaceKey =
        .ok (res, prev, sa', c') ∧
      SetOutcome cb sa bs c key value replaceKey res prev sa' c' ∧
      ∃ bs', sa'.Wf (cb.cmp sa.cmp) bs' ∧ Trades cb c (sa.blocks bs) c' (sa'.blocks bs') := by
  obtain ⟨r, hr, A, b, C, hpos⟩ := search_spec hc h key
  have hsplit := hpos.split
  subst hsplit
  obtain ⟨n, hn, hh⟩ := h.stores b (by simp)
  simp only [skiparraySetWithPair, hasIterators_eq_false hiter, Bool.false_eq_true, if_false, hr,
    ok_bind, hpos.node, SkipArray.load_eq hn]
  cases hf : r.found with
  | true =>
      obtain ⟨p, hp, hk⟩ := hpos.hit hf
      have hhit := hpos.isHit h.ascending hp hk
      have hk' : cb.cmp sa.cmp (if replaceKey = true then key else p.1) p.1 = 0 := by
        split_ifs
        · exact hk
        · exact hc.refl p.1
      obtain ⟨n', hput, hsame, hwf, hbind⟩ := replace_spec hc h hp hk' value hn hh
      rw [if_pos rfl, hh.keyAt hp, ok_bind, hh.valueAt hp, ok_bind, hput, ok_bind,
        SkipArray.store, ok_bind]
      refine ⟨_, _, _, _, rfl, .replaced ?_ ⟨⟨rfl, rfl, rfl⟩, rfl, _, hwf, ?_⟩
        (Inherits.setNode hn hsame.height), _, hwf, ?_⟩
      · rw [bindings_at hp, hhit.find?_eq hc]
      · rw [hbind, bindings_at hp, hhit.put_eq hc]
      · exact setNode_trades hn hsame _ _ cb
  | false =>
      have hmiss := hpos.isMiss hf
      have hfind : Assoc.find? (cb.cmp sa.cmp) key (bindings (A ++ b :: C)) = none := by
        rw [bindings_between r.index, hmiss.find?_eq hc]
      obtain ⟨res, sa', c', heq, hfreed, hres⟩ :=
        bind_spec cb hc h (hpos.miss hf).1 hmiss value hh c rfl
      rw [if_neg (by simp)]
      rcases hres with ⟨rfl, hg, ⟨prng, rfl⟩, hled⟩ | ⟨rfl, hkeep, hnodes, hwf, htrades⟩
      · exact ⟨_, none, _, c', heq, .memory hg hfind hfreed hled, _,
          ⟨h.toSound.of_body rfl rfl rfl rfl, h.shape⟩, fun c₀ live => hled c₀ _⟩
      · refine ⟨_, none, sa', c', heq, .bound hfind hr hpos.node rfl hfreed hkeep hnodes hwf ?_, _,
          hwf, htrades⟩
        rw [bindings_between r.index, hmiss.put_eq hc]

theorem skiparraySetWithPair_spec (cb : Callbacks K U) (hc : LawfulCmp (cb.cmp sa.cmp))
    (h : sa.Wf (cb.cmp sa.cmp) bs) (hiter : sa.iter = none) (c : Ctx K V U) (key : K) (value : V)
    (replaceKey : Bool) :
    ∃ res prev sa' c', skiparraySetWithPair cb sa c key value replaceKey =
        .ok (res, prev, sa', c') ∧
      SetOutcome cb sa bs c key value replaceKey res prev sa' c' := by
  obtain ⟨res, prev, sa', c', heq, hout, -⟩ :=
    skiparraySetWithPair_memory cb hc h hiter c key value replaceKey
  exact ⟨res, prev, sa', c', heq, hout⟩

omit [Inhabited K] in
/-- In any case it leaves a well-formed skiparray. -/
theorem SetOutcome.leaves {cb : Callbacks K U} (h : sa.Wf (cb.cmp sa.cmp) bs) {key : K} {value : V}
    {replaceKey : Bool} {res : SetRes} {prev : Option (K × V)} {sa' : SkipArray K V}
    {c' : Ctx K V U} (hout : SetOutcome cb sa bs c key value replaceKey res prev sa' c') :
    res = .errorMemory ∧ ¬ cb.AllGranted ∧ prev = none ∧
        Leaves (cb.cmp sa.cmp) sa c sa' c' (bindings bs) ∨
      prev = Assoc.find? (cb.cmp sa.cmp) key (bindings bs) ∧ res = setRes prev ∧
        Leaves (cb.cmp sa.cmp) sa c sa' c'
          (Assoc.put (cb.cmp sa.cmp) key (sa.stored value) replaceKey (bindings bs)) := by
  cases hout with
  | replaced hfind hl hinh => exact Or.inr ⟨hfind.symm, rfl, hl⟩
  | memory hg hfind hfreed hled =>
      exact Or.inl ⟨rfl, hg, rfl, ⟨rfl, rfl, rfl⟩, hfreed, bs,
        ⟨h.toSound.of_body rfl rfl rfl rfl, h.shape⟩, rfl⟩
  | bound hfind hr hn hbs hfreed hkeep hnodes hwf hput =>
      refine Or.inr ⟨hfind.symm, rfl, hkeep, hfreed, _, hwf, ?_⟩
      rw [bindings_bindBlocks, hput]

/-! ## Forget -/

omit [Inhabited K] [Inhabited V] in
/-- Removing pair `i` of a block. -/
theorem bindings_erase {i : ℕ} {off : ℕ} :
    bindings (A ++ { b with offset := off, pairs := b.pairs.eraseIdx i } :: C) =
      (bindings A ++ b.pairs.take i) ++ (b.pairs.drop (i + 1) ++ bindings C) := by
  rw [bindings_append, bindings_cons, List.eraseIdx_eq_take_drop_succ]
  simp

omit [Inhabited K] in
/-- A block that is still half full, or last, needs no balancing. -/
theorem SkipArray.Sound.wf_of_half (h : sa.Sound cmp (A ++ b :: C)) (hs : ShapeBut sa.nodeSize A C)
    (hhalf : ¬ b.pairs.length < sa.nodeSize / 2) : sa.Wf cmp (A ++ b :: C) := by
  refine ⟨h, hs.shape (fun _ => by omega) ?_⟩
  rintro - hnil
  have htwo := h.settings.two_le
  rw [hnil, List.length_nil] at hhalf
  omega

omit [Inhabited K] in
/-- `skiparray_forget` drops the binding of the key's class and answers it. The
memory of a merged node goes out of use. -/
theorem skiparrayForget_memory (cb : Callbacks K U) (hc : LawfulCmp (cb.cmp sa.cmp))
    (h : sa.Wf (cb.cmp sa.cmp) bs) (hiter : sa.iter = none) (c : Ctx K V U) (key : K) :
    ∃ sa' c', skiparrayForget cb sa c key =
        .ok (if (Assoc.find? (cb.cmp sa.cmp) key (bindings bs)).isSome then .ok else .notFound,
          Assoc.find? (cb.cmp sa.cmp) key (bindings bs), sa', c') ∧
      Leaves (cb.cmp sa.cmp) sa c sa' c' (Assoc.erase (cb.cmp sa.cmp) key (bindings bs)) ∧
      Inherits sa sa' ∧
      ∃ bs', sa'.Wf (cb.cmp sa.cmp) bs' ∧ Trades cb c (sa.blocks bs) c' (sa'.blocks bs') := by
  obtain ⟨r, hr, A, b, C, hpos⟩ := search_spec hc h key
  have hsplit := hpos.split
  subst hsplit
  obtain ⟨n, hn, hh⟩ := h.stores b (by simp)
  simp only [skiparrayForget, hasIterators_eq_false hiter, Bool.false_eq_true, if_false, hr,
    ok_bind, hpos.node]
  cases hf : r.found with
  | false =>
      have hmiss := hpos.isMiss hf
      rw [if_neg (by simp), bindings_between r.index, hmiss.find?_eq hc, hmiss.erase_eq hc]
      exact ⟨sa, c, rfl, ⟨.refl sa, rfl, _, h, bindings_between r.index⟩, .refl sa, _, h, .refl _ _⟩
  | true =>
      obtain ⟨p, hp, hk⟩ := hpos.hit hf
      have hhit := hpos.isHit h.ascending hp hk
      have hi := (List.getElem?_eq_some_iff.mp hp).1
      obtain ⟨n', off, hrem, hoff, hh', hsame⟩ :=
        removeAt_spec h.settings hh (h.offset_lt b (by simp)) hi
      have hasc : Ascending (cb.cmp sa.cmp) (bindings (A ++ { b with
          offset := off, pairs := b.pairs.eraseIdx r.index } :: C)) := by
        have hall := h.ascending
        rw [bindings_at hp] at hall
        rw [bindings_erase]
        exact hall.sublist (by simp)
      have hsound := h.toSound.update hn hsame hh' hoff hasc
      have hinh := Inherits.setNode hn hsame.height
      have hmem := setNode_trades hn hsame (c := c) (A := A) (C := C) off
        (b.pairs.eraseIdx r.index)
      rw [if_pos rfl, SkipArray.load_eq hn, ok_bind, hh.count, check_of_pos hi, ok_bind,
        hh.keyAt hp, ok_bind, hh.valueAt hp, ok_bind, hrem, ok_bind, bindings_at hp,
        hhit.find?_eq hc, hhit.erase_eq hc, ← bindings_erase]
      by_cases hless : n'.count < (sa.setNode b.ptr n').nodeSize / 2
      · have hlen := hless
        rw [hh'.count] at hlen
        obtain ⟨sa', c', bs', hbal, hfreed, hkeep, hinh', hwf, hbind, htrades⟩ :=
          shiftOrMerge_spec hc hsound h.shape.but hlen c
        refine ⟨sa', c', ?_, ⟨⟨hkeep.settings, hkeep.iter, hkeep.iters⟩, hfreed, bs', hwf, hbind⟩,
          hinh.trans hinh', bs', hwf, (hmem cb).trans (htrades cb)⟩
        change shiftOrMerge (cb.cmp (sa.setNode b.ptr n').cmp) _ _ _ = _ at hbal
        rw [if_pos hless, hbal]
        rfl
      · have hhalf := hless
        rw [hh'.count] at hhalf
        rw [if_neg hless]
        exact ⟨_, _, rfl, ⟨⟨rfl, rfl, rfl⟩, rfl, _, hsound.wf_of_half h.shape.but hhalf, rfl⟩, hinh,
          _, hsound.wf_of_half h.shape.but hhalf, hmem cb⟩

omit [Inhabited K] in
theorem skiparrayForget_spec (cb : Callbacks K U) (hc : LawfulCmp (cb.cmp sa.cmp))
    (h : sa.Wf (cb.cmp sa.cmp) bs) (hiter : sa.iter = none) (c : Ctx K V U) (key : K) :
    ∃ sa' c', skiparrayForget cb sa c key =
        .ok (if (Assoc.find? (cb.cmp sa.cmp) key (bindings bs)).isSome then .ok else .notFound,
          Assoc.find? (cb.cmp sa.cmp) key (bindings bs), sa', c') ∧
      Leaves (cb.cmp sa.cmp) sa c sa' c' (Assoc.erase (cb.cmp sa.cmp) key (bindings bs)) ∧
      Inherits sa sa' := by
  obtain ⟨sa', c', heq, hl, hinh, -⟩ := skiparrayForget_memory cb hc h hiter c key
  exact ⟨sa', c', heq, hl, hinh⟩

/-! ## The pops -/

omit [Inhabited K] in
/-- The value a pop reads before it removes the pair. -/
theorem outValue_eq {n : Node K V} {i : ℕ} {v : V} (hv : sa.valueAt n i = .ok v) :
    (if sa.useValues then some <$> sa.valueAt n i else pure none) = .ok (sa.out v) := by
  rw [hv]
  cases hu : sa.useValues <;> simp [Settings.out, hu]

omit [Inhabited K] in
theorem SkipArray.Wf.empty_alone (h : sa.Wf cmp (b :: C)) (hb : b.pairs = []) : C = [] := by
  have := h.shape.eq_singleton (c := b) (by simp) hb
  simpa using this

omit [Inhabited K] in
/-- `skiparray_pop_first` drops the first binding and answers it. The memory of a
merged node goes out of use. -/
theorem skiparrayPopFirst_memory (h : sa.Wf cmp bs) (hiter : sa.iter = none) (c : Ctx K V U) :
    ∃ sa' c', skiparrayPopFirst sa c =
        .ok ((outPair sa.toSettings .ok .empty (bindings bs).head?).1,
          (outPair sa.toSettings PopRes.ok .empty (bindings bs).head?).2.1,
          (outPair sa.toSettings PopRes.ok .empty (bindings bs).head?).2.2, sa', c') ∧
      Leaves cmp sa c sa' c' (bindings bs).tail ∧ Inherits sa sa' ∧
      ∃ bs', sa'.Wf cmp bs' ∧
        ∀ cb : Callbacks K U, Trades cb c (sa.blocks bs) c' (sa'.blocks bs') := by
  obtain ⟨b, C, rfl⟩ := List.exists_cons_of_ne_nil h.tallest.ne_nil
  obtain ⟨n, hn, hh⟩ := h.stores b (by simp)
  have hl : sa.Linked ([] ++ b :: C) := h.linked
  simp only [skiparrayPopFirst, hasIterators_eq_false hiter, Bool.false_eq_true, if_false,
    h.linked.first h.settings.pos, ok_bind, List.map_cons, List.head?_cons, SkipArray.load_eq hn,
    hh.count, hl.next]
  cases hb : b.pairs with
  | nil =>
      have hnil := h.empty_alone hb
      subst hnil
      refine ⟨sa, c, ?_, ⟨.refl sa, rfl, _, h, by simp [hb]⟩, .refl sa, _, h, fun cb => .refl _ _⟩
      rw [List.length_nil, if_pos rfl, List.map_nil, List.head?_nil, check_of_pos rfl]
      simp [hb, outPair]
  | cons p ps =>
      have hp : b.pairs[0]? = some p := by simp [hb]
      have hk := hh.keyAt hp
      have hv := hh.valueAt hp
      rw [Nat.add_zero] at hk hv
      obtain ⟨off, hoff, hh', hsame⟩ :=
        dropFirst_spec h.settings hh (List.ne_nil_of_length_pos (by simp [hb]))
      have hdrop : b.pairs.drop 1 = ps := by simp [hb]
      rw [hdrop] at hh'
      have hasc : Ascending cmp (bindings ([] ++ { b with offset := off, pairs := ps } :: C)) := by
        refine h.ascending.sublist ?_
        simp [hb]
      have hsound := SkipArray.Sound.update (A := []) h.toSound hn hsame hh' hoff hasc
      have hinh := Inherits.setNode hn hsame.height
      have hmem := fun cb : Callbacks K U => setNode_trades hn hsame (c := c) (A := []) (C := C) off ps cb
      have hl' : (sa.setNode b.ptr (dropFirst sa.nodeSize n)).Linked
          ([] ++ { b with offset := off, pairs := ps } :: C) := hsound.linked
      have hbut : ShapeBut sa.nodeSize [] C := Shape.but (A := []) h.shape
      rw [List.length_cons, if_neg (Nat.succ_ne_zero _), hk, ok_bind, outValue_eq hv, ok_bind,
        SkipArray.store, ok_bind, hl'.next, ok_bind]
      simp only [bindings_cons, hb, List.cons_append, List.head?_cons, List.tail_cons, outPair]
      cases C with
      | nil =>
          refine ⟨_, c, rfl,
            ⟨⟨rfl, rfl, rfl⟩, rfl, _, ⟨hsound, hbut.shape (by simp) (by simp)⟩, ?_⟩, hinh, _,
            ⟨hsound, hbut.shape (by simp) (by simp)⟩, hmem⟩
          simp
      | cons x C =>
          simp only [List.map_cons, List.head?_cons]
          by_cases hless : (dropFirst sa.nodeSize n).count <
              (sa.setNode b.ptr (dropFirst sa.nodeSize n)).nodeSize / 2
          · have hlen := hless
            rw [hh'.count] at hlen
            obtain ⟨sa', c', bs', hbal, hfreed, hkeep, hinh', hwf, hbind, htrades⟩ :=
              popFirstBalance_spec hsound hbut hlen c
            refine ⟨sa', c', ?_, ⟨⟨hkeep.settings, hkeep.iter, hkeep.iters⟩, hfreed, bs', hwf, hbind⟩,
              hinh.trans hinh', bs', hwf, fun cb => (hmem cb).trans (htrades cb)⟩
            change popFirstBalance _ _ b.ptr x.ptr = _ at hbal
            rw [if_pos hless, hbal]
            rfl
          · have hhalf := hless
            rw [hh'.count] at hhalf
            rw [if_neg hless]
            exact ⟨_, _, rfl, ⟨⟨rfl, rfl, rfl⟩, rfl, _, hsound.wf_of_half hbut hhalf, rfl⟩, hinh, _,
              hsound.wf_of_half hbut hhalf, hmem⟩

omit [Inhabited K] in
theorem skiparrayPopFirst_spec (h : sa.Wf cmp bs) (hiter : sa.iter = none) (c : Ctx K V U) :
    ∃ sa' c', skiparrayPopFirst sa c =
        .ok ((outPair sa.toSettings .ok .empty (bindings bs).head?).1,
          (outPair sa.toSettings PopRes.ok .empty (bindings bs).head?).2.1,
          (outPair sa.toSettings PopRes.ok .empty (bindings bs).head?).2.2, sa', c') ∧
      Leaves cmp sa c sa' c' (bindings bs).tail ∧ Inherits sa sa' := by
  obtain ⟨sa', c', heq, hl, hinh, -⟩ := skiparrayPopFirst_memory h hiter c
  exact ⟨sa', c', heq, hl, hinh⟩

omit [Inhabited K] in
/-- Each iteration of the walk of `skiparray_pop_last` ends at the last block, or
goes down or on to a later block. -/
theorem popLast_turn (h : sa.Sound cmp bs) {last : Block K V} (hlast : bs.getLast? = some last)
    (n : ℕ) (s : ℕ × Option Ptr) (hat : LastAt bs n s) :
    (∃ r, Stops (fun fuel s => popLastLoop sa fuel s.1 s.2) s r ∧ r = .ok (some last.ptr)) ∨
      ∃ m s', m < n ∧ Turns (fun fuel s => popLastLoop sa fuel s.1 s.2) s s' ∧ sa.onward s s' ∧
        LastAt bs m s' := by
  obtain ⟨level, cur⟩ := s
  obtain ⟨A, a, C, hsplit, hlevel, hcur, rfl⟩ := hat
  simp only at hlevel hcur
  subst hcur
  have hl := h.linked
  rw [hsplit] at hl
  have hfwd := hl.fwdAt hlevel
  have hnext := hl.next
  cases hps : onLevel level (towers C) with
  | cons p ps =>
      obtain ⟨B₁, c, B₂, rfl, rfl, hc, -, -⟩ := onLevel_towers_cons hps
      rw [hps, List.head?_cons] at hfwd
      refine Or.inr ⟨_, (level, some c.ptr), ?_, fun fuel => ?_, Or.inr ⟨rfl, ?_⟩, A ++ a :: B₁, c,
        B₂, by simp [hsplit], hc, rfl, rfl⟩
      · simp only [List.length_append, List.length_cons]
        omega
      · show popLastLoop sa (fuel + 1) level (some a.ptr) = _
        rw [popLastLoop, hfwd, ok_bind, if_neg (by simp)]
      · exact hl.ahead hlevel (by rw [hps]; rfl)
  | nil =>
      rw [hps, List.head?_nil] at hfwd
      by_cases hC : C = []
      · subst hC
        rw [hsplit, List.getLast?_append] at hlast
        refine Or.inl ⟨_, fun fuel => ?_, rfl⟩
        show popLastLoop sa (fuel + 1) level (some a.ptr) = _
        rw [popLastLoop, hfwd, ok_bind, if_pos rfl, hnext, ok_bind,
          List.map_nil, List.head?_nil, if_pos (Or.inl rfl), ← Option.some.inj hlast]
        rfl
      · have h0 : level ≠ 0 := by
          rintro rfl
          exact hC (eq_nil_of_onLevel_zero hps fun x hx => (hl.top x (by simp [hx])).1)
        refine Or.inr ⟨_, (level - 1, some a.ptr), ?_, fun fuel => ?_, Or.inl (Nat.sub_one_lt h0),
          A, a, C, hsplit, ?_, rfl, rfl⟩
        · simp only
          omega
        · show popLastLoop sa (fuel + 1) level (some a.ptr) = _
          rw [popLastLoop, hfwd, ok_bind, if_pos rfl, hnext, ok_bind, if_neg (by simp [hC, h0])]
        · simp only
          omega

omit [Inhabited K] in
/-- The last block has lost its last pair and is unlinked. -/
theorem unlinkEmptied_spec (hc : LawfulCmp cmp) {a dead : Block K V}
    (h : sa.Sound cmp (A ++ a :: [dead])) (hnil : dead.pairs = [])
    (hs : ShapeBut sa.nodeSize (A ++ [a]) []) (c : Ctx K V U) :
    ∃ sa' c', unlinkNode cmp sa c dead.ptr = .ok (sa', c') ∧ Removes sa c dead.ptr sa' c' ∧
      sa'.Wf cmp (A ++ [a]) := by
  have hbind : bindings (A ++ [a]) = bindings (A ++ a :: [dead]) := by simp [hnil]
  have hsub : ∀ x ∈ A ++ [a], x ∈ A ++ a :: [dead] := by
    intro x hx
    rcases List.mem_append.mp hx with hx | hx
    · simp [hx]
    · rw [List.mem_singleton.mp hx]
      simp
  have hu : Unlinking cmp sa A a dead [] := by
    refine ⟨h.settings, h.linked.nodesLen, fun x hx => h.stores x (hsub x hx), h.linked.alive,
      h.linked.top, ?_, fun x hx => h.offset_lt x (hsub x hx), ?_, h.linked.spells.nodup⟩
    · intro x hx
      exact hs.nonempty x (by simpa using hx)
    · rw [hbind]
      exact h.ascending
  obtain ⟨sa', c', hun, hrem, hsound⟩ := unlinkNode_spec hc hu h.linked h.tallest (c := c)
  refine ⟨sa', c', hun, hrem, hsound, ?_⟩
  rw [hrem.keeps.settings, shape_middle_iff]
  refine ⟨⟨fun x hx => hs.before x (by simp [hx]), by simp, by simp⟩, fun _ => ⟨?_, ?_⟩⟩
  · exact hs.nonempty a (by simp)
  · intro x hx
    rw [List.append_nil] at hx
    exact hs.nonempty x (by simp [hx])

omit [Inhabited K] in
/-- What `skiparray_pop_last` does to the last block, from its node on: the last pair
goes, and where it was the only one and the block is not, `unlink_node` is left with
the rest. -/
theorem skiparrayPopLast_eq (cb : Callbacks K U) {b : Block K V} {ps : List (K × V)} {p : K × V}
    {n : Node K V} (h : sa.Wf (cb.cmp sa.cmp) (A ++ [b])) (hiter : sa.iter = none)
    (hheight : sa.height ≤ 128) (hps : b.pairs = ps ++ [p]) (hn : sa.node? b.ptr = some n)
    (c : Ctx K V U) :
    (sa.setNode b.ptr { n with count := ps.length }).Sound (cb.cmp sa.cmp)
        (A ++ [{ b with pairs := ps }]) ∧
      (ps = [] ∧ A ≠ [] → skiparrayPopLast cb sa c =
        unlinkNode (cb.cmp sa.cmp) (sa.setNode b.ptr { n with count := ps.length }) c b.ptr >>=
          fun r => .ok (.ok, some p.1, sa.toSettings.out p.2, r.1, r.2)) ∧
      (¬ (ps = [] ∧ A ≠ []) → skiparrayPopLast cb sa c =
        .ok (.ok, some p.1, sa.toSettings.out p.2, sa.setNode b.ptr { n with count := ps.length },
          c)) := by
  obtain ⟨n', hn', hh⟩ := h.stores b (by simp)
  obtain rfl : n = n' := Option.some.inj (hn.symm.trans hn')
  obtain ⟨first, rest, hfirst⟩ := List.exists_cons_of_ne_nil h.tallest.ne_nil
  have hfl := h.linked
  have hfs := h.stores
  rw [hfirst] at hfl hfs
  obtain ⟨nf, hnf, hhf⟩ := hfs first (by simp)
  have hfl' : sa.Linked ([] ++ first :: rest) := hfl
  have hempty : first.pairs ≠ [] := by
    intro hnil
    have hwf := h
    rw [hfirst] at hwf
    have hrest := hwf.empty_alone hnil
    subst hrest
    have hlen := congrArg List.length hfirst
    obtain rfl : A = [] := List.length_eq_zero_iff.mp (by simpa using hlen)
    obtain rfl : b = first := (List.cons.inj hfirst).1
    rw [hps] at hnil
    simp at hnil
  have hpos := h.toSound.topmost.1
  obtain ⟨a, hhead, hstart⟩ := h.toSound.last_start
  have hlevel : i8 ((sa.height : ℤ) - 1) = (sa.height - 1 : ℕ) := by
    rw [show (sa.height : ℤ) - 1 = ((sa.height - 1 : ℕ) : ℤ) by omega]
    exact i8_of_lt (by omega)
  obtain ⟨m, hat, hm⟩ := hstart
  have hend : (A ++ [b]).getLast? = some b := by simp
  obtain ⟨-, rfl, hw⟩ := winds_of_bound (popLast_turn h.toSound hend) hat
  have hloop : popLastLoop sa sa.budget (sa.height - 1) (some a) = .ok (some b.ptr) :=
    hw.eq hm
  have hplen : b.pairs.length = ps.length + 1 := by simp [hps]
  have hlast : b.pairs.getLast? = some p := by simp [hps]
  have hp : b.pairs[b.pairs.length - 1]? = some p := by
    rw [← List.getLast?_eq_getElem?, hlast]
  have hv := hh.valueAt hp
  rw [← Nat.add_sub_assoc (by omega), ← hh.count] at hv
  have hh' := hh.take (b.pairs.length - 1)
  have htake : b.pairs.take (b.pairs.length - 1) = ps := by simp [hps]
  have hcnt : n.count - 1 = ps.length := by
    rw [hh.count, hplen]
    rfl
  rw [htake] at hh'
  have hsame : n.SameLinks { n with count := ps.length } := ⟨rfl, rfl, rfl, rfl⟩
  have hasc : Ascending (cb.cmp sa.cmp) (bindings (A ++ [{ b with pairs := ps }])) := by
    refine h.ascending.sublist ?_
    simp [hps]
  have hsound := h.toSound.update hn hsame hh' (h.offset_lt b (by simp)) hasc
  -- it is the first block just when there is no other
  have hiff : ps.length = 0 ∧ some first.ptr ≠ some b.ptr ↔ ps = [] ∧ A ≠ [] := by
    rw [List.length_eq_zero_iff, and_congr_right_iff]
    intro _
    cases A with
    | nil =>
        rw [List.nil_append, List.cons.injEq] at hfirst
        simp [hfirst.1]
    | cons x A =>
        rw [List.cons_append, List.cons.injEq] at hfirst
        have hne := h.linked.ptr_ne (x := x) (A := x :: A) (C := []) (by simp)
        rw [hfirst.1] at hne
        simpa using hne
  simp only [skiparrayPopLast, hasIterators_eq_false hiter, Bool.false_eq_true, if_false,
    hfl.first h.settings.pos, ok_bind, List.map_cons, List.head?_cons, SkipArray.load_eq hnf,
    hhf.count]
  rw [if_neg (by simpa using hempty), hlevel, if_neg (by omega), Int.toNat_natCast, hhead,
    ok_bind, check_of_pos (by simp), ok_bind, hloop, ok_bind]
  simp only [h.linked.next (C := []), List.map_nil, List.head?_nil, ok_bind, check_of_pos,
    SkipArray.load_eq hn, hh.lastKey hlast, outValue_eq hv]
  rw [check_of_pos (show 0 < n.count by rw [hh.count]; omega), ok_bind, hcnt]
  refine ⟨hsound, ?_, ?_⟩
  · intro hunlink
    rw [if_pos (hiff.mpr hunlink)]
    rfl
  · intro hstay
    rw [if_neg (mt hiff.mp hstay)]
    rfl

omit [Inhabited K] in
/-- From an empty skiparray, `skiparray_pop_last` takes nothing. -/
theorem skiparrayPopLast_empty (cb : Callbacks K U) {b : Block K V} (h : sa.Wf cmp [b])
    (hiter : sa.iter = none) (hempty : b.pairs = []) (c : Ctx K V U) :
    skiparrayPopLast cb sa c = .ok (.empty, none, none, sa, c) := by
  obtain ⟨n, hn, hh⟩ := h.stores b (by simp)
  have hl : sa.Linked ([] ++ [b]) := h.linked
  simp only [skiparrayPopLast, hasIterators_eq_false hiter, Bool.false_eq_true, if_false,
    h.linked.first h.settings.pos, ok_bind, List.map_cons, List.head?_cons, SkipArray.load_eq hn,
    hh.count, hl.next, hempty, List.length_nil, if_true, List.map_nil, List.head?_nil,
    check_of_pos]
  rfl

omit [Inhabited K] in
/-- `skiparray_pop_last` drops the last binding and answers it, as long as its
level counter does not overflow. The memory of a node that has become empty goes
out of use. -/
theorem skiparrayPopLast_memory (cb : Callbacks K U) (hc : LawfulCmp (cb.cmp sa.cmp))
    (h : sa.Wf (cb.cmp sa.cmp) bs) (hiter : sa.iter = none)
    (hheight : bindings bs ≠ [] → sa.height ≤ 128) (c : Ctx K V U) :
    ∃ sa' c', skiparrayPopLast cb sa c =
        .ok ((outPair sa.toSettings .ok .empty (bindings bs).getLast?).1,
          (outPair sa.toSettings PopRes.ok .empty (bindings bs).getLast?).2.1,
          (outPair sa.toSettings PopRes.ok .empty (bindings bs).getLast?).2.2, sa', c') ∧
      Leaves (cb.cmp sa.cmp) sa c sa' c' (bindings bs).dropLast ∧ Inherits sa sa' ∧
      ∃ bs', sa'.Wf (cb.cmp sa.cmp) bs' ∧ Trades cb c (sa.blocks bs) c' (sa'.blocks bs') := by
  obtain ⟨A, b, rfl⟩ : ∃ A b, bs = A ++ [b] := by
    rcases List.eq_nil_or_concat bs with hnil | ⟨A, b, hbs⟩
    · exact absurd hnil h.tallest.ne_nil
    · exact ⟨A, b, by rw [hbs, List.concat_eq_append]⟩
  obtain ⟨n, hn, -⟩ := h.stores b (by simp)
  rcases List.eq_nil_or_concat b.pairs with hempty | ⟨ps, p, hps⟩
  · -- the block is the only one
    have hbs := h.shape.eq_singleton (c := b) (by simp) hempty
    rw [hbs] at h ⊢
    refine ⟨sa, c, ?_, ⟨.refl sa, rfl, _, h, by simp [hempty]⟩, .refl sa, _, h, .refl _ _⟩
    rw [skiparrayPopLast_empty cb h hiter hempty]
    simp [hempty, outPair]
  · rw [List.concat_eq_append] at hps
    have hbind : (bindings (A ++ [b])).dropLast = bindings (A ++ [{ b with pairs := ps }]) := by
      simp only [bindings_append, bindings_cons, bindings_nil, List.append_nil, hps]
      rw [← List.append_assoc, List.dropLast_concat]
    have hgl : (bindings (A ++ [b])).getLast? = some p := by
      rw [← h.last_pair, hps, List.getLast?_concat]
    obtain ⟨hsound, hunlink, hstay⟩ :=
      skiparrayPopLast_eq cb h hiter (hheight (by simp [hps])) hps hn c
    rw [hgl, hbind]
    have hinh : Inherits sa (sa.setNode b.ptr { n with count := ps.length }) :=
      Inherits.setNode hn rfl
    have hmem := setNode_trades hn (show n.SameLinks { n with count := ps.length } from
      ⟨rfl, rfl, rfl, rfl⟩) (c := c) (A := A) (C := []) b.offset ps cb
    have hbut : ShapeBut sa.nodeSize A [] := Shape.but h.shape
    by_cases hgoes : ps = [] ∧ A ≠ []
    · obtain ⟨A', a', hA⟩ := List.eq_nil_or_concat A |>.resolve_left hgoes.2
      rw [List.concat_eq_append] at hA
      subst hA
      have hnodup := hsound.linked.ptr_nodup
      rw [← List.append_cons] at hsound
      obtain ⟨sa', c', hun, hrem, hwf⟩ := unlinkEmptied_spec hc hsound hgoes.1 hbut c
      have hkeep := hrem.keeps
      refine ⟨sa', c', ?_, ⟨⟨hkeep.settings, hkeep.iter, hkeep.iters⟩, hrem.freed, _, hwf, ?_⟩,
        hinh.trans hrem.inherits, _, hwf, hmem.trans (hrem.trades cb ?_ hnodup)⟩
      · rw [hunlink hgoes]
        exact bind_eq_ok.mpr ⟨_, hun, rfl⟩
      · simp [hgoes.1]
      · rw [List.map_append]
        exact List.perm_append_singleton _ _
    · have hshape : Shape sa.nodeSize (A ++ [{ b with pairs := ps }]) := by
        apply hbut.shape (by simp)
        rintro hA rfl
        exact hgoes ⟨rfl, by simpa using hA⟩
      exact ⟨_, c, hstay hgoes, ⟨⟨rfl, rfl, rfl⟩, rfl, _, ⟨hsound, hshape⟩, rfl⟩, hinh, _,
        ⟨hsound, hshape⟩, hmem⟩

omit [Inhabited K] in
theorem skiparrayPopLast_spec (cb : Callbacks K U) (hc : LawfulCmp (cb.cmp sa.cmp))
    (h : sa.Wf (cb.cmp sa.cmp) bs) (hiter : sa.iter = none)
    (hheight : bindings bs ≠ [] → sa.height ≤ 128) (c : Ctx K V U) :
    ∃ sa' c', skiparrayPopLast cb sa c =
        .ok ((outPair sa.toSettings .ok .empty (bindings bs).getLast?).1,
          (outPair sa.toSettings PopRes.ok .empty (bindings bs).getLast?).2.1,
          (outPair sa.toSettings PopRes.ok .empty (bindings bs).getLast?).2.2, sa', c') ∧
      Leaves (cb.cmp sa.cmp) sa c sa' c' (bindings bs).dropLast ∧ Inherits sa sa' := by
  obtain ⟨sa', c', heq, hl, hinh, -⟩ := skiparrayPopLast_memory cb hc h hiter hheight c
  exact ⟨sa', c', heq, hl, hinh⟩

omit [Inhabited K] in
/-- Beyond height 128 the level counter is negative, and out of bounds. -/
theorem skiparrayPopLast_overflow (cb : Callbacks K U) (h : sa.Wf cmp bs) (hiter : sa.iter = none)
    (hne : bindings bs ≠ []) (hheight : 128 < sa.height) (c : Ctx K V U) :
    skiparrayPopLast cb sa c = .error .bounds := by
  obtain ⟨b, C, rfl⟩ := List.exists_cons_of_ne_nil h.tallest.ne_nil
  obtain ⟨n, hn, hh⟩ := h.stores b (by simp)
  have hl : sa.Linked ([] ++ b :: C) := h.linked
  have hmax := h.toSound.height_le
  have hlt := h.settings.maxLevel_lt
  have hb : b.pairs.length ≠ 0 := by
    intro hzero
    have hnil := List.length_eq_zero_iff.mp hzero
    apply hne
    rw [h.shape.eq_singleton (c := b) (by simp) hnil]
    simp [hnil]
  have hlevel : i8 ((sa.height : ℤ) - 1) < 0 := by
    rw [show (sa.height : ℤ) - 1 = ((sa.height - 1 : ℕ) : ℤ) by omega]
    exact i8_neg (by omega) (by omega)
  simp only [skiparrayPopLast, hasIterators_eq_false hiter, Bool.false_eq_true, if_false,
    h.linked.first h.settings.pos, ok_bind, List.map_cons, List.head?_cons, SkipArray.load_eq hn,
    hh.count, if_neg hb, if_pos hlevel]

end Skiparray
