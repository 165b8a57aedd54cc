import Skiparray.Layout.Block
import Skiparray.Model.Pop

/-!
# What the buffer operations do to a block

Each operation on a node's buffers is a list operation on the pairs of its
block; the links and the memory of the node stay as they are.
-/

namespace Skiparray

open Window Fallible

variable {K V U : Type}

/-- `m` is `n` with other buffer contents. -/
structure Node.SameLinks (n m : Node K V) : Prop where
  height : m.height = n.height
  back : m.back = n.back
  fwd : m.fwd = n.fwd
  blocks : m.blocks = n.blocks

theorem Node.SameLinks.refl (n : Node K V) : n.SameLinks n := ⟨rfl, rfl, rfl, rfl⟩

theorem Node.SameLinks.trans {n₁ n₂ n₃ : Node K V} (h₁ : n₁.SameLinks n₂)
    (h₂ : n₂.SameLinks n₃) : n₁.SameLinks n₃ :=
  ⟨h₂.height.trans h₁.height, h₂.back.trans h₁.back, h₂.fwd.trans h₁.fwd,
    h₂.blocks.trans h₁.blocks⟩

theorem Node.blocks_map (n : Node K V) (keys : List K) (f : List V → List V) (off cnt : ℕ) :
    ({ n with keys, values := n.values.map f, offset := off, count := cnt } : Node K V).blocks =
      n.blocks := by
  cases hv : n.values <;> simp [Node.blocks, hv]

variable [Inhabited V] {s : Settings} {n m : Node K V} {b c : Block K V} {idx j k : ℕ}

/-- What a setting without values stores for a value. -/
def Settings.stored (s : Settings) (v : V) : V := if s.useValues then v else default

/-! ## Prefixes and suffixes -/

theorem Holds.take (h : Holds s n b) (k : ℕ) :
    Holds s { n with count := (b.pairs.take k).length } { b with pairs := b.pairs.take k } where
  offset := h.offset
  count := rfl
  keys := by
    rw [List.map_take]
    exact h.keys.take k
  valuesSome hu := by
    obtain ⟨vs, hvs, hl⟩ := h.valuesSome hu
    refine ⟨vs, hvs, ?_⟩
    rw [List.map_take]
    exact hl.take k
  valuesNone hu := ⟨(h.valuesNone hu).1, fun p hp =>
    (h.valuesNone hu).2 p (List.mem_of_mem_take hp)⟩

theorem Holds.drop (h : Holds s n b) (hk : k ≤ b.pairs.length) :
    Holds s { n with offset := b.offset + k, count := b.pairs.length - k }
      { b with offset := b.offset + k, pairs := b.pairs.drop k } where
  offset := rfl
  count := by rw [List.length_drop]
  keys := by
    rw [List.map_drop]
    exact h.keys.drop (by simpa using hk)
  valuesSome hu := by
    obtain ⟨vs, hvs, hl⟩ := h.valuesSome hu
    refine ⟨vs, hvs, ?_⟩
    rw [List.map_drop]
    exact hl.drop (by simpa using hk)
  valuesNone hu := ⟨(h.valuesNone hu).1, fun p hp =>
    (h.valuesNone hu).2 p (List.mem_of_mem_drop hp)⟩

/-- An empty block may lie anywhere. -/
theorem Holds.moveEmpty (h : Holds s n b) (hnil : b.pairs = []) {off : ℕ}
    (hoff : off ≤ s.nodeSize) : Holds s { n with offset := off } { b with offset := off } where
  offset := rfl
  count := h.count
  keys := by
    simp only [hnil, List.map_nil]
    exact Live.nil h.keys.size_eq hoff
  valuesSome hu := by
    obtain ⟨vs, hvs, hl⟩ := h.valuesSome hu
    refine ⟨vs, hvs, ?_⟩
    simp only [hnil, List.map_nil]
    exact Live.nil hl.size_eq hoff
  valuesNone := h.valuesNone

/-- Dropping the first pair, with the wrap at the end of the buffer. -/
theorem dropFirst_spec (hs : s.Ok) (h : Holds s n b) (hpos : b.pairs ≠ []) :
    ∃ off, off < s.nodeSize ∧ Holds s (dropFirst s.nodeSize n)
        { b with offset := off, pairs := b.pairs.drop 1 } ∧
      n.SameLinks (dropFirst s.nodeSize n) := by
  have hlen := List.length_pos_of_ne_nil hpos
  have hb := h.bound
  have hlt := hs.nodeSize_lt
  have htwo := hs.two_le
  have hoff := h.offset
  have hdrop := h.drop (k := 1) hlen
  have hu : u16 ((n.offset : ℤ) + 1) = n.offset + 1 := by
    exact_mod_cast u16_of_lt (n := n.offset + 1) (by omega)
  by_cases hend : n.offset + 1 = s.nodeSize
  · have hnil : b.pairs.drop 1 = [] := List.drop_eq_nil_of_le (by omega)
    refine ⟨s.nodeSize / 2, by omega, ?_, rfl, rfl, rfl, rfl⟩
    have hmove := hdrop.moveEmpty hnil (show s.nodeSize / 2 ≤ s.nodeSize by omega)
    simpa [dropFirst, hu, hend, h.count] using hmove
  · refine ⟨b.offset + 1, by omega, ?_, rfl, rfl, rfl, rfl⟩
    rw [hoff] at hu hend
    simpa [dropFirst, hu, hend, h.count, hoff] using hdrop

/-! ## Block copies -/

theorem copySlots_of_le {α : Type} {dst src : List α} {dest start cnt : ℕ}
    (hd : dest + cnt ≤ dst.length) (hs : start + cnt ≤ src.length) :
    copySlots dst src dest start cnt = .ok (blit dst src dest start cnt) :=
  if_pos (Or.inr ⟨hd, hs⟩)

/-- `shift_pairs` copies within both buffers. -/
theorem shiftPairs_eq (h : Holds s n b) {dest start cnt : ℕ} (hd : dest + cnt ≤ s.nodeSize)
    (hs : start + cnt ≤ s.nodeSize) :
    shiftPairs n dest start cnt = .ok { n with
      keys := blit n.keys n.keys dest start cnt
      values := n.values.map fun vs => blit vs vs dest start cnt } := by
  have hk := h.keys.size_eq
  rw [shiftPairs, copySlots_of_le (by omega) (by omega), ok_bind]
  cases hu : s.useValues with
  | false =>
      simp only [(h.valuesNone hu).1]
      rfl
  | true =>
      obtain ⟨vs, hvs, hl⟩ := h.valuesSome hu
      have hv := hl.size_eq
      simp only [hvs, copySlots_of_le (by omega : dest + cnt ≤ vs.length)
        (by omega : start + cnt ≤ vs.length), ok_bind]
      rfl

/-- Sliding all pairs of a node within its buffers. -/
theorem Holds.slide (h : Holds s n b) {dest : ℕ} (hd : dest + b.pairs.length ≤ s.nodeSize) :
    ∃ n', shiftPairs n dest n.offset n.count = .ok n' ∧
      Holds s { n' with offset := dest } { b with offset := dest } ∧
      n.SameLinks { n' with offset := dest } ∧ n'.count = n.count := by
  have hb := h.bound
  have hoff := h.offset
  have hcnt := h.count
  refine ⟨_, shiftPairs_eq h (by omega) (by omega), ⟨rfl, hcnt, ?_, fun hu => ?_, fun hu => ?_⟩,
    ⟨rfl, rfl, rfl, n.blocks_map ..⟩, rfl⟩
  · have := h.keys.slide (show dest + _ ≤ s.nodeSize by simpa using hd)
    rw [List.length_map] at this
    rw [hcnt, hoff]
    exact this
  · obtain ⟨vs, hvs, hl⟩ := h.valuesSome hu
    have := hl.slide (show dest + _ ≤ s.nodeSize by simpa using hd)
    rw [List.length_map] at this
    refine ⟨_, by rw [hvs]; rfl, ?_⟩
    rw [hcnt, hoff]
    exact this
  · exact ⟨by rw [(h.valuesNone hu).1]; rfl, (h.valuesNone hu).2⟩

/-- `move_pairs` onto the slots behind the live ones appends to a block. -/
theorem Holds.append (h : Holds s n b) (hc : Holds s m c) (hk : j + k ≤ c.pairs.length)
    (hd : b.offset + b.pairs.length + k ≤ s.nodeSize) :
    ∃ n', movePairs n m (b.offset + b.pairs.length) (c.offset + j) k = .ok n' ∧
      Holds s { n' with count := b.pairs.length + k }
        { b with pairs := b.pairs ++ (c.pairs.drop j).take k } ∧
      n.SameLinks { n' with count := b.pairs.length + k } ∧ n'.offset = n.offset ∧
      n'.count = n.count := by
  have hlen := h.keys.size_eq
  have hlen' := hc.keys.size_eq
  have hb := hc.bound
  have hcnt : ((c.pairs.drop j).take k).length = k := by simp; omega
  have hkeys := h.keys.append (j := j) (k := k) hc.keys (by simpa using hk) (by simpa using hd)
  rw [List.length_map, ← List.map_drop, ← List.map_take, ← List.map_append] at hkeys
  rw [movePairs, copySlots_of_le (by omega) (by omega), ok_bind]
  cases hu : s.useValues with
  | false =>
      obtain ⟨hn, hdef⟩ := h.valuesNone hu
      obtain ⟨-, hdef'⟩ := hc.valuesNone hu
      simp only [hn]
      refine ⟨_, rfl, ⟨h.offset, by simp only [List.length_append, hcnt], hkeys,
        fun h' => by simp [hu] at h', fun _ => ⟨rfl, fun p hp => ?_⟩⟩,
        ⟨rfl, rfl, rfl, by simp [Node.blocks, hn]⟩, rfl, rfl⟩
      rcases List.mem_append.mp hp with hp | hp
      · exact hdef p hp
      · exact hdef' p (List.mem_of_mem_drop (List.mem_of_mem_take hp))
  | true =>
      obtain ⟨vs, hvs, hl⟩ := h.valuesSome hu
      obtain ⟨ws, hws, hl'⟩ := hc.valuesSome hu
      have hv := hl.size_eq
      have hv' := hl'.size_eq
      have hvals := hl.append (j := j) (k := k) hl' (by simpa using hk) (by simpa using hd)
      rw [List.length_map, ← List.map_drop, ← List.map_take, ← List.map_append] at hvals
      simp only [hvs, hws, copySlots_of_le (by omega : b.offset + b.pairs.length + k ≤ vs.length)
        (by omega : c.offset + j + k ≤ ws.length), ok_bind]
      exact ⟨_, rfl, ⟨h.offset, by simp only [List.length_append, hcnt], hkeys,
        fun _ => ⟨_, rfl, hvals⟩, fun h' => by simp [hu] at h'⟩,
        ⟨rfl, rfl, rfl, by simp [Node.blocks, hvs]⟩, rfl, rfl⟩

/-! ## Removing a pair -/

/-- The tail of `skiparray_forget` removes pair `idx` from the block. -/
theorem removeAt_spec (hs : s.Ok) (h : Holds s n b) (hf : b.offset < s.nodeSize)
    (hi : idx < b.pairs.length) :
    ∃ n' off, removeAt s.nodeSize n idx = .ok n' ∧ off < s.nodeSize ∧
      Holds s n' { b with offset := off, pairs := b.pairs.eraseIdx idx } ∧ n.SameLinks n' := by
  have hcnt := h.count
  have hoff := h.offset
  have hb := h.bound
  unfold removeAt
  by_cases h0 : idx = 0
  · subst h0
    rw [if_pos rfl, List.eraseIdx_zero, ← List.drop_one]
    obtain ⟨off, hlt, hh, hsame⟩ := dropFirst_spec hs h (List.ne_nil_of_length_pos hi)
    exact ⟨_, off, rfl, hlt, hh, hsame⟩
  rw [if_neg h0]
  have hlen : (b.pairs.eraseIdx idx).length = b.pairs.length - 1 := by
    rw [List.length_eraseIdx, if_pos hi]
  by_cases hend : idx = n.count - 1
  · rw [if_pos hend]
    have htake : b.pairs.eraseIdx idx = b.pairs.take idx := by
      rw [List.eraseIdx_eq_take_drop_succ, List.drop_eq_nil_of_le (by omega), List.append_nil]
    have := h.take idx
    refine ⟨_, b.offset, rfl, hf, ?_, rfl, rfl, rfl, rfl⟩
    rw [← htake, hlen, ← hcnt] at this
    exact this
  · rw [if_neg hend, shiftPairs_eq h (by omega) (by omega), ok_bind, hoff, hcnt]
    refine ⟨_, b.offset, rfl, hf, ⟨rfl, by rw [hlen], ?_, fun hu => ?_, fun hu => ?_⟩,
      rfl, rfl, rfl, n.blocks_map ..⟩
    · have := h.keys.erase (show idx < _ by simpa using hi)
      rw [List.length_map, List.eraseIdx_map] at this
      exact this
    · obtain ⟨vs, hvs, hl⟩ := h.valuesSome hu
      have := hl.erase (show idx < _ by simpa using hi)
      rw [List.length_map, List.eraseIdx_map] at this
      exact ⟨_, by rw [hvs]; rfl, this⟩
    · exact ⟨by rw [(h.valuesNone hu).1]; rfl, fun p hp =>
        (h.valuesNone hu).2 p (List.mem_of_mem_eraseIdx hp)⟩

/-! ## Writing a pair -/

/-- Overwriting pair `idx` of a node. -/
theorem putPair_spec {sa : SkipArray K V} (h : Holds sa.toSettings n b)
    (hi : idx < b.pairs.length) (key : K) (value : V) :
    ∃ n', putPair sa n (n.offset + idx) key value = .ok n' ∧
      Holds sa.toSettings n' { b with pairs := b.pairs.set idx (key, sa.stored value) } ∧
      n.SameLinks n' := by
  have hb := h.bound
  have hlen := h.keys.size_eq
  have hkeys := h.keys.set (i := idx) (by simpa using hi) key
  rw [putPair, putSlot_of_lt (by rw [h.offset]; omega), ok_bind, h.offset]
  cases hu : sa.useValues with
  | false =>
      obtain ⟨hn, hdef⟩ := h.valuesNone hu
      refine ⟨_, rfl, ⟨rfl, by rw [List.length_set]; exact h.count, ?_,
        fun h' => by simp [hu] at h', fun _ => ⟨hn, fun p hp => ?_⟩⟩, rfl, rfl, rfl, rfl⟩
      · rw [List.map_set]
        exact hkeys
      · rcases List.mem_or_eq_of_mem_set hp with hp | rfl
        · exact hdef p hp
        · simp [Settings.stored, hu]
  | true =>
      obtain ⟨vs, hvs, hl⟩ := h.valuesSome hu
      have hv := hl.size_eq
      have hvals := hl.set (i := idx) (by simpa using hi) value
      rw [if_pos rfl]
      simp only [hvs, putSlot_of_lt (by omega : b.offset + idx < vs.length), ok_bind]
      refine ⟨_, rfl, ⟨rfl, by rw [List.length_set]; exact h.count, ?_,
        fun _ => ⟨_, rfl, ?_⟩, fun h' => by simp [hu] at h'⟩, rfl, rfl, rfl,
        by simp [Node.blocks, hvs]⟩
      · rw [List.map_set]
        exact hkeys
      · rw [List.map_set]
        simpa [Settings.stored, hu] using hvals

/-! ## Inserting a pair -/

/-- The offset that `prepare_node_for_insert` leaves: one slot to the left when
there is one and the pair does not come last, the front when the end is reached. -/
def insertOffset (nodeSize offset count idx : ℕ) : ℕ :=
  if idx = 0 then if 0 < count ∧ 0 < offset then offset - 1 else offset
  else if idx < count then if 0 < offset then offset - 1 else offset
  else if offset + idx = nodeSize then 0 else offset

/-- Every case of `prepare_node_for_insert` opens a gap at `idx`. -/
theorem prepareNodeForInsert_spec (hs : s.Ok) (h : Holds s n b) (hf : b.offset < s.nodeSize)
    (hroom : b.pairs.length < s.nodeSize) (hi : idx ≤ b.pairs.length) :
    ∃ dest start cnt, Opens s.nodeSize b.offset b.pairs.length idx dest start cnt
        (insertOffset s.nodeSize b.offset b.pairs.length idx) ∧
      prepareNodeForInsert s.nodeSize n idx = .ok { n with
        keys := blit n.keys n.keys dest start cnt
        values := n.values.map fun vs => blit vs vs dest start cnt
        offset := insertOffset s.nodeSize b.offset b.pairs.length idx } := by
  have hcnt := h.count
  have hoff := h.offset
  have hb := h.bound
  have hns := hs.nodeSize_lt
  have hsame : ({ n with
      keys := blit n.keys n.keys 0 0 0
      values := n.values.map fun vs => blit vs vs 0 0 0 } : Node K V) = n := by
    cases n
    simp
  rw [prepareNodeForInsert, check_of_pos (by omega), ok_bind]
  by_cases h0 : idx = 0
  · subst h0
    rw [if_pos rfl]
    by_cases hfront : 0 < n.count ∧ 0 < n.offset
    · have hnew : insertOffset s.nodeSize b.offset b.pairs.length 0 = b.offset - 1 := by
        rw [insertOffset, if_pos rfl, if_pos (by omega)]
      rw [if_pos hfront, hnew]
      refine ⟨0, 0, 0, ⟨by omega, by omega, by omega, by omega, fun i _ _ => ?_⟩, ?_⟩
      · rw [if_neg (by omega)]
        omega
      · rw [← hoff]
        conv_lhs => rw [← hsame]
        rfl
    · have hnew : insertOffset s.nodeSize b.offset b.pairs.length 0 = b.offset := by
        rw [insertOffset, if_pos rfl, if_neg (by omega)]
      rw [if_neg hfront, shiftPairs_eq h (by omega) (by omega), hnew]
      refine ⟨n.offset + 1, n.offset, n.count,
        ⟨by omega, by omega, by omega, by omega, fun i _ _ => ?_⟩, by rw [← hoff]⟩
      rw [if_pos (by omega)]
      omega
  rw [if_neg h0]
  by_cases hmid : idx < n.count
  · rw [if_pos hmid]
    have hu : u16 ((idx : ℤ) + 1) = idx + 1 := by
      exact_mod_cast u16_of_lt (n := idx + 1) (by omega)
    by_cases hleft : 0 < n.offset
    · have hnew : insertOffset s.nodeSize b.offset b.pairs.length idx = n.offset - 1 := by
        rw [insertOffset, if_neg h0, if_pos (by omega), if_pos (by omega), hoff]
      rw [if_pos hleft, hu, shiftPairs_eq h (by omega) (by omega), ok_bind, hnew]
      refine ⟨n.offset - 1, n.offset, idx + 1,
        ⟨by omega, by omega, by omega, fun i _ => ?_, fun i _ _ => ?_⟩, rfl⟩
      · rw [if_pos (by omega)]
        omega
      · split_ifs <;> omega
    · have hnew : insertOffset s.nodeSize b.offset b.pairs.length idx = b.offset := by
        rw [insertOffset, if_neg h0, if_pos (by omega), if_neg (by omega)]
      rw [if_neg hleft, shiftPairs_eq h (by omega) (by omega), hnew]
      refine ⟨idx + 1, idx, n.count - idx,
        ⟨by omega, by omega, by omega, fun i _ => ?_, fun i _ _ => ?_⟩, by rw [← hoff]⟩
      · rw [if_neg (by omega)]
      · rw [if_pos (by omega)]
        omega
  rw [if_neg hmid, check_of_pos (by omega), ok_bind, check_of_pos (by omega), ok_bind]
  by_cases hend : n.offset + idx = s.nodeSize
  · have hnew : insertOffset s.nodeSize b.offset b.pairs.length idx = 0 := by
      rw [insertOffset, if_neg h0, if_neg (by omega), if_pos (by omega)]
    rw [if_pos hend, check_of_pos (by omega), ok_bind, shiftPairs_eq h (by omega) (by omega),
      ok_bind, hnew]
    refine ⟨0, n.offset, n.count,
      ⟨by omega, by omega, by omega, fun i _ => ?_, fun i _ _ => by omega⟩, rfl⟩
    rw [if_pos (by omega)]
    omega
  · have hnew : insertOffset s.nodeSize b.offset b.pairs.length idx = b.offset := by
      rw [insertOffset, if_neg h0, if_neg (by omega), if_neg (by omega)]
    rw [if_neg hend, hnew]
    refine ⟨0, 0, 0,
      ⟨by omega, by omega, by omega, fun i _ => by simp, fun i _ _ => by omega⟩, ?_⟩
    rw [← hoff]
    conv_lhs => rw [← hsame]
    rfl

/-- Opening a gap at `idx` and writing a pair there inserts it. -/
theorem Holds.insert {sa : SkipArray K V} (h : Holds sa.toSettings n b)
    {dest start cnt off' : ℕ} (hi : idx ≤ b.pairs.length)
    (ho : Opens sa.nodeSize b.offset b.pairs.length idx dest start cnt off') (key : K) (value : V) :
    ∃ n', putPair sa { n with
        keys := blit n.keys n.keys dest start cnt
        values := n.values.map fun vs => blit vs vs dest start cnt
        offset := off' } (off' + idx) key value = .ok n' ∧
      Holds sa.toSettings { n' with count := b.pairs.length + 1 }
        { b with offset := off', pairs := b.pairs.take idx ++ (key, sa.stored value) ::
          b.pairs.drop idx } ∧
      n.SameLinks { n' with count := b.pairs.length + 1 } ∧ n'.count = n.count := by
  have hlen := h.keys.size_eq
  have hd := ho.dest_le
  have hst := ho.start_le
  have hb := ho.bound
  have hkeys := h.keys.insert (by simpa using hi) (by simpa using ho) key
  have hcnt : (b.pairs.take idx ++ (key, sa.stored value) :: b.pairs.drop idx).length =
      b.pairs.length + 1 := by simp; omega
  rw [putPair]
  simp only
  rw [putSlot_of_lt (by rw [length_blit (by omega) (by omega)]; omega), ok_bind]
  cases hu : sa.useValues with
  | false =>
      obtain ⟨hn, hdef⟩ := h.valuesNone hu
      refine ⟨_, rfl, ⟨rfl, hcnt.symm, ?_, fun h' => by simp [hu] at h', fun _ => ⟨by simp [hn],
        fun p hp => ?_⟩⟩, ⟨rfl, rfl, rfl, by simp [Node.blocks, hn]⟩, rfl⟩
      · simpa using hkeys
      · rcases List.mem_append.mp hp with hp | hp
        · exact hdef p (List.mem_of_mem_take hp)
        · rcases List.mem_cons.mp hp with rfl | hp
          · simp [Settings.stored, hu]
          · exact hdef p (List.mem_of_mem_drop hp)
  | true =>
      obtain ⟨vs, hvs, hl⟩ := h.valuesSome hu
      have hv := hl.size_eq
      have hvals := hl.insert (by simpa using hi) (by simpa using ho) value
      rw [if_pos rfl]
      simp only [hvs, Option.map_some]
      rw [putSlot_of_lt (by rw [length_blit (by omega) (by omega)]; omega), ok_bind]
      refine ⟨_, rfl, ⟨rfl, hcnt.symm, by simpa using hkeys, fun _ => ⟨_, rfl, ?_⟩,
        fun h' => by simp [hu] at h'⟩, ⟨rfl, rfl, rfl, by simp [Node.blocks, hvs]⟩, rfl⟩
      simpa [Settings.stored, hu] using hvals

/-! ## A node rewritten in place -/

section InPlace

variable {sa : SkipArray K V} {bs A C : List (Block K V)} {p : Ptr}

omit [Inhabited V] in
theorem SkipArray.links_setNode (hn : sa.node? p = some n) (hs : n.SameLinks m) :
    (sa.setNode p m).links = sa.links := by
  have hlt := SkipArray.lt_of_node? hn
  have hfwd : ∀ i r, (sa.setNode p m).links.fwd i r = sa.links.fwd i r := by
    intro i r
    by_cases hr : r = p
    · subst hr
      simp [SkipArray.links, SkipArray.node?_setNode_self hlt, hn, hs.fwd]
    · simp [SkipArray.links, SkipArray.node?_setNode_ne hr]
  have hback : ∀ r, (sa.setNode p m).links.back r = sa.links.back r := by
    intro r
    by_cases hr : r = p
    · subst hr
      simp [SkipArray.links, SkipArray.node?_setNode_self hlt, hn, hs.back]
    · simp [SkipArray.links, SkipArray.node?_setNode_ne hr]
  have hhead : (sa.setNode p m).links.head = sa.links.head := rfl
  calc (sa.setNode p m).links
      = ⟨sa.links.head, sa.links.fwd, sa.links.back⟩ := by
        rw [← hhead, ← funext fun i => funext (hfwd i), ← funext hback]
    _ = sa.links := rfl

omit [Inhabited V] in
theorem SkipArray.Linked.setNode (h : sa.Linked bs) (hn : sa.node? p = some n)
    (hs : n.SameLinks m) : (sa.setNode p m).Linked bs where
  spells := by
    rw [SkipArray.links_setNode hn hs]
    exact h.spells
  nodesLen := h.nodesLen
  alive b hb := by
    obtain ⟨nb, hnb, hh, hf⟩ := h.alive b hb
    by_cases hbp : b.ptr = p
    · subst hbp
      obtain rfl : nb = n := Option.some.inj (hnb.symm.trans hn)
      exact ⟨m, SkipArray.node?_setNode_self (SkipArray.lt_of_node? hn), hs.height.trans hh,
        by rw [hs.fwd, hf]⟩
    · exact ⟨nb, by rw [SkipArray.node?_setNode_ne hbp, hnb], hh, hf⟩
  top := h.top

theorem SkipArray.Stores.setNode_ne (h : sa.Stores b) (hp : b.ptr ≠ p) :
    (sa.setNode p m).Stores b := by
  obtain ⟨n, hn, hh⟩ := h
  exact ⟨n, by rw [SkipArray.node?_setNode_ne hp, hn], hh⟩

theorem SkipArray.Stores.setNode_self (hn : sa.node? b.ptr = some n)
    (h : Holds sa.toSettings m b) : (sa.setNode b.ptr m).Stores b :=
  ⟨m, SkipArray.node?_setNode_self (SkipArray.lt_of_node? hn), h⟩

omit [Inhabited V] in
/-- The other blocks lie elsewhere. -/
theorem SkipArray.Linked.ptr_ne (h : sa.Linked (A ++ b :: C)) {x : Block K V} (hx : x ∈ A ++ C) :
    x.ptr ≠ b.ptr := by
  have hnd := h.ptr_nodup
  rw [List.map_append, List.map_cons, List.nodup_middle, List.nodup_cons, ← List.map_append] at hnd
  exact fun heq => hnd.1 (List.mem_map.mpr ⟨x, hx, heq⟩)

/-- Rewriting the buffers of one node changes the pairs of one block. -/
theorem SkipArray.Sound.update {cmp : K → K → ℤ} (h : sa.Sound cmp (A ++ b :: C))
    (hn : sa.node? b.ptr = some n) (hs : n.SameLinks m) {off : ℕ} {ps : List (K × V)}
    (hh : Holds sa.toSettings m { b with offset := off, pairs := ps })
    (hoff : off < sa.nodeSize)
    (hasc : Ascending cmp (bindings (A ++ { b with offset := off, pairs := ps } :: C))) :
    (sa.setNode b.ptr m).Sound cmp (A ++ { b with offset := off, pairs := ps } :: C) where
  settings := h.settings
  linked := (h.linked.setNode hn hs).of_towers (by simp)
  stores := forall_mem_middle.mpr
    ⟨SkipArray.Stores.setNode_self (b := { b with offset := off, pairs := ps }) hn hh,
      fun x hx => ((forall_mem_middle.mp h.stores).2 x hx).setNode_ne (h.linked.ptr_ne hx)⟩
  tallest := h.tallest.replace rfl rfl
  offset_lt := forall_mem_middle.mpr ⟨hoff, (forall_mem_middle.mp h.offset_lt).2⟩
  ascending := hasc

end InPlace

end Skiparray
