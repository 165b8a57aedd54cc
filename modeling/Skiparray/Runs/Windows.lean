import Skiparray.Runs.Contents

/-!
# The window of a node

Whatever the offset and the count of a node, `prepare_node_for_insert` and the
writes after it insert into its window, and the removal in `skiparray_forget`
erases from it. Neither leaves the buffers.
-/

namespace Skiparray

open Window Fallible

variable {K V U : Type} [Inhabited V]

/-- A node with buffers of `nodeSize` slots, the values in step with the keys or
not there at all, and a window inside of them. -/
structure Node.InBuffers (s : Settings) (n : Node K V) : Prop where
  keys : n.keys.length = s.nodeSize
  valuesSome : s.useValues = true → ∃ vs, n.values = some vs ∧ vs.length = s.nodeSize
  valuesNone : s.useValues = false → n.values = none
  offset_lt : n.offset < s.nodeSize
  fits : n.offset + n.count ≤ s.nodeSize

section Windows

variable {s : Settings} {n : Node K V} {sa : SkipArray K V} {p : Ptr} {index : ℕ}

theorem Node.InBuffers.livePairs_fst (h : n.InBuffers s) : n.livePairs.map Prod.fst = n.liveKeys := by
  unfold Node.livePairs
  cases hu : s.useValues with
  | false =>
      rw [h.valuesNone hu, List.map_map]
      exact List.map_id _
  | true =>
      obtain ⟨vs, hvs, hlen⟩ := h.valuesSome hu
      have hfits := h.fits
      have hkeys := h.keys
      rw [hvs]
      apply List.map_fst_zip
      rw [Node.liveKeys, List.length_take, List.length_take, List.length_drop, List.length_drop]
      omega

/-- The pairs in the window make up a block. -/
theorem Node.InBuffers.holds (h : n.InBuffers s) (p : Ptr) :
    Holds s n ⟨p, n.height, n.offset, n.livePairs⟩ := by
  have hfst := h.livePairs_fst
  have hcount : n.livePairs.length = n.count := by
    have hfits := h.fits
    have hkeys := h.keys
    rw [← List.length_map Prod.fst, hfst, Node.liveKeys, List.length_take, List.length_drop]
    omega
  refine ⟨rfl, hcount.symm, ?_, ?_, ?_⟩
  · rw [hfst]
    exact .of_buffer h.keys h.fits
  · intro hu
    obtain ⟨vs, hvs, hlen⟩ := h.valuesSome hu
    refine ⟨vs, hvs, ?_⟩
    have hsnd : n.livePairs.map Prod.snd = (vs.drop n.offset).take n.count := by
      have hfits := h.fits
      have hkeys := h.keys
      rw [Node.livePairs, hvs]
      apply List.map_snd_zip
      rw [Node.liveKeys, List.length_take, List.length_take, List.length_drop, List.length_drop]
      omega
    rw [hsnd]
    exact .of_buffer hlen h.fits
  · intro hu
    refine ⟨h.valuesNone hu, ?_⟩
    intro x hx
    rw [Node.livePairs, h.valuesNone hu] at hx
    obtain ⟨k, -, rfl⟩ := List.mem_map.mp hx
    rfl

/-- And the pairs of a block are inside the buffers. -/
theorem Holds.inBuffers {b : Block K V} (h : Holds s n b) (hoff : b.offset < s.nodeSize) :
    n.InBuffers s := by
  refine ⟨h.keys.size_eq, ?_, fun hu => (h.valuesNone hu).1, h.offset ▸ hoff, ?_⟩
  · intro hu
    obtain ⟨vs, hvs, hl⟩ := h.valuesSome hu
    exact ⟨vs, hvs, hl.size_eq⟩
  · rw [h.offset, h.count]
    exact h.bound

omit [Inhabited V] in
theorem insertIdx_eq {α : Type} {xs : List α} {i : ℕ} (hi : i ≤ xs.length) (x : α) :
    xs.insertIdx i x = xs.take i ++ x :: xs.drop i := by
  induction i generalizing xs with
  | zero => rfl
  | succ i ih =>
      cases xs with
      | nil => simp at hi
      | cons y ys =>
          rw [List.insertIdx_succ_cons, ih (Nat.le_of_succ_le_succ hi)]
          rfl

theorem insertOffset_lt {size offset count idx : ℕ} (h : offset < size) :
    insertOffset size offset count idx < size := by
  unfold insertOffset
  split_ifs <;> omega

/-- Inserting at `index` and removing at `index` act on the window as on a list,
keys and values alike, and stay inside the buffers. -/
theorem window_edits {sa : SkipArray K V} (htwo : 2 ≤ sa.nodeSize) (hlt : sa.nodeSize < 65536)
    (hn : sa.node? p = some n) (h : n.InBuffers sa.toSettings) :
    (n.count < sa.nodeSize → index ≤ n.count → ∀ key value, ∃ n',
      insertAt sa (some p) index key value = .ok (sa.setNode p n') ∧
      n'.livePairs = n.livePairs.insertIdx index (key, sa.stored value) ∧
      n'.InBuffers sa.toSettings) ∧
    (index < n.count → ∃ n', removeAt sa.nodeSize n index = .ok n' ∧
      n'.livePairs = n.livePairs.eraseIdx index ∧ n'.InBuffers sa.toSettings) := by
  have hh := h.holds p
  have hcount : n.count = n.livePairs.length := hh.count
  -- the other settings do not matter
  have hok : ({ sa.toSettings with maxLevel := 1 } : Settings).Ok := ⟨htwo, hlt, by simp, by simp⟩
  have hfree : ∀ {m : Node K V} {b : Block K V}, Holds sa.toSettings m b ↔
      Holds { sa.toSettings with maxLevel := 1 } m b := by
    intro m b
    constructor <;> rintro ⟨h₁, h₂, h₃, h₄, h₅⟩ <;> exact ⟨h₁, h₂, h₃, h₄, h₅⟩
  constructor
  · intro hroom hi key value
    obtain ⟨dest, start, cnt, hopens, hprep⟩ := prepareNodeForInsert_spec hok (hfree.mp hh)
      h.offset_lt (hcount ▸ hroom) (hcount ▸ hi)
    obtain ⟨m, hput, hm, -, hmc⟩ := hh.insert (hcount ▸ hi) hopens key value
    have hu : u16 ((m.count : ℤ) + 1) = n.livePairs.length + 1 := by
      rw [hmc, hcount]
      exact_mod_cast u16_of_lt (n := n.livePairs.length + 1) (by omega)
    have hoff : insertOffset sa.nodeSize n.offset n.livePairs.length index + index <
        sa.nodeSize := by
      have hbound := hopens.bound
      simp only at hbound
      omega
    refine ⟨{ m with count := n.livePairs.length + 1 }, ?_, ?_, ?_⟩
    · simp only [insertAt, SkipArray.load_eq hn, ok_bind, hprep, check_of_pos hoff, hput, hu]
      rfl
    · rw [hm.livePairs, insertIdx_eq (hcount ▸ hi)]
    · exact hm.inBuffers (insertOffset_lt h.offset_lt)
  · intro hi
    obtain ⟨m, off, hrem, hoff, hm, -⟩ := removeAt_spec hok (hfree.mp hh) h.offset_lt
      (hcount ▸ hi)
    have hm' := hfree.mpr hm
    exact ⟨m, hrem, hm'.livePairs, hm'.inBuffers hoff⟩

/-- The node of `SkipArray.plainOne` lies at the end of its buffers. -/
theorem window_edits_plainOne : let n : Node ℤ ℤ := ⟨1, 1, 1, [0, 1], some [0, 10], none, [none], 1, 2, 3⟩
    (n.count < 2 → 0 ≤ n.count → ∀ key value, ∃ n',
      insertAt SkipArray.plainOne (some 0) 0 key value = .ok (SkipArray.plainOne.setNode 0 n') ∧
      n'.livePairs = n.livePairs.insertIdx 0 (key, SkipArray.plainOne.stored value) ∧
      n'.InBuffers SkipArray.plainOne.toSettings) ∧
    (0 < n.count → ∃ n', removeAt 2 n 0 = .ok n' ∧
      n'.livePairs = n.livePairs.eraseIdx 0 ∧ n'.InBuffers SkipArray.plainOne.toSettings) :=
  window_edits (by decide) (by decide) (show SkipArray.plainOne.node? 0 = some _ from rfl)
    ⟨rfl, fun _ => ⟨_, rfl, rfl⟩, fun hu => absurd hu (by decide), by decide, by decide⟩

end Windows

end Skiparray
