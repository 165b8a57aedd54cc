import Mathlib

/-!
# Windows into fixed buffers

A run of live slots somewhere in a buffer of fixed size, `Live`, and `blit`,
the block copy that `memmove` and `memcpy` perform. The lemmas say what a
block copy or a single write makes of the live slots: the same list elsewhere,
an insertion, an erasure, an append, a prefix or a suffix.
-/

namespace Window

variable {α : Type}

/-- Copy `cnt` slots of `src` from `start` over those of `dst` from `dest`. -/
def blit (dst src : List α) (dest start cnt : ℕ) : List α :=
  dst.take dest ++ (src.drop start).take cnt ++ dst.drop (dest + cnt)

/-- `buf` has `size` slots, and those from `off` on hold `xs`. -/
structure Live (size : ℕ) (buf : List α) (off : ℕ) (xs : List α) : Prop where
  size_eq : buf.length = size
  bound : off + xs.length ≤ size
  slots : ∀ i < xs.length, buf[off + i]? = xs[i]?

variable {size : ℕ} {buf buf' dst src xs ys : List α} {x : α}
  {off off' dest start cnt i j k idx : ℕ}

theorem getElem?_blit (hd : dest + cnt ≤ dst.length) (hs : start + cnt ≤ src.length) :
    (blit dst src dest start cnt)[i]? =
      if dest ≤ i ∧ i < dest + cnt then src[start + (i - dest)]? else dst[i]? := by
  have h₁ : (dst.take dest).length = dest := by simp; omega
  have h₂ : ((src.drop start).take cnt).length = cnt := by simp; omega
  unfold blit
  rw [List.append_assoc, List.getElem?_append, h₁, List.getElem?_append, h₂]
  split_ifs with h₃ h₄ h₅ h₆ h₇
  · omega
  · rw [List.getElem?_take_of_lt h₃]
  · rw [List.getElem?_take_of_lt h₅, List.getElem?_drop]
  · omega
  · omega
  · rw [List.getElem?_drop]
    congr 1
    omega

theorem length_blit (hd : dest + cnt ≤ dst.length) (hs : start + cnt ≤ src.length) :
    (blit dst src dest start cnt).length = dst.length := by
  simp [blit]
  omega

@[simp] theorem blit_zero : blit dst src dest start 0 = dst := by simp [blit]

namespace Live

theorem replicate (h : off ≤ size) : Live size (List.replicate size x) off [] :=
  ⟨by simp, by simpa using h, by simp⟩

/-- What a reader of the buffer sees in the window. -/
theorem read (h : Live size buf off xs) : (buf.drop off).take xs.length = xs := by
  apply List.ext_getElem?
  intro j
  rw [List.getElem?_take, List.getElem?_drop]
  by_cases hj : j < xs.length
  · rw [if_pos hj, h.slots j hj]
  · rw [if_neg hj, List.getElem?_eq_none (Nat.le_of_not_lt hj)]

/-- Any part of a buffer is a window of it. -/
theorem of_buffer {cnt : ℕ} (hlen : buf.length = size) (hb : off + cnt ≤ size) :
    Live size buf off ((buf.drop off).take cnt) := by
  have hcnt : ((buf.drop off).take cnt).length = cnt := by
    rw [List.length_take, List.length_drop]
    omega
  refine ⟨hlen, by omega, ?_⟩
  intro i hi
  rw [List.getElem?_take, List.getElem?_drop, if_pos (by omega)]

/-- Sliding the live slots inside their own buffer. -/
theorem slide (h : Live size buf off xs) (hd : dest + xs.length ≤ size) :
    Live size (blit buf buf dest off xs.length) dest xs := by
  have hlen := h.size_eq
  have hb := h.bound
  refine ⟨by rw [length_blit (by omega) (by omega), hlen], hd, fun i hi => ?_⟩
  rw [getElem?_blit (by omega) (by omega), if_pos (by omega), ← h.slots i hi]
  congr 1
  omega

/-- Copying slots of another buffer to just past the live ones. -/
theorem append (h : Live size dst off xs) (hs : Live size src off' ys)
    (hk : j + k ≤ ys.length) (hd : off + xs.length + k ≤ size) :
    Live size (blit dst src (off + xs.length) (off' + j) k) off (xs ++ (ys.drop j).take k) := by
  have hlen := h.size_eq
  have hlen' := hs.size_eq
  have hb := hs.bound
  have hcnt : ((ys.drop j).take k).length = k := by simp; omega
  refine ⟨by rw [length_blit (by omega) (by omega), hlen], by rw [List.length_append, hcnt]; omega,
    fun i hi => ?_⟩
  rw [List.length_append, hcnt] at hi
  rw [getElem?_blit (by omega) (by omega), List.getElem?_append]
  by_cases hx : i < xs.length
  · rw [if_neg (by omega), if_pos hx]
    exact h.slots i hx
  · rw [if_pos (by omega), if_neg hx, List.getElem?_take_of_lt (by omega), List.getElem?_drop,
      ← hs.slots _ (by omega)]
    congr 1
    omega

theorem take (h : Live size buf off xs) (k : ℕ) : Live size buf off (xs.take k) := by
  have hb := h.bound
  refine ⟨h.size_eq, by have := List.length_take_le' k xs; omega, fun i hi => ?_⟩
  rw [List.length_take] at hi
  rw [h.slots i (by omega), List.getElem?_take_of_lt (by omega)]

theorem drop (h : Live size buf off xs) (hk : k ≤ xs.length) :
    Live size buf (off + k) (xs.drop k) := by
  have hb := h.bound
  refine ⟨h.size_eq, by rw [List.length_drop]; omega, fun i hi => ?_⟩
  rw [List.length_drop] at hi
  rw [List.getElem?_drop, ← h.slots _ (by omega)]
  congr 1
  omega

/-- No live slots are live anywhere. -/
theorem nil (h : buf.length = size) (hb : off ≤ size) : Live size buf off [] :=
  ⟨h, by simpa using hb, by simp⟩

theorem set (h : Live size buf off xs) (hi : i < xs.length) (x : α) :
    Live size (buf.set (off + i) x) off (xs.set i x) := by
  have hb := h.bound
  have hlen := h.size_eq
  refine ⟨by rw [List.length_set, hlen], by rw [List.length_set]; exact hb, fun j hj => ?_⟩
  rw [List.length_set] at hj
  by_cases hji : j = i
  · subst hji
    rw [List.getElem?_set_self (by omega), List.getElem?_set_self hi]
  · rw [List.getElem?_set_ne (by omega), List.getElem?_set_ne (by omega)]
    exact h.slots j hj

/-- Closing the gap left by slot `idx`. -/
theorem erase (h : Live size buf off xs) (hi : idx < xs.length) :
    Live size (blit buf buf (off + idx) (off + idx + 1) (xs.length - idx - 1)) off
      (xs.eraseIdx idx) := by
  have hb := h.bound
  have hlen := h.size_eq
  have hcnt : (xs.eraseIdx idx).length = xs.length - 1 := by rw [List.length_eraseIdx, if_pos hi]
  refine ⟨by rw [length_blit (by omega) (by omega), hlen], by omega, fun i hi' => ?_⟩
  rw [hcnt] at hi'
  rw [getElem?_blit (by omega) (by omega), List.getElem?_eraseIdx]
  by_cases hlt : i < idx
  · rw [if_neg (by omega), if_pos hlt]
    exact h.slots i (by omega)
  · rw [if_pos (by omega), if_neg hlt, ← h.slots _ (by omega)]
    congr 1
    omega

/-- Writing the slot just past the live ones. -/
theorem push (h : Live size buf off xs) (hroom : off + xs.length < size) (x : α) :
    Live size (buf.set (off + xs.length) x) off (xs ++ [x]) := by
  have hlen := h.size_eq
  refine ⟨by rw [List.length_set, hlen], by rw [List.length_append]; exact hroom, ?_⟩
  intro i hi
  rw [List.length_append, List.length_singleton] at hi
  by_cases hix : i = xs.length
  · rw [hix, List.getElem?_set_self (by omega), List.getElem?_concat_length]
  · rw [List.getElem?_set_ne (by omega), List.getElem?_append_left (by omega)]
    exact h.slots i (by omega)

end Live

/-! ## Making room for one more slot -/

/-- Copying `cnt` slots from `start` to `dest` opens a gap: of `n` live slots
at `off`, the first `idx` come to lie from `off'` on, the others one further. -/
structure Opens (size off n idx dest start cnt off' : ℕ) : Prop where
  dest_le : dest + cnt ≤ size
  start_le : start + cnt ≤ size
  bound : off' + n + 1 ≤ size
  before : ∀ i < idx,
    (if dest ≤ off' + i ∧ off' + i < dest + cnt then start + (off' + i - dest) else off' + i) =
      off + i
  after : ∀ i, idx ≤ i → i < n →
    (if dest ≤ off' + i + 1 ∧ off' + i + 1 < dest + cnt then start + (off' + i + 1 - dest)
      else off' + i + 1) = off + i

theorem getElem?_insert {l : List α} (h : idx ≤ l.length) :
    (l.take idx ++ x :: l.drop idx)[i]? =
      if i < idx then l[i]? else if i = idx then some x else l[i - 1]? := by
  have h₁ : (l.take idx).length = idx := by simp; omega
  rw [List.getElem?_append, h₁]
  split_ifs with h₂ h₃
  · rw [List.getElem?_take_of_lt h₂]
  · simp [h₃]
  · obtain ⟨j, hj⟩ : ∃ j, i - idx = j + 1 := ⟨i - idx - 1, by omega⟩
    rw [hj, List.getElem?_cons_succ, List.getElem?_drop]
    congr 1
    omega

/-- Opening a gap and filling it inserts a slot. -/
theorem Live.insert (h : Live size buf off xs) (hidx : idx ≤ xs.length)
    (ho : Opens size off xs.length idx dest start cnt off') (x : α) :
    Live size ((blit buf buf dest start cnt).set (off' + idx) x) off'
      (xs.take idx ++ x :: xs.drop idx) := by
  have hlen := h.size_eq
  have hd := ho.dest_le
  have hs := ho.start_le
  have hb := ho.bound
  have hblit : (blit buf buf dest start cnt).length = size := by
    rw [length_blit (by omega) (by omega), hlen]
  have hcnt : (xs.take idx ++ x :: xs.drop idx).length = xs.length + 1 := by simp; omega
  have hread : ∀ i, (blit buf buf dest start cnt)[i]? =
      buf[if dest ≤ i ∧ i < dest + cnt then start + (i - dest) else i]? := fun i => by
    rw [getElem?_blit (by omega) (by omega)]
    split_ifs <;> rfl
  refine ⟨by rw [List.length_set, hblit], by omega, fun i hi => ?_⟩
  rw [hcnt] at hi
  rw [getElem?_insert hidx]
  by_cases h₁ : i < idx
  · rw [if_pos h₁, List.getElem?_set_ne (by omega), hread, ho.before i h₁]
    exact h.slots i (by omega)
  by_cases h₂ : i = idx
  · subst h₂
    rw [if_neg h₁, if_pos rfl, List.getElem?_set_self (by omega)]
  · have hprev := ho.after (i - 1) (by omega) (by omega)
    rw [show off' + (i - 1) + 1 = off' + i by omega] at hprev
    rw [if_neg h₁, if_neg h₂, List.getElem?_set_ne (by omega), hread, hprev]
    exact h.slots (i - 1) (by omega)

end Window
