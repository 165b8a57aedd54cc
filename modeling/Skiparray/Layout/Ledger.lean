import Skiparray.Layout.NodeOps
import Skiparray.Lib.Fallible

/-!
# The memory ledger

`Ledger` balances the memory blocks that were granted since some point against
those released since and those still in use. Each step of an allocation keeps
the balance.
-/

namespace Skiparray

open Fallible

variable {K V U : Type}

/-- A request leaves all but the count of requests as it is. -/
theorem Ctx.alloc_keeps {cb : Callbacks K U} {c c' : Ctx K V U} {o : Option ℕ}
    (h : c.alloc cb = (o, c')) : c'.freed = c.freed ∧ c'.udata = c.udata := by
  unfold Ctx.alloc at h
  rw [Prod.mk.injEq] at h
  rw [← h.2]
  exact ⟨rfl, rfl⟩

/-- The requests from number `first` up to `last` that are met. -/
def Callbacks.granted (cb : Callbacks K U) (first last : ℕ) : List ℕ :=
  (List.range' first (last - first)).filter cb.grant

/-- Since `c₀`, the memory granted has been released, up to `live`. -/
structure Ledger (cb : Callbacks K U) (c₀ c : Ctx K V U) (live : Multiset ℕ) : Prop where
  le : c₀.requests ≤ c.requests
  balance : (c.released : Multiset ℕ) + live =
    c₀.released + (cb.granted c₀.requests c.requests : Multiset ℕ)

section Steps

variable {cb : Callbacks K U} {c₀ c c' : Ctx K V U} {live : Multiset ℕ} {n : ℕ}

theorem Ledger.refl (cb : Callbacks K U) (c : Ctx K V U) : Ledger cb c c 0 :=
  ⟨le_refl _, by simp [Callbacks.granted]⟩

theorem Ledger.congr (h : Ledger cb c₀ c live) (hreq : c'.requests = c.requests)
    (hrel : c'.released = c.released) : Ledger cb c₀ c' live :=
  ⟨hreq ▸ h.le, by rw [hrel, hreq, h.balance]⟩

/-- A request that is met adds a block to those in use. -/
theorem Ledger.granted (h : Ledger cb c₀ c live) (hg : cb.grant c.requests = true) :
    Ledger cb c₀ { c with requests := c.requests + 1 } (c.requests ::ₘ live) := by
  have hle := h.le
  refine ⟨by simp only; omega, ?_⟩
  have hstep : cb.granted c₀.requests (c.requests + 1) =
      cb.granted c₀.requests c.requests ++ [c.requests] := by
    unfold Callbacks.granted
    rw [show c.requests + 1 - c₀.requests = c.requests - c₀.requests + 1 by omega,
      List.range'_concat, List.filter_append]
    simp only [one_mul, Nat.add_sub_cancel' hle]
    simp [hg]
  rw [hstep, ← Multiset.coe_add, ← add_assoc, ← h.balance]
  simp only [← Multiset.singleton_add, Multiset.coe_singleton]
  abel

/-- A request that fails adds none. -/
theorem Ledger.refused (h : Ledger cb c₀ c live) (hg : ¬ cb.grant c.requests = true) :
    Ledger cb c₀ { c with requests := c.requests + 1 } live := by
  have hle := h.le
  refine ⟨by simp only; omega, ?_⟩
  have hstep : cb.granted c₀.requests (c.requests + 1) = cb.granted c₀.requests c.requests := by
    unfold Callbacks.granted
    rw [show c.requests + 1 - c₀.requests = c.requests - c₀.requests + 1 by omega,
      List.range'_concat, List.filter_append]
    simp only [one_mul, Nat.add_sub_cancel' hle]
    simp [hg]
  rw [hstep]
  exact h.balance

theorem Ledger.alloc_some (h : Ledger cb c₀ c live) (ha : c.alloc cb = (some n, c')) :
    Ledger cb c₀ c' (n ::ₘ live) := by
  unfold Ctx.alloc at ha
  rw [Prod.mk.injEq] at ha
  obtain ⟨hn, rfl⟩ := ha
  split_ifs at hn with hg
  cases hn
  exact h.granted hg

theorem Ledger.alloc_none (h : Ledger cb c₀ c live) (ha : c.alloc cb = (none, c')) :
    Ledger cb c₀ c' live := by
  unfold Ctx.alloc at ha
  rw [Prod.mk.injEq] at ha
  obtain ⟨hn, rfl⟩ := ha
  split_ifs at hn with hg
  exact h.refused hg

theorem Ledger.release (h : Ledger cb c₀ c (n ::ₘ live)) : Ledger cb c₀ (c.release n) live := by
  refine ⟨h.le, ?_⟩
  have hb := h.balance
  simp only [Ctx.release, ← Multiset.cons_coe, ← Multiset.singleton_add] at hb ⊢
  rw [← hb]
  abel

/-- Accounts of two stretches of time make one. -/
theorem Ledger.trans {c₁ : Ctx K V U} {live' : Multiset ℕ} (h : Ledger cb c₀ c₁ live)
    (h' : Ledger cb c₁ c live') : Ledger cb c₀ c (live' + live) := by
  refine ⟨h.le.trans h'.le, ?_⟩
  have hsplit : cb.granted c₀.requests c.requests =
      cb.granted c₀.requests c₁.requests ++ cb.granted c₁.requests c.requests := by
    have hle := h.le
    have hle' := h'.le
    unfold Callbacks.granted
    rw [← List.filter_append]
    congr 1
    have hrange : List.range' c₀.requests (c₁.requests - c₀.requests) 1 ++
        List.range' (c₀.requests + 1 * (c₁.requests - c₀.requests)) (c.requests - c₁.requests) 1 =
          List.range' c₀.requests _ 1 := List.range'_append
    rw [one_mul, Nat.add_sub_cancel' hle] at hrange
    rw [hrange]
    congr 1
    omega
  rw [hsplit, ← Multiset.coe_add, ← add_assoc, h'.balance, add_right_comm, h.balance, add_assoc]

theorem Ledger.releases {blocks : List ℕ} (h : Ledger cb c₀ c (blocks + live)) :
    Ledger cb c₀ (blocks.foldl Ctx.release c) live := by
  induction blocks generalizing c with
  | nil => simpa using h
  | cons n blocks ih =>
      apply ih
      apply Ledger.release
      rwa [← Multiset.cons_coe, Multiset.cons_add] at h

/-- From `c` to `c'` the memory in use has gone from `held` to `held'`. -/
def Trades (cb : Callbacks K U) (c : Ctx K V U) (held : Multiset ℕ) (c' : Ctx K V U)
    (held' : Multiset ℕ) : Prop :=
  ∀ c₀ live, Ledger cb c₀ c (held + live) → Ledger cb c₀ c' (held' + live)

namespace Trades

variable {c₁ : Ctx K V U} {held held₁ held' : Multiset ℕ}

theorem refl (c : Ctx K V U) (held : Multiset ℕ) : Trades cb c held c held :=
  fun _ _ hl => hl

theorem trans (h₁ : Trades cb c held c₁ held₁) (h₂ : Trades cb c₁ held₁ c' held') :
    Trades cb c held c' held' :=
  fun c₀ live hl => h₂ c₀ live (h₁ c₀ live hl)

/-- The same with more in hand. -/
theorem frame (h : Trades cb c held c' held') (more : Multiset ℕ) :
    Trades cb c (held + more) c' (held' + more) := by
  intro c₀ live hl
  rw [add_assoc] at hl ⊢
  exact h c₀ _ hl

theorem releases (blocks : List ℕ) (held : Multiset ℕ) :
    Trades cb c (blocks + held) (blocks.foldl Ctx.release c) held := by
  intro c₀ live hl
  apply Ledger.releases
  rwa [← add_assoc]

theorem release (n : ℕ) (held : Multiset ℕ) : Trades cb c (n ::ₘ held) (c.release n) held := by
  intro c₀ live hl
  apply Ledger.release
  rwa [← Multiset.cons_add]

theorem alloc_some (ha : c.alloc cb = (some n, c')) (held : Multiset ℕ) :
    Trades cb c held c' (n ::ₘ held) := by
  intro c₀ live hl
  rw [Multiset.cons_add]
  exact hl.alloc_some ha

theorem alloc_none (ha : c.alloc cb = (none, c')) (held : Multiset ℕ) : Trades cb c held c' held :=
  fun _ _ hl => hl.alloc_none ha

end Trades

end Steps

/-! ## The memory of a layout -/

section Layout

variable {sa : SkipArray K V} {bs bs' : List (Block K V)}

theorem Node.payload_blocks {m n : Node K V} (h : m.payload = n.payload) :
    m.blocks = n.blocks := by
  have hv : m.values = n.values := by simpa [Node.payload] using congrArg Node.values h
  have hb : m.block = n.block := by simpa [Node.payload] using congrArg Node.block h
  have hk : m.keysBlock = n.keysBlock := by simpa [Node.payload] using congrArg Node.keysBlock h
  have hvb : m.valuesBlock = n.valuesBlock := by
    simpa [Node.payload] using congrArg Node.valuesBlock h
  rw [Node.blocks, Node.blocks, hv, hb, hk, hvb]

/-- The memory blocks of a skiparray. -/
def SkipArray.blocks (sa : SkipArray K V) (bs : List (Block K V)) : List ℕ :=
  sa.block :: bs.flatMap fun b => (sa.node? b.ptr).elim [] Node.blocks

theorem SkipArray.blocks_eq_flatMap (sa : SkipArray K V) (bs : List (Block K V)) :
    sa.blocks bs =
      sa.block :: (bs.map Block.ptr).flatMap fun p => (sa.node? p).elim [] Node.blocks := by
  rw [SkipArray.blocks, List.flatMap_map]

/-- It depends on the nodes alone. -/
theorem SkipArray.blocks_congr (sa : SkipArray K V) (h : bs'.map Block.ptr = bs.map Block.ptr) :
    sa.blocks bs' = sa.blocks bs := by
  rw [SkipArray.blocks_eq_flatMap, h, ← SkipArray.blocks_eq_flatMap]

theorem Trades.of_ptrs (cb : Callbacks K U) (c : Ctx K V U) (sa : SkipArray K V)
    (h : bs'.map Block.ptr = bs.map Block.ptr) : Trades cb c (sa.blocks bs) c (sa.blocks bs') := by
  rw [sa.blocks_congr h]
  exact .refl _ _

/-- Their order only affects the order of the blocks. -/
theorem SkipArray.blocks_perm (sa : SkipArray K V)
    (hp : (bs.map Block.ptr).Perm (bs'.map Block.ptr)) :
    (sa.blocks bs : Multiset ℕ) = sa.blocks bs' := by
  rw [SkipArray.blocks_eq_flatMap, SkipArray.blocks_eq_flatMap, Multiset.coe_eq_coe]
  exact (hp.flatMap_right _).cons _

theorem LinkOnly.blocks {sa sa' : SkipArray K V} (h : LinkOnly sa sa') (bs : List (Block K V)) :
    sa'.blocks bs = sa.blocks bs := by
  unfold SkipArray.blocks
  rw [h.settings]
  congr 1
  refine List.flatMap_congr ?_
  intro x _
  have hp := h.payload x.ptr
  cases hn : sa.node? x.ptr with
  | none =>
      rw [hn, Option.map_none, Option.map_eq_none_iff] at hp
      rw [hp]
  | some n =>
      obtain ⟨n', hn', hpay⟩ := h.node hn
      rw [hn']
      exact Node.payload_blocks hpay

theorem SkipArray.blocks_setNode {sa : SkipArray K V} {p : Ptr} {n m : Node K V}
    (hn : sa.node? p = some n) (hs : n.SameLinks m) :
    (sa.setNode p m).blocks bs = sa.blocks bs := by
  unfold SkipArray.blocks
  congr 1
  refine List.flatMap_congr ?_
  intro y _
  by_cases hy : y.ptr = p
  · rw [hy, SkipArray.node?_setNode_self (SkipArray.lt_of_node? hn), hn]
    exact hs.blocks
  · rw [SkipArray.node?_setNode_ne hy]

end Layout

variable [Inhabited K] [Inhabited V]

/-- A new node accounts for the requests made for it. -/
theorem nodeAlloc_ledger {cb : Callbacks K U} {height nodeSize : ℕ} {useValues : Bool}
    {c₀ c c' : Ctx K V U} {r : Option (Node K V)} {live : Multiset ℕ} (h : Ledger cb c₀ c live)
    (ha : nodeAlloc cb height nodeSize useValues c = .ok (r, c')) :
    Ledger cb c₀ c' ((r.elim [] Node.blocks : List ℕ) + live) := by
  unfold nodeAlloc at ha
  obtain ⟨-, -, ha⟩ := bind_eq_ok.mp ha
  obtain ⟨-, -, ha⟩ := bind_eq_ok.mp ha
  rcases h₁ : c.alloc cb with ⟨_ | block, c₁⟩
  · rw [h₁] at ha
    cases ha
    simpa using h.alloc_none h₁
  rw [h₁] at ha
  have l₁ := h.alloc_some h₁
  rcases h₂ : c₁.alloc cb with ⟨_ | keysBlock, c₂⟩
  · simp only [h₂] at ha
    cases ha
    simpa using (l₁.alloc_none h₂).release
  simp only [h₂] at ha
  have l₂ := l₁.alloc_some h₂
  cases hu : useValues with
  | false =>
      rw [hu] at ha
      cases ha
      rw [← Multiset.singleton_add, ← Multiset.singleton_add block, ← add_assoc] at l₂
      exact l₂
  | true =>
      rcases h₃ : c₂.alloc cb with ⟨_ | valuesBlock, c₃⟩
      · simp only [hu, h₃, if_true] at ha
        cases ha
        have l₃ := l₂.alloc_none h₃
        rw [Multiset.cons_swap] at l₃
        simpa using l₃.release.release
      · simp only [hu, h₃, if_true] at ha
        cases ha
        have l₃ := l₂.alloc_some h₃
        rw [Multiset.cons_swap, ← Multiset.singleton_add, ← Multiset.singleton_add valuesBlock,
          ← Multiset.singleton_add block, ← add_assoc, ← add_assoc] at l₃
        exact l₃

end Skiparray
