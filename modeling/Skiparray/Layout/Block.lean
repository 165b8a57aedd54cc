import Skiparray.Model.Update
import Skiparray.Lib.Comparator
import Skiparray.Lib.SkipLinks

/-!
# What a skiparray in memory stands for

A skiparray is described by the list of its blocks in level-0 order: where the
node lies, how tall it is, where its window starts and which pairs it holds.

- `SkipArray.Linked` — the pointers spell the blocks on every level;
- `SkipArray.Stores` — the buffers of a node hold the pairs of its block;
- `SkipArray.Sound` — both, with the keys in order;
- `SkipArray.Wf` — and the occupancy rules of `Shape` as well.

`LinkOnly` is the frame of every function that moves pointers and no pairs.
-/

namespace Skiparray

open Window SkipLinks

variable {K V : Type}

/-- A node of a skiparray as its client sees it. -/
structure Block (K V : Type) where
  ptr : Ptr
  height : ℕ
  offset : ℕ
  pairs : List (K × V)

def Block.tower (b : Block K V) : Ptr × ℕ := (b.ptr, b.height)

@[simp] theorem Block.tower_fst (b : Block K V) : b.tower.1 = b.ptr := rfl

@[simp] theorem Block.tower_snd (b : Block K V) : b.tower.2 = b.height := rfl

def towers (bs : List (Block K V)) : List (Ptr × ℕ) := bs.map Block.tower

@[simp] theorem towers_nil : towers ([] : List (Block K V)) = [] := rfl

@[simp] theorem towers_cons (b : Block K V) (bs : List (Block K V)) :
    towers (b :: bs) = (b.ptr, b.height) :: towers bs := rfl

@[simp] theorem towers_append (as bs : List (Block K V)) :
    towers (as ++ bs) = towers as ++ towers bs := List.map_append

theorem towers_fst (bs : List (Block K V)) :
    (towers bs).map Prod.fst = bs.map Block.ptr := by
  simp [towers]

/-- The pairs of a list of blocks, in order. -/
def bindings (bs : List (Block K V)) : List (K × V) := bs.flatMap Block.pairs

@[simp] theorem bindings_nil : bindings ([] : List (Block K V)) = [] := rfl

@[simp] theorem bindings_cons (b : Block K V) (bs : List (Block K V)) :
    bindings (b :: bs) = b.pairs ++ bindings bs := rfl

@[simp] theorem bindings_append (as bs : List (Block K V)) :
    bindings (as ++ bs) = bindings as ++ bindings bs := List.flatMap_append

/-! ## Buffers -/

/-- The buffers of node `n` hold the pairs of block `b`. -/
structure Holds (s : Settings) [Inhabited V] (n : Node K V) (b : Block K V) : Prop where
  offset : n.offset = b.offset
  count : n.count = b.pairs.length
  keys : Live s.nodeSize n.keys b.offset (b.pairs.map Prod.fst)
  valuesSome : s.useValues = true → ∃ vs, n.values = some vs ∧
    Live s.nodeSize vs b.offset (b.pairs.map Prod.snd)
  valuesNone : s.useValues = false → n.values = none ∧ ∀ p ∈ b.pairs, p.2 = default

section Holds

variable [Inhabited V] {s : Settings} {n : Node K V} {b : Block K V} {i : ℕ}

theorem slot_of_getElem? {α : Type} {xs : List α} {x : α} (h : xs[i]? = some x) :
    slot xs i = .ok x := by
  rw [slot, h]

theorem slot_ok {α : Type} {xs : List α} {i : ℕ} {a : α} (h : slot xs i = .ok a) :
    xs[i]? = some a := by
  unfold slot at h
  cases hx : xs[i]? with
  | none =>
      rw [hx] at h
      cases h
  | some y =>
      rw [hx] at h
      cases h
      rfl

theorem Holds.keyAt (h : Holds s n b) {p : K × V} (hp : b.pairs[i]? = some p) :
    slot n.keys (n.offset + i) = .ok p.1 := by
  have hi : i < b.pairs.length := (List.getElem?_eq_some_iff.mp hp).1
  have hw := h.keys.slots i (by rw [List.length_map]; exact hi)
  rw [List.getElem?_map, hp, Option.map_some] at hw
  rw [h.offset]
  exact slot_of_getElem? hw

theorem Holds.bound (h : Holds s n b) : b.offset + b.pairs.length ≤ s.nodeSize := by
  simpa using h.keys.bound

theorem Holds.lastKey (h : Holds s n b) {p : K × V} (hp : b.pairs.getLast? = some p) :
    n.lastKey = .ok p.1 := by
  rw [List.getLast?_eq_getElem?] at hp
  have hi := (List.getElem?_eq_some_iff.mp hp).1
  rw [Node.lastKey, if_neg (by rw [h.count]; omega), h.count,
    Nat.add_sub_assoc (by omega)]
  exact h.keyAt hp

end Holds

/-- The value of pair `i`, as the code reads it. -/
theorem Holds.valueAt [Inhabited V] {sa : SkipArray K V} {n : Node K V} {b : Block K V} {i : ℕ}
    (h : Holds sa.toSettings n b) {p : K × V} (hp : b.pairs[i]? = some p) :
    sa.valueAt n (n.offset + i) = .ok p.2 := by
  have hi : i < b.pairs.length := (List.getElem?_eq_some_iff.mp hp).1
  unfold SkipArray.valueAt
  cases hu : sa.useValues with
  | false =>
      have hd := (h.valuesNone hu).2 p (List.mem_of_getElem? hp)
      simp [hd]
  | true =>
      obtain ⟨vs, hvs, hlive⟩ := h.valuesSome hu
      have hw := hlive.slots i (by rw [List.length_map]; exact hi)
      rw [List.getElem?_map, hp, Option.map_some] at hw
      rw [if_pos rfl, hvs, h.offset]
      exact slot_of_getElem? hw

/-! ## Pointers -/

/-- The pointers of a skiparray. -/
def SkipArray.links (sa : SkipArray K V) : Links Ptr where
  head i := sa.nodes[i]?.join
  fwd i p := ((sa.node? p).bind fun n => n.fwd[i]?).join
  back p := (sa.node? p).bind Node.back

/-- The pointers of `sa` spell the blocks `bs` on every level. -/
structure SkipArray.Linked (sa : SkipArray K V) (bs : List (Block K V)) : Prop where
  spells : sa.links.Spells sa.maxLevel (towers bs)
  nodesLen : sa.nodes.length = sa.maxLevel
  alive : ∀ b ∈ bs, ∃ n, sa.node? b.ptr = some n ∧ n.height = b.height ∧
    n.fwd.length = b.height
  top : ∀ b ∈ bs, 0 < b.height ∧ b.height ≤ sa.maxLevel

/-- A live node holds the pairs of `b`. -/
def SkipArray.Stores [Inhabited V] (sa : SkipArray K V) (b : Block K V) : Prop :=
  ∃ n, sa.node? b.ptr = some n ∧ Holds sa.toSettings n b

/-- `sa->height` is the height of the tallest block. -/
def SkipArray.Tallest (sa : SkipArray K V) (bs : List (Block K V)) : Prop :=
  (∀ b ∈ bs, b.height ≤ sa.height) ∧ ∃ b ∈ bs, b.height = sa.height

/-- The occupancy rules: only the last block may be less than half full, only
a lone one empty. -/
structure Shape (nodeSize : ℕ) (bs : List (Block K V)) : Prop where
  half : ∀ b ∈ bs.dropLast, nodeSize / 2 ≤ b.pairs.length
  nonempty : 2 ≤ bs.length → ∀ b ∈ bs, b.pairs ≠ []

/-- Settings that `skiparray_new` lets through. -/
structure Settings.Ok (s : Settings) : Prop where
  two_le : 2 ≤ s.nodeSize
  nodeSize_lt : s.nodeSize < 65536
  pos : 0 < s.maxLevel
  maxLevel_lt : s.maxLevel < 256

/-- `sa` has the blocks `bs`, ordered by `cmp`, whatever their occupancy. -/
structure SkipArray.Sound [Inhabited V] (cmp : K → K → ℤ) (sa : SkipArray K V)
    (bs : List (Block K V)) : Prop where
  settings : sa.toSettings.Ok
  linked : sa.Linked bs
  stores : ∀ b ∈ bs, sa.Stores b
  tallest : sa.Tallest bs
  offset_lt : ∀ b ∈ bs, b.offset < sa.nodeSize
  ascending : Ascending cmp (bindings bs)

/-- `sa` is a well-formed skiparray with blocks `bs`, ordered by `cmp`. -/
structure SkipArray.Wf [Inhabited V] (cmp : K → K → ℤ) (sa : SkipArray K V)
    (bs : List (Block K V)) : Prop extends sa.Sound cmp bs where
  shape : Shape sa.nodeSize bs

theorem forall_mem_middle {α : Type} {P : α → Prop} {xs ys : List α} {x : α} :
    (∀ y ∈ xs ++ x :: ys, P y) ↔ P x ∧ ∀ y ∈ xs ++ ys, P y := by
  simp only [List.forall_mem_append, List.forall_mem_cons]
  tauto

theorem eq_singleton_of_length {α : Type} {xs : List α} {x : α} (hx : x ∈ xs)
    (h : xs.length < 2) : xs = [x] := by
  match xs, h with
  | [y], _ => rw [List.mem_singleton.mp hx]

/-- Only a lone block may be empty. -/
theorem Shape.eq_singleton {nodeSize : ℕ} {bs : List (Block K V)} {c : Block K V}
    (h : Shape nodeSize bs) (hc : c ∈ bs) (hnil : c.pairs = []) : bs = [c] := by
  refine eq_singleton_of_length hc ?_
  by_contra hlen
  exact h.nonempty (by omega) c hc hnil

theorem Shape.nonempty_of {nodeSize : ℕ} {bs : List (Block K V)} {c : Block K V}
    (h : Shape nodeSize bs) (hc : c ∈ bs) (hne : c.pairs ≠ []) : ∀ b ∈ bs, b.pairs ≠ [] := by
  by_cases hlen : 2 ≤ bs.length
  · exact h.nonempty hlen
  · rw [eq_singleton_of_length hc (by omega)]
    simpa using hne

/-! ## Reading nodes and links -/

variable {sa sa' : SkipArray K V} {bs A B : List (Block K V)} {b : Block K V} {p q : Ptr}
  {n m : Node K V} {i : ℕ}

theorem SkipArray.load_eq (h : sa.node? p = some n) : sa.load (some p) = .ok n := by
  rw [SkipArray.load, h]

theorem SkipArray.lt_of_node? (h : sa.node? p = some n) : p < sa.heap.length := by
  by_contra hp
  have : sa.heap[p]? = none := List.getElem?_eq_none (Nat.le_of_not_lt hp)
  simp [SkipArray.node?, this] at h

theorem SkipArray.node?_setNode_self (h : p < sa.heap.length) :
    (sa.setNode p n).node? p = some n := by
  simp [SkipArray.node?, SkipArray.setNode, h]

theorem SkipArray.node?_setNode_ne (h : q ≠ p) : (sa.setNode p n).node? q = sa.node? q := by
  simp [SkipArray.node?, SkipArray.setNode, h.symm]

theorem SkipArray.Linked.node (h : sa.Linked bs) (hb : b ∈ bs) :
    ∃ n, sa.node? b.ptr = some n ∧ n.height = b.height ∧ n.fwd.length = b.height :=
  h.alive b hb

/-- `sa->nodes[i]` on a level that spells the blocks. -/
theorem SkipArray.headAt_eq (hlen : sa.nodes.length = sa.maxLevel) (hi : i < sa.maxLevel)
    (hl : sa.links.Level i (towers bs)) : sa.headAt i = .ok (onLevel i (towers bs)).head? := by
  rw [← hl.head_eq]
  have hlt : i < sa.nodes.length := by rw [hlen]; exact hi
  rw [SkipArray.headAt, slot, List.getElem?_eq_getElem hlt]
  simp [SkipArray.links, List.getElem?_eq_getElem hlt]

theorem SkipArray.Linked.headAt (h : sa.Linked bs) (hi : i < sa.maxLevel) :
    sa.headAt i = .ok (onLevel i (towers bs)).head? :=
  SkipArray.headAt_eq h.nodesLen hi (h.spells.level i hi)

theorem SkipArray.fwdAt_eq (h : sa.node? p = some n) (hi : i < n.fwd.length) :
    sa.fwdAt (some p) i = .ok (sa.links.fwd i p) := by
  simp [SkipArray.fwdAt, SkipArray.load_eq h, SkipArray.links, h, slot,
    List.getElem?_eq_getElem hi]

/-- `p->fwd[i]` leads to the next block on that level. -/
theorem SkipArray.Linked.fwdAt (h : sa.Linked (A ++ b :: B)) (hi : i < b.height) :
    sa.fwdAt (some b.ptr) i = .ok (onLevel i (towers B)).head? := by
  obtain ⟨n, hn, -, hlen⟩ := h.node (b := b) (by simp)
  have hm : i < sa.maxLevel := by
    have := (h.top b (by simp)).2
    omega
  have hl := h.spells.level i hm
  rw [towers_append, towers_cons] at hl
  rw [SkipArray.fwdAt_eq hn (by omega), hl.fwd_eq hi]

theorem SkipArray.links_back (h : sa.node? p = some n) : sa.links.back p = n.back := by
  simp [SkipArray.links, h]

/-- A node's back pointer is its predecessor. -/
theorem SkipArray.Linked.back (h : sa.Linked (A ++ b :: B)) (hn : sa.node? b.ptr = some n) :
    n.back = (A.map Block.ptr).getLast? := by
  have hb := h.spells.backs
  rw [towers_fst, List.map_append, backs_append, List.map_cons, backs_cons] at hb
  rw [← SkipArray.links_back hn, hb.2.1]
  simp

theorem SkipArray.Linked.ptr_nodup (h : sa.Linked bs) : (bs.map Block.ptr).Nodup := by
  rw [← towers_fst]
  exact h.spells.nodup

/-- Each block occupies a cell of its own. -/
theorem SkipArray.length_le_heap (hnodup : ((towers bs).map Prod.fst).Nodup)
    (halive : ∀ b ∈ bs, ∃ n, sa.node? b.ptr = some n) : bs.length ≤ sa.heap.length := by
  rw [towers_fst] at hnodup
  have hsub : bs.map Block.ptr ⊆ List.range sa.heap.length := by
    intro p hp
    obtain ⟨b, hb, rfl⟩ := List.mem_map.mp hp
    obtain ⟨n, hn⟩ := halive b hb
    exact List.mem_range.mpr (SkipArray.lt_of_node? hn)
  have := (List.subperm_of_subset hnodup hsub).length_le
  simpa using this

theorem SkipArray.Linked.length_le (h : sa.Linked bs) : bs.length ≤ sa.heap.length :=
  SkipArray.length_le_heap h.spells.nodup fun b hb =>
    (h.alive b hb).imp fun _ hn => hn.1

/-! ## Moving pointers only -/

/-- A node without its pointers. -/
def Node.payload (n : Node K V) : Node K V :=
  { n with back := none, fwd := List.replicate n.fwd.length none }

/-- `sa'` differs from `sa` in pointers and `height` at most. -/
structure LinkOnly (sa sa' : SkipArray K V) : Prop where
  settings : sa'.toSettings = sa.toSettings
  prngState : sa'.prngState = sa.prngState
  iter : sa'.iter = sa.iter
  iters : sa'.iters = sa.iters
  nodesLen : sa'.nodes.length = sa.nodes.length
  heapLen : sa'.heap.length = sa.heap.length
  payload : ∀ p, (sa'.node? p).map Node.payload = (sa.node? p).map Node.payload

namespace LinkOnly

theorem refl (sa : SkipArray K V) : LinkOnly sa sa := ⟨rfl, rfl, rfl, rfl, rfl, rfl, fun _ => rfl⟩

theorem trans {sa₁ sa₂ sa₃ : SkipArray K V} (h₁ : LinkOnly sa₁ sa₂) (h₂ : LinkOnly sa₂ sa₃) :
    LinkOnly sa₁ sa₃ :=
  ⟨h₂.settings.trans h₁.settings, h₂.prngState.trans h₁.prngState, h₂.iter.trans h₁.iter,
    h₂.iters.trans h₁.iters, h₂.nodesLen.trans h₁.nodesLen, h₂.heapLen.trans h₁.heapLen,
    fun p => (h₂.payload p).trans (h₁.payload p)⟩

/-- Live nodes stay alive with their payload. -/
theorem node (h : LinkOnly sa sa') (hn : sa.node? p = some n) :
    ∃ n', sa'.node? p = some n' ∧ n'.payload = n.payload := by
  have hp := h.payload p
  rw [hn, Option.map_some, Option.map_eq_some_iff] at hp
  exact hp

theorem of_setNode (hn : sa.node? p = some n) (hm : m.payload = n.payload) :
    LinkOnly sa (sa.setNode p m) := by
  refine ⟨rfl, rfl, rfl, rfl, rfl, by simp [SkipArray.setNode], fun q => ?_⟩
  by_cases hq : q = p
  · subst hq
    rw [SkipArray.node?_setNode_self (SkipArray.lt_of_node? hn), hn, Option.map_some,
      Option.map_some, hm]
  · rw [SkipArray.node?_setNode_ne hq]

end LinkOnly

theorem Node.payload_fwdLen (h : m.payload = n.payload) : m.fwd.length = n.fwd.length := by
  have := congrArg (fun x => x.fwd.length) h
  simpa [Node.payload] using this

theorem Node.payload_height (h : m.payload = n.payload) : m.height = n.height := by
  simpa [Node.payload] using congrArg Node.height h

theorem Holds.congr [Inhabited V] {s : Settings} (h : Holds s n b) (hm : m.payload = n.payload) :
    Holds s m b := by
  have hoff : m.offset = n.offset := by simpa [Node.payload] using congrArg Node.offset hm
  have hcount : m.count = n.count := by simpa [Node.payload] using congrArg Node.count hm
  have hkeys : m.keys = n.keys := by simpa [Node.payload] using congrArg Node.keys hm
  have hvalues : m.values = n.values := by simpa [Node.payload] using congrArg Node.values hm
  exact ⟨hoff.trans h.offset, hcount.trans h.count, by rw [hkeys]; exact h.keys,
    by rw [hvalues]; exact h.valuesSome, by rw [hvalues]; exact h.valuesNone⟩

theorem LinkOnly.stores [Inhabited V] (h : LinkOnly sa sa') (hb : sa.Stores b) : sa'.Stores b := by
  obtain ⟨n, hn, hh⟩ := hb
  obtain ⟨n', hn', hpay⟩ := h.node hn
  refine ⟨n', hn', ?_⟩
  rw [h.settings]
  exact hh.congr hpay

/-- What `Linked` asks of each block, apart from where its links lead. -/
theorem LinkOnly.alive (h : LinkOnly sa sa')
    (hb : ∃ n, sa.node? p = some n ∧ n.height = i ∧ n.fwd.length = i) :
    ∃ n, sa'.node? p = some n ∧ n.height = i ∧ n.fwd.length = i := by
  obtain ⟨n, hn, hh, hf⟩ := hb
  obtain ⟨n', hn', hpay⟩ := h.node hn
  exact ⟨n', hn', (Node.payload_height hpay).trans hh, (Node.payload_fwdLen hpay).trans hf⟩

/-- No node was made, and none that is left has changed its height. -/
structure Inherits (sa sa' : SkipArray K V) : Prop where
  heapLen : sa'.heap.length = sa.heap.length
  height : ∀ {p n'}, sa'.node? p = some n' → ∃ n, sa.node? p = some n ∧ n'.height = n.height

theorem Inherits.refl (sa : SkipArray K V) : Inherits sa sa := ⟨rfl, fun hn => ⟨_, hn, rfl⟩⟩

theorem Inherits.trans {sa₁ sa₂ sa₃ : SkipArray K V} (h₁ : Inherits sa₁ sa₂)
    (h₂ : Inherits sa₂ sa₃) : Inherits sa₁ sa₃ := by
  refine ⟨h₂.heapLen.trans h₁.heapLen, ?_⟩
  intro p n' hn'
  obtain ⟨n₂, hn₂, hh₂⟩ := h₂.height hn'
  obtain ⟨n₁, hn₁, hh₁⟩ := h₁.height hn₂
  exact ⟨n₁, hn₁, hh₂.trans hh₁⟩

theorem LinkOnly.inherits (h : LinkOnly sa sa') : Inherits sa sa' := by
  refine ⟨h.heapLen, ?_⟩
  intro p n' hn'
  have hp := h.payload p
  rw [hn', Option.map_some, eq_comm, Option.map_eq_some_iff] at hp
  obtain ⟨n, hn, hpay⟩ := hp
  exact ⟨n, hn, Node.payload_height hpay.symm⟩

theorem Inherits.setNode (hn : sa.node? p = some n) (hm : m.height = n.height) :
    Inherits sa (sa.setNode p m) := by
  refine ⟨by simp [SkipArray.setNode], ?_⟩
  intro q n' hn'
  by_cases hq : q = p
  · subst hq
    rw [SkipArray.node?_setNode_self (SkipArray.lt_of_node? hn), Option.some.injEq] at hn'
    exact ⟨n, hn, hn' ▸ hm⟩
  · rw [SkipArray.node?_setNode_ne hq] at hn'
    exact ⟨n', hn', rfl⟩

/-! ## The three pointer writes -/

/-- `sa'` is `sa` after writes to pointers of level `i`. -/
structure LevelStep (i : ℕ) (sa sa' : SkipArray K V) : Prop where
  linkOnly : LinkOnly sa sa'
  height : sa'.height = sa.height
  same : sa.links.SameBut i sa'.links

theorem LevelStep.refl (i : ℕ) (sa : SkipArray K V) : LevelStep i sa sa :=
  ⟨.refl sa, rfl, .refl i _⟩

theorem LevelStep.trans {sa₁ sa₂ sa₃ : SkipArray K V} (h₁ : LevelStep i sa₁ sa₂)
    (h₂ : LevelStep i sa₂ sa₃) : LevelStep i sa₁ sa₃ :=
  ⟨h₁.linkOnly.trans h₂.linkOnly, h₂.height.trans h₁.height, h₁.same.trans h₂.same⟩

theorem putSlot_of_lt {α : Type} {xs : List α} {x : α} (h : i < xs.length) :
    putSlot xs i x = .ok (xs.set i x) := if_pos h

/-- `p->fwd[i] = q` changes that pointer and nothing else. -/
theorem SkipArray.setFwd_spec (q : Option Ptr) (hn : sa.node? p = some n)
    (hi : i < n.fwd.length) :
    ∃ sa', sa.setFwd (some p) i q = .ok sa' ∧ LevelStep i sa sa' ∧
      sa'.links.head i = sa.links.head i ∧
      ∀ r, sa'.links.fwd i r = if r = p then q else sa.links.fwd i r := by
  have hlt := SkipArray.lt_of_node? hn
  have hfwd : ∀ j r, (sa.setNode p { n with fwd := n.fwd.set i q }).links.fwd j r =
      if j = i ∧ r = p then q else sa.links.fwd j r := by
    intro j r
    by_cases hr : r = p
    · subst hr
      by_cases hj : j = i
      · subst hj
        simp [SkipArray.links, SkipArray.node?_setNode_self hlt, hi]
      · simp [SkipArray.links, SkipArray.node?_setNode_self hlt, hn, hj, Ne.symm hj]
    · simp [SkipArray.links, SkipArray.node?_setNode_ne hr, hr]
  refine ⟨sa.setNode p { n with fwd := n.fwd.set i q }, ?_,
    ⟨LinkOnly.of_setNode hn (by simp [Node.payload]), rfl, fun _ _ => rfl, ?_, ?_⟩, rfl, ?_⟩
  · simp [SkipArray.setFwd, SkipArray.load_eq hn, putSlot_of_lt hi, SkipArray.store]
  · intro j hj
    funext r
    rw [hfwd, if_neg fun h => hj h.1]
  · funext r
    by_cases hr : r = p
    · subst hr
      simp [SkipArray.links, SkipArray.node?_setNode_self hlt, hn]
    · simp [SkipArray.links, SkipArray.node?_setNode_ne hr]
  · intro r
    simp [hfwd]

/-- `p->back = q` changes that pointer and nothing else. -/
theorem SkipArray.setBack_spec (q : Option Ptr) (hn : sa.node? p = some n) :
    ∃ sa', sa.setBack (some p) q = .ok sa' ∧ LinkOnly sa sa' ∧ sa'.height = sa.height ∧
      sa'.links.head = sa.links.head ∧ sa'.links.fwd = sa.links.fwd ∧
      ∀ r, sa'.links.back r = if r = p then q else sa.links.back r := by
  have hlt := SkipArray.lt_of_node? hn
  refine ⟨sa.setNode p { n with back := q }, ?_, ?_, rfl, rfl, ?_, ?_⟩
  · simp [SkipArray.setBack, SkipArray.load_eq hn, SkipArray.store]
  · exact LinkOnly.of_setNode hn rfl
  · funext j r
    by_cases hr : r = p
    · subst hr
      simp [SkipArray.links, SkipArray.node?_setNode_self hlt, hn]
    · simp [SkipArray.links, SkipArray.node?_setNode_ne hr]
  · intro r
    by_cases hr : r = p
    · subst hr
      simp [SkipArray.links, SkipArray.node?_setNode_self hlt]
    · simp [SkipArray.links, SkipArray.node?_setNode_ne hr, hr]

/-- `sa->nodes[i] = q` changes that pointer and nothing else. -/
theorem SkipArray.setHead_spec (q : Option Ptr) (hi : i < sa.nodes.length) :
    ∃ sa', sa.setHead i q = .ok sa' ∧ LevelStep i sa sa' ∧
      sa'.links.head i = q ∧ sa'.links.fwd i = sa.links.fwd i := by
  refine ⟨{ sa with nodes := sa.nodes.set i q }, ?_,
    ⟨⟨rfl, rfl, rfl, rfl, by simp, rfl, fun _ => rfl⟩, rfl, ?_, fun _ _ => rfl, rfl⟩, ?_, rfl⟩
  · simp [SkipArray.setHead, putSlot_of_lt hi]
  · intro j hj
    simp [SkipArray.links, Ne.symm hj]
  · simp [SkipArray.links, hi]

/-! ## Changes that keep the links -/

/-- Exchanging a block for one of the same height. -/
theorem SkipArray.Tallest.replace {C : List (Block K V)} {b' : Block K V}
    (h : sa.Tallest (A ++ b :: C)) (hb : b'.height = b.height) (hsa : sa'.height = sa.height) :
    sa'.Tallest (A ++ b' :: C) := by
  obtain ⟨hle, t, ht, hth⟩ := h
  rw [SkipArray.Tallest, hsa]
  refine ⟨?_, ?_⟩
  · rw [forall_mem_middle] at hle ⊢
    exact ⟨hb ▸ hle.1, hle.2⟩
  · rcases List.mem_append.mp ht with ht | ht
    · exact ⟨t, by simp [ht], hth⟩
    rcases List.mem_cons.mp ht with rfl | ht
    · exact ⟨b', by simp, hb.trans hth⟩
    · exact ⟨t, by simp [ht], hth⟩

/-- What a skiparray stands for is in its settings, heads, heap and height. -/
theorem SkipArray.Sound.of_body [Inhabited V] {cmp : K → K → ℤ} (h : sa.Sound cmp bs)
    (hset : sa'.toSettings = sa.toSettings) (hheight : sa'.height = sa.height)
    (hnodes : sa'.nodes = sa.nodes) (hheap : sa'.heap = sa.heap) : sa'.Sound cmp bs := by
  obtain ⟨s, height, prng, iter, nodes, heap, iters⟩ := sa
  obtain ⟨s', height', prng', iter', nodes', heap', iters'⟩ := sa'
  simp only at hset hheight hnodes hheap
  subst hset hheight hnodes hheap
  exact ⟨h.settings, ⟨h.linked.spells, h.linked.nodesLen, h.linked.alive, h.linked.top⟩,
    h.stores, h.tallest, h.offset_lt, h.ascending⟩

/-- The links a list of blocks asks for depend on its towers only. -/
theorem SkipArray.Linked.of_towers (h : sa.Linked A) (ht : towers B = towers A) :
    sa.Linked B := by
  have hmem : ∀ b ∈ B, ∃ a ∈ A, a.ptr = b.ptr ∧ a.height = b.height := by
    intro b hb
    have : b.tower ∈ towers A := ht ▸ List.mem_map_of_mem hb
    obtain ⟨a, ha, hab⟩ := List.mem_map.mp this
    exact ⟨a, ha, congrArg Prod.fst hab, congrArg Prod.snd hab⟩
  refine ⟨ht ▸ h.spells, h.nodesLen, fun b hb => ?_, fun b hb => ?_⟩
  · obtain ⟨a, ha, hp, hh⟩ := hmem b hb
    rw [← hp, ← hh]
    exact h.alive a ha
  · obtain ⟨a, ha, -, hh⟩ := hmem b hb
    rw [← hh]
    exact h.top a ha

end Skiparray
