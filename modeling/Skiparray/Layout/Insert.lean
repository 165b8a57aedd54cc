import Skiparray.Layout.Ledger
import Skiparray.Layout.Link
import Skiparray.Layout.NodeOps

/-!
# Insertion

Splitting a full node, and inserting a pair into a node that has room. The
level callback may answer anything: the height of a split-off node is clamped.
-/

namespace Skiparray

open SkipLinks Fallible Window

variable {K V U : Type}

/-- Every allocation request is met. -/
def Callbacks.AllGranted (cb : Callbacks K U) : Prop := ∀ i, cb.grant i = true

theorem Ctx.alloc_refused {cb : Callbacks K U} {c c' : Ctx K V U} (h : c.alloc cb = (none, c')) :
    ¬ cb.AllGranted := by
  intro hg
  simp [Ctx.alloc, hg _] at h

/-- What every mutation leaves alone. -/
structure Keeps (sa sa' : SkipArray K V) : Prop where
  settings : sa'.toSettings = sa.toSettings
  iter : sa'.iter = sa.iter
  iters : sa'.iters = sa.iters

theorem Keeps.refl (sa : SkipArray K V) : Keeps sa sa := ⟨rfl, rfl, rfl⟩

theorem Keeps.trans {sa₁ sa₂ sa₃ : SkipArray K V} (h₁ : Keeps sa₁ sa₂) (h₂ : Keeps sa₂ sa₃) :
    Keeps sa₁ sa₃ :=
  ⟨h₂.settings.trans h₁.settings, h₂.iter.trans h₁.iter, h₂.iters.trans h₁.iters⟩

theorem LinkOnly.keeps {sa sa' : SkipArray K V} (h : LinkOnly sa sa') : Keeps sa sa' :=
  ⟨h.settings, h.iter, h.iters⟩

/-! ## New nodes -/

section Alloc

variable [Inhabited K] [Inhabited V] {s : Settings} {n : Node K V}

/-- A node as `node_alloc` leaves it. -/
structure FreshNode (s : Settings) (height : ℕ) (n : Node K V) : Prop where
  height_eq : n.height = height
  fwd : n.fwd = List.replicate height none
  back : n.back = none
  holds : ∀ p, Holds s n ⟨p, height, s.nodeSize / 2, []⟩

theorem nodeAlloc_spec (cb : Callbacks K U) (hs : s.Ok) {height : ℕ} (hpos : 1 ≤ height)
    (c : Ctx K V U) :
    ∃ r c', nodeAlloc cb height s.nodeSize s.useValues c = .ok (r, c') ∧ c'.freed = c.freed ∧
      c'.udata = c.udata ∧ (∀ n, r = some n → FreshNode s height n) ∧
      (cb.AllGranted → r ≠ none) := by
  have hhalf : s.nodeSize / 2 ≤ s.nodeSize := Nat.div_le_self ..
  have hkeys := Live.replicate (x := (default : K)) hhalf
  have hvals := Live.replicate (x := (default : V)) hhalf
  rw [nodeAlloc, check_of_pos hpos, ok_bind, check_of_pos hs.two_le, ok_bind]
  simp only [Ctx.alloc]
  by_cases h₁ : cb.grant c.requests = true
  · rw [if_pos h₁]
    simp only
    by_cases h₂ : cb.grant (c.requests + 1) = true
    · rw [if_pos h₂]
      simp only
      cases hu : s.useValues with
      | false =>
          simp only [Bool.false_eq_true, if_false]
          refine ⟨_, _, rfl, rfl, rfl, fun n hn => ?_, by simp⟩
          cases hn
          exact ⟨rfl, rfl, rfl, fun p => ⟨rfl, rfl, hkeys, fun h => by simp [hu] at h,
            fun _ => ⟨rfl, by simp⟩⟩⟩
      | true =>
          simp only [if_true]
          by_cases h₃ : cb.grant (c.requests + 1 + 1) = true
          · rw [if_pos h₃]
            refine ⟨_, _, rfl, rfl, rfl, fun n hn => ?_, by simp⟩
            cases hn
            exact ⟨rfl, rfl, rfl, fun p => ⟨rfl, rfl, hkeys, fun _ => ⟨_, rfl, hvals⟩,
              fun h => by simp [hu] at h⟩⟩
          · rw [if_neg h₃]
            exact ⟨_, _, rfl, rfl, rfl, by simp, fun hg => absurd (hg _) h₃⟩
    · rw [if_neg h₂]
      exact ⟨_, _, rfl, rfl, rfl, by simp, fun hg => absurd (hg _) h₂⟩
  · rw [if_neg h₁]
    exact ⟨_, _, rfl, rfl, rfl, by simp, fun hg => absurd (hg _) h₁⟩

/-- The height of a node that is split off or appended, when the level callback
answered `x`. -/
def newHeight (maxLevel : ℕ) (x : ℤ) : ℕ :=
  u8 ((if maxLevel ≤ u8 (x + 1) then maxLevel - 1 else u8 (x + 1) : ℕ) + 1)

/-- It lies between 1 and `max_level`, whatever the answer was. -/
theorem newHeight_bounds (hs : s.Ok) (x : ℤ) :
    1 ≤ newHeight s.maxLevel x ∧ newHeight s.maxLevel x ≤ s.maxLevel := by
  have hpos := hs.pos
  have hlt := hs.maxLevel_lt
  unfold newHeight
  generalize hl : (if s.maxLevel ≤ u8 (x + 1) then s.maxLevel - 1 else u8 (x + 1)) = level
  have hle : level < s.maxLevel := by
    rw [← hl]
    split_ifs <;> omega
  have : u8 ((level : ℤ) + 1) = level + 1 := by exact_mod_cast u8_of_lt (n := level + 1) (by omega)
  omega

/-- What the level callback answers for the next node. -/
def SkipArray.nextLevel (cb : Callbacks K U) (sa : SkipArray K V) (c : Ctx K V U) : ℤ :=
  (callLevel cb sa.level sa.prngState sa.prngState c.udata).1

end Alloc

/-! ## The arena grows -/

section Push

variable {sa : SkipArray K V} {bs : List (Block K V)} {n m : Node K V} {p : Ptr}

theorem SkipArray.node?_pushNode (hn : sa.node? p = some n) : (sa.pushNode m).node? p = some n := by
  have hlt := SkipArray.lt_of_node? hn
  rw [← hn]
  simp [SkipArray.node?, SkipArray.pushNode, List.getElem?_append_left hlt]

theorem SkipArray.node?_pushNode_self : (sa.pushNode m).node? sa.heap.length = some m := by
  simp [SkipArray.node?, SkipArray.pushNode]

theorem SkipArray.Linked.pushNode (h : sa.Linked bs) : (sa.pushNode m).Linked bs := by
  have hagree : ∀ {p}, p ∈ (towers bs).map Prod.fst →
      (sa.pushNode m).node? p = sa.node? p := by
    intro p hp
    rw [towers_fst] at hp
    obtain ⟨b, hb, rfl⟩ := List.mem_map.mp hp
    obtain ⟨n, hn, -⟩ := h.alive b hb
    rw [hn, SkipArray.node?_pushNode hn]
  refine ⟨⟨h.spells.nodup, fun i hi => ?_, ?_⟩, h.nodesLen, fun b hb => ?_, h.top⟩
  · refine (h.spells.level i hi).congr rfl fun p hp => ?_
    simp only [SkipArray.links, hagree (onLevel_subset hp)]
  · refine h.spells.backs.congr fun p hp => ?_
    simp only [SkipArray.links, hagree hp]
  · obtain ⟨n, hn, hh⟩ := h.alive b hb
    exact ⟨n, SkipArray.node?_pushNode hn, hh⟩

theorem SkipArray.Stores.pushNode [Inhabited V] {b : Block K V} (h : sa.Stores b) :
    (sa.pushNode m).Stores b := by
  obtain ⟨n, hn, hh⟩ := h
  exact ⟨n, SkipArray.node?_pushNode hn, hh⟩

/-- One node was made, of height `height`. -/
structure Gains (height : ℕ) (sa sa' : SkipArray K V) : Prop where
  heapLen : sa'.heap.length = sa.heap.length + 1
  old : ∀ {p n'}, sa'.node? p = some n' → p ≠ sa.heap.length →
    ∃ n, sa.node? p = some n ∧ n'.height = n.height
  new : ∀ {n'}, sa'.node? sa.heap.length = some n' → n'.height = height

theorem Gains.pushNode : Gains m.height sa (sa.pushNode m) := by
  refine ⟨by simp [SkipArray.pushNode], ?_, ?_⟩
  · intro p n' hn' hp
    have hlt := SkipArray.lt_of_node? hn'
    have hlt' : p < sa.heap.length := by
      simp only [SkipArray.pushNode, List.length_append, List.length_singleton] at hlt
      exact lt_of_le_of_ne (Nat.le_of_lt_succ hlt) hp
    refine ⟨n', ?_, rfl⟩
    rw [← hn']
    simp [SkipArray.node?, SkipArray.pushNode, List.getElem?_append_left hlt']
  · intro n' hn'
    rw [SkipArray.node?_pushNode_self, Option.some.injEq] at hn'
    rw [hn']

theorem Gains.trans {height : ℕ} {sa₁ sa₂ : SkipArray K V} (h₁ : Gains height sa sa₁)
    (h₂ : Inherits sa₁ sa₂) : Gains height sa sa₂ := by
  refine ⟨h₂.heapLen.trans h₁.heapLen, ?_, ?_⟩
  · intro p n' hn' hp
    obtain ⟨n₁, hn₁, hh₁⟩ := h₂.height hn'
    obtain ⟨n, hn, hh⟩ := h₁.old hn₁ hp
    exact ⟨n, hn, hh₁.trans hh⟩
  · intro n' hn'
    obtain ⟨n₁, hn₁, hh₁⟩ := h₂.height hn'
    exact hh₁.trans (h₁.new hn₁)

end Push

/-! ## Occupancy around one block -/

section Shape

variable {nodeSize : ℕ} {A C : List (Block K V)} {b b' : Block K V}

theorem shape_middle_iff : Shape nodeSize (A ++ b :: C) ↔
    ((∀ x ∈ A, nodeSize / 2 ≤ x.pairs.length) ∧ (C ≠ [] → nodeSize / 2 ≤ b.pairs.length) ∧
      ∀ x ∈ C.dropLast, nodeSize / 2 ≤ x.pairs.length) ∧
    (A ++ C ≠ [] → b.pairs ≠ [] ∧ ∀ x ∈ A ++ C, x.pairs ≠ []) := by
  have hhalf : (∀ x ∈ (A ++ b :: C).dropLast, nodeSize / 2 ≤ x.pairs.length) ↔
      (∀ x ∈ A, nodeSize / 2 ≤ x.pairs.length) ∧ (C ≠ [] → nodeSize / 2 ≤ b.pairs.length) ∧
        ∀ x ∈ C.dropLast, nodeSize / 2 ≤ x.pairs.length := by
    rw [List.dropLast_append_of_ne_nil (by simp)]
    cases C with
    | nil => simp
    | cons c C =>
        rw [List.dropLast_cons_of_ne_nil (by simp)]
        simp only [List.forall_mem_append, List.forall_mem_cons]
        simp
  have hlen : 2 ≤ (A ++ b :: C).length ↔ A ++ C ≠ [] := by
    rw [← List.length_pos_iff]
    simp only [List.length_append, List.length_cons]
    omega
  constructor
  · rintro ⟨h₁, h₂⟩
    exact ⟨hhalf.mp h₁, fun hne => forall_mem_middle.mp (h₂ (hlen.mpr hne))⟩
  · rintro ⟨h₁, h₂⟩
    exact ⟨hhalf.mpr h₁, fun hne => forall_mem_middle.mpr (h₂ (hlen.mp hne))⟩

/-- A block may hold more. -/
theorem Shape.grow (h : Shape nodeSize (A ++ b :: C)) (hle : b.pairs.length ≤ b'.pairs.length)
    (hne : b'.pairs ≠ []) : Shape nodeSize (A ++ b' :: C) := by
  rw [shape_middle_iff] at h ⊢
  exact ⟨⟨h.1.1, fun hC => le_trans (h.1.2.1 hC) hle, h.1.2.2⟩, fun hAC => ⟨hne, (h.2 hAC).2⟩⟩

end Shape

/-! ## Splitting -/

section Split

variable [Inhabited K] [Inhabited V] {cmp : K → K → ℤ} {sa : SkipArray K V}
  {A C : List (Block K V)} {b : Block K V}

/-- The first half of a block that is split: what stays. -/
def Block.firstHalf (b : Block K V) : Block K V :=
  { b with pairs := b.pairs.take (b.pairs.length - b.pairs.length / 2) }

/-- The second half of a block that is split: what the new node gets. -/
def Block.secondHalf (b : Block K V) (p : Ptr) (height : ℕ) : Block K V :=
  ⟨p, height, 0, b.pairs.drop (b.pairs.length - b.pairs.length / 2)⟩

omit [Inhabited K] [Inhabited V] in
theorem bindings_halves (b : Block K V) (p : Ptr) (height : ℕ) :
    bindings (A ++ b.firstHalf :: b.secondHalf p height :: C) = bindings (A ++ b :: C) := by
  simp only [bindings_append, bindings_cons, Block.firstHalf, Block.secondHalf]
  rw [← List.append_assoc (b.pairs.take _), List.take_append_drop]

omit [Inhabited K] in
/-- The memory of a new last node comes on top. -/
theorem SkipArray.Sound.blocks_pushNode {sa : SkipArray K V} (h : sa.Sound cmp bs) (n : Node K V)
    (new : Block K V) (hp : new.ptr = sa.heap.length) :
    (sa.pushNode n).blocks (bs ++ [new]) = sa.blocks bs ++ n.blocks := by
  unfold SkipArray.blocks
  rw [List.flatMap_append, List.flatMap_singleton, hp, SkipArray.node?_pushNode_self,
    List.cons_append]
  congr 2
  refine List.flatMap_congr ?_
  intro y hy
  obtain ⟨m, hm, -⟩ := h.linked.node hy
  rw [SkipArray.node?_pushNode hm, hm]

omit [Inhabited K] in
/-- Moving the second half of a block to a fresh node. -/
theorem splitInto_spec (h : sa.Sound cmp (A ++ b :: C)) (hne : ∀ x ∈ A ++ b :: C, x.pairs ≠ [])
    (hlen : 2 ≤ b.pairs.length) {nd : Node K V} {height : ℕ}
    (hf : FreshNode sa.toSettings height nd) (hpos : 1 ≤ height) (hmax : height ≤ sa.maxLevel) :
    ∃ sa', splitInto sa (some b.ptr) nd = .ok (sa.heap.length, sa') ∧ Keeps sa sa' ∧
      Gains height sa sa' ∧
      Splitting cmp sa' A b.firstHalf (b.secondHalf sa.heap.length height) C ∧
      sa'.Linked (A ++ b.firstHalf :: C) ∧ sa'.Tallest (A ++ b.firstHalf :: C) ∧
      sa'.links.back sa.heap.length = some b.ptr ∧ (∀ i, sa'.links.fwd i sa.heap.length = none) ∧
      (∀ x ∈ A ++ b.firstHalf :: b.secondHalf sa.heap.length height :: C,
        x.offset < sa'.nodeSize) ∧
      (sa'.blocks (A ++ b.firstHalf :: b.secondHalf sa.heap.length height :: C) : Multiset ℕ) =
        nd.blocks + sa.blocks (A ++ b :: C) := by
  obtain ⟨n, hn, hh⟩ := h.stores b (by simp)
  have hnd := hf.holds sa.heap.length
  have hcount := hh.count
  have hbound := hh.bound
  have hsize := h.settings.nodeSize_lt
  have htwo := h.settings.two_le
  have hlt := SkipArray.lt_of_node? hn
  -- the new node gets the second half
  obtain ⟨nw, hmove, hnw, hsame, hnwoff, hnwcnt⟩ :=
    (hnd.moveEmpty rfl (Nat.zero_le _)).append hh
      (show b.pairs.length - b.pairs.length / 2 + b.pairs.length / 2 ≤ b.pairs.length by omega)
      (show 0 + 0 + b.pairs.length / 2 ≤ sa.nodeSize by omega)
  have htail : (b.pairs.drop (b.pairs.length - b.pairs.length / 2)).take (b.pairs.length / 2) =
      b.pairs.drop (b.pairs.length - b.pairs.length / 2) :=
    List.take_of_length_le (by rw [List.length_drop]; omega)
  simp only [List.length_nil, Nat.add_zero, Nat.zero_add, List.nil_append, htail] at hmove hnw hsame
  have hstart : n.offset + b.pairs.length - b.pairs.length / 2 =
      b.offset + (b.pairs.length - b.pairs.length / 2) := by
    rw [hh.offset]
    omega
  have hcnt : u16 ((nw.count : ℤ) + (b.pairs.length / 2 : ℕ)) = b.pairs.length / 2 := by
    rw [hnwcnt, hnd.count]
    simpa using u16_of_lt (n := b.pairs.length / 2) (by omega)
  -- the old one keeps the first
  have hkeep := hh.take (b.pairs.length - b.pairs.length / 2)
  have hlenkeep : (b.pairs.take (b.pairs.length - b.pairs.length / 2)).length =
      b.pairs.length - b.pairs.length / 2 := by
    rw [List.length_take]
    omega
  rw [hlenkeep] at hkeep
  set nw' : Node K V := { nw with count := b.pairs.length / 2, back := some b.ptr } with hnw'
  set n' : Node K V := { n with count := b.pairs.length - b.pairs.length / 2 } with hn'
  have hsame' : n.SameLinks n' := ⟨rfl, rfl, rfl, rfl⟩
  have hpush := SkipArray.node?_pushNode (m := nw') hn
  have hfresh : ∀ x ∈ A ++ b :: C, x.ptr ≠ sa.heap.length := fun x hx heq => by
    obtain ⟨nx, hnx, -⟩ := h.linked.alive x hx
    exact absurd (SkipArray.lt_of_node? hnx) (by rw [heq]; exact lt_irrefl _)
  have hself : ((sa.pushNode nw').setNode b.ptr n').node? sa.heap.length = some nw' := by
    rw [SkipArray.node?_setNode_ne (hfresh b (by simp)).symm, SkipArray.node?_pushNode_self]
  have hlinked : ((sa.pushNode nw').setNode b.ptr n').Linked (A ++ b.firstHalf :: C) :=
    (h.linked.pushNode.setNode hpush hsame').of_towers (by simp [Block.firstHalf])
  have hold : ∀ x ∈ A ++ C, ((sa.pushNode nw').setNode b.ptr n').Stores x := fun x hx =>
    ((forall_mem_middle.mp h.stores).2 x hx).pushNode.setNode_ne (h.linked.ptr_ne hx)
  have hnew : ((sa.pushNode nw').setNode b.ptr n').Stores (b.secondHalf sa.heap.length height) := by
    refine ⟨nw', hself, ⟨hnwoff, ?_, hnw.keys, hnw.valuesSome, hnw.valuesNone⟩⟩
    rw [hnw']
    simp only [Block.secondHalf, List.length_drop]
    omega
  have hfwd : nw'.fwd = List.replicate height none := hsame.fwd.trans hf.fwd
  -- a property of all blocks, with the new one singled out
  have hsplit : ∀ {P : Block K V → Prop}, P (b.secondHalf sa.heap.length height) →
      (∀ x ∈ A ++ b.firstHalf :: C, P x) →
      ∀ x ∈ A ++ b.firstHalf :: b.secondHalf sa.heap.length height :: C, P x := by
    intro P hP hA
    rw [List.append_cons, forall_mem_middle, ← List.append_cons]
    exact ⟨hP, hA⟩
  have hgain : Gains height sa ((sa.pushNode nw').setNode b.ptr n') := by
    have hheight : nw'.height = height := hsame.height.trans hf.height_eq
    rw [← hheight]
    exact Gains.pushNode.trans (Inherits.setNode hpush rfl)
  refine ⟨(sa.pushNode nw').setNode b.ptr n', ?_, ⟨rfl, rfl, rfl⟩, hgain, ?_, hlinked,
    h.tallest.replace rfl rfl, ?_, fun i => ?_, ?_, ?_⟩
  · simp only [splitInto, SkipArray.load_eq hn, ok_bind, hcount,
      check_of_pos (by omega : 0 < b.pairs.length / 2), hstart, hmove, hcnt, SkipArray.store]
    rfl
  · refine ⟨h.settings, h.linked.nodesLen, hsplit hnew ?_, hsplit ?_ hlinked.alive,
      hsplit ⟨hpos, hmax⟩ hlinked.top, hsplit ?_ ?_, ?_, ?_⟩
    · exact forall_mem_middle.mpr
        ⟨SkipArray.Stores.setNode_self (b := b.firstHalf) hpush hkeep, hold⟩
    · exact ⟨nw', hself, hsame.height.trans hf.height_eq, by simp [hfwd, Block.secondHalf]⟩
    · refine List.ne_nil_of_length_pos ?_
      simp only [Block.secondHalf, List.length_drop]
      omega
    · refine forall_mem_middle.mpr ⟨List.ne_nil_of_length_pos ?_, (forall_mem_middle.mp hne).2⟩
      simp only [Block.firstHalf, hlenkeep]
      omega
    · rw [bindings_halves]
      exact h.ascending
    · rw [towers_fst, List.append_cons, List.map_append, List.map_cons, List.nodup_middle,
        List.nodup_cons, ← List.map_append, ← List.append_cons]
      refine ⟨fun hm => ?_, hlinked.ptr_nodup⟩
      obtain ⟨x, hx, heq⟩ := List.mem_map.mp hm
      have hfresh' : ∀ x ∈ A ++ b.firstHalf :: C, x.ptr ≠ sa.heap.length :=
        forall_mem_middle.mpr (forall_mem_middle.mp hfresh)
      exact hfresh' x hx heq
  · rw [SkipArray.links_back hself]
  · simp only [SkipArray.links, hself, Option.bind_some, hfwd, List.getElem?_replicate]
    split_ifs <;> rfl
  · refine hsplit ?_ (forall_mem_middle.mpr (forall_mem_middle.mp h.offset_lt))
    change 0 < sa.nodeSize
    omega
  · have hperm : ((A ++ b.firstHalf :: b.secondHalf sa.heap.length height :: C).map Block.ptr).Perm
        (((A ++ b :: C) ++ [b.secondHalf sa.heap.length height]).map Block.ptr) := by
      rw [List.append_assoc, List.cons_append, List.map_append, List.map_append, List.map_cons,
        List.map_cons]
      exact (((List.perm_append_singleton _ C).symm.map _).cons _).append_left _
    rw [SkipArray.blocks_setNode hpush hsame', SkipArray.blocks_perm _ hperm,
      h.blocks_pushNode nw' _ rfl, ← Multiset.coe_add, add_comm]
    exact congrArg (fun blocks : List ℕ => (blocks : Multiset ℕ) + sa.blocks (A ++ b :: C))
      hsame.blocks

/-- `split_node`, when memory may run out. -/
theorem splitNode_spec (cb : Callbacks K U) (c : Ctx K V U) (h : sa.Sound cmp (A ++ b :: C))
    (hne : ∀ x ∈ A ++ b :: C, x.pairs ≠ []) (hlen : 2 ≤ b.pairs.length) {height : ℕ}
    (hheight : height = newHeight sa.maxLevel (sa.nextLevel cb c)) :
    ∃ r sa' c', splitNode cb sa c (some b.ptr) = .ok (r, sa', c') ∧ c'.freed = c.freed ∧
      Keeps sa sa' ∧ (cb.AllGranted → r ≠ none) ∧
      (r = none → (∃ prngState, sa' = { sa with prngState }) ∧
        ∀ c₀ live, Ledger cb c₀ c live → Ledger cb c₀ c' live) ∧
      ∀ p, r = some p → p = sa.heap.length ∧ Gains height sa sa' ∧
        Splitting cmp sa' A b.firstHalf (b.secondHalf p height) C ∧
        sa'.Linked (A ++ b.firstHalf :: C) ∧ sa'.Tallest (A ++ b.firstHalf :: C) ∧
        sa'.links.back p = some b.ptr ∧ (∀ i, sa'.links.fwd i p = none) ∧
        (∀ x ∈ A ++ b.firstHalf :: b.secondHalf p height :: C, x.offset < sa'.nodeSize) ∧
        Trades cb c (sa.blocks (A ++ b :: C)) c'
          (sa'.blocks (A ++ b.firstHalf :: b.secondHalf p height :: C)) := by
  have hbounds := newHeight_bounds h.settings (sa.nextLevel cb c)
  rw [← hheight] at hbounds
  unfold newHeight SkipArray.nextLevel at hheight
  obtain ⟨⟨x, prng, udata⟩, hcall⟩ :
    ∃ r, callLevel cb sa.level sa.prngState sa.prngState c.udata = r := ⟨_, rfl⟩
  rw [hcall] at hheight
  simp only [splitNode, hcall, ← hheight]
  obtain ⟨r, c', halloc, hfreed, -, hfresh, hgrant⟩ :=
    nodeAlloc_spec cb h.settings hbounds.1 { c with udata }
  have h' : ({ sa with prngState := prng } : SkipArray K V).Sound cmp (A ++ b :: C) :=
    h.of_body rfl rfl rfl rfl
  simp only [halloc, ok_bind]
  cases r with
  | none =>
      refine ⟨_, _, _, rfl, hfreed, ⟨rfl, rfl, rfl⟩, fun hg => absurd rfl (hgrant hg),
        fun _ => ⟨⟨prng, rfl⟩, ?_⟩, by simp⟩
      intro c₀ live hl
      simpa using nodeAlloc_ledger (c := { c with udata }) (hl.congr rfl rfl) halloc
  | some nd =>
      obtain ⟨sa', hinto, hkeep, hgain, hspl, hl, ht, hback, hfwd, hoff, hblocks⟩ :=
        splitInto_spec h' hne hlen (hfresh nd rfl) hbounds.1 hbounds.2
      refine ⟨some sa.heap.length, sa', c', by simp only [hinto, ok_bind]; rfl, hfreed,
        ⟨hkeep.settings, hkeep.iter, hkeep.iters⟩, by simp, by simp, fun q hq => ?_⟩
      cases hq
      refine ⟨rfl, ⟨hgain.heapLen, hgain.old, hgain.new⟩, hspl, hl, ht, hback, hfwd, hoff, ?_⟩
      intro c₀ live hl
      have hled := nodeAlloc_ledger (c := { c with udata }) (hl.congr rfl rfl) halloc
      rw [← add_assoc] at hled
      exact hblocks ▸ hled

omit [Inhabited K] [Inhabited V] in
theorem Shape.halves {nodeSize : ℕ} (h : Shape nodeSize (A ++ b :: C)) (htwo : 2 ≤ nodeSize)
    (hne : ∀ x ∈ A ++ b :: C, x.pairs ≠ []) (hfull : b.pairs.length = nodeSize) (p : Ptr)
    (height : ℕ) : Shape nodeSize (A ++ b.firstHalf :: b.secondHalf p height :: C) := by
  rw [shape_middle_iff] at h
  have h₁ : b.firstHalf.pairs.length = nodeSize - nodeSize / 2 := by
    simp only [Block.firstHalf, List.length_take]
    omega
  have h₂ : (b.secondHalf p height).pairs.length = nodeSize / 2 := by
    simp only [Block.secondHalf, List.length_drop]
    omega
  rw [List.append_cons, shape_middle_iff, List.forall_mem_append, List.append_assoc,
    List.singleton_append]
  refine ⟨⟨⟨h.1.1, ?_⟩, fun _ => by omega, h.1.2.2⟩, fun _ => ⟨?_, ?_⟩⟩
  · simp only [List.mem_singleton, forall_eq]
    omega
  · exact List.ne_nil_of_length_pos (by omega)
  · exact forall_mem_middle.mpr
      ⟨List.ne_nil_of_length_pos (by omega), (forall_mem_middle.mp hne).2⟩

omit [Inhabited K] [Inhabited V] in
theorem length_firstHalf (b : Block K V) :
    b.firstHalf.pairs.length = b.pairs.length - b.pairs.length / 2 := by
  simp only [Block.firstHalf, List.length_take]
  omega

omit [Inhabited K] [Inhabited V] in
theorem length_secondHalf (b : Block K V) (p : Ptr) (height : ℕ) :
    (b.secondHalf p height).pairs.length = b.pairs.length / 2 := by
  simp only [Block.secondHalf, List.length_drop]
  omega

/-- Splitting a full node and linking the new one puts a block behind, and the
place to insert at may move there. -/
theorem splitAndLink_spec (cb : Callbacks K U) (c : Ctx K V U) (hc : LawfulCmp (cb.cmp sa.cmp))
    (h : sa.Wf (cb.cmp sa.cmp) (A ++ b :: C)) (hfull : b.pairs.length = sa.nodeSize) (index : ℕ)
    {height : ℕ} (hheight : height = newHeight sa.maxLevel (sa.nextLevel cb c)) :
    ∃ r sa' c', splitAndLink cb sa c (some b.ptr) index = .ok (r, sa', c') ∧
      c'.freed = c.freed ∧ Keeps sa sa' ∧ (cb.AllGranted → r ≠ none) ∧
      (r = none → (∃ prngState, sa' = { sa with prngState }) ∧
        ∀ c₀ live, Ledger cb c₀ c live → Ledger cb c₀ c' live) ∧
      ∀ place, r = some place →
        place = (if b.firstHalf.pairs.length < index then
          (some sa.heap.length, index - b.firstHalf.pairs.length) else (some b.ptr, index)) ∧
        Gains height sa sa' ∧ sa'.Wf (cb.cmp sa.cmp)
          (A ++ b.firstHalf :: b.secondHalf sa.heap.length height :: C) ∧
        Trades cb c (sa.blocks (A ++ b :: C)) c'
          (sa'.blocks (A ++ b.firstHalf :: b.secondHalf sa.heap.length height :: C)) := by
  have htwo := h.settings.two_le
  have hne := h.shape.nonempty_of (c := b) (by simp) (List.ne_nil_of_length_pos (by omega))
  obtain ⟨r, sa₁, c₁, hsplit, hfreed, hkeep, hgrant, hnone, hsome⟩ :=
    splitNode_spec cb c h.toSound hne (by omega) hheight
  rw [splitAndLink, hsplit, ok_bind]
  cases r with
  | none =>
      exact ⟨none, sa₁, c₁, rfl, hfreed, hkeep, fun hg => absurd rfl (hgrant hg),
        fun _ => hnone rfl, by simp⟩
  | some q =>
      obtain ⟨rfl, hgain, hspl, hl, ht, hback, hfwd, hoff, htrades⟩ := hsome q rfl
      have hcmp : cb.cmp sa₁.cmp = cb.cmp sa.cmp := by rw [hkeep.settings]
      obtain ⟨-, sa₂, hlink, hlo, hl₂, ht₂⟩ := linkNew_spec hc hspl hl ht hback hfwd
      have hspl₂ := hspl.of_linkOnly hlo
      have hkeep₂ := hkeep.trans hlo.keeps
      have hwf : sa₂.Wf (cb.cmp sa.cmp)
          (A ++ b.firstHalf :: b.secondHalf sa.heap.length height :: C) := by
        refine ⟨⟨hspl₂.settings, hl₂, hspl₂.stores, ht₂, ?_, hspl₂.ascending⟩, ?_⟩
        · rw [hlo.settings]
          exact hoff
        · rw [hkeep₂.settings]
          exact h.shape.halves htwo hne hfull sa.heap.length height
      obtain ⟨n, hn, hh⟩ := hspl₂.stores b.firstHalf (by simp)
      have hptr : sa₂.load (some b.ptr) = .ok n := SkipArray.load_eq hn
      have hlink' : linkNew (cb.cmp sa.cmp) sa₁ (some b.ptr) sa.heap.length = .ok sa₂ := hlink
      simp only [hcmp, hlink', ok_bind, hptr, hh.count]
      by_cases hlt : b.firstHalf.pairs.length < index
      · rw [if_pos hlt, if_pos hlt]
        refine ⟨_, sa₂, c₁, rfl, hfreed, hkeep₂, by simp, by simp, ?_⟩
        intro place hplace
        cases hplace
        exact ⟨rfl, hgain.trans hlo.inherits, hwf, hlo.blocks _ ▸ htrades⟩
      · rw [if_neg hlt, if_neg hlt]
        refine ⟨_, sa₂, c₁, rfl, hfreed, hkeep₂, by simp, by simp, ?_⟩
        intro place hplace
        cases hplace
        exact ⟨rfl, hgain.trans hlo.inherits, hwf, hlo.blocks _ ▸ htrades⟩

/-- A block with one more pair, at `idx`. -/
def Block.insertPair (nodeSize : ℕ) (b : Block K V) (idx : ℕ) (p : K × V) : Block K V :=
  { b with
    offset := insertOffset nodeSize b.offset b.pairs.length idx
    pairs := b.pairs.take idx ++ p :: b.pairs.drop idx }

omit [Inhabited K] in
/-- Inserting a pair into a block that has room. -/
theorem insertAt_spec (h : sa.Wf cmp (A ++ b :: C)) {idx : ℕ} (hi : idx ≤ b.pairs.length)
    (hroom : b.pairs.length < sa.nodeSize) {key : K} (value : V)
    (hlo : ∀ p ∈ bindings A ++ b.pairs.take idx, cmp p.1 key < 0)
    (hhi : ∀ q ∈ b.pairs.drop idx ++ bindings C, cmp key q.1 < 0) :
    ∃ sa', insertAt sa (some b.ptr) idx key value = .ok sa' ∧ Keeps sa sa' ∧ Inherits sa sa' ∧
      sa'.Wf cmp (A ++ b.insertPair sa.nodeSize idx (key, sa.stored value) :: C) ∧
      sa'.blocks (A ++ b.insertPair sa.nodeSize idx (key, sa.stored value) :: C) =
        sa.blocks (A ++ b :: C) := by
  obtain ⟨n, hn, hh⟩ := h.stores b (by simp)
  obtain ⟨dest, start, cnt, hopen, hprep⟩ :=
    prepareNodeForInsert_spec h.settings hh (h.offset_lt b (by simp)) hroom hi
  obtain ⟨n', hput, hh', hsame, hcnt⟩ := hh.insert hi hopen key value
  have hlt := h.settings.nodeSize_lt
  have hu : u16 ((n'.count : ℤ) + 1) = b.pairs.length + 1 := by
    rw [hcnt, hh.count]
    exact_mod_cast u16_of_lt (n := b.pairs.length + 1) (by omega)
  have hfit := hopen.bound
  have hasc : Ascending cmp (bindings A ++ (b.pairs.take idx ++ (key, sa.stored value) ::
      b.pairs.drop idx) ++ bindings C) := by
    have := h.ascending
    rw [bindings_append, bindings_cons, ← List.take_append_drop idx b.pairs, List.append_assoc,
      ← List.append_assoc] at this
    simpa using this.insert (v := sa.stored value) hlo hhi
  have hsound := h.toSound.update hn hsame hh' (by omega) (by simpa using hasc)
  have hcheck : insertOffset sa.nodeSize b.offset b.pairs.length idx + idx < sa.nodeSize := by
    omega
  refine ⟨sa.setNode b.ptr { n' with count := b.pairs.length + 1 }, ?_, ⟨rfl, rfl, rfl⟩,
    Inherits.setNode hn hsame.height, ⟨hsound, ?_⟩, ?_⟩
  · simp only [insertAt, SkipArray.load_eq hn, ok_bind, hprep, check_of_pos hcheck, hput, hu,
      SkipArray.store]
  · exact h.shape.grow (by simp [Block.insertPair]; omega) (by simp [Block.insertPair])
  · rw [SkipArray.blocks_setNode hn hsame]
    simp [SkipArray.blocks, Block.insertPair]

end Split

end Skiparray
