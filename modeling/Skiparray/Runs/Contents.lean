import Skiparray.Runs.Invariants

/-!
# The contents of a skiparray

The bindings of a skiparray, read off its nodes along level 0. On a well-formed
skiparray they are the bindings of its blocks, so that statements about what a
client has stored need not mention blocks.
-/

namespace Skiparray

open SkipLinks Fallible

variable {K V U : Type} [Inhabited V]

/-- The pairs in the window of a node. -/
def Node.livePairs (n : Node K V) : List (K × V) :=
  match n.values with
  | some vs => n.liveKeys.zip ((vs.drop n.offset).take n.count)
  | none => n.liveKeys.map fun k => (k, default)

/-- The pairs of the nodes from pointer `q` on, `fuel` of them at most. -/
def SkipArray.pairsFrom (sa : SkipArray K V) : ℕ → Option Ptr → List (K × V)
  | 0, _ => []
  | _ + 1, none => []
  | fuel + 1, some p =>
    match sa.node? p with
    | none => []
    | some n => n.livePairs ++ sa.pairsFrom fuel n.fwd[0]?.join

def SkipArray.contents (sa : SkipArray K V) : List (K × V) :=
  sa.pairsFrom sa.heap.length sa.nodes[0]?.join

section Read

variable {cmp : K → K → ℤ} {sa sa' : SkipArray K V} {bs A C : List (Block K V)} {b : Block K V}
  {n : Node K V}

theorem Holds.livePairs {s : Settings} (h : Holds s n b) : n.livePairs = b.pairs := by
  unfold Node.livePairs
  rw [h.liveKeys, h.offset, h.count]
  cases hu : s.useValues with
  | true =>
      obtain ⟨vs, hvs, hlive⟩ := h.valuesSome hu
      have hread := hlive.read
      rw [List.length_map] at hread
      rw [hvs]
      simp only [hread]
      exact (List.zip_of_prod rfl rfl).symm
  | false =>
      obtain ⟨hnone, hdefault⟩ := h.valuesNone hu
      rw [hnone, List.map_map]
      have hsame : ∀ p ∈ b.pairs, ((fun k => (k, default)) ∘ Prod.fst) p = (id p : K × V) := by
        intro p hp
        exact Prod.ext rfl (hdefault p hp).symm
      exact (List.map_congr_left hsame).trans (List.map_id _)

theorem SkipArray.Wf.pairsFrom_eq (h : sa.Wf cmp bs) : ∀ {A C : List (Block K V)} (fuel : ℕ),
    bs = A ++ C → C.length ≤ fuel →
      sa.pairsFrom fuel (onLevel 0 (towers C)).head? = bindings C
  | _, [], 0, _, _ => rfl
  | _, [], _ + 1, _, _ => rfl
  | _, _ :: _, 0, _, hfuel => by simp at hfuel
  | A, b :: C, fuel + 1, hsplit, hfuel => by
      obtain ⟨n, hn, hh⟩ := h.stores b (by simp [hsplit])
      have hpos := (h.linked.top b (by simp [hsplit])).1
      have hlt : 0 < (b.ptr, b.height).2 := hpos
      have hfwd := (hsplit ▸ h.linked).fwd_slot hn hpos
      have hrest := h.pairsFrom_eq (A := A ++ [b]) (C := C) fuel (by simp [hsplit])
        (Nat.le_of_succ_le_succ hfuel)
      rw [towers_cons, onLevel_cons_of_lt hlt, List.head?_cons, SkipArray.pairsFrom, hn]
      simp only [hh.livePairs, hfwd, Option.join_some, hrest]
      rfl

/-- The contents are the bindings of the blocks. -/
theorem SkipArray.Wf.contents_eq (h : sa.Wf cmp bs) : sa.contents = bindings bs := by
  unfold SkipArray.contents
  rw [h.linked.head_slot h.settings.pos, Option.join_some]
  exact h.pairsFrom_eq (A := []) _ rfl h.linked.length_le

/-- The block that the node at `p` holds. -/
def SkipArray.blockAt (sa : SkipArray K V) (p : Ptr) : Option (Block K V) :=
  (sa.node? p).map fun n => ⟨p, n.height, n.offset, n.livePairs⟩

/-- A skiparray has one layout. -/
theorem SkipArray.Wf.unique {bs' : List (Block K V)} (h : sa.Wf cmp bs) (h' : sa.Wf cmp bs') :
    bs = bs' := by
  have hchain : ∀ {bs : List (Block K V)}, sa.Wf cmp bs →
      Seg (sa.links.fwd 0) (sa.links.head 0) (bs.map Block.ptr) none := by
    intro bs hwf
    have hlevel := hwf.linked.spells.level 0 hwf.settings.pos
    rw [Links.Level, onLevel_zero, towers_fst] at hlevel
    · exact hlevel
    · intro t ht
      obtain ⟨b, hb, rfl⟩ := List.mem_map.mp ht
      exact (hwf.linked.top b hb).1
  have hread : ∀ {bs : List (Block K V)}, sa.Wf cmp bs →
      bs.map some = (bs.map Block.ptr).map sa.blockAt := by
    intro bs hwf
    rw [List.map_map]
    apply List.map_congr_left
    intro b hb
    obtain ⟨n, hn, hheight, -⟩ := hwf.linked.alive b hb
    obtain ⟨m, hm, hh⟩ := hwf.stores b hb
    obtain rfl : n = m := Option.some.inj (hn.symm.trans hm)
    rw [Function.comp_apply, SkipArray.blockAt, hn, Option.map_some, hheight, hh.offset, hh.livePairs]
  apply List.map_injective_iff.mpr (Option.some_injective _)
  rw [hread h, hread h', (hchain h).unique (hchain h')]

theorem SkipArray.contents_congr (hheap : sa'.heap = sa.heap) (hnodes : sa'.nodes = sa.nodes) :
    sa'.contents = sa.contents := by
  have hpairs : ∀ fuel q, sa'.pairsFrom fuel q = sa.pairsFrom fuel q := by
    intro fuel
    induction fuel with
    | zero => intro q; rfl
    | succ fuel ih =>
        intro q
        cases q with
        | none => rfl
        | some p => simp only [SkipArray.pairsFrom, SkipArray.node?, hheap, ih]
  rw [SkipArray.contents, SkipArray.contents, hheap, hnodes, hpairs]

/-- Iterators do not touch them. -/
theorem IterOnly.contents (h : IterOnly sa sa') : sa'.contents = sa.contents :=
  SkipArray.contents_congr h.heap h.nodes

end Read

end Skiparray
