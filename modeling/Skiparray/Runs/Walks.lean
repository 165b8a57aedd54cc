import Skiparray.Runs.Chains
import Skiparray.Runs.Pops

/-!
# The walks over the levels come to an end

Five loops walk over the levels: that of `search`, the relinking after a split,
that of `unlink_node`, `last_node` and the walk of `skiparray_pop_last`. Each
iteration lowers the level or moves ahead on a chain without cycles, and each
loop ends.
-/

namespace Skiparray

open SkipLinks Fallible Budget

variable {K V U : Type} [Inhabited K] [Inhabited V] {cb : Callbacks K U} {sa : SkipArray K V}
  {bs : List (Block K V)}

/-! ## The five loops -/

/-- The loop of `search`, entered unless the first node is empty. -/
def SkipArray.WindsSearch (cmp : K → K → ℤ) (sa : SkipArray K V) (key : K) : Prop :=
  ∃ p node, sa.headAt (sa.height - 1) = .ok (some p) ∧ sa.node? p = some node ∧
    (node.count ≠ 0 → ∃ n env, Winds (SearchState.loop cmp sa key) (SearchState.onward sa) n
      ⟨sa.height - 1, none, some p, false, 0⟩ (.ok env))

def SkipArray.WindsLast (sa : SkipArray K V) : Prop :=
  ∃ p n last, sa.headAt (sa.height - 1) = .ok (some p) ∧
    Winds (fun fuel s => lastNodeLoop sa fuel s.1 s.2) sa.onward n (sa.height - 1, some p)
      (.ok (some last))

/-- The walk of `skiparray_pop_last`, from the level that its `int8_t` holds. Below 0
`while (level >= 0)` is not entered. -/
def SkipArray.WindsPopLast (sa : SkipArray K V) : Prop :=
  ∀ level : ℕ, i8 (sa.height - 1) = level → ∃ p n last, sa.headAt level = .ok (some p) ∧
    Winds (fun fuel s => popLastLoop sa fuel s.1 s.2) sa.onward n (level, some p)
      (.ok (some last))

/-- Every walk that a call on `sa` can start comes to its end: `search` for any
key, the relinking for any node that is split and any height drawn for the new
one, `unlink_node` for any node that leaves, and the two walks to the last node. -/
structure WalksEnd (cb : Callbacks K U) (sa : SkipArray K V) (bs : List (Block K V)) : Prop where
  search : ∀ key, sa.WindsSearch (cb.cmp sa.cmp) key
  relink : ∀ A b C, bs = A ++ b :: C → b.pairs.length = sa.nodeSize →
    ∀ (c c' : Ctx K V U) (sa' : SkipArray K V) (new : Ptr),
      splitNode cb sa c (some b.ptr) = .ok (some new, sa', c') →
      sa'.RelinksNew (cb.cmp sa'.cmp) (some b.ptr) new
  unlink : ∀ (s : SkipArray K V) A b dead C, Departing (cb.cmp sa.cmp) s A b dead C →
    ∃ s', s.WindsUnlink (cb.cmp sa.cmp) dead.ptr s'
  last : sa.WindsLast
  popLast : sa.WindsPopLast

omit [Inhabited K] in
theorem search_winds {cmp : K → K → ℤ} (hc : LawfulCmp cmp) (h : sa.Wf cmp bs) (key : K) :
    sa.WindsSearch cmp key := by
  obtain ⟨p, node, hhead, hnode, -, hstart⟩ := h.search_start key
  refine ⟨p, node, hhead, hnode, ?_⟩
  intro hpos
  obtain ⟨hs, hat⟩ := hstart hpos
  obtain ⟨-, ⟨env, rfl, -⟩, hw⟩ := winds_of_bound (search_turn hc hs) hat
  exact ⟨_, env, hw⟩

theorem relink_winds (hc : LawfulCmp (cb.cmp sa.cmp)) {A C : List (Block K V)} {b : Block K V}
    (h : sa.Wf (cb.cmp sa.cmp) (A ++ b :: C)) (hfull : b.pairs.length = sa.nodeSize)
    {c c' : Ctx K V U} {sa' : SkipArray K V} {new : Ptr}
    (hsplit : splitNode cb sa c (some b.ptr) = .ok (some new, sa', c')) :
    sa'.RelinksNew (cb.cmp sa'.cmp) (some b.ptr) new := by
  have htwo := h.settings.two_le
  have hne := h.shape.nonempty_of (c := b) (by simp) (List.ne_nil_of_length_pos (by omega))
  obtain ⟨r, sa₁, c₁, hsplit₁, -, hkeep, -, -, hsome⟩ :=
    splitNode_spec cb c h.toSound hne (by omega) rfl
  rw [hsplit] at hsplit₁
  cases hsplit₁
  obtain ⟨-, -, hspl, hl, ht, hback, hfwd, -⟩ := hsome new rfl
  have hcmp : cb.cmp sa'.cmp = cb.cmp sa.cmp := by rw [hkeep.settings]
  rw [hcmp]
  exact (linkNew_spec hc hspl hl ht hback hfwd).1

omit [Inhabited K] in
theorem last_winds {cmp : K → K → ℤ} (h : sa.Sound cmp bs) : sa.WindsLast := by
  obtain ⟨p, hhead, n, hat, -⟩ := h.last_start
  obtain ⟨last, hlast⟩ := Option.ne_none_iff_exists'.mp
    (mt List.getLast?_eq_none_iff.mp h.tallest.ne_nil)
  obtain ⟨-, rfl, hw⟩ := winds_of_bound (lastNode_turn h hlast) hat
  exact ⟨p, n, last.ptr, hhead, hw⟩

omit [Inhabited K] in
theorem popLast_winds {cmp : K → K → ℤ} (h : sa.Sound cmp bs) : sa.WindsPopLast := by
  obtain ⟨hpos, hmax, -⟩ := h.topmost
  have hlt := h.settings.maxLevel_lt
  intro level hlevel
  have hcast : (sa.height : ℤ) - 1 = ((sa.height - 1 : ℕ) : ℤ) := by omega
  rw [hcast] at hlevel
  -- a counter that is not negative holds the top level
  have hbelow : sa.height - 1 < 128 := by
    by_contra hover
    have hneg := i8_neg (Nat.le_of_not_lt hover) (show sa.height - 1 < 256 by omega)
    omega
  obtain rfl : sa.height - 1 = level := by
    rw [i8_of_lt hbelow] at hlevel
    exact Int.natCast_inj.mp hlevel
  obtain ⟨p, hhead, n, hat, -⟩ := h.last_start
  obtain ⟨last, hlast⟩ := Option.ne_none_iff_exists'.mp
    (mt List.getLast?_eq_none_iff.mp h.tallest.ne_nil)
  obtain ⟨-, rfl, hw⟩ := winds_of_bound (popLast_turn h hlast) hat
  exact ⟨p, n, last.ptr, hhead, hw⟩

/-- All five end. -/
theorem walks_end (hc : LawfulCmp (cb.cmp sa.cmp)) (h : sa.Wf (cb.cmp sa.cmp) bs) :
    WalksEnd cb sa bs := by
  refine ⟨search_winds hc h, ?_, ?_, last_winds h.toSound, popLast_winds h.toSound⟩
  · rintro A b C rfl hfull c c' sa' new hsplit
    exact relink_winds hc h hfull hsplit
  · intro s A b dead C hdep
    obtain ⟨hu, hl, ht⟩ := hdep.unlinking
    obtain ⟨s', hw, -⟩ := unlink_winds hc hu hl ht
    exact ⟨s', hw⟩

theorem walks_end_flatSplit : ∃ bs, SkipArray.flatSplit.Wf (Callbacks.plain.cmp 0) bs ∧
    WalksEnd Callbacks.plain SkipArray.flatSplit bs := by
  obtain ⟨-, bs, its, hco⟩ := SkipArray.flatSplit_reachable.coherent LawfulCmp.int_sub
  exact ⟨bs, hco.toWf, walks_end LawfulCmp.int_sub hco.toWf⟩

end Skiparray
