import Skiparray.Layout.Insert

/-!
# Unlinking a node

The mirror image of linking: the levels that satisfy `done` spell the blocks
without `dead`, the others still spell them with it. `unlink_node` first
repairs the list heads, then lets a comparison with the predecessor `b` guide
it to the last block before `dead` on each level.
-/

namespace Skiparray

open SkipLinks Fallible Budget

variable {K V U : Type} {cmp : K → K → ℤ} {sa sa' : SkipArray K V}
  {A C : List (Block K V)} {b dead x : Block K V} {i : ℕ}

section

variable [Inhabited V]

/-- What no write to a pointer changes while `dead` is unlinked from behind
`b`. The pairs that `dead` held, if any, no longer count. -/
structure Unlinking (cmp : K → K → ℤ) (sa : SkipArray K V) (A : List (Block K V))
    (b dead : Block K V) (C : List (Block K V)) : Prop where
  settings : sa.toSettings.Ok
  nodesLen : sa.nodes.length = sa.maxLevel
  stores : ∀ x ∈ A ++ b :: C, sa.Stores x
  alive : ∀ x ∈ A ++ b :: dead :: C, ∃ n, sa.node? x.ptr = some n ∧ n.height = x.height ∧
    n.fwd.length = x.height
  top : ∀ x ∈ A ++ b :: dead :: C, 0 < x.height ∧ x.height ≤ sa.maxLevel
  nonempty : ∀ x ∈ A ++ b :: C, x.pairs ≠ []
  offset_lt : ∀ x ∈ A ++ b :: C, x.offset < sa.nodeSize
  ascending : Ascending cmp (bindings (A ++ b :: C))
  nodup : ((towers (A ++ b :: dead :: C)).map Prod.fst).Nodup

theorem Unlinking.of_linkOnly (h : Unlinking cmp sa A b dead C) (hl : LinkOnly sa sa') :
    Unlinking cmp sa' A b dead C where
  settings := hl.settings ▸ h.settings
  nodesLen := by rw [hl.nodesLen, h.nodesLen, hl.settings]
  stores x hx := hl.stores (h.stores x hx)
  alive x hx := hl.alive (h.alive x hx)
  top x hx := by
    rw [hl.settings]
    exact h.top x hx
  nonempty := h.nonempty
  offset_lt x hx := by
    rw [hl.settings]
    exact h.offset_lt x hx
  ascending := h.ascending
  nodup := h.nodup

end

/-- The levels that satisfy `done` spell the blocks without `dead`. -/
structure Bypassed (done : ℕ → Prop) (sa : SkipArray K V) (A : List (Block K V))
    (b dead : Block K V) (C : List (Block K V)) : Prop where
  finished : ∀ i < sa.maxLevel, done i → sa.links.Level i (towers (A ++ b :: C))
  pending : ∀ i < sa.maxLevel, ¬ done i → sa.links.Level i (towers (A ++ b :: dead :: C))

theorem Bypassed.congr {done done' : ℕ → Prop} (h : Bypassed done sa A b dead C)
    (hd : ∀ i, done' i ↔ done i) : Bypassed done' sa A b dead C where
  finished i hi hdone := h.finished i hi ((hd i).mp hdone)
  pending i hi hdone := h.pending i hi fun hdone' => hdone ((hd i).mpr hdone')

theorem Bypassed.step {done : ℕ → Prop} (h : Bypassed done sa A b dead C)
    (hs : LevelStep i sa sa') (hi : sa'.links.Level i (towers (A ++ b :: C))) :
    Bypassed (fun j => done j ∨ j = i) sa' A b dead C where
  finished j hj hdone := by
    rw [hs.linkOnly.settings] at hj
    by_cases hji : j = i
    · rw [hji]
      exact hi
    · exact (h.finished j hj (hdone.resolve_right hji)).of_sameBut hs.same hji
  pending j hj hdone := by
    rw [hs.linkOnly.settings] at hj
    push Not at hdone
    exact (h.pending j hj hdone.1).of_sameBut hs.same hdone.2

/-- On a level it does not reach, `dead` makes no difference. -/
theorem onLevel_dead (hi : dead.height ≤ i) :
    onLevel i (towers (A ++ b :: dead :: C)) = onLevel i (towers (A ++ b :: C)) := by
  rw [List.append_cons, List.append_cons A b C, towers_append, towers_append (A ++ [b]) C,
    towers_cons, onLevel_append, onLevel_append, onLevel_cons_of_le (by simpa using hi)]

section Writes

variable [Inhabited V] (h : Unlinking cmp sa A b dead C)
include h

theorem Unlinking.fwdAt (hx : x ∈ A ++ b :: dead :: C) (hi : i < x.height) :
    sa.fwdAt (some x.ptr) i = .ok (sa.links.fwd i x.ptr) := by
  obtain ⟨n, hn, -, hlen⟩ := h.alive x hx
  exact SkipArray.fwdAt_eq hn (by omega)

theorem Unlinking.setFwd (hx : x ∈ A ++ b :: dead :: C) (hi : i < x.height) (q : Option Ptr) :
    ∃ sa', sa.setFwd (some x.ptr) i q = .ok sa' ∧ LevelStep i sa sa' ∧
      sa'.links.head i = sa.links.head i ∧
      ∀ r, sa'.links.fwd i r = if r = x.ptr then q else sa.links.fwd i r := by
  obtain ⟨n, hn, -, hlen⟩ := h.alive x hx
  exact SkipArray.setFwd_spec q hn (by omega)

theorem Unlinking.dead_ne (hx : x ∈ A ++ b :: C) : x.ptr ≠ dead.ptr := by
  intro heq
  have hnd := h.nodup
  rw [towers_fst, List.append_cons, List.map_append, List.map_cons, List.nodup_middle,
    List.nodup_cons, ← List.map_append, ← List.append_cons] at hnd
  exact hnd.1 (List.mem_map.mpr ⟨x, hx, heq⟩)

theorem Unlinking.mem_old (hx : x ∈ A ++ b :: C) : x ∈ A ++ b :: dead :: C := by
  rcases List.mem_append.mp hx with hx | hx
  · simp [hx]
  · rcases List.mem_cons.mp hx with rfl | hx <;> simp [*]

/-- What a write pattern on level `i` must do to unlink `dead` there. -/
theorem Unlinking.removeLevel (hl : sa.links.Level i (towers (A ++ b :: dead :: C)))
    (hi : i < dead.height)
    (hfront : onLevel i (towers (A ++ [b])) = [] →
      sa'.links.head i = (onLevel i (towers C)).head?)
    (hafter : ∀ p, (onLevel i (towers (A ++ [b]))).getLast? = some p →
      sa'.links.head i = sa.links.head i ∧ sa'.links.fwd i p = (onLevel i (towers C)).head?)
    (hframe : ∀ p, (onLevel i (towers (A ++ [b]))).getLast? ≠ some p →
      sa'.links.fwd i p = sa.links.fwd i p) :
    sa'.links.Level i (towers (A ++ b :: C)) := by
  have hnd : (onLevel i (towers (A ++ b :: dead :: C))).Nodup :=
    h.nodup.sublist (List.filter_sublist.map Prod.fst)
  rw [List.append_cons, towers_append] at hl hnd ⊢
  exact Links.removeLevel hl hi hnd hfront hafter fun p _ => hframe p

theorem Unlinking.headAt {done : ℕ → Prop} (hb : Bypassed done sa A b dead C)
    (hi : i < sa.maxLevel) (hdone : ¬ done i → onLevel i (towers (A ++ [b])) ≠ []) :
    sa.headAt i = .ok (onLevel i (towers (A ++ b :: C))).head? := by
  by_cases hd : done i
  · exact SkipArray.headAt_eq h.nodesLen hi (hb.finished i hi hd)
  · obtain ⟨p, ps, hps⟩ := List.exists_cons_of_ne_nil (hdone hd)
    rw [SkipArray.headAt_eq h.nodesLen hi (hb.pending i hi hd)]
    rw [List.append_cons, List.append_cons A b C, towers_append, towers_append (A ++ [b]) C,
      onLevel_append, onLevel_append, hps]
    rfl

end Writes

/-! ## The list heads -/

section Heads

variable [Inhabited V]

theorem unlinkHeads_spec :
    ∀ {k : ℕ} {sa : SkipArray K V}, Unlinking cmp sa A b dead C → k ≤ sa.maxLevel →
      Bypassed (fun i => dead.height ≤ i ∨ k ≤ i ∧ onLevel i (towers (A ++ [b])) = [])
        sa A b dead C →
      ∃ sa', unlinkHeads dead.ptr k sa = .ok sa' ∧ LinkOnly sa sa' ∧ sa'.height = sa.height ∧
        sa'.links.back = sa.links.back ∧
        Bypassed (fun i => dead.height ≤ i ∨ onLevel i (towers (A ++ [b])) = []) sa' A b dead C
  | 0, sa, _, _, hb => ⟨sa, rfl, .refl sa, rfl, rfl, hb.congr fun i => by simp⟩
  | k + 1, sa, h, hk, hb => by
      have hkm : k < sa.maxLevel := by omega
      -- a head other than `dead` stays
      have hstay : (dead.height ≤ k ∨ onLevel k (towers (A ++ [b])) ≠ []) →
          ∃ sa', unlinkHeads dead.ptr k sa = .ok sa' ∧ LinkOnly sa sa' ∧
            sa'.height = sa.height ∧ sa'.links.back = sa.links.back ∧
            Bypassed (fun i => dead.height ≤ i ∨ onLevel i (towers (A ++ [b])) = [])
              sa' A b dead C := by
        intro hor
        refine unlinkHeads_spec h (by omega) (hb.congr fun i => ?_)
        by_cases hi : i = k
        · subst hi
          constructor
          · rintro (hd | ⟨-, hnil⟩)
            · exact Or.inl hd
            · exact Or.inl (hor.resolve_right fun hne => hne hnil)
          · rintro (hd | ⟨hlt, -⟩)
            · exact Or.inl hd
            · omega
        · constructor
          · rintro (hd | ⟨hge, hnil⟩)
            · exact Or.inl hd
            · exact Or.inr ⟨by omega, hnil⟩
          · rintro (hd | ⟨hge, hnil⟩)
            · exact Or.inl hd
            · exact Or.inr ⟨by omega, hnil⟩
      rw [unlinkHeads]
      by_cases hd : dead.height ≤ k
      · have hhead : sa.headAt k = .ok (onLevel k (towers (A ++ b :: C))).head? :=
          SkipArray.headAt_eq h.nodesLen hkm (hb.finished k hkm (Or.inl hd))
        have hne : (onLevel k (towers (A ++ b :: C))).head? ≠ some dead.ptr := fun heq => by
          have hm := onLevel_subset (List.mem_of_head? heq)
          rw [towers_fst] at hm
          obtain ⟨x, hx, hxd⟩ := List.mem_map.mp hm
          exact h.dead_ne hx hxd
        rw [hhead, ok_bind, if_neg hne]
        exact hstay (Or.inl hd)
      have hl := hb.pending k hkm (by simp; omega)
      have hhead : sa.headAt k = .ok (onLevel k (towers (A ++ b :: dead :: C))).head? :=
        SkipArray.headAt_eq h.nodesLen hkm hl
      have hon : onLevel k (towers (A ++ b :: dead :: C)) =
          onLevel k (towers (A ++ [b])) ++ dead.ptr :: onLevel k (towers C) := by
        rw [List.append_cons, towers_append, onLevel_append, towers_cons,
          onLevel_cons_of_lt (by simpa using hd)]
      rw [hhead, ok_bind, hon]
      by_cases hnil : onLevel k (towers (A ++ [b])) = []
      · have hfwd : sa.links.fwd k dead.ptr = (onLevel k (towers C)).head? := by
          rw [List.append_cons, towers_append, towers_cons] at hl
          exact hl.fwd_eq (by simpa using hd)
        obtain ⟨sa₁, h₁, hstep, hhead₁, hfwd₁⟩ := SkipArray.setHead_spec
          (onLevel k (towers C)).head? (show k < sa.nodes.length by rw [h.nodesLen]; exact hkm)
        rw [hnil, List.nil_append, List.head?_cons, if_pos rfl,
          h.fwdAt (x := dead) (by simp) (by omega), ok_bind, hfwd, h₁, ok_bind]
        have hl₁ : sa₁.links.Level k (towers (A ++ b :: C)) :=
          h.removeLevel hl (by omega) (fun _ => hhead₁)
            (fun p hp => absurd hp (by rw [hnil]; simp)) fun p _ => by rw [hfwd₁]
        obtain ⟨sa₂, h₂, hlo, hh, hback, hb₂⟩ := unlinkHeads_spec (k := k)
          (h.of_linkOnly hstep.linkOnly) (by rw [hstep.linkOnly.settings]; omega)
          ((hb.step hstep hl₁).congr fun i => by
            constructor
            · rintro (hd' | ⟨hge, hnil'⟩)
              · exact Or.inl (Or.inl hd')
              · by_cases hik : i = k
                · exact Or.inr hik
                · exact Or.inl (Or.inr ⟨by omega, hnil'⟩)
            · rintro ((hd' | ⟨hge, hnil'⟩) | rfl)
              · exact Or.inl hd'
              · exact Or.inr ⟨by omega, hnil'⟩
              · exact Or.inr ⟨le_refl _, hnil⟩)
        exact ⟨sa₂, h₂, hstep.linkOnly.trans hlo, hh.trans hstep.height,
          hback.trans hstep.same.back, hb₂⟩
      · obtain ⟨p, ps, hps⟩ := List.exists_cons_of_ne_nil hnil
        have hpne : some p ≠ some dead.ptr := fun heq => by
          have hm : p ∈ (towers (A ++ [b])).map Prod.fst := onLevel_subset (by rw [hps]; simp)
          rw [towers_fst] at hm
          obtain ⟨x, hx, hxd⟩ := List.mem_map.mp hm
          exact h.dead_ne (x := x) (by rw [List.append_cons]; exact List.mem_append_left _ hx)
            (hxd.trans (Option.some.inj heq))
        rw [hps, List.cons_append, List.head?_cons, if_neg hpne]
        exact hstay (Or.inr hnil)

end Heads

/-! ## The height -/

/-- The height after the empty levels at the top are gone. -/
theorem trimHeight_spec (nodes : List (Option Ptr)) :
    ∀ {h : ℕ}, 1 ≤ h → h ≤ nodes.length →
      ∃ h', trimHeight nodes h = .ok h' ∧ 1 ≤ h' ∧ h' ≤ h ∧
        (h' = 1 ∨ nodes[h' - 1]?.join ≠ none) ∧ ∀ i, h' ≤ i → i < h → nodes[i]?.join = none
  | 0, h, _ => absurd h (by omega)
  | 1, _, _ => ⟨1, rfl, le_refl _, le_refl _, Or.inl rfl, fun i hge hlt => by omega⟩
  | h + 2, _, hlen => by
      have hlt : h + 1 < nodes.length := by omega
      rw [trimHeight, slot_of_getElem? (List.getElem?_eq_getElem hlt), ok_bind]
      by_cases hn : nodes[h + 1] = none
      · obtain ⟨h', heq, hpos, hle, htop, hnone⟩ :=
          trimHeight_spec nodes (h := h + 1) (by omega) (by omega)
        refine ⟨h', by rw [if_pos hn, heq], hpos, by omega, htop, fun i hge hi => ?_⟩
        by_cases hih : i = h + 1
        · rw [hih, List.getElem?_eq_getElem hlt, hn]
          rfl
        · exact hnone i hge (by omega)
      · refine ⟨h + 2, by rw [if_neg hn]; rfl, by omega, le_refl _, Or.inr ?_, fun i hge hi => by omega⟩
        rw [show h + 2 - 1 = h + 1 from rfl, List.getElem?_eq_getElem hlt]
        exact hn

/-- Heads that spell the blocks and a trimmed height fit together. -/
theorem tallest_of_trim (sa : SkipArray K V) (bs : List (Block K V)) {h h' : ℕ} (hne : bs ≠ [])
    (hhead : ∀ i < sa.maxLevel, sa.links.head i = (onLevel i (towers bs)).head?)
    (htop : ∀ x ∈ bs, 0 < x.height ∧ x.height ≤ sa.maxLevel) (hle : ∀ x ∈ bs, x.height ≤ h)
    (hpos : 1 ≤ h') (hlow : h' = 1 ∨ sa.links.head (h' - 1) ≠ none) (hm : h' ≤ sa.maxLevel)
    (hnone : ∀ i, h' ≤ i → i < h → sa.links.head i = none) :
    (∀ x ∈ bs, x.height ≤ h') ∧ ∃ x ∈ bs, x.height = h' := by
  have hupper : ∀ x ∈ bs, x.height ≤ h' := by
    intro x hx
    by_contra hgt
    have hx' := htop x hx
    have := hle x hx
    refine onLevel_towers_ne_nil hx (i := x.height - 1) (by omega) ?_
    rw [← hhead _ (by omega)]
    exact hnone _ (by omega) (by omega)
  refine ⟨hupper, ?_⟩
  rcases hlow with hone | hlow
  · obtain ⟨x, hx⟩ := List.exists_mem_of_ne_nil bs hne
    have := hupper x hx
    have := (htop x hx).1
    exact ⟨x, hx, by omega⟩
  · rw [hhead _ (by omega)] at hlow
    obtain ⟨p, hp⟩ := Option.ne_none_iff_exists'.mp hlow
    obtain ⟨ps, hps⟩ := List.head?_eq_some_iff.mp hp
    obtain ⟨B₁, x, B₂, rfl, -, hx, -, -⟩ := onLevel_towers_cons hps
    have := hupper x (by simp)
    exact ⟨x, by simp, by omega⟩

/-! ## The walk -/

section Loop

variable [Inhabited V]

/-- The comparison that guides the walk: true up to `b`, false behind. -/
theorem cmpNearest_spec (hc : LawfulCmp cmp) (h : Unlinking cmp sa A b dead C)
    (hx : x ∈ A ++ b :: C) :
    ∃ res, cmpNearest cmp sa (some b.ptr) (b.offset + (b.pairs.length - 1)) (some x.ptr) =
        .ok res ∧
      (x ∈ A ++ [b] → res < 1) ∧ (x ∈ C → ¬ res < 1) := by
  obtain ⟨n, hn, hhn⟩ := h.stores b (by simp)
  obtain ⟨m, hm, hh⟩ := h.stores x hx
  have hex : ∀ y ∈ A ++ b :: C, ∃ l, y.pairs.getLast? = some l := fun y hy => by
    rw [← Option.ne_none_iff_exists', ne_eq, List.getLast?_eq_none_iff]
    exact h.nonempty y hy
  obtain ⟨l, hl⟩ := hex x hx
  obtain ⟨last, hlast⟩ := hex b (by simp)
  have hidx : slot n.keys (b.offset + (b.pairs.length - 1)) = .ok last.1 := by
    rw [← hhn.offset]
    exact hhn.keyAt (by rw [← List.getLast?_eq_getElem?]; exact hlast)
  have hasc := h.ascending
  rw [List.append_cons, bindings_append, bindings_append, bindings_cons, bindings_nil,
    List.append_nil] at hasc
  refine ⟨cmp l.1 last.1, ?_, fun hmem => ?_, fun hmem => ?_⟩
  · rw [cmpNearest, SkipArray.load_eq hm, ok_bind, hh.lastKey hl, ok_bind, SkipArray.load_eq hn,
      ok_bind, hidx, ok_bind]
    rfl
  · have hlm : l ∈ bindings A ++ b.pairs := by
      have : l ∈ bindings (A ++ [b]) := List.mem_flatMap.mpr ⟨x, hmem, List.mem_of_getLast? hl⟩
      simpa using this
    have := le_last hc (Ascending.append_iff.mp hasc).1 hlast hlm
    omega
  · have hlm : l ∈ bindings C := List.mem_flatMap.mpr ⟨x, hmem, List.mem_of_getLast? hl⟩
    have hlt : cmp last.1 l.1 < 0 := (Ascending.append_iff.mp hasc).2.2 last
      (List.mem_append_right _ (List.mem_of_getLast? hlast)) l hlm
    have := (hc.swap _ _).mp hlt
    omega

/-- Unlinking `dead` on the level where `x` is the last block before it. -/
theorem unlinkLevel_spec (h : Unlinking cmp sa A b dead C)
    (hl : sa.links.Level i (towers (A ++ b :: dead :: C))) (hi : i < dead.height)
    {P Q : List (Block K V)} (hPQ : A ++ [b] = P ++ x :: Q) (hix : i < x.height)
    (hQ : onLevel i (towers Q) = [])
    (hb : i = 0 → Backs sa.links.back none ((towers (A ++ b :: dead :: C)).map Prod.fst)) :
    ∃ sa₁ sa', sa.setFwd (some x.ptr) i (onLevel i (towers C)).head? = .ok sa₁ ∧
      (if (onLevel i (towers C)).head? ≠ none ∧ i = 0 then
        sa₁.setBack (onLevel i (towers C)).head? (some x.ptr) else pure sa₁) = .ok sa' ∧
      LinkOnly sa sa' ∧ sa'.height = sa.height ∧
      sa'.links.Level i (towers (A ++ b :: C)) ∧
      (∀ j, j ≠ i → sa'.links.head j = sa.links.head j ∧ sa'.links.fwd j = sa.links.fwd j) ∧
      (i = 0 → Backs sa'.links.back none ((towers (A ++ b :: C)).map Prod.fst)) ∧
      (i ≠ 0 → sa'.links.back = sa.links.back) := by
  have hxm : x ∈ A ++ b :: C := by
    rw [List.append_cons, hPQ]
    simp
  obtain ⟨sa₁, h₁, hstep, hhead, hfwd⟩ :=
    h.setFwd (h.mem_old hxm) hix (onLevel i (towers C)).head?
  have hlast : (onLevel i (towers (A ++ [b]))).getLast? = some x.ptr := by
    rw [hPQ, towers_append, onLevel_append, towers_cons, onLevel_cons_of_lt (by simpa using hix),
      hQ]
    simp
  have hl₁ : sa₁.links.Level i (towers (A ++ b :: C)) := by
    refine h.removeLevel hl hi (fun hnil => absurd hlast (by rw [hnil]; simp)) (fun p hp => ?_)
      fun p hp => ?_
    · obtain rfl : x.ptr = p := Option.some.inj (hlast.symm.trans hp)
      exact ⟨hhead, by rw [hfwd, if_pos rfl]⟩
    · rw [hlast] at hp
      rw [hfwd, if_neg fun heq => hp (by rw [heq])]
  have hother : ∀ j, j ≠ i → sa₁.links.head j = sa.links.head j ∧
      sa₁.links.fwd j = sa.links.fwd j :=
    fun j hj => ⟨hstep.same.head j hj, hstep.same.fwd j hj⟩
  by_cases h0 : i = 0
  · subst h0
    -- on level 0 the block before `dead` is `b`, and the successor's back link moves
    have htops : ∀ y ∈ Q, 0 < y.height := fun y hy => by
      refine (h.top y (h.mem_old ?_)).1
      rw [List.append_cons, hPQ]
      simp [hy]
    obtain rfl := eq_nil_of_onLevel_zero hQ htops
    obtain ⟨rfl, rfl⟩ : A = P ∧ b = x := by
      have := List.append_inj' hPQ rfl
      exact ⟨this.1, by simpa using this.2⟩
    have hC : (onLevel 0 (towers C)).head? = (C.map Block.ptr).head? := by
      rw [onLevel_zero, towers_fst]
      intro t ht
      obtain ⟨y, hy, rfl⟩ := List.mem_map.mp ht
      exact (h.top y (by simp [hy])).1
    have hbk := hb rfl
    have hnd := h.nodup
    rw [towers_fst, List.map_append, List.map_cons, List.map_cons] at hbk hnd
    rw [hC] at h₁ ⊢
    cases C with
    | nil =>
        refine ⟨sa₁, sa₁, h₁, by simp, hstep.linkOnly, hstep.height, hl₁, hother, fun _ => ?_,
          fun h => absurd rfl h⟩
        rw [hstep.same.back, towers_fst, List.map_append, List.map_cons]
        exact hbk.removeAfter hnd (by simp) fun p _ _ => rfl
    | cons c C =>
        obtain ⟨nc, hnc, -⟩ := (h.of_linkOnly hstep.linkOnly).alive c (by simp)
        obtain ⟨sa₂, h₂, hlo, hh, hhead₂, hfwd₂, hback₂⟩ :=
          SkipArray.setBack_spec (some b.ptr) hnc
        refine ⟨sa₁, sa₂, h₁, by simpa using h₂, hstep.linkOnly.trans hlo, hh.trans hstep.height,
          hl₁.congr (by rw [hhead₂]) fun p _ => by rw [hfwd₂], fun j hj => ?_, fun _ => ?_,
          fun h => absurd rfl h⟩
        · rw [hhead₂, hfwd₂]
          exact hother j hj
        · rw [towers_fst, List.map_append, List.map_cons]
          refine hbk.removeAfter hnd (fun p hp => ?_) fun p _ hp => ?_
          · rw [List.map_cons, List.head?_cons, Option.some.injEq] at hp
            rw [hback₂, if_pos hp.symm]
          · rw [List.map_cons, List.head?_cons, ne_eq, Option.some.injEq] at hp
            rw [hback₂, if_neg fun heq => hp heq.symm, hstep.same.back]
  · exact ⟨sa₁, sa₁, h₁, by rw [if_neg fun hh => h0 hh.2]; rfl, hstep.linkOnly, hstep.height, hl₁,
      hother, fun hz => absurd hz h0, fun _ => hstep.same.back⟩

/-- Where the loop of `unlink_node` is: nowhere yet, or at a block before
`dead` that reaches the level; `Q` are the blocks still ahead, up to `b`. -/
def WalkState (A : List (Block K V)) (b : Block K V) (Q : List (Block K V)) (level : ℕ)
    (cur : Option Ptr) : Prop :=
  cur = none ∧ Q = A ++ [b] ∨
    ∃ P x, A ++ [b] = P ++ x :: Q ∧ level ≤ x.height ∧ cur = some x.ptr

/-- The back links while the walk is above level 0, and after. -/
def BacksAt (sa : SkipArray K V) (A : List (Block K V)) (b dead : Block K V)
    (C : List (Block K V)) (level : ℕ) : Prop :=
  if level = 0 then Backs sa.links.back none ((towers (A ++ b :: C)).map Prod.fst)
  else Backs sa.links.back none ((towers (A ++ b :: dead :: C)).map Prod.fst)

/-- The variables of the loop of `unlink_node`; it is on level `level - 1`. -/
structure UnlinkState (K V : Type) where
  level : ℕ
  cur : Option Ptr
  sa : SkipArray K V

def UnlinkState.loop (cmp : K → K → ℤ) (p : Ptr) (nearest : Option Ptr) (nearestIndex : ℕ)
    (cmpCondition : ℤ) (fuel : ℕ) (s : UnlinkState K V) : Except Fault (SkipArray K V) :=
  unlinkLoop cmp p nearest nearestIndex cmpCondition fuel s.level s.cur s.sa

def UnlinkState.onward (s s' : UnlinkState K V) : Prop :=
  s'.level < s.level ∨ s'.level = s.level ∧ s.sa.links.Ahead (s.level - 1) s.cur s'.cur

/-- The loop has taken `dead` off the levels from `s.level` on, with `n` iterations
to go at most. -/
def UnlinkState.At (sa : SkipArray K V) (A : List (Block K V))
    (b dead : Block K V) (C : List (Block K V)) (n : ℕ) (s : UnlinkState K V) : Prop :=
  LinkOnly sa s.sa ∧ s.sa.height = sa.height ∧ s.level ≤ sa.height ∧
    ∃ Q, n = s.level + Q.length ∧ WalkState A b Q s.level s.cur ∧
      Bypassed (fun i => s.level ≤ i ∨ dead.height ≤ i ∨ onLevel i (towers (A ++ [b])) = [])
        s.sa A b dead C ∧
      BacksAt s.sa A b dead C s.level

/-- What the loop leaves behind. -/
def UnlinkDone (sa : SkipArray K V) (A : List (Block K V)) (b : Block K V) (C : List (Block K V))
    (r : Except Fault (SkipArray K V)) : Prop :=
  ∃ sa', r = .ok sa' ∧ LinkOnly sa sa' ∧ sa'.height = sa.height ∧
    (∀ i < sa.maxLevel, sa'.links.Level i (towers (A ++ b :: C))) ∧
    Backs sa'.links.back none ((towers (A ++ b :: C)).map Prod.fst)

/-- The block from which a level is walked: the current one, or the first on the
level, if that is not behind `dead`. -/
theorem unlinkBefore_spec (hc : LawfulCmp cmp) (h : Unlinking cmp sa A b dead C)
    {Q : List (Block K V)} {cur : Option Ptr} {done : ℕ → Prop} (hb : Bypassed done sa A b dead C)
    (him : i < sa.maxLevel) (hdone : ¬ done i → onLevel i (towers (A ++ [b])) ≠ [])
    (hreach : (onLevel i (towers (A ++ b :: C))).head? ≠ none) (hw : WalkState A b Q (i + 1) cur) :
    ∃ before, (if cur = none then do
        let head ← sa.headAt i
        check (head ≠ none)
        let res ← cmpNearest cmp sa (some b.ptr) (b.offset + (b.pairs.length - 1)) head
        if res < 1 then pure head else pure none
      else pure cur) = Except.ok (ε := Fault) before ∧
      (before = none ∧ cur = none ∧ onLevel i (towers (A ++ [b])) = [] ∨
        ∃ P x Q', A ++ [b] = P ++ x :: Q' ∧ i < x.height ∧ before = some x.ptr ∧
          Q'.length ≤ Q.length ∧ ∀ p, cur = some p → p = x.ptr) := by
  rcases hw with ⟨rfl, rfl⟩ | ⟨P, x, hPQ, hx, rfl⟩
  · have hhead := h.headAt hb him hdone
    obtain ⟨p, hp⟩ := Option.ne_none_iff_exists'.mp hreach
    obtain ⟨ps, hps⟩ := List.head?_eq_some_iff.mp hp
    obtain ⟨B₁, y, B₂, hsplit, rfl, hiy, hB₁, -⟩ := onLevel_towers_cons hps
    obtain ⟨res, hres, hin, hout⟩ := cmpNearest_spec hc h (x := y) (by simp [hsplit])
    simp only [if_true, hhead, ok_bind, hp, check_of_pos (Option.some_ne_none y.ptr), hres]
    cases hnil : onLevel i (towers (A ++ [b])) with
    | nil =>
        have hyC : y ∈ C := by
          have hy : y ∈ A ++ [b] ∨ y ∈ C := by
            rw [← List.mem_append, ← List.append_cons, hsplit]
            simp
          refine hy.resolve_left fun hy => ?_
          rw [onLevel_eq_nil_iff] at hnil
          have := hnil y.tower (List.mem_map_of_mem hy)
          simp only [Block.tower_snd] at this
          omega
        exact ⟨none, by rw [if_neg (hout hyC)]; rfl, Or.inl ⟨rfl, trivial, rfl⟩⟩
    | cons q qs =>
        obtain ⟨P, x, Q', hPQ, rfl, hix, -, -⟩ := onLevel_towers_cons hnil
        have hyx : y.ptr = x.ptr := by
          rw [List.append_cons, towers_append, onLevel_append, hnil, List.cons_append,
            List.cons.injEq] at hps
          exact hps.1.symm
        have hyx' : y = x := by
          have hnd : ((A ++ b :: C).map Block.ptr).Nodup := by
            have hnd := h.nodup
            rw [towers_fst] at hnd
            exact hnd.sublist (by simp)
          refine List.inj_on_of_nodup_map hnd (by simp [hsplit]) ?_ hyx
          rw [List.append_cons, hPQ]
          simp
        refine ⟨some y.ptr, by rw [if_pos (hin (by rw [hyx', hPQ]; simp))]; rfl, Or.inr ?_⟩
        refine ⟨P, x, Q', hPQ, hix, by rw [hyx], ?_, by simp⟩
        rw [hPQ]
        simp only [List.length_append, List.length_cons]
        omega
  · exact ⟨some x.ptr, by rw [if_neg (by simp)]; rfl,
      Or.inr ⟨P, x, Q, hPQ, by omega, rfl, le_refl _, by simp⟩⟩

/-- Each iteration finishes a level or moves on to a later block before `dead`. -/
theorem unlink_turn (hc : LawfulCmp cmp) (h₀ : Unlinking cmp sa A b dead C)
    (hmax₀ : sa.height ≤ sa.maxLevel)
    (hreach : ∀ i < sa.height, (onLevel i (towers (A ++ b :: C))).head? ≠ none) (n : ℕ)
    (s : UnlinkState K V) (hat : s.At sa A b dead C n) :
    (∃ r, Stops (UnlinkState.loop cmp dead.ptr (some b.ptr) (b.offset + (b.pairs.length - 1)) 1) s r ∧
      UnlinkDone sa A b C r) ∨
    ∃ m s', m < n ∧
      Turns (UnlinkState.loop cmp dead.ptr (some b.ptr) (b.offset + (b.pairs.length - 1)) 1) s s' ∧
      s.onward s' ∧ UnlinkState.At sa A b dead C m s' := by
  obtain ⟨level, cur, s⟩ := s
  obtain ⟨hlo, hheight, hle, Q, rfl, hw, hb, hback⟩ := hat
  simp only at hlo hheight hle hw hb hback
  have hmax : s.maxLevel = sa.maxLevel := congrArg Settings.maxLevel hlo.settings
  have h := h₀.of_linkOnly hlo
  match level with
  | 0 =>
      refine Or.inl ⟨_, fun _ => rfl, s, rfl, hlo, hheight, fun i hi => ?_, hback⟩
      rw [← hmax] at hi
      exact hb.finished i hi (Or.inl (Nat.zero_le i))
  | i + 1 =>
      have him : i < s.maxLevel := by omega
      -- a level where `dead` is not behind a block of `A ++ [b]` is finished already
      have hdown : ∀ {cur' Q'}, dead.height ≤ i ∨ onLevel i (towers (A ++ [b])) = [] →
          WalkState A b Q' i cur' →
          UnlinkState.At sa A b dead C (i + Q'.length) ⟨i, cur', s⟩ := by
        intro cur' Q' hdone hw'
        have hpos : i ≠ 0 := by
          rintro rfl
          rcases hdone with hd | hnil
          · have := (h.top dead (by simp)).1
            omega
          · have := (h.top b (by simp)).1
            rw [onLevel_eq_nil_iff] at hnil
            have := hnil (b.ptr, b.height) (by simp)
            simp only at this
            omega
        refine ⟨hlo, hheight, Nat.le_of_succ_le hle, Q', rfl, hw', hb.congr fun j => ?_, ?_⟩
        · by_cases hj : j = i
          · subst hj
            exact ⟨fun _ => Or.inr hdone, fun _ => Or.inl (le_refl _)⟩
          · have : j ≥ i ↔ i + 1 ≤ j := by omega
            exact or_congr this Iff.rfl
        · simp only [BacksAt, if_neg hpos, Nat.add_one_ne_zero, if_false] at hback ⊢
          exact hback
      obtain ⟨before, hbefore, hcase⟩ := unlinkBefore_spec hc h hb him
        (fun hnd hnil => hnd (Or.inr (Or.inr hnil))) (hreach i (by omega)) hw
      rcases hcase with ⟨rfl, rfl, hnil⟩ | ⟨P, x, Q', hPQ, hix, rfl, hQle, hcur⟩
      · have hQ : Q = A ++ [b] := by
          rcases hw with ⟨-, hQ⟩ | ⟨P, x, -, -, hcur⟩
          · exact hQ
          · cases hcur
        refine Or.inr ⟨_, ⟨i, none, s⟩, ?_, fun fuel => ?_, Or.inl (Nat.lt_succ_self i),
          hdown (Or.inr hnil) (Or.inl ⟨rfl, rfl⟩)⟩
        · rw [hQ]
          exact Nat.add_lt_add_right (Nat.lt_succ_self i) _
        · rw [UnlinkState.loop, unlinkLoop, hbefore, ok_bind, if_pos rfl]
          rfl
      have hxm : x ∈ A ++ b :: C := by
        rw [List.append_cons, hPQ]
        simp
      have hnonnil : onLevel i (towers (A ++ [b])) ≠ [] := by
        rw [hPQ, towers_append, onLevel_append, towers_cons, onLevel_cons_of_lt (by simpa using hix)]
        simp
      have hwx : WalkState A b Q' i (some x.ptr) := Or.inr ⟨P, x, hPQ, le_of_lt hix, rfl⟩
      have hfx := h.fwdAt (h.mem_old hxm) hix
      have hsome : some x.ptr ≠ none := by simp
      -- the next block on the level, whether or not `dead` is there
      have hfin : dead.height ≤ i →
          s.links.fwd i x.ptr = (onLevel i (towers Q') ++ onLevel i (towers C)).head? := by
        intro hd
        have hl := hb.finished i him (Or.inr (Or.inl hd))
        rw [List.append_cons, hPQ, List.append_assoc, List.cons_append, towers_append,
          towers_cons] at hl
        rw [hl.fwd_eq hix, towers_append, onLevel_append]
      have hpend : ¬ dead.height ≤ i → s.links.Level i (towers (A ++ b :: dead :: C)) := by
        intro hd
        refine hb.pending i him ?_
        rintro (hlt | hd' | hnil)
        · omega
        · exact hd hd'
        · exact hnonnil hnil
      have hpendx : ¬ dead.height ≤ i → s.links.fwd i x.ptr =
          (onLevel i (towers Q') ++ dead.ptr :: onLevel i (towers C)).head? := by
        intro hd
        have hl := hpend hd
        rw [List.append_cons, hPQ, List.append_assoc, List.cons_append, towers_append,
          towers_cons] at hl
        rw [hl.fwd_eq hix, towers_append, onLevel_append, towers_cons,
          onLevel_cons_of_lt (by simpa using hd)]
      cases hQ' : onLevel i (towers Q') with
      | cons p ps =>
          -- on to a later block before `dead`
          obtain ⟨Q₁, y, Q₂, rfl, rfl, hiy, -, -⟩ := onLevel_towers_cons hQ'
          have hym : y ∈ A ++ [b] := by simp [hPQ]
          have hym' : y ∈ A ++ b :: C := by
            rw [List.append_cons]
            exact List.mem_append_left _ hym
          have hnext : s.links.fwd i x.ptr = some y.ptr := by
            by_cases hd : dead.height ≤ i
            · rw [hfin hd, hQ']
              rfl
            · rw [hpendx hd, hQ']
              rfl
          have hahead : s.links.Ahead i (some x.ptr) (some y.ptr) := by
            have hnd : (onLevel i (towers (A ++ b :: dead :: C))).Nodup :=
              h.nodup.sublist (List.filter_sublist.map Prod.fst)
            by_cases hd : dead.height ≤ i
            · have hl := hb.finished i him (Or.inr (Or.inl hd))
              rw [onLevel_dead hd] at hnd
              rw [List.append_cons, hPQ, List.append_assoc, List.cons_append, towers_append,
                towers_cons] at hl hnd
              refine hl.ahead hnd hix ?_
              rw [towers_append, onLevel_append, hQ']
              rfl
            · have hl := hpend hd
              rw [List.append_cons, hPQ, List.append_assoc, List.cons_append, towers_append,
                towers_cons] at hl hnd
              refine hl.ahead hnd hix ?_
              rw [towers_append, onLevel_append, hQ']
              rfl
          obtain ⟨us, q, vs, hseg, hnd, hq, hmem⟩ := hahead
          obtain ⟨res, hres, hin, -⟩ := cmpNearest_spec hc h hym'
          have hyd : some y.ptr ≠ some dead.ptr := fun heq => h.dead_ne hym' (Option.some.inj heq)
          refine Or.inr ⟨_, ⟨i + 1, some y.ptr, s⟩, ?_, fun fuel => ?_,
            Or.inr ⟨rfl, us, q, vs, hseg, hnd, hq, fun p hp => hmem p (by rw [hcur p hp])⟩, hlo, hheight, hle, Q₂, rfl,
            Or.inr ⟨P ++ x :: Q₁, y, by simp [hPQ], hiy, rfl⟩, hb, hback⟩
          · simp only [List.length_append, List.length_cons] at hQle
            simp only
            omega
          · rw [UnlinkState.loop, unlinkLoop, hbefore, ok_bind, if_neg hsome, hfx, ok_bind, hnext,
              if_neg (by simp), if_neg hyd, hres, ok_bind, if_pos (hin hym)]
            rfl
      | nil =>
          by_cases hd : dead.height ≤ i
          · refine Or.inr ⟨_, ⟨i, some x.ptr, s⟩, ?_, fun fuel => ?_, Or.inl (Nat.lt_succ_self i),
              hdown (Or.inl hd) hwx⟩
            · simp only
              omega
            have hnext := hfin hd
            rw [hQ', List.nil_append] at hnext
            rw [UnlinkState.loop, unlinkLoop, hbefore, ok_bind, if_neg hsome, hfx, ok_bind, hnext]
            cases hC : onLevel i (towers C) with
            | nil =>
                rw [List.head?_nil, if_pos rfl]
                rfl
            | cons p ps =>
                obtain ⟨C₁, y, C₂, hCy, rfl, -, -, -⟩ := onLevel_towers_cons hC
                have hyC : y ∈ C := by simp [hCy]
                have hym : y ∈ A ++ b :: C := by simp [hyC]
                obtain ⟨res, hres, -, hout⟩ := cmpNearest_spec hc h hym
                have hyd : some y.ptr ≠ some dead.ptr := fun heq =>
                  h.dead_ne hym (Option.some.inj heq)
                rw [List.head?_cons, if_neg (by simp), if_neg hyd, hres, ok_bind,
                  if_neg (hout hyC)]
                rfl
          · have hl := hpend hd
            have hfwd : s.links.fwd i dead.ptr = (onLevel i (towers C)).head? := by
              have hl' := hl
              rw [List.append_cons, towers_append, towers_cons] at hl'
              exact hl'.fwd_eq (by simpa using hd)
            obtain ⟨s₁, s₂, h₁, h₂, hlo₂, hh, hl₂, hother, hbk0, hbk⟩ :=
              unlinkLevel_spec h hl (by omega) hPQ hix hQ' fun _ => by
                simpa [BacksAt] using hback
            have hmax₂ : s₂.maxLevel = s.maxLevel := congrArg Settings.maxLevel hlo₂.settings
            refine Or.inr ⟨_, ⟨i, some x.ptr, s₂⟩, ?_, fun fuel => ?_, Or.inl (Nat.lt_succ_self i),
              hlo.trans hlo₂, hh.trans hheight, Nat.le_of_succ_le hle, Q', rfl, hwx,
              ⟨fun j hj hdone => ?_, fun j hj hdone => ?_⟩, ?_⟩
            · simp only
              omega
            · rw [UnlinkState.loop, unlinkLoop, hbefore, ok_bind, if_neg hsome, hfx, ok_bind,
                hpendx hd, hQ', List.nil_append, List.head?_cons, if_neg (by simp), if_pos rfl,
                h.fwdAt (x := dead) (by simp) (by omega), ok_bind, hfwd, h₁, ok_bind, h₂, ok_bind]
              rfl
            · rw [hmax₂] at hj
              by_cases hji : j = i
              · rw [hji]
                exact hl₂
              · refine (hb.finished j hj (hdone.imp (fun hij => ?_) id)).congr (hother j hji).1
                  fun p _ => by rw [(hother j hji).2]
                simp only at hij
                omega
            · rw [hmax₂] at hj
              have hji : j ≠ i := fun heq => hdone (Or.inl (le_of_eq heq.symm))
              refine (hb.pending j hj fun hdone' => hdone (hdone'.imp (fun hij => ?_) id)).congr
                (hother j hji).1 fun p _ => by rw [(hother j hji).2]
              simp only
              omega
            · rw [BacksAt]
              split_ifs with h0
              · exact hbk0 h0
              · rw [hbk h0]
                simpa [BacksAt] using hback

end Loop

/-! ## Releasing the node -/

section Free

variable {c : Ctx K V U} {n : Node K V} {bs : List (Block K V)} {p q : Ptr}

@[simp] theorem Ctx.release_freed (c : Ctx K V U) (block : ℕ) :
    (c.release block).freed = c.freed := rfl

theorem Ctx.releases_freed (blocks : List ℕ) (c : Ctx K V U) :
    (blocks.foldl Ctx.release c).freed = c.freed := by
  induction blocks generalizing c with
  | nil => rfl
  | cons block blocks ih => rw [List.foldl_cons, ih, Ctx.release_freed]

/-- Clear the cell of a node that was freed. -/
def SkipArray.clearNode (sa : SkipArray K V) (p : Ptr) : SkipArray K V :=
  { sa with heap := sa.heap.set p none }

theorem nodeFree_eq (hn : sa.node? p = some n) :
    nodeFree sa (some p) c = .ok (sa.clearNode p, n.blocks.foldl Ctx.release c) := by
  rw [nodeFree, SkipArray.load_eq hn]
  rfl

/-- `sa'` is `sa` after writes to pointers and the release of the node at `p`. -/
structure Removes (sa : SkipArray K V) (c : Ctx K V U) (p : Ptr) (sa' : SkipArray K V)
    (c' : Ctx K V U) : Prop where
  body : ∃ s, LinkOnly sa s ∧ sa' = s.clearNode p
  released : ∃ n, sa.node? p = some n ∧ c' = n.blocks.foldl Ctx.release c

theorem LinkOnly.removes {s : SkipArray K V} (h : LinkOnly sa s) (hn : s.node? p = some n) :
    Removes sa c p (s.clearNode p) (n.blocks.foldl Ctx.release c) := by
  have hp := h.payload p
  rw [hn, Option.map_some, eq_comm, Option.map_eq_some_iff] at hp
  obtain ⟨n', hn', hpay⟩ := hp
  exact ⟨⟨s, h, rfl⟩, n', hn', by rw [Node.payload_blocks hpay]⟩

namespace Removes

variable {sa' : SkipArray K V} {c' : Ctx K V U}

theorem keeps (h : Removes sa c p sa' c') : Keeps sa sa' := by
  obtain ⟨⟨s, hlo, rfl⟩, -⟩ := h
  exact ⟨hlo.settings, hlo.iter, hlo.iters⟩

theorem freed (h : Removes sa c p sa' c') : c'.freed = c.freed := by
  obtain ⟨n, -, rfl⟩ := h.released
  exact Ctx.releases_freed _ c

theorem inherits (h : Removes sa c p sa' c') : Inherits sa sa' := by
  obtain ⟨⟨s, hlo, rfl⟩, -⟩ := h
  apply hlo.inherits.trans
  refine ⟨by simp [SkipArray.clearNode], ?_⟩
  intro q n' hn'
  refine ⟨n', ?_, rfl⟩
  by_cases hq : q = p
  · subst hq
    obtain ⟨a, -, ha⟩ := Option.map_eq_some_iff.mp (by
      simpa only [SkipArray.node?, SkipArray.clearNode, List.getElem?_set_self',
        Option.map_eq_map, Option.join_eq_some_iff] using hn')
    cases ha
  · simpa [SkipArray.node?, SkipArray.clearNode, Ne.symm hq] using hn'

end Removes


theorem SkipArray.node?_clearNode_ne (h : q ≠ p) : (sa.clearNode p).node? q = sa.node? q := by
  simp [SkipArray.node?, SkipArray.clearNode, h.symm]

/-- The memory of the node goes out of use. -/
theorem Removes.trades (cb : Callbacks K U) {sa' : SkipArray K V} {c' : Ctx K V U}
    {bs' : List (Block K V)} (h : Removes sa c p sa' c')
    (hp : (bs.map Block.ptr).Perm (p :: bs'.map Block.ptr)) (hnd : (bs.map Block.ptr).Nodup) :
    Trades cb c (sa.blocks bs) c' (sa'.blocks bs') := by
  obtain ⟨⟨s, hlo, rfl⟩, n, hn, rfl⟩ := h
  have hne : ∀ b ∈ bs', b.ptr ≠ p := by
    intro b hb heq
    exact (List.nodup_cons.mp (hp.nodup_iff.mp hnd)).1 (heq ▸ List.mem_map_of_mem hb)
  have hleft : (s.clearNode p).blocks bs' = sa.blocks bs' := by
    rw [← hlo.blocks bs', SkipArray.blocks, SkipArray.blocks]
    congr 1
    refine List.flatMap_congr ?_
    intro b hb
    rw [SkipArray.node?_clearNode_ne (hne b hb)]
  have hall : (sa.blocks bs : Multiset ℕ) = (n.blocks : Multiset ℕ) + sa.blocks bs' := by
    have hlisted : (sa.blocks bs : Multiset ℕ) = sa.blocks (⟨p, 0, 0, []⟩ :: bs') := sa.blocks_perm hp
    rw [hlisted, Multiset.coe_add, Multiset.coe_eq_coe, SkipArray.blocks, SkipArray.blocks,
      List.flatMap_cons, hn]
    exact List.perm_middle.symm
  rw [hleft, hall]
  exact .releases _ _

theorem SkipArray.Linked.clearNode (h : sa.Linked bs) (hp : ∀ x ∈ bs, x.ptr ≠ p) :
    (sa.clearNode p).Linked bs := by
  have hagree : ∀ {q}, q ∈ (towers bs).map Prod.fst → (sa.clearNode p).node? q = sa.node? q := by
    intro q hq
    rw [towers_fst] at hq
    obtain ⟨x, hx, rfl⟩ := List.mem_map.mp hq
    exact SkipArray.node?_clearNode_ne (hp x hx)
  refine ⟨⟨h.spells.nodup, fun i hi => ?_, ?_⟩, h.nodesLen, fun x hx => ?_, h.top⟩
  · refine (h.spells.level i hi).congr rfl fun q hq => ?_
    simp only [SkipArray.links, hagree (onLevel_subset hq)]
  · refine h.spells.backs.congr fun q hq => ?_
    simp only [SkipArray.links, hagree hq]
  · rw [SkipArray.node?_clearNode_ne (hp x hx)]
    exact h.alive x hx

theorem SkipArray.Stores.clearNode [Inhabited V] {x : Block K V} (h : sa.Stores x)
    (hp : x.ptr ≠ p) : (sa.clearNode p).Stores x := by
  obtain ⟨n, hn, hh⟩ := h
  exact ⟨n, by rw [SkipArray.node?_clearNode_ne hp, hn], hh⟩

end Free

section Node

variable [Inhabited V] {c : Ctx K V U}

/-- Once all levels and back links skip `dead`, freeing it leaves a sound
skiparray. -/
theorem Unlinking.sound (h : Unlinking cmp sa A b dead C)
    (hl : ∀ i < sa.maxLevel, sa.links.Level i (towers (A ++ b :: C)))
    (hback : Backs sa.links.back none ((towers (A ++ b :: C)).map Prod.fst))
    (ht : sa.Tallest (A ++ b :: C)) : (sa.clearNode dead.ptr).Sound cmp (A ++ b :: C) := by
  have hnd : ((towers (A ++ b :: C)).map Prod.fst).Nodup := by
    have := h.nodup
    rw [towers_fst] at this ⊢
    exact this.sublist (by simp)
  have hlinked : sa.Linked (A ++ b :: C) := ⟨⟨hnd, hl, hback⟩, h.nodesLen,
    fun x hx => h.alive x (h.mem_old hx), fun x hx => h.top x (h.mem_old hx)⟩
  exact ⟨h.settings, hlinked.clearNode fun x hx => h.dead_ne hx,
    fun x hx => (h.stores x hx).clearNode (h.dead_ne hx), ht, h.offset_lt, h.ascending⟩

/-- `unlink_node`, up to freeing the node that has a predecessor: the heads are
set, the height is trimmed, and the walk over the levels comes to its end. -/
def SkipArray.WindsUnlink (cmp : K → K → ℤ) (sa : SkipArray K V) (n : Ptr)
    (sa' : SkipArray K V) : Prop :=
  ∃ nd nearest near sa₁ height k, sa.load (some n) = .ok nd ∧ nd.back = some nearest ∧
    unlinkHeads n sa.height sa = .ok sa₁ ∧ trimHeight sa₁.nodes sa₁.height = .ok height ∧
    ({ sa₁ with height } : SkipArray K V).load (some nearest) = .ok near ∧
    k < ({ sa₁ with height } : SkipArray K V).budget ∧
    Winds (UnlinkState.loop cmp n (some nearest) (u16 (near.offset + near.count - 1)) 1)
      UnlinkState.onward k ⟨height, none, { sa₁ with height }⟩ (.ok sa')

/-- The walk leaves every level spelling the blocks without `dead`. -/
theorem unlink_winds (hc : LawfulCmp cmp) (h : Unlinking cmp sa A b dead C)
    (hl : sa.Linked (A ++ b :: dead :: C)) (ht : sa.Tallest (A ++ b :: dead :: C)) :
    ∃ sa', sa.WindsUnlink cmp dead.ptr sa' ∧ LinkOnly sa sa' ∧
      (sa'.clearNode dead.ptr).Sound cmp (A ++ b :: C) := by
  obtain ⟨nd, hnd, -⟩ := h.alive dead (by simp)
  have hback : nd.back = some b.ptr := by
    have hl' := hl
    rw [List.append_cons] at hl'
    rw [hl'.back hnd, List.map_append, List.getLast?_append]
    rfl
  have hsize : sa.height ≤ sa.maxLevel := by
    obtain ⟨t, htm, hth⟩ := ht.2
    have := (h.top t htm).2
    omega
  have hpos : 1 ≤ sa.height := by
    obtain ⟨t, htm, hth⟩ := ht.2
    have := (h.top t htm).1
    omega
  obtain ⟨sa₁, h₁, hlo₁, hh₁, hback₁, hb₁⟩ := unlinkHeads_spec (k := sa.height) h hsize
    ⟨fun i hi hdone => by
      have hd : dead.height ≤ i := by
        rcases hdone with hd | ⟨hge, -⟩
        · exact hd
        · exact le_trans (ht.1 dead (by simp)) hge
      have := hl.spells.level i hi
      rw [Links.Level, onLevel_dead hd] at this
      exact this, fun i hi _ => hl.spells.level i hi⟩
  have hu₁ := h.of_linkOnly hlo₁
  have hmax₁ : sa₁.maxLevel = sa.maxLevel := congrArg Settings.maxLevel hlo₁.settings
  have hheads : ∀ i < sa₁.maxLevel,
      sa₁.headAt i = .ok (onLevel i (towers (A ++ b :: C))).head? := fun i hi =>
    hu₁.headAt hb₁ hi fun hnd' hnil => hnd' (Or.inr hnil)
  have hheads' : ∀ i < sa₁.maxLevel,
      sa₁.links.head i = (onLevel i (towers (A ++ b :: C))).head? := fun i hi => by
    have := hheads i hi
    have hlt : i < sa₁.nodes.length := by rw [hu₁.nodesLen]; exact hi
    rw [SkipArray.headAt, slot_of_getElem? (List.getElem?_eq_getElem hlt)] at this
    rw [← Except.ok.inj this]
    simp [SkipArray.links, List.getElem?_eq_getElem hlt]
  obtain ⟨height, h₂, hpos₂, hle₂, hlow₂, hnone₂⟩ := trimHeight_spec sa₁.nodes
    (h := sa.height) hpos (by rw [hu₁.nodesLen, hmax₁]; exact hsize)
  have htall := tallest_of_trim sa₁ (A ++ b :: C) (by simp) hheads'
    (fun x hx => hu₁.top x (hu₁.mem_old hx)) (fun x hx => ht.1 x (h.mem_old hx)) hpos₂ hlow₂
    (by omega) hnone₂
  -- the walk, on the skiparray with its new height
  set sa₂ : SkipArray K V := { sa₁ with height } with hsa₂
  have hlo₂ : LinkOnly sa₁ sa₂ := ⟨rfl, rfl, rfl, rfl, rfl, rfl, fun _ => rfl⟩
  have hu₂ := hu₁.of_linkOnly hlo₂
  have hb₂ : Bypassed (fun i => height ≤ i ∨ dead.height ≤ i ∨
      onLevel i (towers (A ++ [b])) = []) sa₂ A b dead C := by
    refine ⟨fun i hi hdone => ?_, fun i hi hdone => hb₁.pending i hi fun h => hdone (Or.inr h)⟩
    refine hb₁.finished i hi ?_
    rcases hdone with hge | hdone
    · refine Or.inr (onLevel_eq_nil fun t htm => ?_)
      obtain ⟨x, hx, rfl⟩ := List.mem_map.mp htm
      exact le_trans (htall.1 x (by rw [List.append_cons]; exact List.mem_append_left _ hx)) hge
    · exact hdone
  have hback₂ : BacksAt sa₂ A b dead C height := by
    rw [BacksAt, if_neg (by omega)]
    change Backs sa₁.links.back none _
    rw [hback₁]
    exact hl.spells.backs
  have hreach : ∀ i < height, (onLevel i (towers (A ++ b :: C))).head? ≠ none := by
    intro i hi
    obtain ⟨t, htm, hth⟩ := htall.2
    exact onLevel_towers_ne_nil htm (by omega)
  have hbudget : height + (A ++ [b]).length < sa₂.budget := by
    have := SkipArray.length_le_heap hu₂.nodup fun x hx => (hu₂.alive x hx).imp fun _ hn => hn.1
    simp only [List.length_append, List.length_cons, List.length_nil] at this ⊢
    simp only [SkipArray.budget, hsa₂] at this ⊢
    omega
  have hat : UnlinkState.At sa₂ A b dead C (height + (A ++ [b]).length) ⟨height, none, sa₂⟩ :=
    ⟨.refl sa₂, rfl, le_refl _, A ++ [b], rfl, Or.inl ⟨rfl, rfl⟩, hb₂, hback₂⟩
  obtain ⟨-, ⟨sa₃, rfl, hlo₃, hh₃, hlev₃, hback₃⟩, hw⟩ :=
    winds_of_bound (unlink_turn hc hu₂ (show height ≤ sa₁.maxLevel by omega) hreach) hat
  have hu₃ := hu₂.of_linkOnly hlo₃
  obtain ⟨nb, hnb, hhb⟩ := hu₂.stores b (by simp)
  have hnearest : u16 ((nb.offset : ℤ) + nb.count - 1) = b.offset + (b.pairs.length - 1) := by
    have hlen := List.length_pos_of_ne_nil (h.nonempty b (by simp))
    have hbound := hhb.bound
    have hlt := hu₂.settings.nodeSize_lt
    rw [hhb.offset, hhb.count]
    have := u16_of_lt (n := b.offset + (b.pairs.length - 1)) (by omega)
    rw [← this]
    congr 1
    omega
  have hsound := hu₃.sound (by
      have : sa₃.maxLevel = sa₂.maxLevel := congrArg Settings.maxLevel hlo₃.settings
      rw [this]
      exact hlev₃) hback₃ (by
    rw [SkipArray.Tallest, hh₃]
    exact htall)
  rw [← hnearest] at hw
  exact ⟨sa₃, ⟨nd, b.ptr, nb, sa₁, height, _, SkipArray.load_eq hnd, hback, h₁, by rw [hh₁, h₂],
    SkipArray.load_eq hnb, hbudget, hw⟩, (hlo₁.trans hlo₂).trans hlo₃, hsound⟩

/-- `unlink_node` takes a node that has a predecessor out of the skiparray. -/
theorem unlinkNode_spec (hc : LawfulCmp cmp) (h : Unlinking cmp sa A b dead C)
    (hl : sa.Linked (A ++ b :: dead :: C)) (ht : sa.Tallest (A ++ b :: dead :: C)) :
    ∃ sa' c', unlinkNode cmp sa c dead.ptr = .ok (sa', c') ∧ Removes sa c dead.ptr sa' c' ∧
      sa'.Sound cmp (A ++ b :: C) := by
  obtain ⟨sa', ⟨nd, nearest, near, sa₁, height, k, hload, hback, h₁, h₂, hnear, hk, hw⟩, hlo,
    hsound⟩ := unlink_winds hc h hl ht
  have hloop := hw.eq hk
  simp only [UnlinkState.loop] at hloop
  -- `dead` is not the first node
  have hfirst : sa.headAt 0 = .ok ((A ++ b :: dead :: C).map Block.ptr).head? := by
    rw [hl.headAt h.settings.pos, onLevel_zero, towers_fst]
    intro t htm
    obtain ⟨x, hx, rfl⟩ := List.mem_map.mp htm
    exact (h.top x hx).1
  have hfirst' : ((A ++ b :: dead :: C).map Block.ptr).head? ≠ some dead.ptr := by
    cases A with
    | nil =>
        intro heq
        exact h.dead_ne (x := b) (by simp) (Option.some.inj heq)
    | cons a A =>
        intro heq
        exact h.dead_ne (x := a) (by simp) (Option.some.inj heq)
  obtain ⟨next, hnext⟩ : ∃ next, sa.fwdAt (some dead.ptr) 0 = .ok next :=
    ⟨_, h.fwdAt (x := dead) (by simp) (h.top dead (by simp)).1⟩
  have hcheck : check (((A ++ b :: dead :: C).map Block.ptr).head? = some dead.ptr →
      next ≠ none) = .ok () := check_of_pos fun heq => absurd heq hfirst'
  obtain ⟨n', hn', -⟩ := (h.of_linkOnly hlo).alive dead (by simp)
  refine ⟨sa'.clearNode dead.ptr, n'.blocks.foldl Ctx.release c, ?_, hlo.removes hn', hsound⟩
  simp only [unlinkNode, hload, ok_bind, hfirst, hnext, hcheck, h₁, h₂, hback, ne_eq,
    reduceCtorEq, not_false_eq_true, if_true, check_of_pos, hnear]
  rw [hloop, ok_bind, nodeFree_eq hn']

end Node

end Skiparray
