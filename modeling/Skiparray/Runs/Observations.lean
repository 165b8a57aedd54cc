import Skiparray.Runs.Building

/-!
# What can be observed

A skiparray has a past: the order of the insertions, what was deleted, how large
its nodes are, what the level callback said, which levels a builder chose. None
of it shows. All that a client can find out is the contents.
-/

namespace Skiparray

open SkipLinks Fallible

variable {K V U : Type} [Inhabited K] [Inhabited V] {cb : Callbacks K U} {f : ℕ}
  {sa s : SkipArray K V}

/-- What `skiparray_get_pair` answers a client that has nothing else. -/
theorem Reachable.getPair_reply (hc : LawfulCmp (cb.cmp f)) (h : Reachable cb f sa)
    (c : Ctx K V U) (key : K) :
    World.step cb (⟨[sa], [], (), c⟩ : World K V U Unit) (.call 0 (.getPair key)) =
      .ok (.call (.getPair (Assoc.find? (cb.cmp f) key sa.contents)), ⟨[sa], [], (), c⟩) := by
  obtain ⟨rfl, bs, its, hco⟩ := h.coherent hc
  have hget : sa.call cb c (.getPair key) =
      .ok (.getPair (Assoc.find? (cb.cmp sa.cmp) key (bindings bs)), sa, c) := by
    rw [SkipArray.call, skiparrayGetPair_spec hc hco.toWf key]
    rfl
  rw [hco.toWf.contents_eq]
  exact bind_eq_ok.mpr ⟨sa, rfl, bind_eq_ok.mpr ⟨_, hget, rfl⟩⟩

/-- A lookup is in nobody's way. -/
theorem Reachable.clear_getPair (hc : LawfulCmp (cb.cmp f)) (h : Reachable cb f sa)
    (c : Ctx K V U) (key : K) :
    World.Clear cb [.call 0 (.getPair key)] (⟨[sa], [], (), c⟩ : World K V U Unit) := by
  constructor
  · intro x hx hcall
    cases hcall
  · intro reply w' hstep
    rw [h.getPair_reply hc c key] at hstep
    cases hstep
    exact ⟨id, trivial⟩

theorem Reachable.world (h : Reachable cb f sa) : Nonempty (Ctx K V U) := by
  induction h with
  | @new config c c' sa hf h => exact ⟨c⟩
  | @finish b c c' sa hb h => exact ⟨c⟩
  | call hs h ih => exact ih
  | iterNew hs h ih => exact ih
  | iterFree hs h ih => exact ih
  | move hs h ih => exact ih

/-- One lookup tells contents apart. -/
theorem Indistinguishable.subset (hc : LawfulCmp (cb.cmp f)) (h : Reachable cb f sa)
    (h' : Reachable cb f s) (hsame : Indistinguishable cb sa s) {p : K × V}
    (hp : p ∈ sa.contents) : p ∈ s.contents := by
  obtain ⟨-, bs, its, hco⟩ := h.coherent hc
  obtain ⟨-, bs', its', hco'⟩ := h'.coherent hc
  obtain ⟨c⟩ := h.world
  have hreplies := hsame Unit [] [] () c c [.call 0 (.getPair p.1)] (by simp)
    (h.clear_getPair hc c p.1) (h'.clear_getPair hc c p.1)
  have hfound : Assoc.find? (cb.cmp f) p.1 sa.contents = some p := by
    rw [hco.toWf.contents_eq] at hp ⊢
    exact Assoc.find?_mem hc hco.toWf.ascending hp
  have hfound' : Assoc.find? (cb.cmp f) p.1 s.contents = some p := by
    simpa [World.run, h.getPair_reply hc, h'.getPair_reply hc, hfound, Except.map] using
      hreplies.symm
  exact Assoc.mem_of_find? hfound'

/-- Skiparrays at rest with the same contents are twins. -/
theorem Reachable.twin_of_contents (hc : LawfulCmp (cb.cmp f)) (h : Reachable cb f sa)
    (h' : Reachable cb f s) (hsame : sameCallbacks sa s = true) (hiter : sa.iter = none)
    (hiter' : s.iter = none) (hiters : s.iters.length = sa.iters.length)
    (hcontents : s.contents = sa.contents) : Twin cb sa s := by
  obtain ⟨rfl, bs, its, hco⟩ := h.coherent hc
  obtain ⟨-, bs', its', hco'⟩ := h'.coherent hc
  obtain rfl := hco.cursors.iter_eq_none.mp hiter
  obtain rfl := hco'.cursors.iter_eq_none.mp hiter'
  rw [hco.toWf.contents_eq, hco'.toWf.contents_eq] at hcontents
  exact ⟨hc, h, h', bs, bs', [], hsame, hco, hco', hcontents, hiters, by simp⟩

/-- All that a client can find out about a skiparray is its contents: two of them,
made in whatever way, of nodes of whatever size and over whatever levels, cannot be
told apart if and only if they hold the same pairs. -/
theorem observable_iff_contents (cb : Callbacks K U) (f : ℕ) (hc : LawfulCmp (cb.cmp f))
    (sa s : SkipArray K V) (h : Reachable cb f sa) (h' : Reachable cb f s)
    (hsame : sameCallbacks sa s = true) (hiter : sa.iter = none) (hiter' : s.iter = none)
    (hiters : s.iters.length = sa.iters.length) :
    Indistinguishable cb sa s ↔ sa.contents = s.contents := by
  constructor
  · intro hind
    obtain ⟨-, bs, its, hco⟩ := h.coherent hc
    obtain ⟨-, bs', its', hco'⟩ := h'.coherent hc
    have hasc : Ascending (cb.cmp f) sa.contents := by
      rw [hco.toWf.contents_eq]
      exact hco.toWf.ascending
    have hasc' : Ascending (cb.cmp f) s.contents := by
      rw [hco'.toWf.contents_eq]
      exact hco'.toWf.ascending
    apply hasc.eq_of_mem_iff hc hasc'
    intro p
    constructor
    · exact hind.subset hc h h'
    · apply Indistinguishable.subset hc h' h
      intro W before after acc c c' reqs hothers hclear hclear'
      exact (hind W before after acc c' c reqs hothers hclear' hclear).symm
  · intro hcontents
    exact (h.twin_of_contents hc h' hsame hiter hiter' hiters hcontents.symm).indistinguishable

theorem observable_iff_contents_packed :
    Indistinguishable Callbacks.plain SkipArray.packed SkipArray.spread ↔
      SkipArray.packed.contents = SkipArray.spread.contents := by
  obtain ⟨bs, h⟩ := Builder.packed_attempts.collects LawfulCmp.int_sub rfl Builder.plain_new
  apply observable_iff_contents Callbacks.plain 0 LawfulCmp.int_sub
  · exact .finish (c := ⟨(), 0, [], []⟩) h.built rfl
  · exact (SkipArray.spread_setMade.holds LawfulCmp.int_sub rfl).1
  · decide
  · rfl
  · rfl
  · rfl

end Skiparray
