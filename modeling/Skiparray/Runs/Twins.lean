import Skiparray.Lib.Lockstep
import Skiparray.Runs.Cursors
import Skiparray.Runs.Contents
import Skiparray.Model.Fold

/-!
# Twins

Two skiparrays with the same bindings, in whatever layout, whose iterators stand
at the same positions. What a client does to one and to the other runs in
lockstep: it gets the same answers, and twins are left. Three things are apart: a
request for memory that is refused, a pop of the last pair over more than 128
levels, and an iterator moved on at the largest index.
-/

namespace Skiparray

open SkipLinks Fallible

variable {K V U : Type} [Inhabited K] [Inhabited V]

/-- `sa` and `sa'` have blocks `bs` and `bs'` with the same bindings, and the same
live iterators `its` at the same positions. -/
structure Twinned (cmp : K → K → ℤ) (sa sa' : SkipArray K V) (bs bs' : List (Block K V))
    (its : List Ptr) : Prop where
  alike : sameCallbacks sa sa' = true
  left : sa.Coherent cmp bs its
  right : sa'.Coherent cmp bs' its
  same : bindings bs' = bindings bs
  handles : sa'.iters.length = sa.iters.length
  placed : ∀ p ∈ its, ∃ pos, sa.At bs p pos ∧ sa'.At bs' p pos

/-- Two skiparrays a client has made and cannot tell apart. -/
def Twin (cb : Callbacks K U) (sa sa' : SkipArray K V) : Prop :=
  LawfulCmp (cb.cmp sa.cmp) ∧ Reachable cb sa.cmp sa ∧ Reachable cb sa.cmp sa' ∧
    ∃ bs bs' its, Twinned (cb.cmp sa.cmp) sa sa' bs bs' its

/-- Iterator `p` is not at the largest index that a `uint16_t` holds. -/
def SkipArray.NoWrap (sa : SkipArray K V) (p : Ptr) : Prop :=
  ∀ it, sa.iter? p = some it → it.index ≠ 65535

/-- A pop of the last pair walks over 128 levels at most. -/
def SkipArray.PopsInside (sa : SkipArray K V) (call : Call K V) : Prop :=
  call = .popLast → sa.iter = none → sa.contents ≠ [] → sa.height ≤ 128

/-- The answer to a request that found no memory. -/
def Answer.Refused : Answer K V → Prop
  | .set res => res = .errorMemory
  | .setWithPair res _ => res = .errorMemory
  | _ => False

section Alike

variable {sa sa' : SkipArray K V}

omit [Inhabited K] [Inhabited V] in
theorem sameCallbacks_iff : sameCallbacks sa sa' = true ↔
    sa.cmp = sa'.cmp ∧ sa.mem = sa'.mem ∧ sa.free = sa'.free ∧ sa.useValues = sa'.useValues := by
  unfold sameCallbacks
  exact decide_eq_true_iff

omit [Inhabited K] in
/-- Of the settings, only the use of values shows in the answers. -/
theorem Call.onList_congr {s s' : Settings} (hu : s'.useValues = s.useValues) (cmp : K → K → ℤ)
    (locked : Bool) (call : Call K V) (l : List (K × V)) :
    call.onList s' cmp locked l = call.onList s cmp locked l := by
  have hstored : ∀ v : V, s'.stored v = s.stored v := by
    intro v
    unfold Settings.stored
    rw [hu]
  have hout : ∀ {R : Type} (ok empty : R) (p : Option (K × V)),
      outPair s' ok empty p = outPair s ok empty p := by
    intro R ok empty p
    cases p with
    | none => rfl
    | some p =>
        unfold outPair Settings.out
        rw [hu]
  cases call with
  | set key value => simp only [Call.onList, hstored]
  | setWithPair key value replaceKey => simp only [Call.onList, hstored]
  | popFirst => simp only [Call.onList, hout]
  | popLast => simp only [Call.onList, hout]
  | first => simp only [Call.onList, hout]
  | last => simp only [Call.onList, hout]
  | forget key => rfl
  | get key => rfl
  | getPair key => rfl
  | member key => rfl
  | count => rfl

omit [Inhabited K] [Inhabited V] in
theorem Call.refused_of_onNoMemory {call : Call K V} {answer : Answer K V}
    (h : call.onNoMemory = some answer) : answer.Refused := by
  cases call with
  | set key value =>
      cases h
      rfl
  | setWithPair key value replaceKey =>
      cases h
      rfl
  | _ => cases h

end Alike

section Steps

variable {cb : Callbacks K U} {cmp : K → K → ℤ} {sa sa' sa₁ sa₁' : SkipArray K V}
  {bs bs' : List (Block K V)} {its : List Ptr} {p : Ptr} {pos : ℕ}

omit [Inhabited K] in
theorem Twinned.cmp_eq (h : Twinned cmp sa sa' bs bs' its) : sa'.cmp = sa.cmp :=
  (sameCallbacks_iff.mp h.alike).1.symm

omit [Inhabited K] in
theorem Twinned.useValues_eq (h : Twinned cmp sa sa' bs bs' its) : sa'.useValues = sa.useValues :=
  (sameCallbacks_iff.mp h.alike).2.2.2.symm

omit [Inhabited K] in
theorem Twinned.iter_none (h : Twinned cmp sa sa' bs bs' its) : sa'.iter = none ↔ sa.iter = none :=
  h.right.cursors.iter_eq_none.trans h.left.cursors.iter_eq_none.symm

omit [Inhabited K] in
/-- A handle is live on both sides, at one position, or on neither. -/
theorem Twinned.handle (h : Twinned cmp sa sa' bs bs' its) (p : Ptr) :
    (sa.iter? p = none ∧ sa'.iter? p = none) ∨
      p ∈ its ∧ bindings bs ≠ [] ∧ ∃ pos, sa.At bs p pos ∧ sa'.At bs' p pos := by
  by_cases hp : p ∈ its
  · exact Or.inr ⟨hp, h.left.held (List.ne_nil_of_mem hp), h.placed p hp⟩
  · refine Or.inl ⟨?_, ?_⟩
    · by_contra hne
      exact hp ((h.left.cursors.live p).mpr (Option.isSome_iff_ne_none.mpr hne))
    · by_contra hne
      exact hp ((h.right.cursors.live p).mpr (Option.isSome_iff_ne_none.mpr hne))

omit [Inhabited K] [Inhabited V] in
theorem sameCallbacks_of_settings (h : sameCallbacks sa sa' = true)
    (hset : sa₁.toSettings = sa.toSettings) (hset' : sa₁'.toSettings = sa'.toSettings) :
    sameCallbacks sa₁ sa₁' = true := by
  rw [sameCallbacks_iff] at h ⊢
  rw [hset, hset']
  exact h

omit [Inhabited K] in
/-- An iterator that is moved to one position on both sides. -/
theorem Twinned.moves (h : Twinned cmp sa sa' bs bs' its) (hm : sa.Moves p sa₁)
    (hm' : sa'.Moves p sa₁') (hat : sa₁.At bs p pos) (hat' : sa₁'.At bs' p pos) :
    Twinned cmp sa₁ sa₁' bs bs' its := by
  refine ⟨sameCallbacks_of_settings h.alike hm.iterOnly.settings hm'.iterOnly.settings,
    h.left.moves hm hat, h.right.moves hm' hat', h.same, ?_, ?_⟩
  · rw [hm'.length_eq, hm.length_eq, h.handles]
  · intro q hq
    by_cases hqp : q = p
    · subst hqp
      exact ⟨pos, hat, hat'⟩
    · obtain ⟨pos', hold, hold'⟩ := h.placed q hq
      exact ⟨pos', hold.of_eq (hm.iter?_ne hqp), hold'.of_eq (hm'.iter?_ne hqp)⟩

/-! ## Calls -/

theorem Twinned.twin {f : ℕ} (h : Twinned (cb.cmp f) sa sa' bs bs' its) (hc : LawfulCmp (cb.cmp f))
    (hf : sa.cmp = f) (hreach : Reachable cb f sa) (hreach' : Reachable cb f sa') :
    Twin cb sa sa' := by
  subst hf
  exact ⟨hc, hreach, hreach', bs, bs', its, h⟩

omit [Inhabited K] in
/-- Mutations of twins without iterators leave twins if they leave the same bindings. -/
theorem Twinned.leaves {c c₁ c' c₁' : Ctx K V U} {l : List (K × V)}
    (h : Twinned cmp sa sa' bs bs' []) (hl : Leaves cmp sa c sa₁ c₁ l)
    (hl' : Leaves cmp sa' c' sa₁' c₁' l) : ∃ bs₁ bs₁', Twinned cmp sa₁ sa₁' bs₁ bs₁' [] := by
  obtain ⟨bs₁, hco, hbind⟩ := h.left.of_leaves hl
  obtain ⟨bs₁', hco', hbind'⟩ := h.right.of_leaves hl'
  refine ⟨bs₁, bs₁', ?_, hco, hco', hbind'.trans hbind.symm, ?_, by simp⟩
  · exact sameCallbacks_of_settings h.alike hl.keeps.settings hl'.keeps.settings
  · rw [hl'.keeps.iters, hl.keeps.iters, h.handles]

/-- A call on twins. -/
theorem Twin.call (h : Twin cb sa sa') (c c' : Ctx K V U) (call : Call K V)
    (hpop : sa.PopsInside call) (hpop' : sa'.PopsInside call) :
    Together (fun r r' => ¬ r.1.Refused → ¬ r'.1.Refused → r.1 = r'.1 ∧ Twin cb r.2.1 r'.2.1)
      (sa.call cb c call) (sa'.call cb c' call) := by
  obtain ⟨hc, hreach, hreach', bs, bs', its, h⟩ := h
  have hcmp := h.cmp_eq
  have hwf := h.left.toWf
  have hwf' : sa'.Wf (cb.cmp sa'.cmp) bs' := hcmp.symm ▸ h.right.toWf
  have hlocked : sa'.iter.isSome = sa.iter.isSome := by
    rw [Bool.eq_iff_iff, Option.isSome_iff_ne_none, Option.isSome_iff_ne_none]
    exact not_congr h.iter_none
  obtain ⟨answer, sa₁, c₁, l, heq, hl, hres⟩ := call_spec hc hwf c call (by
    intro hcall hiter hne
    exact hpop hcall hiter (hwf.contents_eq ▸ hne))
  obtain ⟨answer', sa₁', c₁', l', heq', hl', hres'⟩ :=
    call_spec (hcmp.symm ▸ hc) hwf' c' call (by
      intro hcall hiter hne
      exact hpop' hcall hiter (hwf'.contents_eq ▸ hne))
  rw [heq, heq']
  apply Together.ok
  intro hmet hmet'
  have hon := hres.resolve_right fun hno => hmet (Call.refused_of_onNoMemory hno.2.2.1)
  have hon' := hres'.resolve_right fun hno => hmet' (Call.refused_of_onNoMemory hno.2.2.1)
  rw [hcmp, hlocked, h.same, Call.onList_congr h.useValues_eq, ← hon] at hon'
  obtain ⟨rfl, rfl⟩ := Prod.mk.inj hon'
  rw [hcmp] at hl'
  refine ⟨rfl, ?_⟩
  cases hiter : sa.iter with
  | some it =>
      have hsome : sa'.iter.isSome = true := by rw [hlocked, hiter]; rfl
      obtain ⟨it', hiter'⟩ := Option.isSome_iff_exists.mp hsome
      obtain ⟨rfl, -⟩ := call_locked hiter heq
      obtain ⟨rfl, -⟩ := call_locked hiter' heq'
      exact h.twin hc rfl hreach hreach'
  | none =>
      have hnil := h.left.cursors.iter_eq_none.mp hiter
      subst hnil
      obtain ⟨bs₁, bs₁', h₁⟩ := h.leaves hl hl'
      exact h₁.twin hc (congrArg Settings.cmp hl.keeps.settings) (.call hreach heq)
        (.call hreach' heq')

/-! ## Iterators -/

/-- `skiparray_iter_new` on twins. -/
theorem Twin.iterNew (h : Twin cb sa sa') (c c' : Ctx K V U) :
    Together (fun r r' => r.1 ≠ .errorMemory → r'.1 ≠ .errorMemory →
        r.1 = r'.1 ∧ r.2.1 = r'.2.1 ∧ Twin cb r.2.2.1 r'.2.2.1)
      (skiparrayIterNew cb sa c) (skiparrayIterNew cb sa' c') := by
  obtain ⟨hc, hreach, hreach', bs, bs', its, h⟩ := h
  obtain ⟨res, it, sa₁, c₁, heq, hout⟩ := skiparrayIterNew_spec cb h.left.toWf h.left.cursors c
  obtain ⟨res', it', sa₁', c₁', heq', hout'⟩ :=
    skiparrayIterNew_spec cb h.right.toWf h.right.cursors c'
  rw [heq, heq']
  apply Together.ok
  intro hmet hmet'
  obtain ⟨-, hco⟩ := h.left.iterNew hout
  obtain ⟨-, hco'⟩ := h.right.iterNew hout'
  cases hout with
  | memory hne ha => exact absurd rfl hmet
  | empty hnil =>
      cases hout' with
      | memory hne ha => exact absurd rfl hmet'
      | ok hne ha => exact absurd (h.same.trans hnil) hne
      | empty hnil' => exact ⟨rfl, rfl, h.twin hc rfl hreach hreach'⟩
  | ok hne ha =>
      cases hout' with
      | memory hne' ha' => exact absurd rfl hmet'
      | empty hnil' => exact absurd (h.same.symm.trans hnil') hne
      | ok hne' ha' =>
          have hnew : (sa'.withIter _ _).Coherent (cb.cmp sa.cmp) bs' (sa'.iters.length :: its) :=
            hco'
          rw [h.handles] at hnew
          refine ⟨rfl, by rw [h.handles], Twinned.twin ⟨h.alike, hco, hnew, h.same, ?_, ?_⟩ hc rfl
            (.iterNew hreach heq) (.iterNew hreach' heq')⟩
          · rw [SkipArray.withIter_length, SkipArray.withIter_length, h.handles]
          · intro p hp
            rcases List.mem_cons.mp hp with rfl | hp
            · refine ⟨0, .withIter h.left.toWf hne _, ?_⟩
              rw [← h.handles]
              exact .withIter h.right.toWf hne' _
            · obtain ⟨pos, hat, hat'⟩ := h.placed p hp
              obtain ⟨m, hm⟩ := hat.isSome
              have hlt := SkipArray.iter_lt hm
              exact ⟨pos, hat.congr (SkipArray.payload_withIter hlt.ne),
                hat'.congr (SkipArray.payload_withIter (h.handles ▸ hlt.ne))⟩

omit [Inhabited K] [Inhabited V] in
theorem SkipArray.loadIter_none (h : sa.iter? p = none) : sa.loadIter (some p) = .error .null := by
  rw [SkipArray.loadIter, h]

/-- `skiparray_iter_free` on twins. -/
theorem Twin.iterFree (h : Twin cb sa sa') (c c' : Ctx K V U) (it : Option Ptr) :
    Together (fun r r' => Twin cb r.1 r'.1) (skiparrayIterFree sa c it)
      (skiparrayIterFree sa' c' it) := by
  cases it with
  | none => exact .ok h
  | some p =>
      obtain ⟨hc, hreach, hreach', bs, bs', its, h⟩ := h
      rcases h.handle p with ⟨hnone, hnone'⟩ | ⟨hp, hne, -⟩
      · rw [skiparrayIterFree, SkipArray.loadIter_none hnone, skiparrayIterFree,
          SkipArray.loadIter_none hnone']
        exact .error _
      · obtain ⟨xs, ys, rfl⟩ := List.append_of_mem hp
        obtain ⟨m, hm⟩ := h.left.cursors.isSome hp
        obtain ⟨m', hm'⟩ := h.right.cursors.isSome hp
        obtain ⟨sa₁, heq, ho, hcur, hlen, hgone, hpay⟩ := skiparrayIterFree_spec h.left.cursors hm c
        obtain ⟨sa₁', heq', ho', hcur', hlen', hgone', hpay'⟩ :=
          skiparrayIterFree_spec h.right.cursors hm' c'
        rw [heq, heq']
        apply Together.ok
        have hplaced : ∀ q ∈ xs ++ ys, ∃ pos, sa₁.At bs q pos ∧ sa₁'.At bs' q pos := by
          intro q hq
          have hqp : q ≠ p := by
            rintro rfl
            obtain ⟨n, hn⟩ := hcur.isSome hq
            rw [hgone] at hn
            cases hn
          obtain ⟨pos, hat, hat'⟩ := h.placed q (by
            rcases List.mem_append.mp hq with hq | hq <;> simp [hq])
          exact ⟨pos, hat.congr (hpay q hqp), hat'.congr (hpay' q hqp)⟩
        have hrest : Twinned (cb.cmp sa.cmp) sa₁ sa₁' bs bs' (xs ++ ys) := by
          refine ⟨sameCallbacks_of_settings h.alike ho.settings ho'.settings,
            ⟨ho.wf h.left.toWf, hcur, ?_, fun _ => hne⟩,
            ⟨ho'.wf h.right.toWf, hcur', ?_, fun _ => h.same.symm ▸ hne⟩, h.same, ?_, hplaced⟩
          · exact fun q hq => (hplaced q hq).imp fun _ h => h.1
          · exact fun q hq => (hplaced q hq).imp fun _ h => h.2
          · rw [hlen', hlen, h.handles]
        exact hrest.twin hc (congrArg Settings.cmp ho.settings) (.iterFree hreach heq)
          (.iterFree hreach' heq')

omit [Inhabited K] [Inhabited V] in
theorem SkipArray.move_none (h : sa.iter? p = none) (move : Move K) :
    sa.move cb p move = .error .null := by
  have hload := SkipArray.loadIter_none h
  cases move with
  | next => rw [SkipArray.move, skiparrayIterNext, hload]; rfl
  | prev => rw [SkipArray.move, skiparrayIterPrev, hload]; rfl
  | seek key => rw [SkipArray.move, skiparrayIterSeek, hload]; rfl
  | seekEndpoint ends => rw [SkipArray.move, skiparrayIterSeekEndpoint, hload]; rfl

/-- A movement of an iterator of twins. -/
theorem Twin.move (h : Twin cb sa sa') (p : Ptr) (move : Move K)
    (hwrap : move = .next → sa.NoWrap p) (hwrap' : move = .next → sa'.NoWrap p) :
    Together (fun r r' => r.1 = r'.1 ∧ Twin cb r.2 r'.2) (sa.move cb p move)
      (sa'.move cb p move) := by
  obtain ⟨hc, hreach, hreach', bs, bs', its, h⟩ := h
  rcases h.handle p with ⟨hnone, hnone'⟩ | ⟨-, -, pos, hat, hat'⟩
  · rw [SkipArray.move_none hnone, SkipArray.move_none hnone']
    exact .error _
  · have hcmp := h.cmp_eq
    have hright : sa'.Coherent (cb.cmp sa'.cmp) bs' its := hcmp.symm ▸ h.right
    obtain ⟨sa₁, heq, hm, -, hto⟩ := move_onIndex hc h.left hat move hwrap
    obtain ⟨sa₁', heq', hm', -, hto'⟩ := move_onIndex (hcmp.symm ▸ hc) hright hat' move hwrap'
    rw [hcmp, h.same] at heq' hto'
    rw [heq, heq']
    exact .ok ⟨rfl, (h.moves hm hm' hto hto').twin hc (congrArg Settings.cmp hm.iterOnly.settings)
      (.move hreach heq) (.move hreach' heq')⟩

theorem Twin.iterNext (h : Twin cb sa sa') {p : Ptr} (hwrap : sa.NoWrap p) (hwrap' : sa'.NoWrap p) :
    Together (fun r r' => r.1 = r'.1 ∧ Twin cb r.2 r'.2) (skiparrayIterNext sa p)
      (skiparrayIterNext sa' p) := by
  have hmove := h.move p .next (fun _ => hwrap) fun _ => hwrap'
  have heq : ∀ s : SkipArray K V, s.move cb p .next =
      (skiparrayIterNext s p).map fun r => (MoveRes.step r.1, r.2) := fun _ => rfl
  rw [heq, heq] at hmove
  exact hmove.of_map.mono fun r r' hr => ⟨MoveRes.step.inj hr.1, hr.2⟩

theorem Twin.iterPrev (h : Twin cb sa sa') (p : Ptr) :
    Together (fun r r' => r.1 = r'.1 ∧ Twin cb r.2 r'.2) (skiparrayIterPrev sa p)
      (skiparrayIterPrev sa' p) := by
  have hmove := h.move p .prev (by simp) (by simp)
  have heq : ∀ s : SkipArray K V, s.move cb p .prev =
      (skiparrayIterPrev s p).map fun r => (MoveRes.step r.1, r.2) := fun _ => rfl
  rw [heq, heq] at hmove
  exact hmove.of_map.mono fun r r' hr => ⟨MoveRes.step.inj hr.1, hr.2⟩

theorem Twin.iterSeekEndpoint (h : Twin cb sa sa') (p : Ptr) (ends : SeekEndpoint) :
    Together (Twin cb) (skiparrayIterSeekEndpoint sa p ends)
      (skiparrayIterSeekEndpoint sa' p ends) := by
  have hmove := h.move p (.seekEndpoint ends) (by simp) (by simp)
  have heq : ∀ s : SkipArray K V, s.move cb p (.seekEndpoint ends) =
      (skiparrayIterSeekEndpoint s p ends).map fun s' => (MoveRes.placed, s') := fun _ => rfl
  rw [heq, heq] at hmove
  exact hmove.of_map.mono fun r r' hr => hr.2

/-- `skiparray_iter_get` on twins. What it reads can be left behind. -/
theorem Twin.iterGet (h : Twin cb sa sa') (p : Ptr) :
    Together (fun r r' => r = r' ∧ sa.NoWrap p ∧ sa'.NoWrap p) (skiparrayIterGet sa p)
      (skiparrayIterGet sa' p) := by
  obtain ⟨hc, -, -, bs, bs', its, h⟩ := h
  rcases h.handle p with ⟨hnone, hnone'⟩ | ⟨-, hne, pos, hat, hat'⟩
  · rw [skiparrayIterGet, SkipArray.loadIter_none hnone, skiparrayIterGet,
      SkipArray.loadIter_none hnone']
    exact .error _
  · have hout : ∀ v : V, sa'.out v = sa.out v := by
      intro v
      unfold Settings.out
      rw [h.useValues_eq]
    rw [skiparrayIterGet_spec h.left.toWf hne hat,
      skiparrayIterGet_spec h.right.toWf (h.same.symm ▸ hne) hat', h.same]
    cases hkv : (bindings bs)[pos]? with
    | none => exact .error _
    | some kv =>
        have hlt := (List.getElem?_eq_some_iff.mp hkv).1
        refine .ok ⟨by rw [hout], hat.index_lt h.left.toWf hlt, hat'.index_lt h.right.toWf ?_⟩
        rw [h.same]
        exact hlt

end Steps

end Skiparray
