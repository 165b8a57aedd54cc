import Skiparray.Runs.FoldTwins

/-!
# What folds do to skiparrays

A fold does nothing to its inputs but what a client could do with iterators of its
own: `IterSteps` is all that, one step after the other. Hence whatever the three
functions on iterators keep, a fold keeps.
-/

namespace Skiparray

open SkipLinks Fallible

variable {K V U W : Type}

section Made

variable [Inhabited K] [Inhabited V]

/-- A client can have made these skiparrays. -/
def Made (cb : Callbacks K U) (sas : List (SkipArray K V)) : Prop :=
  ∀ sa ∈ sas, ∃ f, LawfulCmp (cb.cmp f) ∧ Reachable cb f sa

variable {cb : Callbacks K U} {sas sas' : List (SkipArray K V)} {sa sa' : SkipArray K V}
  {c c' : Ctx K V U} {fs fs' : FoldState K V U W} {g h : ℕ}

theorem Made.set (hmade : Made cb sas) (hsa : sas[h]? = some sa)
    (hstep : ∀ f, Reachable cb f sa → Reachable cb f sa') (g : ℕ) : Made cb (sas.set g sa') := by
  intro s hs
  rcases List.mem_or_eq_of_mem_set hs with hs | rfl
  · exact hmade s hs
  · obtain ⟨f, hc, hreach⟩ := hmade sa (List.mem_of_getElem? hsa)
    exact ⟨f, hc, hstep f hreach⟩

theorem Made.coherent (hmade : Made cb sas) (hsa : sas[h]? = some sa) :
    LawfulCmp (cb.cmp sa.cmp) ∧ ∃ bs its, sa.Coherent (cb.cmp sa.cmp) bs its := by
  obtain ⟨f, hc, hreach⟩ := hmade sa (List.mem_of_getElem? hsa)
  obtain ⟨rfl, bs, its, hco⟩ := hreach.coherent hc
  exact ⟨hc, bs, its, hco⟩

/-- What skiparrays become, by what a client can do with iterators. -/
inductive IterSteps (cb : Callbacks K U) (sas : List (SkipArray K V)) (c : Ctx K V U) :
    List (SkipArray K V) → Ctx K V U → Prop where
  | refl : IterSteps cb sas c sas c
  | iterNew {sas₁ : List (SkipArray K V)} {c₁ c₂ : Ctx K V U} {g : ℕ} {s s' : SkipArray K V}
      {res : IterNewRes} {it : Option Ptr} (h : IterSteps cb sas c sas₁ c₁)
      (hs : sas₁[g]? = some s) (hnew : skiparrayIterNew cb s c₁ = .ok (res, it, s', c₂)) :
      IterSteps cb sas c (sas₁.set g s') c₂
  | iterFree {sas₁ : List (SkipArray K V)} {c₁ c₂ : Ctx K V U} {g : ℕ} {s s' : SkipArray K V}
      {it : Option Ptr} (h : IterSteps cb sas c sas₁ c₁) (hs : sas₁[g]? = some s)
      (hfree : skiparrayIterFree s c₁ it = .ok (s', c₂)) : IterSteps cb sas c (sas₁.set g s') c₂
  | move {sas₁ : List (SkipArray K V)} {c₁ : Ctx K V U} {g : ℕ} {s s' : SkipArray K V} {it : Ptr}
      {move : Move K} {res : MoveRes} (h : IterSteps cb sas c sas₁ c₁) (hs : sas₁[g]? = some s)
      (hmove : s.move cb it move = .ok (res, s')) : IterSteps cb sas c (sas₁.set g s') c₁

theorem IterSteps.made (h : IterSteps cb sas c sas' c') (hmade : Made cb sas) : Made cb sas' := by
  induction h with
  | refl => exact hmade
  | iterNew _ hs hnew ih => exact ih.set hs (fun f hr => hr.iterNew hnew) _
  | iterFree _ hs hfree ih => exact ih.set hs (fun f hr => hr.iterFree hfree) _
  | move _ hs hmove ih => exact ih.set hs (fun f hr => hr.move hmove) _

section Walk

variable {sas₀ : List (SkipArray K V)} {c₀ : Ctx K V U}

omit [Inhabited K] [Inhabited V] in
/-- A fold moves its iterators as a client could. -/
theorem IterSteps.advance (h : IterSteps cb sas₀ c₀ sas c) (hsa : sas[g]? = some sa)
    (type : FoldType) {it : Ptr} {res : StepRes} (hmove : (match type with
      | .right => skiparrayIterPrev sa it
      | .left => skiparrayIterNext sa it) = .ok (res, sa')) :
    IterSteps cb sas₀ c₀ (sas.set g sa') c := by
  cases type with
  | left =>
      have hnext : sa.move cb it .next = .ok (.step res, sa') := bind_eq_ok.mpr ⟨_, hmove, rfl⟩
      exact h.move hsa hnext
  | right =>
      have hprev : sa.move cb it .prev = .ok (.step res, sa') := bind_eq_ok.mpr ⟨_, hmove, rfl⟩
      exact h.move hsa hprev

omit [Inhabited K] [Inhabited V] in
/-- A fold puts its iterators where a client could. -/
theorem IterSteps.start (h : IterSteps cb sas₀ c₀ (sas.set g sa) c) (hg : g < sas.length)
    (type : FoldType) {it : Ptr} (hmove : (match type with
      | .right => skiparrayIterSeekEndpoint sa it .last
      | .left => pure sa) = .ok sa') : IterSteps cb sas₀ c₀ (sas.set g sa') c := by
  cases type with
  | left =>
      cases hmove
      exact h
  | right =>
      have hseek : sa.move cb it (.seekEndpoint .last) = .ok (.placed, sa') :=
        bind_eq_ok.mpr ⟨_, hmove, rfl⟩
      have hlast := h.move (List.getElem?_set_self hg) hseek
      rwa [List.set_set] at hlast

omit [Inhabited K] [Inhabited V] in
theorem freeFoldIters_steps : ∀ {iters : List (IterState K V)} {sas : List (SkipArray K V)}
    {c : Ctx K V U}, IterSteps cb sas₀ c₀ sas c → freeFoldIters iters sas c = .ok (sas', c') →
    IterSteps cb sas₀ c₀ sas' c'
  | [], _, _, hsteps, h => by
      cases h
      exact hsteps
  | is :: iters, sas, c, hsteps, h => by
      rw [freeFoldIters] at h
      rcases hiter : is.iter with _ | ⟨g, p⟩
      · rw [hiter] at h
        exact freeFoldIters_steps hsteps h
      · rw [hiter] at h
        obtain ⟨s, hs, h⟩ := bind_eq_ok.mp h
        obtain ⟨⟨s', c₁⟩, hfree, h⟩ := bind_eq_ok.mp h
        exact freeFoldIters_steps (hsteps.iterFree (slot_ok hs) hfree) h

theorem initIters_steps {type : FoldType} : ∀ {inputs : List ℕ} {sas : List (SkipArray K V)}
    {c : Ctx K V U} {iters : List (IterState K V)} {live : ℕ}
    {r : Bool × List (IterState K V) × ℕ × List (SkipArray K V) × Ctx K V U},
    IterSteps cb sas₀ c₀ sas c → initIters cb type inputs sas c iters live = .ok r →
    IterSteps cb sas₀ c₀ r.2.2.2.1 r.2.2.2.2
  | [], _, _, _, _, _, hsteps, h => by
      cases h
      exact hsteps
  | g :: inputs, sas, c, iters, live, r, hsteps, h => by
      rw [initIters] at h
      obtain ⟨s, hs, h⟩ := bind_eq_ok.mp h
      obtain ⟨⟨res, it, s', c₁⟩, hnew, h⟩ := bind_eq_ok.mp h
      have hmore := hsteps.iterNew (slot_ok hs) hnew
      cases res with
      | errorMemory =>
          cases h
          exact hmore
      | empty => exact initIters_steps hmore h
      | ok =>
          cases it with
          | none => cases h
          | some p =>
              obtain ⟨s₂, hstart, h⟩ := bind_eq_ok.mp h
              have hlt := (List.getElem?_eq_some_iff.mp (slot_ok hs)).1
              exact initIters_steps (hmore.start hlt type hstart) h

/-- What a fold takes up besides its iterators. -/
def FoldState.own (fs : FoldState K V U W) : Multiset ℕ := {fs.idsBlock, fs.block}

/-- Neither the callbacks nor the memory of a fold have changed. -/
structure FoldState.Goes (fs fs' : FoldState K V U W) : Prop where
  cbs : fs'.cbs = fs.cbs
  own : fs'.own = fs.own

omit [Inhabited K] [Inhabited V] in
theorem FoldState.Goes.refl (fs : FoldState K V U W) : fs.Goes fs := ⟨rfl, rfl⟩

omit [Inhabited K] [Inhabited V] in
theorem FoldState.Goes.trans {fs₁ fs₂ fs₃ : FoldState K V U W} (h₁ : fs₁.Goes fs₂)
    (h₂ : fs₂.Goes fs₃) : fs₁.Goes fs₃ := ⟨h₂.cbs.trans h₁.cbs, h₂.own.trans h₁.own⟩

omit [Inhabited K] [Inhabited V] in
theorem insertPair_goes {cmp : K → K → ℤ} {i : ℕ} (h : insertPair cmp fs i = .ok fs') :
    fs.Goes fs' := by
  obtain ⟨ids, -, h⟩ := bind_eq_ok.mp h
  obtain ⟨is, -, h⟩ := bind_eq_ok.mp h
  obtain ⟨⟨ids', state⟩, -, h⟩ := bind_eq_ok.mp h
  obtain ⟨iters, -, h⟩ := bind_eq_ok.mp h
  cases h
  exact ⟨rfl, rfl⟩

omit [Inhabited K] in
theorem stepIterator_steps {i : ℕ} {r : FoldState K V U W × List (SkipArray K V) × Ctx K V U}
    (hsteps : IterSteps cb sas₀ c₀ sas c) (h : stepIterator cb i (fs, sas, c) = .ok r) :
    fs.Goes r.1 ∧ IterSteps cb sas₀ c₀ r.2.1 r.2.2 := by
  rw [stepIterator] at h
  obtain ⟨is, -, h⟩ := bind_eq_ok.mp h
  rcases hiter : is.iter with _ | ⟨g, p⟩
  · rw [hiter] at h
    cases h
    exact ⟨.refl fs, hsteps⟩
  · simp only [hiter] at h
    by_cases hstate : is.state ≠ .none
    · rw [if_pos hstate] at h
      cases h
      exact ⟨.refl fs, hsteps⟩
    · rw [if_neg hstate] at h
      obtain ⟨s, hs, h⟩ := bind_eq_ok.mp h
      obtain ⟨kv, -, h⟩ := bind_eq_ok.mp h
      obtain ⟨iters, -, h⟩ := bind_eq_ok.mp h
      obtain ⟨fs₁, hinsert, h⟩ := bind_eq_ok.mp h
      have hgoes : fs.Goes fs₁ := ⟨(insertPair_goes hinsert).cbs, (insertPair_goes hinsert).own⟩
      obtain ⟨is₁, -, h⟩ := bind_eq_ok.mp h
      obtain ⟨-, -, h⟩ := bind_eq_ok.mp h
      obtain ⟨⟨res, s₁⟩, hmove, h⟩ := bind_eq_ok.mp h
      have hmore := hsteps.advance (slot_ok hs) _ hmove
      by_cases hres : res = .ended
      · rw [if_pos hres] at h
        obtain ⟨⟨s₂, c₂⟩, hfree, h⟩ := bind_eq_ok.mp h
        obtain ⟨iters₂, -, h⟩ := bind_eq_ok.mp h
        obtain ⟨-, -, h⟩ := bind_eq_ok.mp h
        cases h
        have hlt := (List.getElem?_eq_some_iff.mp (slot_ok hs)).1
        have hfreed := hmore.iterFree (List.getElem?_set_self hlt) hfree
        rw [List.set_set] at hfreed
        exact ⟨hgoes.trans ⟨rfl, rfl⟩, hfreed⟩
      · rw [if_neg hres] at h
        cases h
        exact ⟨hgoes, hmore⟩

omit [Inhabited K] in
theorem feedLoop_steps {i : ℕ} : ∀ {r : FoldState K V U W × List (SkipArray K V) × Ctx K V U},
    forUp (stepIterator cb) i (fs, sas, c) = .ok r → fs.Goes r.1 ∧ IterSteps cb sas c r.2.1 r.2.2 := by
  induction i with
  | zero =>
      intro r h
      cases h
      exact ⟨.refl fs, .refl⟩
  | succ i ih =>
      intro r h
      obtain ⟨⟨fs₁, sas₁, c₁⟩, hloop, h⟩ := bind_eq_ok.mp h
      obtain ⟨hgoes₁, hsteps₁⟩ := ih hloop
      obtain ⟨hgoes, hsteps⟩ := stepIterator_steps hsteps₁ h
      exact ⟨hgoes₁.trans hgoes, hsteps⟩

end Walk

omit [Inhabited K] in
/-- `skiparray_fold_next` ends the fold, or feeds it and calls back. -/
theorem foldNext_cases {res : FoldNextRes} {next : Option (FoldState K V U W)} {w w' : W}
    (h : skiparrayFoldNext cb fs sas w c = .ok (res, next, sas', w', c')) :
    (next = none ∧ skiparrayFoldHalt fs sas c = .ok (sas', c')) ∨
      ∃ fs₁ c₁ fs₂, next = some fs₂ ∧ fs.Goes fs₁ ∧ IterSteps cb sas c sas' c₁ ∧
        callWithNext fs₁ fs₁.iterCount w c₁ = .ok (fs₂, w', c') := by
  obtain ⟨-, -, h⟩ := bind_eq_ok.mp h
  obtain ⟨-, -, h⟩ := bind_eq_ok.mp h
  by_cases hdone : fs.iterLive = 0 ∧ fs.ids.available = 0
  · rw [if_pos hdone] at h
    obtain ⟨⟨sas₁, c₁⟩, hhalt, h⟩ := bind_eq_ok.mp h
    cases h
    exact Or.inl ⟨rfl, hhalt⟩
  · rw [if_neg hdone] at h
    obtain ⟨⟨fs₁, sas₁, c₁⟩, hfeed, h⟩ := bind_eq_ok.mp h
    obtain ⟨⟨fs₂, w₂, c₂⟩, hcall, h⟩ := bind_eq_ok.mp h
    cases h
    have hfed : fs.Goes fs₁ ∧ IterSteps cb sas c sas' c₁ := by
      by_cases hlive : 0 < fs.iterLive
      · rw [if_pos hlive] at hfeed
        obtain ⟨-, -, hfeed⟩ := bind_eq_ok.mp hfeed
        exact feedLoop_steps hfeed
      · rw [if_neg hlive] at hfeed
        cases hfeed
        exact ⟨.refl fs, .refl⟩
    exact Or.inr ⟨fs₁, c₁, fs₂, rfl, hfed.1, hfed.2, hcall⟩

theorem Made.foldHalt (hmade : Made cb sas) (h : skiparrayFoldHalt fs sas c = .ok (sas', c')) :
    Made cb sas' := by
  obtain ⟨-, -, h⟩ := bind_eq_ok.mp h
  obtain ⟨⟨sas₁, c₁⟩, hfree, h⟩ := bind_eq_ok.mp h
  cases h
  exact (freeFoldIters_steps .refl hfree).made hmade

theorem Made.foldNext {res : FoldNextRes} {next : Option (FoldState K V U W)} {w w' : W}
    (hmade : Made cb sas) (h : skiparrayFoldNext cb fs sas w c = .ok (res, next, sas', w', c')) :
    Made cb sas' := by
  rcases foldNext_cases h with ⟨-, hhalt⟩ | ⟨fs₁, c₁, fs₂, -, -, hsteps, -⟩
  · exact hmade.foldHalt hhalt
  · exact hsteps.made hmade

theorem Made.openFold {type : FoldType}
    {fold : K → V → W → Ctx K V U → Except Fault (W × Ctx K V U)}
    {merge : Option (MergeFun K V U W)} {inputs : List ℕ} {res : FoldRes}
    {next : Option (FoldState K V U W)} {sa₀ : SkipArray K V} (hmade : Made cb sas)
    (h : openFold cb type fold merge sas c inputs sa₀ = .ok (res, next, sas', c')) :
    Made cb sas' := by
  rw [Skiparray.openFold] at h
  rcases h₁ : c.alloc cb with ⟨_ | block, c₁⟩
  · simp only [h₁] at h
    cases h
    exact hmade
  rcases h₂ : c₁.alloc cb with ⟨_ | idsBlock, c₂⟩
  · simp only [h₁, h₂] at h
    cases h
    exact hmade
  simp only [h₁, h₂] at h
  obtain ⟨⟨made, iters, live, sas₁, c₃⟩, hinit, h⟩ := bind_eq_ok.mp h
  have hmade₁ := (initIters_steps .refl hinit).made hmade
  cases made with
  | false =>
      obtain ⟨⟨sas₂, c₄⟩, hfree, h⟩ := bind_eq_ok.mp h
      cases h
      exact (freeFoldIters_steps .refl hfree).made hmade₁
  | true =>
      cases h
      exact hmade₁

theorem Made.foldLoop : ∀ {n : ℕ} {fs : FoldState K V U W} {sas : List (SkipArray K V)} {w w' : W}
    {c : Ctx K V U}, Made cb sas → foldLoop cb n fs sas w c = .ok (sas', w', c') → Made cb sas'
  | 0, _, _, _, _, _, _, h => by cases h
  | n + 1, fs, sas, w, w', c, hmade, h => by
      rw [Skiparray.foldLoop] at h
      obtain ⟨⟨res, next, sas₁, w₁, c₁⟩, hnext, h⟩ := bind_eq_ok.mp h
      have hmade₁ := hmade.foldNext hnext
      cases next with
      | none =>
          cases h
          exact hmade₁
      | some fs₁ => exact Made.foldLoop hmade₁ h

omit [Inhabited K] [Inhabited V] in
theorem checkInputs_total {sa₀ : SkipArray K V} : ∀ {os : List (Option ℕ)},
    (∀ g, some g ∈ os → g < sas.length) → ∃ rs, os.mapM (checkInput sas sa₀) = .ok rs
  | [], _ => ⟨[], rfl⟩
  | o :: os, hin => by
      obtain ⟨rs, hrs⟩ := checkInputs_total fun g hg => hin g (List.mem_cons_of_mem o hg)
      have hr : ∃ r, checkInput sas sa₀ o = .ok r := by
        cases o with
        | none => exact ⟨none, rfl⟩
        | some g =>
            have hs := List.getElem?_eq_getElem (hin g List.mem_cons_self)
            rw [checkInput, slot_of_getElem? hs, ok_bind]
            exact ⟨_, rfl⟩
      obtain ⟨r, hr⟩ := hr
      rw [List.mapM_cons, hr, ok_bind, hrs, ok_bind]
      exact ⟨_, rfl⟩

/-- Inputs that a fold does not take are a misuse, and nothing else. -/
theorem foldMultiInit_misuse {type : FoldType} {skiparrays : Option (List (Option ℕ))}
    {fold? : Option (K → V → W → Ctx K V U → Except Fault (W × Ctx K V U))}
    {merge : Option (MergeFun K V U W)}
    (hin : ∀ os, skiparrays = some os → ∀ g, some g ∈ os → g < sas.length)
    (hno : ∀ inputs sa₀ fold, skiparrays = some (inputs.map some) → fold? = some fold →
      ¬ Accepts merge sas inputs sa₀) :
    skiparrayFoldMultiInit cb type skiparrays fold? merge sas c = .ok (.errorMisuse, none, sas, c) := by
  rcases skiparrays with _ | _ | ⟨_ | h₀, hs⟩
  · rfl
  · rfl
  · rfl
  rcases fold? with _ | fold
  · rfl
  by_cases hmerge : 0 < hs.length ∧ merge.isNone
  · rw [skiparrayFoldMultiInit, if_pos hmerge]
  · have hsa₀ : ∃ sa₀, sas[h₀]? = some sa₀ :=
      ⟨_, List.getElem?_eq_getElem (hin _ rfl h₀ List.mem_cons_self)⟩
    obtain ⟨sa₀, hsa₀⟩ := hsa₀
    have hcheck : ∃ rs, (some h₀ :: hs).mapM (checkInput sas sa₀) = .ok rs :=
      checkInputs_total (hin _ rfl)
    obtain ⟨rs, hcheck⟩ := hcheck
    rw [skiparrayFoldMultiInit, if_neg hmerge, slot_of_getElem? hsa₀, ok_bind]
    refine bind_eq_ok.mpr ⟨rs, hcheck, ?_⟩
    cases hall : rs.allSome with
    | none => rfl
    | some inputs =>
        obtain ⟨hinputs, hsame⟩ := checkInputs_some hcheck hall
        refine absurd ?_ (hno inputs sa₀ fold (congrArg some hinputs) rfl)
        rcases inputs with _ | ⟨h, inputs⟩
        · cases hinputs
        · rw [List.map_cons, List.cons.injEq, Option.some.injEq] at hinputs
          obtain ⟨rfl, rfl⟩ := hinputs
          refine ⟨?_, ⟨h₀, rfl, hsa₀⟩, hsame⟩
          intro hlen
          rw [not_and, Bool.not_eq_true, Option.isNone_eq_false_iff] at hmerge
          exact hmerge (by simpa using hlen)

end Made

end Skiparray
