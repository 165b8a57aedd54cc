import Skiparray.Runs.Twins
import Skiparray.Runs.Lists

/-!
# Folds over twins

Folds over lists of twins run in lockstep: the same pairs wait, the same
callbacks are called, and twins are left. Two fold states differ in the memory
they occupy at most.
-/

namespace Skiparray

open SkipLinks Fallible

variable {K V U W : Type} [Inhabited K] [Inhabited V]

/-! ## A client's callbacks -/

/-- A fold callback that works on the state behind its `udata` and nothing else. -/
def clientFold (fold : K → V → W → W) (k : K) (v : V) (w : W) (c : Ctx K V U) :
    Except Fault (W × Ctx K V U) := .ok (fold k v w, c)

def clientMerge (merge : List K → List V → W → ℕ × V × W) : MergeFun K V U W :=
  fun ks vs w c => .ok ((merge ks vs w).1, (merge ks vs w).2.1, (merge ks vs w).2.2, c)

/-- The state of a client's fold, and one that differs from it in its memory. -/
structure FoldTwin (fs fs' : FoldState K V U W) : Prop where
  client : ∃ fold merge, fs.cbs = ⟨clientFold fold, Option.map clientMerge merge⟩
  same : ∃ block idsBlock, fs' = { fs with block, idsBlock }

/-! ## Lists of twins -/

section Lists

variable {α β : Type} {R : α → β → Prop}

theorem slot_together {xs : List α} {ys : List β} (h : List.Forall₂ R xs ys) (i : ℕ) :
    Together R (slot xs i) (slot ys i) := by
  induction h generalizing i with
  | nil => exact .error _
  | cons hab _ ih =>
      cases i with
      | zero => exact .ok hab
      | succ i => exact ih i

theorem forall₂_set {xs : List α} {ys : List β} (h : List.Forall₂ R xs ys) {x : α} {y : β}
    (hxy : R x y) (i : ℕ) : List.Forall₂ R (xs.set i x) (ys.set i y) := by
  induction h generalizing i with
  | nil => exact .nil
  | cons hab hrest ih =>
      cases i with
      | zero => exact .cons hxy hrest
      | succ i => exact .cons hab (ih i)

end Lists

section Fold

variable {cb : Callbacks K U} {fs fs' : FoldState K V U W} {sas sas' : List (SkipArray K V)}
  {sa sa' : SkipArray K V}

/-- What a step of a fold leaves: the fold states, the skiparrays, and two
contexts that need not have anything to do with each other. -/
def StepTwins (cb : Callbacks K U)
    (s s' : FoldState K V U W × List (SkipArray K V) × Ctx K V U) : Prop :=
  FoldTwin s.1 s'.1 ∧ List.Forall₂ (Twin cb) s.2.1 s'.2.1

omit [Inhabited K] [Inhabited V] in
theorem insertPair_together (cmp : K → K → ℤ) (h : FoldTwin fs fs') (i : ℕ) :
    Together FoldTwin (insertPair cmp fs i) (insertPair cmp fs' i) := by
  obtain ⟨hclient, block, idsBlock, rfl⟩ := h
  refine .same _ fun ids => .same _ fun is => .same _ fun r => .same _ fun iters => .ok ?_
  exact ⟨hclient, block, idsBlock, rfl⟩

/-- The movement of an iterator in a fold. -/
theorem advance_together {sa sa' : SkipArray K V} {it : Ptr} (h : Twin cb sa sa') (type : FoldType)
    (hwrap : sa.NoWrap it) (hwrap' : sa'.NoWrap it) :
    Together (fun r r' => r.1 = r'.1 ∧ Twin cb r.2 r'.2)
      (match type with
        | .right => skiparrayIterPrev sa it
        | .left => skiparrayIterNext sa it)
      (match type with
        | .right => skiparrayIterPrev sa' it
        | .left => skiparrayIterNext sa' it) := by
  cases type with
  | left => exact h.iterNext hwrap hwrap'
  | right => exact h.iterPrev it

/-- One turn of `step_active_iterators`. -/
theorem stepIterator_together (i : ℕ) {s s' : FoldState K V U W × List (SkipArray K V) × Ctx K V U}
    (h : StepTwins cb s s') : Together (StepTwins cb) (stepIterator cb i s) (stepIterator cb i s') := by
  obtain ⟨fs, sas, c⟩ := s
  obtain ⟨fs', sas', c'⟩ := s'
  obtain ⟨⟨hclient, block, idsBlock, rfl⟩, hsas⟩ := h
  refine .same _ fun is => ?_
  cases hiter : is.iter with
  | none => exact .ok ⟨⟨hclient, block, idsBlock, rfl⟩, hsas⟩
  | some x =>
      obtain ⟨h, it⟩ := x
      by_cases hstate : is.state ≠ .none
      · simp only [if_pos hstate]
        exact .ok ⟨⟨hclient, block, idsBlock, rfl⟩, hsas⟩
      · simp only [if_neg hstate]
        refine (slot_together hsas h).bind fun sa sa' htwin => ?_
        refine (htwin.iterGet it).bind ?_
        rintro kv _ ⟨rfl, hwrap, hwrap'⟩
        refine .same _ fun iters => ?_
        have hread : FoldTwin { fs with iters } { fs with iters, block, idsBlock } :=
          ⟨hclient, block, idsBlock, rfl⟩
        refine (insertPair_together (cb.cmp fs.cmp) hread i).bind ?_
        rintro fs₁ _ ⟨hclient₁, block₁, idsBlock₁, rfl⟩
        refine .same _ fun is₁ => .same _ fun _ => ?_
        refine (advance_together htwin fs₁.type hwrap hwrap').bind ?_
        rintro ⟨res, sa₁⟩ ⟨_, sa₁'⟩ ⟨rfl, htwin₁⟩
        by_cases hres : res = .ended
        · simp only [if_pos hres]
          refine (htwin₁.iterFree c c' (some it)).bind fun r r' hr => ?_
          refine .same _ fun iters₁ => .same _ fun _ => .ok ?_
          exact ⟨⟨hclient₁, block₁, idsBlock₁, rfl⟩, forall₂_set hsas hr h⟩
        · simp only [if_neg hres]
          exact .ok ⟨⟨hclient₁, block₁, idsBlock₁, rfl⟩, forall₂_set hsas htwin₁ h⟩

/-- `step_active_iterators` on twins. -/
theorem stepActiveIterators_together (h : FoldTwin fs fs') (hsas : List.Forall₂ (Twin cb) sas sas')
    (c c' : Ctx K V U) : Together (StepTwins cb) (stepActiveIterators cb fs sas c)
      (stepActiveIterators cb fs' sas' c') := by
  have h' := h
  obtain ⟨-, block, idsBlock, rfl⟩ := h
  exact .same _ fun _ => Together.forUp (fun i _ _ => stepIterator_together i) _ ⟨h', hsas⟩

omit [Inhabited K] in
theorem collectEqual_congr (hids : fs'.ids = fs.ids) (hiters : fs'.iters = fs.iters)
    (huse : fs'.useValues = fs.useValues) :
    ∀ n i, collectEqual fs' i n = collectEqual fs i n
  | 0, _ => rfl
  | n + 1, i => by
      simp only [collectEqual, hids, hiters, huse, collectEqual_congr hids hiters huse n]

omit [Inhabited K] in
/-- `call_with_next` makes the same calls. -/
theorem callWithNext_together (h : FoldTwin fs fs') (count : ℕ) (w : W) (c c' : Ctx K V U) :
    Together (fun r r' => FoldTwin r.1 r'.1 ∧ r.2.1 = r'.2.1) (callWithNext fs count w c)
      (callWithNext fs' count w c') := by
  obtain ⟨⟨fold, merge, hcbs⟩, block, idsBlock, hsame⟩ := h
  have hcollect : ∀ n i, collectEqual fs' i n = collectEqual fs i n := by
    apply collectEqual_congr <;> rw [hsame]
  have hfold : ∀ k v w (c : Ctx K V U), fs.cbs.fold k v w c = .ok (fold k v w, c) := by
    intro k v w c
    rw [hcbs]
    rfl
  have hmerge : fs.cbs.merge = merge.map clientMerge := by rw [hcbs]
  rw [callWithNext, callWithNext]
  simp only [hcollect]
  subst hsame
  refine .same _ fun _ => .same _ fun id => .same _ fun first => ?_
  by_cases hstate : first.state = .availableLt
  · simp only [if_pos hstate, hfold, ok_bind]
    exact .same _ fun iters => .ok ⟨⟨⟨fold, merge, hcbs⟩, block, idsBlock, rfl⟩, rfl⟩
  · simp only [if_neg hstate, hmerge]
    refine .same _ fun _ => ?_
    cases merge with
    | none => exact .error _
    | some merge =>
        simp only [Option.map_some]
        refine .same _ fun pairs => ?_
        by_cases hcount : count < pairs.length
        · simp only [if_pos hcount]
          exact .error _
        · simp only [if_neg hcount, clientMerge, hfold, ok_bind]
          refine .same _ fun _ => .same _ fun _ => .same _ fun key => .same _ fun iters => .ok ?_
          exact ⟨⟨⟨fold, some merge, hcbs⟩, block, idsBlock, rfl⟩, rfl⟩

/-- The iterators of a fold are freed on both sides. -/
theorem freeFoldIters_together : ∀ (iters : List (IterState K V)) {sas sas' : List (SkipArray K V)},
    List.Forall₂ (Twin cb) sas sas' → ∀ c c' : Ctx K V U,
      Together (fun r r' => List.Forall₂ (Twin cb) r.1 r'.1) (freeFoldIters iters sas c)
        (freeFoldIters iters sas' c')
  | [], _, _, h, _, _ => .ok h
  | is :: rest, sas, sas', h, c, c' => by
      cases hiter : is.iter with
      | none =>
          simp only [freeFoldIters, hiter]
          exact freeFoldIters_together rest h c c'
      | some x =>
          simp only [freeFoldIters, hiter]
          refine (slot_together h x.1).bind fun sa sa' htwin => ?_
          refine (htwin.iterFree c c' (some x.2)).bind fun r r' hr => ?_
          exact freeFoldIters_together rest (forall₂_set h hr x.1) r.2 r'.2

theorem skiparrayFoldHalt_together (h : FoldTwin fs fs') (hsas : List.Forall₂ (Twin cb) sas sas')
    (c c' : Ctx K V U) : Together (fun r r' => List.Forall₂ (Twin cb) r.1 r'.1)
      (skiparrayFoldHalt fs sas c) (skiparrayFoldHalt fs' sas' c') := by
  obtain ⟨-, block, idsBlock, rfl⟩ := h
  exact .same _ fun _ => (freeFoldIters_together fs.iters hsas c c').bind fun r r' hr => .ok hr

/-- `skiparray_fold_next` on twins. -/
theorem skiparrayFoldNext_together (h : FoldTwin fs fs') (hsas : List.Forall₂ (Twin cb) sas sas')
    (w : W) (c c' : Ctx K V U) :
    Together (fun r r' => r.1 = r'.1 ∧ Option.Rel FoldTwin r.2.1 r'.2.1 ∧
        List.Forall₂ (Twin cb) r.2.2.1 r'.2.2.1 ∧ r.2.2.2.1 = r'.2.2.2.1)
      (skiparrayFoldNext cb fs sas w c) (skiparrayFoldNext cb fs' sas' w c') := by
  have h' := h
  obtain ⟨-, block, idsBlock, rfl⟩ := h
  refine .same _ fun _ => .same _ fun _ => ?_
  by_cases hdone : fs.iterLive = 0 ∧ fs.ids.available = 0
  · simp only [if_pos hdone]
    refine (skiparrayFoldHalt_together h' hsas c c').bind fun r r' hr => .ok ?_
    exact ⟨rfl, .none, hr, rfl⟩
  · simp only [if_neg hdone]
    have hstep : Together (StepTwins cb)
        (if 0 < fs.iterLive then stepActiveIterators cb fs sas c else pure (fs, sas, c))
        (if 0 < fs.iterLive then stepActiveIterators cb { fs with block, idsBlock } sas' c'
          else pure ({ fs with block, idsBlock }, sas', c')) := by
      by_cases hlive : 0 < fs.iterLive
      · simp only [if_pos hlive]
        exact stepActiveIterators_together h' hsas c c'
      · simp only [if_neg hlive]
        exact .ok ⟨h', hsas⟩
    refine hstep.bind ?_
    rintro ⟨fs₁, sas₁, c₁⟩ ⟨fs₁', sas₁', c₁'⟩ ⟨hfs₁, hsas₁⟩
    have hcount : fs₁'.iterCount = fs₁.iterCount := by
      obtain ⟨-, _, _, rfl⟩ := hfs₁
      rfl
    simp only [hcount]
    refine (callWithNext_together hfs₁ fs₁.iterCount w c₁ c₁').bind ?_
    rintro ⟨fs₂, w₂, c₂⟩ ⟨fs₂', _, c₂'⟩ ⟨hfs₂, rfl⟩
    exact .ok ⟨rfl, .some hfs₂, hsas₁, rfl⟩

/-! ## Starting a fold -/

/-- Where `skiparray_fold_multi_init` puts a new iterator. -/
theorem startIter_together (h : Twin cb sa sa') (type : FoldType) (it : Ptr) :
    Together (Twin cb)
      (match type with
        | .right => skiparrayIterSeekEndpoint sa it .last
        | .left => pure sa)
      (match type with
        | .right => skiparrayIterSeekEndpoint sa' it .last
        | .left => pure sa') := by
  cases type with
  | left => exact .ok h
  | right => exact h.iterSeekEndpoint it .last

/-- The iterators of a fold are created on both sides, unless memory is refused. -/
theorem initIters_together (type : FoldType) : ∀ (inputs : List ℕ) {sas sas' : List (SkipArray K V)},
    List.Forall₂ (Twin cb) sas sas' →
      ∀ (c c' : Ctx K V U) (iters : List (IterState K V)) (live : ℕ),
        (∀ r, initIters cb type inputs sas c iters live = .ok r → r.1 = true) →
        (∀ r, initIters cb type inputs sas' c' iters live = .ok r → r.1 = true) →
        Together (fun r r' => r.1 = r'.1 ∧ r.2.1 = r'.2.1 ∧ r.2.2.1 = r'.2.2.1 ∧
            List.Forall₂ (Twin cb) r.2.2.2.1 r'.2.2.2.1)
          (initIters cb type inputs sas c iters live) (initIters cb type inputs sas' c' iters live)
  | [], _, _, h, _, _, _, _, _, _ => .ok ⟨rfl, rfl, rfl, h⟩
  | g :: rest, sas, sas', h, c, c', iters, live, hmet, hmet' => by
      rw [initIters, initIters]
      refine (slot_together h g).bind_of fun sa sa' hsa hsa' htwin => ?_
      refine (htwin.iterNew c c').bind_of ?_
      rintro ⟨res, it, sa₁, c₁⟩ ⟨res', it', sa₁', c₁'⟩ hnew hnew' hr
      simp only [initIters, hsa, hnew, ok_bind] at hmet
      simp only [initIters, hsa', hnew', ok_bind] at hmet'
      cases res with
      | errorMemory => cases hmet _ rfl
      | empty =>
          cases res' with
          | errorMemory => cases hmet' _ rfl
          | ok => cases (hr (by simp) (by simp)).1
          | empty =>
              obtain ⟨-, -, htwin₁⟩ := hr (by simp) (by simp)
              exact initIters_together type rest (forall₂_set h htwin₁ g) c₁ c₁' _ live hmet hmet'
      | ok =>
          cases res' with
          | errorMemory => cases hmet' _ rfl
          | empty => cases (hr (by simp) (by simp)).1
          | ok =>
              obtain ⟨-, hit, htwin₁⟩ := hr (by simp) (by simp)
              obtain rfl : it = it' := hit
              cases it with
              | none => exact .error _
              | some it =>
                  refine (startIter_together htwin₁ type it).bind_of ?_
                  intro sa₂ sa₂' hstart hstart' htwin₂
                  exact initIters_together type rest (forall₂_set h htwin₂ g) c₁ c₁' _ (live + 1)
                    (fun r hr => hmet r (bind_eq_ok.mpr ⟨sa₂, hstart, hr⟩))
                    (fun r hr => hmet' r (bind_eq_ok.mpr ⟨sa₂', hstart', hr⟩))

end Fold

section Inputs

variable {cb : Callbacks K U} {sas sas' : List (SkipArray K V)} {sa₀ sa₀' : SkipArray K V}

theorem Twin.alike {sa sa' : SkipArray K V} (h : Twin cb sa sa') : sa'.cmp = sa.cmp ∧
    sa'.mem = sa.mem ∧ sa'.free = sa.free ∧ sa'.useValues = sa.useValues := by
  obtain ⟨-, -, -, bs, bs', its, h⟩ := h
  obtain ⟨hcmp, hmem, hfree, huse⟩ := sameCallbacks_iff.mp h.alike
  exact ⟨hcmp.symm, hmem.symm, hfree.symm, huse.symm⟩

/-- Twins pass the same checks. -/
theorem checkInput_congr (hsas : List.Forall₂ (Twin cb) sas sas') (h₀ : Twin cb sa₀ sa₀')
    (o : Option ℕ) : checkInput sas sa₀ o = checkInput sas' sa₀' o := by
  cases o with
  | none => rfl
  | some g =>
      have htogether : Together Eq (checkInput sas sa₀ (some g)) (checkInput sas' sa₀' (some g)) := by
        refine (slot_together hsas g).bind fun sa sa' htwin => .ok ?_
        obtain ⟨hcmp, hmem, hfree, huse⟩ := htwin.alike
        obtain ⟨hcmp₀, hmem₀, hfree₀, huse₀⟩ := h₀.alike
        unfold sameCallbacks
        rw [hcmp, hmem, hfree, huse, hcmp₀, hmem₀, hfree₀, huse₀]
      exact htogether.eq

theorem Twin.reachable (h : List.Forall₂ (Twin cb) sas sas') :
    (∀ sa ∈ sas, ∃ f, LawfulCmp (cb.cmp f) ∧ Reachable cb f sa) ∧
      ∀ sa ∈ sas', ∃ f, LawfulCmp (cb.cmp f) ∧ Reachable cb f sa := by
  induction h with
  | nil => simp
  | @cons sa sa' _ _ htwin _ ih =>
      obtain ⟨hc, hreach, hreach', -⟩ := htwin
      constructor
      · rintro s (_ | ⟨_, hs⟩)
        · exact ⟨_, hc, hreach⟩
        · exact ih.1 s hs
      · rintro s (_ | ⟨_, hs⟩)
        · exact ⟨_, hc, hreach'⟩
        · exact ih.2 s hs

/-- Opening a fold comes back, and if an iterator could not be made, it answers so. -/
theorem openFold_refused (hreach : ∀ sa ∈ sas, ∃ f, LawfulCmp (cb.cmp f) ∧ Reachable cb f sa)
    {type : FoldType} {fold : K → V → W → Ctx K V U → Except Fault (W × Ctx K V U)}
    {merge : Option (MergeFun K V U W)} {inputs : List ℕ} (hin : ∀ h ∈ inputs, h < sas.length)
    {c c₁ c₂ : Ctx K V U} {block idsBlock : ℕ} (h₁ : c.alloc cb = (some block, c₁))
    (h₂ : c₁.alloc cb = (some idsBlock, c₂))
    (hmet : ∀ r, openFold cb type fold merge sas c inputs sa₀ = .ok r → r.1 ≠ .errorMemory) :
    ∀ r, initIters cb type inputs sas c₂ [] 0 = .ok r → r.1 = true := by
  rintro ⟨made, iters, live, sas₁, c₃⟩ hr
  obtain ⟨bs, its, hco⟩ := exists_blocks hreach
  obtain ⟨res, fs, sas₂, c₄, hopen, -, -, -⟩ := openFold_spec cb type fold merge sa₀
    (fun hb => ⟨_, (hco hb).2.toWf⟩) (fun hb => (hco hb).2.cursors) hin c
  have hno := hmet _ hopen
  cases made with
  | true => rfl
  | false =>
      rw [openFold] at hopen
      simp only [h₁, h₂, hr, ok_bind] at hopen
      obtain ⟨r, -, hr'⟩ := bind_eq_ok.mp hopen
      cases hr'
      exact absurd rfl hno

theorem openFold_together (type : FoldType) (fold : K → V → W → W)
    (merge : Option (List K → List V → W → ℕ × V × W)) {inputs : List ℕ}
    (hin : ∀ h ∈ inputs, h < sas.length) (h : List.Forall₂ (Twin cb) sas sas')
    (h₀ : Twin cb sa₀ sa₀') (c c' : Ctx K V U)
    (hmet : ∀ r, openFold cb type (clientFold fold) (merge.map clientMerge) sas c inputs sa₀ =
      .ok r → r.1 ≠ .errorMemory)
    (hmet' : ∀ r, openFold cb type (clientFold fold) (merge.map clientMerge) sas' c' inputs sa₀' =
      .ok r → r.1 ≠ .errorMemory) :
    Together (fun r r' => r.1 = r'.1 ∧ Option.Rel FoldTwin r.2.1 r'.2.1 ∧
        List.Forall₂ (Twin cb) r.2.2.1 r'.2.2.1)
      (openFold cb type (clientFold fold) (merge.map clientMerge) sas c inputs sa₀)
      (openFold cb type (clientFold fold) (merge.map clientMerge) sas' c' inputs sa₀') := by
  obtain ⟨hreach, hreach'⟩ := Twin.reachable h
  have hin' : ∀ g ∈ inputs, g < sas'.length := h.length_eq ▸ hin
  rcases h₁ : c.alloc cb with ⟨_ | block, c₁⟩
  · exact absurd rfl (hmet _ (by simp only [openFold, h₁]; rfl))
  rcases h₁' : c'.alloc cb with ⟨_ | block', c₁'⟩
  · exact absurd rfl (hmet' _ (by simp only [openFold, h₁']; rfl))
  rcases h₂ : c₁.alloc cb with ⟨_ | idsBlock, c₂⟩
  · exact absurd rfl (hmet _ (by simp only [openFold, h₁, h₂]; rfl))
  rcases h₂' : c₁'.alloc cb with ⟨_ | idsBlock', c₂'⟩
  · exact absurd rfl (hmet' _ (by simp only [openFold, h₁', h₂']; rfl))
  have hmade := openFold_refused hreach hin h₁ h₂ hmet
  have hmade' := openFold_refused hreach' hin' h₁' h₂' hmet'
  simp only [openFold, h₁, h₂, h₁', h₂']
  refine (initIters_together type inputs h c₂ c₂' [] 0 hmade hmade').bind_of ?_
  rintro ⟨made, iters, live, sas₁, c₃⟩ ⟨_, _, _, sas₁', c₃'⟩ hr hr' ⟨rfl, rfl, rfl, hsas⟩
  obtain rfl : made = true := hmade _ hr
  refine .ok ⟨rfl, .some ⟨⟨fold, merge, rfl⟩, block', idsBlock', ?_⟩, hsas⟩
  obtain ⟨hcmp, -, -, huse⟩ := h₀.alike
  simp only [startState, hcmp, huse]

/-- `skiparray_fold_multi_init` on twins, unless memory is refused. -/
theorem skiparrayFoldMultiInit_together (type : FoldType) (inputs : Option (List (Option ℕ)))
    (fold : Option (K → V → W → W)) (merge : Option (List K → List V → W → ℕ × V × W))
    (h : List.Forall₂ (Twin cb) sas sas') (c c' : Ctx K V U)
    (hmet : ∀ r, skiparrayFoldMultiInit cb type inputs (fold.map clientFold)
      (merge.map clientMerge) sas c = .ok r → r.1 ≠ .errorMemory)
    (hmet' : ∀ r, skiparrayFoldMultiInit cb type inputs (fold.map clientFold)
      (merge.map clientMerge) sas' c' = .ok r → r.1 ≠ .errorMemory) :
    Together (fun r r' => r.1 = r'.1 ∧ Option.Rel FoldTwin r.2.1 r'.2.1 ∧
        List.Forall₂ (Twin cb) r.2.2.1 r'.2.2.1)
      (skiparrayFoldMultiInit cb type inputs (fold.map clientFold) (merge.map clientMerge) sas c)
      (skiparrayFoldMultiInit cb type inputs (fold.map clientFold) (merge.map clientMerge) sas' c')
    := by
  rcases inputs with _ | _ | ⟨_ | h₀, hs⟩
  · exact .ok ⟨rfl, .none, h⟩
  · exact .ok ⟨rfl, .none, h⟩
  · exact .ok ⟨rfl, .none, h⟩
  rcases fold with _ | fold
  · exact .ok ⟨rfl, .none, h⟩
  rw [Option.map_some] at *
  by_cases hm : 0 < hs.length ∧ (merge.map (clientMerge : _ → MergeFun K V U W)).isNone
  · rw [skiparrayFoldMultiInit, if_pos hm, skiparrayFoldMultiInit, if_pos hm]
    exact .ok ⟨rfl, .none, h⟩
  rw [skiparrayFoldMultiInit, if_neg hm, skiparrayFoldMultiInit, if_neg hm]
  refine (slot_together h h₀).bind_of fun sa₀ sa₀' hsa hsa' htwin => ?_
  have hcheck : checkInput sas sa₀ = checkInput sas' sa₀' := funext (checkInput_congr h htwin)
  have hsame : Together Eq ((some h₀ :: hs).mapM (checkInput sas sa₀))
      ((some h₀ :: hs).mapM (checkInput sas' sa₀')) := hcheck ▸ .refl _
  refine hsame.bind_of ?_
  rintro rs _ hrs hrs' rfl
  cases hall : rs.allSome with
  | none => exact .ok ⟨rfl, .none, h⟩
  | some inputs =>
      have hin : ∀ g ∈ inputs, g < sas.length := by
        intro g hg
        obtain ⟨s, hs, -⟩ := (checkInputs_some hrs hall).2 g hg
        exact (List.getElem?_eq_some_iff.mp hs).1
      refine openFold_together type fold merge hin h htwin c c' ?_ ?_
      · intro r hr
        apply hmet r
        rw [skiparrayFoldMultiInit, if_neg hm]
        exact bind_eq_ok.mpr ⟨_, hsa, bind_eq_ok.mpr ⟨_, hrs, by simp only [hall]; exact hr⟩⟩
      · intro r hr
        apply hmet' r
        rw [skiparrayFoldMultiInit, if_neg hm]
        exact bind_eq_ok.mpr ⟨_, hsa', bind_eq_ok.mpr ⟨_, hrs', by simp only [hall]; exact hr⟩⟩

end Inputs

/-! ## `skiparray_fold` -/

section Loop

variable {cb : Callbacks K U} {fs fs' : FoldState K V U W} {sas sas' : List (SkipArray K V)}

omit [Inhabited K] in
/-- More fuel makes no difference to a loop that came back. -/
theorem foldLoop_more {r : List (SkipArray K V) × W × Ctx K V U} (k : ℕ) :
    ∀ {n : ℕ} {fs : FoldState K V U W} {sas : List (SkipArray K V)} {w : W} {c : Ctx K V U},
      foldLoop cb n fs sas w c = .ok r → foldLoop cb (n + k) fs sas w c = .ok r
  | 0, _, _, _, _, h => by cases h
  | n + 1, fs, sas, w, c, h => by
      rw [foldLoop] at h
      rw [Nat.add_right_comm, foldLoop]
      obtain ⟨⟨res, next, sas₁, w₁, c₁⟩, hnext, hrest⟩ := bind_eq_ok.mp h
      refine bind_eq_ok.mpr ⟨_, hnext, ?_⟩
      cases next with
      | none => exact hrest
      | some fs₁ => exact foldLoop_more k hrest

theorem foldLoop_together : ∀ (n : ℕ) {fs fs' : FoldState K V U W} {sas sas' : List (SkipArray K V)},
    FoldTwin fs fs' → List.Forall₂ (Twin cb) sas sas' → ∀ (w : W) (c c' : Ctx K V U),
      Together (fun r r' => List.Forall₂ (Twin cb) r.1 r'.1 ∧ r.2.1 = r'.2.1)
        (foldLoop cb n fs sas w c) (foldLoop cb n fs' sas' w c')
  | 0, _, _, _, _, _, _, _, _, _ => .error _
  | n + 1, fs, fs', sas, sas', hfs, hsas, w, c, c' => by
      rw [foldLoop, foldLoop]
      refine (skiparrayFoldNext_together hfs hsas w c c').bind ?_
      rintro ⟨res, next, sas₁, w₁, c₁⟩ ⟨_, next', sas₁', _, c₁'⟩ ⟨rfl, hnext, hsas₁, rfl⟩
      cases hnext with
      | none => exact .ok ⟨hsas₁, rfl⟩
      | some hfs₁ => exact foldLoop_together n hfs₁ hsas₁ w₁ c₁ c₁'

/-- The fold and the loop behind a `skiparray_fold` that answered OK. -/
theorem skiparrayFold_ok {type : FoldType} {h : ℕ} {sa : SkipArray K V}
    {fold : K → V → W → Ctx K V U → Except Fault (W × Ctx K V U)} {w w₁ : W}
    {c c₁ : Ctx K V U} {sas₁ : List (SkipArray K V)} (hsa : slot sas h = .ok sa)
    (hfold : skiparrayFold cb type h fold sas w c = .ok (.ok, sas₁, w₁, c₁)) :
    ∃ fs sas₀ c₀, skiparrayFoldInit cb type (some h) (some fold) sas c = .ok (.ok, some fs, sas₀, c₀) ∧
      foldLoop cb (sa.heldPairs + 1) fs sas₀ w c₀ = .ok (sas₁, w₁, c₁) := by
  rw [skiparrayFold, hsa, ok_bind] at hfold
  obtain ⟨⟨res, ofs, sas₀, c₀⟩, hinit, hrest⟩ := bind_eq_ok.mp hfold
  cases res with
  | errorMisuse => cases hrest
  | errorMemory => cases hrest
  | ok =>
      cases ofs with
      | none => cases hrest
      | some fs =>
          obtain ⟨⟨sas₂, w₂, c₂⟩, hloop, hrest⟩ := bind_eq_ok.mp hrest
          cases hrest
          exact ⟨fs, sas₀, c₀, hinit, hloop⟩

/-- `skiparray_fold` on twins, unless memory is refused. -/
theorem skiparrayFold_together (type : FoldType) (h : ℕ) (fold : K → V → W → W)
    (hsas : List.Forall₂ (Twin cb) sas sas') (w : W) (c c' : Ctx K V U)
    (hmet : ∀ r, skiparrayFold cb type h (clientFold fold) sas w c = .ok r → r.1 ≠ .errorMemory)
    (hmet' : ∀ r, skiparrayFold cb type h (clientFold fold) sas' w c' = .ok r →
      r.1 ≠ .errorMemory) :
    Together (fun r r' => r.1 = r'.1 ∧ List.Forall₂ (Twin cb) r.2.1 r'.2.1 ∧ r.2.2.1 = r'.2.2.1)
      (skiparrayFold cb type h (clientFold fold) sas w c)
      (skiparrayFold cb type h (clientFold fold) sas' w c') := by
  obtain ⟨hreach, hreach'⟩ := Twin.reachable hsas
  have hslot := slot_together hsas h
  cases hx : slot sas h with
  | error e =>
      cases hy : slot sas' h with
      | error e' =>
          rw [hx, hy] at hslot
          rw [skiparrayFold, hx, skiparrayFold, hy]
          cases hslot
          exact .error _
      | ok sa' =>
          rw [hx, hy] at hslot
          cases hslot
  | ok sa =>
      obtain ⟨sa', hy, htwin⟩ := hslot.of_ok hx
      have hreturns : ∀ k v w (c : Ctx K V U), ∃ w' c', clientFold fold k v w c = .ok (w', c') :=
        fun k v w c => ⟨fold k v w, c, rfl⟩
      have hcarries : ∀ l, Carries cb (clientFold fold) l fun done w' _ _ =>
          Accumulates (clientFold (U := U) fold) done w w' := fun l => .accumulates hreturns l w
      obtain ⟨res, sas₁, w₁, c₁, heq, -, -, hres⟩ :=
        skiparrayFold_carries hreach (slot_ok hx) (hcarries (type.order sa.contents)) w c .nil
      obtain ⟨res', sas₁', w₁', c₁', heq', -, -, hres'⟩ :=
        skiparrayFold_carries hreach' (slot_ok hy) (hcarries (type.order sa'.contents)) w c' .nil
      obtain rfl : res = .ok := (hres.resolve_left fun hno => hmet _ heq hno.1).1
      obtain rfl : res' = .ok := (hres'.resolve_left fun hno => hmet' _ heq' hno.1).1
      obtain ⟨fs, sas₀, c₀, hinit, hloop⟩ := skiparrayFold_ok hx heq
      obtain ⟨fs', sas₀', c₀', hinit', hloop'⟩ := skiparrayFold_ok hy heq'
      have htogether := skiparrayFoldMultiInit_together type (some [some h]) (some fold) none hsas c c'
        (by
          intro r hr
          obtain rfl := Except.ok.inj (hr.symm.trans hinit)
          simp)
        (by
          intro r hr
          obtain rfl := Except.ok.inj (hr.symm.trans hinit')
          simp)
      obtain ⟨r, hr, -, hrel, hsas₀⟩ := htogether.of_ok hinit
      obtain rfl := Except.ok.inj (hr.symm.trans hinit')
      cases hrel with
      | some hfs =>
          have hl := foldLoop_more (sa'.heldPairs + 1) hloop
          have hl' := foldLoop_more (sa.heldPairs + 1) hloop'
          rw [Nat.add_comm] at hl'
          have hloops := foldLoop_together (sa.heldPairs + 1 + (sa'.heldPairs + 1)) hfs hsas₀ w c₀ c₀'
          rw [hl, hl'] at hloops
          rw [heq, heq']
          cases hloops with
          | ok hrel => exact .ok ⟨rfl, hrel.1, hrel.2⟩

end Loop

end Skiparray
