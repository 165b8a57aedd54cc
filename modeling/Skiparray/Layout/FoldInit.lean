import Skiparray.Layout.Held

/-!
# Starting a fold

When `skiparray_fold_multi_init` takes its inputs, and what it makes of them: a
fold state with an iterator on each input that is not empty, or nothing at all.
-/

namespace Skiparray

open Fallible

variable {K V U W : Type} [Inhabited K] [Inhabited V]

/-- The merge callback of a fold. -/
abbrev MergeFun (K V U W : Type) : Type :=
  List K → List V → W → Ctx K V U → Except Fault (ℕ × V × W × Ctx K V U)

/-- `skiparray_fold_multi_init` takes the inputs `inputs`, which have the settings
of `sa₀` as far as a fold is concerned. -/
structure Accepts (merge : Option (MergeFun K V U W)) (sas : List (SkipArray K V))
    (inputs : List ℕ) (sa₀ : SkipArray K V) : Prop where
  merges : 1 < inputs.length → merge.isSome = true
  first : ∃ h₀, inputs.head? = some h₀ ∧ sas[h₀]? = some sa₀
  same : ∀ h ∈ inputs, ∃ sa, sas[h]? = some sa ∧ sameCallbacks sa sa₀ = true

section Accept

variable {cb : Callbacks K U} {type : FoldType} {merge : Option (MergeFun K V U W)}
  {fold : K → V → W → Ctx K V U → Except Fault (W × Ctx K V U)} {sas : List (SkipArray K V)}
  {inputs : List ℕ} {sa₀ : SkipArray K V}

/-- The state in which a fold of `inputs` starts. -/
def startState (type : FoldType)
    (fold : K → V → W → Ctx K V U → Except Fault (W × Ctx K V U))
    (merge : Option (MergeFun K V U W)) (inputs : List ℕ) (sa₀ : SkipArray K V)
    (iters : List (IterState K V)) (live block idsBlock : ℕ) : FoldState K V U W :=
  { type
    useValues := sa₀.useValues
    cbs := ⟨fold, merge⟩
    cmp := sa₀.cmp
    ids := ⟨0, 0, List.replicate inputs.length 0⟩
    iterCount := inputs.length
    iterLive := live
    iters
    block
    idsBlock }

/-- What is left to do once the inputs are taken. -/
def openFold (cb : Callbacks K U) (type : FoldType)
    (fold : K → V → W → Ctx K V U → Except Fault (W × Ctx K V U))
    (merge : Option (MergeFun K V U W)) (sas : List (SkipArray K V)) (c : Ctx K V U)
    (inputs : List ℕ) (sa₀ : SkipArray K V) :
    Except Fault (FoldRes × Option (FoldState K V U W) × List (SkipArray K V) × Ctx K V U) :=
  match c.alloc cb with
  | (none, c) => return (.errorMemory, none, sas, c)
  | (some block, c) =>
    match c.alloc cb with
    | (none, c) => return (.errorMemory, none, sas, c.release block)
    | (some idsBlock, c) => do
      match ← initIters cb type inputs sas c [] 0 with
      | (false, iters, _, sas, c) =>
        let (sas, c) ← freeFoldIters iters sas (c.release idsBlock)
        return (.errorMemory, none, sas, c.release block)
      | (true, iters, live, sas, c) =>
        return (.ok, some (startState type fold merge inputs sa₀ iters live block idsBlock), sas, c)

/-- The check of one input. -/
def checkInput (sas : List (SkipArray K V)) (sa₀ : SkipArray K V) :
    Option ℕ → Except Fault (Option ℕ)
  | none => pure none
  | some h => do
    let sa ← slot sas h
    pure (if sameCallbacks sa sa₀ then some h else none)

omit [Inhabited K] [Inhabited V] in
theorem checkInput_ok {h : ℕ} {sa : SkipArray K V} (hsa : sas[h]? = some sa)
    (hsame : sameCallbacks sa sa₀ = true) : checkInput sas sa₀ (some h) = .ok (some h) := by
  rw [checkInput, slot_of_getElem? hsa, ok_bind, if_pos hsame]
  rfl

omit [Inhabited K] [Inhabited V] in
theorem checkInput_some {o : Option ℕ} {h : ℕ} (hcheck : checkInput sas sa₀ o = .ok (some h)) :
    o = some h ∧ ∃ sa, sas[h]? = some sa ∧ sameCallbacks sa sa₀ = true := by
  cases o with
  | none => cases hcheck
  | some g =>
      obtain ⟨sa, hsa, hrest⟩ := bind_eq_ok.mp hcheck
      by_cases hsame : sameCallbacks sa sa₀ = true
      · rw [if_pos hsame] at hrest
        cases hrest
        exact ⟨rfl, sa, slot_ok hsa, hsame⟩
      · rw [if_neg hsame] at hrest
        cases hrest

omit [Inhabited K] [Inhabited V] in
theorem checkInputs_ok : ∀ {inputs : List ℕ},
    (∀ h ∈ inputs, ∃ sa, sas[h]? = some sa ∧ sameCallbacks sa sa₀ = true) →
    (inputs.map some).mapM (checkInput sas sa₀) = .ok (inputs.map some) ∧
      (inputs.map some).allSome = some inputs
  | [], _ => ⟨rfl, rfl⟩
  | h :: inputs, hsame => by
      obtain ⟨sa, hsa, hcb⟩ := hsame h List.mem_cons_self
      obtain ⟨hrest, hall⟩ := checkInputs_ok fun g hg => hsame g (List.mem_cons_of_mem _ hg)
      constructor
      · rw [List.map_cons, List.mapM_cons, checkInput_ok hsa hcb, ok_bind, hrest, ok_bind]
        rfl
      · unfold List.allSome at hall ⊢
        rw [List.map_cons, List.mapM_cons, hall]
        rfl

omit [Inhabited K] [Inhabited V] in
theorem checkInputs_some : ∀ {os rs : List (Option ℕ)} {inputs : List ℕ},
    os.mapM (checkInput sas sa₀) = .ok rs → rs.allSome = some inputs →
    os = inputs.map some ∧ ∀ h ∈ inputs, ∃ sa, sas[h]? = some sa ∧ sameCallbacks sa sa₀ = true
  | [], rs, inputs, hm, hall => by
      cases hm
      cases hall
      exact ⟨rfl, by simp⟩
  | o :: os, rs, inputs, hm, hall => by
      rw [List.mapM_cons] at hm
      obtain ⟨r, hr, hm⟩ := bind_eq_ok.mp hm
      obtain ⟨rest, hrest, hm⟩ := bind_eq_ok.mp hm
      cases hm
      unfold List.allSome at hall
      rw [List.mapM_cons] at hall
      obtain ⟨h, hh, hall⟩ := Option.bind_eq_some_iff.mp hall
      obtain ⟨tail, htail, hinputs⟩ := Option.bind_eq_some_iff.mp hall
      obtain rfl : r = some h := hh
      obtain rfl : h :: tail = inputs := Option.some.inj hinputs
      obtain ⟨rfl, hsame⟩ := checkInput_some hr
      obtain ⟨rfl, hsames⟩ := checkInputs_some hrest htail
      refine ⟨rfl, ?_⟩
      intro g hg
      rcases List.mem_cons.mp hg with rfl | hg
      · exact hsame
      · exact hsames g hg

omit [Inhabited K] [Inhabited V] in
theorem Accepts.inside (ha : Accepts merge sas inputs sa₀) : ∀ h ∈ inputs, h < sas.length := by
  intro h hh
  obtain ⟨sa, hsa, -⟩ := ha.same h hh
  exact (List.getElem?_eq_some_iff.mp hsa).1

omit [Inhabited K] [Inhabited V] in
/-- One skiparray is always taken. -/
theorem Accepts.single {g : ℕ} {sa : SkipArray K V} (hsa : sas[g]? = some sa) :
    Accepts (none : Option (MergeFun K V U W)) sas [g] sa := by
  refine ⟨by simp, ⟨g, rfl, hsa⟩, ?_⟩
  intro h hh
  rw [List.mem_singleton.mp hh]
  exact ⟨sa, hsa, by simp [sameCallbacks]⟩

/-- Taken inputs are opened. -/
theorem Accepts.init_eq (ha : Accepts merge sas inputs sa₀) (c : Ctx K V U) :
    skiparrayFoldMultiInit cb type (some (inputs.map some)) (some fold) merge sas c =
      openFold cb type fold merge sas c inputs sa₀ := by
  obtain ⟨h₀, hhead, hsa₀⟩ := ha.first
  cases inputs with
  | nil => cases hhead
  | cons h inputs =>
      obtain rfl : h = h₀ := Option.some.inj hhead
      obtain ⟨hcheck, hall⟩ := checkInputs_ok ha.same
      have hmerge : ¬ (0 < (inputs.map some).length ∧ merge.isNone) := by
        rintro ⟨hlen, hnone⟩
        have hsome := ha.merges (by simpa using hlen)
        rw [Option.isNone_iff_eq_none] at hnone
        rw [hnone] at hsome
        cases hsome
      rw [List.map_cons] at hcheck hall ⊢
      rw [skiparrayFoldMultiInit, if_neg hmerge, slot_of_getElem? hsa₀, ok_bind]
      refine (bind_of_ok hcheck).trans ?_
      simp only [hall]
      rfl

/-- Inputs that are not taken are a misuse. -/
theorem accepts_of_init {skiparrays : Option (List (Option ℕ))}
    {fold? : Option (K → V → W → Ctx K V U → Except Fault (W × Ctx K V U))} {c c' : Ctx K V U}
    {res : FoldRes} {fs : Option (FoldState K V U W)} {sas' : List (SkipArray K V)}
    (hinit : skiparrayFoldMultiInit cb type skiparrays fold? merge sas c = .ok (res, fs, sas', c'))
    (hres : res ≠ .errorMisuse) :
    ∃ inputs sa₀ fold, skiparrays = some (inputs.map some) ∧ fold? = some fold ∧
      Accepts merge sas inputs sa₀ := by
  have hmisuse : ∀ {s : List (SkipArray K V)} {c₁ : Ctx K V U},
      (Except.ok (FoldRes.errorMisuse, none, s, c₁) :
        Except Fault (FoldRes × Option (FoldState K V U W) × _ × _)) ≠ .ok (res, fs, sas', c') := by
    intro s c₁ heq
    cases heq
    exact hres rfl
  rcases skiparrays with _ | _ | ⟨_ | h₀, hs⟩
  · exact absurd hinit hmisuse
  · exact absurd hinit hmisuse
  · exact absurd hinit hmisuse
  rcases fold? with _ | fold
  · exact absurd hinit hmisuse
  by_cases hmerge : 0 < hs.length ∧ merge.isNone
  · rw [skiparrayFoldMultiInit, if_pos hmerge] at hinit
    exact absurd hinit hmisuse
  · rw [skiparrayFoldMultiInit, if_neg hmerge] at hinit
    obtain ⟨sa₀, hsa₀, hinit⟩ := bind_eq_ok.mp hinit
    obtain ⟨rs, hcheck, hinit⟩ := bind_eq_ok.mp hinit
    cases hall : rs.allSome with
    | none =>
        rw [hall] at hinit
        exact absurd hinit hmisuse
    | some inputs =>
        obtain ⟨hinputs, hsame⟩ := checkInputs_some hcheck hall
        refine ⟨inputs, sa₀, fold, by rw [hinputs], rfl, ?_, ?_, hsame⟩
        · intro hlen
          rw [not_and, Bool.not_eq_true, Option.isNone_eq_false_iff] at hmerge
          apply hmerge
          have hcount := congrArg List.length hinputs
          rw [List.length_cons, List.length_map] at hcount
          omega
        · refine ⟨h₀, ?_, slot_ok hsa₀⟩
          cases inputs with
          | nil => cases hinputs
          | cons h inputs =>
              rw [List.map_cons, List.cons.injEq, Option.some.injEq] at hinputs
              rw [List.head?_cons, hinputs.1]

end Accept

section Start

variable {cb : Callbacks K U} {type : FoldType} {merge : Option (MergeFun K V U W)}
  {fold : K → V → W → Ctx K V U → Except Fault (W × Ctx K V U)} {sas : List (SkipArray K V)}
  {inputs : List ℕ} {its : ℕ → List Ptr} {bs : ℕ → List (Block K V)}

/-- What becomes of taken inputs: without memory nothing is left, otherwise the
blocks obtained are those of the fold and of its iterators. -/
inductive InitOutcome (cb : Callbacks K U) (type : FoldType)
    (fold : K → V → W → Ctx K V U → Except Fault (W × Ctx K V U))
    (merge : Option (MergeFun K V U W)) (sas : List (SkipArray K V)) (its : ℕ → List Ptr)
    (bs : ℕ → List (Block K V)) (inputs : List ℕ) (sa₀ : SkipArray K V) (c : Ctx K V U) :
    FoldRes → Option (FoldState K V U W) → List (SkipArray K V) → Ctx K V U → Prop where
  | memory {sas' : List (SkipArray K V)} {c' : Ctx K V U} (hpool : Pool sas sas' its [])
      (hled : Ledger cb c c' 0) (hrefused : ¬ cb.AllGranted) :
      InitOutcome cb type fold merge sas its bs inputs sa₀ c .errorMemory none sas' c'
  | ok {iters : List (IterState K V)} {live block idsBlock : ℕ} {sas' : List (SkipArray K V)}
      {c' : Ctx K V U} (ho : Opening type bs its sas sas' inputs iters live)
      (hled : Ledger cb c c' (((holds iters).map (blockOf sas') : List ℕ) + {idsBlock, block})) :
      InitOutcome cb type fold merge sas its bs inputs sa₀ c .ok
        (some (startState type fold merge inputs sa₀ iters live block idsBlock)) sas' c'

theorem openFold_spec (cb : Callbacks K U) (type : FoldType)
    (fold : K → V → W → Ctx K V U → Except Fault (W × Ctx K V U))
    (merge : Option (MergeFun K V U W)) (sa₀ : SkipArray K V)
    (hwf : ∀ {h : ℕ} {b : SkipArray K V}, sas[h]? = some b → ∃ cmp, b.Wf cmp (bs h))
    (hcur : ∀ {h : ℕ} {b : SkipArray K V}, sas[h]? = some b → b.Cursors (its h))
    (hin : ∀ h ∈ inputs, h < sas.length) (c : Ctx K V U) :
    ∃ res fs sas' c', openFold cb type fold merge sas c inputs sa₀ = .ok (res, fs, sas', c') ∧
      c'.freed = c.freed ∧ c'.udata = c.udata ∧
      InitOutcome cb type fold merge sas its bs inputs sa₀ c res fs sas' c' := by
  have hrefl : Pool sas sas its [] := .refl hcur
  unfold openFold
  rcases h₁ : c.alloc cb with ⟨_ | block, c₁⟩
  · obtain ⟨hf, hu⟩ := Ctx.alloc_keeps h₁
    exact ⟨_, _, _, _, rfl, hf, hu,
      .memory hrefl ((Ledger.refl cb c).alloc_none h₁) (Ctx.alloc_refused h₁)⟩
  obtain ⟨hf₁, hu₁⟩ := Ctx.alloc_keeps h₁
  have l₁ := (Ledger.refl cb c).alloc_some h₁
  rcases h₂ : c₁.alloc cb with ⟨_ | idsBlock, c₂⟩
  · obtain ⟨hf, hu⟩ := Ctx.alloc_keeps h₂
    simp only [h₂]
    exact ⟨_, _, _, _, rfl, hf.trans hf₁, hu.trans hu₁,
      .memory hrefl (l₁.alloc_none h₂).release (Ctx.alloc_refused h₂)⟩
  obtain ⟨hf₂, hu₂⟩ := Ctx.alloc_keeps h₂
  have l₂ := l₁.alloc_some h₂
  simp only [h₂]
  obtain ⟨ok, iters, live, sas', c₃, hloop, hpool, hf₃, hu₃, hled, hno, hyes⟩ :=
    initIters_spec cb hwf inputs hin
      (⟨hrefl, .nil, rfl⟩ : Opening type bs its sas sas [] [] 0) c₂
  have l₃ := hled c {idsBlock, block} (by simpa [holds] using l₂)
  rw [hloop, ok_bind]
  cases ok with
  | true => exact ⟨_, _, _, _, rfl, hf₃.trans (hf₂.trans hf₁), hu₃.trans (hu₂.trans hu₁),
      .ok (hyes rfl) l₃⟩
  | false =>
      obtain ⟨sas'', c₄, hfree, hnone, hf₄, hu₄, hback⟩ :=
        freeFoldIters_spec iters hpool (c₃.release idsBlock)
      refine ⟨_, _, _, _, bind_eq_ok.mpr ⟨_, hfree, rfl⟩, ?_, ?_, .memory hnone ?_ (hno rfl)⟩
      · exact hf₄.trans (hf₃.trans (hf₂.trans hf₁))
      · exact hu₄.trans (hu₃.trans (hu₂.trans hu₁))
      · apply Ledger.release
        apply hback
        apply Ledger.release
        rwa [add_comm, Multiset.insert_eq_cons, Multiset.cons_add, add_comm] at l₃

end Start

end Skiparray
