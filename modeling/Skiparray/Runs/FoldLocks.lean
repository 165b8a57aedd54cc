import Skiparray.Runs.Interleavings
import Skiparray.Runs.Locking

/-!
# What a fold locks

A fold gives an iterator back as soon as it has read its last pair, which is
before that pair has been delivered. From then on the input is only locked while
somebody else has an iterator on it.
-/

namespace Skiparray

open SkipLinks Fallible

variable {K V U W : Type} [Inhabited K] [Inhabited V] {cb : Callbacks K U} {w w₁ : World K V U W}
  {type : FoldType} {inputs : List ℕ} {fold : K → V → W → W}
  {merge : Option (List K → List V → W → ℕ × V × W)}

/-- An iterator is live, so that every mutation is refused. -/
structure SkipArray.Locked (cb : Callbacks K U) (sa : SkipArray K V) : Prop where
  live : sa.iter ≠ none
  refuses : ∀ {call : Call K V} {answer : Answer K V}, call.onLocked = some answer →
    ∀ c, sa.call cb c call = .ok (answer, sa, c)

theorem SkipArray.locked_iff {sa : SkipArray K V} : sa.Locked cb ↔ sa.iter ≠ none := by
  constructor
  · intro h
    exact h.live
  · intro hiter
    exact ⟨hiter, fun hlocked c => SkipArray.call_onLocked hiter hlocked c⟩

/-- A fold of `inputs` was started in `w`, which led to `w₁`. At every point of the run
after that until it ends, all inputs that had bindings are locked. The callbacks run
between the end of the step that reads ahead and the return of `skiparray_fold_next`,
so they find the skiparrays as that call leaves them. -/
def KeepsLocked (cb : Callbacks K U) (inputs : List ℕ) (w w₁ : World K V U W)
    (history : List (Request K V W × Reply K V W)) : Prop :=
  ∀ pre w' fs, pre <+: history → World.Goes cb w₁ pre w' →
    w'.folds[w.folds.length]? = some (some fs) →
    ∀ h ∈ inputs, contentsAt w.sas h ≠ [] → ∃ sa, w'.sas[h]? = some sa ∧ sa.Locked cb

/-- After `m` steps, the merge of the inputs has read skiparray `h` to its end. -/
def ReadToEnd (cmp : K → K → ℤ) (type : FoldType) (sas : List (SkipArray K V)) (inputs : List ℕ)
    (m h : ℕ) : Prop :=
  ∃ ds st, Lanes.Run (onKeys cmp) (startLanes type sas inputs) ds st ∧ ds.length = m ∧
    ∀ i : ℕ, inputs[i]? = some h → st.rests[i]? = some []

/-- An iterator on skiparray `h` is live that is not one of the fold's own. -/
def World.HeldBeside (w : World K V U W) (fs : FoldState K V U W) (h : ℕ) : Prop :=
  ∃ p, Live w.sas (h, p) ∧ (h, p) ∉ holds fs.iters

/-- At every point of the run until the fold ends, each input that had bindings and
that the merge of the inputs has read to its end by then is held by somebody else. -/
def HeldPastEnd (cb : Callbacks K U) (type : FoldType) (inputs : List ℕ) (w w₁ : World K V U W)
    (history : List (Request K V W × Reply K V W)) : Prop :=
  ∀ pre w' fs, pre <+: history → World.Goes cb w₁ pre w' →
    w'.folds[w.folds.length]? = some (some fs) →
    ∀ h ∈ inputs, contentsAt w.sas h ≠ [] →
      ReadToEnd (cb.cmp fs.cmp) type w.sas inputs (asked w.folds.length pre) h →
      w'.HeldBeside fs h

/-- A fold has an iterator of its own on an input until it has read it to its end. -/
theorem World.Reached.holds_iff (hw : w.Reached cb) (hs : w.Starts cb type inputs fold merge w₁)
    {history : List (Request K V W × Reply K V W)} {w' : World K V U W} {fs : FoldState K V U W}
    (hrun : World.Goes cb w₁ history w') (hfs : w'.folds[w.folds.length]? = some (some fs)) {h : ℕ} :
    (∀ p, (h, p) ∉ holds fs.iters) ↔
      ReadToEnd (cb.cmp fs.cmp) type w.sas inputs (asked w.folds.length history) h := by
  obtain ⟨-, hc, v', ds, st, hv', hat, hlanes, hlen⟩ := hw.fold_at hs hrun hfs
  obtain ⟨fs', hfs', hp⟩ := hv'.fold hat
  obtain rfl : fs = fs' := Option.some.inj (Option.some.inj (hfs.symm.trans hfs'))
  rw [← not_exists, ← hp.lends_iff]
  constructor
  · intro hno
    refine ⟨ds, st, hlanes, hlen, ?_⟩
    intro i hi
    obtain ⟨is, rest, -, hrest, -⟩ := hp.entry hi
    rw [hrest, Option.some.injEq]
    by_contra hne
    exact hno ⟨i, rest, hi, hrest, hne⟩
  · rintro ⟨ds', st', hlanes', hlen', hend⟩ ⟨i, rest, hi, hrest, hne⟩
    obtain ⟨-, rfl⟩ := hlanes.unique hlanes' (hlen.trans hlen'.symm)
    exact hne (Option.some.inj (hrest.symm.trans (hend i hi)))

/-- A fold keeps its inputs locked through a run if and only if those it has read to
their ends are held by somebody else until it ends. -/
theorem fold_keeps_locked_iff (hw : w.Reached cb) (hs : w.Starts cb type inputs fold merge w₁)
    (history : List (Request K V W × Reply K V W)) :
    KeepsLocked cb inputs w w₁ history ↔ HeldPastEnd cb type inputs w w₁ history := by
  have hmade : ∀ {pre w' fs}, World.Goes cb w₁ pre w' →
      w'.folds[w.folds.length]? = some (some fs) → Made cb w'.sas := by
    intro pre w' fs hrun hfs
    obtain ⟨-, -, v', -, -, hv', -⟩ := hw.fold_at hs hrun hfs
    exact hv'.made
  constructor
  · intro hlocks pre w' fs hpre hrun hfs h hh hne hend
    obtain ⟨sa, hsa, hlocked⟩ := hlocks pre w' fs hpre hrun hfs h hh hne
    obtain ⟨p, hlive⟩ := ((hmade hrun hfs).locked_iff hsa).mp hlocked.live
    exact ⟨p, hlive, (hw.holds_iff hs hrun hfs).mpr hend p⟩
  · intro hheld pre w' fs hpre hrun hfs h hh hne
    have hlive : ∃ p, Live w'.sas (h, p) := by
      by_cases hend : ReadToEnd (cb.cmp fs.cmp) type w.sas inputs (asked w.folds.length pre) h
      · obtain ⟨p, hlive, -⟩ := hheld pre w' fs hpre hrun hfs h hh hne hend
        exact ⟨p, hlive⟩
      · rw [← hw.holds_iff hs hrun hfs] at hend
        obtain ⟨p, hp⟩ := not_forall.mp hend
        rw [not_not] at hp
        obtain ⟨-, -, v', -, -, hv', -⟩ := hw.fold_at hs hrun hfs
        obtain ⟨f, -, hprog⟩ := hv'.foldView hfs
        exact ⟨p, hprog.holds_live _ hp⟩
    obtain ⟨p, sa, it, hsa, hit⟩ := hlive
    exact ⟨sa, hsa, SkipArray.locked_iff.mpr (((hmade hrun hfs).locked_iff hsa).mpr ⟨p, sa, it, hsa, hit⟩)⟩

theorem fold_keeps_locked_twoInputs :
    KeepsLocked Callbacks.plain [0, 1] World.twoInputs World.twoStarted twoHistory ↔
      HeldPastEnd Callbacks.plain .left [0, 1] World.twoInputs World.twoStarted twoHistory :=
  fold_keeps_locked_iff World.twoInputs_reached World.twoInputs_starts twoHistory

/-- The binding 1 ↦ 10 of the first of two inputs waits to be delivered, after that of
the second, and the skiparray is free to be changed. -/
theorem fold_unlocks_twoInputs :
    World.twoInputs.Starts Callbacks.plain .left [0, 1] (fun k v w => w + k * v) (some mergeSum)
        World.twoStarted ∧
      World.Goes Callbacks.plain World.twoStarted twoHistory World.twoRemoved ∧
      ¬ KeepsLocked Callbacks.plain [0, 1] World.twoInputs World.twoStarted twoHistory := by
  refine ⟨World.twoInputs_starts, World.twoRemoved_goes, ?_⟩
  intro hlocks
  obtain ⟨sa, hsa, hlocked⟩ := hlocks _ _ _ (List.prefix_append _ [_]) World.twoStepped_goes rfl 0
    (by decide) (by decide)
  obtain rfl := Option.some.inj hsa
  exact hlocked.live rfl

end Skiparray
