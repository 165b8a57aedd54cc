import Skiparray.Runs.Sessions

/-!
# Folds among other requests

A client makes requests about what it has, in any order, and may misuse its
iterators: step them past the end, or read them there. `World.Goes` are the runs
in which every request comes back. The folds in progress are stepped between other
requests, and take no notice of them.
-/

namespace Skiparray

open SkipLinks Fallible Interaction

variable {K V U W : Type}

/-! ## Runs -/

/-- Iterator `x` is the client's own: live, and not held by a fold. -/
def World.Own (w : World K V U W) (x : ℕ × Ptr) : Prop :=
  Live w.sas x ∧ ∀ (k : ℕ) (fs : FoldState K V U W), w.folds[k]? = some (some fs) →
    x ∉ holds fs.iters

/-- The request is about what the client has, its skiparrays and its own iterators.
`skiparray_count` is an `uint8_t`, and a merge callback is to choose one of the keys
it is given. -/
def World.Has (w : World K V U W) : Request K V W → Prop
  | .call h _ => h < w.sas.length
  | .iterNew h => h < w.sas.length
  | .iterFree h it => h < w.sas.length ∧ ∀ p, it = some p → w.Own (h, p)
  | .iterGet h it => w.Own (h, it)
  | .move h it _ => w.Own (h, it)
  | .foldInit _ skiparrays _ merge =>
      (∀ hs, skiparrays = some hs → hs.length ≤ 255 ∧ ∀ h, some h ∈ hs → h < w.sas.length) ∧
        ∀ m, merge = some m → ∀ ks vs w, ks ≠ [] → (m ks vs w).1 < ks.length
  | .foldNext _ => True
  | .foldHalt _ => True
  | .fold _ h _ => h < w.sas.length

section Goes

variable [Inhabited K] [Inhabited V]

/-- From `w₀`, these requests with these replies lead to the world. -/
inductive World.Goes (cb : Callbacks K U) (w₀ : World K V U W) :
    List (Request K V W × Reply K V W) → World K V U W → Prop where
  | start : Goes cb w₀ [] w₀
  | next {history : List (Request K V W × Reply K V W)} {w w' : World K V U W}
      {req : Request K V W} {reply : Reply K V W} (h : Goes cb w₀ history w) (hhas : w.Has req)
      (hstep : w.step cb req = .ok (reply, w')) : Goes cb w₀ (history ++ [(req, reply)]) w'

/-- A client can get there from skiparrays without iterators, made in any way. -/
def World.Reached (cb : Callbacks K U) (w : World K V U W) : Prop :=
  ∃ sas acc c history, Made cb sas ∧ (∀ sa ∈ sas, sa.iter = none) ∧
    World.Goes cb ⟨sas, [], acc, c⟩ history w

/-- A fold of `inputs` is started. It is the one with the next number. -/
structure World.Starts (cb : Callbacks K U) (w : World K V U W) (type : FoldType) (inputs : List ℕ)
    (fold : K → V → W → W) (merge : Option (List K → List V → W → ℕ × V × W))
    (w₁ : World K V U W) : Prop where
  has : w.Has (.foldInit type (some (inputs.map some)) (some fold) merge)
  step : w.step cb (.foldInit type (some (inputs.map some)) (some fold) merge) =
    .ok (.foldInit .ok, w₁)

end Goes

/-- The request is to read or to move an iterator. -/
def Request.ofCursor : Request K V W → Bool
  | .iterGet _ _ | .move _ _ _ => true
  | _ => false

/-- The request is for the next of fold `k`. -/
def Request.asks (k : ℕ) : Request K V W → Bool
  | .foldNext j => j = k
  | _ => false

/-- How often the client has asked for the next of fold `k`. -/
def asked (k : ℕ) (history : List (Request K V W × Reply K V W)) : ℕ :=
  history.countP fun e => e.1.asks k

theorem asked_concat (k : ℕ) (history : List (Request K V W × Reply K V W)) (req : Request K V W)
    (reply : Reply K V W) : asked k (history ++ [(req, reply)]) =
      asked k history + if req.asks k then 1 else 0 := by
  unfold asked
  rw [List.countP_append, List.countP_singleton]

theorem Request.asks_eq_false {k : ℕ} {req : Request K V W} (h : req ≠ .foldNext k) :
    req.asks k = false := by
  cases req with
  | foldNext j => exact decide_eq_false fun hj => h (congrArg _ hj)
  | _ => rfl

/-! ## What a fold does in one request -/

section Turns

variable [Inhabited K] [Inhabited V] {cb : Callbacks K U} {w w' w₁ : World K V U W}
  {v v' : View K V W} {req : Request K V W} {reply : Reply K V W} {k : ℕ} {f : FoldView K V W}
  {history : List (Request K V W × Reply K V W)}

omit [Inhabited V] in
/-- Fold `k` only delivers when it is asked to, and then the next delivery of its
merge, on the accumulator there is; it ends when it is halted, or asked with nothing
left. -/
inductive FoldView.Turn (cb : Callbacks K U) (k : ℕ) (f : FoldView K V W) (acc : W) :
    Request K V W → Reply K V W → W → Option (FoldView K V W) → Prop where
  | aside {req : Request K V W} {reply : Reply K V W} {acc' : W} (hnext : req ≠ .foldNext k)
      (hhalt : req ≠ .foldHalt k) : Turn cb k f acc req reply acc' (some f)
  | halt : Turn cb k f acc (.foldHalt k) .foldHalt acc none
  | done (hdone : f.lanes.Done) : Turn cb k f acc (.foldNext k) (.foldNext .done acc) acc none
  | next {d : Lanes.Delivery (ℕ × (K × V))} {st : Lanes.State (K × V)}
      (hnext : Lanes.Next (onKeys (cb.cmp f.cmp)) f.lanes d st) :
      Turn cb k f acc (.foldNext k) (.foldNext .ok (f.deliver acc (d.map Prod.snd)))
        (f.deliver acc (d.map Prod.snd)) (some { f with lanes := st })

/-- What a step of the client's view is to one of its folds. -/
theorem View.Step.turn (h : v.Step cb req reply v') (hf : v.folds[k]? = some (some f)) :
    ∃ o, f.Turn cb k v.acc req reply v'.acc o ∧ v'.folds[k]? = some o := by
  have hlt := (List.getElem?_eq_some_iff.mp hf).1
  have happend : ∀ o, (v.folds ++ [o])[k]? = some (some f) := by
    intro o
    rw [List.getElem?_append_left hlt]
    exact hf
  have hother : ∀ {j : ℕ} (o : Option (FoldView K V W)), j ≠ k →
      (v.folds.set j o)[k]? = some (some f) := by
    intro j o hj
    rw [← hf]
    exact List.getElem?_set_ne hj
  cases h with
  | call | callRefused | iterNewEmpty | iterNewRefused | iterNew | iterFreeNone | iterFree | iterGet
  | move | foldWholeRefused | foldWhole => exact ⟨_, .aside (by simp) (by simp), hf⟩
  | foldMisuse | foldRefused | foldInit => exact ⟨_, .aside (by simp) (by simp), happend _⟩
  | @foldDone j g hg hdone =>
      by_cases hj : j = k
      · subst hj
        obtain rfl : g = f := Option.some.inj (Option.some.inj (hg.symm.trans hf))
        exact ⟨_, .done hdone, List.getElem?_set_self hlt⟩
      · exact ⟨_, .aside (by simpa using hj) (by simp), hother _ hj⟩
  | @foldNext j g d st hg hnext =>
      by_cases hj : j = k
      · subst hj
        obtain rfl : g = f := Option.some.inj (Option.some.inj (hg.symm.trans hf))
        exact ⟨_, .next hnext, List.getElem?_set_self hlt⟩
      · exact ⟨_, .aside (by simpa using hj) (by simp), hother _ hj⟩
  | @foldHalt j g hg =>
      by_cases hj : j = k
      · subst hj
        exact ⟨_, .halt, List.getElem?_set_self hlt⟩
      · exact ⟨_, .aside (by simp) (by simpa using hj), hother _ hj⟩

/-- A fold that has ended is not heard of again. -/
theorem View.Step.fold_ended (h : v.Step cb req reply v') (hf : v.folds[k]? = some none) :
    v'.folds[k]? = some none := by
  have hlt := (List.getElem?_eq_some_iff.mp hf).1
  have happend : ∀ o, (v.folds ++ [o])[k]? = some none := by
    intro o
    rw [List.getElem?_append_left hlt]
    exact hf
  have hset : ∀ {j : ℕ} {g : FoldView K V W} (o : Option (FoldView K V W)),
      v.folds[j]? = some (some g) → (v.folds.set j o)[k]? = some none := by
    intro j g o hg
    have hj : j ≠ k := by
      rintro rfl
      cases hf.symm.trans hg
    rw [← hf]
    exact List.getElem?_set_ne hj
  cases h with
  | call | callRefused | iterNewEmpty | iterNewRefused | iterNew | iterFreeNone | iterFree | iterGet
  | move | foldWholeRefused | foldWhole => exact hf
  | foldMisuse | foldRefused | foldInit => exact happend _
  | foldDone hg => exact hset _ hg
  | foldNext hg => exact hset _ hg
  | foldHalt hg => exact hset _ hg

/-! ## A run shows what it should -/

/-- The client's own iterators are the cursors of its view. -/
theorem World.Shows.cursor_of_own (hw : w.Shows cb v) {x : ℕ × Ptr} (hx : w.Own x) :
    ∃ (a : ArrayView K V) (i : ℕ), v.arrays[x.1]? = some a ∧ a.cursors x.2 = some i := by
  rcases hw.known hx.1 with hcursor | ⟨k, fs, hfs, hmem⟩
  · exact hcursor
  · exact absurd hmem (hx.2 k fs hfs)

theorem Met.of_step (h : Met cb w v req) (hstep : w.step cb req = .ok (reply, w')) :
    ∃ v', w'.Shows cb v' ∧ v.Step cb req reply v' := by
  obtain ⟨reply', w'', v', hstep', hview, hw'⟩ := h
  rw [hstep] at hstep'
  cases hstep'
  exact ⟨v', hw', hview⟩

/-- A request that comes back does what the view says, or concerns an iterator that
was misused, and then no fold. -/
theorem World.Shows.step (hw : w.Shows cb v) (hhas : w.Has req)
    (hstep : w.step cb req = .ok (reply, w')) :
    ∃ v', w'.Shows cb v' ∧ (v.Step cb req reply v' ∨
      v'.folds = v.folds ∧ req.ofCursor = true) := by
  have hlen := hw.arrays.length_eq
  have hmet : v.Legal req → ∃ v', w'.Shows cb v' ∧ (v.Step cb req reply v' ∨
      v'.folds = v.folds ∧ req.ofCursor = true) := by
    intro hl
    obtain ⟨v', hw', hview⟩ := Met.of_step (library_meets w v req hw hl) hstep
    exact ⟨v', hw', Or.inl hview⟩
  have hslot : ∀ {i : ℕ} {fs : FoldState K V U W}, w.loadFold i = .ok fs →
      ∃ f, v.folds[i]? = some (some f) := by
    intro i fs hload
    obtain ⟨o, hs, ho⟩ := bind_eq_ok.mp hload
    cases o with
    | none => cases ho
    | some fs' =>
        obtain ⟨f, hf, -⟩ := hw.foldView (slot_ok hs)
        exact ⟨f, hf⟩
  cases req with
  | call h call =>
      have ha := List.getElem?_eq_getElem (show h < v.arrays.length from hlen ▸ hhas)
      obtain ⟨s, hs, hstep⟩ := bind_eq_ok.mp hstep
      obtain ⟨⟨answer, s', c'⟩, hcall, hstep⟩ := bind_eq_ok.mp hstep
      cases hstep
      obtain ⟨v', hview, hw'⟩ := hw.called (slot_ok hs) ha hcall
      exact ⟨v', hw', Or.inl hview⟩
  | iterNew h => exact hmet (show h < v.arrays.length from hlen ▸ hhas)
  | iterFree h it =>
      have ha := List.getElem?_eq_getElem (show h < v.arrays.length from hlen ▸ hhas.1)
      refine hmet ⟨_, ha, ?_⟩
      intro p hp
      obtain ⟨a, i, ha', hi⟩ := hw.cursor_of_own (hhas.2 p hp)
      obtain rfl := Option.some.inj (ha'.symm.trans ha)
      exact ⟨i, hi⟩
  | iterGet h it =>
      obtain ⟨s, -, hstep⟩ := bind_eq_ok.mp hstep
      obtain ⟨kv, -, hstep⟩ := bind_eq_ok.mp hstep
      cases hstep
      exact ⟨v, hw, Or.inr ⟨rfl, rfl⟩⟩
  | move h it move =>
      obtain ⟨a, i, ha, hi⟩ := hw.cursor_of_own hhas
      obtain ⟨s, hs, hstep⟩ := bind_eq_ok.mp hstep
      obtain ⟨⟨res, s'⟩, hmove, hstep⟩ := bind_eq_ok.mp hstep
      cases hstep
      -- wherever it is after that, its view has it there
      obtain ⟨hc, bs, its, hco⟩ := hw.made.coherent (slot_ok hs)
      obtain ⟨m, hm⟩ := (forall₂_getElem? hw.arrays (slot_ok hs) ha).live hi
      obtain ⟨res', s'', hmove', hmoves, hco'⟩ := hco.move hc hm move
      rw [hmove] at hmove'
      cases hmove'
      obtain ⟨pos, hat⟩ := hco'.placed it (hco.cursors.mem hm)
      refine ⟨_, hw.moved (slot_ok hs) ha hi hmove hmoves ⟨bs, ?_, hat⟩, Or.inr ⟨rfl, rfl⟩⟩
      rw [hmoves.iterOnly.settings]
      exact hco'.toWf
  | foldInit type skiparrays fold merge =>
      refine hmet ⟨?_, hhas.2⟩
      intro hs heq
      obtain ⟨hle, hin⟩ := hhas.1 hs heq
      exact ⟨hle, fun h hh => hlen ▸ hin h hh⟩
  | foldNext i =>
      obtain ⟨fs, hload, -⟩ := bind_eq_ok.mp hstep
      exact hmet (hslot hload)
  | foldHalt i =>
      obtain ⟨fs, hload, -⟩ := bind_eq_ok.mp hstep
      exact hmet (hslot hload)
  | fold type h fold => exact hmet (show h < v.arrays.length from hlen ▸ hhas)

/-- What the client gets to, a view shows; and its folds go on as merges of lanes. -/
theorem World.Shows.goes (hw : w.Shows cb v) (hrun : World.Goes cb w history w') :
    ∃ v', w'.Shows cb v' ∧ ∀ k f, v.folds[k]? = some (some f) → v'.folds[k]? = some none ∨
      ∃ ds st, v'.folds[k]? = some (some { f with lanes := st }) ∧
        Lanes.Run (onKeys (cb.cmp f.cmp)) f.lanes ds st ∧ ds.length = asked k history := by
  induction hrun with
  | start => exact ⟨v, hw, fun k f hf => Or.inr ⟨[], f.lanes, hf, .start, rfl⟩⟩
  | @next history w₂ w' req reply hrun hhas hstep ih =>
      obtain ⟨v₂, hw₂, hfolds⟩ := ih
      obtain ⟨v', hw', hview⟩ := hw₂.step hhas hstep
      refine ⟨v', hw', ?_⟩
      intro k f hf
      rw [asked_concat]
      rcases hview with hview | ⟨hsame, hcursor⟩
      · rcases hfolds k f hf with hended | ⟨ds, st, hat, hlanes, hlen⟩
        · exact Or.inl (hview.fold_ended hended)
        · obtain ⟨o, hturn, ho⟩ := hview.turn hat
          generalize v'.acc = acc' at hturn
          cases hturn with
          | aside hnext hhalt =>
              refine Or.inr ⟨ds, st, ho, hlanes, ?_⟩
              rw [Request.asks_eq_false hnext, hlen]
              rfl
          | halt => exact Or.inl ho
          | done hdone => exact Or.inl ho
          | @next d st' hnext =>
              refine Or.inr ⟨ds ++ [d], st', ho, .next hlanes hnext, ?_⟩
              rw [List.length_append, hlen, if_pos (by simp [Request.asks])]
              rfl
      · have hasks : req.asks k = false := by
          cases req with
          | foldNext j => cases hcursor
          | _ => rfl
        rw [hsame, hasks]
        exact hfolds k f hf

theorem World.Reached.shows (h : w.Reached cb) : ∃ v, w.Shows cb v := by
  obtain ⟨sas, acc, c, history, hmade, hfree, hrun⟩ := h
  obtain ⟨v, hw, -⟩ := (World.shows_start hmade hfree acc c).goes hrun
  exact ⟨v, hw⟩

/-! ## A fold from its start -/

section Started

variable {type : FoldType} {inputs : List ℕ} {fold : K → V → W → W}
  {merge : Option (List K → List V → W → ℕ × V × W)} {fs : FoldState K V U W}

/-- A fold that starts has all bindings of its inputs before it. -/
theorem World.Shows.starts (hw : w.Shows cb v) (hs : w.Starts cb type inputs fold merge w₁) :
    ∃ v₁ cmp, w₁.Shows cb v₁ ∧ (∀ h ∈ inputs, ∃ sa, w.sas[h]? = some sa ∧ sa.cmp = cmp) ∧
      v₁.folds[w.folds.length]? =
        some (some ⟨type, cmp, inputs, fold, merge, startLanes type w.sas inputs⟩) := by
  have hlen := hw.arrays.length_eq
  have hin : ∀ h ∈ inputs, h < v.arrays.length := by
    intro h hh
    exact hlen ▸ (hs.has.1 _ rfl).2 h (List.mem_map_of_mem hh)
  obtain ⟨v₁, hw₁, hview⟩ := hw.step hs.has hs.step
  rcases hview with hview | ⟨-, hcursor⟩
  · generalize hsa : some (inputs.map some) = skiparrays at hview
    cases hview with
    | @foldInit _ inputs' _ _ s₀ hadm =>
        obtain rfl : inputs = inputs' :=
          List.map_injective_iff.mpr (Option.some_injective ℕ) (Option.some.inj hsa)
        refine ⟨_, s₀.cmp, hw₁, ?_, ?_⟩
        · intro h hh
          obtain ⟨a, ha, hcmp, -⟩ := hadm.same h hh
          obtain ⟨sa, hsa', hshow⟩ := hw.array ha
          exact ⟨sa, hsa', by rw [← hcmp, hshow.settings]⟩
        · rw [hw.folds.length_eq, hw.lanes_eq hin]
          exact List.getElem?_concat_length ..
  · cases hcursor

/-- Where a fold is after any run: as many steps on in the merge of its inputs as the
client has asked for. -/
theorem World.Reached.fold_at (hw : w.Reached cb) (hs : w.Starts cb type inputs fold merge w₁)
    (hrun : World.Goes cb w₁ history w') (hfs : w'.folds[w.folds.length]? = some (some fs)) :
    (∀ h ∈ inputs, ∃ sa, w.sas[h]? = some sa ∧ sa.cmp = fs.cmp) ∧ LawfulCmp (cb.cmp fs.cmp) ∧
      ∃ v' ds st, w'.Shows cb v' ∧
        v'.folds[w.folds.length]? = some (some ⟨type, fs.cmp, inputs, fold, merge, st⟩) ∧
        Lanes.Run (onKeys (cb.cmp fs.cmp)) (startLanes type w.sas inputs) ds st ∧
        ds.length = asked w.folds.length history := by
  obtain ⟨v, hv⟩ := hw.shows
  obtain ⟨v₁, cmp, hv₁, hcmp, hf⟩ := hv.starts hs
  obtain ⟨v', hv', hfolds⟩ := hv₁.goes hrun
  obtain ⟨f', hf', hp⟩ := hv'.foldView hfs
  rcases hfolds _ _ hf with hended | ⟨ds, st, hat, hlanes, hlen⟩
  · rw [hended] at hf'
    cases hf'
  · obtain rfl := Option.some.inj (Option.some.inj (hf'.symm.trans hat))
    have hcmp' : fs.cmp = cmp := hp.cmp_eq
    subst hcmp'
    exact ⟨hcmp, hp.sound.lawful, v', ds, st, hv', hat, hlanes, hlen⟩

end Started

end Turns

/-! ## Two inputs with a key in common -/

/-- The first of the keys, with the sum of the values. -/
def mergeSum (_ : List ℤ) (values : List ℤ) (w : ℤ) : ℕ × ℤ × ℤ := (0, values.sum, w)

def World.twoInputs : World ℤ ℤ Unit ℤ :=
  ⟨[SkipArray.plainOne, SkipArray.flatSplit], [], 0, ⟨(), 7, [], []⟩⟩

/-- `SkipArray.flatSplit` with the iterator of a fold. -/
def SkipArray.flatLent (node : Ptr) : SkipArray ℤ ℤ :=
  { SkipArray.flatSplit with iter := some 0, iters := [some ⟨none, none, some node, 0, 10⟩] }

def FoldState.ofTwo (ids : Ids) (live : ℕ) (iters : List (IterState ℤ ℤ)) : FoldState ℤ ℤ Unit ℤ :=
  ⟨.left, true, ⟨clientFold fun k v w => w + k * v, some (clientMerge mergeSum)⟩, 0, ids, 2, live,
    iters, 7, 8⟩

/-- A fold of the two has been started. -/
def World.twoStarted : World ℤ ℤ Unit ℤ where
  sas := [{ SkipArray.plainOne with iter := some 0, iters := [some ⟨none, none, some 0, 0, 9⟩] },
    SkipArray.flatLent 0]
  folds := [some (.ofTwo ⟨0, 0, [0, 0]⟩ 2 [⟨.none, (0, 0), some (0, 0)⟩, ⟨.none, (0, 0), some (1, 0)⟩])]
  acc := 0
  c := ⟨(), 11, [], []⟩

/-- It has been stepped once: the binding of the first input waits, and its iterator
is gone. -/
def World.twoStepped : World ℤ ℤ Unit ℤ where
  sas := [{ SkipArray.plainOne with iters := [none] }, SkipArray.flatLent 1]
  folds := [some (.ofTwo ⟨1, 1, [1, 0]⟩ 1 [⟨.availableLt, (1, 10), none⟩, ⟨.none, (1, 10), some (1, 0)⟩])]
  acc := 10
  c := ⟨(), 11, [9], []⟩

/-- The binding that waits has been removed. -/
def World.twoRemoved : World ℤ ℤ Unit ℤ :=
  { World.twoStepped with
    sas := [{ SkipArray.plainOne with
        iters := [none], heap := [some ⟨1, 1, 0, [0, 1], some [0, 10], none, [none], 1, 2, 3⟩] },
      SkipArray.flatLent 1] }

theorem World.twoInputs_reached : World.twoInputs.Reached Callbacks.plain := by
  refine ⟨_, 0, ⟨(), 7, [], []⟩, [], ?_, ?_, .start⟩
  · intro sa hsa
    refine ⟨0, LawfulCmp.int_sub, ?_⟩
    rcases List.mem_cons.mp hsa with rfl | hsa
    · exact SkipArray.plainOne_reachable
    · rw [List.mem_singleton.mp hsa]
      exact SkipArray.flatSplit_reachable
  · intro sa hsa
    rcases List.mem_cons.mp hsa with rfl | hsa
    · rfl
    · rw [List.mem_singleton.mp hsa]
      rfl

theorem World.twoInputs_starts : World.twoInputs.Starts Callbacks.plain .left [0, 1]
    (fun k v w => w + k * v) (some mergeSum) World.twoStarted := by
  refine ⟨⟨?_, ?_⟩, rfl⟩
  · intro hs heq
    obtain rfl := Option.some.inj heq
    refine ⟨by decide, ?_⟩
    intro h hh
    simp only [List.map_cons, List.map_nil, List.mem_cons, Option.some.injEq, List.not_mem_nil,
      or_false] at hh
    rcases hh with rfl | rfl
    · decide
    · decide
  · intro m hm ks vs w hne
    obtain rfl := Option.some.inj hm
    exact List.length_pos_of_ne_nil hne

/-- A binding is asked for in vain, and the fold for its next. -/
theorem World.twoStepped_goes : World.Goes Callbacks.plain World.twoStarted
    [(.call 1 .popFirst, .call (.pop .errorLocked none none)), (.foldNext 0, .foldNext .ok 10)]
    World.twoStepped := by
  have hpop : World.twoStarted.step Callbacks.plain (.call 1 .popFirst) =
      .ok (.call (.pop .errorLocked none none), World.twoStarted) := rfl
  have hnext : World.twoStarted.step Callbacks.plain (.foldNext 0) =
      .ok (.foldNext .ok 10, World.twoStepped) := rfl
  have hhas : World.twoStarted.Has (.call 1 .popFirst) := show 1 < 2 by decide
  exact .next (.next .start hhas hpop) trivial hnext

/-- And then the binding that waits is removed. -/
def twoHistory : List (Request ℤ ℤ ℤ × Reply ℤ ℤ ℤ) :=
  [(.call 1 .popFirst, .call (.pop .errorLocked none none)), (.foldNext 0, .foldNext .ok 10),
    (.call 0 .popFirst, .call (.pop .ok (some 1) (some 10)))]

theorem World.twoRemoved_goes :
    World.Goes Callbacks.plain World.twoStarted twoHistory World.twoRemoved := by
  have hpop : World.twoStepped.step Callbacks.plain (.call 0 .popFirst) =
      .ok (.call (.pop .ok (some 1) (some 10)), World.twoRemoved) := rfl
  have hhas : World.twoStepped.Has (.call 0 .popFirst) := show 0 < 2 by decide
  exact .next World.twoStepped_goes hhas hpop

/-! ## Undisturbed -/

/-- What a client does to its skiparrays, its iterators and other folds is nothing to
a fold. Wherever a run has led while it is in progress, it stands where as many steps
of the merge of its inputs lead as the client has asked for; its next can be asked
for; and each request that comes back has it take the turn that it would take
there alone. -/
theorem folds_undisturbed [Inhabited K] [Inhabited V] {cb : Callbacks K U} {w w' w₁ : World K V U W}
    {history : List (Request K V W × Reply K V W)} {type : FoldType} {inputs : List ℕ}
    {fold : K → V → W → W} {merge : Option (List K → List V → W → ℕ × V × W)}
    {fs : FoldState K V U W} (hw : w.Reached cb) (hs : w.Starts cb type inputs fold merge w₁)
    (hrun : World.Goes cb w₁ history w') (hfs : w'.folds[w.folds.length]? = some (some fs)) :
    (∀ h ∈ inputs, ∃ sa, w.sas[h]? = some sa ∧ sa.cmp = fs.cmp) ∧
      asked w.folds.length history ≤ (startLanes type w.sas inputs).total ∧
      ∃ ds st, Lanes.Run (onKeys (cb.cmp fs.cmp)) (startLanes type w.sas inputs) ds st ∧
        ds.length = asked w.folds.length history ∧
        (∃ reply w₂, w'.step cb (.foldNext w.folds.length) = .ok (reply, w₂)) ∧
        ∀ req reply w₂, w'.Has req → w'.step cb req = .ok (reply, w₂) →
          ∃ o next, FoldView.Turn cb w.folds.length ⟨type, fs.cmp, inputs, fold, merge, st⟩ w'.acc
              req reply w₂.acc o ∧
            w₂.folds[w.folds.length]? = some next ∧ next.isSome = o.isSome := by
  obtain ⟨hcmp, hc, v', ds, st, hv', hat, hlanes, hlen⟩ := hw.fold_at hs hrun hfs
  have hle := hlanes.length_add_total_le (LawfulCmp.onKeys hc)
  obtain ⟨reply, w₂, -, hnext, -⟩ := library_meets w' v' (.foldNext w.folds.length) hv' ⟨_, hat⟩
  refine ⟨hcmp, by omega, ds, st, hlanes, hlen, ⟨reply, w₂, hnext⟩, ?_⟩
  intro req reply w₂ hhas hstep
  obtain ⟨v₂, hv₂, hview⟩ := hv'.step hhas hstep
  have hturn : ∃ o, FoldView.Turn cb w.folds.length ⟨type, fs.cmp, inputs, fold, merge, st⟩ v'.acc
      req reply v₂.acc o ∧ v₂.folds[w.folds.length]? = some o := by
    rcases hview with hview | ⟨hsame, hcursor⟩
    · exact hview.turn hat
    · refine ⟨_, .aside ?_ ?_, hsame ▸ hat⟩
      · rintro rfl
        cases hcursor
      · rintro rfl
        cases hcursor
  obtain ⟨o, hturn, ho⟩ := hturn
  obtain ⟨next, hslot, hrel⟩ := forall₂_slot hv₂.folds ho
  rw [hv'.acc, hv₂.acc] at hturn
  refine ⟨o, next, hturn, hslot, ?_⟩
  cases hrel with
  | none => rfl
  | some _ => rfl

theorem folds_undisturbed_twoInputs :
    (∀ h ∈ [0, 1], ∃ sa, World.twoInputs.sas[h]? = some sa ∧ sa.cmp = 0) ∧
      asked 0 twoHistory ≤ (startLanes .left World.twoInputs.sas [0, 1]).total ∧
      ∃ ds st, Lanes.Run (onKeys (Callbacks.plain.cmp 0)) (startLanes .left World.twoInputs.sas [0, 1])
          ds st ∧
        ds.length = asked 0 twoHistory ∧
        (∃ reply w₂, World.twoRemoved.step Callbacks.plain (.foldNext 0) = .ok (reply, w₂)) ∧
        ∀ req reply w₂, World.twoRemoved.Has req →
          World.twoRemoved.step Callbacks.plain req = .ok (reply, w₂) →
          ∃ o next, FoldView.Turn Callbacks.plain 0
              ⟨.left, 0, [0, 1], fun k v w => w + k * v, some mergeSum, st⟩ World.twoRemoved.acc
              req reply w₂.acc o ∧
            w₂.folds[0]? = some next ∧ next.isSome = o.isSome :=
  folds_undisturbed World.twoInputs_reached World.twoInputs_starts World.twoRemoved_goes rfl

end Skiparray
