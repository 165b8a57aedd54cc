import Skiparray.Lib.Interaction
import Skiparray.Runs.Beside
import Skiparray.Runs.Clients

/-!
# Sessions

What the library is to its client: sorted lists of bindings, cursors that are
indices into them, and folds that merge lanes, all at the client's disposal at
any time. `View.Step` says what each request does to such a view; the library
meets it, for every client that keeps to what `View.Legal` permits, whatever it
has in progress at the same time.
-/

namespace Skiparray

open SkipLinks Fallible Interaction

variable {K V U W : Type}

/-! ## The client's view -/

/-- A skiparray as its client sees it: its bindings, and the client's iterators
with their indices. -/
structure ArrayView (K V : Type) where
  settings : Settings
  bindings : List (K × V)
  cursors : Ptr → Option ℕ

/-- All that a client has to do with. -/
structure View (K V W : Type) where
  arrays : List (ArrayView K V)
  folds : List (Option (FoldView K V W))
  acc : W

/-- The fold has still to read from skiparray `h`. -/
def FoldView.Lends (f : FoldView K V W) (h : ℕ) : Prop :=
  ∃ (i : ℕ) (rest : List (K × V)), f.inputs[i]? = some h ∧ f.lanes.rests[i]? = some rest ∧ rest ≠ []

/-- Skiparray `h` is locked: by an iterator of the client's, or by a fold. -/
def View.Locked (v : View K V W) (h : ℕ) : Prop :=
  (∃ (a : ArrayView K V) (p : Ptr) (i : ℕ), v.arrays[h]? = some a ∧ a.cursors p = some i) ∨
    ∃ (k : ℕ) (f : FoldView K V W), v.folds[k]? = some (some f) ∧ f.Lends h

/-- The inputs can be folded together, with the settings of the first. -/
structure View.Admits (v : View K V W) (merge : Option (List K → List V → W → ℕ × V × W))
    (inputs : List ℕ) (s₀ : Settings) : Prop where
  merges : 1 < inputs.length → merge.isSome = true
  first : ∃ (h₀ : ℕ) (a : ArrayView K V), inputs.head? = some h₀ ∧ v.arrays[h₀]? = some a ∧
    a.settings = s₀
  same : ∀ h ∈ inputs, ∃ a : ArrayView K V, v.arrays[h]? = some a ∧ a.settings.cmp = s₀.cmp ∧
    a.settings.mem = s₀.mem ∧ a.settings.free = s₀.free ∧ a.settings.useValues = s₀.useValues

/-- What the inputs have to send to a fold that is started now. -/
def View.lanes (v : View K V W) (type : FoldType) (inputs : List ℕ) : Lanes.State (K × V) :=
  ⟨inputs.map fun h => type.order ((v.arrays[h]?.map ArrayView.bindings).getD []), []⟩

/-- What a client may ask for: handles that it has, the binding of a cursor that is
at one, a step ahead from there; at most 255 inputs to a fold; and merge callbacks
that choose one of the keys they are given. -/
def View.Legal (v : View K V W) : Request K V W → Prop
  | .call h call => ∃ a, v.arrays[h]? = some a ∧ (call = .popLast → a.settings.maxLevel ≤ 128)
  | .iterNew h => h < v.arrays.length
  | .iterFree h it => ∃ a, v.arrays[h]? = some a ∧ ∀ p, it = some p → ∃ i, a.cursors p = some i
  | .iterGet h it => ∃ a i, v.arrays[h]? = some a ∧ a.cursors it = some i ∧ i < a.bindings.length
  | .move h it move => ∃ a i, v.arrays[h]? = some a ∧ a.cursors it = some i ∧
      (move = .next → i < a.bindings.length)
  | .foldInit _ skiparrays _ merge =>
      (∀ hs, skiparrays = some hs → hs.length ≤ 255 ∧ ∀ h, some h ∈ hs → h < v.arrays.length) ∧
        ∀ m, merge = some m → ∀ ks vs w, ks ≠ [] → (m ks vs w).1 < ks.length
  | .foldNext i => ∃ f, v.folds[i]? = some (some f)
  | .foldHalt i => ∃ f, v.folds[i]? = some (some f)
  | .fold _ h _ => h < v.arrays.length

/-- Iterator `p` of skiparray `h` is at index `o`, or gone. -/
def View.putCursor (v : View K V W) (h : ℕ) (a : ArrayView K V) (p : Ptr) (o : Option ℕ) : View K V W :=
  { v with arrays := v.arrays.set h { a with cursors := Function.update a.cursors p o } }

section Step

variable [Inhabited K] [Inhabited V]

/-- What a request does. Where memory may run out, the request may be refused. -/
inductive View.Step (cb : Callbacks K U) (v : View K V W) :
    Request K V W → Reply K V W → View K V W → Prop where
  | call {h : ℕ} {call : Call K V} {a : ArrayView K V} {locked : Bool} {answer : Answer K V}
      {l : List (K × V)} (ha : v.arrays[h]? = some a) (hl : locked = true ↔ v.Locked h)
      (hanswer : (answer, l) = call.onList a.settings (cb.cmp a.settings.cmp) locked a.bindings) :
      Step cb v (.call h call) (.call answer)
        { v with arrays := v.arrays.set h { a with bindings := l } }
  | callRefused {h : ℕ} {call : Call K V} {answer : Answer K V} (hno : ¬ cb.AllGranted)
      (hl : ¬ v.Locked h) (hanswer : call.onNoMemory = some answer) :
      Step cb v (.call h call) (.call answer) v
  | iterNewEmpty {h : ℕ} {a : ArrayView K V} (ha : v.arrays[h]? = some a) (hnil : a.bindings = []) :
      Step cb v (.iterNew h) (.iterNew .empty none) v
  | iterNewRefused {h : ℕ} {a : ArrayView K V} (ha : v.arrays[h]? = some a) (hne : a.bindings ≠ [])
      (hno : ¬ cb.AllGranted) : Step cb v (.iterNew h) (.iterNew .errorMemory none) v
  | iterNew {h : ℕ} {a : ArrayView K V} {p : Ptr} (ha : v.arrays[h]? = some a)
      (hne : a.bindings ≠ []) (hfresh : a.cursors p = none) :
      Step cb v (.iterNew h) (.iterNew .ok (some p)) (v.putCursor h a p (some 0))
  | iterFreeNone {h : ℕ} : Step cb v (.iterFree h none) .iterFree v
  | iterFree {h : ℕ} {a : ArrayView K V} {p : Ptr} (ha : v.arrays[h]? = some a) :
      Step cb v (.iterFree h (some p)) .iterFree (v.putCursor h a p none)
  | iterGet {h : ℕ} {a : ArrayView K V} {p : Ptr} {i : ℕ} {kv : K × V} (ha : v.arrays[h]? = some a)
      (hp : a.cursors p = some i) (hkv : a.bindings[i]? = some kv) :
      Step cb v (.iterGet h p) (.iterGet kv.1 (a.settings.out kv.2)) v
  | move {h : ℕ} {a : ArrayView K V} {p : Ptr} {i : ℕ} {move : Move K} (ha : v.arrays[h]? = some a)
      (hp : a.cursors p = some i) :
      Step cb v (.move h p move)
        (.move (move.onIndex (cb.cmp a.settings.cmp) a.bindings i).1)
        (v.putCursor h a p (some (move.onIndex (cb.cmp a.settings.cmp) a.bindings i).2))
  | foldMisuse {type : FoldType} {skiparrays : Option (List (Option ℕ))}
      {fold : Option (K → V → W → W)} {merge : Option (List K → List V → W → ℕ × V × W)}
      (hno : fold = none ∨ ∀ inputs s₀, skiparrays = some (inputs.map some) →
        ¬ v.Admits merge inputs s₀) :
      Step cb v (.foldInit type skiparrays fold merge) (.foldInit .errorMisuse)
        { v with folds := v.folds ++ [none] }
  | foldRefused {type : FoldType} {inputs : List ℕ} {fold : K → V → W → W}
      {merge : Option (List K → List V → W → ℕ × V × W)} {s₀ : Settings}
      (hadm : v.Admits merge inputs s₀) (hno : ¬ cb.AllGranted) :
      Step cb v (.foldInit type (some (inputs.map some)) (some fold) merge) (.foldInit .errorMemory)
        { v with folds := v.folds ++ [none] }
  | foldInit {type : FoldType} {inputs : List ℕ} {fold : K → V → W → W}
      {merge : Option (List K → List V → W → ℕ × V × W)} {s₀ : Settings}
      (hadm : v.Admits merge inputs s₀) :
      Step cb v (.foldInit type (some (inputs.map some)) (some fold) merge) (.foldInit .ok)
        { v with folds := v.folds ++
          [some ⟨type, s₀.cmp, inputs, fold, merge, v.lanes type inputs⟩] }
  | foldDone {k : ℕ} {f : FoldView K V W} (hf : v.folds[k]? = some (some f)) (hdone : f.lanes.Done) :
      Step cb v (.foldNext k) (.foldNext .done v.acc) { v with folds := v.folds.set k none }
  | foldNext {k : ℕ} {f : FoldView K V W} {d : Lanes.Delivery (ℕ × (K × V))}
      {st : Lanes.State (K × V)} (hf : v.folds[k]? = some (some f))
      (hnext : Lanes.Next (onKeys (cb.cmp f.cmp)) f.lanes d st) :
      Step cb v (.foldNext k) (.foldNext .ok (f.deliver v.acc (d.map Prod.snd)))
        { v with
          folds := v.folds.set k (some { f with lanes := st })
          acc := f.deliver v.acc (d.map Prod.snd) }
  | foldHalt {k : ℕ} {f : FoldView K V W} (hf : v.folds[k]? = some (some f)) :
      Step cb v (.foldHalt k) .foldHalt { v with folds := v.folds.set k none }
  | foldWholeRefused {type : FoldType} {h : ℕ} {fold : K → V → W → W} (hno : ¬ cb.AllGranted) :
      Step cb v (.fold type h fold) (.fold .errorMemory v.acc) v
  | foldWhole {type : FoldType} {h : ℕ} {fold : K → V → W → W} {a : ArrayView K V}
      (ha : v.arrays[h]? = some a) :
      Step cb v (.fold type h fold)
        (.fold .ok ((type.order a.bindings).foldl (fun w p => fold p.1 p.2 w) v.acc))
        { v with acc := (type.order a.bindings).foldl (fun w p => fold p.1 p.2 w) v.acc }

/-- The library, as its clients know it. -/
def sessions (cb : Callbacks K U) : Spec (View K V W) (Request K V W) (Reply K V W) where
  Legal := View.Legal
  Step := View.Step cb

end Step

/-! ## What a view shows -/

section Shows

variable [Inhabited K] [Inhabited V]

omit [Inhabited K] in
/-- The view of one skiparray. -/
structure SkipArray.ShownAs (cb : Callbacks K U) (s : SkipArray K V) (a : ArrayView K V) : Prop where
  settings : a.settings = s.toSettings
  bindings : a.bindings = s.contents
  placed : ∀ {p i}, a.cursors p = some i → ∃ bs, s.Wf (cb.cmp s.cmp) bs ∧ s.At bs p i

/-- The view `v` shows the world `w`: the live iterators are the client's cursors and
those of the folds in progress, no two of which have one in common. -/
structure World.Shows (cb : Callbacks K U) (w : World K V U W) (v : View K V W) : Prop where
  made : Made cb w.sas
  arrays : List.Forall₂ (SkipArray.ShownAs cb) w.sas v.arrays
  folds : List.Forall₂ (Option.Rel (InProgress cb w.sas)) w.folds v.folds
  apart : ∀ {j k : ℕ} {fs gs : FoldState K V U W} {x : ℕ × Ptr}, w.folds[j]? = some (some fs) →
    w.folds[k]? = some (some gs) → x ∈ holds fs.iters → x ∈ holds gs.iters → j = k
  own : ∀ {k : ℕ} {fs : FoldState K V U W} {x : ℕ × Ptr} {a : ArrayView K V},
    w.folds[k]? = some (some fs) → x ∈ holds fs.iters → v.arrays[x.1]? = some a →
    a.cursors x.2 = none
  known : ∀ {x : ℕ × Ptr}, Live w.sas x →
    (∃ (a : ArrayView K V) (i : ℕ), v.arrays[x.1]? = some a ∧ a.cursors x.2 = some i) ∨
      ∃ (k : ℕ) (fs : FoldState K V U W), w.folds[k]? = some (some fs) ∧ x ∈ holds fs.iters
  acc : v.acc = w.acc

variable {cb : Callbacks K U} {w : World K V U W} {v : View K V W} {sas' : List (SkipArray K V)}
  {mine : List (ℕ × Ptr)} {h : ℕ} {s s' : SkipArray K V} {a : ArrayView K V} {p : Ptr}

omit [Inhabited K] [Inhabited V] in
theorem forall₂_slot {α β : Type} {R : α → β → Prop} {xs : List α} {ys : List β}
    (h : List.Forall₂ R xs ys) {i : ℕ} {y : β} (hy : ys[i]? = some y) :
    ∃ x, xs[i]? = some x ∧ R x y := by
  have hlt : i < xs.length := by
    rw [h.length_eq]
    exact (List.getElem?_eq_some_iff.mp hy).1
  exact ⟨_, List.getElem?_eq_getElem hlt, forall₂_getElem? h (List.getElem?_eq_getElem hlt) hy⟩

omit [Inhabited K] [Inhabited V] in
theorem forall₂_of_slots {α β : Type} {R : α → β → Prop} {xs : List α} {ys : List β}
    (hlen : xs.length = ys.length)
    (h : ∀ (i : ℕ) (x : α) (y : β), xs[i]? = some x → ys[i]? = some y → R x y) :
    List.Forall₂ R xs ys := by
  rw [List.forall₂_iff_get]
  refine ⟨hlen, ?_⟩
  intro i hi hi'
  exact h i _ _ (List.getElem?_eq_getElem hi) (List.getElem?_eq_getElem hi')

omit [Inhabited K] in
/-- The view of a skiparray whose cursors have not been touched. -/
theorem SkipArray.ShownAs.beside (hshow : s.ShownAs cb a) (ho : IterOnly s s')
    (hpay : ∀ p i, a.cursors p = some i →
      (s'.iter? p).map Iter.payload = (s.iter? p).map Iter.payload) : s'.ShownAs cb a := by
  refine ⟨by rw [hshow.settings, ho.settings], by rw [hshow.bindings, ho.contents], ?_⟩
  intro p i hp
  obtain ⟨bs, hwf, hat⟩ := hshow.placed hp
  refine ⟨bs, ?_, hat.congr (hpay p i hp)⟩
  rw [ho.settings]
  exact ho.wf hwf

omit [Inhabited K] in
theorem SkipArray.ShownAs.live {i : ℕ} (hshow : s.ShownAs cb a) (hp : a.cursors p = some i) :
    ∃ it, s.iter? p = some it := by
  obtain ⟨bs, -, hat⟩ := hshow.placed hp
  exact hat.isSome

omit [Inhabited K] in
/-- One cursor of a skiparray has been touched, and is now at `o`. -/
theorem SkipArray.ShownAs.update {o : Option ℕ} (hshow : s.ShownAs cb a) (ho : IterOnly s s')
    (hpay : ∀ q, q ≠ p → (s'.iter? q).map Iter.payload = (s.iter? q).map Iter.payload)
    (hput : ∀ i, o = some i → ∃ bs, s'.Wf (cb.cmp s'.cmp) bs ∧ s'.At bs p i) :
    s'.ShownAs cb { a with cursors := Function.update a.cursors p o } := by
  refine ⟨by rw [hshow.settings, ho.settings], by rw [hshow.bindings, ho.contents], ?_⟩
  intro q i hq
  by_cases hqp : q = p
  · subst hqp
    exact hput i (by simpa using hq)
  · change Function.update a.cursors p o q = some i at hq
    rw [Function.update_of_ne hqp] at hq
    obtain ⟨bs, hwf, hat⟩ := hshow.placed hq
    refine ⟨bs, ?_, hat.congr (hpay q hqp)⟩
    rw [ho.settings]
    exact ho.wf hwf

/-- A skiparray has live iterators just when its list has. -/
theorem Made.locked_iff {sas : List (SkipArray K V)} (hmade : Made cb sas) (hs : sas[h]? = some s) :
    s.iter ≠ none ↔ ∃ p, Live sas (h, p) := by
  obtain ⟨-, bs, its, hco⟩ := hmade.coherent hs
  rw [Ne, hco.cursors.iter_eq_none]
  constructor
  · intro hne
    obtain ⟨p, hp⟩ := List.exists_mem_of_ne_nil its hne
    obtain ⟨it, hit⟩ := hco.cursors.isSome hp
    exact ⟨p, s, it, hs, hit⟩
  · rintro ⟨p, t, it, ht, hit⟩
    obtain rfl : s = t := Option.some.inj (hs.symm.trans ht)
    exact List.ne_nil_of_mem (hco.cursors.mem hit)

omit [Inhabited K] in
/-- A fold has an iterator on `h` as long as it has still to read from it. -/
theorem InProgress.lends_iff {sas : List (SkipArray K V)} {fs : FoldState K V U W}
    {f : FoldView K V W} (hp : InProgress cb sas fs f) :
    f.Lends h ↔ ∃ p, (h, p) ∈ holds fs.iters := by
  constructor
  · rintro ⟨i, rest, hi, hrest, hne⟩
    obtain ⟨is, rest', his, hrest', hsend⟩ := hp.entry hi
    obtain rfl : rest = rest' := Option.some.inj (hrest.symm.trans hrest')
    rw [Ne, hsend.eq_nil_iff, ← Ne, Option.ne_none_iff_exists'] at hne
    obtain ⟨⟨g, p⟩, hiter⟩ := hne
    obtain ⟨rfl, -⟩ := hsend.live hiter
    exact ⟨p, mem_holds his hiter⟩
  · rintro ⟨p, hx⟩
    obtain ⟨i, is, hi, his, hiter⟩ := hp.mem_holds_iff.mp hx
    obtain ⟨is', rest, his', hrest, hsend⟩ := hp.entry hi
    obtain rfl : is = is' := Option.some.inj (his.symm.trans his')
    refine ⟨i, rest, hi, hrest, ?_⟩
    rw [Ne, hsend.eq_nil_iff, hiter]
    exact Option.some_ne_none _

namespace World.Shows

variable (hw : w.Shows cb v)

include hw

theorem array (ha : v.arrays[h]? = some a) : ∃ s, w.sas[h]? = some s ∧ s.ShownAs cb a :=
  forall₂_slot hw.arrays ha

theorem fold {k : ℕ} {f : FoldView K V W} (hf : v.folds[k]? = some (some f)) :
    ∃ fs, w.folds[k]? = some (some fs) ∧ InProgress cb w.sas fs f := by
  obtain ⟨o, ho, hrel⟩ := forall₂_slot hw.folds hf
  cases hrel with
  | some hp => exact ⟨_, ho, hp⟩

theorem foldView {k : ℕ} {fs : FoldState K V U W} (hfs : w.folds[k]? = some (some fs)) :
    ∃ f, v.folds[k]? = some (some f) ∧ InProgress cb w.sas fs f := by
  obtain ⟨o, ho, hrel⟩ := forall₂_slot (List.Forall₂.flip hw.folds) hfs
  cases hrel with
  | some hp => exact ⟨_, ho, hp⟩

/-- A cursor of the client's is in no fold. -/
theorem apart_cursor {i k : ℕ} {fs : FoldState K V U W} (ha : v.arrays[h]? = some a)
    (hp : a.cursors p = some i) (hfs : w.folds[k]? = some (some fs)) : (h, p) ∉ holds fs.iters := by
  intro hmem
  have hnone := hw.own hfs hmem ha
  rw [hp] at hnone
  cases hnone

theorem live_cursor {i : ℕ} (ha : v.arrays[h]? = some a) (hp : a.cursors p = some i) :
    Live w.sas (h, p) := by
  obtain ⟨s, hs, hshow⟩ := hw.array ha
  obtain ⟨it, hit⟩ := hshow.live hp
  exact ⟨s, it, hs, hit⟩

/-- One iterator of the client's has come, moved or gone. -/
theorem cursor {o : Option ℕ} (hs : w.sas[h]? = some s) (ha : v.arrays[h]? = some a)
    (hmade : Made cb (w.sas.set h s')) (ho : IterOnly s s')
    (hpay : ∀ q, q ≠ p → (s'.iter? q).map Iter.payload = (s.iter? q).map Iter.payload)
    (hput : ∀ i, o = some i → ∃ bs, s'.Wf (cb.cmp s'.cmp) bs ∧ s'.At bs p i)
    (hgone : o = none → s'.iter? p = none)
    (hnot : ∀ (k : ℕ) (fs : FoldState K V U W), w.folds[k]? = some (some fs) →
      (h, p) ∉ holds fs.iters) (c : Ctx K V U) :
    World.Shows cb { w with sas := w.sas.set h s', c } (v.putCursor h a p o) := by
  have hb : Beside [(h, p)] w.sas (w.sas.set h s') := .set hs ho List.mem_cons_self hpay
  have hlt := (List.getElem?_eq_some_iff.mp hs).1
  have halt := (List.getElem?_eq_some_iff.mp ha).1
  refine ⟨hmade, ?_, ?_, hw.apart, ?_, ?_, hw.acc⟩
  · exact forall₂_set hw.arrays ((forall₂_getElem? hw.arrays hs ha).update ho hpay hput) h
  · refine forall₂_of_slots hw.folds.length_eq ?_
    intro k fs? f? hfs hf
    have hrel := forall₂_getElem? hw.folds hfs hf
    cases hrel with
    | none => exact .none
    | some hp =>
        refine .some (hp.congr ?_)
        intro x hx
        apply hb.unmoved
        rw [List.mem_singleton]
        rintro rfl
        exact hnot k _ hfs hx
  · intro k fs x b hfs hx hb'
    change (v.arrays.set h _)[x.1]? = some b at hb'
    by_cases hxh : h = x.1
    · rw [← hxh, List.getElem?_set_self halt, Option.some.injEq] at hb'
      subst hb'
      have hxp : x.2 ≠ p := by
        rintro hxp
        exact hnot k fs hfs (by rw [hxh, ← hxp]; exact hx)
      change Function.update a.cursors p o x.2 = none
      rw [Function.update_of_ne hxp]
      exact hw.own hfs hx (hxh ▸ ha)
    · rw [List.getElem?_set_ne hxh] at hb'
      exact hw.own hfs hx hb'
  · intro x hx
    change Live (w.sas.set h s') x at hx
    by_cases hxp : x = (h, p)
    · subst hxp
      cases o with
      | none =>
          obtain ⟨t, it, ht, hit⟩ := hx
          rw [List.getElem?_set_self hlt, Option.some.injEq] at ht
          subst ht
          rw [hgone rfl] at hit
          cases hit
      | some i =>
          refine Or.inl ⟨_, i, List.getElem?_set_self halt, ?_⟩
          exact Function.update_self ..
    · rw [hb.live_iff (by simpa using hxp)] at hx
      rcases hw.known hx with ⟨b, i, hb', hi⟩ | hfold
      · by_cases hxh : h = x.1
        · obtain rfl : a = b := Option.some.inj ((hxh ▸ ha).symm.trans hb')
          refine Or.inl ⟨_, i, by rw [← hxh]; exact List.getElem?_set_self halt, ?_⟩
          change Function.update a.cursors p o x.2 = some i
          rw [Function.update_of_ne]
          · exact hi
          · rintro rfl
            exact hxp (Prod.ext hxh.symm rfl)
        · exact Or.inl ⟨b, i, by
            change (v.arrays.set h _)[x.1]? = some b
            rw [List.getElem?_set_ne hxh]
            exact hb', hi⟩
      · exact Or.inr hfold

/-- A fold has been started, stepped or ended; its iterators were and are among `mine`. -/
theorem refold {k : ℕ} {folds : List (Option (FoldState K V U W))}
    {views : List (Option (FoldView K V W))} {o : Option (FoldState K V U W)}
    {o' : Option (FoldView K V W)} (hmade : Made cb sas') (hb : Beside mine w.sas sas')
    (hlen : folds.length = views.length) (hsame : ∀ j, j ≠ k → folds[j]? = w.folds[j]?)
    (hsame' : ∀ j, j ≠ k → views[j]? = v.folds[j]?) (hat : folds[k]? = some o)
    (hat' : views[k]? = some o') (hrel : Option.Rel (InProgress cb sas') o o')
    (hmine : ∀ x ∈ mine, ¬ Live w.sas x ∨ ∃ fs, w.folds[k]? = some (some fs) ∧ x ∈ holds fs.iters)
    (hold : ∀ fs, w.folds[k]? = some (some fs) → ∀ x ∈ holds fs.iters, x ∈ mine)
    (hnew : ∀ fs, o = some fs → ∀ x ∈ holds fs.iters, x ∈ mine)
    (hgone : ∀ x ∈ mine, (∀ fs, o = some fs → x ∉ holds fs.iters) → ¬ Live sas' x) (acc : W)
    (c : Ctx K V U) : World.Shows cb ⟨sas', folds, acc, c⟩ ⟨v.arrays, views, acc⟩ := by
  have hcursor : ∀ {g : ℕ} {a : ArrayView K V} {q : Ptr} {i : ℕ}, v.arrays[g]? = some a →
      a.cursors q = some i → (g, q) ∉ mine := by
    intro g a q i ha hq hmem
    rcases hmine _ hmem with hdead | ⟨fs, hfs, hx⟩
    · exact hdead (hw.live_cursor ha hq)
    · exact hw.apart_cursor ha hq hfs hx
  have hother : ∀ {j : ℕ} {gs : FoldState K V U W} {x : ℕ × Ptr}, j ≠ k →
      w.folds[j]? = some (some gs) → x ∈ holds gs.iters → x ∉ mine := by
    intro j gs x hj hgs hx hmem
    obtain ⟨f, -, hp⟩ := hw.foldView hgs
    rcases hmine x hmem with hdead | ⟨fs, hfs, hx'⟩
    · exact hdead (hp.holds_live x hx)
    · exact hj (hw.apart hgs hfs hx hx')
  refine ⟨hmade, ?_, ?_, ?_, ?_, ?_, rfl⟩
  · refine forall₂_of_slots (hb.length.trans hw.arrays.length_eq) ?_
    intro g t a ht ha
    obtain ⟨s, hs, ho, hpay⟩ := hb.before ht
    exact (forall₂_getElem? hw.arrays hs ha).beside ho fun q i hq => hpay q (hcursor ha hq)
  · refine forall₂_of_slots hlen ?_
    intro j fs? f? hfs hf
    by_cases hj : j = k
    · subst hj
      obtain rfl : o = fs? := Option.some.inj (hat.symm.trans hfs)
      obtain rfl : o' = f? := Option.some.inj (hat'.symm.trans hf)
      exact hrel
    · change folds[j]? = some fs? at hfs
      change views[j]? = some f? at hf
      rw [hsame j hj] at hfs
      rw [hsame' j hj] at hf
      have hbefore := forall₂_getElem? hw.folds hfs hf
      cases hbefore with
      | none => exact .none
      | some hp => exact .some (hp.congr fun x hx => hb.unmoved (hother hj hfs hx))
  · intro i j fs gs x hfs hgs hx hx'
    change folds[i]? = some (some fs) at hfs
    change folds[j]? = some (some gs) at hgs
    by_cases hi : i = k
    · subst hi
      by_contra hij
      have hj : j ≠ i := Ne.symm hij
      rw [hsame j hj] at hgs
      exact hother hj hgs hx' (hnew fs (Option.some.inj (hat.symm.trans hfs)) x hx)
    · rw [hsame i hi] at hfs
      by_cases hj : j = k
      · subst hj
        exact absurd (hnew gs (Option.some.inj (hat.symm.trans hgs)) x hx') (hother hi hfs hx)
      · rw [hsame j hj] at hgs
        exact hw.apart hfs hgs hx hx'
  · intro j fs x a hfs hx ha
    change folds[j]? = some (some fs) at hfs
    by_cases hj : j = k
    · subst hj
      have hmem := hnew fs (Option.some.inj (hat.symm.trans hfs)) x hx
      by_contra hsome
      obtain ⟨i, hi⟩ := Option.ne_none_iff_exists'.mp hsome
      exact hcursor ha hi hmem
    · rw [hsame j hj] at hfs
      exact hw.own hfs hx ha
  · intro x hx
    by_cases hmem : x ∈ mine
    · by_contra hno
      refine hgone x hmem ?_ hx
      intro fs hfs hmem'
      exact hno (Or.inr ⟨k, fs, hfs ▸ hat, hmem'⟩)
    · change Live sas' x at hx
      rw [hb.live_iff hmem] at hx
      rcases hw.known hx with hcur | ⟨j, fs, hfs, hx'⟩
      · exact Or.inl hcur
      · by_cases hj : j = k
        · subst hj
          exact absurd (hold fs hfs x hx') hmem
        · exact Or.inr ⟨j, fs, by rw [← hfs]; exact hsame j hj, hx'⟩

/-- Skiparray `h`, which has no iterators, has other bindings. -/
theorem mutate {l : List (K × V)} (hs : w.sas[h]? = some s) (ha : v.arrays[h]? = some a)
    (hmade : Made cb (w.sas.set h s')) (hset : s'.toSettings = s.toSettings) (hl : s'.contents = l)
    (hfree : ∀ q, s.iter? q = none) (hfree' : ∀ q, s'.iter? q = none) (c : Ctx K V U) :
    World.Shows cb { w with sas := w.sas.set h s', c }
      { v with arrays := v.arrays.set h { a with bindings := l } } := by
  have hlt := (List.getElem?_eq_some_iff.mp hs).1
  have halt := (List.getElem?_eq_some_iff.mp ha).1
  have hshow := forall₂_getElem? hw.arrays hs ha
  have hnone : ∀ q, a.cursors q = none := by
    intro q
    by_contra hsome
    obtain ⟨i, hi⟩ := Option.ne_none_iff_exists'.mp hsome
    obtain ⟨it, hit⟩ := hshow.live hi
    rw [hfree q] at hit
    cases hit
  have helse : ∀ {x : ℕ × Ptr}, Live w.sas x → x.1 ≠ h := by
    rintro x ⟨t, it, ht, hit⟩ rfl
    obtain rfl : s = t := Option.some.inj (hs.symm.trans ht)
    rw [hfree] at hit
    cases hit
  have hcursors : ∀ {g : ℕ} {b : ArrayView K V}, (v.arrays.set h { a with bindings := l })[g]? = some b →
      ∃ b', v.arrays[g]? = some b' ∧ b.cursors = b'.cursors := by
    intro g b hb
    by_cases hg : h = g
    · subst hg
      rw [List.getElem?_set_self halt, Option.some.injEq] at hb
      exact ⟨a, ha, hb ▸ rfl⟩
    · rw [List.getElem?_set_ne hg] at hb
      exact ⟨b, hb, rfl⟩
  refine ⟨hmade, ?_, ?_, hw.apart, ?_, ?_, hw.acc⟩
  · refine forall₂_set hw.arrays ⟨?_, hl.symm, ?_⟩ h
    · rw [hset]
      exact hshow.settings
    · intro p i hp
      change a.cursors p = some i at hp
      rw [hnone p] at hp
      cases hp
  · refine forall₂_of_slots hw.folds.length_eq ?_
    intro k fs? f? hfs hf
    have hrel := forall₂_getElem? hw.folds hfs hf
    cases hrel with
    | none => exact .none
    | some hp =>
        refine .some (hp.congr ?_)
        intro x hx t ht
        have hne := helse (hp.holds_live x hx)
        exact ⟨t, by rw [← ht]; exact List.getElem?_set_ne (Ne.symm hne), .refl t, rfl⟩
  · intro k fs x b hfs hx hb
    obtain ⟨b', hb', heq⟩ := hcursors hb
    rw [heq]
    exact hw.own hfs hx hb'
  · rintro x ⟨t, it, ht, hit⟩
    change (w.sas.set h s')[x.1]? = some t at ht
    have hne : h ≠ x.1 := by
      intro hx
      rw [hx, List.getElem?_set_self (hx ▸ hlt), Option.some.injEq] at ht
      rw [← ht, hfree'] at hit
      cases hit
    rw [List.getElem?_set_ne hne] at ht
    rcases hw.known ⟨t, it, ht, hit⟩ with ⟨b, i, hb, hi⟩ | hfold
    · exact Or.inl ⟨b, i, by rw [← hb]; exact List.getElem?_set_ne hne, hi⟩
    · exact Or.inr hfold

/-- A skiparray is locked when its view says so. -/
theorem locked_iff (hs : w.sas[h]? = some s) : s.iter ≠ none ↔ v.Locked h := by
  rw [hw.made.locked_iff hs]
  constructor
  · rintro ⟨p, hlive⟩
    rcases hw.known hlive with ⟨b, i, hb, hi⟩ | ⟨k, fs, hfs, hx⟩
    · exact Or.inl ⟨b, p, i, hb, hi⟩
    · obtain ⟨f, hf, hp⟩ := hw.foldView hfs
      exact Or.inr ⟨k, f, hf, hp.lends_iff.mpr ⟨p, hx⟩⟩
  · rintro (⟨b, p, i, hb, hi⟩ | ⟨k, f, hf, hlends⟩)
    · exact ⟨p, hw.live_cursor hb hi⟩
    · obtain ⟨fs, -, hp⟩ := hw.fold hf
      obtain ⟨p, hx⟩ := hp.lends_iff.mp hlends
      exact ⟨p, hp.holds_live _ hx⟩

end World.Shows

/-! ## Request by request -/

/-- The request is met. -/
def Met (cb : Callbacks K U) (w : World K V U W) (v : View K V W) (req : Request K V W) : Prop :=
  ∃ reply w' v', w.step cb req = .ok (reply, w') ∧ v.Step cb req reply v' ∧ w'.Shows cb v'

variable (hw : w.Shows cb v)

include hw

/-- A call that comes back does what its view says. -/
theorem World.Shows.called {call : Call K V} {answer : Answer K V} {c' : Ctx K V U}
    (hs : w.sas[h]? = some s) (ha : v.arrays[h]? = some a)
    (hcall : s.call cb w.c call = .ok (answer, s', c')) :
    ∃ v', v.Step cb (.call h call) (.call answer) v' ∧
      World.Shows cb { w with sas := w.sas.set h s', c := c' } v' := by
  have hshow := forall₂_getElem? hw.arrays hs ha
  obtain ⟨hc, bs, its, hco⟩ := hw.made.coherent hs
  obtain ⟨l', hleaves, hanswer⟩ := call_ok hc hco.toWf hcall
  have hmade : Made cb (w.sas.set h s') := hw.made.set hs (fun f hr => hr.call hcall) h
  obtain ⟨hkeep, -, bs', hwf', hbind⟩ := hleaves
  have hcontents : s'.contents = l' := by rw [hwf'.contents_eq, hbind]
  have hbefore : a.bindings = bindings bs := by rw [hshow.bindings, hco.toWf.contents_eq]
  have hcmp : cb.cmp a.settings.cmp = cb.cmp s.cmp := by rw [hshow.settings]
  have hsame : v.arrays.set h { a with bindings := a.bindings } = v.arrays := set_same ha
  cases hiter : s.iter with
  | some it =>
      -- locked: nothing happens, whatever the call
      obtain ⟨rfl, rfl⟩ := call_locked hiter hcall
      have hl' : a.bindings = l' := by rw [hshow.bindings, hcontents]
      have hlocked : s'.iter.isSome = true ↔ v.Locked h := by
        rw [Option.isSome_iff_ne_none]
        exact hw.locked_iff hs
      have hview : (answer, l') =
          call.onList a.settings (cb.cmp a.settings.cmp) s'.iter.isSome a.bindings := by
        rcases hanswer with heq | ⟨-, hnone, -⟩
        · rw [heq, hshow.settings, hbefore]
        · rw [hiter] at hnone
          cases hnone
      refine ⟨_, .call ha hlocked hview, ?_⟩
      rw [← hl', hsame, set_same hs]
      exact hw
  | none =>
      have hunlocked : ¬ v.Locked h := by
        rw [← hw.locked_iff hs, not_not]
        exact hiter
      have hfree : ∀ q, s.iter? q = none := by
        intro q
        have hnil := hco.cursors.iter_eq_none.mp hiter
        by_contra hsome
        have hq := (hco.cursors.live q).mpr (Option.isSome_iff_ne_none.mpr hsome)
        rw [hnil] at hq
        cases hq
      have hfree' : ∀ q, s'.iter? q = none := by
        intro q
        rw [SkipArray.iter?, hkeep.iters]
        exact hfree q
      have hshows := hw.mutate hs ha hmade hkeep.settings hcontents hfree hfree' c'
      rcases hanswer with heq | ⟨hno, -, hrefused, hl'⟩
      · have hlocked : false = true ↔ v.Locked h := by simp [hunlocked]
        refine ⟨_, .call ha hlocked ?_, hshows⟩
        rw [heq, hiter, hshow.settings, hbefore]
        rfl
      · rw [hl', ← hbefore, hsame] at hshows
        exact ⟨_, .callRefused hno hunlocked hrefused, hshows⟩

theorem met_call {call : Call K V} (hl : v.Legal (.call h call)) : Met cb w v (.call h call) := by
  obtain ⟨a, ha, hpop⟩ := hl
  obtain ⟨s, hs, hshow⟩ := hw.array ha
  obtain ⟨hc, bs, its, hco⟩ := hw.made.coherent hs
  have hmax := hshow.settings ▸ hpop
  obtain ⟨answer, s', c', -, hcall, -⟩ := call_spec hc hco.toWf w.c call
    fun heq _ _ => hco.height_le.trans (hmax heq)
  obtain ⟨v', hview, hshows⟩ := hw.called hs ha hcall
  exact ⟨_, _, _, bind_eq_ok.mpr ⟨s, slot_of_getElem? hs, bind_eq_ok.mpr ⟨_, hcall, rfl⟩⟩, hview, hshows⟩

theorem met_iterNew (hl : v.Legal (.iterNew h)) : Met cb w v (.iterNew h) := by
  have ha := List.getElem?_eq_getElem hl
  generalize v.arrays[h] = a at ha
  obtain ⟨s, hs, hshow⟩ := hw.array ha
  obtain ⟨hc, bs, its, hco⟩ := hw.made.coherent hs
  have hbindings : a.bindings = bindings bs := by rw [hshow.bindings, hco.toWf.contents_eq]
  obtain ⟨res, it, s', c', hnew, hout⟩ := skiparrayIterNew_spec cb hco.toWf hco.cursors w.c
  have hmade : Made cb (w.sas.set h s') := hw.made.set hs (fun f hr => hr.iterNew hnew) h
  have hstep : w.step cb (.iterNew h) =
      .ok (.iterNew res it, { w with sas := w.sas.set h s', c := c' }) :=
    bind_eq_ok.mpr ⟨s, slot_of_getElem? hs, bind_eq_ok.mpr ⟨_, hnew, rfl⟩⟩
  have hidle : ∀ c, World.Shows cb { w with sas := w.sas.set h s, c } v := by
    intro c
    rw [set_same hs]
    exact { hw with }
  cases hout with
  | empty hnil => exact ⟨_, _, _, hstep, .iterNewEmpty ha (hbindings.trans hnil), hidle _⟩
  | memory hne hrefused =>
      exact ⟨_, _, _, hstep, .iterNewRefused ha (hbindings ▸ hne) (Ctx.alloc_refused hrefused), hidle _⟩
  | @ok _ block hne halloc =>
      have hfresh : s.iter? s.iters.length = none := by
        rw [SkipArray.iter?, List.getElem?_eq_none le_rfl]
        rfl
      have hcursor : a.cursors s.iters.length = none := by
        by_contra hsome
        obtain ⟨i, hi⟩ := Option.ne_none_iff_exists'.mp hsome
        obtain ⟨it, hit⟩ := hshow.live hi
        rw [hfresh] at hit
        cases hit
      refine ⟨_, _, _, hstep, .iterNew ha (hbindings ▸ hne) hcursor, ?_⟩
      refine hw.cursor hs ha hmade (.withIter ..) (fun q hq => SkipArray.payload_withIter hq) ?_ ?_ ?_ _
      · rintro i hi
        obtain rfl : 0 = i := Option.some.inj hi
        exact ⟨bs, (IterOnly.withIter ..).wf hco.toWf, .withIter hco.toWf hne block⟩
      · intro hnone
        cases hnone
      · intro k fs hfs hmem
        obtain ⟨f, -, hp⟩ := hw.foldView hfs
        obtain ⟨t, it, ht, hit⟩ := hp.holds_live _ hmem
        obtain rfl : s = t := Option.some.inj (hs.symm.trans ht)
        rw [hfresh] at hit
        cases hit

theorem met_iterFree {it : Option Ptr} (hl : v.Legal (.iterFree h it)) : Met cb w v (.iterFree h it) := by
  obtain ⟨a, ha, hit⟩ := hl
  obtain ⟨s, hs, hshow⟩ := hw.array ha
  cases it with
  | none =>
      have hstep : w.step cb (.iterFree h none) = .ok (.iterFree, { w with sas := w.sas.set h s }) :=
        bind_eq_ok.mpr ⟨s, slot_of_getElem? hs, rfl⟩
      rw [set_same hs] at hstep
      exact ⟨_, _, _, hstep, .iterFreeNone, hw⟩
  | some p =>
      obtain ⟨i, hi⟩ := hit p rfl
      obtain ⟨m, hm⟩ := hshow.live hi
      obtain ⟨-, bs, its, hco⟩ := hw.made.coherent hs
      obtain ⟨xs, ys, rfl⟩ := List.append_of_mem (hco.cursors.mem hm)
      obtain ⟨s', hfree, ho, -, -, hgone, hpay⟩ := skiparrayIterFree_spec hco.cursors hm w.c
      have hmade : Made cb (w.sas.set h s') := hw.made.set hs (fun f hr => hr.iterFree hfree) h
      have hstep : w.step cb (.iterFree h (some p)) =
          .ok (.iterFree, { w with sas := w.sas.set h s', c := w.c.release m.block }) :=
        bind_eq_ok.mpr ⟨s, slot_of_getElem? hs, bind_eq_ok.mpr ⟨_, hfree, rfl⟩⟩
      refine ⟨_, _, _, hstep, .iterFree ha, ?_⟩
      refine hw.cursor hs ha hmade ho hpay ?_ (fun _ => hgone) ?_ _
      · intro i hno
        cases hno
      · exact fun k fs hfs => hw.apart_cursor ha hi hfs

theorem met_iterGet {it : Ptr} (hl : v.Legal (.iterGet h it)) : Met cb w v (.iterGet h it) := by
  obtain ⟨a, i, ha, hi, hlt⟩ := hl
  obtain ⟨s, hs, hshow⟩ := hw.array ha
  obtain ⟨bs, hwf, hat⟩ := hshow.placed hi
  have hbindings : a.bindings = bindings bs := by rw [hshow.bindings, hwf.contents_eq]
  have hkv := List.getElem?_eq_getElem hlt
  have hne : bindings bs ≠ [] := by
    rw [← hbindings]
    exact List.ne_nil_of_length_pos (by omega)
  have hget : skiparrayIterGet s it = .ok (a.bindings[i].1, a.settings.out a.bindings[i].2) := by
    rw [skiparrayIterGet_spec hwf hne hat, ← hbindings, hkv, hshow.settings]
  exact ⟨_, w, v, bind_eq_ok.mpr ⟨s, slot_of_getElem? hs, bind_eq_ok.mpr ⟨_, hget, rfl⟩⟩,
    .iterGet ha hi hkv, hw⟩

/-- A cursor of the client's has moved, and nothing else has. -/
theorem World.Shows.moved {move : Move K} {res : MoveRes} {i j : ℕ} (hs : w.sas[h]? = some s)
    (ha : v.arrays[h]? = some a) (hi : a.cursors p = some i)
    (hmove : s.move cb p move = .ok (res, s')) (hm : s.Moves p s')
    (hput : ∃ bs, s'.Wf (cb.cmp s'.cmp) bs ∧ s'.At bs p j) :
    World.Shows cb { w with sas := w.sas.set h s' } (v.putCursor h a p (some j)) := by
  have hmade : Made cb (w.sas.set h s') := hw.made.set hs (fun f hr => hr.move hmove) h
  refine hw.cursor hs ha hmade hm.iterOnly (fun q hq => by rw [hm.iter?_ne hq]) ?_ ?_ ?_ w.c
  · intro i' hi'
    obtain rfl := Option.some.inj hi'
    exact hput
  · intro hnone
    cases hnone
  · exact fun k fs hfs => hw.apart_cursor ha hi hfs

theorem met_move {it : Ptr} {move : Move K} (hl : v.Legal (.move h it move)) :
    Met cb w v (.move h it move) := by
  obtain ⟨a, i, ha, hi, hinside⟩ := hl
  obtain ⟨s, hs, hshow⟩ := hw.array ha
  obtain ⟨hc, bs, its, hco⟩ := hw.made.coherent hs
  obtain ⟨bs', hwf, hat⟩ := hshow.placed hi
  obtain rfl := hwf.unique hco.toWf
  have hbindings : a.bindings = bindings bs' := by rw [hshow.bindings, hwf.contents_eq]
  have hwrap : move = .next → ∀ m, s.iter? it = some m → m.index ≠ 65535 := by
    intro hnext
    exact hat.index_lt hwf (hbindings ▸ hinside hnext)
  obtain ⟨s', hmove, hm, hco', hat'⟩ := move_onIndex hc hco hat move hwrap
  rw [← hbindings, ← hshow.settings] at hmove hat'
  have hstep : w.step cb (.move h it move) =
      .ok (.move (move.onIndex (cb.cmp a.settings.cmp) a.bindings i).1,
        { w with sas := w.sas.set h s' }) :=
    bind_eq_ok.mpr ⟨s, slot_of_getElem? hs, bind_eq_ok.mpr ⟨_, hmove, rfl⟩⟩
  refine ⟨_, _, _, hstep, .move ha hi, hw.moved hs ha hi hmove hm ⟨bs', ?_, hat'⟩⟩
  rw [hm.iterOnly.settings]
  exact hco'.toWf

theorem met_foldNext {k : ℕ} (hl : v.Legal (.foldNext k)) : Met cb w v (.foldNext k) := by
  obtain ⟨f, hf⟩ := hl
  obtain ⟨fs, hfs, hp⟩ := hw.fold hf
  have hload : w.loadFold k = .ok fs :=
    bind_eq_ok.mpr ⟨some fs, slot_of_getElem? hfs, rfl⟩
  have hklt := (List.getElem?_eq_some_iff.mp hfs).1
  have hvlt := (List.getElem?_eq_some_iff.mp hf).1
  have hmine : ∀ x ∈ holds fs.iters,
      ¬ Live w.sas x ∨ ∃ fs, w.folds[k]? = some (some fs) ∧ x ∈ holds fs.iters :=
    fun x hx => Or.inr ⟨fs, hfs, hx⟩
  have hold : ∀ gs, w.folds[k]? = some (some gs) → ∀ x ∈ holds gs.iters, x ∈ holds fs.iters := by
    intro gs hgs
    obtain rfl := Option.some.inj (Option.some.inj (hgs.symm.trans hfs))
    exact fun _ hx => hx
  by_cases hdone : f.lanes.Done
  · obtain ⟨sas', c', hnext, hb, hgone⟩ := foldDone_beside hw.made hp w.acc w.c hdone
    have hstep : w.step cb (.foldNext k) =
        .ok (.foldNext .done w.acc, ⟨sas', w.folds.set k none, w.acc, c'⟩) :=
      bind_eq_ok.mpr ⟨fs, hload, bind_eq_ok.mpr ⟨_, hnext, rfl⟩⟩
    rw [← hw.acc] at hstep
    refine ⟨_, _, _, hstep, .foldDone hf hdone, ?_⟩
    refine hw.refold (hw.made.foldNext hnext) hb ?_ ?_ ?_ (List.getElem?_set_self hklt)
      (List.getElem?_set_self hvlt) .none hmine hold ?_ (fun x hx _ => hgone x hx) _ _
    · rw [List.length_set, List.length_set, hw.folds.length_eq]
    · intro j hj
      exact List.getElem?_set_ne (Ne.symm hj)
    · intro j hj
      exact List.getElem?_set_ne (Ne.symm hj)
    · intro fs' hno
      cases hno
  · obtain ⟨d, st, hlanes⟩ := Lanes.exists_next (onKeys (cb.cmp f.cmp)) hdone
    obtain ⟨fs', sas', c', hnext, hproceeds⟩ := foldNext_beside hw.made hp w.acc w.c hlanes
    have hstep : w.step cb (.foldNext k) = .ok (.foldNext .ok (f.deliver w.acc (d.map Prod.snd)),
        ⟨sas', w.folds.set k (some fs'), f.deliver w.acc (d.map Prod.snd), c'⟩) :=
      bind_eq_ok.mpr ⟨fs, hload, bind_eq_ok.mpr ⟨_, hnext, rfl⟩⟩
    rw [← hw.acc] at hstep
    refine ⟨_, _, _, hstep, .foldNext hf hlanes, ?_⟩
    refine hw.refold (hw.made.foldNext hnext) hproceeds.beside ?_ ?_ ?_ (List.getElem?_set_self hklt)
      (List.getElem?_set_self hvlt) (.some hproceeds.fold) hmine hold ?_ ?_ _ _
    · rw [List.length_set, List.length_set, hw.folds.length_eq]
    · intro j hj
      exact List.getElem?_set_ne (Ne.symm hj)
    · intro j hj
      exact List.getElem?_set_ne (Ne.symm hj)
    · intro gs hgs
      obtain rfl := Option.some.inj hgs
      exact hproceeds.sub
    · intro x hx hno
      exact hproceeds.gone x hx (hno fs' rfl)

theorem met_foldHalt {k : ℕ} (hl : v.Legal (.foldHalt k)) : Met cb w v (.foldHalt k) := by
  obtain ⟨f, hf⟩ := hl
  obtain ⟨fs, hfs, hp⟩ := hw.fold hf
  have hload : w.loadFold k = .ok fs :=
    bind_eq_ok.mpr ⟨some fs, slot_of_getElem? hfs, rfl⟩
  obtain ⟨sas', c', hhalt, hb, hgone⟩ := foldHalt_beside hw.made hp w.c
  have hstep : w.step cb (.foldHalt k) =
      .ok (.foldHalt, ⟨sas', w.folds.set k none, w.acc, c'⟩) :=
    bind_eq_ok.mpr ⟨fs, hload, bind_eq_ok.mpr ⟨_, hhalt, rfl⟩⟩
  rw [← hw.acc] at hstep
  refine ⟨_, _, _, hstep, .foldHalt hf, ?_⟩
  refine hw.refold (hw.made.foldHalt hhalt) hb ?_ ?_ ?_
    (List.getElem?_set_self (List.getElem?_eq_some_iff.mp hfs).1)
    (List.getElem?_set_self (List.getElem?_eq_some_iff.mp hf).1) .none
    (fun x hx => Or.inr ⟨fs, hfs, hx⟩) ?_ ?_ (fun x hx _ => hgone x hx) _ _
  · rw [List.length_set, List.length_set, hw.folds.length_eq]
  · intro j hj
    exact List.getElem?_set_ne (Ne.symm hj)
  · intro j hj
    exact List.getElem?_set_ne (Ne.symm hj)
  · intro gs hgs
    obtain rfl := Option.some.inj (Option.some.inj (hgs.symm.trans hfs))
    exact fun _ hx => hx
  · intro fs' hno
    cases hno

omit hw [Inhabited K] [Inhabited V] in
theorem getElem?_concat_ne {α : Type} {xs : List α} {x : α} {j : ℕ} (hj : j ≠ xs.length) :
    (xs ++ [x])[j]? = xs[j]? := by
  rcases Nat.lt_or_gt_of_ne hj with hlt | hgt
  · exact List.getElem?_append_left hlt
  · rw [List.getElem?_eq_none (by simpa using hgt), List.getElem?_eq_none (by omega)]

/-- A fold has been started, or was not. -/
theorem World.Shows.addFold {o : Option (FoldState K V U W)} {o' : Option (FoldView K V W)}
    (hmade : Made cb sas') (hb : Beside mine w.sas sas')
    (hrel : Option.Rel (InProgress cb sas') o o') (hmine : ∀ x ∈ mine, ¬ Live w.sas x)
    (hnew : ∀ fs, o = some fs → holds fs.iters = mine) (hnone : o = none → mine = [])
    (c : Ctx K V U) : World.Shows cb ⟨sas', w.folds ++ [o], w.acc, c⟩
      { v with folds := v.folds ++ [o'] } := by
  have hlen := hw.folds.length_eq
  have hrefold : World.Shows cb ⟨sas', w.folds ++ [o], w.acc, c⟩
      ⟨v.arrays, v.folds ++ [o'], w.acc⟩ := by
    refine hw.refold (k := w.folds.length) hmade hb (by simp [hlen])
      (fun j hj => getElem?_concat_ne hj) (fun j hj => getElem?_concat_ne (hlen ▸ hj))
      (List.getElem?_concat_length ..) (by rw [hlen]; exact List.getElem?_concat_length ..) hrel
      (fun x hx => Or.inl (hmine x hx)) ?_ ?_ ?_ w.acc c
    · intro fs hfs
      exact absurd (List.getElem?_eq_some_iff.mp hfs).1 (lt_irrefl _)
    · intro fs hfs x hx
      exact hnew fs hfs ▸ hx
    · intro x hx hno
      cases o with
      | none =>
          rw [hnone rfl] at hx
          cases hx
      | some fs => exact absurd (hnew fs rfl ▸ hx) (hno fs rfl)
  rw [hw.acc]
  exact hrefold

/-- What the skiparrays have for a fold, and what their views say. -/
theorem World.Shows.lanes_eq {type : FoldType} {inputs : List ℕ} (hin : ∀ h ∈ inputs, h < v.arrays.length) :
    startLanes type w.sas inputs = v.lanes type inputs := by
  unfold startLanes View.lanes
  congr 1
  apply List.map_congr_left
  intro g hg
  have ha := List.getElem?_eq_getElem (hin g hg)
  obtain ⟨s, hs, hshow⟩ := hw.array ha
  rw [contentsAt, hs, ha, Option.map_some, Option.map_some, hshow.bindings]

/-- The inputs that a fold takes are those that can be folded together. -/
theorem World.Shows.accepts_iff {merge : Option (List K → List V → W → ℕ × V × W)} {inputs : List ℕ}
    {s₀ : Settings} : (∃ sa₀ : SkipArray K V, sa₀.toSettings = s₀ ∧
      Accepts (merge.map clientMerge : Option (MergeFun K V U W)) w.sas inputs sa₀) ↔
    v.Admits merge inputs s₀ := by
  have harray : ∀ {g : ℕ} {s : SkipArray K V}, w.sas[g]? = some s →
      ∃ a, v.arrays[g]? = some a ∧ a.settings = s.toSettings := by
    intro g s hs
    obtain ⟨a, ha, hshow⟩ := forall₂_slot (List.Forall₂.flip hw.arrays) hs
    exact ⟨a, ha, hshow.settings⟩
  constructor
  · rintro ⟨sa₀, rfl, hmerges, ⟨h₀, hhead, hsa₀⟩, hsame⟩
    refine ⟨fun hlt => by simpa using hmerges hlt, ?_, ?_⟩
    · obtain ⟨a, ha, hset⟩ := harray hsa₀
      exact ⟨h₀, a, hhead, ha, hset⟩
    · intro g hg
      obtain ⟨s, hs, hcb⟩ := hsame g hg
      obtain ⟨a, ha, hset⟩ := harray hs
      rw [sameCallbacks, decide_eq_true_eq] at hcb
      exact ⟨a, ha, by rw [hset]; exact hcb⟩
  · rintro ⟨hmerges, ⟨h₀, a, hhead, ha, rfl⟩, hsame⟩
    obtain ⟨sa₀, hsa₀, hshow⟩ := hw.array ha
    refine ⟨sa₀, hshow.settings.symm, fun hlt => by simpa using hmerges hlt, ⟨h₀, hhead, hsa₀⟩, ?_⟩
    intro g hg
    obtain ⟨b, hb, hcb⟩ := hsame g hg
    obtain ⟨s, hs, hshow'⟩ := hw.array hb
    rw [hshow.settings, hshow'.settings] at hcb
    refine ⟨s, hs, ?_⟩
    rw [sameCallbacks, decide_eq_true_eq]
    exact hcb

theorem met_foldInit {type : FoldType} {skiparrays : Option (List (Option ℕ))}
    {fold : Option (K → V → W → W)} {merge : Option (List K → List V → W → ℕ × V × W)}
    (hl : v.Legal (.foldInit type skiparrays fold merge)) :
    Met cb w v (.foldInit type skiparrays fold merge) := by
  obtain ⟨hin, hchoose⟩ := hl
  have hlen := hw.arrays.length_eq
  by_cases hadm : ∃ inputs s₀ f, skiparrays = some (inputs.map some) ∧ fold = some f ∧
      v.Admits merge inputs s₀
  · obtain ⟨inputs, s₀, f, rfl, rfl, hadm⟩ := hadm
    obtain ⟨sa₀, rfl, ha⟩ := hw.accepts_iff.mpr hadm
    obtain ⟨hle, hinside⟩ := hin _ rfl
    rw [List.length_map] at hle
    have hlanes : startLanes type w.sas inputs = v.lanes type inputs :=
      hw.lanes_eq fun g hg => hinside g (List.mem_map_of_mem hg)
    obtain ⟨res, next, sas', c', hinit, hmade, hres⟩ :=
      foldInit_beside type f hw.made hle hchoose ha w.c
    have hstep : w.step cb (.foldInit type (some (inputs.map some)) (some f) merge) =
        .ok (.foldInit res, ⟨sas', w.folds ++ [next], w.acc, c'⟩) :=
      bind_eq_ok.mpr ⟨_, hinit, rfl⟩
    rcases hres with ⟨rfl, rfl, hno, hb⟩ | ⟨rfl, fs, rfl, hb, hfresh, hp⟩
    · exact ⟨_, _, _, hstep, .foldRefused hadm hno,
        hw.addFold hmade hb .none (by simp) (by simp) (fun _ => rfl) c'⟩
    · rw [hlanes] at hp
      refine ⟨_, _, _, hstep, .foldInit hadm, ?_⟩
      refine hw.addFold hmade hb (.some hp) hfresh ?_ (by simp) c'
      intro gs hgs
      rw [Option.some.inj hgs]
  · have hmisuse : skiparrayFoldMultiInit cb type skiparrays (fold.map clientFold)
        (merge.map clientMerge) w.sas w.c = .ok (.errorMisuse, none, w.sas, w.c) := by
      apply foldMultiInit_misuse
      · intro os hos g hg
        rw [hlen]
        exact (hin os hos).2 g hg
      · intro inputs sa₀ f hinputs hfold ha
        obtain ⟨f', hf', -⟩ := Option.map_eq_some_iff.mp hfold
        exact hadm ⟨inputs, _, f', hinputs, hf', hw.accepts_iff.mp ⟨sa₀, rfl, ha⟩⟩
    have hstep : w.step cb (.foldInit type skiparrays fold merge) =
        .ok (.foldInit .errorMisuse, ⟨w.sas, w.folds ++ [none], w.acc, w.c⟩) :=
      bind_eq_ok.mpr ⟨_, hmisuse, rfl⟩
    refine ⟨_, _, _, hstep, .foldMisuse ?_,
      hw.addFold hw.made (.refl [] _) .none (by simp) (by simp) (fun _ => rfl) w.c⟩
    cases fold with
    | none => exact Or.inl rfl
    | some f =>
        refine Or.inr ?_
        intro inputs s₀ hinputs ha
        exact hadm ⟨inputs, s₀, f, hinputs, rfl, ha⟩

/-- A fold has come and gone. -/
theorem World.Shows.idle (hmade : Made cb sas') (hb : Beside [] w.sas sas') (acc : W)
    (c : Ctx K V U) : World.Shows cb { w with sas := sas', acc, c } { v with acc } := by
  refine ⟨hmade, ?_, ?_, hw.apart, hw.own, ?_, rfl⟩
  · refine forall₂_of_slots (hb.length.trans hw.arrays.length_eq) ?_
    intro g t a ht ha
    obtain ⟨s, hs, ho, hpay⟩ := hb.before ht
    exact (forall₂_getElem? hw.arrays hs ha).beside ho fun q i _ => hpay q (by simp)
  · refine forall₂_of_slots hw.folds.length_eq ?_
    intro k fs? f? hfs hf
    have hrel := forall₂_getElem? hw.folds hfs hf
    cases hrel with
    | none => exact .none
    | some hp => exact .some (hp.congr fun x _ => hb.unmoved (by simp))
  · intro x hx
    exact hw.known ((hb.live_iff (by simp)).mp hx)

theorem met_fold {type : FoldType} {fold : K → V → W → W} (hl : v.Legal (.fold type h fold)) :
    Met cb w v (.fold type h fold) := by
  have ha := List.getElem?_eq_getElem hl
  generalize v.arrays[h] = a at ha
  obtain ⟨s, hs, hshow⟩ := hw.array ha
  obtain ⟨res, sas', acc, c', hfold, hmade, hb, hres⟩ := fold_beside type fold hw.made hs w.acc w.c
  have hstep : w.step cb (.fold type h fold) =
      .ok (.fold res acc, { w with sas := sas', acc, c := c' }) :=
    bind_eq_ok.mpr ⟨_, hfold, rfl⟩
  have hshows := hw.idle hmade hb acc c'
  rcases hres with ⟨rfl, rfl, hno⟩ | ⟨rfl, rfl⟩
  · rw [← hw.acc] at hstep hshows
    exact ⟨_, _, _, hstep, .foldWholeRefused hno, hshows⟩
  · rw [← hw.acc, ← hshow.bindings] at hstep hshows
    exact ⟨_, _, _, hstep, .foldWhole ha, hshows⟩

end Shows

/-! ## Sessions -/

section Sessions

variable [Inhabited K] [Inhabited V] {cb : Callbacks K U}

/-- The library meets every request that is permitted. -/
theorem library_meets : Meets (World.step cb) (sessions cb : Spec (View K V W) _ _) (World.Shows cb) := by
  intro w v req hw hl
  cases req with
  | call h call => exact met_call hw hl
  | iterNew h => exact met_iterNew hw hl
  | iterFree h it => exact met_iterFree hw hl
  | iterGet h it => exact met_iterGet hw hl
  | move h it move => exact met_move hw hl
  | foldInit type skiparrays fold merge => exact met_foldInit hw hl
  | foldNext i => exact met_foldNext hw hl
  | foldHalt i => exact met_foldHalt hw hl
  | fold type h fold => exact met_fold hw hl

/-- The view of a client that has just made its skiparrays. -/
def View.start (sas : List (SkipArray K V)) (acc : W) : View K V W :=
  ⟨sas.map fun s => ⟨s.toSettings, s.contents, fun _ => none⟩, [], acc⟩

theorem World.shows_start {sas : List (SkipArray K V)} (hmade : Made cb sas)
    (hfree : ∀ sa ∈ sas, sa.iter = none) (acc : W) (c : Ctx K V U) :
    World.Shows cb ⟨sas, [], acc, c⟩ (View.start sas acc) := by
  refine ⟨hmade, ?_, .nil, ?_, ?_, ?_, rfl⟩
  · change List.Forall₂ _ sas (sas.map _)
    rw [List.forall₂_map_right_iff, List.forall₂_same]
    intro s _
    exact ⟨rfl, rfl, fun hp => by cases hp⟩
  · intro j k fs gs x hfs
    cases hfs
  · intro k fs x a hfs
    cases hfs
  · rintro x ⟨s, it, hs, hit⟩
    obtain ⟨-, bs, its, hco⟩ := hmade.coherent hs
    have hnil := hco.cursors.iter_eq_none.mp (hfree s (List.mem_of_getElem? hs))
    have hmem := hco.cursors.mem hit
    rw [hnil] at hmem
    cases hmem

/-- No request makes or destroys skiparrays. -/
theorem View.Step.arrays_length {v v' : View K V W} {req : Request K V W} {reply : Reply K V W}
    (h : v.Step cb req reply v') : v'.arrays.length = v.arrays.length := by
  cases h <;> simp [View.putCursor]

/-- A fold is started, a binding taken out in vain, and another fold gets the keys. -/
def mixedClient : Client (Request ℤ ℤ ℤ) (Reply ℤ ℤ ℤ) := fun history =>
  [.foldInit .left (some [some 0]) (some fun k v w => w + k * v) none, .iterNew 0,
    .call 0 .popFirst, .fold .right 0 fun k _ w => w + k][history.length]?

theorem mixedClient_keeps : (sessions Callbacks.plain).Keeps mixedClient
    (View.start [SkipArray.flatSplit] 0) := by
  intro history v req hp hreq
  have hlen : v.arrays.length = 1 :=
    hp.carries (P := fun _ v => v.arrays.length = 1) rfl
      fun _ _ _ _ _ ih _ hstep => hstep.arrays_length.trans ih
  have h₀ := List.getElem?_eq_getElem (show 0 < v.arrays.length by omega)
  have hmem := List.mem_of_getElem? hreq
  simp only [List.mem_cons, List.not_mem_nil, or_false] at hmem
  rcases hmem with rfl | rfl | rfl | rfl
  · refine ⟨?_, by simp⟩
    intro hs heq
    obtain rfl := Option.some.inj heq
    refine ⟨by decide, ?_⟩
    intro h hh
    have : h = 0 := by simpa using hh
    omega
  · exact show 0 < v.arrays.length by omega
  · exact ⟨_, h₀, fun hpop => by cases hpop⟩
  · exact show 0 < v.arrays.length by omega

/-- A client may do anything at any time that is permitted: call, iterate, and start,
step and end any number of folds, in any order. Every request comes back, and with
a reply that the specification allows; the skiparrays then hold what the client's
view says. -/
theorem sessions_refine {sas : List (SkipArray K V)}
    (hmade : ∀ sa ∈ sas, ∃ f, LawfulCmp (cb.cmp f) ∧ Reachable cb f sa)
    (hfree : ∀ sa ∈ sas, sa.iter = none) (acc : W) (c : Ctx K V U)
    {client : Client (Request K V W) (Reply K V W)}
    (hkeeps : (sessions cb).Keeps client (View.start sas acc)) (n : ℕ) :
    ∃ history w v, play (World.step cb) client n [] ⟨sas, [], acc, c⟩ = .ok (history, w) ∧
      (sessions cb).Plays client (View.start sas acc) history v ∧ w.Shows cb v :=
  library_meets.play hkeeps (World.shows_start hmade hfree acc c) n

theorem sessions_refine_flatSplit : ∃ history w v,
    play (World.step Callbacks.plain) mixedClient 4 [] ⟨[SkipArray.flatSplit], [], 0, ⟨(), 0, [], []⟩⟩ =
      .ok (history, w) ∧
    (sessions Callbacks.plain).Plays mixedClient (View.start [SkipArray.flatSplit] 0) history v ∧
    w.Shows Callbacks.plain v := by
  refine sessions_refine ?_ ?_ 0 ⟨(), 0, [], []⟩ mixedClient_keeps 4
  · intro sa hsa
    rw [List.mem_singleton.mp hsa]
    exact ⟨0, LawfulCmp.int_sub, SkipArray.flatSplit_reachable⟩
  · intro sa hsa
    rw [List.mem_singleton.mp hsa]
    rfl

end Sessions

end Skiparray
