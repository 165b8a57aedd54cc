import Skiparray.Runs.Lists
import Skiparray.Runs.Refinement
import Skiparray.Model.Filter
import Skiparray.Layout.Requests

/-!
# Filtering is filtering the list of bindings

`keptBy` filters a list by a predicate that may keep state. The fold inside
`skiparray_filter` carries along a builder that has taken just the pairs kept so
far, or has refused one for want of memory.
-/

namespace Skiparray

open SkipLinks Fallible

variable {K V U S : Type}

/-! ## What a predicate keeps -/

/-- One pair is put to the predicate. -/
def keepStep (keep : K → V → S → Bool × S) (r : List (K × V) × S) (p : K × V) :
    List (K × V) × S :=
  (if (keep p.1 p.2 r.2).1 then r.1 ++ [p] else r.1, (keep p.1 p.2 r.2).2)

/-- The pairs that the predicate keeps when it is called on each in turn, and its
state afterwards. -/
def keptBy (keep : K → V → S → Bool × S) (ps : List (K × V)) (udata : S) : List (K × V) × S :=
  ps.foldl (keepStep keep) ([], udata)

section Kept

variable {keep : K → V → S → Bool × S}

theorem keptBy_snoc (ps : List (K × V)) (p : K × V) (udata : S) :
    keptBy keep (ps ++ [p]) udata = keepStep keep (keptBy keep ps udata) p := by
  unfold keptBy
  rw [List.foldl_append]
  rfl

theorem keptBy_sublist (ps : List (K × V)) (udata : S) : (keptBy keep ps udata).1.Sublist ps := by
  induction ps using List.reverseRecOn with
  | nil => exact List.Sublist.slnil
  | append_singleton ps p ih =>
      rw [keptBy_snoc]
      show (if _ then _ else _ : List (K × V)).Sublist _
      split
      · exact ih.append (List.Sublist.refl [p])
      · exact ih.trans (List.sublist_append_left ps [p])

end Kept

/-! ## The builder that goes along -/

section Append

variable [Inhabited K] [Inhabited V] {cb : Callbacks K U} {keep : K → V → S → Bool × S}
  {s : Settings} {udata : S} {ps done : List (K × V)} {p : K × V} {env : FilterEnv K V S}
  {bs : List (Block K V)}

/-- The environment of a filter with settings `s` once the predicate was called on
`done`: the builder has the blocks `bs`. -/
structure Filtering (cb : Callbacks K U) (keep : K → V → S → Bool × S) (s : Settings) (udata : S)
    (done : List (K × V)) (env : FilterEnv K V S) (bs : List (Block K V)) : Prop where
  building : Building (cb.cmp s.cmp) env.b bs
  settings : env.b.sa.toSettings = s
  unchecked : env.b.checkAscending = false
  state : env.udata = (keptBy keep done udata).2
  taken : (bindings bs).Sublist (keptBy keep done udata).1
  whole : env.ok = true → bindings bs = (keptBy keep done udata).1
  refused : env.ok = false → ¬ cb.AllGranted ∧ bindings bs ≠ []
  built : Built cb s.cmp env.b

/-- One call of `filter_append`. -/
theorem filterAppend_spec (hc : LawfulCmp (cb.cmp s.cmp)) (h : Filtering cb keep s udata done env bs)
    (hlt : ∀ q ∈ done, cb.cmp s.cmp q.1 p.1 < 0) (hstored : s.stored p.2 = p.2) (c : Ctx K V U) :
    ∃ env' bs' c', filterAppend cb keep p.1 p.2 env c = .ok (env', c') ∧
      Filtering cb keep s udata (done ++ [p]) env' bs' ∧ c'.freed = c.freed ∧
      ∀ c₀ live, Ledger cb c₀ c ((env.b.block ::ₘ env.b.sa.blocks bs) + live) →
        Ledger cb c₀ c' ((env'.b.block ::ₘ env'.b.sa.blocks bs') + live) := by
  have hcmp : env.b.sa.cmp = s.cmp := congrArg Settings.cmp h.settings
  have hsnoc : keptBy keep (done ++ [p]) udata = _ := keptBy_snoc done p udata
  cases hkeep : (keep p.1 p.2 env.udata).1 with
  | false =>
      have hsame : keptBy keep (done ++ [p]) udata =
          ((keptBy keep done udata).1, (keep p.1 p.2 env.udata).2) := by
        rw [hsnoc, keepStep, ← h.state, hkeep]
        rfl
      refine ⟨{ env with udata := (keep p.1 p.2 env.udata).2 }, bs, c, ?_, ?_, rfl, fun _ _ hl => hl⟩
      · simp [filterAppend, hkeep]
      · exact ⟨h.building, h.settings, h.unchecked, by rw [hsame], by rw [hsame]; exact h.taken,
          by rw [hsame]; exact h.whole, h.refused, h.built⟩
  | true =>
      have hmore : keptBy keep (done ++ [p]) udata =
          ((keptBy keep done udata).1 ++ [p], (keep p.1 p.2 env.udata).2) := by
        rw [hsnoc, keepStep, ← h.state, hkeep]
        rfl
      have hbelow : ∀ q ∈ bindings bs, cb.cmp env.b.sa.cmp q.1 p.1 < 0 := by
        intro q hq
        rw [hcmp]
        exact hlt q ((keptBy_sublist done udata).subset (h.taken.subset hq))
      obtain ⟨res, b', c', happ, hfreed, hkeeps, hout⟩ := skiparrayBuilderAppend_spec cb
        (hcmp ▸ hc) (hcmp ▸ h.building) c p.1 p.2 fun _ => hbelow
      have hbuilt : Built cb s.cmp b' := by
        refine h.built.append ?_ happ
        intro _ k v hlast
        rw [skiparrayLast_spec h.building.wf] at hlast
        cases hq : (bindings bs).getLast? with
        | none =>
            rw [hq] at hlast
            cases hlast
        | some q =>
            rw [hq] at hlast
            cases hlast
            rw [← hcmp]
            exact hbelow q (List.mem_of_getLast? hq)
      have hset := hkeeps.settings.trans h.settings
      have hcheck := hkeeps.checkAscending.trans h.unchecked
      have hrun : filterAppend cb keep p.1 p.2 env c =
          .ok (⟨b', (keep p.1 p.2 env.udata).2, if res = .ok then env.ok else false⟩, c') := by
        simp [filterAppend, hkeep, happ]
      cases hout with
      | misuse hge =>
          obtain ⟨q, hq, hge⟩ := hge
          exact absurd (hbelow q hq) hge
      | @memory prngState _ hg hne _ hled =>
          refine ⟨_, bs, c', hrun, ⟨h.building.withPrngState prngState, hset, hcheck, by rw [hmore],
            ?_, ?_, fun _ => ⟨hg, hne⟩, hbuilt⟩, hfreed, ?_⟩
          · rw [hmore]
            exact h.taken.trans (List.sublist_append_left _ _)
          · intro hok
            cases hok
          · intro c₀ live hl
            exact hled c₀ _ hl
      | @ok _ _ A x bs' _ hbs hbs' hb _ hled =>
          have hbind : bindings bs' = bindings bs ++ [p] := by
            rw [hbs', bindings_appendBlocks, ← hbs, h.settings, hstored]
          refine ⟨_, bs', c', hrun, ⟨hcmp ▸ hb, hset, hcheck, by rw [hmore], ?_, ?_, ?_, hbuilt⟩, hfreed,
            ?_⟩
          · rw [hmore, hbind]
            exact h.taken.append (List.Sublist.refl [p])
          · intro hok
            rw [hmore, hbind, h.whole hok]
          · intro hno
            refine ⟨(h.refused hno).1, ?_⟩
            rw [hbind]
            exact List.append_ne_nil_of_right_ne_nil _ (List.cons_ne_nil _ _)
          · intro c₀ live hl
            rw [Multiset.cons_add, ← Multiset.add_cons] at hl ⊢
            have hl' := hled c₀ _ hl
            rwa [← hkeeps.block] at hl'

end Append

/-! ## The copy's configuration -/

section Config

variable {sa : SkipArray K V}

theorem filterConfig_toNat (h : sa.toSettings.Ok) :
    (filterConfig sa).nodeSize.toNat = sa.nodeSize ∧ (filterConfig sa).maxLevel.toNat = sa.maxLevel :=
  ⟨UInt16.toNat_ofNat_of_lt' h.nodeSize_lt, UInt8.toNat_ofNat_of_lt' h.maxLevel_lt⟩

theorem filterConfig_nodeSize (h : sa.toSettings.Ok) : (filterConfig sa).nodeSize ≠ 1 := by
  intro hone
  have hsize := (filterConfig_toNat h).1
  rw [hone] at hsize
  have htwo := h.two_le
  change 1 = sa.nodeSize at hsize
  omega

/-- The copy has the settings of the source. -/
theorem filterConfig_settings (h : sa.toSettings.Ok) (block : ℕ) :
    (filterConfig sa).settings sa.cmp block = { sa.toSettings with block } := by
  obtain ⟨hsize, hmax⟩ := filterConfig_toNat h
  have hnode : (filterConfig sa).effNodeSize = sa.nodeSize := by
    have htwo := h.two_le
    rw [Config.effNodeSize, if_neg, hsize]
    intro hzero
    rw [hzero] at hsize
    change 0 = sa.nodeSize at hsize
    omega
  have hlevels : (filterConfig sa).effMaxLevel = sa.maxLevel := by
    have hpos := h.pos
    rw [Config.effMaxLevel, if_neg, hmax]
    intro hzero
    rw [hzero] at hmax
    change 0 = sa.maxLevel at hmax
    omega
  rw [Config.settings, hnode, hlevels]
  simp [filterConfig]

end Config

/-! ## `skiparray_filter` -/

section Filter

variable [Inhabited K] [Inhabited V] {cb : Callbacks K U} {keep : K → V → S → Bool × S}
  {s : Settings} {sa : SkipArray K V} {udata : S} {c : Ctx K V U} {l : List (K × V)}

/-- The rule for the fold inside `skiparray_filter`: since `c₀` no pair was freed,
and the memory in use is that of the fold and of the builder. -/
theorem filter_carries (hc : LawfulCmp (cb.cmp s.cmp)) (hasc : Ascending (cb.cmp s.cmp) l)
    (hstored : ∀ p ∈ l, s.stored p.2 = p.2) (udata : S) (c : Ctx K V U) :
    Carries cb (filterAppend cb keep) l fun done env c' held =>
      ∃ bs, Filtering cb keep s udata done env bs ∧ c'.freed = c.freed ∧
        ∀ c₀ live, Ledger cb c₀ c live →
          Ledger cb c₀ c' (held + ((env.b.block ::ₘ env.b.sa.blocks bs) + live)) := by
  constructor
  · rintro done p todo env c₁ held hl ⟨bs, hf, hfreed, hled⟩
    have hlt : ∀ q ∈ done, cb.cmp s.cmp q.1 p.1 < 0 := by
      intro q hq
      rw [hl] at hasc
      exact (Ascending.append_iff.mp hasc).2.2 q hq p List.mem_cons_self
    obtain ⟨env', bs', c₂, happ, hf', hfreed', hled'⟩ := filterAppend_spec hc hf hlt
      (hstored p (by rw [hl]; simp)) c₁
    refine ⟨env', c₂, happ, bs', hf', hfreed'.trans hfreed, ?_⟩
    intro c₀ live h
    have h₁ := hled c₀ live h
    rw [add_left_comm] at h₁ ⊢
    exact hled' c₀ _ h₁
  · rintro done env c₁ c₂ held held' ⟨bs, hf, hfreed, hled⟩ hover
    refine ⟨bs, hf, hover.freed.trans hfreed, ?_⟩
    intro c₀ live h
    exact hover.ledger c₀ _ (hled c₀ live h)

/-- `skiparray_filter` gets as far as its first pair: it has the memory of an empty
builder and of a fold. -/
def FilterSetUp (cb : Callbacks K U) (keep : K → V → S → Bool × S) (sa : SkipArray K V)
    (c : Ctx K V U) : Prop :=
  ∃ b c₁ fs sas c₂, skiparrayBuilderNew cb (some (filterConfig sa)) true c = .ok (.ok, some b, c₁) ∧
    skiparrayFoldInit cb .left (some 0) (some (filterAppend cb keep)) [sa] c₁ =
      .ok (.ok, fs, sas, c₂)

/-- What comes of a call of `skiparray_filter`. -/
inductive FilterOutcome (cb : Callbacks K U) (keep : K → V → S → Bool × S) (sa : SkipArray K V)
    (udata : S) (c : Ctx K V U) : Option (SkipArray K V) → S → Ctx K V U → Prop where
  | early {c' : Ctx K V U} (hsetup : ¬ FilterSetUp cb keep sa c) (hg : ¬ cb.AllGranted)
      (hfreed : c'.freed = c.freed) (hled : ∀ c₀ live, Ledger cb c₀ c live → Ledger cb c₀ c' live) :
      FilterOutcome cb keep sa udata c none udata c'
  | late {c' : Ctx K V U} {ps : List (K × V)} (hsetup : FilterSetUp cb keep sa c)
      (hg : ¬ cb.AllGranted) (hne : ps ≠ []) (hsub : ps.Sublist (keptBy keep sa.contents udata).1)
      (hfreed : c'.freed = sa.freedPairs ps ++ c.freed)
      (hled : ∀ c₀ live, Ledger cb c₀ c live → Ledger cb c₀ c' live) :
      FilterOutcome cb keep sa udata c none (keptBy keep sa.contents udata).2 c'
  | copy {c' : Ctx K V U} {copy : SkipArray K V} {bs : List (Block K V)} {block : ℕ}
      (hreach : Reachable cb sa.cmp copy) (hwf : copy.Wf (cb.cmp sa.cmp) bs) (hset : copy.toSettings = { sa.toSettings with block })
      (hiter : copy.iter = none) (hiters : copy.iters = [])
      (hcontents : copy.contents = (keptBy keep sa.contents udata).1) (hfreed : c'.freed = c.freed)
      (hled : ∀ c₀ live, Ledger cb c₀ c live → Ledger cb c₀ c' (copy.blocks bs + live)) :
      FilterOutcome cb keep sa udata c (some copy) (keptBy keep sa.contents udata).2 c'

/-- The builder that came out of the fold is thrown away. -/
theorem Filtering.builderFree {done : List (K × V)} {env : FilterEnv K V S} {bs : List (Block K V)}
    (h : Filtering cb keep s udata done env bs) (c : Ctx K V U) :
    ∃ c', skiparrayBuilderFree (some env.b) c = .ok c' ∧
      c'.freed = s.freedPairs (bindings bs) ++ c.freed ∧
      ∀ c₀ live, Ledger cb c₀ c ((env.b.block ::ₘ env.b.sa.blocks bs) + live) →
        Ledger cb c₀ c' live := by
  obtain ⟨c', hfree, hfreed, hled⟩ := skiparrayFree_spec h.building.wf.toSound h.building.iter
    (c.release env.b.block)
  refine ⟨c', hfree, ?_, ?_⟩
  · rw [hfreed, h.settings, Ctx.release_freed]
  · intro c₀ live hl
    apply hled cb
    apply Ledger.release
    rwa [← Multiset.cons_add]

theorem skiparrayFilter_spec {f : ℕ} (hc : LawfulCmp (cb.cmp f)) (hreach : Reachable cb f sa)
    (hroot : 1 ≤ rootHeight cb (filterConfig sa) c) (keep : K → V → S → Bool × S) (udata : S) :
    ∃ copy sa' udata' c',
      skiparrayFilter cb sa c keep udata = .ok (copy, sa', udata', c') ∧ IterOnly sa sa' ∧
      sa'.iter = sa.iter ∧ (∀ p, sa'.iter? p = sa.iter? p) ∧
      FilterOutcome cb keep sa udata c copy udata' c' := by
  obtain ⟨rfl, bs, its, hco⟩ := hreach.coherent hc
  have hwf := hco.toWf
  have hok := hwf.settings
  obtain ⟨res, ob, c₁, hnew, hfreed₁, hres⟩ := skiparrayBuilderNew_spec (K := K) (V := V) cb
    (show (filterConfig sa).cmp ≠ none by simp [filterConfig]) (filterConfig_nodeSize hok) true c hroot
  rcases hres with ⟨rfl, rfl, hrefused, hled₁⟩ | ⟨rfl, b, bs₀, rfl, hb, hnil, hcheck, hset, hled₁⟩
  · -- no builder
    refine ⟨none, sa, udata, c₁, ?_, .refl sa, rfl, fun _ => rfl, .early ?_ hrefused hfreed₁ hled₁⟩
    · rw [skiparrayFilter, hnew]
      rfl
    · rintro ⟨b, c₂, fs, sas, c₃, hnew', -⟩
      rw [hnew] at hnew'
      cases hnew'
  obtain ⟨cmp, block, hcmp, hset⟩ := hset
  cases hcmp
  rw [filterConfig_settings hok] at hset
  have hstart : Filtering cb keep { sa.toSettings with block } udata [] ⟨b, udata, true⟩ bs₀ :=
    ⟨hb _, hset, hcheck, rfl, by rw [hnil]; exact List.nil_sublist _, fun _ => hnil,
      fun hno => (by cases hno), .new rfl hnew⟩
  have hstored : ∀ p ∈ sa.contents, ({ sa.toSettings with block } : Settings).stored p.2 = p.2 := by
    intro p hp
    rw [hwf.contents_eq] at hp
    unfold Settings.stored
    cases hu : sa.useValues with
    | true => rfl
    | false => exact (hwf.value_default hu p hp).symm
  have hasc : Ascending (cb.cmp sa.cmp) sa.contents := by
    rw [hwf.contents_eq]
    exact hwf.ascending
  have hsas : ∀ b ∈ [sa], ∃ f, LawfulCmp (cb.cmp f) ∧ Reachable cb f b := by
    intro b hb
    rw [List.mem_singleton.mp hb]
    exact ⟨_, hc, hreach⟩
  obtain ⟨res, sas', env, c₂, hfold, ⟨fs, sas₀, c₀, hinit⟩, hrestored, hcases⟩ :=
    skiparrayFold_carries hsas (show [sa][0]? = some sa from rfl)
      (show Carries cb (filterAppend cb keep) (FoldType.left.order sa.contents) _ from
        filter_carries (s := { sa.toSettings with block }) hc hasc hstored udata c)
      ⟨b, udata, true⟩ c₁ ⟨bs₀, hstart, hfreed₁, fun c₀ live hl => by
        rw [zero_add]
        exact hled₁ c₀ live hl⟩
  -- the source
  obtain ⟨sa', rfl⟩ : ∃ sa', sas' = [sa'] := List.length_eq_one_iff.mp hrestored.length
  obtain ⟨honly, hiter, hiters⟩ := hrestored.same
    (show [sa][0]? = some sa from rfl) (show [sa'][0]? = some sa' from rfl)
  have hslot : slot [sa'] 0 = .ok sa' := rfl
  have hup : FilterSetUp cb keep sa c ↔ res = .ok := by
    constructor
    · rintro ⟨b', c₃, fs', sas', c₄, hnew', hinit'⟩
      rw [hnew] at hnew'
      cases hnew'
      rw [hinit] at hinit'
      cases hinit'
      rfl
    · rintro rfl
      exact ⟨b, c₁, fs, sas₀, c₀, hnew, hinit⟩
  rcases hcases with ⟨rfl, rfl, hrefused, hover⟩ | ⟨rfl, bs', hf, hfreed₂, hled₂⟩
  · -- no fold
    obtain ⟨c', hfree, hfreed, hled⟩ := hstart.builderFree c₂
    refine ⟨none, sa', udata, c', ?_, honly, hiter, hiters, .early ?_ hrefused ?_ ?_⟩
    · rw [skiparrayFilter, hnew, ok_bind]
      simp only [hfold, ok_bind, hslot]
      exact bind_eq_ok.mpr ⟨_, hfree, rfl⟩
    · rw [hup]
      intro hok
      cases hok
    · rw [hfreed, hnil, hover.freed, hfreed₁]
      simp [Settings.freedPairs]
    · intro c₀ live hl
      apply hled
      rw [← zero_add (_ + live)]
      apply hover.ledger
      rw [zero_add]
      exact hled₁ c₀ live hl
  have hled₃ : ∀ c₀ live, Ledger cb c₀ c live →
      Ledger cb c₀ c₂ ((env.b.block ::ₘ env.b.sa.blocks bs') + live) := by
    intro c₀ live hl
    have hl₂ := hled₂ c₀ live hl
    rwa [zero_add] at hl₂
  have hstate : env.udata = (keptBy keep sa.contents udata).2 := hf.state
  cases hall : env.ok with
  | false =>
      obtain ⟨hrefused, hne⟩ := hf.refused hall
      obtain ⟨c', hfree, hfreed, hled⟩ := hf.builderFree c₂
      refine ⟨none, sa', (keptBy keep sa.contents udata).2, c', ?_, honly, hiter, hiters,
        .late (hup.mpr rfl) hrefused hne hf.taken ?_ fun c₀ live hl => hled c₀ live (hled₃ c₀ live hl)⟩
      · rw [skiparrayFilter, hnew, ok_bind, ← hstate]
        simp only [hfold, ok_bind, hslot, hall]
        exact bind_eq_ok.mpr ⟨_, hfree, rfl⟩
      · rw [hfreed, hfreed₂]
        rfl
  | true =>
      have hcopy := hf.building
      refine ⟨some env.b.sa, sa', (keptBy keep sa.contents udata).2, c₂.release env.b.block, ?_,
        honly, hiter, hiters, .copy (.finish (c := c₂) hf.built rfl) hcopy.wf hf.settings hcopy.iter hcopy.iters ?_ hfreed₂ ?_⟩
      · rw [skiparrayFilter, hnew, ok_bind, ← hstate]
        simp only [hfold, ok_bind, hslot, hall]
        rfl
      · rw [hcopy.wf.contents_eq]
        exact hf.whole hall
      · intro c₀ live hl
        apply Ledger.release
        rw [← Multiset.cons_add]
        exact hled₃ c₀ live hl

/-- With memory, `skiparray_filter` makes a well-formed copy of just the bindings
the predicate keeps, having called it on each binding once in ascending order, and
leaves the source as it was. -/
theorem filter_keeps_matching {f : ℕ} (hc : LawfulCmp (cb.cmp f)) (hreach : Reachable cb f sa)
    (hlevel : (filterConfig sa).LawfulLevel cb) (hg : cb.AllGranted) (keep : K → V → S → Bool × S)
    (udata : S) (c : Ctx K V U) :
    ∃ copy sa' c', skiparrayFilter cb sa c keep udata =
        .ok (some copy, sa', (keptBy keep sa.contents udata).2, c') ∧
      copy.contents = (keptBy keep sa.contents udata).1 ∧
      (∃ ns, SkipList (cb.cmp f) copy ns ∧ Occupied copy.nodeSize ns ∧
        ∀ x ∈ ns, Allocated copy.toSettings x.2) ∧
      (∃ block, copy.toSettings = { sa.toSettings with block }) ∧
      copy.iter = none ∧ copy.iters = [] ∧
      IterOnly sa sa' ∧ sa'.contents = sa.contents ∧ sa'.iter = sa.iter ∧
      ∀ p, sa'.iter? p = sa.iter? p := by
  obtain ⟨copy, sa', udata', c', hfilter, honly, hiter, hiters, hout⟩ :=
    skiparrayFilter_spec hc hreach (rootHeight_pos hlevel c) keep udata
  have hcmp := (hreach.coherent hc).1
  cases hout with
  | early _ hrefused _ _ => exact absurd hg hrefused
  | late _ hrefused _ _ _ _ => exact absurd hg hrefused
  | @copy _ copy bs block _ hwf hset hnone hnil hcontents _ _ =>
      rw [hcmp] at hwf
      exact ⟨copy, sa', c', hfilter, hcontents,
        ⟨copy.nodesOf bs, hwf.skipList, hwf.occupied, hwf.allocated⟩, ⟨block, hset⟩, hnone, hnil,
        honly, honly.contents, hiter, hiters⟩

theorem filter_keeps_matching_flatSplit :
    ∃ copy sa' c', skiparrayFilter Callbacks.plain SkipArray.flatSplit ⟨(), 0, [], []⟩
        (fun k _ (n : ℕ) => (decide (k ≠ 2), n + 1)) 0 = .ok (some copy, sa', 3, c') ∧
      copy.contents = [(1, 10), (3, 30)] ∧
      (∃ ns, SkipList (Callbacks.plain.cmp 0) copy ns ∧ Occupied copy.nodeSize ns ∧
        ∀ x ∈ ns, Allocated copy.toSettings x.2) ∧
      (∃ block, copy.toSettings = { SkipArray.flatSplit.toSettings with block }) ∧
      copy.iter = none ∧ copy.iters = [] ∧
      IterOnly SkipArray.flatSplit sa' ∧ sa'.contents = SkipArray.flatSplit.contents ∧
      sa'.iter = SkipArray.flatSplit.iter ∧ ∀ p, sa'.iter? p = SkipArray.flatSplit.iter? p := by
  refine filter_keeps_matching LawfulCmp.int_sub SkipArray.flatSplit_reachable ?_ (fun _ => rfl)
    (fun k _ (n : ℕ) => (decide (k ≠ 2), n + 1)) 0 ⟨(), 0, [], []⟩
  intro f _ prngStateIn out udata
  refine ⟨le_refl _, ?_⟩
  show (0 : ℤ) < ((filterConfig SkipArray.flatSplit).effMaxLevel : ℤ)
  decide

end Filter

/-! ## When filtering fails -/

section Failing

variable [Inhabited K] [Inhabited V] {cb : Callbacks K U} {keep : K → V → S → Bool × S} {f : ℕ}
  {sa sa' : SkipArray K V} {udata udata' : S} {c c' : Ctx K V U}

/-- The requests for an empty copy, its builder, and a fold of the source. -/
def setupRequests (sa : SkipArray K V) : ℕ :=
  1 + nodeRequests sa.useValues + 1 + (1 + (1 + if sa.contents.isEmpty then 0 else 1))

theorem filterSetUp_iff (hc : LawfulCmp (cb.cmp f)) (hreach : Reachable cb f sa)
    (hroot : 1 ≤ rootHeight cb (filterConfig sa) c) :
    FilterSetUp cb keep sa c ↔ ∀ i < setupRequests sa, cb.grant (c.requests + i) = true := by
  obtain ⟨rfl, bs, its, hco⟩ := hreach.coherent hc
  have hwf := hco.toWf
  have hsize := filterConfig_nodeSize hwf.settings
  have hcmp : (filterConfig sa).cmp ≠ none := by simp [filterConfig]
  obtain ⟨res, ob, c₁, hnew, -, hres⟩ :=
    skiparrayBuilderNew_spec (K := K) (V := V) cb hcmp hsize true c hroot
  have hfirst := skiparrayBuilderNew_takes hcmp hsize hnew
  have hvalues : (!(filterConfig sa).ignoreValues) = sa.useValues := by simp [filterConfig]
  rw [hvalues] at hfirst
  rcases hres with ⟨rfl, rfl, -⟩ | ⟨rfl, b, -, rfl, -⟩
  · refine Iff.trans ?_ ((hfirst.of_iff (by simp)).stop _ c₁).iff
    constructor
    · rintro ⟨b, c₂, fs, sas, c₃, hnew', -⟩
      rw [hnew] at hnew'
      cases hnew'
    · intro hno
      exact hno.elim
  · have hsas : ∀ b ∈ [sa], ∃ f, LawfulCmp (cb.cmp f) ∧ Reachable cb f b := by
      intro b hb
      rw [List.mem_singleton.mp hb]
      exact ⟨_, hc, hreach⟩
    have hsa : [sa][0]? = some sa := rfl
    obtain ⟨-, -, res, fs, sas', c₂, hinit, -⟩ := skiparrayFoldInit_spec .left
      (filterAppend cb keep) hsas hsa c₁
    have hopen := ((Accepts.single hsa).init_eq c₁).symm.trans hinit
    have hsecond := openFold_takes hsa hwf hco.cursors hopen
    rw [← hwf.contents_eq] at hsecond
    refine Iff.trans ?_ ((hfirst.of_iff (by simp)).then hsecond).iff
    constructor
    · rintro ⟨b', c₃, fs', sas'', c₄, hnew', hinit'⟩
      rw [hnew] at hnew'
      cases hnew'
      rw [hinit] at hinit'
      cases hinit'
      rfl
    · rintro rfl
      exact ⟨b, c₁, fs, sas', c₂, hnew, hinit⟩

/-- A level function that gives no height for the first node is an assertion in
`node_alloc`, unless the first request is refused already. -/
theorem filter_without_root {copy : Option (SkipArray K V)} (hok : sa.toSettings.Ok)
    (hroot : ¬ 1 ≤ rootHeight cb (filterConfig sa) c)
    (h : skiparrayFilter cb sa c keep udata = .ok (copy, sa', udata', c')) :
    c.alloc cb = (none, c') ∧ sa' = sa ∧ copy = none := by
  have hsize := filterConfig_nodeSize hok
  obtain ⟨⟨res, ob, c₁⟩, hnew, h⟩ := bind_eq_ok.mp h
  obtain ⟨⟨r, osa, c₂⟩, hnew', hnew⟩ := bind_eq_ok.mp hnew
  have hcmp : (filterConfig sa).cmp = some sa.cmp := rfl
  simp only [skiparrayNew, hcmp, if_neg hsize] at hnew'
  rcases halloc : c.alloc cb with ⟨_ | block, c₃⟩
  · rw [halloc] at hnew'
    cases hnew'
    cases hnew
    cases h
    exact ⟨rfl, rfl, rfl⟩
  · have hudata := (Ctx.alloc_keeps halloc).2
    simp only [rootHeight] at hroot
    simp only [halloc, hudata] at hnew'
    rw [nodeAlloc, check, if_neg hroot] at hnew'
    cases hnew'

/-- What a failed `skiparray_filter` owes its source: nothing was given to the free
callback, the source is as before, and all memory obtained has been released. -/
structure SparesSource (cb : Callbacks K U) (sa sa' : SkipArray K V) (c c' : Ctx K V U) : Prop where
  freed : c'.freed = c.freed
  only : IterOnly sa sa'
  contents : sa'.contents = sa.contents
  iter : sa'.iter = sa.iter
  iters : ∀ p, sa'.iter? p = sa.iter? p
  memory : Ledger cb c c' 0

omit [Inhabited K] [Inhabited V] in
theorem Settings.freedPairs_eq_nil {s : Settings} {ps : List (K × V)} (hne : ps ≠ []) :
    s.freedPairs ps = [] ↔ s.free = none := by
  unfold Settings.freedPairs
  cases s.free with
  | none => simp
  | some i => simpa using hne

/-- A `skiparray_filter` that fails spares its source if and only if it has no free
callback, or the memory ran out before a pair was read. -/
theorem failed_filter_spares_source_iff (hc : LawfulCmp (cb.cmp f)) (hreach : Reachable cb f sa)
    (h : skiparrayFilter cb sa c keep udata = .ok (none, sa', udata', c')) :
    SparesSource cb sa sa' c c' ↔
      sa.free = none ∨ ∃ i < setupRequests sa, cb.grant (c.requests + i) = false := by
  by_cases hroot : 1 ≤ rootHeight cb (filterConfig sa) c
  · have hsetup : FilterSetUp cb keep sa c ↔ _ := filterSetUp_iff hc hreach hroot
    obtain ⟨copy, sa'', udata'', c'', hfilter, honly, hiter, hiters, hout⟩ :=
      skiparrayFilter_spec hc hreach hroot keep udata
    rw [h] at hfilter
    cases hfilter
    cases hout with
    | early hno _ hfreed hled =>
        constructor
        · intro _
          rw [hsetup] at hno
          push Not at hno
          obtain ⟨i, hi, hgrant⟩ := hno
          exact Or.inr ⟨i, hi, Bool.eq_false_iff.mpr hgrant⟩
        · intro _
          exact ⟨hfreed, honly, honly.contents, hiter, hiters, hled c 0 (.refl cb c)⟩
    | @late _ ps hyes _ hne _ hfreed hled =>
        have hall := hsetup.mp hyes
        constructor
        · intro hspares
          have hnil := hspares.freed
          rw [hfreed] at hnil
          exact Or.inl ((Settings.freedPairs_eq_nil hne).mp (List.append_left_eq_self.mp hnil))
        · rintro (hfree | ⟨i, hi, hgrant⟩)
          · refine ⟨?_, honly, honly.contents, hiter, hiters, hled c 0 (.refl cb c)⟩
            rw [hfreed, (Settings.freedPairs_eq_nil hne).mpr hfree, List.nil_append]
          · rw [hall i hi] at hgrant
            cases hgrant
  · obtain ⟨-, bs, its, hco⟩ := hreach.coherent hc
    obtain ⟨halloc, rfl, -⟩ := filter_without_root hco.toWf.settings hroot h
    have hrefused : cb.grant c.requests = false := by
      have hmet := (Takes.alloc_none halloc).iff
      by_contra hyes
      apply hmet.mpr
      intro i hi
      obtain rfl : i = 0 := Nat.lt_one_iff.mp hi
      exact Bool.eq_true_of_not_eq_false hyes
    constructor
    · intro _
      refine Or.inr ⟨0, ?_, hrefused⟩
      unfold setupRequests
      omega
    · intro _
      exact ⟨(Ctx.alloc_keeps halloc).1, .refl _, rfl, rfl, fun _ => rfl,
        (Ledger.refl cb c).alloc_none halloc⟩

/-- Memory with one gap: `SkipArray.flatSplit` can be made and a copy with a full
node, but no second node for the copy. -/
def Callbacks.gap : Callbacks ℤ Unit := { Callbacks.plain with grant := fun i => i != 15 }

theorem SkipArray.flatSplit_reachable_gap : Reachable Callbacks.gap 0 SkipArray.flatSplit := by
  have hnew : skiparrayNew Callbacks.gap (some Config.flat) ⟨(), 0, [], []⟩ =
      .ok (.ok, some (SkipArray.flat 1 0 [0, 0] [0, 0]), ⟨(), 4, [], []⟩) := rfl
  have hone : (SkipArray.flat 1 0 [0, 0] [0, 0]).call Callbacks.gap ⟨(), 4, [], []⟩ (.set 1 10) =
      .ok (.set .bound, SkipArray.flat 1 1 [0, 1] [0, 10], ⟨(), 4, [], []⟩) := rfl
  have htwo : (SkipArray.flat 1 1 [0, 1] [0, 10]).call Callbacks.gap ⟨(), 4, [], []⟩ (.set 2 20) =
      .ok (.set .bound, SkipArray.flat 0 2 [1, 2] [10, 20], ⟨(), 4, [], []⟩) := rfl
  have hthree : (SkipArray.flat 0 2 [1, 2] [10, 20]).call Callbacks.gap ⟨(), 4, [], []⟩ (.set 3 30) =
      .ok (.set .bound, SkipArray.flatSplit, ⟨(), 7, [], []⟩) := rfl
  exact .call (.call (.call (.new rfl hnew) hone) htwo) hthree

theorem failed_filter_spares_source_gap :
    ∃ sa' c', skiparrayFilter Callbacks.gap SkipArray.flatSplit ⟨(), 7, [], []⟩
        (fun (_ _ : ℤ) (u : Unit) => (true, u)) () = .ok (none, sa', (), c') ∧
      (SparesSource Callbacks.gap SkipArray.flatSplit sa' ⟨(), 7, [], []⟩ c' ↔
        SkipArray.flatSplit.free = none ∨
          ∃ i < setupRequests SkipArray.flatSplit, Callbacks.gap.grant (7 + i) = false) := by
  obtain ⟨sa', c', h⟩ : ∃ sa' c', skiparrayFilter Callbacks.gap SkipArray.flatSplit
      ⟨(), 7, [], []⟩ (fun (_ _ : ℤ) (u : Unit) => (true, u)) () = .ok (none, sa', (), c') :=
    ⟨_, _, rfl⟩
  exact ⟨sa', c', h,
    failed_filter_spares_source_iff LawfulCmp.int_sub SkipArray.flatSplit_reachable_gap h⟩

/-- The pairs that the copy shared with its source are freed with the copy, while
the source still holds them. -/
theorem failed_filter_frees_shared_pairs :
    Reachable Callbacks.gap 0 SkipArray.flatSplit ∧
    ∃ sa' c', skiparrayFilter Callbacks.gap SkipArray.flatSplit ⟨(), 7, [], []⟩
        (fun (_ _ : ℤ) (u : Unit) => (true, u)) () = .ok (none, sa', (), c') ∧
      c'.freed = [(2, 20), (1, 10)] ∧ sa'.contents = [(1, 10), (2, 20), (3, 30)] ∧
      ¬ SparesSource Callbacks.gap SkipArray.flatSplit sa' ⟨(), 7, [], []⟩ c' := by
  refine ⟨SkipArray.flatSplit_reachable_gap, _, _, rfl, rfl, rfl, ?_⟩
  intro hspares
  have hfreed := hspares.freed
  cases hfreed

end Failing

end Skiparray
