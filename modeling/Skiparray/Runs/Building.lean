import Skiparray.Runs.Clients
import Skiparray.Runs.Failures
import Skiparray.Runs.Pops

/-!
# Building and inserting

A builder takes the pairs with ascending keys and rejects the others; what it
finishes cannot be told from a skiparray that was given the same pairs by
`skiparray_set`, in whatever order, as long as no memory is refused and the
narrow counters do not run over. On ascending pairs, the check of the order makes
no difference.
-/

namespace Skiparray

open SkipLinks Fallible

variable {K V U : Type} [Inhabited K] [Inhabited V]

/-- Builder `b` after attempts to append to `b₀`, whatever went on elsewhere between
them. The attempts that were answered OK brought the pairs `taken`. -/
inductive Attempts (cb : Callbacks K U) (b₀ : Builder K V) : List (K × V) → Builder K V → Prop where
  | start : Attempts cb b₀ [] b₀
  | ok {taken : List (K × V)} {b b' : Builder K V} {c c' : Ctx K V U} {key : K} {value : V}
      (h : Attempts cb b₀ taken b)
      (happend : skiparrayBuilderAppend cb b c key value = .ok (.ok, b', c')) :
      Attempts cb b₀ (taken ++ [(key, value)]) b'
  | failed {taken : List (K × V)} {b b' : Builder K V} {c c' : Ctx K V U} {key : K} {value : V}
      {res : AppendRes} (h : Attempts cb b₀ taken b)
      (happend : skiparrayBuilderAppend cb b c key value = .ok (res, b', c')) (hres : res ≠ .ok) :
      Attempts cb b₀ taken b'

/-- A skiparray that `skiparray_set` was called on, from the first one to the last
for new keys. The calls that were not refused memory brought the pairs `kvs`. -/
inductive SetMade (cb : Callbacks K U) (config : Config) : List (K × V) → SkipArray K V → Prop where
  | new {c c' : Ctx K V U} {sa : SkipArray K V}
      (h : skiparrayNew cb (some config) c = .ok (.ok, some sa, c')) : SetMade cb config [] sa
  | bound {kvs : List (K × V)} {sa sa' : SkipArray K V} {c c' : Ctx K V U} {key : K} {value : V}
      (h : SetMade cb config kvs sa)
      (hset : skiparraySet cb sa c key value = .ok (.bound, sa', c')) :
      SetMade cb config (kvs ++ [(key, value)]) sa'
  | refused {kvs : List (K × V)} {sa sa' : SkipArray K V} {c c' : Ctx K V U} {key : K} {value : V}
      (h : SetMade cb config kvs sa)
      (hset : skiparraySet cb sa c key value = .ok (.errorMemory, sa', c')) :
      SetMade cb config kvs sa'

/-- The pairs `kvs` appended one after the other, with the answers. -/
def Builder.appends (cb : Callbacks K U) :
    List (K × V) → Builder K V → Ctx K V U → Except Fault (List AppendRes × Builder K V × Ctx K V U)
  | [], b, c => .ok ([], b, c)
  | p :: kvs, b, c => do
    let (res, b, c) ← skiparrayBuilderAppend cb b c p.1 p.2
    let (results, b, c) ← Builder.appends cb kvs b c
    return (res :: results, b, c)

/-- A builder from its first to its last call, given the pairs `kvs`. -/
def buildFrom (cb : Callbacks K U) (config : Config) (skipAscendingKeyCheck : Bool)
    (kvs : List (K × V)) (c : Ctx K V U) :
    Except Fault (BuilderNewRes × List AppendRes × Option (SkipArray K V) × Ctx K V U) := do
  match ← skiparrayBuilderNew cb (some config) skipAscendingKeyCheck c with
  | (res, none, c) => return (res, [], none, c)
  | (res, some b, c) =>
    let (results, b, c) ← b.appends cb kvs c
    let (sa, c) := skiparrayBuilderFinish b c
    return (res, results, some sa, c)

/-- The pairs `kvs` as a skiparray keeps them. -/
def Settings.storedPairs (s : Settings) (kvs : List (K × V)) : List (K × V) :=
  kvs.map fun p => (p.1, s.stored p.2)

/-- A request for memory that was made from `c` to `c'` was refused. -/
def Ctx.RefusedUntil (cb : Callbacks K U) (c c' : Ctx K V U) : Prop :=
  ∃ i, c.requests ≤ i ∧ i < c'.requests ∧ cb.grant i = false

section Refused

variable {cb : Callbacks K U} {c c' : Ctx K V U}

omit [Inhabited K] [Inhabited V] in
theorem Ctx.alloc_requests {o : Option ℕ} (h : c.alloc cb = (o, c')) :
    c'.requests = c.requests + 1 ∧ (o = none → cb.grant c.requests = false) := by
  rw [Ctx.alloc, Prod.mk.injEq] at h
  obtain ⟨rfl, rfl⟩ := h
  refine ⟨rfl, ?_⟩
  intro hnone
  by_contra hgrant
  rw [if_pos (by simpa using hgrant)] at hnone
  cases hnone

/-- A node is missing because one of its requests was refused, the last one made. -/
theorem nodeAlloc_refused {height nodeSize : ℕ} {useValues : Bool}
    (h : nodeAlloc cb height nodeSize useValues c = .ok (none, c')) : c.RefusedUntil cb c' := by
  obtain ⟨-, -, h⟩ := bind_eq_ok.mp h
  obtain ⟨-, -, h⟩ := bind_eq_ok.mp h
  rcases h₁ : c.alloc cb with ⟨_ | block, c₁⟩
  · obtain ⟨hreq, hno⟩ := Ctx.alloc_requests h₁
    rw [h₁] at h
    cases h
    exact ⟨c.requests, le_rfl, by omega, hno rfl⟩
  have hreq₁ := (Ctx.alloc_requests h₁).1
  rw [h₁] at h
  rcases h₂ : c₁.alloc cb with ⟨_ | keysBlock, c₂⟩
  · obtain ⟨hreq, hno⟩ := Ctx.alloc_requests h₂
    simp only [h₂] at h
    cases h
    exact ⟨c₁.requests, by omega, by simp only [Ctx.release]; omega, hno rfl⟩
  have hreq₂ := (Ctx.alloc_requests h₂).1
  simp only [h₂] at h
  cases hu : useValues with
  | false =>
      rw [hu] at h
      cases h
  | true =>
      rw [hu] at h
      rcases h₃ : c₂.alloc cb with ⟨_ | valuesBlock, c₃⟩
      · obtain ⟨hreq, hno⟩ := Ctx.alloc_requests h₃
        simp only [h₃, if_true] at h
        cases h
        exact ⟨c₂.requests, by omega, by simp only [Ctx.release]; omega, hno rfl⟩
      · simp only [h₃, if_true] at h
        cases h

theorem appendNode_refused {b : Builder K V} {sa : SkipArray K V}
    (h : appendNode cb b c = .ok (none, sa, c')) : c.RefusedUntil cb c' := by
  obtain ⟨last, -, h⟩ := bind_eq_ok.mp h
  obtain ⟨⟨nd, c₁⟩, halloc, h⟩ := bind_eq_ok.mp h
  cases nd with
  | none =>
      cases h
      obtain ⟨i, hle, hlt, hno⟩ := nodeAlloc_refused halloc
      exact ⟨i, hle, hlt, hno⟩
  | some nd =>
      obtain ⟨sa₁, -, h⟩ := bind_eq_ok.mp h
      obtain ⟨⟨sa₂, trail⟩, -, h⟩ := bind_eq_ok.mp h
      obtain ⟨sa₃, -, h⟩ := bind_eq_ok.mp h
      obtain ⟨first, -, h⟩ := bind_eq_ok.mp h
      obtain ⟨-, -, h⟩ := bind_eq_ok.mp h
      cases h

/-- ERROR_MEMORY comes from a request of this call. -/
theorem skiparrayBuilderAppend_refused {b b' : Builder K V} {key : K} {value : V}
    (h : skiparrayBuilderAppend cb b c key value = .ok (.errorMemory, b', c')) :
    c.RefusedUntil cb c' := by
  obtain ⟨last, -, h⟩ := bind_eq_ok.mp h
  obtain ⟨-, -, h⟩ := bind_eq_ok.mp h
  by_cases hmis : b.hasPrevKey = true ∧ cb.cmp b.sa.cmp key b.prevKey ≤ 0
  · rw [if_pos hmis] at h
    cases h
  rw [if_neg hmis] at h
  obtain ⟨⟨grown, sa, c₁⟩, hgrow, h⟩ := bind_eq_ok.mp h
  cases grown with
  | none =>
      cases h
      by_cases hfull : last.count = b.sa.nodeSize
      · rw [if_pos hfull] at hgrow
        exact appendNode_refused hgrow
      · rw [if_neg hfull] at hgrow
        cases hgrow
  | some b₁ =>
      obtain ⟨last₁, -, h⟩ := bind_eq_ok.mp h
      obtain ⟨keys, -, h⟩ := bind_eq_ok.mp h
      obtain ⟨values, -, h⟩ := bind_eq_ok.mp h
      obtain ⟨sa₁, -, h⟩ := bind_eq_ok.mp h
      dsimp only at h
      split_ifs at h
      · cases h
      · cases h

end Refused

section Made

variable {cb : Callbacks K U} {f : ℕ} {config : Config} {kvs taken : List (K × V)}
  {sa : SkipArray K V} {b₀ b : Builder K V} {bs : List (Block K V)}

theorem call_set_ok {c c' : Ctx K V U} {key : K} {value : V} {res : SetRes} {sa' : SkipArray K V}
    (hset : skiparraySet cb sa c key value = .ok (res, sa', c')) :
    sa.call cb c (.set key value) = .ok (.set res, sa', c') :=
  bind_eq_ok.mpr ⟨_, hset, rfl⟩

/-- A `skiparray_set` that came back, on a skiparray without iterators. -/
theorem set_ok (hc : LawfulCmp (cb.cmp f)) (hf : sa.cmp = f) (hiters : sa.iters = [])
    {bs : List (Block K V)} (hco : sa.Coherent (cb.cmp f) bs []) {c c' : Ctx K V U} {key : K}
    {value : V} {res : SetRes} {sa' : SkipArray K V}
    (hset : skiparraySet cb sa c key value = .ok (res, sa', c')) :
    sa'.toSettings = sa.toSettings ∧ sa'.iters = [] ∧
      ∃ bs', sa'.Coherent (cb.cmp f) bs' [] ∧
        (res = setRes (Assoc.find? (cb.cmp f) key (bindings bs)) ∧
            bindings bs' = Assoc.put (cb.cmp f) key (sa.stored value) true (bindings bs) ∨
          res = .errorMemory ∧ bindings bs' = bindings bs) := by
  subst hf
  obtain ⟨l, hl, hres⟩ := call_ok hc hco.toWf (call_set_ok hset)
  obtain ⟨bs', hco', rfl⟩ := hco.of_leaves hl
  refine ⟨hl.keeps.settings, hl.keeps.iters.trans hiters, bs', hco', ?_⟩
  rcases hres with hon | ⟨-, -, hno, hsame⟩
  · rw [hco.cursors.iter_eq_none.mpr rfl] at hon
    obtain ⟨hanswer, hput⟩ := Prod.mk.inj hon
    exact Or.inl ⟨Answer.set.inj hanswer, hput⟩
  · cases hno
    exact Or.inr ⟨rfl, hsame⟩

/-- What was made by `skiparray_set` holds the pairs it was given. -/
theorem SetMade.holds (hc : LawfulCmp (cb.cmp f)) (hf : config.cmp = some f)
    (h : SetMade cb config kvs sa) :
    Reachable cb f sa ∧ sa.iters = [] ∧ (∃ block, sa.toSettings = config.settings f block) ∧
      ∃ bs, sa.Coherent (cb.cmp f) bs [] ∧ (bindings bs).Perm (sa.storedPairs kvs) := by
  induction h with
  | new h =>
      obtain ⟨cfg, bs, heq, hfresh, -⟩ := skiparrayNew_ok h
      cases heq
      obtain ⟨cmp, block, hcmp, hset⟩ := hfresh.settings
      obtain rfl : f = cmp := Option.some.inj (hf.symm.trans hcmp)
      refine ⟨.new hf h, hfresh.iters, ⟨block, hset⟩, bs,
        (hfresh.wf _).coherent hfresh.iter hfresh.iters, ?_⟩
      rw [hfresh.bindings_eq]
      exact List.Perm.nil
  | @bound kvs sa sa' c c' key value _ hset ih =>
      obtain ⟨hreach, hiters, ⟨block, hs⟩, bs, hco, hperm⟩ := ih
      obtain ⟨hkeep, hiters', bs', hco', hres⟩ :=
        set_ok hc (congrArg Settings.cmp hs) hiters hco hset
      refine ⟨.call hreach (call_set_ok hset), hiters',
        ⟨block, hkeep.trans hs⟩, bs', hco', ?_⟩
      obtain ⟨hbound, hput⟩ := hres.resolve_right (by simp)
      have hnone : Assoc.find? (cb.cmp f) key (bindings bs) = none := by
        cases hfind : Assoc.find? (cb.cmp f) key (bindings bs) with
        | none => rfl
        | some p =>
            rw [hfind] at hbound
            cases hbound
      rw [hput, hkeep, Settings.storedPairs, List.map_append]
      exact (Assoc.put_perm hc hco.toWf.ascending hnone _ _).trans (hperm.append_right _)
  | @refused kvs sa sa' c c' key value _ hset ih =>
      obtain ⟨hreach, hiters, ⟨block, hs⟩, bs, hco, hperm⟩ := ih
      obtain ⟨hkeep, hiters', bs', hco', hres⟩ :=
        set_ok hc (congrArg Settings.cmp hs) hiters hco hset
      refine ⟨.call hreach (call_set_ok hset), hiters',
        ⟨block, hkeep.trans hs⟩, bs', hco', ?_⟩
      rcases hres with ⟨hbad, -⟩ | ⟨-, hsame⟩
      · cases hfind : Assoc.find? (cb.cmp f) key (bindings bs) with
        | none =>
            rw [hfind] at hbad
            cases hbad
        | some p =>
            rw [hfind] at hbad
            cases hbad
      · rw [hsame, hkeep]
        exact hperm

/-! ## Attempts -/

/-- A builder that checks the order holds the pairs it has taken. -/
structure Collects (cb : Callbacks K U) (f : ℕ) (config : Config) (taken : List (K × V))
    (b : Builder K V) (bs : List (Block K V)) : Prop where
  built : Built cb f b
  checks : b.checkAscending = true
  settings : ∃ block, b.sa.toSettings = config.settings f block
  building : Building (cb.cmp f) b bs
  holds : bindings bs = b.sa.storedPairs taken

/-- A key is above all that were taken if it is above the last of them. -/
theorem Collects.above_iff (h : Collects cb f config taken b bs) (hc : LawfulCmp (cb.cmp f)) (key : K) :
    (∀ p ∈ bindings bs, cb.cmp f p.1 key < 0) ↔
      ¬ ∃ p, taken.getLast? = some p ∧ cb.cmp f key p.1 ≤ 0 := by
  have hlast : ∀ q, (bindings bs).getLast? = some q ↔
      ∃ p, taken.getLast? = some p ∧ (p.1, b.sa.stored p.2) = q := by
    intro q
    rw [h.holds, Settings.storedPairs, List.getLast?_map, Option.map_eq_some_iff]
  constructor
  · rintro habove ⟨p, hp, hle⟩
    have hlt := habove _ (List.mem_of_getLast? ((hlast _).mpr ⟨p, hp, rfl⟩))
    have hswap := hc.swap p.1 key
    dsimp only at hlt
    omega
  · intro hno
    apply above_all hc h.building.wf.ascending
    intro q hq
    obtain ⟨p, hp, rfl⟩ := (hlast q).mp hq
    by_contra hlt
    apply hno
    have hswap := hc.swap p.1 key
    dsimp only at hlt
    exact ⟨p, hp, by omega⟩

/-- One attempt. -/
theorem Collects.append (h : Collects cb f config taken b bs) (hc : LawfulCmp (cb.cmp f)) (c : Ctx K V U)
    (key : K) (value : V) :
    ∃ res b' c', skiparrayBuilderAppend cb b c key value = .ok (res, b', c') ∧
      (res = .errorMisuse ↔ ∃ p, taken.getLast? = some p ∧ cb.cmp f key p.1 ≤ 0) ∧
      (res = .errorMisuse → b' = b ∧ c' = c) ∧
      ∃ bs', Collects cb f config (if res = .ok then taken ++ [(key, value)] else taken) b' bs' := by
  have hcmp : b.sa.cmp = f := (h.built.building hc).1
  have hnoskip : ∀ {P : Prop}, b.checkAscending = false → P := by
    intro P hno
    rw [h.checks] at hno
    cases hno
  obtain ⟨res, b', c', heq, -, hkeep, hout⟩ := skiparrayBuilderAppend_spec cb (hcmp.symm ▸ hc)
    (hcmp.symm ▸ h.building) c key value fun hno => hnoskip hno
  have hbuilt : Built cb f b' := .append h.built (fun hno => hnoskip hno) heq
  obtain ⟨block, hs⟩ := h.settings
  have habove := h.above_iff hc key
  refine ⟨res, b', c', heq, ?_⟩
  cases hout with
  | misuse hge =>
      have hle : ∃ p, taken.getLast? = some p ∧ cb.cmp f key p.1 ≤ 0 := by
        by_contra hno
        obtain ⟨p, hp, hnot⟩ := hge
        exact hnot (hcmp ▸ habove.mpr hno p hp)
      exact ⟨iff_of_true rfl hle, fun _ => ⟨rfl, rfl⟩, bs, h⟩
  | memory _ hne hlt _ =>
      refine ⟨iff_of_false (by simp) (habove.mp (hcmp ▸ hlt)), fun hm => (by cases hm), bs, hbuilt,
        h.checks, ⟨block, hs⟩, h.building.withPrngState _, h.holds⟩
  | ok hlt hbs hbs' hb' _ _ =>
      refine ⟨iff_of_false (by simp) (habove.mp (hcmp ▸ hlt)), fun hm => (by cases hm), _, hbuilt, hkeep.checkAscending.trans h.checks,
        ⟨block, hkeep.settings.trans hs⟩, hcmp ▸ hb', ?_⟩
      rw [hbs', bindings_appendBlocks, ← hbs, h.holds, hkeep.settings, if_pos rfl,
        Settings.storedPairs, Settings.storedPairs, List.map_append]
      rfl

/-- After any attempts. -/
theorem Attempts.collects (hc : LawfulCmp (cb.cmp f)) (hf : config.cmp = some f) {c c₁ : Ctx K V U}
    (hnew : skiparrayBuilderNew cb (some config) false c = .ok (.ok, some b₀, c₁))
    (h : Attempts cb b₀ taken b) : ∃ bs, Collects cb f config taken b bs := by
  induction h with
  | start =>
      obtain ⟨cfg, bs, heq, hbuild, hnil, hcheck, cmp, block, hcmp, hset⟩ := skiparrayBuilderNew_ok hnew
      cases heq
      obtain rfl : f = cmp := Option.some.inj (hf.symm.trans hcmp)
      exact ⟨bs, .new hf hnew, hcheck, ⟨block, hset⟩, hbuild _, hnil⟩
  | @ok taken b b' c c' key value _ happend ih =>
      obtain ⟨bs, ht⟩ := ih
      obtain ⟨res, b'', c'', heq, -, -, bs', ht'⟩ := ht.append hc c key value
      rw [happend] at heq
      cases heq
      exact ⟨bs', ht'⟩
  | @failed taken b b' c c' key value res _ happend hres ih =>
      obtain ⟨bs, ht⟩ := ih
      obtain ⟨res', b'', c'', heq, -, -, bs', ht'⟩ := ht.append hc c key value
      rw [happend] at heq
      cases heq
      rw [if_neg hres] at ht'
      exact ⟨bs', ht'⟩

/-- What was built is a twin of what was made by `skiparray_set` of the same pairs. -/
theorem Collects.twin (h : Collects cb f config taken b bs) (hc : LawfulCmp (cb.cmp f))
    (hf : config.cmp = some f) {s : SkipArray K V} (hs : SetMade cb config kvs s)
    (hperm : kvs.Perm taken) (c : Ctx K V U) : Twin cb b.sa s := by
  obtain ⟨hreach, hiters, ⟨block', hset'⟩, bs', hco', hperm'⟩ := hs.holds hc hf
  obtain ⟨block, hset⟩ := h.settings
  have hcmp : b.sa.cmp = f := congrArg Settings.cmp hset
  have hstored : s.storedPairs taken = b.sa.storedPairs taken := by
    rw [hset, hset']
    rfl
  have hsame : bindings bs' = bindings bs := by
    apply hco'.toWf.ascending.eq_of_perm hc h.building.wf.ascending
    rw [h.holds, ← hstored]
    exact hperm'.trans (hperm.map _)
  have htwinned : Twinned (cb.cmp f) b.sa s bs bs' [] := by
    refine ⟨?_, h.building.wf.coherent h.building.iter h.building.iters, hco', hsame, ?_, by simp⟩
    · rw [sameCallbacks_iff, hset, hset']
      exact ⟨rfl, rfl, rfl, rfl⟩
    · rw [hiters, h.building.iters]
  exact htwinned.twin hc hcmp (.finish (c := c) h.built rfl) hreach

end Made

/-! ## Without the check -/

section Unchecked

variable {cb : Callbacks K U} {b b' : Builder K V} {c c' : Ctx K V U}

/-- The builder that was told to skip the check. -/
def Builder.unchecked (b : Builder K V) : Builder K V :=
  { b with checkAscending := false, hasPrevKey := false, prevKey := default }

theorem appendNode_together (b : Builder K V) (c : Ctx K V U) :
    Together (fun r r' => r'.1 = r.1.map Builder.unchecked ∧ r'.2 = r.2 ∧
        ∀ b₁, r.1 = some b₁ → b₁.checkAscending = b.checkAscending)
      (appendNode cb b c) (appendNode cb b.unchecked c) := by
  rw [appendNode, appendNode]
  refine .same _ fun last => .same _ fun r => ?_
  obtain ⟨nd, c₁⟩ := r
  cases nd with
  | none => exact .ok ⟨rfl, rfl, by simp⟩
  | some nd =>
      refine .same _ fun sa₁ => .same _ fun r => .same _ fun sa₂ => .same _ fun first => ?_
      refine .same _ fun _ => .ok ⟨rfl, rfl, ?_⟩
      rintro _ ⟨⟩
      rfl

/-- A pair that passes the check is appended as if there were none. -/
theorem skiparrayBuilderAppend_together (c : Ctx K V U) (key : K) (value : V)
    (hcheck : b.checkAscending = true)
    (hpass : b.hasPrevKey = true → ¬ cb.cmp b.sa.cmp key b.prevKey ≤ 0) :
    Together (fun r r' => r'.1 = r.1 ∧ r'.2.1 = r.2.1.unchecked ∧ r'.2.2 = r.2.2)
      (skiparrayBuilderAppend cb b c key value)
      (skiparrayBuilderAppend cb b.unchecked c key value) := by
  rw [skiparrayBuilderAppend, skiparrayBuilderAppend]
  refine .same _ fun last => .same _ fun _ => ?_
  have hno : ¬ (b.unchecked.hasPrevKey = true ∧
      cb.cmp b.unchecked.sa.cmp key b.unchecked.prevKey ≤ 0) := by
    rintro ⟨h, -⟩
    cases h
  rw [if_neg fun h => hpass h.1 h.2, if_neg hno]
  have hgrown : Together (fun r r' => r'.1 = r.1.map Builder.unchecked ∧ r'.2 = r.2 ∧
        ∀ b₁, r.1 = some b₁ → b₁.checkAscending = b.checkAscending)
      (if last.count = b.sa.nodeSize then appendNode cb b c else pure (some b, b.sa, c))
      (if last.count = b.unchecked.sa.nodeSize then appendNode cb b.unchecked c
        else pure (some b.unchecked, b.unchecked.sa, c)) := by
    by_cases hfull : last.count = b.sa.nodeSize
    · rw [if_pos hfull, if_pos (show last.count = b.unchecked.sa.nodeSize from hfull)]
      exact appendNode_together b c
    · rw [if_neg hfull, if_neg (show ¬ last.count = b.unchecked.sa.nodeSize from hfull)]
      refine .ok ⟨rfl, rfl, ?_⟩
      rintro _ ⟨⟩
      rfl
  refine hgrown.bind ?_
  rintro ⟨grown, sa, c₁⟩ ⟨_, _⟩ ⟨rfl, rfl, hkeep⟩
  cases grown with
  | none => exact .ok ⟨rfl, rfl, rfl⟩
  | some b₁ =>
      have hcheck₁ : b₁.checkAscending = true := (hkeep b₁ rfl).trans hcheck
      refine .same _ fun last₁ => .same _ fun keys => .same _ fun values => .same _ fun sa₁ => ?_
      rw [if_pos (show b₁.checkAscending = true from hcheck₁)]
      exact .ok ⟨rfl, rfl, rfl⟩

/-- Nor does the check of the order show in a run of ascending pairs. -/
theorem appends_together {f : ℕ} {config : Config} (hc : LawfulCmp (cb.cmp f)) :
    ∀ (kvs : List (K × V)) {taken : List (K × V)} {b : Builder K V} {bs : List (Block K V)}
      (c : Ctx K V U), Collects cb f config taken b bs → Ascending (cb.cmp f) kvs →
      (∀ p ∈ taken, ∀ q ∈ kvs, cb.cmp f p.1 q.1 < 0) →
      Together (fun r r' => r'.1 = r.1 ∧ r'.2.1 = r.2.1.unchecked ∧ r'.2.2 = r.2.2)
        (b.appends cb kvs c) (b.unchecked.appends cb kvs c)
  | [], _, _, _, _, _, _, _ => .ok ⟨rfl, rfl, rfl⟩
  | q :: kvs, taken, b, bs, c, h, hasc, habove => by
      obtain ⟨hq, hasc⟩ := List.pairwise_cons.mp hasc
      have hpass : b.hasPrevKey = true → ¬ cb.cmp b.sa.cmp q.1 b.prevKey ≤ 0 := by
        intro hprev
        obtain ⟨p, hp, hkey⟩ := h.building.prev hprev
        have hno : ∀ p ∈ bindings bs, cb.cmp f p.1 q.1 < 0 := by
          rw [h.above_iff hc]
          rintro ⟨r, hr, hle⟩
          have hlt := habove r (List.mem_of_getLast? hr) q (by simp)
          have hswap := hc.swap r.1 q.1
          omega
        have hlt := hno p (List.mem_of_getLast? hp)
        have hswap := hc.swap p.1 q.1
        rw [(h.built.building hc).1, hkey]
        omega
      rw [Builder.appends, Builder.appends]
      refine (skiparrayBuilderAppend_together c q.1 q.2 h.checks hpass).bind_of ?_
      rintro ⟨res, b₁, c₁⟩ ⟨res', b₁', c₁'⟩ heq - hr
      obtain ⟨rfl, rfl, rfl⟩ : res' = res ∧ b₁' = b₁.unchecked ∧ c₁' = c₁ := hr
      obtain ⟨_, _, _, heq', -, -, bs₁, h₁⟩ := h.append hc c q.1 q.2
      rw [heq] at heq'
      cases heq'
      refine (appends_together hc kvs c₁' h₁ hasc ?_).bind ?_
      · intro p hp r hr
        split_ifs at hp with hok
        · rcases List.mem_append.mp hp with hp | hp
          · exact habove p hp r (List.mem_cons_of_mem q hr)
          · rw [List.mem_singleton.mp hp]
            exact hq r hr
        · exact habove p hp r (List.mem_cons_of_mem q hr)
      · rintro ⟨results, b₂, c₂⟩ ⟨results', b₂', c₂'⟩ hr
        obtain ⟨rfl, rfl, rfl⟩ : results' = results ∧ b₂' = b₂.unchecked ∧ c₂' = c₂ := hr
        exact .ok ⟨rfl, rfl, rfl⟩

theorem skiparrayBuilderNew_together (config : Config) (c : Ctx K V U) :
    Together (fun r r' => r'.1 = r.1 ∧ r'.2.1 = r.2.1.map Builder.unchecked ∧ r'.2.2 = r.2.2 ∧
        (r.2.1 ≠ none → r.1 = .ok))
      (skiparrayBuilderNew cb (some config) false c)
      (skiparrayBuilderNew (V := V) cb (some config) true c) := by
  rw [skiparrayBuilderNew, skiparrayBuilderNew]
  refine .same _ fun r => ?_
  obtain ⟨res, sa, c₁⟩ := r
  cases res with
  | errorNull => exact .ok ⟨rfl, rfl, rfl, by simp⟩
  | errorConfig => exact .ok ⟨rfl, rfl, rfl, by simp⟩
  | errorMemory => exact .ok ⟨rfl, rfl, rfl, by simp⟩
  | ok =>
      cases sa with
      | none => exact .error _
      | some sa =>
          dsimp only
          cases c₁.alloc cb with
          | mk block c₂ =>
              cases block with
              | none => exact .same _ fun c₃ => .ok ⟨rfl, rfl, rfl, by simp⟩
              | some block =>
                  refine .same _ fun last => .same _ fun nd => .same _ fun sa₁ => ?_
                  exact .same _ fun trail => .ok ⟨rfl, rfl, rfl, fun _ => rfl⟩

theorem buildFrom_together {f : ℕ} {config : Config} (hc : LawfulCmp (cb.cmp f))
    (hf : config.cmp = some f) {kvs : List (K × V)} (hasc : Ascending (cb.cmp f) kvs)
    (c : Ctx K V U) : Together Eq (buildFrom cb config false kvs c) (buildFrom cb config true kvs c) := by
  rw [buildFrom, buildFrom]
  refine (skiparrayBuilderNew_together config c).bind_of ?_
  rintro ⟨res, ob, c₁⟩ ⟨res', ob', c₁'⟩ hnew - hr
  obtain ⟨rfl, rfl, rfl, hres⟩ :
    res' = res ∧ ob' = ob.map Builder.unchecked ∧ c₁' = c₁ ∧ (ob ≠ none → res = .ok) := hr
  cases ob with
  | none => exact .ok rfl
  | some b =>
      obtain rfl := hres (by simp)
      obtain ⟨bs, h⟩ := Attempts.start.collects hc hf hnew
      refine (appends_together hc kvs c₁' h hasc (by simp)).bind ?_
      rintro ⟨results, b₁, c₂⟩ ⟨results', b₁', c₂'⟩ hr
      obtain ⟨rfl, rfl, rfl⟩ : results' = results ∧ b₁' = b₁.unchecked ∧ c₂' = c₂ := hr
      exact .ok rfl

end Unchecked

/-! ## A small instance -/

/-- The nodes [1, 2] and [3] that a builder makes. -/
def SkipArray.packed : SkipArray ℤ ℤ :=
  { SkipArray.plain with
    heap := [some ⟨1, 0, 2, [1, 2], some [10, 20], none, [some 1], 1, 2, 3⟩,
      some ⟨1, 0, 1, [3, 0], some [30, 0], some 0, [none], 5, 6, 7⟩] }

/-- The nodes [1] and [2, 3] that `skiparray_set` makes. -/
def SkipArray.spread : SkipArray ℤ ℤ :=
  { SkipArray.plain with
    heap := [some ⟨1, 0, 1, [1, 2], some [10, 20], none, [some 1], 1, 2, 3⟩,
      some ⟨1, 0, 2, [2, 3], some [20, 30], some 0, [none], 4, 5, 6⟩] }

/-- The builder of `SkipArray.packed`. -/
def Builder.packed : Builder ℤ ℤ :=
  ⟨SkipArray.packed, some 1, true, true, 3, [some 1], 4⟩

theorem Builder.plain_new :
    skiparrayBuilderNew Callbacks.plain (some Config.plain) false ⟨(), 0, [], []⟩ =
      .ok (.ok, some (Builder.plain 0 [0, 0] [0, 0] false 0), ⟨(), 5, [], []⟩) := rfl

/-- Key 2 is attempted once more. -/
theorem Builder.packed_attempts :
    Attempts Callbacks.plain (Builder.plain 0 [0, 0] [0, 0] false 0)
      [(1, 10), (2, 20), (3, 30)] Builder.packed := by
  have hone : skiparrayBuilderAppend Callbacks.plain (Builder.plain 0 [0, 0] [0, 0] false 0)
      ⟨(), 5, [], []⟩ 1 10 =
        .ok (.ok, Builder.plain 1 [1, 0] [10, 0] true 1, ⟨(), 5, [], []⟩) := rfl
  have htwo : skiparrayBuilderAppend Callbacks.plain (Builder.plain 1 [1, 0] [10, 0] true 1)
      ⟨(), 5, [], []⟩ 2 20 =
        .ok (.ok, Builder.plain 2 [1, 2] [10, 20] true 2, ⟨(), 5, [], []⟩) := rfl
  have hagain : skiparrayBuilderAppend Callbacks.plain (Builder.plain 2 [1, 2] [10, 20] true 2)
      ⟨(), 5, [], []⟩ 2 25 =
        .ok (.errorMisuse, Builder.plain 2 [1, 2] [10, 20] true 2, ⟨(), 5, [], []⟩) := rfl
  have hthree : skiparrayBuilderAppend Callbacks.plain (Builder.plain 2 [1, 2] [10, 20] true 2)
      ⟨(), 5, [], []⟩ 3 30 = .ok (.ok, Builder.packed, ⟨(), 8, [], []⟩) := rfl
  exact .ok (.failed (.ok (.ok .start hone) htwo) hagain (by decide)) hthree

theorem SkipArray.spread_setMade :
    SetMade Callbacks.plain Config.plain [(1, 10), (2, 20), (3, 30)] SkipArray.spread := by
  have hone : skiparraySet Callbacks.plain SkipArray.plain ⟨(), 4, [], []⟩ 1 10 =
    .ok (.bound, SkipArray.plainOne, ⟨(), 4, [], []⟩) := rfl
  have htwo : skiparraySet Callbacks.plain SkipArray.plainOne ⟨(), 4, [], []⟩ 2 20 =
    .ok (.bound, SkipArray.plainFull, ⟨(), 4, [], []⟩) := rfl
  have hthree : skiparraySet Callbacks.plain SkipArray.plainFull ⟨(), 4, [], []⟩ 3 30 =
    .ok (.bound, SkipArray.spread, ⟨(), 7, [], []⟩) := rfl
  exact .bound (.bound (.bound (.new SkipArray.plain_new) hone) htwo) hthree

/-! ## Building equals inserting -/

/-- Which attempts a builder takes, what it finishes, and that what it finishes is
as good as what `skiparray_set` makes of the same pairs. -/
theorem building_is_inserting (cb : Callbacks K U) (config : Config) (f : ℕ)
    (hf : config.cmp = some f) (hc : LawfulCmp (cb.cmp f)) :
    (∀ (b₀ b : Builder K V) (c c₁ : Ctx K V U) (taken : List (K × V)),
      skiparrayBuilderNew cb (some config) false c = .ok (.ok, some b₀, c₁) →
      Attempts cb b₀ taken b →
      (∀ (c : Ctx K V U) (key : K) (value : V), ∃ res b' c',
        skiparrayBuilderAppend cb b c key value = .ok (res, b', c') ∧
          (res = .errorMisuse ↔ ∃ p, taken.getLast? = some p ∧ cb.cmp f key p.1 ≤ 0) ∧
          (res = .errorMisuse → b' = b ∧ c' = c) ∧ (res = .errorMemory → c.RefusedUntil cb c')) ∧
      ∀ (c c' : Ctx K V U) (sa : SkipArray K V), skiparrayBuilderFinish b c = (sa, c') →
        (∃ ns, SkipList (cb.cmp f) sa ns ∧ Occupied sa.nodeSize ns) ∧
        sa.contents = sa.storedPairs taken ∧ Ascending (cb.cmp f) sa.contents ∧
        ∀ (kvs : List (K × V)) (s : SkipArray K V), kvs.Perm taken → SetMade cb config kvs s →
          Indistinguishable cb sa s) ∧
    ∀ (kvs : List (K × V)) (c : Ctx K V U), Ascending (cb.cmp f) kvs →
      buildFrom cb config true kvs c = buildFrom cb config false kvs c := by
  refine ⟨?_, fun kvs c hasc => ((buildFrom_together hc hf hasc c).eq).symm⟩
  intro b₀ b c₀ c₁ taken hnew h
  obtain ⟨bs, h⟩ := h.collects hc hf hnew
  refine ⟨?_, ?_⟩
  · intro c key value
    obtain ⟨res, b', c', heq, hmisuse, hsame, -⟩ := h.append hc c key value
    refine ⟨res, b', c', heq, hmisuse, hsame, ?_⟩
    rintro rfl
    exact skiparrayBuilderAppend_refused heq
  · rintro c c' sa ⟨⟩
    have hwf := h.building.wf
    refine ⟨⟨_, hwf.toSound.skipList, hwf.occupied⟩, ?_, ?_, ?_⟩
    · rw [hwf.contents_eq, h.holds]
    · rw [hwf.contents_eq]
      exact hwf.ascending
    · intro kvs s hperm hs
      exact (h.twin hc hf hs hperm c).indistinguishable

theorem building_is_inserting_packed :
    SkipArray.packed.contents = [(1, 10), (2, 20), (3, 30)] ∧
      Indistinguishable Callbacks.plain SkipArray.packed SkipArray.spread ∧
      buildFrom Callbacks.plain Config.plain true [(1, (10 : ℤ)), (2, 20)] ⟨(), 0, [], []⟩ =
        buildFrom Callbacks.plain Config.plain false [(1, 10), (2, 20)] ⟨(), 0, [], []⟩ := by
  obtain ⟨hbuilt, hskip⟩ := building_is_inserting (V := ℤ) Callbacks.plain Config.plain 0 rfl
    LawfulCmp.int_sub
  have hfinish : skiparrayBuilderFinish Builder.packed ⟨(), 8, [], []⟩ =
    (SkipArray.packed, ⟨(), 8, [4], []⟩) := rfl
  obtain ⟨-, hholds, -, hsame⟩ :=
    (hbuilt _ _ _ _ _ Builder.plain_new Builder.packed_attempts).2 _ _ _ hfinish
  refine ⟨hholds, hsame _ _ (List.Perm.refl _) SkipArray.spread_setMade, ?_⟩
  apply hskip
  simp [Ascending, Callbacks.plain]

/-! ## What sets them apart -/

section Apart

variable {W : Type}

theorem World.run_append (cb : Callbacks K U) (reqs reqs' : List (Request K V W)) :
    ∀ w : World K V U W, World.run cb (reqs ++ reqs') w = (do
      let (replies, w) ← World.run cb reqs w
      let (replies', w) ← World.run cb reqs' w
      return (replies ++ replies', w)) := by
  induction reqs with
  | nil =>
      intro w
      exact (bind_pure _).symm
  | cons req reqs ih =>
      intro w
      simp only [List.cons_append, World.run, ih, bind_assoc, pure_bind]

/-- `sa` with the only iterator `it`, at index `i`. -/
def SkipArray.withIndex (sa : SkipArray K V) (it : Iter) (i : ℕ) : SkipArray K V :=
  { sa with iter := some 0, iters := [some { it with index := i }] }

/-- In the last node, `skiparray_iter_next` counts on past the last pair. -/
theorem nexts_withIndex (cb : Callbacks K U) {sa : SkipArray K V} {it : Iter} {nd : Node K V}
    (hn : sa.load it.n = .ok nd) (hlast : sa.fwdAt it.n 0 = .ok none) (acc : W) (c : Ctx K V U) :
    ∀ (n i : ℕ), i < 65536 → ∃ replies, World.run cb (List.replicate n (.move 0 0 .next))
      ⟨[sa.withIndex it i], [], acc, c⟩ =
        .ok (replies, ⟨[sa.withIndex it ((i + n) % 65536)], [], acc, c⟩)
  | 0, i, hi => ⟨[], by rw [Nat.add_zero, Nat.mod_eq_of_lt hi]; rfl⟩
  | n + 1, i, hi => by
      have hnext : ∃ res, skiparrayIterNext (sa.withIndex it i) 0 =
          .ok (res, sa.withIndex it ((i + 1) % 65536)) := by
        have hu : u16 ((i : ℤ) + 1) = (i + 1) % 65536 := by
          unfold u16
          omega
        have hload : (sa.withIndex it i).loadIter (some 0) = .ok { it with index := i } := rfl
        have hn' : (sa.withIndex it i).load it.n = .ok nd := hn
        have hlast' : (sa.withIndex it i).fwdAt it.n 0 = .ok none := hlast
        rw [skiparrayIterNext, hload]
        simp only [ok_bind, hn', hlast', hu, if_true]
        split_ifs
        · exact ⟨_, rfl⟩
        · exact ⟨_, rfl⟩
      obtain ⟨res, hres⟩ := hnext
      have hstep : World.step cb ⟨[sa.withIndex it i], [], acc, c⟩ (.move 0 0 .next) =
          .ok (.move (.step res), ⟨[sa.withIndex it ((i + 1) % 65536)], [], acc, c⟩) :=
        bind_eq_ok.mpr ⟨_, rfl, bind_eq_ok.mpr ⟨_, bind_eq_ok.mpr ⟨_, hres, rfl⟩, rfl⟩⟩
      obtain ⟨replies, hrun⟩ := nexts_withIndex cb hn hlast acc c n ((i + 1) % 65536)
        (Nat.mod_lt _ (by decide))
      rw [Nat.mod_add_mod, Nat.add_assoc, Nat.add_comm 1 n] at hrun
      refine ⟨.move (.step res) :: replies, ?_⟩
      rw [List.replicate_succ, World.run]
      exact bind_eq_ok.mpr ⟨_, hstep, bind_eq_ok.mpr ⟨_, hrun, rfl⟩⟩

/-- `n` steps ahead from the last pair, and a look at what is there. -/
def onAndOn (n : ℕ) : List (Request ℤ ℤ Unit) :=
  [.iterNew 0, .move 0 0 (.seekEndpoint .last)] ++
    (List.replicate n (.move 0 0 .next) ++ [.iterGet 0 0])

/-- The look is at the index that the steps lead to, modulo 65536. -/
theorem run_onAndOn (cb : Callbacks ℤ Unit) (w : World ℤ ℤ Unit Unit) (sa : SkipArray ℤ ℤ)
    (it : Iter) (c : Ctx ℤ ℤ Unit) {i : ℕ} {nd : Node ℤ ℤ} (hi : i < 65536)
    (hgo : ∃ replies, World.run cb [.iterNew 0, .move 0 0 (.seekEndpoint .last)] w =
      .ok (replies, ⟨[sa.withIndex it i], [], (), c⟩))
    (hn : sa.load it.n = .ok nd) (hlast : sa.fwdAt it.n 0 = .ok none) (n : ℕ) :
    ∃ say, (World.run cb (onAndOn n) w).map Prod.fst =
      (skiparrayIterGet (sa.withIndex it ((i + n) % 65536)) 0).map say := by
  obtain ⟨replies, hgo⟩ := hgo
  obtain ⟨replies', hnexts⟩ := nexts_withIndex cb hn hlast () c n i hi
  refine ⟨fun r => replies ++ (replies' ++ [.iterGet r.1 r.2]), ?_⟩
  have hslot : slot [sa.withIndex it ((i + n) % 65536)] 0 =
    .ok (sa.withIndex it ((i + n) % 65536)) := rfl
  simp only [onAndOn, World.run_append, hgo, hnexts, ok_bind]
  simp only [World.run, World.step, hslot, ok_bind]
  cases skiparrayIterGet (sa.withIndex it ((i + n) % 65536)) 0 with
  | error e => rfl
  | ok r => rfl

/-- What the client of a skiparray built of `kvs` is told. -/
def repliesBuilt (cb : Callbacks ℤ U) (config : Config) (kvs : List (ℤ × ℤ)) (udata : U)
    (reqs : List (Request ℤ ℤ Unit)) : Except Fault (List (Reply ℤ ℤ Unit)) := do
  let (_, _, sa, c) ← buildFrom cb config false kvs ⟨udata, 0, [], []⟩
  match sa with
  | none => .error .null
  | some sa => (World.run cb reqs ⟨[sa], [], (), c⟩).map Prod.fst

/-- What the client is told of one that was given `kvs` by `skiparray_set`. -/
def repliesSet (cb : Callbacks ℤ U) (config : Config) (kvs : List (ℤ × ℤ)) (udata : U)
    (reqs : List (Request ℤ ℤ Unit)) : Except Fault (List (Reply ℤ ℤ Unit)) := do
  let (_, sa, c) ← skiparrayNew cb (some config) ⟨udata, 0, [], []⟩
  match sa with
  | none => .error .null
  | some sa =>
    let (_, sa, c) ← SkipArray.run cb (kvs.map fun p => .set p.1 p.2) sa c
    (World.run cb reqs ⟨[sa], [], (), c⟩).map Prod.fst

theorem repliesBuilt_packed (reqs : List (Request ℤ ℤ Unit)) :
    repliesBuilt Callbacks.plain Config.plain [(1, 10), (2, 20), (3, 30)] () reqs =
      (World.run Callbacks.plain reqs ⟨[SkipArray.packed], [], (), ⟨(), 8, [4], []⟩⟩).map Prod.fst := by
  have hbuild : buildFrom Callbacks.plain Config.plain false [(1, 10), (2, 20), (3, 30)]
      ⟨(), 0, [], []⟩ =
    .ok (.ok, [.ok, .ok, .ok], some SkipArray.packed, ⟨(), 8, [4], []⟩) := rfl
  rw [repliesBuilt, hbuild]
  rfl

theorem repliesSet_spread (reqs : List (Request ℤ ℤ Unit)) :
    repliesSet Callbacks.plain Config.plain [(1, 10), (2, 20), (3, 30)] () reqs =
      (World.run Callbacks.plain reqs ⟨[SkipArray.spread], [], (), ⟨(), 7, [], []⟩⟩).map Prod.fst := by
  have hset : SkipArray.run Callbacks.plain [.set 1 10, .set 2 20, .set 3 30] SkipArray.plain
      ⟨(), 4, [], []⟩ =
    .ok ([.set .bound, .set .bound, .set .bound], SkipArray.spread, ⟨(), 7, [], []⟩) := rfl
  rw [repliesSet, SkipArray.plain_new, ok_bind]
  simp only [List.map_cons, List.map_nil, hset]
  rfl

/-- Memory for the first eight requests. -/
def Callbacks.eight : Callbacks ℤ Unit := { Callbacks.plain with grant := fun i => i < 8 }

/-- Levels that are drawn from the client's data. -/
def Callbacks.drawn : Callbacks ℤ ℤ where
  cmp _ a b := a - b
  level _ _ out udata := (udata, out, udata)
  grant _ := true

set_option maxRecDepth 4000 in
/-- Where the client can tell. What was built has room for one more pair, and what was
set asks for memory. Where the levels come out different, so can a pop of the last
pair. And from the last pair, 65535 steps ahead lead to a pair in the one and nowhere
in the other. -/
theorem built_apart :
    (repliesBuilt Callbacks.eight Config.plain [(1, 10), (2, 20), (3, 30)] ()
        [.call 0 (.set 4 40)] = .ok [.call (.set .bound)] ∧
      repliesSet Callbacks.eight Config.plain [(1, 10), (2, 20), (3, 30)] ()
        [.call 0 (.set 4 40)] = .ok [.call (.set .errorMemory)]) ∧
    (repliesBuilt Callbacks.drawn Config.tall [(1, 10)] 0 [.call 0 .popLast] =
        .ok [.call (.pop .ok (some 1) (some 10))] ∧
      repliesSet Callbacks.drawn Config.tall [(1, 10)] 128 [.call 0 .popLast] = .error .bounds) ∧
    repliesBuilt Callbacks.plain Config.plain [(1, 10), (2, 20), (3, 30)] () (onAndOn 65535) =
      .error .assertion ∧
    ∃ replies, repliesSet Callbacks.plain Config.plain [(1, 10), (2, 20), (3, 30)] ()
      (onAndOn 65535) = .ok replies := by
  refine ⟨⟨rfl, rfl⟩, ⟨rfl, rfl⟩, ?_, ?_⟩
  · obtain ⟨say, hsay⟩ := run_onAndOn Callbacks.plain
      ⟨[SkipArray.packed], [], (), ⟨(), 8, [4], []⟩⟩ SkipArray.packed ⟨none, none, some 1, 0, 8⟩
      ⟨(), 9, [4], []⟩ (show 0 < 65536 by decide) ⟨_, rfl⟩ rfl rfl 65535
    have hmod : (0 + 65535) % 65536 = 65535 := by norm_num
    have hget : skiparrayIterGet (SkipArray.packed.withIndex ⟨none, none, some 1, 0, 8⟩ 65535) 0 =
      .error .assertion := rfl
    rw [repliesBuilt_packed, hsay, hmod, hget]
    rfl
  · obtain ⟨say, hsay⟩ := run_onAndOn Callbacks.plain
      ⟨[SkipArray.spread], [], (), ⟨(), 7, [], []⟩⟩ SkipArray.spread ⟨none, none, some 1, 0, 7⟩
      ⟨(), 8, [], []⟩ (show 1 < 65536 by decide) ⟨_, rfl⟩ rfl rfl 65535
    have hmod : (1 + 65535) % 65536 = 0 := by norm_num
    have hget : skiparrayIterGet (SkipArray.spread.withIndex ⟨none, none, some 1, 0, 7⟩ 0) 0 =
      .ok (2, some 20) := rfl
    refine ⟨say (2, some 20), ?_⟩
    rw [repliesSet_spread, hsay, hmod, hget]
    rfl

end Apart

end Skiparray
