import Skiparray.Runs.Reachable
import Skiparray.Layout.FoldInit

/-!
# Failed calls

A call that finds no memory gives back what it had obtained and leaves its
skiparrays and builders as they were, but for the state of the level PRNG. So
the same call with memory at hand does what it would have done at once, up to
the heights of the nodes.
-/

namespace Skiparray

open SkipLinks Fallible

variable {K V U W : Type}

/-! ## The same call once more -/

/-- The same callbacks, with memory for everything. -/
def Callbacks.granting (cb : Callbacks K U) : Callbacks K U := { cb with grant := fun _ => true }

theorem Callbacks.granting_allGranted (cb : Callbacks K U) : cb.granting.AllGranted :=
  fun _ => rfl

/-- Between `c` and `c'` nothing was given away: what was obtained has been
released, each block once, and no binding went to the free callback. -/
structure GaveBack (cb : Callbacks K U) (c c' : Ctx K V U) : Prop where
  ledger : Ledger cb c c' 0
  freed : c'.freed = c.freed

/-- Blocks that differ in their heights at most. -/
structure Block.Alike (a b : Block K V) : Prop where
  ptr : a.ptr = b.ptr
  offset : a.offset = b.offset
  pairs : a.pairs = b.pairs

theorem Block.Alike.refl (b : Block K V) : b.Alike b := ⟨rfl, rfl, rfl⟩

theorem alike_refl (bs : List (Block K V)) : List.Forall₂ Block.Alike bs bs :=
  List.forall₂_same.mpr fun b _ => .refl b

theorem map_ptr_eq_of_alike {bs₁ bs₂ : List (Block K V)} (h : List.Forall₂ Block.Alike bs₁ bs₂) :
    bs₁.map Block.ptr = bs₂.map Block.ptr := by
  induction h with
  | nil => rfl
  | cons hab _ ih => rw [List.map_cons, List.map_cons, hab.ptr, ih]

theorem bindings_eq_of_alike {bs₁ bs₂ : List (Block K V)}
    (h : List.Forall₂ Block.Alike bs₁ bs₂) : bindings bs₁ = bindings bs₂ := by
  induction h with
  | nil => rfl
  | cons hab _ ih => rw [bindings_cons, bindings_cons, hab.pairs, ih]

section Retry

variable [Inhabited K] [Inhabited V]

omit [Inhabited K] in
/-- `sa₁` and `sa₂` are the same skiparray up to the heights of its nodes. -/
structure UpToHeights (cmp : K → K → ℤ) (sa₁ sa₂ : SkipArray K V) : Prop where
  settings : sa₁.toSettings = sa₂.toSettings
  iter : sa₁.iter = sa₂.iter
  iters : sa₁.iters = sa₂.iters
  blocks : ∃ bs₁ bs₂, sa₁.Wf cmp bs₁ ∧ sa₂.Wf cmp bs₂ ∧ List.Forall₂ Block.Alike bs₁ bs₂

variable {cb : Callbacks K U} {f : ℕ} {cmp : K → K → ℤ} {sa sa' sa₁ sa₂ : SkipArray K V}
  {bs A C : List (Block K V)} {b : Block K V} {c c' : Ctx K V U}

/-! ## Setting -/

omit [Inhabited K] [Inhabited V] in
/-- The search reads the nodes and nothing else. -/
theorem searchLoop_congr (hnodes : sa'.nodes = sa.nodes) (hheap : sa'.heap = sa.heap) {key : K} :
    ∀ {fuel level : ℕ} {prev cur : Option Ptr} {found : Bool} {index : ℕ},
      searchLoop cmp sa' key fuel level prev cur found index =
        searchLoop cmp sa key fuel level prev cur found index := by
  have hload : sa'.load = sa.load := by
    funext p
    cases p with
    | none => rfl
    | some p => simp only [SkipArray.load, SkipArray.node?, hheap]
  have hhead : sa'.headAt = sa.headAt := by
    funext i
    rw [SkipArray.headAt, SkipArray.headAt, hnodes]
  have hfwd : sa'.fwdAt = sa.fwdAt := by
    funext p i
    rw [SkipArray.fwdAt, SkipArray.fwdAt, hload]
  have hdescend : ∀ prev cur level, descend sa' prev cur level = descend sa prev cur level := by
    intro prev cur level
    induction level with
    | zero => rfl
    | succ level ih => simp only [descend, hfwd, ih]
  intro fuel
  induction fuel with
  | zero =>
      intros
      rfl
  | succ fuel ih =>
      intros
      simp only [searchLoop, nextOnLevel, hload, hhead, hfwd, hdescend, ih]

omit [Inhabited K] [Inhabited V] in
theorem search_withPrngState (prngState : UInt64) (key : K) :
    search cmp { sa with prngState } key = search cmp sa key := by
  have hloop : ∀ {fuel level : ℕ} {prev cur : Option Ptr} {found : Bool} {index : ℕ},
      searchLoop cmp { sa with prngState } key fuel level prev cur found index =
        searchLoop cmp sa key fuel level prev cur found index :=
    searchLoop_congr (show ({ sa with prngState } : SkipArray K V).nodes = sa.nodes from rfl)
      (show ({ sa with prngState } : SkipArray K V).heap = sa.heap from rfl)
  simp only [search, hloop]
  rfl

omit [Inhabited K] [Inhabited V] in
/-- The height only goes into the new block. -/
theorem bindBlocks_alike (nodeSize : ℕ) (new : Ptr) (h₁ h₂ index : ℕ) (p : K × V) :
    List.Forall₂ Block.Alike (bindBlocks nodeSize new h₁ A b C index p)
      (bindBlocks nodeSize new h₂ A b C index p) := by
  unfold bindBlocks
  split_ifs
  · exact List.rel_append (alike_refl _) (.cons ⟨rfl, rfl, rfl⟩ (alike_refl C))
  · exact List.rel_append (alike_refl A) (.cons (.refl _) (.cons ⟨rfl, rfl, rfl⟩ (alike_refl C)))
  · exact alike_refl _

omit [Inhabited K] [Inhabited V] in
/-- A block's address tells where it is. -/
theorem SkipArray.Linked.split_unique {A₁ A₂ C₁ C₂ : List (Block K V)} {b₁ b₂ : Block K V}
    (h : sa.Linked (A₁ ++ b₁ :: C₁)) (heq : A₁ ++ b₁ :: C₁ = A₂ ++ b₂ :: C₂)
    (hptr : b₁.ptr = b₂.ptr) : A₁ = A₂ ∧ b₁ = b₂ ∧ C₁ = C₂ := by
  have hnodup := h.ptr_nodup
  rw [List.map_append, List.map_cons, List.nodup_middle, List.nodup_cons, List.mem_append,
    not_or, hptr] at hnodup
  obtain ⟨⟨hA, hC⟩, -⟩ := hnodup
  exact (List.append_cons_inj_of_notMem (fun hmem => hA (List.mem_map_of_mem hmem))
    fun hmem => hC (List.mem_map_of_mem hmem)).mp heq

/-- What becomes of a skiparray by a call of `skiparray_set_with_pair` without memory. -/
structure SetAtomic (cb : Callbacks K U) (cmp : K → K → ℤ) (sa : SkipArray K V) (c : Ctx K V U)
    (key : K) (value : V) (replaceKey : Bool) (prev : Option (K × V)) (sa' : SkipArray K V)
    (c' : Ctx K V U) : Prop where
  answer : prev = none
  state : ∃ prngState, sa' = { sa with prngState }
  world : GaveBack cb c c'
  retry : ∃ res prev sa₁ c₁ sa₂ c₂,
    skiparraySetWithPair cb.granting sa c key value replaceKey = .ok (res, prev, sa₁, c₁) ∧
    skiparraySetWithPair cb.granting sa' c' key value replaceKey = .ok (res, prev, sa₂, c₂) ∧
    UpToHeights cmp sa₁ sa₂

theorem set_atomic (hc : LawfulCmp (cb.cmp sa.cmp)) (h : sa.Wf (cb.cmp sa.cmp) bs) {key : K}
    {value : V} {replaceKey : Bool} {prev : Option (K × V)}
    (hcall : skiparraySetWithPair cb sa c key value replaceKey =
      .ok (.errorMemory, prev, sa', c')) :
    SetAtomic cb (cb.cmp sa.cmp) sa c key value replaceKey prev sa' c' := by
  have hiter : sa.iter = none := by
    by_contra hlocked
    obtain ⟨it, hit⟩ := Option.ne_none_iff_exists'.mp hlocked
    rw [skiparraySetWithPair, hasIterators_eq_true hit, if_pos rfl] at hcall
    cases hcall
  obtain ⟨res, prev', sa'', c'', heq, hout⟩ :=
    skiparraySetWithPair_spec cb hc h hiter c key value replaceKey
  rw [hcall] at heq
  cases heq
  cases hout with
  | @memory prngState _ hg hfind hfreed hled =>
      refine ⟨rfl, ⟨prngState, rfl⟩, ⟨hled _ _ (.refl cb c), hfreed⟩, ?_⟩
      have h' : ({ sa with prngState } : SkipArray K V).Wf (cb.granting.cmp sa.cmp) bs :=
        ⟨h.toSound.of_body rfl rfl rfl rfl, h.shape⟩
      have hc' : LawfulCmp (cb.granting.cmp ({ sa with prngState } : SkipArray K V).cmp) := hc
      obtain ⟨res₁, prev₁, sa₁, c₁, heq₁, hout₁⟩ :=
        skiparraySetWithPair_spec cb.granting hc h hiter c key value replaceKey
      obtain ⟨res₂, prev₂, sa₂, c₂, heq₂, hout₂⟩ :=
        skiparraySetWithPair_spec cb.granting hc' h' hiter c' key value replaceKey
      cases hout₁ with
      | replaced hfind₁ _ _ => cases hfind.symm.trans hfind₁
      | memory hg₁ _ _ _ => exact absurd cb.granting_allGranted hg₁
      | @bound r₁ A₁ C₁ b₁ _ _ _ hr₁ hn₁ hbs₁ _ hkeep₁ _ hwf₁ _ =>
          cases hout₂ with
          | replaced hfind₂ _ _ => cases hfind.symm.trans hfind₂
          | memory hg₂ _ _ _ => exact absurd cb.granting_allGranted hg₂
          | @bound r₂ A₂ C₂ b₂ _ _ _ hr₂ hn₂ hbs₂ _ hkeep₂ _ hwf₂ _ =>
              rw [search_withPrngState] at hr₂
              obtain rfl : r₁ = r₂ := Except.ok.inj (hr₁.symm.trans hr₂)
              have hptr : b₁.ptr = b₂.ptr := Option.some.inj (hn₁.symm.trans hn₂)
              obtain ⟨rfl, rfl, rfl⟩ :=
                SkipArray.Linked.split_unique (hbs₁ ▸ h.linked) (hbs₁.symm.trans hbs₂) hptr
              refine ⟨.bound, none, sa₁, c₁, sa₂, c₂, heq₁, heq₂, ?_, ?_, ?_, ?_⟩
              · rw [hkeep₁.settings, hkeep₂.settings]
              · rw [hkeep₁.iter, hkeep₂.iter]
              · rw [hkeep₁.iters, hkeep₂.iters]
              · exact ⟨_, _, hwf₁, hwf₂, bindBlocks_alike ..⟩

/-! ## Appending -/

omit [Inhabited K] [Inhabited V] in
theorem appendBlocks_alike (nodeSize : ℕ) (new : Ptr) (h₁ h₂ : ℕ) (p : K × V) :
    List.Forall₂ Block.Alike (appendBlocks nodeSize new h₁ A b p)
      (appendBlocks nodeSize new h₂ A b p) := by
  unfold appendBlocks
  split_ifs
  · exact List.rel_append (alike_refl A) (.cons (.refl b) (.cons ⟨rfl, rfl, rfl⟩ .nil))
  · exact alike_refl _

omit [Inhabited K] in
/-- `b₁` and `b₂` are the same builder up to the heights of the nodes. -/
structure BuildersUpToHeights (cmp : K → K → ℤ) (b₁ b₂ : Builder K V) : Prop where
  sa : UpToHeights cmp b₁.sa b₂.sa
  last : b₁.last = b₂.last
  checkAscending : b₁.checkAscending = b₂.checkAscending
  hasPrevKey : b₁.hasPrevKey = b₂.hasPrevKey
  prevKey : b₁.hasPrevKey = true → b₁.prevKey = b₂.prevKey
  block : b₁.block = b₂.block

/-- What becomes of a builder by a call of `skiparray_builder_append` without memory. -/
structure AppendAtomic (cb : Callbacks K U) (cmp : K → K → ℤ) (b : Builder K V) (c : Ctx K V U)
    (key : K) (value : V) (b' : Builder K V) (c' : Ctx K V U) : Prop where
  state : ∃ prngState, b' = { b with sa := { b.sa with prngState } }
  world : GaveBack cb c c'
  retry : ∃ res b₁ c₁ b₂ c₂,
    skiparrayBuilderAppend cb.granting b c key value = .ok (res, b₁, c₁) ∧
    skiparrayBuilderAppend cb.granting b' c' key value = .ok (res, b₂, c₂) ∧
    BuildersUpToHeights cmp b₁ b₂

omit [Inhabited K] in
/-- The fields of a builder follow from its blocks. -/
theorem Building.upToHeights {b₁ b₂ : Builder K V} {bs₁ bs₂ : List (Block K V)}
    (h₁ : Building cmp b₁ bs₁) (h₂ : Building cmp b₂ bs₂)
    (hset : b₁.sa.toSettings = b₂.sa.toSettings) (hblock : b₁.block = b₂.block)
    (hcheck : b₁.checkAscending = b₂.checkAscending)
    (hbs : List.Forall₂ Block.Alike bs₁ bs₂) : BuildersUpToHeights cmp b₁ b₂ := by
  have hflag : b₁.hasPrevKey = b₂.hasPrevKey := by
    rw [h₁.checked, h₂.checked, hcheck, bindings_eq_of_alike hbs]
  refine ⟨⟨hset, ?_, ?_, bs₁, bs₂, h₁.wf, h₂.wf, hbs⟩, ?_, hcheck, hflag, ?_, hblock⟩
  · rw [h₁.iter, h₂.iter]
  · rw [h₁.iters, h₂.iters]
  · rw [h₁.last, h₂.last, map_ptr_eq_of_alike hbs]
  · intro hprev
    obtain ⟨p, hp, hkey₁⟩ := h₁.prev hprev
    obtain ⟨q, hq, hkey₂⟩ := h₂.prev (hflag ▸ hprev)
    rw [bindings_eq_of_alike hbs, hq, Option.some.injEq] at hp
    rw [hkey₁, hkey₂, hp]

theorem append_atomic {b b' : Builder K V} (hc : LawfulCmp (cb.cmp b.sa.cmp))
    (h : Building (cb.cmp b.sa.cmp) b bs) {key : K} {value : V}
    (hskip : b.checkAscending = false → ∀ p ∈ bindings bs, cb.cmp b.sa.cmp p.1 key < 0)
    (hcall : skiparrayBuilderAppend cb b c key value = .ok (.errorMemory, b', c')) :
    AppendAtomic cb (cb.cmp b.sa.cmp) b c key value b' c' := by
  obtain ⟨res, b'', c'', heq, hfreed, -, hout⟩ :=
    skiparrayBuilderAppend_spec cb hc h c key value hskip
  rw [hcall] at heq
  cases heq
  cases hout with
  | @memory prngState _ hg hne hlt hled =>
      refine ⟨⟨prngState, rfl⟩, ⟨hled _ _ (.refl cb c), hfreed⟩, ?_⟩
      have hc' : LawfulCmp
          (cb.granting.cmp ({ b with sa := { b.sa with prngState } } : Builder K V).sa.cmp) := hc
      obtain ⟨res₁, b₁, c₁, heq₁, -, hkeep₁, hout₁⟩ :=
        skiparrayBuilderAppend_spec cb.granting hc h c key value hskip
      obtain ⟨res₂, b₂, c₂, heq₂, -, hkeep₂, hout₂⟩ :=
        skiparrayBuilderAppend_spec cb.granting hc' (h.withPrngState prngState) c' key value hskip
      cases hout₁ with
      | misuse hge₁ =>
          obtain ⟨p, hp, hge⟩ := hge₁
          exact absurd (hlt p hp) hge
      | memory hg₁ _ _ _ => exact absurd cb.granting_allGranted hg₁
      | @ok _ _ A₁ x₁ _ _ hbs₁ hbs₁' hb₁ _ _ =>
          cases hout₂ with
          | misuse hge₂ =>
              obtain ⟨p, hp, hge⟩ := hge₂
              exact absurd (hlt p hp) hge
          | memory hg₂ _ _ _ => exact absurd cb.granting_allGranted hg₂
          | @ok _ _ A₂ x₂ _ _ hbs₂ hbs₂' hb₂ _ _ =>
              obtain ⟨rfl, hx⟩ := List.append_inj' (hbs₁.symm.trans hbs₂) rfl
              obtain rfl : x₁ = x₂ := List.cons.inj hx |>.1
              refine ⟨.ok, b₁, c₁, b₂, c₂, heq₁, heq₂, hb₁.upToHeights hb₂ ?_ ?_ ?_ ?_⟩
              · rw [hkeep₁.settings, hkeep₂.settings]
              · rw [hkeep₁.block, hkeep₂.block]
              · rw [hkeep₁.checkAscending, hkeep₂.checkAscending]
              · rw [hbs₁', hbs₂']
                exact appendBlocks_alike ..

/-! ## Iterators -/

omit [Inhabited K] [Inhabited V] in
/-- What becomes of a skiparray by a call of `skiparray_iter_new` without memory. -/
structure IterNewAtomic (cb : Callbacks K U) (sa : SkipArray K V) (c : Ctx K V U)
    (it : Option Ptr) (sa' : SkipArray K V) (c' : Ctx K V U) : Prop where
  answer : it = none
  state : sa' = sa
  world : GaveBack cb c c'
  retry : ∃ n block₁ block₂ c₁ c₂,
    skiparrayIterNew cb.granting sa c = .ok (.ok, some sa.iters.length, sa.withIter n block₁, c₁) ∧
    skiparrayIterNew cb.granting sa' c' =
      .ok (.ok, some sa.iters.length, sa.withIter n block₂, c₂)

omit [Inhabited K] in
theorem iterNew_atomic {its : List Ptr} (h : sa.Wf cmp bs) (hcur : sa.Cursors its)
    {it : Option Ptr} (hcall : skiparrayIterNew cb sa c = .ok (.errorMemory, it, sa', c')) :
    IterNewAtomic cb sa c it sa' c' := by
  obtain ⟨res, it', sa'', c'', heq, hout⟩ := skiparrayIterNew_spec cb h hcur c
  rw [hcall] at heq
  cases heq
  have hretry : ∀ d : Ctx K V U, bindings bs ≠ [] → ∃ block d', skiparrayIterNew cb.granting sa d =
      .ok (.ok, some sa.iters.length, sa.withIter (bs.map Block.ptr).head? block, d') := by
    intro d hne
    obtain ⟨res, it, s, d', hnew, hres⟩ := skiparrayIterNew_spec cb.granting h hcur d
    cases hres with
    | empty hnil => exact absurd hnil hne
    | memory _ ha => exact absurd cb.granting_allGranted (Ctx.alloc_refused ha)
    | @ok _ block _ ha => exact ⟨block, d', hnew⟩
  cases hout with
  | memory hne ha =>
      obtain ⟨block₁, c₁, heq₁⟩ := hretry c hne
      obtain ⟨block₂, c₂, heq₂⟩ := hretry c' hne
      exact ⟨rfl, rfl, ⟨(Ledger.refl cb c).alloc_none ha, (Ctx.alloc_keeps ha).1⟩,
        ⟨_, block₁, block₂, c₁, c₂, heq₁, heq₂⟩⟩

end Retry

/-! ## Folds -/

section Folds

variable [Inhabited K] [Inhabited V] {cb : Callbacks K U} {type : FoldType}
  {merge : Option (MergeFun K V U W)} {c c' : Ctx K V U} {sas sas' sas₁ sas₂ : List (SkipArray K V)}
  {inputs : List ℕ} {its : ℕ → List Ptr} {bs : ℕ → List (Block K V)}

omit [Inhabited K] in
/-- Iterators of two folds on the same input, at the same position. -/
inductive SameIter (bs : ℕ → List (Block K V)) (sas₁ sas₂ : List (SkipArray K V)) :
    Option (ℕ × Ptr) → Option (ℕ × Ptr) → Prop where
  | none : SameIter bs sas₁ sas₂ none none
  | some {h pos : ℕ} {p q : Ptr} {s t : SkipArray K V} (hs : sas₁[h]? = some s)
      (ht : sas₂[h]? = some t) (hp : s.At (bs h) p pos) (hq : t.At (bs h) q pos) :
      SameIter bs sas₁ sas₂ (some (h, p)) (some (h, q))

omit [Inhabited K] in
/-- `fs₁` and `fs₂` are the same fold, with other iterators at the same places and
in other memory. -/
structure SameFold (bs : ℕ → List (Block K V)) (sas₁ sas₂ : List (SkipArray K V))
    (fs₁ fs₂ : FoldState K V U W) : Prop where
  type : fs₁.type = fs₂.type
  useValues : fs₁.useValues = fs₂.useValues
  cbs : fs₁.cbs = fs₂.cbs
  cmp : fs₁.cmp = fs₂.cmp
  ids : fs₁.ids = fs₂.ids
  iterCount : fs₁.iterCount = fs₂.iterCount
  iterLive : fs₁.iterLive = fs₂.iterLive
  iters : List.Forall₂ (fun a b => a.state = b.state ∧ a.pair = b.pair ∧
    SameIter bs sas₁ sas₂ a.iter b.iter) fs₁.iters fs₂.iters

/-- Entries made for the same input. -/
theorem Opened.same {h : ℕ} {a b : IterState K V} (ha : Opened type bs sas₁ h a)
    (hb : Opened type bs sas₂ h b) : a.state = b.state ∧ a.pair = b.pair ∧
      SameIter bs sas₁ sas₂ a.iter b.iter := by
  refine ⟨ha.state.trans hb.state.symm, ha.pair.trans hb.pair.symm, ?_⟩
  rcases hai : a.iter with _ | ⟨g₁, p⟩ <;> rcases hbi : b.iter with _ | ⟨g₂, q⟩
  · exact .none
  · exact absurd (ha.empty hai) (hb.iter hbi).2.1
  · exact absurd (hb.empty hbi) (ha.iter hai).2.1
  · obtain ⟨rfl, -, s, hs, hp⟩ := ha.iter hai
    obtain ⟨rfl, -, t, ht, hq⟩ := hb.iter hbi
    exact .some hs ht hp hq

theorem opened_same : ∀ {inputs : List ℕ} {as bs' : List (IterState K V)},
    List.Forall₂ (Opened type bs sas₁) inputs as → List.Forall₂ (Opened type bs sas₂) inputs bs' →
    List.Forall₂ (fun a b => a.state = b.state ∧ a.pair = b.pair ∧
      SameIter bs sas₁ sas₂ a.iter b.iter) as bs' ∧ (holds as).length = (holds bs').length
  | [], _, _, .nil, .nil => ⟨.nil, rfl⟩
  | _ :: _, _, _, .cons ha has, .cons hb hbs => by
      obtain ⟨hrest, hlen⟩ := opened_same has hbs
      have hsame := ha.same hb
      refine ⟨.cons hsame hrest, ?_⟩
      have hiter := hsame.2.2
      unfold holds at hlen ⊢
      rw [List.filterMap_cons, List.filterMap_cons]
      generalize IterState.iter _ = x at hiter ⊢
      generalize IterState.iter _ = y at hiter ⊢
      cases hiter with
      | none => exact hlen
      | some _ _ _ _ => exact congrArg (· + 1) hlen

omit [Inhabited K] [Inhabited V] in
/-- What is accepted stays so while only iterators change. -/
theorem Accepts.of_pool {sa₀ : SkipArray K V} (ha : Accepts merge sas inputs sa₀)
    {held : List (ℕ × Ptr)} (hpool : Pool sas sas' its held) :
    ∃ sa₀', sa₀'.toSettings = sa₀.toSettings ∧ Accepts merge sas' inputs sa₀' := by
  have hget : ∀ {h : ℕ} {sa : SkipArray K V}, sas[h]? = some sa →
      ∃ sa', sas'[h]? = some sa' ∧ sa'.toSettings = sa.toSettings := by
    intro h sa hsa
    have hlt : h < sas'.length := by
      rw [hpool.length]
      exact (List.getElem?_eq_some_iff.mp hsa).1
    have hsa' := List.getElem?_eq_getElem hlt
    exact ⟨_, hsa', (hpool.each hsa hsa').only.settings⟩
  obtain ⟨h₀, hhead, hsa₀⟩ := ha.first
  obtain ⟨sa₀', hsa₀', hset₀⟩ := hget hsa₀
  refine ⟨sa₀', hset₀, ha.merges, ⟨h₀, hhead, hsa₀'⟩, ?_⟩
  intro h hh
  obtain ⟨sa, hsa, hsame⟩ := ha.same h hh
  obtain ⟨sa', hsa', hset⟩ := hget hsa
  refine ⟨sa', hsa', ?_⟩
  rw [sameCallbacks, hset, hset₀]
  exact hsame

/-- What becomes of skiparrays by a call of `skiparray_fold_multi_init` without memory. -/
structure FoldAtomic (cb : Callbacks K U) (type : FoldType) (skiparrays : Option (List (Option ℕ)))
    (fold : Option (K → V → W → Ctx K V U → Except Fault (W × Ctx K V U)))
    (merge : Option (MergeFun K V U W)) (sas : List (SkipArray K V)) (c : Ctx K V U)
    (fs : Option (FoldState K V U W)) (sas' : List (SkipArray K V)) (c' : Ctx K V U) : Prop where
  answer : fs = none
  length : sas'.length = sas.length
  state : ∀ {h : ℕ} {sa sa' : SkipArray K V}, sas[h]? = some sa → sas'[h]? = some sa' →
    IterOnly sa sa' ∧ sa'.iter = sa.iter ∧ ∀ p, sa'.iter? p = sa.iter? p
  world : GaveBack cb c c'
  retry : ∃ fs₁ sas₁ c₁ fs₂ sas₂ c₂ its bs,
    skiparrayFoldMultiInit cb.granting type skiparrays fold merge sas c =
      .ok (.ok, some fs₁, sas₁, c₁) ∧
    skiparrayFoldMultiInit cb.granting type skiparrays fold merge sas' c' =
      .ok (.ok, some fs₂, sas₂, c₂) ∧
    (∀ {h : ℕ} {sa : SkipArray K V}, sas[h]? = some sa → ∃ cmp, sa.Wf cmp (bs h)) ∧
    Pool sas sas₁ its (holds fs₁.iters) ∧ Pool sas' sas₂ its (holds fs₂.iters) ∧
    SameFold bs sas₁ sas₂ fs₁ fs₂

theorem fold_atomic (hwf : ∀ {h : ℕ} {b : SkipArray K V}, sas[h]? = some b → ∃ cmp, b.Wf cmp (bs h))
    (hcur : ∀ {h : ℕ} {b : SkipArray K V}, sas[h]? = some b → b.Cursors (its h))
    {skiparrays : Option (List (Option ℕ))}
    {fold? : Option (K → V → W → Ctx K V U → Except Fault (W × Ctx K V U))}
    {fs : Option (FoldState K V U W)}
    (hcall : skiparrayFoldMultiInit cb type skiparrays fold? merge sas c =
      .ok (.errorMemory, fs, sas', c')) :
    FoldAtomic cb type skiparrays fold? merge sas c fs sas' c' := by
  obtain ⟨inputs, sa₀, fold, rfl, rfl, ha⟩ := accepts_of_init hcall (by simp)
  rw [ha.init_eq] at hcall
  obtain ⟨res, fs', sas'', c'', heq, hfreed, -, hout⟩ :=
    openFold_spec cb type fold merge sa₀ hwf hcur ha.inside c
  rw [hcall] at heq
  cases heq
  cases hout with
  | memory hpool hled hrefused =>
      obtain ⟨sa₀', hset₀, ha'⟩ := ha.of_pool hpool
      have hwf' : ∀ {h : ℕ} {b : SkipArray K V}, sas'[h]? = some b → ∃ cmp, b.Wf cmp (bs h) := by
        intro h s hs
        obtain ⟨b, hb, hold⟩ := hpool.get hs
        obtain ⟨cmp, hbwf⟩ := hwf hb
        exact ⟨cmp, hold.wf hbwf⟩
      have hcur' : ∀ {h : ℕ} {b : SkipArray K V}, sas'[h]? = some b → b.Cursors (its h) := by
        intro h s hs
        obtain ⟨b, hb, hold⟩ := hpool.get hs
        obtain ⟨ps, hps, hcs⟩ := hold.cursors
        obtain rfl := List.Perm.eq_nil hps
        exact hcs
      obtain ⟨res₁, fs₁, sas₁, c₁, heq₁, -, -, hout₁⟩ :=
        openFold_spec cb.granting type fold merge sa₀ hwf hcur ha.inside c
      obtain ⟨res₂, fs₂, sas₂, c₂, heq₂, -, -, hout₂⟩ :=
        openFold_spec cb.granting type fold merge sa₀' hwf' hcur' ha'.inside c'
      cases hout₁ with
      | memory _ _ hr => exact absurd cb.granting_allGranted hr
      | ok ho₁ _ =>
          cases hout₂ with
          | memory _ _ hr => exact absurd cb.granting_allGranted hr
          | ok ho₂ _ =>
              refine ⟨rfl, hpool.length, ?_, ⟨hled, hfreed⟩, _, sas₁, c₁, _, sas₂, c₂, its, bs,
                (ha.init_eq c).trans heq₁, (ha'.init_eq c').trans heq₂, hwf, ho₁.pool, ho₂.pool, ?_⟩
              · intro h sa sa' hsa hsa'
                have hold := hpool.each hsa hsa'
                exact ⟨hold.only, hold.restored⟩
              · obtain ⟨hiters, hlen⟩ := opened_same ho₁.entries ho₂.entries
                refine ⟨rfl, ?_, rfl, ?_, rfl, rfl, ?_, hiters⟩
                · exact (congrArg Settings.useValues hset₀).symm
                · exact (congrArg Settings.cmp hset₀).symm
                · exact ho₁.live_eq.trans (hlen.trans ho₂.live_eq.symm)

end Folds

/-! ## All of them -/

section All

variable [Inhabited K] [Inhabited V] {cb : Callbacks K U}

/-- For want of memory, `skiparray_set_with_pair`, `skiparray_builder_append`,
`skiparray_iter_new` and `skiparray_fold_multi_init` do nothing, and the same call
with memory at hand does what it would have done. -/
theorem failed_calls_atomic {f : ℕ} (hc : LawfulCmp (cb.cmp f)) :
    (∀ sa : SkipArray K V, Reachable cb f sa →
      (∀ c key value replaceKey prev sa' c', skiparraySetWithPair cb sa c key value replaceKey =
          .ok (.errorMemory, prev, sa', c') →
        SetAtomic cb (cb.cmp f) sa c key value replaceKey prev sa' c') ∧
      ∀ c it sa' c', skiparrayIterNew cb sa c = .ok (.errorMemory, it, sa', c') →
        IterNewAtomic cb sa c it sa' c') ∧
    (∀ b : Builder K V, Built cb f b → ∀ c key value b' c',
      (b.checkAscending = false → ∀ k v,
        skiparrayLast b.sa = .ok (.ok, some k, v) → cb.cmp f k key < 0) →
      skiparrayBuilderAppend cb b c key value = .ok (.errorMemory, b', c') →
        AppendAtomic cb (cb.cmp f) b c key value b' c') ∧
    ∀ sas : List (SkipArray K V), (∀ sa ∈ sas, ∃ g, LawfulCmp (cb.cmp g) ∧ Reachable cb g sa) →
      ∀ type skiparrays fold (merge : Option (MergeFun K V U W)) c fs sas' c',
        skiparrayFoldMultiInit cb type skiparrays fold merge sas c =
          .ok (.errorMemory, fs, sas', c') →
        FoldAtomic cb type skiparrays fold merge sas c fs sas' c' := by
  refine ⟨?_, ?_, ?_⟩
  · intro sa hreach
    obtain ⟨rfl, bs, its, hco⟩ := hreach.coherent hc
    refine ⟨?_, ?_⟩
    · intro c key value replaceKey prev sa' c' hcall
      exact set_atomic hc hco.toWf hcall
    · intro c it sa' c' hcall
      exact iterNew_atomic hco.toWf hco.cursors hcall
  · intro b hb c key value b' c' hskip hcall
    obtain ⟨rfl, bs, hbuild⟩ := hb.building hc
    exact append_atomic hc hbuild (hbuild.above hc hskip) hcall
  · intro sas hreach type skiparrays fold merge c fs sas' c' hcall
    have hall : ∀ h : ℕ, ∃ (bs : List (Block K V)) (its : List Ptr), ∀ sa : SkipArray K V,
        sas[h]? = some sa → (∃ cmp, sa.Wf cmp bs) ∧ sa.Cursors its := by
      intro h
      cases hsa : sas[h]? with
      | none => exact ⟨[], [], by simp⟩
      | some sa =>
          obtain ⟨g, hcg, hg⟩ := hreach sa (List.mem_of_getElem? hsa)
          obtain ⟨-, bs, its, hco⟩ := hg.coherent hcg
          refine ⟨bs, its, ?_⟩
          intro s hs
          obtain rfl : sa = s := Option.some.inj hs
          exact ⟨⟨_, hco.toWf⟩, hco.cursors⟩
    choose bs its hboth using hall
    exact fold_atomic (fun hsa => (hboth _ _ hsa).1) (fun hsa => (hboth _ _ hsa).2) hcall

end All

/-! ## A small instance -/

/-- Memory for the first five requests only. -/
def Callbacks.scarce : Callbacks ℤ Unit := { Callbacks.plain with grant := fun i => i < 5 }

/-- `SkipArray.plain` with a full node: keys 1 and 2. -/
def SkipArray.plainFull : SkipArray ℤ ℤ :=
  { SkipArray.plain with
    heap := [some ⟨1, 0, 2, [1, 2], some [10, 20], none, [none], 1, 2, 3⟩] }

theorem SkipArray.plainFull_reachable : Reachable Callbacks.scarce 0 SkipArray.plainFull := by
  have hnew : skiparrayNew Callbacks.scarce (some Config.plain) ⟨(), 0, [], []⟩ =
      .ok (.ok, some SkipArray.plain, ⟨(), 4, [], []⟩) := rfl
  have hone : SkipArray.plain.call Callbacks.scarce ⟨(), 4, [], []⟩ (.set 1 10) =
      .ok (.set .bound, SkipArray.plainOne, ⟨(), 4, [], []⟩) := rfl
  have htwo : SkipArray.plainOne.call Callbacks.scarce ⟨(), 4, [], []⟩ (.set 2 20) =
      .ok (.set .bound, SkipArray.plainFull, ⟨(), 4, [], []⟩) := rfl
  exact .call (.call (.new rfl hnew) hone) htwo

/-- A builder for `Config.plain`. -/
def Builder.plain (count : ℕ) (keys values : List ℤ) (hasPrevKey : Bool) (prevKey : ℤ) :
    Builder ℤ ℤ where
  sa := { SkipArray.plain with
    heap := [some ⟨1, 0, count, keys, some values, none, [none], 1, 2, 3⟩] }
  last := some 0
  checkAscending := true
  hasPrevKey
  prevKey
  trail := [some 0]
  block := 4

theorem Builder.plain_built :
    Built Callbacks.scarce 0 (Builder.plain 2 [1, 2] [10, 20] true 2) := by
  have hnew : skiparrayBuilderNew Callbacks.scarce (some Config.plain) false ⟨(), 0, [], []⟩ =
      .ok (.ok, some (Builder.plain 0 [0, 0] [0, 0] false 0), ⟨(), 5, [], []⟩) := rfl
  have hone : skiparrayBuilderAppend Callbacks.scarce (Builder.plain 0 [0, 0] [0, 0] false 0)
      ⟨(), 5, [], []⟩ 1 10 =
        .ok (.ok, Builder.plain 1 [1, 0] [10, 0] true 1, ⟨(), 5, [], []⟩) := rfl
  have htwo : skiparrayBuilderAppend Callbacks.scarce (Builder.plain 1 [1, 0] [10, 0] true 1)
      ⟨(), 5, [], []⟩ 2 20 =
        .ok (.ok, Builder.plain 2 [1, 2] [10, 20] true 2, ⟨(), 5, [], []⟩) := rfl
  exact .append (.append (.new rfl hnew) (by simp [Builder.plain]) hone) (by simp [Builder.plain]) htwo

/-- The fold names one skiparray twice, and the second iterator finds no memory. -/
theorem failed_calls_atomic_scarce :
    (∃ sa' c', skiparraySetWithPair Callbacks.scarce SkipArray.plainFull ⟨(), 5, [], []⟩ 3 30 true =
        .ok (.errorMemory, none, sa', c') ∧
      SetAtomic Callbacks.scarce (Callbacks.scarce.cmp 0) SkipArray.plainFull ⟨(), 5, [], []⟩ 3 30
        true none sa' c') ∧
    (∃ sa' c', skiparrayIterNew Callbacks.scarce SkipArray.plainFull ⟨(), 5, [], []⟩ =
        .ok (.errorMemory, none, sa', c') ∧
      IterNewAtomic Callbacks.scarce SkipArray.plainFull ⟨(), 5, [], []⟩ none sa' c') ∧
    (∃ b' c', skiparrayBuilderAppend Callbacks.scarce (Builder.plain 2 [1, 2] [10, 20] true 2)
        ⟨(), 5, [], []⟩ 3 30 = .ok (.errorMemory, b', c') ∧
      AppendAtomic Callbacks.scarce (Callbacks.scarce.cmp 0)
        (Builder.plain 2 [1, 2] [10, 20] true 2) ⟨(), 5, [], []⟩ 3 30 b' c') ∧
    ∃ sas' c', skiparrayFoldMultiInit Callbacks.scarce .left (some [some 0, some 0])
        (some fun _ _ (w : Unit) c => .ok (w, c)) (some fun _ _ w c => .ok (0, 0, w, c))
        [SkipArray.plainFull] ⟨(), 2, [], []⟩ = .ok (.errorMemory, none, sas', c') ∧
      FoldAtomic Callbacks.scarce .left (some [some 0, some 0])
        (some fun _ _ (w : Unit) c => .ok (w, c)) (some fun _ _ w c => .ok (0, 0, w, c))
        [SkipArray.plainFull] ⟨(), 2, [], []⟩ none sas' c' := by
  have hcmp : LawfulCmp (Callbacks.scarce.cmp 0) := LawfulCmp.int_sub
  have hatomic := failed_calls_atomic (V := ℤ) (W := Unit) hcmp
  refine ⟨⟨_, _, rfl, (hatomic.1 _ SkipArray.plainFull_reachable).1 _ _ _ _ _ _ _ rfl⟩,
    ⟨_, _, rfl, (hatomic.1 _ SkipArray.plainFull_reachable).2 _ _ _ _ rfl⟩,
    ⟨_, _, rfl, hatomic.2.1 _ Builder.plain_built _ _ _ _ _ (by simp [Builder.plain]) rfl⟩,
    ⟨_, _, rfl, hatomic.2.2 _ ?_ _ _ _ _ _ _ _ _ rfl⟩⟩
  intro sa hsa
  rw [List.mem_singleton.mp hsa]
  exact ⟨0, LawfulCmp.int_sub, SkipArray.plainFull_reachable⟩

end Skiparray
