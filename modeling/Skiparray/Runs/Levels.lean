import Skiparray.Runs.Invariants

/-!
# The level function and the heights of the nodes

A history of a skiparray records what the level function answered for each node
that was ever made. `skiparray_new` makes a node of height `X + 1` for answer
`X`; `split_node` and `skiparray_builder_append` add one twice.
-/

namespace Skiparray

open SkipLinks Fallible

variable {K V U : Type}

/-! ## Heights from answers -/

/-- The height of a first node, when the level callback answered `x`. -/
def firstHeight (maxLevel : ℕ) (x : ℤ) : ℕ :=
  if maxLevel ≤ u8 (x + 1) then maxLevel else u8 (x + 1)

/-- The height of the node in cell `p`. -/
def cellHeight (maxLevel : ℕ) (p : Ptr) (x : ℤ) : ℕ :=
  if p = 0 then firstHeight maxLevel x else newHeight maxLevel x

section Heights

variable {maxLevel : ℕ} {x : ℤ}

theorem u8_succ (hx : 0 ≤ x) (hlt : x < maxLevel) (hmax : maxLevel < 256) :
    (u8 (x + 1) : ℤ) = x + 1 := by
  unfold u8
  omega

theorem firstHeight_eq (hx : 0 ≤ x) (hlt : x < maxLevel) (hmax : maxLevel < 256) :
    (firstHeight maxLevel x : ℤ) = x + 1 := by
  have hu := u8_succ hx hlt hmax
  unfold firstHeight
  split_ifs <;> omega

theorem newHeight_eq (hx : 0 ≤ x) (hlt : x < maxLevel) (hmax : maxLevel < 256) :
    (newHeight maxLevel x : ℤ) = min (x + 2) maxLevel := by
  have hu := u8_succ hx hlt hmax
  unfold newHeight
  split_ifs with hcap
  · have hlevel : u8 ((maxLevel - 1 : ℕ) + 1) = maxLevel := by
      unfold u8
      omega
    rw [hlevel]
    omega
  · have hlevel : (u8 ((u8 (x + 1) : ℕ) + 1) : ℤ) = x + 2 := by
      rw [hu]
      unfold u8
      omega
    rw [hlevel]
    omega

/-- Beyond the first node, the height is the one asked for on the top level only. -/
theorem newHeight_eq_iff (hx : 0 ≤ x) (hlt : x < maxLevel) (hmax : maxLevel < 256) :
    (newHeight maxLevel x : ℤ) = x + 1 ↔ x = maxLevel - 1 := by
  rw [newHeight_eq hx hlt hmax]
  omega

end Heights

/-! ## Which nodes an operation makes -/

section Nodes

variable [Inhabited K] [Inhabited V] {cb : Callbacks K U} {sa sa' : SkipArray K V}
  {bs : List (Block K V)} {c c' : Ctx K V U}

/-- No node was made, or one as tall as the level callback's next answer makes it. -/
def Grows (cb : Callbacks K U) (c : Ctx K V U) (sa sa' : SkipArray K V) : Prop :=
  Inherits sa sa' ∨ Gains (newHeight sa.maxLevel (sa.nextLevel cb c)) sa sa'

omit [Inhabited K] in
theorem SetOutcome.grows {key : K} {value : V} {replaceKey : Bool} {res : SetRes}
    {prev : Option (K × V)} (h : SetOutcome cb sa bs c key value replaceKey res prev sa' c') :
    Grows cb c sa sa' := by
  cases h with
  | replaced hfind hl hinh => exact Or.inl hinh
  | memory hg hfind hfreed hled => exact Or.inl ⟨rfl, fun hn => ⟨_, hn, rfl⟩⟩
  | bound hfind hr hn hbs hfreed hkeep hnodes hwf hput => exact hnodes

omit [Inhabited K] in
theorem AppendOutcome.grows {b b' : Builder K V} {key : K} {value : V} {res : AppendRes}
    (h : AppendOutcome cb b bs c key value res b' c') : Grows cb c b.sa b'.sa := by
  cases h with
  | misuse hge => exact Or.inl (.refl _)
  | memory hg hne hlt hled => exact Or.inl ⟨rfl, fun hn => ⟨_, hn, rfl⟩⟩
  | ok hlt hbs hbs' hb hnodes hled => exact hnodes

theorem call_grows (hc : LawfulCmp (cb.cmp sa.cmp)) (h : sa.Wf (cb.cmp sa.cmp) bs)
    {call : Call K V} {answer : Answer K V} (hcall : sa.call cb c call = .ok (answer, sa', c')) :
    Grows cb c sa sa' := by
  cases hiter : sa.iter with
  | some it =>
      obtain ⟨rfl, -⟩ := call_locked hiter hcall
      exact Or.inl (.refl _)
  | none =>
      cases call with
      | set key value =>
          obtain ⟨res, prev, sa₁, c₁, heq, hout⟩ :=
            skiparraySetWithPair_spec cb hc h hiter c key value true
          rw [SkipArray.call, skiparraySet, heq] at hcall
          cases hcall
          exact hout.grows
      | setWithPair key value replaceKey =>
          obtain ⟨res, prev, sa₁, c₁, heq, hout⟩ :=
            skiparraySetWithPair_spec cb hc h hiter c key value replaceKey
          rw [SkipArray.call, heq] at hcall
          cases hcall
          exact hout.grows
      | forget key =>
          obtain ⟨sa₁, c₁, heq, -, hinh⟩ := skiparrayForget_spec cb hc h hiter c key
          rw [SkipArray.call, heq] at hcall
          cases hcall
          exact Or.inl hinh
      | popFirst =>
          obtain ⟨sa₁, c₁, heq, -, hinh⟩ := skiparrayPopFirst_spec h hiter c
          rw [SkipArray.call, heq] at hcall
          cases hcall
          exact Or.inl hinh
      | popLast =>
          have hheight : bindings bs ≠ [] → sa.height ≤ 128 := by
            intro hne
            by_contra hover
            rw [SkipArray.call,
              skiparrayPopLast_overflow cb h hiter hne (Nat.lt_of_not_le hover)] at hcall
            cases hcall
          obtain ⟨sa₁, c₁, heq, -, hinh⟩ := skiparrayPopLast_spec cb hc h hiter hheight c
          rw [SkipArray.call, heq] at hcall
          cases hcall
          exact Or.inl hinh
      | get key =>
          obtain ⟨rfl, -⟩ := read_keeps hcall
          exact Or.inl (.refl _)
      | getPair key =>
          obtain ⟨rfl, -⟩ := read_keeps hcall
          exact Or.inl (.refl _)
      | member key =>
          obtain ⟨rfl, -⟩ := read_keeps hcall
          exact Or.inl (.refl _)
      | count =>
          obtain ⟨rfl, -⟩ := read_keeps hcall
          exact Or.inl (.refl _)
      | first =>
          obtain ⟨rfl, -⟩ := read_keeps hcall
          exact Or.inl (.refl _)
      | last =>
          obtain ⟨rfl, -⟩ := read_keeps hcall
          exact Or.inl (.refl _)

/-- `skiparray_new` makes one node. -/
theorem skiparrayNew_root {config : Config}
    (h : skiparrayNew cb (some config) c = .ok (.ok, some sa, c')) :
    ∃ root, sa.heap = [some root] ∧ root.height =
      firstHeight sa.maxLevel (callLevel cb config.level config.seed 0 c.udata).1 := by
  obtain ⟨cfg, hcfg, hcmp, hsize, hroot⟩ := skiparrayNew_accepts h
  cases hcfg
  obtain ⟨cmp, hcmp⟩ := Option.ne_none_iff_exists'.mp hcmp
  simp only [skiparrayNew, hcmp, if_neg hsize] at h
  rcases h₁ : c.alloc cb with ⟨_ | block, c₁⟩
  · rw [h₁] at h
    cases h
  have hudata := (Ctx.alloc_keeps h₁).2
  simp only [h₁, hudata] at h
  obtain ⟨⟨r, c₂⟩, halloc, hrest⟩ := bind_eq_ok.mp h
  obtain ⟨r', c₂', halloc', -, -, hfresh, -⟩ := nodeAlloc_spec (V := V) cb
    (Config.settings_ok hsize cmp block) hroot
    { c₁ with udata := (callLevel cb config.level config.seed 0 c.udata).2.2 }
  cases halloc'.symm.trans halloc
  cases r with
  | none => cases hrest
  | some root =>
      cases hrest
      exact ⟨root, rfl, (hfresh root rfl).height_eq⟩

omit [Inhabited K] [Inhabited V] in
theorem SkipArray.load_root {root nd : Node K V} (hheap : sa.heap = [some root]) {q : Option Ptr}
    (h : sa.load q = .ok nd) : q = some 0 ∧ nd = root := by
  cases q with
  | none => cases h
  | some p =>
      cases p with
      | zero =>
          simp only [SkipArray.load, SkipArray.node?, hheap] at h
          cases h
          exact ⟨rfl, rfl⟩
      | succ p =>
          simp only [SkipArray.load, SkipArray.node?, hheap] at h
          cases h

/-- So does `skiparray_builder_new`. -/
theorem skiparrayBuilderNew_root {config : Config} {skip : Bool} {b : Builder K V}
    (h : skiparrayBuilderNew cb (some config) skip c = .ok (.ok, some b, c')) :
    ∃ root, b.sa.heap = [some root] ∧ root.height =
      firstHeight b.sa.maxLevel (callLevel cb config.level config.seed 0 c.udata).1 := by
  obtain ⟨⟨res, osa, c₁⟩, hnew, hrest⟩ := bind_eq_ok.mp h
  cases res with
  | errorNull => cases hrest
  | errorConfig => cases hrest
  | errorMemory => cases hrest
  | ok =>
      cases osa with
      | none => cases hrest
      | some sa =>
          obtain ⟨root, hheap, hheight⟩ := skiparrayNew_root hnew
          rcases halloc : c₁.alloc cb with ⟨_ | block, c₂⟩
          · simp only [halloc] at hrest
            obtain ⟨c₃, -, hc₃⟩ := bind_eq_ok.mp hrest
            cases hc₃
          · simp only [halloc] at hrest
            obtain ⟨q, -, hrest⟩ := bind_eq_ok.mp hrest
            obtain ⟨nd, hload, hrest⟩ := bind_eq_ok.mp hrest
            obtain ⟨rfl, rfl⟩ := SkipArray.load_root hheap hload
            obtain ⟨sa₁, hstore, hrest⟩ := bind_eq_ok.mp hrest
            obtain ⟨trail, -, hrest⟩ := bind_eq_ok.mp hrest
            cases hrest
            cases hstore
            refine ⟨{ nd with offset := 0 }, ?_, hheight⟩
            change sa.heap.set 0 _ = _
            rw [hheap]
            rfl

end Nodes

/-! ## Histories -/

section History

variable [Inhabited K] [Inhabited V]

/-- The history after a step from `sa` to `sa'`, if it was `levels` before. -/
def SkipArray.record (cb : Callbacks K U) (c : Ctx K V U) (sa sa' : SkipArray K V)
    (levels : List ℤ) : List ℤ :=
  if sa.heap.length < sa'.heap.length then levels ++ [sa.nextLevel cb c] else levels

/-- A builder that a client can get, with the answer of the level function for
each node made, in the order of their making. -/
inductive BuiltWith (cb : Callbacks K U) (f : ℕ) : Builder K V → List ℤ → Prop where
  | new {config : Config} {skip : Bool} {c c' : Ctx K V U} {b : Builder K V}
      (hf : config.cmp = some f)
      (h : skiparrayBuilderNew cb (some config) skip c = .ok (.ok, some b, c')) :
      BuiltWith cb f b [(callLevel cb config.level config.seed 0 c.udata).1]
  | append {b b' : Builder K V} {levels : List ℤ} {c c' : Ctx K V U} {key : K} {value : V}
      {res : AppendRes} (hb : BuiltWith cb f b levels)
      (hskip : b.checkAscending = false → ∀ k v,
        skiparrayLast b.sa = .ok (.ok, some k, v) → cb.cmp f k key < 0)
      (h : skiparrayBuilderAppend cb b c key value = .ok (res, b', c')) :
      BuiltWith cb f b' (b.sa.record cb c b'.sa levels)

/-- A skiparray that a client can get, with such a history. -/
inductive ReachableWith (cb : Callbacks K U) (f : ℕ) : SkipArray K V → List ℤ → Prop where
  | new {config : Config} {c c' : Ctx K V U} {sa : SkipArray K V} (hf : config.cmp = some f)
      (h : skiparrayNew cb (some config) c = .ok (.ok, some sa, c')) :
      ReachableWith cb f sa [(callLevel cb config.level config.seed 0 c.udata).1]
  | finish {b : Builder K V} {levels : List ℤ} {c c' : Ctx K V U} {sa : SkipArray K V}
      (hb : BuiltWith cb f b levels) (h : skiparrayBuilderFinish b c = (sa, c')) :
      ReachableWith cb f sa levels
  | call {sa sa' : SkipArray K V} {levels : List ℤ} {c c' : Ctx K V U} {call : Call K V}
      {answer : Answer K V} (hs : ReachableWith cb f sa levels)
      (h : sa.call cb c call = .ok (answer, sa', c')) :
      ReachableWith cb f sa' (sa.record cb c sa' levels)
  | iterNew {sa sa' : SkipArray K V} {levels : List ℤ} {c c' : Ctx K V U} {res : IterNewRes}
      {it : Option Ptr} (hs : ReachableWith cb f sa levels)
      (h : skiparrayIterNew cb sa c = .ok (res, it, sa', c')) : ReachableWith cb f sa' levels
  | iterFree {sa sa' : SkipArray K V} {levels : List ℤ} {c c' : Ctx K V U} {it : Option Ptr}
      (hs : ReachableWith cb f sa levels) (h : skiparrayIterFree sa c it = .ok (sa', c')) :
      ReachableWith cb f sa' levels
  | move {sa sa' : SkipArray K V} {levels : List ℤ} {it : Ptr} {move : Move K} {res : MoveRes}
      (hs : ReachableWith cb f sa levels) (h : sa.move cb it move = .ok (res, sa')) :
      ReachableWith cb f sa' levels

variable {cb : Callbacks K U} {f : ℕ} {sa sa' : SkipArray K V} {levels : List ℤ}

theorem BuiltWith.built {b : Builder K V} (h : BuiltWith cb f b levels) : Built cb f b := by
  induction h with
  | new hf h => exact .new hf h
  | append hb hskip h ih => exact .append ih hskip h

theorem ReachableWith.reachable (h : ReachableWith cb f sa levels) : Reachable cb f sa := by
  induction h with
  | new hf h => exact .new hf h
  | finish hb h => exact .finish hb.built h
  | call hs h ih => exact .call ih h
  | iterNew hs h ih => exact .iterNew ih h
  | iterFree hs h ih => exact .iterFree ih h
  | move hs h ih => exact .move ih h

theorem Built.exists_levels {b : Builder K V} (h : Built cb f b) :
    ∃ levels, BuiltWith cb f b levels := by
  induction h with
  | new hf h => exact ⟨_, .new hf h⟩
  | append hb hskip h ih =>
      obtain ⟨levels, hl⟩ := ih
      exact ⟨_, .append hl hskip h⟩

/-- Every reachable skiparray has a history. -/
theorem Reachable.exists_levels (h : Reachable cb f sa) :
    ∃ levels, ReachableWith cb f sa levels := by
  induction h with
  | new hf h => exact ⟨_, .new hf h⟩
  | finish hb h =>
      obtain ⟨levels, hl⟩ := hb.exists_levels
      exact ⟨_, .finish hl h⟩
  | call hs h ih =>
      obtain ⟨levels, hl⟩ := ih
      exact ⟨_, .call hl h⟩
  | iterNew hs h ih =>
      obtain ⟨levels, hl⟩ := ih
      exact ⟨_, .iterNew hl h⟩
  | iterFree hs h ih =>
      obtain ⟨levels, hl⟩ := ih
      exact ⟨_, .iterFree hl h⟩
  | move hs h ih =>
      obtain ⟨levels, hl⟩ := ih
      exact ⟨_, .move hl h⟩

/-! ## What a history says -/

/-- There is an answer for each cell, and the live nodes have the heights that
their answers gave them. -/
structure Recorded (sa : SkipArray K V) (levels : List ℤ) : Prop where
  length : levels.length = sa.heap.length
  pos : 0 < levels.length
  height : ∀ {p n}, sa.node? p = some n →
    ∃ x, levels[p]? = some x ∧ n.height = cellHeight sa.maxLevel p x

omit [Inhabited K] [Inhabited V] in
theorem Recorded.of_root {root : Node K V} {x : ℤ} (hheap : sa.heap = [some root])
    (hheight : root.height = firstHeight sa.maxLevel x) : Recorded sa [x] := by
  refine ⟨by rw [hheap]; rfl, Nat.zero_lt_one, ?_⟩
  intro p n hn
  obtain ⟨hp, rfl⟩ := SkipArray.load_root hheap (SkipArray.load_eq hn)
  obtain rfl : p = 0 := Option.some.inj hp
  exact ⟨x, rfl, hheight⟩

omit [Inhabited K] [Inhabited V] in
theorem Recorded.of_heap (h : Recorded sa levels) (hheap : sa'.heap = sa.heap)
    (hset : sa'.toSettings = sa.toSettings) : Recorded sa' levels := by
  refine ⟨by rw [hheap, h.length], h.pos, ?_⟩
  intro p n hn
  rw [SkipArray.node?, hheap] at hn
  rw [hset]
  exact h.height hn

omit [Inhabited K] [Inhabited V] in
/-- A step keeps the heights there are and gives a new node its own. -/
theorem Recorded.step {c : Ctx K V U} (h : Recorded sa levels) (hg : Grows cb c sa sa')
    (hset : sa'.toSettings = sa.toSettings) : Recorded sa' (sa.record cb c sa' levels) := by
  have hmax : sa'.maxLevel = sa.maxLevel := congrArg Settings.maxLevel hset
  rcases hg with hinh | hgain
  · rw [SkipArray.record, if_neg (by rw [hinh.heapLen]; exact lt_irrefl _)]
    refine ⟨by rw [hinh.heapLen, h.length], h.pos, ?_⟩
    intro p n' hn'
    obtain ⟨n, hn, hh⟩ := hinh.height hn'
    obtain ⟨x, hx, hheight⟩ := h.height hn
    exact ⟨x, hx, by rw [hh, hheight, hmax]⟩
  · rw [SkipArray.record, if_pos (by rw [hgain.heapLen]; exact Nat.lt_succ_self _)]
    refine ⟨by rw [hgain.heapLen, List.length_append, h.length]; rfl, by simp, ?_⟩
    intro p n' hn'
    by_cases hp : p = sa.heap.length
    · subst hp
      have hpos := h.pos
      refine ⟨sa.nextLevel cb c, ?_, ?_⟩
      · rw [← h.length, List.getElem?_concat_length]
      · rw [hgain.new hn', cellHeight, if_neg, hmax]
        rw [h.length] at hpos
        exact Nat.ne_of_gt hpos
    · obtain ⟨n, hn, hh⟩ := hgain.old hn' hp
      obtain ⟨x, hx, hheight⟩ := h.height hn
      refine ⟨x, ?_, by rw [hh, hheight, hmax]⟩
      rw [List.getElem?_append_left (List.getElem?_eq_some_iff.mp hx).1, hx]

theorem BuiltWith.recorded {b : Builder K V} (h : BuiltWith cb f b levels)
    (hc : LawfulCmp (cb.cmp f)) : Recorded b.sa levels := by
  induction h with
  | new hf h =>
      obtain ⟨root, hheap, hheight⟩ := skiparrayBuilderNew_root h
      exact .of_root hheap hheight
  | @append b b' levels c c' key value res hb hskip h ih =>
      obtain ⟨rfl, bs, hbuild⟩ := hb.built.building hc
      obtain ⟨res', b₁, c₁, heq, -, hkeep, hout⟩ := skiparrayBuilderAppend_spec cb hc hbuild c key
        value (hbuild.above hc hskip)
      rw [h] at heq
      cases heq
      exact ih.step hout.grows hkeep.settings

theorem ReachableWith.recorded (h : ReachableWith cb f sa levels) (hc : LawfulCmp (cb.cmp f)) :
    Recorded sa levels := by
  induction h with
  | new hf h =>
      obtain ⟨root, hheap, hheight⟩ := skiparrayNew_root h
      exact .of_root hheap hheight
  | finish hb h =>
      cases h
      exact hb.recorded hc
  | @call sa sa' levels c c' call answer hs h ih =>
      obtain ⟨rfl, bs, its, hco⟩ := hs.reachable.coherent hc
      exact ih.step (call_grows hc hco.toWf h) (hco.call hc h).1
  | @iterNew sa sa' levels c c' res it hs h ih =>
      obtain ⟨rfl, bs, its, hco⟩ := hs.reachable.coherent hc
      obtain ⟨res', it', sa'', c'', heq, hout⟩ := skiparrayIterNew_spec cb hco.toWf hco.cursors c
      rw [h] at heq
      cases heq
      have ho := (hco.iterNew hout).1
      exact ih.of_heap ho.heap ho.settings
  | @iterFree sa sa' levels c c' it hs h ih =>
      obtain ⟨rfl, bs, its, hco⟩ := hs.reachable.coherent hc
      have ho := (hco.of_iterFree h).1
      exact ih.of_heap ho.heap ho.settings
  | @move sa sa' levels p move res hs h ih =>
      obtain ⟨rfl, bs, its, hco⟩ := hs.reachable.coherent hc
      have ho := (hco.of_move hc h).1
      exact ih.of_heap ho.heap ho.settings

/-! ## Levels as asked for -/

omit [Inhabited K] [Inhabited V] in
/-- The nodes `ns` are on the levels that the level function asked for: on those
up to `X` for answer `X`, and on no others. -/
structure AsAsked (sa : SkipArray K V) (levels : List ℤ) (ns : List (Ptr × Node K V)) : Prop where
  height : ∀ y ∈ ns, levels[y.1]? = some ((y.2.height : ℤ) - 1)
  chain : ∀ i < sa.maxLevel, ∃ q, sa.nodes[i]? = some q ∧
    sa.Follows i q (ns.filter fun y => (levels[y.1]?).any fun x => (i : ℤ) ≤ x)

omit [Inhabited K] [Inhabited V] in
/-- The chains of a skip list, also above its height. -/
theorem SkipList.chains {cmp : K → K → ℤ} {ns : List (Ptr × Node K V)} (h : SkipList cmp sa ns)
    {i : ℕ} (hi : i < sa.maxLevel) : ∃ q, sa.nodes[i]? = some q ∧
      sa.Follows i q (ns.filter fun y => i < y.2.height) := by
  by_cases hlow : i < sa.height
  · exact h.levels i hlow
  · refine ⟨none, h.above i (Nat.le_of_not_lt hlow) hi, ?_⟩
    have hnil : (ns.filter fun y => i < y.2.height) = [] := by
      rw [List.filter_eq_nil_iff]
      intro y hy
      have := h.tallest.1 y hy
      simp only [decide_eq_true_eq]
      omega
    rw [hnil]
    rfl

omit [Inhabited K] [Inhabited V] in
/-- With the heights asked for, the chains follow. -/
theorem SkipList.asAsked {cmp : K → K → ℤ} {ns : List (Ptr × Node K V)} (h : SkipList cmp sa ns)
    (hheight : ∀ y ∈ ns, levels[y.1]? = some ((y.2.height : ℤ) - 1)) : AsAsked sa levels ns := by
  refine ⟨hheight, ?_⟩
  intro i hi
  obtain ⟨q, hq, hfollow⟩ := h.chains hi
  refine ⟨q, hq, ?_⟩
  have hsame : (ns.filter fun y => (levels[y.1]?).any fun x => (i : ℤ) ≤ x) =
      ns.filter fun y => i < y.2.height := by
    apply List.filter_congr
    intro y hy
    rw [hheight y hy, Option.any_some, decide_eq_decide]
    omega
  rw [hsame]
  exact hfollow

/-- The heights follow the answers of the level function by one rule for the first
node and another for the rest. So the nodes are on the levels asked for exactly
when all but the first were asked for on the top level. -/
theorem asAsked_iff (hc : LawfulCmp (cb.cmp f)) (h : ReachableWith cb f sa levels)
    (hlevels : ∀ x ∈ levels, 0 ≤ x ∧ x < sa.maxLevel) :
    ∃ ns, SkipList (cb.cmp f) sa ns ∧
      (∀ y ∈ ns, ∃ x, levels[y.1]? = some x ∧ y.2.height = cellHeight sa.maxLevel y.1 x) ∧
      (∀ (p : Ptr) (x : ℤ), 0 ≤ x → x < sa.maxLevel → (cellHeight sa.maxLevel p x = firstHeight sa.maxLevel x ↔
        p = 0 ∨ x = sa.maxLevel - 1)) ∧
      (AsAsked sa levels ns ↔
        ∀ y ∈ ns, y.1 ≠ 0 → levels[y.1]? = some ((sa.maxLevel : ℤ) - 1)) := by
  obtain ⟨rfl, bs, its, hco⟩ := h.reachable.coherent hc
  have hrec := h.recorded hc
  have hmax := hco.settings.maxLevel_lt
  have hlist := hco.toSound.skipList
  have hheights : ∀ y ∈ sa.nodesOf bs,
      ∃ x, levels[y.1]? = some x ∧ y.2.height = cellHeight sa.maxLevel y.1 x := by
    intro y hy
    obtain ⟨b, -, hptr, hn⟩ := mem_nodesOf hy
    rw [hptr]
    exact hrec.height hn
  refine ⟨_, hlist, hheights, ?_, ?_⟩
  · intro p x hx hlt
    have hfirst := firstHeight_eq hx hlt hmax
    have hnew := newHeight_eq_iff hx hlt hmax
    by_cases hp : p = 0
    · simp [cellHeight, hp]
    · rw [cellHeight, if_neg hp, ← Int.natCast_inj, hfirst, hnew]
      simp [hp]
  · constructor
    · intro hasked y hy hne
      obtain ⟨x, hx, hheight⟩ := hheights y hy
      obtain ⟨hpos, hlt⟩ := hlevels x (List.mem_of_getElem? hx)
      have hask := hasked.height y hy
      rw [hx, Option.some.injEq, hheight, cellHeight, if_neg hne] at hask
      rw [hx, (newHeight_eq_iff hpos hlt hmax).mp (by omega)]
    · intro htop
      apply hlist.asAsked
      intro y hy
      obtain ⟨x, hx, hheight⟩ := hheights y hy
      obtain ⟨hpos, hlt⟩ := hlevels x (List.mem_of_getElem? hx)
      rw [hx, Option.some.injEq, hheight]
      by_cases hzero : y.1 = 0
      · rw [cellHeight, if_pos hzero, firstHeight_eq hpos hlt hmax]
        omega
      · have hlast := htop y hy hzero
        rw [hx, Option.some.injEq] at hlast
        rw [cellHeight, if_neg hzero, (newHeight_eq_iff hpos hlt hmax).mpr hlast]
        omega

end History

theorem SkipArray.flatSplit_reachableWith :
    ReachableWith Callbacks.plain 0 SkipArray.flatSplit [0, 0] :=
  .call (.call (.call (.new rfl SkipArray.flat_new) SkipArray.flat_set_first)
    SkipArray.flat_set_second) SkipArray.flat_set_third

theorem asAsked_iff_flatSplit :
    ∃ ns, SkipList (Callbacks.plain.cmp 0) SkipArray.flatSplit ns ∧
      (∀ y ∈ ns, ∃ x, [(0 : ℤ), 0][y.1]? = some x ∧
        y.2.height = cellHeight SkipArray.flatSplit.maxLevel y.1 x) ∧
      (∀ (p : Ptr) (x : ℤ), 0 ≤ x → x < SkipArray.flatSplit.maxLevel →
        (cellHeight SkipArray.flatSplit.maxLevel p x = firstHeight SkipArray.flatSplit.maxLevel x ↔
          p = 0 ∨ x = SkipArray.flatSplit.maxLevel - 1)) ∧
      (AsAsked SkipArray.flatSplit [0, 0] ns ↔
        ∀ y ∈ ns, y.1 ≠ 0 → [(0 : ℤ), 0][y.1]? = some ((SkipArray.flatSplit.maxLevel : ℤ) - 1)) :=
  asAsked_iff LawfulCmp.int_sub SkipArray.flatSplit_reachableWith (by decide)

/-! ## A split on level 0 -/

/-- The node split off for answer 0 is on level 1 as well. -/
theorem split_above_asked :
    ReachableWith Callbacks.plain 0 SkipArray.flatSplit [0, 0] ∧
      (∀ x ∈ [(0 : ℤ), 0], 0 ≤ x ∧ x < SkipArray.flatSplit.maxLevel) ∧
      ∀ ns, ¬ AsAsked SkipArray.flatSplit [0, 0] ns := by
  refine ⟨SkipArray.flatSplit_reachableWith, by decide, ?_⟩
  intro ns hasked
  obtain ⟨q, hq, hfollow⟩ := hasked.chain 1 (by decide)
  have hnil : (ns.filter fun y => ([(0 : ℤ), 0][y.1]?).any fun x => ((1 : ℕ) : ℤ) ≤ x) = [] := by
    rw [List.filter_eq_nil_iff]
    rintro ⟨p, n⟩ -
    match p with
    | 0 => simp
    | 1 => simp
    | p + 2 => simp
  rw [hnil] at hfollow
  cases hq
  cases hfollow

end Skiparray
