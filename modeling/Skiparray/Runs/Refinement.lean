import Skiparray.Runs.Reachable

/-!
# A skiparray is a finite ordered map

`Call.onMap` says what a call means on an `OrderedMap`, which knows nothing of
nodes or lists. An ascending list of bindings answers every call like the map
it lists, and a skiparray like its bindings; so a run of calls on a new
skiparray answers like the run that starts with the empty map.
-/

namespace Skiparray

open Fallible

variable {K V U : Type} [Inhabited V] {cmp : K → K → ℤ}

/-! ## The meaning of the calls -/

/-- What a call answers on a map, and the map it leaves. -/
noncomputable def Call.onMap (s : Settings) (hc : LawfulCmp cmp) :
    Call K V → OrderedMap cmp V → Answer K V × OrderedMap cmp V
  | .set key value, m => (.set (setRes (m.binding key)), m.insert hc key (s.stored value))
  | .setWithPair key value replaceKey, m =>
    (.setWithPair (setRes (m.binding key)) (m.binding key),
      m.insert hc (if replaceKey then key else ((m.binding key).map Prod.fst).getD key)
        (s.stored value))
  | .forget key, m =>
    (.forget (if (m.binding key).isSome then .ok else .notFound) (m.binding key),
      m.erase hc key)
  | .popFirst, m =>
    match m.min? with
    | none => (.pop .empty none none, m)
    | some p => (.pop .ok (some p.1) (s.out p.2), m.erase hc p.1)
  | .popLast, m =>
    match m.max? with
    | none => (.pop .empty none none, m)
    | some p => (.pop .ok (some p.1) (s.out p.2), m.erase hc p.1)
  | .get key, m => (.get (m.binding key).isSome ((m.binding key).map Prod.snd), m)
  | .getPair key, m => (.getPair (m.binding key), m)
  | .member key, m => (.member (m.binding key).isSome, m)
  | .count, m => (.count m.size, m)
  | .first, m =>
    match m.min? with
    | none => (.first .empty none none, m)
    | some p => (.first .ok (some p.1) (s.out p.2), m)
  | .last, m =>
    match m.max? with
    | none => (.last .empty none none, m)
    | some p => (.last .ok (some p.1) (s.out p.2), m)

/-- Calls on a map, one after the other. -/
noncomputable def Call.runOnMap (s : Settings) (hc : LawfulCmp cmp) :
    List (Call K V) → OrderedMap cmp V → List (Answer K V) × OrderedMap cmp V
  | [], m => ([], m)
  | call :: calls, m =>
    let (answer, m) := call.onMap s hc m
    let (answers, m) := Call.runOnMap s hc calls m
    (answer :: answers, m)

/-! ## Lists of bindings answer like the map -/

variable {m : OrderedMap cmp V} {l : List (K × V)}

/-- One call on the bindings is that call on the map they list. -/
theorem onList_onMap (s : Settings) (hc : LawfulCmp cmp) (hl : m.Lists l) (call : Call K V) :
    (call.onList s cmp false l).1 = (call.onMap s hc m).1 ∧
      (call.onMap s hc m).2.Lists (call.onList s cmp false l).2 := by
  have hfind : ∀ key, m.binding key = Assoc.find? cmp key l := Assoc.find?_lists hc hl
  have hmin := hl.min?_eq hc
  have hmax := hl.max?_eq hc
  cases call with
  | set key value =>
      refine ⟨by simp [Call.onList, Call.onMap, hfind], ?_⟩
      exact Assoc.put_lists hc hl key (s.stored value) true
  | setWithPair key value replaceKey =>
      refine ⟨by simp [Call.onList, Call.onMap, hfind], ?_⟩
      exact Assoc.put_lists hc hl key (s.stored value) replaceKey
  | forget key =>
      refine ⟨by simp [Call.onList, Call.onMap, hfind], ?_⟩
      exact Assoc.erase_lists hc hl key
  | popFirst =>
      cases l with
      | nil =>
          simp only [Call.onMap, hmin]
          exact ⟨rfl, hl⟩
      | cons p l =>
          simp only [Call.onMap, hmin]
          rw [← List.nil_append (p :: l)] at hl
          exact ⟨rfl, hl.erase hc (hc.refl p.1)⟩
  | popLast =>
      rcases List.eq_nil_or_concat l with rfl | ⟨l, p, rfl⟩
      · simp only [Call.onMap, hmax]
        exact ⟨rfl, hl⟩
      · rw [List.concat_eq_append] at hl hmax ⊢
        rw [List.getLast?_concat] at hmax
        simp only [Call.onMap, hmax, Call.onList, List.getLast?_concat, List.dropLast_concat]
        refine ⟨rfl, ?_⟩
        have := hl.erase hc (hc.refl p.1)
        rwa [List.append_nil] at this
  | get key => exact ⟨by simp [Call.onList, Call.onMap, hfind], hl⟩
  | getPair key => exact ⟨by simp [Call.onList, Call.onMap, hfind], hl⟩
  | member key => exact ⟨by simp [Call.onList, Call.onMap, hfind], hl⟩
  | count => exact ⟨by simp [Call.onList, Call.onMap, hl.size_eq hc], hl⟩
  | first =>
      simp only [Call.onMap, hmin, Call.onList]
      cases l.head? with
      | none => exact ⟨rfl, hl⟩
      | some p => exact ⟨rfl, hl⟩
  | last =>
      simp only [Call.onMap, hmax, Call.onList]
      cases l.getLast? with
      | none => exact ⟨rfl, hl⟩
      | some p => exact ⟨rfl, hl⟩

theorem runOnList_runOnMap (s : Settings) (hc : LawfulCmp cmp) :
    ∀ (calls : List (Call K V)) {m : OrderedMap cmp V} {l : List (K × V)}, m.Lists l →
      (Call.runOnList s cmp calls l).1 = (Call.runOnMap s hc calls m).1
  | [], _, _, _ => rfl
  | call :: calls, m, l, hl => by
      obtain ⟨hans, hl'⟩ := onList_onMap s hc hl call
      have hrest := runOnList_runOnMap s hc calls hl'
      simp only [Call.runOnList, Call.runOnMap]
      rw [hans, hrest]

/-! ## Levels of a new skiparray -/

/-- A custom level function keeps to its contract: `0 <= X < max_level`. -/
def Config.LawfulLevel (config : Config) (cb : Callbacks K U) : Prop :=
  ∀ f, config.level = some f → ∀ prngStateIn out udata,
    0 ≤ (cb.level f prngStateIn out udata).1 ∧
      (cb.level f prngStateIn out udata).1 < config.effMaxLevel

/-- The default level function answers at most `SKIPARRAY_DEF_MAX_LEVEL`. -/
theorem defLevelFun_bounds (prngStateIn : UInt64) :
    0 ≤ (defLevelFun prngStateIn).1 ∧ (defLevelFun prngStateIn).1 ≤ defMaxLevel := by
  have hle : ∀ o : Option ℕ, (∀ i, o = some i → i ≤ defMaxLevel) →
      o.getD defMaxLevel ≤ defMaxLevel := by
    rintro (_ | i) h
    · rfl
    · exact h i rfl
  constructor
  · exact Int.natCast_nonneg _
  · refine Int.ofNat_le.mpr (hle _ ?_)
    intro i hi
    exact (List.mem_range.mp (List.mem_of_find?_eq_some hi)).le

omit [Inhabited V] in
theorem rootHeight_pos {cb : Callbacks K U} {config : Config} (h : config.LawfulLevel cb)
    (c : Ctx K V U) : 1 ≤ rootHeight cb config c := by
  have heff : 1 ≤ config.effMaxLevel ∧ config.effMaxLevel ≤ 255 := by
    have hlt := config.maxLevel.toNat_lt
    unfold Config.effMaxLevel defMaxLevel
    split_ifs with h0
    · omega
    · have : config.maxLevel.toNat ≠ 0 := fun hz => h0 (UInt8.toNat_inj.mp hz)
      omega
  obtain ⟨x, hx, hlo, hhi⟩ : ∃ x : ℤ,
      (callLevel cb config.level config.seed 0 c.udata).1 = x ∧ 0 ≤ x ∧ x ≤ 254 := by
    refine ⟨_, rfl, ?_⟩
    cases hl : config.level with
    | none =>
        have := defLevelFun_bounds config.seed
        unfold defMaxLevel at this
        simp only [callLevel]
        omega
    | some f =>
        have := h f hl config.seed 0 c.udata
        simp only [callLevel]
        omega
  have hu : u8 (x + 1) = (x + 1).toNat := by
    unfold u8
    omega
  simp only [rootHeight, hx, hu]
  split_ifs <;> omega

/-! ## The refinement -/

/-- A run of calls on a new skiparray answers, call by call, what the finite
ordered map answers that starts empty. -/
theorem skiparray_refines_map [Inhabited K] (cb : Callbacks K U) (config : Config) (f : ℕ)
    (hcmp : config.cmp = some f) (hc : LawfulCmp (cb.cmp f)) (hsize : config.nodeSize ≠ 1)
    (hmax : config.maxLevel.toNat ≤ maxMaxLevel) (hlevel : config.LawfulLevel cb)
    (hg : cb.AllGranted) (c : Ctx K V U) (calls : List (Call K V)) :
    ∃ sa c₁, skiparrayNew cb (some config) c = .ok (.ok, some sa, c₁) ∧
      sa.useValues = !config.ignoreValues ∧
      ∃ sa' c', SkipArray.run cb calls sa c₁ =
        .ok ((Call.runOnMap sa.toSettings hc calls .empty).1, sa', c') := by
  obtain ⟨res, osa, c₁, hnew, -, hres⟩ := skiparrayNew_spec (V := V) cb
    (by rw [hcmp]; simp) hsize c (rootHeight_pos hlevel c)
  rcases hres with ⟨-, -, hno, -⟩ | ⟨rfl, sa, bs, rfl, hfresh, -⟩
  · exact absurd hg hno
  obtain ⟨f', block, hf', hset⟩ := hfresh.settings
  obtain rfl : f' = f := Option.some.inj (hf'.symm.trans hcmp)
  have hcmp' : sa.cmp = f' := congrArg Settings.cmp hset
  have hmax' : sa.maxLevel ≤ 128 := by
    have : sa.maxLevel = config.effMaxLevel := congrArg Settings.maxLevel hset
    rw [this]
    unfold Config.effMaxLevel defMaxLevel
    unfold maxMaxLevel at hmax
    split_ifs <;> omega
  obtain ⟨sa', c', hrun, -⟩ := run_spec hg calls (hcmp' ▸ hc) (hfresh.wf _) hfresh.iter
    hmax' c₁
  refine ⟨sa, c₁, hnew, congrArg Settings.useValues hset, sa', c', ?_⟩
  rw [hrun, hfresh.bindings_eq, hcmp',
    runOnList_runOnMap sa.toSettings hc calls OrderedMap.lists_empty]

/-- Keys are equal that have the same tens. -/
def Callbacks.tens : Callbacks ℤ Unit := { Callbacks.plain with cmp := fun _ a b => a / 10 - b / 10 }

theorem Callbacks.tens_lawful : LawfulCmp (Callbacks.tens.cmp 0) :=
  ⟨fun a b => by simp only [Callbacks.tens]; omega,
    fun a b c _ _ => by simp only [Callbacks.tens] at *; omega⟩

theorem Config.flat_lawful : Config.flat.LawfulLevel Callbacks.tens := by
  have heff : Config.flat.effMaxLevel = 2 := by simp [Config.effMaxLevel, Config.flat]
  unfold Config.LawfulLevel
  rw [heff]
  intro f _ prngStateIn out udata
  simp [Callbacks.tens, Callbacks.plain]

/-- The third pair splits the node, 25 takes the place of 20, and the pops take the
first and the last key. -/
theorem skiparray_refines_map_tens :
    ∃ sa c₁, skiparrayNew Callbacks.tens (some Config.flat) ⟨(), 0, [], []⟩ =
        .ok (.ok, some sa, c₁) ∧
      sa.useValues = !Config.flat.ignoreValues ∧
      ∃ sa' c', SkipArray.run Callbacks.tens
          [.set 10 1, .set 20 2, .set 30 3, .setWithPair 25 4 true, .popFirst, .getPair (21 : ℤ),
            .popLast, .forget 29, .count] sa c₁ =
        .ok ((Call.runOnMap (V := ℤ) sa.toSettings Callbacks.tens_lawful
          [.set 10 1, .set 20 2, .set 30 3, .setWithPair 25 4 true, .popFirst, .getPair 21,
            .popLast, .forget 29, .count] .empty).1, sa', c') :=
  skiparray_refines_map Callbacks.tens Config.flat 0 rfl Callbacks.tens_lawful (by decide)
    (by decide) Config.flat_lawful (fun _ => rfl) _ _

end Skiparray
