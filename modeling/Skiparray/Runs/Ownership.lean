import Skiparray.Runs.Reachable

/-!
# Who owns what

Keys and values are pointers that belong to the client or to the skiparray.
`keysIn`, `keysOut`, `valuesIn` and `valuesOut` say what changes hands in a
call. Each call keeps the balance with the bindings, so a whole run to
`skiparray_free` gives back exactly what was taken.
-/

namespace Skiparray

open Fallible

variable {K V U : Type}

/-! ## Transfers -/

/-- The key instances the skiparray takes over in a call. -/
def Call.keysIn : Call K V → Answer K V → Multiset K
  | .setWithPair key _ _, .setWithPair .bound _ => {key}
  | .setWithPair key _ replaceKey, .setWithPair .replaced _ => if replaceKey then {key} else 0
  | _, _ => 0

/-- The key instances a call hands back. -/
def Call.keysOut : Call K V → Answer K V → Multiset K
  | .setWithPair _ _ replaceKey, .setWithPair .replaced (some p) => if replaceKey then {p.1} else 0
  | .forget _, .forget .ok (some p) => {p.1}
  | .popFirst, .pop .ok (some k) _ => {k}
  | .popLast, .pop .ok (some k) _ => {k}
  | _, _ => 0

/-- The values the skiparray takes over in a call. -/
def Call.valuesIn : Call K V → Answer K V → Multiset V
  | .setWithPair _ value _, .setWithPair .bound _ => {value}
  | .setWithPair _ value _, .setWithPair .replaced _ => {value}
  | _, _ => 0

/-- The values a call hands back. -/
def Call.valuesOut : Call K V → Answer K V → Multiset V
  | .setWithPair _ _ _, .setWithPair .replaced (some p) => {p.2}
  | .forget _, .forget .ok (some p) => {p.2}
  | .popFirst, .pop .ok _ (some v) => {v}
  | .popLast, .pop .ok _ (some v) => {v}
  | _, _ => 0

/-- What changes hands in a run. -/
def Call.total {α : Type} (transfer : Call K V → Answer K V → Multiset α) :
    List (Call K V) → List (Answer K V) → Multiset α
  | call :: calls, answer :: answers => transfer call answer + Call.total transfer calls answers
  | _, _ => 0

/-- Calls that hand back what they displace: all but `skiparray_set`. -/
def Call.HandsBack : Call K V → Prop
  | .set _ _ => False
  | _ => True

/-- The keys of some bindings. -/
def heldKeys (l : List (K × V)) : Multiset K := (l.map Prod.fst : List K)

/-- The values of some bindings. -/
def heldValues (l : List (K × V)) : Multiset V := (l.map Prod.snd : List V)

/-- One call balances: what comes in, or was there, goes out, or is there. -/
structure Call.Balances (call : Call K V) (answer : Answer K V) (l l' : List (K × V)) : Prop where
  keys : call.keysIn answer + heldKeys l = call.keysOut answer + heldKeys l'
  values : call.valuesIn answer + heldValues l = call.valuesOut answer + heldValues l'

section Multisets

variable {l₁ l₂ : List (K × V)} {p : K × V}

@[simp] theorem heldKeys_nil : heldKeys ([] : List (K × V)) = 0 := rfl

@[simp] theorem heldKeys_cons : heldKeys (p :: l₁) = {p.1} + heldKeys l₁ := by
  unfold heldKeys
  rw [List.map_cons, ← Multiset.cons_coe, ← Multiset.singleton_add]

@[simp] theorem heldKeys_append : heldKeys (l₁ ++ l₂) = heldKeys l₁ + heldKeys l₂ := by
  unfold heldKeys
  rw [List.map_append, ← Multiset.coe_add]

@[simp] theorem heldValues_nil : heldValues ([] : List (K × V)) = 0 := rfl

@[simp] theorem heldValues_cons : heldValues (p :: l₁) = {p.2} + heldValues l₁ := by
  unfold heldValues
  rw [List.map_cons, ← Multiset.cons_coe, ← Multiset.singleton_add]

@[simp] theorem heldValues_append : heldValues (l₁ ++ l₂) = heldValues l₁ + heldValues l₂ := by
  unfold heldValues
  rw [List.map_append, ← Multiset.coe_add]

theorem heldKeys_reverse (l : List (K × V)) : heldKeys l.reverse = heldKeys l := by
  unfold heldKeys
  rw [List.map_reverse, Multiset.coe_reverse]

theorem heldValues_reverse (l : List (K × V)) : heldValues l.reverse = heldValues l := by
  unfold heldValues
  rw [List.map_reverse, Multiset.coe_reverse]

end Multisets

/-! ## One call -/

section Step

variable [Inhabited V] {cmp : K → K → ℤ} {s : Settings} {l : List (K × V)}

omit [Inhabited V] in
/-- A call that changes nothing moves nothing. -/
theorem Call.Balances.idle {call : Call K V} {answer : Answer K V}
    (hki : call.keysIn answer = 0) (hko : call.keysOut answer = 0)
    (hvi : call.valuesIn answer = 0) (hvo : call.valuesOut answer = 0) :
    call.Balances answer l l := ⟨by rw [hki, hko], by rw [hvi, hvo]⟩

theorem setWithPair_balances (hc : LawfulCmp cmp) (hv : s.useValues = true)
    (ha : Ascending cmp l) (key : K) (value : V) (replaceKey : Bool) :
    (Call.setWithPair key value replaceKey).Balances
      (.setWithPair (setRes (Assoc.find? cmp key l)) (Assoc.find? cmp key l)) l
      (Assoc.put cmp key (s.stored value) replaceKey l) := by
  have hstored : s.stored value = value := by rw [Settings.stored, hv, if_pos rfl]
  rw [hstored]
  rcases Assoc.hit_or_miss hc ha key with ⟨pre, p, post, rfl, h⟩ | ⟨pre, post, rfl, h⟩
  · rw [h.find?_eq hc, h.put_eq hc]
    constructor
    · simp only [setRes, Option.isSome_some, if_true, Call.keysIn, Call.keysOut, heldKeys_append,
        heldKeys_cons]
      cases replaceKey with
      | true =>
          simp only [if_true]
          abel
      | false => simp only [Bool.false_eq_true, if_false]
    · simp only [setRes, Option.isSome_some, if_true, Call.valuesIn, Call.valuesOut,
        heldValues_append, heldValues_cons]
      abel
  · rw [h.find?_eq hc, h.put_eq hc]
    constructor
    · simp only [setRes, Option.isSome_none, Bool.false_eq_true, if_false, Call.keysIn,
        Call.keysOut, heldKeys_append, heldKeys_cons]
      abel
    · simp only [setRes, Option.isSome_none, Bool.false_eq_true, if_false, Call.valuesIn,
        Call.valuesOut, heldValues_append, heldValues_cons]
      abel

omit [Inhabited V] in
theorem forget_balances (hc : LawfulCmp cmp) (ha : Ascending cmp l) (key : K) :
    (Call.forget key : Call K V).Balances
      (.forget (if (Assoc.find? cmp key l).isSome then .ok else .notFound)
        (Assoc.find? cmp key l)) l (Assoc.erase cmp key l) := by
  rcases Assoc.hit_or_miss hc ha key with ⟨pre, p, post, rfl, h⟩ | ⟨pre, post, rfl, h⟩
  · rw [h.find?_eq hc, h.erase_eq hc]
    constructor
    · simp only [Option.isSome_some, if_true, Call.keysIn, Call.keysOut, heldKeys_append,
        heldKeys_cons]
      abel
    · simp only [Option.isSome_some, if_true, Call.valuesIn, Call.valuesOut, heldValues_append,
        heldValues_cons]
      abel
  · rw [h.find?_eq hc, h.erase_eq hc]
    exact .idle rfl rfl rfl rfl

/-- Every call keeps the balance, with the answers of `Call.onList`. -/
theorem onList_balances (hc : LawfulCmp cmp) (hv : s.useValues = true) (ha : Ascending cmp l)
    (call : Call K V) (hcall : call.HandsBack) (locked : Bool) :
    call.Balances (call.onList s cmp locked l).1 l (call.onList s cmp locked l).2 := by
  cases locked with
  | true =>
      cases call with
      | set key value => exact False.elim hcall
      | _ => exact .idle rfl rfl rfl rfl
  | false =>
      have hout : ∀ v : V, s.out v = some v := by
        intro v
        rw [Settings.out, hv, if_pos rfl]
      cases call with
      | set key value => exact False.elim hcall
      | setWithPair key value replaceKey => exact setWithPair_balances hc hv ha key value replaceKey
      | forget key => exact forget_balances hc ha key
      | popFirst =>
          cases l with
          | nil => exact .idle rfl rfl rfl rfl
          | cons p l =>
              simp only [Call.onList, Bool.false_eq_true, if_false, List.head?_cons, outPair, hout,
                List.tail_cons]
              constructor
              · simp only [Call.keysIn, Call.keysOut, heldKeys_cons, zero_add]
              · simp only [Call.valuesIn, Call.valuesOut, heldValues_cons, zero_add]
      | popLast =>
          rcases List.eq_nil_or_concat l with rfl | ⟨l, p, rfl⟩
          · exact .idle rfl rfl rfl rfl
          · simp only [Call.onList, Bool.false_eq_true, if_false, List.concat_eq_append,
              List.getLast?_concat, outPair, hout, List.dropLast_concat]
            constructor
            · simp only [Call.keysIn, Call.keysOut, heldKeys_append, heldKeys_cons, heldKeys_nil]
              abel
            · simp only [Call.valuesIn, Call.valuesOut, heldValues_append, heldValues_cons,
                heldValues_nil]
              abel
      | get key => exact .idle rfl rfl rfl rfl
      | getPair key => exact .idle rfl rfl rfl rfl
      | member key => exact .idle rfl rfl rfl rfl
      | count => exact .idle rfl rfl rfl rfl
      | first => exact .idle rfl rfl rfl rfl
      | last => exact .idle rfl rfl rfl rfl

omit [Inhabited V] in
/-- A call that finds no memory moves nothing. -/
theorem onNoMemory_balances {call : Call K V} {answer : Answer K V}
    (h : call.onNoMemory = some answer) : call.Balances answer l l := by
  cases call with
  | set key value =>
      cases h
      exact .idle rfl rfl rfl rfl
  | setWithPair key value replaceKey =>
      cases h
      exact .idle rfl rfl rfl rfl
  | _ => cases h

end Step

/-! ## Runs -/

section Run

variable [Inhabited K] [Inhabited V] {cb : Callbacks K U}

/-- A run that came back keeps the balance. -/
theorem run_balances :
    ∀ (calls : List (Call K V)) {sa sa' : SkipArray K V} {bs : List (Block K V)}
      {c c' : Ctx K V U} {answers : List (Answer K V)}, LawfulCmp (cb.cmp sa.cmp) →
      sa.Wf (cb.cmp sa.cmp) bs → sa.iter = none → sa.useValues = true →
      (∀ call ∈ calls, call.HandsBack) → SkipArray.run cb calls sa c = .ok (answers, sa', c') →
      ∃ bs', sa'.Wf (cb.cmp sa.cmp) bs' ∧ Keeps sa sa' ∧ c'.freed = c.freed ∧
        Call.total Call.keysIn calls answers + heldKeys (bindings bs) =
          Call.total Call.keysOut calls answers + heldKeys (bindings bs') ∧
        Call.total Call.valuesIn calls answers + heldValues (bindings bs) =
          Call.total Call.valuesOut calls answers + heldValues (bindings bs')
  | [], sa, _, bs, _, _, _, _, h, _, _, _, hrun => by
      cases hrun
      exact ⟨bs, h, .refl sa, rfl, rfl, rfl⟩
  | call :: calls, sa, sa', bs, c, c', answers, hc, h, hiter, hv, hcalls, hrun => by
      obtain ⟨⟨answer, sa₁, c₁⟩, hcall, hrest⟩ := bind_eq_ok.mp hrun
      obtain ⟨⟨answers', sa₂, c₂⟩, hrun', hlast⟩ := bind_eq_ok.mp hrest
      cases hlast
      obtain ⟨l', hl, hres⟩ := call_ok hc h hcall
      obtain ⟨hkeep, hfreed, bs₁, hwf, rfl⟩ := hl
      have hbal : call.Balances answer (bindings bs) (bindings bs₁) := by
        rcases hres with hres | ⟨-, -, hno, hsame⟩
        · have := onList_balances hc hv h.ascending call (hcalls call (by simp)) sa.iter.isSome
          rwa [← hres] at this
        · rw [hsame]
          exact onNoMemory_balances hno
      have hset := hkeep.settings
      have hcmp : cb.cmp sa₁.cmp = cb.cmp sa.cmp := by rw [hset]
      obtain ⟨bs', hwf', hkeep', hfreed', hkeys, hvalues⟩ := run_balances calls
        (hcmp ▸ hc) (hcmp ▸ hwf) (hkeep.iter.trans hiter) (by rw [hset]; exact hv)
        (fun call hm => hcalls call (List.mem_cons_of_mem _ hm)) hrun'
      refine ⟨bs', hcmp ▸ hwf', hkeep.trans hkeep', hfreed'.trans hfreed, ?_, ?_⟩
      · calc call.keysIn answer + Call.total Call.keysIn calls answers' + heldKeys (bindings bs)
            = (call.keysIn answer + heldKeys (bindings bs)) +
                Call.total Call.keysIn calls answers' := by abel
          _ = (call.keysOut answer + heldKeys (bindings bs₁)) +
                Call.total Call.keysIn calls answers' := by rw [hbal.keys]
          _ = call.keysOut answer + (Call.total Call.keysIn calls answers' +
                heldKeys (bindings bs₁)) := by abel
          _ = call.keysOut answer + (Call.total Call.keysOut calls answers' +
                heldKeys (bindings bs')) := by rw [hkeys]
          _ = call.keysOut answer + Call.total Call.keysOut calls answers' +
                heldKeys (bindings bs') := by abel
      · calc call.valuesIn answer + Call.total Call.valuesIn calls answers' +
              heldValues (bindings bs)
            = (call.valuesIn answer + heldValues (bindings bs)) +
                Call.total Call.valuesIn calls answers' := by abel
          _ = (call.valuesOut answer + heldValues (bindings bs₁)) +
                Call.total Call.valuesIn calls answers' := by rw [hbal.values]
          _ = call.valuesOut answer + (Call.total Call.valuesIn calls answers' +
                heldValues (bindings bs₁)) := by abel
          _ = call.valuesOut answer + (Call.total Call.valuesOut calls answers' +
                heldValues (bindings bs')) := by rw [hvalues]
          _ = call.valuesOut answer + Call.total Call.valuesOut calls answers' +
                heldValues (bindings bs') := by abel

/-- A run comes back when no pop can overflow its level counter. -/
theorem run_total :
    ∀ (calls : List (Call K V)) {sa : SkipArray K V} {bs : List (Block K V)},
      LawfulCmp (cb.cmp sa.cmp) → sa.Wf (cb.cmp sa.cmp) bs → sa.maxLevel ≤ 128 →
      ∀ c : Ctx K V U, ∃ answers sa' c', SkipArray.run cb calls sa c = .ok (answers, sa', c')
  | [], sa, _, _, _, _, c => ⟨[], sa, c, rfl⟩
  | call :: calls, sa, bs, hc, h, hmax, c => by
      have hheight := h.toSound.height_le
      obtain ⟨answer, sa₁, c₁, l₁, hcall, ⟨hkeep, -, bs₁, hwf, -⟩, -⟩ :=
        call_spec hc h c call fun _ _ _ => by omega
      have hset := hkeep.settings
      have hcmp : cb.cmp sa₁.cmp = cb.cmp sa.cmp := by rw [hset]
      obtain ⟨answers, sa', c', hrun⟩ := run_total calls
        (hcmp ▸ hc) (hcmp ▸ hwf) (by rw [hset]; exact hmax) c₁
      refine ⟨answer :: answers, sa', c', ?_⟩
      simp only [SkipArray.run, hcall, ok_bind, hrun]
      rfl

/-- From `skiparray_new` to `skiparray_free`, every key instance and every value
that went in comes out again, once. -/
theorem ownership_conserved {config : Config} {f : ℕ} (hcmp : config.cmp = some f)
    (hc : LawfulCmp (cb.cmp f)) (hvalues : config.ignoreValues = false)
    (hfree : config.free ≠ none) {c c₁ : Ctx K V U} {sa : SkipArray K V}
    (hnew : skiparrayNew cb (some config) c = .ok (.ok, some sa, c₁)) (calls : List (Call K V))
    (hcalls : ∀ call ∈ calls, call.HandsBack) :
    (∀ answers sa' c₂, SkipArray.run cb calls sa c₁ = .ok (answers, sa', c₂) →
      ∃ c₃ freed, skiparrayFree sa' c₂ = .ok c₃ ∧ c₃.freed = freed ++ c.freed ∧
        Call.total Call.keysIn calls answers =
          Call.total Call.keysOut calls answers + heldKeys freed ∧
        Call.total Call.valuesIn calls answers =
          Call.total Call.valuesOut calls answers + heldValues freed) ∧
      (config.effMaxLevel ≤ 128 →
        ∃ answers sa' c₂, SkipArray.run cb calls sa c₁ = .ok (answers, sa', c₂)) := by
  obtain ⟨cfg, bs, heq, hfresh, hfreed⟩ := skiparrayNew_ok hnew
  cases heq
  obtain ⟨f', block, hf', hset⟩ := hfresh.settings
  obtain rfl : f' = f := Option.some.inj (hf'.symm.trans hcmp)
  have hsa : sa.cmp = f' := congrArg Settings.cmp hset
  have hv : sa.useValues = true := by
    have : sa.useValues = !config.ignoreValues := congrArg Settings.useValues hset
    rw [this, hvalues]
    rfl
  have hfr : sa.free = config.free := congrArg Settings.free hset
  have hm : sa.maxLevel = config.effMaxLevel := congrArg Settings.maxLevel hset
  constructor
  · intro answers sa' c₂ hrun
    obtain ⟨bs', hwf, hkeep, hlog, hkeys, hvals⟩ := run_balances calls (hsa ▸ hc) (hfresh.wf _)
      hfresh.iter hv hcalls hrun
    obtain ⟨c₃, h₃, hlog₃, -⟩ := skiparrayFree_spec hwf.toSound (hkeep.iter.trans hfresh.iter) c₂
    have hsome : sa'.free.isSome = true := by
      rw [hkeep.settings, hfr]
      exact Option.isSome_iff_ne_none.mpr hfree
    refine ⟨c₃, (bindings bs').reverse, h₃, ?_, ?_, ?_⟩
    · rw [hlog₃, hlog, hfreed, Settings.freedPairs, if_pos hsome]
    · rw [hfresh.bindings_eq] at hkeys
      rw [heldKeys_reverse, ← hkeys]
      simp
    · rw [hfresh.bindings_eq] at hvals
      rw [heldValues_reverse, ← hvals]
      simp
  · intro hmax
    exact run_total calls (hsa ▸ hc) (hfresh.wf _) (hm ▸ hmax) c₁

theorem ownership_conserved_plain :
    (∀ answers sa' c₂, SkipArray.run Callbacks.plain
        [.setWithPair 1 10 true, .setWithPair 1 20 true, .setWithPair 2 30 false, .popFirst]
        SkipArray.plain ⟨(), 4, [], []⟩ = .ok (answers, sa', c₂) →
      ∃ c₃ freed, skiparrayFree sa' c₂ = .ok c₃ ∧ c₃.freed = freed ++ [] ∧
        Call.total Call.keysIn
            [.setWithPair 1 10 true, .setWithPair 1 20 true, .setWithPair 2 30 false, .popFirst]
            answers =
          Call.total Call.keysOut
            [.setWithPair 1 10 true, .setWithPair 1 20 true, .setWithPair 2 30 false, .popFirst]
            answers + heldKeys freed ∧
        Call.total Call.valuesIn
            [.setWithPair 1 10 true, .setWithPair 1 20 true, .setWithPair 2 30 false, .popFirst]
            answers =
          Call.total Call.valuesOut
            [.setWithPair 1 10 true, .setWithPair 1 20 true, .setWithPair 2 30 false, .popFirst]
            answers + heldValues freed) ∧
      (Config.plain.effMaxLevel ≤ 128 →
        ∃ answers sa' c₂, SkipArray.run Callbacks.plain
          [.setWithPair 1 10 true, .setWithPair 1 20 true, .setWithPair 2 30 false, .popFirst]
          SkipArray.plain ⟨(), 4, [], []⟩ = .ok (answers, sa', c₂)) :=
  ownership_conserved rfl LawfulCmp.int_sub rfl (by decide) SkipArray.plain_new _
    (by simp [Call.HandsBack])

end Run

end Skiparray
