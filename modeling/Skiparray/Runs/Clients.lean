import Skiparray.Runs.FoldTwins

/-!
# Clients

A client has skiparrays, folds in progress and a state that the callbacks of its
folds work on. It makes requests, in any order, and gets replies. Clients with
twins of each other's skiparrays get the same replies.
-/

namespace Skiparray

open SkipLinks Fallible

variable {K V U W : Type}

/-- What a client has to do with: its skiparrays, the folds it has started and not
finished, the state behind the `udata` of its callbacks, and the rest of the world. -/
structure World (K V U W : Type) where
  sas : List (SkipArray K V)
  folds : List (Option (FoldState K V U W))
  acc : W
  c : Ctx K V U

/-- A request. Skiparrays and folds are named by their numbers, iterators by their
pointers. -/
inductive Request (K V W : Type) where
  | call (h : ℕ) (call : Call K V)
  | iterNew (h : ℕ)
  | iterFree (h : ℕ) (it : Option Ptr)
  | iterGet (h : ℕ) (it : Ptr)
  | move (h : ℕ) (it : Ptr) (move : Move K)
  | foldInit (type : FoldType) (skiparrays : Option (List (Option ℕ)))
      (fold : Option (K → V → W → W)) (merge : Option (List K → List V → W → ℕ × V × W))
  | foldNext (i : ℕ)
  | foldHalt (i : ℕ)
  | fold (type : FoldType) (h : ℕ) (fold : K → V → W → W)

/-- What a client gets to see. -/
inductive Reply (K V W : Type) where
  | call (answer : Answer K V)
  | iterNew (res : IterNewRes) (it : Option Ptr)
  | iterFree
  | iterGet (key : K) (value : Option V)
  | move (res : MoveRes)
  | foldInit (res : FoldRes)
  | foldNext (res : FoldNextRes) (acc : W)
  | foldHalt
  | fold (res : FoldRes) (acc : W)

/-- A request for memory was refused. -/
def Reply.Refused : Reply K V W → Prop
  | .call answer => answer.Refused
  | .iterNew res _ => res = .errorMemory
  | .foldInit res => res = .errorMemory
  | .fold res _ => res = .errorMemory
  | _ => False

/-- The fold with number `i`, if it is in progress. -/
def World.loadFold (w : World K V U W) (i : ℕ) : Except Fault (FoldState K V U W) := do
  match ← slot w.folds i with
  | none => .error .null
  | some fs => return fs

section Machine

variable [Inhabited K] [Inhabited V]

def World.step (cb : Callbacks K U) (w : World K V U W) :
    Request K V W → Except Fault (Reply K V W × World K V U W)
  | .call h call => do
    let sa ← slot w.sas h
    let (answer, sa, c) ← sa.call cb w.c call
    return (.call answer, { w with sas := w.sas.set h sa, c })
  | .iterNew h => do
    let sa ← slot w.sas h
    let (res, it, sa, c) ← skiparrayIterNew cb sa w.c
    return (.iterNew res it, { w with sas := w.sas.set h sa, c })
  | .iterFree h it => do
    let sa ← slot w.sas h
    let (sa, c) ← skiparrayIterFree sa w.c it
    return (.iterFree, { w with sas := w.sas.set h sa, c })
  | .iterGet h it => do
    let sa ← slot w.sas h
    let (key, value) ← skiparrayIterGet sa it
    return (.iterGet key value, w)
  | .move h it move => do
    let sa ← slot w.sas h
    let (res, sa) ← sa.move cb it move
    return (.move res, { w with sas := w.sas.set h sa })
  | .foldInit type skiparrays fold merge => do
    let (res, fs, sas, c) ← skiparrayFoldMultiInit cb type skiparrays (fold.map clientFold)
      (merge.map clientMerge) w.sas w.c
    return (.foldInit res, { w with sas, c, folds := w.folds ++ [fs] })
  | .foldNext i => do
    let fs ← w.loadFold i
    let (res, fs, sas, acc, c) ← skiparrayFoldNext cb fs w.sas w.acc w.c
    return (.foldNext res acc, { sas, acc, c, folds := w.folds.set i fs })
  | .foldHalt i => do
    let fs ← w.loadFold i
    let (sas, c) ← skiparrayFoldHalt fs w.sas w.c
    return (.foldHalt, { w with sas, c, folds := w.folds.set i none })
  | .fold type h fold => do
    let (res, sas, acc, c) ← skiparrayFold cb type h (clientFold fold) w.sas w.acc w.c
    return (.fold res acc, { w with sas, acc, c })

/-- Requests one after the other, with their replies. -/
def World.run (cb : Callbacks K U) :
    List (Request K V W) → World K V U W → Except Fault (List (Reply K V W) × World K V U W)
  | [], w => .ok ([], w)
  | req :: reqs, w => do
    let (reply, w) ← w.step cb req
    let (replies, w) ← World.run cb reqs w
    return (reply :: replies, w)

/-- The request does not run into the narrow counters: no pop of the last pair over
more than 128 levels, no step ahead from the largest index. -/
def World.Steady (w : World K V U W) : Request K V W → Prop
  | .call h call => ∀ sa, w.sas[h]? = some sa → sa.PopsInside call
  | .move h it move => ∀ sa, w.sas[h]? = some sa → move = .next → sa.NoWrap it
  | _ => True

/-- A run that stays clear of the narrow counters and is refused no memory. -/
def World.Clear (cb : Callbacks K U) : List (Request K V W) → World K V U W → Prop
  | [], _ => True
  | req :: reqs, w => w.Steady req ∧
      ∀ reply w', w.step cb req = .ok (reply, w') → ¬ reply.Refused ∧ World.Clear cb reqs w'

/-- A client cannot tell `s` from `sa`: whatever else it has, and whatever it does,
it gets the same replies. -/
def Indistinguishable (cb : Callbacks K U) (sa s : SkipArray K V) : Prop :=
  ∀ (W : Type) (before after : List (SkipArray K V)) (acc : W) (c c' : Ctx K V U)
    (reqs : List (Request K V W)),
    (∀ x ∈ before ++ after, ∃ f, LawfulCmp (cb.cmp f) ∧ Reachable cb f x) →
    World.Clear cb reqs ⟨before ++ sa :: after, [], acc, c⟩ →
    World.Clear cb reqs ⟨before ++ s :: after, [], acc, c'⟩ →
    (World.run cb reqs ⟨before ++ sa :: after, [], acc, c⟩).map Prod.fst =
      (World.run cb reqs ⟨before ++ s :: after, [], acc, c'⟩).map Prod.fst

end Machine

/-! ## Lockstep -/

section Lockstep

variable [Inhabited K] [Inhabited V] {cb : Callbacks K U} {w w' : World K V U W}

/-- Clients that hold twins, and folds over them. -/
structure World.Twins (cb : Callbacks K U) (w w' : World K V U W) : Prop where
  sas : List.Forall₂ (Twin cb) w.sas w'.sas
  folds : List.Forall₂ (Option.Rel FoldTwin) w.folds w'.folds
  acc : w'.acc = w.acc

omit [Inhabited K] [Inhabited V] in
theorem loadFold_together (h : List.Forall₂ (Option.Rel FoldTwin) w.folds w'.folds) (i : ℕ) :
    Together FoldTwin (w.loadFold i) (w'.loadFold i) := by
  refine (slot_together h i).bind fun fs fs' hfs => ?_
  cases hfs with
  | none => exact .error _
  | some hfs => exact .ok hfs

/-- One request. -/
theorem World.step_together (h : w.Twins cb w') (req : Request K V W) (hsteady : w.Steady req)
    (hsteady' : w'.Steady req) (hmet : ∀ reply w₁, w.step cb req = .ok (reply, w₁) → ¬ reply.Refused)
    (hmet' : ∀ reply w₁, w'.step cb req = .ok (reply, w₁) → ¬ reply.Refused) :
    Together (fun r r' => r.1 = r'.1 ∧ r.2.Twins cb r'.2) (w.step cb req) (w'.step cb req) := by
  cases req with
  | call g call =>
      refine (slot_together h.sas g).bind_of fun sa sa' hsa hsa' htwin => ?_
      refine (htwin.call w.c w'.c call (hsteady sa (slot_ok hsa)) (hsteady' sa' (slot_ok hsa'))).bind_of ?_
      rintro ⟨answer, sa₁, c₁⟩ ⟨answer', sa₁', c₁'⟩ heq heq' hr
      obtain ⟨hanswer, htwin₁⟩ :=
        hr (hmet (.call answer) _ (bind_eq_ok.mpr ⟨_, hsa, bind_eq_ok.mpr ⟨_, heq, rfl⟩⟩))
          (hmet' (.call answer') _ (bind_eq_ok.mpr ⟨_, hsa', bind_eq_ok.mpr ⟨_, heq', rfl⟩⟩))
      exact .ok ⟨congrArg Reply.call hanswer, forall₂_set h.sas htwin₁ g, h.folds, h.acc⟩
  | iterNew g =>
      refine (slot_together h.sas g).bind_of fun sa sa' hsa hsa' htwin => ?_
      refine (htwin.iterNew w.c w'.c).bind_of ?_
      rintro ⟨res, it, sa₁, c₁⟩ ⟨res', it', sa₁', c₁'⟩ heq heq' hr
      obtain ⟨hres, hit, htwin₁⟩ :=
        hr (hmet (.iterNew res it) _ (bind_eq_ok.mpr ⟨_, hsa, bind_eq_ok.mpr ⟨_, heq, rfl⟩⟩))
          (hmet' (.iterNew res' it') _ (bind_eq_ok.mpr ⟨_, hsa', bind_eq_ok.mpr ⟨_, heq', rfl⟩⟩))
      exact .ok ⟨congrArg₂ Reply.iterNew hres hit, forall₂_set h.sas htwin₁ g, h.folds, h.acc⟩
  | iterFree g it =>
      refine (slot_together h.sas g).bind fun sa sa' htwin => ?_
      refine (htwin.iterFree w.c w'.c it).bind fun r r' hr => ?_
      exact .ok ⟨rfl, forall₂_set h.sas hr g, h.folds, h.acc⟩
  | iterGet g it =>
      refine (slot_together h.sas g).bind fun sa sa' htwin => ?_
      refine (htwin.iterGet it).bind ?_
      rintro r _ ⟨rfl, -, -⟩
      exact .ok ⟨rfl, h⟩
  | move g it move =>
      refine (slot_together h.sas g).bind_of fun sa sa' hsa hsa' htwin => ?_
      refine (htwin.move it move (hsteady sa (slot_ok hsa)) (hsteady' sa' (slot_ok hsa'))).bind ?_
      rintro r r' ⟨hres, htwin₁⟩
      exact .ok ⟨congrArg Reply.move hres, forall₂_set h.sas htwin₁ g, h.folds, h.acc⟩
  | foldInit type skiparrays fold merge =>
      refine (skiparrayFoldMultiInit_together type skiparrays fold merge h.sas w.c w'.c ?_ ?_).bind ?_
      · intro r hr
        exact hmet (.foldInit r.1) _ (bind_eq_ok.mpr ⟨_, hr, rfl⟩)
      · intro r hr
        exact hmet' (.foldInit r.1) _ (bind_eq_ok.mpr ⟨_, hr, rfl⟩)
      · rintro r r' ⟨hres, hfs, hsas⟩
        exact .ok ⟨congrArg Reply.foldInit hres, hsas, List.rel_append h.folds (.cons hfs .nil), h.acc⟩
  | foldNext i =>
      refine (loadFold_together h.folds i).bind fun fs fs' hfs => ?_
      rw [h.acc]
      refine (skiparrayFoldNext_together hfs h.sas w.acc w.c w'.c).bind ?_
      rintro ⟨res, next, sas₁, acc, c₁⟩ ⟨_, next', sas₁', _, c₁'⟩ ⟨rfl, hnext, hsas, rfl⟩
      exact .ok ⟨rfl, hsas, forall₂_set h.folds hnext i, rfl⟩
  | foldHalt i =>
      refine (loadFold_together h.folds i).bind fun fs fs' hfs => ?_
      refine (skiparrayFoldHalt_together hfs h.sas w.c w'.c).bind fun r r' hr => ?_
      exact .ok ⟨rfl, hr, forall₂_set h.folds .none i, h.acc⟩
  | fold type g fold =>
      have hfold := skiparrayFold_together type g fold h.sas w.acc w.c w'.c
        (fun r hr => hmet (.fold r.1 r.2.2.1) _ (bind_eq_ok.mpr ⟨_, hr, rfl⟩))
        (fun r hr => hmet' (.fold r.1 r.2.2.1) _ (bind_eq_ok.mpr ⟨_, h.acc.symm ▸ hr, rfl⟩))
      rw [World.step, World.step, h.acc]
      refine hfold.bind ?_
      rintro ⟨res, sas₁, acc, c₁⟩ ⟨_, sas₁', _, c₁'⟩ ⟨rfl, hsas, rfl⟩
      exact .ok ⟨rfl, hsas, h.folds, rfl⟩

/-- A run. -/
theorem World.run_together : ∀ (reqs : List (Request K V W)) {w w' : World K V U W},
    w.Twins cb w' → World.Clear cb reqs w → World.Clear cb reqs w' →
      Together (fun r r' => r.1 = r'.1 ∧ r.2.Twins cb r'.2) (World.run cb reqs w)
        (World.run cb reqs w')
  | [], _, _, h, _, _ => .ok ⟨rfl, h⟩
  | req :: reqs, w, w', h, ⟨hsteady, hclear⟩, ⟨hsteady', hclear'⟩ => by
      rw [World.run, World.run]
      refine (World.step_together h req hsteady hsteady' (fun reply w₁ hr => (hclear reply w₁ hr).1)
        fun reply w₁ hr => (hclear' reply w₁ hr).1).bind_of ?_
      rintro ⟨reply, w₁⟩ ⟨_, w₁'⟩ hstep hstep' ⟨rfl, htwins⟩
      refine (World.run_together reqs htwins (hclear _ _ hstep).2 (hclear' _ _ hstep').2).bind ?_
      rintro ⟨replies, w₂⟩ ⟨_, w₂'⟩ ⟨rfl, htwins₂⟩
      exact .ok ⟨rfl, htwins₂⟩

theorem Reachable.twin_self {f : ℕ} {sa : SkipArray K V} (hc : LawfulCmp (cb.cmp f))
    (h : Reachable cb f sa) : Twin cb sa sa := by
  obtain ⟨rfl, bs, its, hco⟩ := h.coherent hc
  refine ⟨hc, h, h, bs, bs, its, sameCallbacks_iff.mpr ⟨rfl, rfl, rfl, rfl⟩, hco, hco, rfl, rfl, ?_⟩
  exact fun p hp => (hco.placed p hp).imp fun _ hat => ⟨hat, hat⟩

/-- Twins are told apart by no client. -/
theorem Twin.indistinguishable {sa s : SkipArray K V} (h : Twin cb sa s) :
    Indistinguishable cb sa s := by
  intro W before after acc c c' reqs hothers hclear hclear'
  have hsame : ∀ {l : List (SkipArray K V)}, (∀ x ∈ l, x ∈ before ++ after) →
      List.Forall₂ (Twin cb) l l := by
    intro l hl
    rw [List.forall₂_same]
    intro x hx
    obtain ⟨f, hc, hreach⟩ := hothers x (hl x hx)
    exact hreach.twin_self hc
  have hworlds : World.Twins cb ⟨before ++ sa :: after, [], acc, c⟩
      ⟨before ++ s :: after, [], acc, c'⟩ :=
    ⟨List.rel_append (hsame (by simp_all)) (.cons h (hsame (by simp_all))), .nil, rfl⟩
  exact (World.run_together reqs hworlds hclear hclear').map_eq fun r r' hr => hr.1

end Lockstep

end Skiparray
