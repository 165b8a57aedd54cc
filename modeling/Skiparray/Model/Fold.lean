import Skiparray.Model.Iter

/-!
# Folds

Incremental folds over one or more skiparrays, merging equal keys. The
collections folded over live in a list `sas` and are named by their position;
the inputs of a fold may name one more than once. The callbacks get the state
`W` behind their `udata`.
-/

namespace Skiparray

open Fallible

variable {K V U W : Type} [Inhabited K] [Inhabited V]

inductive FoldType where
  | left
  | right
deriving DecidableEq, Repr

/-- `enum pair_state` -/
inductive PairState where
  | none
  | availableLt
  | availableEq
deriving DecidableEq, Repr

/-- `struct iter_state`; the iterator comes with the position of its skiparray. -/
structure IterState (K V : Type) where
  state : PairState
  pair : K × V
  iter : Option (ℕ × Ptr)
deriving DecidableEq, Repr

/-- The callbacks of a fold. The merge callback is given the keys and values
and answers the offset of the key to use and the merged value. -/
structure FoldCbs (K V U W : Type) where
  fold : K → V → W → Ctx K V U → Except Fault (W × Ctx K V U)
  merge : Option (List K → List V → W → Ctx K V U → Except Fault (ℕ × V × W × Ctx K V U))

/-- The queue `fs->ids`. -/
structure Ids where
  available : ℕ
  offset : ℕ
  current : List ℕ
deriving DecidableEq, Repr

/-- `struct skiparray_fold_state` -/
structure FoldState (K V U W : Type) where
  type : FoldType
  useValues : Bool
  cbs : FoldCbs K V U W
  cmp : ℕ
  ids : Ids
  iterCount : ℕ
  iterLive : ℕ
  iters : List (IterState K V)
  block : ℕ
  idsBlock : ℕ

/-! ## The queue -/

/-- The loop of `insert_pair` from position `ciI`, `n` entries to go. Answers
the queue and the state of the new entry. -/
def insertLoop (cmp : K → K → ℤ) (iters : List (IterState K V)) (iterI : ℕ) (key : K) (ids : Ids) :
    ℕ → ℕ → Except Fault (Ids × PairState)
  | _, 0 => do
    check (iterI ≤ 255)
    let current ← putSlot ids.current ids.available iterI
    return ({ ids with current, available := u8 (ids.available + 1) }, .availableLt)
  | ciI, n + 1 => do
    let id ← slot ids.current ciI
    let other ← slot iters id
    let cmpRes := cmp key other.pair.1
    if cmpRes ≤ 0 then
      -- shift forward
      let current ← copySlots ids.current ids.current (ciI + 1) ciI (ids.available - ciI)
      let current ← putSlot current ciI (u8 iterI)
      return ({ ids with current, available := u8 (ids.available + 1) },
        if cmpRes = 0 then .availableEq else .availableLt)
    else
      insertLoop cmp iters iterI key ids (ciI + 1) n

/-- `insert_pair` -/
def insertPair (cmp : K → K → ℤ) (fs : FoldState K V U W) (iterI : ℕ) :
    Except Fault (FoldState K V U W) := do
  let ids ← (if 0 < fs.ids.offset then do
      let current ← copySlots fs.ids.current fs.ids.current 0 fs.ids.offset fs.ids.available
      pure { fs.ids with current, offset := 0 }
    else pure fs.ids)
  let is ← slot fs.iters iterI
  let (ids, state) ← insertLoop cmp fs.iters iterI is.pair.1 ids 0 ids.available
  let iters ← putSlot fs.iters iterI { is with state }
  return { fs with ids, iters }

/-- The body of `step_active_iterators` for iterator `i`. -/
def stepIterator (cb : Callbacks K U) (i : ℕ)
    (s : FoldState K V U W × List (SkipArray K V) × Ctx K V U) :
    Except Fault (FoldState K V U W × List (SkipArray K V) × Ctx K V U) := do
  let (fs, sas, c) := s
  let is ← slot fs.iters i
  match is.iter with
  | none => return (fs, sas, c)
  | some (h, it) =>
    if is.state ≠ .none then return (fs, sas, c)
    else
      let sa ← slot sas h
      let (k, v) ← skiparrayIterGet sa it
      -- an unwritten value keeps what the pair held
      let iters ← putSlot fs.iters i { is with pair := (k, v.getD is.pair.2) }
      let fs ← insertPair (cb.cmp fs.cmp) { fs with iters } i
      let is ← slot fs.iters i
      check (is.state ≠ .none)
      let (res, sa) ← (match fs.type with
        | .right => skiparrayIterPrev sa it
        | .left => skiparrayIterNext sa it)
      if res = .ended then
        let (sa, c) ← skiparrayIterFree sa c (some it)
        let iters ← putSlot fs.iters i { is with iter := none }
        check (0 < fs.iterLive)
        return ({ fs with iters, iterLive := fs.iterLive - 1 }, sas.set h sa, c)
      else
        return (fs, sas.set h sa, c)

/-- `step_active_iterators` -/
def stepActiveIterators (cb : Callbacks K U) (fs : FoldState K V U W)
    (sas : List (SkipArray K V)) (c : Ctx K V U) :
    Except Fault (FoldState K V U W × List (SkipArray K V) × Ctx K V U) := do
  check (0 < fs.iterLive)
  forUp (stepIterator cb) fs.iterCount (fs, sas, c)

/-- The first loop of `call_with_next`: the pairs from position `i` on that are
marked equal to their successor, at most `n` of them. -/
def collectEqual (fs : FoldState K V U W) : ℕ → ℕ → Except Fault (List (K × V))
  | _, 0 => .ok []
  | i, n + 1 => do
    let id ← slot fs.ids.current i
    let is ← slot fs.iters id
    if is.state ≠ .availableEq then
      return []
    else
      let rest ← collectEqual fs (i + 1) n
      return (is.pair.1, if fs.useValues then is.pair.2 else default) :: rest

/-- The last loop of `call_with_next`: entry `i` of the queue is used up. -/
def clearState (current : List ℕ) (base i : ℕ) (iters : List (IterState K V)) :
    Except Fault (List (IterState K V)) := do
  let id ← slot current (i + base)
  let is ← slot iters id
  putSlot iters id { is with state := .none }

/-- `call_with_next` -/
def callWithNext (fs : FoldState K V U W) (count : ℕ) (w : W) (c : Ctx K V U) :
    Except Fault (FoldState K V U W × W × Ctx K V U) := do
  check (0 < fs.ids.available)
  let base := fs.ids.offset
  let id ← slot fs.ids.current base
  let first ← slot fs.iters id
  if first.state = .availableLt then
    let (w, c) ← fs.cbs.fold first.pair.1 first.pair.2 w c
    let iters ← putSlot fs.iters id { first with state := .none }
    let ids := { fs.ids with
      available := fs.ids.available - 1, offset := u8 (fs.ids.offset + 1) }
    return ({ fs with ids, iters }, w, c)
  else
    check (first.state = .availableEq)
    match fs.cbs.merge with
    | none => .error .assertion
    | some merge =>
      let pairs ← collectEqual fs base fs.ids.available
      -- the arrays handed to the callback have `count` elements
      if count < pairs.length then .error .bounds
      else
        let used := pairs.length
        check (0 < used)
        let (choice, mergedValue, w, c) ← merge (pairs.map Prod.fst) (pairs.map Prod.snd) w c
        check (choice < used)
        let key ← slot (pairs.map Prod.fst) choice
        let (w, c) ← fs.cbs.fold key mergedValue w c
        let iters ← forUp (clearState fs.ids.current base) used fs.iters
        let ids := { fs.ids with
          available := fs.ids.available - used, offset := u8 (fs.ids.offset + used) }
        return ({ fs with ids, iters }, w, c)

/-! ## Starting and stopping -/

inductive FoldRes where
  | ok
  | errorMisuse
  | errorMemory
deriving DecidableEq, Repr

/-- Free the iterators of a fold. -/
def freeFoldIters : List (IterState K V) → List (SkipArray K V) → Ctx K V U →
    Except Fault (List (SkipArray K V) × Ctx K V U)
  | [], sas, c => .ok (sas, c)
  | is :: rest, sas, c =>
    match is.iter with
    | none => freeFoldIters rest sas c
    | some (h, it) => do
      let sa ← slot sas h
      let (sa, c) ← skiparrayIterFree sa c (some it)
      freeFoldIters rest (sas.set h sa) c

/-- The loop of `skiparray_fold_multi_init` that creates the iterators. Answers
whether all could be created, those that were, and how many are live. -/
def initIters (cb : Callbacks K U) (type : FoldType) :
    List ℕ → List (SkipArray K V) → Ctx K V U → List (IterState K V) → ℕ →
    Except Fault (Bool × List (IterState K V) × ℕ × List (SkipArray K V) × Ctx K V U)
  | [], sas, c, iters, live => .ok (true, iters, live, sas, c)
  | h :: rest, sas, c, iters, live => do
    let sa ← slot sas h
    match ← skiparrayIterNew cb sa c with
    | (.errorMemory, _, sa, c) => return (false, iters, live, sas.set h sa, c)
    | (.empty, _, sa, c) =>
      initIters cb type rest (sas.set h sa) c (iters ++ [⟨.none, default, none⟩]) live
    | (.ok, none, _, _) => .error .null
    | (.ok, some it, sa, c) =>
      let sa ← (match type with
        | .right => skiparrayIterSeekEndpoint sa it .last
        | .left => pure sa)
      initIters cb type rest (sas.set h sa) c (iters ++ [⟨.none, default, some (h, it)⟩])
        (live + 1)

/-- The callbacks that all inputs of a fold must share. -/
def sameCallbacks (a b : SkipArray K V) : Bool :=
  a.cmp = b.cmp ∧ a.mem = b.mem ∧ a.free = b.free ∧ a.useValues = b.useValues

/-- `skiparray_fold_multi_init` -/
def skiparrayFoldMultiInit (cb : Callbacks K U) (type : FoldType)
    (skiparrays : Option (List (Option ℕ)))
    (fold : Option (K → V → W → Ctx K V U → Except Fault (W × Ctx K V U)))
    (merge : Option (List K → List V → W → Ctx K V U → Except Fault (ℕ × V × W × Ctx K V U)))
    (sas : List (SkipArray K V)) (c : Ctx K V U) :
    Except Fault (FoldRes × Option (FoldState K V U W) × List (SkipArray K V) × Ctx K V U) :=
  match skiparrays, fold with
  | some (some h₀ :: hs), some fold =>
    if 0 < hs.length ∧ merge.isNone then .ok (.errorMisuse, none, sas, c)
    else do
      let sa₀ ← slot sas h₀
      let inputs ← (some h₀ :: hs).mapM fun
        | none => pure none
        | some h => do
          let sa ← slot sas h
          pure (if sameCallbacks sa sa₀ then some h else none)
      match inputs.allSome with
      | none => return (.errorMisuse, none, sas, c)
      | some inputs =>
        match c.alloc cb with
        | (none, c) => return (.errorMemory, none, sas, c)
        | (some block, c) =>
          match c.alloc cb with
          | (none, c) => return (.errorMemory, none, sas, c.release block)
          | (some idsBlock, c) =>
            match ← initIters cb type inputs sas c [] 0 with
            | (false, iters, _, sas, c) =>
              let (sas, c) ← freeFoldIters iters sas (c.release idsBlock)
              return (.errorMemory, none, sas, c.release block)
            | (true, iters, live, sas, c) =>
              return (.ok, some
                { type
                  useValues := sa₀.useValues
                  cbs := ⟨fold, merge⟩
                  cmp := sa₀.cmp
                  ids := ⟨0, 0, List.replicate inputs.length 0⟩
                  iterCount := inputs.length
                  iterLive := live
                  iters
                  block
                  idsBlock }, sas, c)
  | _, _ => .ok (.errorMisuse, none, sas, c)

/-- `skiparray_fold_halt` -/
def skiparrayFoldHalt (fs : FoldState K V U W) (sas : List (SkipArray K V)) (c : Ctx K V U) :
    Except Fault (List (SkipArray K V) × Ctx K V U) := do
  check (0 < fs.iterCount)
  let (sas, c) ← freeFoldIters fs.iters sas c
  return (sas, (c.release fs.idsBlock).release fs.block)

inductive FoldNextRes where
  | ok
  | done
deriving DecidableEq, Repr

/-- `skiparray_fold_next`. On DONE the fold state is gone. -/
def skiparrayFoldNext (cb : Callbacks K U) (fs : FoldState K V U W)
    (sas : List (SkipArray K V)) (w : W) (c : Ctx K V U) :
    Except Fault (FoldNextRes × Option (FoldState K V U W) × List (SkipArray K V) × W ×
      Ctx K V U) := do
  check (fs.ids.available ≤ fs.iterCount)
  check (fs.iterLive ≤ fs.iterCount)
  if fs.iterLive = 0 ∧ fs.ids.available = 0 then
    let (sas, c) ← skiparrayFoldHalt fs sas c
    return (.done, none, sas, w, c)
  else
    let (fs, sas, c) ← (if 0 < fs.iterLive then stepActiveIterators cb fs sas c
      else pure (fs, sas, c))
    let (fs, w, c) ← callWithNext fs fs.iterCount w c
    return (.ok, some fs, sas, w, c)

/-! ## Folding one skiparray -/

/-- `skiparray_fold_init` -/
def skiparrayFoldInit (cb : Callbacks K U) (type : FoldType) (sa : Option ℕ)
    (fold : Option (K → V → W → Ctx K V U → Except Fault (W × Ctx K V U)))
    (sas : List (SkipArray K V)) (c : Ctx K V U) :
    Except Fault (FoldRes × Option (FoldState K V U W) × List (SkipArray K V) × Ctx K V U) :=
  skiparrayFoldMultiInit cb type (some [sa]) fold none sas c

/-- `while (skiparray_fold_next(fs) != SKIPARRAY_FOLD_NEXT_DONE) {}` -/
def foldLoop (cb : Callbacks K U) :
    ℕ → FoldState K V U W → List (SkipArray K V) → W → Ctx K V U →
    Except Fault (List (SkipArray K V) × W × Ctx K V U)
  | 0, _, _, _, _ => .error .fuel
  | fuel + 1, fs, sas, w, c => do
    match ← skiparrayFoldNext cb fs sas w c with
    | (_, none, sas, w, c) => return (sas, w, c)
    | (_, some fs, sas, w, c) => foldLoop cb fuel fs sas w c

/-- The number of pairs held by the live nodes of an arena. -/
def SkipArray.heldPairs (sa : SkipArray K V) : ℕ :=
  (sa.heap.map fun n => (n.map Node.count).getD 0).sum

/-- `skiparray_fold` -/
def skiparrayFold (cb : Callbacks K U) (type : FoldType) (h : ℕ)
    (fold : K → V → W → Ctx K V U → Except Fault (W × Ctx K V U))
    (sas : List (SkipArray K V)) (w : W) (c : Ctx K V U) :
    Except Fault (FoldRes × List (SkipArray K V) × W × Ctx K V U) := do
  let sa ← slot sas h
  match ← skiparrayFoldInit cb type (some h) (some fold) sas c with
  | (.ok, none, _, _) => .error .null
  | (.ok, some fs, sas, c) =>
    let (sas, w, c) ← foldLoop cb (sa.heldPairs + 1) fs sas w c
    return (.ok, sas, w, c)
  | (res, _, sas, c) => return (res, sas, w, c)

end Skiparray
