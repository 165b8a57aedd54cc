import Skiparray.Model.Read

/-!
# Iterators

Cursors into a skiparray, linked into a list that starts at `sa->iter`.
-/

namespace Skiparray

variable {K V U : Type}

/-- The iterator at `p`, if one is alive there. -/
def SkipArray.iter? (sa : SkipArray K V) (p : Ptr) : Option Iter := sa.iters[p]?.join

/-- Dereference an iterator pointer. -/
def SkipArray.loadIter (sa : SkipArray K V) : Option Ptr → Except Fault Iter
  | none => .error .null
  | some p => match sa.iter? p with
    | none => .error .null
    | some it => .ok it

/-- Overwrite the iterator at `p`. -/
def SkipArray.setIter (sa : SkipArray K V) (p : Ptr) (it : Iter) : SkipArray K V :=
  { sa with iters := sa.iters.set p (some it) }

inductive IterNewRes where
  | ok
  | empty
  | errorMemory
deriving DecidableEq, Repr

/-- `skiparray_iter_new` -/
def skiparrayIterNew (cb : Callbacks K U) (sa : SkipArray K V) (c : Ctx K V U) :
    Except Fault (IterNewRes × Option Ptr × SkipArray K V × Ctx K V U) := do
  let head ← sa.headAt 0
  let hd ← sa.load head
  let next ← sa.fwdAt head 0
  if next = none ∧ hd.count = 0 then
    return (.empty, none, sa, c)
  else
    match c.alloc cb with
    | (none, c) => return (.errorMemory, none, sa, c)
    | (some block, c) =>
      let si := sa.iters.length
      let sa ← (match sa.iter with
        | none => pure sa
        | some p => do
          let it ← sa.loadIter (some p)
          pure (sa.setIter p { it with prev := some si }))
      let it : Iter := { prev := none, next := sa.iter, n := head, index := 0, block }
      return (.ok, some si, { sa with iters := sa.iters ++ [some it], iter := some si }, c)

/-- `skiparray_iter_free` -/
def skiparrayIterFree (sa : SkipArray K V) (c : Ctx K V U) (iter : Option Ptr) :
    Except Fault (SkipArray K V × Ctx K V U) :=
  match iter with
  | none => .ok (sa, c)
  | some p => do
    let it ← sa.loadIter (some p)
    let sa ← (match it.prev with
      | none => do
        check (sa.iter = some p)
        pure { sa with iter := it.next }
      | some q => do
        let pr ← sa.loadIter (some q)
        pure (sa.setIter q { pr with next := it.next }))
    let sa ← (match it.next with
      | none => pure sa
      | some q => do
        let nx ← sa.loadIter (some q)
        pure (sa.setIter q { nx with prev := it.prev }))
    return ({ sa with iters := sa.iters.set p none }, c.release it.block)

inductive SeekEndpoint where
  | first
  | last
deriving DecidableEq, Repr

/-- `skiparray_iter_seek_endpoint` -/
def skiparrayIterSeekEndpoint (sa : SkipArray K V) (iter : Ptr) (ends : SeekEndpoint) :
    Except Fault (SkipArray K V) := do
  let it ← sa.loadIter (some iter)
  match ends with
  | .first =>
    let n ← sa.headAt 0
    return sa.setIter iter { it with n, index := 0 }
  | .last =>
    let n ← lastNode sa
    let nd ← sa.load n
    return sa.setIter iter { it with n, index := u16 (nd.count - 1) }

inductive SeekRes where
  | found
  | notFound
  | errorBeforeFirst
  | errorAfterLast
deriving DecidableEq, Repr

/-- `skiparray_iter_seek` -/
def skiparrayIterSeek (cb : Callbacks K U) (sa : SkipArray K V) (iter : Ptr) (key : K) :
    Except Fault (SeekRes × SkipArray K V) := do
  let it ← sa.loadIter (some iter)
  let env ← search (cb.cmp sa.cmp) sa key
  check (env.n ≠ none)
  if env.found then
    return (.found, sa.setIter iter { it with n := env.n, index := env.index })
  else
    let n ← sa.load env.n
    if env.index = 0 ∧ n.back = none then
      return (.errorBeforeFirst, sa)
    else if env.index = n.count then
      let next ← sa.fwdAt env.n 0
      if next = none then
        return (.errorAfterLast, sa)
      else
        return (.notFound, sa.setIter iter { it with n := next, index := 0 })
    else
      return (.notFound, sa.setIter iter { it with n := env.n, index := env.index })

inductive StepRes where
  | ok
  | ended
deriving DecidableEq, Repr

/-- `skiparray_iter_next`. The index has already moved when END is returned. -/
def skiparrayIterNext (sa : SkipArray K V) (iter : Ptr) :
    Except Fault (StepRes × SkipArray K V) := do
  let it ← sa.loadIter (some iter)
  let it := { it with index := u16 (it.index + 1) }
  let n ← sa.load it.n
  if it.index = n.count then
    let next ← sa.fwdAt it.n 0
    if next = none then
      return (.ended, sa.setIter iter it)
    else
      return (.ok, sa.setIter iter { it with n := next, index := 0 })
  else
    return (.ok, sa.setIter iter it)

/-- `skiparray_iter_prev` -/
def skiparrayIterPrev (sa : SkipArray K V) (iter : Ptr) :
    Except Fault (StepRes × SkipArray K V) := do
  let it ← sa.loadIter (some iter)
  if it.index = 0 then
    let n ← sa.load it.n
    if n.back = none then
      return (.ended, sa)
    else
      let b ← sa.load n.back
      return (.ok, sa.setIter iter { it with n := n.back, index := u16 (b.count - 1) })
  else
    return (.ok, sa.setIter iter { it with index := it.index - 1 })

/-- `skiparray_iter_get`, asked for key and value. -/
def skiparrayIterGet [Inhabited V] (sa : SkipArray K V) (iter : Ptr) :
    Except Fault (K × Option V) := do
  let it ← sa.loadIter (some iter)
  let n ← sa.load it.n
  check (it.index < n.count)
  let i := u16 (n.offset + it.index)
  let k ← slot n.keys i
  if sa.useValues then
    let v ← sa.valueAt n i
    return (k, some v)
  else
    return (k, none)

end Skiparray
