import Skiparray.Model.Update

/-!
# Popping the ends

`skiparray_pop_first` with its own copy of the balancing and unlinking steps,
and `skiparray_pop_last` with its own walk to the last node. Both are asked
for key and value; an out-parameter left unwritten is `none`.
-/

namespace Skiparray

open Fallible

variable {K V U : Type} [Inhabited K] [Inhabited V]

inductive PopRes where
  | ok
  | empty
  | errorMemory
  | errorLocked
deriving DecidableEq, Repr

/-- From `skiparray_pop_first`: level `i` of `next` is taken over by `head`, or
by the list head where `head` does not reach. -/
def bypassLevel (head next : Ptr) (i : ℕ) (sa : SkipArray K V) :
    Except Fault (SkipArray K V) := do
  let hd ← sa.load (some head)
  let q ← sa.fwdAt (some next) i
  if i < hd.height then
    sa.setFwd (some head) i q
  else
    let h ← sa.headAt i
    check (h = some next)
    sa.setHead i q

/-- From `skiparray_pop_first`: take `next`, whose pairs `head` has got, out. -/
def bypassNode (sa : SkipArray K V) (c : Ctx K V U) (head next : Ptr) :
    Except Fault (SkipArray K V × Ctx K V U) := do
  let nx ← sa.load (some next)
  let sa ← forUp (bypassLevel head next) nx.height sa
  let follow ← sa.fwdAt (some next) 0
  let sa ← (if follow ≠ none then sa.setBack follow (some head) else pure sa)
  let (sa, c) ← nodeFree sa (some next) c
  let height ← trimHeight sa.nodes sa.height
  return ({ sa with height }, c)

/-- From `skiparray_pop_first`: balance an underfull `head` against `next`. -/
def popFirstBalance (sa : SkipArray K V) (c : Ctx K V U) (head next : Ptr) :
    Except Fault (SkipArray K V × Ctx K V U) := do
  let hd ← sa.load (some head)
  let nx ← sa.load (some next)
  let required := sa.nodeSize / 2
  -- to the front, to make room
  let hd ← slideToFront hd
  if hd.count + nx.count ≤ sa.nodeSize then
    let hd ← movePairs hd nx hd.count nx.offset nx.count
    let sa ← sa.store (some head) { hd with count := u16 (hd.count + nx.count) }
    bypassNode sa c head next
  else
    let toMove := u16 (nx.count - required)
    let hd ← movePairs hd nx hd.count nx.offset toMove
    let nx := { nx with count := u16 (nx.count - toMove), offset := u16 (nx.offset + toMove) }
    let sa ← sa.store (some next) nx
    let sa ← sa.store (some head) { hd with count := u16 (hd.count + toMove) }
    return (sa, c)

/-- `skiparray_pop_first` -/
def skiparrayPopFirst (sa : SkipArray K V) (c : Ctx K V U) :
    Except Fault (PopRes × Option K × Option V × SkipArray K V × Ctx K V U) :=
  if hasIterators sa then .ok (.errorLocked, none, none, sa, c)
  else do
  let head ← sa.headAt 0
  let hd ← sa.load head
  if hd.count = 0 then
    let next ← sa.fwdAt head 0
    check (next = none)
    return (.empty, none, none, sa, c)
  else
    let k ← slot hd.keys hd.offset
    let v ← (if sa.useValues then some <$> sa.valueAt hd hd.offset else pure none)
    let hd := dropFirst sa.nodeSize hd
    let sa ← sa.store head hd
    let next ← sa.fwdAt head 0
    match head, next with
    | some head, some next =>
      if hd.count < sa.nodeSize / 2 then
        let (sa, c) ← popFirstBalance sa c head next
        return (.ok, some k, v, sa, c)
      else
        return (.ok, some k, v, sa, c)
    | _, _ => return (.ok, some k, v, sa, c)

/-- The walk of `skiparray_pop_last` to the last node. -/
def popLastLoop (sa : SkipArray K V) : ℕ → ℕ → Option Ptr → Except Fault (Option Ptr)
  | 0, _, _ => .error .fuel
  | fuel + 1, level, cur => do
    let next ← sa.fwdAt cur level
    if next = none then
      let next₀ ← sa.fwdAt cur 0
      if next₀ = none ∨ level = 0 then return cur
      else popLastLoop sa fuel (level - 1) cur
    else popLastLoop sa fuel level next

/-- `skiparray_pop_last`. Its level counter is an `int8_t`. -/
def skiparrayPopLast (cb : Callbacks K U) (sa : SkipArray K V) (c : Ctx K V U) :
    Except Fault (PopRes × Option K × Option V × SkipArray K V × Ctx K V U) :=
  if hasIterators sa then .ok (.errorLocked, none, none, sa, c)
  else do
  let head ← sa.headAt 0
  let hd ← sa.load head
  if hd.count = 0 then
    let next ← sa.fwdAt head 0
    check (next = none)
    return (.empty, none, none, sa, c)
  else
    let level := i8 (sa.height - 1)
    if level < 0 then .error .bounds
    else
      let cur ← sa.headAt level.toNat
      check (cur ≠ none)
      match ← popLastLoop sa sa.budget level.toNat cur with
      | none => .error .assertion
      | some last =>
        let next ← sa.fwdAt (some last) 0
        check (next = none)
        let nd ← sa.load (some last)
        check (0 < nd.count)
        let k ← nd.lastKey
        let v ← (if sa.useValues then some <$> sa.valueAt nd (nd.offset + nd.count - 1)
          else pure none)
        let nd := { nd with count := nd.count - 1 }
        let sa := sa.setNode last nd
        if nd.count = 0 ∧ head ≠ some last then
          let (sa, c) ← unlinkNode (cb.cmp sa.cmp) sa c last
          return (.ok, some k, v, sa, c)
        else
          return (.ok, some k, v, sa, c)

end Skiparray
