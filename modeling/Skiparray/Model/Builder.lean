import Skiparray.Model.Update
import Skiparray.Model.Lifetime

/-!
# Builders

Appending ascending pairs to a skiparray under construction, with the trail
of the last node on each level.
-/

namespace Skiparray

open Fallible

variable {K V U : Type} [Inhabited K] [Inhabited V]

/-- `struct skiparray_builder` -/
structure Builder (K V : Type) where
  sa : SkipArray K V
  last : Option Ptr
  checkAscending : Bool
  hasPrevKey : Bool
  prevKey : K
  trail : List (Option Ptr)
  block : ℕ
deriving DecidableEq, Repr

inductive BuilderNewRes where
  | ok
  | errorMisuse
  | errorMemory
deriving DecidableEq, Repr

/-- `skiparray_builder_new` -/
def skiparrayBuilderNew (cb : Callbacks K U) (cfg : Option Config) (skipAscendingKeyCheck : Bool)
    (c : Ctx K V U) :
    Except Fault (BuilderNewRes × Option (Builder K V) × Ctx K V U) := do
  match ← skiparrayNew cb cfg c with
  | (.errorNull, _, c) => return (.errorMisuse, none, c)
  | (.errorConfig, _, c) => return (.errorMisuse, none, c)
  | (.errorMemory, _, c) => return (.errorMemory, none, c)
  | (.ok, none, _) => .error .null
  | (.ok, some sa, c) =>
    match c.alloc cb with
    | (none, c) =>
      let c ← skiparrayFree sa c
      return (.errorMemory, none, c)
    | (some block, c) =>
      let last ← sa.headAt 0
      let nd ← sa.load last
      let sa ← sa.store last { nd with offset := 0 }
      let trail ← forUp (fun i trail => do
          let head ← sa.headAt i
          check (last = head)
          putSlot trail i last) nd.height (List.replicate sa.maxLevel none)
      return (.ok, some
        { sa
          last
          checkAscending := !skipAscendingKeyCheck
          hasPrevKey := false
          prevKey := default
          trail
          block }, c)

/-- `skiparray_builder_free` -/
def skiparrayBuilderFree (b : Option (Builder K V)) (c : Ctx K V U) :
    Except Fault (Ctx K V U) :=
  match b with
  | none => .ok c
  | some b => skiparrayFree b.sa (c.release b.block)

inductive AppendRes where
  | ok
  | errorMisuse
  | errorMemory
deriving DecidableEq, Repr

/-- From `skiparray_builder_append`: level `i` of the trail moves on to `new`. -/
def trailLevel (new : Ptr) (i : ℕ) (s : SkipArray K V × List (Option Ptr)) :
    Except Fault (SkipArray K V × List (Option Ptr)) := do
  let (sa, trail) := s
  let t ← slot trail i
  let sa ← (if t = none then pure sa
    else do
      let nd ← sa.load t
      check (i < nd.height)
      sa.setFwd t i (some new))
  let trail ← putSlot trail i (some new)
  return (sa, trail)

/-- From `skiparray_builder_append`: start a new last node. -/
def appendNode (cb : Callbacks K U) (b : Builder K V) (c : Ctx K V U) :
    Except Fault (Option (Builder K V) × SkipArray K V × Ctx K V U) := do
  let sa := b.sa
  let last ← sa.load b.last
  let (x, prngState, udata) := callLevel cb sa.level sa.prngState sa.prngState c.udata
  let sa := { sa with prngState }
  let c := { c with udata }
  let level := u8 (x + 1)
  let level := if sa.maxLevel ≤ level then sa.maxLevel - 1 else level
  match ← nodeAlloc cb (u8 (level + 1)) sa.nodeSize sa.useValues c with
  | (none, c) => return (none, sa, c)
  | (some nd, c) =>
    let new := sa.heap.length
    let sa := sa.pushNode { nd with back := b.last, offset := 0 }
    let sa ← forUp (fun i sa => sa.setFwd b.last i (some new))
      (if last.height < nd.height then last.height else nd.height) sa
    let (sa, trail) ← forUp (trailLevel new) nd.height (sa, b.trail)
    let sa ← raiseHeight new (nd.height - sa.height) sa
    let first ← sa.fwdAt b.last 0
    check (first = some new)
    return (some { b with sa, trail, last := some new }, sa, c)

/-- `skiparray_builder_append` -/
def skiparrayBuilderAppend (cb : Callbacks K U) (b : Builder K V) (c : Ctx K V U)
    (key : K) (value : V) :
    Except Fault (AppendRes × Builder K V × Ctx K V U) := do
  let last ← b.sa.load b.last
  check (last.offset = 0)
  if b.hasPrevKey ∧ cb.cmp b.sa.cmp key b.prevKey ≤ 0 then
    return (.errorMisuse, b, c)
  else
    let (grown, sa, c) ← (if last.count = b.sa.nodeSize then appendNode cb b c
      else pure (some b, b.sa, c))
    match grown with
    | none => return (.errorMemory, { b with sa }, c)
    | some b =>
      let last ← b.sa.load b.last
      let keys ← putSlot last.keys last.count key
      let values ← (match last.values with
        | none => pure none
        | some vs => some <$> putSlot vs last.count value)
      let sa ← b.sa.store b.last { last with keys, values, count := u16 (last.count + 1) }
      let b := { b with sa }
      if b.checkAscending then
        return (.ok, { b with hasPrevKey := true, prevKey := key }, c)
      else
        return (.ok, b, c)

/-- `skiparray_builder_finish` -/
def skiparrayBuilderFinish (b : Builder K V) (c : Ctx K V U) : SkipArray K V × Ctx K V U :=
  (b.sa, c.release b.block)

end Skiparray
