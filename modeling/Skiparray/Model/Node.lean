import Skiparray.Model.Types
import Skiparray.Lib.Window

/-!
# Nodes and their buffers

The static helpers of `skiparray.c` that work on a single node: allocation and
release, the two block copies, making room for an insertion, and the level
callback with its default.
-/

namespace Skiparray

open Window

variable {K V U : Type}

/-! ## Levels -/

/-- `splitmix64_stateless` -/
def splitmix64Stateless (x : UInt64) : UInt64 :=
  let z := x + 0x9e3779b97f4a7c15
  let z := (z ^^^ (z >>> 30)) * 0xbf58476d1ce4e5b9
  let z := (z ^^^ (z >>> 27)) * 0x94d049bb133111eb
  z ^^^ (z >>> 31)

/-- `def_level_fun`: the number of trailing one bits, at most
`SKIPARRAY_DEF_MAX_LEVEL`, and the new state. -/
def defLevelFun (prngStateIn : UInt64) : ℤ × UInt64 :=
  let next := splitmix64Stateless prngStateIn
  let clear := (List.range defMaxLevel).find? fun i => next &&& (1 <<< UInt64.ofNat i) = 0
  (clear.getD defMaxLevel, next)

/-- Call a level callback. `out` is what `*prng_state_out` held before. -/
def callLevel (cb : Callbacks K U) (level : Option ℕ) (prngStateIn out : UInt64) (udata : U) :
    ℤ × UInt64 × U :=
  match level with
  | none => ((defLevelFun prngStateIn).1, (defLevelFun prngStateIn).2, udata)
  | some f => cb.level f prngStateIn out udata

/-! ## Allocation -/

/-- `node_alloc` -/
def nodeAlloc [Inhabited K] [Inhabited V] (cb : Callbacks K U) (height nodeSize : ℕ)
    (useValues : Bool) (c : Ctx K V U) : Except Fault (Option (Node K V) × Ctx K V U) := do
  check (1 ≤ height)
  check (2 ≤ nodeSize)
  match c.alloc cb with
  | (none, c) => return (none, c)
  | (some block, c) =>
    match c.alloc cb with
    | (none, c) => return (none, c.release block)
    | (some keysBlock, c) =>
      let node : Node K V :=
        { height
          offset := nodeSize / 2
          count := 0
          keys := List.replicate nodeSize default
          values := none
          back := none
          fwd := List.replicate height none
          block
          keysBlock
          valuesBlock := 0 }
      if useValues then
        match c.alloc cb with
        | (none, c) => return (none, (c.release block).release keysBlock)
        | (some valuesBlock, c) =>
          return (some { node with
            values := some (List.replicate nodeSize default), valuesBlock }, c)
      else
        return (some node, c)

/-- The blocks a node is made of, in the order `node_free` releases them. -/
def Node.blocks (n : Node K V) : List ℕ :=
  n.keysBlock :: (if n.values.isSome then [n.valuesBlock] else []) ++ [n.block]

/-- `node_free` -/
def nodeFree (sa : SkipArray K V) (p : Option Ptr) (c : Ctx K V U) :
    Except Fault (SkipArray K V × Ctx K V U) :=
  match p with
  | none => .ok (sa, c)
  | some q => do
    let n ← sa.load p
    return ({ sa with heap := sa.heap.set q none }, n.blocks.foldl Ctx.release c)

/-! ## Block copies -/

/-- `memmove` or `memcpy` of `count` slots; a zero-length move touches nothing. -/
def copySlots {α : Type} (dst src : List α) (toPos fromPos count : ℕ) :
    Except Fault (List α) :=
  if count = 0 ∨ toPos + count ≤ dst.length ∧ fromPos + count ≤ src.length then
    .ok (blit dst src toPos fromPos count)
  else .error .bounds

/-- `shift_pairs` -/
def shiftPairs (n : Node K V) (toPos fromPos count : ℕ) : Except Fault (Node K V) := do
  let keys ← copySlots n.keys n.keys toPos fromPos count
  match n.values with
  | none => return { n with keys }
  | some vs =>
    let vs ← copySlots vs vs toPos fromPos count
    return { n with keys, values := some vs }

/-- `move_pairs` -/
def movePairs (dst src : Node K V) (toPos fromPos count : ℕ) : Except Fault (Node K V) := do
  let keys ← copySlots dst.keys src.keys toPos fromPos count
  match dst.values with
  | none => return { dst with keys }
  | some vs =>
    match src.values with
    | none => .error .null
    | some ws =>
      let vs ← copySlots vs ws toPos fromPos count
      return { dst with keys, values := some vs }

/-- `if (n->offset > 0) { shift_pairs(n, 0, n->offset, n->count); n->offset = 0; }` -/
def slideToFront (n : Node K V) : Except Fault (Node K V) :=
  if 0 < n.offset then do
    let n ← shiftPairs n 0 n.offset n.count
    return { n with offset := 0 }
  else return n

/-! ## Making room -/

/-- `prepare_node_for_insert` -/
def prepareNodeForInsert (nodeSize : ℕ) (n : Node K V) (index : ℕ) :
    Except Fault (Node K V) := do
  check (n.count < nodeSize)
  if index = 0 then
    if 0 < n.count ∧ 0 < n.offset then
      return { n with offset := n.offset - 1 }
    else
      shiftPairs n (n.offset + 1) n.offset n.count
  else if index < n.count then
    if 0 < n.offset then
      -- the slot at `index` is left twice; the caller overwrites the first
      let n ← shiftPairs n (n.offset - 1) n.offset (u16 (index + 1))
      return { n with offset := n.offset - 1 }
    else
      shiftPairs n (index + 1) index (n.count - index)
  else do
    check (index = n.count)
    check (n.offset + index ≤ nodeSize)
    if n.offset + index = nodeSize then
      check (0 < n.offset)
      let n ← shiftPairs n 0 n.offset n.count
      return { n with offset := 0 }
    else
      return n

/-- `n->keys[i] = key; if (sa->use_values) { n->values[i] = value; }` -/
def putPair (sa : SkipArray K V) (n : Node K V) (i : ℕ) (key : K) (value : V) :
    Except Fault (Node K V) := do
  let keys ← putSlot n.keys i key
  if sa.useValues then
    match n.values with
    | none => .error .null
    | some vs =>
      let vs ← putSlot vs i value
      return { n with keys, values := some vs }
  else
    return { n with keys }

end Skiparray
