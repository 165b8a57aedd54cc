import Skiparray.Model.Search

/-!
# Binding and unbinding

`skiparray_set_with_pair` and `skiparray_forget` with the static functions
under them: splitting a full node and linking the new one on its levels,
balancing an underfull node against a neighbour, and unlinking a node.
-/

namespace Skiparray

open Fallible

variable {K V U : Type} [Inhabited K] [Inhabited V]

/-- `has_iterators` -/
def hasIterators (sa : SkipArray K V) : Bool := sa.iter.isSome

/-! ## Splitting -/

/-- From `split_node`: move the second half of `n` to the node just allocated. -/
def splitInto (sa : SkipArray K V) (n : Option Ptr) (new : Node K V) :
    Except Fault (Ptr × SkipArray K V) := do
  let nd ← sa.load n
  let toMove := nd.count / 2
  check (0 < toMove)
  -- the new node has a value buffer exactly when `sa` uses values
  let new ← movePairs { new with offset := 0 } nd 0 (nd.offset + nd.count - toMove) toMove
  let new := { new with count := u16 (new.count + toMove), back := n }
  let p := sa.heap.length
  let sa ← (sa.pushNode new).store n { nd with count := nd.count - toMove }
  return (p, sa)

/-- `split_node`: the new node is NULL when it could not be allocated. -/
def splitNode (cb : Callbacks K U) (sa : SkipArray K V) (c : Ctx K V U) (n : Option Ptr) :
    Except Fault (Option Ptr × SkipArray K V × Ctx K V U) := do
  let (x, prngState, udata) := callLevel cb sa.level sa.prngState sa.prngState c.udata
  let sa := { sa with prngState }
  let c := { c with udata }
  let level := u8 (x + 1)
  let level := if sa.maxLevel ≤ level then sa.maxLevel - 1 else level
  match ← nodeAlloc cb (u8 (level + 1)) sa.nodeSize sa.useValues c with
  | (none, c) => return (none, sa, c)
  | (some new, c) =>
    let (p, sa) ← splitInto sa n new
    return (some p, sa, c)

/-- The inner loop of the relinking: walk `level` past every node whose last
key is below the first key of `new`. Returns with `cur` equal to `prev`. -/
def relinkWalk (cmp : K → K → ℤ) (new : Ptr) (level : ℕ) :
    ℕ → SkipArray K V → Option Ptr → Option Ptr → Except Fault (SkipArray K V × Option Ptr)
  | 0, _, _, _ => .error .fuel
  | fuel + 1, sa, prev, cur => do
    let c ← sa.load cur
    check (0 < c.count)
    let nw ← sa.load (some new)
    let first ← slot nw.keys nw.offset
    let last ← c.lastKey
    let res := cmp first last
    if res < 0 then
      -- overshot
      if prev = none then do
        let head ← sa.headAt level
        let sa ← sa.setFwd (some new) level head
        let sa ← sa.setHead level (some new)
        return (sa, prev)
      else return (sa, prev)
    else if 0 < res then do
      let next ← sa.fwdAt cur level
      if next = none then do
        let sa ← sa.setFwd cur level (some new)
        return (sa, cur)
      else relinkWalk cmp new level fuel sa cur next
    else .error .assertion

/-- After the walk of a level: put `new` between `prev` and what follows it. -/
def relinkAfter (new : Ptr) (level : ℕ) (sa : SkipArray K V) (prev : Option Ptr) :
    Except Fault (SkipArray K V) :=
  if prev = none then .ok sa
  else do
    let follow ← sa.fwdAt prev level
    let sa ← (if follow ≠ some new then sa.setFwd (some new) level follow else pure sa)
    let sa ← sa.setFwd prev level (some new)
    let follow ← sa.fwdAt (some new) level
    if follow ≠ none then do
      let f ← sa.load follow
      check (level < f.height)
      return sa
    else return sa

/-- `for (level = new->height - 1; level >= n->height; level--)`, with
`base = n->height`, `k` levels to go and `cur` equal to `prev`. -/
def relinkLevels (cmp : K → K → ℤ) (new : Ptr) (base : ℕ) :
    ℕ → SkipArray K V → Option Ptr → Except Fault (SkipArray K V)
  | 0, sa, _ => .ok sa
  | k + 1, sa, prev =>
    let level := base + k
    if sa.height < level then relinkLevels cmp new base k sa prev
    else do
      let cur ← (if prev = none then sa.headAt level else pure prev)
      if cur = none then relinkLevels cmp new base k sa prev
      else do
        let (sa, prev) ← relinkWalk cmp new level sa.budget sa prev cur
        let sa ← relinkAfter new level sa prev
        relinkLevels cmp new base k sa prev

/-- `while (new->height > sa->height)`, for the `k` levels missing. -/
def raiseHeight (new : Ptr) : ℕ → SkipArray K V → Except Fault (SkipArray K V)
  | 0, sa => .ok sa
  | k + 1, sa => do
    let sa ← sa.setHead sa.height (some new)
    raiseHeight new k { sa with height := u8 (sa.height + 1) }

/-- `new->fwd[i] = n->fwd[i]; n->fwd[i] = new;` -/
def linkCommon (n : Option Ptr) (new : Ptr) (i : ℕ) (sa : SkipArray K V) :
    Except Fault (SkipArray K V) := do
  let q ← sa.fwdAt n i
  let sa ← sa.setFwd (some new) i q
  sa.setFwd n i (some new)

/-- From `skiparray_set_with_pair`: link the node `new` just split off `n`. -/
def linkNew (cmp : K → K → ℤ) (sa : SkipArray K V) (n : Option Ptr) (new : Ptr) :
    Except Fault (SkipArray K V) := do
  let nw ← sa.load (some new)
  check (0 < nw.count)
  let next ← sa.fwdAt n 0
  let sa ← (if next ≠ none then sa.setBack next (some new) else pure sa)
  let nd ← sa.load n
  let sa ← relinkLevels cmp new nd.height (nw.height - nd.height) sa none
  let sa ← raiseHeight new (nw.height - sa.height) sa
  forUp (linkCommon n new) (if nd.height < nw.height then nd.height else nw.height) sa

/-- From `skiparray_set_with_pair`: split a full node and link the new one.
Yields the node and index to insert at, or nothing when out of memory. -/
def splitAndLink (cb : Callbacks K U) (sa : SkipArray K V) (c : Ctx K V U)
    (n : Option Ptr) (index : ℕ) :
    Except Fault (Option (Option Ptr × ℕ) × SkipArray K V × Ctx K V U) := do
  match ← splitNode cb sa c n with
  | (none, sa, c) => return (none, sa, c)
  | (some new, sa, c) =>
    let sa ← linkNew (cb.cmp sa.cmp) sa n new
    let nd ← sa.load n
    if nd.count < index then return (some (some new, index - nd.count), sa, c)
    else return (some (n, index), sa, c)

/-! ## Set -/

inductive SetRes where
  | bound
  | replaced
  | errorNull
  | errorMemory
  | errorLocked
deriving DecidableEq, Repr

/-- From `skiparray_set_with_pair`: insert into a node that has room. -/
def insertAt (sa : SkipArray K V) (p : Option Ptr) (index : ℕ) (key : K) (value : V) :
    Except Fault (SkipArray K V) := do
  let n ← sa.load p
  let n ← prepareNodeForInsert sa.nodeSize n index
  check (n.offset + index < sa.nodeSize)
  let n ← putPair sa n (n.offset + index) key value
  sa.store p { n with count := u16 (n.count + 1) }

/-- `skiparray_set_with_pair`, with the previous binding if one was replaced. -/
def skiparraySetWithPair (cb : Callbacks K U) (sa : SkipArray K V) (c : Ctx K V U)
    (key : K) (value : V) (replaceKey : Bool) :
    Except Fault (SetRes × Option (K × V) × SkipArray K V × Ctx K V U) :=
  if hasIterators sa then .ok (.errorLocked, none, sa, c)
  else do
    let env ← search (cb.cmp sa.cmp) sa key
    let n ← sa.load env.n
    if env.found then
      let i := n.offset + env.index
      let k ← slot n.keys i
      let v ← sa.valueAt n i
      let n ← putPair sa n i (if replaceKey then key else k) value
      let sa ← sa.store env.n n
      return (.replaced, some (k, v), sa, c)
    else if n.count = sa.nodeSize then
      match ← splitAndLink cb sa c env.n env.index with
      | (none, sa, c) => return (.errorMemory, none, sa, c)
      | (some (p, index), sa, c) =>
        let sa ← insertAt sa p index key value
        return (.bound, none, sa, c)
    else
      let sa ← insertAt sa env.n env.index key value
      return (.bound, none, sa, c)

/-- `skiparray_set` -/
def skiparraySet (cb : Callbacks K U) (sa : SkipArray K V) (c : Ctx K V U)
    (key : K) (value : V) :
    Except Fault (SetRes × SkipArray K V × Ctx K V U) := do
  let (res, _, sa, c) ← skiparraySetWithPair cb sa c key value true
  return (res, sa, c)

/-! ## Unlinking -/

/-- `for (level = sa->height - 1; level >= 0; level--)`: heads that are `n`
become its successors. -/
def unlinkHeads (n : Ptr) : ℕ → SkipArray K V → Except Fault (SkipArray K V)
  | 0, sa => .ok sa
  | level + 1, sa => do
    let head ← sa.headAt level
    if head = some n then do
      let q ← sa.fwdAt (some n) level
      let sa ← sa.setHead level q
      unlinkHeads n level sa
    else unlinkHeads n level sa

/-- `while (sa->height > 1 && sa->nodes[sa->height - 1] == NULL)` -/
def trimHeight (nodes : List (Option Ptr)) : ℕ → Except Fault ℕ
  | 0 => .ok 0
  | 1 => .ok 1
  | h + 2 => do
    let head ← slot nodes (h + 1)
    if head = none then trimHeight nodes (h + 1) else return h + 2

/-- Compare the last key of `p` with `nearest->keys[nearest_index]`. -/
def cmpNearest (cmp : K → K → ℤ) (sa : SkipArray K V) (nearest : Option Ptr)
    (nearestIndex : ℕ) (p : Option Ptr) : Except Fault ℤ := do
  let n ← sa.load p
  let k ← n.lastKey
  let near ← sa.load nearest
  let k' ← slot near.keys nearestIndex
  return cmp k k'

/-- The loop of `unlink_node`, on level `lv - 1`. -/
def unlinkLoop (cmp : K → K → ℤ) (n : Ptr) (nearest : Option Ptr) (nearestIndex : ℕ)
    (cmpCondition : ℤ) :
    ℕ → ℕ → Option Ptr → SkipArray K V → Except Fault (SkipArray K V)
  | 0, _, _, _ => .error .fuel
  | _ + 1, 0, _, sa => .ok sa
  | fuel + 1, level + 1, cur, sa => do
    -- the first node, if any, before the unlinked one
    let before ← (if cur = none then do
        let head ← sa.headAt level
        check (head ≠ none)
        let res ← cmpNearest cmp sa nearest nearestIndex head
        if res < cmpCondition then pure head else pure none
      else pure cur)
    if before = none then
      unlinkLoop cmp n nearest nearestIndex cmpCondition fuel level none sa
    else do
      let next ← sa.fwdAt before level
      if next = none then
        unlinkLoop cmp n nearest nearestIndex cmpCondition fuel level before sa
      else if next = some n then do
        let nfwd ← sa.fwdAt (some n) level
        let sa ← sa.setFwd before level nfwd
        let sa ← (if nfwd ≠ none ∧ level = 0 then sa.setBack nfwd before else pure sa)
        unlinkLoop cmp n nearest nearestIndex cmpCondition fuel level before sa
      else do
        let res ← cmpNearest cmp sa nearest nearestIndex next
        if res < cmpCondition then
          unlinkLoop cmp n nearest nearestIndex cmpCondition fuel (level + 1) next sa
        else
          unlinkLoop cmp n nearest nearestIndex cmpCondition fuel level before sa

/-- `unlink_node` -/
def unlinkNode (cmp : K → K → ℤ) (sa : SkipArray K V) (c : Ctx K V U) (n : Ptr) :
    Except Fault (SkipArray K V × Ctx K V U) := do
  let nd ← sa.load (some n)
  let first ← sa.headAt 0
  let next ← sa.fwdAt (some n) 0
  check (first = some n → next ≠ none)
  let sa ← unlinkHeads n sa.height sa
  let height ← trimHeight sa.nodes sa.height
  let sa := { sa with height }
  let nearest := if nd.back ≠ none then nd.back else next
  check (nearest ≠ none)
  let near ← sa.load nearest
  let nearestIndex :=
    if nd.back ≠ none then u16 (near.offset + near.count - 1) else near.offset
  let cmpCondition := if nd.back ≠ none then 1 else 0
  let sa ← unlinkLoop cmp n nearest nearestIndex cmpCondition sa.budget sa.height none sa
  nodeFree sa (some n) c

/-! ## Balancing -/

/-- `shift_or_merge` -/
def shiftOrMerge (cmp : K → K → ℤ) (sa : SkipArray K V) (c : Ctx K V U) (n : Ptr) :
    Except Fault (SkipArray K V × Ctx K V U) := do
  let first ← sa.headAt 0
  let nd ← sa.load (some n)
  let next ← sa.fwdAt (some n) 0
  if first = some n ∧ next = none then
    return (sa, c)
  else
    let required := sa.nodeSize / 2
    check (nd.count < required)
    match next with
    | none =>
      -- an underfull last node
      check (nd.back ≠ none)
      let prev ← sa.load nd.back
      if prev.count + nd.count ≤ sa.nodeSize then
        let prev ← shiftPairs prev 0 prev.offset prev.count
        let prev ← movePairs { prev with offset := 0 } nd prev.count nd.offset nd.count
        let sa ← sa.store nd.back { prev with count := u16 (prev.count + nd.count) }
        unlinkNode cmp sa c n
      else
        return (sa, c)
    | some next =>
      let nx ← sa.load (some next)
      if nx.count + nd.count ≤ sa.nodeSize then
        let nd ← slideToFront nd
        let nd ← movePairs nd nx nd.count nx.offset nx.count
        let sa ← sa.store (some n) { nd with count := u16 (nd.count + nx.count) }
        unlinkNode cmp sa c next
      else
        let toMove := u16 (nx.count - required)
        let nd ← slideToFront nd
        let nd ← movePairs nd nx nd.count nx.offset toMove
        let nx := { nx with count := u16 (nx.count - toMove), offset := u16 (nx.offset + toMove) }
        let nd := { nd with count := u16 (nd.count + toMove) }
        let sa ← sa.store (some next) nx
        let sa ← sa.store (some n) nd
        check (nx.count = required)
        check (nd.count ≤ sa.nodeSize)
        return (sa, c)

/-! ## Forget -/

inductive ForgetRes where
  | ok
  | notFound
  | errorNull
  | errorMemory
  | errorLocked
deriving DecidableEq, Repr

/-- Drop the first pair: `offset++`, wrapped to the middle at the end of the
buffer, and `count--`. -/
def dropFirst (nodeSize : ℕ) (n : Node K V) : Node K V :=
  let offset := u16 (n.offset + 1)
  { n with
    offset := if offset = nodeSize then nodeSize / 2 else offset
    count := n.count - 1 }

/-- From `skiparray_forget`: remove the pair at `index` of a node. -/
def removeAt (nodeSize : ℕ) (n : Node K V) (index : ℕ) : Except Fault (Node K V) :=
  if index = 0 then
    .ok (dropFirst nodeSize n)
  else if index = n.count - 1 then
    .ok { n with count := n.count - 1 }
  else do
    let n ← shiftPairs n (n.offset + index) (n.offset + index + 1) (n.count - index - 1)
    return { n with count := n.count - 1 }

/-- `skiparray_forget` -/
def skiparrayForget (cb : Callbacks K U) (sa : SkipArray K V) (c : Ctx K V U) (key : K) :
    Except Fault (ForgetRes × Option (K × V) × SkipArray K V × Ctx K V U) :=
  if hasIterators sa then .ok (.errorLocked, none, sa, c)
  else do
    let env ← search (cb.cmp sa.cmp) sa key
    if env.found then
      match env.n with
      | none => .error .assertion
      | some p =>
        let n ← sa.load (some p)
        check (env.index < n.count)
        let k ← slot n.keys (n.offset + env.index)
        let v ← sa.valueAt n (n.offset + env.index)
        let n ← removeAt sa.nodeSize n env.index
        let sa := sa.setNode p n
        if n.count < sa.nodeSize / 2 then
          let (sa, c) ← shiftOrMerge (cb.cmp sa.cmp) sa c p
          return (.ok, some (k, v), sa, c)
        else
          return (.ok, some (k, v), sa, c)
    else
      return (.notFound, none, sa, c)

end Skiparray
