import Skiparray.Model.Node

/-!
# Lookup

`skiparray_bsearch` and the descent through the levels. Both loops of the
source run on a budget; a run that exceeds it is the fault `fuel`.
-/

namespace Skiparray

variable {K V U : Type}

/-- The loop of `skiparray_bsearch`: the answer and `*index`. -/
def bsearchLoop (cmp : K → K → ℤ) (key : K) (keys : List K) :
    ℕ → ℕ → ℕ → Except Fault (Bool × ℕ)
  | 0, _, _ => .error .fuel
  | fuel + 1, low, high =>
    if low < high then do
      let cur := (low + high) / 2
      let k ← slot keys cur
      let res := cmp key k
      if res < 0 then
        bsearchLoop cmp key keys fuel low cur
      else if 0 < res then
        bsearchLoop cmp key keys fuel (cur + 1) high
      else
        return (true, u16 cur)
    else
      return (false, u16 low)

/-- `skiparray_bsearch` -/
def skiparrayBsearch (cmp : K → K → ℤ) (key : K) (keys : List K) (keyCount : ℕ) :
    Except Fault (Bool × ℕ) := do
  check (0 < keyCount)
  bsearchLoop cmp key keys (keyCount + 1) 0 keyCount

/-- `search_within_node` -/
def searchWithinNode (cmp : K → K → ℤ) (key : K) (n : Node K V) :
    Except Fault (Bool × ℕ) :=
  skiparrayBsearch cmp key (n.keys.drop n.offset) n.count

/-- The result of `search`: `SEARCH_FOUND` or not, `env->n` and `env->index`. -/
structure SearchEnv where
  found : Bool
  n : Option Ptr
  index : ℕ
deriving DecidableEq, Repr

/-- `prev ? prev->fwd[level] : sa->nodes[level]` -/
def nextOnLevel (sa : SkipArray K V) (prev : Option Ptr) (level : ℕ) :
    Except Fault (Option Ptr) :=
  match prev with
  | none => sa.headAt level
  | some _ => sa.fwdAt prev level

/-- The `do`-`while` of `search`: from `level`, go down until the forward
pointer of `prev` is neither NULL nor `cur`, at the latest on level 0. -/
def descend (sa : SkipArray K V) (prev cur : Option Ptr) :
    ℕ → Except Fault (ℕ × Option Ptr)
  | 0 => .error .bounds
  | level + 1 => do
    let ncur ← sa.fwdAt prev level
    if (ncur = none ∨ ncur = cur) ∧ 0 < level then
      descend sa prev cur level
    else
      return (level, ncur)

/-- The loop of `search`. -/
def searchLoop (cmp : K → K → ℤ) (sa : SkipArray K V) (key : K) :
    ℕ → ℕ → Option Ptr → Option Ptr → Bool → ℕ → Except Fault SearchEnv
  | 0, _, _, _, _, _ => .error .fuel
  | fuel + 1, level, prev, cur, found, index => do
    let c ← sa.load cur
    check (0 < c.count)
    let last ← c.lastKey
    let cmpRes := cmp key last
    if cmpRes < 0 then
      -- either in this node or not at all
      if level = 0 then do
        let (found, index) ← searchWithinNode cmp key c
        if found = false ∧ index = 0 then
          -- the end of the previous node, if that is less full
          match c.back with
          | none => return ⟨found, cur, index⟩
          | some back => do
            let b ← sa.load (some back)
            if b.count < c.count then return ⟨found, some back, b.count⟩
            else return ⟨found, cur, index⟩
        else return ⟨found, cur, index⟩
      else do
        let cur ← nextOnLevel sa prev (level - 1)
        searchLoop cmp sa key fuel (level - 1) prev cur found index
    else if 0 < cmpRes then do
      let next ← sa.fwdAt cur level
      if next ≠ none then
        searchLoop cmp sa key fuel level cur next found index
      else if level = 0 then
        return ⟨found, cur, c.count⟩
      else if prev = none then do
        let cur ← sa.headAt (level - 1)
        searchLoop cmp sa key fuel (level - 1) prev cur found index
      else do
        let (level, ncur) ← descend sa prev cur level
        searchLoop cmp sa key fuel level prev ncur found index
    else
      -- exact match with the last key of `cur`
      if level = 0 then
        return ⟨true, cur, c.count - 1⟩
      else do
        let cur ← nextOnLevel sa prev (level - 1)
        searchLoop cmp sa key fuel (level - 1) prev cur true (c.count - 1)

/-- `search`. The initializer of `env` sets the index to zero. -/
def search (cmp : K → K → ℤ) (sa : SkipArray K V) (key : K) : Except Fault SearchEnv := do
  check (1 ≤ sa.height)
  let level := sa.height - 1
  let cur ← sa.headAt level
  let c ← sa.load cur
  if c.count = 0 then
    return ⟨false, cur, 0⟩
  else
    searchLoop cmp sa key sa.budget level none cur false 0

end Skiparray
