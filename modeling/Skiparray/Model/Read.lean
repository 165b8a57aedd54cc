import Skiparray.Model.Search

/-!
# Reading

Lookup by key, the number of bindings, and the first and last binding. An
out-parameter that a call leaves unwritten is `none`.
-/

namespace Skiparray

variable {K V U : Type} [Inhabited V]

/-- `skiparray_get_pair` -/
def skiparrayGetPair (cb : Callbacks K U) (sa : SkipArray K V) (key : K) :
    Except Fault (Option (K × V)) := do
  let env ← search (cb.cmp sa.cmp) sa key
  if env.found then
    let n ← sa.load env.n
    let k ← slot n.keys (n.offset + env.index)
    let v ← sa.valueAt n (n.offset + env.index)
    return some (k, v)
  else
    return none

/-- `skiparray_get` -/
def skiparrayGet (cb : Callbacks K U) (sa : SkipArray K V) (key : K) :
    Except Fault (Bool × Option V) := do
  match ← skiparrayGetPair cb sa key with
  | some p => return (true, some p.2)
  | none => return (false, none)

/-- `skiparray_member` -/
def skiparrayMember (cb : Callbacks K U) (sa : SkipArray K V) (key : K) :
    Except Fault Bool := do
  let (found, _) ← skiparrayGet cb sa key
  return found

/-- The loop of `skiparray_count`. -/
def countLoop (sa : SkipArray K V) : ℕ → Option Ptr → ℕ → Except Fault ℕ
  | _, none, res => .ok res
  | 0, some _, _ => .error .fuel
  | fuel + 1, some p, res => do
    let n ← sa.load (some p)
    let next ← sa.fwdAt (some p) 0
    countLoop sa fuel next (res + n.count)

/-- `skiparray_count` -/
def skiparrayCount (sa : SkipArray K V) : Except Fault ℕ := do
  let n ← sa.headAt 0
  countLoop sa sa.budget n 0

inductive FirstRes where
  | ok
  | empty
deriving DecidableEq, Repr

/-- `skiparray_first`, asked for key and value. -/
def skiparrayFirst (sa : SkipArray K V) :
    Except Fault (FirstRes × Option K × Option V) := do
  let p ← sa.headAt 0
  let n ← sa.load p
  if n.count = 0 then
    return (.empty, none, none)
  else
    let k ← slot n.keys n.offset
    if sa.useValues then
      let v ← sa.valueAt n n.offset
      return (.ok, some k, some v)
    else
      return (.ok, some k, none)

/-- The loop of `last_node`. -/
def lastNodeLoop (sa : SkipArray K V) : ℕ → ℕ → Option Ptr → Except Fault (Option Ptr)
  | 0, _, _ => .error .fuel
  | fuel + 1, level, n => do
    let next ← sa.fwdAt n level
    if next ≠ none then
      lastNodeLoop sa fuel level next
    else if level = 0 then
      return n
    else
      lastNodeLoop sa fuel (level - 1) n

/-- `last_node` -/
def lastNode (sa : SkipArray K V) : Except Fault (Option Ptr) := do
  check (0 < sa.height)
  let n ← sa.headAt (sa.height - 1)
  lastNodeLoop sa sa.budget (sa.height - 1) n

inductive LastRes where
  | ok
  | empty
deriving DecidableEq, Repr

/-- `skiparray_last`, asked for key and value. -/
def skiparrayLast (sa : SkipArray K V) :
    Except Fault (LastRes × Option K × Option V) := do
  let p ← lastNode sa
  let n ← sa.load p
  if n.count = 0 then
    let head ← sa.headAt 0
    check (p = head)
    return (.empty, none, none)
  else
    let k ← n.lastKey
    if sa.useValues then
      let v ← sa.valueAt n (n.offset + n.count - 1)
      return (.ok, some k, some v)
    else
      return (.ok, some k, none)

end Skiparray
