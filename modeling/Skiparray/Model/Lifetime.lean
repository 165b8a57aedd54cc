import Skiparray.Model.Iter
import Skiparray.Model.Node

/-!
# Creation and destruction

`skiparray_new` and `skiparray_free`.
-/

namespace Skiparray

open Fallible

variable {K V U : Type} [Inhabited K] [Inhabited V]

inductive NewRes where
  | ok
  | errorNull
  | errorConfig
  | errorMemory
deriving DecidableEq, Repr

/-- The node size a configuration stands for. -/
def Config.effNodeSize (config : Config) : ℕ :=
  if config.nodeSize = 0 then defNodeSize else config.nodeSize.toNat

/-- The level limit a configuration stands for. -/
def Config.effMaxLevel (config : Config) : ℕ :=
  if config.maxLevel = 0 then defMaxLevel else config.maxLevel.toNat

/-- `skiparray_new` -/
def skiparrayNew (cb : Callbacks K U) (config : Option Config) (c : Ctx K V U) :
    Except Fault (NewRes × Option (SkipArray K V) × Ctx K V U) :=
  match config with
  | none => .ok (.errorNull, none, c)
  | some config =>
    match config.cmp with
    | none => .ok (.errorConfig, none, c)
    | some cmp =>
      if config.nodeSize = 1 then .ok (.errorConfig, none, c)
      else
        match c.alloc cb with
        | (none, c) => .ok (.errorMemory, none, c)
        | (some block, c) => do
          let (x, prngState, udata) := callLevel cb config.level config.seed 0 c.udata
          let c := { c with udata }
          let rootLevel := u8 (x + 1)
          let rootLevel :=
            if config.effMaxLevel ≤ rootLevel then config.effMaxLevel else rootLevel
          let useValues := !config.ignoreValues
          match ← nodeAlloc cb rootLevel config.effNodeSize useValues c with
          | (none, c) => return (.errorMemory, none, c.release block)
          | (some root, c) =>
            let sa : SkipArray K V :=
              { nodeSize := config.effNodeSize
                maxLevel := config.effMaxLevel
                useValues
                mem := config.memory
                cmp
                free := config.free
                level := config.level
                block
                height := rootLevel
                prngState
                iter := none
                nodes := List.replicate rootLevel (some 0) ++
                  List.replicate (config.effMaxLevel - rootLevel) none
                heap := [some root]
                iters := [] }
            return (.ok, some sa, c)

/-- From `skiparray_free`: hand the `i`-th pair of a node to the free callback. -/
def freePair (sa : SkipArray K V) (n : Node K V) (i : ℕ) (c : Ctx K V U) :
    Except Fault (Ctx K V U) := do
  let k ← slot n.keys (n.offset + i)
  let v ← sa.valueAt n (n.offset + i)
  return { c with freed := (k, v) :: c.freed }

/-- The loop of `skiparray_free` over the nodes. -/
def freeNodes : ℕ → SkipArray K V → Option Ptr → Ctx K V U → Except Fault (Ctx K V U)
  | _, _, none, c => .ok c
  | 0, _, some _, _ => .error .fuel
  | fuel + 1, sa, some p, c => do
    let n ← sa.load (some p)
    let next ← sa.fwdAt (some p) 0
    let c ← (if sa.free.isSome then forUp (freePair sa n) n.count c else pure c)
    let (sa, c) ← nodeFree sa (some p) c
    freeNodes fuel sa next c

/-- The loop of `skiparray_free` over the remaining iterators. -/
def freeIters (sa : SkipArray K V) : ℕ → Option Ptr → Ctx K V U → Except Fault (Ctx K V U)
  | _, none, c => .ok c
  | 0, some _, _ => .error .fuel
  | fuel + 1, some p, c => do
    let it ← sa.loadIter (some p)
    freeIters sa fuel it.next (c.release it.block)

/-- `skiparray_free` -/
def skiparrayFree (sa : SkipArray K V) (c : Ctx K V U) : Except Fault (Ctx K V U) := do
  let n ← sa.headAt 0
  let c ← freeNodes sa.budget sa n c
  let c ← freeIters sa (sa.iters.length + 1) sa.iter c
  return c.release sa.block

end Skiparray
