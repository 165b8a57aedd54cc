import Skiparray.Model.Builder
import Skiparray.Model.Fold

/-!
# Filtering

`skiparray_hof.c`: a filtered shallow copy, made by folding a skiparray into a
builder. The predicate may keep state `S`.
-/

namespace Skiparray

variable {K V U S : Type} [Inhabited K] [Inhabited V]

/-- `struct filter_fold_env`, with the state of the predicate. -/
structure FilterEnv (K V S : Type) where
  b : Builder K V
  udata : S
  ok : Bool

/-- `filter_append` -/
def filterAppend (cb : Callbacks K U) (keep : K → V → S → Bool × S) (key : K) (value : V)
    (env : FilterEnv K V S) (c : Ctx K V U) :
    Except Fault (FilterEnv K V S × Ctx K V U) := do
  let (wanted, udata) := keep key value env.udata
  if wanted then
    let (res, b, c) ← skiparrayBuilderAppend cb env.b c key value
    return ({ b, udata, ok := if res = .ok then env.ok else false }, c)
  else
    return ({ env with udata }, c)

/-- The configuration `skiparray_filter` copies from its source. -/
def filterConfig (sa : SkipArray K V) : Config where
  nodeSize := UInt16.ofNat sa.nodeSize
  maxLevel := UInt8.ofNat sa.maxLevel
  seed := 0
  ignoreValues := !sa.useValues
  cmp := some sa.cmp
  memory := sa.mem
  free := sa.free
  level := sa.level

/-- `skiparray_filter`: the copy, if it could be made, and the source after. -/
def skiparrayFilter (cb : Callbacks K U) (sa : SkipArray K V) (c : Ctx K V U)
    (keep : K → V → S → Bool × S) (udata : S) :
    Except Fault (Option (SkipArray K V) × SkipArray K V × S × Ctx K V U) := do
  match ← skiparrayBuilderNew cb (some (filterConfig sa)) true c with
  | (.ok, none, _) => .error .null
  | (.ok, some b, c) =>
    let env : FilterEnv K V S := { b, udata, ok := true }
    let (res, sas, env, c) ← skiparrayFold cb .left 0 (filterAppend cb keep) [sa] env c
    let sa ← slot sas 0
    if res ≠ .ok then
      let c ← skiparrayBuilderFree (some env.b) c
      return (none, sa, env.udata, c)
    else if env.ok ≠ true then
      let c ← skiparrayBuilderFree (some env.b) c
      return (none, sa, env.udata, c)
    else
      let (copy, c) := skiparrayBuilderFinish env.b c
      return (some copy, sa, env.udata, c)
  | (_, _, c) => return (none, sa, udata, c)

end Skiparray
