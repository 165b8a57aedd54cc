import Skiparray.Lib.Fallible

/-!
# Data of the skiparray library

The structures of `skiparray_internal_types.h` and `skiparray.h`. Objects live
in per-collection arenas and a pointer is an index into one, `none` being
NULL; a freed object leaves a hole behind. What a C program would lose its
meaning on is a `Fault`. Stored pointers are the type parameters `K` and `V`,
whose `default` is the NULL that `memset` leaves in a fresh buffer.

A comparison callback is a function of the two keys: the header requires the
result to stay the same over the lifetime of the collection. The other
callbacks may keep state behind `udata`, which is the type parameter `U`.
-/

namespace Skiparray

/-- The ways an execution can leave C's defined behaviour, or a loop its budget. -/
inductive Fault where
  | assertion
  | null
  | bounds
  | fuel
deriving DecidableEq, Repr

abbrev Ptr : Type := ℕ

/-! ## Machine integers -/

/-- Conversion to `uint8_t`. -/
def u8 (x : ℤ) : ℕ := (x % 256).toNat

/-- Conversion to `uint16_t`. -/
def u16 (x : ℤ) : ℕ := (x % 65536).toNat

/-- Conversion to `int8_t`. -/
def i8 (x : ℤ) : ℤ := Int.bmod x 256

theorem u8_of_lt {n : ℕ} (h : n < 256) : u8 n = n := by
  unfold u8
  omega

theorem u16_of_lt {n : ℕ} (h : n < 65536) : u16 n = n := by
  unfold u16
  omega

theorem u16_sub {a b : ℕ} (hb : b ≤ a) (ha : a < 65536) : u16 (a - b) = a - b := by
  unfold u16
  omega

theorem i8_of_lt {n : ℕ} (h : n < 128) : i8 n = n := by
  unfold i8
  rw [Int.bmod_eq_of_le] <;> omega

theorem i8_neg {n : ℕ} (h : 128 ≤ n) (h' : n < 256) : i8 n < 0 := by
  unfold i8
  rw [Int.bmod_def]
  split <;> omega

/-! ## Callbacks and configuration -/

/-- The code that callback pointers lead to, and the answers of the memory
callback: `grant i` says whether the `i`-th allocation request is met. -/
structure Callbacks (K U : Type) where
  cmp : ℕ → K → K → ℤ
  level : ℕ → UInt64 → UInt64 → U → ℤ × UInt64 × U
  grant : ℕ → Bool

/-- `struct skiparray_config`. A `none` callback is NULL. -/
structure Config where
  nodeSize : UInt16
  maxLevel : UInt8
  seed : UInt64
  ignoreValues : Bool
  cmp : Option ℕ
  memory : Option ℕ
  free : Option ℕ
  level : Option ℕ

/-- `SKIPARRAY_DEF_MAX_LEVEL` -/
def defMaxLevel : ℕ := 16

/-- `SKIPARRAY_MAX_MAX_LEVEL` -/
def maxMaxLevel : ℕ := 32

/-- `SKIPARRAY_DEF_NODE_SIZE` -/
def defNodeSize : ℕ := 1024

/-! ## The structures -/

/-- `struct node`, with the numbers of the memory blocks it was made of. -/
structure Node (K V : Type) where
  height : ℕ
  offset : ℕ
  count : ℕ
  keys : List K
  values : Option (List V)
  back : Option Ptr
  fwd : List (Option Ptr)
  block : ℕ
  keysBlock : ℕ
  valuesBlock : ℕ
deriving DecidableEq, Repr

/-- `struct skiparray_iter` -/
structure Iter where
  prev : Option Ptr
  next : Option Ptr
  n : Option Ptr
  index : ℕ
  block : ℕ
deriving DecidableEq, Repr

/-- The fields of `struct skiparray` that no operation changes. For `mem` and
`level`, `none` is the library's own default. -/
structure Settings where
  nodeSize : ℕ
  maxLevel : ℕ
  useValues : Bool
  mem : Option ℕ
  cmp : ℕ
  free : Option ℕ
  level : Option ℕ
  block : ℕ
deriving DecidableEq, Repr

/-- `struct skiparray`, with the arenas its nodes and iterators live in. -/
structure SkipArray (K V : Type) extends Settings where
  height : ℕ
  prngState : UInt64
  iter : Option Ptr
  nodes : List (Option Ptr)
  heap : List (Option (Node K V))
  iters : List (Option Iter)
deriving DecidableEq, Repr

/-- What lies outside the collections: the callbacks' state, the number of
allocation requests made, the blocks released and the pairs given to the
free callback, latest first. -/
structure Ctx (K V U : Type) where
  udata : U
  requests : ℕ
  released : List ℕ
  freed : List (K × V)
deriving DecidableEq, Repr

variable {K V U : Type}

/-! ## Memory -/

/-- `assert` -/
def check (p : Prop) [Decidable p] : Except Fault Unit :=
  if p then .ok () else .error .assertion

@[simp] theorem check_of_pos {p : Prop} [Decidable p] (h : p) : check p = .ok () := if_pos h

/-- `mem(NULL, size)`: the number of the new block, unless the request fails. -/
def Ctx.alloc (cb : Callbacks K U) (c : Ctx K V U) : Option ℕ × Ctx K V U :=
  (if cb.grant c.requests then some c.requests else none,
    { c with requests := c.requests + 1 })

/-- `mem(p, 0)` -/
def Ctx.release (c : Ctx K V U) (block : ℕ) : Ctx K V U :=
  { c with released := block :: c.released }

/-! ## Access to nodes -/

/-- The node at `p`, if one is alive there. -/
def SkipArray.node? (sa : SkipArray K V) (p : Ptr) : Option (Node K V) := sa.heap[p]?.join

/-- Dereference a node pointer. -/
def SkipArray.load (sa : SkipArray K V) : Option Ptr → Except Fault (Node K V)
  | none => .error .null
  | some p => match sa.node? p with
    | none => .error .null
    | some n => .ok n

/-- Overwrite the node at `p`. -/
def SkipArray.setNode (sa : SkipArray K V) (p : Ptr) (n : Node K V) : SkipArray K V :=
  { sa with heap := sa.heap.set p (some n) }

/-- Put a new node into the next cell of the arena. -/
def SkipArray.pushNode (sa : SkipArray K V) (n : Node K V) : SkipArray K V :=
  { sa with heap := sa.heap ++ [some n] }

/-- Write a node back through a pointer. -/
def SkipArray.store (sa : SkipArray K V) (p : Option Ptr) (n : Node K V) :
    Except Fault (SkipArray K V) :=
  match p with
  | none => .error .null
  | some p => .ok (sa.setNode p n)

/-- Element access within an allocation. -/
def slot {α : Type} (xs : List α) (i : ℕ) : Except Fault α :=
  match xs[i]? with
  | none => .error .bounds
  | some x => .ok x

/-- Element update within an allocation. -/
def putSlot {α : Type} (xs : List α) (i : ℕ) (x : α) : Except Fault (List α) :=
  if i < xs.length then .ok (xs.set i x) else .error .bounds

/-- `sa->nodes[level]` -/
def SkipArray.headAt (sa : SkipArray K V) (level : ℕ) : Except Fault (Option Ptr) :=
  slot sa.nodes level

/-- `sa->nodes[level] = q` -/
def SkipArray.setHead (sa : SkipArray K V) (level : ℕ) (q : Option Ptr) :
    Except Fault (SkipArray K V) := do
  let nodes ← putSlot sa.nodes level q
  return { sa with nodes }

/-- `p->fwd[level]` -/
def SkipArray.fwdAt (sa : SkipArray K V) (p : Option Ptr) (level : ℕ) :
    Except Fault (Option Ptr) := do
  let n ← sa.load p
  slot n.fwd level

/-- `p->fwd[level] = q` -/
def SkipArray.setFwd (sa : SkipArray K V) (p : Option Ptr) (level : ℕ) (q : Option Ptr) :
    Except Fault (SkipArray K V) := do
  let n ← sa.load p
  let fwd ← putSlot n.fwd level q
  sa.store p { n with fwd }

/-- `p->back = q` -/
def SkipArray.setBack (sa : SkipArray K V) (p : Option Ptr) (q : Option Ptr) :
    Except Fault (SkipArray K V) := do
  let n ← sa.load p
  sa.store p { n with back := q }

/-- `sa->use_values ? n->values[i] : NULL` -/
def SkipArray.valueAt [Inhabited V] (sa : SkipArray K V) (n : Node K V) (i : ℕ) :
    Except Fault V :=
  if sa.useValues then
    match n.values with
    | none => .error .null
    | some values => slot values i
  else .ok default

/-- `n->keys[n->offset + n->count - 1]` -/
def Node.lastKey (n : Node K V) : Except Fault K :=
  if n.offset + n.count = 0 then .error .bounds
  else slot n.keys (n.offset + n.count - 1)

/-- An upper bound on the iterations of any walk through the levels. -/
def SkipArray.budget (sa : SkipArray K V) : ℕ := sa.height + sa.heap.length + 1

end Skiparray
