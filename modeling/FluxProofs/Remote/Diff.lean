/-
`remote.Diff` (src/remote/mock.go, lines 244-404): `diffValue` dispatching on the kind of the
type, `diffStruct` over the exported fields, `diffArrayOrSlice` over the common indices with one
trailing chunk for the surplus, and `diffMap` over both key sets, sorted by path.

`sort.Sort` is the standard library's: the model takes any `ChunkSort`, a function with the
properties the library gives it, and `insertionChunkSort` is one.
-/
import FluxProofs.Remote.Value
import Mathlib.Data.List.Sort
import Mathlib.Data.String.Basic

namespace Flux.Remote

/-! ## `sort.Sort(sorted(diffs))` -/

/-- `sorted.Less` or equal: the order of the chunks' paths (`strings.Compare` compares bytes;
on UTF-8 text that is the order of `String`). -/
def Chunk.PathLe (c d : Chunk) : Prop := c.path ≤ d.path

/-- Decided on the paths' characters, where the comparison computes. -/
instance : DecidableRel Chunk.PathLe := fun c d =>
  decidable_of_iff (c.path.toList ≤ d.path.toList) String.le_iff_toList_le.symm

instance : IsTotal Chunk Chunk.PathLe := ⟨fun c d => le_total c.path d.path⟩

instance : IsTrans Chunk Chunk.PathLe := ⟨fun _ _ _ => le_trans⟩

/-- `sort.Sort(sorted(diffs))`: it permutes the chunks into path order, and (as the insertion sort
`sort.Sort` runs on short slices does) it leaves two chunks in place unless the second one's path
is the smaller. -/
structure ChunkSort where
  sort : List Chunk → List Chunk
  perm : ∀ cs, (sort cs).Perm cs
  sorted : ∀ cs, (sort cs).Sorted Chunk.PathLe
  pair : ∀ c d, ¬ d.path < c.path → sort [c, d] = [c, d]

/-- Insertion sort on the paths: what `sort.Sort` does with a slice of at most six chunks. -/
def insertionChunkSort : ChunkSort where
  sort := List.insertionSort Chunk.PathLe
  perm := List.perm_insertionSort _
  sorted := List.sorted_insertionSort _
  pair c d h := by
    simp [List.insertionSort, List.orderedInsert, Chunk.PathLe, not_lt.mp h]

/-! ## The loops -/

section Loops

variable (d : Val → Val → String → Except DiffFailure (List Chunk)) (path : String)

/-- The loop of `diffArrayOrSlice` over the indices both sequences have, from index `i`. -/
def diffCommon : Nat → List Val → List Val → Except DiffFailure (List Chunk)
  | i, x :: xs, y :: ys => do
    let c ← d x y (indexPath path i)
    let rest ← diffCommon (i + 1) xs ys
    pure (c ++ rest)
  | _, _, _ => pure []

/-- `diffArrayOrSlice`, given `diffValue` on the element type. -/
def diffArrayOrSlice (a b : Option Val) : Except DiffFailure (List Chunk) := do
  let xs ← valueElems a
  let ys ← valueElems b
  let common ← diffCommon d path 0 xs ys
  let i := min xs.length ys.length
  if i < xs.length then
    pure (common ++ [{ deleted := xs.drop i, added := [], path := indexPath path i }])
  else if i < ys.length then
    pure (common ++ [{ deleted := [], added := ys.drop i, path := indexPath path i }])
  else pure common

/-- The first loop of `diffMap`, over `a.MapKeys()`: a key `b` has too is diffed, one it lacks
is `Removed`. -/
def diffKeysA (eb : List (Key × Val)) : List (Key × Val) → Except DiffFailure (List Chunk)
  | [] => pure []
  | (k, va) :: ea => do
    let c ← match eb.lookup k with
      | some vb => d va vb (keyPath path k)
      | none => pure [removed va (keyPath path k)]
    let rest ← diffKeysA eb ea
    pure (c ++ rest)

/-- The second loop of `diffMap`, over `b.MapKeys()`: a key `a` lacks is `Added`. -/
def addedKeysB (ea eb : List (Key × Val)) : List Chunk :=
  (eb.filter fun e => (ea.lookup e.1).isNone).map fun e => added e.2 (keyPath path e.1)

/-- `diffMap`, given `diffValue` on the element type. -/
def diffMap (s : ChunkSort) (a b : Option Val) : Except DiffFailure (List Chunk) :=
  match valueEntries a, valueEntries b with
  | some ea, some eb => do
    let diffs ← diffKeysA d path eb ea
    pure (s.sort (diffs ++ addedKeysB path ea eb))
  | _, _ => .error (.err "both values must be maps")

end Loops

/-! ## `diffValue` and `Diff` -/

mutual
/-- `diffValue(a, b, typ, path)` -/
def diffValue (s : ChunkSort) :
    Ty → Option Val → Option Val → String → Except DiffFailure (List Chunk)
  | .array _ e, a, b, path | .slice e, a, b, path =>
    diffArrayOrSlice (fun x y p => diffValue s e (some x) (some y) p) path a b
  | .iface, _, _, _ => .error (.err "interface diff not implemented")
  | .ptr e, a, b, path => diffValue s e (indirect a) (indirect b) path
  | .strct fs, a, b, path => diffStruct s fs 0 a b path
  | .map e, a, b, path => diffMap (fun x y p => diffValue s e (some x) (some y) p) path s a b
  | .func, _, _, _ => .error (.err "func diff not implemented (and not implementable)")
  | .ground, a, b, path => do
    let x ← valueInterface a
    let y ← valueInterface b
    if interfaceNe x y then pure [changed x y path] else pure []

/-- `diffStruct`, from the field at index `i` on: only exported fields are diffed. -/
def diffStruct (s : ChunkSort) :
    Fields → Nat → Option Val → Option Val → String → Except DiffFailure (List Chunk)
  | .nil, _, _, _, _ => pure []
  | .cons name exported t fs, i, a, b, path => do
    let c ← if exported then do
        let x ← valueField a i
        let y ← valueField b i
        diffValue s t (some x) (some y) (fieldPath path name)
      else pure []
    let rest ← diffStruct s fs (i + 1) a b path
    pure (c ++ rest)
end

section DiffValueEqns

variable (s : ChunkSort) (e : Ty) (fs : Fields) (a b : Option Val) (x y : Val) (path : String)
  (n : Nat) (name : String) (i : Nat)

theorem diffValue_ground : diffValue s .ground a b path = (do
    let x ← valueInterface a
    let y ← valueInterface b
    if interfaceNe x y then pure [changed x y path] else pure []) := rfl
theorem diffValue_array : diffValue s (.array n e) a b path =
    diffArrayOrSlice (fun x y p => diffValue s e (some x) (some y) p) path a b := rfl
theorem diffValue_slice : diffValue s (.slice e) a b path =
    diffArrayOrSlice (fun x y p => diffValue s e (some x) (some y) p) path a b := rfl
theorem diffValue_map : diffValue s (.map e) a b path =
    diffMap (fun x y p => diffValue s e (some x) (some y) p) path s a b := rfl
theorem diffStruct_nil : diffStruct s .nil i a b path = .ok [] := rfl
theorem diffStruct_unexported : diffStruct s (.cons name false e fs) i a b path =
    diffStruct s fs (i + 1) a b path := by
  show (diffStruct s fs (i + 1) a b path >>= fun rest => pure ([] ++ rest)) = _
  cases diffStruct s fs (i + 1) a b path <;> rfl
theorem diffStruct_exported : diffStruct s (.cons name true e fs) i a b path = (do
    let x ← valueField a i
    let y ← valueField b i
    let c ← diffValue s e (some x) (some y) (fieldPath path name)
    let rest ← diffStruct s fs (i + 1) a b path
    pure (c ++ rest)) := rfl

end DiffValueEqns

/-- `Diff(a, b)` of two values with their dynamic types. -/
def diff (s : ChunkSort) (ta : Ty) (a : Val) (tb : Ty) (b : Val) :
    Except DiffFailure (List Chunk) :=
  if ta = tb then diffValue s ta (some a) (some b) "" else .error (.err "values are not diffable")

theorem diff_same (s : ChunkSort) (t : Ty) (a b : Val) :
    diff s t a t b = diffValue s t (some a) (some b) "" := if_pos rfl

/-! ## Reading a successful run -/

@[simp] theorem bind_eq_ok {ε α β : Type} {m : Except ε α} {f : α → Except ε β} {b : β} :
    m >>= f = .ok b ↔ ∃ a, m = .ok a ∧ f a = .ok b := by
  cases m <;> simp [bind, Except.bind]

@[simp] theorem pure_eq_ok {ε α : Type} {a b : α} : (pure a : Except ε α) = .ok b ↔ a = b := by
  simp [pure, Except.pure]

@[simp] theorem ok_bind {ε α β : Type} (a : α) (f : α → Except ε β) :
    (Except.ok a : Except ε α) >>= f = f a := rfl

/-- The fields of a struct value (none for any other value). -/
def structFields : Option Val → List Val
  | some (.strct xs) => xs
  | _ => []

@[simp] theorem valueInterface_eq_ok {a : Option Val} {x : Val} :
    valueInterface a = .ok x ↔ a = some x := by
  cases a <;> simp [valueInterface]

@[simp] theorem valueElems_eq_ok {a : Option Val} {xs : List Val} :
    valueElems a = .ok xs ↔ ∃ n d, a = some (.seq n d xs) := by
  rcases a with _ | ⟨_ | ⟨n, d, ys⟩ | _ | _ | _ | _ | _⟩ <;> simp [valueElems]

@[simp] theorem valueField_eq_ok {a : Option Val} {i : Nat} {x : Val} :
    valueField a i = .ok x ↔ (structFields a)[i]? = some x := by
  rcases a with _ | ⟨_ | _ | _ | xs | _ | _ | _⟩ <;> simp only [valueField, structFields]
  case some.strct => cases xs[i]? <;> simp
  all_goals simp

@[simp] theorem valueEntries_eq_some {a : Option Val} {es : List (Key × Val)} :
    valueEntries a = some es ↔ ∃ n d, a = some (.map n d es) := by
  rcases a with _ | ⟨_ | _ | _ | _ | ⟨n, d, fs⟩ | _ | _⟩ <;> simp [valueEntries]

end Flux.Remote
