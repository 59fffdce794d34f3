/-
Go values as `remote.Diff` sees them through `reflect` (src/remote/mock.go): the kinds of type
`diffValue` dispatches on, values as finite trees, the `reflect.Value` operations the diff calls
(with the panics they raise on the zero Value), the `Chunk` record, and `reflect.DeepEqual` as
Go 1.7 (the release src/circle.yml builds with) computes it.

A map value lists its entries in the order `MapKeys` enumerates them; the same Go map may be
listed in any order (`Val.Equiv` in `FluxProofs.Remote.Equiv`). Pointers point to finite
trees: there is no cycle. A slice, a map and a pointer carry the identity `DeepEqual` compares
(`Pointer()`, the pointer's address); values that share an identity are one object of the
program, which a `Val` does not check.
-/
import Mathlib.Algebra.Group.Nat.Basic
import Mathlib.Data.List.Nodup

namespace Flux.Remote

/-! ## Ground values -/

/-- A map key: a value of a comparable kind `%v` prints. Float and complex keys are not
modelled. -/
inductive Key where
  | bool (b : Bool)
  | int (i : Int)
  | str (s : String)
  deriving DecidableEq, Repr

/-- `fmt.Sprintf("%v", k)`. -/
def Key.fmtV : Key → String
  | .bool b => toString b
  | .int i => toString i
  | .str s => s

/-- A `float64` that is a NaN: all exponent bits set and a non-zero fraction. -/
def isNaN (x : UInt64) : Bool := x.toNat / 2 ^ 52 % 2 ^ 11 == 2 ^ 11 - 1 && x.toNat % 2 ^ 52 != 0

/-- A `float64` that is `+0` or `-0`: every bit but the sign clear. -/
def isZero (x : UInt64) : Bool := x.toNat % 2 ^ 63 == 0

/-- Go's `==` on two `float64`s, given by their bit patterns: a NaN equals nothing, the two
zeros are equal, and other values are equal when their patterns are. -/
def floatEq (x y : UInt64) : Bool := !isNaN x && !isNaN y && (x == y || isZero x && isZero y)

/-- `math.NaN()`: the pattern `0x7FF8000000000001`. -/
def goNaN : UInt64 := 0x7FF8000000000001

/-- A value of a ground kind: the kinds `diffValue`'s default case compares with `!=`. A float is
its bit pattern, a complex number its two. -/
inductive Ground where
  | bool (b : Bool)
  | int (i : Int)
  | str (s : String)
  | float (bits : UInt64)
  | complex (re im : UInt64)
  deriving DecidableEq, Repr

/-- Go's `==` on two ground values, which `!=` of their `Interface()`s compares: values of two
kinds are unequal, floats compare as `floatEq`, complex numbers part by part. -/
def Ground.goEq : Ground → Ground → Bool
  | .bool a, .bool b => a == b
  | .int a, .int b => a == b
  | .str a, .str b => a == b
  | .float x, .float y => floatEq x y
  | .complex a b, .complex c d => floatEq a c && floatEq b d
  | _, _ => false

/-! ## Types and values -/

mutual
/-- The kinds of Go type `diffValue` dispatches on, with the types it recurses into. -/
inductive Ty where
  | ground
  | array (n : Nat) (elem : Ty)
  | slice (elem : Ty)
  | iface
  | ptr (elem : Ty)
  | strct (fields : Fields)
  | map (elem : Ty)
  | func
/-- The fields of a struct type in declaration order: name, exported (`PkgPath == ""`), type. -/
inductive Fields where
  | nil
  | cons (name : String) (exported : Bool) (ty : Ty) (rest : Fields)
end

deriving instance DecidableEq for Ty

/-- A Go value. Arrays and slices are `seq` (an array is never nil); a map lists its entries in
`MapKeys` order; an interface holds its dynamic type and value. -/
inductive Val where
  | ground (g : Ground)
  /-- `data` is a slice's `Pointer()`, the address of its first element (`0` when nil); an array
  ignores it. -/
  | seq (isNil : Bool) (data : Nat) (elems : List Val)
  /-- A nil pointer, or the address a pointer holds and the value there. -/
  | ptr (target : Option (Nat × Val))
  | strct (fields : List Val)
  /-- `id` is the map's `Pointer()`. -/
  | map (isNil : Bool) (id : Nat) (entries : List (Key × Val))
  | iface (dyn : Option (Ty × Val))
  | func (isNil : Bool)

/-- `Chunk`: one difference, at `Path`. -/
structure Chunk where
  deleted : List Val
  added : List Val
  path : String

/-- How a diff stops: an `error` returned up the recursion, or a panic raised by `reflect`. -/
inductive DiffFailure where
  | err (msg : String)
  | panic (msg : String)
  deriving DecidableEq

/-! ## Paths and chunks -/

/-- `path+"."+field.Name` -/
def fieldPath (path name : String) : String := path ++ "." ++ name

/-- `fmt.Sprintf("%s[%d]", path, i)` -/
def indexPath (path : String) (i : Nat) : String := path ++ "[" ++ toString i ++ "]"

/-- `fmt.Sprintf(`%s[%v]`, path, key)` -/
def keyPath (path : String) (k : Key) : String := path ++ "[" ++ k.fmtV ++ "]"

/-- `Changed(A, B, path)` -/
def changed (a b : Val) (path : String) : Chunk := { deleted := [a], added := [b], path }

/-- `Added(B, path)` -/
def added (b : Val) (path : String) : Chunk := { deleted := [], added := [b], path }

/-- `Removed(A, path)` -/
def removed (a : Val) (path : String) : Chunk := { deleted := [a], added := [], path }

/-! ## `reflect.Value`

A `reflect.Value` is an `Option Val`: `none` is the zero Value, which `reflect.Indirect` returns
for a nil pointer. -/

/-- `reflect.Indirect(v)`: the pointee, the zero Value for a nil pointer, `v` itself otherwise. -/
def indirect : Option Val → Option Val
  | some (.ptr t) => t.map Prod.snd
  | v => v

/-- `v.Interface()` -/
def valueInterface : Option Val → Except DiffFailure Val
  | some v => .ok v
  | none => .error (.panic "reflect: call of reflect.Value.Interface on zero Value")

/-- `v.Len()` and `v.Index(i)` of an array or slice: its elements. -/
def valueElems : Option Val → Except DiffFailure (List Val)
  | some (.seq _ _ xs) => .ok xs
  | _ => .error (.panic "reflect: call of reflect.Value.Len on zero Value")

/-- `v.Field(i)` -/
def valueField : Option Val → Nat → Except DiffFailure Val
  | some (.strct xs), i =>
    match xs[i]? with
    | some x => .ok x
    | none => .error (.panic "reflect: Field index out of range")
  | _, _ => .error (.panic "reflect: call of reflect.Value.Field on zero Value")

/-- `v.MapKeys()` with `v.MapIndex`, when `v.Kind() == reflect.Map`. -/
def valueEntries : Option Val → Option (List (Key × Val))
  | some (.map _ _ es) => some es
  | _ => none

/-- `a.Interface() != b.Interface()` on the values `diffValue`'s default case sees, those of a
ground kind: Go's `!=`. -/
def interfaceNe : Val → Val → Bool
  | .ground x, .ground y => !x.goEq y
  | _, _ => true

/-! ## `reflect.DeepEqual` -/

/-- Where an addressable value lives: the address of the object it is part of (a pointer's
target or a slice's data), and the field and element indices below it. -/
abbrev Addr := Nat × List Nat

/-- The address of field or element `i` of an addressable value; none when the value is not
addressable. -/
def Addr.sub (p : Option Addr) (i : Nat) : Option Addr := p.map fun a => (a.1, a.2 ++ [i])

/-- `deepValueEqual`'s short circuit: `v1.CanAddr() && v2.CanAddr()` and the two addresses are
the same. (The `visited` map changes no result on acyclic values: a pair is met again only after
it compared equal, since a `false` returns at once.) -/
def sameAddr (p q : Option Addr) : Bool := p.isSome && p == q

mutual
/-- `deepValueEqual(v1, v2)` for two values of type `t` at the addresses `p` and `q`. The hard
kinds (array, slice, struct, map) are equal when addressable at one address; a slice or a map is
then checked for nil and length, and equal when `Pointer()` is the same; a pointer's target, a
slice's element and a field of either are addressable, a map's value and an interface's value
are not; ground values compare with Go's `==`. -/
def deepValueEqual : Ty → Option Addr → Option Addr → Val → Val → Bool
  | .ground, _, _, .ground x, .ground y => x.goEq y
  | .array _ e, p, q, .seq _ _ xs, .seq _ _ ys => sameAddr p q || deepValueEqualElems e p q 0 xs ys
  | .slice e, p, q, .seq n d xs, .seq m d' ys =>
    sameAddr p q || (n == m && xs.length == ys.length &&
      (d == d' || deepValueEqualElems e (some (d, [])) (some (d', [])) 0 xs ys))
  | .iface, _, _, .iface none, .iface none => true
  | .iface, _, _, .iface (some (t, x)), .iface (some (u, y)) =>
    t == u && deepValueEqual t none none x y
  | .ptr _, _, _, .ptr none, .ptr none => true
  | .ptr e, _, _, .ptr (some (a, x)), .ptr (some (b, y)) =>
    deepValueEqual e (some (a, [])) (some (b, [])) x y
  | .strct fs, p, q, .strct xs, .strct ys => sameAddr p q || deepValueEqualFields fs p q 0 xs ys
  | .map e, p, q, .map n d es, .map m d' fs =>
    sameAddr p q || (n == m && es.length == fs.length && (d == d' || deepValueEqualEntries e es fs))
  | .func, _, _, .func n, .func m => n && m
  | _, _, _, _, _ => false
termination_by structural _ _ _ x => x
/-- The loop over the elements of two arrays or slices, from index `i`. -/
def deepValueEqualElems (e : Ty) (p q : Option Addr) : Nat → List Val → List Val → Bool
  | _, [], [] => true
  | i, x :: xs, y :: ys =>
    deepValueEqual e (Addr.sub p i) (Addr.sub q i) x y && deepValueEqualElems e p q (i + 1) xs ys
  | _, _, _ => false
termination_by structural _ xs => xs
/-- The loop over the fields of two structs, from index `i`. -/
def deepValueEqualFields : Fields → Option Addr → Option Addr → Nat → List Val → List Val → Bool
  | .nil, _, _, _, [], [] => true
  | .cons _ _ t fs, p, q, i, x :: xs, y :: ys =>
    deepValueEqual t (Addr.sub p i) (Addr.sub q i) x y && deepValueEqualFields fs p q (i + 1) xs ys
  | _, _, _, _, _, _ => false
termination_by structural _ _ _ _ xs => xs
/-- The loop over `v1.MapKeys()`: `v2.MapIndex(k)` is the zero Value for a key `v2` lacks. -/
def deepValueEqualEntries (e : Ty) : List (Key × Val) → List (Key × Val) → Bool
  | [], _ => true
  | (k, x) :: es, fs =>
    (match fs.lookup k with
      | some y => deepValueEqual e none none x y
      | none => false) && deepValueEqualEntries e es fs
termination_by structural es => es
end

/-- `reflect.DeepEqual(a, b)` of two non-nil values of dynamic type `t`: `reflect.ValueOf` gives
values that are not addressable. -/
def deepEqual (t : Ty) (a b : Val) : Bool := deepValueEqual t none none a b

/-! ## Typing -/

/-- `v` is a value of type `t`; the keys of a map are distinct. -/
def hasType : Ty → Val → Bool
  | .ground, .ground _ => true
  | .array n e, .seq isNil _ xs => !isNil && xs.length == n && allHaveType e xs
  | .slice e, .seq _ _ xs => allHaveType e xs
  | .iface, .iface none => true
  | .iface, .iface (some (t, v)) => hasType t v
  | .ptr _, .ptr none => true
  | .ptr e, .ptr (some (_, v)) => hasType e v
  | .strct fs, .strct xs => fieldsHaveType fs xs
  | .map e, .map _ _ es => decide (es.map Prod.fst).Nodup && entriesHaveType e es
  | .func, .func _ => true
  | _, _ => false
where
  allHaveType (e : Ty) : List Val → Bool
    | [] => true
    | x :: xs => hasType e x && allHaveType e xs
  fieldsHaveType : Fields → List Val → Bool
    | .nil, [] => true
    | .cons _ _ t fs, x :: xs => hasType t x && fieldsHaveType fs xs
    | _, _ => false
  entriesHaveType (e : Ty) : List (Key × Val) → Bool
    | [] => true
    | (_, x) :: es => hasType e x && entriesHaveType e es

section HasTypeEqns

variable (e : Ty) (g : Ground) (k : Nat) (n : Bool) (d : Nat) (xs : List Val) (v : Val)
  (fs : Fields) (es : List (Key × Val))

@[simp] theorem hasType_ground_ground : hasType .ground (.ground g) = true := rfl
@[simp] theorem hasType_array_seq : hasType (.array k e) (.seq n d xs) =
    (!n && xs.length == k && hasType.allHaveType e xs) := rfl
@[simp] theorem hasType_slice_seq :
    hasType (.slice e) (.seq n d xs) = hasType.allHaveType e xs := rfl
@[simp] theorem hasType_ptr_none : hasType (.ptr e) (.ptr none) = true := rfl
@[simp] theorem hasType_ptr_some (a : Nat) : hasType (.ptr e) (.ptr (some (a, v))) = hasType e v :=
  rfl
@[simp] theorem hasType_strct_strct :
    hasType (.strct fs) (.strct xs) = hasType.fieldsHaveType fs xs := rfl
@[simp] theorem hasType_map_map : hasType (.map e) (.map n d es) =
    (decide (es.map Prod.fst).Nodup && hasType.entriesHaveType e es) := rfl

@[simp] theorem allHaveType_nil : hasType.allHaveType e [] = true := rfl
@[simp] theorem allHaveType_cons :
    hasType.allHaveType e (v :: xs) = (hasType e v && hasType.allHaveType e xs) := rfl
@[simp] theorem fieldsHaveType_nil_nil : hasType.fieldsHaveType .nil [] = true := rfl
@[simp] theorem fieldsHaveType_cons_cons (name : String) (ex : Bool) :
    hasType.fieldsHaveType (.cons name ex e fs) (v :: xs) =
      (hasType e v && hasType.fieldsHaveType fs xs) := rfl
@[simp] theorem fieldsHaveType_cons_nil (name : String) (ex : Bool) :
    hasType.fieldsHaveType (.cons name ex e fs) [] = false := rfl
@[simp] theorem entriesHaveType_nil : hasType.entriesHaveType e [] = true := rfl
@[simp] theorem entriesHaveType_cons (k : Key) :
    hasType.entriesHaveType e ((k, v) :: es) = (hasType e v && hasType.entriesHaveType e es) := rfl

end HasTypeEqns

theorem allHaveType_iff {e : Ty} : ∀ {xs : List Val},
    hasType.allHaveType e xs = true ↔ ∀ x ∈ xs, hasType e x = true
  | [] => by simp
  | x :: xs => by simp [allHaveType_iff]

theorem entriesHaveType_iff {e : Ty} : ∀ {es : List (Key × Val)},
    hasType.entriesHaveType e es = true ↔ ∀ p ∈ es, hasType e p.2 = true
  | [] => by simp
  | (k, x) :: es => by simp [entriesHaveType_iff]

/-! ### Inversion: the values of each type -/

section Inversion

variable {t : Ty} {a : Val}

theorem hasType_ground (h : hasType .ground a) : ∃ g, a = .ground g := by
  cases a with
  | ground g => exact ⟨g, rfl⟩
  | _ => cases h

theorem hasType_seq (h : hasType (.slice t) a) :
    ∃ n d xs, a = .seq n d xs ∧ ∀ x ∈ xs, hasType t x := by
  cases a with
  | seq n d xs => exact ⟨n, d, xs, rfl, allHaveType_iff.mp h⟩
  | _ => cases h

theorem hasType_array {k : Nat} (h : hasType (.array k t) a) :
    ∃ d xs, a = .seq false d xs ∧ ∀ x ∈ xs, hasType t x := by
  cases a with
  | seq isNil d xs =>
    simp only [hasType_array_seq, Bool.and_eq_true, Bool.not_eq_true', allHaveType_iff] at h
    exact ⟨d, xs, by rw [h.1.1], h.2⟩
  | _ => cases h

/-- An array or a slice: a `seq` whose elements have the element type. -/
theorem hasType_elems (h : hasType (.slice t) a ∨ ∃ k, hasType (.array k t) a) :
    ∃ n d xs, a = .seq n d xs ∧ ∀ x ∈ xs, hasType t x := by
  rcases h with h | ⟨k, h⟩
  · exact hasType_seq h
  · obtain ⟨d, xs, h, hxs⟩ := hasType_array h
    exact ⟨false, d, xs, h, hxs⟩

theorem hasType_ptr (h : hasType (.ptr t) a) :
    a = .ptr none ∨ ∃ p x, a = .ptr (some (p, x)) ∧ hasType t x := by
  cases a with
  | ptr x =>
    rcases x with _ | ⟨p, x⟩
    · exact .inl rfl
    · exact .inr ⟨p, x, rfl, h⟩
  | _ => cases h

theorem hasType_strct {fs : Fields} (h : hasType (.strct fs) a) :
    ∃ xs, a = .strct xs ∧ hasType.fieldsHaveType fs xs := by
  cases a with
  | strct xs => exact ⟨xs, rfl, h⟩
  | _ => cases h

/-- Values typed by a non-empty field list: a first value of the first field's type, and the
rest typed by the other fields. -/
theorem fieldsHaveType_cons {name : String} {ex : Bool} {fs : Fields} {xs : List Val}
    (h : hasType.fieldsHaveType (.cons name ex t fs) xs) :
    ∃ x xr, xs = x :: xr ∧ hasType t x ∧ hasType.fieldsHaveType fs xr := by
  cases xs with
  | nil => rw [fieldsHaveType_cons_nil] at h; cases h
  | cons x xr =>
    rw [fieldsHaveType_cons_cons, Bool.and_eq_true] at h
    exact ⟨x, xr, rfl, h⟩

theorem hasType_map (h : hasType (.map t) a) :
    ∃ n d es, a = .map n d es ∧ (es.map Prod.fst).Nodup ∧ ∀ e ∈ es, hasType t e.2 := by
  cases a with
  | map n d es =>
    simp only [hasType_map_map, Bool.and_eq_true, decide_eq_true_eq, entriesHaveType_iff] at h
    exact ⟨n, d, es, rfl, h⟩
  | _ => cases h

end Inversion

theorem lookup_mem : ∀ {es : List (Key × Val)} {k : Key} {v : Val},
    es.lookup k = some v → (k, v) ∈ es
  | [], _, _, h => nomatch h
  | (k', v') :: es, k, v, h => by
    by_cases hk : k = k'
    · subst hk
      simp only [List.lookup_cons, beq_self_eq_true, Option.some.injEq] at h
      exact h ▸ List.mem_cons_self _ _
    · simp only [List.lookup_cons, beq_false_of_ne hk] at h
      exact List.mem_cons_of_mem _ (lookup_mem h)

end Flux.Remote
