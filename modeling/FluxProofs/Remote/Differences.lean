/-
What `Diff` reports, said without the diff: the differences between two values of one type over
the locations reached from the root through exported struct fields, the indices both sequences
have, the keys both maps have, and pointer dereferences. A difference is a ground location whose
values are unequal (Go's `==`), a key only one map has, or a length mismatch, reported once at the
shorter length with the surplus elements. A location's path is written from `.Field`, `[i]` and
`[key]` segments (`Seg.text`), the chunks' payloads are written out here, and neither uses the
diff's own functions.

Whenever `Diff` returns a chunk list for two values of one type, the list is a permutation of
these differences: each is reported exactly once and nothing else is (`diff_chunks_exact`).
-/
import FluxProofs.Remote.Diff

namespace Flux.Remote

/-! ## Locations -/

/-- A step from a location to one below it. -/
inductive Seg where
  | field (name : String)
  | index (i : Nat)
  | key (k : Key)

/-- How `%v` prints a key: `true` or `false`, an integer in decimal with a `-` when it is
negative, a string as it is. -/
def keyText : Key → String
  | .bool true => "true"
  | .bool false => "false"
  | .int i => if i < 0 then "-" ++ Nat.repr i.natAbs else Nat.repr i.natAbs
  | .str s => s

/-- How a segment is written in a path: `.Field`, `[i]` or `[key]`. -/
def Seg.text : Seg → String
  | .field name => "." ++ name
  | .index i => "[" ++ Nat.repr i ++ "]"
  | .key k => "[" ++ keyText k ++ "]"

/-- The path of the location one segment below `path`. -/
def below (path : String) (s : Seg) : String := path ++ s.text

/-! ## The differences -/

/-- A length mismatch: at index `min (len xs) (len ys)`, the surplus elements of the longer
sequence, deleted or added. -/
def surplus (path : String) (xs ys : List Val) : List Chunk :=
  if ys.length < xs.length then
    [{ deleted := xs.drop ys.length, added := [], path := below path (.index ys.length) }]
  else if xs.length < ys.length then
    [{ deleted := [], added := ys.drop xs.length, path := below path (.index xs.length) }]
  else []

/-- The differences of two sequences, given those of two elements: at every index both have, then
the length mismatch. -/
def seqDifferences (D : Val → Val → String → List Chunk) (path : String) (xs ys : List Val) :
    List Chunk :=
  ((xs.zip ys).enum.flatMap fun e => D e.2.1 e.2.2 (below path (.index e.1))) ++ surplus path xs ys

/-- The differences of two maps, given those of two elements: at every key both have, then the
keys only `a` has, each with its value deleted, and the keys only `b` has, each with its value
added. -/
def mapDifferences (D : Val → Val → String → List Chunk) (path : String)
    (ea eb : List (Key × Val)) : List Chunk :=
  (ea.flatMap fun e => match eb.lookup e.1 with
    | some vb => D e.2 vb (below path (.key e.1))
    | none => [{ deleted := [e.2], added := [], path := below path (.key e.1) }]) ++
  (eb.filter fun e => (ea.lookup e.1).isNone).map fun e =>
    { deleted := [], added := [e.2], path := below path (.key e.1) }

mutual
/-- The differences between `a` and `b` at type `t`, below `path`. A dereference adds no path
segment; a nil pointer, an interface and a func reach no location. -/
def differences : Ty → Val → Val → String → List Chunk
  | .ground, .ground x, .ground y, path =>
    if x.goEq y then [] else [{ deleted := [.ground x], added := [.ground y], path }]
  | .array _ e, .seq _ _ xs, .seq _ _ ys, path | .slice e, .seq _ _ xs, .seq _ _ ys, path =>
    seqDifferences (differences e) path xs ys
  | .ptr e, .ptr (some (_, x)), .ptr (some (_, y)), path => differences e x y path
  | .strct fs, .strct xs, .strct ys, path => fieldDifferences fs xs ys path
  | .map e, .map _ _ ea, .map _ _ eb, path => mapDifferences (differences e) path ea eb
  | _, _, _, _ => []
/-- The differences at the exported fields, in declaration order. -/
def fieldDifferences : Fields → List Val → List Val → String → List Chunk
  | .cons name exported t fs, x :: xs, y :: ys, path =>
    (if exported then differences t x y (below path (.field name)) else []) ++
      fieldDifferences fs xs ys path
  | _, _, _, _ => []
end

/-! ## The code's paths and chunks -/

theorem fieldPath_eq (path name : String) : fieldPath path name = below path (.field name) := by
  simp only [fieldPath, below, Seg.text, String.append_assoc]

theorem indexPath_eq (path : String) (i : Nat) : indexPath path i = below path (.index i) := by
  simp only [indexPath, below, Seg.text, String.append_assoc]; rfl

theorem fmtV_eq_keyText : ∀ k : Key, k.fmtV = keyText k
  | .bool true | .bool false | .str _ | .int (.ofNat _) => rfl
  | .int (.negSucc _) => by
    show _ = if _ then _ else _
    rw [if_pos (Int.negSucc_lt_zero _)]; rfl

theorem keyPath_eq (path : String) (k : Key) : keyPath path k = below path (.key k) := by
  simp only [keyPath, below, Seg.text, String.append_assoc, fmtV_eq_keyText]

/-! ## The loops report the differences -/

section Lift

variable {d : Val → Val → String → Except DiffFailure (List Chunk)}
  {D : Val → Val → String → List Chunk} {P : Val → Prop}
  (hd : ∀ x y p cs, P x → P y → d x y p = .ok cs → cs.Perm (D x y p))
include hd

theorem diffCommon_perm (path : String) : ∀ (i : Nat) (xs ys : List Val) (cs : List Chunk),
    (∀ x ∈ xs, P x) → (∀ y ∈ ys, P y) → diffCommon d path i xs ys = .ok cs →
      cs.Perm (((xs.zip ys).enumFrom i).flatMap fun e => D e.2.1 e.2.2 (below path (.index e.1)))
  | i, x :: xs, y :: ys, cs, hxs, hys, h => by
    simp only [diffCommon, bind_eq_ok, pure_eq_ok] at h
    obtain ⟨c, hc, rest, hr, rfl⟩ := h
    rw [List.forall_mem_cons] at hxs hys
    simpa [indexPath_eq] using (hd _ _ _ _ hxs.1 hys.1 hc).append
      (diffCommon_perm path (i + 1) xs ys rest hxs.2 hys.2 hr)
  | _, [], _, cs, _, _, h | _, _ :: _, [], cs, _, _, h => by
    simp only [diffCommon, pure_eq_ok] at h; simp [← h]

theorem diffArrayOrSlice_perm {path : String} {n m : Bool} {da db : Nat} {xs ys : List Val}
    {cs : List Chunk} (hxs : ∀ x ∈ xs, P x) (hys : ∀ y ∈ ys, P y)
    (h : diffArrayOrSlice d path (some (.seq n da xs)) (some (.seq m db ys)) = .ok cs) :
    cs.Perm (seqDifferences D path xs ys) := by
  simp only [diffArrayOrSlice, valueElems, ok_bind, bind_eq_ok] at h
  obtain ⟨common, hc, h⟩ := h
  have hp := diffCommon_perm hd path 0 xs ys common hxs hys hc
  unfold seqDifferences surplus
  split at h <;> [skip; split at h] <;> simp only [pure_eq_ok] at h <;> subst h
  · rw [if_pos (by omega), Nat.min_eq_right (by omega), indexPath_eq]
    exact hp.append (.refl _)
  · rw [if_neg (by omega), if_pos (by omega), Nat.min_eq_left (by omega), indexPath_eq]
    exact hp.append (.refl _)
  · rw [if_neg (by omega), if_neg (by omega)]; simpa using hp

theorem diffKeysA_perm (path : String) (eb : List (Key × Val)) (hPb : ∀ e ∈ eb, P e.2) :
    ∀ (ea : List (Key × Val)) (cs : List Chunk), (∀ e ∈ ea, P e.2) →
    diffKeysA d path eb ea = .ok cs →
      cs.Perm (ea.flatMap fun e => match eb.lookup e.1 with
        | some vb => D e.2 vb (below path (.key e.1))
        | none => [{ deleted := [e.2], added := [], path := below path (.key e.1) }])
  | [], cs, _, h => by simp only [diffKeysA, pure_eq_ok] at h; simp [← h]
  | (k, va) :: ea, cs, hPa, h => by
    rw [List.flatMap_cons]
    rw [List.forall_mem_cons] at hPa
    cases hk : eb.lookup k with
    | none =>
      simp only [diffKeysA, hk, bind_eq_ok, pure_eq_ok] at h
      obtain ⟨_, rfl, rest, hr, rfl⟩ := h
      rw [removed, keyPath_eq]
      exact (List.Perm.refl _).append (diffKeysA_perm path eb hPb ea rest hPa.2 hr)
    | some vb =>
      simp only [diffKeysA, hk, bind_eq_ok, pure_eq_ok] at h
      obtain ⟨c, hc, rest, hr, rfl⟩ := h
      rw [← keyPath_eq]
      exact (hd _ _ _ _ hPa.1 (hPb _ (lookup_mem hk)) hc).append
        (diffKeysA_perm path eb hPb ea rest hPa.2 hr)

theorem diffMap_perm {path : String} {s : ChunkSort} {n m : Bool} {da db : Nat}
    {ea eb : List (Key × Val)} {cs : List Chunk} (hPa : ∀ e ∈ ea, P e.2) (hPb : ∀ e ∈ eb, P e.2)
    (h : diffMap d path s (some (.map n da ea)) (some (.map m db eb)) = .ok cs) :
    cs.Perm (mapDifferences D path ea eb) := by
  simp only [diffMap, valueEntries, bind_eq_ok, pure_eq_ok] at h
  obtain ⟨diffs, hdiffs, rfl⟩ := h
  refine (s.perm _).trans ((diffKeysA_perm hd path eb hPb ea diffs hPa hdiffs).append ?_)
  simp only [addedKeysB, added, keyPath_eq, List.Perm.refl]

end Lift

/-! ## `diffValue` reports the differences -/

/-- Diffing a struct with the zero Value reports nothing: an exported field makes it fail. -/
theorem diffStruct_zero (s : ChunkSort) : ∀ (fs : Fields) (i : Nat) (a b : Option Val)
    (path : String) (cs : List Chunk), (a = none ∨ b = none) →
      diffStruct s fs i a b path = .ok cs → cs = []
  | .nil, _, _, _, _, cs, _, h => by rw [diffStruct_nil] at h; cases h; rfl
  | .cons _ false _ fs, i, a, b, path, cs, hab, h => by
    rw [diffStruct_unexported] at h
    exact diffStruct_zero s fs (i + 1) a b path cs hab h
  | .cons _ true _ _, _, a, b, _, _, hab, h => by
    simp only [diffStruct_exported, bind_eq_ok, valueField_eq_ok] at h
    obtain ⟨_, hx, _, hy, -⟩ := h
    rcases hab with rfl | rfl <;> simp [structFields] at hx hy

/-- Below a nil pointer the diff reports nothing: it fails at the first value it reads, or reads
none (a struct with no exported field). -/
theorem diffValue_zero (s : ChunkSort) : ∀ (t : Ty) (a b : Option Val) (path : String)
    (cs : List Chunk), (a = none ∨ b = none) → diffValue s t a b path = .ok cs → cs = []
  | .ground, a, b, _, _, hab, h => by
    simp only [diffValue_ground, bind_eq_ok, valueInterface_eq_ok] at h
    obtain ⟨_, rfl, _, rfl, -⟩ := h
    simp at hab
  | .array _ e, a, b, _, _, hab, h | .slice e, a, b, _, _, hab, h => by
    simp only [diffValue_array, diffValue_slice, diffArrayOrSlice, bind_eq_ok,
      valueElems_eq_ok] at h
    obtain ⟨_, ⟨_, _, rfl⟩, _, ⟨_, _, rfl⟩, -⟩ := h
    simp at hab
  | .iface, _, _, _, _, _, h | .func, _, _, _, _, _, h => nomatch h
  | .ptr e, a, b, path, cs, hab, h =>
    diffValue_zero s e _ _ path cs (by rcases hab with rfl | rfl <;> simp [indirect]) h
  | .strct fs, a, b, path, cs, hab, h => diffStruct_zero s fs 0 a b path cs hab h
  | .map e, a, b, _, _, hab, h => by
    rw [diffValue_map, diffMap] at h
    split at h
    · rename_i ha hb
      obtain ⟨_, _, rfl⟩ := valueEntries_eq_some.mp ha
      obtain ⟨_, _, rfl⟩ := valueEntries_eq_some.mp hb
      simp at hab
    · cases h

mutual
theorem diffValue_perm (s : ChunkSort) : ∀ (t : Ty) (a b : Val) (path : String)
    (cs : List Chunk), hasType t a → hasType t b → diffValue s t (some a) (some b) path = .ok cs →
      cs.Perm (differences t a b path)
  | .ground, a, b, path, cs, ha, hb, h => by
    obtain ⟨x, rfl⟩ := hasType_ground ha
    obtain ⟨y, rfl⟩ := hasType_ground hb
    simp only [diffValue_ground, valueInterface, ok_bind, interfaceNe] at h
    show cs.Perm (if x.goEq y then [] else _)
    cases hxy : x.goEq y <;> simp only [hxy, Bool.not_false, Bool.not_true, if_true, if_false,
      Bool.false_eq_true, pure_eq_ok] at h ⊢ <;> simp [← h, changed]
  | .array _ e, a, b, path, cs, ha, hb, h | .slice e, a, b, path, cs, ha, hb, h => by
    obtain ⟨_, _, xs, rfl, hxs⟩ := hasType_elems (by first | exact .inl ha | exact .inr ⟨_, ha⟩)
    obtain ⟨_, _, ys, rfl, hys⟩ := hasType_elems (by first | exact .inl hb | exact .inr ⟨_, hb⟩)
    exact diffArrayOrSlice_perm (fun x y p cs hx hy h => diffValue_perm s e x y p cs hx hy h)
      hxs hys h
  | .iface, _, _, _, _, _, _, h | .func, _, _, _, _, _, _, h => nomatch h
  | .ptr e, a, b, path, cs, ha, hb, h => by
    rcases hasType_ptr ha with rfl | ⟨_, x, rfl, hx⟩
    · rcases hasType_ptr hb with rfl | ⟨_, _, rfl, -⟩ <;>
        rw [diffValue_zero s e _ _ path cs (.inl rfl) h] <;> exact .nil
    · rcases hasType_ptr hb with rfl | ⟨_, y, rfl, hy⟩
      · rw [diffValue_zero s e _ _ path cs (.inr rfl) h]; exact .nil
      · exact diffValue_perm s e x y path cs hx hy h
  | .strct fs, a, b, path, cs, ha, hb, h => by
    obtain ⟨xs, rfl, hxs⟩ := hasType_strct ha
    obtain ⟨ys, rfl, hys⟩ := hasType_strct hb
    exact diffStruct_perm s fs 0 xs ys path cs hxs hys h
  | .map e, a, b, path, cs, ha, hb, h => by
    obtain ⟨_, _, ea, rfl, -, hPa⟩ := hasType_map ha
    obtain ⟨_, _, eb, rfl, -, hPb⟩ := hasType_map hb
    exact diffMap_perm (fun x y p cs hx hy h => diffValue_perm s e x y p cs hx hy h) hPa hPb h

theorem diffStruct_perm (s : ChunkSort) : ∀ (fs : Fields) (i : Nat) (xs ys : List Val)
    (path : String) (cs : List Chunk), hasType.fieldsHaveType fs (xs.drop i) →
      hasType.fieldsHaveType fs (ys.drop i) →
      diffStruct s fs i (some (.strct xs)) (some (.strct ys)) path = .ok cs →
        cs.Perm (fieldDifferences fs (xs.drop i) (ys.drop i) path)
  | .nil, _, _, _, _, cs, _, _, h => by rw [diffStruct_nil] at h; cases h; exact .nil
  | .cons name exported t fs, i, xs, ys, path, cs, hx, hy, h => by
    obtain ⟨x, xr, hxd, htx, hxs⟩ := fieldsHaveType_cons hx
    obtain ⟨y, yr, hyd, hty, hys⟩ := fieldsHaveType_cons hy
    have hxr : xs.drop (i + 1) = xr := by rw [← List.tail_drop, hxd]; rfl
    have hyr : ys.drop (i + 1) = yr := by rw [← List.tail_drop, hyd]; rfl
    have rest := diffStruct_perm s fs (i + 1) xs ys path
    rw [hxr, hyr] at rest
    rw [hxd, hyd]
    cases exported with
    | false =>
      rw [diffStruct_unexported] at h
      exact rest cs hxs hys h
    | true =>
      simp only [diffStruct_exported, bind_eq_ok, valueField_eq_ok, structFields, pure_eq_ok] at h
      obtain ⟨x', hx', y', hy', c, hc, r, hr, rfl⟩ := h
      rw [← List.head?_drop, hxd] at hx'
      rw [← List.head?_drop, hyd] at hy'
      cases hx'
      cases hy'
      rw [fieldPath_eq] at hc
      exact (diffValue_perm s t x y _ c htx hty hc).append (rest r hxs hys hr)
end

/-- Every chunk `Diff` reports for two values of one type is a difference, and every difference
is reported exactly once: the chunk list is a permutation of the differences. -/
theorem diff_chunks_exact (s : ChunkSort) (t : Ty) (a b : Val) (cs : List Chunk)
    (ha : hasType t a) (hb : hasType t b) (h : diff s t a t b = .ok cs) :
    cs.Perm (differences t a b "") :=
  diffValue_perm s t a b "" cs ha hb (diff_same s t a b ▸ h)

/-- The spec's underbite: `[1, 2, 3]` against `[1, 2]` is one chunk at index 2 deleting `3`. -/
theorem diff_chunks_exact_underbite :
    hasType (.slice .ground)
        (.seq false 1 [.ground (.int 1), .ground (.int 2), .ground (.int 3)]) ∧
      hasType (.slice .ground) (.seq false 2 [.ground (.int 1), .ground (.int 2)]) ∧
      diff insertionChunkSort (.slice .ground)
        (.seq false 1 [.ground (.int 1), .ground (.int 2), .ground (.int 3)]) (.slice .ground)
        (.seq false 2 [.ground (.int 1), .ground (.int 2)]) =
        .ok [{ deleted := [.ground (.int 3)], added := [], path := "[2]" }] ∧
      [{ deleted := [.ground (.int 3)], added := [], path := "[2]" }].Perm
        (differences (.slice .ground)
          (.seq false 1 [.ground (.int 1), .ground (.int 2), .ground (.int 3)])
          (.seq false 2 [.ground (.int 1), .ground (.int 2)]) "") :=
  ⟨rfl, rfl, rfl, diff_chunks_exact insertionChunkSort _ _ _ _ rfl rfl rfl⟩

/-! ## `Diff` against `reflect.DeepEqual`

The two do not agree in either direction. `PlatformTestBattery` (src/remote/mock.go, lines
168-175) treats an empty diff of two values `DeepEqual` calls different as fatal, and the spec
expects `Diff` of equal values to be empty. -/

/-- A `[]float64` holding `math.NaN()`, its data at address `1`. -/
def nanSlice : Val := .seq false 1 [.ground (.float goNaN)]

/-- Two values `DeepEqual` calls equal to themselves that `Diff` does not pass: a nil `*int`, on
which `Diff` panics (`reflect.Indirect` gives the zero Value and `Interface` is called on it), and
a slice holding a NaN, which `DeepEqual` calls equal because both sides have one `Pointer()` and
`Diff` reports as changed because the NaN is unequal to itself. -/
theorem diff_deepEqual_disagree :
    (deepEqual (.ptr .ground) (.ptr none) (.ptr none) = true ∧
      diff insertionChunkSort (.ptr .ground) (.ptr none) (.ptr .ground) (.ptr none) =
        .error (.panic "reflect: call of reflect.Value.Interface on zero Value")) ∧
    (deepEqual (.slice .ground) nanSlice nanSlice = true ∧
      diff insertionChunkSort (.slice .ground) nanSlice (.slice .ground) nanSlice =
        .ok [changed (.ground (.float goNaN)) (.ground (.float goNaN)) "[0]"]) :=
  ⟨⟨rfl, rfl⟩, rfl, rfl⟩

/-- A struct type with one unexported field. -/
def unexportedStruct : Ty := .strct (.cons "n" false .ground .nil)

/-- Two structs that differ only in an unexported field: `Diff` skips the field and returns no
chunk and no error, and `DeepEqual` says they differ. -/
theorem diff_empty_not_deepEqual :
    diff insertionChunkSort unexportedStruct (.strct [.ground (.int 1)]) unexportedStruct
        (.strct [.ground (.int 2)]) = .ok [] ∧
      deepEqual unexportedStruct (.strct [.ground (.int 1)]) (.strct [.ground (.int 2)]) = false :=
  ⟨rfl, rfl⟩

end Flux.Remote
