/-
JSON documents as `encoding/json` writes and reads them: `json.Marshal` of the values an
`interface{}` holds after decoding (`nil`, `bool`, `float64`, `string`, `[]interface{}`,
`map[string]interface{}` with its keys sorted), the writing of a struct's fields in order, and
the reading of a document by the scanner's grammar into the tree of values it holds.

Reading back what `Marshal` writes gives the value with its strings coerced to valid UTF-8 and
each map's members in key order (`parseValue_marshal`). A number is held as the literal the
scanner accepted: no statement here depends on its value.
-/
import FluxProofs.Json.String
import Mathlib.Data.List.Sort

namespace Flux.Json

/-! ## Number literals -/

/-- `'0' <= c && c <= '9'` -/
def isDigit (c : Nat) : Bool := 0x30 ≤ c && c ≤ 0x39

/-- A byte the scanner can read inside a number: a digit, `-`, `+`, `.`, `e` or `E`. -/
def isNumByte (c : Nat) : Bool :=
  isDigit c || c = 0x2D || c = 0x2B || c = 0x2E || c = 0x65 || c = 0x45

/-- The tail of `isValidNumber`: an optional exponent, then the end of the literal. -/
def validExponent : List Nat → Bool
  | e :: c :: s =>
    if e = 0x65 ∨ e = 0x45 then
      if c = 0x2B ∨ c = 0x2D then !s.isEmpty && (s.dropWhile isDigit).isEmpty
      else ((c :: s).dropWhile isDigit).isEmpty
    else false
  | s => s.isEmpty

/-- The middle of `isValidNumber`: `.` followed by one or more digits, if there. -/
def validFraction : List Nat → Bool
  | 0x2E :: c :: s =>
    if isDigit c then validExponent (s.dropWhile isDigit) else validExponent (0x2E :: c :: s)
  | s => validExponent s

/-- The digits of `isValidNumber`: `0`, or a digit `1` to `9` followed by digits. -/
def validDigits : List Nat → Bool
  | 0x30 :: s => validFraction s
  | c :: s => isDigit c && validFraction (s.dropWhile isDigit)
  | [] => false

/-- `isValidNumber`: the JSON number grammar. -/
def isValidNumber : List Nat → Bool
  | [] => false
  | 0x2D :: s => !s.isEmpty && validDigits s
  | s => validDigits s

/-- A number literal: the bytes of a `float64` as `Marshal` writes it, or as the scanner accepts
it. -/
structure NumLit where
  bytes : List Nat
  valid : isValidNumber bytes = true
  deriving DecidableEq

/-! ## Values -/

/-- A JSON value: what an `interface{}` holds after `json.Unmarshal`, and the tree of a document.
An object lists its members in order; as a Go map its keys are distinct. -/
inductive JVal where
  | null
  | bool (b : Bool)
  | num (n : NumLit)
  | str (s : List Nat)
  | arr (elems : List JVal)
  | obj (members : List (List Nat × JVal))

/-- Go's `<` on strings: the bytes in lexicographic order. -/
def keyLt : List Nat → List Nat → Bool
  | [], [] => false
  | [], _ :: _ => true
  | _ :: _, [] => false
  | a :: as, b :: bs => a < b || (a == b && keyLt as bs)

/-- Two members in the order `Marshal` writes a map's keys. -/
def KeyLe {β : Type} (a b : List Nat × β) : Prop := keyLt b.1 a.1 = false

instance {β : Type} : DecidableRel (@KeyLe β) := fun a b =>
  inferInstanceAs (Decidable (keyLt b.1 a.1 = false))

/-- `sort.Sort(byString(sv))`: a map's members by key. -/
def sortMembers {β : Type} (ms : List (List Nat × β)) : List (List Nat × β) :=
  ms.insertionSort KeyLe

/-- The kind of a JSON value, as `UnmarshalTypeError` names it. -/
def JVal.kind : JVal → String
  | .null => "null"
  | .bool _ => "bool"
  | .num _ => "number"
  | .str _ => "string"
  | .arr _ => "array"
  | .obj _ => "object"

/-- A map's members, as a `map[string]interface{}` holds them. -/
abbrev Members := List (List Nat × JVal)

/-- `m[k]`: the value under `k`, if any. -/
def mapGet (k : List Nat) (m : Members) : Option JVal := m.lookup k

/-- `m[k] = v`: the value under `k` replaced, or a new member. -/
def mapSet (k : List Nat) (v : JVal) : Members → Members
  | [] => [(k, v)]
  | (k', v') :: m => if k' = k then (k, v) :: m else (k', v') :: mapSet k v m

/-- `delete(m, k)` -/
def mapDelete (k : List Nat) (m : Members) : Members := m.filter fun e => e.1 ≠ k

@[simp] theorem mapGet_mapSet_self (k : List Nat) (v : JVal) (m : Members) :
    mapGet k (mapSet k v m) = some v := by
  induction m with
  | nil => simp [mapSet, mapGet]
  | cons e m ih =>
    obtain ⟨k', v'⟩ := e
    by_cases h : k' = k
    · simp [mapSet, mapGet, h]
    · simp only [mapSet, h, if_false]
      simpa [mapGet, List.lookup_cons, beq_false_of_ne (Ne.symm h)] using ih

@[simp] theorem mapSet_mapSet (k : List Nat) (a b : JVal) (m : Members) :
    mapSet k a (mapSet k b m) = mapSet k a m := by
  induction m with
  | nil => simp [mapSet]
  | cons e m ih =>
    obtain ⟨k', v'⟩ := e
    by_cases h : k' = k
    · simp [mapSet, h]
    · simp [mapSet, h, ih]

/-! ## Writing -/

/-- `null` -/
def nullLit : List Nat := [0x6E, 0x75, 0x6C, 0x6C]
/-- `true` -/
def trueLit : List Nat := [0x74, 0x72, 0x75, 0x65]
/-- `false` -/
def falseLit : List Nat := [0x66, 0x61, 0x6C, 0x73, 0x65]

/-- One member: its key by `e.string`, `:`, and the value's bytes. -/
def writeMember (m : List Nat × List Nat) : List Nat := encodeString m.1 ++ 0x3A :: m.2

/-- What follows a member: `,` and the next member, or the closing brace. -/
def writeMembersAfter : List (List Nat × List Nat) → List Nat
  | [] => [0x7D]
  | m :: ms => 0x2C :: writeMember m ++ writeMembersAfter ms

/-- An object with its members in the given order, as the map and struct encoders write it. -/
def writeObject : List (List Nat × List Nat) → List Nat
  | [] => [0x7B, 0x7D]
  | m :: ms => 0x7B :: writeMember m ++ writeMembersAfter ms

/-- What follows an element: `,` and the next element, or the closing bracket. -/
def writeElemsAfter : List (List Nat) → List Nat
  | [] => [0x5D]
  | e :: es => 0x2C :: e ++ writeElemsAfter es

/-- An array, as the array encoder writes it. -/
def writeArray : List (List Nat) → List Nat
  | [] => [0x5B, 0x5D]
  | e :: es => 0x5B :: e ++ writeElemsAfter es

/-- `json.Marshal` of a value: strings by `e.string` with `escapeHTML`, a map's members sorted by
key. -/
def marshal : JVal → List Nat
  | .null => nullLit
  | .bool b => if b then trueLit else falseLit
  | .num n => n.bytes
  | .str s => encodeString s
  | .arr vs => writeArray (marshalElems vs)
  | .obj ms => writeObject (sortMembers (marshalMembers ms))
where
  marshalElems : List JVal → List (List Nat)
    | [] => []
    | v :: vs => marshal v :: marshalElems vs
  marshalMembers : List (List Nat × JVal) → List (List Nat × List Nat)
    | [] => []
    | (k, v) :: ms => (k, marshal v) :: marshalMembers ms

/-! ## Reading -/

/-- The scanner's white space. -/
def isWs (c : Nat) : Bool := c = 0x20 || c = 0x09 || c = 0x0A || c = 0x0D

/-- White space skipped. -/
def skipWs (s : List Nat) : List Nat := s.dropWhile isWs

/-- A number: the bytes the scanner reads in a number, which must form a literal. -/
def readNumber (s : List Nat) : Option (NumLit × List Nat) :=
  if h : isValidNumber (s.takeWhile isNumByte) then some (⟨_, h⟩, s.dropWhile isNumByte)
  else none

/-- The bytes after the literal `lit`, when `s` starts with it. -/
def afterLit : List Nat → List Nat → Option (List Nat)
  | [], s => some s
  | c :: lit, d :: s => if c = d then afterLit lit s else none
  | _ :: _, [] => none

/-- The scanner's `stateBeginValue`: the value the first byte of `s` starts, given the readers of
an object's members and of an array's elements. -/
def beginValue (members : List Nat → Option (List (List Nat × JVal) × List Nat))
    (elems : List Nat → Option (List JVal × List Nat)) : List Nat → Option (JVal × List Nat)
  | [] => none
  | c :: s =>
    if c = 0x7B then
      match skipWs s with
      | 0x7D :: s => some (.obj [], s)
      | s => (members s).map fun r => (.obj r.1, r.2)
    else if c = 0x5B then
      match skipWs s with
      | 0x5D :: s => some (.arr [], s)
      | s => (elems s).map fun r => (.arr r.1, r.2)
    else if c = 0x22 then (readString (c :: s)).map fun r => (.str r.1, r.2)
    else if c = 0x74 then (afterLit trueLit (c :: s)).map fun s => (.bool true, s)
    else if c = 0x66 then (afterLit falseLit (c :: s)).map fun s => (.bool false, s)
    else if c = 0x6E then (afterLit nullLit (c :: s)).map fun s => (.null, s)
    else (readNumber (c :: s)).map fun r => (.num r.1, r.2)

mutual
/-- A value after optional white space, with `fuel` steps: the value and what follows it. -/
def parseValue : Nat → List Nat → Option (JVal × List Nat)
  | 0, _ => none
  | fuel + 1, s => beginValue (parseMembers fuel) (parseElems fuel) (skipWs s)
/-- The elements of an array from the first on: each value, then `,` or `]`. -/
def parseElems : Nat → List Nat → Option (List JVal × List Nat)
  | 0, _ => none
  | fuel + 1, s =>
    match parseValue fuel s with
    | none => none
    | some (v, s) =>
      match skipWs s with
      | 0x2C :: s => (parseElems fuel s).map fun r => (v :: r.1, r.2)
      | 0x5D :: s => some ([v], s)
      | _ => none
/-- The members of an object from the first on: each key, `:`, value, then `,` or `}`. -/
def parseMembers : Nat → List Nat → Option (List (List Nat × JVal) × List Nat)
  | 0, _ => none
  | fuel + 1, s =>
    match readString (skipWs s) with
    | none => none
    | some (k, s) =>
      match skipWs s with
      | 0x3A :: s =>
        match parseValue fuel s with
        | none => none
        | some (v, s) =>
          match skipWs s with
          | 0x2C :: s => (parseMembers fuel s).map fun r => ((k, v) :: r.1, r.2)
          | 0x7D :: s => some ([(k, v)], s)
          | _ => none
      | _ => none
end

/-- `d.valueInterface`: a document's value as an `interface{}` holds it. An object becomes a map,
where a later member replaces an earlier one with the same key. -/
def JVal.toGo : JVal → JVal
  | .arr vs => .arr (toGoElems vs)
  | .obj ms => .obj (toGoMembers [] ms)
  | v => v
where
  toGoElems : List JVal → List JVal
    | [] => []
    | v :: vs => v.toGo :: toGoElems vs
  toGoMembers (acc : Members) : Members → Members
    | [] => acc
    | (k, v) :: ms => toGoMembers (mapSet k v.toGo acc) ms

/-- `checkValid` and the decoding of a whole document: one value, then only white space. -/
def parse (s : List Nat) : Option JVal :=
  match parseValue s.length s with
  | some (v, rest) => if skipWs rest = [] then some v else none
  | none => none

/-! ## What reading back gives -/

/-- What reading back `Marshal`'s bytes gives: strings and keys coerced to valid UTF-8, each map's
members in key order. -/
def JVal.doc : JVal → JVal
  | .str s => .str (coerce s)
  | .arr vs => .arr (docElems vs)
  | .obj ms => .obj ((sortMembers (docMembers ms)).map fun m => (coerce m.1, m.2))
  | v => v
where
  docElems : List JVal → List JVal
    | [] => []
    | v :: vs => v.doc :: docElems vs
  docMembers : List (List Nat × JVal) → List (List Nat × JVal)
    | [] => []
    | (k, v) :: ms => (k, v.doc) :: docMembers ms

@[simp] theorem marshalElems_eq (vs : List JVal) : marshal.marshalElems vs = vs.map marshal := by
  induction vs with
  | nil => rfl
  | cons v vs ih => simp [marshal.marshalElems, ih]

@[simp] theorem marshalMembers_eq (ms : List (List Nat × JVal)) :
    marshal.marshalMembers ms = ms.map fun m => (m.1, marshal m.2) := by
  induction ms with
  | nil => rfl
  | cons m ms ih => simp [marshal.marshalMembers, ih]

@[simp] theorem docElems_eq (vs : List JVal) : JVal.doc.docElems vs = vs.map JVal.doc := by
  induction vs with
  | nil => rfl
  | cons v vs ih => simp [JVal.doc.docElems, ih]

@[simp] theorem docMembers_eq (ms : List (List Nat × JVal)) :
    JVal.doc.docMembers ms = ms.map fun m => (m.1, m.2.doc) := by
  induction ms with
  | nil => rfl
  | cons m ms ih => simp [JVal.doc.docMembers, ih]

/-- Sorting a map's members and mapping their values commute: the order reads only the keys. -/
theorem sortMembers_map {β γ : Type} (f : β → γ) (ms : List (List Nat × β)) :
    sortMembers (ms.map fun m => (m.1, f m.2)) = (sortMembers ms).map fun m => (m.1, f m.2) :=
  (List.map_insertionSort KeyLe KeyLe (fun m => (m.1, f m.2)) ms fun _ _ _ _ => Iff.rfl).symm

/-- Induction on a value, with the hypothesis for each element and each member's value. -/
theorem JVal.recAll {motive : JVal → Prop} (null : motive .null) (bool : ∀ b, motive (.bool b))
    (num : ∀ n, motive (.num n)) (str : ∀ s, motive (.str s))
    (arr : ∀ vs, (∀ v ∈ vs, motive v) → motive (.arr vs))
    (obj : ∀ ms, (∀ m ∈ ms, motive m.2) → motive (.obj ms)) : ∀ v, motive v
  | .null => null
  | .bool b => bool b
  | .num n => num n
  | .str s => str s
  | .arr vs => arr vs fun v _ => JVal.recAll null bool num str arr obj v
  | .obj ms => obj ms fun m _ => JVal.recAll null bool num str arr obj m.2
termination_by v => v
decreasing_by
  · simp_wf
    have := List.sizeOf_lt_of_mem ‹v ∈ vs›
    omega
  · simp_wf
    have := List.sizeOf_lt_of_mem ‹m ∈ ms›
    obtain ⟨k, w⟩ := m
    simp only [Prod.mk.sizeOf_spec] at this ⊢
    omega

/-! ## Number literals read back -/

theorem isNumByte_iff {c : Nat} : isNumByte c = true ↔
    (0x30 ≤ c ∧ c ≤ 0x39) ∨ c = 0x2D ∨ c = 0x2B ∨ c = 0x2E ∨ c = 0x65 ∨ c = 0x45 := by
  simp only [isNumByte, isDigit, Bool.or_eq_true, Bool.and_eq_true, decide_eq_true_eq, or_assoc]

theorem isNumByte_of_isDigit {c : Nat} (h : isDigit c = true) : isNumByte c = true := by
  simp [isNumByte, h]

theorem mem_dropWhile_or {p : Nat → Bool} {l : List Nat} {c : Nat} (h : c ∈ l) :
    p c = true ∨ c ∈ l.dropWhile p := by
  rw [← List.takeWhile_append_dropWhile p l, List.mem_append] at h
  exact h.imp_left List.mem_takeWhile_imp

theorem numBytes_of_digits {l : List Nat} (h : (l.dropWhile isDigit).isEmpty = true) :
    ∀ c ∈ l, isNumByte c = true := fun c hc =>
  isNumByte_of_isDigit (List.dropWhile_eq_nil_iff.mp (List.isEmpty_iff.mp h) c hc)

theorem validExponent_numBytes : ∀ {s : List Nat}, validExponent s = true →
    ∀ c ∈ s, isNumByte c = true
  | [], _ => by simp
  | [_], h => by simp [validExponent] at h
  | e :: c :: s, h => by
    simp only [validExponent] at h
    split_ifs at h with he hc
    · simp only [Bool.and_eq_true, Bool.not_eq_true', List.isEmpty_eq_false] at h
      intro b hb
      simp only [List.mem_cons] at hb
      rcases hb with rfl | rfl | hb
      · exact isNumByte_iff.mpr (by omega)
      · exact isNumByte_iff.mpr (by omega)
      · exact numBytes_of_digits h.2 b hb
    · intro b hb
      rcases List.mem_cons.mp hb with rfl | hb
      · exact isNumByte_iff.mpr (by omega)
      · exact numBytes_of_digits h b hb

theorem validFraction_numBytes {s : List Nat} (h : validFraction s = true) :
    ∀ c ∈ s, isNumByte c = true := by
  unfold validFraction at h
  split at h
  · split_ifs at h with hc
    · intro b hb
      simp only [List.mem_cons] at hb
      rcases hb with rfl | rfl | hb
      · rfl
      · exact isNumByte_of_isDigit hc
      · exact (mem_dropWhile_or hb).elim isNumByte_of_isDigit (validExponent_numBytes h b)
    · exact validExponent_numBytes h
  · exact validExponent_numBytes h

theorem validDigits_numBytes {s : List Nat} (h : validDigits s = true) :
    ∀ c ∈ s, isNumByte c = true := by
  unfold validDigits at h
  split at h
  · intro b hb
    rcases List.mem_cons.mp hb with rfl | hb
    · rfl
    · exact validFraction_numBytes h b hb
  · simp only [Bool.and_eq_true] at h
    intro b hb
    rcases List.mem_cons.mp hb with rfl | hb
    · exact isNumByte_of_isDigit h.1
    · exact (mem_dropWhile_or hb).elim isNumByte_of_isDigit (validFraction_numBytes h.2 b)
  · simp at h

/-- A number literal holds only bytes the scanner reads in a number, and at least one. -/
theorem NumLit.numBytes (n : NumLit) : n.bytes ≠ [] ∧ ∀ c ∈ n.bytes, isNumByte c = true := by
  obtain ⟨s, h⟩ := n
  unfold isValidNumber at h
  split at h
  · simp at h
  · simp only [Bool.and_eq_true] at h
    refine ⟨List.cons_ne_nil _ _, fun b hb => ?_⟩
    rcases List.mem_cons.mp hb with rfl | hb
    · rfl
    · exact validDigits_numBytes h.2 b hb
  · exact ⟨fun he => by subst he; exact absurd h (by decide), validDigits_numBytes h⟩


/-- What follows a value does not continue a number. -/
def NumStop : List Nat → Prop
  | [] => True
  | c :: _ => isNumByte c = false

theorem readNumber_append (n : NumLit) {rest : List Nat} (hr : NumStop rest) :
    readNumber (n.bytes ++ rest) = some (n, rest) := by
  have hb := n.numBytes.2
  have hstop : ∀ c t, rest = c :: t → isNumByte c = false := by
    rintro c t rfl; exact hr
  have ht : (n.bytes ++ rest).takeWhile isNumByte = n.bytes := by
    rw [List.takeWhile_append_of_pos hb]
    cases rest with
    | nil => simp
    | cons c t => simp [List.takeWhile_cons_of_neg (by simp [hstop c t rfl] : ¬ isNumByte c)]
  have hd : (n.bytes ++ rest).dropWhile isNumByte = rest := by
    rw [List.dropWhile_append_of_pos hb]
    cases rest with
    | nil => rfl
    | cons c t => exact List.dropWhile_cons_of_neg (by simp [hstop c t rfl])
  unfold readNumber
  rw [dif_pos (by rw [ht]; exact n.valid)]
  simp only [hd, Option.some.injEq, Prod.mk.injEq, and_true]
  cases n
  simp only [NumLit.mk.injEq]
  exact ht

theorem NumLit.head (n : NumLit) : ∃ c t, n.bytes = c :: t ∧ isNumByte c = true := by
  obtain ⟨c, t, hct⟩ := List.exists_cons_of_ne_nil n.numBytes.1
  exact ⟨c, t, hct, n.numBytes.2 c (by simp [hct])⟩

theorem isWs_of_isNumByte {c : Nat} (h : isNumByte c = true) : isWs c = false := by
  have := isNumByte_iff.mp h
  simp only [isWs]
  simp
  omega

/-! ## Reading, one step at a time -/

theorem beginValue_numByte {m e} {c : Nat} {t : List Nat} (hc : isNumByte c = true) :
    beginValue m e (c :: t) = (readNumber (c :: t)).map fun r => (.num r.1, r.2) := by
  have h := isNumByte_iff.mp hc
  simp only [beginValue]
  rw [if_neg (by omega), if_neg (by omega), if_neg (by omega), if_neg (by omega), if_neg (by omega),
    if_neg (by omega)]


theorem skipWs_cons (c : Nat) (t : List Nat) (h : isWs c = false) : skipWs (c :: t) = c :: t :=
  List.dropWhile_cons_of_neg (by simp [h])

theorem numStop_cons (c : Nat) (t : List Nat) (h : isNumByte c = false) : NumStop (c :: t) := h

theorem beginValue_bracket {m e} {c : Nat} {t : List Nat} (hw : isWs c = false) (hc : c ≠ 0x5D) :
    beginValue m e (0x5B :: c :: t) = (e (c :: t)).map fun r => (.arr r.1, r.2) := by
  simp only [beginValue, skipWs_cons _ _ hw, ite_true]
  split
  · next h => exact absurd h (by decide)
  · split
    · next h => exact absurd (List.cons.inj h).1 hc
    · rfl

theorem beginValue_quote {m e} (X : List Nat) :
    beginValue m e (0x22 :: X) = (readString (0x22 :: X)).map fun r => (.str r.1, r.2) := rfl

theorem skipWs_encodeString (s t : List Nat) : skipWs (encodeString s ++ t) = encodeString s ++ t := by
  simp only [encodeString, List.cons_append]
  exact skipWs_cons 0x22 _ rfl

theorem parseValue_brace (fuel : Nat) (p : List Nat × List Nat) (X : List Nat) :
    parseValue (fuel + 1) (0x7B :: (writeMember p ++ X)) =
      (parseMembers fuel (writeMember p ++ X)).map fun r => (.obj r.1, r.2) := by
  simp only [writeMember, encodeString, List.cons_append]
  rfl

theorem parseValue_bracket {fuel : Nat} {e X : List Nat} (hh : ∃ c t, e = c :: t ∧ isWs c = false ∧ c ≠ 0x5D) :
    parseValue (fuel + 1) (0x5B :: (e ++ X)) =
      (parseElems fuel (e ++ X)).map fun r => (.arr r.1, r.2) := by
  obtain ⟨c, t, rfl, hw, hc⟩ := hh
  show beginValue (parseMembers fuel) (parseElems fuel) (skipWs (0x5B :: c :: (t ++ X))) = _
  rw [skipWs_cons 0x5B _ rfl]
  exact beginValue_bracket hw hc

theorem parseMembers_last {fuel : Nat} {k bs rest : List Nat} {d : JVal}
    (hv : parseValue fuel (bs ++ 0x7D :: rest) = some (d, 0x7D :: rest)) :
    parseMembers (fuel + 1) (writeMember (k, bs) ++ 0x7D :: rest) = some ([(coerce k, d)], rest) := by
  simp only [parseMembers, writeMember, List.append_assoc, skipWs_encodeString,
    readString_encodeString, List.cons_append, skipWs_cons 0x3A _ rfl, hv]
  rfl

theorem parseMembers_next {fuel : Nat} {k bs t : List Nat} {d : JVal}
    (hv : parseValue fuel (bs ++ 0x2C :: t) = some (d, 0x2C :: t)) :
    parseMembers (fuel + 1) (writeMember (k, bs) ++ 0x2C :: t) =
      (parseMembers fuel t).map fun r => ((coerce k, d) :: r.1, r.2) := by
  simp only [parseMembers, writeMember, List.append_assoc, skipWs_encodeString,
    readString_encodeString, List.cons_append, skipWs_cons 0x3A _ rfl, hv]
  rfl

/-! ## Reading back what `Marshal` writes -/

/-- The bytes `bs` read as the value `d`, whatever follows them that does not continue a number. -/
def ReadsAs (bs : List Nat) (d : JVal) : Prop :=
  ∀ fuel rest, bs.length ≤ fuel → NumStop rest → parseValue fuel (bs ++ rest) = some (d, rest)

theorem parseElems_write (rest : List Nat) :
    ∀ (p : List Nat × JVal) (ps : List (List Nat × JVal)), (∀ q ∈ p :: ps, ReadsAs q.1 q.2) →
      ∀ fuel, (p.1 ++ writeElemsAfter (ps.map Prod.fst)).length ≤ fuel →
        parseElems fuel (p.1 ++ writeElemsAfter (ps.map Prod.fst) ++ rest) =
          some ((p :: ps).map Prod.snd, rest)
  | _, ps, _, 0, hf => absurd hf (by cases ps <;> simp [writeElemsAfter])
  | p, [], h, fuel + 1, hf => by
    have hp := h p (List.mem_cons_self _ _) fuel ([0x5D] ++ rest)
      (by simp [writeElemsAfter] at hf; omega) (numStop_cons 0x5D rest rfl)
    simp only [List.map_nil, writeElemsAfter, List.append_assoc] at hp ⊢
    simp only [parseElems, hp]
    rfl
  | p, q :: ps, h, fuel + 1, hf => by
    have hW : 0 < (writeElemsAfter (ps.map Prod.fst)).length := by
      cases ps <;> simp [writeElemsAfter]
    have hp := h p (List.mem_cons_self _ _) fuel
      (0x2C :: q.1 ++ writeElemsAfter (ps.map Prod.fst) ++ rest)
      (by simp [writeElemsAfter] at hf; omega) (numStop_cons 0x2C _ rfl)
    have hq := parseElems_write rest q ps (fun r hr => h r (List.mem_cons_of_mem _ hr)) fuel
      (by simp [writeElemsAfter] at hf ⊢; omega)
    simp only [List.map_cons, writeElemsAfter, List.append_assoc, List.cons_append] at hp hq ⊢
    simp only [parseElems, hp]
    simp only [skipWs_cons 0x2C _ rfl, hq]
    rfl


theorem parseMembers_write (rest : List Nat) :
    ∀ (p : List Nat × List Nat × JVal) (ps : List (List Nat × List Nat × JVal)),
      (∀ q ∈ p :: ps, ReadsAs q.2.1 q.2.2) → ∀ fuel,
      (writeMember (p.1, p.2.1) ++ writeMembersAfter (ps.map fun q => (q.1, q.2.1))).length ≤
        fuel →
      parseMembers fuel
          (writeMember (p.1, p.2.1) ++ writeMembersAfter (ps.map fun q => (q.1, q.2.1)) ++ rest) =
        some ((p :: ps).map fun q => (coerce q.1, q.2.2), rest)
  | _, ps, _, 0, hf => absurd hf (by simp [writeMember, encodeString])
  | p, [], h, fuel + 1, hf => by
    simp only [List.map_nil, writeMembersAfter, List.append_assoc, List.singleton_append] at hf ⊢
    refine parseMembers_last (h p (List.mem_cons_self _ _) fuel _ ?_ (numStop_cons 0x7D rest rfl))
    simp [writeMember, encodeString] at hf
    omega
  | p, q :: ps, h, fuel + 1, hf => by
    simp only [List.map_cons, writeMembersAfter, List.append_assoc, List.cons_append] at hf ⊢
    rw [parseMembers_next (h p (List.mem_cons_self _ _) fuel _ ?_ (numStop_cons 0x2C _ rfl))]
    · rw [← List.append_assoc, parseMembers_write rest q ps
        (fun r hr => h r (List.mem_cons_of_mem _ hr)) fuel ?_]
      · rfl
      · simp [writeMember, encodeString] at hf ⊢
        omega
    · simp [writeMember, encodeString] at hf
      omega


/-- An object whose members' bytes read as their values reads as the object of them, with its
keys coerced. -/
theorem readsAs_writeObject (ps : List (List Nat × List Nat × JVal))
    (h : ∀ q ∈ ps, ReadsAs q.2.1 q.2.2) :
    ReadsAs (writeObject (ps.map fun q => (q.1, q.2.1))) (.obj (ps.map fun q => (coerce q.1, q.2.2))) := by
  rintro (_ | fuel) rest hf -
  · cases ps <;> simp [writeObject] at hf
  cases ps with
  | nil => rfl
  | cons p ps =>
    simp only [List.map_cons, writeObject, List.cons_append, List.length_cons,
      Nat.add_le_add_iff_right] at hf ⊢
    rw [List.append_assoc, parseValue_brace, ← List.append_assoc, parseMembers_write rest p ps h fuel hf]
    rfl

/-- An array whose elements' bytes read as values reads as the array of them. -/
theorem readsAs_writeArray (ps : List (List Nat × JVal)) (h : ∀ q ∈ ps, ReadsAs q.1 q.2)
    (hh : ∀ q ∈ ps, ∃ c t, q.1 = c :: t ∧ isWs c = false ∧ c ≠ 0x5D) :
    ReadsAs (writeArray (ps.map Prod.fst)) (.arr (ps.map Prod.snd)) := by
  rintro (_ | fuel) rest hf -
  · cases ps <;> simp [writeArray] at hf
  cases ps with
  | nil => rfl
  | cons p ps =>
    simp only [List.map_cons, writeArray, List.cons_append, List.length_cons,
      Nat.add_le_add_iff_right] at hf ⊢
    rw [List.append_assoc, parseValue_bracket (hh p (List.mem_cons_self _ _)), ← List.append_assoc,
      parseElems_write rest p ps h fuel hf]
    rfl


/-- What `Marshal` writes starts with neither white space nor `]`. -/
theorem marshal_head (v : JVal) : ∃ c t, marshal v = c :: t ∧ isWs c = false ∧ c ≠ 0x5D := by
  cases v with
  | num n =>
    obtain ⟨c, t, hct, hc⟩ := n.head
    exact ⟨c, t, hct, isWs_of_isNumByte hc, by have := isNumByte_iff.mp hc; omega⟩
  | bool b => cases b <;> exact ⟨_, _, rfl, rfl, by decide⟩
  | arr vs => cases vs <;> exact ⟨_, _, rfl, rfl, by decide⟩
  | obj ms =>
    simp only [marshal]
    cases sortMembers (marshal.marshalMembers ms) <;> exact ⟨_, _, rfl, rfl, by decide⟩
  | _ => exact ⟨_, _, rfl, rfl, by decide⟩

/-- Reading back what `Marshal` writes gives the value with its strings and keys coerced to valid
UTF-8 and each map's members in key order. -/
theorem readsAs_marshal : ∀ v : JVal, ReadsAs (marshal v) v.doc := by
  refine JVal.recAll ?_ ?_ ?_ ?_ ?_ ?_
  · rintro (_ | fuel) rest hf - <;> first | exact absurd hf (by decide) | rfl
  · rintro b (_ | fuel) rest hf - <;> cases b <;> first | exact absurd hf (by decide) | rfl
  · rintro n (_ | fuel) rest hf hr
    · exact absurd hf (by simpa using n.numBytes.1)
    obtain ⟨c, t, hct, hc⟩ := n.head
    show beginValue _ _ (skipWs (n.bytes ++ rest)) = _
    rw [hct, List.cons_append, skipWs_cons _ _ (isWs_of_isNumByte hc), beginValue_numByte hc,
      ← List.cons_append, ← hct, readNumber_append n hr]
    rfl
  · rintro s (_ | fuel) rest hf -
    · exact absurd hf (by simp [marshal, encodeString])
    show beginValue (parseMembers fuel) (parseElems fuel) (skipWs (encodeString s ++ rest)) = _
    have h := readString_encodeString s rest
    rw [skipWs_encodeString]
    simp only [encodeString, List.cons_append] at h ⊢
    rw [beginValue_quote, h]
    rfl
  · intro vs ih
    have := readsAs_writeArray (vs.map fun v => (marshal v, v.doc))
      (by simpa using ih) (by simpa using fun v _ => marshal_head v)
    simpa [marshal, JVal.doc, List.map_map, Function.comp_def] using this
  · intro ms ih
    have := readsAs_writeObject ((sortMembers ms).map fun m => (m.1, marshal m.2, m.2.doc))
      (by
        intro q hq
        obtain ⟨m, hm, rfl⟩ := List.mem_map.mp hq
        exact ih m ((List.mem_insertionSort _).mp hm))
    simpa [marshal, JVal.doc, List.map_map, Function.comp_def, sortMembers_map] using this

theorem parse_of_readsAs {bs : List Nat} {d : JVal} (h : ReadsAs bs d) : parse bs = some d := by
  have h := h bs.length [] le_rfl trivial
  rw [List.append_nil] at h
  simp only [parse, h]
  rfl

theorem readsAs_encodeString (s : List Nat) : ReadsAs (encodeString s) (.str (coerce s)) :=
  readsAs_marshal (.str s)

/-- `json.Unmarshal` reads back what `json.Marshal` writes: the value with its strings and keys
coerced to valid UTF-8 and each map's members in key order. -/
theorem parse_marshal (v : JVal) : parse (marshal v) = some v.doc :=
  parse_of_readsAs (readsAs_marshal v)

end Flux.Json
