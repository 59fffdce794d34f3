/-
The results of the HTTP API as `encoding/json` writes and reads them: a `string` (a `job.ID`), a
`[]string` and a `[]byte`, written by `json.Marshal` and read back by `json.Decoder.Decode`,
which reads the first value of a stream, or by `json.Unmarshal`, which reads a whole document.

Reading back what was written gives every string coerced to valid UTF-8 (`readFirst_strings`) and
every `[]byte` exactly, as the base64 it is written in is plain ASCII (`readFirst_bytes`); a nil
slice stays nil and an empty one empty.
-/
import FluxProofs.Json.Value
import FluxProofs.Json.Base64

namespace Flux.Json

/-! ## Reading a document -/

/-- Why decoding a result failed. -/
inductive ReadError where
  /-- `io.EOF`: the stream holds no value. -/
  | eof
  /-- A `*SyntaxError`, or `io.ErrUnexpectedEOF` for a value cut short; the text is not
  modelled. -/
  | malformed
  /-- `*UnmarshalTypeError`: the JSON value found and the Go type it cannot be stored in. -/
  | type (value : String) (goType : String)
  /-- `base64.CorruptInputError`, whose offset is not modelled. -/
  | corrupt
  deriving DecidableEq, Repr

/-- `dec.readValue()` of `json.Decoder.Decode`: the first value of the stream, after white
space; what follows it stays unread. -/
def readFirst (bs : List Nat) : Except ReadError JVal :=
  match parseValue bs.length bs with
  | some (v, _) => .ok v
  | none => if skipWs bs = [] then .error .eof else .error .malformed

/-- `checkValid` of `json.Unmarshal`: the whole input is one value. -/
def readWhole (bs : List Nat) : Except ReadError JVal :=
  match parse bs with
  | some v => .ok v
  | none => .error .malformed

/-! ## Storing a value -/

/-- `d.value` into a fresh `string` of type `goType`: a string, or `null`, which leaves `""`. -/
def storeString (goType : String) : JVal → Except ReadError (List Nat)
  | .str s => .ok s
  | .null => .ok []
  | v => .error (.type v.kind goType)

/-- `d.value` into a fresh `[]string`: `null` leaves it nil; an array gives a slice of its
elements, each stored as a string. A type error does not stop the decoder, but the first one is
the error it returns. -/
def storeStrings : JVal → Except ReadError (Option (List (List Nat)))
  | .null => .ok none
  | .arr vs => some <$> vs.mapM (storeString "string")
  | v => .error (.type v.kind "[]string")

/-- The value of a number literal made of digits. -/
def digitsValue (bs : List Nat) : Nat := bs.foldl (fun n c => n * 10 + (c - 0x30)) 0

/-- A number literal as its text. -/
def NumLit.text (n : NumLit) : String := ⟨n.bytes.map Char.ofNat⟩

/-- `literalStore` of a number into a `uint8`: `strconv.ParseUint(s, 10, 64)`, which takes
digits only, and `OverflowUint`. -/
def storeByte : JVal → Except ReadError UInt8
  | .num n =>
    if n.bytes.all isDigit ∧ digitsValue n.bytes < 0x100 then .ok (digitsValue n.bytes).toUInt8
    else .error (.type ("number " ++ n.text) "uint8")
  | .null => .ok 0
  | v => .error (.type v.kind "uint8")

/-- `d.value` into a fresh `[]byte`: `null` leaves it nil; a string is decoded as base64; an
array gives a byte for each element. -/
def storeBytes : JVal → Except ReadError (Option (List UInt8))
  | .null => .ok none
  | .str s =>
    match decode s with
    | some bs => .ok (some bs)
    | none => .error .corrupt
  | .arr vs => some <$> vs.mapM storeByte
  | v => .error (.type v.kind "[]uint8")

/-! ## Writing -/

/-- `json.Marshal` of a `[]string`: `null` for a nil slice. -/
def marshalStrings : Option (List (List Nat)) → List Nat
  | none => nullLit
  | some xs => marshal (.arr (xs.map .str))

/-- `json.Marshal` of a `[]byte` (`encodeByteSlice`): `null` for a nil slice, else its base64
between quotes, written as it is. -/
def marshalBytes : Option (List UInt8) → List Nat
  | none => nullLit
  | some bs => 0x22 :: encode bs ++ [0x22]

/-! ## What `Marshal` writes is bytes -/

section Bytes

/-- Every element is a byte, as in a Go `[]byte`. -/
def IsBytes (bs : List Nat) : Prop := ∀ c ∈ bs, c < 0x100

instance : DecidablePred IsBytes := fun bs => inferInstanceAs (Decidable (∀ c ∈ bs, c < 0x100))

theorem isBytes_append {a b : List Nat} : IsBytes (a ++ b) ↔ IsBytes a ∧ IsBytes b :=
  List.forall_mem_append

theorem isBytes_cons {c : Nat} {bs : List Nat} : IsBytes (c :: bs) ↔ c < 0x100 ∧ IsBytes bs :=
  List.forall_mem_cons

theorem encodeRune_isBytes (r : Nat) : IsBytes (encodeRune r) := by
  unfold IsBytes encodeRune
  split_ifs <;> simp <;> omega

theorem hexDigit_lt {d : Nat} (h : d < 0x10) : hexDigit d < 0x80 := by
  unfold hexDigit; split <;> omega

theorem escapeAscii_isBytes {b : Nat} (h : b < 0x80) : IsBytes (escapeAscii b) := by
  have h1 := hexDigit_lt (Nat.div_lt_of_lt_mul (by omega : b < 0x10 * 0x10))
  have h2 := hexDigit_lt (Nat.mod_lt b (by decide : 0 < 0x10))
  unfold IsBytes escapeAscii
  split_ifs <;> simp <;> omega

theorem escapePiece_isBytes {p : Piece} (hp : p.WF) : IsBytes (escapePiece p) := by
  cases p with
  | rune r bs =>
    dsimp only [escapePiece]
    split_ifs with h1
    · exact escapeAscii_isBytes h1
    · have := hexDigit_lt (Nat.mod_lt r (by decide : 0 < 0x10))
      simp [IsBytes]; omega
    · exact hp.1 ▸ encodeRune_isBytes r
  | bad b => simp [IsBytes, escapePiece]

theorem encodeString_isBytes (s : List Nat) : IsBytes (encodeString s) := by
  rw [encodeString, List.cons_append, isBytes_cons, isBytes_append]
  refine ⟨by decide, fun c hc => ?_, by decide⟩
  obtain ⟨p, hp, hc⟩ := List.mem_flatMap.mp hc
  exact escapePiece_isBytes (pieces_wf s p hp) c hc

theorem writeElemsAfter_isBytes : ∀ {es : List (List Nat)}, (∀ e ∈ es, IsBytes e) →
    IsBytes (writeElemsAfter es)
  | [], _ => by decide
  | e :: es, h => by
    rw [writeElemsAfter, isBytes_append, isBytes_cons]
    exact ⟨⟨by decide, h e (List.mem_cons_self _ _)⟩,
      writeElemsAfter_isBytes fun e' he => h e' (List.mem_cons_of_mem _ he)⟩

theorem writeArray_isBytes {es : List (List Nat)} (h : ∀ e ∈ es, IsBytes e) :
    IsBytes (writeArray es) := by
  cases es with
  | nil => decide
  | cons e es =>
    rw [writeArray, isBytes_append, isBytes_cons]
    exact ⟨⟨by decide, h e (List.mem_cons_self _ _)⟩,
      writeElemsAfter_isBytes fun e' he => h e' (List.mem_cons_of_mem _ he)⟩

theorem writeMember_isBytes {m : List Nat × List Nat} (h : IsBytes m.2) : IsBytes (writeMember m) := by
  rw [writeMember, isBytes_append, isBytes_cons]
  exact ⟨encodeString_isBytes _, by decide, h⟩

theorem writeMembersAfter_isBytes : ∀ {ms : List (List Nat × List Nat)}, (∀ m ∈ ms, IsBytes m.2) →
    IsBytes (writeMembersAfter ms)
  | [], _ => by decide
  | m :: ms, h => by
    rw [writeMembersAfter, isBytes_append, isBytes_cons]
    exact ⟨⟨by decide, writeMember_isBytes (h m (List.mem_cons_self _ _))⟩,
      writeMembersAfter_isBytes fun m' hm => h m' (List.mem_cons_of_mem _ hm)⟩

theorem writeObject_isBytes {ms : List (List Nat × List Nat)} (h : ∀ m ∈ ms, IsBytes m.2) :
    IsBytes (writeObject ms) := by
  cases ms with
  | nil => decide
  | cons m ms =>
    rw [writeObject, isBytes_append, isBytes_cons]
    exact ⟨⟨by decide, writeMember_isBytes (h m (List.mem_cons_self _ _))⟩,
      writeMembersAfter_isBytes fun m' hm => h m' (List.mem_cons_of_mem _ hm)⟩

/-- What `json.Marshal` writes is a `[]byte`: every element is below `0x100`. -/
theorem marshal_isBytes : ∀ v : JVal, IsBytes (marshal v) := by
  refine JVal.recAll (by decide) (fun b => by cases b <;> decide) (fun n c hc => ?_)
    encodeString_isBytes (fun vs ih => ?_) (fun ms ih => ?_)
  · have := isNumByte_iff.mp (n.numBytes.2 c hc); omega
  · simp only [marshal, marshalElems_eq]
    exact writeArray_isBytes fun e he => by
      obtain ⟨v, hv, rfl⟩ := List.mem_map.mp he; exact ih v hv
  · simp only [marshal, marshalMembers_eq]
    exact writeObject_isBytes fun m hm => by
      obtain ⟨m', hm', rfl⟩ := List.mem_map.mp ((List.mem_insertionSort _).mp hm)
      exact ih m' hm'

end Bytes

/-! ## Reading back what was written -/

theorem readFirst_of_readsAs {bs : List Nat} {d : JVal} (h : ReadsAs bs d) : readFirst bs = .ok d := by
  have h := h bs.length [] le_rfl trivial
  rw [List.append_nil] at h
  simp only [readFirst, h]

theorem readWhole_of_readsAs {bs : List Nat} {d : JVal} (h : ReadsAs bs d) : readWhole bs = .ok d := by
  simp only [readWhole, parse_of_readsAs h]

theorem plain_of_mem_encode {bs : List UInt8} {c : Nat} (h : c ∈ encode bs) : Plain c := by
  rcases mem_encode h with rfl | ⟨i, rfl⟩
  · unfold Plain padChar; decide
  · unfold encodeStd Plain; split_ifs <;> omega

theorem marshalBytes_isBytes (v : Option (List UInt8)) : IsBytes (marshalBytes v) := by
  cases v with
  | none => decide
  | some bs =>
    rw [marshalBytes, List.cons_append, isBytes_cons, isBytes_append]
    exact ⟨by decide, fun c hc => by have := (plain_of_mem_encode hc).2.1; omega, by decide⟩

theorem marshalStrings_isBytes (v : Option (List (List Nat))) : IsBytes (marshalStrings v) := by
  cases v with
  | none => decide
  | some xs => exact marshal_isBytes _

/-- The base64 of a `[]byte` reads back as itself. -/
theorem readsAs_marshalBytes (bs : List UInt8) :
    ReadsAs (marshalBytes (some bs)) (.str (encode bs)) := by
  have h := readsAs_encodeString (encode bs)
  rwa [encodeString_plain fun c hc => plain_of_mem_encode hc,
    coerce_ascii fun c hc => (plain_of_mem_encode hc).2.1] at h

theorem readsAs_marshalStrings (v : Option (List (List Nat))) :
    ReadsAs (marshalStrings v) (match v with
      | none => .null
      | some xs => .arr (xs.map fun s => .str (coerce s))) := by
  cases v with
  | none => exact readsAs_marshal .null
  | some xs =>
    have h := readsAs_marshal (.arr (xs.map .str))
    simpa [JVal.doc, docElems_eq, Function.comp_def] using h

theorem mapM_storeString (goType : String) : ∀ xs : List (List Nat),
    (xs.map fun s => JVal.str (coerce s)).mapM (storeString goType) = .ok (xs.map coerce)
  | [] => rfl
  | x :: xs => by rw [List.map_cons, List.mapM_cons, mapM_storeString goType xs]; rfl

/-- `Decoder.Decode` of what `Marshal` wrote for a `[]string`: every string coerced to valid
UTF-8, a nil slice nil. -/
theorem readFirst_strings (v : Option (List (List Nat))) :
    (readFirst (marshalStrings v) >>= storeStrings) = .ok (v.map (·.map coerce)) := by
  rw [readFirst_of_readsAs (readsAs_marshalStrings v)]
  cases v with
  | none => rfl
  | some xs =>
    show some <$> (xs.map fun s => JVal.str (coerce s)).mapM (storeString "string") = _
    rw [mapM_storeString]
    rfl

/-- `Decoder.Decode` of what `Marshal` wrote for a `[]byte`: the same bytes, a nil slice nil. -/
theorem readFirst_bytes (v : Option (List UInt8)) :
    (readFirst (marshalBytes v) >>= storeBytes) = .ok v := by
  cases v with
  | none => rw [show marshalBytes none = marshal .null from rfl,
      readFirst_of_readsAs (readsAs_marshal .null)]; rfl
  | some bs =>
    rw [readFirst_of_readsAs (readsAs_marshalBytes bs)]
    show storeBytes (.str (encode bs)) = _
    simp only [storeBytes, decode_encode]

/-- `json.Unmarshal` of what `Marshal` wrote for a `string`: the string coerced to valid UTF-8. -/
theorem readWhole_string (goType : String) (s : List Nat) :
    (readWhole (marshal (.str s)) >>= storeString goType) = .ok (coerce s) := by
  rw [readWhole_of_readsAs (readsAs_marshal (.str s))]
  rfl

end Flux.Json
