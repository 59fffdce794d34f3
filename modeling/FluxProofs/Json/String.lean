/-
`encoding/json` on Go strings: `encodeState.string` with `escapeHTML` set, as `json.Marshal`
writes a string, and the reading of a string literal, as the scanner accepts it and
`unquoteBytes` decodes it.

Reading back what was written gives the string with U+FFFD for every byte that starts no valid
UTF-8 sequence (`readString_encodeString`): a valid string comes back unchanged, an invalid one
does not.
-/
import FluxProofs.Json.Utf8

namespace Flux.Json

/-! ## Writing -/

/-- `hex[d]`, a digit of `"0123456789abcdef"`. -/
def hexDigit (d : Nat) : Nat := if d < 10 then 0x30 + d else 0x57 + d

/-- What `e.string` writes for an ASCII byte: itself when it is in `htmlSafeSet`, else the escape
of the `switch`. -/
def escapeAscii (b : Nat) : List Nat :=
  if b = 0x5C ∨ b = 0x22 then [0x5C, b]
  else if b = 0x0A then [0x5C, 0x6E]
  else if b = 0x0D then [0x5C, 0x72]
  else if b = 0x09 then [0x5C, 0x74]
  else if b < 0x20 ∨ b = 0x3C ∨ b = 0x3E ∨ b = 0x26 then
    [0x5C, 0x75, 0x30, 0x30, hexDigit (b / 0x10), hexDigit (b % 0x10)]
  else [b]

/-- What `e.string` writes for one piece: `�` for a byte that starts no valid sequence,
` ` and ` ` escaped, any other sequence copied. -/
def escapePiece : Piece → List Nat
  | .rune r bs =>
    if r < 0x80 then escapeAscii r
    else if r = 0x2028 ∨ r = 0x2029 then [0x5C, 0x75, 0x32, 0x30, 0x32, hexDigit (r % 0x10)]
    else bs
  | .bad _ => [0x5C, 0x75, 0x66, 0x66, 0x66, 0x64]

/-- `e.string(s, true)`: the string literal `json.Marshal` writes for `s`. -/
def encodeString (s : List Nat) : List Nat := 0x22 :: (pieces s).flatMap escapePiece ++ [0x22]

/-! ## Reading -/

/-- One hex digit, as `strconv.ParseUint(_, 16, _)` reads it. -/
def hexVal (c : Nat) : Option Nat :=
  if 0x30 ≤ c ∧ c ≤ 0x39 then some (c - 0x30)
  else if 0x61 ≤ c ∧ c ≤ 0x66 then some (c - 0x57)
  else if 0x41 ≤ c ∧ c ≤ 0x46 then some (c - 0x37)
  else none

/-- `getu4` after the `\u`: the four hex digits and what follows them. -/
def hex4 : List Nat → Option (Nat × List Nat)
  | a :: b :: c :: d :: rest => do
    let a ← hexVal a
    let b ← hexVal b
    let c ← hexVal c
    let d ← hexVal d
    pure (((a * 0x10 + b) * 0x10 + c) * 0x10 + d, rest)
  | _ => none

/-- The one-letter escapes of `unquoteBytes` the scanner accepts. -/
def simpleEscape (e : Nat) : Option Nat :=
  if e = 0x22 ∨ e = 0x5C ∨ e = 0x2F then some e
  else if e = 0x62 then some 0x08
  else if e = 0x66 then some 0x0C
  else if e = 0x6E then some 0x0A
  else if e = 0x72 then some 0x0D
  else if e = 0x74 then some 0x09
  else none

/-- `utf16.IsSurrogate` -/
def isSurrogate (r : Nat) : Prop := 0xD800 ≤ r ∧ r < 0xE000

instance : DecidablePred isSurrogate := fun r => inferInstanceAs (Decidable (0xD800 ≤ r ∧ r < 0xE000))

/-- `utf16.DecodeRune(r1, r2)`: a surrogate pair, or `RuneError`. -/
def decodeSurrogates (r1 r2 : Nat) : Nat :=
  if 0xD800 ≤ r1 ∧ r1 < 0xDC00 ∧ 0xDC00 ≤ r2 ∧ r2 < 0xE000 then
    (r1 - 0xD800) * 0x400 + (r2 - 0xDC00) + 0x10000
  else runeError

/-- Bytes written before what the rest of the literal decodes to. -/
def prepend (bs : List Nat) (o : Option (List Nat × List Nat)) : Option (List Nat × List Nat) :=
  o.map fun r => (bs ++ r.1, r.2)

/-- A string literal from after its opening quote, with `fuel` steps: the bytes it decodes to
and what follows its closing quote. The scanner refuses a control byte, an unknown escape and
a `\u` without four hex digits; `unquoteBytes` joins a surrogate pair, writes U+FFFD for a lone
surrogate and for a byte that starts no valid sequence, and copies any other sequence through
`EncodeRune`. -/
def readStringFuel : Nat → List Nat → Option (List Nat × List Nat)
  | 0, _ | _ + 1, [] => none
  | fuel + 1, c :: s =>
    if c = 0x22 then some ([], s)
    else if c = 0x5C then
      match s with
      | [] => none
      | e :: s =>
        match simpleEscape e with
        | some b => prepend [b] (readStringFuel fuel s)
        | none =>
          if e = 0x75 then
            match hex4 s with
            | none => none
            | some (rr, s) =>
              if isSurrogate rr then
                match s with
                | 0x5C :: 0x75 :: s' =>
                  match hex4 s' with
                  | some (rr1, s'') =>
                    if decodeSurrogates rr rr1 ≠ runeError then
                      prepend (encodeRune (decodeSurrogates rr rr1)) (readStringFuel fuel s'')
                    else prepend (encodeRune runeError) (readStringFuel fuel s)
                  | none => prepend (encodeRune runeError) (readStringFuel fuel s)
                | _ => prepend (encodeRune runeError) (readStringFuel fuel s)
              else prepend (encodeRune rr) (readStringFuel fuel s)
          else none
    else if c < 0x20 then none
    else if c < 0x80 then prepend [c] (readStringFuel fuel s)
    else
      prepend (encodeRune (decodeRune (c :: s)).1)
        (readStringFuel fuel ((c :: s).drop (decodeRune (c :: s)).2))

/-- A string literal: the bytes it decodes to and what follows it. A step per byte is enough. -/
def readString : List Nat → Option (List Nat × List Nat)
  | 0x22 :: s => readStringFuel s.length s
  | _ => none

/-! ## Reading back what `e.string` writes -/

theorem hexVal_hexDigit {d : Nat} (h : d < 0x10) : hexVal (hexDigit d) = some d := by
  unfold hexDigit hexVal
  split_ifs <;> first | omega | (congr 1; omega)

theorem hex4_cons {a b c d x y z w : Nat} (t : List Nat) (ha : hexVal a = some x)
    (hb : hexVal b = some y) (hc : hexVal c = some z) (hd : hexVal d = some w) :
    hex4 ([a, b, c, d] ++ t) = some (((x * 0x10 + y) * 0x10 + z) * 0x10 + w, t) := by
  simp only [List.cons_append, List.nil_append, hex4, ha, hb, hc, hd]
  rfl

theorem encodeRune_ascii {r : Nat} (h : r < 0x80) : encodeRune r = [r] := if_pos h

/-- What `EncodeRune` writes for a rune from `0x80` on starts with a byte from `0x80` on. -/
theorem encodeRune_head {r : Nat} (h : 0x80 ≤ r) : ∃ c s, encodeRune r = c :: s ∧ 0x80 ≤ c := by
  unfold encodeRune
  split_ifs <;> exact ⟨_, _, rfl, by omega⟩

/-- A `\u` escape of a rune that is no surrogate reads as that rune. -/
theorem readStringFuel_uescape {fuel r : Nat} (ds : List Nat) {t : List Nat}
    (hd : hex4 (ds ++ t) = some (r, t))
    (hr : ¬ isSurrogate r) :
    readStringFuel (fuel + 1) (0x5C :: 0x75 :: (ds ++ t)) =
      prepend (encodeRune r) (readStringFuel fuel t) := by
  simp only [readStringFuel, hd, hr]
  rfl

theorem readStringFuel_escapeAscii {r : Nat} (h : r < 0x80) (fuel : Nat) (t : List Nat) :
    readStringFuel (fuel + 1) (escapeAscii r ++ t) = prepend [r] (readStringFuel fuel t) := by
  unfold escapeAscii
  split_ifs with h1 h2 h3 h4 h5
  · rcases h1 with rfl | rfl <;> rfl
  · subst h2; rfl
  · subst h3; rfl
  · subst h4; rfl
  · rw [← encodeRune_ascii h]
    refine readStringFuel_uescape [_, _, _, _] ?_ (by unfold isSurrogate; omega)
    have h0 : hexVal 0x30 = some 0 := rfl
    rw [hex4_cons t h0 h0 (hexVal_hexDigit (by omega)) (hexVal_hexDigit (by omega))]
    congr 2
    omega
  · simp only [List.singleton_append, readStringFuel]
    rw [if_neg (by omega), if_neg (by omega), if_neg (by omega), if_pos h]
    rfl

/-- A sequence of two bytes or more is copied, and `DecodeRune` reads it back. -/
theorem readStringFuel_sequence {r fuel : Nat} {t : List Nat} (h : 0x80 ≤ r)
    (hd : decodeRune (encodeRune r ++ t) = (r, (encodeRune r).length)) :
    readStringFuel (fuel + 1) (encodeRune r ++ t) =
      prepend (encodeRune r) (readStringFuel fuel t) := by
  obtain ⟨c, s, hcs, hc⟩ := encodeRune_head h
  rw [hcs, List.cons_append] at hd ⊢
  simp only [readStringFuel, List.append_eq]
  rw [if_neg (by omega), if_neg (by omega), if_neg (by omega), if_neg (by omega), hd]
  dsimp only
  rw [hcs, ← List.cons_append, List.drop_left]

/-- Reading what `e.string` writes for a piece gives the piece as `encoding/json` keeps it. -/
theorem readStringFuel_escapePiece {p : Piece} (hp : p.WF) (fuel : Nat) (t : List Nat) :
    readStringFuel (fuel + 1) (escapePiece p ++ t) = prepend p.coerce (readStringFuel fuel t) := by
  cases p with
  | bad b => exact readStringFuel_uescape [0x66, 0x66, 0x66, 0x64] rfl (by decide)
  | rune r bs =>
    obtain ⟨rfl, hd⟩ := hp
    simp only [escapePiece, Piece.coerce]
    split_ifs with ha hl
    · rw [encodeRune_ascii ha]
      exact readStringFuel_escapeAscii ha fuel t
    · refine readStringFuel_uescape [_, _, _, _] ?_ (by unfold isSurrogate; omega)
      have h0 : hexVal 0x30 = some 0 := rfl
      have h2 : hexVal 0x32 = some 2 := rfl
      rw [hex4_cons t h2 h0 h2 (hexVal_hexDigit (by omega))]
      congr 2
      omega
    · exact readStringFuel_sequence (by omega) (hd t)

theorem escapePiece_length_pos {p : Piece} (hp : p.WF) : 0 < (escapePiece p).length := by
  cases p with
  | bad b => exact Nat.succ_pos _
  | rune r bs =>
    obtain ⟨rfl, -⟩ := hp
    simp only [escapePiece]
    split_ifs with ha
    · unfold escapeAscii; split_ifs <;> simp
    · simp
    · obtain ⟨c, s, hcs, -⟩ := encodeRune_head (by omega : 0x80 ≤ r)
      simp [hcs]

/-- The pieces' escapes, then the closing quote, read as the pieces as `encoding/json` keeps
them. -/
theorem readStringFuel_escaped (rest : List Nat) :
    ∀ (ps : List Piece), (∀ p ∈ ps, p.WF) → ∀ fuel, (ps.flatMap escapePiece).length < fuel →
      readStringFuel fuel (ps.flatMap escapePiece ++ 0x22 :: rest) =
        some (ps.flatMap Piece.coerce, rest)
  | [], _, fuel + 1, _ => rfl
  | p :: ps, hps, fuel + 1, hf => by
    have hp := hps p (List.mem_cons_self _ _)
    have := escapePiece_length_pos hp
    simp only [List.flatMap_cons, List.length_append] at hf ⊢
    rw [List.append_assoc, readStringFuel_escapePiece hp,
      readStringFuel_escaped rest ps (fun q hq => hps q (List.mem_cons_of_mem _ hq)) fuel
        (by omega)]
    rfl

/-- `encoding/json` reads back the string literal it writes as the string with U+FFFD for every
byte that starts no valid UTF-8 sequence, and stops right after it. -/
theorem readString_encodeString (s rest : List Nat) :
    readString (encodeString s ++ rest) = some (coerce s, rest) := by
  simp only [encodeString, List.cons_append, readString, List.append_assoc, List.singleton_append]
  exact readStringFuel_escaped rest _ (pieces_wf s) _ (by simp)

/-! ## Plain ASCII text -/

/-- A byte `e.string` copies as it is: printable ASCII other than `"`, `\\`, `<`, `>` and `&`. -/
def Plain (c : Nat) : Prop :=
  0x20 ≤ c ∧ c < 0x80 ∧ c ≠ 0x22 ∧ c ≠ 0x5C ∧ c ≠ 0x3C ∧ c ≠ 0x3E ∧ c ≠ 0x26

/-- ASCII text is one piece per byte. -/
theorem pieces_ascii : ∀ {s : List Nat}, (∀ c ∈ s, c < 0x80) →
    pieces s = s.map fun c => .rune c [c]
  | [], _ => rfl
  | c :: s, h => by
    have hc := h c (List.mem_cons_self _ _)
    have hd : decodeRune (c :: s) = (c, 1) := if_pos hc
    rw [pieces_cons, hd, if_neg (by simp only [runeError, Prod.mk.injEq, and_true]; omega)]
    exact congrArg (_ :: ·) (pieces_ascii fun d hd => h d (List.mem_cons_of_mem _ hd))

/-- Plain ASCII text is written as itself between quotes. -/
theorem encodeString_plain {s : List Nat} (h : ∀ c ∈ s, Plain c) :
    encodeString s = 0x22 :: s ++ [0x22] := by
  rw [encodeString, pieces_ascii fun c hc => (h c hc).2.1, List.flatMap_map]
  congr 2
  conv_rhs => rw [← List.flatMap_singleton' s]
  refine List.flatMap_congr fun c hc => ?_
  obtain ⟨h1, h2, h3, h4, h5, h6, h7⟩ := h c hc
  simp only [escapePiece, if_pos h2, escapeAscii]
  rw [if_neg (by omega), if_neg (by omega), if_neg (by omega), if_neg (by omega), if_neg (by omega)]

/-- ASCII text is valid UTF-8. -/
theorem coerce_ascii {s : List Nat} (h : ∀ c ∈ s, c < 0x80) : coerce s = s := by
  rw [coerce, pieces_ascii h, List.flatMap_map]
  conv_rhs => rw [← List.flatMap_singleton' s]
  rfl

end Flux.Json
