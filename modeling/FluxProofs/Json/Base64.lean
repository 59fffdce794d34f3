/-
`encoding/base64`'s `StdEncoding`, as `encoding/json` writes a `[]byte` and reads it back: each
three bytes become four characters of the alphabet, and a last one or two bytes are padded with
`=`. Decoding skips `\r` and `\n` wherever they are, reads the characters four at a time, and
fails on a character outside the alphabet, on a quantum cut short, on padding anywhere but at
the end of the last quantum, and on anything after the padding.

Decoding what `Encode` wrote gives the bytes back, whatever they are (`decode_encode`).
-/
import Mathlib.Data.List.Basic

namespace Flux.Json

/-! ## The alphabet -/

/-- `encodeStd[i]`: `A` to `Z`, `a` to `z`, `0` to `9`, `+` and `/`. -/
def encodeStd (i : Nat) : Nat :=
  if i < 26 then 0x41 + i
  else if i < 52 then 0x61 + (i - 26)
  else if i < 62 then 0x30 + (i - 52)
  else if i = 62 then 0x2B
  else 0x2F

/-- `StdPadding`, `=`. -/
def padChar : Nat := 0x3D

/-- `decodeMap[c]`: the index of a character of the alphabet; none, for `0xFF`, for any other
byte. -/
def decodeMap (c : Nat) : Option Nat :=
  if 0x41 ≤ c ∧ c ≤ 0x5A then some (c - 0x41)
  else if 0x61 ≤ c ∧ c ≤ 0x7A then some (c - 0x61 + 26)
  else if 0x30 ≤ c ∧ c ≤ 0x39 then some (c - 0x30 + 52)
  else if c = 0x2B then some 62
  else if c = 0x2F then some 63
  else none

/-! ## `Encode` -/

/-- `enc.encode[val>>18&0x3F]` to `enc.encode[val&0x3F]`: the four characters of 24 bits. -/
def sextets (val : Nat) : List Nat :=
  [encodeStd (val / 0x40000 % 0x40), encodeStd (val / 0x1000 % 0x40),
    encodeStd (val / 0x40 % 0x40), encodeStd (val % 0x40)]

/-- `StdEncoding.Encode(dst, src)`: the full groups of three bytes, then the remaining one or two
bytes with their padding. -/
def encode : List UInt8 → List Nat
  | a :: b :: c :: rest => sextets (a.toNat * 0x10000 + b.toNat * 0x100 + c.toNat) ++ encode rest
  | [a, b] => (sextets (a.toNat * 0x10000 + b.toNat * 0x100)).take 3 ++ [padChar]
  | [a] => (sextets (a.toNat * 0x10000)).take 2 ++ [padChar, padChar]
  | [] => []

/-! ## `Decode` -/

/-- `byte(val >> 16)`, `byte(val >> 8)`, `byte(val >> 0)`: the bytes of 24 bits. -/
def bytesOf (val : Nat) : List UInt8 :=
  [(val / 0x10000).toUInt8, (val / 0x100).toUInt8, val.toUInt8]

/-- The quanta of `decode`, on the input with its newlines taken out: four characters of the
alphabet give three bytes; `xx==` and `xxx=` end the input with one or two bytes. -/
def decodeQuanta : List Nat → Option (List UInt8)
  | [] => some []
  | a :: b :: c :: d :: rest => do
    let a ← decodeMap a
    let b ← decodeMap b
    if c = padChar then
      if d = padChar ∧ rest = [] then some ((bytesOf (a * 0x40000 + b * 0x1000)).take 1) else none
    else
      let c ← decodeMap c
      if d = padChar then
        if rest = [] then some ((bytesOf (a * 0x40000 + b * 0x1000 + c * 0x40)).take 2) else none
      else
        let d ← decodeMap d
        (bytesOf (a * 0x40000 + b * 0x1000 + c * 0x40 + d) ++ ·) <$> decodeQuanta rest
  | _ => none

/-- A newline, which the decoder skips. -/
def isNewline (c : Nat) : Bool := c = 0x0A || c = 0x0D

/-- `StdEncoding.Decode(dst, src)` with its error, as `encoding/json` uses it: the loop skips the
newlines after each character it reads and before the first, so it reads the input with them
taken out. The offset of a `CorruptInputError` is not modelled. -/
def decode (src : List Nat) : Option (List UInt8) := decodeQuanta (src.filter fun c => !isNewline c)

/-! ## Decoding what `Encode` wrote -/

theorem decodeMap_encodeStd {i : Nat} (h : i < 0x40) : decodeMap (encodeStd i) = some i := by
  unfold encodeStd
  by_cases h1 : i < 26
  · rw [if_pos h1, decodeMap, if_pos (by omega)]; congr 1; omega
  by_cases h2 : i < 52
  · rw [if_neg h1, if_pos h2, decodeMap, if_neg (by omega), if_pos (by omega)]; congr 1; omega
  by_cases h3 : i < 62
  · rw [if_neg h1, if_neg h2, if_pos h3, decodeMap, if_neg (by omega), if_neg (by omega),
      if_pos (by omega)]
    congr 1; omega
  rw [if_neg h1, if_neg h2, if_neg h3]
  by_cases h4 : i = 62
  · rw [if_pos h4, h4]; rfl
  · rw [if_neg h4, show i = 63 by omega]; rfl

theorem encodeStd_ne_pad (i : Nat) : encodeStd i ≠ padChar := by
  unfold encodeStd padChar
  split_ifs <;> omega

/-- What `Encode` writes is characters of the alphabet and padding. -/
theorem mem_encode {bs : List UInt8} {c : Nat} (h : c ∈ encode bs) :
    c = padChar ∨ ∃ i, c = encodeStd i := by
  induction bs using encode.induct with
  | case1 a b d rest ih =>
    rw [encode, List.mem_append] at h
    rcases h with h | h
    · simp only [sextets, List.mem_cons, List.not_mem_nil, or_false] at h
      rcases h with rfl | rfl | rfl | rfl <;> exact .inr ⟨_, rfl⟩
    · exact ih h
  | case2 a b | case3 a =>
    simp only [encode, sextets, List.take, List.cons_append, List.nil_append, List.mem_cons,
      List.not_mem_nil, or_false] at h
    rcases h with rfl | rfl | rfl | rfl <;> first | exact .inl rfl | exact .inr ⟨_, rfl⟩
  | case4 => cases h

/-- What `Encode` writes has no newline. -/
theorem isNewline_of_mem_encode {bs : List UInt8} {c : Nat} (h : c ∈ encode bs) :
    isNewline c = false := by
  rcases mem_encode h with rfl | ⟨i, rfl⟩
  · rfl
  · unfold encodeStd isNewline; split_ifs <;> simp <;> omega

/-- `byte(n)` is the byte `a` when `n` has `a` as its low eight bits. -/
theorem toUInt8_eq {n : Nat} {a : UInt8} (h : n % 0x100 = a.toNat) : n.toUInt8 = a :=
  UInt8.eq_of_val_eq (Fin.ext h)

/-- The four sextets of 24 bits put back together. -/
theorem sextets_val {val : Nat} (h : val < 0x1000000) :
    val / 0x40000 % 0x40 * 0x40000 + val / 0x1000 % 0x40 * 0x1000 + val / 0x40 % 0x40 * 0x40 +
      val % 0x40 = val := by
  omega

/-- The bytes of three bytes put together. -/
theorem bytesOf_three (a b c : UInt8) :
    bytesOf (a.toNat * 0x10000 + b.toNat * 0x100 + c.toNat) = [a, b, c] := by
  have ha : a.toNat < 0x100 := a.val.isLt
  have hb : b.toNat < 0x100 := b.val.isLt
  have hc : c.toNat < 0x100 := c.val.isLt
  simp only [bytesOf, List.cons.injEq, and_true]
  exact ⟨toUInt8_eq (by omega), toUInt8_eq (by omega), toUInt8_eq (by omega)⟩

theorem decodeQuanta_encode : ∀ bs : List UInt8, decodeQuanta (encode bs) = some bs
  | a :: b :: c :: rest => by
    have ha : a.toNat < 0x100 := a.val.isLt
    have hb : b.toNat < 0x100 := b.val.isLt
    have hc : c.toNat < 0x100 := c.val.isLt
    generalize hv : a.toNat * 0x10000 + b.toNat * 0x100 + c.toNat = val
    have hlt : val < 0x1000000 := by omega
    rw [encode, hv, sextets, List.cons_append, List.cons_append, List.cons_append, List.cons_append,
      List.nil_append, decodeQuanta, decodeMap_encodeStd (Nat.mod_lt _ (by decide)),
      decodeMap_encodeStd (Nat.mod_lt _ (by decide))]
    simp only [Option.bind_eq_bind, Option.some_bind, encodeStd_ne_pad, if_false,
      decodeMap_encodeStd (Nat.mod_lt _ (by decide)), decodeQuanta_encode rest]
    rw [sextets_val hlt, ← hv, bytesOf_three]
    rfl
  | [a, b] => by
    have ha : a.toNat < 0x100 := a.val.isLt
    have hb : b.toNat < 0x100 := b.val.isLt
    generalize hv : a.toNat * 0x10000 + b.toNat * 0x100 = val
    -- the padding stands for a third byte `0`
    have hval : val / 0x40000 % 0x40 * 0x40000 + val / 0x1000 % 0x40 * 0x1000 +
        val / 0x40 % 0x40 * 0x40 = a.toNat * 0x10000 + b.toNat * 0x100 + (0 : UInt8).toNat := by
      show _ = _ + 0; omega
    rw [encode, hv]
    simp only [sextets, List.take, List.cons_append, List.nil_append, decodeQuanta,
      decodeMap_encodeStd (Nat.mod_lt _ (by decide)), Option.bind_eq_bind, Option.some_bind,
      encodeStd_ne_pad, if_false, and_self, if_true]
    rw [hval]
    exact congrArg (fun l => some (l.take 2)) (bytesOf_three a b 0)
  | [a] => by
    have ha : a.toNat < 0x100 := a.val.isLt
    generalize hv : a.toNat * 0x10000 = val
    have hval : val / 0x40000 % 0x40 * 0x40000 + val / 0x1000 % 0x40 * 0x1000 =
        a.toNat * 0x10000 + (0 : UInt8).toNat * 0x100 + (0 : UInt8).toNat := by
      show _ = _ + 0 * 0x100 + 0; omega
    rw [encode, hv]
    simp only [sextets, List.take, List.cons_append, List.nil_append, decodeQuanta,
      decodeMap_encodeStd (Nat.mod_lt _ (by decide)), Option.bind_eq_bind, Option.some_bind,
      and_self, if_true]
    rw [hval]
    exact congrArg (fun l => some (l.take 1)) (bytesOf_three a 0 0)
  | [] => rfl

/-- Decoding what `Encode` wrote gives the bytes back. -/
theorem decode_encode (bs : List UInt8) : decode (encode bs) = some bs := by
  rw [decode, List.filter_eq_self.mpr fun c hc => by simp [isNewline_of_mem_encode hc]]
  exact decodeQuanta_encode bs

end Flux.Json
