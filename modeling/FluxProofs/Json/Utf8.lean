/-
Go's `unicode/utf8` on byte strings, as `encoding/json` uses it: `DecodeRune` with its table of
first bytes and `acceptRanges`, `EncodeRune`, and a string cut into the pieces `DecodeRune` reads
one after another. A piece is a rune with the bytes that encode it, or a byte that starts no
valid sequence; `encoding/json` writes U+FFFD for the latter.

Bytes are natural numbers. The two facts the JSON round trip rests on: `DecodeRune` looks no
further than the sequence it returns, and `EncodeRune` gives that sequence back.
-/
import Mathlib.Data.List.Basic

namespace Flux.Json

/-! ## `DecodeRune` and `EncodeRune` -/

/-- `utf8.RuneError`, U+FFFD. -/
def runeError : Nat := 0xFFFD

/-- `first[p0]` with `acceptRanges`, for a byte from `0x80` on: no sequence, or a sequence of
two, three or four bytes, with the range the second byte must lie in (the first nibble of the
table's entry). -/
inductive Lead where
  | none
  | two
  | three (lo hi : Nat)
  | four (lo hi : Nat)

/-- The entry of the table `first` for a byte from `0x80` on. -/
def lead (p0 : Nat) : Lead :=
  if p0 < 0xC2 then .none
  else if p0 < 0xE0 then .two
  else if p0 = 0xE0 then .three 0xA0 0xBF
  else if p0 = 0xED then .three 0x80 0x9F
  else if p0 < 0xF0 then .three 0x80 0xBF
  else if p0 = 0xF0 then .four 0x90 0xBF
  else if p0 < 0xF4 then .four 0x80 0xBF
  else if p0 = 0xF4 then .four 0x80 0x8F
  else .none

/-- A continuation byte, `locb` to `hicb`. -/
def IsCont (b : Nat) : Prop := 0x80 ≤ b ∧ b ≤ 0xBF

instance : DecidablePred IsCont := fun b => inferInstanceAs (Decidable (0x80 ≤ b ∧ b ≤ 0xBF))

/-- `utf8.DecodeRune(p)`: the rune `p` starts with and the length of its encoding;
`(RuneError, 1)` when `p` starts with no valid sequence, `(RuneError, 0)` when it is empty. -/
def decodeRune : List Nat → Nat × Nat
  | [] => (runeError, 0)
  | p0 :: p =>
    if p0 < 0x80 then (p0, 1) else
    match lead p0, p with
    | .two, b1 :: _ =>
      if IsCont b1 then ((p0 % 0x20) * 0x40 + b1 % 0x40, 2) else (runeError, 1)
    | .three lo hi, b1 :: b2 :: _ =>
      if lo ≤ b1 ∧ b1 ≤ hi ∧ IsCont b2 then
        ((p0 % 0x10) * 0x1000 + (b1 % 0x40) * 0x40 + b2 % 0x40, 3)
      else (runeError, 1)
    | .four lo hi, b1 :: b2 :: b3 :: _ =>
      if lo ≤ b1 ∧ b1 ≤ hi ∧ IsCont b2 ∧ IsCont b3 then
        ((p0 % 0x8) * 0x40000 + (b1 % 0x40) * 0x1000 + (b2 % 0x40) * 0x40 + b3 % 0x40, 4)
      else (runeError, 1)
    | _, _ => (runeError, 1)

/-- `utf8.EncodeRune`: a surrogate or a rune past `MaxRune` is written as `RuneError`. -/
def encodeRune (r : Nat) : List Nat :=
  if r < 0x80 then [r]
  else if r < 0x800 then [0xC0 + r / 0x40, 0x80 + r % 0x40]
  else if 0x10FFFF < r ∨ (0xD800 ≤ r ∧ r ≤ 0xDFFF) then [0xEF, 0xBF, 0xBD]
  else if r < 0x10000 then [0xE0 + r / 0x1000, 0x80 + r / 0x40 % 0x40, 0x80 + r % 0x40]
  else [0xF0 + r / 0x40000, 0x80 + r / 0x1000 % 0x40, 0x80 + r / 0x40 % 0x40, 0x80 + r % 0x40]

/-! ## A valid sequence reads back -/

section Lead

variable {p0 lo hi b1 b2 b3 : Nat}

/-- What the entry of `first` says of a byte: the one inversion of `lead` the proofs use. -/
theorem lead_inv (p0 : Nat) :
    (lead p0 = .two → 0xC2 ≤ p0 ∧ p0 < 0xE0) ∧
    (∀ lo hi, lead p0 = .three lo hi → 0xE0 ≤ p0 ∧ p0 ≤ 0xEF ∧ 0x80 ≤ lo ∧ hi ≤ 0xBF ∧
      (p0 = 0xE0 → lo = 0xA0) ∧ (p0 = 0xED → hi = 0x9F)) ∧
    (∀ lo hi, lead p0 = .four lo hi → 0xF0 ≤ p0 ∧ p0 ≤ 0xF4 ∧ 0x80 ≤ lo ∧ hi ≤ 0xBF ∧
      (p0 = 0xF0 → lo = 0x90) ∧ (p0 = 0xF4 → hi = 0x8F)) := by
  unfold lead
  by_cases h1 : p0 < 0xC2
  · rw [if_pos h1]; refine ⟨fun h => ?_, fun _ _ h => ?_, fun _ _ h => ?_⟩ <;> cases h
  rw [if_neg h1]
  by_cases h2 : p0 < 0xE0
  · rw [if_pos h2]; refine ⟨fun _ => ⟨by omega, h2⟩, fun _ _ h => ?_, fun _ _ h => ?_⟩ <;> cases h
  rw [if_neg h2]
  by_cases h3 : p0 = 0xE0
  · rw [if_pos h3]; refine ⟨fun h => ?_, fun _ _ h => ?_, fun _ _ h => ?_⟩ <;> cases h; omega
  rw [if_neg h3]
  by_cases h4 : p0 = 0xED
  · rw [if_pos h4]; refine ⟨fun h => ?_, fun _ _ h => ?_, fun _ _ h => ?_⟩ <;> cases h; omega
  rw [if_neg h4]
  by_cases h5 : p0 < 0xF0
  · rw [if_pos h5]; refine ⟨fun h => ?_, fun _ _ h => ?_, fun _ _ h => ?_⟩ <;> cases h; omega
  rw [if_neg h5]
  by_cases h6 : p0 = 0xF0
  · rw [if_pos h6]; refine ⟨fun h => ?_, fun _ _ h => ?_, fun _ _ h => ?_⟩ <;> cases h; omega
  rw [if_neg h6]
  by_cases h7 : p0 < 0xF4
  · rw [if_pos h7]; refine ⟨fun h => ?_, fun _ _ h => ?_, fun _ _ h => ?_⟩ <;> cases h; omega
  rw [if_neg h7]
  split_ifs <;> refine ⟨fun h => ?_, fun _ _ h => ?_, fun _ _ h => ?_⟩ <;> cases h; omega

theorem encodeRune_two (hl : lead p0 = .two) (h1 : IsCont b1) :
    encodeRune ((p0 % 0x20) * 0x40 + b1 % 0x40) = [p0, b1] := by
  have := (lead_inv p0).1 hl
  unfold IsCont at h1
  rw [encodeRune, if_neg (by omega), if_pos (by omega)]
  simp only [List.cons.injEq, and_true]
  omega

theorem encodeRune_three (hl : lead p0 = .three lo hi) (h1 : lo ≤ b1 ∧ b1 ≤ hi)
    (h2 : IsCont b2) :
    encodeRune ((p0 % 0x10) * 0x1000 + (b1 % 0x40) * 0x40 + b2 % 0x40) = [p0, b1, b2] := by
  obtain ⟨hp0, hp1, hlo, hhi, h0, h4⟩ := (lead_inv p0).2.1 _ _ hl
  unfold IsCont at h2
  set r := (p0 % 0x10) * 0x1000 + (b1 % 0x40) * 0x40 + b2 % 0x40 with hr_def
  -- only the range of the rune needs the bounds that depend on the lead byte
  have hr : 0x800 ≤ r ∧ ¬ (0xD800 ≤ r ∧ r ≤ 0xDFFF) := by omega
  clear h0 h4
  rw [encodeRune, if_neg (by omega), if_neg (by omega), if_neg (by omega), if_pos (by omega)]
  simp only [List.cons.injEq, and_true]
  omega

theorem encodeRune_four (hl : lead p0 = .four lo hi) (h1 : lo ≤ b1 ∧ b1 ≤ hi)
    (h2 : IsCont b2) (h3 : IsCont b3) :
    encodeRune ((p0 % 0x8) * 0x40000 + (b1 % 0x40) * 0x1000 + (b2 % 0x40) * 0x40 + b3 % 0x40) =
      [p0, b1, b2, b3] := by
  obtain ⟨hp0, hp1, hlo, hhi, h0, h4⟩ := (lead_inv p0).2.2 _ _ hl
  unfold IsCont at h2 h3
  set r := (p0 % 0x8) * 0x40000 + (b1 % 0x40) * 0x1000 + (b2 % 0x40) * 0x40 + b3 % 0x40 with hr_def
  have hr : 0x10000 ≤ r ∧ r ≤ 0x10FFFF := by omega
  clear h0 h4
  rw [encodeRune, if_neg (by omega), if_neg (by omega), if_neg (by omega), if_neg (by omega)]
  simp only [List.cons.injEq, and_true]
  omega

end Lead

/-- `DecodeRune` reads at least one byte and no more than there are. -/
theorem decodeRune_snd (p0 : Nat) (p : List Nat) :
    1 ≤ (decodeRune (p0 :: p)).2 ∧ (decodeRune (p0 :: p)).2 ≤ p.length + 1 := by
  simp only [decodeRune]
  split_ifs
  · simp
  · split <;> (try split_ifs) <;> simp

/-- A valid sequence: `DecodeRune` reads nothing past it, and `EncodeRune` gives it back. -/
theorem decodeRune_valid {p0 : Nat} {p : List Nat} (h : decodeRune (p0 :: p) ≠ (runeError, 1)) :
    (∀ t, decodeRune ((p0 :: p).take (decodeRune (p0 :: p)).2 ++ t) = decodeRune (p0 :: p)) ∧
      encodeRune (decodeRune (p0 :: p)).1 = (p0 :: p).take (decodeRune (p0 :: p)).2 := by
  by_cases ha : p0 < 0x80
  · have hd : decodeRune (p0 :: p) = (p0, 1) := if_pos ha
    rw [hd]
    exact ⟨fun t => if_pos ha, by simp [encodeRune, ha]⟩
  -- past ASCII, `DecodeRune` reads by the table's entry for the first byte
  have hn : ∀ q, decodeRune (p0 :: q) = _ := fun q => if_neg ha
  rw [hn] at h ⊢
  split at h
  next b1 _ hl =>
    split_ifs at h with h1
    · rw [if_pos h1]
      exact ⟨fun t => (hn _).trans (by rw [hl]; exact if_pos h1), encodeRune_two hl h1⟩
    · exact absurd rfl h
  next b1 b2 _ lo hi hl =>
    split_ifs at h with h1
    · rw [if_pos h1]
      exact ⟨fun t => (hn _).trans (by rw [hl]; exact if_pos h1),
        encodeRune_three hl ⟨h1.1, h1.2.1⟩ h1.2.2⟩
    · exact absurd rfl h
  next b1 b2 b3 _ lo hi hl =>
    split_ifs at h with h1
    · rw [if_pos h1]
      exact ⟨fun t => (hn _).trans (by rw [hl]; exact if_pos h1),
        encodeRune_four hl ⟨h1.1, h1.2.1⟩ h1.2.2.1 h1.2.2.2⟩
    · exact absurd rfl h
  next => exact absurd rfl h

/-! ## Pieces -/

/-- What `DecodeRune` reads at one position: a rune with the bytes that encode it, or a byte
that starts no valid sequence. -/
inductive Piece where
  | rune (r : Nat) (bytes : List Nat)
  | bad (b : Nat)
  deriving DecidableEq, Repr

/-- The bytes of a piece in the string. -/
def Piece.bytes : Piece → List Nat
  | .rune _ bs => bs
  | .bad b => [b]

/-- The pieces of a string, with `fuel` steps: each step reads what `DecodeRune` decodes. -/
def piecesFuel : Nat → List Nat → List Piece
  | 0, _ | _, [] => []
  | fuel + 1, b :: bs =>
    if decodeRune (b :: bs) = (runeError, 1) then .bad b :: piecesFuel fuel bs
    else
      .rune (decodeRune (b :: bs)).1 ((b :: bs).take (decodeRune (b :: bs)).2) ::
        piecesFuel fuel ((b :: bs).drop (decodeRune (b :: bs)).2)

/-- The pieces of a string, in order: a step per byte is enough. -/
def pieces (s : List Nat) : List Piece := piecesFuel s.length s

/-- A piece as `encoding/json` keeps it: a byte that starts no valid sequence becomes U+FFFD. -/
def Piece.coerce : Piece → List Nat
  | .rune _ bs => bs
  | .bad _ => encodeRune runeError

/-- What `encoding/json` makes of a string: the string with U+FFFD for every byte that starts no
valid sequence. -/
def coerce (s : List Nat) : List Nat := (pieces s).flatMap Piece.coerce

/-- Valid UTF-8: no byte starts an invalid sequence. -/
def Valid (s : List Nat) : Prop := ∀ p ∈ pieces s, ∀ b, p ≠ .bad b

/-- A byte that starts no valid sequence. -/
def Piece.isBad : Piece → Bool
  | .rune _ _ => false
  | .bad _ => true

instance : DecidablePred Valid := fun s =>
  decidable_of_iff ((pieces s).all fun p => !p.isBad) (by
    simp only [List.all_eq_true, Bool.not_eq_true', Valid]
    refine forall₂_congr fun p _ => ?_
    cases p <;> simp [Piece.isBad])

/-- A piece as `pieces` cuts it: a rune with the sequence that encodes it, which `DecodeRune`
reads back whatever follows it. -/
def Piece.WF : Piece → Prop
  | .rune r bs => encodeRune r = bs ∧ ∀ t, decodeRune (bs ++ t) = (r, bs.length)
  | .bad _ => True

@[simp] theorem piecesFuel_nil (fuel : Nat) : piecesFuel fuel [] = [] := by
  cases fuel <;> rfl

theorem piecesFuel_stable : ∀ (fuel fuel' : Nat) (s : List Nat), s.length ≤ fuel →
    s.length ≤ fuel' → piecesFuel fuel s = piecesFuel fuel' s
  | _, _, [], _, _ => by rw [piecesFuel_nil, piecesFuel_nil]
  | 0, _, _ :: _, h, _ => absurd h (by simp)
  | _, 0, _ :: _, _, h => absurd h (by simp)
  | fuel + 1, fuel' + 1, b :: bs, h, h' => by
    have hn := decodeRune_snd b bs
    simp only [List.length_cons, Nat.add_le_add_iff_right] at h h'
    simp only [piecesFuel]
    split_ifs
    · rw [piecesFuel_stable fuel fuel' bs h h']
    · rw [piecesFuel_stable fuel fuel' _ (by simp; omega) (by simp; omega)]

theorem pieces_cons (b : Nat) (bs : List Nat) : pieces (b :: bs) =
    if decodeRune (b :: bs) = (runeError, 1) then .bad b :: pieces bs
    else .rune (decodeRune (b :: bs)).1 ((b :: bs).take (decodeRune (b :: bs)).2) ::
      pieces ((b :: bs).drop (decodeRune (b :: bs)).2) := by
  have hn := decodeRune_snd b bs
  simp only [pieces, List.length_cons, piecesFuel]
  split_ifs
  · rfl
  · rw [piecesFuel_stable bs.length _ _ (by simp; omega) le_rfl]

/-- Cut into pieces and put back together, a string is itself. -/
theorem pieces_bytes (s : List Nat) : (pieces s).flatMap Piece.bytes = s := by
  induction' hs : s.length using Nat.strong_induction_on with n ih generalizing s
  rcases s with _ | ⟨b, bs⟩
  · rfl
  · have hn := decodeRune_snd b bs
    rw [pieces_cons]
    split_ifs
    · simp only [List.flatMap_cons, Piece.bytes, List.singleton_append,
        ih bs.length (by simp [← hs]) bs rfl]
    · rw [List.flatMap_cons, Piece.bytes, ih _ (by simp [← hs]; omega) _ rfl, List.take_append_drop]

/-- Every piece `pieces` cuts is a well-formed one. -/
theorem pieces_wf (s : List Nat) : ∀ p ∈ pieces s, p.WF := by
  induction' hs : s.length using Nat.strong_induction_on with n ih generalizing s
  rcases s with _ | ⟨b, bs⟩
  · simp [pieces, piecesFuel]
  · have hn := decodeRune_snd b bs
    rw [pieces_cons]
    split_ifs with hbad
    · rintro p (_ | ⟨_, hp⟩)
      · trivial
      · exact ih bs.length (by simp [← hs]) bs rfl p hp
    · rintro p (_ | ⟨_, hp⟩)
      · have hv := decodeRune_valid hbad
        have hlen : ((b :: bs).take (decodeRune (b :: bs)).2).length = (decodeRune (b :: bs)).2 := by
          simp only [List.length_take, List.length_cons]; omega
        refine ⟨hv.2, fun t => ?_⟩
        rw [hv.1 t, hlen]
      · exact ih _ (by simp [← hs]; omega) _ rfl p hp

/-! ## `encoding/json`'s coercion -/

/-- A valid string is what `encoding/json` makes of it. -/
theorem coerce_of_valid {s : List Nat} (h : Valid s) : coerce s = s := by
  conv_rhs => rw [← pieces_bytes s]
  refine List.flatMap_congr fun p hp => ?_
  cases p with
  | rune r bs => rfl
  | bad b => exact absurd rfl (h _ hp b)

/-- The piece `encoding/json` keeps: U+FFFD in place of a byte that starts no valid sequence. -/
def Piece.repair : Piece → Piece
  | .bad _ => .rune runeError (encodeRune runeError)
  | p => p

theorem Piece.repair_wf {p : Piece} (h : p.WF) : p.repair.WF := by
  cases p with
  | rune r bs => exact h
  | bad b => exact ⟨rfl, fun t => rfl⟩

theorem Piece.coerce_eq_bytes (p : Piece) : p.coerce = p.repair.bytes := by
  cases p <;> rfl

theorem encodeRune_length_one {r : Nat} (h : (encodeRune r).length = 1) : r < 0x80 := by
  unfold encodeRune at h
  split_ifs at h with h1 <;> simp_all

/-- A rune's sequence is the first piece of whatever it starts. -/
theorem pieces_rune_append {r : Nat} {bs : List Nat} (h : (Piece.rune r bs).WF) (t : List Nat) :
    pieces (bs ++ t) = .rune r bs :: pieces t := by
  obtain ⟨rfl, hd⟩ := h
  obtain ⟨c, s, hcs⟩ : ∃ c s, encodeRune r = c :: s := by
    unfold encodeRune; split_ifs <;> exact ⟨_, _, rfl⟩
  have hne : decodeRune (encodeRune r ++ t) ≠ (runeError, 1) := by
    rw [hd]
    intro he
    have := encodeRune_length_one (Prod.mk.inj he).2
    simp only [Prod.mk.injEq, runeError] at he
    omega
  rw [hcs, List.cons_append, pieces_cons, if_neg (by rwa [hcs] at hne)]
  rw [← List.cons_append, ← hcs, hd, List.take_left, List.drop_left]

/-- Cutting the sequences of runes gives those runes back. -/
theorem pieces_flatMap_bytes :
    ∀ ps : List Piece, (∀ p ∈ ps, p.WF ∧ ∀ b, p ≠ .bad b) → pieces (ps.flatMap Piece.bytes) = ps
  | [], _ => rfl
  | .bad b :: _, h => absurd rfl ((h _ (List.mem_cons_self _ _)).2 b)
  | .rune r bs :: ps, h => by
    rw [List.flatMap_cons, Piece.bytes, pieces_rune_append (h _ (List.mem_cons_self _ _)).1,
      pieces_flatMap_bytes ps fun p hp => h p (List.mem_cons_of_mem _ hp)]

theorem pieces_coerce (s : List Nat) : pieces (coerce s) = (pieces s).map Piece.repair := by
  have hc : coerce s = ((pieces s).map Piece.repair).flatMap Piece.bytes := by
    rw [coerce, List.flatMap_map]
    exact List.flatMap_congr fun p _ => p.coerce_eq_bytes
  rw [hc, pieces_flatMap_bytes]
  simp only [List.mem_map]
  rintro _ ⟨p, hp, rfl⟩
  refine ⟨Piece.repair_wf (pieces_wf s p hp), fun b => ?_⟩
  cases p <;> simp [Piece.repair]

/-- What `encoding/json` makes of a string is valid UTF-8. -/
theorem valid_coerce (s : List Nat) : Valid (coerce s) := by
  rw [Valid, pieces_coerce]
  simp only [List.mem_map]
  rintro _ ⟨p, -, rfl⟩ b
  cases p <;> simp [Piece.repair]

theorem coerce_coerce (s : List Nat) : coerce (coerce s) = coerce s :=
  coerce_of_valid (valid_coerce s)

end Flux.Json
