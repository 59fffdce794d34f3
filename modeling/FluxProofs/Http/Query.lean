/-
Query strings as `net/url` (Go 1.7) writes and reads them: `QueryEscape` and `QueryUnescape`,
`url.Values` with `Add`, `Encode` and `ParseQuery`.

The main result is the round trip `parseQuery_encode_get`: parsing what `Encode` writes gives back,
for every key, the values the map holds under it, in order, and no error. It rests on three
facts: an escaped string unescapes to itself, no escaped string holds a separator (`&`, `;`,
`=`), and so the segments of the query are the `key=value` pairs `Encode` wrote.
-/
import Mathlib.Data.List.Sort
import Mathlib.Tactic.FinCases
import Mathlib.Tactic.IntervalCases

namespace Flux.Http

/-- A Go `string`: its bytes. -/
abbrev Bytes := List UInt8

/-- The bytes of an ASCII literal of the source. -/
def lit (s : String) : Bytes := s.toList.map fun c => c.toNat.toUInt8

/-! ## Escaping -/

/-- `shouldEscape(c, encodeQueryComponent)`: a query component escapes every byte but the
unreserved ones (`§2.3`: letters, digits, `-`, `_`, `.`, `~`); the reserved ones of `§2.2` are
all escaped in this mode. -/
def shouldEscape (c : UInt8) : Bool :=
  !((0x41 ≤ c && c ≤ 0x5A) || (0x61 ≤ c && c ≤ 0x7A) || (0x30 ≤ c && c ≤ 0x39) ||
    c = 0x2D || c = 0x5F || c = 0x2E || c = 0x7E)

/-- `"0123456789ABCDEF"[d]` for a nibble `d`. -/
def upperhex (d : UInt8) : UInt8 := if d < 10 then 0x30 + d else 0x37 + d

/-- The bytes `escape(s, encodeQueryComponent)` writes for the byte `c`. -/
def escapeByte (c : UInt8) : Bytes :=
  if c = 0x20 then [0x2B]
  else if shouldEscape c then [0x25, upperhex (c >>> 4), upperhex (c &&& 15)]
  else [c]

/-- `url.QueryEscape(s)`. (Go counts the bytes to escape first, to size its buffer, and returns
`s` itself when there are none; the bytes written are the same.) -/
def queryEscape (s : Bytes) : Bytes := s.flatMap escapeByte

/-- `ishex(c)` -/
def ishex (c : UInt8) : Bool :=
  (0x30 ≤ c && c ≤ 0x39) || (0x61 ≤ c && c ≤ 0x66) || (0x41 ≤ c && c ≤ 0x46)

/-- `unhex(c)` -/
def unhex (c : UInt8) : UInt8 :=
  if 0x30 ≤ c ∧ c ≤ 0x39 then c - 0x30
  else if 0x61 ≤ c ∧ c ≤ 0x66 then c - 0x61 + 10
  else if 0x41 ≤ c ∧ c ≤ 0x46 then c - 0x41 + 10
  else 0

/-- `url.EscapeError`: the bad escape, at most three bytes from its `%`. -/
structure EscapeError where
  bytes : Bytes
  deriving DecidableEq, Repr

/-- `url.QueryUnescape(s)`, that is `unescape(s, encodeQueryComponent)`: `%XX` is the byte `XX`,
`+` is a space, and a `%` without two hex digits after it is an error. (Go checks every `%`
before it writes a byte; the first bad one is the error either way.) -/
def unescape : Bytes → Except EscapeError Bytes
  | [] => .ok []
  | 0x25 :: a :: b :: s =>
    if ishex a && ishex b then (((unhex a <<< 4) ||| unhex b) :: ·) <$> unescape s
    else .error ⟨[0x25, a, b]⟩
  | 0x25 :: s => .error ⟨0x25 :: s⟩
  | 0x2B :: s => (0x20 :: ·) <$> unescape s
  | c :: s => (c :: ·) <$> unescape s

/-! ## `url.Values` -/

/-- `url.Values`, a `map[string][]string`: each key once, with its values in order. -/
abbrev Values := List (Bytes × List Bytes)

/-- `v[key]`: the key's values, none when it is absent. -/
def Values.get (v : Values) (key : Bytes) : List Bytes := (v.lookup key).getD []

/-- `v.Add(key, value)`: `v[key] = append(v[key], value)`. -/
def Values.add : Values → Bytes → Bytes → Values
  | [], key, value => [(key, [value])]
  | (k, vs) :: v, key, value =>
    if k = key then (k, vs ++ [value]) :: v else (k, vs) :: Values.add v key value

/-- `v.Add(k, x)` for each pair in turn. -/
def Values.addPairs (v : Values) (ps : List (Bytes × Bytes)) : Values :=
  ps.foldl (fun m p => m.add p.1 p.2) v

/-- `sort.Strings(keys)`: the entries in byte order of their keys. -/
def Values.sortKeys (v : Values) : Values := v.insertionSort fun a b => a.1 ≤ b.1

/-- The pairs `Encode` writes, in its order: by key, and each key's values in order. -/
def Values.pairs (v : Values) : List (Bytes × Bytes) :=
  v.sortKeys.flatMap fun e => e.2.map (e.1, ·)

/-- One `key=value` of the query: `QueryEscape(k) + "=" + QueryEscape(v)`. -/
def pairText (p : Bytes × Bytes) : Bytes := queryEscape p.1 ++ 0x3D :: queryEscape p.2

/-- `(v Values) Encode()`: the pairs, with `&` before each but the first. -/
def Values.encode (v : Values) : Bytes :=
  match v.pairs.map pairText with
  | [] => []
  | p :: ps => p ++ ps.flatMap (0x26 :: ·)

/-- The separators of `parseQuery`: `strings.IndexAny(key, "&;")`. -/
def isSep (c : UInt8) : Bool := c = 0x26 || c = 0x3B

/-- One round of the loop of `parseQuery`, on the segment `key` up to the next separator: an
empty segment is skipped; the key is cut at the first `=`; a key or value that does not unescape
is skipped, and the first such error is kept. -/
def parseSegment (acc : Values × Option EscapeError) (seg : Bytes) : Values × Option EscapeError :=
  if seg = [] then acc
  else
    match unescape (seg.takeWhile (· != 0x3D)), unescape ((seg.dropWhile (· != 0x3D)).drop 1) with
    | .ok key, .ok value => (acc.1.add key value, acc.2)
    | .error e, _ | .ok _, .error e => (acc.1, acc.2 <|> some e)

/-- `url.ParseQuery(query)`: the map, and the first error. The loop cuts the query at each
separator in turn; that is a fold over the segments `splitOnP` gives. -/
def parseQuery (q : Bytes) : Values × Option EscapeError :=
  (q.splitOnP isSep).foldl parseSegment ([], none)

/-! ## Bytes of an escaped string -/

/-- The bytes `QueryEscape` writes: `+`, `%`, and the unreserved bytes. -/
def Escaped (c : UInt8) : Prop := c = 0x2B ∨ c = 0x25 ∨ shouldEscape c = false

/-- Splitting a byte into nibbles and joining them back, as `escape` and `unescape` do. -/
theorem split_nibbles (c : UInt8) : (c >>> 4) <<< 4 ||| (c &&& 15) = c := by
  obtain ⟨x⟩ := c
  show UInt8.mk ((x >>> (4 % 8)) <<< (4 % 8) ||| (x &&& 15)) = UInt8.mk x
  congr 1
  ext i
  simp only [BitVec.getLsbD_or, BitVec.getLsbD_shiftLeft, BitVec.getLsbD_ushiftRight,
    BitVec.getLsbD_and]
  fin_cases i <;> simp

theorem nibbles_lt (c : UInt8) : c >>> 4 < 16 ∧ c &&& 15 < 16 := by
  obtain ⟨⟨⟨x, hx⟩⟩⟩ := c
  simp only [UInt8.lt_def, BitVec.lt_def]
  constructor
  · show (BitVec.ofFin ⟨x, hx⟩ >>> ((4 : BitVec 8) % 8).toNat).toNat < 16
    rw [BitVec.toNat_ushiftRight]
    show x >>> 4 < 16
    rw [Nat.shiftRight_eq_div_pow]; omega
  · show x &&& 15 < 16
    exact Nat.lt_of_le_of_lt Nat.and_le_right (by decide)

/-- A hex digit `escape` writes is unreserved, a hex digit for `unescape`, and reads back as its
nibble. -/
theorem upperhex_spec (d : UInt8) (hd : d < 16) :
    shouldEscape (upperhex d) = false ∧ ishex (upperhex d) = true ∧ unhex (upperhex d) = d := by
  obtain ⟨⟨n, hn⟩⟩ := d
  have h16 : n < 16 := hd
  have e : (⟨⟨⟨n, hn⟩⟩⟩ : UInt8) = UInt8.ofNat n :=
    UInt8.eq_of_val_eq (Fin.ext (Nat.mod_eq_of_lt hn).symm)
  rw [e]
  clear e hd hn
  interval_cases n <;> decide

/-- An unreserved byte is neither `%` nor `+`, so `unescape` copies it. -/
theorem ne_of_shouldEscape {c : UInt8} (h : shouldEscape c = false) : c ≠ 0x25 ∧ c ≠ 0x2B := by
  constructor <;> (rintro rfl; exact absurd h (by decide))

theorem escaped_not_sep {c : UInt8} (h : Escaped c) : isSep c = false ∧ c ≠ 0x3D := by
  rcases h with rfl | rfl | h
  · decide
  · decide
  · constructor
    · cases hs : isSep c
      · rfl
      · simp only [isSep, Bool.or_eq_true, decide_eq_true_eq] at hs
        rcases hs with rfl | rfl <;> exact absurd h (by decide)
    · rintro rfl; exact absurd h (by decide)

theorem escaped_of_mem_escapeByte {c d : UInt8} (h : d ∈ escapeByte c) : Escaped d := by
  unfold escapeByte at h
  split_ifs at h with h1 h2
  · simp only [List.mem_singleton] at h; exact Or.inl h
  · simp only [List.mem_cons, List.mem_singleton, List.not_mem_nil, or_false] at h
    rcases h with rfl | rfl | rfl
    · exact Or.inr (Or.inl rfl)
    · exact Or.inr (Or.inr (upperhex_spec _ (nibbles_lt c).1).1)
    · exact Or.inr (Or.inr (upperhex_spec _ (nibbles_lt c).2).1)
  · simp only [List.mem_singleton] at h; subst h; exact Or.inr (Or.inr (by simpa using h2))

theorem escaped_of_mem_queryEscape {s : Bytes} {d : UInt8} (h : d ∈ queryEscape s) :
    Escaped d := by
  obtain ⟨c, -, hc⟩ := List.mem_flatMap.mp h
  exact escaped_of_mem_escapeByte hc

/-! ## Unescaping undoes escaping -/

theorem unescape_escapeByte (c : UInt8) (rest : Bytes) :
    unescape (escapeByte c ++ rest) = (c :: ·) <$> unescape rest := by
  unfold escapeByte
  split_ifs with h1 h2
  · subst h1; simp [unescape]
  · obtain ⟨sh, ih, uh⟩ := upperhex_spec _ (nibbles_lt c).1
    obtain ⟨sl, il, ul⟩ := upperhex_spec _ (nibbles_lt c).2
    simp only [List.cons_append, List.nil_append, unescape, ih, il, Bool.and_self, if_true, uh,
      ul, split_nibbles]
    rfl
  · obtain ⟨hp, hq⟩ := ne_of_shouldEscape (by simpa using h2)
    rw [List.singleton_append, unescape] <;> simp_all

/-- `QueryUnescape` reads back what `QueryEscape` writes, whatever follows it. -/
theorem unescape_queryEscape_append (s rest : Bytes) :
    unescape (queryEscape s ++ rest) = (s ++ ·) <$> unescape rest := by
  induction s with
  | nil => simp [queryEscape]
  | cons c s ih =>
    rw [queryEscape, List.flatMap_cons, List.append_assoc, unescape_escapeByte]
    rw [queryEscape] at ih
    rw [ih, Functor.map_map]
    rfl

theorem unescape_queryEscape (s : Bytes) : unescape (queryEscape s) = .ok s := by
  simpa [unescape] using unescape_queryEscape_append s []

/-! ## The segments of an encoded query -/

theorem splitOnP_join (ps : List Bytes) (hps : ∀ q ∈ ps, ∀ c ∈ q, isSep c = false) :
    ∀ p : Bytes, (∀ c ∈ p, isSep c = false) →
      (p ++ ps.flatMap (0x26 :: ·)).splitOnP isSep = p :: ps := by
  induction ps with
  | nil =>
    intro p hp
    rw [List.flatMap_nil, List.append_nil]
    exact List.splitOnP_eq_single _ _ (by simpa using hp)
  | cons q qs ih =>
    intro p hp
    rw [List.flatMap_cons, List.cons_append, List.splitOnP_first _ _ (by simpa using hp) _ rfl,
      ih (fun r hr => hps r (List.mem_cons_of_mem _ hr)) q (hps q (List.mem_cons_self _ _))]

theorem pairText_not_sep (p : Bytes × Bytes) : ∀ c ∈ pairText p, isSep c = false := by
  intro c hc
  simp only [pairText, List.mem_append, List.mem_cons] at hc
  rcases hc with h | rfl | h
  · exact (escaped_not_sep (escaped_of_mem_queryEscape h)).1
  · rfl
  · exact (escaped_not_sep (escaped_of_mem_queryEscape h)).1

/-- A `key=value` segment adds its value to its key. -/
theorem parseSegment_pairText (acc : Values × Option EscapeError) (p : Bytes × Bytes) :
    parseSegment acc (pairText p) = (acc.1.add p.1 p.2, acc.2) := by
  have hk : ∀ c ∈ queryEscape p.1, (c != 0x3D) = true := fun c hc => by
    simpa using (escaped_not_sep (escaped_of_mem_queryEscape hc)).2
  rw [parseSegment, if_neg (by simp [pairText]), pairText, List.takeWhile_append_of_pos hk,
    List.dropWhile_append_of_pos hk]
  simp [unescape_queryEscape]

theorem foldl_parseSegment (ps : List (Bytes × Bytes)) (m : Values) :
    (ps.map pairText).foldl parseSegment (m, none) = (m.addPairs ps, none) := by
  induction ps generalizing m with
  | nil => rfl
  | cons p ps ih => rw [List.map_cons, List.foldl_cons, parseSegment_pairText, ih]; rfl

/-- `ParseQuery(v.Encode())` adds the pairs `Encode` wrote, one by one, with no error. -/
theorem parseQuery_encode_pairs (v : Values) :
    parseQuery v.encode = (Values.addPairs [] v.pairs, none) := by
  rw [← foldl_parseSegment, parseQuery, Values.encode]
  split
  · next h => rw [h]; rfl
  · next p ps h =>
    have hs : ∀ q ∈ v.pairs.map pairText, ∀ c ∈ q, isSep c = false := by
      intro q hq
      obtain ⟨r, -, rfl⟩ := List.mem_map.mp hq
      exact pairText_not_sep r
    rw [h] at hs ⊢
    rw [splitOnP_join ps (fun q hq => hs q (List.mem_cons_of_mem _ hq)) p
      (hs p (List.mem_cons_self _ _))]

/-! ## Reading a key back -/

/-- The keys of a map, each once. -/
def Values.Keyed (v : Values) : Prop := (v.map Prod.fst).Nodup

@[simp] theorem get_nil (k : Bytes) : Values.get [] k = [] := by
  rw [Values.get, List.lookup_nil]; rfl

@[simp] theorem get_cons (v : Values) (k' : Bytes) (vs : List Bytes) (k : Bytes) :
    Values.get ((k', vs) :: v) k = if k = k' then vs else v.get k := by
  rw [Values.get, Values.get, List.lookup_cons]
  by_cases h : k = k'
  · subst h; simp
  · rw [beq_false_of_ne h, if_neg h]

/-- What `Add` leaves under a key. -/
@[simp] theorem get_add (v : Values) (k key value : Bytes) :
    (v.add key value).get k = v.get k ++ if key = k then [value] else [] := by
  induction v with
  | nil =>
    by_cases h : key = k
    · subst h; simp [Values.add]
    · simp [Values.add, h, Ne.symm h]
  | cons e v ih =>
    obtain ⟨k', vs⟩ := e
    by_cases h : k' = key
    · subst h
      by_cases hk : k = k'
      · subst hk; simp [Values.add]
      · simp [Values.add, hk, Ne.symm hk]
    · by_cases hk : k = k'
      · subst hk; simp [Values.add, h, Ne.symm h]
      · simp [Values.add, h, hk, ih]

/-- Adding pairs one by one leaves under each key its values in order. -/
theorem get_addPairs (m : Values) (ps : List (Bytes × Bytes)) (k : Bytes) :
    (m.addPairs ps).get k = m.get k ++ (ps.filter (·.1 = k)).map (·.2) := by
  induction ps generalizing m with
  | nil => simp [Values.addPairs]
  | cons p ps ih =>
    rw [Values.addPairs, List.foldl_cons, ← Values.addPairs, ih, get_add, List.append_assoc]
    by_cases h : p.1 = k <;> simp [List.filter_cons, h]

theorem keys_add (v : Values) (key value : Bytes) :
    (v.add key value).map Prod.fst =
      if key ∈ v.map Prod.fst then v.map Prod.fst else v.map Prod.fst ++ [key] := by
  induction v with
  | nil => simp [Values.add]
  | cons e v ih =>
    obtain ⟨k, vs⟩ := e
    by_cases h : k = key
    · simp [Values.add, h]
    · by_cases hm : key ∈ v.map Prod.fst <;> simp_all [Values.add, Ne.symm h]

theorem keyed_add {v : Values} (key value : Bytes) (hv : v.Keyed) : (v.add key value).Keyed := by
  unfold Values.Keyed at hv ⊢
  rw [keys_add]
  split_ifs with h
  · exact hv
  · exact hv.append (List.nodup_singleton key) (List.disjoint_singleton.mpr h)

theorem keyed_addPairs (ps : List (Bytes × Bytes)) {m : Values} (hm : m.Keyed) :
    (m.addPairs ps).Keyed := by
  induction ps generalizing m with
  | nil => exact hm
  | cons p ps ih => exact ih (keyed_add p.1 p.2 hm)

/-- In a map, the entries of a key are none or one, holding what `v[key]` reads. -/
theorem filter_key_of_keyed {l : Values} (hl : l.Keyed) (k : Bytes) :
    l.filter (·.1 = k) = ((l.lookup k).map ((k, ·))).toList := by
  induction l with
  | nil => rfl
  | cons e l ih =>
    obtain ⟨k', vs⟩ := e
    simp only [Values.Keyed, List.map_cons, List.nodup_cons] at hl
    by_cases h : k' = k
    · subst h
      have hn : l.filter (·.1 = k') = [] := List.filter_eq_nil_iff.mpr fun e he hk =>
        hl.1 (List.mem_map.mpr ⟨e, he, of_decide_eq_true hk⟩)
      rw [List.filter_cons, if_pos (by simp), hn, List.lookup_cons, beq_self_eq_true]
      rfl
    · rw [List.filter_cons, if_neg (by simpa using h), ih hl.2, List.lookup_cons,
        beq_false_of_ne (Ne.symm h)]

theorem get_eq_flatMap_filter {l : Values} (hl : l.Keyed) (k : Bytes) :
    l.get k = (l.filter (·.1 = k)).flatMap (·.2) := by
  rw [filter_key_of_keyed hl, Values.get]
  cases l.lookup k <;> simp

/-- Gathering a key's values from the pairs of a list of entries. -/
theorem filter_flatMap_pairs (l : Values) (k : Bytes) :
    ((l.flatMap fun e => e.2.map (e.1, ·)).filter (·.1 = k)).map (·.2) =
      (l.filter (·.1 = k)).flatMap (·.2) := by
  induction l with
  | nil => rfl
  | cons e l ih =>
    by_cases h : e.1 = k <;>
      simp [List.filter_cons, List.filter_append, List.filter_map, Function.comp_def, h, ih]

/-- Sorting a map does not change what a key reads. -/
theorem filter_sortKeys {v : Values} (hv : v.Keyed) (k : Bytes) :
    v.sortKeys.filter (·.1 = k) = v.filter (·.1 = k) := by
  have hp : v.sortKeys.Perm v := List.perm_insertionSort _ v
  have hs : v.sortKeys.Keyed := (hp.map Prod.fst).nodup_iff.mpr hv
  have hf := hp.filter (fun e => decide (e.1 = k))
  rw [filter_key_of_keyed hs, filter_key_of_keyed hv] at hf ⊢
  cases h : v.lookup k <;> rw [h] at hf
  · exact hf.eq_nil
  · exact List.perm_singleton.mp hf

/-- The round trip of `url.Values`: for every map, `ParseQuery(v.Encode())` reports no error and
reads under every key the values `v` holds there, in order. -/
theorem parseQuery_encode_get {v : Values} (hv : v.Keyed) :
    (parseQuery v.encode).2 = none ∧ ∀ k, (parseQuery v.encode).1.get k = v.get k := by
  rw [parseQuery_encode_pairs]
  refine ⟨rfl, fun k => ?_⟩
  rw [get_addPairs, get_nil, List.nil_append, Values.pairs, filter_flatMap_pairs,
    filter_sortKeys hv, get_eq_flatMap_filter hv]

end Flux.Http
