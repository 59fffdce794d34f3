/-
Go's `regexp` as the manifest rewriting of src/service/status.go uses it: patterns made of
characters, classes, concatenation, greedy stars and the multiline anchors, matched
leftmost-first, and `ReplaceAllStringFunc` with the loop of the standard library.

Leftmost-first is the match a backtracking matcher finds first, trying a star's next iteration
before stopping; that is the match `regexp` reports. The matcher takes fuel; one more than the
length of the text is enough (`matchK_fuel`), and a star stops when an iteration consumes nothing.

`Re.Spans` says what a pattern matches, with no matcher in it. The matcher finds only such
matches (`matchK_sound`) and misses none (`matchK_complete`), so `find` reports the leftmost
position where the pattern matches (`find_some`, `find_none`). Which of the matches there it
reports is fixed by the order of preference of leftmost-first matching: `Re.endsN` lists the ends
of the matches in that order (a star prefers one more iteration that reads a character to
stopping), the matcher returns the first end its continuation accepts (`matchK_eq_findSome`), and
so `find` ends its match at the first of them (`find_first`).

`replaceAll_first` is what `updateAnnotations` relies on: with a function that replaces only the
first match it is handed, `ReplaceAllStringFunc` replaces the leftmost match and nothing else.
-/
import Mathlib.Data.List.Basic

namespace Flux.Kubernetes

/-- A Go `string` of the manifest, as its characters. -/
abbrev Text := List Char

/-- A position of the matcher: whether a line starts there, and the text from there on. -/
structure Cursor where
  bol : Bool
  rest : Text

/-- The text after the character `c`, read at a cursor. -/
def Cursor.next (c : Char) (s : Text) : Cursor := ⟨c = '\n', s⟩

/-- The patterns of `regexp/syntax` the code uses. -/
inductive Re where
  | eps
  | chr (c : Char)
  | cls (p : Char → Bool)
  | cat (a b : Re)
  | star (a : Re)
  /-- `^` in multiline mode -/
  | bol
  /-- `$` in multiline mode -/
  | eol

namespace Re

/-- A literal string. -/
def str : List Char → Re
  | [] => eps
  | c :: s => cat (chr c) (str s)

/-- `.`: any character but a newline. -/
def dot : Re := cls (· != '\n')

/-- `\s`: `[\t\n\f\r ]`. -/
def space : Re := cls fun c => c = '\t' || c = '\n' || c = '\x0C' || c = '\r' || c = ' '

/-- `a+` -/
def plus (a : Re) : Re := cat a (star a)

end Re

/-! ## Matching -/

section Matching

variable {α : Type}

/-- One level of the backtracking matcher: `again` matches a further iteration of a star. The
continuation `k` is handed the cursor after the match; the first success wins. -/
def stepRe (again : Re → Cursor → (Cursor → Option α) → Option α) :
    Re → Cursor → (Cursor → Option α) → Option α
  | .eps, c, k => k c
  | .chr d, ⟨_, x :: s⟩, k => if x = d then k (.next x s) else none
  | .chr _, ⟨_, []⟩, _ => none
  | .cls p, ⟨_, x :: s⟩, k => if p x then k (.next x s) else none
  | .cls _, ⟨_, []⟩, _ => none
  | .cat a b, c, k => stepRe again a c fun c' => stepRe again b c' k
  | .star a, c, k =>
    (stepRe again a c fun c' =>
      if c'.rest.length < c.rest.length then again (.star a) c' k else none) <|> k c
  | .bol, c, k => if c.bol then k c else none
  | .eol, c, k => if c.rest.head? = none ∨ c.rest.head? = some '\n' then k c else none

/-- The matcher with `fuel` levels of star iterations. -/
def matchK : Nat → Re → Cursor → (Cursor → Option α) → Option α
  | 0 => fun _ _ _ => none
  | n + 1 => stepRe (matchK n)

end Matching

/-- Whether a line starts at position `p` of the text. -/
def bolAt (src : Text) (p : Nat) : Bool := p = 0 || src.get? (p - 1) = some '\n'

/-- The end of the leftmost-first match of `re` starting at position `p`, if there is one. -/
def matchAt (re : Re) (src : Text) (p : Nat) : Option Nat :=
  matchK (src.length + 1) re ⟨bolAt src p, src.drop p⟩ fun c => some (src.length - c.rest.length)

/-- The leftmost match at or after position `p`: its start and end. -/
def find (re : Re) (src : Text) (p : Nat) : Option (Nat × Nat) :=
  (List.range' p (src.length + 1 - p)).findSome? fun q => (matchAt re src q).map (q, ·)

/-! ## `ReplaceAllStringFunc` -/

section Replace

variable {σ : Type} (re : Re) (src : Text) (repl : σ → Text → σ × Text)

/-- The text between two positions. -/
def slice (i j : Nat) : Text := (src.drop i).take (j - i)

/-- The loop of `(*Regexp).replaceAll`: find the next match from `searchPos`, copy the text
before it, replace it (but not an empty match right after the previous one), and advance past
it, by at least one character. `repl` carries the state of the Go closure it models. -/
def replaceLoop : Nat → σ → Text → Nat → Nat → σ × Text
  | 0, st, buf, _, lastMatchEnd => (st, buf ++ src.drop lastMatchEnd)
  | n + 1, st, buf, searchPos, lastMatchEnd =>
    if src.length < searchPos then (st, buf ++ src.drop lastMatchEnd)
    else
      match find re src searchPos with
      | none => (st, buf ++ src.drop lastMatchEnd)
      | some (a0, a1) =>
        let buf := buf ++ slice src lastMatchEnd a0
        let (st, buf) :=
          if lastMatchEnd < a1 ∨ a0 = 0 then
            let r := repl st (slice src a0 a1)
            (r.1, buf ++ r.2)
          else (st, buf)
        replaceLoop n st buf (if a1 < searchPos + 1 then searchPos + 1 else a1) a1

/-- `re.ReplaceAllStringFunc(src, repl)` from the closure state `st`. -/
def replaceAll (st : σ) : σ × Text := replaceLoop re src repl (src.length + 2) st [] 0 0

end Replace

/-- The closures of `updateAnnotations`: the first match found is replaced by `g` of it, and
`replaced` is set; later matches are returned as found. -/
def firstOnly (g : Text → Text) (replaced : Bool) (found : Text) : Bool × Text :=
  if !replaced then (true, g found) else (replaced, found)

/-! ## Fuel -/

section Fuel

variable {α : Type}

/-- Two continuations that agree on every cursor no further on than `m` characters from the
end. -/
def AgreeBelow (m : Nat) (k₁ k₂ : Cursor → Option α) : Prop :=
  ∀ c : Cursor, c.rest.length ≤ m → k₁ c = k₂ c

theorem stepRe_fuel (n : Nat)
    (ih : ∀ re c (k₁ k₂ : Cursor → Option α), c.rest.length < n →
      AgreeBelow c.rest.length k₁ k₂ → matchK n re c k₁ = matchK (n + 1) re c k₂) :
    ∀ re c (k₁ k₂ : Cursor → Option α), c.rest.length < n + 1 →
      AgreeBelow c.rest.length k₁ k₂ → stepRe (matchK n) re c k₁ = stepRe (matchK (n + 1)) re c k₂
  | .eps, c, k₁, k₂, _, hk => hk c le_rfl
  | .chr d, ⟨_, []⟩, _, _, _, _ => rfl
  | .chr d, ⟨b, x :: s⟩, k₁, k₂, _, hk => by
    simp only [stepRe]
    split_ifs
    · exact hk _ (by simp [Cursor.next])
    · rfl
  | .cls p, ⟨_, []⟩, _, _, _, _ => rfl
  | .cls p, ⟨b, x :: s⟩, k₁, k₂, _, hk => by
    simp only [stepRe]
    split_ifs
    · exact hk _ (by simp [Cursor.next])
    · rfl
  | .cat a b, c, k₁, k₂, hc, hk => by
    simp only [stepRe]
    refine stepRe_fuel n ih a c _ _ hc fun c' hc' => ?_
    exact stepRe_fuel n ih b c' k₁ k₂ (by omega) fun c'' hc'' => hk c'' (by omega)
  | .star a, c, k₁, k₂, hc, hk => by
    simp only [stepRe]
    rw [stepRe_fuel n ih a c _ _ hc fun c' hc' => ?_, hk c le_rfl]
    split_ifs with h
    · exact ih _ c' k₁ k₂ (by omega) fun c'' hc'' => hk c'' (by omega)
    · rfl
  | .bol, c, k₁, k₂, _, hk => by simp only [stepRe]; split_ifs <;> simp [hk c le_rfl]
  | .eol, c, k₁, k₂, _, hk => by simp only [stepRe]; split_ifs <;> simp [hk c le_rfl]

/-- More fuel than characters left changes nothing: every further star iteration consumes a
character. -/
theorem matchK_fuel : ∀ (n : Nat) re (c : Cursor) (k₁ k₂ : Cursor → Option α),
    c.rest.length < n → AgreeBelow c.rest.length k₁ k₂ → matchK n re c k₁ = matchK (n + 1) re c k₂
  | 0, _, _, _, _, h, _ => absurd h (Nat.not_lt_zero _)
  | n + 1, re, c, k₁, k₂, hc, hk => stepRe_fuel n (matchK_fuel n) re c k₁ k₂ hc hk

theorem matchK_fuel_add (n m : Nat) (re : Re) (c : Cursor) (k : Cursor → Option α)
    (hc : c.rest.length < n) : matchK n re c k = matchK (n + m) re c k := by
  induction m with
  | zero => rfl
  | succ m ih => rw [ih, ← Nat.add_assoc]; exact matchK_fuel _ re c k k (by omega) fun _ _ => rfl

end Fuel

/-! ## What a pattern matches -/

/-- `re.Spans c c'`: the pattern matches the text from cursor `c` up to cursor `c'`. This is the
meaning of the syntax, with no preference among the matches; a star may repeat an empty match. -/
inductive Re.Spans : Re → Cursor → Cursor → Prop
  | eps (c : Cursor) : Re.Spans .eps c c
  | chr (b : Bool) (x : Char) (s : Text) : Re.Spans (.chr x) ⟨b, x :: s⟩ (.next x s)
  | cls {p : Char → Bool} (b : Bool) {x : Char} (s : Text) :
      p x = true → Re.Spans (.cls p) ⟨b, x :: s⟩ (.next x s)
  | cat {a b : Re} {c c₁ c₂ : Cursor} : a.Spans c c₁ → b.Spans c₁ c₂ → (Re.cat a b).Spans c c₂
  | starNil (a : Re) (c : Cursor) : (Re.star a).Spans c c
  | starCons {a : Re} {c c₁ c₂ : Cursor} :
      a.Spans c c₁ → (Re.star a).Spans c₁ c₂ → (Re.star a).Spans c c₂
  | bol {c : Cursor} : c.bol = true → Re.Spans .bol c c
  | eol {c : Cursor} : c.rest.head? = none ∨ c.rest.head? = some '\n' → Re.Spans .eol c c

namespace Re.Spans

variable {re : Re} {c c' : Cursor}

/-- A match reads the text forward: what is left after it is a suffix of what was there. -/
theorem suffix (h : re.Spans c c') : c'.rest <:+ c.rest := by
  induction h with
  | eps | starNil | bol | eol => exact List.suffix_refl _
  | chr _ x s | cls _ s _ => exact List.suffix_cons _ s
  | cat _ _ ih₁ ih₂ | starCons _ _ ih₁ ih₂ => exact ih₂.trans ih₁

/-- A match that reads no character leaves the cursor where it was. -/
theorem eq_of_length (h : re.Spans c c') (hl : c'.rest.length = c.rest.length) : c' = c := by
  induction h with
  | eps | starNil | bol | eol => rfl
  | chr _ x s | cls _ s _ => simp [Cursor.next] at hl
  | cat h₁ h₂ ih₁ ih₂ | starCons h₁ h₂ ih₁ ih₂ =>
    have l₁ := h₁.suffix.length_le
    have l₂ := h₂.suffix.length_le
    obtain rfl := ih₁ (by omega)
    exact ih₂ hl

theorem cat_inv {a b : Re} (h : (Re.cat a b).Spans c c') : ∃ c₁, a.Spans c c₁ ∧ b.Spans c₁ c' := by
  cases h with
  | cat h₁ h₂ => exact ⟨_, h₁, h₂⟩

/-- A literal string matches exactly itself. -/
theorem str_rest : ∀ (s : Text) {c c' : Cursor}, (Re.str s).Spans c c' → c.rest = s ++ c'.rest
  | [], _, _, h => by cases h; rfl
  | x :: s, _, _, h => by
    obtain ⟨c₁, h₁, h₂⟩ := cat_inv h
    cases h₁ with
    | chr b _ t => exact congrArg (x :: ·) (str_rest s h₂)

end Re.Spans

/-! ## The matcher finds matches, and only matches -/

section Matcher

variable {α : Type}

/-- `isSome` of Option's `<|>`. -/
theorem isSome_orElse (x y : Option α) : (x <|> y).isSome = (x.isSome || y.isSome) := by
  cases x <;> rfl

/-- What the matcher hands its continuation is where a match of the pattern ends. -/
theorem stepRe_sound (again : Re → Cursor → (Cursor → Option α) → Option α)
    (hagain : ∀ re c k x, again re c k = some x → ∃ c', re.Spans c c' ∧ k c' = some x) :
    ∀ re c (k : Cursor → Option α) x, stepRe again re c k = some x →
      ∃ c', re.Spans c c' ∧ k c' = some x
  | .eps, c, _, _, h => ⟨c, .eps c, h⟩
  | .chr _, ⟨_, []⟩, _, _, h => nomatch h
  | .chr d, ⟨b, y :: s⟩, k, x, h => by
    simp only [stepRe] at h
    split_ifs at h with hy
    subst hy
    exact ⟨_, .chr b y s, h⟩
  | .cls _, ⟨_, []⟩, _, _, h => nomatch h
  | .cls p, ⟨b, y :: s⟩, k, x, h => by
    simp only [stepRe] at h
    split_ifs at h with hp
    exact ⟨_, .cls b s hp, h⟩
  | .cat a b, c, k, x, h => by
    obtain ⟨c₁, h₁, hb⟩ := stepRe_sound again hagain a c _ x h
    obtain ⟨c₂, h₂, hk⟩ := stepRe_sound again hagain b c₁ k x hb
    exact ⟨c₂, .cat h₁ h₂, hk⟩
  | .star a, c, k, x, h => by
    simp only [stepRe] at h
    cases ha : stepRe again a c fun c' =>
        if c'.rest.length < c.rest.length then again (.star a) c' k else none with
    | none => rw [ha] at h; exact ⟨c, .starNil a c, h⟩
    | some y =>
      rw [ha] at h
      cases h
      obtain ⟨c₁, h₁, hs⟩ := stepRe_sound again hagain a c _ _ ha
      split_ifs at hs
      obtain ⟨c₂, h₂, hk⟩ := hagain _ _ _ _ hs
      exact ⟨c₂, .starCons h₁ h₂, hk⟩
  | .bol, c, k, x, h => by
    simp only [stepRe] at h
    split_ifs at h with hb
    exact ⟨c, .bol hb, h⟩
  | .eol, c, k, x, h => by
    simp only [stepRe] at h
    split_ifs at h with he
    exact ⟨c, .eol he, h⟩

theorem matchK_sound : ∀ (n : Nat) re c (k : Cursor → Option α) x, matchK n re c k = some x →
    ∃ c', re.Spans c c' ∧ k c' = some x
  | 0, _, _, _, _, h => nomatch h
  | n + 1, re, c, k, x, h => stepRe_sound _ (matchK_sound n) re c k x h

/-- Whenever the pattern matches up to a cursor the continuation accepts, the matcher succeeds:
trying a star's next iteration first never loses a match, since an iteration that reads nothing
can be dropped. -/
theorem stepRe_complete (n : Nat)
    (ih : ∀ re c c' (k : Cursor → Option α), c.rest.length < n → re.Spans c c' →
      (k c').isSome → (matchK n re c k).isSome)
    {re : Re} {c c' : Cursor} (h : re.Spans c c') :
    ∀ k : Cursor → Option α, c.rest.length < n + 1 → (k c').isSome →
      (stepRe (matchK n) re c k).isSome := by
  induction h with
  | eps c => exact fun k _ hk => hk
  | chr b x s => exact fun k _ hk => by rw [stepRe, if_pos rfl]; exact hk
  | cls b s hp => exact fun k _ hk => by rw [stepRe, if_pos hp]; exact hk
  | cat h₁ _ ih₁ ih₂ =>
    exact fun k hc hk => ih₁ _ hc (ih₂ k (by have := h₁.suffix.length_le; omega) hk)
  | starNil a c =>
    intro k _ hk
    rw [stepRe, isSome_orElse, hk, Bool.or_true]
  | @starCons a c c₁ c₂ h₁ h₂ ih₁ ih₂ =>
    intro k hc hk
    by_cases hlt : c₁.rest.length < c.rest.length
    · have hk' : (if c₁.rest.length < c.rest.length then matchK n (.star a) c₁ k else none).isSome :=
        by rw [if_pos hlt]; exact ih _ _ _ k (by omega) h₂ hk
      rw [stepRe, isSome_orElse, ih₁ _ hc hk', Bool.true_or]
    · obtain rfl := h₁.eq_of_length (by have := h₁.suffix.length_le; omega)
      exact ih₂ k hc hk
  | bol hb => exact fun k _ hk => by rw [stepRe, if_pos hb]; exact hk
  | eol he => exact fun k _ hk => by rw [stepRe, if_pos he]; exact hk

theorem matchK_complete : ∀ (n : Nat) {re : Re} {c c' : Cursor} (k : Cursor → Option α),
    c.rest.length < n → re.Spans c c' → (k c').isSome → (matchK n re c k).isSome
  | 0, _, _, _, _, hc, _, _ => absurd hc (Nat.not_lt_zero _)
  | n + 1, _, _, _, k, hc, h, hk =>
    stepRe_complete n (fun _ _ _ k hc h hk => matchK_complete n k hc h hk) h k hc hk

end Matcher

/-! ## The order of preference -/

section Preference

variable {α : Type}

/-- One level of the ends of the matches of a pattern, most preferred first: `again` lists those
of a further iteration of a star. A star prefers one more iteration that reads at least one
character, then stopping. -/
def endsStep (again : Re → Cursor → List Cursor) : Re → Cursor → List Cursor
  | .eps, c => [c]
  | .chr d, ⟨_, x :: s⟩ => if x = d then [.next x s] else []
  | .chr _, ⟨_, []⟩ => []
  | .cls p, ⟨_, x :: s⟩ => if p x then [.next x s] else []
  | .cls _, ⟨_, []⟩ => []
  | .cat a b, c => (endsStep again a c).flatMap (endsStep again b)
  | .star a, c =>
    ((endsStep again a c).flatMap fun c' =>
      if c'.rest.length < c.rest.length then again (.star a) c' else []) ++ [c]
  | .bol, c => if c.bol then [c] else []
  | .eol, c => if c.rest.head? = none ∨ c.rest.head? = some '\n' then [c] else []

/-- The ends of the matches of `re` from `c`, most preferred first, with `n` levels of star
iterations. -/
def Re.endsN : Nat → Re → Cursor → List Cursor
  | 0 => fun _ _ => []
  | n + 1 => endsStep (Re.endsN n)

/-- Where the leftmost-first match of `re` from `c` ends: the most preferred end, with one more
level of star iterations than there are characters left. -/
def Re.firstEnd (re : Re) (c : Cursor) : Option Cursor := (re.endsN (c.rest.length + 1) c).head?

theorem findSome?_flatMap {β : Type} (f : Cursor → List Cursor) (k : Cursor → Option β) :
    ∀ l : List Cursor, (l.flatMap f).findSome? k = l.findSome? fun c => (f c).findSome? k
  | [] => rfl
  | c :: l => by
    rw [List.flatMap_cons, List.findSome?_append, findSome?_flatMap f k l, List.findSome?_cons]
    cases (f c).findSome? k <;> rfl

theorem findSome?_singleton {β : Type} (k : Cursor → Option β) (c : Cursor) :
    [c].findSome? k = k c := by
  rw [List.findSome?_cons]
  cases k c <;> rfl

theorem findSome?_ite {β : Type} (P : Prop) [Decidable P] (c : Cursor) (k : Cursor → Option β) :
    (if P then [c] else []).findSome? k = if P then k c else none := by
  split_ifs <;> simp only [findSome?_singleton, List.findSome?_nil]

theorem findSome?_some {β : Type} (f : Cursor → β) :
    ∀ l : List Cursor, l.findSome? (fun c => some (f c)) = l.head?.map f
  | [] | _ :: _ => rfl

theorem findSome?_eq_head? : ∀ l : List Cursor, l.findSome? some = l.head?
  | [] | _ :: _ => rfl

/-- The matcher is the first success over the ends in order of preference: it hands its
continuation one end after another, and stops at the first it accepts. -/
theorem stepRe_eq_findSome (again : Re → Cursor → (Cursor → Option α) → Option α)
    (again' : Re → Cursor → List Cursor)
    (h : ∀ re c k, again re c k = (again' re c).findSome? k) :
    ∀ re c (k : Cursor → Option α), stepRe again re c k = (endsStep again' re c).findSome? k
  | .eps, c, k => (findSome?_singleton k c).symm
  | .chr _, ⟨_, []⟩, _ | .cls _, ⟨_, []⟩, _ => rfl
  | .chr _, ⟨_, _ :: _⟩, k | .cls _, ⟨_, _ :: _⟩, k | .bol, _, k | .eol, _, k =>
    (findSome?_ite _ _ k).symm
  | .cat a b, c, k => by
    simp only [stepRe, endsStep, findSome?_flatMap]
    rw [stepRe_eq_findSome again again' h a c]
    simp only [stepRe_eq_findSome again again' h b]
  | .star a, c, k => by
    simp only [stepRe, endsStep, List.findSome?_append, findSome?_flatMap, findSome?_singleton]
    rw [stepRe_eq_findSome again again' h a c]
    have hiter : ∀ c' : Cursor, (if c'.rest.length < c.rest.length then again (.star a) c' k
        else none) = (if c'.rest.length < c.rest.length then again' (.star a) c' else []).findSome? k :=
      fun c' => by split_ifs <;> simp [h]
    simp only [hiter]
    cases (endsStep again' a c).findSome? _ <;> rfl

theorem matchK_eq_findSome : ∀ (n : Nat) re c (k : Cursor → Option α),
    matchK n re c k = (re.endsN n c).findSome? k
  | 0, _, _, _ => rfl
  | n + 1, re, c, k => stepRe_eq_findSome _ _ (matchK_eq_findSome n) re c k

/-- The most preferred end is the end of a match. -/
theorem firstEnd_spans {re : Re} {c c' : Cursor} (h : re.firstEnd c = some c') : re.Spans c c' := by
  have hm : matchK (c.rest.length + 1) re c some = some c' := by
    rw [matchK_eq_findSome, findSome?_eq_head?]
    exact h
  obtain ⟨_, hs, hk⟩ := matchK_sound _ _ _ _ _ hm
  cases hk
  exact hs

end Preference

/-! ## The leftmost match -/

/-- The cursor at position `q` of the text, where `matchAt` starts. -/
def cursorAt (src : Text) (q : Nat) : Cursor := ⟨bolAt src q, src.drop q⟩

/-- `re` matches from `a0` to `a1`, and nowhere from a position between `p` and `a0`. -/
def LeftmostSpan (re : Re) (src : Text) (p a0 a1 : Nat) : Prop :=
  p ≤ a0 ∧ a0 ≤ a1 ∧ a1 ≤ src.length ∧ (∃ b, re.Spans (cursorAt src a0) ⟨b, src.drop a1⟩) ∧
    ∀ q, p ≤ q → q < a0 → ∀ c, ¬ re.Spans (cursorAt src q) c

/-- The leftmost-first match from position `p`: the leftmost match starts at `a0`, and the most
preferred match there ends at `a1`. -/
def LeftmostFirst (re : Re) (src : Text) (p a0 a1 : Nat) : Prop :=
  LeftmostSpan re src p a0 a1 ∧ ∃ c, re.firstEnd (cursorAt src a0) = some c ∧ c.rest = src.drop a1

/-- `re` matches from no position of the text from `p` on. -/
def NoSpan (re : Re) (src : Text) (p : Nat) : Prop :=
  ∀ q, p ≤ q → q ≤ src.length → ∀ c, ¬ re.Spans (cursorAt src q) c

section Find

variable {re : Re} {src : Text}

theorem matchAt_sound {q a1 : Nat} (hq : q ≤ src.length) (h : matchAt re src q = some a1) :
    q ≤ a1 ∧ a1 ≤ src.length ∧ ∃ b, re.Spans (cursorAt src q) ⟨b, src.drop a1⟩ := by
  obtain ⟨c', hs, hk⟩ := matchK_sound _ _ _ _ _ h
  cases hk
  obtain ⟨u, hu⟩ := hs.suffix.trans (List.drop_suffix q src)
  have hl := hs.suffix.length_le
  simp only [List.length_drop] at hl
  have hrest : src.drop (src.length - c'.rest.length) = c'.rest := by
    rw [← hu, List.length_append, Nat.add_sub_cancel, List.drop_left]
  exact ⟨by omega, by omega, c'.bol, by rw [hrest]; exact hs⟩

theorem matchAt_complete {q : Nat} {c : Cursor} (h : re.Spans (cursorAt src q) c) :
    (matchAt re src q).isSome :=
  matchK_complete _ _ (by simp only [cursorAt, List.length_drop]; omega) h rfl

/-- The first position of `range' p n` where `f` gives a value. -/
theorem findSome?_range' {β : Type} {f : Nat → Option β} {b : β} :
    ∀ {p n : Nat}, (List.range' p n).findSome? f = some b →
      ∃ q, p ≤ q ∧ q < p + n ∧ f q = some b ∧ ∀ r, p ≤ r → r < q → f r = none
  | _, 0, h => nomatch h
  | p, n + 1, h => by
    rw [List.range'_succ, List.findSome?_cons] at h
    cases hp : f p with
    | some b' =>
      rw [hp] at h
      cases h
      exact ⟨p, le_rfl, by omega, hp, fun r h₁ h₂ => absurd h₂ (by omega)⟩
    | none =>
      rw [hp] at h
      obtain ⟨q, h₁, h₂, hq, hr⟩ := findSome?_range' h
      refine ⟨q, by omega, by omega, hq, fun r hr₁ hr₂ => ?_⟩
      by_cases hrp : r = p
      · exact hrp ▸ hp
      · exact hr r (by omega) hr₂

/-- `find` reports the leftmost match: the first position from `p` on where the pattern matches,
with the end of a match there. -/
theorem find_some {p a0 a1 : Nat} (h : find re src p = some (a0, a1)) :
    LeftmostSpan re src p a0 a1 := by
  obtain ⟨q, hpq, hq, hm, hbefore⟩ := findSome?_range' h
  obtain ⟨e, he, hqe⟩ := Option.map_eq_some'.mp hm
  cases hqe
  obtain ⟨h₀, h₁, hs⟩ := matchAt_sound (by omega) he
  refine ⟨hpq, h₀, h₁, hs, fun r hr₁ hr₂ c hc => ?_⟩
  have hnone := hbefore r hr₁ hr₂
  rw [Option.map_eq_none', ← Option.not_isSome_iff_eq_none] at hnone
  exact hnone (matchAt_complete hc)

/-- `find` finds nothing only where the pattern matches nowhere. -/
theorem find_none {p : Nat} (h : find re src p = none) : NoSpan re src p := by
  intro q hpq hq c hc
  have hnone := List.findSome?_eq_none_iff.mp h q (List.mem_range'_1.mpr ⟨hpq, by omega⟩)
  rw [Option.map_eq_none', ← Option.not_isSome_iff_eq_none] at hnone
  exact hnone (matchAt_complete hc)

/-- A match found from `p` starts at `p` or later, and ends after its start and within the text. -/
theorem find_bounds {p a0 a1 : Nat} (h : find re src p = some (a0, a1)) :
    p ≤ a0 ∧ a0 ≤ a1 ∧ a1 ≤ src.length :=
  let ⟨h₀, h₁, h₂, _⟩ := find_some h
  ⟨h₀, h₁, h₂⟩

/-- From a position of the text, `matchAt` ends where the most preferred match ends. -/
theorem matchAt_eq_firstEnd {q : Nat} (hq : q ≤ src.length) :
    matchAt re src q = (re.firstEnd (cursorAt src q)).map fun c => src.length - c.rest.length := by
  have hl : (cursorAt src q).rest.length = src.length - q := List.length_drop q src
  show matchK (src.length + 1) re (cursorAt src q) _ = _
  rw [show src.length + 1 = (src.length - q + 1) + q by omega,
    ← matchK_fuel_add _ _ _ (cursorAt src q) _ (by rw [hl]; omega), matchK_eq_findSome,
    findSome?_some, Re.firstEnd, hl]

/-- `find` reports the leftmost-first match: the leftmost match, ended where the most preferred
match there ends. -/
theorem find_first {p a0 a1 : Nat} (h : find re src p = some (a0, a1)) :
    LeftmostFirst re src p a0 a1 := by
  refine ⟨find_some h, ?_⟩
  obtain ⟨q, hpq, hq, hm, -⟩ := findSome?_range' h
  obtain ⟨e, he, hqe⟩ := Option.map_eq_some'.mp hm
  cases hqe
  rw [matchAt_eq_firstEnd (by omega)] at he
  obtain ⟨c, hc, rfl⟩ := Option.map_eq_some'.mp he
  obtain ⟨u, hu⟩ := (firstEnd_spans hc).suffix.trans (List.drop_suffix a0 src)
  exact ⟨c, hc, by rw [← hu, List.length_append, Nat.add_sub_cancel, List.drop_left]⟩

end Find

/-! ## Replacing the first match -/

section First

variable (re : Re) (src : Text)

theorem slice_append_drop {i j : Nat} (h : i ≤ j) : slice src i j ++ src.drop j = src.drop i := by
  rw [slice, show j = i + (j - i) by omega, ← List.drop_drop, Nat.add_sub_cancel_left,
    List.take_append_drop]

/-- Once the closure has replaced its match, the loop copies the rest of the text. -/
theorem replaceLoop_replaced (g : Text → Text) :
    ∀ n buf searchPos lastMatchEnd, lastMatchEnd ≤ searchPos →
      replaceLoop re src (firstOnly g) n true buf searchPos lastMatchEnd =
        (true, buf ++ src.drop lastMatchEnd)
  | 0, _, _, _, _ => rfl
  | n + 1, buf, searchPos, last, hl => by
    rw [replaceLoop]
    split_ifs with hs
    · rfl
    split
    · rfl
    · next a0 a1 hf =>
      obtain ⟨h0, h1, -⟩ := find_bounds hf
      have hnext : a1 ≤ (if a1 < searchPos + 1 then searchPos + 1 else a1) := by split_ifs <;> omega
      generalize (if a1 < searchPos + 1 then searchPos + 1 else a1) = next at hnext ⊢
      by_cases hr : last < a1 ∨ a0 = 0
      · simp only [if_pos hr, firstOnly, Bool.not_true, Bool.false_eq_true, if_false]
        rw [replaceLoop_replaced g n _ _ _ hnext, List.append_assoc, List.append_assoc,
          slice_append_drop src h1, slice_append_drop src (by omega)]
      · simp only [if_neg hr]
        rw [replaceLoop_replaced g n _ _ _ hnext]
        have : a0 = last ∧ a1 = last := by omega
        rw [this.1, this.2, slice, Nat.sub_self, List.take_zero, List.append_nil]

/-- `ReplaceAllStringFunc` with a closure that replaces only the first match it is handed
replaces the leftmost match of the text, and leaves the rest as it was. -/
theorem replaceAll_first (g : Text → Text) :
    replaceAll re src (firstOnly g) false =
      match find re src 0 with
      | none => (false, src)
      | some (a0, a1) => (true, src.take a0 ++ g (slice src a0 a1) ++ src.drop a1) := by
  rw [replaceAll, replaceLoop, if_neg (Nat.not_lt_zero _)]
  split
  · rfl
  · next a0 a1 hf =>
    obtain ⟨-, h1, -⟩ := find_bounds hf
    have hnext : a1 ≤ (if a1 < 0 + 1 then 0 + 1 else a1) := by split_ifs <;> omega
    generalize (if a1 < 0 + 1 then 0 + 1 else a1) = next at hnext ⊢
    simp only [if_pos (show 0 < a1 ∨ a0 = 0 by omega), firstOnly, Bool.not_false, if_true]
    rw [replaceLoop_replaced re src g _ _ _ _ hnext]
    simp [slice]

end First

end Flux.Kubernetes
