/-
`(*Manifests).UpdatePolicies` and `updateAnnotations` (src/service/status.go): a policy update
applied to a manifest by rewriting its text. The new annotations are computed from the parsed
manifest, serialised as a YAML fragment, and put in place of the first block of the text that
`annotationsRE` matches, or after the first match of the metadata pattern when there is none.

`updateAnnotations_eq` says what the rewrite does to every text, and `updateAnnotations_rewritten`
says it of what the patterns match. The pattern looks for a two-space `annotations:` line,
whichever mapping it belongs to; so when another mapping's `annotations:` comes first, that one is
replaced and metadata's stays (`updatePolicies_keeps_metadata_annotation`).

`resource.PolicyPrefix`, `policy.TagPrefix`, `multilineRE` and yaml.v2's `Marshal` are not in
src/; they are parameters.
-/
import FluxProofs.Manifest.Yaml

namespace Flux.Kubernetes

/-- `policy.Update`: `TagAll`, the policies `Add` sets with their values, and those `Remove`
deletes. -/
structure Update where
  tagAll : Text
  add : List (Text × Text)
  remove : List Text
  deriving DecidableEq, Repr

/-- The errors of `updateAnnotations`. -/
inductive UpdateError where
  /-- `errors.Wrap(err, "decoding annotations")` of a `yaml.Unmarshal` error. -/
  | decoding (e : YamlError)
  /-- `errors.New("Could not update resource annotations")` -/
  | noAnnotations
  deriving DecidableEq, Repr

/-- `(?m:\n  annotations:\s*(?:#.*)*(?:\n    .*)*$)` -/
def annotationsRE : Re :=
  .cat (.str "\n  annotations:".toList) <| .cat (.star .space) <|
    .cat (.star (.cat (.chr '#') (.star .dot))) <|
      .cat (.star (.cat (.str "\n    ".toList) (.star .dot))) .eol

/-- A block `annotationsRE` matches starts with a newline and an `annotations:` key indented by
two spaces, whichever mapping that key belongs to, and ends at the end of a line. -/
theorem annotationsRE_spans {c c' : Cursor} (h : annotationsRE.Spans c c') :
    "\n  annotations:".toList <+: c.rest ∧ (c'.rest.head? = none ∨ c'.rest.head? = some '\n') := by
  obtain ⟨c₁, h₁, h₂⟩ := h.cat_inv
  obtain ⟨_, -, h₃⟩ := h₂.cat_inv
  obtain ⟨_, -, h₄⟩ := h₃.cat_inv
  obtain ⟨_, -, h₅⟩ := h₄.cat_inv
  cases h₅ with
  | eol he => exact ⟨(Re.Spans.str_rest _ h₁) ▸ List.prefix_append _ _, he⟩

/-- `regexp.MustCompile("(.+)").ReplaceAllString(fragment, "  $1")`: the group is the whole
match, so each non-empty line gets two spaces in front. -/
def indentLines (fragment : Text) : Text :=
  (replaceAll (.plus .dot) fragment (fun u found => (u, "  ".toList ++ found)) ()).2

/-- `strings.TrimSuffix(s, "\n")` -/
def trimNewline (s : Text) : Text := if s.getLast? = some '\n' then s.dropLast else s

section Update

variable (policyPrefix : Text) (tagPrefix : Text → Text) (marshal : StrMap → Text)
  (metadataRE : Re)

/-- What `TagAll` does to the annotations: for each container, set its tag policy to `TagAll`,
or delete it for `glob:*`. -/
def tagAllAnnotations (tagAll : Text) (containers : List Container) (a : StrMap) : StrMap :=
  if tagAll ≠ [] then
    containers.foldl (fun a c =>
      let p := policyPrefix ++ tagPrefix c.name
      if tagAll ≠ "glob:*".toList then a.set p tagAll else a.delete p) a
  else a

/-- The fragment for the new annotations: `marshal` stands for `yaml.Marshal` of
`{"annotations": newAnnotations}`; the last newline is dropped, each line indented by two
spaces, and a newline put in front. Empty annotations give no fragment. -/
def fragmentOf (newAnnotations : StrMap) : Text :=
  if 0 < newAnnotations.length then
    let fragment := indentLines (trimNewline (marshal newAnnotations))
    if 0 < fragment.length then '\n' :: fragment else fragment
  else []

/-- `updateAnnotations(def, tagAll, f)`; `metadataRE` is `multilineRE` of the metadata
pattern. -/
def updateAnnotations (defText tagAll : Text) (f : StrMap → StrMap) : Except UpdateError Text := do
  let manifest ← (parseManifest defText).mapError .decoding
  let annotations :=
    tagAllAnnotations policyPrefix tagPrefix tagAll manifest.containers
      manifest.metadata.annotationsOrNil
  let fragment := fragmentOf marshal (f annotations)
  let (replaced, newDef) := replaceAll annotationsRE defText (firstOnly fun _ => fragment) false
  let (replaced, newDef) :=
    if replaced then (replaced, newDef)
    else replaceAll metadataRE defText (firstOnly (· ++ fragment)) false
  if replaced then pure newDef else .error .noAnnotations

/-- The function `UpdatePolicies` hands `updateAnnotations`: set the added policies, then delete
the removed ones. -/
def applyUpdate (u : Update) (a : StrMap) : StrMap :=
  u.remove.foldl (fun a p => a.delete (policyPrefix ++ p))
    (u.add.foldl (fun a e => a.set (policyPrefix ++ e.1) e.2) a)

/-- `(*Manifests).UpdatePolicies(in, update)` -/
def updatePolicies (input : Text) (u : Update) : Except UpdateError Text :=
  updateAnnotations policyPrefix tagPrefix marshal metadataRE input u.tagAll
    (applyUpdate policyPrefix u)

/-- The annotations a parsed `in` would have after the update, computed on the parsed map: the
`TagAll` policies, then the policies `Add` sets, then those `Remove` deletes. -/
def expectedAnnotations (m : Manifest) (u : Update) : StrMap :=
  applyUpdate policyPrefix u
    (tagAllAnnotations policyPrefix tagPrefix u.tagAll m.containers m.metadata.annotationsOrNil)

/-! ## What the rewrite does -/

theorem take_append_slice (src : Text) {i j : Nat} (h : i ≤ j) :
    src.take i ++ slice src i j = src.take j := by
  calc src.take i ++ slice src i j = (src.take j).take i ++ (src.take j).drop i := by
        rw [slice, List.take_drop, Nat.add_sub_cancel' h, List.take_take, Nat.min_eq_left h]
    _ = src.take j := List.take_append_drop _ _

/-- For every text: the parse error, or the text with the first block `annotationsRE` matches
replaced by the fragment, or else with the fragment put after the first metadata match, or the
error when neither pattern matches. -/
theorem updateAnnotations_eq (defText tagAll : Text) (f : StrMap → StrMap) :
    updateAnnotations policyPrefix tagPrefix marshal metadataRE defText tagAll f =
      ((parseManifest defText).mapError .decoding >>= fun manifest =>
        let fragment := fragmentOf marshal (f (tagAllAnnotations policyPrefix tagPrefix tagAll
          manifest.containers manifest.metadata.annotationsOrNil))
        match find annotationsRE defText 0 with
        | some (a0, a1) => pure (defText.take a0 ++ fragment ++ defText.drop a1)
        | none =>
          match find metadataRE defText 0 with
          | some (_, a1) => pure (defText.take a1 ++ fragment ++ defText.drop a1)
          | none => .error .noAnnotations) := by
  rw [updateAnnotations]
  cases (parseManifest defText).mapError UpdateError.decoding with
  | error e => rfl
  | ok manifest =>
    simp only [bind, Except.bind]
    rw [replaceAll_first]
    cases ha : find annotationsRE defText 0 with
    | some p => rfl
    | none =>
      dsimp only
      rw [replaceAll_first]
      cases hm : find metadataRE defText 0 with
      | none => rfl
      | some p =>
        obtain ⟨a0, a1⟩ := p
        obtain ⟨-, h1, -⟩ := find_bounds hm
        simp only [Bool.false_eq_true, if_false, if_true]
        rw [← take_append_slice defText h1]
        simp only [List.append_assoc]

/-- The rewrite `updateAnnotations` makes, said of what the patterns match rather than of the
matcher: the leftmost-first match of `annotationsRE`, which starts at a two-space `annotations:`
line and ends where the most preferred match there ends, is replaced by the fragment or, when the
pattern matches nowhere, the fragment is put after the leftmost-first match of the metadata
pattern. -/
def Rewritten (defText fragment out : Text) : Prop :=
  (∃ a0 a1, LeftmostFirst annotationsRE defText 0 a0 a1 ∧
      "\n  annotations:".toList <+: defText.drop a0 ∧
      out = defText.take a0 ++ fragment ++ defText.drop a1) ∨
    (NoSpan annotationsRE defText 0 ∧ ∃ a0 a1, LeftmostFirst metadataRE defText 0 a0 a1 ∧
      out = defText.take a1 ++ fragment ++ defText.drop a1)

/-- What `updateAnnotations` returns is the manifest's text with the fragment for the updated
annotations put in the place `Rewritten` says. -/
theorem updateAnnotations_rewritten (defText tagAll : Text) (f : StrMap → StrMap) (out : Text)
    (h : updateAnnotations policyPrefix tagPrefix marshal metadataRE defText tagAll f = .ok out) :
    ∃ m, parseManifest defText = .ok m ∧
      Rewritten metadataRE defText (fragmentOf marshal (f (tagAllAnnotations policyPrefix tagPrefix
        tagAll m.containers m.metadata.annotationsOrNil))) out := by
  rw [updateAnnotations_eq] at h
  cases hp : parseManifest defText with
  | error e => rw [hp] at h; cases h
  | ok m =>
    rw [hp] at h
    refine ⟨m, rfl, ?_⟩
    cases ha : find annotationsRE defText 0 with
    | some r =>
      rw [ha] at h
      cases h
      have hl := find_first ha
      obtain ⟨_, hs⟩ := hl.1.2.2.2.1
      exact .inl ⟨r.1, r.2, hl, (annotationsRE_spans hs).1, rfl⟩
    | none =>
      rw [ha] at h
      cases hm : find metadataRE defText 0 with
      | none => rw [hm] at h; cases h
      | some r =>
        rw [hm] at h
        cases h
        exact .inr ⟨find_none ha, r.1, r.2, find_first hm, rfl⟩

/-- A text that is one `annotations:` line: the whole of it is the block replaced. -/
theorem updateAnnotations_rewritten_bare :
    updateAnnotations [] (fun _ => []) (fun _ => []) .eps "\n  annotations:\n".toList [] id =
        .ok [] ∧
      ∃ m, parseManifest "\n  annotations:\n".toList = .ok m ∧
        Rewritten .eps "\n  annotations:\n".toList (fragmentOf (fun _ => []) (id (tagAllAnnotations []
          (fun _ => []) [] m.containers m.metadata.annotationsOrNil))) [] :=
  ⟨rfl, updateAnnotations_rewritten [] (fun _ => []) (fun _ => []) .eps _ [] id [] rfl⟩

end Update

/-! ## A manifest whose first `annotations:` block is not metadata's -/

/-- A manifest with an `annotations:` block under `spec`, before the one under `metadata`. -/
def specFirstManifest : Text :=
  ("spec:\n  annotations:\n    note: x\nmetadata:\n  name: helloworld\n  annotations:\n" ++
    "    flux.weave.works/locked: x\n").toList

/-- What `UpdatePolicies` writes for it when the `locked` policy is removed. -/
def specFirstRewritten : Text :=
  "spec:\nmetadata:\n  name: helloworld\n  annotations:\n    flux.weave.works/locked: x\n".toList

/-- What both texts parse to. -/
def specFirstParsed : Manifest :=
  ⟨⟨"helloworld".toList, some [("flux.weave.works/locked".toList, ['x'])]⟩, []⟩

/-- Removing the `locked` policy from `specFirstManifest`: computed on the parsed annotations, no
annotation is left, but the pattern matches spec's block first, so that block is the one replaced
(by an empty fragment), and the rewritten manifest parses to the annotations it had. This holds whatever
`policy.TagPrefix`, `yaml.Marshal` and the metadata pattern are. -/
theorem updatePolicies_keeps_metadata_annotation (tagPrefix : Text → Text)
    (marshal : StrMap → Text) (metadataRE : Re) :
    parseManifest specFirstManifest = .ok specFirstParsed ∧
      expectedAnnotations "flux.weave.works/".toList tagPrefix specFirstParsed
        ⟨[], [], ["locked".toList]⟩ = [] ∧
      updatePolicies "flux.weave.works/".toList tagPrefix marshal metadataRE specFirstManifest
        ⟨[], [], ["locked".toList]⟩ = .ok specFirstRewritten ∧
      parseManifest specFirstRewritten = .ok specFirstParsed := by
  have hp : parseManifest specFirstManifest = .ok specFirstParsed := rfl
  refine ⟨hp, rfl, ?_, rfl⟩
  rw [updatePolicies, updateAnnotations_eq, hp,
    show find annotationsRE specFirstManifest 0 = some (5, 32) by decide]
  rfl

end Flux.Kubernetes
