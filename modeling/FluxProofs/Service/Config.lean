/-
The instance configuration and its patching (src/service/config.go): `UnsafeInstanceConfig` as
`json.Marshal` writes it and `json.Unmarshal` fills it, `toUntypedConfig`,
`toUnsafeInstanceConfig`, `applyPatch` and `Patch`, over the `encoding/json` model of
`FluxProofs.Json`. The comparison with JSON Merge Patch follows RFC 7386 (`mergePatch`).

Through the untyped form every string field comes back coerced to valid UTF-8
(`untyped_round_trip`). `applyPatch` is the merge patch except where the patch puts an object
over a value that is neither an object nor null: there its type switch leaves the value as it
is (`patch_eq_mergePatch`, `patch_object_over_string`).
-/
import FluxProofs.Json.Value

namespace Flux.Service

open Flux.Json

/-! ## The configuration -/

/-- `NotifierConfig` -/
structure NotifierConfig where
  hookURL : List Nat
  username : List Nat
  releaseTemplate : List Nat
  deriving DecidableEq, Repr

/-- `UnsafeInstanceConfig`, an `InstanceConfig` marshalled with no `MarshalJSON` method. -/
structure UnsafeInstanceConfig where
  slack : NotifierConfig
  deriving DecidableEq, Repr

/-- The zero value `UnsafeInstanceConfig{}`. -/
def zeroConfig : UnsafeInstanceConfig := ⟨⟨[], [], []⟩⟩

/-- The bytes of an ASCII field tag. -/
def tag (s : String) : List Nat := s.toList.map Char.toNat

/-- The JSON form `json.Marshal(uic)` writes, as `json.Unmarshal` reads it into an
`untypedConfig`: the fields under their tags, in declaration order. -/
def jsonForm (uic : UnsafeInstanceConfig) : Members :=
  [(tag "slack", .obj [(tag "hookURL", .str (coerce uic.slack.hookURL)),
    (tag "username", .str (coerce uic.slack.username)),
    (tag "releaseTemplate", .str (coerce uic.slack.releaseTemplate))])]

/-- `json.Marshal(uic)`: the struct encoder writes each field under its tag, in order. -/
def marshalConfig (uic : UnsafeInstanceConfig) : List Nat :=
  writeObject [(tag "slack", writeObject [(tag "hookURL", encodeString uic.slack.hookURL),
    (tag "username", encodeString uic.slack.username),
    (tag "releaseTemplate", encodeString uic.slack.releaseTemplate)])]

/-! ## `json.Unmarshal` into the configuration -/

/-- `UnmarshalTypeError`: the JSON kind found and the Go type it cannot be stored in. -/
structure UnmarshalTypeError where
  value : String
  type : String
  deriving DecidableEq, Repr

/-- `(*UnmarshalTypeError).Error` -/
def UnmarshalTypeError.error (e : UnmarshalTypeError) : String :=
  "json: cannot unmarshal " ++ e.value ++ " into Go value of type " ++ e.type

/-- What `json.Unmarshal` returns: a `*SyntaxError` for a malformed document (its text is not
modelled) or a type error. -/
inductive DecodeError where
  | malformed
  | type (e : UnmarshalTypeError)
  deriving DecidableEq, Repr

/-- `equalFoldRight`, the case folding `foldFunc` picks for a tag holding `s` or `k`: an ASCII
letter matches either case, `s` also matches U+017F and `k` U+212A. -/
def equalFoldRight : List Nat → List Nat → Bool
  | [], t => t.isEmpty
  | _ :: _, [] => false
  | sb :: s, tb :: t =>
    if tb < 0x80 then
      (sb == tb || (0x41 ≤ sb &&& 0xDF && sb &&& 0xDF ≤ 0x5A && sb &&& 0xDF == tb &&& 0xDF)) &&
        equalFoldRight s t
    else
      (if sb = 0x73 ∨ sb = 0x53 then (decodeRune (tb :: t)).1 == 0x17F
       else if sb = 0x6B ∨ sb = 0x4B then (decodeRune (tb :: t)).1 == 0x212A
       else false) &&
        equalFoldRight s ((tb :: t).drop (decodeRune (tb :: t)).2)

/-- The field a key names in `d.object`: the first whose tag equals it, else the first whose tag
folds to it. -/
def fieldFor (tags : List (List Nat)) (key : List Nat) : Option Nat :=
  match tags.findIdx? (· == key) with
  | some i => some i
  | none => tags.findIdx? (equalFoldRight · key)

/-- `d.value` into a struct held in `x` (`d.object` for an object): each member whose key names
a field is stored into that field by `field`, any other member is skipped; `null` leaves the
struct as it is and any other value is a type error. -/
def decodeStruct {σ : Type} (type : String) (tags : List (List Nat))
    (field : Nat → σ → JVal → Except UnmarshalTypeError σ) (x : σ) :
    JVal → Except UnmarshalTypeError σ
  | .obj ms => ms.foldlM (fun x m => match fieldFor tags m.1 with
      | some i => field i x m.2
      | none => pure x) x
  | .null => pure x
  | v => .error ⟨v.kind, type⟩

/-- `d.value` into a `string` field holding `s`: a string replaces it, `null` leaves it. -/
def decodeString (s : List Nat) : JVal → Except UnmarshalTypeError (List Nat)
  | .str t => pure t
  | .null => pure s
  | v => .error ⟨v.kind, "string"⟩

/-- `d.value` into a `NotifierConfig`. -/
def decodeNotifier (n : NotifierConfig) (v : JVal) : Except UnmarshalTypeError NotifierConfig :=
  decodeStruct "service.NotifierConfig" [tag "hookURL", tag "username", tag "releaseTemplate"]
    (fun i n v => match i with
      | 0 => return { n with hookURL := ← decodeString n.hookURL v }
      | 1 => return { n with username := ← decodeString n.username v }
      | _ => return { n with releaseTemplate := ← decodeString n.releaseTemplate v }) n v

/-- `d.value` into an `UnsafeInstanceConfig`. -/
def decodeConfig (uic : UnsafeInstanceConfig) (v : JVal) :
    Except UnmarshalTypeError UnsafeInstanceConfig :=
  decodeStruct "service.UnsafeInstanceConfig" [tag "slack"]
    (fun _ uic v => return { uic with slack := ← decodeNotifier uic.slack v }) uic v

/-- `json.Unmarshal(bytes, &uic)` into a fresh `var uic UnsafeInstanceConfig`. -/
def unmarshalConfig (bs : List Nat) : Except DecodeError UnsafeInstanceConfig :=
  match parse bs with
  | none => .error .malformed
  | some v => (decodeConfig zeroConfig v).mapError .type

/-- `json.Unmarshal(bytes, &uc)` into a fresh `var uc untypedConfig`: an object becomes the map;
`null` leaves the map nil, which reads as empty. -/
def unmarshalUntyped (bs : List Nat) : Except DecodeError Members :=
  match parse bs with
  | none => .error .malformed
  | some (.obj ms) => pure (JVal.toGo.toGoMembers [] ms)
  | some .null => pure []
  | some v => .error (.type ⟨v.kind, "service.untypedConfig"⟩)

/-! ## `toUntypedConfig`, `toUnsafeInstanceConfig`, `applyPatch` and `Patch` -/

/-- `uic.toUntypedConfig()`: `json.Marshal` of a struct of strings cannot fail. -/
def toUntypedConfig (uic : UnsafeInstanceConfig) : Except DecodeError Members :=
  unmarshalUntyped (marshalConfig uic)

/-- `uc.toUnsafeInstanceConfig()`: `json.Marshal` of decoded values cannot fail. -/
def toUnsafeInstanceConfig (uc : Members) : Except DecodeError UnsafeInstanceConfig :=
  unmarshalConfig (marshal (.obj uc))

/-- Whether `uc[key] == nil`: the key is absent or holds `null`. -/
def isNil : Option JVal → Bool
  | none | some .null => true
  | _ => false

mutual
/-- The body of `applyPatch`'s loop for one member of the patch: `nil` deletes the key; a map is
applied to the map under the key, a new one when the key holds `nil`, and to nothing when it
holds anything else; any other value replaces the key's. -/
def patchMember (key : List Nat) (uc : Members) : JVal → Members
  | .null => mapDelete key uc
  | .obj p =>
    let uc := if isNil (mapGet key uc) then mapSet key (.obj []) uc else uc
    match mapGet key uc with
    | some (.obj m) => mapSet key (.obj (applyPatch m p)) uc
    | _ => uc
  | value => mapSet key value uc
/-- `applyPatch(uc, cp)`, the members of `cp` in the order the loop meets them. -/
def applyPatch (uc : Members) : Members → Members
  | [] => uc
  | (key, value) :: cp => applyPatch (patchMember key uc value) cp
end

/-- `uic.Patch(cp)` -/
def Patch (uic : UnsafeInstanceConfig) (cp : Members) : Except DecodeError UnsafeInstanceConfig :=
  do
  let uc ← toUntypedConfig uic
  toUnsafeInstanceConfig (applyPatch uc cp)

/-- `InstanceConfig.MarshalJSON`: `json.Marshal(c.HideSecrets())`, where `HideSecrets` is the
conversion `SafeInstanceConfig(c)`, which keeps every field. -/
def marshalInstanceConfig (c : UnsafeInstanceConfig) : List Nat := marshalConfig c

/-! ## JSON Merge Patch -/

mutual
/-- RFC 7386 `MergePatch(Target, Patch)`, a map's members updated as `m[k] = v` and `delete`
update them; an absent `Target[Name]` is passed as `null`. -/
def mergePatch (target : JVal) : JVal → JVal
  | .obj p => .obj (mergeMembers (match target with | .obj t => t | _ => []) p)
  | patch => patch
/-- The loop of `MergePatch` over the patch's members: `null` removes the name, any other value is
merged into the target's value under it. -/
def mergeMembers (t : Members) : Members → Members
  | [] => t
  | (name, .null) :: p => mergeMembers (mapDelete name t) p
  | (name, value) :: p => mergeMembers (mapSet name (mergePatch ((mapGet name t).getD .null) value) t) p
end

/-- JSON Merge Patch semantics for `Patch`: the RFC 7386 merge of `cp` onto the JSON form of `uic`,
decoded as an `UnsafeInstanceConfig`. -/
def mergePatchDecoded (uic : UnsafeInstanceConfig) (cp : Members) :
    Except DecodeError UnsafeInstanceConfig :=
  unmarshalConfig (marshal (mergePatch (.obj (jsonForm uic)) (.obj cp)))

mutual
/-- Whether a patch member puts an object over a value of `uc` that is neither a map nor `nil`,
at any depth. -/
def memberConflicts (key : List Nat) (uc : Members) : JVal → Bool
  | .obj p =>
    match mapGet key uc with
    | some (.obj m) => conflicts m p
    | some .null | none => conflicts [] p
    | some _ => true
  | _ => false
/-- Whether `applyPatch(uc, cp)` meets an object over a value that is neither a map nor `nil`. -/
def conflicts (uc : Members) : Members → Bool
  | [] => false
  | (key, value) :: cp => memberConflicts key uc value || conflicts (patchMember key uc value) cp
end

/-! ## Through the untyped form -/

@[simp] theorem applyPatch_nil (uc : Members) : applyPatch uc [] = uc := by
  rw [applyPatch]

theorem parse_marshalConfig (uic : UnsafeInstanceConfig) :
    parse (marshalConfig uic) = some (.obj [(coerce (tag "slack"), .obj
      [(coerce (tag "hookURL"), .str (coerce uic.slack.hookURL)),
       (coerce (tag "username"), .str (coerce uic.slack.username)),
       (coerce (tag "releaseTemplate"), .str (coerce uic.slack.releaseTemplate))])]) := by
  refine parse_of_readsAs (readsAs_writeObject [(_, _, _)] ?_)
  simp only [List.mem_singleton, forall_eq]
  refine readsAs_writeObject [(_, _, _), (_, _, _), (_, _, _)] ?_
  simp only [List.mem_cons, List.mem_singleton, forall_eq_or_imp, forall_eq, List.not_mem_nil,
    or_false]
  exact ⟨readsAs_encodeString uic.slack.hookURL, readsAs_encodeString uic.slack.username,
    readsAs_encodeString uic.slack.releaseTemplate⟩

theorem toUntypedConfig_eq (uic : UnsafeInstanceConfig) :
    toUntypedConfig uic = .ok (jsonForm uic) := by
  simp only [toUntypedConfig, unmarshalUntyped, parse_marshalConfig]
  rfl

/-- The configuration with each string field as `encoding/json` keeps it. -/
def UnsafeInstanceConfig.coerce (uic : UnsafeInstanceConfig) : UnsafeInstanceConfig :=
  ⟨⟨Json.coerce uic.slack.hookURL, Json.coerce uic.slack.username,
    Json.coerce uic.slack.releaseTemplate⟩⟩

/-- Every string field is valid UTF-8. -/
def UnsafeInstanceConfig.Valid (uic : UnsafeInstanceConfig) : Prop :=
  Json.Valid uic.slack.hookURL ∧ Json.Valid uic.slack.username ∧
    Json.Valid uic.slack.releaseTemplate

theorem UnsafeInstanceConfig.coerce_of_valid {uic : UnsafeInstanceConfig} (h : uic.Valid) :
    uic.coerce = uic := by
  obtain ⟨⟨a, b, c⟩⟩ := uic
  simp only [UnsafeInstanceConfig.coerce, Json.coerce_of_valid h.1, Json.coerce_of_valid h.2.1,
    Json.coerce_of_valid h.2.2]

theorem doc_jsonForm (uic : UnsafeInstanceConfig) : (JVal.obj (jsonForm uic)).doc =
    .obj [(tag "slack", .obj [(tag "hookURL", .str (coerce uic.slack.hookURL)),
      (tag "releaseTemplate", .str (coerce uic.slack.releaseTemplate)),
      (tag "username", .str (coerce uic.slack.username))])] := by
  simp only [jsonForm, JVal.doc, docMembers_eq, List.map, coerce_coerce]
  rfl

theorem toUnsafeInstanceConfig_jsonForm (uic : UnsafeInstanceConfig) :
    toUnsafeInstanceConfig (jsonForm uic) = .ok uic.coerce := by
  simp only [toUnsafeInstanceConfig, unmarshalConfig, parse_marshal, doc_jsonForm]
  rfl

/-- Through the untyped form and back, a configuration comes back with each string field coerced
to valid UTF-8, and unchanged when its fields are valid UTF-8; so does an empty patch. -/
theorem untyped_round_trip (uic : UnsafeInstanceConfig) :
    toUntypedConfig uic = .ok (jsonForm uic) ∧
      toUnsafeInstanceConfig (jsonForm uic) = .ok uic.coerce ∧
      Patch uic [] = .ok uic.coerce ∧ (uic.Valid → uic.coerce = uic) := by
  refine ⟨toUntypedConfig_eq uic, toUnsafeInstanceConfig_jsonForm uic, ?_,
    UnsafeInstanceConfig.coerce_of_valid⟩
  rw [Patch, toUntypedConfig_eq]
  exact (pure_bind _ _).trans (by rw [applyPatch_nil]; exact toUnsafeInstanceConfig_jsonForm uic)

/-- A configuration with ASCII fields. -/
def sampleConfig : UnsafeInstanceConfig := ⟨⟨tag "hook", tag "flux", tag "release"⟩⟩

theorem untyped_round_trip_sample : sampleConfig.Valid ∧ sampleConfig.coerce = sampleConfig :=
  have h : sampleConfig.Valid := ⟨by decide, by decide, by decide⟩
  ⟨h, (untyped_round_trip sampleConfig).2.2.2 h⟩

/-- A configuration whose hook URL is the byte `0xFF`, which starts no valid UTF-8 sequence. -/
def invalidConfig : UnsafeInstanceConfig := ⟨⟨[0xFF], tag "flux", tag "release"⟩⟩

theorem untyped_round_trip_invalid :
    (toUntypedConfig invalidConfig >>= toUnsafeInstanceConfig) =
        .ok ⟨⟨[0xEF, 0xBF, 0xBD], tag "flux", tag "release"⟩⟩ ∧
      Patch invalidConfig [] ≠ .ok invalidConfig := by
  refine ⟨rfl, fun h => ?_⟩
  have : Patch invalidConfig [] = .ok ⟨⟨[0xEF, 0xBF, 0xBD], tag "flux", tag "release"⟩⟩ := rfl
  rw [this] at h
  cases h

/-! ## `Patch` against the merge patch -/

theorem mergeMembers_cons (t : Members) (m : List Nat × JVal) (p : Members) :
    mergeMembers t (m :: p) = mergeMembers (mergeMembers t [m]) p := by
  obtain ⟨k, v⟩ := m
  cases v <;> rfl

mutual
/-- One member of the patch meeting no object over a non-map: `applyPatch` does what the merge
patch does. -/
theorem patchMember_eq_merge (key : List Nat) (uc : Members) :
    ∀ v, memberConflicts key uc v = false → mergeMembers uc [(key, v)] = patchMember key uc v
  | .null, _ => rfl
  | .bool _, _ => rfl
  | .num _, _ => rfl
  | .str _, _ => rfl
  | .arr _, _ => rfl
  | .obj p, h => by
    simp only [memberConflicts] at h
    simp only [mergeMembers, patchMember]
    cases hg : mapGet key uc with
    | none =>
      simp only [hg] at h
      simp only [isNil, if_true, mapGet_mapSet_self, mapSet_mapSet, Option.getD_none, mergePatch,
        applyPatch_eq_merge [] p h]
    | some w =>
      cases w with
      | null =>
        simp only [hg] at h
        simp only [isNil, if_true, mapGet_mapSet_self, mapSet_mapSet, Option.getD_some, mergePatch,
          applyPatch_eq_merge [] p h]
      | obj m =>
        simp only [hg] at h
        simp only [isNil, Bool.false_eq_true, if_false, hg, Option.getD_some, mergePatch,
          applyPatch_eq_merge m p h]
      | _ => simp [hg] at h
/-- A patch meeting no object over a non-map: `applyPatch` is the merge patch's loop. -/
theorem applyPatch_eq_merge (uc : Members) :
    ∀ cp, conflicts uc cp = false → mergeMembers uc cp = applyPatch uc cp
  | [], _ => rfl
  | (key, v) :: cp, h => by
    simp only [conflicts, Bool.or_eq_false_iff] at h
    rw [applyPatch, ← applyPatch_eq_merge _ cp h.2, ← patchMember_eq_merge key uc v h.1,
      mergeMembers_cons]
end


/-- A patch that puts no object over a value that is neither an object nor null: `Patch` returns
what decoding the RFC 7386 merge of the patch onto the configuration's JSON form returns, the
same configuration or the same error. -/
theorem patch_eq_mergePatch (uic : UnsafeInstanceConfig) (cp : Members)
    (h : conflicts (jsonForm uic) cp = false) : Patch uic cp = mergePatchDecoded uic cp := by
  rw [Patch, toUntypedConfig_eq]
  refine (pure_bind _ _).trans ?_
  rw [← applyPatch_eq_merge _ cp h]
  rfl

/-- A patch setting the hook URL to a string. -/
def hookPatch : Members := [(tag "slack", .obj [(tag "hookURL", .str (tag "new"))])]

theorem patch_eq_mergePatch_hook : conflicts (jsonForm sampleConfig) hookPatch = false ∧
    Patch sampleConfig hookPatch = mergePatchDecoded sampleConfig hookPatch :=
  ⟨rfl, patch_eq_mergePatch sampleConfig hookPatch rfl⟩

/-- A patch putting an object under the hook URL, a string. -/
def objectOverString : Members :=
  [(tag "slack", .obj [(tag "hookURL", .obj [(tag "x", .str (tag "y"))])])]

theorem patch_ignores_object_over_string :
    Patch sampleConfig objectOverString = .ok sampleConfig ∧
      mergePatchDecoded sampleConfig objectOverString = .error (.type ⟨"object", "string"⟩) :=
  ⟨rfl, rfl⟩

/-- Whatever object a patch puts under the hook URL, `Patch` leaves the configuration as it is
(but for the coercion of its strings) and reports no error, where the merge patch does not
decode. -/
theorem patch_object_over_string (uic : UnsafeInstanceConfig) (p : Members) :
    Patch uic [(tag "slack", .obj [(tag "hookURL", .obj p)])] = .ok uic.coerce ∧
      mergePatchDecoded uic [(tag "slack", .obj [(tag "hookURL", .obj p)])] =
        .error (.type ⟨"object", "string"⟩) := by
  constructor
  · rw [Patch, toUntypedConfig_eq]
    exact (pure_bind _ _).trans (toUnsafeInstanceConfig_jsonForm uic)
  · simp only [mergePatchDecoded, unmarshalConfig, parse_marshal]
    rfl

/-- `InstanceConfig.MarshalJSON` hides nothing: decoding what it writes gives back every field,
the hook URL included. -/
theorem marshalInstanceConfig_reveals (c : UnsafeInstanceConfig) :
    unmarshalConfig (marshalInstanceConfig c) = .ok c.coerce := by
  simp only [marshalInstanceConfig, unmarshalConfig, parse_marshalConfig]
  rfl

end Flux.Service
