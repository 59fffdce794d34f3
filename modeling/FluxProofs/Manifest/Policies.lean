/-
`policiesFrom` and `(*Manifests).ServicesWithPolicy` (src/service/status.go): the policies the
annotations of a manifest give, and the services whose manifest has a given policy. Both loop
over a Go map, whose order of iteration is unspecified: the manifest's annotations, and the
services `FindDefinedServices` found with their files.

`policiesFrom` gives the same set in every order (`policiesFrom_perm`): two annotation keys with
the policy prefix name two policies, setting two policies commutes, and the annotations of a
parsed manifest have distinct keys (`annotations_nodup`). `ServicesWithPolicy` fails exactly when
a service with one file has a file that does not read or parse, and otherwise maps each service
with one file whose policies contain the one asked for to those policies
(`servicesWithPolicy_spec`): a service with several files is skipped whatever its manifests say,
and one bad file fails the whole call. Neither depends on the order of the services
(`servicesWithPolicy_perm`).

The `policy` package is not in src/: `policy.Set` with its `Add`, `Set` and `Contains`, and
`policy.Boolean`, are parameters, and the one law the proofs need, that adding or setting two
different policies commutes, is a field of `PolicySet`. `FindDefinedServices` and
`ioutil.ReadFile` are parameters too.
-/
import FluxProofs.Manifest.Yaml
import Mathlib.Data.List.Perm.Basic
import Mathlib.Data.List.Nodup

namespace Flux.Kubernetes

/-! ## Policy sets -/

/-- `policy.Set` with the methods `policiesFrom` and `ServicesWithPolicy` call: the nil set,
`Add`, `Set` and `Contains`, with the law that adding or setting two different policies gives
the same set in either order. -/
structure PolicySet (S : Type) where
  empty : S
  add : S → Text → S
  set : S → Text → Text → S
  contains : S → Text → Bool
  add_add : ∀ s p q, p ≠ q → add (add s p) q = add (add s q) p
  add_set : ∀ s p q v, p ≠ q → set (add s p) q v = add (set s q v) p
  set_set : ∀ s p q v w, p ≠ q → set (set s p v) q w = set (set s q w) p v

/-! ## `policiesFrom` -/

section PoliciesFrom

variable {S : Type} (ops : PolicySet S) (boolean : Text → Bool) (policyPrefix : Text)

/-- One annotation of `policiesFrom`'s loop: a key without the policy prefix is skipped; the
policy is the key with the prefix trimmed; a boolean policy is added when the value is `"true"`
and skipped otherwise; any other policy is set to the value. -/
def policyStep (ps : S) (kv : Text × Text) : S :=
  if policyPrefix.isPrefixOf kv.1 then
    let p := kv.1.drop policyPrefix.length
    if boolean p then
      if kv.2 ≠ "true".toList then ps else ops.add ps p
    else ops.set ps p kv.2
  else ps

/-- `policiesFrom(m)`, with the annotations in the order the loop visits them. Its error is
always nil. -/
def policiesFrom (annotations : StrMap) : S :=
  annotations.foldl (policyStep ops boolean policyPrefix) ops.empty

/-- Two keys with the prefix and the same rest are the same key. -/
theorem eq_of_drop_eq {a b : Text} (ha : policyPrefix.isPrefixOf a = true)
    (hb : policyPrefix.isPrefixOf b = true)
    (h : a.drop policyPrefix.length = b.drop policyPrefix.length) : a = b := by
  obtain ⟨t, rfl⟩ := List.isPrefixOf_iff_prefix.mp ha
  obtain ⟨u, rfl⟩ := List.isPrefixOf_iff_prefix.mp hb
  simpa using h

/-- What one annotation can do to the set: nothing, or, for a key with the prefix, add or set
the policy the key names. -/
theorem policyStep_cases (kv : Text × Text) :
    (∀ s, policyStep ops boolean policyPrefix s kv = s) ∨
      policyPrefix.isPrefixOf kv.1 = true ∧
        ((∀ s, policyStep ops boolean policyPrefix s kv = ops.add s (kv.1.drop policyPrefix.length)) ∨
          ∀ s, policyStep ops boolean policyPrefix s kv =
            ops.set s (kv.1.drop policyPrefix.length) kv.2) := by
  by_cases h₁ : policyPrefix.isPrefixOf kv.1 = true
  · by_cases h₂ : boolean (kv.1.drop policyPrefix.length) = true
    · by_cases h₃ : kv.2 ≠ "true".toList
      · exact .inl fun s => by simp only [policyStep, h₁, h₂, if_true]; exact if_pos h₃
      · exact .inr ⟨h₁, .inl fun s => by simp only [policyStep, h₁, h₂, if_true]; exact if_neg h₃⟩
    · exact .inr ⟨h₁, .inr fun s => by
        simp only [policyStep, h₁, h₂, if_true, Bool.false_eq_true, if_false]⟩
  · exact .inl fun s => if_neg h₁

/-- Two annotations with different keys can be taken in either order. -/
theorem policyStep_comm (s : S) {x y : Text × Text} (hne : x.1 ≠ y.1) :
    policyStep ops boolean policyPrefix (policyStep ops boolean policyPrefix s x) y =
      policyStep ops boolean policyPrefix (policyStep ops boolean policyPrefix s y) x := by
  rcases policyStep_cases ops boolean policyPrefix x with hx | ⟨px, hx | hx⟩ <;>
  rcases policyStep_cases ops boolean policyPrefix y with hy | ⟨py, hy | hy⟩ <;>
  simp only [hx, hy]
  all_goals
    have hpq : x.1.drop policyPrefix.length ≠ y.1.drop policyPrefix.length :=
      fun h => hne (eq_of_drop_eq policyPrefix px py h)
  · exact ops.add_add _ _ _ hpq
  · exact ops.add_set _ _ _ _ hpq
  · exact (ops.add_set _ _ _ _ hpq.symm).symm
  · exact ops.set_set _ _ _ _ _ hpq

/-- `policiesFrom` gives the same set in every order of a map's annotations. -/
theorem policiesFrom_perm {a a' : StrMap} (hp : a.Perm a') (hk : (a.map (·.1)).Nodup) :
    policiesFrom ops boolean policyPrefix a = policiesFrom ops boolean policyPrefix a' := by
  refine hp.foldl_eq' (fun x hx y hy s => ?_) ops.empty
  by_cases hxy : x = y
  · rw [hxy]
  · exact policyStep_comm ops boolean policyPrefix s
      fun h => hxy (List.inj_on_of_nodup_map hk hx hy h)

end PoliciesFrom

/-! ## The annotations of a parsed manifest -/

theorem StrMap.set_nodup {a : StrMap} (h : (a.map (·.1)).Nodup) (k v : Text) :
    ((a.set k v).map (·.1)).Nodup := by
  unfold StrMap.set
  split_ifs with hk
  · rw [List.map_map]
    convert h using 1
    exact List.map_congr_left fun e _ => by by_cases he : e.1 = k <;> simp [he]
  · rw [List.map_append, List.nodup_append]
    refine ⟨h, List.nodup_singleton _, fun x hx hy => ?_⟩
    simp only [List.map_cons, List.map_nil, List.mem_singleton] at hy
    obtain ⟨e, he, rfl⟩ := List.mem_map.mp hx
    exact hk (List.any_eq_true.mpr ⟨e, he, by simp [hy]⟩)

/-- What a step of a fold in `Except` keeps, the fold keeps. -/
theorem foldlM_except_inv {α β ε : Type} (P : β → Prop) {f : β → α → Except ε β}
    (hf : ∀ b a b', f b a = .ok b' → P b → P b') :
    ∀ (l : List α) (b r : β), P b → l.foldlM f b = .ok r → P r
  | [], b, r, hb, h => by cases h; exact hb
  | a :: l, b, r, hb, h => by
    rw [List.foldlM_cons] at h
    cases hfa : f b a with
    | error e => rw [hfa] at h; cases h
    | ok b' =>
      rw [hfa] at h
      exact foldlM_except_inv P hf l b' r (hf b a b' hfa hb) h

theorem map_eq_ok {ε α β : Type} {g : α → β} {x : Except ε α} {y : β} :
    g <$> x = .ok y ↔ ∃ v, x = .ok v ∧ g v = y := by
  cases x <;> simp [Functor.map, Except.map]

/-- Decoded into a map whose keys are distinct, as those of a Go map, a map keeps them distinct. -/
theorem decodeStrMap_nodup {cur : Option StrMap} {n : Node} {a : StrMap}
    (hc : ∀ c, cur = some c → (c.map (·.1)).Nodup) (h : decodeStrMap cur n = .ok (some a)) :
    (a.map (·.1)).Nodup := by
  cases n with
  | map es =>
    obtain ⟨_, hf, ⟨⟩⟩ := map_eq_ok.mp h
    have h₀ : ((cur.getD []).map (·.1)).Nodup := by
      cases cur with
      | none => exact List.nodup_nil
      | some c => exact hc c rfl
    refine foldlM_except_inv (fun b : StrMap => (b.map (·.1)).Nodup)
      (fun b e b' hb hn => ?_) es _ a h₀ hf
    cases hv : decodeString e.2 with
    | error _ => rw [hv] at hb; cases hb
    | ok v => rw [hv] at hb; cases hb; exact StrMap.set_nodup hn e.1 v
  | _ => cases h

/-- The annotations of a decoded `Metadata` have distinct keys. -/
def Metadata.KeysNodup (md : Metadata) : Prop := ∀ a, md.annotations = some a → (a.map (·.1)).Nodup

theorem decodeMetadata_keysNodup {cur : Metadata} {n : Node} {md : Metadata} (hc : cur.KeysNodup)
    (h : decodeMetadata cur n = .ok md) : md.KeysNodup := by
  cases n with
  | map es =>
    simp only [decodeMetadata, decodeStruct] at h
    refine foldlM_except_inv Metadata.KeysNodup (fun md₀ e md₁ hstep hn => ?_) es cur md hc h
    simp only at hstep
    split_ifs at hstep
    · obtain ⟨_, -, rfl⟩ := map_eq_ok.mp hstep
      exact hn
    · obtain ⟨_, hs, rfl⟩ := map_eq_ok.mp hstep
      rintro _ ⟨⟩
      exact decodeStrMap_nodup hn hs
    · cases hstep; exact hn
  | null => cases h; intro _ h; cases h
  | _ => cases h

/-- The annotations of a parsed manifest have distinct keys, so `policiesFrom` takes them in any
order to the same set. -/
theorem annotations_nodup {t : Text} {m : Manifest} (h : parseManifest t = .ok m) :
    (m.metadata.annotationsOrNil.map (·.1)).Nodup := by
  have hm : m.metadata.KeysNodup := by
    cases hd : parseDoc t with
    | error e => rw [parseManifest, hd] at h; cases h
    | ok n =>
      rw [parseManifest, hd] at h
      cases n with
      | map es =>
        simp only [Bind.bind, Except.bind, decodeManifest, decodeStruct] at h
        refine foldlM_except_inv (fun m : Manifest => m.metadata.KeysNodup)
          (fun m₀ e m₁ hstep hn => ?_) es ⟨⟨[], none⟩, []⟩ m (fun _ h => by cases h) h
        simp only at hstep
        split_ifs at hstep
        · obtain ⟨_, hs, rfl⟩ := map_eq_ok.mp hstep
          exact decodeMetadata_keysNodup hn hs
        · obtain ⟨_, -, rfl⟩ := map_eq_ok.mp hstep
          exact hn
        · cases hstep; exact hn
      | null => cases h; intro _ h; cases h
      | _ => cases h
  cases ha : m.metadata.annotations with
  | none => simp [Metadata.annotationsOrNil, ha]
  | some a => simpa [Metadata.annotationsOrNil, ha] using hm a ha

section Order

variable {S : Type} (ops : PolicySet S) (boolean : Text → Bool) (policyPrefix : Text)

/-- For every manifest `parseManifest` accepts, `policiesFrom` gives the same policies in every
order its loop may visit the annotations in. -/
theorem policiesFrom_order {t : Text} {m : Manifest} (h : parseManifest t = .ok m) {a : StrMap}
    (hp : a.Perm m.metadata.annotationsOrNil) :
    policiesFrom ops boolean policyPrefix a =
      policiesFrom ops boolean policyPrefix m.metadata.annotationsOrNil :=
  policiesFrom_perm ops boolean policyPrefix hp ((hp.map _).nodup_iff.mpr (annotations_nodup h))

end Order

/-- A `policy.Set` as a Go map from policies to values. -/
def goPolicySet : PolicySet (Text → Option Text) where
  empty := fun _ => none
  add s p := fun q => if q = p then some "true".toList else s q
  set s p v := fun q => if q = p then some v else s q
  contains s p := (s p).isSome
  add_add s p q h := funext fun r => by by_cases hp : r = p <;> by_cases hq : r = q <;> simp_all
  add_set s p q v h := funext fun r => by by_cases hp : r = p <;> by_cases hq : r = q <;> simp_all
  set_set s p q v w h := funext fun r => by by_cases hp : r = p <;> by_cases hq : r = q <;> simp_all

/-- `policy.Boolean`, for the two boolean policies named here. -/
def sampleBoolean (p : Text) : Bool := p == "locked".toList || p == "automated".toList

/-- A locked service with a tag policy and an annotation of its own. -/
def lockedManifest : Text :=
  ("metadata:\n  name: helloworld\n  annotations:\n    flux.weave.works/locked: \"true\"\n" ++
    "    flux.weave.works/tag.app: \"glob:v1*\"\n    note: x\n").toList

/-- What `parseManifest` makes of `lockedManifest`. -/
def lockedParsed : Manifest :=
  ⟨⟨"helloworld".toList, some [("flux.weave.works/locked".toList, "true".toList),
    ("flux.weave.works/tag.app".toList, "glob:v1*".toList), ("note".toList, "x".toList)]⟩, []⟩

theorem policiesFrom_order_reversed :
    parseManifest lockedManifest = .ok lockedParsed ∧
      lockedParsed.metadata.annotationsOrNil.reverse.Perm lockedParsed.metadata.annotationsOrNil ∧
      policiesFrom goPolicySet sampleBoolean "flux.weave.works/".toList
          lockedParsed.metadata.annotationsOrNil.reverse =
        policiesFrom goPolicySet sampleBoolean "flux.weave.works/".toList
          lockedParsed.metadata.annotationsOrNil :=
  ⟨rfl, List.reverse_perm _,
    policiesFrom_order goPolicySet sampleBoolean _
      (show parseManifest lockedManifest = .ok lockedParsed from rfl) (List.reverse_perm _)⟩

/-! ## `ServicesWithPolicy` -/

/-- The errors `ServicesWithPolicy` returns: those of `FindDefinedServices` and `ioutil.ReadFile`,
of type `ε`, as they are, and those of `parseManifest`. -/
inductive ManifestsError (ε : Type) where
  | find (e : ε)
  | readFile (e : ε)
  | decoding (e : YamlError)
  deriving DecidableEq, Repr

section Services

variable {ε : Type} (readFile : Text → Except ε Text)

/-- `iterateManifests(services, f)`, with the services in the order the loop visits them: a
service with other than one file is skipped; the one file of any other is read and parsed, and
the first failure ends the loop. `f` updates the state its closure holds; in its one caller it
never fails. -/
def iterateManifests {σ : Type} (f : Text → Manifest → σ → σ) :
    List (Text × List Text) → σ → Except (ManifestsError ε) σ
  | [], st => .ok st
  | (serviceID, paths) :: rest, st =>
    match paths with
    | [path] => do
      let defText ← (readFile path).mapError .readFile
      let manifest ← (parseManifest defText).mapError .decoding
      iterateManifests f rest (f serviceID manifest st)
    | _ => iterateManifests f rest st

/-- The manifest of a service with one file that reads and parses. -/
def loadManifest : List Text → Option Manifest
  | [path] => (readFile path).toOption.bind fun d => (parseManifest d).toOption
  | _ => none

/-- `result[s] = ps` on a Go map, a function from keys to values. -/
def mapAssign {β : Type} (result : Text → Option β) (s : Text) (ps : β) : Text → Option β :=
  fun t => if t = s then some ps else result t

variable {S : Type} (ops : PolicySet S) (boolean : Text → Bool) (policyPrefix : Text)

/-- The closure `ServicesWithPolicy` hands `iterateManifests`: the service's policies go into
`result` when they contain `p`. -/
def recordPolicies (p s : Text) (m : Manifest) (result : Text → Option S) : Text → Option S :=
  let ps := policiesFrom ops boolean policyPrefix m.metadata.annotationsOrNil
  if ops.contains ps p then mapAssign result s ps else result

/-- `(*Manifests).ServicesWithPolicy(root, p)`, with `found` the outcome of
`FindDefinedServices(root)`: the services with their files, in the order the loop visits them. -/
def servicesWithPolicy (found : Except ε (List (Text × List Text))) (p : Text) :
    Except (ManifestsError ε) (Text → Option S) := do
  let all ← found.mapError .find
  iterateManifests readFile (recordPolicies ops boolean policyPrefix p) all fun _ => none

/-- The policies `ServicesWithPolicy` keeps for a service with these files: those of its one
manifest, when the file reads and parses and they contain `p`. -/
def selectedPolicies (p : Text) (paths : List Text) : Option S :=
  (loadManifest readFile paths).bind fun m =>
    if ops.contains (policiesFrom ops boolean policyPrefix m.metadata.annotationsOrNil) p then
      some (policiesFrom ops boolean policyPrefix m.metadata.annotationsOrNil)
    else none

/-! ### Running the loop -/

theorem loadManifest_eq_some {path : Text} {m : Manifest} :
    loadManifest readFile [path] = some m ↔
      ∃ d, readFile path = .ok d ∧ parseManifest d = .ok m := by
  simp only [loadManifest]
  cases readFile path with
  | error e => simp [Except.toOption]
  | ok d => cases hp : parseManifest d <;> simp [Except.toOption, hp]

/-- A service with other than one file is skipped. -/
theorem iterateManifests_skip {σ : Type} (f : Text → Manifest → σ → σ) {paths : List Text}
    (h : ∀ path, paths ≠ [path]) (s : Text) (rest : List (Text × List Text)) (st : σ) :
    iterateManifests readFile f ((s, paths) :: rest) st = iterateManifests readFile f rest st := by
  match paths, h with
  | [], _ => rfl
  | [path], h => exact absurd rfl (h path)
  | _ :: _ :: _, _ => rfl

theorem loadManifest_skip {paths : List Text} (h : ∀ path, paths ≠ [path]) :
    loadManifest readFile paths = none := by
  match paths, h with
  | [], _ => rfl
  | [path], h => exact absurd rfl (h path)
  | _ :: _ :: _, _ => rfl

/-- A service with one file: its manifest is read and parsed, then the loop goes on. -/
theorem iterateManifests_one {σ : Type} (f : Text → Manifest → σ → σ) (s path : Text)
    (rest : List (Text × List Text)) (st : σ) :
    iterateManifests readFile f ((s, [path]) :: rest) st =
      ((readFile path).mapError .readFile >>= fun d => (parseManifest d).mapError .decoding) >>=
        fun m => iterateManifests readFile f rest (f s m st) := by
  simp only [iterateManifests, bind_assoc]

/-- A service with one file whose manifest loads: the loop goes on with it. -/
theorem iterateManifests_loaded {σ : Type} (f : Text → Manifest → σ → σ) {s path : Text}
    {m : Manifest} (hm : loadManifest readFile [path] = some m) (rest : List (Text × List Text))
    (st : σ) :
    iterateManifests readFile f ((s, [path]) :: rest) st =
      iterateManifests readFile f rest (f s m st) := by
  obtain ⟨d, hd, hp⟩ := (loadManifest_eq_some readFile).mp hm
  rw [iterateManifests_one, hd]
  show ((parseManifest d).mapError _ >>= _) = _
  rw [hp]
  rfl

/-- A service with one file whose manifest does not load fails the loop. -/
theorem iterateManifests_unloaded {σ : Type} (f : Text → Manifest → σ → σ) {s path : Text}
    (hm : loadManifest readFile [path] = none) (rest : List (Text × List Text)) (st : σ) :
    ∃ e, iterateManifests readFile f ((s, [path]) :: rest) st = .error e := by
  rw [iterateManifests_one]
  cases hd : readFile path with
  | error e => exact ⟨.readFile e, rfl⟩
  | ok d =>
    cases hp : parseManifest d with
    | error e => exact ⟨.decoding e, show ((parseManifest d).mapError _ >>= _) = _ by rw [hp]; rfl⟩
    | ok m => cases hm.symm.trans ((loadManifest_eq_some readFile).mpr ⟨d, hd, hp⟩)

/-- When every service with one file has a manifest that loads, the loop runs to the end, each
manifest updating the state in turn. -/
theorem iterateManifests_ok {σ : Type} (f : Text → Manifest → σ → σ) :
    ∀ (all : List (Text × List Text)) (st : σ),
      (∀ s path, (s, [path]) ∈ all → loadManifest readFile [path] ≠ none) →
      iterateManifests readFile f all st =
        .ok (all.foldl (fun st e => match loadManifest readFile e.2 with
          | some m => f e.1 m st
          | none => st) st)
  | [], _, _ => rfl
  | (s, paths) :: rest, st, h => by
    have hrest : ∀ s' path, (s', [path]) ∈ rest → loadManifest readFile [path] ≠ none :=
      fun s' path hm => h s' path (List.mem_cons_of_mem _ hm)
    rw [List.foldl_cons]
    by_cases hone : ∃ path, paths = [path]
    · obtain ⟨path, rfl⟩ := hone
      obtain ⟨m, hm⟩ := Option.ne_none_iff_exists'.mp (h s path (List.mem_cons_self _ _))
      rw [iterateManifests_loaded readFile f hm, hm]
      exact iterateManifests_ok f rest _ hrest
    · push_neg at hone
      rw [iterateManifests_skip readFile f hone, loadManifest_skip readFile hone]
      exact iterateManifests_ok f rest st hrest

/-- A service with one file whose manifest does not load fails the loop, wherever it stands. -/
theorem iterateManifests_error {σ : Type} (f : Text → Manifest → σ → σ) :
    ∀ (all : List (Text × List Text)) (st : σ),
      (∃ s path, (s, [path]) ∈ all ∧ loadManifest readFile [path] = none) →
      ∃ e, iterateManifests readFile f all st = .error e
  | [], _, ⟨_, _, h, _⟩ => absurd h (List.not_mem_nil _)
  | (s, paths) :: rest, st, ⟨s', path', hmem, hnone⟩ => by
    by_cases hone : ∃ path, paths = [path]
    · obtain ⟨path, rfl⟩ := hone
      cases hm : loadManifest readFile [path] with
      | none => exact iterateManifests_unloaded readFile f hm rest st
      | some m =>
        have hrest : (s', [path']) ∈ rest := (List.mem_cons.mp hmem).resolve_left fun h => by
          cases h
          cases hnone.symm.trans hm
        rw [iterateManifests_loaded readFile f hm]
        exact iterateManifests_error f rest _ ⟨s', path', hrest, hnone⟩
    · push_neg at hone
      rw [iterateManifests_skip readFile f hone]
      refine iterateManifests_error f rest st ⟨s', path', ?_, hnone⟩
      exact (List.mem_cons.mp hmem).resolve_left fun h => by cases h; exact hone path' rfl

/-! ### The services with a policy -/

/-- What one service does to the map `recordPolicies` fills. -/
theorem recordStep_apply (p : Text) (r : Text → Option S) (e : Text × List Text) (t : Text) :
    (match loadManifest readFile e.2 with
      | some m => recordPolicies ops boolean policyPrefix p e.1 m r
      | none => r) t =
      if t = e.1 then (selectedPolicies readFile ops boolean policyPrefix p e.2).or (r t)
      else r t := by
  unfold selectedPolicies
  cases loadManifest readFile e.2 with
  | none => split_ifs <;> rfl
  | some m =>
    simp only [Option.some_bind, recordPolicies]
    split_ifs <;> simp_all [mapAssign]

/-- The map the loop leaves, from any map it starts from, when the services are distinct. -/
theorem foldl_record_eq_some (p t : Text) (ps : S) :
    ∀ (all : List (Text × List Text)) (r₀ : Text → Option S), (all.map (·.1)).Nodup →
      ((all.foldl (fun st e => match loadManifest readFile e.2 with
          | some m => recordPolicies ops boolean policyPrefix p e.1 m st
          | none => st) r₀) t = some ps ↔
        (∃ paths, (t, paths) ∈ all ∧
            selectedPolicies readFile ops boolean policyPrefix p paths = some ps) ∨
          (r₀ t = some ps ∧ ∀ paths, (t, paths) ∈ all →
            selectedPolicies readFile ops boolean policyPrefix p paths = none))
  | [], r₀, _ => by simp
  | (s, paths) :: rest, r₀, hk => by
    rw [List.foldl_cons, foldl_record_eq_some p t ps rest _ (List.nodup_cons.mp hk).2,
      recordStep_apply]
    by_cases hts : t = s
    · subst hts
      have hnot : ∀ paths', (t, paths') ∉ rest :=
        fun paths' h => (List.nodup_cons.mp hk).1 (List.mem_map.mpr ⟨_, h, rfl⟩)
      simp [hnot, Option.or_eq_some, and_comm]
    · simp [hts]

theorem servicesWithPolicy_ok (all : List (Text × List Text)) (p : Text) :
    servicesWithPolicy readFile ops boolean policyPrefix (.ok all) p =
      iterateManifests readFile (recordPolicies ops boolean policyPrefix p) all fun _ => none :=
  rfl

/-- `ServicesWithPolicy` over the services `FindDefinedServices` found, with distinct IDs: it
fails exactly when a service with one file has a manifest that does not read or parse, and
otherwise gives a service policies exactly when it has one file, whose manifest's policies
contain `p`; then it gives it those policies. -/
theorem servicesWithPolicy_spec (all : List (Text × List Text)) (hk : (all.map (·.1)).Nodup)
    (p : Text) :
    ((∃ e, servicesWithPolicy readFile ops boolean policyPrefix (.ok all) p = .error e) ↔
        ∃ s path, (s, [path]) ∈ all ∧ loadManifest readFile [path] = none) ∧
      ∀ r, servicesWithPolicy readFile ops boolean policyPrefix (.ok all) p = .ok r →
        ∀ s ps, r s = some ps ↔
          ∃ paths, (s, paths) ∈ all ∧
            selectedPolicies readFile ops boolean policyPrefix p paths = some ps := by
  have hok : (¬∃ s path, (s, [path]) ∈ all ∧ loadManifest readFile [path] = none) →
      servicesWithPolicy readFile ops boolean policyPrefix (.ok all) p = .ok _ := fun h =>
    iterateManifests_ok readFile _ all _ fun s path hm hn => h ⟨s, path, hm, hn⟩
  refine ⟨⟨fun ⟨e, he⟩ => ?_, iterateManifests_error readFile _ all _⟩, fun r hr s ps => ?_⟩
  · by_contra h
    rw [hok h] at he
    cases he
  · have hb : ¬∃ s path, (s, [path]) ∈ all ∧ loadManifest readFile [path] = none := fun h => by
      obtain ⟨e, he⟩ := iterateManifests_error readFile (recordPolicies ops boolean policyPrefix p)
        all (fun _ => none) h
      rw [← servicesWithPolicy_ok, hr] at he
      cases he
    rw [hok hb] at hr
    cases hr
    rw [foldl_record_eq_some readFile ops boolean policyPrefix p s ps all _ hk]
    simp

/-- `ServicesWithPolicy` does not depend on the order in which it visits the services: in any two
orders it fails in both or in neither, and gives the same map. -/
theorem servicesWithPolicy_perm {all all' : List (Text × List Text)} (hp : all.Perm all')
    (hk : (all.map (·.1)).Nodup) (p : Text) :
    ((∃ e, servicesWithPolicy readFile ops boolean policyPrefix (.ok all) p = .error e) ↔
        ∃ e, servicesWithPolicy readFile ops boolean policyPrefix (.ok all') p = .error e) ∧
      ∀ r r', servicesWithPolicy readFile ops boolean policyPrefix (.ok all) p = .ok r →
        servicesWithPolicy readFile ops boolean policyPrefix (.ok all') p = .ok r' → r = r' := by
  have hk' : (all'.map (·.1)).Nodup := ((hp.map _).nodup_iff).mp hk
  obtain ⟨he, hr⟩ := servicesWithPolicy_spec readFile ops boolean policyPrefix all hk p
  obtain ⟨he', hr'⟩ := servicesWithPolicy_spec readFile ops boolean policyPrefix all' hk' p
  refine ⟨by simp only [he, he', hp.mem_iff], fun r r' h h' => funext fun s => Option.ext fun ps => ?_⟩
  show r s = some ps ↔ r' s = some ps
  rw [hr r h s ps, hr' r' h' s ps]
  simp only [hp.mem_iff]

end Services

/-- The files of two services: one with a single manifest, one split over two files. -/
def sampleServices : List (Text × List Text) :=
  [("default/hello".toList, ["hello.yaml".toList]),
    ("default/split".toList, ["a.yaml".toList, "b.yaml".toList])]

/-- `ioutil.ReadFile` over the one file there is. -/
def sampleReadFile (path : Text) : Except String Text :=
  if path = "hello.yaml".toList then .ok lockedManifest else .error "no such file or directory"

theorem servicesWithPolicy_spec_sample :
    (sampleServices.map (·.1)).Nodup ∧
      (((∃ e, servicesWithPolicy sampleReadFile goPolicySet sampleBoolean
            "flux.weave.works/".toList (.ok sampleServices) "locked".toList = .error e) ↔
          ∃ s path, (s, [path]) ∈ sampleServices ∧ loadManifest sampleReadFile [path] = none) ∧
        ∀ r, servicesWithPolicy sampleReadFile goPolicySet sampleBoolean "flux.weave.works/".toList
            (.ok sampleServices) "locked".toList = .ok r →
          ∀ s ps, r s = some ps ↔
            ∃ paths, (s, paths) ∈ sampleServices ∧ selectedPolicies sampleReadFile goPolicySet
              sampleBoolean "flux.weave.works/".toList "locked".toList paths = some ps) :=
  ⟨by decide, servicesWithPolicy_spec sampleReadFile goPolicySet sampleBoolean _ sampleServices
    (by decide) _⟩

theorem servicesWithPolicy_perm_reversed :
    sampleServices.Perm sampleServices.reverse ∧ (sampleServices.map (·.1)).Nodup ∧
      (((∃ e, servicesWithPolicy sampleReadFile goPolicySet sampleBoolean
            "flux.weave.works/".toList (.ok sampleServices) "locked".toList = .error e) ↔
          ∃ e, servicesWithPolicy sampleReadFile goPolicySet sampleBoolean
            "flux.weave.works/".toList (.ok sampleServices.reverse) "locked".toList = .error e) ∧
        ∀ r r', servicesWithPolicy sampleReadFile goPolicySet sampleBoolean
            "flux.weave.works/".toList (.ok sampleServices) "locked".toList = .ok r →
          servicesWithPolicy sampleReadFile goPolicySet sampleBoolean "flux.weave.works/".toList
            (.ok sampleServices.reverse) "locked".toList = .ok r' → r = r') :=
  ⟨(List.reverse_perm _).symm, by decide,
    servicesWithPolicy_perm sampleReadFile goPolicySet sampleBoolean _ (List.reverse_perm _).symm
      (by decide) _⟩

end Flux.Kubernetes
