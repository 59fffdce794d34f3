/-
The arguments of the HTTP API, from the client's methods (src/http/client/client.go) through
`MakeURL` (src/unnamed/part_000) to the handlers of `HTTPService` (src/api/api.go), up to the
call each handler makes on `server.Server`.

The client writes its arguments as query parameters; the handlers read them back through
gorilla/mux's route variables, `r.Form`, `r.URL.Query()` and `r.FormValue`. All of these are
`url.ParseQuery` of the query `Encode` wrote, so `handlers_receive_client_arguments` follows from
the round trip of `FluxProofs.Http.Query`.

Not modelled: the path of the URL and which route mux picks for it (a handler is applied to the
request the client built for its route), the instance ID the handlers read from a header, and
the responses. `update.ParseServiceSpec`, `update.ParseImageSpec`, `update.ParseReleaseKind`,
`flux.ParseServiceID` and `strconv.Quote` are not in src/; they are parameters.
-/
import FluxProofs.Http.Query
import FluxProofs.Errors.Basic

namespace Flux.Http

open Flux.Errors

/-! ## Arguments -/

/-- `update.ReleaseCause` -/
structure ReleaseCause where
  user : Bytes
  message : Bytes
  deriving DecidableEq, Repr

/-- `update.ReleaseSpec`; `ServiceSpec`, `ImageSpec`, `ReleaseKind` and `flux.ServiceID` are
string types (the client sends each as `string(...)`). -/
structure ReleaseSpec where
  serviceSpecs : List Bytes
  imageSpec : Bytes
  kind : Bytes
  excludes : List Bytes
  cause : ReleaseCause
  deriving DecidableEq, Repr

/-- A request as the client sends it: the method, the name of the route whose URL `MakeURL`
built, and the query. -/
structure Request where
  method : String
  route : String
  rawQuery : Bytes
  deriving DecidableEq, Repr

/-- The call a handler makes on `server.Server`, with its arguments. -/
inductive Call where
  | listServices (ns : Bytes)
  | listImages (spec : Bytes)
  | updateImages (spec : ReleaseSpec)
  | jobStatus (id : Bytes)
  | syncStatus (ref : Bytes)
  deriving DecidableEq, Repr

/-! ## The client -/

/-- The query of `MakeURL(endpoint, router, routeName, urlParams...)`: `v.Add` for each pair of
`urlParams` (given here as pairs, so there is no odd count to panic on), then `v.Encode()`. -/
def makeQuery (urlParams : List (Bytes × Bytes)) : Bytes := (Values.addPairs [] urlParams).encode

/-- `c.get(&res, route, key, value)` -/
def getRequest (route key : String) (value : Bytes) : Request :=
  ⟨"GET", route, makeQuery [(lit key, value)]⟩

/-- `(*Client).ListServices(namespace)` -/
def listServices (ns : Bytes) : Request := getRequest "ListServices" "namespace" ns

/-- `(*Client).ListImages(s)` -/
def listImages (s : Bytes) : Request := getRequest "ListImages" "service" s

/-- `(*Client).JobStatus(jobID)` -/
def jobStatus (jobID : Bytes) : Request := getRequest "JobStatus" "id" jobID

/-- `(*Client).SyncStatus(ref)` -/
def syncStatus (ref : Bytes) : Request := getRequest "SyncStatus" "ref" ref

/-- The `args` of `(*Client).UpdateImages(s)`: image, kind and user, a `service` for each
service spec, an `exclude` for each exclude, and the message when it is not empty. -/
def updateImagesArgs (s : ReleaseSpec) : List (Bytes × Bytes) :=
  [(lit "image", s.imageSpec), (lit "kind", s.kind), (lit "user", s.cause.user)] ++
    s.serviceSpecs.map (lit "service", ·) ++ s.excludes.map (lit "exclude", ·) ++
    if s.cause.message ≠ [] then [(lit "message", s.cause.message)] else []

/-- `(*Client).UpdateImages(s)`: `c.methodWithResp("POST", &res, "UpdateImages", nil, args...)`.
There is no body, so the request has no form content type. -/
def updateImages (s : ReleaseSpec) : Request := ⟨"POST", "UpdateImages", makeQuery (updateImagesArgs s)⟩

/-! ## The handlers -/

/-- `mux.Vars(r)[key]` for a route with `Queries(key, "{key}")`: gorilla/mux takes the first
value of the key in `r.URL.Query()`. -/
def muxVar (r : Request) (key : String) : Bytes := ((parseQuery r.rawQuery).1.get (lit key)).headD []

/-- `r.FormValue(key)`: the first value, or the empty string. -/
def formValue (form : Values) (key : String) : Bytes := (form.get (lit key)).headD []

section Handlers

variable (quote : Bytes → String)

/-- `EscapeError.Error()` -/
def escapeErrorText (e : EscapeError) : GoError := .plain ("invalid URL escape " ++ quote e.bytes)

/-- A parse of a handler: its result, or `transport.WriteError(w, r, http.StatusBadRequest,
errors.Wrapf(err, what + " %q", s))`. -/
def parseArg (parse : Bytes → Except GoError Bytes) (what : String) (s : Bytes) :
    Except (Nat × GoError) Bytes :=
  match parse s with
  | .ok v => .ok v
  | .error e => .error (400, e.wrap (what ++ " " ++ quote s))

variable (parseServiceSpec parseImageSpec parseReleaseKind parseServiceID :
  Bytes → Except GoError Bytes)

/-- `HTTPService.ListServices` -/
def listServicesHandler (r : Request) : Except (Nat × GoError) Call :=
  .ok (.listServices (muxVar r "namespace"))

/-- `HTTPService.ListImages` -/
def listImagesHandler (r : Request) : Except (Nat × GoError) Call := do
  let spec ← parseArg quote parseServiceSpec "parsing service spec" (muxVar r "service")
  pure (.listImages spec)

/-- `HTTPService.UpdateImages`. `r.ParseForm()` finds no form body (the client sends no form
content type), so `r.Form` is the parsed query and its error is the query's. -/
def updateImagesHandler (r : Request) : Except (Nat × GoError) Call := do
  let image := muxVar r "image"
  let kind := muxVar r "kind"
  let (form, err) := parseQuery r.rawQuery
  if let some e := err then throw (400, (escapeErrorText quote e).wrap "parsing form")
  let serviceSpecs ← (form.get (lit "service")).mapM
    (parseArg quote parseServiceSpec "parsing service spec")
  let imageSpec ← parseArg quote parseImageSpec "parsing image spec" image
  let releaseKind ← parseArg quote parseReleaseKind "parsing release kind" kind
  let excludes ← ((parseQuery r.rawQuery).1.get (lit "exclude")).mapM
    (parseArg quote parseServiceID "parsing excluded service")
  pure (.updateImages ⟨serviceSpecs, imageSpec, releaseKind, excludes,
    ⟨formValue form "user", formValue form "message"⟩⟩)

/-- `HTTPService.JobStatus` -/
def jobStatusHandler (r : Request) : Except (Nat × GoError) Call :=
  .ok (.jobStatus (muxVar r "id"))

/-- `HTTPService.SyncStatus` -/
def syncStatusHandler (r : Request) : Except (Nat × GoError) Call :=
  .ok (.syncStatus (muxVar r "ref"))

end Handlers

/-! ## Reading the client's query -/

/-- The server reads, under every key of the client's query, the values the client added under
it, in order, and the query parses without an error. -/
theorem parseQuery_makeQuery (ps : List (Bytes × Bytes)) :
    (parseQuery (makeQuery ps)).2 = none ∧
      ∀ k, (parseQuery (makeQuery ps)).1.get k = (ps.filter (·.1 = k)).map (·.2) := by
  obtain ⟨he, hg⟩ := parseQuery_encode_get (@keyed_addPairs ps [] List.nodup_nil)
  refine ⟨he, fun k => ?_⟩
  rw [makeQuery, hg, get_addPairs, get_nil, List.nil_append]

theorem muxVar_getRequest (route key : String) (value : Bytes) :
    muxVar (getRequest route key value) key = value := by
  simp [muxVar, getRequest, (parseQuery_makeQuery _).2]

theorem filter_map_key (l : List Bytes) (key k : Bytes) :
    (l.map (key, ·)).filter (·.1 = k) = if key = k then l.map (key, ·) else [] := by
  by_cases h : key = k <;> simp [List.filter_map, Function.comp_def, h]

/-- What the server reads under each key of `UpdateImages`' query. -/
theorem get_updateImages (s : ReleaseSpec) :
    let q := (parseQuery (updateImages s).rawQuery).1
    q.get (lit "image") = [s.imageSpec] ∧ q.get (lit "kind") = [s.kind] ∧
      q.get (lit "user") = [s.cause.user] ∧ q.get (lit "service") = s.serviceSpecs ∧
      q.get (lit "exclude") = s.excludes ∧ (q.get (lit "message")).headD [] = s.cause.message := by
  simp only [updateImages, (parseQuery_makeQuery _).2, updateImagesArgs, List.filter_append,
    filter_map_key, List.filter_cons, List.filter_nil]
  by_cases hm : s.cause.message = [] <;> simp +decide [hm, lit]

/-- A parse that gives back its argument passes a list through unchanged. -/
theorem mapM_parseArg (quote : Bytes → String) (parse : Bytes → Except GoError Bytes)
    (what : String) (l : List Bytes) (h : ∀ s ∈ l, parse s = .ok s) :
    l.mapM (parseArg quote parse what) = .ok l := by
  induction l with
  | nil => rfl
  | cons s l ih =>
    rw [List.mapM_cons, parseArg, h s (List.mem_cons_self _ _),
      ih fun t ht => h t (List.mem_cons_of_mem _ ht)]
    rfl

/-! ## Agreement -/

/-- The handler of each route passes `server.Server` the arguments the client was given, for
arbitrary strings: the namespace, service spec, job ID and ref, and for `UpdateImages` the same
service specs and excludes in the same order, image spec, kind, user and message, provided each
spec, kind and ID is one its parser gives back unchanged. -/
theorem handlers_receive_client_arguments (quote : Bytes → String)
    (parseServiceSpec parseImageSpec parseReleaseKind parseServiceID : Bytes → Except GoError Bytes)
    (ns service jobID ref : Bytes) (spec : ReleaseSpec)
    (hservice : parseServiceSpec service = .ok service)
    (hspecs : ∀ s ∈ spec.serviceSpecs, parseServiceSpec s = .ok s)
    (himage : parseImageSpec spec.imageSpec = .ok spec.imageSpec)
    (hkind : parseReleaseKind spec.kind = .ok spec.kind)
    (hexcludes : ∀ e ∈ spec.excludes, parseServiceID e = .ok e) :
    listServicesHandler (listServices ns) = .ok (.listServices ns) ∧
      listImagesHandler quote parseServiceSpec (listImages service) = .ok (.listImages service) ∧
      updateImagesHandler quote parseServiceSpec parseImageSpec parseReleaseKind parseServiceID
        (updateImages spec) = .ok (.updateImages spec) ∧
      jobStatusHandler (jobStatus jobID) = .ok (.jobStatus jobID) ∧
      syncStatusHandler (syncStatus ref) = .ok (.syncStatus ref) := by
  refine ⟨by rw [listServicesHandler, listServices, muxVar_getRequest], ?_, ?_,
    by rw [jobStatusHandler, jobStatus, muxVar_getRequest],
    by rw [syncStatusHandler, syncStatus, muxVar_getRequest]⟩
  · rw [listImagesHandler, listImages, muxVar_getRequest, parseArg, hservice]
    rfl
  · obtain ⟨hi, hk, hu, hs, hx, hm⟩ := get_updateImages spec
    have he : (parseQuery (updateImages spec).rawQuery).2 = none := (parseQuery_makeQuery _).1
    unfold updateImagesHandler muxVar formValue
    generalize parseQuery (updateImages spec).rawQuery = P at hi hk hu hs hx hm he ⊢
    obtain ⟨form, err⟩ := P
    subst he
    simp only [hi, hk, hu, hs, hx, hm, mapM_parseArg quote _ _ _ hspecs,
      mapM_parseArg quote _ _ _ hexcludes, parseArg, himage, hkind, List.headD_cons]
    rfl

/-- A release whose strings need escaping: a space, `/`, `&`, `;`, `=`, `%`, `+` and `:`. -/
def escapedRelease : ReleaseSpec :=
  ⟨[lit "default/hello world", lit "a&b"], lit "quay.io/app:1+2", lit "plan", [lit "x;y=z"],
    ⟨lit "jane", lit "100% sure"⟩⟩

theorem handlers_receive_client_arguments_escaped :
    listServicesHandler (listServices (lit "kube system")) =
        .ok (.listServices (lit "kube system")) ∧
      listImagesHandler (fun _ => "") Except.ok (listImages (lit "a=b&c")) =
        .ok (.listImages (lit "a=b&c")) ∧
      updateImagesHandler (fun _ => "") Except.ok Except.ok Except.ok Except.ok
          (updateImages escapedRelease) = .ok (.updateImages escapedRelease) ∧
      jobStatusHandler (jobStatus (lit "job 1")) = .ok (.jobStatus (lit "job 1")) ∧
      syncStatusHandler (syncStatus (lit "ref%2F")) = .ok (.syncStatus (lit "ref%2F")) :=
  handlers_receive_client_arguments (fun _ => "") Except.ok Except.ok Except.ok Except.ok
    (lit "kube system") (lit "a=b&c") (lit "job 1") (lit "ref%2F") escapedRelease rfl
    (fun _ _ => rfl) rfl rfl (fun _ _ => rfl)

end Flux.Http
