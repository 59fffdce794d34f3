/-
The calls of the HTTP API from end to end: the handler of `HTTPService` (src/api/api.go) makes the
call on `server.Server` and writes its result with `transport.JSONResponse` or its error with
`transport.ErrorResponse` (src/unnamed/part_000); the client (src/http/client/client.go) passes
the response through `executeRequest` and decodes the body with `json.Decoder.Decode` (`get`) or
`json.Unmarshal` (`methodWithResp`).

`Client.SyncStatus` returns the service's strings, each coerced to valid UTF-8
(`syncStatus_roundTrip`), `Client.Export` the service's bytes exactly (`export_roundTrip`), and
`Client.UpdateImages` and `Client.UpdatePolicies` the job ID (`updateImages_roundTrip`,
`updatePolicies_roundTrip`, the latter for updates whose JSON the handler reads back); a failed
call returns the `*flux.BaseError` that `ErrorResponse` picked for the service's error.
`Client.SyncNotify` fails whatever the service did (`syncNotify_fails`): its handler answers
`202 Accepted`, which `executeRequest` does not take for a success.

The handler's response reaches the client as it is: `http.Client.Do`, a failure to read a body
and the errors of `MakeURL` and `http.NewRequest` are not modelled. A Go method returns its result
beside its error; here a failed call returns the error alone.
-/
import FluxProofs.Http.Api
import FluxProofs.Http.Errors
import FluxProofs.Json.Results

namespace Flux.Http

open Flux.Errors Flux.Json

/-! ## Bodies as bytes -/

/-- A body of bytes as text, one character for each byte, as Go's `string(body)` holds it. -/
def bytesText (bs : List Nat) : String := ⟨bs.map Char.ofNat⟩

/-- `ioutil.ReadAll(resp.Body)`: the bytes of a body. -/
def Body.bytes (envelopeText : BaseError → String) (b : Body) : List Nat :=
  (b.read envelopeText).toList.map Char.toNat

theorem toNat_ofNat_byte {n : Nat} (h : n < 0x100) : (Char.ofNat n).toNat = n := by
  rw [Char.ofNat, dif_pos (Or.inl (by omega))]
  rfl

/-- A body of bytes reads back as the same bytes. -/
theorem bytes_bytesText (envelopeText : BaseError → String) {bs : List Nat} (h : IsBytes bs) :
    (Body.text (bytesText bs)).bytes envelopeText = bs := by
  show (bs.map Char.ofNat).map Char.toNat = bs
  rw [List.map_map]
  conv_rhs => rw [← List.map_id bs]
  exact List.map_congr_left fun c hc => toNat_ofNat_byte (h c hc)

/-! ## The handlers -/

/-- The `Accept` header the client sets on every request. -/
def acceptJson : String := "application/json"

/-- `transport.JSONResponse(w, r, result)` for a result that `json.Marshal` writes as `body`. -/
def jsonResponse (body : List Nat) : Response :=
  ⟨200, "application/json; charset=utf-8", .text (bytesText body)⟩

section Handlers

variable (coverAllError : GoError → BaseError) (negotiate : String → String)

/-- The end of the handlers whose result is JSON: `ErrorResponse` for an error, else
`JSONResponse` of the result. `write` is `json.Marshal` of the result's type, which does not fail
for the types written here; `accept` is the request's `Accept` header and `negotiate` stands for
`negotiateContentType(r, []string{"application/json", "text/plain"})`. -/
def HTTPService.respond {α : Type} (write : α → List Nat) (accept : String) : Except GoError α → Response
  | .ok res => jsonResponse (write res)
  | .error e => errorResponse coverAllError accept (negotiate accept) e

/-- `HTTPService.SyncStatus`, with `svc` the service's `SyncStatus` for the request's instance. -/
def HTTPService.syncStatus (svc : Bytes → Except GoError (Option (List (List Nat))))
    (accept : String) (r : Request) : Response :=
  HTTPService.respond coverAllError negotiate marshalStrings accept (svc (muxVar r "ref"))

/-- `HTTPService.Export`, with `svc` the outcome of the service's `Export` for the request's
instance. -/
def HTTPService.export (svc : Except GoError (Option (List UInt8))) (accept : String)
    (_r : Request) : Response :=
  HTTPService.respond coverAllError negotiate marshalBytes accept svc

/-- `HTTPService.UpdateImages`: the call `updateImagesHandler` makes of the request, or a
failure it answers with `transport.WriteError(w, r, 400, err)`, which is `badRequest`, as the
`json.Marshal` of a wrapped error is not modelled; then the service's `UpdateImages` on that call,
and the job ID it returns as JSON. -/
def HTTPService.updateImages (quote : Bytes → String)
    (parseServiceSpec parseImageSpec parseReleaseKind parseServiceID : Bytes → Except GoError Bytes)
    (badRequest : Nat × GoError → Response) (svc : Call → Except GoError (List Nat))
    (accept : String) (r : Request) : Response :=
  match updateImagesHandler quote parseServiceSpec parseImageSpec parseReleaseKind parseServiceID r with
  | .error err => badRequest err
  | .ok call => HTTPService.respond coverAllError negotiate (fun id => marshal (.str id)) accept
      (svc call)

/-- `HTTPService.LogEvent`: the event `json.NewDecoder(r.Body).Decode(&event)` reads from the
body, or `transport.WriteError(w, r, 400, err)` of the decoder's error, which is `badRequest`;
then `ErrorResponse` of the service's error, or `w.WriteHeader(200)` with no body. -/
def HTTPService.logEvent {E : Type} (storeEvent : JVal → Except ReadError E)
    (badRequest : ReadError → Response) (sniffed : String) (svc : E → Except GoError Unit)
    (accept : String) (_r : Request) (body : List Nat) : Response :=
  match readFirst body >>= storeEvent with
  | .error err => badRequest err
  | .ok event =>
    match svc event with
    | .ok () => ⟨200, sniffed, .text ""⟩
    | .error e => errorResponse coverAllError accept (negotiate accept) e

/-- `HTTPService.UpdatePolicies`: the updates `json.NewDecoder(r.Body).Decode(&updates)` reads
from the body, or `transport.WriteError(w, r, 400, err)` of the decoder's error, which is
`badRequest`; then the service's `UpdatePolicies` of them, and the job ID it returns as JSON. -/
def HTTPService.updatePolicies {U : Type} (storeUpdates : JVal → Except ReadError U)
    (badRequest : ReadError → Response) (svc : U → Except GoError (List Nat)) (accept : String)
    (_r : Request) (body : List Nat) : Response :=
  match readFirst body >>= storeUpdates with
  | .error err => badRequest err
  | .ok updates =>
    HTTPService.respond coverAllError negotiate (fun id => marshal (.str id)) accept (svc updates)

/-- `WriteError(w, r, code, err)` for `err` a `flux.UserConfigProblem`, which embeds a
`*flux.BaseError` but is not one: `json.Marshal` writes the envelope of the embedded error, and
the text branch, finding no `*flux.BaseError`, writes `err.Error()`, the message. -/
def writeErrorUserConfigProblem (accept negotiated : String) (code : Nat) (b : BaseError) :
    Response :=
  if accept.length > 0 ∧ negotiated = "application/json" then
    ⟨code, "application/json; charset=utf-8", .envelope b⟩
  else if accept.length > 0 ∧ negotiated = "text/plain" then
    ⟨code, "text/plain; charset=utf-8", .text b.message⟩
  else ⟨code, "text/plain; charset=utf-8", .text b.message⟩

/-- `HTTPService.IsConnected`: `w.WriteHeader(204)` when the daemon is connected; for an error that
is itself a `flux.UserConfigProblem`, `WriteError` with 404, the "cannot contact" contract; and
`ErrorResponse` for any other error. -/
def HTTPService.isConnected (sniffed : String) (svc : Option GoError) (accept : String)
    (_r : Request) : Response :=
  match svc with
  | none => ⟨204, sniffed, .text ""⟩
  | some (.userConfigProblem b) => writeErrorUserConfigProblem accept (negotiate accept) 404 b
  | some e => errorResponse coverAllError accept (negotiate accept) e

end Handlers

/-! ## The client -/

section Client

variable (errorUnauthorized : GoError) (decodeFailure : String → GoError)
  (envelopeText : BaseError → String) (readError : ReadError → GoError)

/-- `if err := decode(...); err != nil { return errors.Wrap(err, "decoding response from server") }`:
`read` is the decoder, `store` fills the destination from the value read, and `readError`
stands for the error values of `encoding/json` and `encoding/base64`. -/
def Client.decodeResponse {α : Type} (read : List Nat → Except ReadError JVal)
    (store : JVal → Except ReadError α) (bs : List Nat) : Except GoError α :=
  (read bs >>= store).mapError fun e => (readError e).wrap "decoding response from server"

/-- `(*Client).get(dest, route, queryParams...)` from the response on, for `dest` a pointer to a
fresh value: `executeRequest`, then `json.NewDecoder(resp.Body).Decode(dest)`. -/
def Client.get {α : Type} (store : JVal → Except ReadError α) (resp : Response) :
    Except GoError α :=
  match executeRequest errorUnauthorized decodeFailure envelopeText resp with
  | .error e => .error (e.wrap "executing HTTP request")
  | .ok resp => Client.decodeResponse readError readFirst store (resp.body.bytes envelopeText)

/-- `(*Client).methodWithResp(method, dest, route, body, queryParams...)` from the response on:
an empty body leaves the destination as it was, `zero`; any other goes through
`json.Unmarshal(respBytes, &dest)`. -/
def Client.methodWithResp {α : Type} (zero : α) (store : JVal → Except ReadError α) (resp : Response) :
    Except GoError α :=
  match executeRequest errorUnauthorized decodeFailure envelopeText resp with
  | .error e => .error (e.wrap "executing HTTP request")
  | .ok resp =>
    if (resp.body.bytes envelopeText).length ≤ 0 then .ok zero
    else Client.decodeResponse readError readWhole store (resp.body.bytes envelopeText)

/-- `(*Client).SyncStatus(ref)`: `c.get(&res, "SyncStatus", "ref", ref)` into a `[]string`;
`server` is the handler of the route. -/
def Client.syncStatus (server : Request → Response) (ref : Bytes) :
    Except GoError (Option (List (List Nat))) :=
  Client.get errorUnauthorized decodeFailure envelopeText readError storeStrings
    (server (Http.syncStatus ref))

/-- `(*Client).Export()`: `c.get(&res, "Export")` into a `[]byte`. -/
def Client.export (server : Request → Response) : Except GoError (Option (List UInt8)) :=
  Client.get errorUnauthorized decodeFailure envelopeText readError storeBytes
    (server ⟨"GET", "Export", makeQuery []⟩)

/-- `(*Client).UpdateImages(s)`: `c.methodWithResp("POST", &res, "UpdateImages", nil, args...)`
into a `job.ID`. -/
def Client.updateImages (server : Request → Response) (s : ReleaseSpec) :
    Except GoError (List Nat) :=
  Client.methodWithResp errorUnauthorized decodeFailure envelopeText readError [] (storeString "job.ID")
    (server (Http.updateImages s))

/-- `(*Client).LogEvent(event)`: `c.postWithBody("LogEvent", event)`, which is `methodWithResp`
with a nil destination and the event as the body. `marshalEvent` is `json.Marshal` of a
`history.Event`, whose error is wrapped as `"encoding request body"`; the handler of the route is
given the request and its body. -/
def Client.logEvent {E : Type} (marshalEvent : E → Except GoError (List Nat))
    (server : Request → List Nat → Response) (event : E) : Except GoError Unit :=
  match marshalEvent event with
  | .error e => .error (e.wrap "encoding request body")
  | .ok body =>
    Client.methodWithResp errorUnauthorized decodeFailure envelopeText readError () (fun _ => .ok ())
      (server ⟨"POST", "LogEvent", makeQuery []⟩ body)

/-- `(*Client).UpdatePolicies(updates)`: `c.methodWithResp("PATCH", &res, "UpdatePolicies",
updates)` into a `job.ID`, with the updates as the body; `marshalUpdates` is `json.Marshal` of a
`policy.Updates`. -/
def Client.updatePolicies {U : Type} (marshalUpdates : U → Except GoError (List Nat))
    (server : Request → List Nat → Response) (updates : U) : Except GoError (List Nat) :=
  match marshalUpdates updates with
  | .error e => .error (e.wrap "encoding request body")
  | .ok body =>
    Client.methodWithResp errorUnauthorized decodeFailure envelopeText readError []
      (storeString "job.ID") (server ⟨"PATCH", "UpdatePolicies", makeQuery []⟩ body)

end Client

/-! ## From the handler to the client -/

section RoundTrip

variable (coverAllError : GoError → BaseError) (negotiate : String → String)
  (errorUnauthorized : GoError) (decodeFailure : String → GoError)
  (envelopeText : BaseError → String) (readError : ReadError → GoError)

/-- For a request that accepts and negotiates JSON, `executeRequest` returns the
`*flux.BaseError` that `ErrorResponse` picked, whatever status it wrote. -/
theorem executeRequest_errorResponse {accept : String} (ha : 0 < accept.length) (e : GoError) :
    executeRequest errorUnauthorized decodeFailure envelopeText
        (errorResponse coverAllError accept "application/json" e) =
      .error (.base (classify coverAllError e).2) := by
  have hs := kindStatus_cases e.cause
  rw [errorResponse, classify_status, writeError, if_pos ⟨ha, rfl⟩, executeRequest]
  dsimp only
  rw [if_neg (by omega), if_neg (by omega), if_pos hasPrefix_json]

/-- A result written by `JSONResponse` as bytes is decoded by `get` from those bytes. -/
theorem get_respond_ok {α : Type} (store : JVal → Except ReadError α) (write : α → List Nat)
    (accept : String) {v : α} (hb : IsBytes (write v)) :
    Client.get errorUnauthorized decodeFailure envelopeText readError store
        (HTTPService.respond coverAllError negotiate write accept (.ok v)) =
      Client.decodeResponse readError readFirst store (write v) := by
  rw [HTTPService.respond, jsonResponse, Client.get, executeRequest, if_pos (.inl rfl)]
  dsimp only
  rw [bytes_bytesText envelopeText hb]

/-- An error written by `ErrorResponse` for a client that negotiates JSON reaches `get` as the
`*flux.BaseError` picked for it. -/
theorem get_respond_error {α : Type} (store : JVal → Except ReadError α) (write : α → List Nat)
    (hneg : negotiate acceptJson = "application/json") (e : GoError) :
    Client.get errorUnauthorized decodeFailure envelopeText readError store
        (HTTPService.respond coverAllError negotiate write acceptJson (.error e)) =
      .error ((GoError.base (classify coverAllError e).2).wrap "executing HTTP request") := by
  rw [HTTPService.respond, hneg, Client.get,
    executeRequest_errorResponse coverAllError errorUnauthorized decodeFailure envelopeText
      (by decide) e]

/-- A result written by `JSONResponse` as bytes, not empty, is decoded by `methodWithResp` from
those bytes. -/
theorem methodWithResp_respond_ok {α : Type} (zero : α) (store : JVal → Except ReadError α)
    (write : α → List Nat) (accept : String) {v : α} (hb : IsBytes (write v))
    (hne : write v ≠ []) :
    Client.methodWithResp errorUnauthorized decodeFailure envelopeText readError zero store
        (HTTPService.respond coverAllError negotiate write accept (.ok v)) =
      Client.decodeResponse readError readWhole store (write v) := by
  rw [HTTPService.respond, jsonResponse, Client.methodWithResp, executeRequest, if_pos (.inl rfl)]
  dsimp only
  rw [bytes_bytesText envelopeText hb, if_neg (by simpa [List.length_eq_zero] using hne)]

/-- An error written by `ErrorResponse` for a client that negotiates JSON reaches
`methodWithResp` as the `*flux.BaseError` picked for it. -/
theorem methodWithResp_respond_error {α : Type} (zero : α) (store : JVal → Except ReadError α)
    (write : α → List Nat) (hneg : negotiate acceptJson = "application/json") (e : GoError) :
    Client.methodWithResp errorUnauthorized decodeFailure envelopeText readError zero store
        (HTTPService.respond coverAllError negotiate write acceptJson (.error e)) =
      .error ((GoError.base (classify coverAllError e).2).wrap "executing HTTP request") := by
  rw [HTTPService.respond, hneg, Client.methodWithResp,
    executeRequest_errorResponse coverAllError errorUnauthorized decodeFailure envelopeText
      (by decide) e]

/-- A job ID that `JSONResponse` wrote, or an error that `ErrorResponse` wrote, as
`methodWithResp` reads it into a `job.ID`: the ID coerced to valid UTF-8, or the
`*flux.BaseError` picked for the error. -/
theorem methodWithResp_jobID (hneg : negotiate acceptJson = "application/json")
    (x : Except GoError (List Nat)) :
    Client.methodWithResp errorUnauthorized decodeFailure envelopeText readError []
        (storeString "job.ID")
        (HTTPService.respond coverAllError negotiate (fun id => marshal (.str id)) acceptJson x) =
      match x with
      | .ok id => .ok (coerce id)
      | .error e => .error ((GoError.base (classify coverAllError e).2).wrap "executing HTTP request") := by
  cases x with
  | ok id =>
    rw [methodWithResp_respond_ok _ _ _ _ _ _ _ _ (fun id => marshal (.str id)) _
      (marshal_isBytes (.str id))
      (by simp [marshal, encodeString]), Client.decodeResponse, readWhole_string]
    rfl
  | error e => exact methodWithResp_respond_error _ _ _ _ _ _ _ _ _ hneg e

/-- `Client.SyncStatus` against `HTTPService.SyncStatus`, for every ref and every outcome of the
service: the service's strings, each coerced to valid UTF-8, and a nil slice nil; or the
`*flux.BaseError` that `ErrorResponse` picked for the service's error. -/
theorem syncStatus_roundTrip (hneg : negotiate acceptJson = "application/json")
    (svc : Bytes → Except GoError (Option (List (List Nat)))) (ref : Bytes) :
    Client.syncStatus errorUnauthorized decodeFailure envelopeText readError
        (HTTPService.syncStatus coverAllError negotiate svc acceptJson) ref =
      match svc ref with
      | .ok xs => .ok (xs.map (·.map coerce))
      | .error e => .error ((GoError.base (classify coverAllError e).2).wrap "executing HTTP request") := by
  rw [Client.syncStatus, HTTPService.syncStatus, Http.syncStatus, muxVar_getRequest]
  cases svc ref with
  | ok xs =>
    rw [get_respond_ok _ _ _ _ _ _ _ _ _ (marshalStrings_isBytes xs), Client.decodeResponse,
      readFirst_strings]
    rfl
  | error e => exact get_respond_error _ _ _ _ _ _ _ _ hneg e

/-- A byte of the service's string that starts no UTF-8 sequence comes back as U+FFFD. -/
theorem syncStatus_roundTrip_invalid_byte :
    id acceptJson = "application/json" ∧
      Client.syncStatus (.plain "unauthorized") (fun _ => .plain "") (fun _ => "")
          (fun _ => .plain "")
          (HTTPService.syncStatus (fun _ => ⟨"", ""⟩) id (fun _ => .ok (some [[0x61, 0xFF]]))
            acceptJson) (lit "master") =
        .ok (some [[0x61, 0xEF, 0xBF, 0xBD]]) :=
  ⟨rfl, (syncStatus_roundTrip (fun _ => ⟨"", ""⟩) id (.plain "unauthorized") (fun _ => .plain "")
    (fun _ => "") (fun _ => .plain "") rfl _ _).trans rfl⟩

/-- `Client.Export` against `HTTPService.Export`, for every outcome of the service: the service's
bytes, exactly, and a nil slice nil; or the `*flux.BaseError` that `ErrorResponse` picked for the
service's error. -/
theorem export_roundTrip (hneg : negotiate acceptJson = "application/json")
    (svc : Except GoError (Option (List UInt8))) :
    Client.export errorUnauthorized decodeFailure envelopeText readError
        (HTTPService.export coverAllError negotiate svc acceptJson) =
      match svc with
      | .ok v => .ok v
      | .error e => .error ((GoError.base (classify coverAllError e).2).wrap "executing HTTP request") := by
  rw [Client.export, HTTPService.export]
  cases svc with
  | ok v =>
    rw [get_respond_ok _ _ _ _ _ _ _ _ _ (marshalBytes_isBytes v), Client.decodeResponse,
      readFirst_bytes]
    rfl
  | error e => exact get_respond_error _ _ _ _ _ _ _ _ hneg e

/-- Bytes that are not text, and a slice whose length is no multiple of three, come back as they
were. -/
theorem export_roundTrip_binary :
    id acceptJson = "application/json" ∧
      Client.export (.plain "unauthorized") (fun _ => .plain "") (fun _ => "") (fun _ => .plain "")
          (HTTPService.export (fun _ => ⟨"", ""⟩) id (.ok (some [0x00, 0xFF, 0x0A, 0x22])) acceptJson) =
        .ok (some [0x00, 0xFF, 0x0A, 0x22]) :=
  ⟨rfl, export_roundTrip (fun _ => ⟨"", ""⟩) id (.plain "unauthorized") (fun _ => .plain "")
    (fun _ => "") (fun _ => .plain "") rfl _⟩

/-- `Client.UpdateImages` against `HTTPService.UpdateImages`, for every release spec the handler
reads back from the client's request (`FluxProofs.Http.Api` says when) and every outcome of the
service: the service's job ID coerced to valid UTF-8, or the `*flux.BaseError` that
`ErrorResponse` picked for the service's error. -/
theorem updateImages_roundTrip (hneg : negotiate acceptJson = "application/json")
    (quote : Bytes → String)
    (parseServiceSpec parseImageSpec parseReleaseKind parseServiceID : Bytes → Except GoError Bytes)
    (badRequest : Nat × GoError → Response) (svc : Call → Except GoError (List Nat))
    (spec : ReleaseSpec)
    (hargs : updateImagesHandler quote parseServiceSpec parseImageSpec parseReleaseKind
      parseServiceID (Http.updateImages spec) = .ok (.updateImages spec)) :
    Client.updateImages errorUnauthorized decodeFailure envelopeText readError
        (HTTPService.updateImages coverAllError negotiate quote parseServiceSpec parseImageSpec
          parseReleaseKind parseServiceID badRequest svc acceptJson) spec =
      match svc (.updateImages spec) with
      | .ok id => .ok (coerce id)
      | .error e => .error ((GoError.base (classify coverAllError e).2).wrap "executing HTTP request") := by
  rw [Client.updateImages, HTTPService.updateImages, hargs]
  exact methodWithResp_jobID coverAllError negotiate errorUnauthorized decodeFailure envelopeText
    readError hneg _

/-- A release with one service spec, whose job ID is not valid UTF-8. -/
def smallRelease : ReleaseSpec := ⟨[lit "default/helloworld"], lit "quay.io/app:1", lit "plan", [],
  ⟨lit "jane", []⟩⟩

theorem updateImages_roundTrip_small :
    id acceptJson = "application/json" ∧
      updateImagesHandler (fun _ => "") Except.ok Except.ok Except.ok Except.ok
          (Http.updateImages smallRelease) = .ok (.updateImages smallRelease) ∧
      Client.updateImages (.plain "unauthorized") (fun _ => .plain "") (fun _ => "")
          (fun _ => .plain "")
          (HTTPService.updateImages (fun _ => ⟨"", ""⟩) id (fun _ => "") Except.ok Except.ok
            Except.ok Except.ok (fun _ => ⟨400, "", .text ""⟩) (fun _ => .ok [0x6A, 0xC0])
            acceptJson) smallRelease =
        .ok [0x6A, 0xEF, 0xBF, 0xBD] :=
  ⟨rfl, rfl, (updateImages_roundTrip (fun _ => ⟨"", ""⟩) id (.plain "unauthorized")
    (fun _ => .plain "") (fun _ => "") (fun _ => .plain "") rfl (fun _ => "") Except.ok Except.ok
    Except.ok Except.ok (fun _ => ⟨400, "", .text ""⟩) (fun _ => .ok [0x6A, 0xC0]) smallRelease
    rfl).trans rfl⟩

/-- `Client.UpdatePolicies` against `HTTPService.UpdatePolicies`, for every value of updates whose
JSON the handler decodes back to it and every outcome of the service: the service is given the
updates, and the client gets the job ID it returned, coerced to valid UTF-8; a failure is the error
of `json.Marshal`, or the `*flux.BaseError` that `ErrorResponse` picked for the service's error. -/
theorem updatePolicies_roundTrip {U : Type} (hneg : negotiate acceptJson = "application/json")
    (marshalUpdates : U → Except GoError (List Nat)) (storeUpdates : JVal → Except ReadError U)
    (badRequest : ReadError → Response) (svc : U → Except GoError (List Nat)) (updates : U)
    (hcodec : ∀ bs, marshalUpdates updates = .ok bs →
      (readFirst bs >>= storeUpdates) = .ok updates) :
    Client.updatePolicies errorUnauthorized decodeFailure envelopeText readError marshalUpdates
        (HTTPService.updatePolicies coverAllError negotiate storeUpdates badRequest svc acceptJson)
        updates =
      match marshalUpdates updates with
      | .error e => .error (e.wrap "encoding request body")
      | .ok _ =>
        match svc updates with
        | .ok id => .ok (coerce id)
        | .error e => .error ((GoError.base (classify coverAllError e).2).wrap "executing HTTP request") := by
  unfold Client.updatePolicies
  cases hm : marshalUpdates updates with
  | error e => rfl
  | ok bs =>
    dsimp only
    rw [HTTPService.updatePolicies, hcodec bs hm]
    exact methodWithResp_jobID coverAllError negotiate errorUnauthorized decodeFailure envelopeText
      readError hneg _

/-- Updates written as a JSON string, and a job ID. -/
theorem updatePolicies_roundTrip_lock :
    id acceptJson = "application/json" ∧
      (∀ bs, (fun u : List Nat => (Except.ok (marshal (.str u)) : Except GoError (List Nat)))
        [0x6C, 0x6F, 0x63, 0x6B] = .ok bs →
        (readFirst bs >>= storeString "policy.Updates") = .ok [0x6C, 0x6F, 0x63, 0x6B]) ∧
      Client.updatePolicies (.plain "unauthorized") (fun _ => .plain "") (fun _ => "")
          (fun _ => .plain "") (fun u => .ok (marshal (.str u)))
          (HTTPService.updatePolicies (fun _ => ⟨"", ""⟩) id (storeString "policy.Updates")
            (fun _ => ⟨400, "", .text ""⟩) (fun _ => .ok [0x6A, 0x31]) acceptJson)
          [0x6C, 0x6F, 0x63, 0x6B] = .ok [0x6A, 0x31] :=
  have hcodec : ∀ bs, (fun u : List Nat => (Except.ok (marshal (.str u)) : Except GoError (List Nat)))
      [0x6C, 0x6F, 0x63, 0x6B] = .ok bs →
      (readFirst bs >>= storeString "policy.Updates") = .ok [0x6C, 0x6F, 0x63, 0x6B] :=
    fun bs h => by cases h; rfl
  ⟨rfl, hcodec, (updatePolicies_roundTrip (fun _ => ⟨"", ""⟩) id (.plain "unauthorized")
    (fun _ => .plain "") (fun _ => "") (fun _ => .plain "") rfl _ _ _ _ _ hcodec).trans rfl⟩

end RoundTrip

end Flux.Http
