/-
Errors across the HTTP boundary: `ErrorResponse` and `WriteError` on the server
(src/unnamed/part_000), and `(*Client).executeRequest` on the client (src/http/client/client.go).

The server chooses the status from the kind of `errors.Cause` of the error and writes its
`*flux.BaseError`; the client reads a JSON error body back into a `*flux.BaseError` and returns
it whatever the status was. So the three kinds come back to the caller as the same error
(`executeRequest_loses_kind`): only the help text and the message cross.

`negotiateContentType`, `flux.CoverAllError` and `transport.ErrorUnauthorized` are not in src/;
they are parameters. The envelope `json.Marshal` writes for a `*flux.BaseError` is modelled from
the spec: it carries the help text and the message, and decoding it gives them back.
-/
import FluxProofs.Errors.Basic

namespace Flux.Http

open Flux.Errors

/-! ## Responses -/

/-- Modelled from the spec: the body of a response, the JSON envelope of a `*flux.BaseError`
(its help text and message, which `json.Unmarshal` into a `flux.BaseError` reads back), or text. -/
inductive Body where
  | envelope (b : BaseError)
  | text (s : String)
  deriving DecidableEq, Repr

/-- What a handler leaves in its `http.ResponseWriter`. -/
structure Response where
  status : Nat
  contentType : String
  body : Body
  deriving DecidableEq, Repr

/-- The `statusText` map of Go 1.7's net/http: the text of each code it lists. -/
def statusTextTable : Nat → Option String
  | 100 => some "Continue"
  | 101 => some "Switching Protocols"
  | 102 => some "Processing"
  | 200 => some "OK"
  | 201 => some "Created"
  | 202 => some "Accepted"
  | 203 => some "Non-Authoritative Information"
  | 204 => some "No Content"
  | 205 => some "Reset Content"
  | 206 => some "Partial Content"
  | 207 => some "Multi-Status"
  | 208 => some "Already Reported"
  | 226 => some "IM Used"
  | 300 => some "Multiple Choices"
  | 301 => some "Moved Permanently"
  | 302 => some "Found"
  | 303 => some "See Other"
  | 304 => some "Not Modified"
  | 305 => some "Use Proxy"
  | 307 => some "Temporary Redirect"
  | 308 => some "Permanent Redirect"
  | 400 => some "Bad Request"
  | 401 => some "Unauthorized"
  | 402 => some "Payment Required"
  | 403 => some "Forbidden"
  | 404 => some "Not Found"
  | 405 => some "Method Not Allowed"
  | 406 => some "Not Acceptable"
  | 407 => some "Proxy Authentication Required"
  | 408 => some "Request Timeout"
  | 409 => some "Conflict"
  | 410 => some "Gone"
  | 411 => some "Length Required"
  | 412 => some "Precondition Failed"
  | 413 => some "Request Entity Too Large"
  | 414 => some "Request URI Too Long"
  | 415 => some "Unsupported Media Type"
  | 416 => some "Requested Range Not Satisfiable"
  | 417 => some "Expectation Failed"
  | 418 => some "I\x27m a teapot"
  | 422 => some "Unprocessable Entity"
  | 423 => some "Locked"
  | 424 => some "Failed Dependency"
  | 426 => some "Upgrade Required"
  | 428 => some "Precondition Required"
  | 429 => some "Too Many Requests"
  | 431 => some "Request Header Fields Too Large"
  | 451 => some "Unavailable For Legal Reasons"
  | 500 => some "Internal Server Error"
  | 501 => some "Not Implemented"
  | 502 => some "Bad Gateway"
  | 503 => some "Service Unavailable"
  | 504 => some "Gateway Timeout"
  | 505 => some "HTTP Version Not Supported"
  | 506 => some "Variant Also Negotiates"
  | 507 => some "Insufficient Storage"
  | 508 => some "Loop Detected"
  | 510 => some "Not Extended"
  | 511 => some "Network Authentication Required"
  | _ => none

/-- `strings.HasPrefix(s, prefix)`, on characters. -/
def hasPrefix (s pre : String) : Bool := pre.toList.isPrefixOf s.toList

theorem hasPrefix_json : hasPrefix "application/json; charset=utf-8" "application/json" = true := by
  decide

/-- `fmt.Sprintf("%03d", n)` -/
def pad3 (n : Nat) : String :=
  (if n < 10 then "00" else if n < 100 then "0" else "") ++ toString n

/-- `resp.Status`: what follows the protocol in the status line net/http writes, the code and its
text, or, for a code with no text, `%03d status code %d`. -/
def Response.statusLine (r : Response) : String :=
  match statusTextTable r.status with
  | some text => toString r.status ++ " " ++ text
  | none => pad3 r.status ++ " status code " ++ toString r.status

/-! ## The server -/

section Server

/-- `WriteError(w, r, code, err)` for `err` a `*flux.BaseError`. `accept` is the request's
`Accept` header and `negotiated` what `negotiateContentType(r, ...)` returns for it. -/
def writeError (accept negotiated : String) (code : Nat) (err : BaseError) : Response :=
  if accept.length > 0 ∧ negotiated = "application/json" then
    ⟨code, "application/json; charset=utf-8", .envelope err⟩
  else if accept.length > 0 ∧ negotiated = "text/plain" then
    ⟨code, "text/plain; charset=utf-8", .text err.help⟩
  else ⟨code, "text/plain; charset=utf-8", .text err.message⟩

variable (coverAllError : GoError → BaseError)

/-- The status and `*flux.BaseError` `ErrorResponse` picks for an error, by the kind of its
cause. -/
def classify (apiError : GoError) : Nat × BaseError :=
  match apiError.cause with
  | .missing b => (404, b)
  | .userConfigProblem b => (422, b)
  | .serverException b => (500, b)
  | _ => (500, coverAllError apiError)

/-- `ErrorResponse(w, r, apiError)` -/
def errorResponse (accept negotiated : String) (apiError : GoError) : Response :=
  writeError accept negotiated (classify coverAllError apiError).1
    (classify coverAllError apiError).2

end Server

/-! ## The client -/

section Client

variable (errorUnauthorized : GoError) (decodeFailure : String → GoError)
  (envelopeText : BaseError → String)

/-- The body as `ioutil.ReadAll` gives it; `envelopeText` stands for the bytes of an envelope. -/
def Body.read : Body → String
  | .text s => s
  | .envelope b => envelopeText b

/-- `(*Client).executeRequest` once the server's response is in: a success status passes the
response on; 401 is `transport.ErrorUnauthorized`; any other status is an error, the decoded
`flux.BaseError` for a JSON content type and the status line with the body otherwise.
`decodeFailure` stands for the error of `json.Decoder` on a body that is not an envelope. -/
def executeRequest (resp : Response) : Except GoError Response :=
  if resp.status = 200 ∨ resp.status = 201 ∨ resp.status = 204 then .ok resp
  else if resp.status = 401 then .error errorUnauthorized
  else if hasPrefix resp.contentType "application/json" then
    match resp.body with
    | .envelope b => .error (.base b)
    | .text s => .error ((decodeFailure s).wrap "decoding error in response body")
  else .error (.plain (resp.statusLine ++ " " ++ resp.body.read envelopeText))

end Client

/-! ## What crosses -/

/-- The status `ErrorResponse` gives each kind of cause. -/
def kindStatus : GoError → Nat
  | .missing _ => 404
  | .userConfigProblem _ => 422
  | _ => 500

theorem classify_status (coverAllError : GoError → BaseError) (e : GoError) :
    (classify coverAllError e).1 = kindStatus e.cause := by
  unfold classify
  split <;> simp_all [kindStatus]

theorem kindStatus_cases (e : GoError) :
    kindStatus e = 404 ∨ kindStatus e = 422 ∨ kindStatus e = 500 := by
  unfold kindStatus; split <;> simp

/-- For any error, under any wrappers, and a request that negotiates JSON: the response has the
status of the kind of the error's cause and the envelope of the `*BaseError` picked for it, and
the client returns that `*BaseError` itself, whatever the status was. So `Missing`,
`UserConfigProblem`, `ServerException` and an unclassified error all come back as a
`*flux.BaseError`: only the help text and the message cross, not the kind. -/
theorem executeRequest_loses_kind (coverAllError : GoError → BaseError)
    (errorUnauthorized : GoError) (decodeFailure : String → GoError)
    (envelopeText : BaseError → String) {accept : String} (ha : 0 < accept.length)
    (e : GoError) :
    errorResponse coverAllError accept "application/json" e =
        ⟨kindStatus e.cause, "application/json; charset=utf-8",
          .envelope (classify coverAllError e).2⟩ ∧
      executeRequest errorUnauthorized decodeFailure envelopeText
          (errorResponse coverAllError accept "application/json" e) =
        .error (.base (classify coverAllError e).2) := by
  have hr : errorResponse coverAllError accept "application/json" e =
      ⟨kindStatus e.cause, "application/json; charset=utf-8",
        .envelope (classify coverAllError e).2⟩ := by
    rw [errorResponse, classify_status]
    exact if_pos ⟨ha, rfl⟩
  refine ⟨hr, ?_⟩
  have hs := kindStatus_cases e.cause
  rw [hr, executeRequest]
  dsimp only
  rw [if_neg (by omega), if_neg (by omega), if_pos hasPrefix_json]

/-- A `flux.Missing` error, sent to a client that asks for JSON, is written with status 404 and
comes back as a `*flux.BaseError`. -/
theorem missing_comes_back_as_base_error :
    0 < "application/json".length ∧
      (errorResponse (fun _ => ⟨"", ""⟩) "application/json" "application/json"
          (.withStack (.missing ⟨"h", "gone"⟩)) =
        ⟨404, "application/json; charset=utf-8", .envelope ⟨"h", "gone"⟩⟩ ∧
      executeRequest (.plain "unauthorized") (fun _ => .plain "") (fun _ => "")
          (errorResponse (fun _ => ⟨"", ""⟩) "application/json" "application/json"
            (.withStack (.missing ⟨"h", "gone"⟩))) =
        .error (.base ⟨"h", "gone"⟩)) :=
  ⟨by decide, executeRequest_loses_kind (fun _ => ⟨"", ""⟩) (.plain "unauthorized")
    (fun _ => .plain "") (fun _ => "") (by decide) (.withStack (.missing ⟨"h", "gone"⟩))⟩

end Flux.Http
