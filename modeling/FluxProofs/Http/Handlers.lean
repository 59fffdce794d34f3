/-
Two handlers of `HTTPService` (src/api/api.go) that have no client here: `History`, which reads a
service spec and the query arguments `before`, `limit` and `simple` before it asks the service for
the history, and `PostIntegrationsGithub`, which generates a deploy key and installs a key on
GitHub, with the calls it makes.

`update.ParseServiceSpec`, `time.Parse`, `fmt.Sscan`, `time.Now`, `history.Entry` and its
`json.Marshal`, the GitHub client and `httperror.APIError` are not in src/; they are parameters.
-/
import FluxProofs.Http.Calls

namespace Flux.Http

open Flux.Errors Flux.Json

/-! ## Writing an error that is not a `*flux.BaseError` -/

/-- `WriteError(w, r, code, err)` for an `err` that is not a `*flux.BaseError`: `json.Marshal(err)`,
which `marshalErr` stands for, when JSON is negotiated, and `err.Error()` otherwise. -/
def writeErrorOther (marshalErr : GoError → String) (accept negotiated : String) (code : Nat)
    (err : GoError) : Response :=
  if accept.length > 0 ∧ negotiated = "application/json" then
    ⟨code, "application/json; charset=utf-8", .text (marshalErr err)⟩
  else if accept.length > 0 ∧ negotiated = "text/plain" then
    ⟨code, "text/plain; charset=utf-8", .text err.error⟩
  else ⟨code, "text/plain; charset=utf-8", .text err.error⟩

section Handlers

variable (coverAllError : GoError → BaseError) (negotiate : String → String)
  (marshalErr : GoError → String)

/-! ## `History` -/

/-- `history.Entry` as `History` handles it: `rest` stands for the fields it passes on as they
are, `event` for `Event`, the one field it writes. -/
structure Entry (α ε : Type) where
  rest : α
  event : Option ε
  deriving DecidableEq, Repr

/-- `h[i].Event = nil` -/
def Entry.simple {α ε : Type} (e : Entry α ε) : Entry α ε := { e with event := none }

/-- `if r.FormValue(key) != "" { v, err = parse(r.FormValue(key)) ... }`, with `v` starting at
`default`: an argument that is not there keeps the default, and one that does not parse fails with
the parser's error, which is plain. -/
def optionalArg {β : Type} (parse : Bytes → Except String β) (default : β) (s : Bytes) :
    Except GoError β :=
  if s ≠ [] then (parse s).mapError .plain else pure default

section History

variable {τ : Type} (parseTime : Bytes → Except String τ) (sscan : Bytes → Except String Int)
  (now : τ) (quote : Bytes → String)

/-- The `before` and `limit` of `History`: `time.Now().UTC()` and `-1` when the argument is not
there, else `time.Parse(time.RFC3339Nano, ...)` and `fmt.Sscan(..., &limit)` of it. -/
def historyArgs (form : Values) : Except GoError (τ × Int) := do
  let before ← optionalArg parseTime now (formValue form "before")
  let limit ← optionalArg sscan (-1) (formValue form "limit")
  pure (before, limit)

/-- `HTTPService.History`. `parseServiceSpec` returns the spec beside its error, as Go does, and
the handler's message quotes that spec, where `ListImages` quotes the request's service. With
`svc` the service's `History` for the request's instance, and `write` the `json.Marshal` of the
entries. A `before` or `limit` that does not parse goes to `ErrorResponse` as a plain error. -/
def HTTPService.history {α ε : Type} (parseServiceSpec : Bytes → Bytes × Option GoError)
    (svc : Bytes → τ → Int → Except GoError (List (Entry α ε)))
    (write : List (Entry α ε) → List Nat) (accept : String) (r : Request) : Response :=
  let form := (parseQuery r.rawQuery).1
  match parseServiceSpec (muxVar r "service") with
  | (spec, some err) => writeErrorOther marshalErr accept (negotiate accept) 400
      (err.wrap ("parsing service spec " ++ quote spec))
  | (spec, none) => HTTPService.respond coverAllError negotiate write accept do
      let (before, limit) ← historyArgs parseTime sscan now form
      let h ← svc spec before limit
      pure (if formValue form "simple" = lit "true" then h.map Entry.simple else h)

end History

/-! ## `PostIntegrationsGithub` -/

/-- The error of `gh.InsertDeployKey`: an `*httperror.APIError` with the status GitHub answered,
or any other error. -/
inductive InsertError where
  | apiError (statusCode : Nat) (err : GoError)
  | other (err : GoError)
  deriving DecidableEq, Repr

/-- A call `PostIntegrationsGithub` makes besides writing its response: the service's
`GenerateDeployKey`, and `InsertDeployKey` of a GitHub client made from a token. -/
inductive Effect where
  | generateDeployKey
  | insertDeployKey (token : String) (owner repo : Bytes) (key : String)
  deriving DecidableEq, Repr

/-- `HTTPService.PostIntegrationsGithub`, with the calls it makes: `generate` is the error of
the service's `GenerateDeployKey`, `insert` the error GitHub gives to `InsertDeployKey`, `token`
the request's `GithubToken` header, and `sniffed` the content type of a response with no body.
The key it installs is the literal `abc123`, not the one generated. -/
def HTTPService.postIntegrationsGithub (sniffed : String) (generate : Option GoError)
    (insert : String → Bytes → Bytes → String → Option InsertError) (accept : String)
    (r : Request) (token : String) : List Effect × Response :=
  let owner := muxVar r "owner"
  let repo := muxVar r "repository"
  if repo = [] ∨ owner = [] ∨ token = "" then
    ([], writeErrorOther marshalErr accept (negotiate accept) 422
      (.plain "repo, owner or token is empty"))
  else
    match generate with
    | some err => ([.generateDeployKey], errorResponse coverAllError accept (negotiate accept) err)
    | none =>
      let publicKey := "abc123"
      let calls := [.generateDeployKey, .insertDeployKey token owner repo publicKey]
      match insert token owner repo publicKey with
      | none => (calls, ⟨200, sniffed, .text ""⟩)
      | some (.apiError code err) =>
        (calls, writeErrorOther marshalErr accept (negotiate accept) code err)
      | some (.other err) => (calls, writeErrorOther marshalErr accept (negotiate accept) 500 err)

end Handlers

end Flux.Http
