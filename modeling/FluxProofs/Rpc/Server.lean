/-
`rpc.RPCServer`, the daemon's side of the RPC layer (the `rpc` package in src/remote/mock.go):
each method passes one call on to the platform and fills the response net/rpc sends back. Only
`Export` and `ListServices` have an error envelope in their response, and they fill it
differently: `ListServices` looks at the cause of the platform's error and returns nil once the
envelope is set, `Export` looks at the error itself and returns it.

A method's result is given as the pair `(v, err)` the platform's method returned, so a statement
over every such pair is a statement over every platform. net/rpc (the standard library) sends the
error's message instead of the response when the message is not empty, and the response
otherwise; `ServeConn` serves it with the jsonrpc codec, which a message or a response crosses
unchanged as long as its strings are valid UTF-8, as Lean strings are.
-/
import FluxProofs.Errors.Basic

namespace Flux.Rpc

open Flux.Errors

/-! ## What net/rpc delivers -/

/-- How the caller's `Call` ends: with the response the method filled, or with a `ServerError`
holding the message of the error the method returned. -/
inductive CallResult (R : Type) where
  | reply (r : R)
  | serverError (msg : String)
  deriving DecidableEq, Repr

/-- net/rpc's `service.call` and `sendResponse`: the message is `err.Error()`, or `""` for a nil
error; a non-empty message replaces the response. -/
def deliver {R : Type} (r : R) : Option GoError → CallResult R
  | none => .reply r
  | some e => if e.error = "" then .reply r else .serverError e.error

/-- A method's response and returned error, as the caller receives them. -/
def rpcDeliver {R : Type} (m : R × Option GoError) : CallResult R := deliver m.1 m.2

/-! ## The methods -/

/-- `ExportResponse` -/
structure ExportResponse where
  result : List UInt8
  error : Option FluxError
  deriving DecidableEq, Repr

/-- `ListServicesResponse`, over the platform's `ServiceStatus` values. -/
structure ListServicesResponse (S : Type) where
  result : List S
  error : Option FluxError
  deriving DecidableEq, Repr

/-- `(*RPCServer).Export`, after the platform's `Export` returned `(v, err)`: the envelope is set
when `err` itself is a `*fluxerr.Error`, and `err` is returned either way. -/
def RPCServer.export (v : List UInt8) (err : Option GoError) : ExportResponse × Option GoError :=
  ({ result := v,
     error := match err with
      | some (.fluxErr e) => some e
      | _ => none }, err)

/-- `(*RPCServer).ListServices`, after the platform's `ListServices(namespace)` returned
`(v, err)`: when the cause of `err` is a `*fluxerr.Error`, it is set as the envelope and the method
returns nil; otherwise it returns `err`. -/
def RPCServer.listServices {S : Type} (v : List S) :
    Option GoError → ListServicesResponse S × Option GoError
  | none => ({ result := v, error := none }, none)
  | some err =>
    match err.cause with
    | .fluxErr helperr => ({ result := v, error := some helperr }, none)
    | _ => ({ result := v, error := none }, some err)

/-- The methods with no envelope: `*resp = v; return err`. -/
def passOn {R : Type} (v : R) (err : Option GoError) : R × Option GoError := (v, err)

/-- `(*RPCServer).Ping` -/
def RPCServer.ping (err : Option GoError) : Unit × Option GoError := passOn () err
/-- `(*RPCServer).Version` -/
def RPCServer.version (v : String) (err : Option GoError) : String × Option GoError :=
  passOn v err
/-- `(*RPCServer).ListImages`, over the platform's `ImageStatus` values. -/
def RPCServer.listImages {I : Type} (v : List I) (err : Option GoError) :
    List I × Option GoError := passOn v err
/-- `(*RPCServer).UpdateManifests`, over `job.ID`. -/
def RPCServer.updateManifests {J : Type} (v : J) (err : Option GoError) : J × Option GoError :=
  passOn v err
/-- `(*RPCServer).JobStatus`, over `job.Status`. -/
def RPCServer.jobStatus {J : Type} (v : J) (err : Option GoError) : J × Option GoError :=
  passOn v err
/-- `(*RPCServer).SyncStatus` -/
def RPCServer.syncStatus (v : List String) (err : Option GoError) :
    List String × Option GoError := passOn v err
/-- `(*RPCServer).PublicSSHKey`, over `ssh.PublicKey`. -/
def RPCServer.publicSSHKey {K : Type} (v : K) (err : Option GoError) : K × Option GoError :=
  passOn v err

/-! ## What reaches the caller -/

/-- For every platform error whose cause is a `*fluxerr.Error` `f`, under any wrappers:
`ListServices` delivers `f` as the envelope of its response, while `Export` returns the error, so
its caller receives the message and no response; only for an empty message does the response
arrive, with the envelope set when the error is `f` itself. -/
theorem export_differs_from_listServices {S : Type} (v : List UInt8) (vs : List S) (e : GoError)
    (f : FluxError) (hf : e.cause = .fluxErr f) :
    rpcDeliver (RPCServer.listServices vs (some e)) = .reply { result := vs, error := some f } ∧
      rpcDeliver (RPCServer.export v (some e)) =
        if e.error = "" then .reply { result := v, error := if e = .fluxErr f then some f else none }
        else .serverError e.error := by
  refine ⟨by simp only [RPCServer.listServices, hf]; rfl, ?_⟩
  cases e with
  | fluxErr g =>
    obtain rfl : g = f := by simpa [GoError.cause] using hf
    simp [rpcDeliver, RPCServer.export, deliver]
  | _ => simp [rpcDeliver, RPCServer.export, deliver]

/-- A classified error. -/
def boom : FluxError := { type := "user", help := "check the config", message := "boom" }

/-- The platform returns `boom` from both methods: `ListServices`' caller receives the envelope,
`Export`'s the message `boom` and no response. -/
theorem export_differs_from_listServices_boom :
    (GoError.fluxErr boom).cause = .fluxErr boom ∧
      rpcDeliver (RPCServer.listServices ([] : List Unit) (some (.fluxErr boom))) =
        .reply { result := [], error := some boom } ∧
      rpcDeliver (RPCServer.export [] (some (.fluxErr boom))) = .serverError "boom" :=
  ⟨rfl, (export_differs_from_listServices [] [] (.fluxErr boom) boom rfl).1,
    (export_differs_from_listServices [] ([] : List Unit) (.fluxErr boom) boom rfl).2.trans rfl⟩

end Flux.Rpc
