/-
`logging` (src/api/api.go), the wrapper `NewHandler` puts around every handler: the handler writes
to a `teeWriter` over a `codeWriter` over the real `http.ResponseWriter`, and when it returns, the
wrapper logs the status code the `codeWriter` kept and, for any status other than 200, the body the
`teeWriter` kept, trimmed.

A handler's run is the list of its calls on the writer; both wrappers pass each call on to the
real writer unchanged. The wrapper logs the last status the handler wrote, or 200 when it wrote
none, and everything it wrote (`record_eq`). net/http sends the first status written before the
body, or 200, so the logged and the sent status agree for every run that writes its status at most
once and before its body (`logged_eq_sent`), as every handler of `FluxProofs.Http.Calls` writes
its response; a run that writes a second status, or one after its body, is logged with a status
the client never received.

`Header()`, `Hijack()`, the logger, the clock and the URL are not modelled: the log fields they
give do not depend on the calls.
-/
import FluxProofs.Http.Calls

namespace Flux.Http

open Flux.Errors

/-- A call a handler makes on its `http.ResponseWriter` that the wrappers see. -/
inductive WriterCall where
  | writeHeader (code : Nat)
  | write (p : List Nat)
  deriving DecidableEq, Repr

/-- What `logging`'s writers keep: `codeWriter.code` and `teeWriter.buf`. -/
structure Recorded where
  code : Nat
  buf : List Nat
  deriving DecidableEq, Repr

/-- One call through the wrappers: `(*codeWriter).WriteHeader` keeps the code, and
`(*teeWriter).Write` appends the bytes to its buffer; each then passes the call on. -/
def Recorded.step (w : Recorded) : WriterCall → Recorded
  | .writeHeader c => { w with code := c }
  | .write p => { w with buf := w.buf ++ p }

/-- `cw := &codeWriter{w, http.StatusOK}`, `tw := &teeWriter{cw, bytes.Buffer{}}`, then
`next.ServeHTTP(tw, r)` making its calls. -/
def record (calls : List WriterCall) : Recorded := calls.foldl Recorded.step ⟨200, []⟩

/-- The fields `logging` adds after the URL and the time: `status_code`, and `error` for a status
other than 200; `trimSpace` is `strings.TrimSpace`. -/
structure LogLine where
  statusCode : Nat
  error : Option (List Nat)
  deriving DecidableEq, Repr

/-- The log line of a run. -/
def logLine (trimSpace : List Nat → List Nat) (calls : List WriterCall) : LogLine :=
  ⟨(record calls).code, if (record calls).code ≠ 200 then some (trimSpace (record calls).buf) else none⟩

/-- The status net/http sends for a run: the first `WriteHeader` when it comes before any `Write`;
otherwise 200, sent with the first `Write` or when the handler returns, and a later `WriteHeader`
is superfluous. -/
def sentStatus : List WriterCall → Nat
  | .writeHeader c :: _ => c
  | _ => 200

/-! ## What the wrappers keep over a run -/

/-- The statuses a run writes, in order. -/
def headers (calls : List WriterCall) : List Nat :=
  calls.filterMap fun | .writeHeader c => some c | .write _ => none

/-- The bytes a run writes, in order. -/
def written (calls : List WriterCall) : List Nat :=
  calls.flatMap fun | .writeHeader _ => [] | .write p => p

@[simp] theorem headers_nil : headers [] = [] := rfl
@[simp] theorem headers_writeHeader (c : Nat) (l : List WriterCall) :
    headers (.writeHeader c :: l) = c :: headers l := rfl
@[simp] theorem headers_write (p : List Nat) (l : List WriterCall) :
    headers (.write p :: l) = headers l := rfl
@[simp] theorem written_nil : written [] = [] := rfl
@[simp] theorem written_writeHeader (c : Nat) (l : List WriterCall) :
    written (.writeHeader c :: l) = written l := rfl
@[simp] theorem written_write (p : List Nat) (l : List WriterCall) :
    written (.write p :: l) = p ++ written l := rfl

theorem foldl_step : ∀ (calls : List WriterCall) (w : Recorded),
    calls.foldl Recorded.step w = ⟨(headers calls).getLast?.getD w.code, w.buf ++ written calls⟩
  | [], w => by simp
  | .writeHeader c :: calls, w => by
    rw [List.foldl_cons, foldl_step calls]
    simp [Recorded.step, List.getLast?_cons]
  | .write p :: calls, w => by
    rw [List.foldl_cons, foldl_step calls]
    simp [Recorded.step]

/-- Over any run, the wrappers keep the last status the handler wrote, or 200, and all it wrote. -/
theorem record_eq (calls : List WriterCall) :
    record calls = ⟨(headers calls).getLast?.getD 200, written calls⟩ := by
  rw [record, foldl_step]
  rfl

/-- Over every run, the wrappers keep the last status the handler wrote, or 200, and all it wrote;
for every run that writes a status, if at all, only as its first call, the status logged is the
status sent. -/
theorem logged_eq_sent (calls : List WriterCall) :
    record calls = ⟨(headers calls).getLast?.getD 200, written calls⟩ ∧
      ((∀ x ∈ calls.tail, ∃ p, x = .write p) → (record calls).code = sentStatus calls) := by
  refine ⟨record_eq calls, fun h => ?_⟩
  have hw : ∀ l : List WriterCall, (∀ x ∈ l, ∃ p, x = .write p) → headers l = [] := fun l hl => by
    rw [headers, List.filterMap_eq_nil_iff]
    intro x hx
    obtain ⟨p, rfl⟩ := hl x hx
    rfl
  rw [record_eq]
  match calls, h with
  | [], _ => rfl
  | .writeHeader c :: rest, h => simp [hw rest h, sentStatus]
  | .write p :: rest, h => simp [hw rest h, sentStatus]

/-- `SyncNotify`'s success: `202` and no body, logged as sent. -/
theorem logged_eq_sent_accepted :
    (∀ x ∈ [WriterCall.writeHeader 202, .write []].tail, ∃ p, x = .write p) ∧
      (record [.writeHeader 202, .write []]).code = sentStatus [.writeHeader 202, .write []] :=
  ⟨fun _ hx => ⟨[], List.mem_singleton.mp hx⟩,
    (logged_eq_sent _).2 fun _ hx => ⟨[], List.mem_singleton.mp hx⟩⟩

end Flux.Http
