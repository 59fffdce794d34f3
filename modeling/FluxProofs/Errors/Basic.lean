/-
Go `error` values as this code looks into them: the classified errors of the `flux` and
`fluxerr` packages, plain errors, and the wrappers of `github.com/pkg/errors`, with `Error()`
and `errors.Cause`.

`flux.BaseError` and `fluxerr.Error` belong to packages src/ does not include; both are modelled
from the spec (a classified error carries a machine message and a help string), and neither has a
`Cause` method, so `errors.Cause` stops at them.
-/
import Mathlib.Data.String.Basic

namespace Flux.Errors

/-- Modelled from the spec: `*fluxerr.Error`, the envelope of the RPC responses, with its kind,
its help text for the user and the message of the error it wraps. -/
structure FluxError where
  type : String
  help : String
  message : String
  deriving DecidableEq, Repr

/-- Modelled from the spec: `*flux.BaseError`, the envelope of the HTTP error responses, with its
help text for the user and the message of the error it wraps. -/
structure BaseError where
  help : String
  message : String
  deriving DecidableEq, Repr

/-- A non-nil Go `error`. -/
inductive GoError where
  /-- `errors.New`, `fmt.Errorf`: no cause. -/
  | plain (msg : String)
  /-- `*fluxerr.Error` -/
  | fluxErr (e : FluxError)
  /-- `*flux.BaseError` -/
  | base (b : BaseError)
  /-- `flux.Missing{b}` -/
  | missing (b : BaseError)
  /-- `flux.UserConfigProblem{b}` -/
  | userConfigProblem (b : BaseError)
  /-- `flux.ServerException{b}` -/
  | serverException (b : BaseError)
  /-- `errors.WithMessage(cause, msg)` -/
  | withMessage (msg : String) (cause : GoError)
  /-- `errors.WithStack(cause)` -/
  | withStack (cause : GoError)
  deriving DecidableEq, Repr

namespace GoError

/-- `err.Error()`; the kinds of `flux` embed `*BaseError` and take its method. -/
def error : GoError → String
  | .plain msg => msg
  | .fluxErr e => e.message
  | .base b | .missing b | .userConfigProblem b | .serverException b => b.message
  | .withMessage msg cause => msg ++ ": " ++ cause.error
  | .withStack cause => cause.error

/-- `errors.Cause(err)`: unwrap while the error has a `Cause` method. -/
def cause : GoError → GoError
  | .withMessage _ c | .withStack c => c.cause
  | e => e

/-- `errors.Wrap(err, msg)` of a non-nil `err`. -/
def wrap (e : GoError) (msg : String) : GoError := .withStack (.withMessage msg e)

/-- No wrapper is left: `errors.Cause` returns the error itself. -/
def Unwrapped : GoError → Prop
  | .withMessage .. | .withStack _ => False
  | _ => True

@[simp] theorem cause_withMessage (msg : String) (e : GoError) :
    (withMessage msg e).cause = e.cause := rfl

@[simp] theorem cause_withStack (e : GoError) : (withStack e).cause = e.cause := rfl

@[simp] theorem cause_wrap (e : GoError) (msg : String) : (e.wrap msg).cause = e.cause := rfl

theorem cause_of_unwrapped {e : GoError} (h : e.Unwrapped) : e.cause = e := by
  cases e <;> first | rfl | exact h.elim

theorem cause_unwrapped : ∀ e : GoError, e.cause.Unwrapped
  | .withMessage _ c | .withStack c => cause_unwrapped c
  | .plain _ | .fluxErr _ | .base _ | .missing _ | .userConfigProblem _ | .serverException _ =>
    trivial

@[simp] theorem cause_cause (e : GoError) : e.cause.cause = e.cause :=
  cause_of_unwrapped (cause_unwrapped e)

end GoError

end Flux.Errors
