import Nzovu.Foundation.ErrorTree

/-!
# The Error Contract

Translation of `internal/domainerror`: what a client is told of an error that a handler returns.
Handlers prefix and wrap errors; the interceptor `ErrorContractInterceptor` turns the result into a
status by `ToGRPC`. The gRPC library's `status.FromError` is a parameter with its documented
behaviour.

- Section 1: errors and statuses.
- Section 2: the response to an error.
- Section 3: what a response tells of the texts within an error.
- Section 4: prefixes.
-/

namespace Nzovu.DomainError

open Nzovu.Foundation

/-! ## Section 1: Errors and statuses -/

/-- `codes.Code`; an error never has the code `OK`. -/
inductive Code where
  | canceled
  | unknown
  | invalidArgument
  | deadlineExceeded
  | notFound
  | alreadyExists
  | permissionDenied
  | resourceExhausted
  | failedPrecondition
  | aborted
  | outOfRange
  | unimplemented
  | internal
  | unavailable
  | dataLoss
  | unauthenticated
deriving DecidableEq

/-- `Code.String`. -/
def Code.name : Code → String
  | .canceled => "Canceled"
  | .unknown => "Unknown"
  | .invalidArgument => "InvalidArgument"
  | .deadlineExceeded => "DeadlineExceeded"
  | .notFound => "NotFound"
  | .alreadyExists => "AlreadyExists"
  | .permissionDenied => "PermissionDenied"
  | .resourceExhausted => "ResourceExhausted"
  | .failedPrecondition => "FailedPrecondition"
  | .aborted => "Aborted"
  | .outOfRange => "OutOfRange"
  | .unimplemented => "Unimplemented"
  | .internal => "Internal"
  | .unavailable => "Unavailable"
  | .dataLoss => "DataLoss"
  | .unauthenticated => "Unauthenticated"

/-- `FieldViolation`. -/
structure FieldViolation where
  field : String
  description : String
deriving DecidableEq

/-- `status.Status`; its details are the violations of a `BadRequest`. -/
structure Status where
  code : Code
  message : String
  details : List FieldViolation := []
deriving DecidableEq

/-- `Kind`. -/
inductive Kind where
  | invalidArgument
  | notFound
  | alreadyExists
  | failedPrecondition
  | deadlineExceeded
deriving DecidableEq

/-- The value of one error: a text (`errors.New`, `fmt.Errorf`), the errors of package `context`, a
status, or an `Error` of package `domainerror`. -/
inductive ErrorValue where
  | text (message : String)
  | canceled
  | deadlineExceeded
  | status (s : Status)
  | domain (kind : Kind) (message : String) (fields : List FieldViolation)
deriving DecidableEq

/-- `Error()`. -/
def ErrorValue.message : ErrorValue → String
  | .text message => message
  | .canceled => "context canceled"
  | .deadlineExceeded => "context deadline exceeded"
  | .status s => "rpc error: code = " ++ s.code.name ++ " desc = " ++ s.message
  | .domain _ message _ => message

abbrev GoError := ErrorTree ErrorValue

/-- `errors.Is`, for an error that is compared by its value. -/
def errorsIs (err : GoError) (target : ErrorValue) : Bool := err.values.any (· = target)

def ErrorValue.status? : ErrorValue → Option Status
  | .status s => some s
  | _ => none

def ErrorValue.domain? : ErrorValue → Option (Kind × String × List FieldViolation)
  | .domain kind message fields => some (kind, message, fields)
  | _ => none

/-- `errors.As` with a `*Error`. -/
def asDomain (err : GoError) : Option (Kind × String × List FieldViolation) :=
  err.values.findSome? ErrorValue.domain?

/-- The documented behaviour of `status.FromError`: the status of an error that is one; of an error
that wraps one, its status with the text of the whole error. -/
structure IsFromError (fromError : GoError → Option Status) : Prop where
  of_status : ∀ {err : GoError} {status : Status}, err.value = .status status →
    fromError err = some status
  of_wrapped : ∀ {err : GoError}, err.value.status? = none →
    fromError err = (err.values.findSome? ErrorValue.status?).map fun status =>
      { status with message := err.value.message }

/-! ## Section 2: The response -/

/-- `codeForKind`. -/
def codeForKind : Kind → Code
  | .invalidArgument => .invalidArgument
  | .notFound => .notFound
  | .alreadyExists => .alreadyExists
  | .failedPrecondition => .failedPrecondition
  | .deadlineExceeded => .deadlineExceeded

/-- A status that `ToGRPC` passes on. -/
def Status.isClassified (status : Status) : Bool :=
  status.code ≠ .unknown && status.code ≠ .internal

/-- `status.Error`. -/
def statusError (status : Status) : GoError := .leaf (.status status)

/-- `ToGRPC` of an error that is not nil. -/
def toGRPC (fromError : GoError → Option Status) (err : GoError) : GoError :=
  -- cancellation and deadline come first, whatever else the error wraps
  if errorsIs err .canceled then
    statusError ⟨.canceled, "request canceled", []⟩
  else if errorsIs err .deadlineExceeded then
    statusError ⟨.deadlineExceeded, "request deadline exceeded", []⟩
  else
    -- a handler's own status is kept, unless it says no more than that something failed
    match (fromError err).filter (·.isClassified) with
    | some _ => err
    | none =>
      match asDomain err with
      | none => statusError ⟨.internal, "internal server error", []⟩
      | some (kind, message, fields) => statusError ⟨codeForKind kind, message, fields⟩

/-- The status that the client receives once the handler has returned the error. -/
def respond (fromError : GoError → Option Status) (err : GoError) : Status :=
  (fromError (toGRPC fromError err)).getD ⟨.unknown, (toGRPC fromError err).value.message, []⟩

/-- The response to an application error, and to an error of no known class. -/
def respondDomain : Option (Kind × String × List FieldViolation) → Status
  | none => ⟨.internal, "internal server error", []⟩
  | some (kind, message, fields) => ⟨codeForKind kind, message, fields⟩

theorem isClassified_codeForKind (kind : Kind) (message : String) (fields : List FieldViolation) :
    (⟨codeForKind kind, message, fields⟩ : Status).isClassified = true := by
  cases kind <;> rfl

theorem isClassified_message (status : Status) (message : String) :
    ({ status with message := message } : Status).isClassified = status.isClassified := rfl

theorem toGRPC_eq (fromError : GoError → Option Status) (err : GoError) :
    toGRPC fromError err =
      if errorsIs err .canceled then statusError ⟨.canceled, "request canceled", []⟩
      else if errorsIs err .deadlineExceeded then
        statusError ⟨.deadlineExceeded, "request deadline exceeded", []⟩
      else if ((fromError err).filter (·.isClassified)).isSome then err
      else statusError (respondDomain (asDomain err)) := by
  unfold toGRPC
  cases (fromError err).filter (·.isClassified) with
  | some status => rfl
  | none => cases asDomain err <;> rfl

section Response

variable {fromError : GoError → Option Status} (hfrom : IsFromError fromError)

include hfrom

theorem fromError_statusError (status : Status) : fromError (statusError status) = some status :=
  hfrom.of_status rfl

/-- The response to an error, case by case: the client always gets a status. -/
theorem respond_eq (err : GoError) :
    respond fromError err =
      if errorsIs err .canceled then ⟨.canceled, "request canceled", []⟩
      else if errorsIs err .deadlineExceeded then
        ⟨.deadlineExceeded, "request deadline exceeded", []⟩
      else ((fromError err).filter (·.isClassified)).getD (respondDomain (asDomain err)) := by
  unfold respond
  rw [toGRPC_eq]
  split
  · rw [fromError_statusError hfrom, Option.getD_some]
  · split
    · rw [fromError_statusError hfrom, Option.getD_some]
    · cases hclassified : (fromError err).filter (·.isClassified) with
      | some status =>
        have hstatus : fromError err = some status := (Option.filter_eq_some_iff.mp hclassified).1
        rw [Option.isSome_some, if_pos rfl, hstatus, Option.getD_some, Option.getD_some]
      | none =>
        rw [Option.isSome_none, if_neg Bool.false_ne_true, fromError_statusError hfrom,
          Option.getD_some, Option.getD_none]

/-- A status that is passed on stays what it is. -/
theorem toGRPC_statusError {status : Status} (h : status.isClassified = true) :
    toGRPC fromError (statusError status) = statusError status := by
  have hcanceled : errorsIs (statusError status) .canceled = false := by
    simp [errorsIs, statusError]
  have hdeadline : errorsIs (statusError status) .deadlineExceeded = false := by
    simp [errorsIs, statusError]
  have hclassified : (some status).filter (·.isClassified) = some status := by simp [h]
  simp only [toGRPC, hcanceled, hdeadline, fromError_statusError hfrom, hclassified,
    Bool.false_eq_true, if_false]

/-- The interceptor can run more than once. -/
theorem toGRPC_toGRPC (err : GoError) :
    toGRPC fromError (toGRPC fromError err) = toGRPC fromError err := by
  rw [toGRPC_eq fromError err]
  split
  · exact toGRPC_statusError hfrom rfl
  next hcanceled =>
    split
    · exact toGRPC_statusError hfrom rfl
    next hdeadline =>
      split
      next hclassified =>
        rw [toGRPC_eq fromError err, if_neg hcanceled, if_neg hdeadline, if_pos hclassified]
      · cases asDomain err with
        | none =>
          -- an internal status is not passed on: it is made again, the same
          show toGRPC fromError (statusError ⟨.internal, "internal server error", []⟩) = _
          rw [toGRPC_eq, fromError_statusError hfrom]
          rfl
        | some found => exact toGRPC_statusError hfrom (isClassified_codeForKind _ _ _)

end Response

/-! ## Section 3: Confidentiality -/

/-- The value with another text, unless it is one that a client may see. -/
def ErrorValue.rewriteText (f : String → String) : ErrorValue → ErrorValue
  | .text message => .text (f message)
  | value => value

/-- The response does not depend on the texts within the error. -/
def Confidential (fromError : GoError → Option Status) (err : GoError) : Prop :=
  ∀ f, respond fromError (err.map (ErrorValue.rewriteText f)) = respond fromError err

/-- A text around a status that is passed on. -/
def WrapsStatus (err : GoError) : Prop :=
  (∃ message, err.value = .text message) ∧
    errorsIs err .canceled = false ∧ errorsIs err .deadlineExceeded = false ∧
    ∃ status, err.values.findSome? ErrorValue.status? = some status ∧ status.isClassified = true

section Rewriting

variable (f : String → String) (err : GoError)

@[simp] theorem status?_rewriteText (value : ErrorValue) :
    (value.rewriteText f).status? = value.status? := by
  cases value <;> rfl

@[simp] theorem domain?_rewriteText (value : ErrorValue) :
    (value.rewriteText f).domain? = value.domain? := by
  cases value <;> rfl

theorem errorsIs_map {target : ErrorValue}
    (hsame : ∀ value : ErrorValue, value.rewriteText f = target ↔ value = target) :
    errorsIs (err.map (ErrorValue.rewriteText f)) target = errorsIs err target := by
  simp only [errorsIs, ErrorTree.values_map, List.any_map]
  refine congrArg (err.values.any ·) (funext fun value => ?_)
  simp [hsame]

theorem errorsIs_canceled_map :
    errorsIs (err.map (ErrorValue.rewriteText f)) .canceled = errorsIs err .canceled :=
  errorsIs_map f err fun value => by cases value <;> simp [ErrorValue.rewriteText]

theorem errorsIs_deadlineExceeded_map :
    errorsIs (err.map (ErrorValue.rewriteText f)) .deadlineExceeded =
      errorsIs err .deadlineExceeded :=
  errorsIs_map f err fun value => by cases value <;> simp [ErrorValue.rewriteText]

theorem asDomain_map : asDomain (err.map (ErrorValue.rewriteText f)) = asDomain err := by
  simp only [asDomain, ErrorTree.values_map, List.findSome?_map]
  exact congrArg (err.values.findSome? ·) (funext (domain?_rewriteText f))

theorem findSome?_status?_map :
    (err.map (ErrorValue.rewriteText f)).values.findSome? ErrorValue.status? =
      err.values.findSome? ErrorValue.status? := by
  simp only [ErrorTree.values_map, List.findSome?_map]
  exact congrArg (err.values.findSome? ·) (funext (status?_rewriteText f))

/-- A text outside stays a text. -/
theorem value_map_of_text {message : String} (h : err.value = .text message) :
    (err.map (ErrorValue.rewriteText f)).value = .text (f message) := by
  rw [ErrorTree.value_map, h]
  rfl

end Rewriting

section Confidentiality

variable {fromError : GoError → Option Status} (hfrom : IsFromError fromError)

include hfrom

/-- An error with a text outside has the status it wraps, with this text. -/
theorem fromError_text {err : GoError} {message : String} (h : err.value = .text message) :
    fromError err = (err.values.findSome? ErrorValue.status?).map fun status =>
      { status with message := message } := by
  rw [hfrom.of_wrapped (by rw [h]; rfl), h]
  rfl

theorem fromError_map {f : String → String} {err : GoError}
    (h : ∀ message, err.value ≠ .text message) :
    fromError (err.map (ErrorValue.rewriteText f)) = fromError err := by
  have hvalue : (err.map (ErrorValue.rewriteText f)).value = err.value := by
    rw [ErrorTree.value_map]
    cases htext : err.value with
    | text message => exact absurd htext (h message)
    | _ => rfl
  -- a status is taken from outside if there is one, otherwise from within
  cases hstatus : err.value.status? with
  | none =>
    rw [hfrom.of_wrapped hstatus, hfrom.of_wrapped (hvalue ▸ hstatus), hvalue,
      findSome?_status?_map]
  | some status =>
    have houter : err.value = .status status := by
      cases hcase : err.value <;> simp_all [ErrorValue.status?]
    rw [hfrom.of_status houter, hfrom.of_status (hvalue.trans houter)]

/-- What such an error shows is its outermost text. -/
theorem respond_of_wrapsStatus {err : GoError} {message : String} {status : Status}
    (hvalue : err.value = .text message) (hcanceled : errorsIs err .canceled = false)
    (hdeadline : errorsIs err .deadlineExceeded = false)
    (hstatus : err.values.findSome? ErrorValue.status? = some status)
    (hclassified : status.isClassified = true) :
    respond fromError err = { status with message := message } := by
  have hfilter : (fromError err).filter (·.isClassified) =
      some { status with message := message } := by
    rw [fromError_text hfrom hvalue, hstatus]
    exact Option.filter_eq_some_iff.mpr ⟨rfl, hclassified⟩
  rw [respond_eq hfrom, hfilter, hcanceled, hdeadline, if_neg Bool.false_ne_true,
    if_neg Bool.false_ne_true, Option.getD_some]

/-- A text around a status that is not passed on is not seen. -/
theorem filter_fromError_text {err : GoError} {message : String}
    (hvalue : err.value = .text message)
    (h : ∀ status, err.values.findSome? ErrorValue.status? = some status →
      status.isClassified = false) :
    (fromError err).filter (·.isClassified) = none := by
  rw [fromError_text hfrom hvalue]
  cases hstatus : err.values.findSome? ErrorValue.status? with
  | none => rfl
  | some status =>
    refine Option.filter_eq_none_iff.mpr fun found hfound => ?_
    obtain rfl : { status with message := message } = found := Option.some.inj hfound
    rw [isClassified_message, h status hstatus]
    exact Bool.false_ne_true

/-- **Confidentiality**: the texts within an error stay inside exactly unless the outermost one is
put around a status that is passed on. -/
theorem confidential_iff (err : GoError) : Confidential fromError err ↔ ¬ WrapsStatus err := by
  constructor
  · rintro hconfidential ⟨⟨message, hvalue⟩, hcanceled, hdeadline, status, hstatus, hclassified⟩
    -- a longer text is seen by the client
    have hshort : respond fromError err = { status with message := message } :=
      respond_of_wrapsStatus hfrom hvalue hcanceled hdeadline hstatus hclassified
    have hlong : respond fromError (err.map (ErrorValue.rewriteText (· ++ "!"))) =
        { status with message := message ++ "!" } :=
      respond_of_wrapsStatus hfrom (value_map_of_text _ err hvalue)
        ((errorsIs_canceled_map _ err).trans hcanceled)
        ((errorsIs_deadlineExceeded_map _ err).trans hdeadline)
        ((findSome?_status?_map _ err).trans hstatus) hclassified
    have hsame : message ++ "!" = message :=
      congrArg Status.message (hlong.symm.trans ((hconfidential _).trans hshort))
    have hlength : (message ++ "!").length = message.length := congrArg String.length hsame
    rw [String.length_append] at hlength
    exact absurd hlength (by simp)
  · intro hwraps f
    rw [respond_eq hfrom, respond_eq hfrom, errorsIs_canceled_map, errorsIs_deadlineExceeded_map,
      asDomain_map]
    split
    · rfl
    next hcanceled =>
      split
      · rfl
      next hdeadline =>
        -- only a text outside can differ from its rewriting
        by_cases htext : ∃ message, err.value = .text message
        · obtain ⟨message, hvalue⟩ := htext
          -- what it wraps, if anything, is not passed on
          have hinternal : ∀ status, err.values.findSome? ErrorValue.status? = some status →
              status.isClassified = false := by
            intro status hstatus
            by_contra hclassified
            exact hwraps ⟨⟨message, hvalue⟩, eq_false_of_ne_true hcanceled,
              eq_false_of_ne_true hdeadline, status, hstatus,
              eq_true_of_ne_false hclassified⟩
          rw [filter_fromError_text hfrom hvalue hinternal,
            filter_fromError_text hfrom (value_map_of_text f err hvalue)
              (by rw [findSome?_status?_map]; exact hinternal)]
        · rw [fromError_map hfrom fun message hvalue => htext ⟨message, hvalue⟩]

end Confidentiality

/-- `status.FromError`, as it is documented. -/
def statusOf (err : GoError) : Option Status :=
  match err.value.status? with
  | some status => some status
  | none => (err.values.findSome? ErrorValue.status?).map fun status =>
    { status with message := err.value.message }

theorem isFromError_statusOf : IsFromError statusOf where
  of_status h := by simp [statusOf, h, ErrorValue.status?]
  of_wrapped h := by simp [statusOf, h]

/-- A text around an unavailable service. -/
def unavailableError : GoError :=
  .wrap (.text "load settings") (statusError ⟨.unavailable, "connection refused", []⟩)

theorem confidential_iff_unavailable : ¬ Confidential statusOf unavailableError := fun h =>
  (confidential_iff isFromError_statusOf unavailableError).mp h
    ⟨⟨"load settings", rfl⟩, rfl, rfl, ⟨.unavailable, "connection refused", []⟩, rfl, rfl⟩

/-! ## Section 4: Prefixes -/

/-- `PrefixMessage`. -/
def prefixMessage (err : GoError) (context : String) : GoError :=
  match asDomain err with
  | none => .wrap (.text (context ++ ": " ++ err.value.message)) err
  -- the prefixed copy is found first; the original is still wrapped
  | some (kind, message, fields) => .wrap (.domain kind (context ++ ": " ++ message) fields) err

/-- The error with the prefixes of the layers it passes, from the innermost to the outermost. -/
def prefixMessages (err : GoError) (contexts : List String) : GoError :=
  contexts.foldl prefixMessage err

/-- A search for an application error starts at the outermost error. -/
theorem asDomain_wrap (outer : ErrorValue) (err : GoError) :
    asDomain (.wrap outer err) = outer.domain?.or (asDomain err) := by
  rw [asDomain, ErrorTree.values_wrap, List.findSome?_cons]
  cases outer.domain? <;> rfl

section Prefixes

variable (err : GoError) (context : String)

/-- A prefix is put outside, on a text or on an application error. -/
theorem prefixMessage_eq_wrap : ∃ outer : ErrorValue, prefixMessage err context = .wrap outer err ∧
    outer ≠ .canceled ∧ outer ≠ .deadlineExceeded ∧ outer.status? = none := by
  cases hdomain : asDomain err with
  | none => exact ⟨.text (context ++ ": " ++ err.value.message), by simp [prefixMessage, hdomain],
      by simp, by simp, rfl⟩
  | some found => exact ⟨.domain found.1 (context ++ ": " ++ found.2.1) found.2.2,
      by simp [prefixMessage, hdomain], by simp, by simp, rfl⟩

@[simp] theorem errorsIs_canceled_prefixMessage :
    errorsIs (prefixMessage err context) .canceled = errorsIs err .canceled := by
  obtain ⟨outer, hwrap, hcanceled, -, -⟩ := prefixMessage_eq_wrap err context
  simp [hwrap, errorsIs, hcanceled]

@[simp] theorem errorsIs_deadlineExceeded_prefixMessage :
    errorsIs (prefixMessage err context) .deadlineExceeded = errorsIs err .deadlineExceeded := by
  obtain ⟨outer, hwrap, -, hdeadline, -⟩ := prefixMessage_eq_wrap err context
  simp [hwrap, errorsIs, hdeadline]

@[simp] theorem findSome?_status?_prefixMessage :
    (prefixMessage err context).values.findSome? ErrorValue.status? =
      err.values.findSome? ErrorValue.status? := by
  obtain ⟨outer, hwrap, -, -, houter⟩ := prefixMessage_eq_wrap err context
  simp [hwrap, houter]

@[simp] theorem asDomain_prefixMessage : asDomain (prefixMessage err context) =
    (asDomain err).map fun (kind, message, fields) =>
      (kind, context ++ ": " ++ message, fields) := by
  cases hdomain : asDomain err with
  | none =>
    rw [prefixMessage, hdomain]
    exact (asDomain_wrap _ err).trans hdomain
  | some found =>
    rw [prefixMessage, hdomain]
    exact asDomain_wrap _ err

end Prefixes

/-- What a client decides by: the code, and the fields it got wrong. -/
def Status.contract (status : Status) : Code × List FieldViolation := (status.code, status.details)

/-- The first status within an error, if it is passed on. -/
def passedStatus (err : GoError) : Option Status :=
  (err.values.findSome? ErrorValue.status?).filter (·.isClassified)

@[simp] theorem passedStatus_prefixMessage (err : GoError) (context : String) :
    passedStatus (prefixMessage err context) = passedStatus err := by
  simp [passedStatus]

section Contract

variable {fromError : GoError → Option Status} (hfrom : IsFromError fromError)

include hfrom

/-- Around a status only its text changes. -/
theorem fromError_eq (err : GoError) : ∃ message : Status → String,
    fromError err = (err.values.findSome? ErrorValue.status?).map fun status =>
      { status with message := message status } := by
  cases hstatus : err.value.status? with
  | none => exact ⟨fun _ => err.value.message, hfrom.of_wrapped hstatus⟩
  | some status =>
    have houter : err.value = .status status := by
      cases hcase : err.value <;> simp_all [ErrorValue.status?]
    obtain ⟨rest, hvalues⟩ := err.values_eq_cons
    exact ⟨Status.message, by rw [hfrom.of_status houter, hvalues, houter]; rfl⟩

theorem filter_fromError (err : GoError) : ∃ message : Status → String,
    (fromError err).filter (·.isClassified) = (passedStatus err).map fun status =>
      { status with message := message status } := by
  obtain ⟨message, hmessage⟩ := fromError_eq hfrom err
  refine ⟨message, ?_⟩
  rw [hmessage, passedStatus, Option.filter_map]
  rfl

/-- Code and fields of the response, case by case. -/
theorem contract_respond (err : GoError) :
    (respond fromError err).contract =
      if errorsIs err .canceled then (.canceled, [])
      else if errorsIs err .deadlineExceeded then (.deadlineExceeded, [])
      else (passedStatus err).elim (respondDomain (asDomain err)).contract Status.contract := by
  obtain ⟨message, hmessage⟩ := filter_fromError hfrom err
  rw [respond_eq hfrom, hmessage]
  split
  · rfl
  · split
    · rfl
    · cases passedStatus err <;> rfl

theorem contract_respond_prefixMessage (err : GoError) (context : String) :
    (respond fromError (prefixMessage err context)).contract =
      (respond fromError err).contract := by
  have hdomain : (respondDomain (asDomain (prefixMessage err context))).contract =
      (respondDomain (asDomain err)).contract := by
    rw [asDomain_prefixMessage]
    cases asDomain err <;> rfl
  rw [contract_respond hfrom, contract_respond hfrom, errorsIs_canceled_prefixMessage,
    errorsIs_deadlineExceeded_prefixMessage, passedStatus_prefixMessage, hdomain]

/-- The response to an error that is not passed on is made from its class. -/
theorem respond_of_not_passed {err : GoError} (h : passedStatus err = none) :
    respond fromError err =
      if errorsIs err .canceled then ⟨.canceled, "request canceled", []⟩
      else if errorsIs err .deadlineExceeded then
        ⟨.deadlineExceeded, "request deadline exceeded", []⟩
      else respondDomain (asDomain err) := by
  obtain ⟨message, hmessage⟩ := filter_fromError hfrom err
  rw [respond_eq hfrom, hmessage, h, Option.map_none, Option.getD_none]

end Contract

/-- The application error with the prefixes of the layers it passed. -/
theorem asDomain_prefixMessages (err : GoError) (contexts : List String) :
    asDomain (prefixMessages err contexts) = (asDomain err).map fun (kind, message, fields) =>
      (kind, contexts.foldl (fun shown context => context ++ ": " ++ shown) message, fields) := by
  induction contexts generalizing err with
  | nil => exact Option.map_id'.symm
  | cons context contexts ih =>
    rw [prefixMessages, List.foldl_cons, ← prefixMessages, ih, asDomain_prefixMessage,
      Option.map_map]
    rfl

/-- What one prefix leaves as it is, all of them do. -/
theorem prefixMessages_same {β : Type} (g : GoError → β)
    (h : ∀ err context, g (prefixMessage err context) = g err) (err : GoError)
    (contexts : List String) : g (prefixMessages err contexts) = g err := by
  induction contexts generalizing err with
  | nil => rfl
  | cons context contexts ih => exact (ih (prefixMessage err context)).trans (h err context)

/-- The response shows the message of an application error. -/
def showsMessage (err : GoError) : Bool :=
  !errorsIs err .canceled && !errorsIs err .deadlineExceeded && (asDomain err).isSome

section Layers

variable {fromError : GoError → Option Status} (hfrom : IsFromError fromError)

include hfrom

/-- **Prefixes**: however many layers an error passes, the client gets the same code and fields. Of
the prefixes it sees those of an application error, the outermost first. -/
theorem respond_prefixMessages (err : GoError) (contexts : List String) :
    (respond fromError (prefixMessages err contexts)).contract = (respond fromError err).contract ∧
      (passedStatus err = none → (respond fromError (prefixMessages err contexts)).message =
        if showsMessage err then
          contexts.foldl (fun shown context => context ++ ": " ++ shown)
            (respond fromError err).message
        else (respond fromError err).message) := by
  have hcontract := prefixMessages_same (fun err => (respond fromError err).contract)
    (contract_respond_prefixMessage hfrom) err contexts
  refine ⟨hcontract, fun hpassed => ?_⟩
  have hpassed' : passedStatus (prefixMessages err contexts) = none :=
    (prefixMessages_same passedStatus passedStatus_prefixMessage err contexts).trans hpassed
  -- neither a cancellation nor a deadline is lost or added on the way up
  have hcanceled' : errorsIs (prefixMessages err contexts) .canceled = errorsIs err .canceled :=
    prefixMessages_same (errorsIs · .canceled) errorsIs_canceled_prefixMessage err contexts
  have hdeadline' : errorsIs (prefixMessages err contexts) .deadlineExceeded =
      errorsIs err .deadlineExceeded :=
    prefixMessages_same (errorsIs · .deadlineExceeded) errorsIs_deadlineExceeded_prefixMessage err
      contexts
  rw [respond_of_not_passed hfrom hpassed, respond_of_not_passed hfrom hpassed', hcanceled',
    hdeadline', asDomain_prefixMessages]
  by_cases hcanceled : errorsIs err .canceled = true
  · simp [hcanceled, showsMessage]
  · by_cases hdeadline : errorsIs err .deadlineExceeded = true
    · simp [hcanceled, hdeadline, showsMessage]
    · cases hdomain : asDomain err <;> simp [hcanceled, hdeadline, hdomain, showsMessage,
        respondDomain]

end Layers

/-- A missing queue, as the storage reports it. -/
def missingQueueError : GoError :=
  .wrap (.domain .notFound "queue not found" []) (.leaf (.text "no rows in result set"))

theorem respond_prefixMessages_missingQueue :
    (respond statusOf (prefixMessages missingQueueError
        ["get queue metadata", "failed to post message"])).message =
      "failed to post message: get queue metadata: queue not found" :=
  ((respond_prefixMessages isFromError_statusOf missingQueueError
    ["get queue metadata", "failed to post message"]).2 rfl).trans (by decide)

end Nzovu.DomainError
