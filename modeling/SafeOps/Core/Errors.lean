import SafeOps.Core.Logging

/-! `app/core/errors.py`: what is logged of a request body that has failed validation. -/

namespace SafeOps.Errors
open Serial Logging

variable {φ : Type}

/-- A segment of the location of an error. -/
inductive Segment
  | key (name : String)
  | index (n : Nat)

/-- `str(segment)`. -/
def Segment.text : Segment → String
  | key name => name
  | index n => toString n

def Segment.toJson : Segment → Json φ
  | key name => .str name
  | index n => .int n

/-- The value at a path. -/
def at? : Json φ → List Segment → Option (Json φ)
  | v, [] => some v
  | .obj entries, .key name :: path => (entries.lookup name).bind fun x => at? x path
  | .list xs, .index n :: path => xs[n]?.bind fun x => at? x path
  | _, _ :: _ => none

/-- A validation error of a request body, apart from the input it quotes. -/
structure Heading (φ : Type) where
  type : String
  /-- What follows `"body"` in `loc`. -/
  path : List Segment
  msg : String
  ctx : Option (Json φ)

structure ReportedError (φ : Type) where
  heading : Heading φ
  input : Json φ

namespace ReportedError

/-- The path of what the error quotes: for a missing field, the object it is missing from. -/
def quotedPath (error : ReportedError φ) : List Segment :=
  if error.heading.type = "missing" then error.heading.path.dropLast else error.heading.path

/-- The error quotes the body where it lies. -/
def Quotes (body : Json φ) (error : ReportedError φ) : Prop := at? body error.quotedPath = some error.input

def loc (error : ReportedError φ) : List Segment := .key "body" :: error.heading.path

def toJson (error : ReportedError φ) : Json φ :=
  .obj ([("type", .str error.heading.type), ("loc", .list (error.loc.map Segment.toJson)),
    ("msg", .str error.heading.msg), ("input", error.input)] ++
      error.heading.ctx.elim [] fun ctx => [("ctx", ctx)])

end ReportedError

/-- `_UNTRUSTED_CONTENT_LOC_SEGMENTS`. -/
def untrustedContentLocSegments : List String := ["sources"]

/-- The location names a secret or untrusted content. -/
def hidden (error : ReportedError φ) : Bool :=
  error.loc.any (isSensitiveKey ·.text) || error.loc.any (untrustedContentLocSegments.contains ·.text)

/-- `_safe_validation_errors`. -/
def safeValidationErrors (errors : List (ReportedError φ)) : List (ReportedError φ) :=
  errors.map fun error => if hidden error then { error with input := redacted } else error

/-- The record that `validation_exception_handler` logs. -/
def validationRecord (context : RecordContext) (errors : List (ReportedError φ)) : Json φ :=
  format context "WARNING" "request_validation_error" "safeops"
    [("errors", .list ((safeValidationErrors errors).map ReportedError.toJson))]

end SafeOps.Errors
