/-!
# The error taxonomy

`Error` is the crate's error enumeration with its display text. Storage and database errors wrap
values of other crates; what the crate looks at is kept, the kind of a storage error, and the rest
is its message. Result-returning functions of the source are `Except Error` here, taken apart with
`except_bind_eq_ok_iff`.
-/

set_option autoImplicit false
set_option relaxedAutoImplicit false

namespace RelytIngest

/-- The kinds of object-storage error the crate distinguishes. -/
inductive StorageErrorKind
  | permissionDenied
  | notFound
  | other
  deriving DecidableEq, Repr

inductive Error
  | schema (message : String)
  | unsupportedType (column dataType : String)
  | naming (message : String)
  | serialContractViolation (message : String)
  | writerLocked (message : String)
  | writerFenced (message : String)
  | storage (kind : StorageErrorKind) (message : String)
  /-- The file at the head of the rotation pipeline keeps failing and is still being retried. -/
  | stagingStalled (attempts : Nat) (last : String)
  /-- A sealed file's data or schema was rejected, so no retry can help. -/
  | rotationFailed (stage : String) (source : Error)
  | stagingOrderViolation (message : String)
  | database (message : String)
  | config (message : String)
  | writerClosed
  deriving DecidableEq, Repr

namespace Error

/-- The display text of an error. -/
def toText : Error → String
  | schema message => "schema error: " ++ message
  | unsupportedType column dataType =>
    "unsupported arrow type for column `" ++ column ++ "`: " ++ dataType
  | naming message => "naming error: " ++ message
  | serialContractViolation message => "serial contract violation: " ++ message
  | writerLocked message => "writer is locked: " ++ message
  | writerFenced message => "writer was fenced: " ++ message
  | storage _ message => "staging storage error: " ++ message
  | stagingStalled attempts last =>
    "staging the current file has failed " ++ toString attempts ++
      " time(s) and is still being retried; last error: " ++ last
  | rotationFailed stage source =>
    "rotation cannot proceed: " ++ stage ++ " of the current file keeps failing with: " ++
      source.toText
  | stagingOrderViolation message => "staging order violation: " ++ message
  | database message => "relyt control connection error: " ++ message
  | config message => "configuration error: " ++ message
  | writerClosed => "writer closed"

/-- `clone_error`: the variants a rotation stage can produce are reproduced, anything else keeps
its rendered text. -/
def clone : Error → Error
  | schema message => schema message
  | unsupportedType column dataType => unsupportedType column dataType
  | naming message => naming message
  | config message => config message
  | other => config other.toText

/-- `is_permanent`: only a rejection of the data or of the schema is beyond retry. -/
def isPermanent : Error → Bool
  | schema _ | unsupportedType _ _ => true
  | _ => false

end Error

/-- A sequence of two fallible computations succeeds when both do. -/
theorem except_bind_eq_ok_iff {ε α β : Type} {first : Except ε α} {next : α → Except ε β}
    {result : β} :
    (first >>= next) = .ok result ↔ ∃ value, first = .ok value ∧ next value = .ok result := by
  cases first with
  | error err => simp [bind, Except.bind]
  | ok value => simp [bind, Except.bind]

end RelytIngest
