/-! # Events
An **event** is a line of the diagnostic log: a level, a message and named fields. -/

namespace CertifiedCalls

/-- The **level** of an event. -/
inductive Level where
  /-- For developers. -/
  | debug
  /-- For the record. -/
  | info
  /-- Something to look at. -/
  | warn
  /-- Something failed. -/
  | error
deriving DecidableEq, Repr

/-- The name of a level. -/
def Level.name : Level → String
  | .debug => "DEBUG"
  | .info => "INFO"
  | .warn => "WARN"
  | .error => "ERROR"

/-- An **event**. -/
structure Event where
  /-- How grave it is. -/
  level : Level
  /-- What happened. -/
  message : String
  /-- The details, in order. -/
  fields : List (String × String)
deriving DecidableEq, Repr

end CertifiedCalls
