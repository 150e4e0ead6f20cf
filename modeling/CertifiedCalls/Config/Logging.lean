import CertifiedCalls.Text.Numeral
import CertifiedCalls.Text.Quoted

/-! # Settings of logging
Which events are logged and how, taken from variables, and the check of a **filter**: directives
between commas, each a level, a target, or both with an equals sign between them. -/

namespace CertifiedCalls

/-- The **settings of logging**. -/
structure LoggingConfig where
  /-- The name of the service. -/
  serviceName : String
  /-- The filter. -/
  filter : String
  /-- Whether events are logged as JSON. -/
  isJson : Bool
deriving DecidableEq, Repr

namespace LoggingConfig

/-- The usual settings. -/
def standard : LoggingConfig := ⟨"openchat-bot", "info", false⟩

/-- Whether a variable's value switches something on. -/
def isOn (value : String) : Bool := value.toLower == "true" ∨ value == "1"

/-- The settings that variables give. -/
def ofVariables (value? : String → Option String) : LoggingConfig where
  serviceName := (value? "OC_SERVICE_NAME").getD standard.serviceName
  filter := ((value? "OC_LOG_LEVEL").or (value? "RUST_LOG")).getD standard.filter
  isJson := ((value? "OC_JSON_LOGS").map isOn).getD standard.isJson

end LoggingConfig

/-- Why a directive is refused. -/
inductive FilterFault where
  /-- It does not begin like a level or a target. -/
  | directive
  /-- The level is none. -/
  | level
deriving DecidableEq, Repr

namespace Filter

/-- The names of levels. -/
def levelNames : List String := ["off", "error", "warn", "info", "debug", "trace"]

/-- Whether a text is a level: a name in either case, a number up to five, or nothing. -/
def isLevel (s : String) : Bool :=
  s.isEmpty || levelNames.contains s.toLower || match Text.natOfText? s with
    | some n => n ≤ 5
    | none => false

/-- Whether a character can begin a level or a target. -/
def isOpening (c : Char) : Bool := c.isAlphanum || ['-', ':', '_'].contains c || 0x80 ≤ c.toNat

/-- Why a directive is refused, if it is. -/
def directiveFault? (directive : List Char) : Option FilterFault :=
  if directive.head?.any isOpening then
    match directive.dropWhile (· ≠ '=') with
    | _ :: level => if isLevel (String.ofList level) then none else some .level
    | [] => none
  else some .directive

/-- The parts of a text between commas. -/
def splitCommas : List Char → List (List Char)
  | [] => [[]]
  | ',' :: cs => [] :: splitCommas cs
  | c :: cs =>
    match splitCommas cs with
    | part :: parts => (c :: part) :: parts
    | [] => [[c]]

/-- Why a filter is refused, if it is: the fault of its first faulty directive. -/
def fault? (filter : String) : Option FilterFault :=
  ((splitCommas filter.toList).filter (· ≠ [])).findSome? directiveFault?

end Filter

/-- What is wrong with a directive. -/
def FilterFault.reason : FilterFault → String
  | .directive => "invalid filter directive"
  | .level => "error parsing level filter: expected one of \"off\", \"error\", \"warn\", \"info\", "
    ++ "\"debug\", \"trace\", or a number 0-5"

/-- The wording of a refused filter. -/
def FilterFault.message (filter : String) (fault : FilterFault) : String :=
  "Invalid configuration: log filter " ++ Text.quoted filter ++ ": " ++ fault.reason

end CertifiedCalls
