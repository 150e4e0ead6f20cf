import CertifiedCalls.Bytes
import CertifiedCalls.Text.Braced
import CertifiedCalls.Text.Quoted

/-! # Requests to canisters
What identifies an update call on the platform, under what name its method travels, and how the
platform says no. -/

namespace CertifiedCalls

/-- The name under which a method travels. -/
def wireMethodName (method : String) : String := method ++ "_msgpack"

/-- The **identifier of a request**: thirty-two octets. -/
structure RequestId where
  /-- The octets. -/
  bytes : Bytes
  /-- There are thirty-two of them. -/
  length_eq : bytes.length = 32
deriving DecidableEq

namespace RequestId

/-- The request identifier of thirty-two octets. -/
def ofBytes? (bs : Bytes) : Option RequestId :=
  if h : bs.length = 32 then some ⟨bs, h⟩ else none

/-- The hexadecimal text of a request identifier. -/
def toText (id : RequestId) : String := id.bytes.toHex

/-- A request identifier as it is shown to developers: its first eight octets. -/
def debugText (id : RequestId) : String := "RequestId(" ++ Bytes.toHex (id.bytes.take 8) ++ ")"

end RequestId

/-- The **reject codes** of the platform. -/
inductive RejectCode where
  /-- A fatal system error. -/
  | sysFatal
  /-- A transient system error. -/
  | sysTransient
  /-- No such destination. -/
  | destinationInvalid
  /-- The canister refused. -/
  | canisterReject
  /-- The canister failed. -/
  | canisterError
  /-- A code without a name. -/
  | unknown (code : Nat)
deriving DecidableEq, Repr

namespace RejectCode

/-- The reject code of a number. -/
def ofCode : Nat → RejectCode
  | 1 => .sysFatal
  | 2 => .sysTransient
  | 3 => .destinationInvalid
  | 4 => .canisterReject
  | 5 => .canisterError
  | other => .unknown other

/-- The number of a reject code. -/
def code : RejectCode → Nat
  | .sysFatal => 1
  | .sysTransient => 2
  | .destinationInvalid => 3
  | .canisterReject => 4
  | .canisterError => 5
  | .unknown code => code

/-- The name of a reject code. -/
def name : RejectCode → String
  | .sysFatal => "SysFatal"
  | .sysTransient => "SysTransient"
  | .destinationInvalid => "DestinationInvalid"
  | .canisterReject => "CanisterReject"
  | .canisterError => "CanisterError"
  | .unknown _ => "Unknown"

/-- The text of a reject code. -/
def toText (c : RejectCode) : String := c.name ++ " (" ++ toString c.code ++ ")"

/-- A reject code as it is shown to developers. -/
def debugText : RejectCode → String
  | .unknown code => "Unknown(" ++ toString code ++ ")"
  | known => known.name

/-- Every reject code is that of its number, but for unknown codes that have a name. -/
theorem code_ofCode (n : Nat) : (ofCode n).code = n := by
  unfold ofCode
  split <;> rfl

end RejectCode

/-- An optional text as it is shown to developers. -/
def debugOption : Option String → String
  | none => "None"
  | some s => "Some(" ++ Text.quoted s ++ ")"

/-- A **rejection**: how a canister, or the platform for it, said no. -/
structure Rejection where
  /-- The reject code. -/
  code : RejectCode
  /-- The message. -/
  message : String
  /-- A more specific code. -/
  errorCode : Option String
deriving DecidableEq, Repr

/-- A rejection as it is shown to developers. -/
def Rejection.debugText (r : Rejection) : String :=
  Text.braced "Rejection" [("reject_code", r.code.debugText),
    ("reject_message", Text.quoted r.message), ("error_code", debugOption r.errorCode)]

end CertifiedCalls
