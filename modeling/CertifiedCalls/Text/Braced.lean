/-! # Named parts between braces
How records are shown to developers: a name, and the named parts between braces. -/

namespace CertifiedCalls.Text

/-- Parts separated by commas. -/
def commas (parts : List String) : String := String.intercalate ", " parts

/-- A named part. -/
def namedPart (part : String × String) : String := part.1 ++ ": " ++ part.2

/-- A name, and texts between braces. -/
def inBraces (name : String) (parts : List String) : String :=
  name ++ " \x7b " ++ commas parts ++ " \x7d"

/-- A name, and named parts between braces. -/
def braced (name : String) (parts : List (String × String)) : String :=
  inBraces name (parts.map namedPart)

/-- A name, and a text between brackets. -/
def bracketed (name part : String) : String := name ++ "(" ++ part ++ ")"

end CertifiedCalls.Text
