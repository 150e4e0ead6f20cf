import CertifiedCalls.Simulation.InMemory
import CertifiedCalls.Simulation.Script

/-! # Rules for canned answers
The first **rule** that fits a request answers it with one of its canned answers, which it uses in
turn. -/

namespace CertifiedCalls.Simulation

/-- A **rule**. -/
structure Rule where
  /-- Which requests it is for. -/
  fits : Seen → Bool
  /-- Its answers, used in turn. -/
  answers : List Canned

/-- The answer to a request that no rule fits. -/
def noRule : Canned := .fail (.ofMessage "no rule")

namespace Rule

/-- The rule for requests of a kind and a method, where they are given. -/
def forMethod (kind : Option Kind) (method : Option String) (answers : List Canned) : Rule :=
  ⟨fun seen => kind.all (· == seen.kind) && method.all (· == seen.method), answers⟩

/-- Answers a request by the first rule that fits, given how often each has been used. -/
def answerer : Answerer (List (Rule × Nat))
  | [], _ => ([], noRule)
  | (rule, used) :: rest, seen =>
    if rule.fits seen then ((rule, used + 1) :: rest, (inTurn rule.answers used).getD noRule)
    else
      let (rest, canned) := answerer rest seen
      ((rule, used) :: rest, canned)

/-- The memory of a platform in memory that follows rules. -/
def memory (rules : List Rule) : Memory (List (Rule × Nat)) := .start (rules.map (·, 0))

end Rule

end CertifiedCalls.Simulation
