import CertifiedCalls.Codec.Layout
import CertifiedCalls.Time.Backoff
import CertifiedCalls.Time.PollSchedule

/-! # Settings of an agent
How calls are made: retries of queries, polling for updates, the layout of requests, and the root
key, if it is known beforehand. -/

namespace CertifiedCalls

/-- The **settings of an agent**. -/
structure AgentConfig where
  /-- The most retries of a query after its first attempt. -/
  maxQueryRetries : UInt32
  /-- The delay before the first retry, in milliseconds. -/
  retryBaseDelayMs : Nat
  /-- How updates are polled for. -/
  poll : PollSettings
  /-- How the records of requests are laid out. -/
  layout : Layout
  /-- The root key. Without it the platform is asked. -/
  rootKey : Option Bytes
deriving DecidableEq, Repr

namespace PollSettings

/-- The double nearest to 1.2. -/
def growth : Binary64 := .nearest false 12 10

/-- The usual way to poll: every second to every thirty seconds, for five minutes. -/
def standard : PollSettings := ⟨1000, growth, 30000, 300000⟩

/-- Polling in short steps, for five seconds. -/
def brisk : PollSettings := ⟨10, growth, 100, 5000⟩

end PollSettings

namespace AgentConfig

/-- Settings for use in earnest. -/
def production : AgentConfig := ⟨7, 100, .standard, .positional, none⟩

/-- Settings for development: fewer retries. -/
def development : AgentConfig := { production with maxQueryRetries := 3 }

/-- Settings with short delays. -/
def brisk : AgentConfig := ⟨3, 10, .brisk, .positional, none⟩

/-- When and how often queries are retried. -/
def backoff (c : AgentConfig) : Backoff := ⟨c.maxQueryRetries, .ofMillis c.retryBaseDelayMs⟩

end AgentConfig

end CertifiedCalls
