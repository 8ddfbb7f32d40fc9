import Telemetry.Config.Fields
import Telemetry.Text.Split

/-!
The settings of an agent.
-/
namespace Telemetry

inductive TransportKind where
  | http
  | grpc
deriving DecidableEq, Repr

inductive SendMode where
  | single
  | batch
deriving DecidableEq, Repr

structure AgentSettings where
  serverAddress : String := "localhost:8080"
  transport : TransportKind := .http
  sendMode : SendMode := .single
  pollInterval : Nat := 2
  reportInterval : Nat := 10
  rateLimit : Nat := 1
  signingKey : Option String := none
  publicKeyPath : Option String := none
  requestTimeout : Nat := 5
  clientIp : Option String := none
deriving DecidableEq, Repr

namespace AgentSettings
open Config

def transports : List (String × TransportKind) := [("http", .http), ("grpc", .grpc)]

def sendModes : List (String × SendMode) := [("single", .single), ("batch", .batch)]

def ofEntries? (es : Toml.Entries) : Option AgentSettings := do
  let defaults : AgentSettings := {}
  let serverAddress ← field? string? defaults.serverAddress "server_address" es
  let transport ← field? (choice? transports) defaults.transport "transport" es
  let sendMode ← field? (choice? sendModes) defaults.sendMode "send_mode" es
  let pollInterval ← field? nat? defaults.pollInterval "poll_interval_secs" es
  let reportInterval ← field? nat? defaults.reportInterval "report_interval_secs" es
  let rateLimit ← field? nat? defaults.rateLimit "rate_limit" es
  let signingKey ← optional? string? "signing_key" es
  let publicKeyPath ← optional? string? "public_key_path" es
  let requestTimeout ← field? nat? defaults.requestTimeout "request_timeout_secs" es
  let clientIp ← optional? string? "client_ip" es
  some ⟨serverAddress, transport, sendMode, pollInterval, reportInterval, rateLimit, signingKey,
    publicKeyPath, requestTimeout, clientIp⟩

/-- Lets environment variables win. -/
def readVariables (lookup : String → Option String) : Reader AgentSettings Unit := do
  setText lookup "ADDRESS" fun v s => { s with serverAddress := v }
  setText lookup "KEY" fun v s => { s with signingKey := some v }
  setValue lookup "RATE_LIMIT" readWord fun v s => { s with rateLimit := v }
  setValue lookup "REPORT_INTERVAL" readWord fun v s => { s with reportInterval := v }
  setValue lookup "POLL_INTERVAL" readWord fun v s => { s with pollInterval := v }
  setText lookup "CRYPTO_KEY" fun v s => { s with publicKeyPath := some v }

def validate (s : AgentSettings) : Except ConfigError Unit :=
  if Text.isBlankText s.serverAddress then .error .emptyServerAddress
  else if s.pollInterval = 0 ∨ s.reportInterval = 0 then .error .zeroInterval
  else if s.rateLimit = 0 then .error .zeroRate
  else .ok ()

/-- An address as the start of a URL: without blanks around it and slashes behind it, and with a scheme
in front if it has none. -/
def urlOf (address : String) : String :=
  let cs := Text.trim address.toList
  let cs := (cs.reverse.dropWhile (· == '/')).reverse
  if (Text.splitAtText? "://".toList cs).isSome then String.ofList cs
  else "http://" ++ String.ofList cs

def serverUrl (s : AgentSettings) : String := urlOf s.serverAddress

/-- The key to sign with; an empty one means none. -/
def key? (s : AgentSettings) : Option String := s.signingKey.filter (· ≠ "")

end AgentSettings
end Telemetry
