import Telemetry.Config.Fields
import Telemetry.Net.Subnet
import Telemetry.Text.Split

/-!
The settings of a server.
-/
namespace Telemetry

structure StorageSettings where
  databaseUrl : Option String := none
  filePath : String := "data/metrics.dump"
  /-- Seconds between two saves of the dump; zero saves after every update. -/
  storeInterval : Nat := 300
  restore : Bool := true
deriving DecidableEq, Repr

structure ServerSettings where
  httpAddress : String := "0.0.0.0:8080"
  grpcAddress : String := "0.0.0.0:3200"
  signingKey : Option String := none
  trustedSubnet : Option String := none
  privateKeyPath : Option String := none
  shutdownTimeout : Nat := 10
  storage : StorageSettings := {}
deriving DecidableEq, Repr

namespace StorageSettings
open Config

def fieldNames : List String := ["database_url", "file_path", "store_interval_secs", "restore"]

def ofItem? (v : Toml.Item) : Option StorageSettings := do
  let es ← part? fieldNames v
  let defaults : StorageSettings := {}
  let databaseUrl ← optional? string? "database_url" es
  let filePath ← field? string? defaults.filePath "file_path" es
  let storeInterval ← field? nat? defaults.storeInterval "store_interval_secs" es
  let restore ← field? bool? defaults.restore "restore" es
  some ⟨databaseUrl, filePath, storeInterval, restore⟩

end StorageSettings

namespace ServerSettings
open Config

def ofEntries? (es : Toml.Entries) : Option ServerSettings := do
  let defaults : ServerSettings := {}
  let httpAddress ← field? string? defaults.httpAddress "http_address" es
  let grpcAddress ← field? string? defaults.grpcAddress "grpc_address" es
  let signingKey ← optional? string? "signing_key" es
  let trustedSubnet ← optional? string? "trusted_subnet" es
  let privateKeyPath ← optional? string? "private_key_path" es
  let shutdownTimeout ← field? nat? defaults.shutdownTimeout "shutdown_timeout_secs" es
  let storage ← field? StorageSettings.ofItem? defaults.storage "storage" es
  some ⟨httpAddress, grpcAddress, signingKey, trustedSubnet, privateKeyPath, shutdownTimeout, storage⟩

def readVariables (lookup : String → Option String) : Reader ServerSettings Unit := do
  setText lookup "ADDRESS" fun v s => { s with httpAddress := v }
  setText lookup "KEY" fun v s => { s with signingKey := some v }
  setText lookup "DATABASE_DSN" fun v s =>
    { s with storage := { s.storage with databaseUrl := some v } }
  setText lookup "FILE_STORAGE_PATH" fun v s => { s with storage := { s.storage with filePath := v } }
  setValue lookup "STORE_INTERVAL" readWord fun v s =>
    { s with storage := { s.storage with storeInterval := v } }
  setValue lookup "RESTORE" readBool fun v s => { s with storage := { s.storage with restore := v } }
  setText lookup "TRUSTED_SUBNET" fun v s => { s with trustedSubnet := some v }
  setText lookup "CRYPTO_KEY" fun v s => { s with privateKeyPath := some v }

/-- The trusted subnet; a blank text means none. -/
def subnet (s : ServerSettings) : Except ConfigError (Option Net.Subnet) :=
  match s.trustedSubnet.filter fun t => !Text.isBlankText t with
  | none => .ok none
  | some t =>
    match Net.Subnet.ofText? t with
    | some n => .ok (some n)
    | none => .error (.subnet t)

def validate (s : ServerSettings) : Except ConfigError Unit :=
  if Text.isBlankText s.httpAddress ∨ Text.isBlankText s.grpcAddress then .error .emptyAddress
  else if Text.trim s.httpAddress.toList = Text.trim s.grpcAddress.toList then
    .error .equalAddresses
  else if s.signingKey = some "" then .error .emptySigningKey
  else s.subnet.map fun _ => ()

/-- A database URL without its password: what stands between the first colon behind the scheme and the
last at sign. -/
def redact (url : String) : String :=
  match Text.splitAtText? "://".toList url.toList with
  | none => url
  | some (scheme, rest) =>
    match Text.splitLast? '@' rest with
    | none => url
    | some (credentials, host) =>
      match Text.splitFirst? ':' credentials with
      | none => url
      | some (user, _) =>
        String.ofList (scheme ++ "://".toList ++ user ++ ":***@".toList ++ host)

end ServerSettings
end Telemetry
