import Telemetry.Config.Server
import Telemetry.Service.Basic
import Telemetry.Store.Basic
import Telemetry.Store.Database
import Telemetry.Store.Snapshot

/-!
A server: its store and its files, and what it was set up with. Every update goes through `apply`,
which saves the store after each success if the server does so.
-/
namespace Telemetry

structure Server where
  store : Store
  disk : Disk
  /-- The dump is saved after every update. -/
  savesUpdates : Bool := false
  signingKey : Option Bytes := none
  subnet : Option Net.Subnet := none
  privateKey : Option Rsa.PrivateKey := none
deriving DecidableEq

namespace Server

/-- Saves the dump, if there is one; a failure leaves it as it was. -/
def saved (s : Server) : Server :=
  match s.store with
  | .file path l => { s with disk := (l.save path s.disk).2 }
  | _ => s

def apply {α : Type} (update : Store → Except RequestError α × Store) (s : Server) :
    Except RequestError α × Server :=
  match update s.store with
  | (.ok a, store) =>
    let s' := { s with store }
    (.ok a, if s.savesUpdates then s'.saved else s')
  | (.error e, store) => (.error e, { s with store })

def updateByValue (kind name : String) (i : Input) : Server → Except RequestError Metric × Server :=
  apply (Service.updateByValue Store.backend kind name i)

def update (r : Report) : Server → Except RequestError Metric × Server :=
  apply (Service.update Store.backend r)

def updateAll (rs : List Report) : Server → Except RequestError (List Metric) × Server :=
  apply (Service.updateAll Store.backend rs)

def get (kind name : String) (s : Server) : Except RequestError Metric :=
  Service.get Store.backend kind name s.store

def list (s : Server) : Except RequestError (List Metric) := Service.list Store.backend s.store

def ping (s : Server) : Except StoreError Unit := Store.backend.ping s.store

/-- The store that the settings ask for. A dump is restored unless that is turned off. -/
def openStore (c : StorageSettings) (d : Disk) : Except ConfigError Store :=
  match c.databaseUrl with
  | some url => (Database.connect url d).mapError .database
  | none =>
    let path := Path.ofText c.filePath
    if c.restore then
      match Ledger.restore path d [] with
      | (.ok _, l) => .ok (.file path l)
      | (.error e, _) => .error (.restore e)
    else .ok (.file path [])

def start (c : ServerSettings) (d : Disk) : Except ConfigError Server := do
  let store ← openStore c.storage d
  let subnet ← c.subnet
  let privateKey ← match c.privateKeyPath with
    | none => .ok none
    | some path => ((d.readKey Rsa.privateOfPem? path).map some).mapError (.privateKey path)
  .ok {
    store, disk := d, savesUpdates := c.storage.databaseUrl.isNone && c.storage.storeInterval == 0,
    signingKey := c.signingKey.map Bytes.ofText, subnet, privateKey }

end Server
end Telemetry
