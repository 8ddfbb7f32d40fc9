import Telemetry.Proofs.Server.Requests
import Telemetry.Proofs.Store.DumpRoundTrip

/-!
Recovery of a server that saves its dump after every update. Every request leaves the store and the dump
as they were or replaces both, so at any point between two requests a restart finds the same metrics.
-/
namespace Telemetry

namespace Ledger
variable {path : Path} {d d' : Disk} {l : Ledger} {n : Nat}

theorem admits_of_save_ok (h : (l.save path d).1 = .ok n) : d.Admits path := by
  by_contra hd
  obtain ⟨e, he⟩ := save_of_not_admits hd l
  rw [he] at h
  cases h

theorem restore_of_save_ok (hl : l.Valid) (hcolon : ∀ m ∈ l, ':' ∉ m.name.toList)
    (h : (l.save path d).1 = .ok n) :
    restore path (l.save path d).2 [] = (.ok l.length, l) := by
  obtain ⟨d', hsave, htext⟩ := save_of_admits (admits_of_save_ok h) l
  have hread : Dump.read (Dump.render l) = .ok l :=
    Dump.read_render hl.wellFormed (by simpa [Dump.hasColon] using hcolon)
  rw [hsave, restore_of_read_ok htext hread]
  exact hl.sorted.loadIntoEmpty

end Ledger

namespace Server
variable {s : Server} {path : Path} {l : Ledger} {n : Nat}

/-- A server that saves after every update does with a call one of two things: nothing, or it takes a new
ledger and saves it. -/
theorem perform_file (hstore : s.store = .file path l) (hsaves : s.savesUpdates = true)
    (call : Service.Call) : s.perform call = s ∨ s.perform call =
      ({ s with store := .file path (call.run Ledger.backend l).2 } : Server).saved := by
  have hrun : call.run Store.backend s.store =
      Prod.map id (Store.file path) (call.run Ledger.backend l) := by
    rw [hstore]
    exact Service.Call.run_embeds (Store.embeds_file path) call l
  cases hok : (call.run Ledger.backend l).1.isOk with
  | false =>
    have hsame := Service.Call.run_of_not_isOk Ledger.keepsRefused hok
    left
    simp [perform, hrun, hok, hsame, ← hstore]
  | true =>
    right
    simp [perform, hrun, hok, hsaves]

/-- Every save of a run succeeds: a request leaves the server as it was, or the store after it can be
written to the disk before it. -/
def SavesSucceed : List Incoming → Server → Prop
  | [], _ => True
  | r :: rs, s =>
    (s.serve r = s ∨ ∃ path l n, (s.serve r).store = .file path l ∧
      (l.save path s.disk).1 = .ok n) ∧ SavesSucceed rs (s.serve r)

/-- The server saves after every update, and its dump gives back what it has. -/
structure Recoverable (path : Path) (s : Server) : Prop where
  saves : s.savesUpdates = true
  dump : ∃ l : Ledger, l.Valid ∧ s.store = .file path l ∧
    ((∀ m ∈ l, ':' ∉ m.name.toList) → ∃ n, Ledger.restore path s.disk [] = (.ok n, l))

theorem recoverable_of_restore (hstore : s.store = .file path l) (hsaves : s.savesUpdates = true)
    (h : Ledger.restore path s.disk [] = (.ok n, l)) : s.Recoverable path := by
  have hvalid : (Ledger.restore path s.disk []).2.Valid := Ledger.Valid.nil.restore path s.disk
  rw [h] at hvalid
  exact ⟨hsaves, l, hvalid, hstore, fun _ => ⟨n, h⟩⟩

theorem recoverable_of_start {c : ServerSettings} {d : Disk} (h : start c d = .ok s)
    (hurl : c.storage.databaseUrl = none) (hrestore : c.storage.restore = true)
    (hinterval : c.storage.storeInterval = 0) :
    s.disk = d ∧ s.Recoverable (.ofText c.storage.filePath) := by
  cases hback : Ledger.restore (.ofText c.storage.filePath) d [] with
  | mk answer l =>
    simp only [start, openStore, hurl, hrestore, if_true, hback, bind, Except.bind] at h
    cases answer with
    | error e => cases h
    | ok n =>
      cases hsubnet : c.subnet with
      | error e => simp [hsubnet] at h
      | ok subnet =>
        simp only [hsubnet] at h
        have hsaves : ((none : Option String).isNone && c.storage.storeInterval == 0) = true := by
          simp [hinterval]
        split at h
        · cases h
          exact ⟨rfl, recoverable_of_restore rfl hsaves hback⟩
        · split at h
          · cases h
          · cases h
            exact ⟨rfl, recoverable_of_restore rfl hsaves hback⟩

theorem Recoverable.openStore {c : StorageSettings} (h : s.Recoverable (.ofText c.filePath))
    (hurl : c.databaseUrl = none) (hrestore : c.restore = true)
    (hcolon : ∀ m ∈ s.store.view id fun _ => [], ':' ∉ m.name.toList) :
    Server.openStore c s.disk = .ok s.store := by
  obtain ⟨-, l, -, hstore, hdump⟩ := h
  rw [hstore] at hcolon ⊢
  obtain ⟨n, hback⟩ := hdump hcolon
  simp [Server.openStore, hurl, hrestore, hback]

theorem Recoverable.serve {r : Incoming} (h : s.Recoverable path)
    (hok : s.serve r = s ∨ ∃ path l n, (s.serve r).store = .file path l ∧
      (l.save path s.disk).1 = .ok n) : (s.serve r).Recoverable path := by
  obtain ⟨hsaves, l, hl, hstore, -⟩ := id h
  have hmoved := s.moved_serve r
  generalize s.serve r = s' at hmoved hok ⊢
  cases hmoved with
  | stay => exact h
  | perform call =>
    rcases perform_file hstore hsaves call with hsame | hsaved
    · rw [hsame]
      exact h
    · rcases hok with hsame | ⟨path', l', n, hstore', hsave⟩
      · rw [hsame]
        exact h
      · have hl' := call.valid_run hl
        rw [hsaved, saved_store] at hstore'
        obtain ⟨rfl, rfl⟩ := Store.file.inj hstore'
        rw [hsaved]
        refine ⟨by simpa using hsaves, _, hl', by simp, ?_⟩
        intro hcolon
        rw [saved_disk rfl]
        exact ⟨_, Ledger.restore_of_save_ok hl' hcolon hsave⟩

theorem Recoverable.serveAll {rs : List Incoming} (h : s.Recoverable path)
    (hok : s.SavesSucceed rs) : (s.serveAll rs).Recoverable path := by
  induction rs generalizing s with
  | nil => exact h
  | cons r rs ih => exact ih (h.serve hok.1) hok.2

/-- Where nothing on the disk is in the way of the dump, no save fails. -/
theorem savesSucceed_of_admits (hstore : s.store = .file path l) (hsaves : s.savesUpdates = true)
    (hdisk : s.disk.Admits path) (rs : List Incoming) : s.SavesSucceed rs := by
  induction rs generalizing s l with
  | nil => trivial
  | cons r rs ih =>
    have hmoved := s.moved_serve r
    rw [SavesSucceed]
    generalize s.serve r = s' at hmoved ⊢
    cases hmoved with
    | stay => exact ⟨.inl rfl, ih hstore hsaves hdisk⟩
    | perform call =>
      rcases perform_file hstore hsaves call with hsame | hsaved
      · rw [hsame]
        exact ⟨.inl rfl, ih hstore hsaves hdisk⟩
      · obtain ⟨d', hsave, -⟩ := Ledger.save_of_admits hdisk (call.run Ledger.backend l).2
        have hdisk' := Ledger.admits_save hdisk (call.run Ledger.backend l).2
        rw [hsaved]
        refine ⟨.inr ⟨path, _, _, by simp, congrArg Prod.fst hsave⟩, ih (saved_store _) ?_ ?_⟩
        · simpa using hsaves
        · rw [saved_disk rfl]
          exact hdisk'

/-- A server that starts with what its dump holds and saves it after every update can be stopped after
any requests: as long as no name has a colon, the dump gives back the metrics that it had. -/
theorem restore_serveAll (hstore : s.store = .file path l) (hsaves : s.savesUpdates = true)
    (hstart : Ledger.restore path s.disk [] = (.ok n, l)) (rs : List Incoming)
    (hok : s.SavesSucceed rs) : ∃ l', (s.serveAll rs).store = .file path l' ∧
      ((∀ m ∈ l', ':' ∉ m.name.toList) →
        ∃ n', Ledger.restore path (s.serveAll rs).disk [] = (.ok n', l')) := by
  have h := (recoverable_of_restore hstore hsaves hstart).serveAll hok
  obtain ⟨l', -, hstore', hdump⟩ := h.dump
  exact ⟨l', hstore', hdump⟩

def emptyServer : Server := { store := .file ["var", "dump"] [], disk := {}, savesUpdates := true }

def mixedRequests : List Incoming :=
  [.http "1" ⟨"POST", "/update/counter/hits/4", [], ⟨[], false, true⟩⟩,
    .http "2" ⟨"POST", "/update/", [],
      ⟨Bytes.ofText "\x7b\"id\":\"load\",\"type\":\"gauge\",\"value\":-0.5\x7d", false, true⟩⟩,
    .http "3" ⟨"POST", "/updates/", [], ⟨Bytes.ofText "[]", false, true⟩⟩,
    .http "4" ⟨"GET", "/value/counter/hits", [], ⟨[], false, true⟩⟩,
    .rpc none (.updateAll [⟨"hits", "counter", some 38, none⟩, ⟨"load", "gauge", none, none⟩]),
    .rpc none (.updateEncrypted [1, 2, 3]),
    .rpc none (.update ⟨"counter", "hits", "38"⟩)]

theorem restore_serveAll_mixedRequests :
    emptyServer.SavesSucceed mixedRequests ∧
    ∃ n, Ledger.restore ["var", "dump"] (emptyServer.serveAll mixedRequests).disk [] =
      (.ok n, [⟨"hits", .counter 42⟩, ⟨"load", .gauge (.ofRatio true 1 2)⟩]) := by
  have hdisk : Disk.Admits {} ["var", "dump"] := ⟨by decide, by decide, by decide⟩
  have hok : emptyServer.SavesSucceed mixedRequests :=
    savesSucceed_of_admits (s := emptyServer) rfl rfl hdisk mixedRequests
  have hfinal : (emptyServer.serveAll mixedRequests).store = .file ["var", "dump"]
      [⟨"hits", .counter 42⟩, ⟨"load", .gauge (.ofRatio true 1 2)⟩] := by decide +kernel
  obtain ⟨l', hstore, hdump⟩ :=
    restore_serveAll (s := emptyServer) (n := 0) rfl rfl rfl mixedRequests hok
  obtain ⟨-, rfl⟩ := Store.file.inj (hstore.symm.trans hfinal)
  exact ⟨hok, hdump (by decide)⟩

end Server
end Telemetry
