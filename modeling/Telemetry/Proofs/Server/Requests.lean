import Telemetry.Proofs.Http.Logging
import Telemetry.Proofs.Service.Calls
import Telemetry.Proofs.Service.Refusals
import Telemetry.Rpc.Service
import Telemetry.Server.Guard

/-!
What requests do to a server. Whichever transport a request comes over and whatever it is answered, it
leaves the server as it was or runs one call on its store, with the save that belongs to it.
-/
namespace Telemetry

namespace Service

def Reply.isOk : Reply → Bool
  | metric answer => answer.isOk
  | metrics answer => answer.isOk

theorem Call.run_of_not_isOk {σ : Type} {b : Backend σ} (hb : b.KeepsRefused) {call : Call} {s : σ}
    (h : (call.run b s).1.isOk = false) : (call.run b s).2 = s := by
  cases call with
  | upsert kind name i =>
    rcases hrun : updateByValue b kind name i s with ⟨e | m, s'⟩
    · simpa [run, hrun] using updateByValue_error hb hrun
    · simp [run, hrun, Reply.isOk, Except.isOk, Except.toBool] at h
  | batch items =>
    rcases hrun : b.updateBatch items s with ⟨e | ms, s'⟩
    · simpa [run, hrun] using hb.updateBatch hrun
    · simp [run, hrun, Reply.isOk, Except.isOk, Except.toBool] at h

theorem Call.valid_run (call : Call) {l : Ledger} (h : l.Valid) : (call.run Ledger.backend l).2.Valid := by
  cases call with
  | upsert kind name i =>
    rcases updateByValue_ledger_cases kind name i l with ⟨e, hrun⟩ | ⟨k, m, l', -, ha, hrun⟩
    · simpa [run, hrun] using h
    · simpa [run, hrun] using (h.apply ha).2
  | batch items => exact (h.applyAll items).2

end Service

namespace Http.Route
variable {r r' : Route}

theorem decode_cases (h : r.decode = .ok r') :
    (∃ kind name v kind' name' v', r = updateByPath kind name v ∧ r' = updateByPath kind' name' v') ∨
    (∃ kind name kind' name', r = valueByPath kind name ∧ r' = valueByPath kind' name') ∨ r' = r := by
  cases r with
  | updateByPath kind name v =>
    simp only [decode, bind, Except.bind] at h
    split at h
    · cases h
    · split at h
      · cases h
      · split at h
        · cases h
        · exact .inl ⟨_, _, _, _, _, _, rfl, (Except.ok.inj h).symm⟩
  | valueByPath kind name =>
    simp only [decode, bind, Except.bind] at h
    split at h
    · cases h
    · split at h
      · cases h
      · exact .inr (.inl ⟨_, _, _, _, rfl, (Except.ok.inj h).symm⟩)
  | _ => exact .inr (.inr (Except.ok.inj h).symm)

theorem isUpdate_of_decode (h : r.decode = .ok r') : r'.isUpdate = r.isUpdate := by
  rcases decode_cases h with ⟨_, _, _, _, _, _, rfl, rfl⟩ | ⟨_, _, _, _, rfl, rfl⟩ | rfl <;> rfl

theorem methods_of_decode (h : r.decode = .ok r') : r'.methods = r.methods := by
  rcases decode_cases h with ⟨_, _, _, _, _, _, rfl, rfl⟩ | ⟨_, _, _, _, rfl, rfl⟩ | rfl <;> rfl

end Http.Route

namespace Server
open Http

section State
variable {s : Server}

@[simp] theorem saved_store (s : Server) : s.saved.store = s.store := by
  unfold saved
  split <;> rfl

@[simp] theorem saved_savesUpdates (s : Server) : s.saved.savesUpdates = s.savesUpdates := by
  unfold saved
  split <;> rfl

@[simp] theorem saved_signingKey (s : Server) : s.saved.signingKey = s.signingKey := by
  unfold saved
  split <;> rfl

@[simp] theorem saved_subnet (s : Server) : s.saved.subnet = s.subnet := by
  unfold saved
  split <;> rfl

@[simp] theorem saved_privateKey (s : Server) : s.saved.privateKey = s.privateKey := by
  unfold saved
  split <;> rfl

theorem saved_disk {path : Path} {l : Ledger} (h : s.store = .file path l) :
    s.saved.disk = (l.save path s.disk).2 := by
  simp [saved, h]

/-- Runs a call on the store, and saves the dump if the call is accepted and the server does so. -/
def perform (call : Service.Call) (s : Server) : Server :=
  let (reply, store) := call.run Store.backend s.store
  let s' := { s with store }
  if reply.isOk && s.savesUpdates then s'.saved else s'

@[simp] theorem perform_store (call : Service.Call) (s : Server) :
    (s.perform call).store = (call.run Store.backend s.store).2 := by
  unfold perform
  split
  split <;> simp_all

@[simp] theorem perform_signingKey (call : Service.Call) (s : Server) :
    (s.perform call).signingKey = s.signingKey := by
  unfold perform
  split
  split <;> simp

@[simp] theorem perform_subnet (call : Service.Call) (s : Server) :
    (s.perform call).subnet = s.subnet := by
  unfold perform
  split
  split <;> simp

@[simp] theorem perform_privateKey (call : Service.Call) (s : Server) :
    (s.perform call).privateKey = s.privateKey := by
  unfold perform
  split
  split <;> simp

theorem apply_snd {α : Type} (update : Store → Except RequestError α × Store) (s : Server) :
    (s.apply update).2 =
      let s' := { s with store := (update s.store).2 }
      if (update s.store).1.isOk && s.savesUpdates then s'.saved else s' := by
  unfold apply
  obtain ⟨answer, store⟩ := update s.store
  cases answer <;> rfl

theorem updateByValue_snd (kind name : String) (i : Input) (s : Server) :
    (s.updateByValue kind name i).2 = s.perform (.upsert kind name i) := by
  rw [updateByValue, apply_snd]
  rfl

theorem update_snd (r : Report) (s : Server) : (s.update r).2 =
    match r.input with
    | .error _ => s
    | .ok i => s.perform (.upsert r.kind.text r.id i) := by
  rw [update, apply_snd]
  unfold Service.update
  cases r.input <;> rfl

theorem updateAll_snd (rs : List Report) (s : Server) : (s.updateAll rs).2 =
    match rs.mapM Report.toMetric with
    | .error _ => s
    | .ok items => s.perform (.batch items) := by
  rw [updateAll, apply_snd]
  unfold Service.updateAll
  cases rs.mapM Report.toMetric with
  | error e => rfl
  | ok items =>
    rcases hrun : Store.backend.updateBatch items s.store with ⟨e | ms, store⟩
    · simp [perform, Service.Call.run, hrun, Service.Reply.isOk, Except.isOk, Except.toBool]
    · simp [perform, Service.Call.run, hrun, Service.Reply.isOk, Except.isOk, Except.toBool]

/-- What may have become of a server: nothing has happened, or one call on its store. -/
inductive Moved (s : Server) : Server → Prop
  | stay : Moved s s
  | perform (call : Service.Call) : Moved s (s.perform call)

theorem moved_updateByValue (kind name : String) (i : Input) (s : Server) :
    s.Moved (s.updateByValue kind name i).2 := by
  rw [updateByValue_snd]
  exact .perform _

theorem moved_update (r : Report) (s : Server) : s.Moved (s.update r).2 := by
  rw [update_snd]
  split
  · exact .stay
  · exact .perform _

theorem moved_updateAll (rs : List Report) (s : Server) : s.Moved (s.updateAll rs).2 := by
  rw [updateAll_snd]
  split
  · exact .stay
  · exact .perform _

end State

section Layers
variable {s : Server} {req : Request}

/-- The address of a client is taken: it lies in the subnet, if there is one. -/
def Trusts (client : Option String) (s : Server) : Prop :=
  ∀ subnet, s.subnet = some subnet → ∃ a, subnet.check client = .ok a

instance (client : Option String) (s : Server) : Decidable (s.Trusts client) :=
  match hs : s.subnet with
  | none => isTrue fun subnet h => by simp [hs] at h
  | some n =>
    match hn : n.check client with
    | .ok a => isTrue fun subnet h => ⟨a, Option.some.inj (hs.symm.trans h) ▸ hn⟩
    | .error e => isFalse fun h => by
      obtain ⟨a, ha⟩ := h n hs
      simp [hn] at ha

/-- A request is taken as signed: there is no key, it is not a post, or its body is read and has the
signature that the header says. -/
def Verifies (req : Request) (s : Server) : Prop :=
  ∀ key, s.signingKey = some key → req.method = "POST" →
    ∃ header bytes, req.headers.text? signatureField = some header ∧
      req.body.read maxSignedBody = .ok bytes ∧
      Signature.verify bytes key header.toList = .ok ()

theorem trusted_of_trusts (h : s.Trusts (req.headers.text? clientField)) (handle : Handler Server)
    (trace : String) : trusted handle trace req s = handle trace req s := by
  unfold trusted
  split
  · rfl
  · next subnet hsubnet =>
    obtain ⟨a, ha⟩ := h subnet hsubnet
    rw [ha]

theorem exists_of_not_trusts {client : Option String} (h : ¬ s.Trusts client) :
    ∃ subnet e, s.subnet = some subnet ∧ subnet.check client = .error e := by
  cases hs : s.subnet with
  | none => exact absurd (fun subnet hsubnet => by simp [hs] at hsubnet) h
  | some subnet =>
    cases he : subnet.check client with
    | error e => exact ⟨subnet, e, rfl, he⟩
    | ok a =>
      refine absurd (fun other hother => ⟨a, ?_⟩) h
      rw [← Option.some.inj (hs.symm.trans hother), he]

theorem trusted_of_check {subnet : Net.Subnet} {e : Net.ClientError} (hsubnet : s.subnet = some subnet)
    (he : subnet.check (req.headers.text? clientField) = .error e) (handle : Handler Server)
    (trace : String) : trusted handle trace req s = (.failure 403 trace "forbidden" e.message, s) := by
  simp [trusted, hsubnet, he]

theorem trusted_of_not_trusts (h : ¬ s.Trusts (req.headers.text? clientField))
    (handle : Handler Server) (trace : String) : (trusted handle trace req s).2 = s := by
  obtain ⟨subnet, e, hsubnet, he⟩ := exists_of_not_trusts h
  rw [trusted_of_check hsubnet he]

theorem verified_of_verifies (h : s.Verifies req) (handle : Handler Server) (trace : String) :
    verified handle trace req s = handle trace req s := by
  unfold verified
  split
  · rfl
  · next key hkey =>
    split
    · rfl
    · next hmethod =>
      obtain ⟨header, bytes, hheader, hread, hverify⟩ := h key hkey (by simpa using hmethod)
      simp [hheader, hread, hverify]

theorem exists_refusal_of_not_verifies (h : ¬ s.Verifies req) (handle : Handler Server) (trace : String) :
    ∃ status code message, (status = 400 ∨ status = 401) ∧
      verified handle trace req s = (.failure status trace code message, s) := by
  unfold verified
  split
  · next hnone => exact absurd (fun key hkey => by simp [hnone] at hkey) h
  · next key hkey =>
    split
    · next hmethod => exact absurd (fun _ _ hpost => absurd hpost hmethod) h
    · split
      · exact ⟨_, _, _, .inr rfl, rfl⟩
      · next header hheader =>
        split
        · exact ⟨_, _, _, .inl rfl, rfl⟩
        · exact ⟨_, _, _, .inl rfl, rfl⟩
        · next bytes hread =>
          split
          · next hverify =>
            refine absurd ?_ h
            intro other hother _
            obtain rfl : key = other := Option.some.inj (hkey.symm.trans hother)
            exact ⟨header, bytes, hheader, hread, hverify⟩
          · exact ⟨_, _, _, .inl rfl, rfl⟩
          · exact ⟨_, _, _, .inr rfl, rfl⟩

theorem verified_of_not_verifies (h : ¬ s.Verifies req) (handle : Handler Server)
    (trace : String) : (verified handle trace req s).2 = s := by
  obtain ⟨_, _, _, -, hrefusal⟩ := exists_refusal_of_not_verifies h handle trace
  rw [hrefusal]

theorem decompressed_snd (handle : Handler Server) (trace : String) (req : Request) (s : Server) :
    (Handler.decompressed handle trace req s).2 =
      req.unzipped?.elim s fun req => (handle trace req s).2 := by
  unfold Handler.decompressed
  cases req.unzipped? <;> rfl

/-- Logging, compression and signatures do not touch the server; the log only keeps back a request whose
body it cannot read. -/
theorem handle_snd (trace : String) (req : Request) (s : Server) : (handle trace req s).2.2 =
    if Log.isRead req && !req.body.isSound then s else (routed trace req s).2 := by
  simp only [handle, Handler.logged_eq]
  split <;> rfl

end Layers

section Answers
variable {s : Server}

theorem moved_withBody {α : Type} {handle : α → Server → Response × Server}
    (h : ∀ a, s.Moved (handle a s).2) (read? : Bytes → Option α) (trace : String) (req : Request) :
    s.Moved (withBody read? trace req handle s).2 := by
  unfold withBody
  split
  · exact .stay
  · split
    · exact .stay
    · next a _ => exact h a

theorem moved_answerReports (trace : String) (rs : List Report) (s : Server) :
    s.Moved (answerReports trace rs s).2 := by
  unfold answerReports
  split
  · exact .stay
  · exact moved_updateAll rs s

theorem moved_answer (r : Route) (trace : String) (req : Request) (s : Server) :
    s.Moved (answer r trace req s).2 := by
  cases r with
  | updateByPath kind name v => exact moved_updateByValue kind name (.text v) s
  | update => exact moved_withBody (fun r => moved_update r s) _ trace req
  | updateAll => exact moved_withBody (fun rs => moved_answerReports trace rs s) _ trace req
  | index => exact .stay
  | valueByPath kind name => exact .stay
  | value => exact moved_withBody (fun _ => .stay) _ trace req
  | ping => exact .stay

theorem moved_answerRoute (r : Route) (trace : String) (req : Request) (s : Server) :
    s.Moved (answerRoute r trace req s).2 := by
  unfold answerRoute
  split
  · split
    · next r _ => exact moved_answer r trace req s
    · exact .stay
  · exact .stay

theorem moved_decompressed {handle : Handler Server}
    (h : ∀ req, s.Moved (handle trace req s).2) (req : Request) :
    s.Moved (Handler.decompressed handle trace req s).2 := by
  rw [decompressed_snd]
  cases req.unzipped? with
  | none => exact .stay
  | some req => exact h req

theorem moved_routed (trace : String) (req : Request) (s : Server) :
    s.Moved (routed trace req s).2 := by
  unfold routed
  split
  · exact moved_decompressed (fun _ => .stay) req
  · next r _ =>
    have hroute : s.Moved (Handler.decompressed (answerRoute r) trace req s).2 :=
      moved_decompressed (moved_answerRoute r trace · s) req
    split
    · by_cases htrusts : s.Trusts (req.headers.text? clientField)
      · rw [trusted_of_trusts htrusts]
        by_cases hverifies : s.Verifies req
        · rw [verified_of_verifies hverifies]
          exact hroute
        · rw [verified_of_not_verifies hverifies]
          exact .stay
      · rw [trusted_of_not_trusts htrusts]
        exact .stay
    · exact hroute

theorem moved_handle (trace : String) (req : Request) (s : Server) :
    s.Moved (handle trace req s).2.2 := by
  rw [handle_snd]
  split
  · exact .stay
  · exact moved_routed trace req s

end Answers

section Calls

theorem moved_callUpdateAll (rs : List Record) (s : Server) :
    s.Moved (s.callUpdateAll rs).2 := by
  unfold callUpdateAll
  split
  · exact .stay
  · exact .stay
  · next reports _ => exact moved_updateAll _ s

theorem moved_call (c : Rpc.Call) (s : Server) : s.Moved (s.call c).2 := by
  cases c with
  | update r => exact moved_updateByValue r.kind r.name (.text r.value) s
  | updateEncrypted payload =>
    simp only [call]
    split
    · next r _ => exact moved_updateByValue r.kind r.name (.text r.value) s
    · exact .stay
  | updateAll rs => exact moved_callUpdateAll rs s
  | get kind name => exact .stay
  | list => exact .stay
  | ping => exact .stay

theorem callFrom_of_trusts {client : Option Bytes} {s : Server}
    (h : s.Trusts (client.bind visibleText?)) (c : Rpc.Call) : s.callFrom client c = s.call c := by
  unfold callFrom
  split
  · rfl
  · next subnet hsubnet =>
    obtain ⟨a, ha⟩ := h subnet hsubnet
    rw [ha]

theorem callFrom_of_check {client : Option Bytes} {s : Server} {subnet : Net.Subnet}
    {e : Net.ClientError} (hsubnet : s.subnet = some subnet)
    (he : subnet.check (client.bind visibleText?) = .error e) (c : Rpc.Call) :
    s.callFrom client c = (.error (refuseCall e), s) := by
  simp [callFrom, hsubnet, he]

theorem moved_callFrom (client : Option Bytes) (c : Rpc.Call) (s : Server) :
    s.Moved (s.callFrom client c).2 := by
  unfold callFrom
  split
  · exact moved_call c s
  · split
    · exact moved_call c s
    · exact .stay

end Calls

/-- A request over one of the transports, with what the transport knows of it. -/
inductive Incoming where
  | http (trace : String) (req : Request)
  | rpc (client : Option Bytes) (call : Rpc.Call)

def serve (s : Server) : Incoming → Server
  | .http trace req => (handle trace req s).2.2
  | .rpc client call => (s.callFrom client call).2

def serveAll (s : Server) (rs : List Incoming) : Server := rs.foldl serve s

theorem moved_serve (s : Server) (r : Incoming) : s.Moved (s.serve r) := by
  cases r with
  | http trace req => exact moved_handle trace req s
  | rpc client call => exact moved_callFrom client call s

end Server
end Telemetry
