import Telemetry.Proofs.Server.Requests

/-!
Which requests may change a server. An answer that is no success leaves the server as it was, whichever
layer or route it comes from; only an update of a trusted client changes anything, over HTTP only one with
a good signature. Both transports turn away the same clients.
-/
namespace Telemetry

def Rpc.Call.isUpdate : Rpc.Call → Bool
  | update _ | updateEncrypted _ | updateAll _ => true
  | _ => false

namespace Server
open Http

section Answers
variable {s : Server}

/-- An answer of what stands behind the subnet check: a refusal has left the server as it was, and it is
not the refusal of that check. -/
structure Answered (s : Server) (p : Response × Server) : Prop where
  status_ne : p.1.status ≠ 403
  unchanged : p.1.status ≠ 200 → p.2 = s

theorem Answered.of_unchanged {r : Response} (h : (r.status == 403) = false) : s.Answered (r, s) :=
  ⟨by simpa using h, fun _ => rfl⟩

theorem apply_error {α : Type} {update : Store → Except RequestError α × Store} {e : RequestError}
    (hkept : ∀ {e store}, update s.store = (.error e, store) → store = s.store)
    (h : (s.apply update).1 = .error e) : (s.apply update).2 = s := by
  unfold apply at h ⊢
  rcases hrun : update s.store with ⟨e | a, store⟩
  · obtain rfl : store = s.store := hkept hrun
    rfl
  · simp [hrun] at h

theorem answered_respond {α : Type} {f : α → Response} (hf : ∀ a, (f a).status = 200)
    (trace : String) {p : Except RequestError α × Server} (h : ∀ e, p.1 = .error e → p.2 = s) :
    s.Answered (respond trace f p.1, p.2) := by
  obtain ⟨e | a, s'⟩ := p
  · obtain rfl : s' = s := h e rfl
    cases e <;> exact .of_unchanged rfl
  · exact ⟨by simp [respond, hf], fun hne => absurd (hf a) hne⟩

theorem answered_withBody {α : Type} {handle : α → Server → Response × Server}
    (h : ∀ a, s.Answered (handle a s)) (read? : Bytes → Option α) (trace : String) (req : Request) :
    s.Answered (withBody read? trace req handle s) := by
  unfold withBody
  split
  · next e _ => cases e <;> exact .of_unchanged rfl
  · split
    · exact .of_unchanged rfl
    · exact h _

theorem answered_answerReport (trace : String) (r : Report) (s : Server) :
    s.Answered (answerReport trace r s) :=
  answered_respond (fun _ => rfl) trace fun _ =>
    apply_error (Service.update_error Store.keepsRefused)

theorem answered_answerReports (trace : String) (rs : List Report) (s : Server) :
    s.Answered (answerReports trace rs s) := by
  unfold answerReports
  split
  · exact .of_unchanged rfl
  · exact answered_respond (fun _ => rfl) trace fun _ =>
      apply_error (Service.updateAll_error Store.keepsRefused)

theorem answered_answer (r : Route) (trace : String) (req : Request) (s : Server) :
    s.Answered (answer r trace req s) := by
  cases r with
  | updateByPath kind name v =>
    exact answered_respond (fun _ => rfl) trace fun _ =>
      apply_error (Service.updateByValue_error Store.keepsRefused)
  | update => exact answered_withBody (fun r => answered_answerReport trace r s) _ trace req
  | updateAll => exact answered_withBody (fun rs => answered_answerReports trace rs s) _ trace req
  | index => exact answered_respond (p := (s.list, s)) (fun _ => rfl) trace fun _ _ => rfl
  | valueByPath kind name =>
    exact answered_respond (p := (s.get kind name, s)) (fun _ => rfl) trace fun _ _ => rfl
  | value =>
    refine answered_withBody (fun key => ?_) _ trace req
    exact answered_respond (p := (s.get key.kind.text key.name, s)) (fun _ => rfl) trace fun _ _ => rfl
  | ping =>
    refine .of_unchanged ?_
    unfold answerPing
    split <;> rfl

theorem answered_answerRoute (r : Route) (trace : String) (req : Request) (s : Server) :
    s.Answered (answerRoute r trace req s) := by
  unfold answerRoute
  split
  · split
    · exact answered_answer _ trace req s
    · exact .of_unchanged rfl
  · exact .of_unchanged rfl

theorem answered_decompressed {handle : Handler Server} {trace : String}
    (h : ∀ req, s.Answered (handle trace req s)) (req : Request) :
    s.Answered (Handler.decompressed handle trace req s) := by
  unfold Handler.decompressed
  split
  · exact h _
  · exact .of_unchanged rfl

theorem answered_verified {handle : Handler Server} {trace : String} {req : Request}
    (h : s.Answered (handle trace req s)) : s.Answered (verified handle trace req s) := by
  by_cases hverifies : s.Verifies req
  · rw [verified_of_verifies hverifies]
    exact h
  · obtain ⟨status, code, message, hstatus, hrefusal⟩ :=
      exists_refusal_of_not_verifies hverifies handle trace
    rw [hrefusal]
    rcases hstatus with rfl | rfl
    · exact .of_unchanged rfl
    · exact .of_unchanged rfl

end Answers

section Layers
variable {s : Server} {req : Request}

/-- What stands in front of the routes leaves the status alone; only the log may refuse by itself. -/
theorem handle_status (trace : String) (req : Request) (s : Server) :
    (handle trace req s).1.status =
      if Log.isRead req && !req.body.isSound then 400 else (routed trace req s).1.status := by
  have hsign : ∀ r, (sign s.signingKey r).status = r.status := by
    intro r
    unfold sign
    split
    · rfl
    · split <;> rfl
  simp only [handle, Handler.logged_eq]
  split
  · rfl
  · exact hsign _

theorem answered_guarded (r : Route) (trace : String) (req : Request) (s : Server) :
    s.Answered (verified (Handler.decompressed (answerRoute r)) trace req s) :=
  answered_verified (answered_decompressed (answered_answerRoute r trace · s) req)

theorem routed_unchanged (trace : String) (req : Request) (s : Server)
    (h : (routed trace req s).1.status ≠ 200) : (routed trace req s).2 = s := by
  unfold routed at h ⊢
  split
  · exact (answered_decompressed (fun _ => .of_unchanged rfl) req).unchanged (by simp_all)
  · next r hr =>
    simp only [hr] at h
    split
    · next hupdate =>
      rw [if_pos hupdate] at h
      by_cases htrusts : s.Trusts (req.headers.text? clientField)
      · rw [trusted_of_trusts htrusts] at h ⊢
        exact (answered_guarded r trace req s).unchanged h
      · exact trusted_of_not_trusts htrusts _ trace
    · next hupdate =>
      rw [if_neg hupdate] at h
      exact (answered_decompressed (answered_answerRoute r trace · s) req).unchanged h

end Layers

section Calls
open Rpc
variable {s : Server}

/-- A reply of what stands behind the subnet check, in the same sense as an answer. -/
structure Replied (s : Server) (p : Except Status Reply × Server) : Prop where
  code_ne : ∀ e, p.1 = .error e → e.code ≠ .permissionDenied
  unchanged : ∀ e, p.1 = .error e → p.2 = s

theorem Replied.of_error {e : Status} (h : (e.code == .permissionDenied) = false) :
    s.Replied (.error e, s) :=
  ⟨fun _ he => Except.error.inj he ▸ by simpa using h, fun _ _ => rfl⟩

theorem replied_reply {α : Type} (f : α → Reply) {p : Except RequestError α × Server}
    (h : ∀ e, p.1 = .error e → p.2 = s) : s.Replied (reply f p.1, p.2) := by
  obtain ⟨e | a, s'⟩ := p
  · obtain rfl : s' = s := h e rfl
    cases e <;> exact .of_error rfl
  · refine ⟨fun e he => ?_, fun e he => ?_⟩
    · cases he
    · cases he

theorem replied_callUpdate (r : UpdateRequest) (s : Server) : s.Replied (s.callUpdate r) :=
  replied_reply valueReply fun _ => apply_error (Service.updateByValue_error Store.keepsRefused)

theorem replied_callUpdateAll (rs : List Record) (s : Server) : s.Replied (s.callUpdateAll rs) := by
  unfold callUpdateAll
  split
  · exact .of_error rfl
  · exact .of_error rfl
  · exact replied_reply recordsReply fun _ => apply_error (Service.updateAll_error Store.keepsRefused)

theorem code_of_decryptUpdate {key : Option Rsa.PrivateKey} {payload : Bytes} {e : Status}
    (h : decryptUpdate key payload = .error e) :
    e.code = .failedPrecondition ∨ e.code = .invalidArgument := by
  unfold decryptUpdate at h
  split at h
  · exact .inl (Except.error.inj h ▸ rfl)
  · split at h
    · exact .inr (Except.error.inj h ▸ rfl)
    · split at h
      · exact .inr (Except.error.inj h ▸ rfl)
      · simp at h

theorem replied_call (c : Rpc.Call) (s : Server) : s.Replied (s.call c) := by
  cases c with
  | update r => exact replied_callUpdate r s
  | updateEncrypted payload =>
    simp only [call]
    cases hr : decryptUpdate s.privateKey payload with
    | ok r => exact replied_callUpdate r s
    | error e =>
      refine .of_error ?_
      rcases code_of_decryptUpdate hr with hcode | hcode <;> rw [hcode] <;> rfl
  | updateAll rs => exact replied_callUpdateAll rs s
  | get kind name => exact replied_reply (p := (s.get kind name, s)) valueReply fun _ _ => rfl
  | list => exact replied_reply (p := (s.list, s)) recordsReply fun _ _ => rfl
  | ping =>
    simp only [call, callPing]
    split
    · exact ⟨fun _ he => by simp at he, fun _ he => by simp at he⟩
    · exact .of_error rfl
    · exact .of_error rfl

theorem call_of_not_isUpdate {c : Rpc.Call} (h : c.isUpdate = false) (s : Server) :
    (s.call c).2 = s := by
  cases c with
  | get kind name => rfl
  | list => rfl
  | ping => rfl
  | _ => simp [Rpc.Call.isUpdate] at h

theorem callFrom_unchanged {client : Option Bytes} {c : Rpc.Call} {e : Status}
    (h : (s.callFrom client c).1 = .error e) : (s.callFrom client c).2 = s := by
  by_cases htrusts : s.Trusts (client.bind visibleText?)
  · rw [callFrom_of_trusts htrusts] at h ⊢
    exact (replied_call c s).unchanged e h
  · obtain ⟨subnet, why, hsubnet, hwhy⟩ := exists_of_not_trusts htrusts
    rw [callFrom_of_check hsubnet hwhy]

end Calls

namespace Incoming

def client? : Incoming → Option String
  | http _ req => req.headers.text? clientField
  | rpc client _ => client.bind visibleText?

def IsUpdate : Incoming → Prop
  | http _ req => req.method = "POST" ∧ ∃ r, Route.ofPath? req.path = some r ∧ r.isUpdate
  | rpc _ call => call.isUpdate

/-- The subnet check is made: it is for every call and for every HTTP request on a route of updates that
the log can read. -/
def IsChecked : Incoming → Prop
  | http _ req => (Log.isRead req && !req.body.isSound) = false ∧
      ∃ r, Route.ofPath? req.path = some r ∧ r.isUpdate
  | rpc _ _ => True

end Incoming

/-- The request is an update of a trusted client, signed if it has to be. -/
def Authorizes (s : Server) (r : Incoming) : Prop :=
  r.IsUpdate ∧ s.Trusts r.client? ∧
    match r with
    | .http _ req => s.Verifies req
    | .rpc _ _ => True

def Succeeds (s : Server) : Incoming → Prop
  | .http trace req => (handle trace req s).1.status = 200
  | .rpc client call => (s.callFrom client call).1.isOk

/-- The request is refused as one of a client that may not update. -/
def TurnsAway (s : Server) : Incoming → Prop
  | .http trace req => (handle trace req s).1.status = 403
  | .rpc client call => ∃ e, (s.callFrom client call).1 = .error e ∧ e.code = .permissionDenied

section Requests
variable {s : Server} {route : Route} {trace : String} {req : Request}

theorem answer_of_not_isUpdate (h : route.isUpdate = false) (trace : String) (req : Request)
    (s : Server) : (answer route trace req s).2 = s := by
  cases route with
  | index => rfl
  | valueByPath kind name => rfl
  | value =>
    simp only [answer, withBody]
    split
    · rfl
    · split <;> rfl
  | ping => rfl
  | _ => simp [Route.isUpdate] at h

/-- Only a post on a route of updates goes on to the store. -/
theorem answerRoute_unchanged (h : route.isUpdate = true → req.method ≠ "POST") (trace : String)
    (s : Server) : (answerRoute route trace req s).2 = s := by
  unfold answerRoute
  split
  · next hmethod =>
    split
    · next r hr =>
      refine answer_of_not_isUpdate ?_ trace req s
      rw [Route.isUpdate_of_decode hr]
      cases route with
      | updateByPath kind name v => exact absurd (by simpa [Route.methods] using hmethod) (h rfl)
      | update => exact absurd (by simpa [Route.methods] using hmethod) (h rfl)
      | updateAll => exact absurd (by simpa [Route.methods] using hmethod) (h rfl)
      | _ => rfl
    · rfl
  · rfl

theorem method_unzipped {plain : Request} (h : req.unzipped? = some plain) :
    plain.method = req.method := by
  unfold Request.unzipped? at h
  split at h
  · exact Option.some.inj h ▸ rfl
  · split at h
    · exact Option.some.inj h ▸ rfl
    · split at h
      · exact Option.some.inj h ▸ rfl
      · simp at h

theorem routed_of_not_isUpdate
    (h : ¬ (req.method = "POST" ∧ ∃ r, Route.ofPath? req.path = some r ∧ r.isUpdate)) (trace : String)
    (s : Server) : (routed trace req s).2 = s := by
  unfold routed
  split
  · rw [decompressed_snd]
    cases req.unzipped? <;> rfl
  · next r hr =>
    have hroute : (Handler.decompressed (answerRoute r) trace req s).2 = s := by
      rw [decompressed_snd]
      cases hz : req.unzipped? with
      | none => rfl
      | some plain =>
        refine answerRoute_unchanged (fun hupdate hpost => h ⟨?_, r, hr, hupdate⟩) trace s
        rw [← method_unzipped hz, hpost]
    split
    · by_cases htrusts : s.Trusts (req.headers.text? clientField)
      · rw [trusted_of_trusts htrusts]
        by_cases hverifies : s.Verifies req
        · rw [verified_of_verifies hverifies, hroute]
        · exact verified_of_not_verifies hverifies _ trace
      · exact trusted_of_not_trusts htrusts _ trace
    · exact hroute

theorem serve_of_not_authorizes {r : Incoming} (h : ¬ s.Authorizes r) : s.serve r = s := by
  cases r with
  | http trace req =>
    rw [serve, handle_snd]
    split
    · rfl
    · by_cases hupdate : (Incoming.http trace req).IsUpdate
      · obtain ⟨-, r, hr, hr'⟩ := id hupdate
        simp only [routed, hr, hr', if_true]
        by_cases htrusts : s.Trusts (req.headers.text? clientField)
        · rw [trusted_of_trusts htrusts]
          exact verified_of_not_verifies (fun hverifies => h ⟨hupdate, htrusts, hverifies⟩) _ trace
        · exact trusted_of_not_trusts htrusts _ trace
      · exact routed_of_not_isUpdate hupdate trace s
  | rpc client call =>
    by_cases htrusts : s.Trusts (client.bind visibleText?)
    · rw [serve, callFrom_of_trusts htrusts]
      refine call_of_not_isUpdate ?_ s
      exact Bool.eq_false_iff.2 fun hupdate => h ⟨hupdate, htrusts, trivial⟩
    · obtain ⟨subnet, e, hsubnet, he⟩ := exists_of_not_trusts htrusts
      rw [serve, callFrom_of_check hsubnet he]

theorem serve_of_not_succeeds {r : Incoming} (h : ¬ s.Succeeds r) : s.serve r = s := by
  cases r with
  | http trace req =>
    rw [serve, handle_snd]
    split
    · rfl
    · next hread =>
      simp only [Succeeds, handle_status, if_neg hread] at h
      exact routed_unchanged trace req s h
  | rpc client call =>
    cases hcall : (s.callFrom client call).1 with
    | ok reply => exact absurd (by simp [Succeeds, hcall, Except.isOk, Except.toBool]) h
    | error e => exact callFrom_unchanged hcall

/-- Where the subnet check is made, exactly the clients that are not trusted are turned away. -/
theorem turnsAway_iff {r : Incoming} (h : r.IsChecked) : s.TurnsAway r ↔ ¬ s.Trusts r.client? := by
  cases r with
  | http trace req =>
    obtain ⟨hread, route, hroute, hupdate⟩ := h
    have hstatus : (handle trace req s).1.status = (trusted (verified
        (Handler.decompressed (answerRoute route))) trace req s).1.status := by
      simp [handle_status, hread, routed, hroute, hupdate]
    rw [TurnsAway, hstatus, Incoming.client?]
    by_cases htrusts : s.Trusts (req.headers.text? clientField)
    · rw [trusted_of_trusts htrusts]
      exact iff_of_false (answered_guarded route trace req s).status_ne (not_not_intro htrusts)
    · obtain ⟨subnet, e, hsubnet, he⟩ := exists_of_not_trusts htrusts
      rw [trusted_of_check hsubnet he]
      exact iff_of_true rfl htrusts
  | rpc client call =>
    rw [TurnsAway, Incoming.client?]
    by_cases htrusts : s.Trusts (client.bind visibleText?)
    · rw [callFrom_of_trusts htrusts]
      refine iff_of_false ?_ (not_not_intro htrusts)
      rintro ⟨e, he, hcode⟩
      exact (replied_call call s).code_ne e he hcode
    · obtain ⟨subnet, e, hsubnet, he⟩ := exists_of_not_trusts htrusts
      rw [callFrom_of_check hsubnet he]
      refine iff_of_true ⟨_, rfl, ?_⟩ htrusts
      cases e <;> rfl

/-- For one and the same address both transports let the request through, or both refuse it for the same
reason. -/
theorem trusted_and_callFrom {client : Option Bytes}
    (h : req.headers.text? clientField = client.bind visibleText?) (s : Server) :
    (∀ handle trace call, trusted handle trace req s = handle trace req s ∧
      s.callFrom client call = s.call call) ∨
    ∃ e : Net.ClientError, ∀ handle trace call,
      trusted handle trace req s = (.failure 403 trace "forbidden" e.message, s) ∧
      s.callFrom client call = (.error (refuseCall e), s) := by
  by_cases htrusts : s.Trusts (client.bind visibleText?)
  · exact .inl fun handle trace call =>
      ⟨trusted_of_trusts (h ▸ htrusts) handle trace, callFrom_of_trusts htrusts call⟩
  · obtain ⟨subnet, e, hsubnet, he⟩ := exists_of_not_trusts htrusts
    exact .inr ⟨e, fun handle trace call =>
      ⟨trusted_of_check hsubnet (h ▸ he) handle trace, callFrom_of_check hsubnet he call⟩⟩

/-- A server changes only by authorized requests that succeed, and of the clients with one address both
transports take all or none. -/
theorem changes_only_by_authorized (s : Server) :
    (∀ r, s.serve r ≠ s → s.Authorizes r ∧ s.Succeeds r) ∧
    (∀ r, r.IsChecked → (s.TurnsAway r ↔ ¬ s.Trusts r.client?)) ∧
    ∀ (req : Request) (client : Option Bytes),
      req.headers.text? clientField = client.bind visibleText? →
      (∀ handle trace call, trusted handle trace req s = handle trace req s ∧
        s.callFrom client call = s.call call) ∨
      ∃ e : Net.ClientError, ∀ handle trace call,
        trusted handle trace req s = (.failure 403 trace "forbidden" e.message, s) ∧
        s.callFrom client call = (.error (refuseCall e), s) := by
  refine ⟨fun r hr => ⟨?_, ?_⟩, fun r hr => turnsAway_iff hr,
    fun req client h => trusted_and_callFrom h s⟩
  · exact Classical.byContradiction fun h => hr (serve_of_not_authorizes h)
  · exact Classical.byContradiction fun h => hr (serve_of_not_succeeds h)

def closedServer : Server :=
  { store := .memory [], disk := {}, signingKey := some (Bytes.ofText "key"),
    subnet := Net.Subnet.ofText? "10.0.0.0/8" }

def signedUpdate (address : String) : Request :=
  ⟨"POST", "/update/counter/hits/4", [(clientField, Bytes.ofText address),
    (signatureField, Bytes.ofText "XV0TlWPJW1lnub2ajJsjOp3ttFByeUzSMtwbdIMmB9A=")], ⟨[], false, true⟩⟩

/-- A signed update from the subnet is taken; one from elsewhere is not, and no call from there. -/
theorem changes_only_by_authorized_closedServer :
    closedServer.serve (.http "1" (signedUpdate "10.1.2.3")) ≠ closedServer ∧
    closedServer.Authorizes (.http "1" (signedUpdate "10.1.2.3")) ∧
    closedServer.TurnsAway (.http "2" (signedUpdate "192.168.0.1")) ∧
    ∃ e : Net.ClientError, ∀ handle trace call,
      trusted handle trace (signedUpdate "192.168.0.1") closedServer =
        (.failure 403 trace "forbidden" e.message, closedServer) ∧
      closedServer.callFrom (some (Bytes.ofText "192.168.0.1")) call =
        (.error (refuseCall e), closedServer) := by
  obtain ⟨hchanged, haway, haddress⟩ := changes_only_by_authorized closedServer
  have hne : closedServer.serve (.http "1" (signedUpdate "10.1.2.3")) ≠ closedServer := by
    decide +kernel
  have hchecked : (Incoming.http "2" (signedUpdate "192.168.0.1")).IsChecked :=
    ⟨by decide, _, rfl, rfl⟩
  refine ⟨hne, (hchanged _ hne).1, (haway _ hchecked).2 (by decide +kernel), ?_⟩
  refine (haddress _ _ (by decide +kernel)).resolve_left fun h => ?_
  have hlist := congrArg (·.1.isOk) (h (fun _ _ s => ({ status := 200 }, s)) "3" .list).2
  exact absurd hlist (by decide +kernel)

end Requests

end Server
end Telemetry
