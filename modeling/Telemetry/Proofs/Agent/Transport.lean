import Telemetry.Agent.RpcClient
import Telemetry.Proofs.Crypto.Blocks
import Telemetry.Proofs.Crypto.Signature
import Telemetry.Proofs.Gzip.RoundTrip
import Telemetry.Proofs.Metric.ReportJson
import Telemetry.Proofs.Server.Requests
import Telemetry.Proofs.Service.Batch
import Telemetry.Proofs.Store.Merge
import Telemetry.Proofs.Wire.Messages

/-!
Jobs on their way from an agent to the store of a server. The request or the call that a client makes of a
job passes what stands before the routes and is read there, and one call on the store comes of it, which
upserts the metrics of the job.
-/
namespace Telemetry

namespace Service
variable {m : Metric}

/-- A call does what applying the metrics does, on a ledger and on any store that takes all of them. -/
structure Upserts (call : Call) (ms : List Metric) : Prop where
  ledger : ∀ l : Ledger, (call.run Ledger.backend l).2 = (Ledger.applyAll ms l).2
  store : ∀ (s : Store) {l : Ledger}, l.Valid → l.accepted ms = ms →
    (call.run Store.backend (s.refill l)).2 = s.refill (Ledger.applyAll ms l).2

theorem upserts_of_apply (hm : m.WellFormed) {i : Input}
    (h : ∀ l : Ledger, l.apply m.key i = l.upsert m) : Upserts (.upsert m.kind.text m.name i) [m] := by
  have hfresh : Metric.fresh m.kind m.name = .ok ⟨m.name, .zero m.kind⟩ :=
    Metric.fresh_eq_ok_iff.2 ⟨hm.name, rfl⟩
  have hparse : Metric.parse m.kind.text m.name = .ok ⟨m.name, .zero m.kind⟩ := by
    simp [Metric.parse, hfresh]
  have hkey : Metric.key ⟨m.name, .zero m.kind⟩ = m.key := by
    rw [Metric.key_mk, Value.kind_zero]
    rfl
  constructor
  · intro l
    have hrun := updateByValue_ledger hparse i l
    rw [hkey, h l] at hrun
    rw [Call.run, hrun]
    cases hup : l.upsert m with
    | ok r => rw [Ledger.applyAll_cons_ok hup]; rfl
    | error e => rw [Ledger.applyAll_cons_error hup]; rfl
  · intro s l hl hall
    obtain ⟨m', l', hup, -⟩ := Ledger.accepted_cons_eq hall
    have happly : l.apply (Metric.key ⟨m.name, .zero m.kind⟩) i = .ok (m', l') := by rw [hkey, h l, hup]
    obtain ⟨m'', hrun, -⟩ := (mirrors_store hl s).updateByValue_of_applied hparse happly
    rw [Call.run, hrun, Ledger.applyAll_cons_ok hup]
    rfl

theorem upserts_value (hm : m.WellFormed) :
    Upserts (.upsert m.kind.text m.name (.ofValue m.value)) [m] :=
  upserts_of_apply hm fun _ => rfl

theorem upserts_text (hm : m.WellFormed) :
    Upserts (.upsert m.kind.text m.name (.text m.value.text)) [m] :=
  upserts_of_apply hm (Ledger.apply_text hm)

theorem upserts_batch (ms : List Metric) : Upserts (.batch ms) ms := by
  refine ⟨fun _ => rfl, fun s l hl hall => ?_⟩
  cases s with
  | memory _ => rfl
  | file path _ => rfl
  | table _ =>
    have hbatch := updateBatch_table ms l.image
    rw [Ledger.updateBatch_image_ok hl hall] at hbatch
    exact congrArg Prod.snd hbatch

end Service

namespace Agent
open Http

namespace Job

def reports : Job → List Report
  | one r => [r]
  | batch rs => rs

/-- A job that brings metrics: a single one, or some in one list. -/
inductive Carries : Job → List Metric → Prop
  | one (m : Metric) : Carries (.one (.ofMetric m)) [m]
  | batch {ms : List Metric} (h : ms ≠ []) : Carries (.batch (ms.map .ofMetric)) ms

theorem ofSnapshot_batch {ms : List Metric} (h : ms ≠ []) :
    ofSnapshot .batch ms = [.batch (ms.map .ofMetric)] := by
  simp [ofSnapshot, h]

end Job

/-- What takes jobs to a server: a client of either transport, with what comes from elsewhere, an id for
the request or the seeds of the encryption. -/
inductive Carrier where
  | http (client : HttpClient) (trace : String)
  | rpc (client : RpcClient) (seeds : Nat → Bytes)

namespace Carrier

def incoming : Carrier → Job → Except SendError Server.Incoming
  | http client trace, job => (client.request job).map (.http trace)
  | rpc client seeds, job => (client.call seeds job).map (.rpc client.clientIp)

end Carrier

/-- A request gets through: its URL names a server and ends in the path of the job, the server trusts
the address and has the key that the body is signed with, the body is not too long, and the readings are
ones that are read back from JSON. -/
structure HttpClient.Reaches (c : HttpClient) (s : Server) (job : Job) : Prop where
  server : (server? (c.base ++ path job)).any isServer
  path : pathOfTarget (c.base ++ path job) = path job
  field : c.clientIp.all fun ip => (Bytes.ofText ip).all isFieldByte
  trusted : s.Trusts ((c.clientIp.map Bytes.ofText).bind visibleText?)
  key : ∀ key, s.signingKey = some key → c.signingKey = some key
  signedSize : s.signingKey.isSome → (Gzip.write job.toJson).length ≤ Server.maxSignedBody
  size : job.toJson.length ≤ Server.maxBody
  readable : ∀ r ∈ job.reports, r.Readable

/-- A call gets through: the server trusts the address, and where updates are encrypted it has the key
and gets back what has been encrypted. -/
structure RpcClient.Reaches (c : RpcClient) (seeds : Nat → Bytes) (s : Server) (job : Job) : Prop where
  trusted : s.Trusts (c.clientIp.bind visibleText?)
  decrypts : ∀ key, c.publicKey = some key → ∃ secret size, s.privateKey = some secret ∧
    secret.publicKey = key ∧ Oaep.chunkSize? key = some size ∧ 0 < size ∧
    ∀ r u, job = .one r → update r = .ok u →
      u.encode.length < 2 ^ 64 ∧ Oaep.Recovers secret size seeds u.encode

def Carrier.Reaches (s : Server) (job : Job) : Carrier → Prop
  | .http client _ => client.Reaches s job
  | .rpc client seeds => client.Reaches seeds s job

section Http
variable {c : HttpClient} {s : Server} {job : Job}

theorem fieldNames_ne : "Content-Type".toLower ≠ "Content-Encoding".toLower ∧
    "Content-Type".toLower ≠ signatureField.toLower ∧ "Content-Type".toLower ≠ clientField.toLower ∧
    "Content-Encoding".toLower ≠ signatureField.toLower ∧
    "Content-Encoding".toLower ≠ clientField.toLower ∧ signatureField.toLower ≠ clientField.toLower := by
  decide +kernel

/-- The request of a job has the job's path, and its fields say how the body is encoded, how it is
signed and whose it is. -/
theorem HttpClient.Reaches.request (h : c.Reaches s job) : ∃ headers : Headers,
    c.request job = .ok ⟨"POST", HttpClient.path job, headers, { content := Gzip.write job.toJson }⟩ ∧
      headers.first? "Content-Encoding" = some (Bytes.ofText "gzip") ∧
      headers.first? signatureField = c.signingKey.map (fun key =>
        Bytes.ofText (String.ofList (Signature.sign (Gzip.write job.toJson) key))) ∧
      headers.first? clientField = c.clientIp.map Bytes.ofText := by
  have hserver := h.server
  have hfield := h.field
  obtain ⟨htypeEncoding, htypeSignature, htypeClient, hencodingSignature, hencodingClient,
    hsignatureClient⟩ := fieldNames_ne
  simp only [HttpClient.request, hserver, hfield, h.path, Bool.not_true, Bool.false_eq_true, if_false]
  refine ⟨_, rfl, ?_, ?_, ?_⟩
  · simp [Headers.first?, Headers.values, htypeEncoding]
  · cases c.signingKey <;> cases c.clientIp <;>
      simp [Headers.first?, Headers.values, htypeSignature, hencodingSignature, hsignatureClient.symm]
  · cases c.signingKey <;> cases c.clientIp <;>
      simp [Headers.first?, Headers.values, htypeClient, hencodingClient, hsignatureClient]

def Job.route : Job → Route
  | .one _ => .update
  | .batch _ => .updateAll

theorem ofPath?_path (job : Job) : Route.ofPath? (HttpClient.path job) = some job.route := by
  have hone : Route.ofPath? "/update/" = some .update := by decide +kernel
  have hall : Route.ofPath? "/updates/" = some .updateAll := by decide +kernel
  cases job with
  | one r => exact hone
  | batch rs => exact hall

theorem answerRoute_route (job : Job) {req : Request} (h : req.method = "POST") (trace : String)
    (s : Server) : Server.answerRoute job.route trace req s = Server.answer job.route trace req s := by
  have hmethods : req.method ∈ job.route.methods := by cases job <;> simp [Job.route, Route.methods, h]
  have hdecode : job.route.decode = .ok job.route := by cases job <;> rfl
  simp [Server.answerRoute, hmethods, hdecode]

/-- The request of a job comes through all that stands before the routes, and its body is the text of
the job. -/
theorem HttpClient.Reaches.serve (h : c.Reaches s job) (trace : String) :
    ∃ req req', c.request job = .ok req ∧ req'.body.read Server.maxBody = .ok job.toJson ∧
      s.serve (.http trace req) = (Server.answer job.route trace req' s).2 := by
  obtain ⟨headers, hrequest, hencoding, hsignature, hclient⟩ := h.request
  have hroute := ofPath?_path job
  have hupdate : job.route.isUpdate = true := by cases job <;> rfl
  have htrusts : s.Trusts (headers.text? clientField) := by
    rw [Headers.text?, hclient]
    exact h.trusted
  have hverifies : s.Verifies
      ⟨"POST", HttpClient.path job, headers, { content := Gzip.write job.toJson }⟩ := by
    intro key hkey _
    have hsize : (Gzip.write job.toJson).length ≤ Server.maxSignedBody := h.signedSize (by simp [hkey])
    refine ⟨String.ofList (Signature.sign (Gzip.write job.toJson) key), Gzip.write job.toJson,
      ?_, ?_, ?_⟩
    · simp only [Headers.text?, hsignature, h.key key hkey, Option.map_some, Option.bind_some,
        Signature.visibleText?_sign]
    · simp [Body.read, Nat.not_lt.2 hsize]
    · rw [String.toList_ofList, Signature.verify_sign]
  refine ⟨_, ⟨"POST", HttpClient.path job, headers, ⟨job.toJson, true, true⟩⟩, hrequest, ?_, ?_⟩
  · simp [Body.read, Nat.not_lt.2 h.size]
  · have hunzipped : Request.unzipped?
        ⟨"POST", HttpClient.path job, headers, { content := Gzip.write job.toJson }⟩ =
          some ⟨"POST", HttpClient.path job, headers, ⟨job.toJson, true, true⟩⟩ := by
      simp [Request.unzipped?, hencoding, Body.unzipped, Gzip.read_write]
    rw [Server.serve, Server.handle_snd, if_neg (by simp), Server.routed]
    simp only [hroute, hupdate, if_true]
    rw [Server.trusted_of_trusts htrusts, Server.verified_of_verifies hverifies,
      Server.decompressed_snd, hunzipped, Option.elim_some, answerRoute_route job rfl]

/-- A server that has read the body of a job's request upserts the metrics of the job. -/
theorem exists_answer_eq_perform {ms : List Metric} (hjob : job.Carries ms)
    (hms : ∀ m ∈ ms, m.WellFormed) (hread : ∀ r ∈ job.reports, r.Readable) {req : Request}
    (hbody : req.body.read Server.maxBody = .ok job.toJson) (trace : String) (s : Server) :
    ∃ call, Service.Upserts call ms ∧
      (Server.answer job.route trace req s).2 = s.perform call := by
  cases hjob with
  | one m =>
    have hm : m.WellFormed := hms m (List.mem_singleton.2 rfl)
    have hreport : Report.ofJson? (Job.one (.ofMetric m)).toJson = some (.ofMetric m) :=
      Report.ofJson?_toJson (hread _ (List.mem_singleton.2 rfl))
    refine ⟨_, Service.upserts_value hm, ?_⟩
    have hupdate := Server.update_snd (.ofMetric m) s
    rw [Report.input_ofMetric] at hupdate
    simp only [Server.answer, Job.route, Server.withBody, hbody, hreport]
    exact hupdate
  | batch hne =>
    have hreports : Report.listOfJson? (Job.batch (ms.map .ofMetric)).toJson = some (ms.map .ofMetric) :=
      Report.listOfJson?_listToJson hread
    have hempty : (ms.map Report.ofMetric).isEmpty = false := by simp [hne]
    refine ⟨_, Service.upserts_batch ms, ?_⟩
    have hupdate := Server.updateAll_snd (ms.map .ofMetric) s
    rw [Report.mapM_toMetric_ofMetric hms] at hupdate
    simp only [Server.answer, Job.route, Server.withBody, hbody, hreports, Server.answerReports, hempty,
      Bool.false_eq_true, if_false]
    exact hupdate

end Http

section Calls
variable {c : RpcClient} {seeds : Nat → Bytes} {s : Server} {job : Job} {m : Metric}

theorem update_ofMetric (m : Metric) :
    RpcClient.update (.ofMetric m) = .ok ⟨m.kind.text, m.name, m.value.text⟩ := by
  rw [RpcClient.update, Report.input_ofMetric, ← Input.display_ofValue]
  rfl

theorem RpcClient.Reaches.call_one (h : c.Reaches seeds s (.one (.ofMetric m))) :
    ∃ call, c.call seeds (.one (.ofMetric m)) = .ok call ∧
      (s.call call).2 = s.perform (.upsert m.kind.text m.name (.text m.value.text)) := by
  simp only [RpcClient.call, update_ofMetric]
  cases hkey : c.publicKey with
  | none => exact ⟨_, rfl, Server.updateByValue_snd _ _ _ s⟩
  | some key =>
    obtain ⟨secret, size, hsecret, rfl, hsize, hpos, hrecovers⟩ := h.decrypts key hkey
    obtain ⟨hlength, hchunks⟩ := hrecovers _ _ rfl (update_ofMetric m)
    have hblock : 0 < secret.size := by
      have hlonger := Oaep.chunkSize?_eq_some_iff.1 hsize
      rw [Rsa.PrivateKey.size]
      omega
    have hplain := Oaep.decrypt_encrypt hpos hblock hchunks
    have hdecoded := UpdateRequest.decode?_encode hlength
    simp only [Oaep.encryptFor?_of_chunkSize? hsize hpos]
    refine ⟨_, rfl, ?_⟩
    simp only [Server.call, Server.decryptUpdate, hsecret, hplain, hdecoded]
    exact Server.updateByValue_snd _ _ _ s

theorem RpcClient.exists_call_batch (c : RpcClient) (seeds : Nat → Bytes) (s : Server) {ms : List Metric}
    (hne : ms ≠ []) (hms : ∀ m ∈ ms, m.WellFormed) :
    ∃ call, c.call seeds (.batch (ms.map .ofMetric)) = .ok call ∧
      (s.call call).2 = s.perform (.batch ms) := by
  refine ⟨_, rfl, ?_⟩
  have hupdate := Server.updateAll_snd (ms.map .ofMetric) s
  rw [Report.mapM_toMetric_ofMetric hms] at hupdate
  cases ms with
  | nil => exact absurd rfl hne
  | cons m ms =>
    simp only [Server.call, Server.callUpdateAll, Report.mapM_ofRecord_toRecord]
    exact hupdate

end Calls

end Agent
end Telemetry
