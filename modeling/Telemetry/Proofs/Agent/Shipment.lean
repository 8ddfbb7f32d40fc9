import Telemetry.Proofs.Agent.Transport

/-!
Deliveries of the metrics of an agent. All jobs of a snapshot, in any order and by any carriers that get
through, leave the server with the same metrics: those that it had with those of the snapshot merged in.
-/
namespace Telemetry

namespace Agent
open Http

/-- A job and what it is carried by. -/
structure Shipment where
  carrier : Carrier
  job : Job

namespace Shipment

/-- The server after a delivery; what cannot be sent does not come to it. -/
def deliver (s : Server) (d : Shipment) : Server :=
  match d.carrier.incoming d.job with
  | .ok r => s.serve r
  | .error _ => s

def deliverAll (ds : List Shipment) (s : Server) : Server := ds.foldl deliver s

/-- The delivery gets through. -/
def Reaches (s : Server) (d : Shipment) : Prop := d.carrier.Reaches s d.job

variable {d : Shipment} {s s' : Server} {ms : List Metric}

/-- A delivery that gets through is one call on the store, which upserts the metrics of the job. -/
theorem exists_deliver_eq_perform (hjob : d.job.Carries ms) (hms : ∀ m ∈ ms, m.WellFormed)
    (h : d.Reaches s) : ∃ call, Service.Upserts call ms ∧ d.deliver s = s.perform call := by
  obtain ⟨carrier, job⟩ := d
  cases carrier with
  | http client trace =>
    obtain ⟨req, req', hrequest, hbody, hserve⟩ := HttpClient.Reaches.serve h trace
    obtain ⟨call, hcall, hanswer⟩ := exists_answer_eq_perform hjob hms h.readable hbody trace s
    refine ⟨call, hcall, ?_⟩
    simp only [deliver, Carrier.incoming, hrequest, Except.map, hserve, hanswer]
  | rpc client seeds =>
    have hfrom : ∀ call, s.serve (.rpc client.clientIp call) = (s.call call).2 := by
      intro call
      rw [Server.serve, Server.callFrom_of_trusts h.trusted]
    cases hjob with
    | one m =>
      obtain ⟨call, hsent, hdone⟩ := RpcClient.Reaches.call_one h
      refine ⟨_, Service.upserts_text (hms m (List.mem_singleton.2 rfl)), ?_⟩
      simp only [deliver, Carrier.incoming, hsent, Except.map, hfrom, hdone]
    | batch hne =>
      obtain ⟨call, hsent, hdone⟩ := client.exists_call_batch seeds s hne hms
      refine ⟨_, Service.upserts_batch ms, ?_⟩
      simp only [deliver, Carrier.incoming, hsent, Except.map, hfrom, hdone]

/-- Whether a delivery gets through depends on the keys and the subnet of the server alone. -/
theorem Reaches.congr (h : d.Reaches s) (hkey : s'.signingKey = s.signingKey)
    (hsubnet : s'.subnet = s.subnet) (hsecret : s'.privateKey = s.privateKey) : d.Reaches s' := by
  have htrusts : ∀ client, s.Trusts client → s'.Trusts client := by
    intro client htrusts
    rw [Server.Trusts, hsubnet]
    exact htrusts
  obtain ⟨carrier, job⟩ := d
  cases carrier with
  | http client trace =>
    have h : client.Reaches s job := h
    exact { h with
      trusted := htrusts _ h.trusted, key := hkey ▸ h.key, signedSize := hkey ▸ h.signedSize }
  | rpc client seeds =>
    have h : client.Reaches seeds s job := h
    exact { h with trusted := htrusts _ h.trusted, decrypts := hsecret ▸ h.decrypts }

theorem store_perform_refill {t : Store} (ht : t.InMemory) {l : Ledger} (hs : s.store = t.refill l)
    {call : Service.Call} (hcall : Service.Upserts call ms) :
    (s.perform call).store = t.refill (Ledger.applyAll ms l).2 := by
  rw [Server.perform_store, hs, Service.Call.run_embeds ht.embeds, ← hcall.ledger l]
  rfl

theorem store_deliverAll {t : Store} (ht : t.InMemory) {ds : List Shipment} {mss : List (List Metric)}
    (hjobs : List.Forall₂ (fun d ms => d.job.Carries ms) ds mss)
    (hms : ∀ ms ∈ mss, ∀ m ∈ ms, m.WellFormed) (h : ∀ d ∈ ds, d.Reaches s) {l : Ledger}
    (hs : s.store = t.refill l) :
    (deliverAll ds s).store = t.refill (Ledger.applyAll mss.flatten l).2 := by
  induction hjobs generalizing s l with
  | nil => exact hs
  | @cons d ms ds mss hjob _ ih =>
    obtain ⟨hd, hds⟩ := List.forall_mem_cons.1 h
    obtain ⟨hfirst, hrest⟩ := List.forall_mem_cons.1 hms
    obtain ⟨call, hcall, hdeliver⟩ := exists_deliver_eq_perform hjob hfirst hd
    have hreach : ∀ d ∈ ds, d.Reaches (s.perform call) :=
      fun d hd => (hds d hd).congr (by simp) (by simp) (by simp)
    have hnext := ih hrest hreach (store_perform_refill ht hs hcall)
    rw [List.flatten_cons, Ledger.applyAll_append, ← hnext, deliverAll, List.foldl_cons, hdeliver]
    rfl

theorem exists_carried {mode : SendMode} {ds : List Shipment}
    (h : (ds.map Shipment.job).Perm (Job.ofSnapshot mode ms)) : ∃ mss : List (List Metric),
      List.Forall₂ (fun d ms => d.job.Carries ms) ds mss ∧ mss.flatten.Perm ms := by
  cases mode with
  | single =>
    rw [Job.ofSnapshot, List.map_map] at h
    obtain ⟨cs, hperm, hjobs⟩ := exists_perm_of_perm_map h
    have hflatten : (cs.map fun m => [m]).flatten = cs := by
      rw [← List.flatMap_def]
      exact List.flatMap_singleton' cs
    refine ⟨cs.map fun m => [m], ?_, by rwa [hflatten]⟩
    rw [← List.forall₂_eq_eq_eq, List.forall₂_map_left_iff, List.forall₂_map_right_iff] at hjobs
    rw [List.forall₂_map_right_iff]
    refine hjobs.imp fun d m hd => ?_
    rw [hd]
    exact .one m
  | batch =>
    by_cases hne : ms = []
    · subst hne
      have hds : ds = [] := by simpa [Job.ofSnapshot] using h
      exact ⟨[], hds ▸ .nil, .nil⟩
    · rw [Job.ofSnapshot_batch hne] at h
      have hjobs : ds.map Shipment.job = [.batch (ms.map .ofMetric)] := List.perm_singleton.1 h
      obtain ⟨d, rfl, hd⟩ := List.map_eq_singleton_iff.1 hjobs
      refine ⟨[ms], .cons ?_ .nil, by simp⟩
      rw [hd]
      exact .batch hne

/-- A snapshot reaches a server with its metrics in memory by whatever carriers, in single jobs in any
order or in one batch: the server is left with what it had and the snapshot merged in, where a counter
whose sum would leave the 64-bit integers is left out. -/
theorem deliverAll_merges {s : Server} (hreach : s.store.Reachable) (hmem : s.store.InMemory)
    {ms : Ledger} (hms : ms.Valid) : ∃ l l' : Ledger, s.store.Holds l ∧ l.Merges ms l' ∧
      ∀ (mode : SendMode) (ds : List Shipment), (ds.map Shipment.job).Perm (Job.ofSnapshot mode ms) →
        (∀ d ∈ ds, d.Reaches s) → (deliverAll ds s).store = s.store.refill l' := by
  obtain ⟨l, hl, hholds⟩ := hreach.holds
  have hmerged := Ledger.merges_applyAll hl hms.wellFormed hms.nodup_keys
  refine ⟨l, _, hholds, hmerged, fun mode ds hjobs hds => ?_⟩
  obtain ⟨mss, hcarried, hperm⟩ := exists_carried hjobs
  have hwf : ∀ ms' ∈ mss, ∀ m ∈ ms', m.WellFormed :=
    fun ms' hms' m hm => hms.wellFormed m (hperm.mem_iff.1 (List.mem_flatten.2 ⟨ms', hms', hm⟩))
  have hnodup : (mss.flatten.map Metric.key).Nodup := (hperm.map _).nodup_iff.2 hms.nodup_keys
  have hflat := Ledger.merges_applyAll hl (fun m hm => hms.wellFormed m (hperm.mem_iff.1 hm)) hnodup
  rw [store_deliverAll hmem hcarried hwf hds hholds.refill_eq.symm, (hflat.perm hperm).unique hmerged]

def shortKey : Rsa.PrivateKey where
  publicKey := ⟨70416749709286169015825840695796009242233072663066329994429627613626127746140208637645490991341531778895376890912608829674445401981719458374470936930684306853355678621142356103524002181874426695157933818409891413, 65537⟩
  secret := 5688986153214870125220011139113263041263920556064062296687463124757723726808915111832605450759198245057085430201111009316797455867402747645155383820071811797104059549584323330702033087139324683586169796016515433
  first := 8017003435270338566425589928739223987238114580229230892651556122726973736947210567833017839813697622896361
  second := 8783425163508324036138640815909684399674184904053117659447915653219360823620922135259471135238979744571533

theorem wellFormed_fullCounter : (Metric.mk "hits" (.counter 9223372036854775807)).WellFormed := by decide

/-- A server with a full counter that takes updates from one subnet, signed or encrypted. -/
def guardedServer : Server where
  store := (Store.backend.perform (.add ⟨"hits", .counter 9223372036854775807⟩ wellFormed_fullCounter)
    (.file ["dump"] [])).2
  disk := {}
  savesUpdates := true
  signingKey := some (Bytes.ofText "key")
  subnet := Net.Subnet.ofText? "10.0.0.0/8"
  privateKey := some shortKey

/-- Two counters, of which the server has no room for the first, and a gauge. -/
def smallSnapshot : Ledger :=
  [⟨"hits", .counter 1⟩, ⟨"polls", .counter 3⟩, ⟨"load", .gauge (.zero true)⟩]

def signingClient : HttpClient := ⟨"http://[::1]:8080", some (Bytes.ofText "key"), some "10.1.2.3"⟩

def plainClient : RpcClient := ⟨none, some (Bytes.ofText "10.1.2.3")⟩

def encryptingClient : RpcClient := ⟨some shortKey.publicKey, some (Bytes.ofText "10.1.2.3")⟩

def equalSeeds (_ : Nat) : Bytes := List.replicate 32 7

/-- The snapshot in single jobs, each by another carrier and not in its order. -/
def mixedShipments : List Shipment :=
  [⟨.http signingClient "1", .one (.ofMetric ⟨"load", .gauge (.zero true)⟩)⟩,
    ⟨.rpc encryptingClient equalSeeds, .one (.ofMetric ⟨"polls", .counter 3⟩)⟩,
    ⟨.rpc plainClient equalSeeds, .one (.ofMetric ⟨"hits", .counter 1⟩)⟩]

def batchShipment (c : Carrier) : Shipment := ⟨c, .batch (smallSnapshot.map .ofMetric)⟩

theorem signingClient_reaches {job : Job} (hsize : job.toJson.length ≤ 1000)
    (hsigned : (Gzip.write job.toJson).length ≤ 1000) (hread : ∀ r ∈ job.reports, r.Readable) :
    signingClient.Reaches guardedServer job := by
  have hurls : ∀ path ∈ ["/update/", "/updates/"],
      (HttpClient.server? (signingClient.base ++ path)).any HttpClient.isServer ∧
        pathOfTarget (signingClient.base ++ path) = path := by decide +kernel
  have hpath : HttpClient.path job ∈ ["/update/", "/updates/"] := by
    cases job <;> simp [HttpClient.path]
  obtain ⟨hserver, htarget⟩ := hurls _ hpath
  exact ⟨hserver, htarget, by decide +kernel, by decide +kernel, fun _ h => h,
    fun _ => Nat.le_trans hsigned (by decide), Nat.le_trans hsize (by decide), hread⟩

theorem plainClient_reaches (seeds : Nat → Bytes) (job : Job) :
    plainClient.Reaches seeds guardedServer job := by
  refine ⟨by decide +kernel, fun key hkey => ?_⟩
  cases hkey

theorem encryptingClient_reaches :
    encryptingClient.Reaches equalSeeds guardedServer (.one (.ofMetric ⟨"polls", .counter 3⟩)) := by
  refine ⟨by decide +kernel, fun key hkey => ?_⟩
  obtain rfl := Option.some.inj hkey
  refine ⟨shortKey, 22, rfl, rfl, by decide +kernel, by decide, ?_⟩
  rintro r u hjob hu
  obtain rfl := Job.one.inj hjob
  rw [update_ofMetric] at hu
  obtain rfl := Except.ok.inj hu
  exact ⟨by decide +kernel, by decide +kernel⟩

/-- The full counter stays, the other one and the gauge are new. -/
def mergedStore : Store :=
  .file ["dump"] [⟨"hits", .counter 9223372036854775807⟩, ⟨"polls", .counter 3⟩,
    ⟨"load", .gauge (.zero true)⟩]

/-- Single jobs by three carriers come to the same as one batch over either transport. -/
theorem deliverAll_merges_smallSnapshot :
    (deliverAll mixedShipments guardedServer).store = mergedStore ∧
      (deliverAll [batchShipment (.http signingClient "1")] guardedServer).store = mergedStore ∧
      (deliverAll [batchShipment (.rpc plainClient equalSeeds)] guardedServer).store = mergedStore := by
  have hms : smallSnapshot.Valid := ⟨by unfold Ledger.Sorted; decide, by decide +kernel⟩
  obtain ⟨l, l', -, -, hall⟩ := deliverAll_merges (s := guardedServer)
    (.perform (.start (.file _)) _) (.file _ _) hms
  have hmixed := hall .single mixedShipments (by decide +kernel) (by
    simp only [mixedShipments, List.forall_mem_cons]
    exact ⟨signingClient_reaches (by decide +kernel) (by decide +kernel) (by decide +kernel),
      encryptingClient_reaches, plainClient_reaches _ _, by simp⟩)
  have hhttp := hall .batch [batchShipment (.http signingClient "1")] (by decide +kernel) (by
    simp only [List.forall_mem_cons]
    exact ⟨signingClient_reaches (by decide +kernel) (by decide +kernel) (by decide +kernel), by simp⟩)
  have hrpc := hall .batch [batchShipment (.rpc plainClient equalSeeds)] (by decide +kernel) (by
    simp only [List.forall_mem_cons]
    exact ⟨plainClient_reaches _ _, by simp⟩)
  have hstore : (deliverAll [batchShipment (.rpc plainClient equalSeeds)] guardedServer).store =
      mergedStore := by decide +kernel
  exact ⟨hmixed.trans (hrpc.symm.trans hstore), hhttp.trans (hrpc.symm.trans hstore), hstore⟩

end Shipment

end Agent
end Telemetry
