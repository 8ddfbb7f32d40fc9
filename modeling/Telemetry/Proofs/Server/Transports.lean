import Telemetry.Proofs.Metric.ReportJson
import Telemetry.Proofs.Metric.Reports
import Telemetry.Proofs.Server.Requests
import Telemetry.Proofs.Text.Octets

/-!
The same request over either transport. On a server without key and subnet a request over HTTP and the call
for the same thing leave the same server behind, and their answers say the same. Only a body that is too
long to be read is refused over HTTP alone.
-/
namespace Telemetry

namespace Http.Route
open Text

def pathOf (parts : List String) : String := String.ofList (parts.flatMap fun p => '/' :: p.toList)

theorem split_pathOf {parts : List String} (h : ∀ p ∈ parts, '/' ∉ p.toList) :
    (split '/' (pathOf parts).toList).map String.ofList = "" :: parts := by
  have hsplit : ∀ (start : List Char), '/' ∉ start →
      split '/' (start ++ parts.flatMap fun p => '/' :: p.toList) = start :: parts.map String.toList := by
    induction parts with
    | nil => exact fun start hstart => by simp [split_of_not_mem _ hstart]
    | cons p parts ih =>
      obtain ⟨hp, hparts⟩ := List.forall_mem_cons.1 h
      intro start hstart
      rw [List.flatMap_cons, List.cons_append, split_append_cons _ hstart, ih hparts _ hp,
        List.map_cons]
  have hpath := hsplit [] (by simp)
  rw [List.nil_append] at hpath
  simp [pathOf, hpath]

/-- What a path leads to, its parameters decoded. -/
def Leads (path : String) (r : Route) : Prop := ∃ r', ofPath? path = some r' ∧ r'.decode = .ok r

variable {kind name value : String}

theorem leads_updateByPath (h : value ≠ "") :
    Leads (pathOf ["update", escape kind, escape name, escape value]) (.updateByPath kind name value) := by
  have hvalue : escape value ≠ "" := fun hempty => h (escape_eq_empty_iff.1 hempty)
  have hparts : ∀ p ∈ ["update", escape kind, escape name, escape value], '/' ∉ p.toList := by
    simp [slash_not_mem_escape]
  refine ⟨.updateByPath (escape kind) (escape name) (escape value), ?_, ?_⟩
  · simp [ofPath?, split_pathOf hparts, hvalue]
  · simp [decode, parameter, unescapeText?_escape, bind, Except.bind]

theorem leads_valueByPath (h : name ≠ "") :
    Leads (pathOf ["value", escape kind, escape name]) (.valueByPath kind name) := by
  have hname : escape name ≠ "" := fun hempty => h (escape_eq_empty_iff.1 hempty)
  have hparts : ∀ p ∈ ["value", escape kind, escape name], '/' ∉ p.toList := by
    simp [slash_not_mem_escape]
  refine ⟨.valueByPath (escape kind) (escape name), ?_, ?_⟩
  · simp [ofPath?, split_pathOf hparts, hname]
  · simp [decode, parameter, unescapeText?_escape, bind, Except.bind]

end Http.Route

namespace Server
open Http Rpc

def statusOfCode? : StatusCode → Option Nat
  | .invalidArgument => some 400
  | .notFound => some 404
  | .internal => some 500
  | _ => none

/-- An HTTP answer says the same as a reply: the same text or the same reports, or the same refusal with
the same message. -/
inductive Alike (r : Response) : Except Status Reply → Prop
  | value (text : String) (status : r.status = 200) (type : r.mediaType = some .plain)
      (body : r.body = Bytes.ofText text) : Alike r (.ok (.value text))
  | reports (rs : List Report) (status : r.status = 200) (type : r.mediaType = some .json)
      (body : r.body = Report.listToJson rs) : Alike r (.ok (.records (rs.map Report.toRecord)))
  | refusal (e : Status) (status : statusOfCode? e.code = some r.status)
      (type : r.mediaType = some .json)
      (body : ∃ code trace, r.body = Response.errorBody code e.message trace) : Alike r (.error e)

/-- An HTTP answer that leaves `s'` behind says the same as a call, which leaves the same behind. -/
structure Agree (r : Response) (s' : Server) (call : Except Status Reply × Server) : Prop where
  answers : Alike r call.1
  servers : s' = call.2

/-- Compression, signatures and marks do not matter for what is said. -/
theorem Alike.congr {r r' : Response} {reply : Except Status Reply} (h : Alike r reply)
    (status : r'.status = r.status) (type : r'.mediaType = r.mediaType) (body : r'.body = r.body) :
    Alike r' reply := by
  cases h with
  | value text hstatus htype hbody =>
    exact .value text (status.trans hstatus) (type.trans htype) (body.trans hbody)
  | reports rs hstatus htype hbody =>
    exact .reports rs (status.trans hstatus) (type.trans htype) (body.trans hbody)
  | refusal e hstatus htype hbody =>
    exact .refusal e (status ▸ hstatus) (type.trans htype) (body ▸ hbody)

section Answers
variable {s : Server}

theorem alike_respond {α : Type} {f : α → Response} {g : α → Reply} (h : ∀ a, Alike (f a) (.ok (g a)))
    (trace : String) (answer : Except RequestError α) : Alike (respond trace f answer) (reply g answer) := by
  cases answer with
  | ok a => exact h a
  | error e => cases e <;> exact .refusal _ rfl rfl ⟨_, _, rfl⟩

theorem alike_value (m : Metric) : Alike (valueText m) (.ok (valueReply m)) :=
  .value m.value.text rfl rfl rfl

theorem alike_reports (ms : List Metric) : Alike (reports ms) (.ok (recordsReply ms)) := by
  have hrecords : recordsReply ms = .records ((ms.map Report.ofMetric).map Report.toRecord) := by
    simp [recordsReply]
  rw [hrecords]
  exact .reports (ms.map Report.ofMetric) rfl rfl rfl

theorem agree_updateByValue (kind name value trace : String) (req : Request) (s : Server) :
    Agree (answer (.updateByPath kind name value) trace req s).1
      (answer (.updateByPath kind name value) trace req s).2 (s.callUpdate ⟨kind, name, value⟩) :=
  ⟨alike_respond alike_value trace _, rfl⟩

theorem agree_get (kind name trace : String) (req : Request) (s : Server) :
    Agree (answer (.valueByPath kind name) trace req s).1 (answer (.valueByPath kind name) trace req s).2
      (s.call (.get kind name)) :=
  ⟨alike_respond alike_value trace _, rfl⟩

theorem agree_updateAll {rs : List Report} {req : Request}
    (hread : req.body.read maxBody = .ok req.body.content)
    (hreports : Report.listOfJson? req.body.content = some rs) (trace : String) (s : Server) :
    Agree (answer .updateAll trace req s).1 (answer .updateAll trace req s).2
      (s.callUpdateAll (rs.map Report.toRecord)) := by
  simp only [answer, withBody, hread, hreports, callUpdateAll, Report.mapM_ofRecord_toRecord]
  cases rs with
  | nil => exact ⟨.refusal _ rfl rfl ⟨_, _, rfl⟩, rfl⟩
  | cons r rs => exact ⟨alike_respond alike_reports trace _, rfl⟩

end Answers

section Requests
variable {s : Server} {req : Request} {r : Route}

/-- A request gets through to its route: there is no key and no subnet, its body is not encoded and does
not break off. -/
structure Passes (req : Request) (s : Server) : Prop where
  key : s.signingKey = none
  subnet : s.subnet = none
  encoding : ∀ e, req.headers.first? "Content-Encoding" = some e → e = Bytes.ofText "identity"
  sound : req.body.isSound

theorem Passes.unzipped (h : Passes req s) : req.unzipped? = some req := by
  unfold Request.unzipped?
  cases he : req.headers.first? "Content-Encoding" with
  | none => rfl
  | some e =>
    obtain rfl := h.encoding e he
    have hne : Bytes.ofText "identity" ≠ Bytes.ofText "gzip" := by decide +kernel
    simp [hne]

theorem Passes.logged (h : Passes req s) (hroute : Route.Leads req.path r)
    (hmethod : req.method ∈ r.methods) (trace : String) :
    Handler.logged (Handler.compressed (signed routed)) trace req s =
      (((answer r trace req s).1.zippedFor req.headers).marked trace,
        [Log.ofRequest req, Log.ofResponse ((answer r trace req s).1.zippedFor req.headers)],
        (answer r trace req s).2) := by
  obtain ⟨r', hpath, hdecode⟩ := hroute
  have hanswer : answerRoute r' trace req s = answer r trace req s := by
    rw [Route.methods_of_decode hdecode] at hmethod
    simp [answerRoute, hmethod, hdecode]
  have hrouted : routed trace req s = answer r trace req s := by
    simp [routed, hpath, trusted, h.subnet, verified, h.key, Handler.decompressed, h.unzipped, hanswer]
  simp [Handler.logged_eq, h.sound, Handler.compressed, signed, hrouted, sign, h.key]

theorem Passes.agree (h : Passes req s) (hroute : Route.Leads req.path r) (hmethod : req.method ∈ r.methods)
    (hhead : req.method ≠ "HEAD") {call : Except Status Reply × Server} (trace : String)
    (hcall : Agree (answer r trace req s).1 (answer r trace req s).2 call) :
    Agree (handle trace req s).1 (handle trace req s).2.2 call := by
  simp only [handle, h.logged hroute hmethod]
  exact ⟨hcall.answers.congr rfl rfl (if_neg hhead), hcall.servers⟩

theorem callFrom_of_subnet_eq_none (h : s.subnet = none) (client : Option Bytes) (c : Rpc.Call) :
    s.callFrom client c = s.call c :=
  callFrom_of_trusts (fun subnet hsubnet => by simp [h] at hsubnet) c

theorem leads_updateAll : Route.Leads "/updates/" .updateAll :=
  ⟨.updateAll, by decide +kernel, rfl⟩

theorem Passes.tooLong (h : Passes req s) (hpath : req.path = "/updates/") (hmethod : req.method = "POST")
    (hlong : maxBody < req.body.content.length) (trace : String) :
    (handle trace req s).1.status = 413 ∧ (handle trace req s).2.2 = s := by
  have hroute : Route.Leads req.path .updateAll := hpath ▸ leads_updateAll
  simp [handle, h.logged hroute (by simp [Route.methods, hmethod]), finish, Response.marked,
    Response.zippedFor, answer, withBody, Body.read, hlong, Response.ofBodyError, Response.ofText]

/-- On a server without key and subnet, updates by path, lookups and updates by list do over HTTP what they
do as calls, whatever is sent: every text that is not empty has a path and every list with readable numbers a
body. A body that is too long is the exception, and an empty list is refused by both. -/
theorem http_agrees_with_calls (s : Server) (client : Option Bytes) (trace : String) :
    (∀ kind name value : String, kind ≠ "" → name ≠ "" → value ≠ "" →
      (∃ path, Route.Leads path (.updateByPath kind name value)) ∧
      ∀ req, Passes req s → req.method = "POST" → Route.Leads req.path (.updateByPath kind name value) →
        Agree (handle trace req s).1 (handle trace req s).2.2
          (s.callFrom client (.update ⟨kind, name, value⟩))) ∧
    (∀ kind name : String, kind ≠ "" → name ≠ "" →
      (∃ path, Route.Leads path (.valueByPath kind name)) ∧
      ∀ req, Passes req s → req.method = "GET" → Route.Leads req.path (.valueByPath kind name) →
        Agree (handle trace req s).1 (handle trace req s).2.2 (s.callFrom client (.get kind name))) ∧
    (∀ rs : List Report, (∀ r ∈ rs, r.Readable) →
      Report.listOfJson? (Report.listToJson rs) = some rs ∧
      ∀ req, Passes req s → req.method = "POST" → req.path = "/updates/" →
        Report.listOfJson? req.body.content = some rs →
        if req.body.content.length ≤ maxBody then
          Agree (handle trace req s).1 (handle trace req s).2.2
            (s.callFrom client (.updateAll (rs.map Report.toRecord))) ∧
          (rs = [] → s.callFrom client (.updateAll []) =
            (.error ⟨.invalidArgument, "batch must not be empty"⟩, s))
        else (handle trace req s).1.status = 413 ∧ (handle trace req s).2.2 = s) := by
  refine ⟨fun kind name value _ _ hvalue => ⟨⟨_, Route.leads_updateByPath hvalue⟩, ?_⟩,
    fun kind name _ hname => ⟨⟨_, Route.leads_valueByPath hname⟩, ?_⟩,
    fun rs hrs => ⟨Report.listOfJson?_listToJson hrs, ?_⟩⟩
  · intro req h hmethod hroute
    rw [callFrom_of_subnet_eq_none h.subnet]
    exact h.agree hroute (by simp [Route.methods, hmethod]) (by simp [hmethod]) trace
      (agree_updateByValue kind name value trace req s)
  · intro req h hmethod hroute
    rw [callFrom_of_subnet_eq_none h.subnet]
    exact h.agree hroute (by simp [Route.methods, hmethod]) (by simp [hmethod]) trace
      (agree_get kind name trace req s)
  · intro req h hmethod hpath hreports
    split
    · next hlength =>
      have hread : req.body.read maxBody = .ok req.body.content := by
        simp [Body.read, Nat.not_lt.2 hlength, h.sound]
      have hroute : Route.Leads req.path .updateAll := hpath ▸ leads_updateAll
      rw [callFrom_of_subnet_eq_none h.subnet, callFrom_of_subnet_eq_none h.subnet]
      refine ⟨h.agree hroute (by simp [Route.methods, hmethod]) (by simp [hmethod]) trace
        (agree_updateAll hread hreports trace s), fun _ => rfl⟩
    · next hlength => exact h.tooLong hpath hmethod (Nat.lt_of_not_le hlength) trace

end Requests

def plainServer : Server := { store := .memory [], disk := {} }

def smallBatch : List Report := [⟨"load", .gauge, none, some (.zero false)⟩]

def postTo (path : String) (body : Bytes) : Request := ⟨"POST", path, [], ⟨body, false, true⟩⟩

theorem http_agrees_with_calls_plainServer :
    Agree (handle "1" (postTo "/update/counter/hits/4" []) plainServer).1
      (handle "1" (postTo "/update/counter/hits/4" []) plainServer).2.2
      (plainServer.callFrom none (.update ⟨"counter", "hits", "4"⟩)) ∧
    Agree (handle "1" ⟨"GET", "/value/gauge/lo%61d", [], ⟨[], false, true⟩⟩ plainServer).1
      (handle "1" ⟨"GET", "/value/gauge/lo%61d", [], ⟨[], false, true⟩⟩ plainServer).2.2
      (plainServer.callFrom none (.get "gauge" "load")) ∧
    Agree (handle "1" (postTo "/updates/" (Report.listToJson smallBatch)) plainServer).1
      (handle "1" (postTo "/updates/" (Report.listToJson smallBatch)) plainServer).2.2
      (plainServer.callFrom none (.updateAll (smallBatch.map Report.toRecord))) := by
  have hpasses : ∀ method path body, Passes ⟨method, path, [], ⟨body, false, true⟩⟩ plainServer :=
    fun _ _ _ => ⟨rfl, rfl, by simp [Headers.first?, Headers.values], rfl⟩
  obtain ⟨hupdate, hget, hbatch⟩ := http_agrees_with_calls plainServer none "1"
  refine ⟨?_, ?_, ?_⟩
  · exact (hupdate "counter" "hits" "4" (by decide) (by decide) (by decide)).2 _ (hpasses _ _ _) rfl
      ⟨_, rfl, by decide +kernel⟩
  · exact (hget "gauge" "load" (by decide) (by decide)).2 _ (hpasses _ _ _) rfl
      ⟨_, rfl, by decide +kernel⟩
  · obtain ⟨hread, hagree⟩ := hbatch smallBatch (by decide +kernel)
    have hshort : (Report.listToJson smallBatch).length ≤ maxBody := by decide +kernel
    generalize Report.listToJson smallBatch = body at hread hshort ⊢
    have h := hagree (postTo "/updates/" body) (hpasses _ _ _) rfl rfl hread
    rw [if_pos (show (postTo "/updates/" body).body.content.length ≤ maxBody from hshort)] at h
    exact h.1

/-- The list with two mebibytes of blanks behind it. -/
def paddedBatch : Bytes := Report.listToJson smallBatch ++ List.replicate maxBody Ascii.space

/-- The list is in the padded body too, which is refused over HTTP, while the call is taken. -/
theorem padded_body_disagrees :
    Passes (postTo "/updates/" paddedBatch) plainServer ∧
    Report.listOfJson? paddedBatch = some smallBatch ∧
    (handle "1" (postTo "/updates/" paddedBatch) plainServer).1.status = 413 ∧
    (handle "1" (postTo "/updates/" paddedBatch) plainServer).2.2 = plainServer ∧
    (plainServer.callFrom none (.updateAll (smallBatch.map Report.toRecord))).2 ≠ plainServer ∧
    ¬ Agree (handle "1" (postTo "/updates/" paddedBatch) plainServer).1
      (handle "1" (postTo "/updates/" paddedBatch) plainServer).2.2
      (plainServer.callFrom none (.updateAll (smallBatch.map Report.toRecord))) := by
  have hpasses : Passes (postTo "/updates/" paddedBatch) plainServer :=
    ⟨rfl, rfl, by simp [postTo, Headers.first?, Headers.values], rfl⟩
  have hread : Report.listOfJson? paddedBatch = some smallBatch := by
    refine Report.listOfJson?_append_blanks (by decide +kernel) _ fun b hb => ?_
    rw [(List.mem_replicate.1 hb).2]
    rfl
  have hlong : maxBody < paddedBatch.length := by
    rw [paddedBatch, List.length_append, List.length_replicate]
    exact Nat.lt_add_of_pos_left (by decide +kernel)
  obtain ⟨hstatus, hstays⟩ := hpasses.tooLong rfl rfl hlong "1"
  have hchanges : (plainServer.callFrom none (.updateAll (smallBatch.map Report.toRecord))).2 ≠
      plainServer := by decide +kernel
  exact ⟨hpasses, hread, hstatus, hstays, hchanges, fun h => hchanges (h.servers.symm.trans hstays)⟩

end Server
end Telemetry
