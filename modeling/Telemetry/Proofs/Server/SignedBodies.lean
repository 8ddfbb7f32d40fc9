import Telemetry.Proofs.Crypto.SignatureTexts
import Telemetry.Proofs.Server.Authorization
import Telemetry.Proofs.Server.Signatures

/-!
What a signature binds. It covers the bytes of the body, packed or not, as they were sent. An update that is in
the body is therefore the same wherever and however the body is sent, if it is taken at all: no text is both a
report and a list of reports, and none is both JSON and a gzip file. An update by path is not in the body, so its
signature fits any other path.
-/
namespace Telemetry

/-- No document starts as gzip files do. -/
theorem Json.document?_of_magic (rest : Bytes) : Json.document? (0x1f :: rest) = none := rfl

theorem Gzip.exists_magic {bs : Bytes} (h : (Gzip.read bs).isSound) (hne : bs ≠ []) :
    ∃ rest, bs = 0x1f :: rest := by
  unfold Gzip.read at h
  rw [if_neg (by simpa using hne)] at h
  cases hheader : Gzip.dropHeader? bs with
  | none => simp [hheader] at h
  | some rest =>
    unfold Gzip.dropHeader? at hheader
    split at hheader
    · exact ⟨_, rfl⟩
    · cases hheader

namespace Report
open Json
variable {bs v : Bytes} {r : Report} {rs : List Report}

theorem ofValue?_of_isSome_unquote? (h : (unquote? v).isSome) : ofValue? v = none := by
  unfold unquote? at h
  split at h
  · rfl
  · cases h

/-- A report is no list of reports: if it is written as an array its first element is a text. -/
theorem listOfJson?_of_ofJson? (h : ofJson? bs = some r) : listOfJson? bs = none := by
  obtain ⟨v, hv, hr⟩ := Option.bind_eq_some_iff.1 h
  rw [listOfJson?, hv, Option.bind_some]
  cases hes : elements? v with
  | none => rfl
  | some es =>
    rw [ofValue?, hes] at hr
    match es, hr with
    | id :: kind :: rest, hr =>
      obtain ⟨s, hs, -⟩ := Option.bind_eq_some_iff.1 hr
      simp [ofValue?_of_isSome_unquote? (Option.isSome_iff_exists.2 ⟨s, hs⟩)]

end Report

namespace Http

/-- The bytes that are read of a body with this content. -/
inductive Unpacks (content : Bytes) : Bytes → Prop
  | plain : Unpacks content content
  | packed {data : Bytes} (h : Gzip.read content = ⟨data, true⟩) : Unpacks content data

/-- A body with this content asks for the call, with one report or with a list. -/
inductive AsksFor (content : Bytes) : Service.Call → Prop
  | one {bs : Bytes} {r : Report} {i : Input} (hbs : Unpacks content bs) (hr : Report.ofJson? bs = some r)
      (hi : r.input = .ok i) : AsksFor content (.upsert r.kind.text r.id i)
  | list {bs : Bytes} {rs : List Report} {items : List Metric} (hbs : Unpacks content bs)
      (hrs : Report.listOfJson? bs = some rs) (hitems : rs.mapM Report.toMetric = .ok items) :
      AsksFor content (.batch items)

section Contents
variable {content as bs : Bytes} {call call' : Service.Call}

theorem Unpacks.eq_of_packed (h : Gzip.read content = ⟨bs, true⟩)
    (hdocument : (Json.document? content).isSome) : content = bs := by
  by_cases hne : content = []
  · subst hne
    cases h
    rfl
  · obtain ⟨rest, rfl⟩ := Gzip.exists_magic (h ▸ rfl) hne
    rw [Json.document?_of_magic] at hdocument
    cases hdocument

theorem Unpacks.unique (ha : Unpacks content as) (hb : Unpacks content bs)
    (hdocument : (Json.document? as).isSome) (hdocument' : (Json.document? bs).isSome) : as = bs := by
  cases ha with
  | plain =>
    cases hb with
    | plain => rfl
    | packed h => exact eq_of_packed h hdocument
  | packed h =>
    cases hb with
    | plain => exact (eq_of_packed h hdocument').symm
    | packed h' => exact congrArg Gzip.Reading.data (h.symm.trans h')

theorem isSome_document?_of_ofJson? {r : Report} (h : Report.ofJson? bs = some r) :
    (Json.document? bs).isSome := by
  obtain ⟨v, hv, -⟩ := Option.bind_eq_some_iff.1 h
  exact hv ▸ rfl

theorem isSome_document?_of_listOfJson? {rs : List Report} (h : Report.listOfJson? bs = some rs) :
    (Json.document? bs).isSome := by
  obtain ⟨v, hv, -⟩ := Option.bind_eq_some_iff.1 h
  exact hv ▸ rfl

theorem AsksFor.unique (h : AsksFor content call) (h' : AsksFor content call') : call = call' := by
  cases h with
  | one hbs hr hi =>
    cases h' with
    | one hbs' hr' hi' =>
      obtain rfl := hbs.unique hbs' (isSome_document?_of_ofJson? hr) (isSome_document?_of_ofJson? hr')
      obtain rfl := Option.some.inj (hr.symm.trans hr')
      obtain rfl := Except.ok.inj (hi.symm.trans hi')
      rfl
    | list hbs' hrs' _ =>
      obtain rfl := hbs.unique hbs' (isSome_document?_of_ofJson? hr) (isSome_document?_of_listOfJson? hrs')
      rw [Report.listOfJson?_of_ofJson? hr] at hrs'
      cases hrs'
  | list hbs hrs hitems =>
    cases h' with
    | one hbs' hr' _ =>
      obtain rfl := hbs.unique hbs' (isSome_document?_of_listOfJson? hrs) (isSome_document?_of_ofJson? hr')
      rw [Report.listOfJson?_of_ofJson? hr'] at hrs
      cases hrs
    | list hbs' hrs' hitems' =>
      obtain rfl :=
        hbs.unique hbs' (isSome_document?_of_listOfJson? hrs) (isSome_document?_of_listOfJson? hrs')
      obtain rfl := Option.some.inj (hrs.symm.trans hrs')
      obtain rfl := Except.ok.inj (hitems.symm.trans hitems')
      rfl

theorem content_of_read {limit : Nat} {body : Body} (h : body.read limit = .ok bs) :
    body.content = bs ∧ body.isSound := by
  unfold Body.read at h
  split at h
  · cases h
  · split at h
    · next hsound => exact ⟨Except.ok.inj h, hsound⟩
    · cases h

theorem unpacks_of_unzipped? {req plain : Request} {limit : Nat} (h : req.unzipped? = some plain)
    (hread : plain.body.read limit = .ok bs) : Unpacks req.body.content bs := by
  obtain ⟨rfl, hsound⟩ := content_of_read hread
  unfold Request.unzipped? at h
  split at h
  · obtain rfl := Option.some.inj h
    exact .plain
  · split at h
    · obtain rfl := Option.some.inj h
      have hgzip : (Gzip.read req.body.content).isSound = true := (Bool.and_eq_true_iff.1 hsound).2
      refine .packed ?_
      rw [← hgzip]
      rfl
    · split at h
      · obtain rfl := Option.some.inj h
        exact .plain
      · cases h

end Contents
end Http

namespace Server
open Http
variable {s : Server} {trace : String} {req plain : Request} {route : Route}

theorem status_refusal_ne (trace : String) (e : RequestError) : (refusal trace e).status ≠ 200 := by
  cases e <;> simp [refusal, Response.failure]

theorem exists_of_status_respond {α : Type} {f : α → Response} {answer : Except RequestError α}
    (h : (respond trace f answer).status = 200) : ∃ a, answer = .ok a := by
  cases answer with
  | ok a => exact ⟨a, rfl⟩
  | error e => exact absurd h (status_refusal_ne trace e)

theorem exists_of_status_withBody {α : Type} {read? : Bytes → Option α}
    {handle : α → Server → Response × Server}
    (h : (withBody read? trace req handle s).1.status = 200) : ∃ bs a, req.body.read maxBody = .ok bs ∧
      read? bs = some a ∧ withBody read? trace req handle s = handle a s := by
  unfold withBody at h ⊢
  cases hread : req.body.read maxBody with
  | error e => cases e <;> simp [hread, Response.ofBodyError, Response.ofText] at h
  | ok bs =>
    cases ha : read? bs with
    | none => simp [hread, ha, Response.failure] at h
    | some a => exact ⟨bs, a, rfl, ha, by simp [ha]⟩

theorem exists_input_of_status (r : Report) (h : (answerReport trace r s).1.status = 200) :
    ∃ i, r.input = .ok i ∧ (answerReport trace r s).2 = s.perform (.upsert r.kind.text r.id i) := by
  obtain ⟨m, hm⟩ : ∃ m, (s.update r).1 = .ok m := exists_of_status_respond h
  have hstep := update_snd r s
  cases hi : r.input with
  | error e =>
    have hrefused : (s.update r).1 = .error (.invalid e) := by simp [update, apply, Service.update, hi]
    rw [hrefused] at hm
    cases hm
  | ok i =>
    rw [hi] at hstep
    exact ⟨i, rfl, hstep⟩

theorem exists_items_of_status (rs : List Report) (h : (answerReports trace rs s).1.status = 200) :
    ∃ items, rs.mapM Report.toMetric = .ok items ∧
      (answerReports trace rs s).2 = s.perform (.batch items) := by
  unfold answerReports at h ⊢
  split at h
  · cases h
  · next hne =>
    obtain ⟨ms, hms⟩ : ∃ ms, (s.updateAll rs).1 = .ok ms := exists_of_status_respond h
    have hstep := updateAll_snd rs s
    cases hitems : rs.mapM Report.toMetric with
    | error e =>
      have hrefused : (s.updateAll rs).1 = .error (.invalid e) := by
        simp [updateAll, apply, Service.updateAll, hitems]
      rw [hrefused] at hms
      cases hms
    | ok items =>
      rw [hitems] at hstep
      rw [if_neg hne]
      exact ⟨items, rfl, hstep⟩

theorem routed_of_checks (hroute : Route.ofPath? req.path = some route) (hupdate : route.isUpdate)
    (htrusts : s.Trusts (req.headers.text? clientField)) (hverifies : s.Verifies req) (trace : String) :
    routed trace req s = Handler.decompressed (answerRoute route) trace req s := by
  simp only [routed, hroute, hupdate, if_true]
  rw [trusted_of_trusts htrusts, verified_of_verifies hverifies]

theorem checks_of_status (hroute : Route.ofPath? req.path = some route) (hupdate : route.isUpdate)
    (h : (routed trace req s).1.status = 200) :
    s.Trusts (req.headers.text? clientField) ∧ s.Verifies req := by
  simp only [routed, hroute, hupdate, if_true] at h
  by_cases htrusts : s.Trusts (req.headers.text? clientField)
  · by_cases hverifies : s.Verifies req
    · exact ⟨htrusts, hverifies⟩
    · obtain ⟨status, code, message, hstatus, hrefusal⟩ :=
        exists_refusal_of_not_verifies hverifies (Handler.decompressed (answerRoute route)) trace
      rw [trusted_of_trusts htrusts, hrefusal] at h
      rcases hstatus with rfl | rfl <;> cases h
  · obtain ⟨subnet, e, hsubnet, he⟩ := exists_of_not_trusts htrusts
    rw [trusted_of_check hsubnet he] at h
    cases h

theorem serve_of_authorizes (hroute : Route.ofPath? req.path = some route) (hupdate : route.isUpdate)
    (h : s.Authorizes (.http trace req)) (hsound : req.body.isSound) :
    s.serve (.http trace req) = (Handler.decompressed (answerRoute route) trace req s).2 := by
  rw [serve, handle_snd, routed_of_checks hroute hupdate h.2.1 h.2.2, if_neg (by simp [hsound])]

theorem succeeds_iff_of_authorizes (hroute : Route.ofPath? req.path = some route) (hupdate : route.isUpdate)
    (h : s.Authorizes (.http trace req)) (hsound : req.body.isSound) : s.Succeeds (.http trace req) ↔
      (Handler.decompressed (answerRoute route) trace req s).1.status = 200 := by
  rw [Succeeds, handle_status, routed_of_checks hroute hupdate h.2.1 h.2.2, if_neg (by simp [hsound])]

theorem exists_answer_of_status
    (h : (Handler.decompressed (answerRoute route) trace req s).1.status = 200) :
    ∃ r plain, route.decode = .ok r ∧ req.unzipped? = some plain ∧
      Handler.decompressed (answerRoute route) trace req s = answer r trace plain s := by
  unfold Handler.decompressed at h ⊢
  cases hplain : req.unzipped? with
  | none => simp [hplain] at h
  | some plain =>
    simp only [hplain, answerRoute] at h ⊢
    split at h
    · next hmethod =>
      rw [if_pos hmethod]
      cases hdecode : route.decode with
      | error name => simp [hdecode, Response.ofText] at h
      | ok r => exact ⟨r, plain, rfl, rfl, rfl⟩
    · cases h

theorem exists_answer_of_succeeds (hroute : Route.ofPath? req.path = some route) (hupdate : route.isUpdate)
    (h : s.Succeeds (.http trace req)) : ∃ r plain, route.decode = .ok r ∧ req.unzipped? = some plain ∧
      (answer r trace plain s).1.status = 200 ∧ s.serve (.http trace req) = (answer r trace plain s).2 := by
  simp only [Succeeds, handle_status] at h
  rw [serve, handle_snd]
  split at h
  · cases h
  · next hread =>
    obtain ⟨htrusts, hverifies⟩ := checks_of_status hroute hupdate h
    have hrouted := routed_of_checks hroute hupdate htrusts hverifies trace
    rw [hrouted] at h
    obtain ⟨r, plain, hdecode, hplain, hanswer⟩ := exists_answer_of_status h
    rw [hanswer] at h
    rw [if_neg hread, hrouted, hanswer]
    exact ⟨r, plain, hdecode, hplain, h, rfl⟩

def IsByPath (req : Request) : Prop :=
  ∃ kind name v, Route.ofPath? req.path = some (.updateByPath kind name v)

/-- What an update that is not in the path does if it is taken, its body asks for. -/
theorem exists_asksFor_of_succeeds (hroute : Route.ofPath? req.path = some route) (hupdate : route.isUpdate)
    (hpath : ¬ IsByPath req) (h : s.Succeeds (.http trace req)) :
    ∃ call, AsksFor req.body.content call ∧ s.serve (.http trace req) = s.perform call := by
  obtain ⟨r, plain, hdecode, hplain, hstatus, hserve⟩ := exists_answer_of_succeeds hroute hupdate h
  rw [hserve]
  cases route with
  | updateByPath kind name v => exact absurd ⟨kind, name, v, hroute⟩ hpath
  | update =>
    obtain rfl := Except.ok.inj hdecode
    obtain ⟨bs, r, hread, hr, hanswer⟩ := exists_of_status_withBody hstatus
    simp only [answer] at hstatus ⊢
    rw [hanswer] at hstatus ⊢
    obtain ⟨i, hi, hperform⟩ := exists_input_of_status r hstatus
    exact ⟨_, .one (unpacks_of_unzipped? hplain hread) hr hi, hperform⟩
  | updateAll =>
    obtain rfl := Except.ok.inj hdecode
    obtain ⟨bs, rs, hread, hrs, hanswer⟩ := exists_of_status_withBody hstatus
    simp only [answer] at hstatus ⊢
    rw [hanswer] at hstatus ⊢
    obtain ⟨items, hitems, hperform⟩ := exists_items_of_status rs hstatus
    exact ⟨_, .list (unpacks_of_unzipped? hplain hread) hrs hitems, hperform⟩
  | _ => cases hupdate

theorem serve_of_isByPath {kind name v : String}
    (hroute : Route.ofPath? req.path = some (.updateByPath kind name v)) (h : s.Succeeds (.http trace req)) :
    ∃ kind' name' v', (Route.updateByPath kind name v).decode = .ok (.updateByPath kind' name' v') ∧
      s.serve (.http trace req) = s.perform (.upsert kind' name' (.text v')) := by
  obtain ⟨r, plain, hdecode, -, -, hserve⟩ := exists_answer_of_succeeds hroute rfl h
  rcases Route.decode_cases hdecode with ⟨_, _, _, kind', name', v', -, rfl⟩ | ⟨_, _, _, _, hroute', -⟩ | rfl
  · exact ⟨kind', name', v', hdecode, hserve.trans (updateByValue_snd kind' name' (.text v') s)⟩
  · cases hroute'
  · exact ⟨kind, name, v, hdecode, hserve.trans (updateByValue_snd kind name (.text v) s)⟩

/-- Two posts to routes of updates that carry the same body with the same signature and pass the check of it. -/
structure SharesSignature (s : Server) (a b : Request) : Prop where
  left : a.method = "POST" ∧ ∃ r, Route.ofPath? a.path = some r ∧ r.isUpdate
  right : b.method = "POST" ∧ ∃ r, Route.ofPath? b.path = some r ∧ r.isUpdate
  content_eq : a.body.content = b.body.content
  signature_eq : a.headers.first? signatureField = b.headers.first? signatureField
  verifies_left : s.Verifies a
  verifies_right : s.Verifies b

section Pairs
variable {a b : Request} {key : Bytes}

theorem exists_signature_of_verifies (hkey : s.signingKey = some key) (hpost : req.method = "POST")
    (h : s.Verifies req) : ∃ header, req.headers.text? signatureField = some header ∧
      Text.trim header.toList = Signature.sign req.body.content key := by
  obtain ⟨header, bs, hheader, hread, hverify⟩ := h key hkey hpost
  obtain ⟨rfl, -⟩ := content_of_read hread
  exact ⟨header, hheader, Signature.verify_eq_ok_iff.1 hverify⟩

theorem serve_eq_of_content_eq (h : s.SharesSignature a b) (ha : ¬ IsByPath a) (hb : ¬ IsByPath b)
    {trace trace' : String} (htaken : s.Succeeds (.http trace a)) (htaken' : s.Succeeds (.http trace' b)) :
    s.serve (.http trace a) = s.serve (.http trace' b) := by
  obtain ⟨-, r, hr, hupdate⟩ := h.left
  obtain ⟨-, r', hr', hupdate'⟩ := h.right
  obtain ⟨call, hcall, hserve⟩ := exists_asksFor_of_succeeds hr hupdate ha htaken
  obtain ⟨call', hcall', hserve'⟩ := exists_asksFor_of_succeeds hr' hupdate' hb htaken'
  rw [← h.content_eq] at hcall'
  rw [hserve, hserve', hcall.unique hcall']

theorem serve_eq_of_path_eq (ha : IsByPath a) (hpath : a.path = b.path) {trace trace' : String}
    (htaken : s.Succeeds (.http trace a)) (htaken' : s.Succeeds (.http trace' b)) :
    s.serve (.http trace a) = s.serve (.http trace' b) := by
  obtain ⟨kind, name, v, hroute⟩ := ha
  obtain ⟨kind₁, name₁, v₁, hdecode₁, hserve₁⟩ := serve_of_isByPath hroute htaken
  obtain ⟨kind₂, name₂, v₂, hdecode₂, hserve₂⟩ := serve_of_isByPath (hpath ▸ hroute) htaken'
  obtain ⟨rfl, rfl, rfl⟩ : kind₁ = kind₂ ∧ name₁ = name₂ ∧ v₁ = v₂ := by
    simpa using hdecode₁.symm.trans hdecode₂
  rw [hserve₁, hserve₂]

/-- Of two updates with one body and one signature each that is refused leaves the server as it was; if both are
taken they leave the same server, unless an update by path is among them and the paths are not the same. -/
theorem body_binds_update (hkey : s.signingKey = some key) (h : s.SharesSignature a b)
    (trace trace' : String) :
    (∃ header, a.headers.text? signatureField = some header ∧
      Text.trim header.toList = Signature.sign a.body.content key) ∧
    (¬ s.Succeeds (.http trace a) → s.serve (.http trace a) = s) ∧
    (¬ s.Succeeds (.http trace' b) → s.serve (.http trace' b) = s) ∧
    (s.Succeeds (.http trace a) → s.Succeeds (.http trace' b) →
      ¬ IsByPath a ∧ ¬ IsByPath b ∨ a.path = b.path →
      s.serve (.http trace a) = s.serve (.http trace' b)) := by
  refine ⟨exists_signature_of_verifies hkey h.left.1 h.verifies_left, serve_of_not_succeeds,
    serve_of_not_succeeds, fun ha hb => ?_⟩
  rintro (⟨hpath, hpath'⟩ | hpath)
  · exact serve_eq_of_content_eq h hpath hpath' ha hb
  · by_cases hbyPath : IsByPath a
    · exact serve_eq_of_path_eq hbyPath hpath ha hb
    · refine serve_eq_of_content_eq h hbyPath (fun hb' => hbyPath ?_) ha hb
      rwa [IsByPath, hpath]

end Pairs

def gaugeJson : Bytes :=
  Bytes.ofText "\x7b\x22id\x22:\x22load\x22,\x22type\x22:\x22gauge\x22,\x22value\x22:1.5\x7d"

def gaugeSignature : String := "gPiQxAW5J9JqE2MeqnL0bhE2tIoO8qCY6VPiqR00Okc="

def signedPost (path : String) (others : Headers) : Request :=
  ⟨"POST", path, (signatureField, Bytes.ofText gaugeSignature) :: others, ⟨gaugeJson, false, true⟩⟩

theorem verifies_signedPost (path : String) (others : Headers) :
    keyedServer.Verifies (signedPost path others) := by
  intro key hkey _
  obtain rfl : Bytes.ofText "key" = key := Option.some.inj hkey
  have hvisible : visibleText? (Bytes.ofText gaugeSignature) = some gaugeSignature := by decide +kernel
  have hsize : gaugeJson.length ≤ maxSignedBody := by decide +kernel
  refine ⟨gaugeSignature, gaugeJson, ?_, ?_, Signature.verify_eq_ok_iff.2 (by decide +kernel)⟩
  · simp [signedPost, Headers.text?, Headers.first?, Headers.values, hvisible]
  · simp [signedPost, Body.read, Nat.not_lt.2 hsize]

theorem authorizes_signedPost {path : String} (hroute : Route.ofPath? path = some route)
    (hupdate : route.isUpdate) (others : Headers) (trace : String) :
    keyedServer.Authorizes (.http trace (signedPost path others)) :=
  ⟨⟨rfl, route, hroute, hupdate⟩, nofun, verifies_signedPost path others⟩

/-- One signature is good for two updates by path, and a body that is taken on one route is refused on
another. -/
theorem signature_fits_other_updates :
    (keyedServer.SharesSignature (signedPost "/update/gauge/load/1" []) (signedPost "/update/gauge/load/2" []) ∧
      (keyedServer.serve (.http "1" (signedPost "/update/gauge/load/1" []))).store ≠
        (keyedServer.serve (.http "1" (signedPost "/update/gauge/load/2" []))).store) ∧
    keyedServer.SharesSignature (signedPost "/update/" []) (signedPost "/updates/" []) ∧
      (keyedServer.serve (.http "1" (signedPost "/update/" []))).store ≠
        (keyedServer.serve (.http "1" (signedPost "/updates/" []))).store := by
  have hserve : ∀ path route, Route.ofPath? path = some route → route.isUpdate →
      keyedServer.serve (.http "1" (signedPost path [])) = (Handler.decompressed
        (answerRoute route) "1" (signedPost path []) keyedServer).2 := fun path route hroute hupdate =>
    serve_of_authorizes hroute hupdate (authorizes_signedPost hroute hupdate [] "1") rfl
  have hshares : ∀ path path' route route', Route.ofPath? path = some route → route.isUpdate →
      Route.ofPath? path' = some route' → route'.isUpdate →
      keyedServer.SharesSignature (signedPost path []) (signedPost path' []) :=
    fun path path' route route' hroute hupdate hroute' hupdate' =>
      ⟨⟨rfl, route, hroute, hupdate⟩, ⟨rfl, route', hroute', hupdate'⟩, rfl, rfl,
        verifies_signedPost path [], verifies_signedPost path' []⟩
  refine ⟨⟨hshares _ _ _ _ rfl rfl rfl rfl, ?_⟩, hshares _ _ _ _ rfl rfl rfl rfl, ?_⟩
  · rw [hserve _ (.updateByPath "gauge" "load" "1") rfl rfl, hserve _ (.updateByPath "gauge" "load" "2") rfl rfl]
    decide +kernel
  · rw [hserve _ .update rfl rfl, hserve _ .updateAll rfl rfl]
    decide +kernel

/-- What a client may say of itself and of its body besides. -/
def otherHeaders : Headers :=
  [("Content-Encoding", Bytes.ofText "identity"), (clientField, Bytes.ofText "10.1.2.3")]

/-- One body with one signature, sent with different headers: both are taken, and leave the same. -/
theorem body_binds_update_otherHeaders :
    keyedServer.SharesSignature (signedPost "/update/" []) (signedPost "/update/" otherHeaders) ∧
    keyedServer.Succeeds (.http "1" (signedPost "/update/" [])) ∧
    keyedServer.Succeeds (.http "2" (signedPost "/update/" otherHeaders)) ∧
    keyedServer.serve (.http "1" (signedPost "/update/" [])) =
      keyedServer.serve (.http "2" (signedPost "/update/" otherHeaders)) := by
  have hshares : keyedServer.SharesSignature (signedPost "/update/" []) (signedPost "/update/" otherHeaders) :=
    ⟨⟨rfl, _, rfl, rfl⟩, ⟨rfl, _, rfl, rfl⟩, rfl, by decide +kernel, verifies_signedPost _ _,
      verifies_signedPost _ _⟩
  have hroute : Route.ofPath? "/update/" = some .update := rfl
  have htaken : ∀ others trace, (Handler.decompressed (answerRoute .update) trace
      (signedPost "/update/" others) keyedServer).1.status = 200 →
      keyedServer.Succeeds (.http trace (signedPost "/update/" others)) := fun others trace =>
    (succeeds_iff_of_authorizes hroute rfl (authorizes_signedPost hroute rfl others trace) rfl).2
  have hplain := htaken [] "1" (by decide +kernel)
  have hother := htaken otherHeaders "2" (by decide +kernel)
  obtain ⟨-, -, -, hbinds⟩ := body_binds_update rfl hshares "1" "2"
  exact ⟨hshares, hplain, hother, hbinds hplain hother (.inr rfl)⟩

end Server
end Telemetry
