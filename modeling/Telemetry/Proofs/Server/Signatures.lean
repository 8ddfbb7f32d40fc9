import Telemetry.Proofs.Crypto.Signature
import Telemetry.Proofs.Gzip.RoundTrip
import Telemetry.Proofs.Server.Requests

/-!
Which responses are signed. Nothing that stands behind the signing signs by itself, and all responses but the
log's own refusal come through it, so with a key just the JSON responses have a signature. Compression
stands before it and can be undone, so the signature is that of the body as the client unpacks it.
-/
namespace Telemetry

namespace Http.Response

/-- The body that a client has of the response, unpacked if it is a gzip file. -/
def received (r : Response) : Gzip.Reading :=
  if r.isZipped then Gzip.read r.payload else ⟨r.payload, true⟩

/-- Whoever has the key can read the signature from its header and accepts it for the body. -/
structure IsSignedWith (key : Bytes) (r : Response) : Prop where
  isSound : r.received.isSound
  accepted : ∃ text, r.signature = some text ∧ visibleText? (Bytes.ofText text) = some text ∧
    Signature.verify r.received.data key text.toList = .ok ()

theorem received_eq (r : Response) : r.received = ⟨r.body, true⟩ := by
  unfold received payload
  split
  · exact Gzip.read_write r.body
  · rfl

theorem isSignedWith_of_signature {r : Response} {key : Bytes}
    (h : r.signature = some (String.ofList (Signature.sign r.body key))) : r.IsSignedWith key where
  isSound := by rw [received_eq]
  accepted := by
    refine ⟨_, h, Signature.visibleText?_sign r.body key, ?_⟩
    rw [received_eq, String.toList_ofList]
    exact Signature.verify_sign r.body key

end Http.Response

namespace Server
open Http

def Unsigned (handle : Handler Server) : Prop :=
  ∀ trace req s, (handle trace req s).1.signature = none

section Producers
variable {handle : Handler Server}

theorem signature_refusal (trace : String) (e : RequestError) : (refusal trace e).signature = none := by
  cases e <;> rfl

theorem signature_respond {α : Type} {f : α → Response} (hf : ∀ a, (f a).signature = none) (trace : String)
    (answer : Except RequestError α) : (respond trace f answer).signature = none := by
  cases answer with
  | ok a => exact hf a
  | error e => exact signature_refusal trace e

theorem signature_withBody {α : Type} {handle : α → Server → Response × Server} {s : Server}
    (h : ∀ a, (handle a s).1.signature = none) (read? : Bytes → Option α) (trace : String) (req : Request) :
    (withBody read? trace req handle s).1.signature = none := by
  unfold withBody
  split
  · next e _ => cases e <;> rfl
  · split
    · rfl
    · exact h _

theorem signature_answerReports (trace : String) (rs : List Report) (s : Server) :
    (answerReports trace rs s).1.signature = none := by
  unfold answerReports
  split
  · rfl
  · exact signature_respond (fun _ => rfl) trace _

theorem unsigned_answer (route : Route) : Unsigned (answer route) := by
  intro trace req s
  cases route with
  | updateByPath kind name v => exact signature_respond (fun _ => rfl) trace _
  | update => exact signature_withBody (fun _ => signature_respond (fun _ => rfl) trace _) _ trace req
  | updateAll => exact signature_withBody (fun rs => signature_answerReports trace rs s) _ trace req
  | index => exact signature_respond (fun _ => rfl) trace _
  | valueByPath kind name => exact signature_respond (fun _ => rfl) trace _
  | value => exact signature_withBody (fun _ => signature_respond (fun _ => rfl) trace _) _ trace req
  | ping =>
    show (answerPing trace s).signature = none
    unfold answerPing
    split <;> rfl

theorem unsigned_answerRoute (route : Route) : Unsigned (answerRoute route) := by
  intro trace req s
  unfold answerRoute
  split
  · split
    · exact unsigned_answer _ trace req s
    · rfl
  · rfl

theorem Unsigned.decompressed (h : Unsigned handle) : Unsigned (Handler.decompressed handle) := by
  intro trace req s
  unfold Handler.decompressed
  split
  · exact h trace _ s
  · rfl

theorem Unsigned.verified (h : Unsigned handle) : Unsigned (verified handle) := by
  intro trace req s
  by_cases hverifies : s.Verifies req
  · rw [verified_of_verifies hverifies]
    exact h trace req s
  · obtain ⟨_, _, _, -, hrefusal⟩ := exists_refusal_of_not_verifies hverifies handle trace
    rw [hrefusal]
    rfl

theorem Unsigned.trusted (h : Unsigned handle) : Unsigned (trusted handle) := by
  intro trace req s
  by_cases htrusts : s.Trusts (req.headers.text? clientField)
  · rw [trusted_of_trusts htrusts]
    exact h trace req s
  · obtain ⟨subnet, e, hsubnet, he⟩ := exists_of_not_trusts htrusts
    rw [trusted_of_check hsubnet he]
    rfl

theorem unsigned_routed : Unsigned routed := by
  intro trace req s
  unfold routed
  split
  · exact Unsigned.decompressed (fun _ _ _ => rfl) trace req s
  · next route _ =>
    have hroute := (unsigned_answerRoute route).decompressed
    split
    · exact hroute.verified.trusted trace req s
    · exact hroute trace req s

end Producers

section Responses
variable {key : Option Bytes} {r : Response} {trace : String} {req : Request} {s : Server}

theorem of_isSome_signature_sign (h : r.signature = none) (hsigned : (sign key r).signature.isSome) :
    key.isSome ∧ r.mediaType = some .json := by
  unfold sign at hsigned
  split at hsigned
  · simp [h] at hsigned
  · split at hsigned
    · next hjson => exact ⟨rfl, hjson⟩
    · simp [h] at hsigned

@[simp] theorem mediaType_sign : (sign key r).mediaType = r.mediaType := by
  unfold sign
  split
  · rfl
  · split <;> rfl

@[simp] theorem body_sign : (sign key r).body = r.body := by
  unfold sign
  split
  · rfl
  · split <;> rfl

theorem signature_sign (k : Bytes) (h : r.mediaType = some .json) :
    (sign (some k) r).signature = some (String.ofList (Signature.sign r.body k)) := by
  rw [sign, if_pos h]

theorem handle_of_unreadable (h : (Log.isRead req && !req.body.isSound) = true) (trace : String)
    (s : Server) : (handle trace req s).1 =
      finish req (.failure 400 trace "bad_request" "failed to read request body") := by
  rw [handle, Handler.logged_eq, if_pos h]

theorem handle_of_readable (h : (Log.isRead req && !req.body.isSound) = false) (trace : String)
    (s : Server) : (handle trace req s).1 =
      finish req (((sign s.signingKey (routed trace req s).1).zippedFor req.headers).marked trace) := by
  rw [handle, Handler.logged_eq, if_neg (by simp [h])]
  rfl

/-- Only JSON of a server with a key is signed, and all of it is but for the log's refusal of a body that it
cannot read: the signature is accepted for the body, whatever was asked and however it is sent. -/
theorem handle_isSigned (trace : String) (req : Request) (s : Server) :
    let r := (handle trace req s).1
    (r.signature.isSome → s.signingKey.isSome ∧ r.mediaType = some .json) ∧
      ∀ key, s.signingKey = some key → r.mediaType = some .json → req.method ≠ "HEAD" →
        if Log.isRead req && !req.body.isSound then
          r = finish req (.failure 400 trace "bad_request" "failed to read request body")
        else r.IsSignedWith key := by
  cases hread : Log.isRead req && !req.body.isSound with
  | true =>
    rw [handle_of_unreadable hread]
    exact ⟨fun h => absurd h (by simp [finish, Response.failure]), fun _ _ _ _ => rfl⟩
  | false =>
    rw [handle_of_readable hread]
    refine ⟨fun h => ?_, fun key hkey hjson hmethod => ?_⟩
    · have hsigned := of_isSome_signature_sign (unsigned_routed trace req s) h
      simpa [finish, Response.marked, Response.zippedFor] using hsigned
    · simp only [finish, Response.marked, Response.zippedFor, mediaType_sign] at hjson
      refine Response.isSignedWith_of_signature ?_
      simp only [finish, Response.marked, Response.zippedFor, body_sign, if_neg hmethod, hkey]
      exact signature_sign key hjson

def keyedServer : Server :=
  { store := .memory [], disk := {}, signingKey := some (Bytes.ofText "key") }

/-- A question for a metric by a client that takes gzip files. -/
def missingMetric : Request :=
  ⟨"GET", "/value/gauge/Alloc", [("Accept-Encoding", Bytes.ofText "gzip")], ⟨[], false, true⟩⟩

/-- The refusal of a metric that is not there is packed, and signed. -/
theorem handle_isSigned_missingMetric :
    let r := (handle "1" missingMetric keyedServer).1
    r.status = 404 ∧ r.isZipped ∧ r.IsSignedWith (Bytes.ofText "key") := by
  intro r
  refine ⟨by decide +kernel, by decide +kernel, ?_⟩
  have hsigned := (handle_isSigned "1" missingMetric keyedServer).2 (Bytes.ofText "key") rfl
    (by decide +kernel) (by decide)
  rwa [if_neg (by decide)] at hsigned

end Responses
end Server
end Telemetry
