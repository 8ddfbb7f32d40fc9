import Telemetry.Proofs.Crypto.Blocks
import Telemetry.Proofs.Server.Requests
import Telemetry.Proofs.Wire.Messages

/-!
Encrypted updates. An update that comes encrypted for the server is replied to as the same update in the
clear; a payload that is none is refused before the store is looked at.
-/
namespace Telemetry

namespace Oaep

theorem decrypt_of_length {k : Rsa.PrivateKey} {cipher : Bytes} (h : cipher.length % k.size ≠ 0) :
    decrypt k cipher = .error (.truncatedBlock cipher.length k.size) :=
  if_pos h

end Oaep

namespace Server
open Oaep Rpc
variable {s : Server} {key : Rsa.PrivateKey} {payload : Bytes}

/-- A payload that is no update for the owner of the key: it is not made of whole blocks, some block is no
encrypted chunk, or the plain text is no update. -/
def IsUnreadable (key : Rsa.PrivateKey) (payload : Bytes) : Prop :=
  payload.length % key.size ≠ 0 ∨ (∃ e, decrypt key payload = .error e) ∨
    ∃ plain, decrypt key payload = .ok plain ∧ UpdateRequest.decode? plain = none

theorem decryptUpdate_of_isUnreadable (h : IsUnreadable key payload) :
    ∃ message, decryptUpdate (some key) payload = .error ⟨.invalidArgument, message⟩ := by
  rcases h with hlength | ⟨e, he⟩ | ⟨plain, hplain, hdecode⟩
  · exact ⟨_, by simp only [decryptUpdate, decrypt_of_length hlength]; rfl⟩
  · exact ⟨_, by simp only [decryptUpdate, he]; rfl⟩
  · exact ⟨_, by simp only [decryptUpdate, hplain, hdecode]; rfl⟩

theorem decryptUpdate_encrypt {size : Nat} {seeds : Nat → Bytes} {r : UpdateRequest}
    (hsize : 0 < size) (hkey : 0 < key.size) (hlength : r.encode.length < 2 ^ 64)
    (h : Recovers key size seeds r.encode) :
    decryptUpdate (some key) (encrypt key.publicKey size seeds r.encode) = .ok r := by
  simp only [decryptUpdate, decrypt_encrypt hsize hkey h, UpdateRequest.decode?_encode hlength]

theorem call_updateEncrypted_ok {r : UpdateRequest}
    (h : decryptUpdate s.privateKey payload = .ok r) :
    s.call (.updateEncrypted payload) = s.call (.update r) := by
  simp only [call, h]

theorem call_updateEncrypted_error {e : Status} (h : decryptUpdate s.privateKey payload = .error e) :
    s.call (.updateEncrypted payload) = (.error e, s) := by
  simp only [call, h]

theorem callFrom_congr {c c' : Rpc.Call} (h : s.call c = s.call c') (client : Option Bytes) :
    s.callFrom client c = s.callFrom client c' := by
  simp only [callFrom, h]

/-- An update encrypted for a server with a key is replied to like the update itself, if the blocks give
back their chunks; a payload that is no update is refused, and so is any without a key, with nothing
changed. The encoding of a request is shorter than the lengths on the wire can say. -/
theorem callFrom_updateEncrypted (s : Server) (client : Option Bytes) :
    (∀ key, s.privateKey = some key → overhead < key.size →
      ∃ size, chunkSize? key.publicKey = some size ∧
        ∀ (r : UpdateRequest) (seeds : Nat → Bytes), r.encode.length < 2 ^ 64 →
          Recovers key size seeds r.encode →
          s.callFrom client (.updateEncrypted (encrypt key.publicKey size seeds r.encode)) =
            s.callFrom client (.update r)) ∧
    (s.Trusts (client.bind Http.visibleText?) →
      (∀ key payload, s.privateKey = some key → IsUnreadable key payload →
        ∃ message, s.callFrom client (.updateEncrypted payload) =
          (.error ⟨.invalidArgument, message⟩, s)) ∧
      (s.privateKey = none → ∀ payload, ∃ message, s.callFrom client (.updateEncrypted payload) =
        (.error ⟨.failedPrecondition, message⟩, s))) := by
  refine ⟨fun key hprivate hkey => ?_, fun htrusts => ⟨fun key payload hprivate h => ?_, ?_⟩⟩
  · obtain ⟨size, hpos, hsize⟩ := exists_chunkSize hkey
    refine ⟨size, hsize, fun r seeds hlength hblocks => callFrom_congr (call_updateEncrypted_ok ?_) _⟩
    rw [hprivate]
    exact decryptUpdate_encrypt hpos (Nat.zero_lt_of_lt hkey) hlength hblocks
  · obtain ⟨message, he⟩ := decryptUpdate_of_isUnreadable h
    rw [callFrom_of_trusts htrusts]
    exact ⟨message, call_updateEncrypted_error (hprivate ▸ he)⟩
  · intro hprivate payload
    rw [callFrom_of_trusts htrusts]
    exact ⟨_, call_updateEncrypted_error (by rw [hprivate]; rfl)⟩

def blockKey : Rsa.PrivateKey where
  publicKey := ⟨3623312602306771076772902360208596241467645511171308502577060529940396219279931293707853307344781825301307199409117555589901483815619151922542395062003321215031238486734665800375233886791947725472874895051909784650577, 65537⟩
  secret := 2473629437606383440147904197635732685898734996426853304580661950205123939805341806049663131928837579193907053198828458997736952246765579057249908501205393514616762868769727966631361295069501059677126974012066376365473
  first := 1828320054139175796436806744287337643114541384890047152794466051469618836562262249639764417307012223729364077
  second := 1981771514294704797847806289118486964333061644099168547984285921072763470651717354181813685997680989660224501

def serverWith (key : Option Rsa.PrivateKey) : Server :=
  { store := .memory [], disk := {}, privateKey := key }

def smallUpdate : UpdateRequest := ⟨"counter", "requests", "-36"⟩

theorem callFrom_updateEncrypted_smallUpdate :
    (serverWith (some blockKey)).callFrom none (.updateEncrypted (encrypt blockKey.publicKey 24
      (fun _ => List.replicate 32 7) smallUpdate.encode)) =
        (serverWith (some blockKey)).callFrom none (.update smallUpdate) ∧
    (∃ message, (serverWith (some blockKey)).callFrom none (.updateEncrypted [1, 2, 3]) =
      (.error ⟨.invalidArgument, message⟩, serverWith (some blockKey))) ∧
    ∃ message, (serverWith none).callFrom none (.updateEncrypted []) =
      (.error ⟨.failedPrecondition, message⟩, serverWith none) := by
  have hsize : chunkSize? blockKey.publicKey = some 24 := by decide +kernel
  obtain ⟨hencrypted, hrefused⟩ := callFrom_updateEncrypted (serverWith (some blockKey)) none
  obtain ⟨size, hsize', hreplied⟩ := hencrypted blockKey rfl (by decide +kernel)
  obtain rfl : 24 = size := Option.some.inj (hsize.symm.trans hsize')
  refine ⟨hreplied smallUpdate _ (by decide +kernel) (by decide +kernel), ?_, ?_⟩
  · exact (hrefused (by decide)).1 blockKey [1, 2, 3] rfl (.inl (by decide +kernel))
  · exact ((callFrom_updateEncrypted (serverWith none) none).2 (by decide)).2 rfl []

end Server
end Telemetry
