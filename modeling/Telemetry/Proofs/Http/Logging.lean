import Telemetry.Http.Log

/-!
The log changes nothing. A body that is read and put back is the same body, since what is read is bounded by
the very length that it is known to have; so whatever answers the requests is asked for them as they came. The
answer gets the id of the request, which takes the place of any other id, and is otherwise as it was.
-/
namespace Telemetry.Http

theorem Body.read_size {b : Body} {n : Nat} (h : b.size? = some n) :
    b.read n = if b.isSound then .ok b.content else .error .broken := by
  have hlength : b.content.length = n := by
    unfold size? at h
    split at h
    · cases h
    · exact Option.some.inj h
  rw [read, if_neg (by omega)]

theorem Body.rebuilt_eq {b : Body} {n : Nat} (h : b.size? = some n) (hsound : b.isSound) :
    { content := b.content } = b := by
  obtain ⟨content, isStreamed, isSound⟩ := b
  cases isStreamed with
  | true => simp [size?] at h
  | false =>
    obtain rfl : isSound = true := hsound
    rfl

/-- The request is passed on as it came, whether or not its body is read; only a body that is read and breaks
off stops it. -/
theorem Log.collect_eq (req : Request) :
    collect req = if isRead req && !req.body.isSound then .error .broken else .ok req := by
  by_cases hmethod : req.method = "POST"
  · cases hsize : req.body.size? with
    | none => simp [collect, isRead, hmethod, hsize]
    | some n =>
      by_cases hlong : maxRequestBody < n
      · have hread : isRead req = false := by simp [isRead, hsize, hlong]
        simp [collect, hmethod, hsize, hlong, hread]
      · have hread : isRead req = true := by simpa [isRead, hmethod, hsize] using hlong
        cases hsound : req.body.isSound with
        | false => simp [collect, hmethod, hsize, hlong, hread, Body.read_size hsize, hsound, Except.map]
        | true =>
          have hreq : { req with body := { content := req.body.content } } = req := by
            rw [Body.rebuilt_eq hsize hsound]
          simpa [collect, hmethod, hsize, hlong, Body.read_size hsize, hsound, Except.map] using hreq
  · simp [collect, isRead, hmethod]

section Fields
variable (g h : Headers) (name : String)

@[simp] theorem Headers.values_append : (g ++ h).values name = g.values name ++ h.values name := by
  simp [values]

@[simp] theorem Headers.without_append : (g ++ h).without name = g.without name ++ h.without name := by
  simp [without]

@[simp] theorem Headers.without_without : (h.without name).without name = h.without name := by
  simp [without]

@[simp] theorem Headers.values_without : (h.without name).values name = [] := by
  simp [values, without]

theorem isFieldText_toHex (bytes : Bytes) : isFieldText (Bytes.toHex bytes) := by
  have hdigit : ∀ n < 16, (String.utf8EncodeChar (Bytes.hexDigit n)).all
      fun b => b == Ascii.tab || (32 ≤ b && b != 127) := by decide
  rw [isFieldText, Bytes.toHex, Bytes.ofText_ofList, List.all_flatMap, List.all_eq_true]
  intro c hc
  obtain ⟨b, -, hb⟩ := List.mem_flatMap.mp hc
  have hlt := b.toNat_lt
  simp only [List.mem_cons, List.not_mem_nil, or_false] at hb
  rcases hb with rfl | rfl
  · exact hdigit _ (by omega)
  · exact hdigit _ (by omega)

end Fields

section Responses
variable {r : Response} {trace : String}

theorem Response.marked_eq (h : isFieldText trace) : r.marked trace =
    { r with trace := some trace, fields := r.fields.without traceField } := by
  simp [marked, h]

/-- What a client gets is what has been answered, and the id. -/
structure Response.Adds (trace : String) (r r' : Response) : Prop where
  status : r'.status = r.status
  payload : r'.payload = r.payload
  headers : r'.headers.without traceField = r.headers.without traceField
  trace : r'.headers.values traceField = [Bytes.ofText trace]

theorem Headers.values_optional {α : Type} {own name : String} (hne : own.toLower ≠ name.toLower)
    (value : α → Bytes) (a : Option α) : values (a.map fun a => (own, value a)).toList name = [] := by
  cases a <;> simp [values, hne]

theorem Headers.without_optional {α : Type} (name : String) (value : α → Bytes) (a : Option α) :
    without (a.map fun a => (name, value a)).toList name = [] := by
  cases a <;> simp [without]

theorem Response.adds_marked (h : isFieldText trace) : r.Adds trace (r.marked trace) where
  status := rfl
  payload := rfl
  headers := by
    simp only [marked_eq h, Response.headers, Headers.without_append, Headers.without_optional traceField,
      Headers.without_without]
  trace := by
    have htype : "Content-Type".toLower ≠ traceField.toLower := by decide +kernel
    have hencoding : "Content-Encoding".toLower ≠ traceField.toLower := by decide +kernel
    have hsignature : signatureField.toLower ≠ traceField.toLower := by decide +kernel
    have hallow : "Allow".toLower ≠ traceField.toLower := by decide +kernel
    have hzipped : Headers.values (if r.isZipped then [("Content-Encoding", Bytes.ofText "gzip")] else [])
        traceField = [] := by
      cases r.isZipped <;> simp [Headers.values, hencoding]
    simp only [marked_eq h, Response.headers, Headers.values_append, Headers.values_optional htype,
      Headers.values_optional hsignature, Headers.values_optional hallow, hzipped, Headers.values_without]
    simp [Headers.values]

end Responses

section Handlers
variable {σ : Type}

theorem Handler.logged_eq (handle : Handler σ) (trace : String) (req : Request) (s : σ) :
    handle.logged trace req s =
      if Log.isRead req && !req.body.isSound then
        (.failure 400 trace "bad_request" "failed to read request body", [.unreadable], s)
      else
        let (r, s') := handle trace req s
        (r.marked trace, [Log.ofRequest req, Log.ofResponse r], s') := by
  rw [logged, Log.collect_eq]
  split
  · next hread =>
    split at hread
    · next h => rw [if_pos h]
    · cases hread
  · next hread =>
    split at hread
    · cases hread
    · next h =>
      cases hread
      rw [if_neg h]

/-- Writes down what a handler is asked, behind what has been written down before. -/
def Handler.recorded (handle : Handler σ) : Handler (σ × List (String × Request)) :=
  fun trace req (s, asked) =>
    let (r, s') := handle trace req s
    (r, s', asked ++ [(trace, req)])

/-- The log is transparent. Whatever answers the requests is asked once, for the request as it came and with
an id of random octets; the client gets the answer and that id. Only a body that is read has to be readable. -/
theorem Handler.logged_transparent (handle : Handler σ) (random : Bytes) (req : Request) (s : σ)
    (asked : List (String × Request)) (h : Log.isRead req → req.body.isSound) :
    let trace := Bytes.toHex random
    let answer := handle trace req s
    let sent := handle.recorded.logged trace req (s, asked)
    answer.1.Adds trace sent.1 ∧ sent.2.2 = (answer.2, asked ++ [(trace, req)]) := by
  have hread : (Log.isRead req && !req.body.isSound) = false := by
    cases hr : Log.isRead req <;> simp_all
  simp only [logged_eq, hread, recorded]
  exact ⟨Response.adds_marked (isFieldText_toHex random), rfl⟩

def echo : Handler Nat := fun _ req count =>
  ({ status := 201, mediaType := some .json, body := req.body.content,
     fields := [("Set-Cookie", Bytes.ofText "a=1"), ("x-trace-id", Bytes.ofText "none"),
       ("Set-Cookie", Bytes.ofText "b=2")] }, count + 1)

theorem headers_echo (trace : String) (req : Request) (count : Nat) :
    (echo trace req count).1.headers.without traceField = [("Content-Type", Bytes.ofText "application/json"),
      ("Set-Cookie", Bytes.ofText "a=1"), ("Set-Cookie", Bytes.ofText "b=2")] := by
  have hheaders : (echo trace req count).1.headers = [("Content-Type", Bytes.ofText "application/json"),
      ("Set-Cookie", Bytes.ofText "a=1"), ("x-trace-id", Bytes.ofText "none"),
      ("Set-Cookie", Bytes.ofText "b=2")] := rfl
  have hname : traceField.toLower = "x-trace-id" := by decide +kernel
  have htype : "Content-Type".toLower ≠ "x-trace-id" := by decide +kernel
  have hcookie : "Set-Cookie".toLower ≠ "x-trace-id" := by decide +kernel
  have hown : "x-trace-id".toLower = "x-trace-id" := by decide +kernel
  simp [hheaders, Headers.without, hname, htype, hcookie, hown]

def longestRead : Request :=
  { method := "POST", path := "/updates/", headers := [("Content-Encoding", Bytes.ofText "identity")],
    body := { content := List.replicate Log.maxRequestBody Ascii.space } }

/-- Such a body is passed on and comes back whole, and so do both cookies. -/
theorem Handler.logged_transparent_longestRead :
    let sent := echo.recorded.logged "9f3c07d2a81be645" longestRead (5, [])
    Log.isRead longestRead ∧ longestRead.body.isSound ∧
      sent.1.status = 201 ∧ sent.1.payload = List.replicate Log.maxRequestBody Ascii.space ∧
      sent.1.headers.without traceField = [("Content-Type", Bytes.ofText "application/json"),
        ("Set-Cookie", Bytes.ofText "a=1"), ("Set-Cookie", Bytes.ofText "b=2")] ∧
      sent.1.headers.values traceField = [Bytes.ofText "9f3c07d2a81be645"] ∧
      sent.2.2 = (6, [("9f3c07d2a81be645", longestRead)]) := by
  have hid : Bytes.toHex [159, 60, 7, 210, 168, 27, 230, 69] = "9f3c07d2a81be645" := by decide +kernel
  have hread : Log.isRead longestRead := by simp [Log.isRead, longestRead, Body.size?]
  have hsound : longestRead.body.isSound := by simp [longestRead]
  have h := Handler.logged_transparent echo [159, 60, 7, 210, 168, 27, 230, 69] longestRead 5 [] fun _ => hsound
  rw [hid] at h
  obtain ⟨hadds, hstate⟩ := h
  refine ⟨hread, hsound, hadds.status, ?_, hadds.headers.trans (headers_echo ..), hadds.trace, hstate⟩
  rw [hadds.payload]
  simp [Response.payload, echo, longestRead]

end Handlers
end Telemetry.Http
