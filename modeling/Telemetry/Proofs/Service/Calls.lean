import Telemetry.Proofs.Service.Upsert

/-!
Calls that change metrics, step by step on a store in memory. A step either ends a call, and then it
does all that the call would do alone, or it changes nothing; what a call has learned from earlier steps
stays true whatever other calls do, since no call ever takes a key away.
-/
namespace Telemetry
namespace Service

section Embedded
variable {σ τ : Type} {f : σ → τ} {b : Backend σ} {c : Backend τ}

theorem Stage.step_embeds (h : Backend.Embeds f b c) (stage : Stage) (s : σ) :
    stage.step c (f s) = Prod.map id f (stage.step b s) := by
  cases stage with
  | updating fresh i =>
    simp only [Stage.step, h.update]
    obtain ⟨answer, s'⟩ := b.update fresh.key i s
    cases answer with
    | ok m => rfl
    | error e =>
      cases e with
      | notFound key => cases fresh.update i <;> rfl
      | _ => rfl
  | adding m i =>
    simp only [Stage.step, h.add]
    obtain ⟨answer, s'⟩ := b.add m s
    cases answer with
    | ok _ => rfl
    | error e => cases e <;> rfl
  | updatingAgain key i =>
    simp only [Stage.step, h.update]
    obtain ⟨answer, s'⟩ := b.update key i s
    cases answer <;> rfl
  | done answer => rfl

theorem Stage.run_embeds (h : Backend.Embeds f b c) (n : Nat) (stage : Stage) (s : σ) :
    stage.run c n (f s) = Prod.map id f (stage.run b n s) := by
  induction n generalizing stage s with
  | zero => rfl
  | succ n ih =>
    simp only [Stage.run, Stage.step_embeds h]
    exact ih _ _

end Embedded

inductive Call where
  | upsert (kind name : String) (i : Input)
  | batch (items : List Metric)

inductive Reply where
  | metric (answer : Except RequestError Metric)
  | metrics (answer : Except StoreError (List Metric))

/-- An answer, or a refusal of the request as invalid. -/
inductive Reply.Regular : Reply → Prop
  | metric (m : Metric) : Regular (.metric (.ok m))
  | invalid (e : ReportError) : Regular (.metric (.error (.invalid e)))
  | metrics (ms : List Metric) : Regular (.metrics (.ok ms))

/-- How far a call has come. A batch takes a single step. -/
inductive Task where
  | upserting (stage : Stage)
  | batching (items : List Metric)
  | batched (answer : Except StoreError (List Metric))

namespace Call
variable {σ τ : Type} {f : σ → τ} {b : Backend σ} {c : Backend τ}

def run (b : Backend σ) : Call → σ → Reply × σ
  | upsert kind name i, s => Prod.map .metric id (updateByValue b kind name i s)
  | batch items, s => Prod.map .metrics id (b.updateBatch items s)

def start : Call → Task
  | upsert kind name i => .upserting (.start kind name i)
  | batch items => .batching items

def runAll (b : Backend σ) : List Call → σ → List Reply × σ
  | [], s => ([], s)
  | call :: calls, s => Prod.map ((call.run b s).1 :: ·) id (runAll b calls (call.run b s).2)

theorem runAll_append (as bs : List Call) (s : σ) : runAll b (as ++ bs) s =
    Prod.map ((runAll b as s).1 ++ ·) id (runAll b bs (runAll b as s).2) := by
  induction as generalizing s with
  | nil => rfl
  | cons a as ih =>
    simp only [List.cons_append, runAll, ih]
    rfl

theorem run_embeds (h : Backend.Embeds f b c) (call : Call) (s : σ) :
    call.run c (f s) = Prod.map id f (call.run b s) := by
  cases call with
  | upsert kind name i => simp [run, updateByValue, Stage.run_embeds h]
  | batch items =>
    simp only [run, h.updateBatch]
    rfl

end Call

namespace Task
variable {σ τ : Type} {f : σ → τ} {b : Backend σ} {c : Backend τ}

def step (b : Backend σ) : Task → σ → Task × σ
  | upserting stage, s => Prod.map upserting id (stage.step b s)
  | batching items, s => Prod.map batched id (b.updateBatch items s)
  | batched answer, s => (batched answer, s)

def reply? : Task → Option Reply
  | upserting (.done answer) => some (.metric answer)
  | batched answer => some (.metrics answer)
  | _ => none

/-- The number of steps that may still be to come. -/
def rest : Task → Nat
  | upserting (.updating _ _) => 3
  | upserting (.adding _ _) => 2
  | upserting (.updatingAgain _ _) => 1
  | upserting (.done _) => 0
  | batching _ => 1
  | batched _ => 0

theorem reply?_eq_none_iff {t : Task} : t.reply? = none ↔ 0 < t.rest := by
  rcases t with (_ | _ | _ | _) | _ | _ <;> simp [reply?, rest]

theorem rest_start_le (call : Call) : call.start.rest ≤ 3 := by
  rcases call with ⟨kind, name, i⟩ | items
  · simp only [Call.start, Stage.start]
    cases Metric.parse kind name <;> simp [rest]
  · simp [Call.start, rest]

theorem rest_step_le (b : Backend σ) (t : Task) (s : σ) : (t.step b s).1.rest ≤ t.rest - 1 := by
  rcases t with (⟨fresh, i⟩ | ⟨m, i⟩ | ⟨key, i⟩ | answer) | items | answer
  · simp only [step, Stage.step, Prod.map]
    obtain ⟨answer, s'⟩ := b.update fresh.key i s
    cases answer with
    | ok m => simp [rest]
    | error e =>
      cases e with
      | notFound key => cases fresh.update i <;> simp [rest]
      | _ => simp [rest]
  · simp only [step, Stage.step, Prod.map]
    obtain ⟨answer, s'⟩ := b.add m s
    cases answer with
    | ok _ => simp [rest]
    | error e => cases e <;> simp [rest]
  · simp only [step, Stage.step, Prod.map]
    obtain ⟨answer, s'⟩ := b.update key i s
    cases answer <;> simp [rest]
  · simp [step, Stage.step, rest]
  · simp [step, rest]
  · simp [step, rest]

theorem step_embeds (h : Backend.Embeds f b c) (t : Task) (s : σ) :
    t.step c (f s) = Prod.map id f (t.step b s) := by
  cases t with
  | upserting stage =>
    simp only [step, Stage.step_embeds h]
    rfl
  | batching items =>
    simp only [step, h.updateBatch]
    rfl
  | batched answer => rfl

end Task

section OnLedger
variable {kind name : String} {i : Input} {l l' : Ledger} {key : Key} {call : Call} {t : Task}

theorem updateByValue_ledger_cases (kind name : String) (i : Input) (l : Ledger) :
    (∃ e, updateByValue Ledger.backend kind name i l = (.error (.invalid e), l)) ∨
    ∃ k m l', Kind.ofText? kind = some k ∧ l.apply ⟨k, name⟩ i = .ok (m, l') ∧
      updateByValue Ledger.backend kind name i l = (.ok m, l') := by
  cases hp : Metric.parse kind name with
  | error e => exact .inl ⟨_, updateByValue_of_unparsed hp⟩
  | ok fresh =>
    obtain ⟨rfl, rfl, -⟩ := Metric.fresh_of_parse hp
    have hrun := updateByValue_ledger hp i l
    cases ha : l.apply fresh.key i with
    | error e =>
      rw [ha] at hrun
      exact .inl ⟨_, hrun⟩
    | ok r =>
      rw [ha] at hrun
      exact .inr ⟨fresh.kind, r.1, r.2, Kind.ofText?_text _, ha, hrun⟩

theorem regular_run_ledger (call : Call) (l : Ledger) : (call.run Ledger.backend l).1.Regular := by
  cases call with
  | upsert kind name i =>
    rcases updateByValue_ledger_cases kind name i l with ⟨e, h⟩ | ⟨k, m, l', -, -, h⟩
    · rw [Call.run, h]
      exact .invalid e
    · rw [Call.run, h]
      exact .metric m
  | batch items => exact .metrics _

theorem find?_run_isSome (call : Call) (h : (l.find? key).isSome) :
    ((call.run Ledger.backend l).2.find? key).isSome := by
  cases call with
  | upsert kind name i =>
    rcases updateByValue_ledger_cases kind name i l with ⟨e, hrun⟩ | ⟨k, m, l', -, ha, hrun⟩
    · rw [Call.run, hrun]
      exact h
    · obtain ⟨-, -, -, -, rfl⟩ := Ledger.apply_eq_ok ha
      rw [Call.run, hrun]
      exact Ledger.find?_put_isSome m h
  | batch items => exact Ledger.find?_applyAll_isSome items h

/-- A call that waits for its next step, and what it has learned. Its kind and name have been read; if
it is to add a metric, this is the fresh one after the update; if it is to update again, its key is there. -/
inductive Waits : Call → Ledger → Task → Prop
  | updating {kind name : String} {i : Input} {l : Ledger} {fresh : Metric}
      (hp : Metric.parse kind name = .ok fresh) :
      Waits (.upsert kind name i) l (.upserting (.updating fresh i))
  | adding {kind name : String} {i : Input} {l : Ledger} {fresh m : Metric}
      (hp : Metric.parse kind name = .ok fresh) (hu : fresh.update i = .ok m) :
      Waits (.upsert kind name i) l (.upserting (.adding m i))
  | updatingAgain {kind name : String} {i : Input} {l : Ledger} {fresh : Metric}
      (hp : Metric.parse kind name = .ok fresh) (hf : (l.find? fresh.key).isSome) :
      Waits (.upsert kind name i) l (.upserting (.updatingAgain fresh.key i))
  | batching {items : List Metric} {l : Ledger} : Waits (.batch items) l (.batching items)

theorem Waits.reply?_eq_none (h : Waits call l t) : t.reply? = none := by cases h <;> rfl

theorem start_cases (call : Call) (l : Ledger) :
    (∃ e, call.start.reply? = some (.metric (.error (.invalid e))) ∧
      ∀ s, call.run Store.backend s = (.metric (.error (.invalid e)), s)) ∨
    Waits call l call.start := by
  cases call with
  | upsert kind name i =>
    cases hp : Metric.parse kind name with
    | error e =>
      refine .inl ⟨.metric e, ?_, ?_⟩
      · simp [Call.start, Stage.start, hp, Task.reply?]
      · intro s
        simp [Call.run, updateByValue_of_unparsed hp]
    | ok fresh =>
      have hstart : (Call.upsert kind name i).start = .upserting (.updating fresh i) := by
        simp [Call.start, Stage.start, hp]
      exact .inr (hstart ▸ .updating hp)
  | batch items => exact .inr .batching

theorem Waits.mono (h : Waits call l t)
    (hkeys : ∀ key, (l.find? key).isSome → (l'.find? key).isSome) : Waits call l' t := by
  cases h with
  | updating hp => exact .updating hp
  | adding hp hu => exact .adding hp hu
  | updatingAgain hp hf => exact .updatingAgain hp (hkeys _ hf)
  | batching => exact .batching

/-- The first or second update of a metric that is there does what the whole call does. -/
theorem step_of_find? {fresh a : Metric} (hp : Metric.parse kind name = .ok fresh)
    (hf : l.find? fresh.key = some a) (i : Input) :
    ∃ answer l', updateByValue Ledger.backend kind name i l = (answer, l') ∧
      (Stage.updating fresh i).step Ledger.backend l = (.done answer, l') ∧
      (Stage.updatingAgain fresh.key i).step Ledger.backend l = (.done answer, l') := by
  have hc := Ledger.current_of_some hf
  cases hu : a.update i with
  | ok m =>
    have hup : Ledger.backend.update fresh.key i l = _ := Ledger.update_of_ok hf hu
    refine ⟨.ok m, l.put m, ?_, by simp [Stage.step, hup], by simp [Stage.step, hup]⟩
    rw [updateByValue_ledger hp, Ledger.apply_of_ok hc hu]
  | error e =>
    have hup : Ledger.backend.update fresh.key i l = _ := Ledger.update_of_error hf hu
    refine ⟨.error (.invalid (.metric e)), l, ?_, by simp [Stage.step, hup, RequestError.ofStore],
      by simp [Stage.step, hup, RequestError.ofStore]⟩
    rw [updateByValue_ledger hp, Ledger.apply_of_error hc hu]

/-- A step of a waiting call leaves the ledger as it is, or does what the whole call does. -/
theorem Waits.step (h : Waits call l t) :
    (∃ t', t.step Ledger.backend l = (t', l) ∧ Waits call l t') ∨
    ∃ t' r l', t.step Ledger.backend l = (t', l') ∧ t'.reply? = some r ∧
      call.run Ledger.backend l = (r, l') := by
  cases h with
  | @updating kind name i l fresh hp =>
    cases hf : l.find? fresh.key with
    | some a =>
      obtain ⟨answer, l', hrun, hstep, -⟩ := step_of_find? hp hf i
      refine .inr ⟨.upserting (.done answer), .metric answer, l', ?_, rfl, ?_⟩
      · simp [Task.step, hstep]
      · simp [Call.run, hrun]
    | none =>
      have hup : Ledger.backend.update fresh.key i l = _ := Ledger.update_of_none hf i
      cases hu : fresh.update i with
      | ok m =>
        refine .inl ⟨.upserting (.adding m i), ?_, .adding hp hu⟩
        simp [Task.step, Stage.step, hup, hu]
      | error e =>
        refine .inr ⟨.upserting (.done (.error (.invalid (.metric e)))), _, l, ?_, rfl, ?_⟩
        · simp [Task.step, Stage.step, hup, hu]
        · rw [Call.run, updateByValue_ledger hp, Ledger.apply_of_error (current_of_parse hp hf) hu]
          rfl
  | @adding kind name i l fresh m hp hu =>
    have hkey := Metric.key_update hu
    cases hf : l.find? m.key with
    | some a =>
      have hadd : Ledger.backend.add m l = _ := Ledger.add_of_some hf
      refine .inl ⟨.upserting (.updatingAgain fresh.key i), ?_, .updatingAgain hp ?_⟩
      · simp [Task.step, Stage.step, hadd, hkey]
      · simp [← hkey, hf]
    | none =>
      have hadd : Ledger.backend.add m l = _ := Ledger.add_of_none hf
      refine .inr ⟨.upserting (.done (.ok m)), _, l.put m, ?_, rfl, ?_⟩
      · simp [Task.step, Stage.step, hadd]
      · rw [Call.run, updateByValue_ledger hp,
          Ledger.apply_of_ok (current_of_parse hp (hkey ▸ hf)) hu]
        rfl
  | @updatingAgain kind name i l fresh hp hf =>
    obtain ⟨a, hf⟩ := Option.isSome_iff_exists.1 hf
    obtain ⟨answer, l', hrun, -, hstep⟩ := step_of_find? hp hf i
    refine .inr ⟨.upserting (.done answer), .metric answer, l', ?_, rfl, ?_⟩
    · simp [Task.step, hstep]
    · simp [Call.run, hrun]
  | @batching items l => exact .inr ⟨_, _, _, rfl, rfl, rfl⟩

end OnLedger

end Service
end Telemetry
