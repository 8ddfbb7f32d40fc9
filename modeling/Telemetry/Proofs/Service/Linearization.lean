import Mathlib.Data.List.Basic
import Telemetry.Proofs.Service.Calls

/-!
Calls at the same time on one store in memory, their steps in any order. Each call takes effect as a
whole with its last step on the store, so the calls might as well have come one after another.
-/
namespace Telemetry

namespace Store

/-- The stores that hold their metrics in memory. -/
inductive InMemory : Store → Prop
  | memory (l : Ledger) : InMemory (memory l)
  | file (path : Path) (l : Ledger) : InMemory (file path l)

/-- The items of a batch that a store applies: those that can be applied, or for a table all or
none. -/
def accepted (items : List Metric) : Store → List Metric :=
  view (Ledger.accepted items) fun t => if (t.updateBatch items).1.isOk then items else []

section
variable {s : Store}

theorem InMemory.embeds (h : s.InMemory) : Backend.Embeds (s.refill ·) Ledger.backend backend := by
  cases h with
  | memory l => exact embeds_memory
  | file path l => exact embeds_file path

theorem InMemory.exists_ledger (h : s.InMemory) : ∃ l, s = s.refill l := by
  cases h with
  | memory l => exact ⟨l, rfl⟩
  | file path l => exact ⟨l, rfl⟩

theorem InMemory.accepted_refill (h : s.InMemory) (items : List Metric) (l : Ledger) :
    (s.refill l).accepted items = l.accepted items := by
  cases h <;> rfl

theorem Holds.accepted_eq {l : Ledger} {ms : List Metric} (hs : s.Holds l) (hl : l.Valid)
    (hms : ∀ m ∈ ms, m.WellFormed) (h : s.accepted ms = ms) : l.accepted ms = ms := by
  cases hs with
  | memory => exact h
  | file path => exact h
  | table =>
    by_cases hall : l.accepted ms = ms
    · exact hall
    · obtain ⟨e, he⟩ := Ledger.updateBatch_image_error hl hms hall
      have hnil : [] = ms := by simpa [accepted, view, he, Except.isOk, Except.toBool] using h
      exact hnil ▸ rfl

end
end Store

namespace Service

/-- What a call adds to the total of a counter when its last step finds a store: an update by value its
delta if it is answered, a batch the deltas of the items that are applied. -/
def Call.gain (name : String) (found : Store) : Call → Reply → Int
  | upsert kind name' i, .metric (.ok _) =>
    (Kind.ofText? kind).elim 0 fun k => increment name ⟨k, name'⟩ i
  | batch items, _ => increments name (found.accepted items)
  | _, _ => 0

theorem total_run_ledger {s : Store} (hs : s.InMemory) (call : Call) (l : Ledger) (name : String) :
    (call.run Ledger.backend l).2.total name =
      l.total name + call.gain name (s.refill l) (call.run Ledger.backend l).1 := by
  cases call with
  | upsert kind name' i =>
    rcases updateByValue_ledger_cases kind name' i l with ⟨e, hrun⟩ | ⟨k, m, l', hk, ha, hrun⟩
    · simp [Call.run, hrun, Call.gain]
    · simp [Call.run, hrun, Call.gain, hk, Ledger.total_apply ha name]
  | batch items =>
    have hrun : ((Call.batch items).run Ledger.backend l).2 = (Ledger.applyAll items l).2 := rfl
    rw [hrun, Ledger.total_applyAll, Call.gain, hs.accepted_refill]

/-- The last step of a call on the store: whose it is, what it finds and what the call replies. -/
structure Entry (n : Nat) where
  task : Fin n
  found : Store
  reply : Reply

def gains {n : Nat} (calls : Fin n → Call) (name : String) (log : List (Entry n)) : Int :=
  log.foldr (fun e total => (calls e.task).gain name e.found e.reply + total) 0

theorem gains_append {n : Nat} (calls : Fin n → Call) (name : String) (as bs : List (Entry n)) :
    gains calls name (as ++ bs) = gains calls name as + gains calls name bs := by
  induction as with
  | nil => exact (Int.zero_add _).symm
  | cons a as ih =>
    simp only [gains, List.cons_append, List.foldr_cons] at ih ⊢
    rw [ih, Int.add_assoc]

/-- A store and calls on it, each as far as it has come, and the last steps so far. -/
structure System (n : Nat) where
  store : Store
  tasks : Fin n → Task
  log : List (Entry n)

namespace System
variable {n : Nat} {calls : Fin n → Call} {s : Store} {sys : System n} {i : Fin n} {l : Ledger}

def start (calls : Fin n → Call) (s : Store) : System n := ⟨s, fun i => (calls i).start, []⟩

def reply? (sys : System n) (i : Fin n) : Option Reply := (sys.tasks i).reply?

def step (i : Fin n) (sys : System n) : System n :=
  match sys.reply? i with
  | some _ => sys
  | none =>
    let r := (sys.tasks i).step Store.backend sys.store
    ⟨r.2, Function.update sys.tasks i r.1,
      sys.log ++ (r.1.reply?.map (Entry.mk i sys.store)).toList⟩

def run (schedule : List (Fin n)) (sys : System n) : System n :=
  schedule.foldl (fun sys i => sys.step i) sys

/-- The calls that reply before they come to the store. -/
def idle (calls : Fin n → Call) : List (Fin n) :=
  (List.finRange n).filter fun i => (calls i).start.reply?.isSome

/-- The calls that have replied: those that never come to the store, then the others in the order of
their last steps. -/
def order (calls : Fin n → Call) (sys : System n) : List (Fin n) := idle calls ++ sys.log.map (·.task)

/-- The calls have had the effect of those that have replied, one after another. -/
structure Linearized (calls : Fin n → Call) (s : Store) (sys : System n) : Prop where
  nodup : (sys.order calls).Nodup
  mem_order : ∀ i, i ∈ sys.order calls ↔ (sys.reply? i).isSome
  sequential : Call.runAll Store.backend ((sys.order calls).map calls) s =
    ((sys.order calls).filterMap sys.reply?, sys.store)
  regular : ∀ i r, sys.reply? i = some r → r.Regular
  logged : ∀ e ∈ sys.log, sys.reply? e.task = some e.reply
  total : ∀ name, sys.store.total name = s.total name + gains calls name sys.log

section Step
variable {t : Task} {s' : Store} {r : Reply}

theorem reply?_update (i j : Fin n) (t : Task) (s' : Store) (log : List (Entry n)) :
    (System.mk s' (Function.update sys.tasks i t) log).reply? j =
      if j = i then t.reply? else sys.reply? j := by
  by_cases h : j = i
  · subst h
    simp [reply?]
  · simp [reply?, h]

theorem step_of_reply?_eq_some (h : sys.reply? i = some r) : sys.step i = sys := by
  simp [step, h]

theorem Linearized.congr {sys' : System n} (h : sys.Linearized calls s)
    (hstore : sys'.store = sys.store) (hreply : sys'.reply? = sys.reply?)
    (hlog : sys'.log = sys.log) : sys'.Linearized calls s := by
  obtain ⟨hnodup, hmem, hseq, hregular, hlogged, htotal⟩ := h
  constructor <;> simpa only [order, hstore, hreply, hlog]

def finish (i : Fin n) (t : Task) (r : Reply) (s' : Store) (sys : System n) : System n :=
  ⟨s', Function.update sys.tasks i t, sys.log ++ [⟨i, sys.store, r⟩]⟩

@[simp] theorem store_finish (i : Fin n) (t : Task) (r : Reply) (s' : Store) (sys : System n) :
    (sys.finish i t r s').store = s' := rfl

theorem reply?_finish (i j : Fin n) (t : Task) (r : Reply) (s' : Store) (sys : System n) :
    (sys.finish i t r s').reply? j = if j = i then t.reply? else sys.reply? j :=
  reply?_update i j t s' _

theorem order_finish (i : Fin n) (t : Task) (r : Reply) (s' : Store) (sys : System n) :
    (sys.finish i t r s').order calls = sys.order calls ++ [i] := by
  simp [order, finish]

theorem filterMap_reply?_finish {is : List (Fin n)} (h : i ∉ is) :
    is.filterMap (sys.finish i t r s').reply? = is.filterMap sys.reply? := by
  apply List.filterMap_congr
  intro j hj
  have hne : j ≠ i := fun hji => h (hji ▸ hj)
  rw [reply?_finish, if_neg hne]

/-- A last step on the store puts its call at the end of the order. -/
theorem Linearized.finish (h : sys.Linearized calls s) (hi : sys.reply? i = none)
    (ht : t.reply? = some r) (hrun : (calls i).run Store.backend sys.store = (r, s'))
    (hr : r.Regular)
    (hgain : ∀ name, s'.total name = sys.store.total name + (calls i).gain name sys.store r) :
    (sys.finish i t r s').Linearized calls s := by
  have hnot : i ∉ sys.order calls := by simp [h.mem_order, hi]
  constructor
  case nodup =>
    rw [order_finish, List.nodup_append]
    refine ⟨h.nodup, by simp, ?_⟩
    intro a ha b hb
    rintro rfl
    exact hnot (List.mem_singleton.1 hb ▸ ha)
  case mem_order =>
    intro j
    rw [order_finish, reply?_finish]
    by_cases hj : j = i
    · simp [hj, ht]
    · simp [hj, h.mem_order]
  case sequential =>
    rw [order_finish, List.map_append, Call.runAll_append, h.sequential, List.filterMap_append,
      filterMap_reply?_finish hnot]
    simp [Call.runAll, hrun, reply?_finish, ht]
  case regular =>
    intro j r' hj
    rw [reply?_finish] at hj
    by_cases hji : j = i
    · rw [if_pos hji, ht] at hj
      exact Option.some.inj hj ▸ hr
    · rw [if_neg hji] at hj
      exact h.regular j r' hj
  case logged =>
    intro e he
    rcases List.mem_append.1 he with he | he
    · have hreply := h.logged e he
      have hne : e.task ≠ i := by
        intro htask
        simp [← htask, hreply] at hi
      rw [reply?_finish, if_neg hne]
      exact hreply
    · obtain rfl := List.mem_singleton.1 he
      simp [reply?_finish, ht]
  case total =>
    intro name
    show s'.total name = s.total name + gains calls name (sys.log ++ [⟨i, sys.store, r⟩])
    rw [gains_append, hgain, h.total]
    simp [gains, Int.add_assoc]

/-- The store and the calls that have not replied: the store is the one that holds `l`, and what the
calls have learned is true of it. -/
structure Tracked (calls : Fin n → Call) (s : Store) (l : Ledger) (sys : System n) : Prop where
  store : sys.store = s.refill l
  waiting : ∀ i, sys.reply? i = none → Waits (calls i) l (sys.tasks i)

theorem Tracked.waiting_update {l' : Ledger} (h : sys.Tracked calls s l)
    (hkeys : ∀ key, (l.find? key).isSome → (l'.find? key).isSome)
    (ht : t.reply? = none → Waits (calls i) l' t) (log : List (Entry n)) :
    (System.mk (s.refill l') (Function.update sys.tasks i t) log).Tracked calls s l' := by
  refine ⟨rfl, ?_⟩
  intro j hj
  rw [reply?_update] at hj
  by_cases hji : j = i
  · subst hji
    simpa using ht (by simpa using hj)
  · rw [if_neg hji] at hj
    simpa [hji] using (h.waiting j hj).mono hkeys

/-- A step of a call is none on the store, or is the whole call. -/
theorem Linearized.step (hs : s.InMemory) (h : sys.Linearized calls s)
    (hl : sys.Tracked calls s l) (i : Fin n) :
    ∃ l', (sys.step i).Linearized calls s ∧ (sys.step i).Tracked calls s l' := by
  cases hi : sys.reply? i with
  | some r =>
    rw [step_of_reply?_eq_some hi]
    exact ⟨l, h, hl⟩
  | none =>
    have hembeds := Task.step_embeds hs.embeds (sys.tasks i) l
    rcases (hl.waiting i hi).step with ⟨t, hstep, hnext⟩ | ⟨t, r, l', hstep, ht, hrun⟩
    · -- the call goes on; the store and all replies are as before
      have ht := hnext.reply?_eq_none
      have hsys : sys.step i = ⟨s.refill l, Function.update sys.tasks i t, sys.log⟩ := by
        simp [System.step, hi, hl.store, hembeds, hstep, ht]
      rw [hsys]
      refine ⟨l, h.congr hl.store.symm ?_ rfl, hl.waiting_update (fun _ => id) (fun _ => hnext) _⟩
      funext j
      rw [reply?_update]
      by_cases hj : j = i
      · simp [hj, hi, ht]
      · rw [if_neg hj]
    · -- the call ends, and its last step is the whole call on the ledger it finds
      have hsys : sys.step i = sys.finish i t r (s.refill l') := by
        simp [System.step, System.finish, hi, hl.store, hembeds, hstep, ht]
      have hregular := regular_run_ledger (calls i) l
      have hkeys : ∀ key, (l.find? key).isSome →
          (((calls i).run Ledger.backend l).2.find? key).isSome := fun _ => find?_run_isSome (calls i)
      have htotal := total_run_ledger hs (calls i) l
      rw [hrun] at hregular htotal hkeys
      have hcall : (calls i).run Store.backend sys.store = (r, s.refill l') := by
        rw [hl.store, Call.run_embeds hs.embeds, hrun]
        rfl
      rw [hsys]
      refine ⟨l', h.finish hi ht hcall hregular ?_, hl.waiting_update hkeys (by simp [ht]) _⟩
      intro name
      rw [hl.store, Store.total_refill, Store.total_refill]
      exact htotal name

theorem Linearized.run (hs : s.InMemory) (h : sys.Linearized calls s)
    (hl : sys.Tracked calls s l) (schedule : List (Fin n)) :
    (sys.run schedule).Linearized calls s := by
  induction schedule generalizing sys l with
  | nil => exact h
  | cons i schedule ih =>
    obtain ⟨l', hnext, htracked⟩ := h.step hs hl i
    exact ih hnext htracked

theorem runAll_of_refused {is : List (Fin n)} (h : ∀ i ∈ is, (calls i).start.reply?.isSome) :
    Call.runAll Store.backend (is.map calls) s = (is.filterMap (start calls s).reply?, s) := by
  induction is with
  | nil => rfl
  | cons i is ih =>
    obtain ⟨hi, hrest⟩ := List.forall_mem_cons.1 h
    rcases start_cases (calls i) [] with ⟨e, he, hrun⟩ | hwaits
    · have hreply : (start calls s).reply? i = _ := he
      simp [Call.runAll, hrun, ih hrest, hreply]
    · simp [hwaits.reply?_eq_none] at hi

theorem linearized_start (calls : Fin n → Call) (s : Store) : (start calls s).Linearized calls s := by
  constructor
  case nodup =>
    show (idle calls ++ []).Nodup
    rw [List.append_nil]
    exact (List.nodup_finRange n).filter _
  case mem_order => simp [order, start, idle, reply?]
  case sequential => simpa [order, start] using runAll_of_refused (show ∀ i ∈ idle calls, _ by simp [idle])
  case regular =>
    intro i r hr
    rcases start_cases (calls i) [] with ⟨e, he, -⟩ | hwaits
    · obtain rfl : Reply.metric (.error (.invalid e)) = r := Option.some.inj (he.symm.trans hr)
      exact .invalid e
    · simp [reply?, start, hwaits.reply?_eq_none] at hr
  case logged => simp [start]
  case total => simp [start, gains]

theorem tracked_start (calls : Fin n → Call) (hs : s.InMemory) :
    ∃ l, (start calls s).Tracked calls s l := by
  obtain ⟨l, hl⟩ := hs.exists_ledger
  refine ⟨l, hl, ?_⟩
  intro i hi
  rcases start_cases (calls i) l with ⟨e, he, -⟩ | hwaits
  · simp [reply?, start, he] at hi
  · exact hwaits

end Step

theorem rest_step_le (sys : System n) (i j : Fin n) :
    ((sys.step j).tasks i).rest ≤ (sys.tasks i).rest - if j = i then 1 else 0 := by
  cases hj : sys.reply? j with
  | some r =>
    rw [step_of_reply?_eq_some hj]
    by_cases hij : j = i
    · have hzero : ¬ 0 < (sys.tasks i).rest := by
        rw [← Task.reply?_eq_none_iff, ← hij]
        exact fun hnone => by simp [reply?, hnone] at hj
      omega
    · simp [hij]
  | none =>
    by_cases hij : j = i
    · subst hij
      simpa [step, hj] using Task.rest_step_le Store.backend (sys.tasks j) sys.store
    · simp [step, hj, hij, Ne.symm hij]

theorem rest_run_le (schedule : List (Fin n)) (sys : System n) (i : Fin n) :
    ((sys.run schedule).tasks i).rest ≤ (sys.tasks i).rest - schedule.count i := by
  induction schedule generalizing sys with
  | nil => exact Nat.le_refl _
  | cons j schedule ih =>
    have hstep := rest_step_le sys i j
    have hrun : ((sys.run (j :: schedule)).tasks i).rest ≤ _ := ih (sys.step j)
    have hcount : (j :: schedule).count i = schedule.count i + if j = i then 1 else 0 := by
      simp [List.count_cons]
    omega

/-- Calls at the same time on a store in memory, their steps in any order, reply or are refused as
invalid, each after at most three steps, and have the effect of calls one after another in the order of
their last steps. -/
theorem run_linearized {s : Store} (hs : s.InMemory) (calls : Fin n → Call)
    (schedule : List (Fin n)) :
    ((start calls s).run schedule).Linearized calls s ∧
      ∀ i, 3 ≤ schedule.count i → (((start calls s).run schedule).reply? i).isSome := by
  refine ⟨?_, ?_⟩
  · obtain ⟨l, hl⟩ := tracked_start calls hs
    exact (linearized_start calls s).run hs hl schedule
  · intro i hi
    have hstart := Task.rest_start_le (calls i)
    have hrun := rest_run_le schedule (start calls s) i
    have hzero : (((start calls s).run schedule).tasks i).rest = 0 := by
      have : ((start calls s).tasks i).rest = (calls i).start.rest := rfl
      omega
    rw [Option.isSome_iff_ne_none, Ne, reply?, Task.reply?_eq_none_iff]
    omega

/-- Two calls that create one counter, a batch whose first item is too much for it, and a call that is
refused at once. -/
def racingCalls : Fin 4 → Call
  | 0 => .upsert "counter" "hits" (.int 5)
  | 1 => .upsert "counter" "hits" (.text "7")
  | 2 => .batch [⟨"hits", .counter 9223372036854775807⟩, ⟨"hits", .counter 1⟩]
  | 3 => .upsert "counter" "h i t s" (.int 100)

/-- The second call loses the race, and the batch comes before its update on top. -/
theorem run_linearized_racingCalls : (Store.memory []).InMemory ∧
    ((start racingCalls (.memory [])).run [0, 1, 0, 1, 2, 1]).Linearized racingCalls (.memory []) ∧
    ((start racingCalls (.memory [])).run [0, 1, 0, 1, 2, 1]).order racingCalls = [3, 0, 2, 1] ∧
    ((start racingCalls (.memory [])).run [0, 1, 0, 1, 2, 1]).store.total "hits" = 13 ∧
    (((start racingCalls (.memory [])).run [0, 1, 0, 1, 2, 1]).reply? 1).isSome :=
  have h := run_linearized (.memory []) racingCalls [0, 1, 0, 1, 2, 1]
  ⟨.memory [], h.1, by decide +kernel, by decide +kernel, h.2 1 (by decide)⟩

end System
end Service
end Telemetry
