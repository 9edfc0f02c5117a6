import Std.Data.ExtTreeMap

/-! # A deduplicating queue with a retry budget

A key is taken once and for ever. A job that fails runs again until its attempts are
spent, and is then killed; a killed or finished job keeps its key.
-/

namespace JobQueue

inductive State where
  | ready
  | running
  | done
  | killed
deriving DecidableEq, Repr

structure Job where
  attempts : Nat
  state : State
deriving DecidableEq, Repr

def Job.Live (job : Job) : Prop := job.state = .ready ∨ job.state = .running

instance (job : Job) : Decidable job.Live := inferInstanceAs (Decidable (_ ∨ _))

def Job.settle (maxAttempts : Nat) (ok : Bool) (job : Job) : Job :=
  { job with
    state := if ok then .done else if job.attempts < maxAttempts then .ready else .killed }

def Job.start (job : Job) : Job := { attempts := job.attempts + 1, state := .running }

variable {κ : Type} {cmp : κ → κ → Ordering} [Std.TransCmp cmp]

/-- Enqueue a job, unless the key was ever used. -/
def push (k : κ) (queue : Std.ExtTreeMap κ Job cmp) : Std.ExtTreeMap κ Job cmp :=
  queue.alter k fun job => some (job.getD { attempts := 0, state := .ready })

def start (k : κ) (queue : Std.ExtTreeMap κ Job cmp) : Std.ExtTreeMap κ Job cmp :=
  queue.modify k Job.start

def settle (maxAttempts : Nat) (ok : Bool) (k : κ) (queue : Std.ExtTreeMap κ Job cmp) :
    Std.ExtTreeMap κ Job cmp :=
  queue.modify k (Job.settle maxAttempts ok)

variable [Std.LawfulEqCmp cmp] [DecidableEq κ] {queue : Std.ExtTreeMap κ Job cmp} {j k : κ}
  {maxAttempts : Nat} {ok : Bool}

theorem push_getElem? : (push k queue)[j]? =
    if k = j then some (queue[j]?.getD { attempts := 0, state := .ready }) else queue[j]? := by
  unfold push
  rw [Std.ExtTreeMap.getElem?_alter]
  by_cases h : k = j
  · subst h
    simp
  · simp [h]

theorem modify_getElem? (f : Job → Job) : (queue.modify k f)[j]? =
    if k = j then queue[j]?.map f else queue[j]? := by
  rw [Std.ExtTreeMap.getElem?_modify]
  by_cases h : k = j
  · subst h
    simp
  · simp [h]

theorem start_getElem? : (start k queue)[j]? =
    if k = j then queue[j]?.map Job.start else queue[j]? := modify_getElem? _

theorem settle_getElem? : (settle maxAttempts ok k queue)[j]? =
    if k = j then queue[j]?.map (Job.settle maxAttempts ok) else queue[j]? := modify_getElem? _

theorem Job.settle_killed {job : Job} (h : (job.settle maxAttempts ok).state = .killed) :
    ok = false ∧ maxAttempts ≤ job.attempts := by
  unfold Job.settle at h
  cases ok with
  | true => cases h
  | false =>
      by_cases hleft : job.attempts < maxAttempts
      · simp [hleft] at h
      · exact ⟨rfl, Nat.not_lt.mp hleft⟩

theorem Job.settle_spent {job : Job} (h : maxAttempts ≤ job.attempts) :
    job.settle maxAttempts false = { job with state := .killed } := by
  unfold Job.settle
  simp [Nat.not_lt.mpr h]

theorem Job.settle_done {job : Job} (h : (job.settle maxAttempts ok).state = .done) :
    ok = true := by
  unfold Job.settle at h
  cases ok with
  | true => rfl
  | false => by_cases hleft : job.attempts < maxAttempts <;> simp [hleft] at h

end JobQueue
