import ScriptEngine.Proofs.Running.Origin
import ScriptEngine.Proofs.Running.Rest

/-!
Runs one after another. Each is on layers of its own choice, and finds the console and the files that
the outside world has for it. Between the runs the store is at rest, and the frames are those from
before the first one, with the parents they had.
-/
namespace ScriptEngine

/-- A run that a host asks for, with the console and the files that it finds. -/
structure Job where
  limit : Nat
  fuel : Nat
  layers : Layers
  program : Program
  console : Console
  files : Files

namespace Machine

variable {m n : Machine} {job : Job} {jobs : List Job}

def equipped (m : Machine) (job : Job) : Machine :=
  { m with console := job.console, files := job.files }

def perform (m : Machine) (job : Job) : Ending × Machine :=
  (m.equipped job).run job.limit job.fuel job.layers job.program

/-- The machine after runs one after another. -/
def performAll (m : Machine) (jobs : List Job) : Machine :=
  jobs.foldl (fun m job => (m.perform job).2) m

/-- In a run the machine comes to this state, when an evaluation begins or when it ends, whatever comes
of it. -/
inductive Visits (m : Machine) (job : Job) : Machine → Prop where
  | beginning {M : Moment}
      (hM : ((m.equipped job).outset job.layers job.program).Reaches job.limit M) :
      Visits m job M.machine
  | ending {M : Moment}
      (hM : ((m.equipped job).outset job.layers job.program).Reaches job.limit M) (fuel : Nat) :
      Visits m job (M.task.eval job.limit fuel M.machine).machine

theorem settles_perform (m : Machine) (job : Job) : m.store.Settles (m.perform job).2.store :=
  settles_unlink (m := m.equipped job) (settles_script ..)

theorem rested_perform (hrested : m.store.Rested) (halive : job.layers.Alive m.store) :
    (m.perform job).2.store.Rested :=
  rested_run (m := m.equipped job) hrested halive job.limit job.fuel job.program

theorem settles_performAll (m : Machine) (jobs : List Job) :
    m.store.Settles (m.performAll jobs).store := by
  induction jobs generalizing m with
  | nil => exact .refl m.store
  | cons job rest ih => exact (m.settles_perform job).trans (ih _)

/-- After runs on sets that are there the store is at rest, and the sets are there. -/
theorem rested_performAll (hrested : m.store.Rested)
    (halive : ∀ job ∈ jobs, job.layers.Alive m.store) : (m.performAll jobs).store.Rested := by
  induction jobs generalizing m with
  | nil => exact hrested
  | cons job rest ih =>
    rw [List.forall_mem_cons] at halive
    exact ih (rested_perform hrested halive.1) fun other hother =>
      (halive.2 other hother).settles (m.settles_perform job)

/-! States of a run -/

theorem runRealm_outset (halive : job.layers.Alive m.store) :
    ((m.equipped job).outset job.layers job.program).task.In m.store.runRealm :=
  bindings_ne_top (m := m.equipped job) halive

theorem settled_perform {R : Realm} (hbegin : R.Holds ((m.equipped job).begin job.layers).2.store)
    (hcode : R.code job.layers.bindings (.stmts job.program.body)) :
    ∃ σ, (m.perform job).2.store = (m.equipped job).unlink job.layers σ ∧
      R.Settled ((m.equipped job).begin job.layers).2.store σ := by
  have hkeeps := Eval.keeps_script job.limit job.fuel job.program.body hcode .null hbegin
    (R.data_scalar .null rfl)
  exact ⟨_, rfl, (Outcome.Keeps.conclude hkeeps).1⟩

/-- Every state of a run comes from the first one. -/
theorem Visits.onward_of_holds {R : Realm} (h : m.Visits job n)
    (hbegin : R.Holds ((m.equipped job).begin job.layers).2.store)
    (hcode : R.code job.layers.bindings (.stmts job.program.body)) :
    R.Onward ((m.equipped job).begin job.layers).2.store n.store := by
  cases h with
  | beginning hM => exact (reaches_keeps hM hbegin hcode).1
  | @ending M hM fuel =>
    obtain ⟨hway, hin⟩ := reaches_keeps hM hbegin hcode
    have hend : R.Settled M.machine.store (M.task.eval job.limit fuel M.machine).machine.store :=
      (keeps_task fuel hway.holds hin).settled_machine
    exact hway.trans hend.toOnward

/-- What the run has made lies below other frames than that of the standard functions. -/
theorem Visits.onward (h : m.Visits job n) (hrested : m.store.Rested)
    (halive : job.layers.Alive m.store) :
    m.store.runRealm.Onward ((m.equipped job).begin job.layers).2.store n.store ∧
      n.store.Linked m.store.frames.size := by
  have hbegin := runRealm_holds (m := m.equipped job) hrested job.layers
  have houtset := runRealm_outset halive
  have htop : ¬ m.store.runRealm.scopes m.store.frames.size := fun hne => hne rfl
  have hground : ((m.equipped job).outset job.layers job.program).Grounded m.store.frames.size := by
    refine ⟨fun id hid hthere => ?_, fun id hid => ?_⟩
    · have hlt := Store.lt_size_of_isAlive hthere
      have hsize := size_begin job.layers (m.equipped job)
      exact absurd hid (Nat.not_lt_of_le (Nat.le_of_lt_succ (Nat.lt_of_lt_of_eq hlt hsize)))
    · obtain rfl : job.layers.bindings = id := Option.some.inj hid
      have hthere := isAlive_begin job.layers (m.equipped job) job.layers.bindings
      rw [if_neg (bindings_ne_top (m := m.equipped job) halive)] at hthere
      exact hthere.trans halive.bindings
  refine ⟨h.onward_of_holds hbegin houtset, ?_⟩
  cases h with
  | beginning hM => exact (reaches_grounded hM htop hbegin houtset hground).linked
  | @ending M hM fuel =>
    obtain ⟨hway, hin⟩ := reaches_keeps hM hbegin houtset
    have hend : m.store.runRealm.Settled M.machine.store
        (M.task.eval job.limit fuel M.machine).machine.store :=
      (keeps_task fuel hway.holds hin).settled_machine
    exact (reaches_grounded hM htop hbegin houtset hground).linked.settles hend.settles

end Machine

end ScriptEngine
