import StackScript.Proofs.Reach
import StackScript.Sharing

/-!
# Evaluations do not disturb each other

However the steps of the jobs on one engine come, no run changes a collection that the host can get
at, and each job goes as it would go on a new engine with the same bindings, but for the places of its
collections in the heap.

* `Job.evaluate`: what a job comes to on an engine of its own.  `alone_evaluate` says the same of the
  steps that the job makes there.
* `Shared.Isolated`: what every step of a job preserves.
* `jobs_isolated`: what holds for all jobs after any steps.
-/

namespace StackScript

open Machine Host Bytecode

/-! ### A job by itself -/

/-- What a job that has not begun to run comes to on an engine of its own. -/
def Job.evaluate (e : Engine) (job : Job) (count : Nat) : Attempt Evaluation :=
  match job with
  | .asked source => e.eval source count
  | .compiled program => e.run program count
  | _ => .unfinished

/-- The number of steps that lie before the first instruction of a job. -/
def Job.lead : Job → Nat
  | .asked _ => 2
  | .compiled _ => 1
  | _ => 0

/-- Where a job and its engine are when so much has come of the evaluation. -/
inductive Job.Stands : Attempt Evaluation → Engine × Job → Prop where
  | done (r : Evaluation) : Stands (.done r) (r.engine, .finished r.result r.printed)
  | panicked (e : Engine) : Stands .panicked (e, .panicked)
  | unfinished (e : Engine) (program : Program) (executed : Nat) :
      Stands .unfinished (e, .running program executed)

/-- The evaluation that a run ends. -/
def Engine.ending (e : Engine) (o : Outcome) : Evaluation :=
  ⟨o.result.mapError .stopped, o.state.output, { e with machine := o.state }⟩

namespace Job

variable {e : Engine} {job : Job} {m n : Nat}

theorem alone_add : alone e job (m + n) = alone (alone e job m).1 (alone e job m).2 n := by
  induction n with
  | zero => rfl
  | succ n ih =>
    rw [← Nat.add_assoc, alone, alone, ih]

theorem alone_succ : alone e job (n + 1) = alone (job.step e).1 (job.step e).2 n := by
  rw [Nat.add_comm]
  exact alone_add

/-- A job that has nothing more to do stays where it is. -/
theorem alone_of_step (h : job.step e = (e, job)) (n : Nat) : alone e job n = (e, job) := by
  induction n with
  | zero => rfl
  | succ n ih =>
    rw [alone, ih]
    exact h

/-- What has come of an evaluation does not change with more steps. -/
theorem alone_of_over (h : (alone e job m).2.step (alone e job m).1 = alone e job m) (hle : m ≤ n) :
    alone e job n = alone e job m := by
  obtain ⟨k, rfl⟩ := Nat.exists_eq_add_of_le hle
  rw [alone_add, alone_of_step h]

/-- A job that runs makes the steps of the run. -/
theorem alone_running (program : Program) (count executed : Nat) :
    Stands ((runFrom e.settings.limits e.environment program count executed e.machine).bind fun o =>
      .done (e.ending o)) (alone e (.running program executed) count) := by
  induction count generalizing e executed with
  | zero => exact .unfinished _ _ _
  | succ count ih =>
    rw [alone_succ, runFrom]
    dsimp only [step]
    cases advance e.settings.limits e.environment program executed e.machine with
    | running s => exact ih (e := { e with machine := s }) (executed + 1)
    | halted s =>
      dsimp only
      rw [alone_of_step rfl]
      exact .done (e.ending (finish s))
    | failed f s =>
      dsimp only
      rw [alone_of_step rfl]
      exact .done (e.ending ⟨.error f, s⟩)
    | panicked s =>
      dsimp only
      rw [alone_of_step rfl]
      exact .panicked _

theorem alone_compiled (program : Program) (count : Nat) :
    Stands (e.run program count) (alone e (.compiled program) (count + 1)) := by
  rw [alone_succ]
  dsimp only [step]
  show Stands ((Machine.run e.settings.limits e.environment program count
    { e.machine with output := "" }).bind fun o => .done (e.ending o)) _
  unfold Machine.run
  dsimp only
  split
  · exact alone_running (e := { e with machine := ({ e.machine with output := "" } : State).restart }) program
      count 0
  · rw [alone_of_step rfl]
    exact .done (e.ending _)

/-- A job that has an engine to itself makes the steps of its evaluation. -/
theorem alone_evaluate (hnew : job.lead ≠ 0) (count : Nat) :
    Stands (job.evaluate e count) (alone e job (count + job.lead)) := by
  cases job with
  | asked source =>
    show Stands (e.eval source count) (alone e (.asked source) (count + 1 + 1))
    rw [alone_succ]
    dsimp only [step, Engine.eval]
    cases e.compile source with
    | ok program => exact alone_compiled program count
    | error f =>
      dsimp only
      rw [alone_of_step rfl]
      exact .done (e.refuse f)
  | compiled program => exact alone_compiled program count
  | _ => exact absurd rfl hnew

theorem alone_of_done (hnew : job.lead ≠ 0) {count : Nat} {r : Evaluation}
    (h : job.evaluate e count = .done r) (hle : count + job.lead ≤ n) :
    alone e job n = (r.engine, .finished r.result r.printed) := by
  have hstands := alone_evaluate (e := e) hnew count
  rw [h] at hstands
  generalize hp : alone e job (count + job.lead) = p at hstands
  cases hstands
  rw [alone_of_over (by rw [hp]; rfl) hle, hp]

theorem alone_of_panicked (hnew : job.lead ≠ 0) {count : Nat} (h : job.evaluate e count = .panicked)
    (hle : count + job.lead ≤ n) : ∃ e', alone e job n = (e', .panicked) := by
  have hstands := alone_evaluate (e := e) hnew count
  rw [h] at hstands
  generalize hp : alone e job (count + job.lead) = p at hstands
  cases hstands with
  | panicked e' => exact ⟨e', by rw [alone_of_over (by rw [hp]; rfl) hle, hp]⟩

/-- A job that is over by itself has come to the end of its evaluation. -/
theorem evaluate_of_over (hnew : job.lead ≠ 0)
    (hover : (alone e job n).2.step (alone e job n).1 = alone e job n) :
    Stands (job.evaluate e n) (alone e job n) := by
  have hstands := alone_evaluate (e := e) hnew n
  rwa [alone_of_over hover (Nat.le_add_right _ _)] at hstands

end Job

/-! ### A job among others -/

/-- An evaluation ends like another one, as a later heap has it. -/
structure Evaluation.Like (e : Evaluation) (result : Except Failure Value) (printed : String)
    (h : Heap) : Prop where
  printed : printed = e.printed
  result : Both (fun v v' => e.engine.machine.heap.Same v h v') e.result result

namespace Shared

/-- How a job stands on a shared engine, next to the same job on a new engine of its own.  In `start` are
the collections that were there when the last run began, or at its end. -/
inductive Goes (fresh : Engine) (start : Heap) (s : State) : Engine × Job → Job → Prop where
  | asked (source : String) : Goes fresh start s (fresh, .asked source) (.asked source)
  | compiled (program : Program) : Goes fresh start s (fresh, .compiled program) (.compiled program)
  | running {u : State} {d : Nat} (program : Program) (executed : Nat)
      (hd : start.cells.size = fresh.machine.heap.cells.size + d)
      (hm : (Chart.above fresh.machine.heap.cells.size d Set.univ).States u s)
      (hkeeps : fresh.machine.heap.Keeps u.heap) :
      Goes fresh start s ({ fresh with machine := u }, .running program executed) (.running program executed)
  | finished {e : Engine} {result result' : Except Failure Value} (printed : String)
      (hl : Both (fun v v' => e.machine.heap.Same v start v') result result') :
      Goes fresh start s (e, .finished result printed) (.finished result' printed)
  | panicked (e : Engine) : Goes fresh start s (e, .panicked) .panicked

section Goes

variable {fresh : Engine} {start start' : Heap} {s s' : State} {p : Engine × Job} {job : Job}

/-- A job that does not run goes as before when another one has made a step. -/
theorem Goes.later (hg : Goes fresh start s p job) (hidle : job.isRunning = false)
    (hk : start.Keeps start') : Goes fresh start' s' p job := by
  cases hg with
  | asked source => exact .asked source
  | compiled program => exact .compiled program
  | running => cases hidle
  | finished printed hl => exact .finished printed (hl.imp fun _ _ h => h.later hk)
  | panicked e => exact .panicked e

/-- The end of a run. -/
theorem Goes.ended (o o' : Outcome) {d : Nat}
    (hm : (Chart.above fresh.machine.heap.cells.size d Set.univ).States o.state o'.state)
    (hresult : Both ((Chart.above fresh.machine.heap.cells.size d Set.univ).Values o.state.heap.cells.size)
      o.result o'.result) :
    Goes fresh o'.state.heap o'.state (Job.ended fresh o) (Job.ended fresh o').2 := by
  have hboth : Both (fun v v' => o.state.heap.Same v o'.state.heap v') (o.result.mapError Failure.stopped)
      (o'.result.mapError .stopped) := by
    generalize o.result = x, o'.result = x' at hresult
    cases hresult with
    | ok hv => exact .ok (hm.heap.same hm.faithful rfl (fun _ hp => hp.2.1) hv)
    | error f => exact .error _
  unfold Job.ended
  rw [hm.output]
  exact .finished o.state.output hboth

/-- A step of a job on the shared engine, next to its step by itself.  When a run begins or ends, all that
is there counts as having been there before. -/
theorem Goes.step (hown : fresh.environment.own = Environment.noOwn)
    (hsound : fresh.environment.Sound fresh.machine.heap) (hhost : fresh.machine.heap.Keeps start)
    (hkept : start.Keeps s.heap) (hg : Goes fresh start s p job) :
    ∃ start' s' job', job.step { fresh with machine := s } = ({ fresh with machine := s' }, job') ∧
      start.Keeps start' ∧ start'.Keeps s'.heap ∧ Goes fresh start' s' (p.2.step p.1) job' := by
  cases hg with
  | asked source =>
    have hcompile : Engine.compile { fresh with machine := s } source = fresh.compile source := rfl
    dsimp only [Job.step]
    rw [hcompile]
    cases fresh.compile source with
    | ok program => exact ⟨start, s, _, rfl, .refl, hkept, .compiled program⟩
    | error f => exact ⟨start, s, _, rfl, .refl, hkept, .finished "" (.error f)⟩
  | compiled program =>
    obtain ⟨d, hd⟩ := Nat.exists_eq_add_of_le (hhost.trans hkept).size
    -- the run starts with a stack of its own, above what the engine has
    have hstart := Chart.restart_above Set.univ (s := { fresh.machine with output := "" })
      (t := { s with output := "" }) hd rfl
    dsimp only [Job.step]
    split
    · exact ⟨s.heap, _, _, rfl, hkept, .refl, .running program 0 hd hstart .refl⟩
    · exact ⟨s.heap, _, _, rfl, hkept, .refl, .finished "" (.error _)⟩
  | @running u d program executed hd hm hkeeps =>
    -- both machines carry out one instruction, and what they hold corresponds
    have hone := Chart.advance_charted fresh.settings.limits program executed hm
      fun op operand _ => Chart.suits_above hown hsound hkeeps (hhost.trans hkept) (fun _ _ => trivial)
        (fun _ _ _ _ _ => trivial) hm.heap
    dsimp only [Job.step]
    generalize advance fresh.settings.limits fresh.environment program executed u = x,
      advance fresh.settings.limits fresh.environment program executed s = x' at hone
    cases hone with
    | running ht hgt =>
      exact ⟨start, _, _, rfl, .refl, hgt.keeps' (Nat.le_of_eq hd) hkept,
        .running program _ hd ht (hgt.keeps hkeeps)⟩
    | halted ht hgt =>
      obtain ⟨hstates, hresult⟩ := Chart.finish_charted ht
      exact ⟨_, _, _, rfl, hgt.keeps' (Nat.le_of_eq hd) hkept, .refl, Goes.ended _ _ hstates hresult⟩
    | @failed f v v' ht hgt =>
      exact ⟨_, _, _, rfl, hgt.keeps' (Nat.le_of_eq hd) hkept, .refl,
        Goes.ended ⟨.error f, v⟩ ⟨.error f, v'⟩ ht (.error f)⟩
    | panicked ht hgt => exact ⟨_, _, _, rfl, hgt.keeps' (Nat.le_of_eq hd) hkept, .refl, .panicked _⟩
  | finished printed hl => exact ⟨start, s, _, rfl, .refl, hkept, .finished printed hl⟩
  | panicked e => exact ⟨start, s, _, rfl, .refl, hkept, .panicked e⟩

end Goes

/-! ### All jobs -/

/-- What every step preserves: each job goes as it would by itself, with as many steps as it has been its
turn. -/
structure Isolated (fresh : Engine) (jobs : List Job) (turns : Nat → Nat) (start : Heap) (s : Shared) :
    Prop where
  engine : s.engine = { fresh with machine := s.engine.machine }
  host : fresh.machine.heap.Keeps start
  kept : start.Keeps s.engine.machine.heap
  length : s.jobs.length = jobs.length
  goes : ∀ (i : Nat) t t', jobs[i]? = some t → s.jobs[i]? = some t' →
    Goes fresh start s.engine.machine (t.alone fresh (turns i)) t'

/-- The values that the host can get at: those of its bindings, and those that evaluations gave. -/
def Holds (s : Shared) (v : Value) : Prop :=
  (∃ name binding, s.engine.environment.get? name = some binding ∧ v = binding.value) ∨
    ∃ (i : Nat) (printed : String), s.jobs[i]? = some (.finished (.ok v) printed)

section Isolated

variable {fresh : Engine} {jobs : List Job} {turns : Nat → Nat} {start : Heap} {s : Shared} {t t' : Job}

theorem isRunning_of_isFree {i j : Nat} (hfree : s.isFree i = true) (hj : s.jobs[j]? = some t) (hne : j ≠ i) :
    t.isRunning = false := by
  have hmem : t ∈ s.jobs.eraseIdx i := List.mem_eraseIdx_iff_getElem?.2 ⟨j, hne, hj⟩
  simpa using List.all_eq_true.1 hfree t hmem

theorem Isolated.step (hown : fresh.environment.own = Environment.noOwn)
    (hsound : fresh.environment.Sound fresh.machine.heap) (hi : Isolated fresh jobs turns start s) (j : Nat) :
    ∃ start', start.Keeps start' ∧
      Isolated fresh jobs (fun i => turns i + if j = i ∧ s.isFree i then 1 else 0) start' (s.step j) := by
  unfold Shared.step
  cases hs : s.jobs[j]? with
  | none =>
    refine ⟨start, .refl, hi.engine, hi.host, hi.kept, hi.length, fun i t t' ht ht' => ?_⟩
    rw [if_neg, Nat.add_zero]
    · exact hi.goes i t t' ht ht'
    · rintro ⟨rfl, -⟩
      rw [hs] at ht'
      cases ht'
  | some job =>
    dsimp only
    split
    · next hfree =>
      have hlt : j < jobs.length := hi.length ▸ (List.getElem?_eq_some_iff.1 hs).1
      obtain ⟨start', u, job', hstep, hk, hk', hgoes⟩ :=
        (hi.goes j _ job (List.getElem?_eq_getElem hlt) hs).step hown hsound hi.host hi.kept
      rw [hi.engine, hstep]
      refine ⟨start', hk, rfl, hi.host.trans hk, hk', by rw [List.length_set, hi.length], fun i t t' ht ht' => ?_⟩
      -- only the job whose turn it is moves
      by_cases hij : j = i
      · subst hij
        rw [List.getElem?_set_self (hi.length ▸ hlt)] at ht'
        obtain rfl := Option.some.inj ht'
        obtain rfl := Option.some.inj ((List.getElem?_eq_getElem hlt).symm.trans ht)
        rw [if_pos ⟨rfl, hfree⟩]
        exact hgoes
      · -- the other jobs wait, or have ended
        rw [List.getElem?_set_ne hij] at ht'
        rw [if_neg fun h => hij h.1, Nat.add_zero]
        exact (hi.goes i t t' ht ht').later (isRunning_of_isFree hfree ht' (Ne.symm hij)) hk
    · next hfree =>
      refine ⟨start, .refl, hi.engine, hi.host, hi.kept, hi.length, fun i t t' ht ht' => ?_⟩
      rw [if_neg, Nat.add_zero]
      · exact hi.goes i t t' ht ht'
      · rintro ⟨rfl, hfree'⟩
        exact hfree hfree'

theorem Isolated.run (hown : fresh.environment.own = Environment.noOwn)
    (hsound : fresh.environment.Sound fresh.machine.heap) (schedule : List Nat)
    (hi : Isolated fresh jobs turns start s) :
    ∃ start', start.Keeps start' ∧
      Isolated fresh jobs (fun i => turns i + s.turns i schedule) start' (s.run schedule) := by
  induction schedule generalizing turns start s with
  | nil => exact ⟨start, .refl, hi⟩
  | cons j schedule ih =>
    obtain ⟨mid, hk, hmid⟩ := hi.step hown hsound j
    obtain ⟨start', hk', hend⟩ := ih hmid
    refine ⟨start', hk.trans hk', ?_⟩
    simp only [Nat.add_assoc] at hend
    exact hend

theorem Isolated.begin (hnew : ∀ t ∈ jobs, t.lead ≠ 0) :
    Isolated fresh jobs (fun _ => 0) fresh.machine.heap ⟨fresh, jobs⟩ := by
  refine ⟨rfl, .refl, .refl, rfl, fun i t t' ht ht' => ?_⟩
  obtain rfl := Option.some.inj (ht.symm.trans ht')
  have hlead := hnew t (List.mem_of_getElem? ht)
  cases t with
  | asked source => exact .asked source
  | compiled program => exact .compiled program
  | _ => exact absurd rfl hlead

/-- What the host can get at was there before the run that may be going on. -/
theorem Isolated.reaches_lt (hsound : fresh.environment.Sound fresh.machine.heap)
    (hi : Isolated fresh jobs turns start s) {v : Value} (hv : s.Holds v) {shape : Shape} {r : Ref}
    (hr : s.engine.machine.heap.Reaches v shape r) : r < start.cells.size := by
  rcases hv with ⟨name, binding, hb, rfl⟩ | ⟨i, printed, hs⟩
  · rw [hi.engine] at hb
    have hreached : ∀ shape r, fresh.machine.heap.Reaches binding.value shape r →
        r < fresh.machine.heap.cells.size := fun shape r hr => hsound (shape, r) ⟨name, binding, hb, hr⟩
    have hr := hr.of_same fun shape r hr => (hi.host.trans hi.kept).stored (hreached shape r hr)
    exact Nat.lt_of_lt_of_le (hreached shape r hr) hi.host.size
  · have hlt : i < jobs.length := hi.length ▸ (List.getElem?_eq_some_iff.1 hs).1
    have hg := hi.goes i _ _ (List.getElem?_eq_getElem hlt) hs
    generalize Job.alone fresh jobs[i] (turns i) = p at hg
    cases hg with
    | finished _ hl =>
      cases hl with
      | ok hsame => exact hsame.reaches_lt (hr.of_same fun shape r hr => hi.kept.stored (hsame.reaches_lt hr))

end Isolated

/-- What can be reached from a value that the host can get at is in the heap, and stays as it is
whatever the jobs do next. -/
def Preserves (s : Shared) : Prop :=
  ∀ v shape r, s.Holds v → s.engine.machine.heap.Reaches v shape r →
    ∃ c, s.engine.machine.heap.cells[r]? = some c ∧
      ∀ later, (s.run later).engine.machine.heap.cells[r]? = some c

/-- The job in a place goes like the job `t` on a new engine, when it has been its turn so often: it comes
to the same result, or to none, and then it has printed the same so far. -/
structure GoesLike (s : Shared) (fresh : Engine) (i : Nat) (t : Job) (turns : Nat) : Prop where
  finished : ∀ result printed, s.jobs[i]? = some (.finished result printed) →
    ∃ count r, t.evaluate fresh count = .done r ∧ r.Like result printed s.engine.machine.heap
  panicked : s.jobs[i]? = some .panicked → ∃ count, t.evaluate fresh count = .panicked
  running : ∀ program executed, s.jobs[i]? = some (.running program executed) →
    ∃ e, t.alone fresh turns = (e, .running program executed) ∧ e.machine.output = s.engine.machine.output
  ends : ∀ count r, t.evaluate fresh count = .done r → count + t.lead ≤ turns →
    ∃ result printed, s.jobs[i]? = some (.finished result printed)
  panics : ∀ count, t.evaluate fresh count = .panicked → count + t.lead ≤ turns →
    s.jobs[i]? = some .panicked

theorem Isolated.goesLike {fresh : Engine} {jobs : List Job} {turns : Nat → Nat} {start : Heap} {s : Shared}
    (hi : Isolated fresh jobs turns start s) {i : Nat} {t : Job} (ht : jobs[i]? = some t) (hnew : t.lead ≠ 0) :
    s.GoesLike fresh i t (turns i) := by
  obtain ⟨t', ht'⟩ : ∃ t', s.jobs[i]? = some t' :=
    ⟨_, List.getElem?_eq_getElem (hi.length ▸ (List.getElem?_eq_some_iff.1 ht).1)⟩
  have hg := hi.goes i t t' ht ht'
  have hover := Job.evaluate_of_over (e := fresh) (n := turns i) hnew
  constructor
  · intro result printed hs
    obtain rfl := Option.some.inj (ht'.symm.trans hs)
    generalize t.alone fresh (turns i) = p at hg hover
    cases hg with
    | finished _ hl =>
      have hstands := hover rfl
      generalize hr : t.evaluate fresh (turns i) = x at hstands
      cases hstands with
      | done r => exact ⟨turns i, r, hr, rfl, hl.imp fun _ _ h => h.later hi.kept⟩
  · intro hs
    obtain rfl := Option.some.inj (ht'.symm.trans hs)
    generalize t.alone fresh (turns i) = p at hg hover
    cases hg with
    | panicked e =>
      have hstands := hover rfl
      generalize hr : t.evaluate fresh (turns i) = x at hstands
      cases hstands with
      | panicked => exact ⟨turns i, hr⟩
  · intro program executed hs
    obtain rfl := Option.some.inj (ht'.symm.trans hs)
    generalize t.alone fresh (turns i) = p at hg
    cases hg with
    | running _ _ hd hm hkeeps => exact ⟨_, rfl, hm.output.symm⟩
  · -- alone the job has come to its end by now
    intro count r hr hle
    rw [Job.alone_of_done hnew hr hle] at hg
    generalize r.engine = e at hg
    cases hg with
    | finished => exact ⟨_, _, ht'⟩
  · intro count hr hle
    obtain ⟨e, he⟩ := Job.alone_of_panicked hnew hr hle
    rw [he] at hg
    cases hg with
    | panicked => exact ht'

/-- **Jobs that share an engine are isolated from each other.**  However their steps come, nothing that
the host can get at changes any more, and each job goes as it would go on a new engine with the same
bindings and settings. -/
theorem jobs_isolated {environment : Environment} {heap : Heap} (settings : Settings)
    (hown : environment.own = Environment.noOwn) (hsound : environment.Sound heap) {jobs : List Job}
    (hnew : ∀ t ∈ jobs, t.lead ≠ 0) (schedule : List Nat) :
    let fresh : Engine := ⟨environment, settings, .initial heap⟩
    let s : Shared := Shared.run ⟨fresh, jobs⟩ schedule
    s.Preserves ∧ ∀ (i : Nat) t, jobs[i]? = some t →
      s.GoesLike fresh i t (Shared.turns ⟨fresh, jobs⟩ i schedule) := by
  intro fresh s
  have hfresh : fresh.environment.Sound fresh.machine.heap := hsound
  obtain ⟨start, -, hi⟩ := (@Isolated.begin fresh jobs hnew).run hown hfresh schedule
  refine ⟨fun v shape r hv hr => ?_, fun i t ht => ?_⟩
  · have hlt := hi.reaches_lt hfresh hv hr
    refine ⟨_, Heap.getElem?_eq_cell (Nat.lt_of_lt_of_le hlt hi.kept.size), fun later => ?_⟩
    obtain ⟨start', hk, hlater⟩ := hi.run hown hfresh later
    rw [(hk.trans hlater.kept).cells r hlt, ← hi.kept.cells r hlt,
      Heap.getElem?_eq_cell (Nat.lt_of_lt_of_le hlt hi.kept.size)]
  · have hgoes := hi.goesLike ht (hnew t (List.mem_of_getElem? ht))
    rwa [Nat.zero_add] at hgoes

/-- A heap with a list that contains itself. -/
def knot : Heap := ⟨#[.items #[.ref .list 0, .int 3]], 1⟩

/-- A host that gives programs the list, and a function that adds to lists. -/
def knotted : Environment :=
  { Environment.empty with bindings :=
    [("data", ⟨.constant, "array", .ref .list 0⟩),
      ("push", ⟨.function, "function", .host ⟨0, "push", some 2, some .push⟩⟩)] }

theorem knotted_sound : knotted.Sound knot := by
  rintro ⟨shape, r⟩ ⟨name, binding, hb, hr⟩
  suffices hin : (shape, r) ∈ {p : Shape × Ref | p.2 = 0} by
    rw [show r = 0 from hin]
    exact Nat.zero_lt_one
  refine hr.inside (fun shape r hr => ?_) ?_
  · obtain rfl : r = 0 := hr
    intro v hv
    have hv : v ∈ (knot.cell 0).values := knot.stored_subset shape 0 v hv
    obtain rfl | rfl : v = .ref .list 0 ∨ v = .int 3 := by simpa [knot, Heap.cell, Cell.values] using hv
    · exact Value.inside_ref.2 rfl
    · exact Value.inside_of_isScalar rfl
  · have hmem := mem_of_lookup hb
    simp only [knotted, List.mem_cons, Prod.mk.injEq, List.not_mem_nil, or_false] at hmem
    rcases hmem with ⟨-, rfl⟩ | ⟨-, rfl⟩
    · exact Value.inside_ref.2 rfl
    · exact Value.inside_of_isScalar rfl

/-- The host, and two jobs: one adds the list to its copy of the list, the other reads the list. -/
def knotJobs : Shared :=
  ⟨⟨knotted, .standard, .initial knot⟩, [.asked "push(data, data);", .asked "data;"]⟩

/-- The first job runs between the steps of the second, which is called in vain meanwhile. -/
theorem knot_isolated : ∃ s : Shared, s = knotJobs.run ([1, 0, 0, 0, 1, 0, 0, 0, 0, 0, 0] ++ List.replicate 6 1) ∧
    s.Preserves ∧ ∃ result printed count r, s.jobs[1]? = some (.finished result printed) ∧
      knotJobs.engine.eval "data;" count = .done r ∧ r.Like result printed s.engine.machine.heap := by
  have hnew : ∀ t ∈ knotJobs.jobs, t.lead ≠ 0 := by decide
  obtain ⟨hpreserves, hgoes⟩ := jobs_isolated .standard (rfl : knotted.own = Environment.noOwn) knotted_sound hnew
    ([1, 0, 0, 0, 1, 0, 0, 0, 0, 0, 0] ++ List.replicate 6 1)
  have hgoes := hgoes 1 (.asked "data;") rfl
  obtain ⟨r, hr⟩ : ∃ r, ((Job.asked "data;").evaluate knotJobs.engine 4).done? = some r :=
    Option.isSome_iff_exists.1 (by decide +kernel)
  obtain ⟨result, printed, hs⟩ := hgoes.ends 4 r (Attempt.eq_done hr) (by decide +kernel)
  obtain ⟨count, r, hr, hlike⟩ := hgoes.finished result printed hs
  exact ⟨_, rfl, hpreserves, result, printed, count, r, hs, hr, hlike⟩

end Shared

end StackScript
