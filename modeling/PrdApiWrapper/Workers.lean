import PrdApiWrapper.Provenance

/-!
# Several workers, and restarts

The breaker and the limiter live in a process, the tables outlive it. So a deployment is any number
of workers, with a breaker and a limiter each, over the same tables. A worker that dies is one whose
requests take no further step; the one that is started in its place has taken none yet, and a
restart is both.

Whoever inserts a row is the only one who ever writes to it (`written_by_one`), whichever worker
the others run in. So a background job is as mortal as the worker it runs in: what it has not
written when its worker dies is never written (`left_behind`).
-/

namespace PrdApiWrapper

open Interaction

/-- The workers, and the tables they share. -/
structure Workers where
  /-- the monotonic clock of the machine -/
  now : ℚ
  breaker : ℕ → CircuitBreaker
  limiter : ℕ → InMemoryRateLimiter
  jobs : JobTable
  usage : List UsageEntry
  /-- the ids `secrets.token_hex` has produced, in any worker -/
  issued : List String

namespace Workers

/-- Workers just started, each with settings of its own, and nothing stored. -/
def start (settings : ℕ → Settings) (now : ℚ) : Workers where
  now := now
  breaker p := (World.start (settings p) now).breaker
  limiter p := (World.start (settings p) now).limiter
  jobs := fun _ => none
  usage := []
  issued := []

/-- The world that worker `p` runs in. -/
def world (ws : Workers) (p : ℕ) : World where
  now := ws.now
  breaker := ws.breaker p
  limiter := ws.limiter p
  jobs := ws.jobs
  usage := ws.usage
  issued := ws.issued

/-- What all workers find once the world of worker `p` has become `w`. -/
def after (ws : Workers) (p : ℕ) (w : World) : Workers where
  now := w.now
  breaker := Function.update ws.breaker p w.breaker
  limiter := Function.update ws.limiter p w.limiter
  jobs := w.jobs
  usage := w.usage
  issued := w.issued

@[simp] theorem world_after (ws : Workers) (p : ℕ) (w : World) : (ws.after p w).world p = w := by
  simp only [world, after, Function.update_self]

end Workers

/-- A request is answered in the world of the worker that serves it, `home t` for request `t`. -/
def workers (home : ℕ → ℕ) : Semantics Service Workers where
  step ws t op r ws' := ∃ w, world.step (ws.world (home t)) t op r w ∧ ws' = ws.after (home t) w

/-- A request to a worker with these settings, after authentication. -/
def attend (env : Environment) (request : Settings × Route × Caller) : Prog Service Unit :=
  serve env request.1 request.2.1 request.2.2

variable {env : Environment} {home : ℕ → ℕ} {ws ws' : Workers}
  {log : List (Entry Service Workers)}

/-- A step of the workers is a step of the world of one of them. -/
theorem workers_step {t : ℕ} {op : Op} {r : Service.Reply op}
    (h : (workers home).step ws t op r ws') :
    world.step (ws.world (home t)) t op r (ws'.world (home t)) := by
  obtain ⟨w, hstep, rfl⟩ := h
  rwa [Workers.world_after]

/-- A poll is answered from the tables. -/
theorem workers_poll {en : Entry Service Workers}
    (hstep : (workers home).step en.before en.task en.op en.reply en.after) {id caller : String}
    {view : Option JobView} (hevent : en.event = ⟨.getJob id caller, .ok view⟩) :
    view = en.before.jobs.get id caller := by
  obtain ⟨t, ws, op, r, ws'⟩ := en
  obtain ⟨rfl, hreply⟩ := Event.mk.inj hevent
  obtain rfl := eq_of_heq hreply
  obtain ⟨now, -, hanswers, -⟩ := workers_step hstep
  exact hanswers view rfl

/-! ## The rows of all workers -/

/-- The ledger is that of the tables, whichever worker looks at them. -/
theorem Ledger.elsewhere {φ : Phases Phase} {p : ℕ} (h : Ledger (ws.world p) φ) (p' : ℕ) :
    Ledger (ws.world p') φ :=
  h.unchanged rfl rfl

/-- **The history of all rows, in any worker.** -/
theorem workers_rows {settings : ℕ → Settings} {t₀ : ℚ}
    {tasks : List (Task (Settings × Route × Caller) Service Unit)}
    (h : Run (workers home) (attend env) (.start settings t₀) log ws tasks) :
    ∀ en ∈ log, (∃ owner, ∀ id, RowStep owner en.op id (en.before.jobs id) (en.after.jobs id)) ∧
      Done en.event en.before.jobs en.after.jobs := by
  obtain ⟨_, _, _, _, hentries⟩ := h.ghost
    (fun request : Settings × Route × Caller => lifecycle request.2.2.id) (fun _ _ _ => True) .idle
    (fun ws φ => ∀ p, Ledger (ws.world p) φ)
    (fun request en =>
      (∀ id, RowStep request.2.2.id en.op id (en.before.jobs id) (en.after.jobs id)) ∧
        Done en.event en.before.jobs en.after.jobs)
    (fun p => Ledger.start (settings p) t₀)
    (fun request => wp_serve_lifecycle env request.1 request.2.1 request.2.2)
    fun request ws φ t op r ws' hledger hallows hstep => by
      have hseen := workers_step hstep
      obtain ⟨-, phase, hnext, hledger'⟩ := ledger_step (hledger (home t)) hallows hseen
      exact ⟨ledger_rows (hledger (home t)) hallows hseen, phase, hnext, hledger'.elsewhere⟩
  intro en hen
  obtain ⟨task, -, hrows, hdone⟩ := hentries en hen
  exact ⟨⟨_, hrows⟩, hdone⟩

/-! ## One writer for each row -/

/-- A request inserts and updates only under an id it was given. -/
def OwnRow (trace : List (Event Service)) : Op → Prop
  | .createJob job => ⟨.tokenHex, job.id⟩ ∈ trace
  | .updateJob id _ => ⟨.tokenHex, id⟩ ∈ trace
  | _ => True

/-- A request knows of no row but under the id it had, or was just given. -/
theorem lifecycle_next {owner : String} {phase : Phase} {op : Op}
    (hallows : (lifecycle owner).allows phase op) (r : Service.Reply op) :
    ∃ phase', (lifecycle owner).next phase op r phase' ∧
      ∀ id, phase'.id = some id →
        phase.id = some id ∨ (⟨op, r⟩ : Event Service) = ⟨.tokenHex, id⟩ := by
  cases op with
  | tokenHex =>
    refine ⟨.named r, rfl, fun id hid => .inr ?_⟩
    obtain rfl := Option.some.inj hid
    rfl
  | createJob job =>
    obtain ⟨rfl, -, -⟩ := hallows
    rcases r with name | ⟨⟩
    · exact ⟨.lost, rfl, nofun⟩
    · exact ⟨_, rfl, fun id hid => .inl hid⟩
  | updateJob id fields =>
    obtain ⟨status, status', rfl, hupdate⟩ := hallows
    rcases r with name | ⟨⟩
    · exact ⟨.lost, rfl, nofun⟩
    · exact ⟨_, ⟨status, status', rfl, hupdate, rfl⟩, fun id hid => .inl hid⟩
  | _ => exact ⟨phase, rfl, fun id hid => .inl hid⟩

/-- **Every request writes to its own row.** -/
theorem serve_ownRow (env : Environment) (settings : Settings) (route : Route) (caller : Caller) :
    (serve env settings route caller).wp (Protocol.guarded OwnRow) (fun _ _ => True) [] := by
  refine Prog.wp_mono (fun _ _ _ => trivial) (Prog.wp_refine
    (R := fun phase trace => ∀ id, phase.id = some id → ⟨.tokenHex, id⟩ ∈ trace) ?_
    (wp_serve_lifecycle env settings route caller) nofun)
  intro op phase trace hallows hnamed
  refine ⟨?_, ?_⟩
  · cases op with
    | createJob job => exact hnamed _ (by rw [hallows.1]; rfl)
    | updateJob id fields =>
      obtain ⟨status, status', rfl, -⟩ := hallows
      exact hnamed id rfl
    | _ => trivial
  · rintro r _ rfl
    obtain ⟨phase', hnext, hid⟩ := lifecycle_next hallows r
    refine ⟨phase', hnext, fun id hid' => ?_⟩
    rcases hid id hid' with hbefore | hgiven
    · exact List.mem_append_left _ (hnamed id hbefore)
    · rw [hgiven]
      exact List.mem_concat_self

/-- What a step does to the ids: it gives a new one, or none. -/
theorem workers_issued {en : Entry Service Workers}
    (h : (workers home).step en.before en.task en.op en.reply en.after) :
    (∃ id, en.event = ⟨.tokenHex, id⟩ ∧ id ∉ en.before.issued ∧
      en.after.issued = id :: en.before.issued) ∨
    en.op ≠ .tokenHex ∧ en.after.issued = en.before.issued := by
  obtain ⟨t, ws, op, r, ws'⟩ := en
  obtain ⟨now, -, hanswers⟩ := workers_step h
  by_cases htoken : op = .tokenHex
  · subst htoken
    obtain ⟨hfresh, hafter⟩ := hanswers
    exact .inl ⟨r, rfl, hfresh, congrArg World.issued hafter⟩
  · exact .inr ⟨htoken, (World.answers_leaves hanswers).issued htoken⟩

/-- **An id is given to one request only.** -/
theorem given_once {ws₀ : Workers} (h : Chained (workers home) ws₀ log ws) {id : String} :
    (∀ en ∈ log, en.event = ⟨.tokenHex, id⟩ → id ∈ ws.issued) ∧
      ∀ en ∈ log, ∀ en' ∈ log, en.event = ⟨.tokenHex, id⟩ → en'.event = ⟨.tokenHex, id⟩ →
        en.task = en'.task := by
  induction h with
  | nil => simp
  | @snoc ws log last _ hbefore hstep ih =>
    subst hbefore
    obtain ⟨hissued, honce⟩ := ih
    -- the last id was new, so no entry before gave it
    have hlast : last.event = ⟨.tokenHex, id⟩ →
        id ∈ last.after.issued ∧ ∀ en ∈ log, en.event ≠ ⟨.tokenHex, id⟩ := by
      intro hevent
      rcases workers_issued hstep with ⟨id', hevent', hfresh, hafter⟩ | ⟨hop, -⟩
      · obtain rfl : id' = id := eq_of_heq (Event.mk.inj (hevent'.symm.trans hevent)).2
        refine ⟨hafter ▸ List.mem_cons_self, fun en hen hgave => hfresh (hissued en hen hgave)⟩
      · exact absurd (congrArg Event.op hevent) hop
    have hgrows : id ∈ last.before.issued → id ∈ last.after.issued := by
      intro hmem
      rcases workers_issued hstep with ⟨id', -, -, hafter⟩ | ⟨-, hafter⟩ <;> rw [hafter]
      · exact List.mem_cons_of_mem _ hmem
      · exact hmem
    refine ⟨fun en hen hevent => ?_, fun en hen en' hen' hevent hevent' => ?_⟩
    · rcases List.mem_append.mp hen with hen | hen
      · exact hgrows (hissued en hen hevent)
      · obtain rfl := List.mem_singleton.mp hen
        exact (hlast hevent).1
    · rcases List.mem_append.mp hen with hold | hnew <;>
        rcases List.mem_append.mp hen' with hold' | hnew'
      · exact honce en hold en' hold' hevent hevent'
      · obtain rfl := List.mem_singleton.mp hnew'
        exact absurd hevent ((hlast hevent').2 en hold)
      · obtain rfl := List.mem_singleton.mp hnew
        exact absurd hevent' ((hlast hevent).2 en' hold')
      · rw [List.mem_singleton.mp hnew, List.mem_singleton.mp hnew']

/-- What writes to the row with this id. -/
inductive WritesTo (id : String) : Op → Prop where
  | insert (job : NewJob) : job.id = id → WritesTo id (.createJob job)
  | update (fields : List JobField) : WritesTo id (.updateJob id fields)

section

variable {settings : ℕ → Settings} {t₀ : ℚ}
  {tasks : List (Task (Settings × Route × Caller) Service Unit)}
  (h : Run (workers home) (attend env) (.start settings t₀) log ws tasks)

include h

/-- What writes to a row was given its id. -/
theorem writes_named {en : Entry Service Workers} (hen : en ∈ log) {id : String}
    (hwrites : WritesTo id en.op) :
    ∃ en' ∈ log, en'.task = en.task ∧ en'.event = ⟨.tokenHex, id⟩ := by
  obtain ⟨earlier, later, rfl⟩ := List.append_of_mem hen
  obtain ⟨task, -, hown⟩ := h.guard (fun request : Settings × Route × Caller =>
    serve_ownRow env request.1 request.2.1 request.2.2) rfl
  have hmem : ⟨.tokenHex, id⟩ ∈ ownTrace en.task earlier := by
    generalize en.op = op at hwrites hown
    cases hwrites with
    | insert job hid =>
      subst hid
      exact hown
    | update fields => exact hown
  obtain ⟨en', hen', htask, hevent⟩ := mem_ownTrace.mp hmem
  exact ⟨en', List.mem_append_left _ hen', htask, hevent⟩

/-- **Each row has one writer**, whichever workers there are. -/
theorem written_by_one {en en' : Entry Service Workers} (hen : en ∈ log) (hen' : en' ∈ log)
    {id : String} (hwrites : WritesTo id en.op) (hwrites' : WritesTo id en'.op) :
    en.task = en'.task := by
  obtain ⟨given, hgiven, htask, hevent⟩ := writes_named h hen hwrites
  obtain ⟨given', hgiven', htask', hevent'⟩ := writes_named h hen' hwrites'
  rw [← htask, ← htask']
  exact (given_once h.chained).2 given hgiven given' hgiven' hevent hevent'

/-- A row that is not written to is not changed. -/
theorem row_changes {en : Entry Service Workers} (hen : en ∈ log) {id : String}
    (hnot : ¬ WritesTo id en.op) : en.after.jobs id = en.before.jobs id := by
  obtain ⟨⟨owner, hrows⟩, -⟩ := workers_rows h en hen
  generalize hbefore : en.before.jobs id = before at *
  have hrow := hrows id
  rw [hbefore] at hrow
  generalize en.after.jobs id = after at *
  cases hrow with
  | same => rfl
  | insert job now hop hid => exact absurd (hop ▸ .insert job hid) hnot
  | update row fields status' hop => exact absurd (hop ▸ .update fields) hnot

/-- A row whose insert was reported as done is found by its caller ever after. -/
theorem inserted_found {en : Entry Service Workers} (hen : en ∈ log) {job : NewJob}
    (hevent : en.event = ⟨.createJob job, .ok ()⟩) :
    (ws.jobs.get job.id job.apiKeyId).isSome := by
  refine JobTable.get_isSome.mpr (h.chained.ever_after
    (fun ws => ∃ row, ws.jobs job.id = some row ∧ row.apiKeyId = job.apiKeyId) ?_ en hen ?_)
  · rintro later hlater ⟨row, hrow, howner⟩
    obtain ⟨⟨owner, hrows⟩, -⟩ := workers_rows h later hlater
    have hstep := hrows job.id
    rw [hrow] at hstep
    obtain ⟨row', hrow', hakin⟩ := hstep.akin
    exact ⟨row', hrow', hakin.apiKeyId.trans howner⟩
  · obtain ⟨now, hrow⟩ := (workers_rows h en hen).2.1 job hevent
    exact ⟨_, hrow, rfl⟩

/-- A POST to a callback tells of a row that its own request writes to. -/
theorem callback_own {en : Entry Service Workers} (hen : en ∈ log) {post : CallbackPost}
    (hop : en.op = .callback post) :
    ∃ result, post.content = encode (env.dumpJson result) ∧
      ∃ en' ∈ log, en'.task = en.task ∧ WritesTo result.jobId en'.op := by
  obtain ⟨earlier, later, rfl⟩ := List.append_of_mem hen
  obtain ⟨task, -, hevidence⟩ := h.guard (fun request : Settings × Route × Caller =>
    serve_evidence env request.1 request.2) rfl
  rw [hop] at hevidence
  obtain ⟨payload, result, timestamp, -, hwritten, rfl⟩ := hevidence
  obtain ⟨model, hinserted⟩ := hwritten.inserted
  obtain ⟨en', hen', htask, hevent⟩ := mem_ownTrace.mp hinserted
  refine ⟨result, rfl, en', List.mem_append_left _ hen', htask, ?_⟩
  have hop' : en'.op = .createJob _ := congrArg Event.op hevent
  rw [hop']
  exact .insert _ rfl

end

end PrdApiWrapper
