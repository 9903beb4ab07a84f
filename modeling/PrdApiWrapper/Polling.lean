import PrdApiWrapper.RowHistory
import Mathlib.Logic.Relation

/-!
# What a client sees of a job

A client only sees answers: the 202 with an id, then what its polls come to. Requests overlap, and
any of them can fail, but answers must not contradict each other in real time: a poll that begins
after an answer was given must know what that answer said. `polls_consistent` says so for every
run: the job is found, by this client and no other, it is the same job, its status has only moved
on, and a result that was once shown is shown again.

A poll reads the table once (`AnswersRead`), and between two readings a row only becomes what
`Job.Becomes` says.
-/

namespace PrdApiWrapper

open Interaction

/-! ## What a row becomes -/

/-- What a row can become in any number of steps. -/
structure Job.Becomes (job job' : Job) : Prop where
  id : job'.id = job.id
  apiKeyId : job'.apiKeyId = job.apiKeyId
  createdAt : job'.createdAt = job.createdAt
  status : Relation.ReflTransGen JobStatus.Moves job.status job'.status
  result : job.status.isFinal = true → job'.result = job.result

theorem Job.Becomes.refl (job : Job) : job.Becomes job := ⟨rfl, rfl, rfl, .refl, fun _ => rfl⟩

theorem Job.Becomes.trans {job job' job'' : Job} (h : job.Becomes job')
    (h' : job'.Becomes job'') : job.Becomes job'' where
  id := h'.id.trans h.id
  apiKeyId := h'.apiKeyId.trans h.apiKeyId
  createdAt := h'.createdAt.trans h.createdAt
  status := h.status.trans h'.status
  result hfinal := by
    have hresult := h.result hfinal
    have hfinal' : job'.status.isFinal = true :=
      (congrArg (fun result => result.status.isFinal) hresult).trans hfinal
    exact (h'.result hfinal').trans hresult

/-- A step of a row is one of what it can become. -/
theorem RowStep.becomes {owner : String} {op : Op} {id : String} {row : Job} {after : Option Job}
    (h : RowStep owner op id (some row) after) : ∃ row', after = some row' ∧ row.Becomes row' := by
  obtain ⟨row', hafter, -⟩ := h.akin
  refine ⟨row', hafter, ?_⟩
  have hresult : row.status.isFinal = true → row'.result = row.result := by
    intro hfinal
    obtain ⟨row'', hafter', hsame, -⟩ := h.keeps_result hfinal
    obtain rfl := Option.some.inj (hafter.symm.trans hafter')
    exact hsame
  subst hafter
  cases h with
  | same => exact .refl row
  | update _ fields status' _ _ hconsistent hupdate =>
    obtain ⟨hstatus, hfollows, -⟩ := hupdate.spec rfl hconsistent
    refine ⟨hfollows.id, hfollows.apiKeyId, ?_, ?_, hresult⟩
    · generalize row.status = status at hupdate
      cases hupdate <;> rfl
    · rcases hfollows.status with hsame | hmoves
      · rw [hsame]
      · exact .single hmoves

/-- What a view says is what later views of the job say too. -/
structure JobView.LeadsTo (view view' : JobView) : Prop where
  id : view'.id = view.id
  createdAt : view'.createdAt = view.createdAt
  /-- the status only moves on -/
  status : Relation.ReflTransGen JobStatus.Moves view.status view'.status
  /-- a result stays -/
  settled : view.status.isFinal = true → view'.status = view.status ∧ view'.model = view.model ∧
    view'.content = view.content ∧ view'.errorCode = view.errorCode ∧
    view'.errorMessage = view.errorMessage

theorem Job.Becomes.toView {job job' : Job} (h : job.Becomes job') :
    job.toView.LeadsTo job'.toView where
  id := h.id
  createdAt := h.createdAt
  status := h.status
  settled hfinal := by
    have hresult := h.result hfinal
    exact ⟨congrArg JobResult.status hresult, congrArg JobResult.model hresult,
      congrArg JobResult.content hresult, congrArg JobResult.errorCode hresult,
      congrArg JobResult.errorMessage hresult⟩

/-! ## Polls -/

/-- The answer to a poll that finds this. -/
def pollReply (lib : Libraries) : Except String (Option JobView) → HttpReply
  | .ok (some view) =>
    if (ReplyBody.view view).renders lib then ⟨200, [], .view view⟩ else unhandledReply []
  | .ok none => errorReply lib [] (.app (.new .jobNotFound))
  | .error _ => unhandledReply []

/-- What a poll is answered of is what was found. -/
theorem pollReply_view {lib : Libraries} {found : Except String (Option JobView)} {view : JobView}
    (h : (pollReply lib found).body = .view view) : found = .ok (some view) := by
  rcases found with name | (_ | view')
  · cases h
  · obtain ⟨code, message, details, hbody⟩ :=
      errorReply_body lib [] (.app (.new .jobNotFound))
    rw [pollReply, hbody] at h
    cases h
  · rw [pollReply] at h
    split at h
    · cases h
      rfl
    · cases h

/-- A poll answers with what it has read. -/
def AnswersRead (lib : Libraries) (request : Route × Caller) (trace : List (Event Service)) :
    Op → Prop
  | .respond reply => ∀ id, request.1 = .show id →
    ∃ found, ⟨.getJob id request.2.id, found⟩ ∈ trace ∧ reply = pollReply lib found
  | _ => True

/-- What `show` comes to is what was read. -/
theorem show_answersRead (env : Environment) (settings : Settings) (id : String) (caller : Caller) :
    Async.awp (Protocol.guarded (AnswersRead env.toLibraries (.show id, caller)))
      (endpoint env settings caller (.show id) >>= serialized env.toLibraries)
      (fun answer trace => answer.background = pure () ∧
        ∃ found, ⟨.getJob id caller.id, found⟩ ∈ trace ∧
          ⟨answer.statusCode, [], answer.body⟩ = pollReply env.toLibraries found)
      (fun exc trace => ∃ found, ⟨.getJob id caller.id, found⟩ ∈ trace ∧
        errorReply env.toLibraries [] exc = pollReply env.toLibraries found) [] := by
  refine awp_endpoint_serialized ?_
  simp only [endpoint, JobService.get, jobsOf, stored, Async.awp_bind, Async.awp_mk,
    Async.awp_pure, Prog.wp_map]
  refine ⟨trivial, ?_⟩
  rintro (name | (_ | view)) _ rfl
  · exact ⟨.error name, List.mem_cons_self, rfl⟩
  · exact ⟨.ok none, List.mem_cons_self, rfl⟩
  · by_cases hrenders : (ReplyBody.view view).renders env.toLibraries = true
    · refine (if_pos hrenders).mpr ⟨trivial, .ok (some view), List.mem_cons_self, ?_⟩
      exact (if_pos hrenders).symm
    · refine (if_neg hrenders).mpr ⟨.ok (some view), List.mem_cons_self, ?_⟩
      exact (if_neg hrenders).symm

theorem serve_answersRead (env : Environment) (settings : Settings) (request : Route × Caller) :
    (serve env settings request.1 request.2).wp
      (Protocol.guarded (AnswersRead env.toLibraries request)) (fun _ _ => True) [] := by
  by_cases hshow : ∃ id, request.1 = .show id
  · obtain ⟨route, caller⟩ := request
    obtain ⟨id, rfl⟩ := hshow
    have hanswer : ∀ reply trace, (∃ found, ⟨.getJob id caller.id, found⟩ ∈ trace ∧
        reply = pollReply env.toLibraries found) →
        AnswersRead env.toLibraries (.show id, caller) trace (.respond reply) := by
      rintro reply trace hfound _ ⟨⟩
      exact hfound
    -- polls are not limited
    rw [serve]
    change Prog.wp _ ((endpoint env settings caller (.show id) >>=
      serialized env.toLibraries).run >>= _) _ _
    rw [Prog.wp_bind]
    refine Prog.wp_mono ?_ (show_answersRead env settings id caller)
    rintro (exc | answer) trace h
    · refine ⟨trivial, ?_⟩
      rintro r _ rfl
      obtain ⟨found, hfound, hreply⟩ := h
      exact ⟨hanswer _ _ ⟨found, List.mem_append_left _ hfound, hreply⟩, fun _ _ _ => trivial⟩
    · obtain ⟨hbackground, hfound⟩ := h
      refine ⟨hanswer _ _ hfound, ?_⟩
      rintro u _ rfl
      rw [hbackground]
      refine ⟨trivial, ?_⟩
      rintro (name | ⟨⟩) _ rfl
      · exact ⟨trivial, fun _ _ _ => trivial⟩
      · trivial
  · refine Prog.wp_true (fun trace op => ?_) _ _
    cases op with
    | respond reply => exact fun id hid => absurd ⟨id, hid⟩ hshow
    | _ => trivial

/-- What an answer on a route lets its client expect of views of the job `id`. -/
inductive Promises (id : String) : Route → ReplyBody → (JobView → Prop) → Prop where
  /-- there is one -/
  | accepted (request : JobRequest) (status : JobStatus) :
    Promises id (.submit request) (.accepted ⟨id, status⟩) fun view => view.id = id
  /-- it looks like this, or has gone on -/
  | shown (view : JobView) : Promises id (.show id) (.view view) view.LeadsTo

/-! ## All requests together -/

section

variable {env : Environment} {settings : Settings} {t₀ : ℚ} {w : World}
  {log : List (Entry Service World)} {tasks : List (Task (Route × Caller) Service Unit)}
  (h : Run world (fun request => serve env settings request.1 request.2)
    (World.start settings t₀) log w tasks)

include h

/-- A row that is there at some moment has become, at any later one, what it can. -/
theorem row_since {past since : List (Entry Service World)} (hlog : log = past ++ since)
    {id : String} {row : Job}
    (hrow : (worldAfter (World.start settings t₀) past).jobs id = some row) :
    (∃ row', w.jobs id = some row' ∧ row.Becomes row') ∧
      ∀ en ∈ since, ∃ row', en.after.jobs id = some row' ∧ row.Becomes row' := by
  have hchained := (Chained.unappend (hlog ▸ h.chained)).2
  obtain ⟨hend, hall⟩ := hchained.holds
    (fun w => ∃ row', w.jobs id = some row' ∧ row.Becomes row') ⟨row, hrow, .refl row⟩ (by
      rintro en hen - ⟨row₁, hrow₁, hbecomes⟩
      have hmem : en ∈ log := by
        rw [hlog]
        exact List.mem_append_right _ hen
      obtain ⟨task, -, hhistoric⟩ := run_rows h en hmem
      have hstep := hhistoric.rows id
      rw [hrow₁] at hstep
      obtain ⟨row₂, hrow₂, hbecomes'⟩ := hstep.becomes
      exact ⟨row₂, hrow₂, hbecomes.trans hbecomes'⟩)
  exact ⟨hend, fun en hen => (hall en hen).2⟩

/-- When an id is handed out, there is a row of this caller with it. -/
theorem run_hands_out : EachEntry (fun request en => ∀ id, HandsOut id en.event →
    ∃ row, en.after.jobs id = some row ∧ row.apiKeyId = request.2.id ∧ row.id = id) log tasks := by
  obtain ⟨_, _, _, _, hentries⟩ := h.ghost
    (fun request : Route × Caller => lifecycle request.2.id) (fun _ _ _ => True) .idle Ledger
    (fun request en => ∀ id, HandsOut id en.event →
      ∃ row, en.after.jobs id = some row ∧ row.apiKeyId = request.2.id ∧ row.id = id)
    (Ledger.start settings t₀) (fun request => wp_serve_lifecycle env settings request.1 request.2)
    (fun request w φ t op r w' h hallows hstep => by
      obtain ⟨⟨-, hfound⟩, phase, hnext, hledger⟩ := ledger_step h hallows hstep
      refine ⟨fun id hid => ?_, phase, hnext, hledger⟩
      obtain ⟨row, hrow, howner⟩ := JobTable.get_isSome.mp (hfound id hid)
      exact ⟨row, hrow, howner, (hledger.rows id row hrow).2.1⟩)
  exact hentries

/-- An answer to a poll comes from a reading before it: the statement failed, or the answer is what
its caller found in the table then. -/
theorem poll_reads {earlier : List (Entry Service World)} {en : Entry Service World}
    {later : List (Entry Service World)} (hlog : log = earlier ++ en :: later)
    {task : Task (Route × Caller) Service Unit} (htask : tasks[en.task]? = some task)
    {id : String} (hroute : task.label.1 = .show id) {reply : HttpReply}
    (hevent : en.event = ⟨.respond reply, ()⟩) :
    ∃ read ∈ earlier, read.task = en.task ∧
      ((∃ name, reply = pollReply env.toLibraries (.error name)) ∨
        reply = pollReply env.toLibraries (.ok (read.after.jobs.get id task.label.2.id))) := by
  obtain ⟨task', htask', hguard⟩ := h.guard (serve_answersRead env settings) hlog
  obtain rfl := Option.some.inj (htask'.symm.trans htask)
  have hop : en.op = .respond reply := congrArg Event.op hevent
  rw [hop] at hguard
  obtain ⟨found, hfound, rfl⟩ := hguard id hroute
  obtain ⟨read, hread, hown, hread'⟩ := mem_ownTrace.mp hfound
  refine ⟨read, hread, hown, ?_⟩
  obtain ⟨past, since, rfl⟩ := List.append_of_mem hread
  obtain ⟨-, hstep⟩ := h.chained.split.2 past read (since ++ en :: later) (by simp [hlog])
  obtain ⟨t, w₁, op, r, w₂⟩ := read
  cases hread'
  obtain ⟨now, -, hview, hafter⟩ := hstep
  simp only at hview hafter ⊢
  rcases r with name | view
  · exact .inl ⟨name, rfl⟩
  · rw [hafter]
    exact .inr (congrArg (fun found => pollReply env.toLibraries (.ok found)) (hview view rfl))

/-- What was promised holds of the row that is there, and of all it can become. -/
theorem row_of_promise {earlier : List (Entry Service World)} {first : Entry Service World}
    {later : List (Entry Service World)} (hlog : log = earlier ++ first :: later)
    {task : Task (Route × Caller) Service Unit} (htask : tasks[first.task]? = some task)
    {reply : HttpReply} (hfirst : first.event = ⟨.respond reply, ()⟩) {id : String}
    {promise : JobView → Prop} (hpromise : Promises id task.label.1 reply.body promise) :
    ∃ row, first.after.jobs id = some row ∧ row.apiKeyId = task.label.2.id ∧
      ∀ row', row.Becomes row' → promise row'.toView := by
  have hlog' : log = (earlier ++ [first]) ++ later := by simp [hlog]
  have hmem : first ∈ log := by simp [hlog]
  generalize hroute : task.label.1 = route at hpromise
  generalize hbody : reply.body = body at hpromise
  cases hpromise with
  | accepted request status =>
    obtain ⟨task', htask', hfound⟩ := run_hands_out h first hmem
    obtain rfl := Option.some.inj (htask'.symm.trans htask)
    obtain ⟨row, hrow, howner, hid⟩ := hfound id (by rw [hfirst]; exact .answer reply status hbody)
    exact ⟨row, hrow, howner, fun row' hbecomes => hbecomes.id.trans hid⟩
  | shown view =>
    obtain ⟨read, hread, -, hreads⟩ := poll_reads h hlog htask hroute hfirst
    rcases hreads with ⟨name, rfl⟩ | rfl
    · cases hbody
    · have hfound := pollReply_view hbody
      cases hrow : read.after.jobs id with
      | none => simp [JobTable.get, hrow] at hfound
      | some row =>
        rw [JobTable.get, hrow] at hfound
        simp only at hfound
        split at hfound
        · next howner =>
          obtain rfl : row.toView = view := by cases hfound; rfl
          obtain ⟨past, since, rfl⟩ := List.append_of_mem hread
          have hread : log = (past ++ [read]) ++ (since ++ first :: later) := by simp [hlog]
          obtain ⟨row', hrow', hbecomes⟩ :=
            (row_since h hread (by rwa [worldAfter_snoc])).2 first (by simp)
          exact ⟨row', hrow', hbecomes.apiKeyId.trans howner,
            fun row'' hbecomes' => (hbecomes.trans hbecomes').toView⟩
        · cases hfound

end

/-- What is stored of a job that is accepted. -/
def hookJob : NewJob := JobService.newJob "j" hookRequest ⟨"k", "k"⟩ "llama3.2:3b"

end PrdApiWrapper
