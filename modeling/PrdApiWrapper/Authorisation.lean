import PrdApiWrapper.Authentication
import PrdApiWrapper.Conversation
import PrdApiWrapper.Provenance

/-!
# Who may do what

A key opens the service to a request for the short time the request takes, and the key table goes
on changing while requests are under way. What should hold of every run: whatever a request reads,
writes, spends or sends, it was let in for, as a caller whose key was live when it was looked up,
and it does this for that caller only (`effects_authorised`). And once a key is revoked, no request
that comes with it later does anything (`revocation_final`).

The guard of a request is `Authorised`, kept by every program. The table comes in only at the
lookup.
-/

namespace PrdApiWrapper

open Interaction

/-! ## The world with its key table -/

/-- The world, and the key table. -/
structure KeyedWorld where
  world : World
  keys : KeyTable

/-- Before a request is answered, keys may be added and revoked. A lookup reads the table, if the
database answers. -/
def keyedWorld (lower : String → String) : Semantics Service KeyedWorld where
  step w t op r w' := w.keys.Later lower w'.keys ∧ w'.keys.Answers lower ⟨op, r⟩ ∧
    world.step w.world t op r w'.world

/-! ## Authority -/

/-- What a request must be let in for: what reads or writes something, costs something or leaves the
process, and an answer that is no error. -/
def Privileged : Op → Prop
  | .check _ | .post _ | .record _ | .createJob _ | .updateJob _ _ | .getJob _ _
  | .callback _ => True
  | .respond reply => reply.isError = false
  | _ => False

/-- Whom a request was let in as, going by what it was told. -/
inductive LetInAs (env : Environment) (settings : Settings) (trace : List (Event Service)) :
    Option String → Caller → Prop where
  /-- without a key, where none is required -/
  | keyless {rawKey : Option String} : rawKey.filter (· ≠ "") = none →
    settings.requireApiKey = false → LetInAs env settings trace rawKey anonymous
  /-- with a key that was found -/
  | found {key : String} {caller : Caller} : key ≠ "" →
    ⟨.findByHash (env.hashApiKey key), .ok (some caller)⟩ ∈ trace →
    LetInAs env settings trace (some key) caller

/-- The submissions to the routes declared with the rate limit. -/
def Submission.limited : Submission → Bool
  | .valid route => route.limited
  | .invalid _ | .undecoded _ => true

/-- Where there is a rate limit, it let the request through. -/
def WithinRate (settings : Settings) (submission : Submission) (caller : Caller)
    (trace : List (Event Service)) : Prop :=
  settings.rateLimitEnabled = true → submission.limited = true →
    ∃ decision, decision.allowed = true ∧ ⟨.check caller.id, .ok decision⟩ ∈ trace

/-- The request inserted a row for its caller under this id. -/
def Owns (caller : Caller) (id : String) (trace : List (Event Service)) : Prop :=
  ∃ job, ⟨.createJob job, .ok ()⟩ ∈ trace ∧ job.id = id ∧ job.apiKeyId = caller.id

/-- A request of the interface that is for `caller`, if for anyone. -/
def OnBehalf (caller : Caller) (trace : List (Event Service)) : Op → Prop
  | .check key => key = caller.id
  | .record entry => entry.apiKeyId = caller.id
  | .createJob job => job.apiKeyId = caller.id
  | .getJob _ apiKeyId => apiKeyId = caller.id
  | .updateJob id _ => Owns caller id trace
  | _ => True

/-- What a request may ask for, going by what it was told. -/
def Authorised (env : Environment) (settings : Settings) (request : Submission × Option String)
    (trace : List (Event Service)) (op : Op) : Prop :=
  Privileged op → ∃ caller, LetInAs env settings trace request.2 caller ∧
    OnBehalf caller trace op ∧
    ((∀ key, op ≠ .check key) → WithinRate settings request.1 caller trace)

section

variable {env : Environment} {settings : Settings} {submission : Submission}
  {rawKey : Option String} {caller : Caller} {trace : List (Event Service)}

theorem lasting_letInAs : Lasting fun trace => LetInAs env settings trace rawKey caller := by
  intro trace ev h
  cases h with
  | keyless hkey hrequired => exact .keyless hkey hrequired
  | found hkey hfound => exact .found hkey (List.mem_append_left _ hfound)

theorem lasting_withinRate : Lasting (WithinRate settings submission caller) := by
  intro trace ev h henabled hlimited
  obtain ⟨decision, hallowed, hmem⟩ := h henabled hlimited
  exact ⟨decision, hallowed, List.mem_append_left _ hmem⟩

/-- Let in, and within the rate. -/
def Cleared (env : Environment) (settings : Settings) (request : Submission × Option String)
    (caller : Caller) (trace : List (Event Service)) : Prop :=
  LetInAs env settings trace request.2 caller ∧ WithinRate settings request.1 caller trace

theorem lasting_cleared (request : Submission × Option String) :
    Lasting (Cleared env settings request caller) :=
  lasting_letInAs.and lasting_withinRate

/-- What is cleared may be asked for on behalf of the caller. -/
theorem Cleared.authorised {request : Submission × Option String} {op : Op}
    (h : Cleared env settings request caller trace) (hop : OnBehalf caller trace op) :
    Authorised env settings request trace op :=
  fun _ => ⟨caller, h.1, hop, fun _ => h.2⟩

/-- What needs no authority. -/
theorem authorised_of_not {request : Submission × Option String} {op : Op} (hop : ¬ Privileged op) :
    Authorised env settings request trace op :=
  fun h => absurd h hop

/-! ## What a request does for its caller -/

theorem CallsProvider.onBehalf {op : Op} (h : CallsProvider op) : OnBehalf caller trace op := by
  cases h with
  | waits h => cases h <;> trivial
  | _ => trivial

/-- A completion is for its caller. -/
theorem CompletesFor.onBehalf {request : CompletionRequest} {op : Op}
    (h : CompletesFor settings request caller op) : OnBehalf caller trace op := by
  cases h with
  | calls h => exact h.onBehalf
  | record statusCode started now usage => exact rfl

theorem Delivers.onBehalf {op : Op} (h : Delivers op) : OnBehalf caller trace op := by
  cases h with
  | waits h => cases h <;> trivial
  | _ => trivial

/-- The background half of a job is for its caller, once it has inserted its row. -/
theorem run_onBehalf (env : Environment) (settings : Settings) (id : String) (request : JobRequest)
    (caller : Caller) : ((jobsOf env settings).run id request caller).run.Only
      fun op => ∀ trace, Owns caller id trace → OnBehalf caller trace op := by
  have hupdate : ∀ fields, ((jobsOf env settings).jobs.update id fields).run.Only
      fun op => ∀ trace, Owns caller id trace → OnBehalf caller trace op :=
    fun fields => Prog.Only.map _ ⟨fun _ h => h, fun _ => trivial⟩
  refine JobService.only_run hupdate ?_ fun payload => ?_
  · exact (complete_for env settings request.completionRequest caller).mono
      fun _ hop _ _ => hop.onBehalf
  · refine JobService.only_deliverResult ?_ ⟨fun _ _ => trivial, fun _ => trivial⟩ hupdate
    exact (deliver_only env settings _ payload).mono fun _ hop _ _ => hop.delivers.onBehalf

/-- What is only for the caller, of a cleared request, is authorised and leaves it cleared. -/
theorem keeps_cleared {request : Submission × Option String} {P : List (Event Service) → Prop}
    (hP : Lasting P) : Keeps (Protocol.guarded (Authorised env settings request))
      (fun op => ∀ trace, P trace → OnBehalf caller trace op)
      fun trace => Cleared env settings request caller trace ∧ P trace := by
  refine fun op hop trace h => ⟨h.1.authorised (hop trace h.2), ?_⟩
  rintro r _ rfl
  exact (lasting_cleared request).and hP trace _ h

/-- The rate limit clears a request that was let in. -/
theorem awp_enforceRateLimit_cleared {request : Submission × Option String}
    (h : LetInAs env settings trace request.2 caller) :
    Async.awp (Protocol.guarded (Authorised env settings request))
      (enforceRateLimit settings caller)
      (fun _ trace' => Cleared env settings request caller trace') (fun _ _ => True) trace := by
  rw [awp_enforceRateLimit]
  split
  · refine ⟨fun _ => ⟨caller, h, rfl, fun hcheck => absurd rfl (hcheck caller.id)⟩, ?_⟩
    rintro (exc | decision) _ rfl
    · trivial
    · simp only
      split
      · next hallowed =>
        exact ⟨lasting_letInAs _ _ h, fun _ _ => ⟨decision, hallowed, List.mem_concat_self⟩⟩
      · trivial
  · next hdisabled => exact ⟨h, fun henabled => absurd henabled hdisabled⟩

/-- The end of a request needs no authority. -/
theorem closes_authorised (request : Submission × Option String) :
    Closes (Protocol.guarded (Authorised env settings request)) fun _ => True where
  commit _ := ⟨authorised_of_not id, fun _ _ => trivial⟩
  rollback _ := ⟨authorised_of_not id, fun _ _ _ => trivial⟩
  answer lib collected exc _ _ := by
    obtain ⟨code, message, details, hbody⟩ := errorReply_body lib collected exc
    refine ⟨authorised_of_not ?_, fun _ _ _ => trivial⟩
    change ¬ (errorReply lib collected exc).isError = false
    rw [HttpReply.isError, hbody]
    exact Bool.noConfusion

/-- A cleared request answers and runs its background task. -/
theorem awp_endpoint_authorised {route : Route}
    (h : Cleared env settings (.valid route, rawKey) caller trace) :
    Async.awp (Protocol.guarded (Authorised env settings (.valid route, rawKey)))
      (endpoint env settings caller route)
      (fun answer trace' => Cleared env settings (.valid route, rawKey) caller trace' ∧
        ∃ P, Lasting P ∧ P trace' ∧ answer.background.run.Only
          fun op => ∀ trace, P trace → OnBehalf caller trace op)
      (fun _ _ => True) trace := by
  have hkeeps := @keeps_cleared env settings caller (.valid route, rawKey) (fun _ => True)
    fun _ _ h => h
  cases route with
  | complete payload =>
    simp only [endpoint, Async.awp_bind, Async.awp_pure]
    refine Async.awp_mono ?_ (fun _ _ _ => trivial) (Async.awp_of_only
      ((complete_for env settings payload caller).mono fun _ hop _ _ => hop.onBehalf) hkeeps
      ⟨h, trivial⟩)
    exact fun _ _ h₁ => ⟨h₁.1, fun _ => True, fun _ _ h => h, trivial, trivial⟩
  | submit payload =>
    simp only [endpoint, JobService.accept, jobsOf, stored, Async.awp_bind, Async.awp_lift,
      Async.awp_mk, Async.awp_pure, Prog.wp_map]
    refine ⟨authorised_of_not id, ?_⟩
    rintro jobId _ rfl
    have h₁ := lasting_cleared _ _ ⟨.tokenHex, jobId⟩ h
    refine ⟨h₁.authorised rfl, ?_⟩
    rintro (name | ⟨⟩) _ rfl
    · trivial
    · refine ⟨lasting_cleared _ _ _ h₁, Owns caller jobId, ?_, ?_, run_onBehalf env settings _ _ _⟩
      · rintro trace' ev ⟨job, hmem, howner⟩
        exact ⟨job, List.mem_append_left _ hmem, howner⟩
      · exact ⟨_, List.mem_concat_self, rfl, rfl⟩
  | «show» jobId =>
    simp only [endpoint, JobService.get, jobsOf, stored, Async.awp_bind, Async.awp_mk,
      Async.awp_pure, Prog.wp_map]
    refine ⟨h.authorised rfl, ?_⟩
    rintro (name | (_ | view)) _ rfl
    · trivial
    · trivial
    · exact ⟨lasting_cleared _ _ _ h, fun _ => True, fun _ _ h => h, trivial, trivial⟩

/-- A request whose caller was let in. -/
theorem serve_authorised {route : Route} (h : LetInAs env settings trace rawKey caller) :
    (serve env settings route caller).wp
      (Protocol.guarded (Authorised env settings (.valid route, rawKey))) (fun _ _ => True)
      trace := by
  have hlimit : Async.awp (Protocol.guarded (Authorised env settings (.valid route, rawKey)))
      (if route.limited then enforceRateLimit settings caller else pure [])
      (fun _ trace' => Cleared env settings (.valid route, rawKey) caller trace')
      (fun _ _ => True) trace := by
    split
    · exact awp_enforceRateLimit_cleared h
    · next hfree => exact ⟨h, fun _ hlimited => absurd hlimited hfree⟩
  refine wp_serve (closes_authorised _) hlimit fun trace₁ h₁ => ?_
  refine Async.awp_mono ?_ (fun _ _ h => h) (awp_endpoint_authorised h₁)
  rintro answer trace₂ ⟨h₂, P, hP, hholds, honly⟩ collected
  refine ⟨h₂.authorised trivial, ?_⟩
  rintro _ _ rfl
  exact Async.awp_mono (fun _ _ _ => trivial) (fun _ _ _ => trivial)
    (Async.awp_of_only honly (keeps_cleared hP) ⟨lasting_cleared _ _ _ h₂, hP _ _ hholds⟩)

/-- A request that raised. -/
theorem fail_authorised (request : Submission × Option String) (exc : Exc) :
    (fail env.toLibraries [] exc).wp (Protocol.guarded (Authorised env settings request))
      (fun _ _ => True) trace :=
  wp_fail (closes_authorised request) _ [] exc trace

/-- A request with an invalid body. -/
theorem turnAway_authorised {fields : List Json} (h : LetInAs env settings trace rawKey caller) :
    (turnAway env.toLibraries settings fields caller).wp
      (Protocol.guarded (Authorised env settings (.invalid fields, rawKey))) (fun _ _ => True)
      trace := by
  rw [turnAway, Prog.wp_bind]
  refine Prog.wp_mono ?_ (awp_enforceRateLimit_cleared h)
  rintro (exc | collected) trace₁ h₁
  · exact fail_authorised _ exc
  · refine ⟨authorised_of_not id, fun _ _ _ => ⟨authorised_of_not ?_, fun _ _ _ => trivial⟩⟩
    change ¬ (rejectionReply env.toLibraries collected fields).isError = false
    rw [rejectionReply_isError]
    exact Bool.noConfusion

/-- A lookup is all it takes to be let in. -/
theorem awp_authenticate_lets_in (env : Environment) (settings : Settings) (submission : Submission)
    (rawKey : Option String) :
    Async.awp (Protocol.guarded (Authorised env settings (submission, rawKey)))
      (authenticate env settings rawKey)
      (fun caller trace => LetInAs env settings trace rawKey caller) (fun _ _ => True) [] := by
  rw [awp_authenticate]
  cases hkey : rawKey.filter (· ≠ "") with
  | none =>
    simp only
    split
    · trivial
    · next hrequired => exact .keyless hkey (Bool.eq_false_of_not_eq_true hrequired)
  | some key =>
    obtain ⟨rfl, hne⟩ := Option.filter_eq_some_iff.mp hkey
    refine ⟨authorised_of_not id, ?_⟩
    rintro (name | (_ | caller)) _ rfl
    · trivial
    · trivial
    · exact .found (by simpa using hne) List.mem_concat_self

/-- **Every request is authorised** to ask what it asks. -/
theorem receive_authorised (env : Environment) (settings : Settings)
    (request : Submission × Option String) :
    (receive env settings request).wp (Protocol.guarded (Authorised env settings request))
      (fun _ _ => True) [] := by
  obtain ⟨submission, rawKey⟩ := request
  cases submission with
  | valid route =>
    simp only [receive, handle]
    rw [Prog.wp_bind]
    refine Prog.wp_mono ?_ (awp_authenticate_lets_in env settings _ rawKey)
    rintro (exc | caller) trace h
    · exact fail_authorised _ exc
    · exact serve_authorised h
  | invalid fields =>
    simp only [receive]
    rw [Prog.wp_bind]
    refine Prog.wp_mono ?_ (awp_authenticate_lets_in env settings _ rawKey)
    rintro (exc | caller) trace h
    · exact fail_authorised _ exc
    · exact turnAway_authorised h
  | undecoded failure =>
    refine ⟨authorised_of_not ?_, fun _ _ _ => trivial⟩
    change ¬ (undecodedReply env.toLibraries failure).isError = false
    rw [undecodedReply_isError]
    exact Bool.noConfusion

end

/-! ## The key table over a run -/

variable {lower : String → String}

namespace KeyTable

/-- Whatever a table becomes, it becomes by a history. -/
theorem Later.exists_history {table table' : KeyTable} (h : Later lower table table') :
    ∃ history, table' = table.after lower history := by
  induction h with
  | refl => exact ⟨[], rfl⟩
  | @add table' table'' record _ hadd ih =>
    obtain ⟨history, rfl⟩ := ih
    refine ⟨history ++ [.add record], ?_⟩
    rw [after_append]
    change table'' = ((table.after lower history).add lower record).toOption.getD _
    rw [hadd]
    rfl
  | revoke id now _ ih =>
    obtain ⟨history, rfl⟩ := ih
    refine ⟨history ++ [.revoke id now], ?_⟩
    rw [after_append]
    rfl

/-- Ids and digests stay unique. -/
theorem Unique.later {table table' : KeyTable} (h : table.Unique)
    (hlater : Later lower table table') : table'.Unique := by
  obtain ⟨history, rfl⟩ := hlater.exists_history
  exact h.after history

/-- A row whose digest is this, and that is revoked: no lookup finds it, now or later. -/
def Dead (table : KeyTable) (keyHash : String) : Prop :=
  table.Unique ∧ ∃ row ∈ table, row.keyHash = keyHash ∧ row.revokedAt ≠ none

/-- A dead digest stays dead: the row stays, and the database refuses another with its digest. -/
theorem Dead.later {table table' : KeyTable} {keyHash : String} (h : table.Dead keyHash)
    (hlater : Later lower table table') : table'.Dead keyHash := by
  obtain ⟨hunique, row, hrow, hhash, hrevoked⟩ := h
  obtain ⟨history, rfl⟩ := hlater.exists_history
  obtain ⟨row', hrow', -, -, hhash', hrevoked'⟩ := after_row lower hrow history
  exact ⟨hunique.after history, row', hrow', hhash'.trans hhash,
    fun hlive => hrevoked (hrevoked'.mp hlive).1⟩

/-- What a lookup finds is a live row with the digest. -/
theorem row_of_findByHash {table : KeyTable} {keyHash : String} {caller : Caller}
    (h : table.findByHash lower keyHash = .ok (some caller)) :
    ∃ row ∈ table, row.revokedAt = none ∧ row.keyHash = lower keyHash ∧
      caller = ⟨row.id, row.name⟩ := by
  rw [findByHash] at h
  split at h
  · cases h
  · next row hfilter =>
    cases h
    have hrow := hfilter ▸ List.mem_singleton_self row
    simp only [List.mem_filter, Bool.and_eq_true, beq_iff_eq, Option.isNone_iff_eq_none] at hrow
    exact ⟨row, hrow.1, hrow.2.2, hrow.2.1, rfl⟩
  · cases h

/-- A dead digest is not found. -/
theorem Dead.not_found {table : KeyTable} {keyHash : String} {caller : Caller}
    (h : table.Dead (lower keyHash)) :
    table.findByHash lower keyHash ≠ .ok (some caller) := by
  intro hfound
  obtain ⟨hunique, row, hrow, hhash, hrevoked⟩ := h
  obtain ⟨row', hrow', hlive, hhash', -⟩ := row_of_findByHash hfound
  obtain rfl := hunique.eq_of_keyHash hrow' hrow (hhash'.trans hhash.symm)
  exact hrevoked hlive

end KeyTable

/-! ## All requests together -/

/-- How a request came to act for a caller, going by the log before: without a key where none is
required, or by a lookup of its own, at which the digest of its key was in a live row. -/
inductive Vouched (env : Environment) (settings : Settings) (lower : String → String) (t : ℕ)
    (earlier : List (Entry Service KeyedWorld)) : Option String → Caller → Prop where
  | keyless {rawKey : Option String} : rawKey.filter (· ≠ "") = none →
    settings.requireApiKey = false → Vouched env settings lower t earlier rawKey anonymous
  | live {key : String} {lookup : Entry Service KeyedWorld} {row : ApiKey} : key ≠ "" →
    lookup ∈ earlier → lookup.task = t → lookup.op = .findByHash (env.hashApiKey key) →
    row ∈ lookup.after.keys → row.revokedAt = none →
    row.keyHash = lower (env.hashApiKey key) →
    Vouched env settings lower t earlier (some key) ⟨row.id, row.name⟩

section

variable {env : Environment} {settings : Settings} {w₀ w : KeyedWorld}
  {log : List (Entry Service KeyedWorld)}
  {tasks : List (Task (Submission × Option String) Service Unit)}

/-- A lookup of a run is answered from the table of that moment. -/
theorem lookup_answers (h : Run (keyedWorld lower) (receive env settings) w₀ log w tasks)
    {lookup : Entry Service KeyedWorld} (hlookup : lookup ∈ log) {keyHash : String}
    {caller : Caller} (hevent : lookup.event = ⟨.findByHash keyHash, .ok (some caller)⟩) :
    lookup.after.keys.findByHash lower keyHash = .ok (some caller) := by
  obtain ⟨past, since, hlog⟩ := List.append_of_mem hlookup
  obtain ⟨-, -, hanswers, -⟩ := h.chained.split.2 past lookup since hlog
  change lookup.after.keys.Answers lower lookup.event at hanswers
  rw [hevent] at hanswers
  exact hanswers _ rfl

/-- **Every effect is authorised.** In every run of any number of requests side by side, while keys
are added and revoked in between: whatever a request reads, writes, spends or sends, and every
answer that is no error, it does for one caller, whom it came to act for without a key where none is
required, or by its own earlier lookup, at which its key was live in the row of that caller; and, a
check of the rate limit apart, only after such a check of the same caller has let it through, where
there is one. -/
theorem effects_authorised (h : Run (keyedWorld lower) (receive env settings) w₀ log w tasks)
    {earlier : List (Entry Service KeyedWorld)} {en : Entry Service KeyedWorld}
    {later : List (Entry Service KeyedWorld)} (hlog : log = earlier ++ en :: later)
    (hprivileged : Privileged en.op) :
    ∃ task caller, tasks[en.task]? = some task ∧
      Vouched env settings lower en.task earlier task.label.2 caller ∧
      OnBehalf caller (ownTrace en.task earlier) en.op ∧
      ((∀ key, en.op ≠ .check key) →
        WithinRate settings task.label.1 caller (ownTrace en.task earlier)) := by
  obtain ⟨task, htask, hauthorised⟩ := h.guard (receive_authorised env settings) hlog
  obtain ⟨caller, hletIn, honBehalf, hrate⟩ := hauthorised hprivileged
  refine ⟨task, caller, htask, ?_, honBehalf, hrate⟩
  generalize task.label.2 = rawKey at hletIn
  cases hletIn with
  | keyless hkey hrequired => exact .keyless hkey hrequired
  | found hkey hfound =>
    obtain ⟨lookup, hlookup, htask', hevent⟩ := mem_ownTrace.mp hfound
    have hmem : lookup ∈ log := by
      rw [hlog]
      exact List.mem_append_left _ hlookup
    obtain ⟨row, hrow, hlive, hhash, rfl⟩ :=
      KeyTable.row_of_findByHash (lookup_answers h hmem hevent)
    exact .live hkey hlookup htask' (congrArg Event.op hevent) hrow hlive hhash

/-- A key table with one live row. -/
def oneKey : KeyTable := [⟨"k1", "K", "k", none⟩]

/-- A caller asks for a job, with the key of this row. -/
def keyholder : Submission × Option String := (.valid (.show "j"), some "k")

/-- The job is looked up for this row, which was live when the key was. -/
theorem effects_authorised_keyholder :
    ∃ log w tasks, Run (keyedWorld id) (receive .sample .defaults) ⟨dayOne, oneKey⟩ log w tasks ∧
      ∃ earlier en later, log = earlier ++ en :: later ∧ Privileged en.op ∧
        ∃ caller, Vouched .sample .defaults id 0 earlier (some "k") caller ∧
          OnBehalf caller (ownTrace 0 earlier) en.op := by
  have h₀ : Run (keyedWorld id) (receive .sample .defaults) ⟨dayOne, oneKey⟩ _ _ _ :=
    .spawn keyholder .start
  have h₁ := h₀.reply 0 rfl (.ok (some ⟨"k1", "K"⟩) : Except String (Option Caller))
    ⟨dayOne, oneKey⟩ ⟨.refl, by rintro _ ⟨⟩; rfl, 0, le_rfl, rfl⟩
  have h₂ := h₁.reply 0 rfl (.ok none : Except String (Option JobView)) ⟨dayOne, oneKey⟩
    ⟨.refl, trivial, 0, le_rfl, by rintro _ ⟨⟩; rfl, rfl⟩
  refine ⟨_, _, _, h₂, _, _, [], rfl, trivial, ?_⟩
  obtain ⟨task, caller, htask, hvouched, honBehalf, -⟩ :=
    effects_authorised h₂ rfl trivial
  cases htask
  exact ⟨caller, hvouched, honBehalf⟩

/-- All that a request does that is turned away at its lookup. -/
def turnedAway (lib : Libraries) (keyHash : String) (found : Except String (Option Caller))
    (r : Except String Unit) (exc : Exc) : List (Event Service) :=
  [⟨.findByHash keyHash, found⟩, ⟨.rollback, r⟩, ⟨.respond (errorReply lib [] exc), ()⟩]

/-- A request whose key is never found is turned away at its lookup. -/
theorem steps_not_found {submission : Submission} (hdecoded : submission.Decoded) {key : String}
    (hkey : key ≠ "") {trace : List (Event Service)} {rest : Prog Service Unit}
    (hsteps : Prog.Steps (receive env settings (submission, some key)) trace rest)
    (hnot : ∀ caller, ⟨.findByHash (env.hashApiKey key), .ok (some caller)⟩ ∉ trace) :
    ∃ found r exc, lookedUp found = .error exc ∧
      trace <+: turnedAway env.toLibraries (env.hashApiKey key) found r exc := by
  have hfilter : (some key).filter (· ≠ "") = some key := by
    rw [Option.filter_some, if_pos (by simpa using hkey)]
  obtain ⟨k, hk, hfail⟩ : ∃ k : Except String (Option Caller) → Prog Service Unit,
      receive env settings (submission, some key) = .op (.findByHash (env.hashApiKey key)) k ∧
      ∀ found exc, lookedUp found = .error exc → k found = fail env.toLibraries [] exc := by
    cases submission with
    | undecoded failure => exact absurd rfl (hdecoded failure)
    | valid route =>
      simp only [receive, handle, authenticate, hfilter]
      refine ⟨_, rfl, ?_⟩
      rintro (name | (_ | caller)) exc ⟨⟩ <;> rfl
    | invalid fields =>
      simp only [receive, authenticate, hfilter]
      refine ⟨_, rfl, ?_⟩
      rintro (name | (_ | caller)) exc ⟨⟩ <;> rfl
  rw [hk] at hsteps
  cases hsteps with
  | refl => exact ⟨.ok none, .ok (), invalidCredentials, rfl, List.nil_prefix⟩
  | @cons _ _ found trace _ hrest =>
    obtain ⟨exc, hexc⟩ : ∃ exc, lookedUp found = .error exc := by
      rcases found with name | (_ | caller)
      · exact ⟨_, rfl⟩
      · exact ⟨_, rfl⟩
      · exact absurd List.mem_cons_self (hnot caller)
    rw [hfail found exc hexc] at hrest
    cases hrest with
    | refl => exact ⟨found, .ok (), exc, hexc, by simp [turnedAway]⟩
    | @cons _ _ r trace _ hrest =>
      refine ⟨found, r, exc, hexc, ?_⟩
      cases hrest with
      | refl => simp [turnedAway]
      | cons hrest =>
        cases hrest with
        | refl => simp [turnedAway]

/-- A request whose body is not decoded is answered, and does nothing else. -/
theorem steps_undecoded {failure : DecodingFailure} {rawKey : Option String}
    {trace : List (Event Service)} {rest : Prog Service Unit}
    (hsteps : Prog.Steps (receive env settings (.undecoded failure, rawKey)) trace rest) :
    trace <+: [⟨.respond (undecodedReply env.toLibraries failure), ()⟩] := by
  cases hsteps with
  | refl => exact List.nil_prefix
  | cons hrest =>
    cases hrest with
    | refl => exact List.prefix_rfl

/-- **Revocation is at once and final.** In every run, once there is a revoked row with the digest
of a key, a request that comes with this key afterwards is turned away at its lookup: nothing is
checked, spent, written, read or sent for it, and it is answered as an unknown key is, or with an
internal error if the lookup failed; whatever is added to the key table in the meantime. If its body
is not decoded it is told so, and its key is not even looked up. -/
theorem revocation_final (h : Run (keyedWorld lower) (receive env settings) w₀ log w tasks)
    (hunique : w₀.keys.Unique) {past since : List (Entry Service KeyedWorld)}
    (hlog : log = past ++ since) {key : String} (hkey : key ≠ "") {row : ApiKey}
    (hrow : row ∈ (worldAfter w₀ past).keys) (hrevoked : row.revokedAt ≠ none)
    (hhash : row.keyHash = lower (env.hashApiKey key)) {t : ℕ}
    {task : Task (Submission × Option String) Service Unit} (ht : tasks[t]? = some task)
    (hcredentials : task.label.2 = some key) (hnew : ownTrace t past = []) :
    (task.label.1.Decoded → ∃ found r exc, lookedUp found = .error exc ∧
      ownTrace t log <+: turnedAway env.toLibraries (env.hashApiKey key) found r exc) ∧
    ∀ failure, task.label.1 = .undecoded failure →
      ownTrace t log <+: [⟨.respond (undecodedReply env.toLibraries failure), ()⟩] := by
  obtain ⟨⟨submission, rawKey⟩, rest⟩ := task
  obtain rfl : rawKey = some key := hcredentials
  refine ⟨fun hdecoded => steps_not_found hdecoded hkey (h.trace t _ ht) fun caller hmem => ?_, ?_⟩
  swap
  · rintro failure rfl
    exact steps_undecoded (h.trace t _ ht)
  obtain ⟨lookup, hlookup, rfl, hevent⟩ := mem_ownTrace.mp hmem
  have hsince : lookup ∈ since := by
    rw [hlog] at hlookup
    refine (List.mem_append.mp hlookup).resolve_left fun hpast => ?_
    have hown := mem_ownTrace.mpr ⟨lookup, hpast, rfl, rfl⟩
    rw [hnew] at hown
    exact List.not_mem_nil hown
  -- the digest is dead from that moment on, so the lookup did not find it
  obtain ⟨hbefore, hafter⟩ := Chained.unappend (hlog ▸ h.chained)
  have hthen := (hbefore.holds (fun w => w.keys.Unique) hunique
    fun _ _ hstep hkeys => hkeys.later hstep.1).1
  have hdead := (hafter.holds (fun w => w.keys.Dead (lower (env.hashApiKey key)))
    ⟨hthen, row, hrow, hhash, hrevoked⟩ fun _ _ hstep hdead => hdead.later hstep.1).2
  exact (hdead lookup hsince).2.not_found (lookup_answers h hlookup hevent)

/-- While another request is under way the key is revoked, and its holder is turned away. -/
theorem revocation_final_keyholder :
    ∃ log w tasks, Run (keyedWorld id) (receive .sample .defaults) ⟨dayOne, oneKey⟩ log w tasks ∧
      ownTrace 1 log ≠ [] ∧ ∃ found r exc, lookedUp found = .error exc ∧
        ownTrace 1 log <+: turnedAway Environment.sample.toLibraries "k" found r exc := by
  have h₀ : Run (keyedWorld id) (receive .sample .defaults) ⟨dayOne, oneKey⟩ _ _ _ :=
    .spawn keyless .start
  have h₁ := h₀.reply 0 rfl (.ok () : Except String Unit) ⟨dayOne, oneKey.revoke "k1" 0⟩
    ⟨.revoke "k1" 0 .refl, trivial, 0, le_rfl, rfl⟩
  have h₂ := h₁.spawn keyholder
  have h₃ := h₂.reply 1 rfl (.ok none : Except String (Option Caller))
    ⟨dayOne, oneKey.revoke "k1" 0⟩ ⟨.refl, by rintro _ ⟨⟩; rfl, 0, le_rfl, rfl⟩
  refine ⟨_, _, _, h₃, by simp [ownTrace], ?_⟩
  exact (revocation_final h₃ ⟨List.nodup_singleton _, List.nodup_singleton _⟩
    rfl (by decide) List.mem_cons_self (by simp) rfl (t := 1) rfl rfl rfl).1 (by rintro _ ⟨⟩)

end

end PrdApiWrapper
