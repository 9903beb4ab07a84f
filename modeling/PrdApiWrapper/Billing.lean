import PrdApiWrapper.Metering
import PrdApiWrapper.Inserts
import PrdApiWrapper.JobLifecycle

/-!
# The books balance

Tokens are written down twice: in the usage table, which callers are charged by, and where they are
handed over, in the answer to a completion or in the row of a job. The two are written at different
moments, in transactions of their own, while other requests do the same. `books_balance` says that
in the end there is an entry for each success that was handed over and none besides.
-/

namespace PrdApiWrapper

open Interaction

/-! ## Both accounts -/

/-- The tokens a success is charged with. -/
def UsageEntry.charge (entry : UsageEntry) : Option CompletionUsage :=
  if entry.statusCode = 200 then some ⟨entry.promptTokens, entry.completionTokens⟩ else none

theorem mem_recorded {trace : List (Event Service)} {entry : UsageEntry} :
    entry ∈ recorded trace ↔ ∃ r, ⟨.record entry, r⟩ ∈ trace := by
  rw [recorded, List.mem_filterMap]
  constructor
  · rintro ⟨⟨op, r⟩, hmem, hev⟩
    split at hev
    · obtain rfl := Option.some.inj hev
      next heq =>
        obtain ⟨rfl, heq⟩ := Event.mk.inj heq
        obtain rfl := eq_of_heq heq
        exact ⟨_, hmem⟩
    · cases hev
  · exact fun ⟨r, hmem⟩ => ⟨_, hmem, rfl⟩

/-- What a trace asks to charge for successes. -/
def charged (trace : List (Event Service)) : List CompletionUsage :=
  (recorded trace).filterMap UsageEntry.charge

/-- The tokens in the columns of a success. -/
def tokensIn : List JobField → Option CompletionUsage
  | [.status .succeeded, .content _, .model _, .promptTokens p, .completionTokens c] =>
    some ⟨p, c⟩
  | _ => none

/-- The tokens that are handed over with a reply of the process or an update of a row. -/
def tokensOver : Event Service → Option CompletionUsage
  | ⟨.respond ⟨_, _, .completion response⟩, _⟩ => some response.usage
  | ⟨.updateJob _ fields, .ok ()⟩ => tokensIn fields
  | _ => none

/-- What a trace hands over. -/
def handedOver (trace : List (Event Service)) : List CompletionUsage :=
  trace.filterMap tokensOver

/-- Nothing is lost on the way: the writes of both accounts are not refused, and the completions of
the provider can be sent on. -/
def Booked (lib : Libraries) : Event Service → Prop
  | ⟨.record _, .error _⟩ | ⟨.updateJob _ _, .error _⟩ => False
  | ⟨.answer, outcome⟩ => ∀ model completion, received lib model outcome = .ok completion →
      (ReplyBody.completion completion).renders lib = true
  | _ => True

@[simp] theorem charged_append (trace trace' : List (Event Service)) :
    charged (trace ++ trace') = charged trace ++ charged trace' := by
  simp [charged]

@[simp] theorem handedOver_append (trace trace' : List (Event Service)) :
    handedOver (trace ++ trace') = handedOver trace ++ handedOver trace' :=
  List.filterMap_append

/-! ## One request -/

/-- What a request has charged, and what it has handed over. -/
structure Accounts (debits credits : List CompletionUsage) (trace : List (Event Service)) :
    Prop where
  charged : charged trace = debits
  handedOver : handedOver trace = credits

/-- The requests that are in neither account. -/
def Unbooked : Op → Prop
  | .record _ => False
  | .updateJob _ fields => tokensIn fields = none
  | .respond reply => ∀ response, reply.body ≠ .completion response
  | _ => True

section

variable {env : Environment} {settings : Settings} {caller : Caller}
  {debits credits : List CompletionUsage} {trace : List (Event Service)}

theorem Unbooked.recorded {op : Op} {r : Service.Reply op} (h : Unbooked op) :
    recorded [⟨op, r⟩] = [] := by
  cases op <;> first | rfl | cases h

theorem Unbooked.handedOver {op : Op} {r : Service.Reply op} (h : Unbooked op) :
    handedOver [⟨op, r⟩] = [] := by
  cases op with
  | respond reply =>
    obtain ⟨status, headers, body⟩ := reply
    cases body with
    | completion response => exact absurd rfl (h response)
    | _ => rfl
  | updateJob id fields =>
    rcases r with name | ⟨⟩
    · rfl
    · have hnone : tokensOver ⟨.updateJob id fields, .ok ()⟩ = none := h
      simp [PrdApiWrapper.handedOver, hnone]
  | _ => rfl

theorem Accounts.unbooked (h : Accounts debits credits trace) {op : Op}
    (hop : Unbooked op) (r : Service.Reply op) :
    Accounts debits credits (trace ++ [⟨op, r⟩]) := by
  refine ⟨?_, ?_⟩
  · rw [charged_append, h.charged]
    simp [PrdApiWrapper.charged, hop.recorded]
  · simp [h.handedOver, hop.handedOver]

theorem keeps_accounts {lib : Libraries} : Keeps (Protocol.observed (Booked lib)) Unbooked
    (Accounts debits credits) := by
  rintro op hop trace h
  refine ⟨trivial, ?_⟩
  rintro r _ ⟨-, rfl⟩
  exact h.unbooked hop r

theorem CallsProvider.unbooked {op : Op} (h : CallsProvider op) : Unbooked op := by
  cases h with
  | waits h => cases h <;> trivial
  | _ => trivial

theorem Delivers.unbooked {op : Op} (h : Delivers op) : Unbooked op := by
  cases h with
  | waits h => cases h <;> trivial
  | _ => trivial

/-- No error is an entry for a success. -/
theorem charge_error (error : AppError) (model : String) (started now : ℚ) :
    (CompletionService.entry caller model error.statusCode started now none).charge = none := by
  have hstatus : error.statusCode ≠ 200 := by
    rw [AppError.statusCode]
    cases error.cls <;> decide
  exact if_neg hstatus

/-- A record of a completion debits what its entry charges. -/
theorem awp_recordUsage_accounts {model : String} {statusCode : ℤ} {started : ℚ}
    {usage : Option CompletionUsage} (h : Accounts [] credits trace)
    {d : Option CompletionUsage} (hdebit : ∀ now,
      (CompletionService.entry caller model statusCode started now usage).charge = d)
    {err : Exc → List (Event Service) → Prop} :
    Async.awp (Protocol.observed (Booked env.toLibraries))
      ((completionService env settings).recordUsage caller model statusCode started usage)
      (fun _ => Accounts d.toList credits) err trace := by
  rw [awp_recordUsage]
  refine ⟨trivial, fun now trace₁ h₁ => ⟨trivial, ?_⟩⟩
  obtain ⟨hcharged, hhanded⟩ := (keeps_accounts .monotonic trivial trace h).2 now trace₁ h₁
  rintro r _ ⟨-, rfl⟩
  refine ⟨?_, ?_⟩
  · rw [charged_append, hcharged]
    simp only [charged, recorded, List.filterMap_cons, List.filterMap_nil, hdebit, List.nil_append]
    cases d <;> rfl
  · rw [handedOver_append, hhanded]
    exact List.append_nil _

/-- **A completion** debits the tokens of what it returns, which can be sent on, and nothing if it
raises. -/
theorem awp_complete_accounts (request : CompletionRequest) (h : Accounts [] credits trace) :
    Async.awp (Protocol.observed (Booked env.toLibraries))
      ((completionService env settings).complete request caller)
      (fun completion trace' => Accounts [completion.usage] credits trace' ∧
        (ReplyBody.completion completion).renders env.toLibraries = true)
      (fun _ => Accounts [] credits) trace := by
  let Sent (outcome : Except Exc CompletionResponse) : Prop :=
    ∀ completion, outcome = .ok completion →
      (ReplyBody.completion completion).renders env.toLibraries = true
  rw [awp_complete]
  refine ⟨trivial, fun started trace₁ h₁ => ?_⟩
  have hstart := (keeps_accounts .monotonic trivial trace h).2 started trace₁ h₁
  refine Async.awp_mono ?_ ?_ (awp_attempts_outcome (R := Sent)
    (fun op hop => keeps_accounts op hop.unbooked) _ _ (fun _ _ _ _ => nofun)
    (fun _ _ _ hanswer => hanswer.1 _) (fun _ => nofun) hstart)
  · rintro completion trace₂ ⟨h₂, hsent⟩
    refine Async.awp_mono (fun _ _ h => ⟨h, hsent completion rfl⟩) (fun _ _ h => h) ?_
    exact awp_recordUsage_accounts h₂ (d := some completion.usage) fun now => rfl
  · rintro (error | name) trace₂ ⟨h₂, -⟩
    · exact awp_recordUsage_accounts h₂ (d := none) fun now => charge_error error _ started now
    · exact h₂

/-- Both accounts of a request come to the same. -/
def Balanced (trace : List (Event Service)) : Prop :=
  ∃ tokens, Accounts tokens tokens trace

theorem keeps_balanced {lib : Libraries} :
    Keeps (Protocol.observed (Booked lib)) Unbooked Balanced := by
  rintro op hop trace ⟨tokens, h⟩
  exact ⟨trivial, fun r trace' hr => ⟨tokens, (keeps_accounts op hop trace h).2 r trace' hr⟩⟩

/-- An update of the row credits what is in its columns. -/
theorem awp_update_accounts {id : String} {fields : List JobField}
    (h : Accounts debits credits trace) {err : Exc → List (Event Service) → Prop} :
    Async.awp (Protocol.observed (Booked env.toLibraries))
      ((jobsOf env settings).jobs.update id fields)
      (fun _ => Accounts debits (credits ++ (tokensIn fields).toList)) err trace := by
  simp only [jobsOf, stored, Async.awp_mk, Prog.wp_map]
  refine ⟨trivial, ?_⟩
  rintro (name | ⟨⟩) _ ⟨hbooked, rfl⟩
  · exact hbooked.elim
  · refine ⟨?_, ?_⟩
    · rw [charged_append, h.charged]
      exact List.append_nil _
    · rw [handedOver_append, h.handedOver]
      refine congrArg (credits ++ ·) ?_
      simp only [handedOver, tokensOver, List.filterMap_cons, List.filterMap_nil]
      cases tokensIn fields <;> rfl

/-- An update without tokens. -/
theorem awp_update_balanced (env : Environment) (settings : Settings) {id : String}
    {fields : List JobField} (hfields : tokensIn fields = none) (h : Balanced trace)
    {err : Exc → List (Event Service) → Prop} :
    Async.awp (Protocol.observed (Booked env.toLibraries))
      ((jobsOf env settings).jobs.update id fields)
      (fun _ => Balanced) err trace := by
  obtain ⟨tokens, h⟩ := h
  refine Async.awp_mono (fun _ trace₁ h₁ => ⟨tokens, ?_⟩) (fun _ _ h => h) (awp_update_accounts h)
  simpa [hfields] using h₁

/-- `_execute` writes to the row what its completion was charged with. -/
theorem awp_execute_balanced {id : String} {request : JobRequest}
    (h : Accounts [] [] trace) :
    Async.awp (Protocol.observed (Booked env.toLibraries))
      ((jobsOf env settings).execute id request caller)
      (fun _ => Balanced) (fun _ => Balanced) trace := by
  simp only [JobService.execute, JobService.catchAppError, Async.awp_bind, Async.awp_tryCatch,
    Async.awp_map]
  refine Async.awp_mono ?_ ?_ (awp_complete_accounts request.completionRequest h)
  · rintro completion trace₁ ⟨h₁, -⟩
    simp only [Async.awp_pure]
    exact Async.awp_mono (fun _ _ h => ⟨_, h⟩) (fun _ _ h => h) (awp_update_accounts h₁)
  · rintro (error | name) trace₁ h₁
    · simp only [Async.awp_bind, Async.awp_pure]
      exact awp_update_balanced env settings rfl ⟨[], h₁⟩
    · exact ⟨[], h₁⟩

/-- A delivery is in neither account. -/
theorem awp_deliverResult_balanced {id url : String} {payload : WebhookPayload}
    (h : Balanced trace) :
    Async.awp (Protocol.observed (Booked env.toLibraries))
      ((jobsOf env settings).deliverResult id url payload)
      (fun _ => Balanced) (fun _ => Balanced) trace := by
  refine awp_deliverResult_keeps (Async.awp_of_only (deliver_only env settings url payload) ?_ h)
    (fun op hop => keeps_balanced op (hop ▸ trivial)) fun fields hfields trace h => ?_
  · exact fun op hop trace h => keeps_balanced op hop.delivers.unbooked trace h
  · exact awp_update_balanced env settings (by cases hfields <;> rfl) h

/-- The background half of a job. -/
theorem awp_run_balanced {id : String} {request : JobRequest} (h : Accounts [] [] trace) :
    Async.awp (Protocol.observed (Booked env.toLibraries))
      ((jobsOf env settings).run id request caller)
      (fun _ => Balanced) (fun _ => Balanced) trace := by
  simp only [JobService.run, Async.awp_bind]
  refine Async.awp_mono ?_ (fun _ _ h => h) (awp_update_accounts h)
  intro _ trace₁ h₁
  refine Async.awp_mono ?_ (fun _ _ h => h) (awp_execute_balanced h₁)
  exact fun payload trace₂ h₂ => awp_deliverResult_balanced h₂

/-- **Every request** hands over what it charges for. -/
theorem serve_balanced (env : Environment) (settings : Settings) (request : Route × Caller) :
    (serve env settings request.1 request.2).wp (Protocol.observed (Booked env.toLibraries))
      (fun _ => Balanced) [] := by
  obtain ⟨route, caller⟩ := request
  have hempty : Accounts [] [] [] := ⟨rfl, rfl⟩
  have hends : Keeps (Protocol.observed (Booked env.toLibraries)) Concluding Balanced := by
    refine fun op hop => keeps_balanced op ?_
    cases hop with
    | answer lib collected exc =>
      obtain ⟨code, message, details, herror⟩ := errorReply_body lib collected exc
      intro response hbody
      rw [herror] at hbody
      cases hbody
    | _ => trivial
  have hlimit : Async.awp (Protocol.observed (Booked env.toLibraries))
      (if route.limited then enforceRateLimit settings caller else pure [])
      (fun _ => Accounts [] []) (fun _ => Balanced) [] :=
    Async.awp_mono (fun _ _ h => h) (fun _ _ h => ⟨[], h⟩)
      (awp_gate (fun op hop => keeps_accounts op (hop ▸ trivial)) hempty)
  refine wp_serve_keeps hends hlimit fun trace h => ?_
  cases route with
  | complete payload =>
    simp only [endpoint, Async.awp_bind, Async.awp_pure]
    refine Async.awp_mono ?_ (fun _ _ h => ⟨[], h⟩) (awp_complete_accounts payload h)
    rintro completion trace₁ ⟨⟨hcharged, hhanded⟩, hsent⟩
    refine ⟨fun collected => ⟨trivial, ?_⟩,
      fun hunsent => absurd (hsent.symm.trans hunsent) Bool.true_eq_false.mp⟩
    rintro u _ ⟨-, rfl⟩
    refine ⟨[completion.usage], ?_, ?_⟩
    · rw [charged_append, hcharged]
      rfl
    · rw [handedOver_append, hhanded]
      rfl
  | submit payload =>
    simp only [endpoint, JobService.accept, jobsOf, stored, Async.awp_bind, Async.awp_lift,
      Async.awp_mk, Async.awp_pure, Prog.wp_map]
    refine ⟨trivial, fun id trace₁ h₁ => ?_⟩
    have hdrawn := (keeps_accounts .tokenHex trivial trace h).2 id trace₁ h₁
    refine ⟨trivial, fun r trace₂ h₂ => ?_⟩
    have hcreated := (keeps_accounts (.createJob _) trivial trace₁ hdrawn).2 r trace₂ h₂
    rcases r with name | ⟨⟩
    · exact ⟨[], hcreated⟩
    · refine ⟨fun collected => ⟨trivial, fun u trace₃ h₃ => ?_⟩, by rintro ⟨⟩⟩
      have haccepted := (keeps_accounts (.respond _) (by rintro _ ⟨⟩) trace₂ hcreated).2 u trace₃ h₃
      exact awp_run_balanced haccepted
  | «show» jobId =>
    simp only [endpoint, JobService.get, jobsOf, stored, Async.awp_bind, Async.awp_mk,
      Async.awp_pure, Prog.wp_map]
    refine ⟨trivial, fun r trace₁ h₁ => ?_⟩
    have hread := (keeps_accounts (.getJob jobId caller.id) trivial trace h).2 r trace₁ h₁
    rcases r with name | (_ | view)
    · exact ⟨[], hread⟩
    · exact ⟨[], hread⟩
    · refine ⟨fun collected => ⟨trivial, fun u trace₂ h₂ => ?_⟩, fun _ => ⟨[], hread⟩⟩
      exact ⟨[], (keeps_accounts (.respond _) (by rintro _ ⟨⟩) trace₁ hread).2 u trace₂ h₂⟩

end

/-! ## All requests together -/

/-- A step that is not a record leaves the usage table alone. -/
theorem World.answers_usage {w w' : World} {before : ℚ} {op : Op} {r : Service.Reply op}
    (h : w.answers before op r w') (hop : ∀ entry, op ≠ .record entry) : w'.usage = w.usage := by
  cases op with
  | record entry => exact absurd rfl (hop entry)
  | createJob job =>
    obtain ⟨createdAt, rfl | ⟨_, rfl⟩⟩ := h <;> rfl
  | updateJob jobId fields =>
    obtain rfl | ⟨_, rfl⟩ := h <;> rfl
  | monotonic | beforeCall | tokenHex | getJob =>
    obtain ⟨_, rfl⟩ := h
    rfl
  | jitter =>
    obtain ⟨_, _, rfl⟩ := h
    rfl
  | check key =>
    obtain ⟨_, _, _, _, rfl⟩ := h
    rfl
  | _ =>
    obtain rfl := h
    rfl

/-- The usage table holds what was asked to be recorded, if no record is refused. -/
theorem chained_usage {lib : Libraries} {w₀ w : World} {log : List (Entry Service World)}
    (h : Chained world w₀ log w) (hbooked : ∀ en ∈ log, Booked lib en.event) :
    w.usage = w₀.usage ++ recorded (log.map Entry.event) := by
  induction h with
  | nil => simp [recorded]
  | @snoc w log en hchained hbefore hstep ih =>
    have husage := ih fun en' hen' => hbooked en' (List.mem_append_left _ hen')
    obtain ⟨t, before, op, r, after⟩ := en
    obtain rfl := hbefore
    obtain ⟨now, -, hanswers⟩ := hstep
    rw [List.map_append, recorded_append, ← List.append_assoc, ← husage]
    by_cases hop : ∃ entry, op = .record entry
    · obtain ⟨entry, rfl⟩ := hop
      rcases r with name | ⟨⟩
      · exact (hbooked _ List.mem_concat_self).elim
      · obtain hwritten | ⟨hne, -⟩ := hanswers
        · exact congrArg World.usage hwritten
        · exact absurd rfl hne
    · have hnone : recorded [⟨op, r⟩] = [] := by
        cases op <;> first | rfl | exact absurd ⟨_, rfl⟩ hop
      refine (World.answers_usage hanswers fun entry h => hop ⟨entry, h⟩).trans ?_
      simp [Entry.event, hnone]

/-- What a caller is charged for successes. -/
def chargedTo (caller : String) (usage : List UsageEntry) : List CompletionUsage :=
  (usage.filter fun entry => entry.apiKeyId = caller).filterMap UsageEntry.charge

/-- What the requests of a caller have handed over. -/
def handedTo (caller : String) (log : List (Entry Service World))
    (tasks : List (Task (Route × Caller) Service Unit)) : List CompletionUsage :=
  tasks.zipIdx.flatMap fun (task, t) =>
    if task.label.2.id = caller then handedOver (ownTrace t log) else []

section

variable {env : Environment} {settings : Settings} {t₀ : ℚ} {w : World}
  {log : List (Entry Service World)} {tasks : List (Task (Route × Caller) Service Unit)}

/-- A request is recorded for its own caller. -/
theorem records_own (h : Run world (fun request => serve env settings request.1 request.2)
      (World.start settings t₀) log w tasks) {t : ℕ} {task : Task (Route × Caller) Service Unit}
    (htask : tasks[t]? = some task) {entry : UsageEntry}
    (hentry : entry ∈ recorded (ownTrace t log)) : entry.apiKeyId = task.label.2.id := by
  obtain ⟨r, hr⟩ := mem_recorded.mp hentry
  obtain ⟨en, hen, rfl, hevent⟩ := mem_ownTrace.mp hr
  obtain ⟨earlier, later, hsplit⟩ := List.append_of_mem hen
  have hserve : ∀ request : Route × Caller, (serve env settings request.1 request.2).wp
      (Protocol.guarded (Inserts settings request.2 request.1)) (fun _ _ => True) [] :=
    fun _ => serve_inserts
  obtain ⟨task', htask', hinserts⟩ := h.guard hserve hsplit
  obtain rfl := Option.some.inj (htask.symm.trans htask')
  rw [show en.op = .record entry from congrArg Event.op hevent] at hinserts
  cases hinserts with
  | other hop => cases hop
  | usage => rfl

/-- What is charged to a caller for one request is what it handed over, if it is theirs. -/
theorem charged_own (h : Run world (fun request => serve env settings request.1 request.2)
      (World.start settings t₀) log w tasks)
    (hbooked : ∀ en ∈ log, Booked env.toLibraries en.event) {caller : String}
    (hended : ∀ task ∈ tasks, task.label.2.id = caller → task.Ended) {t : ℕ}
    {task : Task (Route × Caller) Service Unit} (htask : tasks[t]? = some task) :
    chargedTo caller (recorded (ownTrace t log)) =
      if task.label.2.id = caller then handedOver (ownTrace t log) else [] := by
  by_cases hcaller : task.label.2.id = caller
  · have hall : ∀ entry ∈ recorded (ownTrace t log), decide (entry.apiKeyId = caller) = true :=
      fun entry hentry => decide_eq_true ((records_own h htask hentry).trans hcaller)
    rw [if_pos hcaller, chargedTo, List.filter_eq_self.mpr hall]
    obtain ⟨u, hrest⟩ := hended task (List.mem_of_getElem? htask) hcaller
    have hsteps := h.trace t task htask
    rw [hrest] at hsteps
    have hown : ∀ ev ∈ ownTrace t log, Booked env.toLibraries ev := by
      intro ev hev
      obtain ⟨en, hen, -, rfl⟩ := mem_ownTrace.mp hev
      exact hbooked en hen
    obtain ⟨tokens, hcharged, hhanded⟩ :=
      Prog.wp_trace (serve_balanced env settings task.label) hsteps hown
    exact hcharged.trans hhanded.symm
  · have hnone : ∀ entry ∈ recorded (ownTrace t log),
        ¬ decide (entry.apiKeyId = caller) = true := by
      intro entry hentry
      rw [decide_eq_true_iff, records_own h htask hentry]
      exact hcaller
    rw [if_neg hcaller, chargedTo, List.filter_eq_nil_iff.mpr hnone]
    rfl

/-- **The books balance.** In every run of any number of requests side by side in which no usage
entry and no row is refused by the database, and no completion has a text that cannot be encoded:
once all requests of a caller have ended, the tokens that the usage table charges them for successes
are, one by one, those of the completions they were answered with and of the jobs whose success was
stored. -/
theorem books_balance (h : Run world (fun request => serve env settings request.1 request.2)
      (World.start settings t₀) log w tasks)
    (hbooked : ∀ en ∈ log, Booked env.toLibraries en.event)
    {caller : String} (hended : ∀ task ∈ tasks, task.label.2.id = caller → task.Ended) :
    (chargedTo caller w.usage).Perm (handedTo caller log tasks) := by
  -- the log is what its requests did, one after the other
  have hmem : ∀ en ∈ log, en.task ∈ tasks.zipIdx.map Prod.snd := by
    intro en hen
    rw [List.zipIdx_map_snd]
    exact List.mem_range'_1.mpr ⟨Nat.zero_le _, by simpa using h.task_lt en hen⟩
  have hnodup : (tasks.zipIdx.map Prod.snd).Nodup := by
    rw [List.zipIdx_map_snd]
    exact List.nodup_range'
  have hperm := events_perm hnodup hmem
  have husage : w.usage = recorded (log.map Entry.event) := chained_usage h.chained hbooked
  have heach : ∀ p ∈ tasks.zipIdx, chargedTo caller (recorded (ownTrace p.2 log)) =
      if p.1.label.2.id = caller then handedOver (ownTrace p.2 log) else [] :=
    fun _ hp => charged_own h hbooked hended (List.mem_zipIdx_iff_getElem?.mp hp)
  have hcharged : (chargedTo caller (recorded (log.map Entry.event))).Perm
      (tasks.zipIdx.flatMap fun p => chargedTo caller (recorded (ownTrace p.2 log))) := by
    refine (((hperm.filterMap _).filter _).filterMap UsageEntry.charge).trans (.of_eq ?_)
    simp only [List.flatMap_map, chargedTo, recorded, List.filterMap_flatMap,
      List.filter_flatMap]
  rw [husage, handedTo]
  exact hcharged.trans (.of_eq (congrArg List.flatten (List.map_congr_left heach)))

end

unseal RetryPolicy.loop in
/-- A completion that was answered is what its caller is charged with. -/
theorem books_balance_hello : ∃ log w, Run world
      (fun request : Route × Caller => serve .sample unlimited request.1 request.2)
      (World.start unlimited 0) log w [⟨(.complete helloRequest, ⟨"k", "k"⟩), .ret ()⟩] ∧
    w.usage.length = 1 ∧ (chargedTo "k" w.usage).Perm
      (handedTo "k" log [⟨(.complete helloRequest, ⟨"k", "k"⟩), .ret ()⟩]) := by
  let answered : World := { World.start unlimited 0 with
    breaker := (World.start unlimited 0).breaker.recordSuccess }
  let metered : World := { answered with
    usage := [CompletionService.entry ⟨"k", "k"⟩ "llama3.2:3b" 200 0 0 (some ⟨0, 0⟩)] }
  have h₀ : Run world (fun request : Route × Caller => serve .sample unlimited request.1 request.2)
      (World.start unlimited 0) _ _ _ := .spawn (.complete helloRequest, ⟨"k", "k"⟩) .start
  have h₁ := h₀.reply 0 rfl (0 : ℚ) (World.start unlimited 0) ⟨0, le_rfl, rfl, rfl⟩
  have h₂ := h₁.reply 0 rfl (0 : ℚ) (World.start unlimited 0) ⟨0, le_rfl, rfl, rfl⟩
  have h₃ := h₂.reply 0 rfl (.ok ()) (World.start unlimited 0) ⟨0, le_rfl, rfl, rfl⟩
  have h₄ := h₃.reply 0 rfl () (World.start unlimited 0) ⟨0, le_rfl, rfl⟩
  have h₅ := h₄.reply 0 rfl (.response helloResponse) (World.start unlimited 0) ⟨0, le_rfl, rfl⟩
  have h₆ := h₅.reply 0 rfl () answered ⟨0, le_rfl, rfl⟩
  have h₇ := h₆.reply 0 rfl (0 : ℚ) answered ⟨0, le_rfl, rfl, rfl⟩
  have h₈ := h₇.reply 0 rfl (.ok ()) metered ⟨0, le_rfl, .inl rfl⟩
  have h₉ := h₈.reply 0 rfl () metered ⟨0, le_rfl, rfl⟩
  have h₁₀ := h₉.reply 0 rfl (.ok ()) metered ⟨0, le_rfl, rfl⟩
  have hsent : Booked Environment.sample.toLibraries ⟨.answer, .response helloResponse⟩ := by
    rintro model _ ⟨⟩
    decide
  obtain ⟨log, hend, hbooked⟩ : ∃ log, Run world
      (fun request : Route × Caller => serve .sample unlimited request.1 request.2)
      (World.start unlimited 0) log metered
      [⟨(.complete helloRequest, ⟨"k", "k"⟩), .ret ()⟩] ∧
        ∀ en ∈ log, Booked Environment.sample.toLibraries en.event := by
    refine ⟨_, h₁₀, ?_⟩
    simp only [Entry.event, List.nil_append, List.cons_append, List.forall_mem_cons, hsent,
      true_and]
    simp [Booked]
  refine ⟨log, metered, hend, rfl, books_balance hend hbooked fun task htask _ => ?_⟩
  obtain rfl := List.mem_singleton.mp htask
  exact ⟨(), rfl⟩

end PrdApiWrapper
