import PrdApiWrapper.Replies

/-!
# The reported budget

A request that cost its caller a token is owed the count, whatever becomes of it: the headers of
the decision are handed to the response and stashed on the request, and merged into the answer to
an exception. The handler of invalid bodies does not merge them (only if it fails itself, over a NaN
in the body or a lone surrogate, does the one of last resort). And a limiter that does not refill
charges its bucket and fails before there is a decision to report.
-/

namespace PrdApiWrapper

open Interaction

/-- The check that an entry records spends a token: there was one, and so `check` takes it. -/
def Spends (key : String) (en : Entry Service World) : Prop :=
  ∃ created, created ≤ en.after.now ∧
    en.event = ⟨.check key, (en.before.limiter.check key created en.after.now).1⟩ ∧
    1 ≤ ((en.before.limiter.bucketFor key created).refill en.after.now).tokens

/-- A bucket that refills, by a positive rate or a negative one, grants a token it has. -/
theorem TokenBucket.take_granted {bucket : TokenBucket} (hrate : bucket.refillRate ≠ 0)
    {tokens now : ℚ} (htokens : tokens ≤ (bucket.refill now).tokens) :
    ∃ d, (bucket.take tokens now).1 = .ok d ∧ d.allowed = true := by
  have hrate' : (bucket.refill now).refillRate ≠ 0 := hrate
  simp only [take, htokens, decide_true, if_true, decision, divide, if_neg hrate']
  exact ⟨_, rfl, rfl⟩

/-- One that does not refill charges for it, and fails. -/
theorem TokenBucket.take_fails {bucket : TokenBucket} (hrate : bucket.refillRate = 0)
    (tokens now : ℚ) : ∃ exc, (bucket.take tokens now).1 = .error exc := by
  simp only [take, decision]
  have hrate' : ∀ charged : TokenBucket, charged.refillRate = 0 →
      divide (charged.capacity - charged.tokens) charged.refillRate =
        .error (.foreign "ZeroDivisionError") := fun charged h => if_pos h
  refine ⟨.foreign "ZeroDivisionError", ?_⟩
  rw [hrate']
  · rfl
  · split
    · exact hrate
    · exact hrate

/-- **What a spent token is answered with**: leave, unless the limiter does not refill. -/
theorem Spends.answer {key : String} {en : Entry Service World} {rate : ℚ} (h : Spends key en)
    (huniform : en.before.limiter.Uniform rate) :
    (rate ≠ 0 ∧ ∃ d : RateLimitDecision, en.event = ⟨.check key, .ok d⟩ ∧ d.allowed = true) ∨
      rate = 0 ∧ ∃ exc, en.event = ⟨.check key, .error exc⟩ := by
  obtain ⟨created, _, hevent, htoken⟩ := h
  have hbucket := huniform.bucketFor key created
  rw [hevent, InMemoryRateLimiter.check_fst]
  by_cases hrate : rate = 0
  · obtain ⟨exc, hexc⟩ := TokenBucket.take_fails (hbucket.trans hrate) 1 en.after.now
    rw [hexc]
    exact .inr ⟨hrate, exc, rfl⟩
  · obtain ⟨d, hd, hallowed⟩ := TokenBucket.take_granted (hbucket.trans_ne hrate) htoken
    rw [hd]
    exact .inl ⟨hrate, d, rfl, hallowed⟩

variable {env : Environment} {settings : Settings} {w : World} {log : List (Entry Service World)}
  {tasks : List (Task (Submission × Option String) Service Unit)}

/-- **When a charged request learns its budget.** In every run of any requests side by side, with
whatever the provider and the databases do: the answer to a request whose check spent a token
carries the three headers of that very decision, if and only if its body was not rejected and the
limiter refills. -/
theorem charged_learns_budget {now : ℚ}
    (h : Run world (receive env settings) (.start settings now) log w tasks)
    {earlier : List (Entry Service World)} {answer : Entry Service World}
    {later : List (Entry Service World)} (hsplit : log = earlier ++ answer :: later)
    {reply : HttpReply} (hanswer : answer.op = .respond reply)
    {task : Task (Submission × Option String) Service Unit}
    (htask : tasks[answer.task]? = some task) {charge : Entry Service World}
    (hcharge : charge ∈ earlier) (hsame : charge.task = answer.task) {key : String}
    (hspends : Spends key charge) :
    (∃ decision, charge.event = ⟨.check key, .ok decision⟩ ∧ reply.Reports decision) ↔
      task.label.1.rejected env.toLibraries = false ∧ settings.rateLimitRequestsPerMinute ≠ 0 := by
  have hmem : charge ∈ log := by
    rw [hsplit]
    exact List.mem_append_left _ hcharge
  have huniform := (chained_uniform h.chained (.create settings.rateLimitBurst
    (settings.rateLimitRequestsPerMinute / 60))).2 charge hmem
  obtain ⟨task', htask', _, hproper⟩ := run_proper h hsplit
  obtain rfl := Option.some.inj (htask.symm.trans htask')
  rw [hanswer] at hproper
  have hown : charge.event ∈ ownTrace answer.task earlier :=
    mem_ownTrace.mpr ⟨charge, hcharge, hsame, rfl⟩
  have hzero : (settings.rateLimitRequestsPerMinute : ℚ) / 60 = 0 ↔
      settings.rateLimitRequestsPerMinute = 0 := by simp
  rcases hspends.answer huniform with ⟨hrate, d, hevent, hallowed⟩ | ⟨hrate, exc, hevent⟩
  · have hgrant : d ∈ (ownTrace answer.task earlier).filterMap grantOf := by
      rw [List.mem_filterMap]
      exact ⟨_, hown, by rw [hevent]; exact if_pos hallowed⟩
    have hbudget := hproper.budget d hgrant
    rw [and_iff_left (mt hzero.mpr hrate), ← hbudget]
    refine ⟨?_, ?_⟩
    · rintro ⟨d', hevent', hreports⟩
      rw [hevent] at hevent'
      cases hevent'
      exact hreports
    · exact fun hreports => ⟨d, hevent, hreports⟩
  · refine iff_of_false ?_ fun hboth => hboth.2 (hzero.mp hrate)
    rintro ⟨d, hevent', _⟩
    rw [hevent] at hevent'
    cases hevent'

/-- A request of the caller with the key `k`. -/
def keyed (submission : Submission) : Submission × Option String := (submission, some "k")

/-- The first token of the caller `k` is there to be spent. -/
theorem dayOne_spends (t : ℕ) (w' : World) (hnow : w'.now = 0) : Spends "k"
    (⟨t, dayOne, .check "k", .ok ⟨true, 10, 9, 1, 0⟩, w'⟩ : Entry Service World) := by
  refine ⟨0, hnow.ge, ?_, ?_⟩
  · rw [hnow]
    exact congrArg (@Event.mk Service (.check "k")) (dayOne_check "k").symm
  · rw [hnow]
    have hbucket : dayOne.limiter.bucketFor "k" 0 = .create 10 1 0 := by
      simp [InMemoryRateLimiter.bucketFor, dayOne, World.start, InMemoryRateLimiter.create,
        Settings.defaults]
    simp only [hbucket]
    norm_num [TokenBucket.refill, TokenBucket.create]

/-- A job is accepted, and the caller learns that 9 of 10 tokens remain. -/
theorem charged_learns_budget_accepted :
    ∃ log w task reply, Run world (receive .sample .defaults) dayOne log w [task] ∧
      ⟨.respond reply, ()⟩ ∈ ownTrace 0 log ∧ reply.statusCode = 202 ∧
      reply.Reports ⟨true, 10, 9, 1, 0⟩ := by
  let checked : World := { dayOne with limiter := (dayOne.limiter.check "k" 0 0).2 }
  let issued : World := { checked with issued := ["j"] }
  let created : World := { issued with
    jobs := issued.jobs.create (JobService.newJob "j" hookRequest ⟨"k", "k"⟩ "llama3.2:3b") 0 }
  have h₀ : Run world (receive .sample .defaults) dayOne _ _ _ :=
    .spawn (keyed (.valid (.submit hookRequest))) .start
  have h₁ := h₀.reply 0 rfl (.ok (some ⟨"k", "k"⟩)) dayOne ⟨0, le_rfl, rfl⟩
  have h₂ := h₁.reply 0 rfl (.ok ⟨true, 10, 9, 1, 0⟩) checked
    ⟨0, le_rfl, 0, le_rfl, le_rfl, (dayOne_check "k").symm, rfl⟩
  have h₃ := h₂.reply 0 rfl "j" issued ⟨0, le_rfl, by rintro ⟨⟩, rfl⟩
  have h₄ := h₃.reply 0 rfl (.ok ()) created ⟨0, le_rfl, 0, .inl rfl⟩
  have h₅ := h₄.reply 0 rfl () created ⟨0, le_rfl, rfl⟩
  have hreports := (charged_learns_budget h₅ rfl rfl rfl (List.mem_cons_of_mem _ List.mem_cons_self)
    rfl (dayOne_spends 0 checked rfl)).mpr ⟨rfl, by decide⟩
  obtain ⟨d, hevent, hreports⟩ := hreports
  cases hevent
  exact ⟨_, _, _, _, h₅, mem_ownTrace.mpr ⟨_, List.mem_append_right _ List.mem_cons_self, rfl, rfl⟩,
    rfl, hreports⟩

/-- An invalid body costs a token, and its 422 does not say what remains. -/
theorem invalid_body_unreported :
    ∃ log w task reply, Run world (receive .sample .defaults) dayOne log w [task] ∧
      (∃ charge ∈ log, charge.task = 0 ∧ Spends "k" charge) ∧
      ⟨.check "k", .ok ⟨true, 10, 9, 1, 0⟩⟩ ∈ ownTrace 0 log ∧
      ⟨.respond reply, ()⟩ ∈ ownTrace 0 log ∧ reply.statusCode = 422 ∧ reply.headers = [] ∧
      ¬ reply.Reports ⟨true, 10, 9, 1, 0⟩ := by
  let checked : World := { dayOne with limiter := (dayOne.limiter.check "k" 0 0).2 }
  have h₀ : Run world (receive .sample .defaults) dayOne _ _ _ :=
    .spawn (keyed (.invalid [.str "prompt: Field required"])) .start
  have h₁ := h₀.reply 0 rfl (.ok (some ⟨"k", "k"⟩)) dayOne ⟨0, le_rfl, rfl⟩
  have h₂ := h₁.reply 0 rfl (.ok ⟨true, 10, 9, 1, 0⟩) checked
    ⟨0, le_rfl, 0, le_rfl, le_rfl, (dayOne_check "k").symm, rfl⟩
  have h₃ := h₂.reply 0 rfl (.ok ()) checked ⟨0, le_rfl, rfl⟩
  have h₄ := h₃.reply 0 rfl () checked ⟨0, le_rfl, rfl⟩
  refine ⟨_, _, _, _, h₄, ⟨_, List.mem_append_left _ (List.mem_append_left _
    (List.mem_append_right _ List.mem_cons_self)), rfl, dayOne_spends 0 checked rfl⟩,
    mem_ownTrace.mpr ⟨_, List.mem_append_left _ (List.mem_append_left _
      (List.mem_append_right _ List.mem_cons_self)), rfl, rfl⟩,
    mem_ownTrace.mpr ⟨_, List.mem_append_right _ List.mem_cons_self, rfl, rfl⟩, rfl, rfl, ?_⟩
  intro hreports
  cases hreports ("X-RateLimit-Limit", "10") List.mem_cons_self

end PrdApiWrapper
