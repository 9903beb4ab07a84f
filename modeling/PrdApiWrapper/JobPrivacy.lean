import PrdApiWrapper.JobRun
import PrdApiWrapper.Window

/-!
# The privacy of jobs

`get` is scoped by caller, but an update finds its row by id alone. That callers nevertheless do
not notice each other rests on who knows which id: a row is inserted under a fresh id by one call
of `accept`, and updated only by the background task of that call.

Seen by one caller, the table that all share is a table of their own (`privateTable`): their
inserts and updates act on it, nothing else does, and `get` answers from it. What a caller is
answered is therefore determined by what they do themselves.
-/

namespace PrdApiWrapper

open Interaction

/-! ## The job system -/

/-- A call of the service. -/
inductive JobCall where
  /-- `accept`, and the background task that follows it -/
  | submit (request : JobRequest) (model : String)
  | get (jobId : String)

/-- What a call does; it returns the view if it is a `get`. -/
def serveCall (call : Caller × JobCall) : Prog JobEffects (Except Exc (Option JobView)) :=
  ExceptT.run (match call.2 with
    | .submit request model => do
      let accepted ← jobService.accept request call.1 model
      jobService.run accepted.id request call.1
      pure none
    | .get jobId => some <$> jobService.get jobId call.1)

/-- What the calls share, and the circumstances of the last operation. -/
structure JobSystem where
  table : JobTable
  /-- the ids `secrets.token_hex` has produced -/
  issued : List String
  /-- when it was -/
  now : ℚ
  /-- whether what it was to write was written -/
  written : Bool

/-- The system before the first call. -/
def JobSystem.start : JobSystem := ⟨fun _ => none, [], 0, false⟩

/-- `system.answers now written op r system'`: at the time `now`, the operation `op` can be answered
with `r`. A repository may fail at any time, after it has written or before. -/
def JobSystem.answers (system : JobSystem) (now : ℚ) (written : Bool) :
    (op : JobOp) → JobEffects.Reply op → JobSystem → Prop
  | .create job, (r : Except Exc Unit), system' =>
    (r = .ok () → written = true) ∧ system' = { system with
      table := if written then system.table.create job now else system.table
      now := now
      written := written }
  | .update jobId fields, (r : Except Exc Unit), system' =>
    (r = .ok () → written = true) ∧ system' = { system with
      table := if written then system.table.update jobId fields else system.table
      now := now
      written := written }
  | .get jobId apiKeyId, (r : Except Exc (Option JobView)), system' =>
    (∀ view, r = .ok view → view = system.table.get jobId apiKeyId) ∧
      system' = { system with now := now, written := written }
  | .tokenHex, (r : String), system' =>
    r ∉ system.issued ∧
      system' = { system with issued := r :: system.issued, now := now, written := written }
  | .complete _ _, _, system' | .deliver _ _, _, system' | .utcNow, _, system' =>
    system' = { system with now := now, written := written }

/-- Completions and deliveries end however and whenever they like. -/
def jobSystem : Semantics JobEffects JobSystem where
  step system _ op r system' := ∃ now written, system.answers now written op r system'

/-! ## What a call does with ids -/

/-- The id a call was given for its job, and whose call it is. -/
abbrev Claim := Option (String × String)

/-- What a call of the caller with the id `owner` does: it takes an id, inserts a row of its owner's
under it, and updates that row; and it looks jobs up for its owner. -/
def keepsTo (owner : String) : Protocol JobEffects Claim where
  allows claim op := match op with
    | .tokenHex => claim = none
    | .create job => claim = some (job.id, owner) ∧ job.apiKeyId = owner
    | .update jobId _ => claim = some (jobId, owner)
    | .get _ apiKeyId => apiKeyId = owner
    | _ => True
  next claim op r claim' := match op, r with
    | .tokenHex, id => claim' = some (id, owner)
    | _, _ => claim' = claim

/-- What the background task of the job `jobId` asks for. -/
def Tends (jobId : String) (op : JobOp) : Prop :=
  match op with
  | .update id _ => id = jobId
  | .complete _ _ | .deliver _ _ | .utcNow => True
  | _ => False

/-- The background task of a job updates no row but its own. -/
theorem run_tends (jobId : String) (request : JobRequest) (caller : Caller) :
    (jobService.run jobId request caller).run.Only (Tends jobId) := by
  have hupdate : ∀ fields, (jobService.jobs.update jobId fields).run.Only (Tends jobId) :=
    fun fields => ⟨rfl, fun _ => trivial⟩
  exact JobService.only_run hupdate ⟨trivial, fun _ => trivial⟩ fun payload =>
    JobService.only_deliverResult ⟨trivial, fun _ => trivial⟩ ⟨trivial, fun _ => trivial⟩ hupdate

/-- It does not give up the id of its job. -/
theorem keepsTo_tends {owner : String} (jobId : String) (op : JobOp) (hop : Tends jobId op)
    (claim : Claim) (hclaim : claim = some (jobId, owner)) :
    (keepsTo owner).allows claim op ∧
      ∀ r claim', (keepsTo owner).next claim op r claim' → claim' = some (jobId, owner) := by
  subst hclaim
  cases op with
  | update id fields =>
    obtain rfl : id = jobId := hop
    exact ⟨rfl, fun _ _ h => h⟩
  | complete _ _ | deliver _ _ | utcNow => exact ⟨trivial, fun _ _ h => h⟩
  | _ => exact hop.elim

/-- Every call keeps to the rows of its owner. -/
theorem serveCall_keepsTo (call : Caller × JobCall) :
    (serveCall call).wp (keepsTo call.1.id) (fun _ _ => True) none := by
  obtain ⟨caller, call⟩ := call
  rw [serveCall, ← Async.awp_outcome _ fun _ _ => True]
  cases call with
  | submit request model =>
    simp only [JobService.accept, Async.awp_bind, Async.awp_lift, Async.awp_pure]
    refine ⟨rfl, fun (id : String) claim hclaim => ?_⟩
    obtain rfl : claim = some (id, caller.id) := hclaim
    refine ⟨⟨rfl, rfl⟩, ?_⟩
    rintro (exc | ⟨⟩) claim rfl
    · trivial
    · have hrun : Async.awp (keepsTo caller.id) (jobService.run id request caller)
          (fun _ _ => True) (fun _ _ => True) (some (id, caller.id)) :=
        Async.awp_mono (fun _ _ _ => trivial) (fun _ _ _ => trivial)
          (Async.awp_of_only (run_tends id request caller) (keepsTo_tends id) rfl)
      exact hrun
  | get jobId =>
    simp only [JobService.get, Async.awp_map, Async.awp_bind]
    refine ⟨rfl, ?_⟩
    rintro (exc | (_ | view)) claim _ <;> trivial

/-! ## The rows of one owner -/

/-- No update changes whose row it is. -/
theorem Job.update_apiKeyId (fields : List JobField) :
    ∀ job : Job, (job.update fields).apiKeyId = job.apiKeyId := by
  induction fields with
  | nil => exact fun job => rfl
  | cons field fields ih =>
    intro job
    rw [Job.update_cons, ih]
    cases field <;> rfl

namespace JobTable

/-- The rows of one owner. -/
def ownedBy (table : JobTable) (owner : String) : JobTable := fun id =>
  match table id with
  | some job => if job.apiKeyId = owner then some job else none
  | none => none

variable (table : JobTable) {owner : String}

/-- `get` looks at the rows of its caller only. -/
theorem get_ownedBy (id : String) : (table.ownedBy owner).get id owner = table.get id owner := by
  unfold get ownedBy
  cases table id with
  | none => rfl
  | some job => by_cases h : job.apiKeyId = owner <;> simp [h]

/-- An update acts alike on the rows of one owner. -/
theorem update_ownedBy (id : String) (fields : List JobField) :
    (table.update id fields).ownedBy owner = (table.ownedBy owner).update id fields := by
  funext id'
  by_cases hid : id' = id
  · subst hid
    simp only [ownedBy, update_self]
    cases table id' with
    | none => rfl
    | some job => by_cases h : job.apiKeyId = owner <;> simp [h, Job.update_apiKeyId]
  · rw [update_of_ne _ hid]
    simp only [ownedBy, update_of_ne _ hid]

/-- So does the insert of a row of theirs. -/
theorem create_ownedBy {job : NewJob} (howner : job.apiKeyId = owner) (now : ℚ) :
    (table.create job now).ownedBy owner = (table.ownedBy owner).create job now := by
  funext id
  by_cases hid : id = job.id
  · subst hid
    simp [ownedBy, create_self, NewJob.row, howner]
  · rw [create_of_ne _ job now hid]
    simp only [ownedBy, create_of_ne _ job now hid]

/-- A row of somebody else may be inserted unnoticed where they have none. -/
theorem create_ownedBy_of_ne {job : NewJob} (howner : job.apiKeyId ≠ owner)
    (hnone : table.ownedBy owner job.id = none) (now : ℚ) :
    (table.create job now).ownedBy owner = table.ownedBy owner := by
  funext id
  by_cases hid : id = job.id
  · subst hid
    rw [hnone]
    simp [ownedBy, create_self, NewJob.row, howner]
  · simp only [ownedBy, create_of_ne _ job now hid]

/-- And a row that is not theirs may be updated. -/
theorem update_ownedBy_of_none {id : String} (hnone : table.ownedBy owner id = none)
    (fields : List JobField) : (table.update id fields).ownedBy owner = table.ownedBy owner := by
  rw [update_ownedBy]
  funext id'
  by_cases hid : id' = id
  · subst hid
    rw [update_self, hnone]
    rfl
  · rw [update_of_ne _ hid]

end JobTable

/-! ## Who has which id -/

/-- Every row is that of the call that was given its id, and no id is given twice. -/
structure Claims (system : JobSystem) (φ : Phases Claim) : Prop where
  rows : ∀ id job, system.table id = some job → ∃ t, φ t = some (id, job.apiKeyId)
  issued : ∀ t id owner, φ t = some (id, owner) → id ∈ system.issued
  exclusive : ∀ t t' id owner owner', φ t = some (id, owner) → φ t' = some (id, owner') → t = t'

namespace Claims

variable {system system' : JobSystem} {φ : Phases Claim} {t : ℕ} {id owner : String}

theorem start : Claims .start fun _ => none where
  rows id job h := by cases h
  issued t id owner h := by cases h
  exclusive t t' id owner owner' h := by cases h

/-- Nobody else has a row under an id that was given out. -/
theorem ownedBy_eq_none (h : Claims system φ) (hclaim : φ t = some (id, owner)) {other : String}
    (hother : owner ≠ other) : system.table.ownedBy other id = none := by
  cases hrow : system.table id with
  | none => simp [JobTable.ownedBy, hrow]
  | some job =>
    obtain ⟨t', ht'⟩ := h.rows id job hrow
    obtain rfl := h.exclusive t t' id _ _ hclaim ht'
    obtain rfl : owner = job.apiKeyId := congrArg Prod.snd (Option.some.inj (hclaim.symm.trans ht'))
    simp [JobTable.ownedBy, hrow, hother]

/-- The rows may change as long as each is that of the call that was given its id. -/
theorem keep (h : Claims system φ) (hissued : system'.issued = system.issued)
    (hrows : ∀ id job, system'.table id = some job → ∃ t, φ t = some (id, job.apiKeyId)) :
    Claims system' φ where
  rows := hrows
  issued := by rw [hissued]; exact h.issued
  exclusive := h.exclusive

/-- An update keeps every row where it is. -/
theorem keep_update (h : Claims system φ) (jobId : String) (fields : List JobField) :
    ∀ id job, system.table.update jobId fields id = some job →
      ∃ t, φ t = some (id, job.apiKeyId) := by
  intro id job hjob
  by_cases hid : id = jobId
  · subst hid
    rw [JobTable.update_self, Option.map_eq_some_iff] at hjob
    obtain ⟨before, hbefore, rfl⟩ := hjob
    rw [Job.update_apiKeyId]
    exact h.rows id before hbefore
  · rw [JobTable.update_of_ne _ hid] at hjob
    exact h.rows id job hjob

/-- An insert makes a row of the call that was given its id. -/
theorem keep_create (h : Claims system φ) {job : NewJob}
    (hclaim : φ t = some (job.id, job.apiKeyId)) (now : ℚ) :
    ∀ id row, system.table.create job now id = some row →
      ∃ t, φ t = some (id, row.apiKeyId) := by
  intro id row hrow
  by_cases hid : id = job.id
  · subst hid
    rw [JobTable.create_self] at hrow
    obtain rfl := Option.some.inj hrow
    exact ⟨t, hclaim⟩
  · rw [JobTable.create_of_ne _ job now hid] at hrow
    exact h.rows id row hrow

/-- A fresh id goes to a call that has none. -/
theorem claim (h : Claims system φ) (hfree : φ t = none) (hfresh : id ∉ system.issued)
    (htable : system'.table = system.table) (hissued : system'.issued = id :: system.issued) :
    Claims system' (Function.update φ t (some (id, owner))) where
  rows id' job hjob := by
    rw [htable] at hjob
    obtain ⟨t', ht'⟩ := h.rows id' job hjob
    refine ⟨t', ?_⟩
    rw [Function.update_of_ne, ht']
    rintro rfl
    rw [hfree] at ht'
    cases ht'
  issued t' id' owner' ht' := by
    rw [hissued]
    by_cases hself : t' = t
    · subst hself
      rw [Function.update_self] at ht'
      cases ht'
      exact List.mem_cons_self
    · rw [Function.update_of_ne hself] at ht'
      exact List.mem_cons_of_mem _ (h.issued t' id' owner' ht')
  exclusive t₁ t₂ id' owner₁ owner₂ h₁ h₂ := by
    have fresh : ∀ t' owner', t' ≠ t → φ t' = some (id, owner') → False := fun t' owner' _ ht' =>
      hfresh (h.issued t' id owner' ht')
    by_cases hself₁ : t₁ = t <;> by_cases hself₂ : t₂ = t
    · rw [hself₁, hself₂]
    · subst hself₁
      rw [Function.update_self] at h₁
      rw [Function.update_of_ne hself₂] at h₂
      cases h₁
      exact (fresh t₂ owner₂ hself₂ h₂).elim
    · subst hself₂
      rw [Function.update_self] at h₂
      rw [Function.update_of_ne hself₁] at h₁
      cases h₂
      exact (fresh t₁ owner₁ hself₁ h₁).elim
    · rw [Function.update_of_ne hself₁] at h₁
      rw [Function.update_of_ne hself₂] at h₂
      exact h.exclusive t₁ t₂ id' owner₁ owner₂ h₁ h₂

/-- **A step keeps the claims.** -/
theorem step (h : Claims system φ) {op : JobOp} {r : JobEffects.Reply op}
    (hallows : (keepsTo owner).allows (φ t) op) (hstep : jobSystem.step system t op r system') :
    ∃ claim, (keepsTo owner).next (φ t) op r claim ∧
      Claims system' (Function.update φ t claim) := by
  have same : system'.issued = system.issued →
      (∀ id job, system'.table id = some job → ∃ t, φ t = some (id, job.apiKeyId)) →
      Claims system' (Function.update φ t (φ t)) := by
    intro hissued hrows
    rw [Function.update_eq_self]
    exact h.keep hissued hrows
  obtain ⟨now, written, hanswers⟩ := hstep
  cases op with
  | create job =>
    obtain ⟨hclaim, rfl⟩ := hallows
    obtain ⟨_, rfl⟩ := hanswers
    refine ⟨φ t, rfl, same rfl ?_⟩
    cases written
    · exact h.rows
    · exact h.keep_create hclaim now
  | update jobId fields =>
    obtain ⟨_, rfl⟩ := hanswers
    refine ⟨φ t, rfl, same rfl ?_⟩
    cases written
    · exact h.rows
    · exact h.keep_update jobId fields
  | get jobId apiKeyId =>
    obtain ⟨_, rfl⟩ := hanswers
    exact ⟨φ t, rfl, same rfl h.rows⟩
  | tokenHex =>
    obtain ⟨hfresh, rfl⟩ := hanswers
    exact ⟨_, rfl, h.claim hallows hfresh rfl rfl⟩
  | complete _ _ | deliver _ _ | utcNow =>
    obtain rfl := hanswers
    exact ⟨φ t, rfl, same rfl h.rows⟩

end Claims

/-! ## What one caller does and is answered -/

/-- One operation of a caller's: by which of the caller's calls, what was asked and replied, when,
and whether it was written. -/
structure Doing where
  call : ℕ
  event : Event JobEffects
  now : ℚ
  written : Bool

namespace Doing

/-- The operation without the view it was answered with. -/
def blank (doing : Doing) : Doing :=
  match doing.event with
  | ⟨.get jobId apiKeyId, .ok _⟩ => { doing with event := ⟨.get jobId apiKeyId, .ok none⟩ }
  | _ => doing

/-- What the operation makes of a table. -/
def apply (table : JobTable) (doing : Doing) : JobTable :=
  match doing.event with
  | ⟨.create job, _⟩ => if doing.written then table.create job doing.now else table
  | ⟨.update jobId fields, _⟩ => if doing.written then table.update jobId fields else table
  | _ => table

/-- The operation with the view a table answers it with. -/
def answered (table : JobTable) (doing : Doing) : Doing :=
  match doing.event with
  | ⟨.get jobId apiKeyId, .ok _⟩ =>
    { doing with event := ⟨.get jobId apiKeyId, .ok (table.get jobId apiKeyId)⟩ }
  | _ => doing

end Doing

/-- A table that only one caller's operations act on. -/
def privateTable : Machine JobTable Doing Doing where
  next := Doing.apply
  out := Doing.answered

variable {log : List (Entry JobEffects JobSystem)} {system : JobSystem}
variable {tasks : List (Task (Caller × JobCall) JobEffects (Except Exc (Option JobView)))}

/-- Whether a call is one of the caller with the id `owner`. -/
def isOf (owner : String)
    (tasks : List (Task (Caller × JobCall) JobEffects (Except Exc (Option JobView)))) (t : ℕ) :
    Bool :=
  tasks[t]?.any fun task => task.label.1.id = owner

/-- The operation an entry records. -/
def doingOf (call : ℕ) (en : Entry JobEffects JobSystem) : Doing where
  call := call
  event := en.event
  now := en.after.now
  written := en.after.written

/-- That operation, if it is one of the caller's; calls are numbered caller by caller. -/
def doingBy (owner : String)
    (tasks : List (Task (Caller × JobCall) JobEffects (Except Exc (Option JobView))))
    (en : Entry JobEffects JobSystem) : Option Doing :=
  if isOf owner tasks en.task then some (doingOf (rank (isOf owner tasks) en.task) en) else none

/-- The operations of one caller's calls, in order. -/
def doings (owner : String)
    (tasks : List (Task (Caller × JobCall) JobEffects (Except Exc (Option JobView))))
    (log : List (Entry JobEffects JobSystem)) : List Doing :=
  log.filterMap (doingBy owner tasks)

/-- The calls of one caller, with what is left of each. -/
def callsOf (owner : String)
    (tasks : List (Task (Caller × JobCall) JobEffects (Except Exc (Option JobView)))) :
    List (Task (Caller × JobCall) JobEffects (Except Exc (Option JobView))) :=
  pick (isOf owner tasks) tasks

/-- Entries act on the rows of one owner as on a table of their own, or not at all. -/
def ActsPrivately (owner : String) (call : Caller × JobCall) (en : Entry JobEffects JobSystem) :
    Prop :=
  if call.1.id = owner then
    ∀ n, doingOf n en = (doingOf n en).blank.answered (en.before.table.ownedBy owner) ∧
      en.after.table.ownedBy owner = (doingOf n en).blank.apply (en.before.table.ownedBy owner)
  else en.after.table.ownedBy owner = en.before.table.ownedBy owner

/-- An operation of the owner acts on the rows of the owner as on a table of their own. -/
theorem acts_on_own {system system' : JobSystem} {claim : Claim} {owner : String} {t : ℕ}
    {op : JobOp} {r : JobEffects.Reply op} (hallows : (keepsTo owner).allows claim op)
    (hstep : jobSystem.step system t op r system') (n : ℕ) :
    doingOf n ⟨t, system, op, r, system'⟩ = (doingOf n ⟨t, system, op, r, system'⟩).blank.answered
        (system.table.ownedBy owner) ∧
      system'.table.ownedBy owner = (doingOf n ⟨t, system, op, r, system'⟩).blank.apply
        (system.table.ownedBy owner) := by
  obtain ⟨now, written, hanswers⟩ := hstep
  cases op with
  | create job =>
    obtain ⟨_, hjob⟩ := hallows
    obtain ⟨_, rfl⟩ := hanswers
    refine ⟨rfl, ?_⟩
    cases written
    · rfl
    · exact JobTable.create_ownedBy _ hjob now
  | update jobId fields =>
    obtain ⟨_, rfl⟩ := hanswers
    refine ⟨rfl, ?_⟩
    cases written
    · rfl
    · exact JobTable.update_ownedBy _ jobId fields
  | get jobId apiKeyId =>
    obtain rfl : apiKeyId = owner := hallows
    obtain ⟨hview, rfl⟩ := hanswers
    match r with
    | .error exc => exact ⟨rfl, rfl⟩
    | .ok view =>
      refine ⟨?_, rfl⟩
      rw [hview view rfl, ← JobTable.get_ownedBy]
      rfl
  | tokenHex =>
    obtain ⟨_, rfl⟩ := hanswers
    exact ⟨rfl, rfl⟩
  | complete _ _ | deliver _ _ | utcNow =>
    obtain rfl := hanswers
    exact ⟨rfl, rfl⟩

/-- An operation of anybody else leaves them as they are: its row is claimed by another. -/
theorem acts_on_others {system system' : JobSystem} {φ : Phases Claim} (h : Claims system φ)
    {caller owner : String} (hother : caller ≠ owner) {t : ℕ} {op : JobOp}
    {r : JobEffects.Reply op} (hallows : (keepsTo caller).allows (φ t) op)
    (hstep : jobSystem.step system t op r system') :
    system'.table.ownedBy owner = system.table.ownedBy owner := by
  obtain ⟨now, written, hanswers⟩ := hstep
  cases op with
  | create job =>
    obtain ⟨hclaim, hjob⟩ := hallows
    obtain ⟨_, rfl⟩ := hanswers
    cases written
    · rfl
    · refine JobTable.create_ownedBy_of_ne _ ?_ (h.ownedBy_eq_none hclaim hother) now
      rwa [hjob]
  | update jobId fields =>
    obtain ⟨_, rfl⟩ := hanswers
    cases written
    · rfl
    · exact JobTable.update_ownedBy_of_none _ (h.ownedBy_eq_none hallows hother) fields
  | get _ _ | tokenHex =>
    obtain ⟨_, rfl⟩ := hanswers
    rfl
  | complete _ _ | deliver _ _ | utcNow =>
    obtain rfl := hanswers
    rfl

/-- **An operation concerns its own caller's rows only**, and is answered from them. -/
theorem acts_privately {system system' : JobSystem} {φ : Phases Claim} (h : Claims system φ)
    {call : Caller × JobCall} {t : ℕ} {op : JobOp} {r : JobEffects.Reply op}
    (hallows : (keepsTo call.1.id).allows (φ t) op)
    (hstep : jobSystem.step system t op r system') (owner : String) :
    ActsPrivately owner call ⟨t, system, op, r, system'⟩ := by
  rw [ActsPrivately]
  split
  · next howner => exact acts_on_own (howner ▸ hallows) hstep
  · next hother => exact acts_on_others h hother hallows hstep

/-! ## Runs -/

/-- One caller's window on the job system: their rows, what they ask for and what they get. -/
def callerWindow (owner : String)
    (tasks : List (Task (Caller × JobCall) JobEffects (Except Exc (Option JobView)))) :
    Window JobEffects JobSystem JobTable Doing Doing where
  view system := system.table.ownedBy owner
  input en := (doingBy owner tasks en).map Doing.blank
  output := doingBy owner tasks

/-- Through it, every entry of a run looks like a step of their own table, or like nothing. -/
theorem callerWindow_follows (h : Run jobSystem serveCall .start log system tasks)
    (owner : String) : ∀ en ∈ log, (callerWindow owner tasks).Follows privateTable en := by
  obtain ⟨_, _, _, _, hentries⟩ := h.ghost (fun call => keepsTo call.1.id)
    (fun _ _ _ => True) none Claims (ActsPrivately owner) Claims.start serveCall_keepsTo
    fun call system φ t op r system' hclaims hallows hstep =>
      ⟨acts_privately hclaims hallows hstep owner, hclaims.step hallows hstep⟩
  intro en hen
  obtain ⟨task, htask, hacts⟩ := hentries en hen
  have his : isOf owner tasks en.task = decide (task.label.1.id = owner) := by
    rw [isOf, htask, Option.any_some]
  rw [ActsPrivately] at hacts
  unfold Window.Follows callerWindow doingBy
  by_cases howner : task.label.1.id = owner
  · rw [if_pos howner] at hacts
    simp only [his, howner, decide_true, if_true, Option.map_some]
    exact ⟨congrArg some (hacts _).1, (hacts _).2⟩
  · rw [if_neg howner] at hacts
    simp only [his, howner, decide_false, Bool.false_eq_true, if_false, Option.map_none]
    exact ⟨trivial, hacts⟩

/-- **What a caller gets is what their own operations make of a table of their own.** -/
theorem doings_private (h : Run jobSystem serveCall .start log system tasks) (owner : String) :
    doings owner tasks log =
      privateTable.outputs (fun _ => none) ((doings owner tasks log).map Doing.blank) := by
  have hthrough :=
    (h.chained.through (callerWindow owner tasks) privateTable (callerWindow_follows h owner)).2
  rw [doings, List.map_filterMap]
  exact hthrough

/-- The requests and replies of a call are found among the operations of its caller. -/
theorem ownTrace_doings {owner : String} {t : ℕ} (ht : isOf owner tasks t = true) :
    ownTrace t log =
      ((doings owner tasks log).filter fun doing => doing.call = rank (isOf owner tasks) t).map
        Doing.event := by
  induction log with
  | nil => rfl
  | cons en log ih =>
    by_cases hself : en.task = t
    · subst hself
      have hdoings : doings owner tasks (en :: log) = _ := List.filterMap_cons_some (if_pos ht)
      rw [hdoings, List.filter_cons_of_pos (by simp [doingOf]), List.map_cons]
      rw [ownTrace, List.filter_cons_of_pos (by simp), List.map_cons]
      exact congrArg (en.event :: ·) ih
    · have hown : ownTrace t (en :: log) = ownTrace t log := by
        rw [ownTrace, List.filter_cons_of_neg (by simpa using hself)]
        rfl
      rw [hown, ih]
      by_cases hen : isOf owner tasks en.task = true
      · have hcall : rank (isOf owner tasks) en.task ≠ rank (isOf owner tasks) t :=
          fun hrank => hself (rank_inj hen ht hrank)
        have hdoings : doings owner tasks (en :: log) = _ := List.filterMap_cons_some (if_pos hen)
        rw [hdoings, List.filter_cons_of_neg (by simp [doingOf, hcall])]
        rfl
      · have hdoings : doings owner tasks (en :: log) = _ := List.filterMap_cons_none (if_neg hen)
        rw [hdoings]
        rfl

/-- A call and its label are what is picked for its caller. -/
theorem exists_of_callsOf {owner : String} {n : ℕ}
    {task : Task (Caller × JobCall) JobEffects (Except Exc (Option JobView))}
    (h : Run jobSystem serveCall .start log system tasks)
    (htask : (callsOf owner tasks)[n]? = some task) :
    Prog.Steps (serveCall task.label)
      (((doings owner tasks log).filter fun doing => doing.call = n).map Doing.event)
      task.rest := by
  obtain ⟨t, ht, rfl, hget⟩ := exists_of_pick htask
  rw [← ownTrace_doings ht]
  exact h.trace t task hget

/-- What is left of a caller's calls is determined by their labels and operations. -/
theorem callsOf_unique {owner : String} {log₁ log₂ : List (Entry JobEffects JobSystem)}
    {system₁ system₂ : JobSystem}
    {tasks₁ tasks₂ : List (Task (Caller × JobCall) JobEffects (Except Exc (Option JobView)))}
    (h₁ : Run jobSystem serveCall .start log₁ system₁ tasks₁)
    (h₂ : Run jobSystem serveCall .start log₂ system₂ tasks₂)
    (hcalls : (callsOf owner tasks₁).map Task.label = (callsOf owner tasks₂).map Task.label)
    (hdoings : doings owner tasks₁ log₁ = doings owner tasks₂ log₂) :
    callsOf owner tasks₁ = callsOf owner tasks₂ := by
  apply List.ext_getElem?
  intro n
  have hlabel := congrArg (·[n]?) hcalls
  simp only [List.getElem?_map] at hlabel
  cases hget₁ : (callsOf owner tasks₁)[n]? with
  | none =>
    rw [hget₁, Option.map_none, eq_comm, Option.map_eq_none_iff] at hlabel
    rw [hlabel]
  | some task₁ =>
    rw [hget₁, Option.map_some, eq_comm, Option.map_eq_some_iff] at hlabel
    obtain ⟨task₂, hget₂, hsame⟩ := hlabel
    have hsteps₁ := exists_of_callsOf h₁ hget₁
    have hsteps₂ := exists_of_callsOf h₂ hget₂
    -- both calls were started alike and got the same replies
    rw [hsame, ← hdoings] at hsteps₂
    have hrest := hsteps₁.unique hsteps₂
    rw [hget₂]
    cases task₁
    cases task₂
    cases hsame
    cases hrest
    rfl

/-- A finished `get` of an id under which its caller has no row did not find the job, unless the
repository failed. -/
theorem get_hidden (h : Run jobSystem serveCall .start log system tasks) {caller : Caller}
    {jobId : String} {outcome : Except Exc (Option JobView)} {en : Entry JobEffects JobSystem}
    (hen : en ∈ log) (htask : tasks[en.task]? = some ⟨(caller, .get jobId), .ret outcome⟩)
    (hhidden : ∀ job, en.before.table jobId = some job → job.apiKeyId ≠ caller.id) :
    outcome = .error (.app (.new .jobNotFound)) ∨
      ∃ exc, en.event = ⟨.get jobId caller.id, .error exc⟩ ∧ outcome = .error exc := by
  have htrace := h.trace en.task _ htask
  have hmem : en.event ∈ ownTrace en.task log := mem_ownTrace.mpr ⟨en, hen, rfl, rfl⟩
  obtain ⟨earlier, later, rfl⟩ := List.append_of_mem hen
  obtain ⟨_, now, written, hanswers⟩ := h.chained.split.2 earlier en later rfl
  have hnone : en.before.table.get jobId caller.id = none := by
    rw [JobTable.get]
    cases hrow : en.before.table jobId with
    | none => rfl
    | some job => exact if_neg (hhidden job hrow)
  revert hmem htrace
  generalize ownTrace en.task (earlier ++ en :: later) = trace
  intro htrace hmem
  cases htrace with
  | @cons _ _ r rest _ hrest =>
    -- the one request of a `get` is the one that was answered
    have hrest' : rest = [] := by
      revert hrest
      rcases r with exc | (_ | view) <;> (intro hrest; cases hrest; rfl)
    subst hrest'
    rw [List.mem_singleton] at hmem
    obtain ⟨t, before, op, reply, after⟩ := en
    cases hmem
    match reply with
    | .error exc =>
      cases hrest
      exact .inr ⟨exc, rfl, rfl⟩
    | .ok view =>
      have hview : view = none := (hanswers.1 view rfl).trans hnone
      rw [hview] at hrest
      cases hrest
      exact .inl rfl

/-- **Callers do not notice each other.** Take any two runs of the job system in which the caller
with the id `owner` makes the same calls, and these make the same operations with the same replies,
the views of their `get`s apart. Then all of these calls have come to the same: they go on alike,
or ended with the same result. And in every run a finished `get` of an id that is somebody else's,
in whatever state its job was, raised what it raises for an id nobody ever had. -/
theorem job_noninterference (owner : String) {log₁ log₂ : List (Entry JobEffects JobSystem)}
    {system₁ system₂ : JobSystem}
    {tasks₁ tasks₂ : List (Task (Caller × JobCall) JobEffects (Except Exc (Option JobView)))}
    (h₁ : Run jobSystem serveCall .start log₁ system₁ tasks₁)
    (h₂ : Run jobSystem serveCall .start log₂ system₂ tasks₂)
    (hcalls : (callsOf owner tasks₁).map Task.label = (callsOf owner tasks₂).map Task.label)
    (hdoings : (doings owner tasks₁ log₁).map Doing.blank =
      (doings owner tasks₂ log₂).map Doing.blank) :
    callsOf owner tasks₁ = callsOf owner tasks₂ ∧
      doings owner tasks₁ log₁ = doings owner tasks₂ log₂ ∧
      ∀ en ∈ log₁, ∀ caller jobId outcome, caller.id = owner →
        tasks₁[en.task]? = some ⟨(caller, .get jobId), .ret outcome⟩ →
        (∀ job, en.before.table jobId = some job → job.apiKeyId ≠ owner) →
        outcome = .error (.app (.new .jobNotFound)) ∨
          ∃ exc, en.event = ⟨.get jobId owner, .error exc⟩ ∧ outcome = .error exc := by
  have hsame : doings owner tasks₁ log₁ = doings owner tasks₂ log₂ := by
    rw [doings_private h₁ owner, doings_private h₂ owner, hdoings]
  refine ⟨callsOf_unique h₁ h₂ hcalls hsame, hsame, ?_⟩
  rintro en hen caller jobId outcome rfl htask hhidden
  exact get_hidden h₁ hen htask hhidden

/-- The system in which the job `"j"` was accepted for the caller `a`, and is running. -/
def runningJob : JobSystem where
  table := JobTable.update (JobTable.create (fun _ => none)
    (JobService.newJob "j" hookRequest ⟨"a", "a"⟩ "llama3.2:3b") 0) "j" [.status .running]
  issued := ["j"]
  now := 0
  written := true

/-- Whether `"j"` is the running job of `a`, or nobody ever submitted one: `b` asks for it and is
answered the same. -/
theorem job_noninterference_running : ∃ log₁ log₂,
    Run jobSystem serveCall .start log₁ ⟨fun _ => none, [], 1, false⟩
      [⟨(⟨"b", "b"⟩, .get "j"), .ret (.error (.app (.new .jobNotFound)))⟩] ∧
    ∃ running outcome, Run jobSystem serveCall .start log₂
      { runningJob with now := 1, written := false }
      [⟨(⟨"a", "a"⟩, .submit hookRequest "llama3.2:3b"), running⟩,
        ⟨(⟨"b", "b"⟩, .get "j"), .ret outcome⟩] ∧
    outcome = .error (.app (.new .jobNotFound)) := by
  have idle : Run jobSystem serveCall .start [] .start [] := .start
  have asked := idle.spawn (⟨"b", "b"⟩, JobCall.get "j")
  have h₁ := asked.reply 0 rfl (.ok none : Except Exc (Option JobView))
    ⟨fun _ => none, [], 1, false⟩ ⟨1, false, by rintro _ ⟨⟩; rfl, rfl⟩
  have submitted := idle.spawn (⟨"a", "a"⟩, JobCall.submit hookRequest "llama3.2:3b")
  have named := submitted.reply 0 rfl "j" ⟨fun _ => none, ["j"], 0, true⟩
    ⟨0, true, by rintro ⟨⟩, rfl⟩
  have created := named.reply 0 rfl (.ok () : Except Exc Unit) _ ⟨0, true, fun _ => rfl, rfl⟩
  have running := created.reply 0 rfl (.ok () : Except Exc Unit) runningJob
    ⟨0, true, fun _ => rfl, rfl⟩
  have h₂ := (running.spawn (⟨"b", "b"⟩, JobCall.get "j")).reply 1 rfl
    (.ok none : Except Exc (Option JobView)) { runningJob with now := 1, written := false }
    ⟨1, false, by rintro _ ⟨⟩; rfl, rfl⟩
  refine ⟨_, _, h₁, _, _, h₂, ?_⟩
  have hsame := (job_noninterference "b" h₁ h₂ rfl rfl).1
  exact ((Prog.ret.inj (Task.mk.inj (List.cons.inj hsame).1).2)).symm

end PrdApiWrapper
