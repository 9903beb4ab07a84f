import PrdApiWrapper.Authorisation
import PrdApiWrapper.Columns
import PrdApiWrapper.Presumed
import Mathlib.Data.List.AList

/-!
# The in-memory repositories

Each repository has a second implementation, over a dictionary or a list, and the fast suite runs
the whole service over those instead of the database. No session is opened then, so that none
commits or rolls back; and a dictionary takes what the database refuses: a row that refers to no
key, a value that does not fit its column, a text that cannot be stored. `doubles_exact` says what
that suite can see: where it asks for nothing that the database refuses, reply for reply, exactly
the runs over the database in which no statement fails and the key table stays as it was filled,
their commits and rollbacks left out.
-/

namespace PrdApiWrapper

open Interaction

/-! ## The repositories -/

/-- `InMemoryApiKeyRepository` -/
structure InMemoryApiKeyRepository where
  /-- `self._callers_by_hash` -/
  callersByHash : AList fun _ : String => Caller

namespace InMemoryApiKeyRepository

variable (lower : String → String)

/-- `add(record)`. -/
def add (repository : InMemoryApiKeyRepository) (record : ApiKeyRecord) :
    InMemoryApiKeyRepository where
  callersByHash := repository.callersByHash.insert (lower record.keyHash) ⟨record.id, record.name⟩

/-- `InMemoryApiKeyRepository(records)`. -/
def create (records : List ApiKeyRecord) : InMemoryApiKeyRepository :=
  records.foldl (add lower) ⟨∅⟩

/-- `find_by_hash(key_hash)`. -/
def findByHash (repository : InMemoryApiKeyRepository) (keyHash : String) : Option Caller :=
  repository.callersByHash.lookup (lower keyHash)

end InMemoryApiKeyRepository

/-- `InMemoryJobRepository` -/
structure InMemoryJobRepository where
  jobs : AList fun _ : String => Job

namespace InMemoryJobRepository

/-- `create(job)` at time `now`. -/
def create (repository : InMemoryJobRepository) (job : NewJob) (now : ℚ) :
    InMemoryJobRepository where
  jobs := repository.jobs.insert job.id (job.row now)

/-- `update(job_id, **fields)`. The object in the dictionary is changed in place. -/
def update (repository : InMemoryJobRepository) (jobId : String) (fields : List JobField) :
    InMemoryJobRepository :=
  match repository.jobs.lookup jobId with
  | some job => ⟨repository.jobs.insert jobId (job.update fields)⟩
  | none => repository

/-- `get(job_id, api_key_id)`. -/
def get (repository : InMemoryJobRepository) (jobId apiKeyId : String) : Option JobView :=
  match repository.jobs.lookup jobId with
  | some job => if job.apiKeyId ≠ apiKeyId then none else some job.toView
  | none => none

/-- The table a dictionary stands for. -/
def table (repository : InMemoryJobRepository) : JobTable := fun id => repository.jobs.lookup id

theorem table_create (repository : InMemoryJobRepository) (job : NewJob) (now : ℚ) :
    (repository.create job now).table = repository.table.create job now := by
  funext id
  by_cases hid : id = job.id
  · subst hid
    rw [JobTable.create_self]
    exact AList.lookup_insert _
  · rw [JobTable.create_of_ne _ _ _ hid]
    exact AList.lookup_insert_ne hid

theorem table_update (repository : InMemoryJobRepository) (jobId : String)
    (fields : List JobField) :
    (repository.update jobId fields).table = repository.table.update jobId fields := by
  funext id
  rw [update]
  cases hlookup : repository.jobs.lookup jobId with
  | some job =>
    by_cases hid : id = jobId
    · subst hid
      rw [JobTable.update_of_some hlookup]
      exact AList.lookup_insert _
    · rw [JobTable.update_of_ne _ hid]
      exact AList.lookup_insert_ne hid
  | none =>
    by_cases hid : id = jobId
    · subst hid
      rw [JobTable.update_self]
      simp [table, hlookup]
    · exact (JobTable.update_of_ne _ hid _).symm

theorem table_get (repository : InMemoryJobRepository) (jobId apiKeyId : String) :
    repository.table.get jobId apiKeyId = repository.get jobId apiKeyId := by
  rw [get, JobTable.get, table]
  cases repository.jobs.lookup jobId with
  | some job => simp only [ite_not]
  | none => rfl

end InMemoryJobRepository

/-- `InMemoryUsageRepository` -/
structure InMemoryUsageRepository where
  entries : List UsageEntry

/-- `record(entry)`. -/
def InMemoryUsageRepository.record (repository : InMemoryUsageRepository) (entry : UsageEntry) :
    InMemoryUsageRepository where
  entries := repository.entries ++ [entry]

/-! ## Keys -/

/-- The key table filled with records, where the database takes them all. -/
def KeyTable.fill (lower : String → String) (table : KeyTable) (records : List ApiKeyRecord) :
    Except String KeyTable :=
  records.foldlM (KeyTable.add lower) table

/-- A dictionary that holds the callers of a table no row of which is revoked. -/
structure Mirrors (repository : InMemoryApiKeyRepository) (table : KeyTable) : Prop where
  unique : table.Unique
  live : ∀ row ∈ table, row.revokedAt = none
  lookup : ∀ keyHash caller, repository.callersByHash.lookup keyHash = some caller ↔
    ∃ row ∈ table, row.keyHash = keyHash ∧ caller = ⟨row.id, row.name⟩

section

variable {lower : String → String} {repository : InMemoryApiKeyRepository} {table : KeyTable}

theorem Mirrors.add {record : ApiKeyRecord} {table' : KeyTable} (h : Mirrors repository table)
    (hadd : table.add lower record = .ok table') :
    Mirrors (repository.add lower record) table' := by
  obtain ⟨rfl, hfresh⟩ := KeyTable.add_eq_ok hadd
  refine ⟨⟨?_, ?_⟩, ?_, fun keyHash caller => ?_⟩
  · exact KeyTable.nodup_map_concat h.unique.ids fun row hrow => (hfresh row hrow).1
  · exact KeyTable.nodup_map_concat h.unique.keyHashes fun row hrow => (hfresh row hrow).2
  · simpa [or_imp, forall_and] using h.live
  · by_cases hhash : keyHash = lower record.keyHash
    · subst hhash
      rw [InMemoryApiKeyRepository.add, AList.lookup_insert]
      constructor
      · rintro ⟨⟩
        exact ⟨_, List.mem_concat_self, rfl, rfl⟩
      · rintro ⟨row, hrow, hhash, rfl⟩
        rcases List.mem_append.mp hrow with hrow | hrow
        · exact absurd hhash (hfresh row hrow).2
        · obtain rfl := List.mem_singleton.mp hrow
          rfl
    · rw [InMemoryApiKeyRepository.add, AList.lookup_insert_ne hhash, h.lookup]
      constructor
      · rintro ⟨row, hrow, hrest⟩
        exact ⟨row, List.mem_append_left _ hrow, hrest⟩
      · rintro ⟨row, hrow, hkey, hcaller⟩
        rcases List.mem_append.mp hrow with hrow | hrow
        · exact ⟨row, hrow, hkey, hcaller⟩
        · obtain rfl := List.mem_singleton.mp hrow
          exact absurd hkey.symm hhash

theorem Mirrors.fill {records : List ApiKeyRecord} {table' : KeyTable}
    (h : Mirrors repository table) (hfill : table.fill lower records = .ok table') :
    Mirrors (records.foldl (InMemoryApiKeyRepository.add lower) repository) table' := by
  induction records generalizing repository table with
  | nil =>
    cases hfill
    exact h
  | cons record records ih =>
    rw [KeyTable.fill, List.foldlM_cons] at hfill
    cases hadd : table.add lower record with
    | error name =>
      rw [hadd] at hfill
      cases hfill
    | ok table₁ =>
      rw [hadd] at hfill
      exact ih (h.add hadd) hfill

theorem mirrors_create {records : List ApiKeyRecord}
    (hfill : KeyTable.fill lower [] records = .ok table) :
    Mirrors (.create lower records) table :=
  Mirrors.fill ⟨KeyTable.unique_nil, by simp, by simp⟩ hfill

/-- Both find the same callers. -/
theorem Mirrors.findByHash (h : Mirrors repository table) (keyHash : String) :
    table.findByHash lower keyHash = .ok (repository.findByHash lower keyHash) := by
  rw [InMemoryApiKeyRepository.findByHash]
  rcases KeyTable.findByHash_cases lower h.unique keyHash with
    ⟨row, hrow, hhash, -, hfound⟩ | ⟨hdead, hfound⟩
  · rw [hfound, (h.lookup _ _).mpr ⟨row, hrow, hhash, rfl⟩]
  · rw [hfound]
    cases hlookup : repository.callersByHash.lookup (lower keyHash) with
    | none => rfl
    | some caller =>
      obtain ⟨row, hrow, hhash, -⟩ := (h.lookup _ _).mp hlookup
      exact absurd (h.live row hrow) (hdead row hrow hhash)

end

/-! ## The bench -/

/-- What the fast suite runs the service over. -/
structure Bench where
  now : ℚ
  breaker : CircuitBreaker
  limiter : InMemoryRateLimiter
  keys : InMemoryApiKeyRepository
  jobs : InMemoryJobRepository
  usage : InMemoryUsageRepository
  issued : List String

namespace Bench

/-- The world a bench stands for. -/
def world (b : Bench) : World where
  now := b.now
  breaker := b.breaker
  limiter := b.limiter
  jobs := b.jobs.table
  usage := b.usage.entries
  issued := b.issued

/-- The process as `build_test_client` starts it. -/
def start (lower : String → String) (settings : Settings) (now : ℚ) (records : List ApiKeyRecord) :
    Bench where
  now := now
  breaker := .create settings.circuitBreakerFailureThreshold settings.circuitBreakerResetSeconds
  limiter := .create settings.rateLimitBurst (settings.rateLimitRequestsPerMinute / 60)
  keys := .create lower records
  jobs := ⟨∅⟩
  usage := ⟨[]⟩
  issued := []

/-- `b.answers lower before op r b'`: the repositories answer at once and never fail, no session is
there to be closed, and everything else is as it is in the world. -/
def answers (lower : String → String) (b : Bench) (before : ℚ) :
    (op : Op) → Service.Reply op → Bench → Prop
  | .findByHash keyHash, r, b' => r = .ok (b.keys.findByHash lower keyHash) ∧ b' = b
  | .createJob job, r, b' =>
    -- `datetime.now(UTC)`
    ∃ createdAt, r = .ok () ∧ b' = { b with jobs := b.jobs.create job createdAt }
  | .updateJob jobId fields, r, b' =>
    r = .ok () ∧ b' = { b with jobs := b.jobs.update jobId fields }
  | .getJob jobId apiKeyId, r, b' => r = .ok (b.jobs.get jobId apiKeyId) ∧ b' = b
  | .record entry, r, b' => r = .ok () ∧ b' = { b with usage := b.usage.record entry }
  | .commit, _, _ | .rollback, _, _ => False
  | op, r, b' => ∃ w, b.world.answers before op r w ∧
      b' = { b with now := w.now, breaker := w.breaker, limiter := w.limiter, issued := w.issued }

end Bench

/-- Time passes, then a request is answered. -/
def bench (lower : String → String) : Semantics Service Bench where
  step b _ op r b' := ∃ now, b.now ≤ now ∧ { b with now := now }.answers lower b.now op r b'

/-- What is taken for granted without a session: there is nothing to commit or to roll back. -/
def closed : (op : Op) → Option (Service.Reply op)
  | .commit | .rollback => some (.ok ())
  | _ => none

/-! ## The schema -/

/-- An `Integer` column has four bytes. -/
def FitsInteger (n : ℤ) : Prop := -2 ^ 31 ≤ n ∧ n < 2 ^ 31

/-- A value that its column takes, where texts can be stored if `storable` says so. -/
def JobField.Fits (storable : String → Prop) : JobField → Prop
  | .status value => value.value.length ≤ 16
  | .model value => value.length ≤ 255 ∧ storable value
  | .content value | .errorMessage value => storable value
  | .errorCode value => value.length ≤ 64 ∧ storable value
  | .promptTokens value | .completionTokens value | .deliveryAttempts value => FitsInteger value
  | .deliveredAt _ => True

/-- A statement that the database takes: its texts can be stored, and the row that it writes refers
to a key and fits the columns. An update looks for the row first, and writes nothing if there is
none. -/
def KeyedWorld.Admits (storable : String → Prop) (w : KeyedWorld) : Op → Prop
  | .findByHash keyHash => storable keyHash
  | .record entry => w.keys.Has entry.apiKeyId ∧ FitsColumns (.record entry) ∧
      storable entry.model ∧ FitsInteger entry.statusCode ∧ FitsInteger entry.durationMs ∧
      FitsInteger entry.promptTokens ∧ FitsInteger entry.completionTokens
  | .createJob job => w.keys.Has job.apiKeyId ∧ FitsColumns (.createJob job) ∧
      storable job.id ∧ storable job.model ∧ storable job.prompt ∧ storable job.callbackUrl
  | .updateJob jobId fields => storable jobId ∧
      (w.world.jobs jobId = none ∨ ∀ field ∈ fields, field.Fits storable)
  | .getJob jobId apiKeyId => storable jobId ∧ storable apiKeyId
  | _ => True

/-! ## Both worlds -/

/-- No statement failed. -/
def Faultless : Event Service → Prop
  | ⟨.findByHash _, .error _⟩ | ⟨.createJob _, .error _⟩ | ⟨.updateJob _ _, .error _⟩
  | ⟨.getJob _ _, .error _⟩ | ⟨.record _, .error _⟩ | ⟨.commit, .error _⟩
  | ⟨.rollback, .error _⟩ => False
  | _ => True

/-- The database: what it does not admit is refused and not written. -/
def database (lower : String → String) (storable : String → Prop) :
    Semantics Service KeyedWorld where
  step w t op r w' := (keyedWorld lower).step w t op r w' ∧
    (KeyedWorld.Admits storable ⟨w.world, w'.keys⟩ op ∨
      ¬ Faultless ⟨op, r⟩ ∧ w'.world = { w.world with now := w'.world.now })

/-- A lookup finds what the dictionary holds. -/
def InMemoryApiKeyRepository.Reads (lower : String → String)
    (repository : InMemoryApiKeyRepository) : Event Service → Prop
  | ⟨.findByHash keyHash, reply⟩ => reply = .ok (repository.findByHash lower keyHash)
  | _ => True

/-- A reply from which no statement failed, and before which the key table stayed as it was. -/
def Undisturbed (en : Entry Service KeyedWorld) : Prop :=
  Faultless en.event ∧ en.after.keys = en.before.keys

section

variable {lower : String → String} {b : Bench} {before : ℚ} {op : Op} {r : Service.Reply op}

/-- The bench fills its key table once. -/
theorem Bench.answers_keys {b' : Bench} (h : b.answers lower before op r b') :
    b'.keys = b.keys := by
  cases op with
  | findByHash | getJob | updateJob | record =>
    obtain ⟨_, rfl⟩ := h
    rfl
  | commit | rollback => cases h
  | _ =>
    obtain ⟨_, _, rfl⟩ := h
    rfl

/-- The requests that are not for a repository. -/
def Elsewhere : Op → Prop
  | .findByHash _ | .createJob _ | .updateJob _ _ | .getJob _ _ | .record _ | .commit
  | .rollback => False
  | _ => True

/-- They leave the tables alone. -/
theorem World.answers_elsewhere {w w' : World} (h : w.answers before op r w')
    (hop : Elsewhere op) : w' = { w with
      now := w'.now, breaker := w'.breaker, limiter := w'.limiter, issued := w'.issued } := by
  cases op with
  | findByHash | createJob | updateJob | getJob | record | commit | rollback => cases hop
  | monotonic | beforeCall | tokenHex =>
    obtain ⟨_, rfl⟩ := h
    rfl
  | jitter =>
    obtain ⟨_, _, rfl⟩ := h
    rfl
  | check key =>
    obtain ⟨_, _, _, _, rfl⟩ := h
    rfl
  | _ =>
    obtain rfl := h
    rfl

/-- A write that did not fail was done. -/
theorem World.writes_ok {w written w' : World} :
    World.Writes (.ok ()) w written w' ↔ w' = written := by
  constructor
  · rintro (rfl | ⟨hne, -⟩)
    · rfl
    · exact absurd rfl hne
  · exact .inl

/-- The bench answers like the world that it stands for, where no statement fails. -/
def Bench.Matches (lower : String → String) (b : Bench) (before : ℚ) (op : Op)
    (r : Service.Reply op) : Prop :=
  ∀ w', (∃ b', b.answers lower before op r b' ∧ b'.world = w' ∧ b'.keys = b.keys) ↔
    b.world.answers before op r w' ∧ Faultless ⟨op, r⟩ ∧ b.keys.Reads lower ⟨op, r⟩

namespace Bench

/-- A statement that fails does so in the world only. -/
theorem Matches.of_fault (hbench : ∀ b', ¬ b.answers lower before op r b')
    (hfault : ¬ Faultless ⟨op, r⟩) : b.Matches lower before op r := by
  refine fun w' => iff_of_false ?_ fun h => hfault h.2.1
  rintro ⟨b', h, -⟩
  exact hbench b' h

theorem matches_findByHash (keyHash : String) (r : Except String (Option Caller)) :
    b.Matches lower before (.findByHash keyHash) r := by
  intro w'
  constructor
  · rintro ⟨b', ⟨rfl, rfl⟩, rfl, -⟩
    exact ⟨rfl, trivial, rfl⟩
  · rintro ⟨rfl, -, hreads⟩
    exact ⟨b, ⟨hreads, rfl⟩, rfl, rfl⟩

theorem matches_createJob (job : NewJob) (r : Except String Unit) :
    b.Matches lower before (.createJob job) r := by
  rcases r with name | ⟨⟩
  · refine .of_fault ?_ id
    rintro _ ⟨_, h, -⟩
    cases h
  · intro w'
    constructor
    · rintro ⟨_, ⟨createdAt, -, rfl⟩, rfl, -⟩
      refine ⟨⟨createdAt, .inl ?_⟩, trivial, trivial⟩
      simp only [world, InMemoryJobRepository.table_create]
    · rintro ⟨⟨createdAt, hwrites⟩, -, -⟩
      obtain rfl := World.writes_ok.mp hwrites
      refine ⟨_, ⟨createdAt, rfl, rfl⟩, ?_, rfl⟩
      simp only [world, InMemoryJobRepository.table_create]

theorem matches_updateJob (jobId : String) (fields : List JobField) (r : Except String Unit) :
    b.Matches lower before (.updateJob jobId fields) r := by
  rcases r with name | ⟨⟩
  · refine .of_fault ?_ id
    rintro _ ⟨h, -⟩
    cases h
  · intro w'
    constructor
    · rintro ⟨_, ⟨-, rfl⟩, rfl, -⟩
      refine ⟨.inl ?_, trivial, trivial⟩
      simp only [world, InMemoryJobRepository.table_update]
    · rintro ⟨hwrites, -, -⟩
      obtain rfl := World.writes_ok.mp hwrites
      refine ⟨_, ⟨rfl, rfl⟩, ?_, rfl⟩
      simp only [world, InMemoryJobRepository.table_update]

theorem matches_getJob (jobId apiKeyId : String) (r : Except String (Option JobView)) :
    b.Matches lower before (.getJob jobId apiKeyId) r := by
  have htable := InMemoryJobRepository.table_get b.jobs jobId apiKeyId
  rcases r with name | view
  · refine .of_fault ?_ id
    rintro _ ⟨h, -⟩
    cases h
  · intro w'
    constructor
    · rintro ⟨b', ⟨hview, rfl⟩, rfl, -⟩
      refine ⟨⟨?_, rfl⟩, trivial, trivial⟩
      rintro view' ⟨⟩
      exact (Except.ok.inj hview).trans htable.symm
    · rintro ⟨⟨hview, rfl⟩, -, -⟩
      exact ⟨b, ⟨congrArg Except.ok ((hview view rfl).trans htable), rfl⟩, rfl, rfl⟩

theorem matches_record (entry : UsageEntry) (r : Except String Unit) :
    b.Matches lower before (.record entry) r := by
  rcases r with name | ⟨⟩
  · refine .of_fault ?_ id
    rintro _ ⟨h, -⟩
    cases h
  · intro w'
    constructor
    · rintro ⟨_, ⟨-, rfl⟩, rfl, -⟩
      exact ⟨.inl rfl, trivial, trivial⟩
    · rintro ⟨hwrites, -, -⟩
      obtain rfl := World.writes_ok.mp hwrites
      exact ⟨_, ⟨rfl, rfl⟩, rfl, rfl⟩

/-- What is not for a repository is the world's. -/
theorem matches_elsewhere (hop : Elsewhere op) (r : Service.Reply op) :
    b.Matches lower before op r := by
  have hbench : ∀ b', b.answers lower before op r b' ↔ ∃ w, b.world.answers before op r w ∧
      b' = { b with
        now := w.now, breaker := w.breaker, limiter := w.limiter, issued := w.issued } := by
    cases op with
    | findByHash | createJob | updateJob | getJob | record | commit | rollback => cases hop
    | _ => exact fun _ => Iff.rfl
  have hfaultless : Faultless ⟨op, r⟩ ∧ b.keys.Reads lower ⟨op, r⟩ := by
    cases op with
    | findByHash | createJob | updateJob | getJob | record | commit | rollback => cases hop
    | _ => exact ⟨trivial, trivial⟩
  intro w'
  simp only [hbench, hfaultless, and_true]
  constructor
  · rintro ⟨_, ⟨w, hanswers, rfl⟩, rfl, -⟩
    exact World.answers_elsewhere hanswers hop ▸ hanswers
  · intro hanswers
    exact ⟨_, ⟨w', hanswers, rfl⟩, (World.answers_elsewhere hanswers hop).symm, rfl⟩

/-- **The bench answers like the world** that it stands for, where no statement fails, whatever it
is asked but to close a session. -/
theorem answers_iff (hop : closed op = none) (r : Service.Reply op) :
    b.Matches lower before op r := by
  cases op with
  | findByHash keyHash => exact matches_findByHash keyHash r
  | createJob job => exact matches_createJob job r
  | updateJob jobId fields => exact matches_updateJob jobId fields r
  | getJob jobId apiKeyId => exact matches_getJob jobId apiKeyId r
  | record entry => exact matches_record entry r
  | commit | rollback => cases hop
  | _ =>
    refine matches_elsewhere ?_ r
    trivial

/-- It can take an earlier time for that of the previous answer. -/
theorem answers_earlier {b' : Bench} {earlier : ℚ} (hearlier : earlier ≤ before)
    (h : b.answers lower before op r b') : b.answers lower earlier op r b' := by
  cases op with
  | check key =>
    obtain ⟨w, ⟨created, hbefore, hrest⟩, rfl⟩ := h
    exact ⟨w, ⟨created, hearlier.trans hbefore, hrest⟩, rfl⟩
  | _ => exact h

end Bench

end

/-- A bench, and the world and key table it stands for. -/
structure StandsFor (repository : InMemoryApiKeyRepository) (table : KeyTable) (b : Bench)
    (w : KeyedWorld) : Prop where
  world : w.world = b.world
  table : w.keys = table
  keys : b.keys = repository

section

variable {lower : String → String} {repository : InMemoryApiKeyRepository} {table : KeyTable}

theorem start_standsFor (settings : Settings) (t₀ : ℚ) {records : List ApiKeyRecord} :
    StandsFor (.create lower records) table (Bench.start lower settings t₀ records)
      ⟨World.start settings t₀, table⟩ :=
  ⟨rfl, rfl, rfl⟩

/-- A lookup that does not fail reads the table exactly if it reads the dictionary. -/
theorem Mirrors.answers_iff (h : Mirrors repository table) {ev : Event Service}
    (hfaultless : Faultless ev) : table.Answers lower ev ↔ repository.Reads lower ev := by
  obtain ⟨op, r⟩ := ev
  cases op with
  | findByHash keyHash =>
    rcases r with name | found
    · exact hfaultless.elim
    · constructor
      · intro hanswers
        exact (hanswers found rfl).symm.trans (h.findByHash keyHash)
      · rintro hreads found' ⟨⟩
        exact (h.findByHash keyHash).trans hreads.symm
  | _ => exact Iff.rfl

variable {storable : String → Prop} {b b' : Bench} {w w' : KeyedWorld} {t : ℕ} {op : Op}
  {r : Service.Reply op}

/-- What the bench answers, the database could have answered, where it admits the request. -/
theorem bench_database (hmirrors : Mirrors repository table) (h : StandsFor repository table b w)
    (hop : closed op = none) (hadmits : KeyedWorld.Admits storable ⟨b.world, table⟩ op)
    (hstep : (bench lower).step b t op r b') :
    ∃ w', (database lower storable).step w t op r w' ∧ StandsFor repository table b' w' ∧
      Undisturbed ⟨t, w, op, r, w'⟩ := by
  obtain ⟨v, keys⟩ := w
  obtain ⟨rfl, rfl, rfl⟩ := h
  obtain ⟨now, hnow, hanswers⟩ := hstep
  have hkeys := Bench.answers_keys hanswers
  obtain ⟨hworld, hfaultless, hreads⟩ :=
    (Bench.answers_iff hop r b'.world).mp ⟨b', hanswers, rfl, hkeys⟩
  exact ⟨⟨b'.world, keys⟩, ⟨⟨.refl, (hmirrors.answers_iff hfaultless).mpr hreads, now, hnow,
    hworld⟩, .inl hadmits⟩, ⟨rfl, rfl, hkeys⟩, hfaultless, rfl⟩

/-- The database can close a session at any time. -/
theorem database_closes (h : StandsFor repository table b w) {reply : Service.Reply op}
    (hop : closed op = some reply) :
    ∃ w', (database lower storable).step w t op reply w' ∧ StandsFor repository table b w' ∧
      Undisturbed ⟨t, w, op, reply, w'⟩ := by
  cases op with
  | commit | rollback =>
    cases hop
    exact ⟨w, ⟨⟨.refl, trivial, w.world.now, le_rfl, rfl⟩, .inl trivial⟩, h, trivial, rfl⟩
  | _ => cases hop

/-- A bench behind the time of a world and key table it stands for otherwise. -/
def StandsBehind (repository : InMemoryApiKeyRepository) (table : KeyTable) (w : KeyedWorld)
    (b : Bench) : Prop :=
  ∃ now, b.now ≤ now ∧ StandsFor repository table { b with now := now } w

/-- What the database answers, where no statement fails, the bench could have answered, and the
database admits the request. -/
theorem database_bench (hmirrors : Mirrors repository table)
    (hundisturbed : Undisturbed ⟨t, w, op, r, w'⟩) (h : StandsBehind repository table w b)
    (hstep : (database lower storable).step w t op r w') (hop : closed op = none) :
    ∃ b', (bench lower).step b t op r b' ∧ StandsBehind repository table w' b' ∧
      KeyedWorld.Admits storable ⟨b.world, table⟩ op := by
  obtain ⟨hfaultless, hkeys⟩ := hundisturbed
  obtain ⟨⟨-, hlookup, now, hnow, hanswers⟩, hschema⟩ := hstep
  obtain ⟨later, hlater, hworld, rfl, rfl⟩ := h
  simp only at hkeys
  rw [hkeys] at hlookup hschema
  rw [hworld] at hnow hanswers hschema
  obtain ⟨b', hb', hworld', hkeys'⟩ := (Bench.answers_iff (b := { b with now := now }) hop r _).mpr
    ⟨hanswers, hfaultless, (hmirrors.answers_iff hfaultless).mp hlookup⟩
  refine ⟨b', ⟨now, hlater.trans hnow, Bench.answers_earlier hlater hb'⟩,
    ⟨b'.now, le_rfl, hworld'.symm, hkeys, hkeys'⟩, ?_⟩
  rcases hschema with hadmits | ⟨hfault, -⟩
  · exact hadmits
  · exact absurd hfaultless hfault

/-- What the database does when it closes a session without fault leaves the bench as it is. -/
theorem closes_behind (hundisturbed : Undisturbed ⟨t, w, op, r, w'⟩)
    (h : StandsBehind repository table w b) (hstep : (database lower storable).step w t op r w')
    {reply : Service.Reply op} (hop : closed op = some reply) :
    r = reply ∧ StandsBehind repository table w' b := by
  obtain ⟨hfaultless, hkeys⟩ := hundisturbed
  obtain ⟨⟨-, -, now, hnow, hanswers⟩, -⟩ := hstep
  obtain ⟨later, hlater, hworld, rfl, rfl⟩ := h
  rw [hworld] at hnow hanswers
  cases op with
  | commit | rollback =>
    cases hop
    rcases r with name | ⟨⟩
    · exact hfaultless.elim
    · exact ⟨rfl, now, hlater.trans hnow, hanswers, hkeys, rfl⟩
  | _ => cases hop

end

end PrdApiWrapper
