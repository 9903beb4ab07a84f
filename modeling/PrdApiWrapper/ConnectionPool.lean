import PrdApiWrapper.World
import PrdApiWrapper.Rules

/-!
# The connection pool

The engine owns a bounded pool of `P` connections. A request takes one at the first statement of
its session, `find_by_hash`, and keeps it until the session commits or rolls back, which FastAPI
leaves to the very end of the request. The usage and job repositories open a transaction of their
own for every operation, and take a further connection for it meanwhile.

So a request holds one connection while it waits for another, and the pool can deadlock: `P`
requests that have each authenticated hold all connections, and wait for ever once each records or
stores something. `no_deadlock_of_spare` says what it takes, and `pool_deadlocks` runs into it.
-/

namespace PrdApiWrapper

open Interaction

/-! ## Requests and connections -/

/-- What a request does with the database, and everything else. -/
inductive ConnectionOp where
  /-- a request of the service, on whatever connection it needs -/
  | run (op : Op)
  /-- the request's session takes a connection at its first statement -/
  | checkoutSession
  /-- and gives it back -/
  | checkinSession
  /-- a session of a repository's own takes a connection -/
  | checkoutOwn
  /-- and gives it back -/
  | checkinOwn

/-- The interface of a process with a connection pool. -/
abbrev Database : Effects where
  Op := ConnectionOp
  Reply
    | .run op => Service.Reply op
    | .checkoutSession | .checkinSession | .checkoutOwn | .checkinOwn => Unit

/-- Make one request. -/
def ConnectionOp.request (op : ConnectionOp) : Prog Database (Database.Reply op) :=
  @Prog.perform Database op

/-- `async with self._session_factory() as session`, around one operation. -/
def inOwnSession (op : Op) : Prog Database (Service.Reply op) := do
  ConnectionOp.checkoutOwn.request
  let reply ← (ConnectionOp.run op).request
  ConnectionOp.checkinOwn.request
  pure reply

/-- The connections each request of the service takes and gives back. -/
def borrowing : (op : Op) → Prog Database (Service.Reply op)
  | .findByHash keyHash => do
    ConnectionOp.checkoutSession.request
    (ConnectionOp.run (.findByHash keyHash)).request
  | .commit => do
    let reply ← (ConnectionOp.run .commit).request
    match reply with
    | .ok () => do
      ConnectionOp.checkinSession.request
      pure reply
    -- a rollback follows
    | .error _ => pure reply
  | .rollback => do
    let reply ← (ConnectionOp.run .rollback).request
    ConnectionOp.checkinSession.request
    pure reply
  | .record entry => inOwnSession (.record entry)
  | .createJob job => inOwnSession (.createJob job)
  | .updateJob jobId fields => inOwnSession (.updateJob jobId fields)
  | .getJob jobId apiKeyId => inOwnSession (.getJob jobId apiKeyId)
  | op => (ConnectionOp.run op).request

/-- A whole request, with the connections it takes. -/
def handleOn (env : Environment) (settings : Settings) (request : Route × Option String) :
    Prog Database Unit :=
  (handle env settings request.1 request.2).interp borrowing

/-- The process and its pool: which requests hold a connection for their session, and which for a
transaction of a repository. -/
structure Process where
  world : World
  sessions : Finset ℕ
  own : Finset ℕ

/-- The process at the start, with every connection in the pool. -/
def Process.start (settings : Settings) (now : ℚ) : Process where
  world := .start settings now
  sessions := ∅
  own := ∅

/-- A pool of `P` connections. A session that has a connection keeps it for further statements; one
that has none waits until one is free, without a time limit. -/
def pool (P : ℕ) : Semantics Database Process where
  step p t op r p' := match op with
    | .run op => ∃ w', world.step p.world t op r w' ∧ p' = { p with world := w' }
    | .checkoutSession =>
      (t ∈ p.sessions ∧ p' = p) ∨
      (t ∉ p.sessions ∧ p.sessions.card + p.own.card < P ∧
        p' = { p with sessions := insert t p.sessions })
    | .checkinSession => p' = { p with sessions := p.sessions.erase t }
    | .checkoutOwn =>
      t ∉ p.own ∧ p.sessions.card + p.own.card < P ∧ p' = { p with own := insert t p.own }
    | .checkinOwn => p' = { p with own := p.own.erase t }

/-! ## Deadlocks -/

/-- Some request has not ended, and none can take a step. -/
def Deadlocked (P : ℕ) (p : Process) (tasks : List (Task (Route × Option String) Database Unit)) :
    Prop :=
  (∃ (t : ℕ) (task : Task (Route × Option String) Database Unit) (op : ConnectionOp)
    (k : Database.Reply op → Prog Database Unit), tasks[t]? = some task ∧ task.rest = .op op k) ∧
  ∀ (t : ℕ) (task : Task (Route × Option String) Database Unit) (op : ConnectionOp)
    (k : Database.Reply op → Prog Database Unit), tasks[t]? = some task → task.rest = .op op k →
    ∀ r p', ¬ (pool P).step p t op r p'

/-- A request that has come so far may still ask for a connection for a transaction of its own. -/
def MayBorrow (program : Prog Database Unit) (trace : List (Event Database)) : Prop :=
  ∃ rest, Prog.Steps program trace rest ∧ ¬ rest.Only (· ≠ ConnectionOp.checkoutOwn)

/-- Every connection is held for the session of a request, and each of these requests may still ask
for a further one. -/
def Crowded (env : Environment) (settings : Settings) (P : ℕ)
    (tasks : List (Task (Route × Option String) Database Unit))
    (log : List (Entry Database Process))
    (p : Process) : Prop :=
  p.sessions.card = P ∧ ∀ t ∈ p.sessions, ∃ task, tasks[t]? = some task ∧
    MayBorrow (handleOn env settings task.label) (ownTrace t log)

/-- A request takes the last connection for its session, while all others are held for the
sessions of requests that may still ask for a further one. -/
def TakesLast (env : Environment) (settings : Settings) (P : ℕ)
    (tasks : List (Task (Route × Option String) Database Unit))
    (log : List (Entry Database Process))
    (en : Entry Database Process) : Prop :=
  en.op = .checkoutSession ∧ en.task ∉ en.before.sessions ∧ en.before.sessions.card + 1 = P ∧
  ∀ t ∈ en.before.sessions, ∃ task, tasks[t]? = some task ∧
    MayBorrow (handleOn env settings task.label) (ownTrace t log)

/-- What a request may do later it may do already. -/
theorem MayBorrow.earlier {program : Prog Database Unit} {trace : List (Event Database)}
    {ev : Event Database} (h : MayBorrow program (trace ++ [ev])) : MayBorrow program trace := by
  obtain ⟨rest, hsteps, hborrows⟩ := h
  obtain ⟨between, hto, hfrom⟩ := hsteps.split
  exact ⟨between, hto, fun honly => hborrows (hfrom.only honly)⟩

/-! ## What a request holds -/

/-- Whether the session of a request holds a connection after a request and its reply. -/
def sessionAfter (held : Bool) (ev : Event Service) : Bool :=
  match ev with
  | ⟨.findByHash _, _⟩ => true
  | ⟨.commit, .ok ()⟩ | ⟨.rollback, _⟩ => false
  | _ => held

/-- Requests seen from the connection of their session. -/
def ofSession : Protocol Service Bool where
  allows _ _ := True
  next held op r held' := held' = sessionAfter held ⟨op, r⟩

/-- A request ends with the connection of its session given back. -/
theorem closes_session : Closes ofSession (· = false) where
  commit _ := ⟨trivial, fun _ h => h⟩
  rollback _ := ⟨trivial, fun _ _ h => h⟩
  answer _ _ _ _ hheld := ⟨trivial, fun _ _ h => h.trans hheld⟩

theorem handle_session (env : Environment) (settings : Settings) (route : Route)
    (credentials : Option String) :
    (handle env settings route credentials).wp ofSession (fun _ held => held = false) false := by
  have hall : ∀ held op, ofSession.allows held op := fun _ _ => trivial
  have hany : ∀ {α : Type} (x : Async Service Exc α) (held : Bool),
      Async.awp ofSession x (fun _ _ => True) (fun _ _ => True) held := fun x held =>
    (Async.awp_outcome x (fun _ _ => True) held).mpr (Prog.wp_true hall x.run held)
  rw [handle, Prog.wp_bind]
  refine Prog.wp_mono ?_ (Prog.wp_true hall (authenticate env settings credentials).run false)
  rintro (exc | caller) held _
  · exact wp_fail closes_session _ [] exc held
  · refine wp_serve closes_session (hany _ held) fun held₁ _ => ?_
    refine Async.awp_mono ?_ (fun _ _ h => h) (hany _ held₁)
    exact fun answer _ _ collected => ⟨trivial, fun _ held₂ _ => hany answer.background held₂⟩

/-- The connections a request holds. -/
structure Holding where
  /-- for its session -/
  session : Bool
  /-- for a transaction of a repository -/
  own : Bool

/-- Nothing is asked of the pool in a transaction of a repository but the end of it. -/
def ofPool : Protocol Database Holding where
  allows held op := match op with
    | .run _ => True
    | .checkoutSession | .checkinSession | .checkoutOwn => held.own = false
    | .checkinOwn => held.own = true
  next held op _ held' := match op with
    | .run _ => held' = held
    | .checkoutSession => held' = { held with session := true }
    | .checkinSession => held' = { held with session := false }
    | .checkoutOwn => held' = { held with own := true }
    | .checkinOwn => held' = { held with own := false }

/-- A repository's own transaction gives back what it took. -/
theorem wp_inOwnSession (op : Op) {held : Holding} (hown : held.own = false) :
    (inOwnSession op).wp ofPool (fun _ held' => held' = held) held := by
  refine ⟨hown, ?_⟩
  rintro _ _ rfl
  refine ⟨trivial, ?_⟩
  rintro r _ rfl
  refine ⟨rfl, ?_⟩
  rintro _ _ rfl
  obtain ⟨session, own⟩ := held
  obtain rfl : own = false := hown
  exact rfl

/-- Each request of the service takes and gives back what its session does. -/
theorem wp_borrowing (op : Op) (held : Bool) :
    (borrowing op).wp ofPool
      (fun r held' => ofSession.next held op r held'.session ∧ held'.own = false)
      ⟨held, false⟩ := by
  have hown : ∀ op' : Op, (∀ r, sessionAfter held ⟨op', r⟩ = held) → (inOwnSession op').wp ofPool
      (fun r held' => ofSession.next held op' r held'.session ∧ held'.own = false)
      ⟨held, false⟩ := by
    intro op' hkeeps
    refine Prog.wp_mono ?_ (wp_inOwnSession op' rfl)
    rintro r _ rfl
    exact ⟨(hkeeps r).symm, rfl⟩
  cases op with
  | findByHash keyHash =>
    refine ⟨rfl, ?_⟩
    rintro _ _ rfl
    refine ⟨trivial, ?_⟩
    rintro r _ rfl
    exact ⟨rfl, rfl⟩
  | commit =>
    refine ⟨trivial, ?_⟩
    rintro (name | ⟨⟩) _ rfl
    · exact ⟨rfl, rfl⟩
    · refine ⟨rfl, ?_⟩
      rintro _ _ rfl
      exact ⟨rfl, rfl⟩
  | rollback =>
    refine ⟨trivial, ?_⟩
    rintro r _ rfl
    refine ⟨rfl, ?_⟩
    rintro _ _ rfl
    exact ⟨rfl, rfl⟩
  | record entry => exact hown _ fun _ => rfl
  | createJob job => exact hown _ fun _ => rfl
  | updateJob jobId fields => exact hown _ fun _ => rfl
  | getJob jobId apiKeyId => exact hown _ fun _ => rfl
  | _ =>
    refine ⟨trivial, ?_⟩
    rintro r _ rfl
    exact ⟨rfl, rfl⟩

/-- A request ends with nothing held. -/
theorem wp_handleOn (env : Environment) (settings : Settings) (request : Route × Option String) :
    (handleOn env settings request).wp ofPool (fun _ held => held = ⟨false, false⟩)
      ⟨false, false⟩ := by
  have hop : ∀ op held (held' : Holding), ofSession.allows held op →
      held'.session = held ∧ held'.own = false → (borrowing op).wp ofPool
        (fun r held₁' => ∃ held₁, ofSession.next held op r held₁ ∧
          held₁'.session = held₁ ∧ held₁'.own = false) held' := by
    rintro op held ⟨session, own⟩ _ ⟨rfl, rfl⟩
    refine Prog.wp_mono ?_ (wp_borrowing op session)
    rintro r held₁' ⟨hnext, hown⟩
    exact ⟨held₁'.session, hnext, rfl, hown⟩
  refine Prog.wp_mono ?_
    (Prog.wp_interp hop (handle_session env settings request.1 request.2) ⟨rfl, rfl⟩)
  rintro _ ⟨session, own⟩ ⟨_, ⟨rfl, rfl⟩, rfl⟩
  rfl

/-! ## Runs -/

/-- What request `t` holds. -/
def Process.holding (p : Process) (t : ℕ) : Holding := ⟨t ∈ p.sessions, t ∈ p.own⟩

@[simp] theorem Process.holding_own (p : Process) (t : ℕ) :
    (p.holding t).own = decide (t ∈ p.own) := rfl

/-- A request changes what it holds itself. -/
theorem update_holding {p p' : Process} {t : ℕ} {held : Holding} (hself : p'.holding t = held)
    (hother : ∀ t', t' ≠ t → p'.holding t' = p.holding t') :
    Function.update p.holding t held = p'.holding := by
  funext t'
  by_cases ht : t' = t
  · rw [ht, Function.update_self, hself]
  · rw [Function.update_of_ne ht, hother t' ht]

/-- One step of the pool: what its request holds follows `ofPool`, what the others hold stays, and
all together hold no more than there is. -/
theorem step_holding {P : ℕ} {p p' : Process} {t : ℕ} {op : ConnectionOp} {r : Database.Reply op}
    (hcard : p.sessions.card + p.own.card ≤ P) (hstep : (pool P).step p t op r p') :
    ∃ held, ofPool.next (p.holding t) op r held ∧
      Function.update p.holding t held = p'.holding ∧ p'.sessions.card + p'.own.card ≤ P := by
  cases op with
  | run op =>
    obtain ⟨w', _, rfl⟩ := hstep
    exact ⟨p.holding t, rfl, Function.update_eq_self t _, hcard⟩
  | checkoutSession =>
    refine ⟨_, rfl, ?_⟩
    obtain ⟨hin, rfl⟩ | ⟨hout, hfree, rfl⟩ := hstep
    · exact ⟨update_holding (by simp [Process.holding, hin]) fun _ _ => rfl, hcard⟩
    · refine ⟨update_holding (by simp [Process.holding]) fun t' ht' => ?_, ?_⟩
      · simp [Process.holding, ht']
      · simp only [Finset.card_insert_of_notMem hout]
        omega
  | checkinSession =>
    obtain rfl := hstep
    refine ⟨_, rfl, update_holding (by simp [Process.holding]) fun t' ht' => ?_, ?_⟩
    · simp [Process.holding, ht']
    · have := @Finset.card_erase_le _ p.sessions t _
      simp only
      omega
  | checkoutOwn =>
    obtain ⟨hout, hfree, rfl⟩ := hstep
    refine ⟨_, rfl, update_holding (by simp [Process.holding]) fun t' ht' => ?_, ?_⟩
    · simp [Process.holding, ht']
    · simp only [Finset.card_insert_of_notMem hout]
      omega
  | checkinOwn =>
    obtain rfl := hstep
    refine ⟨_, rfl, update_holding (by simp [Process.holding]) fun t' ht' => ?_, ?_⟩
    · simp [Process.holding, ht']
    · have := @Finset.card_erase_le _ p.own t _
      simp only
      omega

/-- **The pool in a run**: requests hold what they took and did not give back, nothing at their end,
and all together no more than the pool has. -/
theorem run_holding {env : Environment} {settings : Settings} {P : ℕ} {now : ℚ}
    {log : List (Entry Database Process)} {p : Process}
    {tasks : List (Task (Route × Option String) Database Unit)}
    (hrun : Run (pool P) (handleOn env settings) (.start settings now) log p tasks) :
    (∀ (t : ℕ) (task : Task (Route × Option String) Database Unit), tasks[t]? = some task →
      task.rest.wp ofPool (fun _ held => held = ⟨false, false⟩) (p.holding t)) ∧
    (∀ t, tasks.length ≤ t → p.holding t = ⟨false, false⟩) ∧
    p.sessions.card + p.own.card ≤ P := by
  have hstep : ∀ (l : Route × Option String) (p : Process) (φ : Phases Holding) (t : ℕ)
      (op : ConnectionOp) (r : Database.Reply op) (p' : Process),
      φ = p.holding ∧ p.sessions.card + p.own.card ≤ P → ofPool.allows (φ t) op →
      (pool P).step p t op r p' → True ∧ ∃ held, ofPool.next (φ t) op r held ∧
        Function.update φ t held = p'.holding ∧ p'.sessions.card + p'.own.card ≤ P := by
    rintro l p _ t op r p' ⟨rfl, hcard⟩ _ hstep
    exact ⟨trivial, step_holding hcard hstep⟩
  obtain ⟨φ, ⟨rfl, hcard⟩, hwp, hout, _⟩ := hrun.ghost (fun _ => ofPool)
    (fun _ _ held => held = ⟨false, false⟩) ⟨false, false⟩
    (fun p φ => φ = p.holding ∧ p.sessions.card + p.own.card ≤ P) (fun _ _ => True)
    ⟨by funext t; rfl, Nat.zero_le P⟩ (wp_handleOn env settings) hstep
  exact ⟨hwp, hout, hcard⟩

/-- The sessions that hold a connection change only as they take one or give it back. -/
theorem step_sessions {P : ℕ} {p p' : Process} {t : ℕ} {op : ConnectionOp}
    {r : Database.Reply op} (h : (pool P).step p t op r p') :
    p'.sessions = p.sessions ∨
    (op = .checkoutSession ∧ t ∉ p.sessions ∧ p'.sessions = insert t p.sessions) ∨
    (t ∈ p.sessions ∧ p'.sessions = p.sessions.erase t) := by
  cases op with
  | run op =>
    obtain ⟨w', _, rfl⟩ := h
    exact .inl rfl
  | checkoutSession =>
    obtain ⟨_, rfl⟩ | ⟨hout, _, rfl⟩ := h
    · exact .inl rfl
    · exact .inr (.inl ⟨rfl, hout, rfl⟩)
  | checkinSession =>
    obtain rfl := h
    by_cases hin : t ∈ p.sessions
    · exact .inr (.inr ⟨hin, rfl⟩)
    · exact .inl (Finset.erase_eq_of_notMem hin)
  | checkoutOwn =>
    obtain ⟨_, _, rfl⟩ := h
    exact .inl rfl
  | checkinOwn =>
    obtain rfl := h
    exact .inl rfl

/-! ## When a request waits -/

/-- Only for a connection does a request wait, and only while there is none. -/
theorem waits_for_connection {P : ℕ} {p : Process} {t : ℕ} {op : ConnectionOp}
    (hallows : ofPool.allows (p.holding t) op) (hstuck : ∀ r p', ¬ (pool P).step p t op r p') :
    t ∉ p.own ∧ P ≤ p.sessions.card + p.own.card ∧
      (op = .checkoutSession ∧ t ∉ p.sessions ∨ op = .checkoutOwn) := by
  cases op with
  | run op =>
    obtain ⟨r, w', hstep⟩ := world_total p.world t op
    exact absurd ⟨w', hstep, rfl⟩ (hstuck r _)
  | checkoutSession =>
    have hout : t ∉ p.sessions := fun hin => hstuck () p (.inl ⟨hin, rfl⟩)
    refine ⟨by simpa [ofPool] using hallows, ?_, .inl ⟨rfl, hout⟩⟩
    by_contra hfree
    exact hstuck () _ (.inr ⟨hout, Nat.lt_of_not_le hfree, rfl⟩)
  | checkinSession => exact absurd rfl (hstuck () _)
  | checkoutOwn =>
    have hout : t ∉ p.own := by simpa [ofPool] using hallows
    refine ⟨hout, ?_, .inr rfl⟩
    by_contra hfree
    exact hstuck () _ ⟨hout, Nat.lt_of_not_le hfree, rfl⟩
  | checkinOwn => exact absurd rfl (hstuck () _)

/-! ## Submissions, one after the other -/

/-- A job submitted with this key. -/
def submission (key : String) : Route × Option String := (.submit hookRequest, some key)

/-- A submission that is let through comes to store its job. -/
theorem submission_steps {key : String} (hkey : key ≠ "") (caller : Caller)
    {decision : RateLimitDecision} (hallowed : decision.allowed = true) (id : String) :
    ∃ k, Prog.Steps (handleOn .sample .defaults (submission key))
      [⟨.checkoutSession, ()⟩, ⟨.run (.findByHash key), .ok (some caller)⟩,
        ⟨.run (.check caller.id), .ok decision⟩, ⟨.run .tokenHex, id⟩] (.op .checkoutOwn k) := by
  obtain ⟨allowed, limit, remaining, resetAfter, retryAfter⟩ := decision
  obtain rfl : allowed = true := hallowed
  have hsent : (some key).filter (· ≠ "") = some key := by simp [hkey]
  rw [handleOn, submission, handle, authenticate, hsent]
  exact ⟨_, .cons (.cons (.cons (.cons (.refl _))))⟩

/-- A caller who has not been here before is let through. -/
theorem first_check_allowed {limiter : InMemoryRateLimiter} {key : String} (now : ℚ)
    (hcapacity : 1 ≤ limiter.capacity) (hrate : 0 < limiter.refillRate)
    (hfresh : limiter.buckets key = none) :
    ∃ decision, (limiter.check key now now).1 = .ok decision ∧ decision.allowed = true := by
  have hbucket : limiter.bucketFor key now = .create limiter.capacity limiter.refillRate now := by
    rw [InMemoryRateLimiter.bucketFor, hfresh]
    rfl
  rw [InMemoryRateLimiter.check_fst, hbucket]
  obtain ⟨decision, hdecision, hallowed, _⟩ :=
    (TokenBucket.create limiter.capacity limiter.refillRate now).take_spec hrate 1 now
  refine ⟨decision, hdecision, hallowed.mpr ?_⟩
  rw [TokenBucket.refill_create _ hrate.le le_rfl]
  have hfull : (1 : ℚ) ≤ limiter.capacity := by exact_mod_cast hcapacity
  exact hfull

/-- As many submissions as there are connections, each by a caller of its own, one after the other:
each takes a connection for its session and comes to store its job. -/
theorem submissions_wait {P : ℕ} {keys : List String} (hdistinct : keys.Nodup)
    (hkeys : ∀ key ∈ keys, key ≠ "") (hP : keys.length ≤ P) :
    ∃ log p tasks, Run (pool P) (handleOn .sample .defaults) (.start .defaults 0) log p tasks ∧
      tasks.map Task.label = keys.map submission ∧
      (∀ task ∈ tasks, ∃ k, task.rest = .op .checkoutOwn k) ∧
      p.sessions = Finset.range keys.length ∧ p.own = ∅ ∧
      p.world.limiter.capacity = 10 ∧ p.world.limiter.refillRate = 1 ∧
      ∀ key, key ∉ keys → p.world.limiter.buckets key = none := by
  induction keys using List.reverseRecOn with
  | nil =>
    refine ⟨_, _, _, .start, rfl, by simp, rfl, rfl, rfl, ?_, fun _ _ => rfl⟩
    decide +kernel
  | append_singleton keys key ih =>
    obtain ⟨hdistinct, _, hnew⟩ := List.nodup_append.mp hdistinct
    rw [List.length_append, List.length_singleton] at hP
    obtain ⟨log, p, tasks, hrun, hlabels, hwaits, hsessions, hown, hcapacity, hrate, hfresh⟩ :=
      ih hdistinct (fun key' hin => hkeys key' (List.mem_append_left _ hin)) (by omega)
    have hlength : tasks.length = keys.length := by
      rw [← List.length_map Task.label, hlabels, List.length_map]
    have hkey : key ∉ keys := fun hin => hnew key hin key List.mem_cons_self rfl
    obtain ⟨decision, hdecision, hallowed⟩ := first_check_allowed p.world.now
      (by rw [hcapacity]; decide) (by rw [hrate]; exact one_pos) (hfresh key hkey)
    obtain ⟨id, hid⟩ := Infinite.exists_notMem_finset p.world.issued.toFinset
    obtain ⟨k, hsteps⟩ := submission_steps (hkeys key (List.mem_append_right _ List.mem_cons_self))
      ⟨key, key⟩ hallowed id
    have hout : tasks.length ∉ p.sessions := by
      rw [hsessions, hlength]
      exact Finset.notMem_range_self
    have hroom : p.sessions.card + p.own.card < P := by
      rw [hsessions, hown, Finset.card_range, Finset.card_empty]
      omega
    have hserves : (pool P).serves tasks.length p
        [⟨.checkoutSession, ()⟩, ⟨.run (.findByHash key), .ok (some ⟨key, key⟩)⟩,
          ⟨.run (.check key), .ok decision⟩, ⟨.run .tokenHex, id⟩]
        { p with
          sessions := insert tasks.length p.sessions
          world := { p.world with
            limiter := (p.world.limiter.check key p.world.now p.world.now).2
            issued := id :: p.world.issued } } :=
      ⟨_, .inr ⟨hout, hroom, rfl⟩, _, ⟨_, ⟨p.world.now, le_rfl, rfl⟩, rfl⟩, _,
        ⟨_, ⟨p.world.now, le_rfl, p.world.now, le_rfl, le_rfl, hdecision.symm, rfl⟩, rfl⟩, _,
        ⟨_, ⟨p.world.now, le_rfl, fun hin => hid (List.mem_toFinset.mpr hin), rfl⟩, rfl⟩, rfl⟩
    obtain ⟨log', hrun'⟩ := (hrun.spawn (submission key)).serve_last hsteps hserves
    refine ⟨log', _, _, hrun', ?_, ?_, ?_, hown, hcapacity, hrate, ?_⟩
    · simp [hlabels]
    · intro task hin
      rcases List.mem_append.mp hin with hin | hin
      · exact hwaits task hin
      · obtain rfl := List.mem_singleton.mp hin
        exact ⟨k, rfl⟩
    · simp [hsessions, hlength, Finset.range_add_one]
    · intro key' hin
      rw [List.mem_append, not_or, List.mem_singleton] at hin
      exact (InMemoryRateLimiter.check_of_ne _ hin.2 _ _).trans (hfresh key' hin.1)

/-! ## Deadlocks in a run -/

section

variable {env : Environment} {settings : Settings} {P : ℕ} {now : ℚ}
variable {log : List (Entry Database Process)} {p : Process}
variable {tasks : List (Task (Route × Option String) Database Unit)}

/-- A request that holds a connection has not ended. -/
theorem unfinished_of_holding
    (hrun : Run (pool P) (handleOn env settings) (.start settings now) log p tasks) {t : ℕ}
    (hholds : t ∈ p.sessions ∨ t ∈ p.own) :
    ∃ task op k, tasks[t]? = some task ∧ task.rest = .op op k ∧
      ofPool.allows (p.holding t) op := by
  obtain ⟨hwp, hout, _⟩ := run_holding hrun
  have hsome : p.holding t ≠ ⟨false, false⟩ := by
    rcases hholds with hin | hin <;> simp [Process.holding, hin]
  have hlt : t < tasks.length := by
    by_contra hge
    exact hsome (hout t (Nat.le_of_not_lt hge))
  have htask : tasks[t]? = some tasks[t] := List.getElem?_eq_getElem hlt
  have hrest := hwp t _ htask
  generalize tasks[t] = task at htask hrest
  obtain ⟨label, rest | ⟨op, k⟩⟩ := task
  · exact absurd hrest hsome
  · exact ⟨_, op, k, htask, rfl, hrest.1⟩

/-- **In a deadlock the pool is crowded.** -/
theorem crowded_of_deadlocked
    (hrun : Run (pool P) (handleOn env settings) (.start settings now) log p tasks)
    (hdead : Deadlocked P p tasks) : Crowded env settings P tasks log p := by
  obtain ⟨⟨t₀, task₀, op₀, k₀, ht₀, hrest₀⟩, hstuck⟩ := hdead
  obtain ⟨hwp, _, hcard⟩ := run_holding hrun
  -- who holds a connection of its own could give it back
  have hown : p.own = ∅ := by
    apply Finset.eq_empty_of_forall_notMem
    intro t hin
    obtain ⟨task, op, k, ht, hrest, hallows⟩ := unfinished_of_holding hrun (.inr hin)
    exact (waits_for_connection hallows (hstuck t task op k ht hrest)).1 hin
  -- and who waits waits because all are held
  have hfull : p.sessions.card = P := by
    have hallows₀ := hwp t₀ task₀ ht₀
    rw [hrest₀] at hallows₀
    obtain ⟨_, hnone, _⟩ :=
      waits_for_connection hallows₀.1 (hstuck t₀ task₀ op₀ k₀ ht₀ hrest₀)
    rw [hown, Finset.card_empty, Nat.add_zero] at hcard hnone
    exact Nat.le_antisymm hcard hnone
  refine ⟨hfull, fun t hin => ?_⟩
  obtain ⟨task, op, k, ht, hrest, hallows⟩ := unfinished_of_holding hrun (.inl hin)
  refine ⟨task, ht, task.rest, hrun.trace t task ht, ?_⟩
  obtain ⟨_, _, ⟨_, hout⟩ | rfl⟩ := waits_for_connection hallows (hstuck t task op k ht hrest)
  · exact absurd hin hout
  · rw [hrest]
    exact fun honly => honly.1 rfl

/-- The pool becomes crowded only when a request takes the last connection. -/
theorem not_crowded (hP : 1 ≤ P)
    (hrun : Run (pool P) (handleOn env settings) (.start settings now) log p tasks)
    (hspare : ∀ earlier en later, log = earlier ++ en :: later →
      ¬ TakesLast env settings P tasks earlier en) (earlier : List (Entry Database Process)) :
    ∀ later, log = earlier ++ later →
      ¬ Crowded env settings P tasks earlier (worldAfter (.start settings now) earlier) := by
  induction earlier using List.reverseRecOn with
  | nil =>
    rintro later _ ⟨hcard, _⟩
    simp only [worldAfter_nil, Process.start, Finset.card_empty] at hcard
    omega
  | append_singleton earlier en ih =>
    rintro later hlog ⟨hcard, hborrow⟩
    rw [List.append_assoc] at hlog
    obtain ⟨tasks', l, k, hprefix, _⟩ := hrun.before earlier en later hlog
    obtain ⟨hbefore, hstep⟩ := hrun.chained.split.2 earlier en later hlog
    obtain ⟨_, _, hbound⟩ := run_holding hprefix
    rw [worldAfter_snoc] at hcard hborrow
    have hearlier : ∀ t ∈ en.after.sessions, ∃ task, tasks[t]? = some task ∧
        MayBorrow (handleOn env settings task.label) (ownTrace t earlier) := by
      intro t hin
      obtain ⟨task, ht, hmay⟩ := hborrow t hin
      refine ⟨task, ht, ?_⟩
      by_cases heq : en.task = t
      · subst heq
        rw [ownTrace_snoc_self] at hmay
        exact hmay.earlier
      · rwa [ownTrace_snoc_ne earlier en heq] at hmay
    rcases step_sessions hstep with hsame | ⟨hop, hout, hinsert⟩ | ⟨hin, herase⟩
    · -- nothing changed, so the pool was crowded before
      rw [hsame] at hcard hearlier
      apply ih (en :: later) hlog
      rw [← hbefore]
      exact ⟨hcard, hearlier⟩
    · rw [hinsert, Finset.card_insert_of_notMem hout] at hcard
      refine hspare earlier en later hlog ⟨hop, hout, hcard, fun t hin => hearlier t ?_⟩
      rw [hinsert]
      exact Finset.mem_insert_of_mem hin
    · rw [herase] at hcard
      have := Finset.card_erase_add_one hin
      omega

/-- **No deadlock while a connection is spare**, in every run of any number of requests, in every
order, in which no request takes the last connection for its session while all others are held for
the sessions of requests that may still ask for a further one. -/
theorem no_deadlock_of_spare (hP : 1 ≤ P)
    (hrun : Run (pool P) (handleOn env settings) (.start settings now) log p tasks)
    (hspare : ∀ earlier en later, log = earlier ++ en :: later →
      ¬ TakesLast env settings P tasks earlier en) : ¬ Deadlocked P p tasks := by
  intro hdead
  apply not_crowded hP hrun hspare log [] (List.append_nil log).symm
  rw [← hrun.chained.split.1]
  exact crowded_of_deadlocked hrun hdead

/-- The condition on a run, one step at a time. -/
theorem spare_snoc {en : Entry Database Process}
    (h : ∀ earlier en' later, log = earlier ++ en' :: later →
      ¬ TakesLast env settings P tasks earlier en')
    (hen : ¬ TakesLast env settings P tasks log en) :
    ∀ earlier en' later, log ++ [en] = earlier ++ en' :: later →
      ¬ TakesLast env settings P tasks earlier en' := by
  intro earlier en' later hsplit
  rcases snoc_split hsplit with ⟨rfl, rfl⟩ | ⟨later', hlog⟩
  · exact hen
  · exact h earlier en' later' hlog

/-- Only who takes a connection for their session takes the last one. -/
theorem not_takesLast {en : Entry Database Process} (hop : en.op ≠ .checkoutSession) :
    ¬ TakesLast env settings P tasks log en := fun h => hop h.1

end

/-- A poll of a job with this key. -/
def poll (key : String) : Route × Option String := (.show "j", some key)

/-- Both connections are held for a session, the second one by a submission, which waits for a
further one; but the first is held by a poll, which asks for no more, so there is no deadlock. -/
theorem no_deadlock_of_spare_poll :
    ∃ log p tasks, Run (pool 2) (handleOn .sample .defaults) (.start .defaults 0) log p tasks ∧
      tasks.map Task.label = [poll "key-0", submission "key-1"] ∧ p.sessions.card = 2 ∧
      (∃ task k, tasks[1]? = some task ∧ task.rest = .op .checkoutOwn k) ∧
      ¬ Deadlocked 2 p tasks := by
  let first : Process := ⟨dayOne, {0}, ∅⟩
  let both (w : World) : Process := ⟨w, {1, 0}, ∅⟩
  let checked : World := { dayOne with limiter := (dayOne.limiter.check "key-1" 0 0).2 }
  let issued : World := { checked with issued := ["j"] }
  have hgone : ∀ view, (.ok none : Except String (Option JobView)) = .ok view →
      view = dayOne.jobs.get "j" "key-0" := by
    rintro _ ⟨⟩
    rfl
  have h₀ : Run (pool 2) (handleOn .sample .defaults) (.start .defaults 0) _ _ _ :=
    .spawn (poll "key-0") .start
  have h₁ := h₀.reply 0 rfl () first (.inr ⟨by decide, by decide, rfl⟩)
  have h₂ := h₁.reply 0 rfl (.ok (some ⟨"key-0", "key-0"⟩)) first ⟨_, ⟨0, le_rfl, rfl⟩, rfl⟩
  have h₃ := h₂.reply 0 rfl () ⟨dayOne, {0}, {0}⟩ ⟨by decide, by decide, rfl⟩
  have h₄ := h₃.reply 0 rfl (.ok none) ⟨dayOne, {0}, {0}⟩ ⟨_, ⟨0, le_rfl, hgone, rfl⟩, rfl⟩
  have h₅ := h₄.reply 0 rfl () first rfl
  have hpolled := h₅.trace 0 _ rfl
  have h₆ := (h₅.spawn (submission "key-1")).reply 1 rfl () (both dayOne)
    (.inr ⟨by decide, by decide, rfl⟩)
  have h₇ := h₆.reply 1 rfl (.ok (some ⟨"key-1", "key-1"⟩)) (both dayOne)
    ⟨_, ⟨0, le_rfl, rfl⟩, rfl⟩
  have h₈ := h₇.reply 1 rfl (.ok ⟨true, 10, 9, 1, 0⟩) (both checked)
    ⟨_, ⟨0, le_rfl, 0, le_rfl, le_rfl, (dayOne_check "key-1").symm, rfl⟩, rfl⟩
  have h₉ := h₈.reply 1 rfl "j" (both issued) ⟨_, ⟨0, le_rfl, List.not_mem_nil, rfl⟩, rfl⟩
  refine ⟨_, _, _, h₉, rfl, rfl, ⟨_, _, rfl, rfl⟩, no_deadlock_of_spare (by decide) h₉ ?_⟩
  refine spare_snoc (spare_snoc (spare_snoc (spare_snoc (spare_snoc (spare_snoc (spare_snoc
    (spare_snoc (spare_snoc ?_ ?_) (not_takesLast nofun)) (not_takesLast nofun))
    (not_takesLast nofun)) (not_takesLast nofun)) ?_) (not_takesLast nofun))
    (not_takesLast nofun)) (not_takesLast nofun)
  · intro earlier en later hlog
    cases earlier <;> cases hlog
  · -- there is another one left
    rintro ⟨-, -, hlast, -⟩
    cases hlast
  · rintro ⟨-, -, -, hothers⟩
    obtain ⟨task, htask, rest, hsteps, hborrows⟩ := hothers 0 (by decide)
    obtain rfl := Option.some.inj htask
    -- the poll is past its transaction
    obtain rfl := hpolled.unique hsteps
    exact hborrows ⟨nofun, fun _ => ⟨nofun, fun _ => ⟨nofun, fun _ => trivial⟩⟩⟩

/-- The keys of fifteen callers. -/
def fifteenKeys : List String := (List.range 15).map fun n => "key-" ++ toString n

/-- Fifteen callers submit a job at once: each of the fifteen connections is held for the session of
one of them, and each waits for ever for a further one. -/
theorem pool_deadlocks :
    ∃ log p tasks, Run (pool 15) (handleOn .sample .defaults) (.start .defaults 0) log p tasks ∧
      (tasks.map fun task => task.label.2).Nodup ∧ Deadlocked 15 p tasks := by
  have hdistinct : fifteenKeys.Nodup := by decide +kernel
  have hkeys : ∀ key ∈ fifteenKeys, key ≠ "" := by decide +kernel
  obtain ⟨log, p, tasks, hrun, hlabels, hwaits, hsessions, hown, _⟩ :=
    @submissions_wait 15 fifteenKeys hdistinct hkeys (by decide)
  refine ⟨log, p, tasks, hrun, ?_, ?_, ?_⟩
  · have hsent : (tasks.map fun task => task.label.2) =
        (tasks.map Task.label).map Prod.snd := by rw [List.map_map]; rfl
    rw [hsent, hlabels, List.map_map]
    exact hdistinct.map (Option.some_injective _)
  · have hlength : tasks.length = 15 := by
      rw [← List.length_map Task.label, hlabels, List.length_map]
      decide
    have hfirst : tasks[0]? = some tasks[0] := List.getElem?_eq_getElem (by omega)
    obtain ⟨k, hrest⟩ := hwaits tasks[0] (List.getElem_mem _)
    exact ⟨0, _, _, k, hfirst, hrest⟩
  · intro t task op k ht hrest r p' hstep
    obtain ⟨k', hrest'⟩ := hwaits task (List.mem_of_getElem? ht)
    rw [hrest] at hrest'
    cases hrest'
    obtain ⟨_, hfree, _⟩ := hstep
    rw [hsessions, hown] at hfree
    exact absurd hfree (by decide)

end PrdApiWrapper
