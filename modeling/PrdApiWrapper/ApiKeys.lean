import PrdApiWrapper.Inserts

/-!
# The key table

Callers are rows of the key table, and the usage and job tables refer to them by a foreign key. A
key that is found names a row, and rows are never deleted: revoking one sets a date. So the rows a
request inserts refer to something, unless the caller is `ANONYMOUS`, which is no row.
-/

namespace PrdApiWrapper

open Interaction

/-! ## The table -/

/-- `ApiKeyRecord`: a key as it is stored. -/
structure ApiKeyRecord where
  id : String
  name : String
  keyHash : String
  /-- the schema's check -/
  length : keyHash.length = 64

/-- A row of the table `api_key`. -/
structure ApiKey where
  id : String
  name : String
  keyHash : String
  revokedAt : Option ℚ
  deriving DecidableEq

/-- The rows of the key table. -/
abbrev KeyTable := List ApiKey

namespace KeyTable

variable (lower : String → String)

/-- `find_by_hash(key_hash)`, with `lower` for `str.lower`. -/
def findByHash (table : KeyTable) (keyHash : String) : Except String (Option Caller) :=
  match table.filter fun row => row.keyHash == lower keyHash && row.revokedAt.isNone with
  | [] => .ok none
  | [row] => .ok (some ⟨row.id, row.name⟩)
  -- `scalar_one_or_none`
  | _ => .error "MultipleResultsFound"

/-- `add(record)`, committed: the database refuses values that are too long for their columns, and
a second row with an id or a digest. -/
def add (table : KeyTable) (record : ApiKeyRecord) : Except String KeyTable :=
  let keyHash := lower record.keyHash
  if 32 < record.id.length ∨ 255 < record.name.length ∨ 64 < keyHash.length then
    .error "DBAPIError"
  else if table.any fun row => row.id == record.id || row.keyHash == keyHash then
    .error "IntegrityError"
  else .ok (table ++ [⟨record.id, record.name, keyHash, none⟩])

/-- The row with this id is revoked at time `now`. -/
def revoke (table : KeyTable) (id : String) (now : ℚ) : KeyTable :=
  table.map fun row => if row.id = id then { row with revokedAt := some now } else row

/-- The tables a table can become. -/
inductive Later (table : KeyTable) : KeyTable → Prop where
  /-- nothing happens -/
  | refl : Later table table
  /-- a key is added -/
  | add {table' table'' : KeyTable} (record : ApiKeyRecord) :
    Later table table' → table'.add lower record = .ok table'' → Later table table''
  /-- a key is revoked -/
  | revoke {table' : KeyTable} (id : String) (now : ℚ) :
    Later table table' → Later table (table'.revoke id now)

/-- There is a row with this id: what a foreign key asks for. -/
def Has (table : KeyTable) (id : String) : Prop := ∃ row ∈ table, row.id = id

variable {lower} {table table' : KeyTable}

theorem Has.add {id : String} {record : ApiKeyRecord} (h : table.Has id)
    (hadd : table.add lower record = .ok table') : table'.Has id := by
  obtain ⟨row, hrow, hid⟩ := h
  rw [KeyTable.add] at hadd
  split at hadd
  · cases hadd
  · split at hadd
    · cases hadd
    · cases hadd
      exact ⟨row, List.mem_append_left _ hrow, hid⟩

theorem Has.revoke {id : String} (h : table.Has id) (id' : String) (now : ℚ) :
    (table.revoke id' now).Has id := by
  obtain ⟨row, hrow, hid⟩ := h
  refine ⟨_, List.mem_map_of_mem hrow, ?_⟩
  split <;> exact hid

/-- Rows are never deleted. -/
theorem Later.has {id : String} (h : Later lower table table') (hhas : table.Has id) :
    table'.Has id := by
  induction h with
  | refl => exact hhas
  | add record _ hadd ih => exact ih.add hadd
  | revoke id' now _ ih => exact ih.revoke id' now

/-- A key that is found is a row. -/
theorem has_of_findByHash {keyHash : String} {caller : Caller}
    (h : table.findByHash lower keyHash = .ok (some caller)) : table.Has caller.id := by
  rw [findByHash] at h
  split at h
  · cases h
  · next row hfilter =>
    cases h
    have hrow : row ∈ table.filter fun row =>
        row.keyHash == lower keyHash && row.revokedAt.isNone := by
      rw [hfilter]
      exact List.mem_singleton_self row
    exact ⟨row, (List.mem_filter.mp hrow).1, rfl⟩
  · cases h

/-- The repository reads this table, if it answers. -/
def Answers (lower : String → String) (table : KeyTable) : Event Service → Prop
  | ⟨.findByHash keyHash, reply⟩ =>
    ∀ found, reply = .ok found → table.findByHash lower keyHash = .ok found
  | _ => True

/-- An insert that the foreign keys on `api_key_id` admit. -/
def Admits (table : KeyTable) : Op → Prop
  | .record entry => table.Has entry.apiKeyId
  | .createJob job => table.Has job.apiKeyId
  | _ => True

end KeyTable

/-! ## Callers and rows -/

section

variable {env : Environment} {settings : Settings} {lower : String → String} {table : KeyTable}
  {caller : Caller}

/-- A caller's requests are admitted exactly if the caller is a row. -/
theorem serve_admitted_iff : (∀ route, (serve env settings route caller).Only table.Admits) ↔
    table.Has caller.id := by
  refine ⟨?_, ?_⟩
  · intro h
    obtain ⟨trace, k, hsteps, -⟩ := serve_creates env settings hookRequest caller ""
    exact (hsteps.only (h (.submit hookRequest))).1
  · intro hhas route
    refine Prog.only_of_guarded ?_ serve_inserts
    intro trace op hop
    cases hop with
    | usage => exact hhas
    | job => exact hhas
    | other hother =>
      cases op with
      | record entry => cases hother
      | createJob job => cases hother
      | _ => trivial

/-- Whoever is let in is a row, or has come without a key where none is required. -/
def LetIn (settings : Settings) (table : KeyTable) (rawKey : Option String) (caller : Caller) :
    Prop :=
  (rawKey.filter (· ≠ "") = none ∧ settings.requireApiKey = false ∧ caller = anonymous) ∨
    table.Has caller.id

theorem authenticate_letIn {rawKey : Option String} {trace : List (Event Service)}
    (hsteps : Prog.Steps (authenticate env settings rawKey).run trace (.ret (.ok caller)))
    (hanswers : ∀ ev ∈ trace, table.Answers lower ev) : LetIn settings table rawKey caller := by
  have hawp : Async.awp (Protocol.observed (table.Answers lower))
      (authenticate env settings rawKey) (fun caller _ => LetIn settings table rawKey caller)
      (fun _ _ => True) [] := by
    rw [awp_authenticate]
    cases hkey : rawKey.filter (· ≠ "") with
    | none =>
      simp only
      split
      · trivial
      · next hrequired => exact .inl ⟨hkey, Bool.eq_false_of_not_eq_true hrequired, rfl⟩
    | some key =>
      refine ⟨trivial, ?_⟩
      rintro (name | (none | caller)) _ ⟨hanswer, -⟩
      · trivial
      · trivial
      · exact .inr (KeyTable.has_of_findByHash (hanswer _ rfl))
  exact Prog.wp_trace hawp hsteps hanswers

/-- **Who can be charged.** For every key table and every presented key: whoever is let in has only
requests that the foreign keys admit, now and however the table goes on, if and only if a key was
presented, or keys are required, or there is a row for `ANONYMOUS`. -/
theorem callers_chargeable_iff (env : Environment) (settings : Settings) (lower : String → String)
    (table : KeyTable) (rawKey : Option String) :
    (∀ trace caller, Prog.Steps (authenticate env settings rawKey).run trace (.ret (.ok caller)) →
      (∀ ev ∈ trace, table.Answers lower ev) → ∀ table', table.Later lower table' →
        ∀ route, (serve env settings route caller).Only table'.Admits) ↔
    (∃ key, rawKey = some key ∧ key ≠ "") ∨ settings.requireApiKey = true ∨
      table.Has anonymous.id := by
  refine ⟨?_, ?_⟩
  · intro h
    by_contra hcond
    obtain ⟨hkey, hrequired, hrow⟩ : (¬ ∃ key, rawKey = some key ∧ key ≠ "") ∧
        ¬ settings.requireApiKey = true ∧ ¬ table.Has anonymous.id := by
      simpa only [not_or] using hcond
    have hnone : rawKey.filter (· ≠ "") = none := by
      rw [Option.filter_eq_none_iff]
      intro key hmem
      have hempty : key = "" := by_contra fun hne => hkey ⟨key, hmem, hne⟩
      simp [hempty]
    -- nobody is asked for a key
    have hsteps : Prog.Steps (authenticate env settings rawKey).run [] (.ret (.ok anonymous)) := by
      rw [authenticate, hnone]
      simp only [if_neg hrequired]
      exact .refl _
    exact hrow (serve_admitted_iff.mp (h [] anonymous hsteps (by rintro _ ⟨⟩) table .refl))
  · intro hcond trace caller hsteps hanswers table' hlater
    refine serve_admitted_iff.mpr (hlater.has ?_)
    rcases authenticate_letIn hsteps hanswers with ⟨hnone, hopen, rfl⟩ | hhas
    · rcases hcond with ⟨key, rfl, hne⟩ | hrequired | hrow
      · rw [Option.filter_some, if_pos (by simpa using hne)] at hnone
        cases hnone
      · rw [hopen] at hrequired
        cases hrequired
      · exact hrow
    · exact hhas

end

/-- Settings for poking around. -/
def openAccess : Settings := { Settings.defaults with requireApiKey := false }

/-- A key. -/
def someRecord : ApiKeyRecord where
  id := "c0ffee00"
  name := "Some client"
  keyHash := "0000000000000000000000000000000000000000000000000000000000000000"
  length := by decide

/-- Where keys are not required, a caller without one is let in, and inserts rows that refer to
nothing. -/
theorem anonymous_not_chargeable : ∃ table, KeyTable.Later id [] table ∧ table ≠ [] ∧
    Prog.Steps (authenticate .sample openAccess none).run [] (.ret (.ok anonymous)) ∧
    ¬ table.Has anonymous.id ∧
    ¬ ∀ route, (serve .sample openAccess route anonymous).Only table.Admits := by
  let table : KeyTable := [⟨someRecord.id, someRecord.name, someRecord.keyHash, none⟩]
  have hadd : KeyTable.add id [] someRecord = .ok table := by decide
  have hhas : ¬ table.Has anonymous.id := by
    rintro ⟨row, hrow, hid⟩
    obtain rfl := List.mem_singleton.mp hrow
    exact absurd hid (by decide)
  exact ⟨table, .add someRecord .refl hadd, nofun, .refl _, hhas,
    fun hadmitted => hhas (serve_admitted_iff.mp hadmitted)⟩

end PrdApiWrapper
