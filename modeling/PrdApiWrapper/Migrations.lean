import PrdApiWrapper.Ddl
import PrdApiWrapper.Naming
import PrdApiWrapper.Values

/-!
# Migrations

`models/tables.py` declares the tables and `migrations/versions/` creates them, in two revisions
that can each be taken back. Up and down these revisions no step fails, and all of them together
create what is declared (`versions_walk`).
-/

namespace PrdApiWrapper

open Interaction

/-! ## What is declared -/

/-- An attribute of a mapped class: `Mapped[…] = mapped_column(…)`. -/
structure MappedColumn where
  name : String
  type : ColumnType
  /-- `Mapped[… | None]` -/
  optional : Bool := false
  primaryKey : Bool := false
  autoincrement : Bool := false
  /-- `ForeignKey("table.column")` -/
  foreignKey : Option (String × String) := none
  unique : Bool := false
  index : Bool := false
  serverDefault : Option String := none

/-- A class of `tables.py`. -/
structure MappedClass where
  name : String
  columns : List MappedColumn
  /-- the names and columns in `__table_args__` -/
  indexes : List (String × List String) := []

/-- The column of an attribute. -/
def MappedColumn.column (mapped : MappedColumn) : Column where
  name := mapped.name
  type := mapped.type
  nullable := mapped.optional
  autoincrement := mapped.autoincrement
  serverDefault := mapped.serverDefault

section

variable (lower : String → String)

/-- `__tablename__`. -/
def MappedClass.tablename (mapped : MappedClass) : String := camelToSnake lower mapped.name

/-- The table of a class. -/
def MappedClass.table (mapped : MappedClass) : Table where
  name := mapped.tablename lower
  columns := mapped.columns.map MappedColumn.column
  primaryKey := (mapped.columns.filter MappedColumn.primaryKey).map MappedColumn.name
  foreignKeys := mapped.columns.filterMap fun column => column.foreignKey.map fun target =>
    ⟨[column.name], target.1, [target.2]⟩

/-- The indexes of a class: those of its attributes, `ix_table_column`, and those it names. -/
def MappedClass.tableIndexes (mapped : MappedClass) : List Index :=
  ((mapped.columns.filter MappedColumn.index).map fun column =>
    { name := "ix_" ++ mapped.tablename lower ++ "_" ++ column.name
      table := mapped.tablename lower
      columns := [column.name]
      unique := column.unique }) ++
  mapped.indexes.map fun index =>
    { name := index.1, table := mapped.tablename lower, columns := index.2 }

/-- `BaseModel.metadata`: what the classes declare. -/
def metadata (classes : List MappedClass) : Catalog where
  tables := classes.map (MappedClass.table lower)
  indexes := classes.flatMap (MappedClass.tableIndexes lower)

end

/-- `ApiKey`. -/
def apiKeyClass : MappedClass where
  name := "ApiKey"
  columns := [
    { name := "id", type := .string 32, primaryKey := true },
    { name := "name", type := .string 255 },
    { name := "key_hash", type := .string 64, unique := true, index := true },
    { name := "created_at", type := .dateTime true, serverDefault := some "now()" },
    { name := "revoked_at", type := .dateTime true, optional := true },
    { name := "last_used_at", type := .dateTime true, optional := true }]

/-- `Usage`. -/
def usageClass : MappedClass where
  name := "Usage"
  columns := [
    { name := "id", type := .bigInteger, primaryKey := true, autoincrement := true },
    { name := "api_key_id", type := .string 32, foreignKey := some ("api_key", "id") },
    { name := "model", type := .string 255 },
    { name := "prompt_tokens", type := .integer },
    { name := "completion_tokens", type := .integer },
    { name := "status_code", type := .integer },
    { name := "duration_ms", type := .integer },
    { name := "created_at", type := .dateTime true, serverDefault := some "now()",
      index := true }]
  indexes := [("ix_usage_api_key_id_created_at", ["api_key_id", "created_at"])]

/-- `Job`. -/
def jobClass : MappedClass where
  name := "Job"
  columns := [
    { name := "id", type := .string 32, primaryKey := true },
    { name := "api_key_id", type := .string 32, foreignKey := some ("api_key", "id") },
    { name := "status", type := .string 16 },
    { name := "model", type := .string 255 },
    { name := "prompt", type := .text },
    { name := "callback_url", type := .string 2048 },
    { name := "content", type := .text, optional := true },
    { name := "error_code", type := .string 64, optional := true },
    { name := "error_message", type := .text, optional := true },
    { name := "prompt_tokens", type := .integer },
    { name := "completion_tokens", type := .integer },
    { name := "delivery_attempts", type := .integer },
    { name := "delivered_at", type := .dateTime true, optional := true },
    { name := "created_at", type := .dateTime true, serverDefault := some "now()" },
    { name := "updated_at", type := .dateTime true, serverDefault := some "now()" }]
  indexes := [("ix_job_api_key_id_created_at", ["api_key_id", "created_at"])]

/-! ## What is created -/

/-- `upgrade` of 74d862f9bb42, create api key and usage tables. -/
def upgradeKeys : List Ddl := [
  .createTable {
    name := "api_key"
    columns := [
      { name := "id", type := .string 32 },
      { name := "name", type := .string 255 },
      { name := "key_hash", type := .string 64 },
      { name := "created_at", type := .dateTime true, serverDefault := some "now()" },
      { name := "revoked_at", type := .dateTime true, nullable := true },
      { name := "last_used_at", type := .dateTime true, nullable := true }]
    primaryKey := ["id"] },
  .createIndex {
    name := "ix_api_key_key_hash", table := "api_key", columns := ["key_hash"], unique := true },
  .createTable {
    name := "usage"
    columns := [
      { name := "id", type := .bigInteger, autoincrement := true },
      { name := "api_key_id", type := .string 32 },
      { name := "model", type := .string 255 },
      { name := "prompt_tokens", type := .integer },
      { name := "completion_tokens", type := .integer },
      { name := "status_code", type := .integer },
      { name := "duration_ms", type := .integer },
      { name := "created_at", type := .dateTime true, serverDefault := some "now()" }]
    foreignKeys := [⟨["api_key_id"], "api_key", ["id"]⟩]
    primaryKey := ["id"] },
  .createIndex {
    name := "ix_usage_api_key_id_created_at", table := "usage",
    columns := ["api_key_id", "created_at"] },
  .createIndex { name := "ix_usage_created_at", table := "usage", columns := ["created_at"] }]

/-- `downgrade` of 74d862f9bb42. -/
def downgradeKeys : List Ddl := [
  .dropIndex "ix_usage_created_at" "usage",
  .dropIndex "ix_usage_api_key_id_created_at" "usage",
  .dropTable "usage",
  .dropIndex "ix_api_key_key_hash" "api_key",
  .dropTable "api_key"]

/-- `upgrade` of 868f403cb0ca, create job table. -/
def upgradeJobs : List Ddl := [
  .createTable {
    name := "job"
    columns := [
      { name := "id", type := .string 32 },
      { name := "api_key_id", type := .string 32 },
      { name := "status", type := .string 16 },
      { name := "model", type := .string 255 },
      { name := "prompt", type := .text },
      { name := "callback_url", type := .string 2048 },
      { name := "content", type := .text, nullable := true },
      { name := "error_code", type := .string 64, nullable := true },
      { name := "error_message", type := .text, nullable := true },
      { name := "prompt_tokens", type := .integer },
      { name := "completion_tokens", type := .integer },
      { name := "delivery_attempts", type := .integer },
      { name := "delivered_at", type := .dateTime true, nullable := true },
      { name := "created_at", type := .dateTime true, serverDefault := some "now()" },
      { name := "updated_at", type := .dateTime true, serverDefault := some "now()" }]
    foreignKeys := [⟨["api_key_id"], "api_key", ["id"]⟩]
    primaryKey := ["id"] },
  .createIndex {
    name := "ix_job_api_key_id_created_at", table := "job",
    columns := ["api_key_id", "created_at"] }]

/-- `downgrade` of 868f403cb0ca. -/
def downgradeJobs : List Ddl := [
  .dropIndex "ix_job_api_key_id_created_at" "job",
  .dropTable "job"]

/-- The revision a migration is. -/
def migration (upgrade downgrade : List Ddl) : Revision Catalog DdlError where
  upgrade := runScript Catalog.act upgrade
  downgrade := runScript Catalog.act downgrade

/-- `migrations/versions/`, from the first to the head. -/
def versions : List (Revision Catalog DdlError) :=
  [migration upgradeKeys downgradeKeys, migration upgradeJobs downgradeJobs]

/-- What the first `n` of them create. -/
def inForce (n : ℕ) : Catalog :=
  (runScript (fun db revision => revision.upgrade db) (versions.take n) {}).toOption.getD {}

/-! ## Up and down -/

/-- The classes of `tables.py`. -/
def classes : List MappedClass := [apiKeyClass, usageClass, jobClass]

/-- The names of the tables, whatever `str.lower` does beyond ASCII. -/
theorem metadata_ascii {lower : String → String} (hlower : LowersAscii lower) :
    metadata lower classes = metadata String.toLower classes := by
  have htablename : ∀ mapped ∈ classes,
      mapped.tablename lower = mapped.tablename String.toLower := by
    intro mapped hmapped
    refine hlower _ ?_
    revert mapped
    decide +kernel
  simp only [metadata, Catalog.mk.injEq]
  refine ⟨List.map_congr_left fun mapped hmapped => ?_,
    List.flatMap_congr fun mapped hmapped => ?_⟩
  · simp only [MappedClass.table, htablename mapped hmapped]
  · simp only [MappedClass.tableIndexes, htablename mapped hmapped]

theorem inForce_perm : (inForce 2).tables.Perm (metadata String.toLower classes).tables ∧
    (inForce 2).indexes.Perm (metadata String.toLower classes).indexes := by
  decide +kernel

/-- The scripts of the revisions, and that each is one that creates and is taken back in reverse. -/
theorem mem_versions {revision : Revision Catalog DdlError} (h : revision ∈ versions) :
    ∃ script, revision = migration script (undoScript script) ∧ Creates script ∧
      claimed script ⊆ (metadata String.toLower classes).relations := by
  rcases List.mem_cons.mp h with rfl | h
  · exact ⟨upgradeKeys, rfl, by decide +kernel, by decide +kernel⟩
  · rw [List.mem_singleton.mp h]
    exact ⟨upgradeJobs, rfl, by decide +kernel, by decide +kernel⟩

theorem reverses_of_mem {revision : Revision Catalog DdlError} (h : revision ∈ versions) :
    revision.Reverses Catalog.Sound := by
  obtain ⟨script, rfl, hcreates, -⟩ := mem_versions h
  exact ⟨fun _ _ => runScript_sound hcreates, fun _ _ => runScript_undo hcreates⟩

theorem stands_inForce {n : ℕ} (hn : n ≤ versions.length) : Stands versions {} n (inForce n) := by
  match n, hn with
  | 0, _ => exact ⟨by decide, rfl⟩
  | 1, _ => exact ⟨by decide, rfl⟩
  | 2, _ => exact ⟨by decide, rfl⟩

section

variable {base : Catalog}

/-- Beside other tables the revisions create what they create alone. -/
theorem stands_beside {n : ℕ} {db : Catalog}
    (hfresh : ∀ name ∈ (metadata String.toLower classes).relations, name ∉ base.relations)
    (h : Stands versions {} n db) : Stands versions base n (base.beside db) := by
  induction n generalizing db with
  | zero =>
    obtain rfl := h.unique stands_zero
    simpa [Catalog.beside] using stands_zero
  | succ n ih =>
    obtain ⟨revision, mid, hn, hmid, hup⟩ := stands_succ_iff.mp h
    refine stands_succ_iff.mpr ⟨revision, base.beside mid, hn, ih hmid, ?_⟩
    obtain ⟨script, rfl, hcreates, hclaimed⟩ := mem_versions (List.mem_of_getElem? hn)
    exact runScript_beside hcreates (fun name hname => hfresh name (hclaimed hname)) hup

/-- If all revisions can be put in force, the database has none of their names. -/
theorem fresh_of_stands {top : Catalog} (h : Stands versions base versions.length top) :
    ∀ name ∈ (metadata String.toLower classes).relations, name ∉ base.relations := by
  obtain ⟨revision, mid, hjobs, hmid, hup⟩ := stands_succ_iff.mp h
  obtain ⟨revision', start, hkeys, hstart, hup'⟩ := stands_succ_iff.mp hmid
  obtain rfl := Option.some.inj hjobs
  obtain rfl := Option.some.inj hkeys
  obtain rfl := hstart.unique stands_zero
  have hrun : runScript Catalog.act (upgradeKeys ++ upgradeJobs) start = .ok top :=
    runScript_append_eq_ok.mpr ⟨mid, hup', hup⟩
  have hclaimed : (metadata String.toLower classes).relations ⊆
      claimed (upgradeKeys ++ upgradeJobs) := by decide +kernel
  exact fun name hname => claimed_fresh (by decide +kernel) hrun name (hclaimed hname)

/-- **Up and down the revisions.** However `upgrade` and `downgrade` are run one after the other on
a database, no step fails, and the database is what it was with what the revisions in force create
beside it, if and only if no table or index had a name that the models declare; and all revisions
together create exactly what the models declare. -/
theorem versions_walk {lower : String → String} (hlower : LowersAscii lower)
    (hsound : base.Sound) :
    ((∀ moves, ∃ n ≤ versions.length,
        walk versions moves (0, base) = .ok (n, base.beside (inForce n))) ↔
      ∀ name ∈ (metadata lower classes).relations, name ∉ base.relations) ∧
    (inForce versions.length).tables.Perm (metadata lower classes).tables ∧
    (inForce versions.length).indexes.Perm (metadata lower classes).indexes := by
  rw [metadata_ascii hlower]
  refine ⟨⟨fun h => ?_, fun hfresh moves => ?_⟩, inForce_perm⟩
  · obtain ⟨n, -, hwalk⟩ := h (List.replicate versions.length .upgrade)
    exact fresh_of_stands (walk_replicate le_rfl hwalk).2
  · have htop : ∃ top, Stands versions base versions.length top :=
      ⟨_, stands_beside hfresh (stands_inForce le_rfl)⟩
    obtain ⟨n, db, hwalk, hstands⟩ :=
      walk_stands (fun _ => reverses_of_mem) hsound htop moves stands_zero
    obtain rfl : db = base.beside (inForce n) :=
      hstands.unique (stands_beside hfresh (stands_inForce hstands.1))
    exact ⟨n, hstands.1, hwalk⟩

end

/-- A database with the table in which the revision in force is kept. -/
def alembicVersion : Catalog where
  tables := [{
    name := "alembic_version"
    columns := [{ name := "version_num", type := .string 32 }]
    primaryKey := ["version_num"] }]

theorem versions_walk_alembicVersion :
    (∀ moves, ∃ n ≤ versions.length,
      walk versions moves (0, alembicVersion) = .ok (n, alembicVersion.beside (inForce n))) ∧
    (inForce versions.length).tables.Perm (metadata String.toLower classes).tables ∧
    (inForce versions.length).indexes.Perm (metadata String.toLower classes).indexes := by
  have hlower : LowersAscii String.toLower := fun _ _ => rfl
  have hsound : alembicVersion.Sound := ⟨by decide +kernel, by decide +kernel⟩
  have h := versions_walk hlower hsound
  exact ⟨h.1.mpr (by decide +kernel), h.2⟩

end PrdApiWrapper
