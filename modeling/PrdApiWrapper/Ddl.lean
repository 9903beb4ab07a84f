import PrdApiWrapper.Reversal

/-!
# Data definition

The tables and indexes of a Postgres database, and the operations of a migration on them. Tables and
indexes share one name space; a foreign key holds the table it refers to, and an index goes with its
table. A script that only creates is taken back by dropping in reverse (`runScript_undo`), and what
it does beside other tables is what it does alone (`runScript_beside`).
-/

namespace Interaction

/-- A type of a column. -/
inductive ColumnType where
  | string (length : ℕ)
  | text
  | integer
  | bigInteger
  | dateTime (timezone : Bool)
  deriving DecidableEq

/-- A column. -/
structure Column where
  name : String
  type : ColumnType
  nullable : Bool := false
  autoincrement : Bool := false
  serverDefault : Option String := none
  deriving DecidableEq

/-- A foreign key, to the primary key of a table. -/
structure ForeignKey where
  columns : List String
  target : String
  targetColumns : List String
  deriving DecidableEq

/-- A table. -/
structure Table where
  name : String
  columns : List Column
  primaryKey : List String
  foreignKeys : List ForeignKey := []
  deriving DecidableEq

/-- An index. -/
structure Index where
  name : String
  table : String
  columns : List String
  unique : Bool := false
  deriving DecidableEq

/-- The tables and indexes of a database, in the order of their creation. -/
@[ext]
structure Catalog where
  tables : List Table := []
  indexes : List Index := []
  deriving DecidableEq

/-- What an operation can fail with. -/
inductive DdlError where
  | duplicateRelation (name : String)
  | duplicateColumn (table : String)
  | undefinedTable (name : String)
  | undefinedColumn (relation : String)
  | invalidForeignKey (table : String)
  | undefinedIndex (name : String)
  | dependentObjects (name : String)

/-- An operation of a migration. -/
inductive Ddl where
  | createTable (table : Table)
  | createIndex (index : Index)
  | dropIndex (name table : String)
  | dropTable (name : String)

/-- The names of the columns. -/
def Table.columnNames (table : Table) : List String := table.columns.map Column.name

namespace Catalog

/-- The names in use. -/
def relations (db : Catalog) : List String :=
  db.tables.map Table.name ++ db.indexes.map Index.name

/-- The columns of a key are those of the table, and the primary key of another is what it refers
to. -/
def Resolves (db : Catalog) (table : Table) (key : ForeignKey) : Prop :=
  key.columns ⊆ table.columnNames ∧
    ∃ target ∈ table :: db.tables, target.name = key.target ∧ target.primaryKey = key.targetColumns

instance (db : Catalog) (table : Table) (key : ForeignKey) : Decidable (db.Resolves table key) :=
  inferInstanceAs (Decidable (_ ∧ _))

/-- `create_table`. -/
def createTable (db : Catalog) (table : Table) : Except DdlError Catalog :=
  if table.name ∈ db.relations then .error (.duplicateRelation table.name)
  else if ¬table.columnNames.Nodup then .error (.duplicateColumn table.name)
  else if ¬table.primaryKey ⊆ table.columnNames then .error (.undefinedColumn table.name)
  else if ¬∀ key ∈ table.foreignKeys, db.Resolves table key then
    .error (.invalidForeignKey table.name)
  else .ok { db with tables := db.tables ++ [table] }

/-- `create_index`. -/
def createIndex (db : Catalog) (index : Index) : Except DdlError Catalog :=
  if index.name ∈ db.relations then .error (.duplicateRelation index.name)
  else if ¬∃ table ∈ db.tables, table.name = index.table then .error (.undefinedTable index.table)
  else if ¬∃ table ∈ db.tables, table.name = index.table ∧ index.columns ⊆ table.columnNames then
    .error (.undefinedColumn index.name)
  else .ok { db with indexes := db.indexes ++ [index] }

/-- `drop_index`. -/
def dropIndex (db : Catalog) (name : String) : Except DdlError Catalog :=
  if ∃ index ∈ db.indexes, index.name = name then
    .ok { db with indexes := db.indexes.filter fun index => index.name ≠ name }
  else .error (.undefinedIndex name)

/-- `drop_table`, which another table's foreign key prevents. -/
def dropTable (db : Catalog) (name : String) : Except DdlError Catalog :=
  if ¬∃ table ∈ db.tables, table.name = name then .error (.undefinedTable name)
  else if ∃ table ∈ db.tables, table.name ≠ name ∧ ∃ key ∈ table.foreignKeys, key.target = name then
    .error (.dependentObjects name)
  else .ok {
    tables := db.tables.filter fun table => table.name ≠ name
    indexes := db.indexes.filter fun index => index.table ≠ name }

/-- What an operation does. -/
def act (db : Catalog) : Ddl → Except DdlError Catalog
  | .createTable table => db.createTable table
  | .createIndex index => db.createIndex index
  | .dropIndex name _ => db.dropIndex name
  | .dropTable name => db.dropTable name

/-- One database beside another. -/
def beside (db db' : Catalog) : Catalog := ⟨db.tables ++ db'.tables, db.indexes ++ db'.indexes⟩

/-- What refers to a table refers to one that is there. -/
structure Sound (db : Catalog) : Prop where
  keys : ∀ table ∈ db.tables, ∀ key ∈ table.foreignKeys,
    ∃ target ∈ db.tables, target.name = key.target
  indexes : ∀ index ∈ db.indexes, ∃ table ∈ db.tables, table.name = index.table

end Catalog

/-- The name an operation takes, if it is one that creates. -/
def Ddl.claims : Ddl → Option String
  | .createTable table => some table.name
  | .createIndex index => some index.name
  | .dropIndex _ _ => none
  | .dropTable _ => none

/-- What takes an operation back, if it is one that creates. -/
def Ddl.undo : Ddl → Ddl
  | .createTable table => .dropTable table.name
  | .createIndex index => .dropIndex index.name index.table
  | .dropIndex name table => .dropIndex name table
  | .dropTable name => .dropTable name

namespace Catalog

variable {db db' : Catalog}

theorem createTable_eq_ok {table : Table} :
    db.createTable table = .ok db' ↔
      (table.name ∉ db.relations ∧ table.columnNames.Nodup ∧
        table.primaryKey ⊆ table.columnNames ∧ ∀ key ∈ table.foreignKeys, db.Resolves table key) ∧
      db' = { db with tables := db.tables ++ [table] } := by
  unfold createTable
  split_ifs <;> grind

theorem createIndex_eq_ok {index : Index} :
    db.createIndex index = .ok db' ↔
      (index.name ∉ db.relations ∧
        ∃ table ∈ db.tables, table.name = index.table ∧ index.columns ⊆ table.columnNames) ∧
      db' = { db with indexes := db.indexes ++ [index] } := by
  unfold createIndex
  split_ifs <;> grind

/-! ## Names -/

theorem mem_relations {name : String} :
    name ∈ db.relations ↔
      (∃ table ∈ db.tables, table.name = name) ∨ ∃ index ∈ db.indexes, index.name = name := by
  simp [relations]

@[simp] theorem mem_relations_beside {name : String} :
    name ∈ (db.beside db').relations ↔ name ∈ db.relations ∨ name ∈ db'.relations := by
  simp only [mem_relations, beside, List.mem_append, or_and_right, exists_or]
  exact or_or_or_comm

/-- What a new table, or a new index, adds. -/
theorem createTable_beside (db : Catalog) (table : Table) :
    { db with tables := db.tables ++ [table] } = db.beside ⟨[table], []⟩ := by
  rw [beside, List.append_nil]

theorem createIndex_beside (db : Catalog) (index : Index) :
    { db with indexes := db.indexes ++ [index] } = db.beside ⟨[], [index]⟩ := by
  rw [beside, List.append_nil]

/-- An operation that creates takes a new name, and adds nothing else to the names. -/
theorem act_relations {op : Ddl} {name : String} (hclaims : op.claims = some name)
    (h : db.act op = .ok db') :
    name ∉ db.relations ∧ ∀ other, other ∈ db'.relations ↔ other ∈ db.relations ∨ other = name := by
  cases op with
  | createTable table =>
    obtain rfl := Option.some.inj hclaims
    obtain ⟨⟨hfresh, -⟩, rfl⟩ := createTable_eq_ok.mp h
    refine ⟨hfresh, fun other => ?_⟩
    rw [createTable_beside, mem_relations_beside]
    simp [relations]
  | createIndex index =>
    obtain rfl := Option.some.inj hclaims
    obtain ⟨⟨hfresh, -⟩, rfl⟩ := createIndex_eq_ok.mp h
    refine ⟨hfresh, fun other => ?_⟩
    rw [createIndex_beside, mem_relations_beside]
    simp [relations]
  | dropIndex name table => exact absurd hclaims nofun
  | dropTable name => exact absurd hclaims nofun

/-! ## Taking back -/

theorem Sound.act {op : Ddl} (hclaims : op.claims.isSome = true) (hsound : db.Sound)
    (h : db.act op = .ok db') : db'.Sound := by
  cases op with
  | createTable table =>
    obtain ⟨⟨-, -, -, hkeys⟩, rfl⟩ := createTable_eq_ok.mp h
    refine ⟨?_, ?_⟩
    · intro other hother key hkey
      rcases List.mem_append.mp hother with hother | hother
      · obtain ⟨target, htarget, hname⟩ := hsound.keys other hother key hkey
        exact ⟨target, List.mem_append_left _ htarget, hname⟩
      · rw [List.mem_singleton.mp hother] at hkey
        obtain ⟨-, target, htarget, hname, -⟩ := hkeys key hkey
        refine ⟨target, ?_, hname⟩
        rw [List.mem_append, List.mem_singleton]
        exact (List.mem_cons.mp htarget).symm
    · intro index hindex
      obtain ⟨target, htarget, hname⟩ := hsound.indexes index hindex
      exact ⟨target, List.mem_append_left _ htarget, hname⟩
  | createIndex index =>
    obtain ⟨⟨-, target, htarget, hname, -⟩, rfl⟩ := createIndex_eq_ok.mp h
    refine ⟨hsound.keys, ?_⟩
    intro other hother
    rcases List.mem_append.mp hother with hother | hother
    · exact hsound.indexes other hother
    · exact ⟨target, htarget, List.mem_singleton.mp hother ▸ hname⟩
  | dropIndex name table => exact absurd hclaims nofun
  | dropTable name => exact absurd hclaims nofun

/-- Of a list and one more, what differs from the one more is the list. -/
theorem filter_append_new {α : Type} {name : α → String} {list : List α} {new : α}
    (hfresh : ∀ x ∈ list, name x ≠ name new) :
    (list ++ [new]).filter (fun x => name x ≠ name new) = list := by
  rw [List.filter_append, List.filter_eq_self.mpr (by simpa using hfresh)]
  simp

/-- What an operation that creates adds can be dropped again, and nothing else goes. -/
theorem act_undo {op : Ddl} (hclaims : op.claims.isSome = true) (hsound : db.Sound)
    (h : db.act op = .ok db') : db'.act op.undo = .ok db := by
  cases op with
  | createTable table =>
    obtain ⟨⟨hfresh, -⟩, rfl⟩ := createTable_eq_ok.mp h
    rw [mem_relations, not_or] at hfresh
    have hnew : ∀ other ∈ db.tables, other.name ≠ table.name := fun other hother hname =>
      hfresh.1 ⟨other, hother, hname⟩
    -- nothing refers to the table, since it was not there
    have hfree : ¬∃ other ∈ db.tables ++ [table], other.name ≠ table.name ∧
        ∃ key ∈ other.foreignKeys, key.target = table.name := by
      rintro ⟨other, hother, hne, key, hkey, hkeyname⟩
      rcases List.mem_append.mp hother with hother | hother
      · obtain ⟨target, htarget, hname⟩ := hsound.keys other hother key hkey
        exact hnew target htarget (hname.trans hkeyname)
      · exact hne (congrArg Table.name (List.mem_singleton.mp hother))
    have hindexes : ∀ index ∈ db.indexes, index.table ≠ table.name := by
      intro index hindex heq
      obtain ⟨target, htarget, hname⟩ := hsound.indexes index hindex
      exact hnew target htarget (hname.trans heq)
    have hthere : ∃ other ∈ db.tables ++ [table], other.name = table.name :=
      ⟨table, by simp, rfl⟩
    change dropTable _ table.name = .ok db
    rw [dropTable, if_neg (not_not.mpr hthere), if_neg hfree, filter_append_new hnew,
      List.filter_eq_self.mpr (by simpa using hindexes)]
  | createIndex index =>
    obtain ⟨⟨hfresh, -⟩, rfl⟩ := createIndex_eq_ok.mp h
    rw [mem_relations, not_or] at hfresh
    have hnew : ∀ other ∈ db.indexes, other.name ≠ index.name := fun other hother hname =>
      hfresh.2 ⟨other, hother, hname⟩
    change dropIndex _ index.name = .ok db
    rw [dropIndex, if_pos ⟨index, by simp, rfl⟩, filter_append_new hnew]
  | dropIndex name table => exact absurd hclaims nofun
  | dropTable name => exact absurd hclaims nofun

/-! ## Beside other tables -/

/-- An operation that creates does beside other tables what it does alone, unless they have its
name. -/
theorem act_beside {base : Catalog} {op : Ddl} {name : String} (hclaims : op.claims = some name)
    (hfresh : name ∉ base.relations) (h : db.act op = .ok db') :
    (base.beside db).act op = .ok (base.beside db') := by
  cases op with
  | createTable table =>
    obtain rfl := Option.some.inj hclaims
    obtain ⟨⟨hnew, hnodup, hprimary, hkeys⟩, rfl⟩ := createTable_eq_ok.mp h
    refine createTable_eq_ok.mpr ⟨⟨?_, hnodup, hprimary, fun key hkey => ?_⟩, ?_⟩
    · rw [mem_relations_beside]
      exact not_or.mpr ⟨hfresh, hnew⟩
    · obtain ⟨hcolumns, target, htarget, hname⟩ := hkeys key hkey
      refine ⟨hcolumns, target, ?_, hname⟩
      rcases List.mem_cons.mp htarget with rfl | htarget
      · exact List.mem_cons_self
      · exact List.mem_cons_of_mem table (List.mem_append_right base.tables htarget)
    · simp [beside]
  | createIndex index =>
    obtain rfl := Option.some.inj hclaims
    obtain ⟨⟨hnew, table, htable, hname⟩, rfl⟩ := createIndex_eq_ok.mp h
    refine createIndex_eq_ok.mpr ⟨⟨?_, table, List.mem_append_right base.tables htable, hname⟩, ?_⟩
    · rw [mem_relations_beside]
      exact not_or.mpr ⟨hfresh, hnew⟩
    · simp [beside]
  | dropIndex name table => exact absurd hclaims nofun
  | dropTable name => exact absurd hclaims nofun

end Catalog

/-! ## Scripts that create -/

/-- The names a script takes. -/
def claimed (script : List Ddl) : List String := script.filterMap Ddl.claims

/-- A script that only creates. -/
def Creates (script : List Ddl) : Prop := ∀ op ∈ script, op.claims.isSome = true

instance (script : List Ddl) : Decidable (Creates script) :=
  inferInstanceAs (Decidable (∀ op ∈ script, _))

/-- What drops, in reverse, what a script creates. -/
def undoScript (script : List Ddl) : List Ddl := script.reverse.map Ddl.undo

section

variable {script : List Ddl} {db db' : Catalog}

theorem runScript_sound (hcreates : Creates script) (hsound : db.Sound)
    (hrun : runScript Catalog.act script db = .ok db') : db'.Sound :=
  runScript_keeps (fun op hop _ _ => Catalog.Sound.act (hcreates op hop)) hsound hrun

/-- A script that creates is taken back by the reverse. -/
theorem runScript_undo (hcreates : Creates script) (hsound : db.Sound)
    (hrun : runScript Catalog.act script db = .ok db') :
    runScript Catalog.act (undoScript script) db' = .ok db :=
  runScript_back (fun op hop _ _ => Catalog.Sound.act (hcreates op hop))
    (fun op hop _ _ => Catalog.act_undo (hcreates op hop)) hsound hrun

/-- A script that creates does the same beside other tables, if they have none of its names. -/
theorem runScript_beside {base : Catalog} (hcreates : Creates script)
    (hfresh : ∀ name ∈ claimed script, name ∉ base.relations)
    (hrun : runScript Catalog.act script db = .ok db') :
    runScript Catalog.act script (base.beside db) = .ok (base.beside db') := by
  induction script generalizing db with
  | nil => rw [Except.ok.inj hrun]; rfl
  | cons op script ih =>
    obtain ⟨mid, hact, hrun⟩ := runScript_cons_eq_ok.mp hrun
    obtain ⟨hop, hcreates⟩ := List.forall_mem_cons.mp hcreates
    obtain ⟨name, hname⟩ := Option.isSome_iff_exists.mp hop
    rw [claimed, List.filterMap_cons_some hname] at hfresh
    obtain ⟨hfirst, hfresh⟩ := List.forall_mem_cons.mp hfresh
    exact runScript_cons_eq_ok.mpr ⟨base.beside mid, Catalog.act_beside hname hfirst hact,
      ih hcreates hfresh hrun⟩

/-- Where a script that creates went through, none of its names was in use. -/
theorem claimed_fresh (hcreates : Creates script)
    (hrun : runScript Catalog.act script db = .ok db') :
    ∀ name ∈ claimed script, name ∉ db.relations := by
  induction script generalizing db with
  | nil => exact nofun
  | cons op script ih =>
    obtain ⟨mid, hact, hrun⟩ := runScript_cons_eq_ok.mp hrun
    obtain ⟨hop, hcreates⟩ := List.forall_mem_cons.mp hcreates
    obtain ⟨name, hname⟩ := Option.isSome_iff_exists.mp hop
    obtain ⟨hfirst, hgrows⟩ := Catalog.act_relations hname hact
    rw [claimed, List.filterMap_cons_some hname]
    refine List.forall_mem_cons.mpr ⟨hfirst, fun other hother hmem => ?_⟩
    exact ih hcreates hrun other hother ((hgrows other).mpr (.inl hmem))

end

end Interaction
