import TelemetryPlatform.ResumableSteps
import TelemetryPlatform.SampleJson

/-!
# The schema of the database and its migration

The version of the database decides which statements bring its schema up to
date. A new database gets the table and its indexes; after that, and in a
database of version 1, the motor columns are added where they are missing, and
the version is set last. Every statement takes its outcome from a script.
-/

namespace TelemetryPlatform.SchemaMigration

open CStrings SampleJson ResumableSteps

/-- The name of a column or an index; all of them are in lower case. -/
abbrev Name := Bytes

/-- The table of the telemetry states. -/
structure Table where
  /-- The columns in their order. -/
  columns : List Name
  /-- The rows, with a value for every column. -/
  rows : List (List SqlValue)

/-- What the migration looks at and changes. -/
structure Database where
  /-- The version that the database is stamped with. -/
  userVersion : ℤ
  /-- The table, where it exists. -/
  table : Option Table
  /-- The indexes. -/
  indexes : List Name

/-- The columns that the table is created with. -/
def schemaColumns : List Name :=
  [lit "id", lit "received_at_ns", lit "topic", lit "robot_id", lit "seq", lit "msg_timestamp_ns",
    lit "imu_id", lit "acc_x", lit "acc_y", lit "acc_z", lit "gyro_x", lit "gyro_y", lit "gyro_z",
    lit "tilt_id", lit "tilt_x", lit "tilt_y", lit "tilt_z", lit "tilt_status",
    lit "motor1_id", lit "motor1_tics", lit "motor1_rpm", lit "motor1_temperature_c",
    lit "motor1_voltage_power_stage_mv", lit "motor1_current_power_stage_ma",
    lit "motor2_id", lit "motor2_tics", lit "motor2_rpm", lit "motor2_temperature_c",
    lit "motor2_voltage_power_stage_mv", lit "motor2_current_power_stage_ma", lit "raw"]

/-- The definitions of the columns that a migration adds. -/
def motorColumnDefs : List Bytes :=
  [lit "motor1_id TEXT", lit "motor1_tics INTEGER", lit "motor1_rpm INTEGER",
    lit "motor1_temperature_c INTEGER", lit "motor1_voltage_power_stage_mv INTEGER",
    lit "motor1_current_power_stage_ma INTEGER",
    lit "motor2_id TEXT", lit "motor2_tics INTEGER", lit "motor2_rpm INTEGER",
    lit "motor2_temperature_c INTEGER", lit "motor2_voltage_power_stage_mv INTEGER",
    lit "motor2_current_power_stage_ma INTEGER"]

/-- The name in a column definition: at most 127 characters up to the first blank. -/
def columnOf (colDef : Bytes) : Name := (colDef.takeWhile fun b => b != 32).take 127

/-- The name of a column of the insert statement. -/
def sqlName : Column → Name
  | .receivedAtNs => lit "received_at_ns"
  | .topic => lit "topic"
  | .robotId => lit "robot_id"
  | .seq => lit "seq"
  | .msgTimestampNs => lit "msg_timestamp_ns"
  | .imuId => lit "imu_id"
  | .accX => lit "acc_x"
  | .accY => lit "acc_y"
  | .accZ => lit "acc_z"
  | .gyroX => lit "gyro_x"
  | .gyroY => lit "gyro_y"
  | .gyroZ => lit "gyro_z"
  | .tiltId => lit "tilt_id"
  | .tiltX => lit "tilt_x"
  | .tiltY => lit "tilt_y"
  | .tiltZ => lit "tilt_z"
  | .tiltStatus => lit "tilt_status"
  | .motor1Id => lit "motor1_id"
  | .motor1Tics => lit "motor1_tics"
  | .motor1Rpm => lit "motor1_rpm"
  | .motor1TemperatureC => lit "motor1_temperature_c"
  | .motor1VoltagePowerStageMv => lit "motor1_voltage_power_stage_mv"
  | .motor1CurrentPowerStageMa => lit "motor1_current_power_stage_ma"
  | .motor2Id => lit "motor2_id"
  | .motor2Tics => lit "motor2_tics"
  | .motor2Rpm => lit "motor2_rpm"
  | .motor2TemperatureC => lit "motor2_temperature_c"
  | .motor2VoltagePowerStageMv => lit "motor2_voltage_power_stage_mv"
  | .motor2CurrentPowerStageMa => lit "motor2_current_power_stage_ma"
  | .raw => lit "raw"

/-- Create the table where it does not exist; an existing one is left as it is. -/
def createTable (db : Database) : Option Database :=
  match db.table with
  | some _ => some db
  | none => some { db with table := some ⟨schemaColumns, []⟩ }

/-- Create an index where none of its name exists. It needs its columns. -/
def createIndex (name : Name) (columns : List Name) (db : Database) : Option Database :=
  match db.table with
  | none => none
  | some t =>
    if name ∈ db.indexes then some db
    else if ∀ c ∈ columns, c ∈ t.columns then some { db with indexes := db.indexes ++ [name] }
    else none

/-- Add a column behind the others; it holds no values yet. -/
def addColumn (column : Name) (db : Database) : Option Database :=
  match db.table with
  | none => none
  | some t =>
    if column ∈ t.columns then none
    else some { db with table := some ⟨t.columns ++ [column], t.rows.map fun row => row ++ [.null]⟩ }

/-- Stamp the database with a version. -/
def setVersion (version : ℤ) (db : Database) : Option Database :=
  some { db with userVersion := version }

/-- The columns of the table, none where it does not exist. -/
def Database.columns (db : Database) : List Name := (db.table.map Table.columns).getD []

/-- Add a column where the table does not list it. Where the list cannot be read
the column counts as missing. -/
def ensureColumn (colDef : Bytes) : Process Database := fun db script =>
  let col := columnOf colDef
  match nextOutcome script with
  | (.stopped, script) => (.stopped, db, script)
  | (.failed, script) => execute (addColumn col) db script
  | (.done, script) =>
    if col ∈ db.columns then (.returned 0, db, script) else execute (addColumn col) db script

/-- Add the missing ones of some columns. -/
def ensureColumns : List Bytes → Process Database
  | [] => finish 0
  | colDef :: colDefs => checked (ensureColumn colDef) (ensureColumns colDefs)

/-- Set the journal mode, the synchronisation and the checking of foreign keys,
none of which concern the schema. -/
def dbApplyPragmas : Process Database :=
  checked (execute some) (checked (execute some) (checked (execute some) (finish 0)))

/-- The index of the reception times. -/
def idxStateReceived : Name := lit "idx_state_received"

/-- Its columns. -/
def receivedColumns : List Name := [lit "received_at_ns"]

/-- The index of the robots. -/
def idxStateRobotReceived : Name := lit "idx_state_robot_received"

/-- Its columns. -/
def robotReceivedColumns : List Name := [lit "robot_id", lit "received_at_ns"]

/-- Create the table and the indexes, one statement after the other. -/
def createSchema : Process Database :=
  checked (execute createTable)
    (checked (execute (createIndex idxStateReceived receivedColumns))
      (checked (execute (createIndex idxStateRobotReceived robotReceivedColumns)) (finish 0)))

/-- Bring a database without a version up to date. -/
def dbMigrateV2 : Process Database :=
  checked dbApplyPragmas
    (checked createSchema
      (checked (ensureColumns motorColumnDefs) (checked (execute (setVersion 2)) (finish 0))))

/-- Bring a database of version 1 up to date. -/
def dbUpgradeV1ToV2 : Process Database :=
  checked dbApplyPragmas
    (checked (ensureColumns motorColumnDefs) (checked (execute (setVersion 2)) (finish 0)))

/-- What a version asks for. -/
def migrateFrom (userVersion : ℤ) : Process Database :=
  if userVersion = 0 then dbMigrateV2
  else if userVersion = 1 then dbUpgradeV1ToV2
  else if userVersion = 2 then finish 0
  else finish (-1)

/-- Bring a database up to date. Where the query of the version is prepared but
its step fails, the version counts as 0. -/
def dbEnsureSchema : Process Database := fun db script =>
  match nextOutcome script with
  | (.stopped, script) => (.stopped, db, script)
  | (.failed, script) => (.returned (-1), db, script)
  | (.done, script) =>
    match nextOutcome script with
    | (.stopped, script) => (.stopped, db, script)
    | (.failed, script) => migrateFrom 0 db script
    | (.done, script) => migrateFrom db.userVersion db script

/-- A column that is listed or added. -/
def ensureStep (column : Name) (db : Database) : Option Database :=
  if column ∈ db.columns then some db else addColumn column db

/-- The columns that a migration adds. -/
def motorColumns : List Name := motorColumnDefs.map columnOf

/-- The steps from version 0, before the stamp. -/
def migrateSteps : List (Database → Option Database) :=
  [createTable, createIndex idxStateReceived receivedColumns,
    createIndex idxStateRobotReceived robotReceivedColumns] ++ motorColumns.map ensureStep

/-- The steps from version 1, before the stamp. -/
def upgradeSteps : List (Database → Option Database) := motorColumns.map ensureStep

/-- The steps that a version asks for. -/
def stepsFrom (userVersion : ℤ) : List (Database → Option Database) :=
  if userVersion = 0 then migrateSteps ++ [setVersion 2]
  else if userVersion = 1 then upgradeSteps ++ [setVersion 2]
  else []

/-- The columns of an existing table. -/
theorem columns_of_table {db : Database} {t : Table} (h : db.table = some t) :
    db.columns = t.columns := by
  rw [Database.columns, h]
  rfl

/-- A column is added only where it is missing. -/
theorem ensureStep_of_addColumn {column : Name} {db db' : Database}
    (h : addColumn column db = some db') : ensureStep column db = some db' := by
  have hmissing : column ∉ db.columns := by
    intro hlisted
    unfold addColumn at h
    cases htable : db.table with
    | none =>
      rw [htable] at h
      cases h
    | some t =>
      rw [columns_of_table htable] at hlisted
      rw [htable] at h
      dsimp only at h
      rw [if_pos hlisted] at h
      cases h
  rw [ensureStep, if_neg hmissing, h]

/-- A column is ensured, or nothing is changed. -/
theorem ensureColumn_cases (colDef : Bytes) (db : Database) (script : Script) :
    ((ensureColumn colDef db script).1 = .returned 0 ∧
        ensureStep (columnOf colDef) db = some (ensureColumn colDef db script).2.1) ∨
      ((ensureColumn colDef db script).1 ≠ .returned 0 ∧
        (ensureColumn colDef db script).2.1 = db) := by
  have hadd (script : Script) := execute_cases (addColumn (columnOf colDef)) db script
  unfold ensureColumn
  dsimp only
  obtain ⟨outcome, script⟩ := nextOutcome script
  cases outcome with
  | stopped => exact .inr ⟨stopped_ne_zero, rfl⟩
  | failed => exact (hadd script).imp_left fun h => ⟨h.1, ensureStep_of_addColumn h.2⟩
  | done =>
    dsimp only
    split_ifs with hlisted
    · exact .inl ⟨rfl, if_pos hlisted⟩
    · exact (hadd script).imp_left fun h => ⟨h.1, ensureStep_of_addColumn h.2⟩

/-- A column that can be ensured is, where nothing fails. -/
theorem ensureColumn_done {colDef : Bytes} {db db' : Database}
    (h : ensureStep (columnOf colDef) db = some db') :
    ensureColumn colDef db [] = (.returned 0, db', []) ∧
      ∀ left, ∃ script, ensureColumn colDef db script = (.returned 0, db', left) := by
  unfold ensureStep at h
  split_ifs at h with hlisted
  · cases h
    exact ⟨if_pos hlisted, fun left => ⟨.done :: left, if_pos hlisted⟩⟩
  · refine ⟨(if_neg hlisted).trans (execute_done h).1, fun left => ⟨.done :: .done :: left, ?_⟩⟩
    exact (if_neg hlisted).trans ((execute_done h).2 left)

/-- Ensuring a column is a step. -/
theorem performs_ensureColumn (colDef : Bytes) :
    Performs (ensureColumn colDef) [ensureStep (columnOf colDef)] :=
  performs_of_cases (ensureColumn_cases colDef) (fun _ _ h => ensureColumn_done h) fun _ => rfl

/-- Ensuring some columns takes a step for each of them. -/
theorem performs_ensureColumns (colDefs : List Bytes) :
    Performs (ensureColumns colDefs) ((colDefs.map columnOf).map ensureStep) := by
  induction colDefs with
  | nil => exact performs_finish
  | cons colDef colDefs ih => exact (performs_ensureColumn colDef).checked ih

/-- Setting the pragmas takes no step. -/
theorem performs_dbApplyPragmas : Performs dbApplyPragmas [] :=
  performs_execute_some.checked (performs_execute_some.checked
    (performs_execute_some.checked performs_finish))

/-- The steps of the creation. -/
theorem performs_createSchema : Performs createSchema
    [createTable, createIndex idxStateReceived receivedColumns,
      createIndex idxStateRobotReceived robotReceivedColumns] :=
  (performs_execute createTable).checked ((performs_execute _).checked
    ((performs_execute _).checked performs_finish))

/-- The stamp is the last step. -/
theorem performs_stamp :
    Performs (checked (execute (setVersion 2)) (finish 0)) [setVersion 2] :=
  (performs_execute (setVersion 2)).checked performs_finish

/-- A migration performs the steps that its version asks for. -/
theorem performs_migrateFrom {userVersion : ℤ}
    (h : userVersion = 0 ∨ userVersion = 1 ∨ userVersion = 2) :
    Performs (migrateFrom userVersion) (stepsFrom userVersion) := by
  rcases h with rfl | rfl | rfl
  · exact performs_dbApplyPragmas.checked (performs_createSchema.checked
      ((performs_ensureColumns motorColumnDefs).checked performs_stamp))
  · exact performs_dbApplyPragmas.checked
      ((performs_ensureColumns motorColumnDefs).checked performs_stamp)
  · exact performs_finish

/-- What was created stays. -/
structure Grows (db db' : Database) : Prop where
  /-- The table stays. -/
  table : db.table ≠ none → db'.table ≠ none
  /-- The columns stay. -/
  columns : db.columns ⊆ db'.columns
  /-- The indexes stay. -/
  indexes : db.indexes ⊆ db'.indexes

/-- Nothing is created. -/
theorem Grows.refl (db : Database) : Grows db db := ⟨id, List.Subset.refl _, List.Subset.refl _⟩

/-- A step that only creates things, and nothing once it is done. -/
structure Cumulative (step : Database → Option Database) : Prop where
  /-- Something is created at most. -/
  grows : ∀ db db', step db = some db' → Grows db db'
  /-- The version is not touched. -/
  userVersion : ∀ db db', step db = some db' → db'.userVersion = db.userVersion
  /-- A step that is done has nothing left to do. -/
  settles : ∀ db db', step db = some db' → step db' = some db'
  /-- More things that are created leave it so. -/
  lasts : ∀ db db', step db = some db → Grows db db' → step db' = some db'

/-- Nothing is left to create of a table that exists. -/
theorem createTable_eq_self {db : Database} (h : db.table ≠ none) : createTable db = some db := by
  unfold createTable
  cases htable : db.table with
  | none => exact absurd htable h
  | some t => rfl

/-- The table is created empty, with all columns of the schema. -/
theorem createTable_of_no_table {db : Database} (h : db.table = none) :
    createTable db = some { db with table := some ⟨schemaColumns, []⟩ } := by
  unfold createTable
  rw [h]

/-- The creation of the table. -/
theorem cumulative_createTable : Cumulative createTable := by
  have hexists {db db' : Database} (h : createTable db = some db') :
      Grows db db' ∧ db'.userVersion = db.userVersion ∧ db'.table ≠ none := by
    unfold createTable at h
    cases htable : db.table with
    | none =>
      rw [htable] at h
      cases h
      refine ⟨⟨fun hne => absurd htable hne, ?_, List.Subset.refl _⟩, rfl, Option.some_ne_none _⟩
      rw [Database.columns, htable]
      exact List.nil_subset _
    | some t =>
      rw [htable] at h
      cases h
      exact ⟨.refl db, rfl, by rw [htable]; exact Option.some_ne_none t⟩
  exact ⟨fun db db' h => (hexists h).1, fun db db' h => (hexists h).2.1,
    fun db db' h => createTable_eq_self (hexists h).2.2,
    fun db db' h hgrows => createTable_eq_self (hgrows.table (hexists h).2.2)⟩

/-- Nothing is left to create of an index that exists. -/
theorem createIndex_eq_self {name : Name} {columns : List Name} {db : Database}
    (htable : db.table ≠ none) (hindex : name ∈ db.indexes) :
    createIndex name columns db = some db := by
  unfold createIndex
  cases ht : db.table with
  | none => exact absurd ht htable
  | some t => exact if_pos hindex

/-- The creation of an index. -/
theorem cumulative_createIndex (name : Name) (columns : List Name) :
    Cumulative (createIndex name columns) := by
  have hexists {db db' : Database} (h : createIndex name columns db = some db') :
      Grows db db' ∧ db'.userVersion = db.userVersion ∧ db'.table ≠ none ∧ name ∈ db'.indexes := by
    unfold createIndex at h
    cases htable : db.table with
    | none =>
      rw [htable] at h
      cases h
    | some t =>
      have hsome : db.table ≠ none := by rw [htable]; exact Option.some_ne_none t
      rw [htable] at h
      dsimp only at h
      split_ifs at h with hname hcolumns
      · cases h
        exact ⟨.refl db, rfl, hsome, hname⟩
      · cases h
        rw [← htable]
        exact ⟨⟨id, List.Subset.refl _, List.subset_append_left _ _⟩, rfl, hsome,
          List.mem_append_right _ List.mem_cons_self⟩
  refine ⟨fun db db' h => (hexists h).1, fun db db' h => (hexists h).2.1, fun db db' h => ?_,
    fun db db' h hgrows => ?_⟩
  · obtain ⟨-, -, htable, hindex⟩ := hexists h
    exact createIndex_eq_self htable hindex
  · obtain ⟨-, -, htable, hindex⟩ := hexists h
    exact createIndex_eq_self (hgrows.table htable) (hgrows.indexes hindex)

/-- A column that is added to an existing table. -/
theorem ensureStep_of_table {column : Name} {db : Database} {t : Table} (htable : db.table = some t) :
    ensureStep column db = some (if column ∈ t.columns then db
      else { db with table := some ⟨t.columns ++ [column], t.rows.map fun row => row ++ [.null]⟩ }) := by
  unfold ensureStep
  rw [columns_of_table htable]
  split_ifs with hlisted
  · rfl
  · unfold addColumn
    rw [htable]
    exact if_neg hlisted

/-- Without a table no column is added. -/
theorem ensureStep_of_no_table {column : Name} {db : Database} (htable : db.table = none) :
    ensureStep column db = none := by
  unfold ensureStep addColumn
  rw [Database.columns, htable]
  exact if_neg List.not_mem_nil

/-- The addition of a column. -/
theorem cumulative_ensureStep (column : Name) : Cumulative (ensureStep column) := by
  have hlisted {db db' : Database} (h : ensureStep column db = some db') :
      Grows db db' ∧ db'.userVersion = db.userVersion ∧ column ∈ db'.columns := by
    cases htable : db.table with
    | none =>
      rw [ensureStep_of_no_table htable] at h
      cases h
    | some t =>
      rw [ensureStep_of_table htable] at h
      split_ifs at h with hlisted
      · cases h
        exact ⟨.refl db, rfl, by rw [columns_of_table htable]; exact hlisted⟩
      · cases h
        refine ⟨⟨fun _ => Option.some_ne_none _, ?_, List.Subset.refl _⟩, rfl,
          List.mem_append_right _ List.mem_cons_self⟩
        rw [columns_of_table htable]
        exact List.subset_append_left _ _
  exact ⟨fun db db' h => (hlisted h).1, fun db db' h => (hlisted h).2.1,
    fun db db' h => if_pos (hlisted h).2.2,
    fun db db' h hgrows => if_pos (hgrows.columns (hlisted h).2.2)⟩

/-- All steps before the stamp only create things. -/
theorem cumulative_steps :
    (∀ step ∈ migrateSteps, Cumulative step) ∧ ∀ step ∈ upgradeSteps, Cumulative step := by
  have hupgrade : ∀ step ∈ motorColumns.map ensureStep, Cumulative step :=
    List.forall_mem_map.mpr fun column _ => cumulative_ensureStep column
  refine ⟨List.forall_mem_append.mpr ⟨?_, hupgrade⟩, hupgrade⟩
  exact List.forall_mem_cons.mpr ⟨cumulative_createTable,
    List.forall_mem_cons.mpr ⟨cumulative_createIndex _ _,
      List.forall_mem_singleton.mpr (cumulative_createIndex _ _)⟩⟩

/-- Steps that only create things, with the stamp behind them, can be carried
out again. -/
theorem resumable_of_cumulative {steps : List (Database → Option Database)}
    (h : ∀ step ∈ steps, Cumulative step) : Resumable (steps ++ [setVersion 2]) := by
  have hstamp (db db' : Database) (hset : setVersion 2 db = some db') :
      setVersion 2 db' = some db' ∧ Grows db db' := by
    cases hset
    exact ⟨rfl, id, List.Subset.refl _, List.Subset.refl _⟩
  refine ⟨List.forall_mem_append.mpr ⟨fun step hstep => (h step hstep).settles,
    List.forall_mem_singleton.mpr fun db db' hset => (hstamp db db' hset).1⟩,
    List.pairwise_append.mpr ⟨?_, List.pairwise_singleton _ _, fun step hstep => ?_⟩⟩
  · refine List.pairwise_of_forall_mem_list fun step hstep later hlater db db' hdone hgrown => ?_
    exact (h step hstep).lasts db db' hdone ((h later hlater).grows db db' hgrown)
  · refine List.forall_mem_singleton.mpr fun db db' hdone hset => ?_
    exact (h step hstep).lasts db db' hdone (hstamp db db' hset).2

/-- Whether the query of the version is prepared and its step fails. -/
def misread (script : Script) : Bool :=
  decide ((nextOutcome script).1 = .done) &&
    decide ((nextOutcome (nextOutcome script).2).1 = .failed)

/-- Nothing is done, or a migration is carried out: the one from version 0 where
the version is misread, and the one from its own version otherwise. -/
theorem dbEnsureSchema_cases (db : Database) (script : Script) :
    ((dbEnsureSchema db script).1 ≠ .returned 0 ∧ (dbEnsureSchema db script).2.1 = db) ∨
      ∃ rest, dbEnsureSchema db script =
        migrateFrom (if misread script = true then 0 else db.userVersion) db rest := by
  unfold dbEnsureSchema misread
  obtain ⟨outcome, script⟩ := nextOutcome script
  cases outcome with
  | stopped => exact .inl ⟨stopped_ne_zero, rfl⟩
  | failed => exact .inl ⟨failed_ne_zero, rfl⟩
  | done =>
    dsimp only
    obtain ⟨outcome, script⟩ := nextOutcome script
    cases outcome with
    | stopped => exact .inl ⟨stopped_ne_zero, rfl⟩
    | failed => exact .inr ⟨script, rfl⟩
    | done => exact .inr ⟨script, rfl⟩

/-- Without a failure a migration that can be carried out succeeds. -/
theorem dbEnsureSchema_unfailing {db u : Database}
    (h : db.userVersion = 0 ∨ db.userVersion = 1 ∨ db.userVersion = 2)
    (hsteps : carryOut (stepsFrom db.userVersion) db = some u) :
    dbEnsureSchema db [] = (.returned 0, u, []) :=
  (performs_migrateFrom h).unfailing db u hsteps

end TelemetryPlatform.SchemaMigration
