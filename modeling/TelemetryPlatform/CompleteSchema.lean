import TelemetryPlatform.SchemaMigration

/-!
# What the version of the database says about its schema

A migration adds the motor columns to an existing table and no others, and
stamps the database in any case. So the stamp stands for a complete schema
exactly where nothing but motor columns is missing, or where the migration is
refused for the columns of an index.
-/

namespace TelemetryPlatform.CompleteSchema

open CStrings SampleJson ResumableSteps SchemaMigration

/-- The table has every column that samples are inserted into or read from. -/
def Complete (db : Database) : Prop :=
  ∃ t, db.table = some t ∧ ∀ c ∈ insertColumns ++ historyColumns, sqlName c ∈ t.columns

/-- An index exists, or the table has its columns. -/
def Creatable (name : Name) (columns : List Name) (db : Database) (t : Table) : Prop :=
  name ∈ db.indexes ∨ ∀ c ∈ columns, c ∈ t.columns

/-- Every index exists or has its columns. -/
def Indexable (db : Database) (t : Table) : Prop :=
  Creatable idxStateReceived receivedColumns db t ∧
    Creatable idxStateRobotReceived robotReceivedColumns db t

/-- The stamp of a run: where it returns 0 the database has version 2 and a
complete schema, and otherwise it keeps its version. -/
def StampedComplete (db : Database) (script : Script) : Prop :=
  if (dbEnsureSchema db script).1 = .returned 0 then
    (dbEnsureSchema db script).2.1.userVersion = 2 ∧ Complete (dbEnsureSchema db script).2.1
  else (dbEnsureSchema db script).2.1.userVersion = db.userVersion

/-- An index of an existing table. -/
theorem createIndex_of_table {name : Name} {columns : List Name} {db : Database} {t : Table}
    (htable : db.table = some t) : createIndex name columns db =
      if name ∈ db.indexes then some db
      else if ∀ c ∈ columns, c ∈ t.columns then some { db with indexes := db.indexes ++ [name] }
      else none := by
  unfold createIndex
  rw [htable]

/-- An index is created exactly if it exists or has its columns. Nothing else is
changed. -/
theorem createIndex_spec (name : Name) (columns : List Name) {db : Database} {t : Table}
    (htable : db.table = some t) :
    (∀ db', createIndex name columns db = some db' →
        db'.table = some t ∧ name ∈ db'.indexes ∧
          ∀ other, other ≠ name → (other ∈ db'.indexes ↔ other ∈ db.indexes)) ∧
      ((∃ db', createIndex name columns db = some db') ↔ Creatable name columns db t) := by
  rw [createIndex_of_table htable]
  unfold Creatable
  split_ifs with hindex hcolumns
  · refine ⟨fun db' hdb' => ?_, ⟨fun _ => .inl hindex, fun _ => ⟨db, rfl⟩⟩⟩
    cases hdb'
    exact ⟨htable, hindex, fun _ _ => Iff.rfl⟩
  · refine ⟨fun db' hdb' => ?_, ⟨fun _ => .inr hcolumns, fun _ => ⟨_, rfl⟩⟩⟩
    cases hdb'
    refine ⟨htable, List.mem_append_right _ List.mem_cons_self, fun other hother => ?_⟩
    rw [List.mem_append, List.mem_singleton, or_iff_left hother]
  · refine ⟨fun db' hdb' => hdb'.elim, ⟨?_, fun h => ?_⟩⟩
    · rintro ⟨db', hdb'⟩
      cases hdb'
    · exact absurd h (not_or_intro hindex hcolumns)

/-- The columns are added to an existing table where they are missing. -/
theorem carryOut_ensureSteps (columns : List Name) {db : Database} {t : Table}
    (htable : db.table = some t) : ∃ t',
      carryOut (columns.map ensureStep) db = some { db with table := some t' } ∧
        ∀ c, c ∈ t'.columns ↔ c ∈ t.columns ∨ c ∈ columns := by
  induction columns generalizing db t with
  | nil =>
    refine ⟨t, by rw [← htable]; rfl, fun c => ?_⟩
    exact (or_iff_left List.not_mem_nil).symm
  | cons column columns ih =>
    rw [List.map_cons, carryOut_cons, ensureStep_of_table htable, Option.bind_some]
    split_ifs with hlisted
    · obtain ⟨t', hsteps, hcolumns⟩ := ih htable
      refine ⟨t', hsteps, fun c => ?_⟩
      rw [hcolumns, List.mem_cons]
      constructor
      · exact Or.imp_right .inr
      · rintro (hc | rfl | hc)
        · exact .inl hc
        · exact .inl hlisted
        · exact .inr hc
    · have hadded : ({ db with
          table := some ⟨t.columns ++ [column], t.rows.map fun row => row ++ [.null]⟩ } :
          Database).table = some ⟨t.columns ++ [column], t.rows.map fun row => row ++ [.null]⟩ := rfl
      obtain ⟨t', hsteps, hcolumns⟩ := ih hadded
      refine ⟨t', hsteps, fun c => ?_⟩
      rw [hcolumns, List.mem_append, List.mem_singleton, List.mem_cons, or_assoc]

/-- The creation leaves an existing table as it is, and succeeds exactly if every
index exists or has its columns. -/
theorem carryOut_creation {db : Database} {t : Table} (htable : db.table = some t) :
    (∀ db', carryOut [createTable, createIndex idxStateReceived receivedColumns,
        createIndex idxStateRobotReceived robotReceivedColumns] db = some db' → db'.table = some t) ∧
      ((∃ db', carryOut [createTable, createIndex idxStateReceived receivedColumns,
        createIndex idxStateRobotReceived robotReceivedColumns] db = some db') ↔
          Indexable db t) := by
  have hnames : idxStateRobotReceived ≠ idxStateReceived := by decide
  have hcreated : createTable db = some db :=
    createTable_eq_self (by rw [htable]; exact Option.some_ne_none t)
  have hboth (db' : Database) : carryOut [createTable, createIndex idxStateReceived receivedColumns,
      createIndex idxStateRobotReceived robotReceivedColumns] db = some db' ↔
        ∃ between, createIndex idxStateReceived receivedColumns db = some between ∧
          createIndex idxStateRobotReceived robotReceivedColumns between = some db' := by
    rw [carryOut_cons, hcreated, Option.bind_some, carryOut_cons, Option.bind_eq_some_iff]
    refine exists_congr fun between => and_congr_right fun _ => ?_
    rw [carryOut_singleton]
  obtain ⟨hafter, hfirst⟩ := createIndex_spec idxStateReceived receivedColumns htable
  constructor
  · intro db' hdb'
    obtain ⟨between, hbetween, hlast⟩ := (hboth db').mp hdb'
    exact ((createIndex_spec _ _ (hafter between hbetween).1).1 db' hlast).1
  · constructor
    · rintro ⟨db', hdb'⟩
      obtain ⟨between, hbetween, hlast⟩ := (hboth db').mp hdb'
      obtain ⟨htable', -, hindexes⟩ := hafter between hbetween
      refine ⟨hfirst.mp ⟨between, hbetween⟩, ?_⟩
      exact ((createIndex_spec _ _ htable').2.mp ⟨db', hlast⟩).imp_left (hindexes _ hnames).mp
    · rintro ⟨hone, hother⟩
      obtain ⟨between, hbetween⟩ := hfirst.mpr hone
      obtain ⟨htable', -, hindexes⟩ := hafter between hbetween
      obtain ⟨db', hlast⟩ := (createIndex_spec _ _ htable').2.mpr
        (hother.imp_left (hindexes _ hnames).mpr)
      exact ⟨db', (hboth db').mpr ⟨between, hbetween, hlast⟩⟩

/-- From an existing table a migration succeeds exactly if it is the one from
version 1 or every index exists or has its columns. It ends at version 2 with the
motor columns added. -/
theorem carryOut_stepsFrom {userVersion : ℤ} (hversion : userVersion = 0 ∨ userVersion = 1)
    {db : Database} {t : Table} (htable : db.table = some t) :
    (∀ db', carryOut (stepsFrom userVersion) db = some db' → db'.userVersion = 2 ∧
        ∃ t', db'.table = some t' ∧ ∀ c, c ∈ t'.columns ↔ c ∈ t.columns ∨ c ∈ motorColumns) ∧
      ((∃ db', carryOut (stepsFrom userVersion) db = some db') ↔
        (userVersion = 1 ∨ Indexable db t)) := by
  have hstamp {db : Database} (htable : db.table = some t) : ∃ t',
      carryOut (upgradeSteps ++ [setVersion 2]) db =
          some { db with userVersion := 2, table := some t' } ∧
        ∀ c, c ∈ t'.columns ↔ c ∈ t.columns ∨ c ∈ motorColumns := by
    obtain ⟨t', hsteps, hcolumns⟩ := carryOut_ensureSteps motorColumns htable
    refine ⟨t', ?_, hcolumns⟩
    rw [carryOut_append, upgradeSteps, hsteps, Option.bind_some, carryOut_singleton, setVersion]
  rcases hversion with rfl | rfl
  · obtain ⟨hkept, hcreated⟩ := carryOut_creation htable
    rw [stepsFrom, if_pos rfl, migrateSteps, List.append_assoc]
    constructor
    · intro db' hdb'
      rw [carryOut_append] at hdb'
      obtain ⟨between, hbetween, hlast⟩ := Option.bind_eq_some_iff.mp hdb'
      obtain ⟨t', hsteps, hcolumns⟩ := hstamp (hkept between hbetween)
      rw [upgradeSteps, hlast] at hsteps
      cases hsteps
      exact ⟨rfl, t', rfl, hcolumns⟩
    · rw [or_iff_right (by decide : (0 : ℤ) ≠ 1), ← hcreated]
      constructor
      · rintro ⟨db', hdb'⟩
        rw [carryOut_append] at hdb'
        obtain ⟨between, hbetween, -⟩ := Option.bind_eq_some_iff.mp hdb'
        exact ⟨between, hbetween⟩
      · rintro ⟨between, hbetween⟩
        obtain ⟨t', hsteps, -⟩ := hstamp (hkept between hbetween)
        exact ⟨_, by rw [carryOut_append, hbetween]; exact hsteps⟩
  · obtain ⟨t', hsteps, hcolumns⟩ := hstamp htable
    rw [stepsFrom, if_neg (by decide), if_pos rfl, hsteps]
    refine ⟨fun db' hdb' => ?_, iff_of_true ⟨_, rfl⟩ (.inl rfl)⟩
    cases hdb'
    exact ⟨rfl, t', rfl, hcolumns⟩

/-- Every column of the insert and of the select is a column that the table is
created with. -/
theorem sqlName_mem_schemaColumns :
    ∀ c ∈ insertColumns ++ historyColumns, sqlName c ∈ schemaColumns := by decide +kernel

/-- The select names no other columns than the insert. -/
theorem historyColumns_subset : ∀ c ∈ historyColumns, c ∈ insertColumns := by decide

/-- Without a table the migration from version 1 is refused. -/
theorem carryOut_stepsFrom_one {db : Database} (htable : db.table = none) :
    carryOut (stepsFrom 1) db = none := by
  obtain ⟨column, rest, hrest⟩ : ∃ column rest, stepsFrom 1 = ensureStep column :: rest :=
    ⟨_, _, rfl⟩
  rw [hrest, carryOut_cons, ensureStep_of_no_table htable, Option.bind_none]

/-- A database without a table succeeds only from version 0, and the table is then
created complete. -/
theorem carryOut_stepsFrom_of_no_table {userVersion : ℤ}
    (hversion : userVersion = 0 ∨ userVersion = 1) {db db' : Database} (htable : db.table = none)
    (hdone : carryOut (stepsFrom userVersion) db = some db') :
    db'.userVersion = 2 ∧ Complete db' := by
  rcases hversion with rfl | rfl
  · obtain ⟨rest, hrest⟩ : ∃ rest, stepsFrom 0 = createTable :: rest := ⟨_, rfl⟩
    have hcreated := createTable_of_no_table htable
    -- with the table created, the migration is the one of an existing table
    have hagain : carryOut (stepsFrom 0) { db with table := some ⟨schemaColumns, []⟩ } =
        some db' := by
      rw [hrest, carryOut_cons, hcreated, Option.bind_some] at hdone
      rw [hrest, carryOut_cons, createTable_eq_self (Option.some_ne_none _), Option.bind_some, hdone]
    have hempty : ({ db with table := some ⟨schemaColumns, []⟩ } : Database).table =
        some ⟨schemaColumns, []⟩ := rfl
    obtain ⟨hafter, -⟩ := carryOut_stepsFrom (.inl rfl) hempty
    obtain ⟨htwo, t', htable', hcolumns⟩ := hafter db' hagain
    refine ⟨htwo, t', htable', fun c hc => ?_⟩
    exact (hcolumns _).mpr (.inl (sqlName_mem_schemaColumns c hc))
  · rw [carryOut_stepsFrom_one htable] at hdone
    cases hdone

/-- A process that does not touch the version. -/
def KeepsVersion (p : Process Database) : Prop :=
  ∀ db script, (p db script).2.1.userVersion = db.userVersion

/-- A process that touches the version only where it returns 0. -/
def KeepsVersionOnFailure (p : Process Database) : Prop :=
  ∀ db script, (p db script).1 ≠ .returned 0 → (p db script).2.1.userVersion = db.userVersion

/-- Carrying out steps that only create things leaves the version. -/
theorem carryOut_userVersion {steps : List (Database → Option Database)}
    (h : ∀ step ∈ steps, Cumulative step) {db db' : Database}
    (hdone : carryOut steps db = some db') : db'.userVersion = db.userVersion := by
  induction steps generalizing db with
  | nil =>
    rw [carryOut_nil] at hdone
    cases hdone
    rfl
  | cons step steps ih =>
    obtain ⟨hstep, hsteps⟩ := List.forall_mem_cons.mp h
    rw [carryOut_cons] at hdone
    obtain ⟨between, hbetween, hlast⟩ := Option.bind_eq_some_iff.mp hdone
    rw [ih hsteps hlast, hstep.userVersion db between hbetween]

/-- A process whose steps only create things does not touch the version. -/
theorem keepsVersion_of_performs {p : Process Database} {steps : List (Database → Option Database)}
    (h : Performs p steps) (hsteps : ∀ step ∈ steps, Cumulative step) : KeepsVersion p := by
  intro db script
  obtain ⟨done, hfirst, hdone⟩ := h.reached db script
  exact carryOut_userVersion (fun step hstep => hsteps step (hfirst.subset hstep)) hdone

/-- The version is touched in the end at most. -/
theorem KeepsVersion.checked {first rest : Process Database} (h : KeepsVersion first)
    (h' : KeepsVersionOnFailure rest) : KeepsVersionOnFailure (checked first rest) := by
  intro db script hne
  obtain ⟨-, hrest⟩ | ⟨-, -, hsame⟩ := checked_cases first rest db script
  · rw [hrest] at hne ⊢
    rw [h' _ _ hne, h]
  · rw [hsame, h]

/-- A stamp that fails leaves the version. -/
theorem keepsVersionOnFailure_stamp :
    KeepsVersionOnFailure (checked (execute (setVersion 2)) (finish 0)) := by
  intro db script hne
  obtain ⟨-, hrest⟩ | ⟨hfailed, -, hsame⟩ :=
    checked_cases (execute (setVersion 2)) (finish 0) db script
  · rw [hrest] at hne
    exact absurd rfl hne
  · obtain ⟨hzero, -⟩ | ⟨-, hkept⟩ := execute_cases (setVersion 2) db script
    · exact absurd hzero hfailed
    · rw [hsame, hkept]

/-- A migration that fails leaves the version. -/
theorem keepsVersionOnFailure_migrateFrom {userVersion : ℤ}
    (hversion : userVersion = 0 ∨ userVersion = 1) :
    KeepsVersionOnFailure (migrateFrom userVersion) := by
  have hpragmas : KeepsVersion dbApplyPragmas :=
    keepsVersion_of_performs performs_dbApplyPragmas (List.forall_mem_nil _)
  have hcolumns : KeepsVersion (ensureColumns motorColumnDefs) :=
    keepsVersion_of_performs (performs_ensureColumns _) cumulative_steps.2
  rcases hversion with rfl | rfl
  · have hschema : KeepsVersion createSchema := keepsVersion_of_performs performs_createSchema
      fun step hstep => cumulative_steps.1 step (List.mem_append_left _ hstep)
    exact hpragmas.checked (hschema.checked (hcolumns.checked keepsVersionOnFailure_stamp))
  · exact hpragmas.checked (hcolumns.checked keepsVersionOnFailure_stamp)

/-- The version stands for a complete schema in every run, whatever fails and
wherever it stops, exactly if the table, where it exists, lacks motor columns only,
or if the database has version 0 and lacks the columns of an index. -/
theorem stampedComplete_iff (db : Database) (hversion : db.userVersion = 0 ∨ db.userVersion = 1) :
    (∀ script, StampedComplete db script) ↔ ∀ t, db.table = some t →
      (∀ c ∈ insertColumns, sqlName c ∈ motorColumns ∨ sqlName c ∈ t.columns) ∨
        (db.userVersion = 0 ∧ ¬ Indexable db t) := by
  constructor
  · -- the run in which nothing fails
    intro hall t htable
    by_cases hindexable : db.userVersion = 1 ∨ Indexable db t
    · obtain ⟨hafter, hsucceeds⟩ := carryOut_stepsFrom hversion htable
      obtain ⟨db', hdone⟩ := hsucceeds.mpr hindexable
      have hrun : dbEnsureSchema db [] = (.returned 0, db', []) :=
        dbEnsureSchema_unfailing (hversion.imp_right .inl) hdone
      have hstamped := hall []
      rw [StampedComplete, hrun, if_pos rfl] at hstamped
      obtain ⟨-, t', htable', hcomplete⟩ := hstamped
      obtain ⟨-, t'', htable'', hcolumns⟩ := hafter db' hdone
      rw [htable'] at htable''
      cases htable''
      refine .inl fun c hc => ((hcolumns _).mp ?_).symm
      exact hcomplete c (List.mem_append_left _ hc)
    · obtain ⟨hone, hblocked⟩ := not_or.mp hindexable
      exact .inr ⟨hversion.resolve_right hone, hblocked⟩
  · intro hcondition script
    unfold StampedComplete
    obtain ⟨hne, hsame⟩ | ⟨rest, hmigrated⟩ := dbEnsureSchema_cases db script
    · rw [if_neg hne, hsame]
    · rw [hmigrated]
      generalize hasked : (if misread script = true then 0 else db.userVersion) = userVersion
      -- a query that fails asks for the migration from version 0
      have hfrom : userVersion = 0 ∨ userVersion = 1 := by
        rw [← hasked]
        split_ifs
        · exact .inl rfl
        · exact hversion
      split_ifs with hzero
      · have hdone := (performs_migrateFrom (hfrom.imp_right .inl)).complete db rest hzero
        cases htable : db.table with
        | none => exact carryOut_stepsFrom_of_no_table hfrom htable hdone
        | some t =>
          obtain ⟨hafter, hsucceeds⟩ := carryOut_stepsFrom hfrom htable
          obtain ⟨htwo, t', htable', hcolumns⟩ := hafter _ hdone
          refine ⟨htwo, t', htable', fun c hc => (hcolumns _).mpr ?_⟩
          have hinsert : c ∈ insertColumns :=
            (List.mem_append.mp hc).elim id (historyColumns_subset c)
          rcases hcondition t htable with hmotors | ⟨hunversioned, hblocked⟩
          · exact (hmotors c hinsert).symm
          · have hzeroed : userVersion = 0 := by
              rw [← hasked, hunversioned, ite_self]
            refine absurd (hsucceeds.mp ⟨_, hdone⟩) (not_or_intro ?_ hblocked)
            rw [hzeroed]
            decide
      · exact keepsVersionOnFailure_migrateFrom hfrom db rest hzero

/-- The columns of the schema without those of the motors. -/
def motorlessColumns : List Name :=
  [lit "id", lit "received_at_ns", lit "topic", lit "robot_id", lit "seq", lit "msg_timestamp_ns",
    lit "imu_id", lit "acc_x", lit "acc_y", lit "acc_z", lit "gyro_x", lit "gyro_y", lit "gyro_z",
    lit "tilt_id", lit "tilt_x", lit "tilt_y", lit "tilt_z", lit "tilt_status", lit "raw"]

/-- A database of version 1 that lacks the motor columns. -/
def motorlessDatabase : Database where
  userVersion := 1
  table := some ⟨motorlessColumns, []⟩
  indexes := [idxStateReceived, idxStateRobotReceived]

/-- It has version 1, and the version stands for a complete schema in every run. -/
theorem stampedComplete_iff_motorless : motorlessDatabase.userVersion = 1 ∧
    ∀ script, StampedComplete motorlessDatabase script := by
  refine ⟨rfl, (stampedComplete_iff motorlessDatabase (.inr rfl)).mpr fun t htable => .inl ?_⟩
  rw [← Option.some.inj htable]
  decide +kernel

/-- A database without a version, with three columns of the schema. -/
def partialDatabase : Database where
  userVersion := 0
  table := some ⟨[lit "id", lit "received_at_ns", lit "robot_id"], []⟩
  indexes := []

/-- Nothing fails, the database is stamped with version 2, and the column of the
topics is missing. -/
theorem partial_schema_stamped : (dbEnsureSchema partialDatabase []).1 = .returned 0 ∧
    (dbEnsureSchema partialDatabase []).2.1.userVersion = 2 ∧
    ¬ Complete (dbEnsureSchema partialDatabase []).2.1 ∧
    ¬ StampedComplete partialDatabase [] := by
  have htable : partialDatabase.table =
    some ⟨[lit "id", lit "received_at_ns", lit "robot_id"], []⟩ := rfl
  have hindexable : Indexable partialDatabase
      ⟨[lit "id", lit "received_at_ns", lit "robot_id"], []⟩ := by
    unfold Indexable Creatable
    decide +kernel
  obtain ⟨hafter, hsucceeds⟩ := carryOut_stepsFrom (.inl rfl) htable
  obtain ⟨u, hu⟩ := hsucceeds.mpr (.inr hindexable)
  obtain ⟨htwo, t', htable', hcolumns⟩ := hafter u hu
  have hrun : dbEnsureSchema partialDatabase [] = (.returned 0, u, []) :=
    dbEnsureSchema_unfailing (.inl rfl) hu
  have hincomplete : ¬ Complete u := by
    rintro ⟨t, htable'', hcomplete⟩
    rw [htable'] at htable''
    cases htable''
    have htopic := (hcolumns _).mp (hcomplete .topic (by decide))
    exact absurd htopic (by decide +kernel)
  rw [StampedComplete, hrun, if_pos rfl]
  exact ⟨rfl, htwo, hincomplete, fun hstamped => hincomplete hstamped.2⟩

end TelemetryPlatform.CompleteSchema
