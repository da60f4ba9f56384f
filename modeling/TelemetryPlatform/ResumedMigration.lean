import TelemetryPlatform.CompleteSchema

/-!
# Resuming an interrupted migration

A migration that has stopped is resumed by the next one, since every step before
the stamp has nothing left to do once it is done. This rests on both migrations
taking the same steps. They do not where the query of the version fails in the
first one: it then counts as version 0, and may create what the version of the
database does not ask for.
-/

namespace TelemetryPlatform.ResumedMigration

open CStrings SampleJson ResumableSteps SchemaMigration CompleteSchema

/-- A run without failures brings the database to this state. -/
def Succeeds (db u : Database) : Prop := dbEnsureSchema db [] = (.returned 0, u, [])

/-- Wherever a run ends, the next one without failures brings the database to the
given state, and the one after it changes nothing. -/
def Resumes (db u : Database) (script : Script) : Prop :=
  Succeeds (dbEnsureSchema db script).2.1 u ∧ Succeeds u u

/-- The migration from version 0 creates nothing that the version of the database
does not ask for: the table exists, and so does every index that it gets to and
can create; behind the indexes version 2 asks for no columns. -/
def NothingToCreate (db : Database) : Prop :=
  ∃ t, db.table = some t ∧
    (Creatable idxStateReceived receivedColumns db t → idxStateReceived ∈ db.indexes ∧
      (Creatable idxStateRobotReceived robotReceivedColumns db t →
        idxStateRobotReceived ∈ db.indexes ∧
          (db.userVersion = 2 → ∀ c ∈ motorColumns, c ∈ t.columns)))

/-- The versions that are supported. -/
def Supported (userVersion : ℤ) : Prop := userVersion = 0 ∨ userVersion = 1 ∨ userVersion = 2

/-- A run without failures succeeds exactly if its version is supported and no
step is refused. -/
theorem succeeds_iff (db u : Database) :
    Succeeds db u ↔ Supported db.userVersion ∧ carryOut (stepsFrom db.userVersion) db = some u := by
  constructor
  · intro h
    have hmigrated : migrateFrom db.userVersion db [] = (.returned 0, u, []) := h
    have hsupported : Supported db.userVersion := by
      by_contra hother
      obtain ⟨hzero, hrest⟩ := not_or.mp hother
      obtain ⟨hone, htwo⟩ := not_or.mp hrest
      rw [migrateFrom, if_neg hzero, if_neg hone, if_neg htwo] at hmigrated
      cases hmigrated
    refine ⟨hsupported, ?_⟩
    have hdone := (performs_migrateFrom hsupported).complete db [] (by rw [hmigrated])
    rwa [hmigrated] at hdone
  · rintro ⟨hsupported, hdone⟩
    exact dbEnsureSchema_unfailing hsupported hdone

/-- A database of version 2 is left as it is. -/
theorem succeeds_of_two {db : Database} (h : db.userVersion = 2) : Succeeds db db := by
  rw [succeeds_iff, h]
  exact ⟨.inr (.inr rfl), rfl⟩

/-- The steps of a version are followed by the stamp, or there are none. -/
theorem stepsFrom_cases {userVersion : ℤ} (h : Supported userVersion) :
    (userVersion = 2 ∧ stepsFrom userVersion = []) ∨
      ∃ steps, (∀ step ∈ steps, Cumulative step) ∧
        stepsFrom userVersion = steps ++ [setVersion 2] := by
  rcases h with rfl | rfl | rfl
  · exact .inr ⟨migrateSteps, cumulative_steps.1, rfl⟩
  · exact .inr ⟨upgradeSteps, cumulative_steps.2, rfl⟩
  · exact .inl ⟨rfl, rfl⟩

/-- A migration that succeeds ends at version 2. -/
theorem userVersion_of_succeeds {db u : Database} (h : Succeeds db u) : u.userVersion = 2 := by
  obtain ⟨hsupported, hdone⟩ := (succeeds_iff db u).mp h
  obtain ⟨htwo, hnone⟩ | ⟨steps, -, hsteps⟩ := stepsFrom_cases hsupported
  · rw [hnone, carryOut_nil] at hdone
    cases hdone
    exact htwo
  · rw [hsteps, carryOut_append] at hdone
    obtain ⟨r, -, hstamp⟩ := Option.bind_eq_some_iff.mp hdone
    rw [carryOut_singleton] at hstamp
    cases hstamp
    rfl

/-- Wherever the steps of its own version are interrupted, a database comes to the
same state. -/
theorem succeeds_of_reached {db u d : Database} (h : Succeeds db u)
    {done : List (Database → Option Database)} (hfirst : done <+: stepsFrom db.userVersion)
    (hdone : carryOut done db = some d) : Succeeds d u := by
  obtain ⟨hsupported, hall⟩ := (succeeds_iff db u).mp h
  obtain ⟨htwo, hnone⟩ | ⟨steps, hcumulative, hsteps⟩ := stepsFrom_cases hsupported
  · rw [hnone] at hfirst
    rw [List.prefix_nil.mp hfirst, carryOut_nil] at hdone
    cases hdone
    exact h
  · rw [hsteps] at hfirst
    rcases List.prefix_concat_iff.mp hfirst with rfl | hbefore
    · rw [← hsteps, hall] at hdone
      cases hdone
      exact succeeds_of_two (userVersion_of_succeeds h)
    · -- the stamp is still to come, so the version asks for the same steps again
      have hkept : d.userVersion = db.userVersion :=
        carryOut_userVersion (fun step hstep => hcumulative step (hbefore.subset hstep)) hdone
      rw [succeeds_iff, hkept]
      refine ⟨hsupported, ?_⟩
      rw [hsteps] at hall ⊢
      rw [(resumable_of_cumulative hcumulative).resume hfirst hdone, hall]

/-- Where nothing is to be created, the migration from version 0 can be resumed from
any of its steps. -/
theorem succeeds_of_nothingToCreate {db u d : Database} (h : Succeeds db u)
    (hversioned : db.userVersion = 1 ∨ db.userVersion = 2) (hnothing : NothingToCreate db)
    {done : List (Database → Option Database)} (hfirst : done <+: stepsFrom 0)
    (hdone : carryOut done db = some d) : Succeeds d u := by
  obtain ⟨t, htable, hindexes⟩ := hnothing
  have hsome : db.table ≠ none := by rw [htable]; exact Option.some_ne_none t
  have hindex {name : Name} {columns : List Name} {db' : Database}
      (hexists : Creatable name columns db t → name ∈ db.indexes)
      (hcreated : createIndex name columns db = some db') : db' = db := by
    rw [createIndex_eq_self hsome (hexists ((createIndex_spec _ _ htable).2.mp ⟨db', hcreated⟩))]
      at hcreated
    exact (Option.some.inj hcreated).symm
  -- an index that is not refused exists
  obtain rfl | ⟨-, done₁, hfirst₁, hdone₁⟩ := carryOut_of_idle_step
    (fun db' hdb' => Option.some.inj (hdb'.symm.trans (createTable_eq_self hsome))) hfirst hdone
  · exact h
  obtain rfl | ⟨hreceived, done₂, hfirst₂, hdone₂⟩ := carryOut_of_idle_step
    (fun db' => hindex fun hcreatable => (hindexes hcreatable).1) hfirst₁ hdone₁
  · exact h
  obtain ⟨-, hrobot⟩ := hindexes ((createIndex_spec _ _ htable).2.mp ⟨db, hreceived⟩)
  obtain rfl | ⟨hrobotReceived, done₃, hfirst₃, hdone₃⟩ := carryOut_of_idle_step
    (fun db' => hindex fun hcreatable => (hrobot hcreatable).1) hfirst₂ hdone₂
  · exact h
  obtain ⟨-, hcolumns⟩ := hrobot ((createIndex_spec _ _ htable).2.mp ⟨db, hrobotReceived⟩)
  rcases hversioned with hone | htwo
  · refine succeeds_of_reached h ?_ hdone₃
    rw [hone]
    exact hfirst₃
  · have hidle : ∀ step ∈ upgradeSteps ++ [setVersion 2], step db = some db := by
      refine List.forall_mem_append.mpr ⟨List.forall_mem_map.mpr fun column hcolumn => ?_,
        List.forall_mem_singleton.mpr ?_⟩
      · rw [ensureStep_of_table htable, if_pos (hcolumns htwo column hcolumn)]
      · rw [setVersion, ← htwo]
    have hsame : carryOut done₃ db = some db :=
      carryOut_of_settled fun step hstep => hidle step (hfirst₃.subset hstep)
    rw [hsame] at hdone₃
    cases hdone₃
    exact h

/-- The migration from version 1 leaves the indexes as they are. -/
theorem indexes_of_succeeds {db u : Database} (h : Succeeds db u)
    (hversioned : db.userVersion = 1 ∨ db.userVersion = 2) : u.indexes = db.indexes := by
  obtain ⟨-, hdone⟩ := (succeeds_iff db u).mp h
  rcases hversioned with hone | htwo
  · rw [hone] at hdone
    cases htable : db.table with
    | none =>
      rw [carryOut_stepsFrom_one htable] at hdone
      cases hdone
    | some t =>
      obtain ⟨t', hsteps, -⟩ := carryOut_ensureSteps motorColumns htable
      have hall : carryOut (upgradeSteps ++ [setVersion 2]) db = some u := hdone
      rw [carryOut_append, upgradeSteps, hsteps, Option.bind_some, carryOut_singleton,
        setVersion] at hall
      cases hall
      rfl
  · rw [htwo] at hdone
    cases hdone
    rfl

/-- Where the migration from version 0 can be resumed from each of its steps,
nothing is to be created. -/
theorem nothingToCreate_of_succeeds {db u : Database} (h : Succeeds db u)
    (hversioned : db.userVersion = 1 ∨ db.userVersion = 2)
    (hall : ∀ done, done <+: stepsFrom 0 → ∀ d, carryOut done db = some d → Succeeds d u) :
    NothingToCreate db := by
  -- what is created before the stamp is found again at the end
  have hkept (done : List (Database → Option Database)) {d : Database}
      (hfirst : done <+: migrateSteps) (hdone : carryOut done db = some d) :
      d.userVersion = db.userVersion ∧ Succeeds d u ∧ d.indexes = db.indexes := by
    have hversion : d.userVersion = db.userVersion :=
      carryOut_userVersion (fun step hstep => cumulative_steps.1 step (hfirst.subset hstep)) hdone
    have hd : Succeeds d u := hall done (hfirst.trans (List.prefix_append _ _)) d hdone
    refine ⟨hversion, hd, ?_⟩
    rw [← indexes_of_succeeds hd (by rwa [hversion]), indexes_of_succeeds h hversioned]
  -- version 2 asks for nothing
  have hsame {d : Database} (htwo : db.userVersion = 2) (hd : Succeeds d u)
      (hversion : d.userVersion = db.userVersion) : d = db := by
    obtain ⟨-, hnone⟩ := (succeeds_iff d u).mp hd
    obtain ⟨-, hnone'⟩ := (succeeds_iff db u).mp h
    rw [hversion, htwo] at hnone
    rw [htwo] at hnone'
    exact Option.some.inj (hnone.trans hnone'.symm)
  cases htable : db.table with
  | none =>
    rcases hversioned with hone | htwo
    · obtain ⟨-, hdone⟩ := (succeeds_iff db u).mp h
      rw [hone, carryOut_stepsFrom_one htable] at hdone
      cases hdone
    · have hcreated := createTable_of_no_table htable
      obtain ⟨hversion, hsucceeds, -⟩ := hkept [createTable]
        ⟨_, rfl⟩ (by rw [carryOut_singleton, hcreated])
      have hnone := congrArg Database.table (hsame htwo hsucceeds hversion)
      rw [htable] at hnone
      cases hnone
  | some t =>
    have hsome : db.table ≠ none := by rw [htable]; exact Option.some_ne_none t
    have hcreated : carryOut [createTable] db = some db := by
      rw [carryOut_singleton, createTable_eq_self hsome]
    have hexists {name : Name} {columns : List Name} (done : List (Database → Option Database))
        (hfirst : done ++ [createIndex name columns] <+: migrateSteps)
        (hidle : carryOut done db = some db) (hcreatable : Creatable name columns db t) :
        name ∈ db.indexes := by
      obtain ⟨d, hd⟩ := (createIndex_spec _ _ htable).2.mpr hcreatable
      obtain ⟨-, -, hindexes⟩ := hkept _ hfirst
        (by rw [carryOut_append, hidle, Option.bind_some, carryOut_singleton, hd])
      obtain ⟨-, hmem, -⟩ := (createIndex_spec _ _ htable).1 d hd
      rwa [hindexes] at hmem
    refine ⟨t, htable, fun hreceived => ?_⟩
    have hindex := hexists [createTable] ⟨_, rfl⟩ hcreated hreceived
    have hidle : carryOut [createTable, createIndex idxStateReceived receivedColumns] db =
        some db := by
      rw [carryOut_cons, createTable_eq_self hsome, Option.bind_some, carryOut_singleton,
        createIndex_eq_self hsome hindex]
    refine ⟨hindex, fun hrobot => ?_⟩
    have hindex' := hexists [createTable, createIndex idxStateReceived receivedColumns]
      ⟨_, rfl⟩ hidle hrobot
    refine ⟨hindex', fun htwo column hcolumn => ?_⟩
    obtain ⟨t', hsteps, hcolumns⟩ := carryOut_ensureSteps motorColumns htable
    obtain ⟨hversion, hsucceeds, -⟩ := hkept migrateSteps (List.prefix_refl _) (by
      rw [migrateSteps, carryOut_append, carryOut_cons, createTable_eq_self hsome, Option.bind_some,
        carryOut_cons, createIndex_eq_self hsome hindex, Option.bind_some, carryOut_singleton,
        createIndex_eq_self hsome hindex', Option.bind_some, hsteps])
    have hequal := congrArg Database.table (hsame htwo hsucceeds hversion)
    rw [htable] at hequal
    rw [← Option.some.inj hequal]
    exact (hcolumns column).mpr (.inr hcolumn)

/-- A migration can be interrupted anywhere and resumed, exactly if the query of
the version does not fail in it, or the database has version 0, or nothing is to
be created. -/
theorem resumes_iff (db u : Database) (h : Succeeds db u) (failed : Bool) :
    (∀ script, misread script = failed → Resumes db u script) ↔
      (failed = false ∨ db.userVersion = 0 ∨ NothingToCreate db) := by
  obtain ⟨hsupported, -⟩ := (succeeds_iff db u).mp h
  constructor
  · intro hall
    cases failed with
    | false => exact .inl rfl
    | true =>
      refine .inr (hsupported.imp_right fun hversioned => ?_)
      refine nothingToCreate_of_succeeds h hversioned fun done hfirst d hdone => ?_
      obtain ⟨rest, hrest⟩ := (performs_migrateFrom (.inl rfl)).ends_iff.mpr ⟨done, hfirst, hdone⟩
      have hmisread : (dbEnsureSchema db (.done :: .failed :: rest)).2.1 = d := hrest
      obtain ⟨hresumed, -⟩ := hall (.done :: .failed :: rest) rfl
      rwa [hmisread] at hresumed
  · intro hcondition script hscript
    refine ⟨?_, succeeds_of_two (userVersion_of_succeeds h)⟩
    obtain ⟨-, hsame⟩ | ⟨rest, hmigrated⟩ := dbEnsureSchema_cases db script
    · rw [hsame]
      exact h
    · rw [hmigrated, hscript]
      split_ifs with hfailed
      · obtain ⟨done, hfirst, hdone⟩ := (performs_migrateFrom (.inl rfl)).reached db rest
        rcases hcondition with hread | hzero | hnothing
        · rw [hread] at hfailed
          cases hfailed
        · rw [← hzero] at hfirst
          exact succeeds_of_reached h hfirst hdone
        · rcases hsupported with hzero | hversioned
          · rw [← hzero] at hfirst
            exact succeeds_of_reached h hfirst hdone
          · exact succeeds_of_nothingToCreate h hversioned hnothing hfirst hdone
      · obtain ⟨done, hfirst, hdone⟩ := (performs_migrateFrom hsupported).reached db rest
        exact succeeds_of_reached h hfirst hdone

/-- A database of version 1 with both indexes can be resumed wherever its migration
is interrupted. -/
theorem resumes_iff_motorless : ∃ u, Succeeds motorlessDatabase u ∧
    ∀ script, Resumes motorlessDatabase u script := by
  obtain ⟨t, htable⟩ : ∃ t, motorlessDatabase.table = some t := ⟨_, rfl⟩
  obtain ⟨u, hu⟩ := (carryOut_stepsFrom (.inr rfl) htable).2.mpr (.inl rfl)
  have hsucceeds : Succeeds motorlessDatabase u := (succeeds_iff _ u).mpr ⟨.inr (.inl rfl), hu⟩
  have hnothing : NothingToCreate motorlessDatabase := by
    refine ⟨t, htable, fun _ => ⟨List.mem_cons_self, fun _ => ⟨?_, fun htwo => ?_⟩⟩⟩
    · exact List.mem_cons_of_mem _ List.mem_cons_self
    · exact absurd htwo (by decide)
  refine ⟨u, hsucceeds, fun script => ?_⟩
  exact (resumes_iff motorlessDatabase u hsucceeds (misread script)).mpr (.inr (.inr hnothing))
    script rfl

/-- A database of version 1 without motor columns and indexes. -/
def indexlessDatabase : Database where
  userVersion := 1
  table := some ⟨motorlessColumns, []⟩
  indexes := []

/-- Without failures the migration of this database creates no index. Where only
the query of the version fails, it creates both, and they stay. -/
theorem misread_version_creates_indexes :
    (dbEnsureSchema indexlessDatabase []).1 = .returned 0 ∧
      (dbEnsureSchema indexlessDatabase []).2.1.indexes = [] ∧
      (dbEnsureSchema (dbEnsureSchema indexlessDatabase [.done, .failed]).2.1 []).2.1.indexes =
        [idxStateReceived, idxStateRobotReceived] ∧
      ¬ ∀ u script, Succeeds indexlessDatabase u → Resumes indexlessDatabase u script := by
  obtain ⟨t, htable⟩ : ∃ t, indexlessDatabase.table = some t := ⟨_, rfl⟩
  obtain ⟨u, hu⟩ := (carryOut_stepsFrom (.inr rfl) htable).2.mpr (.inl rfl)
  have hsucceeds : Succeeds indexlessDatabase u := (succeeds_iff _ u).mpr ⟨.inr (.inl rfl), hu⟩
  have hnone : u.indexes = [] := indexes_of_succeeds hsucceeds (.inl rfl)
  have hboth : (dbEnsureSchema (dbEnsureSchema indexlessDatabase [.done, .failed]).2.1 []).2.1.indexes =
      [idxStateReceived, idxStateRobotReceived] := by decide +kernel
  have hrun : dbEnsureSchema indexlessDatabase [] = (.returned 0, u, []) := hsucceeds
  refine ⟨by rw [hrun], by rw [hrun, hnone], hboth, fun hall => ?_⟩
  obtain ⟨hresumed, -⟩ := hall u [.done, .failed] hsucceeds
  have hindexes := congrArg (fun ended => ended.2.1.indexes) hresumed
  rw [hboth, hnone] at hindexes
  cases hindexes

end TelemetryPlatform.ResumedMigration
