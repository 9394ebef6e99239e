import Porla.Data.Migrate

/-! What `Migrate` promises across restarts. A failed run does not record the
migrations it applied before failing, so the next run starts from the same
version; only a successful run moves `user_version`, and then to the table's
length, whatever it was before. -/

namespace Porla.Proofs.Migration
open Porla.Data

/-- On the repository's table, migration 1 fails once with `SQLITE_ERROR`: the
restarted process calls migration 0 again although it returned `SQLITE_OK`. -/
theorem migrate_reruns_applied_migration :
    (migrateRuns migrations [fun i => if i = 1 then 1 else sqliteOk, fun _ => sqliteOk] ⟨0⟩).map
        Run.executed =
      [[(0, sqliteOk), (1, 1)],
       [(0, sqliteOk), (1, sqliteOk), (2, sqliteOk), (3, sqliteOk), (4, sqliteOk), (5, sqliteOk)]] := by
  decide

private theorem migrateRuns_of_stamped (table : MigrationTable) :
    ∀ (codes : List (Nat → Int)) {db : Database},
      db.userVersion = BitVec.ofNat 32 table.migrations.length →
      ∀ run ∈ migrateRuns table codes db, run.executed = []
  | [], _, _ => by simp [migrateRuns]
  | returns :: later, db, stamped => by
    have first := migrate_of_stamped table returns stamped
    simpa [migrateRuns, first] using migrateRuns_of_stamped table later stamped

/-- A failed run leaves `user_version` as it found it, so the next run restarts
there, and a successful run stamps the table's length, after which no run calls any
migration. -/
theorem migrate_reruns_only_after_failure (table : MigrationTable) :
    (∀ returns db, (migrate table returns db).database.userVersion =
      if (migrate table returns db).result then BitVec.ofNat 32 table.migrations.length
      else db.userVersion) ∧
    ∀ codes db earlier run later, migrateRuns table codes db = earlier ++ run :: later →
      run.result = true → ∀ next ∈ later, next.executed = [] := by
  refine ⟨migrate_userVersion table, ?_⟩
  intro codes
  induction codes with
  | nil => intro db earlier run later runs; simp [migrateRuns] at runs
  | cons returns codes ih =>
    intro db earlier run later runs succeeded
    cases earlier with
    | nil =>
      simp only [migrateRuns, List.nil_append, List.cons.injEq] at runs
      obtain ⟨rfl, rfl⟩ := runs
      have stamped := migrate_userVersion table returns db
      rw [if_pos succeeded] at stamped
      exact migrateRuns_of_stamped table codes stamped
    | cons first earlier =>
      simp only [migrateRuns, List.cons_append, List.cons.injEq] at runs
      exact ih _ earlier run later runs.2 succeeded

/-- On the repository's table, a database at version 7 migrates successfully
down to version 6. -/
theorem migrate_lowers_user_version :
    (migrate migrations (fun _ => sqliteOk) ⟨7⟩).result = true ∧
      (migrate migrations (fun _ => sqliteOk) ⟨7⟩).database.userVersion.toInt = 6 := by
  decide

/-- From a non-negative version `v`, a successful run calls exactly the
migrations `v, …, n - 1`, in order, and leaves `user_version = n`. -/
theorem migrate_applies_missing_suffix (table : MigrationTable) (returns : Nat → Int)
    (db : Database) (nonneg : 0 ≤ db.userVersion.toInt)
    (succeeded : (migrate table returns db).result = true) :
    (migrate table returns db).executed.map Prod.fst =
        List.range' db.userVersion.toNat (table.migrations.length - db.userVersion.toNat) ∧
      (migrate table returns db).database.userVersion.toInt = table.migrations.length := by
  have start : toSizeT (getUserVersion db) = db.userVersion.toNat := toSizeT_of_nonneg nonneg
  simp only [migrate, start] at succeeded ⊢
  split at succeeded
  next loop =>
    simp only [loop, if_true, setUserVersion]
    exact ⟨by rw [migrateFrom_succeeded loop, List.length_drop], toInt_ofNat_of_fits table.fits⟩
  next => cases succeeded

theorem migrate_applies_missing_suffix_fresh :
    0 ≤ (⟨0⟩ : Database).userVersion.toInt ∧
      (migrate migrations (fun _ => sqliteOk) ⟨0⟩).result = true ∧
      (migrate migrations (fun _ => sqliteOk) ⟨0⟩).executed.map Prod.fst = List.range' 0 6 ∧
      (migrate migrations (fun _ => sqliteOk) ⟨0⟩).database.userVersion.toInt = 6 :=
  ⟨by decide, by decide,
    migrate_applies_missing_suffix migrations _ ⟨0⟩ (by decide) (by decide)⟩

end Porla.Proofs.Migration
