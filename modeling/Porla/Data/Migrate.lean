import Mathlib

/-! Schema migrations of the torrent store, `porla::Data::Migrate`. The table is
walked from the stored `user_version` and the version is stamped once, after the
last migration has returned `SQLITE_OK`. -/

namespace Porla.Data

def sqliteOk : Int := 0

/-- The part of the SQLite database the migration code reads and writes:
`PRAGMA user_version`, a 32-bit signed integer. -/
structure Database where
  userVersion : BitVec 32

def getUserVersion (db : Database) : BitVec 32 := db.userVersion

def setUserVersion (db : Database) (version : BitVec 32) : Database :=
  { db with userVersion := version }

/-- A migration, a `std::function<int(sqlite3*)>`. Its effect on the schema is not
modelled: what it returns when a run calls it is an input of `migrate`. -/
structure Migration where
  name : String

/-- The migration table. `Migrate` walks it with an `int` counter and stamps
`static_cast<int>(Migrations.size())`, so its length fits in `int`. -/
structure MigrationTable where
  migrations : List Migration
  fits : migrations.length < 2 ^ 31

def migrations : MigrationTable :=
  ⟨[⟨"InitialSetup"⟩, ⟨"AddSessionSettings"⟩, ⟨"Users"⟩, ⟨"RemoveSessionParams"⟩,
    ⟨"TorrentsMetadata"⟩, ⟨"ClientData"⟩], by decide⟩

/-- `(size_t) i`: the loop condition `i < Migrations.size()` compares the `int`
counter as an unsigned 64-bit value. -/
def toSizeT (i : BitVec 32) : Nat := (i.toInt % 2 ^ 64).toNat

/-- What one call of `Migrate` did: its result, the migrations it called in order
with the code each returned, and the database it left. -/
structure Run where
  result : Bool
  executed : List (Nat × Int)
  database : Database

/-- The loop of `Migrate` from index `i` over the migrations at `i, i + 1, …`;
`returns i` is the code `Migrations.at(i)(db)` gives in this run. -/
def migrateFrom (returns : Nat → Int) (i : Nat) : List Migration → List (Nat × Int) × Bool
  | [] => ([], true)
  | _ :: rest =>
    if returns i ≠ sqliteOk then ([(i, returns i)], false)
    else
      let later := migrateFrom returns (i + 1) rest
      ((i, returns i) :: later.1, later.2)

def migrate (table : MigrationTable) (returns : Nat → Int) (db : Database) : Run :=
  let start := toSizeT (getUserVersion db)
  let loop := migrateFrom returns start (table.migrations.drop start)
  if loop.2 then ⟨true, loop.1, setUserVersion db (BitVec.ofNat 32 table.migrations.length)⟩
  else ⟨false, loop.1, db⟩

/-- Successive runs of `migrate` on one database, one per start of the process,
the `k`-th seeing the codes `returns[k]`. -/
def migrateRuns (table : MigrationTable) : List (Nat → Int) → Database → List Run
  | [], _ => []
  | returns :: later, db =>
    let run := migrate table returns db
    run :: migrateRuns table later run.database

/-! ## The loop -/

theorem migrateFrom_succeeded {returns : Nat → Int} {i : Nat} {pending : List Migration}
    (succeeded : (migrateFrom returns i pending).2 = true) :
    (migrateFrom returns i pending).1.map Prod.fst = List.range' i pending.length := by
  induction pending generalizing i with
  | nil => rfl
  | cons _ rest ih =>
    by_cases failing : returns i = sqliteOk
    · simp only [migrateFrom, failing, ne_eq, not_true_eq_false, ite_false] at succeeded ⊢
      simp [ih succeeded, List.range'_succ]
    · simp [migrateFrom, failing] at succeeded

/-- A run stamps the table's length when it succeeds and leaves the version alone
when it fails. -/
theorem migrate_userVersion (table : MigrationTable) (returns : Nat → Int) (db : Database) :
    (migrate table returns db).database.userVersion =
      if (migrate table returns db).result then BitVec.ofNat 32 table.migrations.length
      else db.userVersion := by
  simp only [migrate]
  split <;> simp_all [setUserVersion]

theorem toSizeT_of_nonneg {v : BitVec 32} (nonneg : 0 ≤ v.toInt) : toSizeT v = v.toNat := by
  have bound := v.isLt
  rw [BitVec.toInt_eq_toNat_cond] at nonneg
  unfold toSizeT
  rw [BitVec.toInt_eq_toNat_cond]
  split <;> omega

theorem toInt_ofNat_of_fits {n : Nat} (fits : n < 2 ^ 31) : (BitVec.ofNat 32 n).toInt = n := by
  rw [BitVec.toInt_ofNat]
  unfold Int.bmod
  rw [Int.emod_eq_of_lt (by omega) (by omega)]
  simp only
  split <;> omega

theorem toNat_ofNat_of_fits {n : Nat} (fits : n < 2 ^ 31) : (BitVec.ofNat 32 n).toNat = n := by
  simp only [BitVec.toNat_ofNat]
  omega

/-- Once the table's length is stamped, a run calls nothing and keeps the stamp. -/
theorem migrate_of_stamped (table : MigrationTable) (returns : Nat → Int) {db : Database}
    (stamped : db.userVersion = BitVec.ofNat 32 table.migrations.length) :
    migrate table returns db = ⟨true, [], db⟩ := by
  have start : toSizeT (getUserVersion db) = table.migrations.length := by
    have nonneg : 0 ≤ db.userVersion.toInt := by
      rw [stamped, toInt_ofNat_of_fits table.fits]; omega
    rw [getUserVersion, toSizeT_of_nonneg nonneg, stamped, toNat_ofNat_of_fits table.fits]
  cases db
  simp_all [migrate, migrateFrom, setUserVersion]

end Porla.Data
