import Porla.Lt

/-! The torrents table, `porla::Data::Models::AddTorrentParams`. Its source is not
in the repository; the operations follow §4.A of the spec. -/

namespace Porla.Data.Models

/-- A persisted torrent record, keyed by info hash. -/
structure AddTorrentParams where
  clientData : TorrentClientData
  name : String
  params : Lt.AddTorrentParams
  queuePosition : Int
  savePath : String

/-- The rows of the torrents table. -/
abbrev TorrentsTable := AList (fun _ : Lt.InfoHash => AddTorrentParams)

namespace AddTorrentParams

/-- Modelled from the spec: `Insert` fails with a duplicate key when the hash has a
row, and `AddTorrent` does not look at the failure. -/
def insert (db : TorrentsTable) (hash : Lt.InfoHash) (row : AddTorrentParams) : TorrentsTable :=
  mapInsert db hash row

/-- Modelled from the spec: `Update` rewrites the row of the hash and does nothing
when there is none. -/
def update (db : TorrentsTable) (hash : Lt.InfoHash) (row : AddTorrentParams) : TorrentsTable :=
  db.replace hash row

/-- Modelled from the spec: `Remove` is idempotent. -/
def remove (db : TorrentsTable) (hash : Lt.InfoHash) : TorrentsTable :=
  db.erase hash

/-- Modelled from the spec: `Count`. -/
def count (db : TorrentsTable) : Nat := db.entries.length

/-- Modelled from the spec: `ForEach` visits every row's add parameters, in an
order the spec leaves open: here the table's own. -/
def forEach (db : TorrentsTable) : List Lt.AddTorrentParams :=
  db.entries.map (·.2.params)

@[simp] theorem mem_insert {db : TorrentsTable} {hash other : Lt.InfoHash} {row : AddTorrentParams} :
    other ∈ insert db hash row ↔ other = hash ∨ other ∈ db :=
  mem_mapInsert

@[simp] theorem mem_update {db : TorrentsTable} {hash other : Lt.InfoHash} {row : AddTorrentParams} :
    other ∈ update db hash row ↔ other ∈ db :=
  AList.mem_replace

@[simp] theorem mem_remove {db : TorrentsTable} {hash other : Lt.InfoHash} :
    other ∈ remove db hash ↔ other ≠ hash ∧ other ∈ db :=
  AList.mem_erase

/-- What `List.kreplace` maps over the rows: the row under `hash` becomes `row`. -/
private def replaceRow (hash : Lt.InfoHash) (row : AddTorrentParams) (entry : Σ _ : Lt.InfoHash, AddTorrentParams) :
    Option (Σ _ : Lt.InfoHash, AddTorrentParams) :=
  if hash = entry.1 then some ⟨hash, row⟩ else none

private theorem dlookup_lookmap_replaceRow (hash other : Lt.InfoHash) (row : AddTorrentParams) :
    ∀ rows : List (Σ _ : Lt.InfoHash, AddTorrentParams),
      (rows.lookmap (replaceRow hash row)).dlookup other =
        if other = hash ∧ hash ∈ rows.keys then some row else rows.dlookup other
  | [] => by simp
  | ⟨key, value⟩ :: rows => by
    by_cases same : hash = key
    · subst same
      rw [List.lookmap_cons_some _ _ (if_pos rfl : replaceRow hash row ⟨hash, value⟩ = _)]
      by_cases found : other = hash
      · subst found; simp [List.dlookup_cons_eq]
      · simp [found, List.dlookup_cons_ne _ ⟨hash, _⟩ found]
    · rw [List.lookmap_cons_none _ _ (if_neg same : replaceRow hash row ⟨key, value⟩ = _)]
      by_cases found : other = key
      · subst found; simp [Ne.symm same]
      · simp [List.dlookup_cons_ne _ ⟨key, _⟩ found, dlookup_lookmap_replaceRow hash other row rows, same]

/-- `Update` writes the row of a hash that has one and no other. -/
theorem lookup_update (db : TorrentsTable) (hash other : Lt.InfoHash) (row : AddTorrentParams) :
    (update db hash row).lookup other = if other = hash ∧ hash ∈ db then some row else db.lookup other := by
  show (db.entries.lookmap (replaceRow hash row)).dlookup other = _
  rw [dlookup_lookmap_replaceRow]
  exact if_congr (and_congr_right' AList.mem_keys) rfl rfl

end AddTorrentParams

end Porla.Data.Models
