import Porla.Session.EventLoop

/-! `Session::Load` visits the rows of the torrents table with the throwing overload
of `add_torrent` and no handler around it. Every row up to the first one the engine
rejects is added to the engine and to `m_torrents`; that row's exception ends the
visit and leaves `Load`, and no row after it is added, whether or not the engine
would take it. -/

namespace Porla.Proofs.Load
open Porla.Session Data.Models

/-- The visit only adds: what the engine holds and the keys of `m_torrents` stay. -/
theorem loadRows_keeps (hash : Lt.InfoHash) :
    ∀ (s : Session) (rows : List Lt.AddTorrentParams),
      (hash ∈ s.session.torrents → hash ∈ (s.loadRows rows).1.session.torrents) ∧
        (hash ∈ s.torrents → hash ∈ (s.loadRows rows).1.torrents)
  | s, [] => ⟨id, id⟩
  | s, params :: rest => by
    unfold loadRows
    split
    · exact ⟨id, id⟩
    · next th engine added =>
      obtain ⟨-, -, rfl⟩ := Lt.Session.addTorrent_eq _ added
      refine (loadRows_keeps hash _ rest).imp (fun later held => later ?_) (fun later bound => later ?_)
      · exact (AList.mem_insert _).mpr (Or.inr held)
      · exact mem_mapInsert.mpr (Or.inr bound)

/-- A row the engine takes is held by it and bound in `m_torrents` under its hash. -/
theorem loadRows_cons_added {s : Session} {params : Lt.AddTorrentParams} {th : Lt.TorrentHandle}
    {engine : Lt.Session} (added : s.session.addTorrent params = .ok (th, engine)) :
    ∃ next : Session, params.infoHashes ∈ next.session.torrents ∧ params.infoHashes ∈ next.torrents ∧
      ∀ rest, s.loadRows (params :: rest) = next.loadRows rest := by
  have named : (engine.instances th).infoHashes = params.infoHashes ∧ params.infoHashes ∈ engine.torrents := by
    obtain ⟨-, rfl, rfl⟩ := Lt.Session.addTorrent_eq _ added
    exact ⟨by simp [Lt.Torrent.ofParams], (AList.mem_insert _).mpr (Or.inl rfl)⟩
  exact ⟨{ s with session := engine, torrents := mapInsert s.torrents (engine.instances th).infoHashes th },
    named.2, mem_mapInsert.mpr (Or.inl named.1.symm), fun rest => by simp only [loadRows, added]⟩

/-- The visit either adds every row and returns, or stops at the first row the engine
rejects, with the session it had after the rows before it. -/
theorem loadRows_stops_at_first_rejected (s : Session) (rows : List Lt.AddTorrentParams) :
    ((s.loadRows rows).2 = none ∧ ∀ params ∈ rows,
        params.infoHashes ∈ (s.loadRows rows).1.session.torrents ∧
          params.infoHashes ∈ (s.loadRows rows).1.torrents) ∨
      ∃ before params after what, rows = before ++ params :: after ∧ (s.loadRows before).2 = none ∧
        (s.loadRows before).1.session.addTorrent params = .error what ∧
        s.loadRows rows = ((s.loadRows before).1, some what) := by
  induction rows generalizing s with
  | nil => exact .inl ⟨rfl, fun _ absent => absurd absent (List.not_mem_nil _)⟩
  | cons params rest ih =>
    cases added : s.session.addTorrent params with
    | error what =>
      exact .inr ⟨[], params, rest, what, rfl, rfl, added, by simp only [loadRows, added]⟩
    | ok result =>
      obtain ⟨next, held, bound, step⟩ := loadRows_cons_added added
      rcases ih next with ⟨returned, all⟩ | ⟨before, row, after, what, rfl, clean, rejected, stopped⟩
      · refine .inl ⟨by rw [step, returned], fun row member => ?_⟩
        rw [step]
        rcases List.mem_cons.mp member with rfl | later
        · exact ⟨(loadRows_keeps _ next rest).1 held, (loadRows_keeps _ next rest).2 bound⟩
        · exact all row later
      · refine .inr ⟨params :: before, row, after, what, rfl, ?_, ?_, ?_⟩ <;>
          simp only [List.cons_append, step, clean, rejected, stopped]

/-- `Load` either adds every row of the table, each to the engine and to `m_torrents`,
and returns, or stops at the first row the engine rejects: its exception leaves
`Load`, and the session is the one after the rows before it, so no row after it is
added. -/
theorem load_stops_at_first_rejected (s : Session) :
    (s.load.2 = none ∧ ∀ params ∈ AddTorrentParams.forEach s.db,
        params.infoHashes ∈ s.load.1.session.torrents ∧ params.infoHashes ∈ s.load.1.torrents) ∨
      ∃ before params after what, AddTorrentParams.forEach s.db = before ++ params :: after ∧
        (s.loadRows before).2 = none ∧ (s.loadRows before).1.session.addTorrent params = .error what ∧
        s.load = ((s.loadRows before).1, some what) :=
  loadRows_stops_at_first_rejected s _

/-- A table whose second row carries the first row's hash: the engine rejects it, and
the third row is never added. -/
example :
    let row : Lt.InfoHash → AddTorrentParams := fun hash =>
      ⟨default, "t", ⟨hash, "t", "/data", true, false, true, ⟨[⟨"a", 1⟩], 1, Nat.one_pos⟩, default⟩,
        0, "/data"⟩
    let table : TorrentsTable :=
      (((∅ : TorrentsTable).insert ⟨3, 0⟩ (row ⟨3, 0⟩)).insert ⟨2, 0⟩ (row ⟨1, 0⟩)).insert ⟨1, 0⟩ (row ⟨1, 0⟩)
    let loaded := (Session.create ⟨false, [], 0, 0⟩ (fun _ => none) table).load
    loaded.2 = some "duplicate_torrent" ∧ ⟨3, 0⟩ ∉ loaded.1.session.torrents ∧
      ⟨3, 0⟩ ∉ loaded.1.torrents := by
  decide

end Porla.Proofs.Load
