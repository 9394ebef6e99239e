import Porla.Data.Models.AddTorrentParams

/-! `porla::Session` (`src/session.cpp`): the daemon's wrapper around the engine.
It keeps `m_torrents`, a map from info hash to handle, the torrents table, and the
one-shot callbacks of `Recheck`, and publishes events. This module holds the state
and the operations a user calls; the alert handlers and shutdown follow. -/

namespace Porla
open Data.Models

/-- The fields of `SessionOptions` the modelled functions read. -/
structure SessionOptions where
  mediainfoEnabled : Bool
  mediainfoFileExtensions : List String
  mediainfoFileMinSize : Nat
  mediainfoFileWantedSize : Nat

/-- A closure `Recheck` registers: the hash and the flags it observed. `id` numbers
the registrations; the code keeps no such number. -/
structure OneshotCallback where
  id : Nat
  hash : Lt.InfoHash
  wasAutoManaged : Bool
  wasPaused : Bool
deriving DecidableEq, Repr

/-- A run of a one-shot callback: the alert being dispatched and the info hash the
dispatch read from its handle. The code keeps no trace of it. -/
structure CallbackRun where
  callback : OneshotCallback
  alert : Lt.Alert
  infoHashes : Lt.InfoHash

/-- The session's signals, in the order they are emitted, and a record the code
keeps no trace of: a media-info extraction. -/
inductive Event
  | torrentAdded (status : Lt.Torrent)
  | torrentFinished (status : Lt.Torrent)
  | torrentPaused (status : Lt.Torrent)
  | torrentResumed (status : Lt.Torrent)
  | torrentRemoved (infoHashes : Lt.InfoHash)
  | storageMoved (handle : Lt.TorrentHandle)
  | stateUpdate
  | sessionStats
  | torrentMediaInfo (handle : Lt.TorrentHandle)
  | mediainfoParsed (handle : Lt.TorrentHandle) (file : Nat) (path : String)

structure Session where
  options : SessionOptions
  /-- What `MediaInfo::Parser::ParseExternal` yields for each path. -/
  parseExternal : String → Option MediaInfoContainer
  session : Lt.Session
  db : TorrentsTable
  torrents : AList (fun _ : Lt.InfoHash => Lt.TorrentHandle)
  oneshotTorrentCallbacks : AList (fun _ : Lt.AlertType × Lt.InfoHash => List OneshotCallback)
  nextCallback : Nat
  events : List Event
  callbackRuns : List CallbackRun

/-- `fs::path::extension` of a path with `/` separators: the file name from its last
period on, unless the name is `..` or has no period other than a leading one. -/
def extension (path : String) : String :=
  let filename := (path.toList.splitOn '/').getLastD []
  let parts := filename.splitOn '.'
  if filename = ['.', '.'] ∨ parts.length < 2 ∨ (parts.length = 2 ∧ parts.headD [] = []) then ""
  else String.mk ('.' :: parts.getLastD [])

example : extension "/data/a.tar.gz" = ".gz" ∧ extension "/data/.bashrc" = "" := by decide

/-- The loop `while (asked_size < m_mediainfo_file_wanted_size)` from `piece`, with
`asked` bytes asked for; `remaining` counts the pieces from `piece` to `end_piece()`. -/
def wantedPieces (storage : Lt.FileStorage) (wantedSize : Nat) :
    (remaining piece asked : Nat) → List Nat
  | 0, _, _ => []
  | remaining + 1, piece, asked =>
    if asked < wantedSize then
      piece :: wantedPieces storage wantedSize remaining (piece + 1) (asked + storage.pieceSize piece)
    else []

/-- One turn of the file loop of the setup: a selected file's run is appended to
`piece_prio`, and fresh one-entry maps replace the client data's. -/
def selectFile (options : SessionOptions) (storage : Lt.FileStorage)
    (acc : List Nat × TorrentClientData) (file : Nat) : List Nat × TorrentClientData :=
  if storage.fileSize file < options.mediainfoFileMinSize then acc
  else if extension (storage.filePath file) ∈ options.mediainfoFileExtensions then
    let start := storage.pieceIndexAtFile file
    let pieces := wantedPieces storage options.mediainfoFileWantedSize (storage.endPiece - start) start 0
    (acc.1 ++ pieces, { acc.2 with
      mediainfoFilePiecesWanted := some (AList.singleton file pieces)
      mediainfoFilePiecesCompleted := some (AList.singleton file []) })
  else acc

/-- `prioritize_pieces` with a list of (piece, priority) pairs. -/
def prioritizePieces (priorities : List Nat) (piecePrio : List (Nat × Nat)) : List Nat :=
  piecePrio.foldl (fun current entry => current.set entry.1 entry.2) priorities

/-- The media-info setup `AddTorrent` runs on the new torrent, over the files of its
`torrent_file()`; a torrent without metadata has none (see `Session.addTorrent`). -/
def mediainfoSetup (options : SessionOptions) (torrent : Lt.Torrent) : Lt.Torrent :=
  let selected := (List.range torrent.files.files.length).foldl
    (selectFile options torrent.files) ([], torrent.userdata)
  if selected.1.isEmpty then { torrent with userdata := selected.2 }
  else
    { torrent with
      userdata := { selected.2 with mediainfoEnabled := some true }
      piecePriorities := prioritizePieces (List.replicate torrent.files.numPieces Lt.dontDownload)
        (selected.1.map (·, Lt.topPriority)) }

@[simp] theorem mediainfoSetup_infoHashes (options : SessionOptions) (torrent : Lt.Torrent) :
    (mediainfoSetup options torrent).infoHashes = torrent.infoHashes := by
  dsimp only [mediainfoSetup]
  split <;> rfl

namespace Session

/-- The constructor, as far as the modelled state goes: no torrents, no callbacks. -/
def create (options : SessionOptions) (parseExternal : String → Option MediaInfoContainer)
    (db : TorrentsTable) : Session :=
  ⟨options, parseExternal, .empty, db, ∅, ∅, 0, [], []⟩

/-- `AddTorrent`: the new info hash, or the empty one when the engine rejects the
torrent. `none` when the call does not return: with media info on it dereferences the
new torrent's `torrent_file()`, which is null while the torrent has no metadata. -/
def addTorrent (s : Session) (params : Lt.AddTorrentParams) : Option (Session × Lt.InfoHash) :=
  match s.session.addTorrent params with
  | .error _ => some (s, ⟨0, 0⟩)
  | .ok (th, engine) =>
    let ts := engine.instances th
    if s.options.mediainfoEnabled && !ts.hasMetadata then none
    else
      let engine := engine.saveResumeData th
      let engine := if s.options.mediainfoEnabled then engine.modify th (mediainfoSetup s.options)
        else engine
      some ({ s with
        session := engine
        db := AddTorrentParams.insert s.db ts.infoHashes
          ⟨params.userdata, ts.name, params, ts.queuePosition, ts.savePath⟩
        torrents := mapInsert s.torrents ts.infoHashes th
        events := s.events ++ [.torrentAdded ts] }, ts.infoHashes)

def remove (s : Session) (hash : Lt.InfoHash) : Except String Session := do
  let th ← mapAt s.torrents hash
  let engine ← s.session.removeTorrent th
  pure { s with session := engine }

def recheck (s : Session) (hash : Lt.InfoHash) : Except String Session := do
  let handle ← mapAt s.torrents hash
  let status ← s.session.status handle
  let wasAutoManaged := status.autoManaged
  let engine := if wasAutoManaged then s.session.modify handle ({ · with autoManaged := false })
    else s.session
  let wasPaused := (engine.instances handle).paused
  let engine := if wasPaused then engine.modify handle ({ · with paused := false }) else engine
  let key := (Lt.AlertType.torrentChecked, hash)
  let registry := mapInsert s.oneshotTorrentCallbacks key []
  let pending ← mapAt registry key
  pure { s with
    session := engine
    oneshotTorrentCallbacks := registry.insert key (pending ++ [⟨s.nextCallback, hash, wasAutoManaged, wasPaused⟩])
    nextCallback := s.nextCallback + 1 }

/-- The visitor `Load` passes to `ForEach`, over the rows still to visit. The
throwing `add_torrent` ends the load at the first row the engine rejects. -/
def loadRows (s : Session) : List Lt.AddTorrentParams → Session × Option String
  | [] => (s, none)
  | params :: rest =>
    match s.session.addTorrent params with
    | .error what => (s, some what)
    | .ok (th, engine) =>
      loadRows { s with
        session := engine
        torrents := mapInsert s.torrents (engine.instances th).infoHashes th } rest

def load (s : Session) : Session × Option String := s.loadRows (AddTorrentParams.forEach s.db)

/-- `AddTorrent` of a torrent the engine accepts returns only when media info is off
or the torrent has metadata, and then with the engine's torrent set up, saved and
bound. -/
theorem addTorrent_returns {s : Session} {params : Lt.AddTorrentParams} {th : Lt.TorrentHandle}
    {engine : Lt.Session} (accepted : s.session.addTorrent params = .ok (th, engine))
    {added : Session × Lt.InfoHash} (returned : s.addTorrent params = some added) :
    (s.options.mediainfoEnabled && !(engine.instances th).hasMetadata) = false ∧
      added = ({ s with
        session := if s.options.mediainfoEnabled then (engine.saveResumeData th).modify th (mediainfoSetup s.options)
          else engine.saveResumeData th
        db := AddTorrentParams.insert s.db (engine.instances th).infoHashes
          ⟨params.userdata, (engine.instances th).name, params, (engine.instances th).queuePosition,
            (engine.instances th).savePath⟩
        torrents := mapInsert s.torrents (engine.instances th).infoHashes th
        events := s.events ++ [.torrentAdded (engine.instances th)] }, (engine.instances th).infoHashes) := by
  simp only [addTorrent, accepted] at returned
  by_cases crash : (s.options.mediainfoEnabled && !(engine.instances th).hasMetadata) = true
  · rw [if_pos crash] at returned
    cases returned
  · rw [if_neg crash] at returned
    exact ⟨by simpa using crash, (Option.some_inj.mp returned).symm⟩

/-- The handle `AddTorrent` issues is valid once the call returns. -/
theorem addTorrent_valid_self {s : Session} {params : Lt.AddTorrentParams} {th : Lt.TorrentHandle}
    {engine : Lt.Session} (accepted : s.session.addTorrent params = .ok (th, engine))
    {added : Session × Lt.InfoHash} (returned : s.addTorrent params = some added) :
    added.1.session.isValid th = true := by
  obtain ⟨-, rfl⟩ := addTorrent_returns accepted returned
  obtain ⟨-, rfl, rfl⟩ := Lt.Session.addTorrent_eq _ accepted
  dsimp only
  split <;> simp [Lt.Session.isValid]

/-- `AddTorrent` of a hash the engine holds: the engine throws, and nothing changes. -/
theorem addTorrent_of_held {s : Session} {params : Lt.AddTorrentParams}
    (held : params.infoHashes ∈ s.session.torrents) : s.addTorrent params = some (s, ⟨0, 0⟩) := by
  simp [addTorrent, Lt.Session.addTorrent, held]

/-- What `AddTorrent` changes when it returns. -/
theorem addTorrent_eq {s : Session} {params : Lt.AddTorrentParams} {added : Session × Lt.InfoHash}
    (returned : s.addTorrent params = some added) :
    ∃ engine db torrents events, added.1 = { s with session := engine, db := db, torrents := torrents, events := events } := by
  cases accepted : s.session.addTorrent params with
  | error =>
    simp only [addTorrent, accepted, Option.some_inj] at returned
    exact ⟨_, _, _, _, by rw [← returned]⟩
  | ok result =>
    obtain ⟨-, rfl⟩ := addTorrent_returns accepted returned
    exact ⟨_, _, _, _, rfl⟩

/-- `AddTorrent` of a torrent the engine accepts, when it returns: the handle is bound
in `m_torrents` and a row is inserted under the hash, unless the hash is there already;
the engine keeps the torrents it took and queues no alert. -/
theorem addTorrent_accepted {s : Session} {params : Lt.AddTorrentParams} {th : Lt.TorrentHandle}
    {engine : Lt.Session} (accepted : s.session.addTorrent params = .ok (th, engine))
    {added : Session × Lt.InfoHash} (returned : s.addTorrent params = some added) :
    ∃ engine' row events, added.1 =
        { s with
          session := engine'
          db := AddTorrentParams.insert s.db params.infoHashes row
          torrents := mapInsert s.torrents params.infoHashes th
          events := events } ∧
      engine'.torrents = engine.torrents ∧ engine'.alerts = engine.alerts ∧
      engine'.nextHandle = engine.nextHandle ∧ engine'.alive = engine.alive ∧
      engine'.saveRequests = engine.saveRequests ++ [(th, engine.nextRequest)] ∧
      ∀ other, (engine'.instances other).infoHashes = (engine.instances other).infoHashes := by
  obtain ⟨-, rfl⟩ := addTorrent_returns accepted returned
  obtain ⟨-, rfl, rfl⟩ := Lt.Session.addTorrent_eq _ accepted
  have fresh : (Function.update s.session.instances ⟨s.session.nextHandle⟩ (Lt.Torrent.ofParams params)
      ⟨s.session.nextHandle⟩).infoHashes = params.infoHashes := by
    simp [Lt.Torrent.ofParams]
  refine ⟨_, _, _, by dsimp only; rw [fresh], ?_⟩
  split
  · refine ⟨rfl, rfl, rfl, rfl, rfl, fun other => ?_⟩
    rw [Lt.Session.instances_modify]
    split
    · next same => rw [same]; simp
    · rfl
  · exact ⟨rfl, rfl, rfl, rfl, rfl, fun _ => rfl⟩

/-- The instance `AddTorrent` leaves behind a new handle: the engine's, with the
media-info setup run on it when the option is on. -/
theorem addTorrent_instances_self {s : Session} {params : Lt.AddTorrentParams} {th : Lt.TorrentHandle}
    {engine : Lt.Session} (accepted : s.session.addTorrent params = .ok (th, engine))
    {added : Session × Lt.InfoHash} (returned : s.addTorrent params = some added) :
    added.1.session.instances th =
      if s.options.mediainfoEnabled then mediainfoSetup s.options (Lt.Torrent.ofParams params)
      else Lt.Torrent.ofParams params := by
  obtain ⟨-, rfl⟩ := addTorrent_returns accepted returned
  obtain ⟨-, rfl, rfl⟩ := Lt.Session.addTorrent_eq _ accepted
  dsimp only
  split
  · rw [Lt.Session.instances_modify, if_pos rfl, Lt.Session.instances_saveResumeData]
    simp
  · rw [Lt.Session.instances_saveResumeData]
    simp

/-- Every instance after `AddTorrent`: the new handle's, or the one it was. -/
theorem addTorrent_instances {s : Session} {params : Lt.AddTorrentParams} {added : Session × Lt.InfoHash}
    (returned : s.addTorrent params = some added) (other : Lt.TorrentHandle) :
    added.1.session.instances other =
      if params.infoHashes ∉ s.session.torrents ∧ other = ⟨s.session.nextHandle⟩ then
        if s.options.mediainfoEnabled then mediainfoSetup s.options (Lt.Torrent.ofParams params)
        else Lt.Torrent.ofParams params
      else s.session.instances other := by
  by_cases held : params.infoHashes ∈ s.session.torrents
  · rw [addTorrent_of_held held, Option.some_inj] at returned
    rw [← returned, if_neg fun both => both.1 held]
  · have accepted : s.session.addTorrent params = .ok (⟨s.session.nextHandle⟩, _) := if_neg held
    by_cases same : other = ⟨s.session.nextHandle⟩
    · rw [if_pos ⟨held, same⟩, same, addTorrent_instances_self accepted returned]
    · rw [if_neg fun both => same both.2]
      obtain ⟨-, rfl⟩ := addTorrent_returns accepted returned
      dsimp only
      split
      · rw [Lt.Session.instances_modify, if_neg same]
        exact Function.update_noteq same _ _
      · exact Function.update_noteq same _ _

/-- The row `AddTorrent` writes: the add parameters under their hash, with the name,
save path and queue position of the new instance. -/
theorem addTorrent_db {s : Session} {params : Lt.AddTorrentParams} {added : Session × Lt.InfoHash}
    (returned : s.addTorrent params = some added) :
    added.1.db =
      if params.infoHashes ∈ s.session.torrents then s.db
      else AddTorrentParams.insert s.db params.infoHashes ⟨params.userdata, params.name, params, 0, params.savePath⟩ := by
  by_cases held : params.infoHashes ∈ s.session.torrents
  · rw [addTorrent_of_held held, Option.some_inj] at returned
    rw [← returned, if_pos held]
  · have accepted : s.session.addTorrent params = .ok (⟨s.session.nextHandle⟩, _) := if_neg held
    obtain ⟨-, rfl⟩ := addTorrent_returns accepted returned
    simp [held, Lt.Torrent.ofParams]

theorem addTorrent_nextHandle {s : Session} {params : Lt.AddTorrentParams} {added : Session × Lt.InfoHash}
    (returned : s.addTorrent params = some added) :
    added.1.session.nextHandle =
      if params.infoHashes ∈ s.session.torrents then s.session.nextHandle else s.session.nextHandle + 1 := by
  by_cases held : params.infoHashes ∈ s.session.torrents
  · rw [addTorrent_of_held held, Option.some_inj] at returned
    rw [← returned, if_pos held]
  · have accepted : s.session.addTorrent params = .ok (⟨s.session.nextHandle⟩, _) := if_neg held
    obtain ⟨-, rfl⟩ := addTorrent_returns accepted returned
    rw [if_neg held]
    dsimp only
    split <;> rfl

theorem addTorrent_alerts {s : Session} {params : Lt.AddTorrentParams} {added : Session × Lt.InfoHash}
    (returned : s.addTorrent params = some added) : added.1.session.alerts = s.session.alerts := by
  cases accepted : s.session.addTorrent params with
  | error =>
    simp only [addTorrent, accepted, Option.some_inj] at returned
    rw [← returned]
  | ok result =>
    obtain ⟨th, engine⟩ := result
    obtain ⟨-, rfl⟩ := addTorrent_returns accepted returned
    obtain ⟨-, -, rfl⟩ := Lt.Session.addTorrent_eq _ accepted
    dsimp only
    split <;> rfl

theorem remove_eq {s s' : Session} {hash : Lt.InfoHash} (removed : s.remove hash = .ok s') :
    ∃ th engine, s.torrents.lookup hash = some th ∧ s.session.removeTorrent th = .ok engine ∧
      s' = { s with session := engine } := by
  obtain ⟨th, found, removed⟩ := bind_eq_ok.mp removed
  obtain ⟨engine, valid, removed⟩ := bind_eq_ok.mp removed
  exact ⟨th, engine, mapAt_eq_ok.mp found, valid, (Except.ok.inj removed).symm⟩

/-- `Recheck` in one update: the torrent's flags are cleared, and a callback that
remembers the flags seen is appended under `(torrent_checked, hash)`. -/
theorem recheck_eq {s s' : Session} {hash : Lt.InfoHash} (checked : s.recheck hash = .ok s') :
    ∃ handle, s.torrents.lookup hash = some handle ∧ s.session.isValid handle = true ∧
      let observed := s.session.instances handle
      (∀ key, s'.oneshotTorrentCallbacks.lookup key =
        if key = (.torrentChecked, hash) then
          some ((s.oneshotTorrentCallbacks.lookup key).getD [] ++
            [⟨s.nextCallback, hash, observed.autoManaged, observed.paused⟩])
        else s.oneshotTorrentCallbacks.lookup key) ∧
      (∀ other, s'.session.instances other =
        if other = handle then { observed with autoManaged := false, paused := false }
        else s.session.instances other) ∧
      s' = { s with
        session := { s.session with instances := s'.session.instances }
        oneshotTorrentCallbacks := s'.oneshotTorrentCallbacks
        nextCallback := s.nextCallback + 1 } := by
  obtain ⟨handle, found, checked⟩ := bind_eq_ok.mp checked
  obtain ⟨status, queried, checked⟩ := bind_eq_ok.mp checked
  obtain ⟨valid, rfl⟩ := (Lt.Session.status_eq_ok _).mp queried
  obtain ⟨pending, pendingFound, checked⟩ := bind_eq_ok.mp checked
  cases checked
  rw [mapAt_eq_ok] at found pendingFound
  rw [lookup_mapInsert_self] at pendingFound
  have unset : ∀ other, ((if (s.session.instances handle).autoManaged then
      s.session.modify handle ({ · with autoManaged := false }) else s.session).instances other) =
      if other = handle then { s.session.instances handle with autoManaged := false }
      else s.session.instances other :=
    Lt.Session.instances_modify_if _ fun off => by rw [← off]
  have seen : ((if (s.session.instances handle).autoManaged then
      s.session.modify handle ({ · with autoManaged := false }) else s.session).instances handle).paused =
      (s.session.instances handle).paused := by rw [unset, if_pos rfl]
  refine ⟨handle, found, valid, ?_⟩
  dsimp only
  refine ⟨fun key => ?_, fun other => ?_, by split <;> split <;> rfl⟩
  · by_cases same : key = (.torrentChecked, hash)
    · rw [if_pos same, same, AList.lookup_insert, ← Option.some_inj.mp pendingFound, seen]
    · rw [if_neg same, AList.lookup_insert_ne same, lookup_mapInsert_ne same]
  · rw [Lt.Session.instances_modify_if _ ?_ other, unset, unset]
    · by_cases same : other = handle <;> simp [same]
    · intro running
      simp [unset, seen.symm.trans running]

theorem loadRows_eq (s : Session) :
    ∀ rows, ∃ engine torrents, (s.loadRows rows).1 = { s with session := engine, torrents := torrents }
  | [] => ⟨_, _, rfl⟩
  | params :: rest => by
    unfold loadRows
    split
    · exact ⟨_, _, rfl⟩
    · obtain ⟨engine, torrents, eq⟩ := loadRows_eq _ rest
      exact ⟨engine, torrents, eq⟩

theorem loadRows_alerts (s : Session) :
    ∀ rows, (s.loadRows rows).1.session.alerts = s.session.alerts
  | [] => rfl
  | params :: rest => by
    unfold loadRows
    split
    · rfl
    · next th engine added =>
      obtain ⟨-, -, rfl⟩ := Lt.Session.addTorrent_eq _ added
      exact loadRows_alerts _ rest

end Session

end Porla
