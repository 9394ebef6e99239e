import Porla.Session

/-! `Session::ReadAlerts` and the event loop around it. The drain task pops every
queued alert and hands each to its handler in order; an exception from a handler
ends the drain, and the alerts after it are lost. A handler that throws leaves no
effect of its own. Each case that reads the alert's torrent does so first, through
the handle, and that call throws once the engine has freed the torrent. -/

namespace Porla
open Data.Models

namespace Session

/-- The body of a `Recheck` closure: when `m_torrents` still binds its hash, the
flags it saw set are set again on the torrent the hash is bound to now. -/
def oneshotBody (torrents : AList (fun _ : Lt.InfoHash => Lt.TorrentHandle)) (engine : Lt.Session)
    (callback : OneshotCallback) : Lt.Session :=
  match torrents.lookup callback.hash with
  | none => engine
  | some th =>
    let engine := if callback.wasAutoManaged then engine.modify th ({ · with autoManaged := true })
      else engine
    if callback.wasPaused then engine.modify th ({ · with paused := true }) else engine

/-- A closure sends its first command to the handle `m_torrents` binds its hash to,
which throws when the engine has freed that torrent; a closure that saw no flag set
sends none. -/
def oneshotThrows (torrents : AList (fun _ : Lt.InfoHash => Lt.TorrentHandle)) (engine : Lt.Session)
    (callback : OneshotCallback) : Bool :=
  match torrents.lookup callback.hash with
  | none => false
  | some th => (callback.wasAutoManaged || callback.wasPaused) && !engine.isValid th

/-- A closure run while `alert`, whose handle has the info hash `hash`, is dispatched. -/
def runOneshot (alert : Lt.Alert) (hash : Lt.InfoHash) (s : Session) (callback : OneshotCallback) :
    Session :=
  { s with
    session := oneshotBody s.torrents s.session callback
    callbackRuns := s.callbackRuns ++ [⟨callback, alert, hash⟩] }

/-- The `torrent_checked` case once `info_hashes()` has returned: every callback under
the alert's key runs, in order, and the key is erased. -/
def torrentChecked (s : Session) (th : Lt.TorrentHandle) : Session :=
  let hash := (s.session.instances th).infoHashes
  let key := (Lt.AlertType.torrentChecked, hash)
  match s.oneshotTorrentCallbacks.lookup key with
  | none => s
  | some callbacks =>
    let s := callbacks.foldl (runOneshot (.torrentChecked th) hash) s
    { s with oneshotTorrentCallbacks := s.oneshotTorrentCallbacks.erase key }

theorem foldl_runOneshot (alert : Lt.Alert) (hash : Lt.InfoHash) :
    ∀ (callbacks : List OneshotCallback) (s : Session),
      callbacks.foldl (runOneshot alert hash) s =
        { s with
          session := callbacks.foldl (oneshotBody s.torrents) s.session
          callbackRuns := s.callbackRuns ++ callbacks.map (⟨·, alert, hash⟩) }
  | [], s => by simp
  | callback :: rest, s => by
    rw [List.foldl_cons, foldl_runOneshot alert hash rest]
    simp [runOneshot]

theorem foldl_oneshotBody_commands (torrents : AList (fun _ : Lt.InfoHash => Lt.TorrentHandle))
    (handle : Option Lt.TorrentHandle) :
    ∀ (callbacks : List OneshotCallback) (engine : Lt.Session),
      Lt.Session.Commands engine (callbacks.foldl (oneshotBody torrents) engine) handle
  | [], engine => .refl engine handle
  | callback :: rest, engine => by
    refine (?_ : Lt.Session.Commands engine (oneshotBody torrents engine callback) handle).trans
      (foldl_oneshotBody_commands torrents handle rest _)
    unfold oneshotBody
    split
    · exact .refl engine handle
    · dsimp only
      split <;> split <;>
        first
        | exact (Lt.Session.Commands.modify _ (by intro; rfl) _ _).trans (Lt.Session.Commands.modify _ (by intro; rfl) _ _)
        | exact Lt.Session.Commands.modify _ (by intro; rfl) _ _
        | exact .refl _ _

/-- The `torrent_checked` case in one update: the callbacks under the alert's key
run in order, and the key has none left. -/
theorem torrentChecked_eq (s : Session) (th : Lt.TorrentHandle) :
    let key := (Lt.AlertType.torrentChecked, (s.session.instances th).infoHashes)
    let callbacks := (s.oneshotTorrentCallbacks.lookup key).getD []
    ∃ registry : AList (fun _ : Lt.AlertType × Lt.InfoHash => List OneshotCallback),
      (∀ other, registry.lookup other =
        if other = key then none else s.oneshotTorrentCallbacks.lookup other) ∧
      s.torrentChecked th = { s with
        session := callbacks.foldl (oneshotBody s.torrents) s.session
        oneshotTorrentCallbacks := registry
        callbackRuns := s.callbackRuns ++ callbacks.map (⟨·, .torrentChecked th, key.2⟩) } := by
  intro key callbacks
  dsimp only [torrentChecked]
  cases found : s.oneshotTorrentCallbacks.lookup key with
  | none =>
    refine ⟨s.oneshotTorrentCallbacks, fun other => ?_, by simp [callbacks, found]⟩
    split
    · next same => rw [same]; exact found
    · rfl
  | some pending =>
    refine ⟨s.oneshotTorrentCallbacks.erase key, fun other => ?_, ?_⟩
    · split
      · next same => rw [same]; exact AList.lookup_erase _ _
      · next different => exact AList.lookup_erase_ne different
    · simp only [callbacks, found, foldl_runOneshot]
      rfl

/-- The `torrent_finished` case once `status()` has returned. Inside the branch the
staggered flag is already not `true`, so the assignment there leaves it off. -/
def torrentFinished (s : Session) (th : Lt.TorrentHandle) : Session :=
  let status := s.session.instances th
  let s :=
    if 0 < status.totalDownload ∧ !(status.userdata.mediainfoEnabledStaggered.getD false) then
      { s with
        session := s.session.modify th fun t =>
          { t with userdata := { t.userdata with mediainfoEnabledStaggered := some false } }
        events := s.events ++ [.torrentFinished status] }
    else s
  if status.needSaveResume then { s with session := s.session.saveResumeData th } else s

theorem torrentFinished_eq (s : Session) (th : Lt.TorrentHandle) :
    ∃ engine events, s.torrentFinished th = { s with session := engine, events := events } := by
  dsimp only [torrentFinished]
  split <;> split <;> exact ⟨_, _, rfl⟩

theorem torrentFinished_commands (s : Session) (th : Lt.TorrentHandle) :
    Lt.Session.Commands s.session (s.torrentFinished th).session (some th) := by
  dsimp only [torrentFinished]
  split <;> split <;> (try dsimp only) <;>
    first
    | exact (Lt.Session.Commands.modify _ (by intro; rfl) th _).trans (Lt.Session.Commands.saveResumeData _ th)
    | exact Lt.Session.Commands.modify _ (by intro; rfl) th _
    | exact Lt.Session.Commands.saveResumeData _ th
    | exact .refl _ _

/-- One turn of the loop of the `piece_finished` case over the wanted map, for
`file`: the file's completed set takes the finished piece if it is wanted, and a
file whose completed set is as large as its wanted set is parsed, its result kept
when there is one, and both of its sets cleared. -/
def finishPiece (parse : String → Option MediaInfoContainer) (th : Lt.TorrentHandle)
    (storage : Lt.FileStorage) (savePath : String) (piece : Nat)
    (state : TorrentClientData × List Event) (file : Nat) :
    Except String (TorrentClientData × List Event) :=
  let data := state.1
  match data.mediainfoFilePiecesWanted, data.mediainfoFilePiecesCompleted with
  | some wanted, some completed =>
    if ((wanted.lookup file).getD []).isEmpty then .ok state
    else do
      let done ← mapAt completed file
      let want ← mapAt wanted file
      let done := if piece ∈ want then done.insert piece else done
      if done.length = want.length then
        let path := savePath ++ "/" ++ storage.filePath file
        pure ({ data with
            mediainfo := (parse path).orElse fun _ => data.mediainfo
            mediainfoFilePiecesWanted := some (wanted.insert file [])
            mediainfoFilePiecesCompleted := some (completed.insert file []) },
          state.2 ++ [.mediainfoParsed th file path])
      else pure ({ data with mediainfoFilePiecesCompleted := some (completed.insert file done) }, state.2)
  | _, _ => .error "bad optional access"

section
variable {parse : String → Option MediaInfoContainer} {th : Lt.TorrentHandle} {storage : Lt.FileStorage}
  {savePath : String} {piece file : Nat} {data : TorrentClientData} {events : List Event}
  {wanted completed : AList (fun _ : Nat => List Nat)}

/-- A file with no piece wanted is passed over. -/
theorem finishPiece_idle (hw : data.mediainfoFilePiecesWanted = some wanted)
    (hc : data.mediainfoFilePiecesCompleted = some completed) (idle : ((wanted.lookup file).getD []).isEmpty) :
    finishPiece parse th storage savePath piece (data, events) file = .ok (data, events) := by
  simp only [finishPiece, hw, hc, idle, if_true]

/-- A file with pieces wanted: the piece is counted when it is wanted, and a file with as
many completed pieces as wanted ones is parsed and both its sets cleared. -/
theorem finishPiece_counted (hw : data.mediainfoFilePiecesWanted = some wanted)
    (hc : data.mediainfoFilePiecesCompleted = some completed) {want done : List Nat}
    (found : wanted.lookup file = some want) (wantNe : want ≠ []) (has : completed.lookup file = some done) :
    finishPiece parse th storage savePath piece (data, events) file =
      let done' := if piece ∈ want then done.insert piece else done
      if done'.length = want.length then
        .ok ({ data with
            mediainfo := (parse (savePath ++ "/" ++ storage.filePath file)).orElse fun _ => data.mediainfo
            mediainfoFilePiecesWanted := some (wanted.insert file [])
            mediainfoFilePiecesCompleted := some (completed.insert file []) },
          events ++ [.mediainfoParsed th file (savePath ++ "/" ++ storage.filePath file)])
      else .ok ({ data with mediainfoFilePiecesCompleted := some (completed.insert file done') }, events) := by
  have busy : want.isEmpty = false := List.isEmpty_eq_false_iff_exists_mem.mpr (List.exists_mem_of_ne_nil _ wantNe)
  simp only [finishPiece, hw, hc, mapAt, found, has, Option.getD_some, busy, bind, Except.bind, pure, Except.pure]
  rfl

/-- A file that is not passed over has a wanted set, and it is not empty. -/
theorem wanted_of_busy (busy : ¬((wanted.lookup file).getD []).isEmpty) :
    ∃ want, wanted.lookup file = some want ∧ want ≠ [] := by
  cases found : wanted.lookup file with
  | none => exact absurd (by rw [found]; rfl) busy
  | some want => exact ⟨want, rfl, fun empty => busy (by rw [found, empty]; rfl)⟩

end

/-- The `piece_finished` case: the prefetch advances, and ends once every
completed set is empty, restoring the default priorities. -/
def pieceFinished (s : Session) (th : Lt.TorrentHandle) (piece : Nat) : Except String Session := do
  let torrent ← s.session.status th
  match torrent.userdata.mediainfoFilePiecesWanted with
  | none => .ok s
  | some wanted =>
    if wanted.entries.isEmpty ∨ !(torrent.userdata.mediainfoEnabled.getD false) then .ok s
    else do
      let turned ← wanted.keys.foldlM
        (finishPiece s.parseExternal th torrent.files torrent.savePath piece) (torrent.userdata, [])
      let data := turned.1
      match data.mediainfoFilePiecesCompleted with
      | none => .error "bad optional access"
      | some completed =>
        if completed.entries.all (·.2.isEmpty) then
          pure { s with
            session := s.session.modify th fun t =>
              { t with
                piecePriorities := List.replicate t.piecePriorities.length Lt.defaultPriority
                userdata := { data with
                  mediainfoFilePiecesCompleted := none
                  mediainfoFilePiecesWanted := none
                  mediainfoEnabled := some false
                  mediainfoEnabledStaggered := some true } }
            events := s.events ++ turned.2 ++ [.torrentMediaInfo th] }
        else
          pure { s with
            session := s.session.modify th ({ · with userdata := data })
            events := s.events ++ turned.2 }

theorem pieceFinished_valid {s s' : Session} {th : Lt.TorrentHandle} {piece : Nat}
    (finished : s.pieceFinished th piece = .ok s') : s.session.isValid th = true := by
  obtain ⟨_, queried, -⟩ := bind_eq_ok.mp finished
  exact ((Lt.Session.status_eq_ok _).mp queried).1

/-- The `piece_finished` case changes only the engine and the events. -/
theorem pieceFinished_eq {s s' : Session} {th : Lt.TorrentHandle} {piece : Nat}
    (finished : s.pieceFinished th piece = .ok s') :
    ∃ engine events, s' = { s with session := engine, events := events } := by
  obtain ⟨torrent, -, finished⟩ := bind_eq_ok.mp finished
  split at finished
  · exact ⟨_, _, (Except.ok.inj finished).symm⟩
  · split at finished
    · exact ⟨_, _, (Except.ok.inj finished).symm⟩
    · obtain ⟨turned, -, finished⟩ := bind_eq_ok.mp finished
      dsimp only at finished
      split at finished
      · cases finished
      · split at finished <;> exact ⟨_, _, (Except.ok.inj finished).symm⟩

/-- What the `piece_finished` case can do to the engine: one command to the
torrent's own instance, which keeps its info hash. -/
theorem pieceFinished_modifies {s s' : Session} {th : Lt.TorrentHandle} {piece : Nat}
    (finished : s.pieceFinished th piece = .ok s') :
    s'.db = s.db ∧ ∃ change : Lt.Torrent → Lt.Torrent, (∀ t, (change t).infoHashes = t.infoHashes) ∧
      s'.session = s.session.modify th change := by
  obtain ⟨torrent, -, finished⟩ := bind_eq_ok.mp finished
  split at finished
  · cases finished; exact ⟨rfl, id, fun _ => rfl, (Lt.Session.modify_id _ _).symm⟩
  · split at finished
    · cases finished; exact ⟨rfl, id, fun _ => rfl, (Lt.Session.modify_id _ _).symm⟩
    · obtain ⟨turned, -, finished⟩ := bind_eq_ok.mp finished
      dsimp only at finished
      split at finished
      · cases finished
      · split at finished <;> cases finished <;> dsimp only <;> refine ⟨rfl, _, ?_, rfl⟩ <;>
          exact fun _ => rfl

/-- The handler of one alert, the `switch` of `ReadAlerts`. -/
def handleAlert (s : Session) : Lt.Alert → Except String Session
  | .dhtStats => .ok s
  | .metadataReceived th => do
    let _ ← s.session.status th
    pure { s with session := s.session.saveResumeData th }
  | .pieceFinished th piece => s.pieceFinished th piece
  | .saveResumeData th params _ => do
    let status ← s.session.status th
    pure { s with
      db := AddTorrentParams.update s.db status.infoHashes
        ⟨status.userdata, status.name, params, status.queuePosition, status.savePath⟩ }
  | .saveResumeDataFailed _ _ => .ok s
  | .sessionStats => .ok { s with events := s.events ++ [.sessionStats] }
  | .stateUpdate => .ok { s with events := s.events ++ [.stateUpdate] }
  | .storageMoved th => do
    let status ← s.session.status th
    pure { s with
      session := if status.needSaveResume then s.session.saveResumeData th else s.session
      events := s.events ++ [.storageMoved th] }
  | .torrentChecked th => do
    let status ← s.session.status th
    if ((s.oneshotTorrentCallbacks.lookup (.torrentChecked, status.infoHashes)).getD []).any
        (oneshotThrows s.torrents s.session) then .error "invalid_torrent_handle"
    else pure (s.torrentChecked th)
  | .torrentFinished th => do
    let _ ← s.session.status th
    pure (s.torrentFinished th)
  | .torrentPaused th => do
    let status ← s.session.status th
    pure { s with events := s.events ++ [.torrentPaused status] }
  | .torrentRemoved hash =>
    .ok { s with
      db := AddTorrentParams.remove s.db hash
      torrents := s.torrents.erase hash
      events := s.events ++ [.torrentRemoved hash] }
  | .torrentResumed th => do
    let status ← s.session.status th
    pure { s with events := s.events ++ [.torrentResumed status] }

/-- The alerts whose case first makes a call through the alert's handle, which
returns only while the torrent's object exists. -/
def Queried (s : Session) : Lt.Alert → Prop
  | .metadataReceived th | .pieceFinished th _ | .saveResumeData th _ _ | .storageMoved th
  | .torrentChecked th | .torrentFinished th | .torrentPaused th | .torrentResumed th => s.session.isValid th = true
  | .dhtStats | .saveResumeDataFailed _ _ | .sessionStats | .stateUpdate | .torrentRemoved _ => True

/-- The session a handler leaves when it returns. -/
def Handled (s : Session) : Lt.Alert → Session → Prop
  | .dhtStats, s' | .saveResumeDataFailed _ _, s' => s' = s
  | .metadataReceived th, s' => s' = { s with session := s.session.saveResumeData th }
  | .pieceFinished th piece, s' => s.pieceFinished th piece = .ok s'
  | .saveResumeData th params _, s' =>
    s' = { s with
      db := AddTorrentParams.update s.db (s.session.instances th).infoHashes
        ⟨(s.session.instances th).userdata, (s.session.instances th).name, params,
          (s.session.instances th).queuePosition, (s.session.instances th).savePath⟩ }
  | .sessionStats, s' => s' = { s with events := s.events ++ [.sessionStats] }
  | .stateUpdate, s' => s' = { s with events := s.events ++ [.stateUpdate] }
  | .storageMoved th, s' =>
    s' = { s with
      session := if (s.session.instances th).needSaveResume then s.session.saveResumeData th else s.session
      events := s.events ++ [.storageMoved th] }
  | .torrentChecked th, s' => s' = s.torrentChecked th
  | .torrentFinished th, s' => s' = s.torrentFinished th
  | .torrentPaused th, s' => s' = { s with events := s.events ++ [.torrentPaused (s.session.instances th)] }
  | .torrentRemoved hash, s' =>
    s' = { s with
      db := AddTorrentParams.remove s.db hash
      torrents := s.torrents.erase hash
      events := s.events ++ [.torrentRemoved hash] }
  | .torrentResumed th, s' => s' = { s with events := s.events ++ [.torrentResumed (s.session.instances th)] }

theorem handled_of_ok {s s' : Session} {alert : Lt.Alert} (handled : s.handleAlert alert = .ok s') :
    Queried s alert ∧ Handled s alert s' := by
  cases alert
  case pieceFinished => exact ⟨pieceFinished_valid handled, handled⟩
  case torrentChecked th =>
    obtain ⟨_, queried, handled⟩ := bind_eq_ok.mp handled
    obtain ⟨valid, rfl⟩ := (Lt.Session.status_eq_ok _).mp queried
    split at handled
    · cases handled
    · exact ⟨valid, (Except.ok.inj handled).symm⟩
  all_goals first
    | exact ⟨trivial, (Except.ok.inj handled).symm⟩
    | (obtain ⟨_, queried, handled⟩ := bind_eq_ok.mp handled
       obtain ⟨valid, rfl⟩ := (Lt.Session.status_eq_ok _).mp queried
       exact ⟨valid, (Except.ok.inj handled).symm⟩)

/-- What a handler that returns does: commands through the alert's handle, saves
asked only for a torrent that exists, a row written only by a save result under the
hash of its handle's instance, and bindings and rows dropped only by `torrent_removed`. -/
structure Frame (s s' : Session) (alert : Lt.Alert) : Prop where
  commands : Lt.Session.Commands s.session s'.session alert.handle
  asked : ∀ request ∈ s'.session.saveRequests, request ∈ s.session.saveRequests ∨ s.session.isValid request.1 = true
  unbinds : ∀ hash th, s'.torrents.lookup hash = some th → s.torrents.lookup hash = some th
  rows : ∀ hash row, s'.db.lookup hash = some row → s.db.lookup hash = some row ∨
    ∃ th params request, alert = .saveResumeData th params request ∧ row.params = params ∧
      hash = (s.session.instances th).infoHashes
  kept : (∀ hash, alert ≠ .torrentRemoved hash) → s'.torrents = s.torrents ∧ ∀ hash, hash ∈ s'.db ↔ hash ∈ s.db

theorem handleAlert_frame {s s' : Session} {alert : Lt.Alert} (handled : s.handleAlert alert = .ok s') :
    Frame s s' alert := by
  obtain ⟨queried, spec⟩ := handled_of_ok handled
  have asked : ∀ {engine : Lt.Session} {th : Lt.TorrentHandle}, s.session.isValid th = true →
      Lt.Session.Commands s.session engine (some th) →
      ∀ request ∈ engine.saveRequests, request ∈ s.session.saveRequests ∨ s.session.isValid request.1 = true :=
    fun valid commands request member => (commands.requests request member).imp_right fun same => by
      rwa [Option.some_inj.mp same]
  have same : ∀ {alert : Lt.Alert}, (∀ hash, alert ≠ .torrentRemoved hash) →
      s.torrents = s.torrents ∧ ∀ hash, hash ∈ s.db ↔ hash ∈ s.db := fun _ => ⟨rfl, fun _ => Iff.rfl⟩
  cases alert
  case pieceFinished th piece =>
    obtain ⟨_, _, rfl⟩ := pieceFinished_eq spec
    obtain ⟨table, change, keeps, engine⟩ := pieceFinished_modifies spec
    have commands : Lt.Session.Commands s.session _ (some th) := engine ▸ Lt.Session.Commands.modify _ keeps th _
    exact ⟨commands, asked queried commands, fun _ _ => id, fun _ _ found => .inl (table ▸ found), same⟩
  all_goals subst spec
  case torrentFinished th =>
    obtain ⟨engine, events, eq⟩ := torrentFinished_eq s th
    refine ⟨torrentFinished_commands s th, asked queried (torrentFinished_commands s th), fun _ _ found => ?_,
      fun _ _ found => .inl ?_, fun _ => ⟨by rw [eq], fun _ => by rw [eq]⟩⟩ <;> rwa [eq] at found
  case torrentChecked th =>
    obtain ⟨registry, -, eq⟩ := torrentChecked_eq s th
    rw [eq]
    exact ⟨foldl_oneshotBody_commands _ _ _ _, asked queried (foldl_oneshotBody_commands _ _ _ _), fun _ _ => id,
      fun _ _ found => .inl found, same⟩
  case saveResumeData th params request =>
    refine ⟨.refl _ _, fun _ member => .inl member, fun _ _ => id, fun hash row found => ?_,
      fun _ => ⟨rfl, fun _ => AddTorrentParams.mem_update⟩⟩
    dsimp only at found
    rw [AddTorrentParams.lookup_update] at found
    split at found
    · next hit =>
      cases found
      exact .inr ⟨th, params, request, rfl, rfl, hit.1⟩
    · exact .inl found
  case torrentRemoved hash =>
    exact ⟨.refl _ _, fun _ member => .inl member, fun _ _ found => lookup_of_lookup_erase found,
      fun _ _ found => .inl (lookup_of_lookup_erase found), fun different => absurd rfl (different hash)⟩
  case metadataReceived th =>
    exact ⟨.saveResumeData _ th, asked queried (.saveResumeData _ th), fun _ _ => id, fun _ _ found => .inl found, same⟩
  case storageMoved th =>
    have commands : Lt.Session.Commands s.session
        (if (s.session.instances th).needSaveResume then s.session.saveResumeData th else s.session) (some th) := by
      split
      · exact .saveResumeData _ th
      · exact .refl _ _
    exact ⟨commands, asked queried commands, fun _ _ => id, fun _ _ found => .inl found, same⟩
  all_goals exact ⟨.refl _ _, fun _ member => .inl member, fun _ _ => id, fun _ _ found => .inl found, same⟩

/-- The `torrent_checked` case runs its callbacks when the handle's torrent exists and
no callback under the key sends a command to a freed torrent, and throws otherwise. -/
theorem handleAlert_torrentChecked (s : Session) (th : Lt.TorrentHandle) :
    s.handleAlert (.torrentChecked th) =
      if s.session.isValid th = true ∧ ((s.oneshotTorrentCallbacks.lookup
          (.torrentChecked, (s.session.instances th).infoHashes)).getD []).any (oneshotThrows s.torrents s.session) = false
      then .ok (s.torrentChecked th) else .error "invalid_torrent_handle" := by
  cases valid : s.session.isValid th
  · simp [handleAlert, Lt.Session.status_of_invalid _ valid, bind, Except.bind]
  · by_cases throws : ((s.oneshotTorrentCallbacks.lookup
        (.torrentChecked, (s.session.instances th).infoHashes)).getD []).any (oneshotThrows s.torrents s.session) = true
    · simp [handleAlert, Lt.Session.status_of_valid _ valid, bind, Except.bind, throws]
    · simp [handleAlert, Lt.Session.status_of_valid _ valid, bind, Except.bind, throws, pure, Except.pure]

/-- The loop of `ReadAlerts` over the popped alerts, and the exception that ended
it, if one did. -/
def dispatch (s : Session) : List Lt.Alert → Session × Option String
  | [] => (s, none)
  | alert :: rest =>
    match s.handleAlert alert with
    | .ok next => next.dispatch rest
    | .error what => (s, some what)

/-- A drain of one alert: the handler's session, or the session as it was when the
handler throws. -/
theorem dispatch_singleton (s : Session) (alert : Lt.Alert) :
    (s.dispatch [alert]).1 = match s.handleAlert alert with
      | .ok next => next
      | .error _ => s := by
  simp only [dispatch]
  split <;> rfl

/-- What every handler keeps when it returns holds after a drain, whether or not a
handler throws. -/
theorem dispatch_preserves {P : Session → Prop} {Q : Lt.Alert → Prop}
    (keeps : ∀ {s s' : Session} {alert : Lt.Alert}, P s → Q alert → s.handleAlert alert = .ok s' → P s') :
    ∀ {alerts : List Lt.Alert} {s : Session}, P s → (∀ alert ∈ alerts, Q alert) → P (s.dispatch alerts).1
  | [], _, holds, _ => holds
  | alert :: rest, s, holds, kept => by
    rw [dispatch]
    split
    · next s' handled =>
      exact dispatch_preserves keeps (keeps holds (kept alert (List.mem_cons_self _ _)) handled)
        fun other member => kept other (List.mem_cons_of_mem _ member)
    · exact holds

/-- A drain throws nothing when, under an invariant, the handler of every alert it
reaches returns and keeps the invariant and what the later alerts need. -/
theorem dispatch_returns {P : Session → Prop} {Q : Session → Lt.Alert → Prop}
    (returns : ∀ {s : Session} {alert : Lt.Alert}, P s → Q s alert →
      ∃ s', s.handleAlert alert = .ok s' ∧ P s' ∧ ∀ other, Q s other → Q s' other) :
    ∀ {alerts : List Lt.Alert} {s : Session}, P s → (∀ alert ∈ alerts, Q s alert) → (s.dispatch alerts).2 = none
  | [], _, _, _ => rfl
  | alert :: rest, s, holds, ready => by
    obtain ⟨s', handled, holds', still⟩ := returns holds (ready alert (List.mem_cons_self _ _))
    rw [dispatch, handled]
    exact dispatch_returns returns holds' fun other member => still other (ready other (List.mem_cons_of_mem _ member))

def readAlerts (s : Session) : Session × Option String :=
  { s with session := s.session.popAlerts.2 }.dispatch s.session.popAlerts.1

/-- What can happen to a running session: a call of the user's, a drain of the
alert queue, or a step the engine takes on its own. -/
inductive Op
  | load
  | addTorrent (params : Lt.AddTorrentParams)
  | remove (hash : Lt.InfoHash)
  | recheck (hash : Lt.InfoHash)
  | readAlerts
  | engine (event : Lt.Session.Event)

/-- One operation; a call that throws leaves the session as it was. An `AddTorrent`
that does not return takes the daemon down; a run goes on from the session as it was,
as if the call had not been made. -/
def step (s : Session) : Op → Session
  | .load => s.load.1
  | .addTorrent params => ((s.addTorrent params).map Prod.fst).getD s
  | .remove hash =>
    match s.remove hash with
    | .ok next => next
    | .error _ => s
  | .recheck hash =>
    match s.recheck hash with
    | .ok next => next
    | .error _ => s
  | .readAlerts => s.readAlerts.1
  | .engine event => { s with session := s.session.react event }

def run (s : Session) (ops : List Op) : Session := ops.foldl step s

/-- `allowed` holds of each operation of a run at the session it is applied to: what a
run may do, where that depends on the state it has reached. -/
def Along (allowed : Session → Op → Prop) : Session → List Op → Prop
  | _, [] => True
  | s, op :: ops => allowed s op ∧ Along allowed (s.step op) ops

instance Along.decidable {allowed : Session → Op → Prop} [∀ s op, Decidable (allowed s op)] :
    ∀ s ops, Decidable (Along allowed s ops)
  | _, [] => isTrue trivial
  | s, op :: ops =>
    have : Decidable (Along allowed (s.step op) ops) := Along.decidable (s.step op) ops
    instDecidableAnd

/-- An invariant that every allowed operation keeps holds after every allowed run. -/
theorem Along.run {allowed : Session → Op → Prop} {P : Session → Prop}
    (step : ∀ {s op}, P s → allowed s op → P (s.step op)) : ∀ {s ops}, P s → Along allowed s ops → P (s.run ops)
  | _, [], holds, _ => holds
  | s, op :: _, holds, ⟨ok, rest⟩ => Along.run step (s := s.step op) (step holds ok) rest

/-- A run allowed throughout is allowed up to each of its points. -/
theorem Along.prefix {allowed : Session → Op → Prop} :
    ∀ {s : Session} {ops more : List Op}, Along allowed s (ops ++ more) → Along allowed s ops
  | _, [], _, _ => trivial
  | s, op :: _, _, ⟨ok, rest⟩ => ⟨ok, Along.prefix (s := s.step op) rest⟩

/-- What holds of the session an `AddTorrent` leaves whenever the call returns holds
after its step. -/
theorem step_addTorrent {P : Session → Prop} {s : Session} {params : Lt.AddTorrentParams} (before : P s)
    (returned : ∀ added, s.addTorrent params = some added → P added.1) : P (s.step (.addTorrent params)) := by
  simp only [step]
  cases found : s.addTorrent params with
  | none => exact before
  | some added => exact returned added found

end Session

end Porla
