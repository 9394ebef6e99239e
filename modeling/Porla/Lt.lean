import Porla.Map

/-! The BitTorrent engine as the session uses it (libtorrent, `lt::`). The engine
holds at most one torrent per info hash; every add makes a new torrent object, and a
`torrent_handle` refers to one. `remove_torrent` drops the torrent at once, but its
object lives on until the engine frees it: until then the handle stays valid and
answers from the removed torrent, and after that every call through it throws
`invalid_torrent_handle`. Save requests keep the object alive; the engine answers
them later, in any order, by its own steps. -/

namespace Porla

/-- A media container `MediaInfo::Parser::ParseExternal` produced. -/
structure MediaInfoContainer where
  source : String
deriving DecidableEq, Repr

/-- Modelled from the spec: `TorrentClientData` (`torrentclientdata.hpp`, not in the
sources), the per-torrent state the session keeps beside the engine (§3). The piece
maps are `std::map<int, std::unordered_set<int>>`. -/
structure TorrentClientData where
  mediainfo : Option MediaInfoContainer
  mediainfoEnabled : Option Bool
  mediainfoEnabledStaggered : Option Bool
  mediainfoFilePiecesWanted : Option (AList (fun _ : Nat => List Nat))
  mediainfoFilePiecesCompleted : Option (AList (fun _ : Nat => List Nat))

instance : Inhabited TorrentClientData := ⟨⟨none, none, none, none, none⟩⟩

namespace Lt

structure InfoHash where
  v1 : Nat
  v2 : Nat
deriving DecidableEq, Repr

/-- `info_hash_t::operator<`: by `v1`, then by `v2`. -/
def InfoHash.lt (a b : InfoHash) : Bool := a.v1 < b.v1 || (a.v1 == b.v1 && a.v2 < b.v2)

/-- A `torrent_handle`: a reference to one torrent instance of the engine. -/
structure TorrentHandle where
  id : Nat
deriving DecidableEq, Repr

structure FileEntry where
  path : String
  size : Nat
deriving DecidableEq, Repr

/-- `file_storage`: the files laid end to end and cut into pieces of `pieceLength`
bytes, the last piece holding the rest. -/
structure FileStorage where
  files : List FileEntry
  pieceLength : Nat
  pieceLength_pos : 0 < pieceLength

namespace FileStorage
variable (storage : FileStorage)

def totalSize : Nat := (storage.files.map (·.size)).sum

def numPieces : Nat := (storage.totalSize + storage.pieceLength - 1) / storage.pieceLength

def endPiece : Nat := storage.numPieces

def pieceSize (piece : Nat) : Nat :=
  if piece + 1 < storage.numPieces then storage.pieceLength
  else storage.totalSize - piece * storage.pieceLength

def fileSize (file : Nat) : Nat := ((storage.files.get? file).map (·.size)).getD 0

def filePath (file : Nat) : String := ((storage.files.get? file).map (·.path)).getD ""

def pieceIndexAtFile (file : Nat) : Nat :=
  ((storage.files.take file).map (·.size)).sum / storage.pieceLength

end FileStorage

/-- `download_priority_t` values the session uses. -/
def dontDownload : Nat := 0
def defaultPriority : Nat := 4
def topPriority : Nat := 7

/-- The fields of `add_torrent_params` the daemon sets or reads. -/
structure AddTorrentParams where
  infoHashes : InfoHash
  name : String
  savePath : String
  autoManaged : Bool
  paused : Bool
  hasMetadata : Bool
  files : FileStorage
  userdata : TorrentClientData

/-- A torrent instance: what `status()`, `flags()`, `userdata()`, `torrent_file()` and
`get_piece_priorities()` read from its handle. -/
structure Torrent where
  infoHashes : InfoHash
  name : String
  savePath : String
  queuePosition : Int
  autoManaged : Bool
  paused : Bool
  hasMetadata : Bool
  needSaveResume : Bool
  totalDownload : Nat
  userdata : TorrentClientData
  files : FileStorage
  piecePriorities : List Nat

instance : Inhabited Torrent :=
  ⟨⟨⟨0, 0⟩, "", "", 0, false, false, false, false, 0, default, ⟨[], 1, Nat.one_pos⟩, []⟩⟩

def Torrent.ofParams (params : AddTorrentParams) : Torrent where
  infoHashes := params.infoHashes
  name := params.name
  savePath := params.savePath
  queuePosition := 0
  autoManaged := params.autoManaged
  paused := params.paused
  hasMetadata := params.hasMetadata
  needSaveResume := true
  totalDownload := 0
  userdata := params.userdata
  files := params.files
  piecePriorities := List.replicate params.files.numPieces defaultPriority

/-- The resume data a save of the torrent produces, as `add_torrent_params`. -/
def Torrent.resumeData (torrent : Torrent) : AddTorrentParams where
  infoHashes := torrent.infoHashes
  name := torrent.name
  savePath := torrent.savePath
  autoManaged := torrent.autoManaged
  paused := torrent.paused
  hasMetadata := torrent.hasMetadata
  files := torrent.files
  userdata := torrent.userdata

/-- The alerts the session handles. A save result names the request it answers. -/
inductive Alert
  | dhtStats
  | metadataReceived (handle : TorrentHandle)
  | pieceFinished (handle : TorrentHandle) (pieceIndex : Nat)
  | saveResumeData (handle : TorrentHandle) (params : AddTorrentParams) (request : Nat)
  | saveResumeDataFailed (handle : TorrentHandle) (request : Nat)
  | sessionStats
  | stateUpdate
  | storageMoved (handle : TorrentHandle)
  | torrentChecked (handle : TorrentHandle)
  | torrentFinished (handle : TorrentHandle)
  | torrentPaused (handle : TorrentHandle)
  | torrentRemoved (infoHashes : InfoHash)
  | torrentResumed (handle : TorrentHandle)

/-- `alert::type()`, the key of the one-shot callback registry. -/
inductive AlertType
  | dhtStats | metadataReceived | pieceFinished | saveResumeData | saveResumeDataFailed
  | sessionStats | stateUpdate | storageMoved | torrentChecked | torrentFinished
  | torrentPaused | torrentRemoved | torrentResumed
deriving DecidableEq, Repr

def Alert.type : Alert → AlertType
  | .dhtStats => .dhtStats
  | .metadataReceived _ => .metadataReceived
  | .pieceFinished _ _ => .pieceFinished
  | .saveResumeData _ _ _ => .saveResumeData
  | .saveResumeDataFailed _ _ => .saveResumeDataFailed
  | .sessionStats => .sessionStats
  | .stateUpdate => .stateUpdate
  | .storageMoved _ => .storageMoved
  | .torrentChecked _ => .torrentChecked
  | .torrentFinished _ => .torrentFinished
  | .torrentPaused _ => .torrentPaused
  | .torrentRemoved _ => .torrentRemoved
  | .torrentResumed _ => .torrentResumed

/-- The torrent an alert is about, for the alerts a torrent raises. -/
def Alert.handle : Alert → Option TorrentHandle
  | .metadataReceived th | .pieceFinished th _ | .saveResumeData th _ _ | .saveResumeDataFailed th _
  | .storageMoved th | .torrentChecked th | .torrentFinished th | .torrentPaused th
  | .torrentResumed th => some th
  | .dhtStats | .sessionStats | .stateUpdate | .torrentRemoved _ => none

/-- Alerts the engine raises on its own. Removals and save results come only from
`remove_torrent` and from answering a `save_resume_data` request. -/
def Alert.spontaneous : Alert → Bool
  | .saveResumeData _ _ _ | .saveResumeDataFailed _ _ | .torrentRemoved _ => false
  | _ => true

/-- The engine: the torrents it holds by info hash, the instance each handle refers
to and whether that torrent object still exists, the `save_resume_data` requests not
yet answered, and the alert queue. -/
structure Session where
  torrents : AList (fun _ : InfoHash => TorrentHandle)
  instances : TorrentHandle → Torrent
  alive : TorrentHandle → Bool
  nextHandle : Nat
  saveRequests : List (TorrentHandle × Nat)
  nextRequest : Nat
  alerts : List Alert

namespace Session
variable (engine : Session)

def empty : Session := ⟨∅, fun _ => default, fun _ => false, 0, [], 0, []⟩

/-- `torrent_handle::is_valid`: the handle's torrent object still exists. -/
def isValid (handle : TorrentHandle) : Bool := engine.alive handle

/-- The engine holds the handle's torrent: it is the one under its info hash. -/
def holds (handle : TorrentHandle) : Bool :=
  engine.torrents.lookup (engine.instances handle).infoHashes == some handle

/-- What the queries through a handle read (`status()`, `flags()`, `userdata()`,
`info_hashes()`, `torrent_file()`, `need_save_resume_data()`, `get_piece_priorities()`):
the torrent, or `invalid_torrent_handle` once its object is freed. A command through a
freed handle throws the same way; the session sends one only after a query, except in
the callbacks of `Recheck`. -/
def status (handle : TorrentHandle) : Except String Torrent :=
  if engine.isValid handle then .ok (engine.instances handle) else .error "invalid_torrent_handle"

theorem status_of_valid {handle : TorrentHandle} (valid : engine.isValid handle = true) :
    engine.status handle = .ok (engine.instances handle) := if_pos valid

theorem status_of_invalid {handle : TorrentHandle} (freed : engine.isValid handle = false) :
    engine.status handle = .error "invalid_torrent_handle" := if_neg (by simp [freed])

theorem status_eq_ok {handle : TorrentHandle} {torrent : Torrent} :
    engine.status handle = .ok torrent ↔ engine.isValid handle = true ∧ engine.instances handle = torrent := by
  unfold status
  split <;> simp_all

theorem status_map_eq_ok {α : Type} {handle : TorrentHandle} {f : Torrent → α} {a : α} :
    (engine.status handle).map f = .ok a ↔ engine.isValid handle = true ∧ f (engine.instances handle) = a := by
  unfold status
  split <;> simp_all [Except.map]

/-- `add_torrent`: a new torrent object, or `duplicate_torrent` when the hash is held. -/
def addTorrent (params : AddTorrentParams) : Except String (TorrentHandle × Session) :=
  if params.infoHashes ∈ engine.torrents then .error "duplicate_torrent"
  else
    let handle : TorrentHandle := ⟨engine.nextHandle⟩
    .ok (handle, { engine with
      torrents := engine.torrents.insert params.infoHashes handle
      instances := Function.update engine.instances handle (Torrent.ofParams params)
      alive := Function.update engine.alive handle true
      nextHandle := engine.nextHandle + 1 })

theorem addTorrent_eq {params : AddTorrentParams} {handle : TorrentHandle} {engine' : Session}
    (added : engine.addTorrent params = .ok (handle, engine')) :
    params.infoHashes ∉ engine.torrents ∧ handle = ⟨engine.nextHandle⟩ ∧
      engine' = { engine with
        torrents := engine.torrents.insert params.infoHashes handle
        instances := Function.update engine.instances handle (Torrent.ofParams params)
        alive := Function.update engine.alive handle true
        nextHandle := engine.nextHandle + 1 } := by
  unfold addTorrent at added
  split at added
  · cases added
  · next free => cases added; exact ⟨free, rfl, rfl⟩

/-- `remove_torrent`: `invalid_torrent_handle` once the handle's object is freed;
otherwise the torrent under its info hash is dropped at once and `torrent_removed`
queued, and the object stays until the engine frees it. -/
def removeTorrent (handle : TorrentHandle) : Except String Session :=
  if engine.isValid handle then
    let hash := (engine.instances handle).infoHashes
    .ok { engine with
      torrents := engine.torrents.erase hash
      alerts := engine.alerts ++ [.torrentRemoved hash] }
  else .error "invalid_torrent_handle"

theorem removeTorrent_eq {handle : TorrentHandle} {engine' : Session}
    (removed : engine.removeTorrent handle = .ok engine') :
    engine.isValid handle = true ∧
      engine' = { engine with
        torrents := engine.torrents.erase (engine.instances handle).infoHashes
        alerts := engine.alerts ++ [.torrentRemoved (engine.instances handle).infoHashes] } := by
  unfold removeTorrent at removed
  split at removed
  · next valid => cases removed; exact ⟨by simpa using valid, rfl⟩
  · cases removed

/-- A command forwarded through a handle to its instance. -/
def modify (handle : TorrentHandle) (change : Torrent → Torrent) : Session :=
  { engine with instances := Function.update engine.instances handle (change (engine.instances handle)) }

@[simp] theorem modify_torrents (handle : TorrentHandle) (change : Torrent → Torrent) :
    (engine.modify handle change).torrents = engine.torrents := rfl

@[simp] theorem modify_alerts (handle : TorrentHandle) (change : Torrent → Torrent) :
    (engine.modify handle change).alerts = engine.alerts := rfl

@[simp] theorem modify_saveRequests (handle : TorrentHandle) (change : Torrent → Torrent) :
    (engine.modify handle change).saveRequests = engine.saveRequests := rfl

@[simp] theorem modify_id (handle : TorrentHandle) : engine.modify handle id = engine := by
  simp [modify]

@[simp] theorem modify_alive (handle : TorrentHandle) (change : Torrent → Torrent) :
    (engine.modify handle change).alive = engine.alive := rfl

theorem instances_modify (handle other : TorrentHandle) (change : Torrent → Torrent) :
    (engine.modify handle change).instances other =
      if other = handle then change (engine.instances handle) else engine.instances other :=
  Function.update_apply ..

/-- A change forwarded only while a flag is on, where it would leave the torrent as it
is when the flag is off, reads as the change forwarded always. -/
theorem instances_modify_if {flag : Bool} {handle : TorrentHandle} {change : Torrent → Torrent}
    (idle : flag = false → change (engine.instances handle) = engine.instances handle) (other : TorrentHandle) :
    (if flag then engine.modify handle change else engine).instances other =
      if other = handle then change (engine.instances handle) else engine.instances other := by
  cases flag
  · rw [if_neg Bool.false_ne_true, idle rfl]
    exact (ite_eq_right_iff.mpr fun same => same ▸ rfl).symm
  · exact instances_modify ..

def saveResumeData (handle : TorrentHandle) : Session :=
  { engine with
    saveRequests := engine.saveRequests ++ [(handle, engine.nextRequest)]
    nextRequest := engine.nextRequest + 1 }

@[simp] theorem modify_nextHandle (handle : TorrentHandle) (change : Torrent → Torrent) :
    (engine.modify handle change).nextHandle = engine.nextHandle := rfl

@[simp] theorem saveResumeData_torrents (handle : TorrentHandle) :
    (engine.saveResumeData handle).torrents = engine.torrents := rfl

@[simp] theorem saveResumeData_alerts (handle : TorrentHandle) :
    (engine.saveResumeData handle).alerts = engine.alerts := rfl

@[simp] theorem saveResumeData_nextHandle (handle : TorrentHandle) :
    (engine.saveResumeData handle).nextHandle = engine.nextHandle := rfl

theorem mem_saveResumeData_saveRequests {handle : TorrentHandle} {request : TorrentHandle × Nat}
    (member : request ∈ (engine.saveResumeData handle).saveRequests) :
    request ∈ engine.saveRequests ∨ request.1 = handle := by
  rcases List.mem_append.mp member with old | new
  · exact .inl old
  · exact .inr (by rw [List.mem_singleton.mp new])

@[simp] theorem instances_saveResumeData (handle other : TorrentHandle) :
    (engine.saveResumeData handle).instances other = engine.instances other := rfl

@[simp] theorem saveResumeData_alive (handle : TorrentHandle) :
    (engine.saveResumeData handle).alive = engine.alive := rfl

@[simp] theorem isValid_saveResumeData (handle : TorrentHandle) :
    (engine.saveResumeData handle).isValid = engine.isValid := rfl

/-- What commands through a handle do to the engine: no binding, queued alert, freed
or issued handle or info hash changes, and saves are asked only for that handle. -/
structure Commands (engine engine' : Session) (handle : Option TorrentHandle) : Prop where
  torrents : engine'.torrents = engine.torrents
  alerts : engine'.alerts = engine.alerts
  alive : engine'.alive = engine.alive
  nextHandle : engine'.nextHandle = engine.nextHandle
  hashes : ∀ other, (engine'.instances other).infoHashes = (engine.instances other).infoHashes
  requests : ∀ request ∈ engine'.saveRequests, request ∈ engine.saveRequests ∨ some request.1 = handle

theorem Commands.refl (handle : Option TorrentHandle) : Commands engine engine handle :=
  ⟨rfl, rfl, rfl, rfl, fun _ => rfl, fun _ member => .inl member⟩

theorem Commands.trans {engine engine' engine'' : Session} {handle : Option TorrentHandle}
    (first : Commands engine engine' handle) (second : Commands engine' engine'' handle) :
    Commands engine engine'' handle :=
  ⟨second.torrents.trans first.torrents, second.alerts.trans first.alerts, second.alive.trans first.alive,
    second.nextHandle.trans first.nextHandle, fun other => (second.hashes other).trans (first.hashes other),
    fun request member => (second.requests request member).elim (first.requests request) .inr⟩

theorem Commands.modify {change : Torrent → Torrent} (keeps : ∀ t, (change t).infoHashes = t.infoHashes)
    (th : TorrentHandle) (handle : Option TorrentHandle) : Commands engine (engine.modify th change) handle :=
  ⟨rfl, rfl, rfl, rfl, fun other => by
    rw [instances_modify]
    split
    · next same => rw [same]; exact keeps _
    · rfl, fun _ member => .inl member⟩

theorem Commands.saveResumeData (handle : TorrentHandle) :
    Commands engine (engine.saveResumeData handle) (some handle) :=
  ⟨rfl, rfl, rfl, rfl, fun _ => rfl, fun request member =>
    (engine.mem_saveResumeData_saveRequests member).imp_right fun same => by rw [same]⟩

def popAlerts : List Alert × Session := (engine.alerts, { engine with alerts := [] })

/-- The engine's own steps: answering the pending save request at `position`,
with success or failure, downloading `bytes` for a torrent it holds, raising an alert
for a torrent whose object exists, or freeing the object of a torrent it no longer
holds and has no save request for. -/
inductive Event
  | answer (position : Nat) (succeeded : Bool)
  | download (handle : TorrentHandle) (bytes : Nat)
  | raise (alert : Alert)
  | release (handle : TorrentHandle)

def react : Event → Session
  | .answer position succeeded =>
    match engine.saveRequests.get? position with
    | none => engine
    | some (handle, request) =>
      { engine with
        saveRequests := engine.saveRequests.eraseIdx position
        alerts := engine.alerts ++
          [if succeeded then .saveResumeData handle (engine.instances handle).resumeData request
           else .saveResumeDataFailed handle request] }
  | .download handle bytes =>
    if engine.holds handle then engine.modify handle fun t => { t with totalDownload := t.totalDownload + bytes }
    else engine
  | .raise alert =>
    if alert.spontaneous && alert.handle.all engine.isValid then { engine with alerts := engine.alerts ++ [alert] }
    else engine
  | .release handle =>
    if engine.holds handle || engine.saveRequests.any (·.1 == handle) then engine
    else { engine with alive := Function.update engine.alive handle false }

/-- Answering a save request queues one result alert for it and changes no torrent. -/
theorem react_answer (position : Nat) (succeeded : Bool) :
    ∃ saveRequests added, engine.react (.answer position succeeded) =
      { engine with saveRequests := saveRequests, alerts := engine.alerts ++ added } ∧
      ∀ alert ∈ added, ∃ handle request,
        alert = .saveResumeData handle (engine.instances handle).resumeData request ∨
          alert = .saveResumeDataFailed handle request := by
  simp only [react]
  split
  · exact ⟨engine.saveRequests, [], by rw [List.append_nil], by simp⟩
  · next handle request _ =>
    refine ⟨_, _, rfl, ?_⟩
    simp only [List.mem_singleton]
    rintro _ rfl
    exact ⟨handle, request, by split <;> simp⟩

/-- What one step of the engine does: no binding, issued handle, hash or client data
changes, no freed torrent comes back, only pending requests are answered, and the
alerts it queues, at the end, are results of pending requests or spontaneous alerts
for torrents whose object exists. -/
structure Reacts (engine engine' : Session) : Prop where
  torrents : engine'.torrents = engine.torrents
  nextHandle : engine'.nextHandle = engine.nextHandle
  hashes : ∀ th, (engine'.instances th).infoHashes = (engine.instances th).infoHashes
  userdata : ∀ th, (engine'.instances th).userdata = (engine.instances th).userdata
  alive : ∀ th, engine'.isValid th = true → engine.isValid th = true
  requests : ∀ request ∈ engine'.saveRequests, request ∈ engine.saveRequests
  queued : ∃ added, engine'.alerts = engine.alerts ++ added ∧ ∀ alert ∈ added,
    (∃ request ∈ engine.saveRequests,
      alert = .saveResumeData request.1 (engine.instances request.1).resumeData request.2 ∨
        alert = .saveResumeDataFailed request.1 request.2) ∨
    alert.spontaneous = true ∧ ∀ th ∈ alert.handle, engine.isValid th = true

/-- Only `release` frees a torrent. -/
theorem isValid_react {event : Event} (keeps : ∀ handle, event ≠ .release handle) (th : TorrentHandle) :
    (engine.react event).isValid th = engine.isValid th := by
  cases event
  case release handle => exact absurd rfl (keeps handle)
  all_goals simp only [react]; split <;> rfl

theorem Reacts.refl : Reacts engine engine :=
  ⟨rfl, rfl, fun _ => rfl, fun _ => rfl, fun _ => id, fun _ => id,
    ⟨[], (List.append_nil _).symm, fun _ member => absurd member (List.not_mem_nil _)⟩⟩

theorem reacts : ∀ event : Event, Reacts engine (engine.react event)
  | .answer position succeeded => by
    simp only [react]
    split
    · exact .refl engine
    · next handle request found =>
      refine ⟨rfl, rfl, fun _ => rfl, fun _ => rfl, fun _ => id, fun _ member => List.mem_of_mem_eraseIdx member,
        ⟨_, rfl, fun alert answered => .inl ⟨(handle, request), List.get?_mem found, ?_⟩⟩⟩
      rw [List.mem_singleton.mp answered]
      split
      · exact .inl rfl
      · exact .inr rfl
  | .download handle bytes => by
    simp only [react]
    split
    · have same : ∀ th, ((engine.modify handle fun t => { t with totalDownload := t.totalDownload + bytes }).instances
          th).infoHashes = (engine.instances th).infoHashes ∧
          ((engine.modify handle fun t => { t with totalDownload := t.totalDownload + bytes }).instances
            th).userdata = (engine.instances th).userdata := fun th => by
        rw [instances_modify]
        split
        · next same => rw [same]; exact ⟨rfl, rfl⟩
        · exact ⟨rfl, rfl⟩
      exact ⟨rfl, rfl, fun th => (same th).1, fun th => (same th).2, fun _ => id, fun _ => id,
        (Reacts.refl engine).queued⟩
    · exact .refl engine
  | .raise alert => by
    simp only [react]
    split
    · next raised =>
      refine ⟨rfl, rfl, fun _ => rfl, fun _ => rfl, fun _ => id, fun _ => id,
        ⟨_, rfl, fun queued new => .inr ?_⟩⟩
      rw [List.mem_singleton.mp new]
      simp only [Bool.and_eq_true] at raised
      refine ⟨raised.1, fun th named => ?_⟩
      simpa only [Option.mem_def.mp named, Option.all_some] using raised.2
    · exact .refl engine
  | .release handle => by
    simp only [react]
    split
    · exact .refl engine
    · refine ⟨rfl, rfl, fun _ => rfl, fun _ => rfl, fun th valid => ?_, fun _ => id, (Reacts.refl engine).queued⟩
      by_cases same : th = handle
      · subst same
        simp [isValid] at valid
      · simpa [isValid, same] using valid

end Session

end Lt
end Porla
