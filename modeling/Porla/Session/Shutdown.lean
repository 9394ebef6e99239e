import Porla.Session.EventLoop

/-! `Session::~Session`. The destructor stops draining alerts, visits `m_torrents` in
key order and asks every torrent that needs it to save its resume data, a chunk of
1000 torrents at a time, and after each chunk waits until as many save results have
come back as it made requests. The wait loop pops whatever the engine has queued: a
save result counts down `outstanding` whichever request it answers, and every other
alert is dropped. A call through the handle of a freed torrent throws, and an
exception out of the destructor ends the daemon. The session parameters file and the
engine's `pause` are left out. -/

namespace Porla
open Data.Models

namespace Session

def chunkSize : Nat := 1000

/-- The loop over one chunk's handles: each torrent's `status()` is read first, and a
save is requested for every valid handle whose torrent has metadata and needs saving.
Returns the count of requests. -/
def requestSaves (engine : Lt.Session) : List Lt.TorrentHandle → Except String (Lt.Session × Int)
  | [] => .ok (engine, 0)
  | th :: rest => do
    let ts ← engine.status th
    if !engine.isValid th || !ts.hasMetadata || !ts.needSaveResume then requestSaves engine rest
    else
      let requested ← requestSaves (engine.saveResumeData th) rest
      pure (requested.1, requested.2 + 1)

/-- `requestSaves` in one step: `status()` throws on a freed handle of the chunk;
otherwise every handle whose torrent has metadata and needs saving is asked to save,
in the chunk's order. -/
theorem requestSaves_eq (engine : Lt.Session) : ∀ handles : List Lt.TorrentHandle,
    requestSaves engine handles =
      if handles.all engine.isValid then
        let asked := handles.filter fun th => (engine.instances th).hasMetadata && (engine.instances th).needSaveResume
        .ok (asked.foldl Lt.Session.saveResumeData engine, asked.length)
      else .error "invalid_torrent_handle"
  | [] => rfl
  | th :: rest => by
    cases valid : engine.isValid th
    · simp [requestSaves, Lt.Session.status_of_invalid _ valid, valid, bind, Except.bind]
    · rw [requestSaves, Lt.Session.status_of_valid _ valid, ok_bind, List.all_cons, valid, Bool.true_and,
        List.filter_cons]
      by_cases wanted : ((engine.instances th).hasMetadata && (engine.instances th).needSaveResume) = true
      · have same := requestSaves_eq (engine.saveResumeData th) rest
        simp only [Lt.Session.isValid_saveResumeData, Lt.Session.instances_saveResumeData] at same
        rw [if_neg (by simpa using wanted), same, if_pos wanted]
        split
        · simp [bind, Except.bind, pure, Except.pure]
        · rfl
      · rw [if_pos (by revert wanted; cases (engine.instances th).hasMetadata <;>
          cases (engine.instances th).needSaveResume <;> decide), requestSaves_eq engine rest, if_neg wanted]

/-- The alerts of one `pop_alerts` in the wait loop: every save result counts
`outstanding` down, and a success updates the torrent's row with the alert's
parameters, reading the hash, client data and queue position through the handle.
`handled` records the save results handled, in order; the code keeps no such list. -/
def drainSaves (s : Session) (outstanding : Int) (handled : List Lt.Alert) :
    List Lt.Alert → Except String (Session × Int × List Lt.Alert)
  | [] => .ok (s, outstanding, handled)
  | .saveResumeDataFailed th request :: rest =>
    drainSaves s (outstanding - 1) (handled ++ [.saveResumeDataFailed th request]) rest
  | .saveResumeData th params request :: rest => do
    let status ← s.session.status th
    drainSaves { s with
        db := AddTorrentParams.update s.db status.infoHashes
          ⟨status.userdata, params.name, params, status.queuePosition, params.savePath⟩ }
      (outstanding - 1) (handled ++ [.saveResumeData th params request]) rest
  | _ :: rest => drainSaves s outstanding handled rest

/-- The loop `while (outstanding > 0)`. Before each `pop_alerts` the engine takes
the steps of the next batch of `schedule`; an empty batch is a `wait_for_alert`
that timed out. `none` when the destructor does not return: the schedule ends first
and the loop would wait on, or a drain throws. -/
def awaitSaves (s : Session) (outstanding : Int) (handled : List Lt.Alert) :
    List (List Lt.Session.Event) → Option (Session × List Lt.Alert × List (List Lt.Session.Event))
  | [] => if 0 < outstanding then none else some (s, handled, [])
  | batch :: later =>
    if 0 < outstanding then
      let engine := batch.foldl Lt.Session.react s.session
      match drainSaves { s with session := engine.popAlerts.2 } outstanding handled engine.popAlerts.1 with
      | .error _ => none
      | .ok drained => awaitSaves drained.1 drained.2.1 drained.2.2 later
    else some (s, handled, batch :: later)

/-- The loop over `chunks` chunks, with the handles not yet visited. -/
def saveChunks (schedule : List (List Lt.Session.Event)) (s : Session) (handled : List Lt.Alert) :
    (chunks : Nat) → List Lt.TorrentHandle → Option (Session × List Lt.Alert × List (List Lt.Session.Event))
  | 0, _ => some (s, handled, schedule)
  | chunks + 1, handles =>
    match requestSaves s.session (handles.take chunkSize) with
    | .error _ => none
    | .ok requested =>
      match awaitSaves { s with session := requested.1 } requested.2 handled schedule with
      | none => none
      | some (s, handled, schedule) => saveChunks schedule s handled chunks (handles.drop chunkSize)

/-- The handles of `m_torrents`, in the order the destructor's iterator visits them. -/
def handlesInOrder (s : Session) : List Lt.TorrentHandle :=
  (mapEntries Lt.InfoHash.lt s.torrents).map (·.2)

/-- The destructor, as far as the torrents go: the session when it returns, and the
save results it handled. -/
def shutdown (s : Session) (schedule : List (List Lt.Session.Event)) : Option (Session × List Lt.Alert) :=
  let handles := s.handlesInOrder
  (saveChunks schedule s [] (handles.length / chunkSize + 1) handles).map fun result => (result.1, result.2.1)

theorem mem_handlesInOrder {s : Session} {th : Lt.TorrentHandle} :
    th ∈ s.handlesInOrder ↔ ∃ hash, s.torrents.lookup hash = some th := by
  simp only [handlesInOrder, List.mem_map, ((mapEntries_perm _ _).mem_iff)]
  constructor
  · rintro ⟨⟨hash, th⟩, member, rfl⟩
    exact ⟨hash, AList.mem_lookup_iff.mpr member⟩
  · rintro ⟨hash, found⟩
    exact ⟨⟨hash, th⟩, AList.mem_lookup_iff.mp found, rfl⟩

@[simp] theorem length_handlesInOrder (s : Session) : s.handlesInOrder.length = s.torrents.entries.length := by
  simp [handlesInOrder]

end Session

end Porla
