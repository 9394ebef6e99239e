import Porla.Proofs.Recheck

/-! What the event loop does to one torrent's client data. Two handlers write it: the
torrent's `piece_finished` case and its `torrent_finished` case. `AddTorrent` and
`Load` write only the instances of the handles they issue, and every other step
leaves an issued torrent's client data alone. So a property of the client data that
those two cases keep holds over every run of the event loop. -/

namespace Porla.Proofs.ClientData
open Porla Session Recheck

theorem not_getD_false {flag : Option Bool} : (!(flag.getD false)) = true ↔ flag ≠ some true := by
  rcases flag with _ | _ | _ <;> simp

/-- The `torrent_finished` case: it posts the torrent's status exactly when the torrent
downloaded something and its staggered flag is not set, and then it turns the flag off. -/
theorem torrentFinished_spec (s : Session) (th : Lt.TorrentHandle) :
    let status := s.session.instances th
    let emits := 0 < status.totalDownload ∧ status.userdata.mediainfoEnabledStaggered ≠ some true
    (s.torrentFinished th).events = s.events ++ (if emits then [.torrentFinished status] else []) ∧
      (s.torrentFinished th).session.nextHandle = s.session.nextHandle ∧
      ∀ other, (s.torrentFinished th).session.instances other =
        if other = th ∧ emits then
          { status with userdata := { status.userdata with mediainfoEnabledStaggered := some false } }
        else s.session.instances other := by
  intro status emits
  have decided : (0 < status.totalDownload ∧ (!(status.userdata.mediainfoEnabledStaggered.getD false)) = true) ↔
      emits := and_congr_right' not_getD_false
  dsimp only [torrentFinished]
  by_cases posted : emits
  · rw [if_pos (decided.mpr posted), if_pos posted]
    refine ⟨by split <;> rfl, by split <;> rfl, fun other => ?_⟩
    simp only [and_iff_left posted]
    split <;> simp only [Lt.Session.instances_saveResumeData, Lt.Session.instances_modify]
  · rw [if_neg (mt decided.mp posted), if_neg posted, List.append_nil]
    refine ⟨by split <;> rfl, by split <;> rfl, fun other => ?_⟩
    simp only [posted, and_false, if_false]
    split <;> rfl

/-- One turn of the loop over the wanted map changes only the media-info fields. -/
theorem finishPiece_frame {parse : String → Option MediaInfoContainer} {handle : Lt.TorrentHandle}
    {storage : Lt.FileStorage} {savePath : String} {piece file : Nat}
    {state state' : TorrentClientData × List Event}
    (turned : finishPiece parse handle storage savePath piece state file = .ok state') :
    ∃ mediainfo wanted completed, state'.1 = { state.1 with
      mediainfo := mediainfo, mediainfoFilePiecesWanted := wanted, mediainfoFilePiecesCompleted := completed } := by
  unfold finishPiece at turned
  dsimp only at turned
  split at turned
  · split at turned
    · cases turned; exact ⟨_, _, _, rfl⟩
    · obtain ⟨done, -, turned⟩ := bind_eq_ok.mp turned
      obtain ⟨want, -, turned⟩ := bind_eq_ok.mp turned
      generalize (if piece ∈ want then done.insert piece else done) = done' at turned
      split at turned <;> (cases turned; exact ⟨_, _, _, rfl⟩)
  · cases turned

theorem foldlM_finishPiece_frame {parse : String → Option MediaInfoContainer} {handle : Lt.TorrentHandle}
    {storage : Lt.FileStorage} {savePath : String} {piece : Nat} :
    ∀ {files : List Nat} {state state' : TorrentClientData × List Event},
      files.foldlM (finishPiece parse handle storage savePath piece) state = .ok state' →
      ∃ mediainfo wanted completed, state'.1 = { state.1 with
        mediainfo := mediainfo, mediainfoFilePiecesWanted := wanted, mediainfoFilePiecesCompleted := completed }
  | [], _, _, turned => by cases turned; exact ⟨_, _, _, rfl⟩
  | file :: rest, state, state', turned => by
    obtain ⟨middle, first, rest⟩ := bind_eq_ok.mp turned
    obtain ⟨m₁, w₁, c₁, eq₁⟩ := finishPiece_frame first
    obtain ⟨m₂, w₂, c₂, eq₂⟩ := foldlM_finishPiece_frame rest
    exact ⟨m₂, w₂, c₂, by rw [eq₂, eq₁]⟩

/-- The `piece_finished` case writes only its own torrent, and there it keeps the
staggered flag or sets it. -/
theorem pieceFinished_frame {s s' : Session} {th : Lt.TorrentHandle} {piece : Nat}
    (finished : s.pieceFinished th piece = .ok s') :
    s'.session.nextHandle = s.session.nextHandle ∧
      (∀ other, other ≠ th → s'.session.instances other = s.session.instances other) ∧
      ((s'.session.instances th).userdata.mediainfoEnabledStaggered =
          (s.session.instances th).userdata.mediainfoEnabledStaggered ∨
        (s'.session.instances th).userdata.mediainfoEnabledStaggered = some true) := by
  obtain ⟨_, queried, finished⟩ := bind_eq_ok.mp finished
  obtain ⟨-, rfl⟩ := (Lt.Session.status_eq_ok _).mp queried
  split at finished
  · cases finished; exact ⟨rfl, fun _ _ => rfl, .inl rfl⟩
  · split at finished
    · cases finished; exact ⟨rfl, fun _ _ => rfl, .inl rfl⟩
    · obtain ⟨turned, folded, finished⟩ := bind_eq_ok.mp finished
      obtain ⟨mediainfo, wanted, completed, frame⟩ := foldlM_finishPiece_frame folded
      dsimp only at finished
      split at finished
      · cases finished
      · split at finished <;> cases finished <;>
          refine ⟨rfl, fun other different => by rw [Lt.Session.instances_modify, if_neg different], ?_⟩ <;>
          rw [Lt.Session.instances_modify, if_pos rfl]
        · exact .inr rfl
        · exact .inl (by rw [frame])

theorem oneshotBody_nextHandle (torrents : AList (fun _ : Lt.InfoHash => Lt.TorrentHandle))
    (engine : Lt.Session) (callback : OneshotCallback) :
    (oneshotBody torrents engine callback).nextHandle = engine.nextHandle := by
  unfold oneshotBody
  split
  · rfl
  · dsimp only
    split <;> split <;> rfl

theorem foldl_oneshotBody_nextHandle (torrents : AList (fun _ : Lt.InfoHash => Lt.TorrentHandle)) :
    ∀ (callbacks : List OneshotCallback) (engine : Lt.Session),
      (callbacks.foldl (oneshotBody torrents) engine).nextHandle = engine.nextHandle
  | [], _ => rfl
  | callback :: rest, engine =>
    (foldl_oneshotBody_nextHandle torrents rest _).trans (oneshotBody_nextHandle torrents engine callback)

theorem foldl_restoreOn_userdata {torrents : AList (fun _ : Lt.InfoHash => Lt.TorrentHandle)}
    {th : Lt.TorrentHandle} :
    ∀ (callbacks : List OneshotCallback) (t : Lt.Torrent),
      (callbacks.foldl (restoreOn torrents th) t).userdata = t.userdata
  | [], _ => rfl
  | callback :: rest, t => by
    rw [List.foldl_cons, foldl_restoreOn_userdata rest]
    unfold restoreOn
    split <;> rfl

/-- A property of client data that the torrent's own `piece_finished` and
`torrent_finished` cases keep. -/
structure Stable (P : TorrentClientData → Prop) (th : Lt.TorrentHandle) : Prop where
  pieceFinished : ∀ {s s' : Session} {piece : Nat}, P (s.session.instances th).userdata →
    s.pieceFinished th piece = .ok s' → P (s'.session.instances th).userdata
  torrentFinished : ∀ s : Session, P (s.session.instances th).userdata →
    P ((s.torrentFinished th).session.instances th).userdata

/-- `th` was issued, and its client data has the property `P`. -/
def Kept (P : TorrentClientData → Prop) (th : Lt.TorrentHandle) (s : Session) : Prop :=
  th.id < s.session.nextHandle ∧ P (s.session.instances th).userdata

section
variable {P : TorrentClientData → Prop} {th : Lt.TorrentHandle} {s s' : Session}

/-- A step that keeps the torrent's client data and issues no handle back. -/
theorem Kept.of_userdata (kept : Kept P th s) (next : s.session.nextHandle ≤ s'.session.nextHandle)
    (same : (s'.session.instances th).userdata = (s.session.instances th).userdata) : Kept P th s' :=
  ⟨Nat.lt_of_lt_of_le kept.1 next, same ▸ kept.2⟩

theorem Kept.torrentFinished (stable : Stable P th) (kept : Kept P th s) (other : Lt.TorrentHandle) :
    Kept P th (s.torrentFinished other) := by
  obtain ⟨-, next, status⟩ := torrentFinished_spec s other
  by_cases same : th = other
  · subst same
    exact ⟨next ▸ kept.1, stable.torrentFinished s kept.2⟩
  · refine kept.of_userdata next.ge ?_
    rw [status, if_neg fun both => same both.1]

theorem Kept.pieceFinished (stable : Stable P th) (kept : Kept P th s) {other : Lt.TorrentHandle} {piece : Nat}
    (finished : s.pieceFinished other piece = .ok s') : Kept P th s' := by
  obtain ⟨next, others, -⟩ := pieceFinished_frame finished
  by_cases same : th = other
  · subst same
    exact ⟨next ▸ kept.1, stable.pieceFinished kept.2 finished⟩
  · exact kept.of_userdata next.ge (by rw [others th same])

theorem Kept.torrentChecked (kept : Kept P th s) (other : Lt.TorrentHandle) :
    Kept P th (s.torrentChecked other) := by
  obtain ⟨registry, -, eq⟩ := torrentChecked_eq s other
  refine kept.of_userdata (le_of_eq ?_) (by rw [torrentChecked_instances, foldl_restoreOn_userdata])
  rw [eq]
  exact (foldl_oneshotBody_nextHandle _ _ _).symm

theorem Kept.handleAlert (stable : Stable P th) (kept : Kept P th s) {alert : Lt.Alert}
    (handled : s.handleAlert alert = .ok s') : Kept P th s' := by
  obtain ⟨-, spec⟩ := handled_of_ok handled
  cases alert
  case pieceFinished other piece => exact kept.pieceFinished stable spec
  all_goals subst spec
  case torrentChecked other => exact kept.torrentChecked other
  case torrentFinished other => exact kept.torrentFinished stable other
  case storageMoved other => exact kept.of_userdata (by split <;> exact le_rfl) (by split <;> rfl)
  all_goals exact kept

theorem Kept.dispatch (stable : Stable P th) :
    ∀ {alerts : List Lt.Alert} {s : Session}, Kept P th s → Kept P th (s.dispatch alerts).1
  | [], _, kept => kept
  | alert :: rest, s, kept => by
    unfold Session.dispatch
    split
    · next handled => exact Kept.dispatch stable (kept.handleAlert stable handled)
    · exact kept

/-- A new instance goes to the next handle, never to an issued one. -/
theorem status_update_issued (kept : Kept P th s) (torrent : Lt.Torrent) :
    Function.update s.session.instances ⟨s.session.nextHandle⟩ torrent th = s.session.instances th :=
  Function.update_noteq (fun same => Nat.lt_irrefl _ (same ▸ kept.1)) _ _

theorem Kept.addTorrent (kept : Kept P th s) {params : Lt.AddTorrentParams} {added : Session × Lt.InfoHash}
    (returned : s.addTorrent params = some added) : Kept P th added.1 := by
  refine kept.of_userdata (by rw [addTorrent_nextHandle returned]; split <;> omega) ?_
  rw [addTorrent_instances returned, if_neg fun both => Nat.lt_irrefl _ (both.2 ▸ kept.1)]

theorem Kept.loadRows : ∀ {rows : List Lt.AddTorrentParams} {s : Session}, Kept P th s →
    Kept P th (s.loadRows rows).1
  | [], _, kept => kept
  | params :: rest, s, kept => by
    unfold Session.loadRows
    split
    · exact kept
    · next handle engine added =>
      obtain ⟨-, rfl, rfl⟩ := Lt.Session.addTorrent_eq _ added
      exact Kept.loadRows (kept.of_userdata (Nat.le_succ _)
        (congrArg Lt.Torrent.userdata (status_update_issued kept _)))

theorem Kept.recheck (kept : Kept P th s) {hash : Lt.InfoHash} (checked : s.recheck hash = .ok s') :
    Kept P th s' := by
  obtain ⟨handle, -, -, -, status, eq⟩ := recheck_eq checked
  refine kept.of_userdata (by rw [eq]) ?_
  rw [status]
  split
  · next same => rw [same]
  · rfl

theorem Kept.react (kept : Kept P th s) (event : Lt.Session.Event) :
    Kept P th { s with session := s.session.react event } :=
  have reacts := s.session.reacts event
  kept.of_userdata reacts.nextHandle.ge (reacts.userdata th)

theorem Kept.step (stable : Stable P th) (kept : Kept P th s) : ∀ op : Op, Kept P th (s.step op)
  | .load => kept.loadRows
  | .addTorrent params => step_addTorrent kept fun _ returned => kept.addTorrent returned
  | .remove hash => by
    simp only [Session.step]
    split
    · next removed =>
      obtain ⟨handle, engine, -, valid, rfl⟩ := remove_eq removed
      obtain ⟨-, rfl⟩ := Lt.Session.removeTorrent_eq _ valid
      exact kept
    · exact kept
  | .recheck hash => by
    simp only [Session.step]
    split
    · next checked => exact kept.recheck checked
    · exact kept
  | .readAlerts => Kept.dispatch stable kept
  | .engine event => kept.react event

theorem Kept.run (stable : Stable P th) (kept : Kept P th s) (ops : List Op) : Kept P th (s.run ops) := by
  induction ops generalizing s with
  | nil => exact kept
  | cons op rest ih => exact ih (kept.step stable op)

end

end Porla.Proofs.ClientData
