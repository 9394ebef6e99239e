import Porla.Proofs.Liveness
import Porla.Proofs.PrefetchMaps

/-! No drain of the alert queue ends in an exception while the torrents it reaches
exist. The `piece_finished` case throws on a torrent whose prefetch maps are not
paired, and every case that queries its alert's handle throws once the engine has
freed that torrent. The maps stay paired in every instance, in every queued save
result and in every row of the table. Every handle a queued alert, a pending save
request or `m_torrents` names stays valid, as long as the engine frees a torrent only
once nothing of the session names it: a torrent removed while an alert for it is
queued, and freed before the drain, makes that drain throw. -/

namespace Porla.Proofs.DrainSafety
open Porla Session Data.Models PrefetchMaps Liveness

/-- A queued save result carries paired maps in its add parameters. -/
def Carries : Lt.Alert → Prop
  | .saveResumeData _ params _ => Consistent params.userdata
  | _ => True

/-- The maps are paired in every instance, in every queued save result and in every
row of the table. -/
structure Sound (s : Session) : Prop where
  instances : ∀ th, Consistent (s.session.instances th).userdata
  queued : ∀ alert ∈ s.session.alerts, Carries alert
  rows : ∀ hash row, s.db.lookup hash = some row → Consistent row.params.userdata

/-- What the user passes in: the client data of a torrent to add has paired maps. -/
def Supplied : Op → Prop
  | .addTorrent params => Consistent params.userdata
  | _ => True

/-- The user supplies paired client data with every torrent a list of steps adds. -/
theorem supplied_of_added {ops : List Op}
    (added : ∀ params, Op.addTorrent params ∈ ops → Consistent params.userdata) : ∀ op ∈ ops, Supplied op
  | .addTorrent params, member => added params member
  | .load, _ | .remove _, _ | .recheck _, _ | .readAlerts, _ | .engine _, _ => trivial

section
variable {s s' : Session}

/-- A step that writes no row and no client data, and queues only alerts that carry
paired maps. -/
theorem Sound.of_frame (sound : Sound s) (table : s'.db = s.db)
    (queued : ∀ alert ∈ s'.session.alerts, alert ∈ s.session.alerts ∨ Carries alert)
    (same : ∀ th, (s'.session.instances th).userdata = (s.session.instances th).userdata) : Sound s' :=
  ⟨fun th => (same th).symm ▸ sound.instances th,
    fun alert member => (queued alert member).elim (sound.queued alert) id,
    fun hash row found => sound.rows hash row (table ▸ found)⟩

theorem Sound.create {options : SessionOptions} {parse : String → Option MediaInfoContainer}
    {db : TorrentsTable} (rows : ∀ hash row, db.lookup hash = some row → Consistent row.params.userdata) :
    Sound (Session.create options parse db) :=
  ⟨fun _ => Consistent.of_absent rfl rfl, fun _ member => absurd member (List.not_mem_nil _), rows⟩

/-- Every handler that returns keeps the maps paired, given a save result that carries
paired maps. -/
theorem Sound.handleAlert (sound : Sound s) {alert : Lt.Alert} (carried : Carries alert)
    (handled : s.handleAlert alert = .ok s') : Sound s' := by
  have frame := handleAlert_frame handled
  refine ⟨fun other => ?_, fun alert member => sound.queued alert (frame.commands.alerts ▸ member),
    fun hash row found => ?_⟩
  · obtain ⟨-, spec⟩ := handled_of_ok handled
    cases alert
    case pieceFinished th piece =>
      obtain ⟨-, others, -⟩ := ClientData.pieceFinished_frame spec
      by_cases same : other = th
      · exact same ▸ (consistent_stable th).pieceFinished (sound.instances th) spec
      · exact (others other same).symm ▸ sound.instances other
    case torrentFinished th =>
      subst spec
      obtain ⟨-, -, status⟩ := ClientData.torrentFinished_spec s th
      by_cases same : other = th
      · exact same ▸ (consistent_stable th).torrentFinished s (sound.instances th)
      · rw [status, if_neg fun both => same both.1]
        exact sound.instances other
    case torrentChecked th =>
      subst spec
      rw [Recheck.torrentChecked_instances, ClientData.foldl_restoreOn_userdata]
      exact sound.instances other
    case storageMoved th =>
      subst spec
      dsimp only
      split <;> exact sound.instances other
    all_goals subst spec; exact sound.instances other
  · rcases frame.rows hash row found with old | ⟨th, params, request, rfl, rfl, -⟩
    · exact sound.rows hash row old
    · exact carried

/-- On a sound and live session every handler returns, given an alert whose torrent
exists and a save result that carries paired maps. -/
theorem handleAlert_returns (sound : Sound s) (live : Live s) {alert : Lt.Alert} (carried : Carries alert)
    (named : ∀ th ∈ alert.handle, s.session.isValid th = true) : ∃ s', s.handleAlert alert = .ok s' := by
  cases alert
  case pieceFinished th piece =>
    obtain ⟨s', finished, -⟩ := pieceFinished_consistent (named th rfl) (sound.instances th) piece
    exact ⟨s', finished⟩
  case torrentChecked th =>
    refine ⟨_, (handleAlert_torrentChecked s th).trans
      (if_pos ⟨named th rfl, List.any_eq_false.mpr fun callback _ => ?_⟩)⟩
    unfold oneshotThrows
    split
    · exact Bool.false_ne_true
    · next bound => simp [live.bound _ _ bound]
  all_goals first
    | exact ⟨_, rfl⟩
    | exact ⟨_, by rw [Session.handleAlert, Lt.Session.status_of_valid _ (named _ rfl), ok_bind]; rfl⟩

theorem Sound.dispatch {alerts : List Lt.Alert} (sound : Sound s) (carried : ∀ alert ∈ alerts, Carries alert) :
    Sound (s.dispatch alerts).1 :=
  dispatch_preserves (fun sound carried handled => Sound.handleAlert sound carried handled) sound carried

theorem Sound.readAlerts (sound : Sound s) : Sound s.readAlerts.1 :=
  Sound.dispatch ⟨sound.instances, fun _ member => absurd member (List.not_mem_nil _), sound.rows⟩ sound.queued

/-- A drain of a sound and live session hands every alert to its handler. -/
theorem readAlerts_returns (sound : Sound s) (live : Live s) : s.readAlerts.2 = none :=
  dispatch_returns (P := fun s => Sound s ∧ Live s)
    (Q := fun s alert => Carries alert ∧ ∀ th ∈ alert.handle, s.session.isValid th = true)
    (fun ⟨sound, live⟩ ⟨carried, named⟩ => by
      obtain ⟨s', handled⟩ := handleAlert_returns sound live carried named
      have alive := (handleAlert_frame handled).commands.alive
      exact ⟨s', handled, ⟨sound.handleAlert carried handled, live.handleAlert handled⟩,
        fun _ ⟨carried, named⟩ => ⟨carried, fun th member => by rw [Lt.Session.isValid, alive]; exact named th member⟩⟩)
    ⟨⟨sound.instances, fun _ member => absurd member (List.not_mem_nil _), sound.rows⟩,
      ⟨fun _ member => absurd member (List.not_mem_nil _), live.requested, live.bound⟩⟩
    fun alert member => ⟨sound.queued alert member, live.queued alert member⟩

theorem Sound.loadRows : ∀ {rows : List Lt.AddTorrentParams} {s : Session}, Sound s →
    (∀ params ∈ rows, Consistent params.userdata) → Sound (s.loadRows rows).1
  | [], _, sound, _ => sound
  | params :: rest, s, sound, paired => by
    unfold Session.loadRows
    split
    · exact sound
    · next th engine added =>
      obtain ⟨-, rfl, rfl⟩ := Lt.Session.addTorrent_eq _ added
      refine Sound.loadRows ⟨fun other => ?_, sound.queued, sound.rows⟩
        fun row member => paired row (List.mem_cons_of_mem _ member)
      by_cases same : other = ⟨s.session.nextHandle⟩
      · subst same
        simpa [Lt.Torrent.ofParams] using paired params (List.mem_cons_self _ _)
      · simpa [Function.update_noteq same] using sound.instances other

theorem Sound.addTorrent (sound : Sound s) {params : Lt.AddTorrentParams} (paired : Consistent params.userdata)
    {added : Session × Lt.InfoHash} (returned : s.addTorrent params = some added) : Sound added.1 := by
  refine ⟨fun other => ?_, fun alert member => sound.queued alert (by rwa [addTorrent_alerts returned] at member),
    fun hash row found => ?_⟩
  · rw [addTorrent_instances returned]
    split
    · split
      · exact mediainfoSetup_consistent _ _ paired
      · exact paired
    · exact sound.instances other
  · rw [addTorrent_db returned] at found
    split at found
    · exact sound.rows hash row found
    · by_cases same : hash = params.infoHashes
      · subst same
        rw [AddTorrentParams.insert, lookup_mapInsert_self] at found
        cases held : s.db.lookup params.infoHashes with
        | none => rw [held, Option.getD_none] at found; cases found; exact paired
        | some old => rw [held, Option.getD_some] at found; cases found; exact sound.rows _ _ held
      · rw [AddTorrentParams.insert, lookup_mapInsert_ne same] at found
        exact sound.rows hash row found

theorem Sound.react (sound : Sound s) (event : Lt.Session.Event) :
    Sound { s with session := s.session.react event } := by
  have reacts := s.session.reacts event
  obtain ⟨added, queued, new⟩ := reacts.queued
  refine sound.of_frame rfl (fun alert member => ?_) reacts.userdata
  rw [queued] at member
  refine (List.mem_append.mp member).imp_right fun added => ?_
  rcases new alert added with ⟨request, -, rfl | rfl⟩ | ⟨spontaneous, -⟩
  · exact sound.instances request.1
  · trivial
  · -- a spontaneous alert is no save result
    cases alert <;> trivial

theorem Sound.step (sound : Sound s) : ∀ {op : Op}, Supplied op → Sound (s.step op)
  | .load, _ => sound.loadRows fun params member => by
    obtain ⟨entry, found, rfl⟩ := List.mem_map.mp member
    exact sound.rows entry.1 entry.2 (AList.mem_lookup_iff.mpr found)
  | .addTorrent _, paired => step_addTorrent sound fun _ returned => sound.addTorrent paired returned
  | .remove hash, _ => by
    simp only [Session.step]
    split
    · next removed =>
      obtain ⟨th, engine, -, valid, rfl⟩ := remove_eq removed
      obtain ⟨-, rfl⟩ := Lt.Session.removeTorrent_eq _ valid
      refine sound.of_frame rfl (fun alert member => ?_) fun _ => rfl
      rcases List.mem_append.mp member with old | removal
      · exact .inl old
      · exact .inr (by rw [List.mem_singleton.mp removal]; trivial)
    · exact sound
  | .recheck hash, _ => by
    simp only [Session.step]
    split
    · next checked =>
      obtain ⟨handle, -, -, -, status, eq⟩ := recheck_eq checked
      refine sound.of_frame (by rw [eq]) (fun alert member => .inl (by rwa [eq] at member)) fun other => ?_
      rw [status]
      split
      · next same => rw [same]
      · rfl
    · exact sound
  | .readAlerts, _ => sound.readAlerts
  | .engine event, _ => sound.react event

theorem Sound.run (sound : Sound s) {ops : List Op} (supplied : ∀ op ∈ ops, Supplied op) : Sound (s.run ops) := by
  induction ops generalizing s with
  | nil => exact sound
  | cons op rest ih =>
    exact ih (sound.step (supplied op (List.mem_cons_self _ _)))
      fun op member => supplied op (List.mem_cons_of_mem _ member)

end

/-- Over every run of the event loop from a new session on a table whose rows carry
paired client data, in which every torrent the user adds comes with paired client data
(a fresh `TorrentClientData` has neither map) and the engine frees a torrent only once
no queued alert and no binding of `m_torrents` names it: no drain of the alert queue
ends in an exception, so `ReadAlerts` hands every alert it pops to its handler and
loses none. -/
theorem drains_never_throw (options : SessionOptions) (parse : String → Option MediaInfoContainer)
    (db : TorrentsTable) (rows : ∀ hash row, db.lookup hash = some row → Consistent row.params.userdata)
    (ops : List Op) (added : ∀ params, Op.addTorrent params ∈ ops → Consistent params.userdata)
    (frees : Along FreesUnnamed (Session.create options parse db) ops) :
    ((Session.create options parse db).run ops).readAlerts.2 = none :=
  readAlerts_returns ((Sound.create rows).run (supplied_of_added added)) (Live.create.run frees)

/-- A media file is added with fresh client data, its prefetch runs and the engine
answers the save `AddTorrent` asked for; the torrent is removed, and freed once the
drain has handled its alerts. Freed before that drain instead, the `save_resume_data`
case throws on its `status()`. -/
theorem drains_never_throw_after_prefetch :
    let params : Lt.AddTorrentParams :=
      ⟨⟨1, 0⟩, "t", "/data", true, false, true, ⟨[⟨"a.mkv", 2⟩], 1, Nat.one_pos⟩, default⟩
    let start := Session.create ⟨true, [".mkv"], 0, 2⟩ (fun _ => none) ∅
    let before : List Op := [.addTorrent params, .engine (.raise (.pieceFinished ⟨0⟩ 1)), .engine (.answer 0 true),
      .remove ⟨1, 0⟩]
    let ops := before ++ [.readAlerts, .engine (.release ⟨0⟩), .load, .engine (.raise (.torrentFinished ⟨0⟩))]
    (∀ hash row, (∅ : TorrentsTable).lookup hash = some row → Consistent row.params.userdata) ∧
      (∀ added, Op.addTorrent added ∈ ops → Consistent added.userdata) ∧ Along FreesUnnamed start ops ∧
      (start.run ops).readAlerts.2 = none ∧
      (start.run (before ++ [.engine (.release ⟨0⟩)])).readAlerts.2 = some "invalid_torrent_handle" := by
  intro params start before ops
  have fresh : ∀ added, Op.addTorrent added ∈ ops → Consistent added.userdata := by
    intro added member
    simp only [ops, before, List.cons_append, List.nil_append, List.mem_cons, Op.addTorrent.injEq, reduceCtorEq,
      or_false, List.not_mem_nil] at member
    exact member ▸ Consistent.of_absent rfl rfl
  have frees : Along FreesUnnamed start ops := by decide
  exact ⟨fun _ _ found => absurd found (by simp), fresh, frees,
    drains_never_throw _ _ ∅ (fun _ _ found => absurd found (by simp)) ops fresh frees, by decide⟩

end Porla.Proofs.DrainSafety
