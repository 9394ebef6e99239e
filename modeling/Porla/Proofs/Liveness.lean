import Porla.Session.EventLoop

/-! The torrents the session names exist: the handles of the queued alerts, of the
pending save requests and of `m_torrents`. The engine frees a torrent once it no longer
holds it and has no save request for it; nothing the daemon keeps delays that, so this
holds only as long as the engine frees a torrent once nothing of the session names it.
Handlers free and queue nothing, and ask saves only for a torrent they have just
queried. -/

namespace Porla.Proofs.Liveness
open Porla Session Data.Models

/-- Every torrent the session names still exists: those of the queued alerts, of the
pending save requests and those `m_torrents` binds. -/
structure Live (s : Session) : Prop where
  queued : ∀ alert ∈ s.session.alerts, ∀ th ∈ alert.handle, s.session.isValid th = true
  requested : ∀ request ∈ s.session.saveRequests, s.session.isValid request.1 = true
  bound : ∀ hash th, s.torrents.lookup hash = some th → s.session.isValid th = true

/-- The engine frees a torrent only once no queued alert names it and `m_torrents`
binds no hash to it. -/
def FreesUnnamed (s : Session) : Op → Prop
  | .engine (.release th) =>
    (∀ alert ∈ s.session.alerts, alert.handle ≠ some th) ∧ ∀ entry ∈ s.torrents.entries, entry.2 ≠ th
  | _ => True

instance (s : Session) : ∀ op, Decidable (FreesUnnamed s op)
  | .engine (.release _) => inferInstanceAs (Decidable (_ ∧ _))
  | .load | .addTorrent _ | .remove _ | .recheck _ | .readAlerts | .engine (.answer _ _)
  | .engine (.download _ _) | .engine (.raise _) => isTrue trivial

section
variable {s s' : Session}

/-- A step that frees nothing and names only torrents that exist. -/
theorem Live.of_frame (live : Live s) (alive : ∀ th, s.session.isValid th = true → s'.session.isValid th = true)
    (queued : ∀ alert ∈ s'.session.alerts, alert ∈ s.session.alerts ∨ alert.handle = none)
    (requested : ∀ request ∈ s'.session.saveRequests,
      request ∈ s.session.saveRequests ∨ s'.session.isValid request.1 = true)
    (bound : ∀ hash th, s'.torrents.lookup hash = some th → s.torrents.lookup hash = some th ∨ s'.session.isValid th = true) :
    Live s' where
  queued alert member th named := by
    rcases queued alert member with old | none
    · exact alive th (live.queued alert old th named)
    · rw [none] at named
      cases named
  requested request member := (requested request member).elim (fun old => alive _ (live.requested request old)) id
  bound hash th found := (bound hash th found).elim (fun old => alive th (live.bound hash th old)) id

theorem Live.create {options : SessionOptions} {parse : String → Option MediaInfoContainer} {db : TorrentsTable} :
    Live (Session.create options parse db) :=
  ⟨fun _ member => absurd member (List.not_mem_nil _), fun _ member => absurd member (List.not_mem_nil _),
    fun _ _ found => absurd found (by simp [Session.create])⟩

/-- Every handler that returns keeps every torrent the session names alive. -/
theorem Live.handleAlert (live : Live s) {alert : Lt.Alert} (handled : s.handleAlert alert = .ok s') : Live s' := by
  have frame := handleAlert_frame handled
  have alive : ∀ th, s.session.isValid th = true → s'.session.isValid th = true := fun th valid => by
    rwa [Lt.Session.isValid, frame.commands.alive]
  exact live.of_frame alive (fun alert member => .inl (frame.commands.alerts ▸ member))
    (fun request member => (frame.asked request member).imp_right (alive _))
    fun hash th found => .inl (frame.unbinds hash th found)

theorem Live.dispatch {alerts : List Lt.Alert} (live : Live s) : Live (s.dispatch alerts).1 :=
  dispatch_preserves (Q := fun _ => True) (fun live _ handled => Live.handleAlert live handled) live fun _ _ => trivial

theorem Live.readAlerts (live : Live s) : Live s.readAlerts.1 :=
  Live.dispatch ⟨fun _ member => absurd member (List.not_mem_nil _), live.requested, live.bound⟩

/-- A new torrent bound in `m_torrents` exists, and so does every one before it. -/
theorem Live.loadRows : ∀ {rows : List Lt.AddTorrentParams} {s : Session}, Live s → Live (s.loadRows rows).1
  | [], _, live => live
  | params :: rest, s, live => by
    unfold Session.loadRows
    split
    · exact live
    · next th engine added =>
      obtain ⟨-, rfl, rfl⟩ := Lt.Session.addTorrent_eq _ added
      refine Live.loadRows (live.of_frame (fun other valid => ?_) (fun alert member => .inl member)
        (fun request member => .inl member) fun hash other found => ?_)
      · by_cases same : other = ⟨s.session.nextHandle⟩
        · subst same
          simp [Lt.Session.isValid]
        · simpa [Lt.Session.isValid, Function.update_noteq same] using valid
      · refine (lookup_mapInsert_of_some found).imp_right fun bound => ?_
        subst bound
        simp [Lt.Session.isValid]

/-- `AddTorrent` binds and asks a save for the torrent it creates, which exists. -/
theorem Live.addTorrent (live : Live s) {params : Lt.AddTorrentParams} {added : Session × Lt.InfoHash}
    (returned : s.addTorrent params = some added) : Live added.1 := by
  cases accepted : s.session.addTorrent params with
  | error =>
    simp only [Session.addTorrent, accepted, Option.some_inj] at returned
    rwa [← returned]
  | ok result =>
    obtain ⟨th, engine⟩ := result
    have valid := addTorrent_valid_self accepted returned
    obtain ⟨engine', row, events, eq, -, alerts, -, alive, requests, -⟩ := addTorrent_accepted accepted returned
    obtain ⟨-, rfl, rfl⟩ := Lt.Session.addTorrent_eq _ accepted
    rw [eq] at valid ⊢
    refine live.of_frame (fun other old => ?_) (fun alert member => .inl (alerts ▸ member))
      (fun request member => ?_) fun hash other found => (lookup_mapInsert_of_some found).imp_right fun (bound : other = _) => bound ▸ valid
    · by_cases same : other = ⟨s.session.nextHandle⟩
      · exact same ▸ valid
      · show engine'.alive other = true
        rw [alive]
        exact (Function.update_noteq same _ _).trans old
    · rw [requests] at member
      rcases List.mem_append.mp member with old | new
      · exact .inl old
      · exact .inr (by rw [List.mem_singleton.mp new]; exact valid)

/-- The engine's steps keep every named torrent alive: a save result names a torrent
with a pending request, an alert is raised only for a torrent that exists, and a
torrent is freed only once nothing names it. -/
theorem Live.react (live : Live s) {event : Lt.Session.Event} (frees : FreesUnnamed s (.engine event)) :
    Live { s with session := s.session.react event } := by
  by_cases freeing : ∃ handle, event = .release handle
  · obtain ⟨handle, rfl⟩ := freeing
    dsimp only [Lt.Session.react]
    split
    · exact live
    · next kept =>
      have other : ∀ {th}, th ≠ handle → s.session.isValid th = true →
          (Function.update s.session.alive handle false) th = true := fun different valid => by
        rwa [Function.update_noteq different]
      obtain ⟨unqueued, unbound⟩ := frees
      refine ⟨fun alert member th named => other ?_ (live.queued alert member th named),
        fun request member => other ?_ (live.requested request member),
        fun hash th found => other ?_ (live.bound hash th found)⟩
      · rintro rfl
        exact unqueued alert member named
      · rintro same
        simp only [Bool.or_eq_true, List.any_eq_true, beq_iff_eq, not_or, not_exists, not_and] at kept
        exact kept.2 request member same
      · rintro rfl
        exact unbound ⟨hash, th⟩ (AList.mem_lookup_iff.mp found) rfl
  · have reacts := s.session.reacts event
    obtain ⟨added, queued, new⟩ := reacts.queued
    have alive : ∀ th, s.session.isValid th = true → (s.session.react event).isValid th = true := fun th valid =>
      (s.session.isValid_react (fun handle same => freeing ⟨handle, same⟩) th).trans valid
    refine ⟨fun alert member th named => ?_,
      fun request member => alive _ (live.requested request (reacts.requests request member)),
      fun hash th found => alive th (live.bound hash th found)⟩
    rw [queued] at member
    rcases List.mem_append.mp member with old | added
    · exact alive th (live.queued alert old th named)
    rcases new alert added with ⟨request, pending, rfl | rfl⟩ | ⟨-, valid⟩
    all_goals first
      | exact alive th (valid th named)
      | exact alive th (Option.mem_some_iff.mp named ▸ live.requested request pending)

theorem Live.step (live : Live s) : ∀ {op : Op}, FreesUnnamed s op → Live (s.step op)
  | .load, _ => live.loadRows
  | .addTorrent _, _ => step_addTorrent live fun _ returned => live.addTorrent returned
  | .remove hash, _ => by
    simp only [Session.step]
    split
    · next removed =>
      obtain ⟨th, engine, -, valid, rfl⟩ := remove_eq removed
      obtain ⟨-, rfl⟩ := Lt.Session.removeTorrent_eq _ valid
      refine live.of_frame (fun _ => id) (fun alert member => ?_) (fun request member => .inl member)
        fun _ _ found => .inl found
      rcases List.mem_append.mp member with old | removal
      · exact .inl old
      · exact .inr (by rw [List.mem_singleton.mp removal]; rfl)
    · exact live
  | .recheck hash, _ => by
    simp only [Session.step]
    split
    · next checked =>
      obtain ⟨-, -, -, -, -, eq⟩ := recheck_eq checked
      rw [eq]
      exact ⟨live.queued, live.requested, live.bound⟩
    · exact live
  | .readAlerts, _ => live.readAlerts
  | .engine _, frees => live.react frees

theorem Live.run (live : Live s) {ops : List Op} (frees : Along FreesUnnamed s ops) : Live (s.run ops) :=
  Along.run (P := Live) (fun live frees => Live.step live frees) live frees

theorem Live.load {options : SessionOptions} {parse : String → Option MediaInfoContainer} {db : TorrentsTable} :
    Live ((Session.create options parse db).step .load) :=
  Live.create.step trivial

end

end Porla.Proofs.Liveness
