import Porla.Session.EventLoop

/-! The one-shot callback registry. Only `Recheck` adds to it, at the end of the
list under `(torrent_checked, hash)`, and only the `torrent_checked` case takes
from it: it runs the whole list under the alert's key and erases the key. So
under every hash the callbacks that have run are a prefix of those registered,
in order, and the rest are still pending. -/

namespace Porla.Proofs.OneshotCallbacks
open Porla Session

/-- The callbacks waiting under `(torrent_checked, hash)`. -/
def pendingOf (s : Session) (hash : Lt.InfoHash) : List OneshotCallback :=
  (s.oneshotTorrentCallbacks.lookup (.torrentChecked, hash)).getD []

/-- The registry fields an operation may leave as they are. -/
structure SameRegistry (s s' : Session) : Prop where
  callbacks : s'.oneshotTorrentCallbacks = s.oneshotTorrentCallbacks
  next : s'.nextCallback = s.nextCallback
  runs : s'.callbackRuns = s.callbackRuns

theorem pendingOf_recheck {s s' : Session} {hash : Lt.InfoHash} (checked : s.recheck hash = .ok s') :
    ∃ handle, s.torrents.lookup hash = some handle ∧ ∀ other, pendingOf s' other =
      if other = hash then
        pendingOf s hash ++
          [⟨s.nextCallback, hash, (s.session.instances handle).autoManaged, (s.session.instances handle).paused⟩]
      else pendingOf s other := by
  obtain ⟨handle, found, -, registry, -⟩ := recheck_eq checked
  refine ⟨handle, found, fun other => ?_⟩
  by_cases same : other = hash
  · subst same; simp [pendingOf, registry]
  · simp [pendingOf, registry, same]

theorem pendingOf_torrentChecked (s : Session) (th : Lt.TorrentHandle) (other : Lt.InfoHash) :
    pendingOf (s.torrentChecked th) other =
      if other = (s.session.instances th).infoHashes then [] else pendingOf s other := by
  obtain ⟨registry, lookups, eq⟩ := torrentChecked_eq s th
  by_cases same : other = (s.session.instances th).infoHashes
  · subst same; simp [pendingOf, eq, lookups]
  · simp [pendingOf, eq, lookups, same]

theorem handleAlert_sameRegistry {s s' : Session} {alert : Lt.Alert}
    (other : alert.type ≠ .torrentChecked) (handled : s.handleAlert alert = .ok s') :
    SameRegistry s s' := by
  cases alert
  case pieceFinished th piece =>
    obtain ⟨engine, events, rfl⟩ := pieceFinished_eq handled
    exact ⟨rfl, rfl, rfl⟩
  case torrentChecked => exact absurd rfl other
  case torrentFinished th =>
    obtain ⟨_, -, handled⟩ := bind_eq_ok.mp handled
    obtain ⟨engine, events, eq⟩ := s.torrentFinished_eq th
    cases handled
    rw [eq]
    exact ⟨rfl, rfl, rfl⟩
  all_goals first
    | (cases handled; exact ⟨rfl, rfl, rfl⟩)
    | (obtain ⟨_, -, handled⟩ := bind_eq_ok.mp handled; cases handled; exact ⟨rfl, rfl, rfl⟩)

/-- The registry of a session that started as `base`, with nothing pending, after
registering `regs` in order; `fired` is what has run since. -/
structure Ledger (base : Session) (regs : List OneshotCallback) (fired : List CallbackRun)
    (s : Session) : Prop where
  numbered : regs.map (·.id) = List.range' base.nextCallback regs.length
  next : s.nextCallback = base.nextCallback + regs.length
  log : s.callbackRuns = base.callbackRuns ++ fired
  split : ∀ hash, (fired.filter (·.callback.hash = hash)).map (·.callback) ++ pendingOf s hash =
    regs.filter (·.hash = hash)
  checkedOnly : ∀ key : Lt.AlertType × Lt.InfoHash, key.1 ≠ .torrentChecked →
    s.oneshotTorrentCallbacks.lookup key = none
  fromChecked : ∀ run ∈ fired, ∃ th, run.alert = .torrentChecked th ∧ run.infoHashes = run.callback.hash

section
variable {base s : Session} {regs : List OneshotCallback} {fired : List CallbackRun}

theorem ledger_initial (empty : base.oneshotTorrentCallbacks = ∅) : Ledger base [] [] base where
  numbered := rfl
  next := rfl
  log := by simp
  split hash := by simp [pendingOf, empty]
  checkedOnly key _ := by rw [empty]; rfl
  fromChecked := by simp

theorem Ledger.pending_hash (ledger : Ledger base regs fired s) {hash : Lt.InfoHash}
    {callback : OneshotCallback} (pending : callback ∈ pendingOf s hash) : callback.hash = hash := by
  have member : callback ∈ regs.filter (·.hash = hash) := ledger.split hash ▸ List.mem_append_right _ pending
  simpa using (List.mem_filter.mp member).2

theorem Ledger.same {s' : Session} (ledger : Ledger base regs fired s) (same : SameRegistry s s') :
    Ledger base regs fired s' where
  numbered := ledger.numbered
  next := same.next ▸ ledger.next
  log := same.runs ▸ ledger.log
  split := by simpa only [pendingOf, same.callbacks] using ledger.split
  checkedOnly := by simpa only [same.callbacks] using ledger.checkedOnly
  fromChecked := ledger.fromChecked

theorem Ledger.recheck {s' : Session} {hash : Lt.InfoHash} (ledger : Ledger base regs fired s)
    (checked : s.recheck hash = .ok s') : ∃ regs', Ledger base regs' fired s' := by
  obtain ⟨_, -, -, registry, -, eq⟩ := recheck_eq checked
  obtain ⟨handle, -, pending⟩ := pendingOf_recheck checked
  let callback : OneshotCallback :=
    ⟨s.nextCallback, hash, (s.session.instances handle).autoManaged, (s.session.instances handle).paused⟩
  refine ⟨regs ++ [callback], ⟨?_, ?_, by rw [eq]; exact ledger.log, fun other => ?_,
    fun key notChecked => ?_, ledger.fromChecked⟩⟩
  · simp [ledger.numbered, List.range'_concat, callback, ledger.next]
  · rw [eq, ledger.next, List.length_append, List.length_singleton, Nat.add_assoc]
  · rw [pending other, List.filter_append]
    by_cases same : other = hash
    · subst same; simp [← ledger.split other, callback]
    · simp [same, ledger.split other, callback, Ne.symm same]
  · rw [registry, if_neg (fun same => notChecked (by rw [same])), ledger.checkedOnly key notChecked]

theorem Ledger.torrentChecked (ledger : Ledger base regs fired s) (th : Lt.TorrentHandle) :
    ∃ fired', Ledger base regs fired' (s.torrentChecked th) := by
  obtain ⟨registry, lookups, eq⟩ := torrentChecked_eq s th
  let hash := (s.session.instances th).infoHashes
  have pending := pendingOf_torrentChecked s th
  let ran : List CallbackRun := (pendingOf s hash).map (⟨·, .torrentChecked th, hash⟩)
  have ranHash : ∀ run ∈ ran, run.callback.hash = hash := by
    simp only [ran, List.mem_map]
    rintro _ ⟨callback, member, rfl⟩
    exact ledger.pending_hash member
  have ranFilter : ∀ other, ran.filter (·.callback.hash = other) = if other = hash then ran else [] := by
    intro other
    split
    · next same => exact List.filter_eq_self.mpr fun run member => by simp [ranHash run member, same]
    · next different =>
      exact List.filter_eq_nil_iff.mpr fun run member => by simp [ranHash run member, Ne.symm different]
  refine ⟨fired ++ ran, ⟨ledger.numbered, by rw [eq]; exact ledger.next,
    by rw [eq, ledger.log, List.append_assoc]; rfl, fun other => ?_, fun key notChecked => ?_, ?_⟩⟩
  · rw [pending other, List.filter_append, List.map_append, List.append_assoc, ranFilter other]
    by_cases same : other = hash
    · subst same; simp [← ledger.split, ran, Function.comp_def]
    · simp [same, ledger.split other]
  · rw [eq]
    dsimp only
    rw [lookups, if_neg (fun same => notChecked (by rw [same])), ledger.checkedOnly key notChecked]
  · simp only [List.mem_append]
    rintro run (old | new)
    · exact ledger.fromChecked run old
    · simp only [ran, List.mem_map] at new
      obtain ⟨callback, member, rfl⟩ := new
      exact ⟨th, rfl, (ledger.pending_hash member).symm⟩

theorem Ledger.handleAlert {s' : Session} {alert : Lt.Alert} (ledger : Ledger base regs fired s)
    (handled : s.handleAlert alert = .ok s') : ∃ fired', Ledger base regs fired' s' := by
  cases alert
  case torrentChecked th =>
    obtain ⟨_, -, handled⟩ := bind_eq_ok.mp handled
    split at handled
    · cases handled
    · obtain rfl := Except.ok.inj handled
      exact ledger.torrentChecked th
  all_goals exact ⟨fired, ledger.same (handleAlert_sameRegistry (by simp [Lt.Alert.type]) handled)⟩

theorem Ledger.dispatch (ledger : Ledger base regs fired s) (alerts : List Lt.Alert) :
    ∃ fired', Ledger base regs fired' (s.dispatch alerts).1 := by
  induction alerts generalizing s fired with
  | nil => exact ⟨fired, ledger⟩
  | cons alert rest ih =>
    unfold Session.dispatch
    split
    · next handled =>
      obtain ⟨fired', ledger'⟩ := ledger.handleAlert handled
      exact ih ledger'
    · exact ⟨fired, ledger⟩

theorem Ledger.step (ledger : Ledger base regs fired s) (op : Op) :
    ∃ regs' fired', Ledger base regs' fired' (s.step op) := by
  cases op with
  | load =>
    obtain ⟨engine, torrents, eq⟩ := s.loadRows_eq (Data.Models.AddTorrentParams.forEach s.db)
    exact ⟨regs, fired, ledger.same (by simp only [Session.step, load, eq]; exact ⟨rfl, rfl, rfl⟩)⟩
  | addTorrent params =>
    refine ⟨regs, fired, step_addTorrent ledger fun added returned => ?_⟩
    obtain ⟨engine, db, torrents, events, eq⟩ := addTorrent_eq returned
    exact ledger.same (by rw [eq]; exact ⟨rfl, rfl, rfl⟩)
  | remove hash =>
    simp only [Session.step]
    split
    · next removed =>
      obtain ⟨_, engine, -, -, rfl⟩ := remove_eq removed
      exact ⟨regs, fired, ledger.same ⟨rfl, rfl, rfl⟩⟩
    · exact ⟨regs, fired, ledger⟩
  | recheck hash =>
    simp only [Session.step]
    split
    · next checked =>
      obtain ⟨regs', ledger'⟩ := ledger.recheck checked
      exact ⟨regs', fired, ledger'⟩
    · exact ⟨regs, fired, ledger⟩
  | readAlerts =>
    obtain ⟨fired', ledger'⟩ := (ledger.same
      (show SameRegistry s { s with session := s.session.popAlerts.2 } from ⟨rfl, rfl, rfl⟩)).dispatch
      s.session.popAlerts.1
    exact ⟨regs, fired', ledger'⟩
  | engine event => exact ⟨regs, fired, ledger.same ⟨rfl, rfl, rfl⟩⟩

theorem Ledger.run (ledger : Ledger base regs fired s) (ops : List Op) :
    ∃ regs' fired', Ledger base regs' fired' (s.run ops) := by
  induction ops generalizing s regs fired with
  | nil => exact ⟨regs, fired, ledger⟩
  | cons op rest ih =>
    obtain ⟨regs', fired', ledger'⟩ := ledger.step op
    exact ih ledger'

end

end Porla.Proofs.OneshotCallbacks
