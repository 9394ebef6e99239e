import Porla.Proofs.OneshotCallbacks

/-! `Recheck` clears a torrent's `auto_managed` and `paused` flags and leaves a
callback that sets again the flags it found set. The `torrent_checked` dispatch
runs the callbacks on whatever torrent `m_torrents` binds the hash to when the
alert arrives, which need not be the torrent they were registered on. -/

namespace Porla.Proofs.Recheck
open Porla Session OneshotCallbacks

/-- The two flags `Recheck` saves. -/
def flagsOf (t : Lt.Torrent) : Bool × Bool := (t.autoManaged, t.paused)

/-- A torrent with the flags a callback saw set, set again. -/
def restored (callback : OneshotCallback) (t : Lt.Torrent) : Lt.Torrent :=
  { t with autoManaged := callback.wasAutoManaged || t.autoManaged, paused := callback.wasPaused || t.paused }

@[simp] theorem restored_infoHashes (callback : OneshotCallback) (t : Lt.Torrent) :
    (restored callback t).infoHashes = t.infoHashes := rfl

theorem oneshotBody_instances (torrents : AList (fun _ : Lt.InfoHash => Lt.TorrentHandle))
    (engine : Lt.Session) (callback : OneshotCallback) (other : Lt.TorrentHandle) :
    (oneshotBody torrents engine callback).instances other =
      if torrents.lookup callback.hash = some other then restored callback (engine.instances other)
      else engine.instances other := by
  obtain ⟨id, hash, wasAutoManaged, wasPaused⟩ := callback
  unfold oneshotBody
  cases torrents.lookup hash with
  | none => simp
  | some th =>
    by_cases same : other = th
    · subst same
      cases wasAutoManaged <;> cases wasPaused <;> simp [Lt.Session.instances_modify, restored]
    · cases wasAutoManaged <;> cases wasPaused <;> simp [Lt.Session.instances_modify, same, Ne.symm same]

theorem foldl_oneshotBody_alive (torrents : AList (fun _ : Lt.InfoHash => Lt.TorrentHandle)) :
    ∀ (callbacks : List OneshotCallback) (engine : Lt.Session),
      (callbacks.foldl (oneshotBody torrents) engine).alive = engine.alive
  | [], _ => rfl
  | callback :: rest, engine => by
    rw [List.foldl_cons, foldl_oneshotBody_alive torrents rest]
    unfold oneshotBody
    split
    · rfl
    · split <;> split <;> rfl

/-- A callback as seen from the torrent `other`: it acts there when `m_torrents`
binds its hash to `other`. -/
def restoreOn (torrents : AList (fun _ : Lt.InfoHash => Lt.TorrentHandle)) (other : Lt.TorrentHandle)
    (t : Lt.Torrent) (callback : OneshotCallback) : Lt.Torrent :=
  if torrents.lookup callback.hash = some other then restored callback t else t

section
variable {torrents : AList (fun _ : Lt.InfoHash => Lt.TorrentHandle)} {other : Lt.TorrentHandle}

theorem foldl_oneshotBody_instances :
    ∀ (callbacks : List OneshotCallback) (engine : Lt.Session),
      (callbacks.foldl (oneshotBody torrents) engine).instances other =
        callbacks.foldl (restoreOn torrents other) (engine.instances other)
  | [], _ => rfl
  | callback :: rest, engine => by
    rw [List.foldl_cons, foldl_oneshotBody_instances rest, oneshotBody_instances]
    rfl

theorem foldl_restoreOn_infoHashes :
    ∀ (callbacks : List OneshotCallback) (t : Lt.Torrent),
      (callbacks.foldl (restoreOn torrents other) t).infoHashes = t.infoHashes
  | [], _ => rfl
  | callback :: rest, t => by
    rw [List.foldl_cons, foldl_restoreOn_infoHashes rest]
    unfold restoreOn
    split <;> rfl

theorem foldl_restoreOn_unbound :
    ∀ {callbacks : List OneshotCallback} (t : Lt.Torrent),
      (∀ callback ∈ callbacks, torrents.lookup callback.hash ≠ some other) →
      callbacks.foldl (restoreOn torrents other) t = t
  | [], _, _ => rfl
  | callback :: rest, t, unbound => by
    rw [List.foldl_cons, restoreOn, if_neg (unbound callback (List.mem_cons_self _ _))]
    exact foldl_restoreOn_unbound t fun c member => unbound c (List.mem_cons_of_mem _ member)

theorem foldl_restoreOn_bound :
    ∀ {callbacks : List OneshotCallback} (t : Lt.Torrent),
      (∀ callback ∈ callbacks, torrents.lookup callback.hash = some other) →
      callbacks.foldl (restoreOn torrents other) t = callbacks.foldl (fun t callback => restored callback t) t
  | [], _, _ => rfl
  | callback :: rest, t, bound => by
    rw [List.foldl_cons, restoreOn, if_pos (bound callback (List.mem_cons_self _ _))]
    exact foldl_restoreOn_bound _ fun c member => bound c (List.mem_cons_of_mem _ member)

end

theorem foldl_restored_clear :
    ∀ {callbacks : List OneshotCallback} (t : Lt.Torrent),
      (∀ callback ∈ callbacks, callback.wasAutoManaged = false ∧ callback.wasPaused = false) →
      flagsOf (callbacks.foldl (fun t callback => restored callback t) t) = flagsOf t
  | [], _, _ => rfl
  | callback :: rest, t, clear => by
    obtain ⟨auto, paused⟩ := clear callback (List.mem_cons_self _ _)
    rw [List.foldl_cons, foldl_restored_clear _ fun c member => clear c (List.mem_cons_of_mem _ member)]
    simp [flagsOf, restored, auto, paused]

theorem torrentChecked_instances (s : Session) (th other : Lt.TorrentHandle) :
    (s.torrentChecked th).session.instances other =
      (pendingOf s (s.session.instances th).infoHashes).foldl (restoreOn s.torrents other)
        (s.session.instances other) := by
  obtain ⟨registry, -, eq⟩ := torrentChecked_eq s th
  rw [eq]
  exact foldl_oneshotBody_instances _ _

theorem torrentChecked_alive (s : Session) (th : Lt.TorrentHandle) :
    (s.torrentChecked th).session.alive = s.session.alive := by
  obtain ⟨registry, -, eq⟩ := torrentChecked_eq s th
  rw [eq]
  exact foldl_oneshotBody_alive _ _ _

theorem recheck_ok {s : Session} {hash : Lt.InfoHash} {handle : Lt.TorrentHandle}
    (found : s.torrents.lookup hash = some handle) (valid : s.session.isValid handle = true) :
    ∃ s', s.recheck hash = .ok s' := by
  simp only [recheck, mapAt, found, Lt.Session.status_of_valid _ valid, lookup_mapInsert_self, bind, Except.bind,
    pure, Except.pure]
  exact ⟨_, rfl⟩

/-- The steps that touch the flags `Recheck` saves: `Recheck` of any hash, or the
dispatch of a `torrent_checked` alert for any handle. -/
inductive CheckStep
  | recheck (hash : Lt.InfoHash)
  | checked (handle : Lt.TorrentHandle)

def CheckStep.apply (s : Session) : CheckStep → Session
  | .recheck hash => s.step (.recheck hash)
  | .checked th => (s.dispatch [.torrentChecked th]).1

def checkRun (s : Session) (steps : List CheckStep) : Session := steps.foldl CheckStep.apply s

theorem CheckStep.apply_checked (s : Session) (th : Lt.TorrentHandle) :
    CheckStep.apply s (.checked th) = s.torrentChecked th ∨ CheckStep.apply s (.checked th) = s := by
  simp only [CheckStep.apply, dispatch_singleton, handleAlert_torrentChecked]
  split_ifs
  · exact .inl rfl
  · exact .inr rfl

/-- What holds between the steps for `hash`, bound to `th0` and no other key: the
bindings, the torrents' hashes and their objects stay; callbacks of `hash` are pending
only when `th0` is valid, and a freed `th0` is never changed; and while callbacks of
`hash` are pending its flags are clear and every callback after the first saw them
clear. -/
structure Holding (s0 : Session) (hash : Lt.InfoHash) (th0 : Lt.TorrentHandle) (s : Session) : Prop where
  torrents : s.torrents = s0.torrents
  hashes : ∀ th, (s.session.instances th).infoHashes = (s0.session.instances th).infoHashes
  alive : s.session.alive = s0.session.alive
  ledger : ∃ regs fired, Ledger s0 regs fired s
  registered : pendingOf s hash ≠ [] → s0.session.isValid th0 = true
  frozen : s0.session.isValid th0 = false → s.session.instances th0 = s0.session.instances th0
  cleared : pendingOf s hash ≠ [] → flagsOf (s.session.instances th0) = (false, false)
  later : ∀ callback ∈ (pendingOf s hash).tail, callback.wasAutoManaged = false ∧ callback.wasPaused = false

section
variable {s0 s : Session} {hash : Lt.InfoHash} {th0 : Lt.TorrentHandle}
  (bound : s0.torrents.lookup hash = some th0)
  (sole : ∀ other, s0.torrents.lookup other = some th0 → other = hash)
include bound sole

theorem Holding.recheck {s' : Session} {rechecked : Lt.InfoHash} (holding : Holding s0 hash th0 s)
    (checked : s.recheck rechecked = .ok s') : Holding s0 hash th0 s' := by
  obtain ⟨handle, found, valid, -, status, eq⟩ := recheck_eq checked
  obtain ⟨handle', found', pending⟩ := pendingOf_recheck checked
  obtain rfl : handle = handle' := Option.some_inj.mp (found.symm.trans found')
  obtain ⟨regs, fired, ledger⟩ := holding.ledger
  obtain ⟨regs', ledger'⟩ := ledger.recheck checked
  rw [holding.torrents] at found
  have torrents : s'.torrents = s0.torrents := by rw [eq]; exact holding.torrents
  have hashes : ∀ th, (s'.session.instances th).infoHashes = (s0.session.instances th).infoHashes := by
    intro th
    by_cases same : th = handle <;> simp [status, same, holding.hashes]
  have alive : s'.session.alive = s0.session.alive := by rw [eq]; exact holding.alive
  by_cases same : rechecked = hash
  · subst same
    obtain rfl : handle = th0 := Option.some_inj.mp (found.symm.trans bound)
    have live : s0.session.isValid handle = true := by
      rwa [Lt.Session.isValid, ← holding.alive]
    refine ⟨torrents, hashes, alive, ⟨regs', fired, ledger'⟩, fun _ => live,
      fun freed => absurd live (by rw [freed]; exact Bool.false_ne_true),
      fun _ => by rw [status, if_pos rfl]; rfl, ?_⟩
    rw [pending, if_pos rfl]
    intro callback member
    cases waiting : pendingOf s rechecked with
    | nil => simp [waiting] at member
    | cons first rest =>
      rw [waiting, List.cons_append, List.tail_cons, List.mem_append, List.mem_singleton] at member
      rcases member with earlier | rfl
      · exact holding.later callback (by rw [waiting]; exact earlier)
      · simpa [flagsOf] using holding.cleared (by rw [waiting]; exact List.cons_ne_nil _ _)
  · have elsewhere : th0 ≠ handle := fun same' => same (sole _ (same' ▸ found))
    have unchanged : s'.session.instances th0 = s.session.instances th0 := by rw [status, if_neg elsewhere]
    refine ⟨torrents, hashes, alive, ⟨regs', fired, ledger'⟩, fun waiting => ?_,
      fun freed => unchanged.trans (holding.frozen freed), fun waiting => ?_, ?_⟩
    · exact holding.registered (by rwa [pending hash, if_neg (Ne.symm same)] at waiting)
    · rw [unchanged]
      exact holding.cleared (by rwa [pending hash, if_neg (Ne.symm same)] at waiting)
    · rw [pending hash, if_neg (Ne.symm same)]
      exact holding.later

omit bound in
theorem Holding.checked (holding : Holding s0 hash th0 s) (th : Lt.TorrentHandle) :
    Holding s0 hash th0 (s.torrentChecked th) := by
  obtain ⟨registry, -, eq⟩ := torrentChecked_eq s th
  obtain ⟨regs, fired, ledger⟩ := holding.ledger
  obtain ⟨fired', ledger'⟩ := ledger.torrentChecked th
  have torrents : (s.torrentChecked th).torrents = s0.torrents := by rw [eq]; exact holding.torrents
  have hashes : ∀ other, ((s.torrentChecked th).session.instances other).infoHashes =
      (s0.session.instances other).infoHashes := by
    intro other
    rw [torrentChecked_instances, foldl_restoreOn_infoHashes, holding.hashes]
  have alive := (torrentChecked_alive s th).trans holding.alive
  by_cases same : hash = (s.session.instances th).infoHashes
  · have untouched : s0.session.isValid th0 = false →
        (s.torrentChecked th).session.instances th0 = s.session.instances th0 := fun freed => by
      have idle : pendingOf s hash = [] := by
        by_contra waiting
        rw [holding.registered waiting] at freed
        cases freed
      rw [torrentChecked_instances, ← same, idle]
      rfl
    refine ⟨torrents, hashes, alive, ⟨regs, fired', ledger'⟩, fun waiting => ?_,
      fun freed => (untouched freed).trans (holding.frozen freed), fun waiting => ?_, ?_⟩ <;>
      simp [pendingOf_torrentChecked, same] at *
  · have untouched : (s.torrentChecked th).session.instances th0 = s.session.instances th0 := by
      rw [torrentChecked_instances]
      refine foldl_restoreOn_unbound _ fun callback member bound' => same ?_
      rw [← ledger.pending_hash member]
      exact (sole _ (holding.torrents ▸ bound')).symm
    refine ⟨torrents, hashes, alive, ⟨regs, fired', ledger'⟩, fun waiting => ?_,
      fun freed => untouched.trans (holding.frozen freed), fun waiting => ?_, ?_⟩
    · exact holding.registered (by rwa [pendingOf_torrentChecked, if_neg same] at waiting)
    · rw [untouched]
      exact holding.cleared (by rwa [pendingOf_torrentChecked, if_neg same] at waiting)
    · rw [pendingOf_torrentChecked, if_neg same]
      exact holding.later

theorem Holding.apply (holding : Holding s0 hash th0 s) :
    ∀ step : CheckStep, Holding s0 hash th0 (step.apply s)
  | .recheck rechecked => by
    simp only [CheckStep.apply, Session.step]
    split
    · next checked => exact holding.recheck bound sole checked
    · exact holding
  | .checked th => by
    rcases CheckStep.apply_checked s th with handled | threw
    · rw [handled]; exact holding.checked sole th
    · rw [threw]; exact holding

theorem Holding.run (holding : Holding s0 hash th0 s) (steps : List CheckStep) :
    Holding s0 hash th0 (checkRun s steps) := by
  induction steps generalizing s with
  | nil => exact holding
  | cons step rest ih => exact ih (holding.apply bound sole step)

/-- Until a `torrent_checked` alert of `hash` arrives, the first pending callback stays first. -/
theorem Holding.keeps_first (holding : Holding s0 hash th0 s) {first : OneshotCallback}
    {rest : List OneshotCallback} (waiting : pendingOf s hash = first :: rest) {between : List CheckStep}
    (quiet : ∀ th, .checked th ∈ between → (s0.session.instances th).infoHashes ≠ hash) :
    ∃ rest', pendingOf (checkRun s between) hash = first :: rest' := by
  induction between generalizing s rest with
  | nil => exact ⟨rest, waiting⟩
  | cons step later ih =>
    have next : ∃ rest', pendingOf (step.apply s) hash = first :: rest' := by
      cases step with
      | recheck rechecked =>
        simp only [CheckStep.apply, Session.step]
        split
        · next checked =>
          obtain ⟨_, -, pending⟩ := pendingOf_recheck checked
          rw [pending]
          split
          · next same => subst same; exact ⟨_, by rw [waiting, List.cons_append]⟩
          · exact ⟨rest, waiting⟩
        · exact ⟨rest, waiting⟩
      | checked th =>
        have other : hash ≠ (s.session.instances th).infoHashes := by
          rw [holding.hashes]; exact Ne.symm (quiet th (List.mem_cons_self _ _))
        rcases CheckStep.apply_checked s th with handled | threw
        · exact ⟨rest, by rw [handled, ← waiting]; exact (pendingOf_torrentChecked s th hash).trans (if_neg other)⟩
        · exact ⟨rest, by rw [threw, waiting]⟩
    obtain ⟨rest', waiting'⟩ := next
    exact ih (holding.apply bound sole step) waiting' fun th member => quiet th (List.mem_cons_of_mem _ member)

end

theorem Holding.initial {s0 : Session} {hash : Lt.InfoHash} {th0 : Lt.TorrentHandle}
    (empty : s0.oneshotTorrentCallbacks = ∅) : Holding s0 hash th0 s0 :=
  ⟨rfl, fun _ => rfl, rfl, ⟨[], [], ledger_initial empty⟩, fun waiting => absurd (by simp [pendingOf, empty]) waiting,
    fun _ => rfl, fun waiting => absurd (by simp [pendingOf, empty]) waiting, by simp [pendingOf, empty]⟩

/-- `Recheck` gives back the flags it clears, for `hash` bound to `th0`. While
callbacks of `hash` are pending its torrent has both flags clear; and when the first
`Recheck(hash)` since the last firing is followed by any rechecks and checked alerts
of other hashes and then by a `torrent_checked` alert of `hash`, the flags are what
they were just before that first `Recheck`. -/
def RestoresFlags (s0 : Session) (hash : Lt.InfoHash) (th0 : Lt.TorrentHandle) : Prop :=
  (∀ steps, pendingOf (checkRun s0 steps) hash ≠ [] →
    flagsOf ((checkRun s0 steps).session.instances th0) = (false, false)) ∧
  ∀ before between th, pendingOf (checkRun s0 before) hash = [] →
    (∀ th', .checked th' ∈ between → (s0.session.instances th').infoHashes ≠ hash) →
    (s0.session.status th).map (·.infoHashes) = .ok hash →
    flagsOf ((checkRun s0 (before ++ .recheck hash :: between ++ [.checked th])).session.instances th0) =
      flagsOf ((checkRun s0 before).session.instances th0)

theorem recheck_restores_flags (s0 : Session) (hash : Lt.InfoHash) (th0 : Lt.TorrentHandle)
    (bound : s0.torrents.lookup hash = some th0)
    (sole : ∀ other, s0.torrents.lookup other = some th0 → other = hash)
    (empty : s0.oneshotTorrentCallbacks = ∅) : RestoresFlags s0 hash th0 := by
  have reachable := fun steps => (Holding.initial empty : Holding s0 hash th0 s0).run bound sole steps
  refine ⟨fun steps waiting => (reachable steps).cleared waiting,
    fun before between th idle quiet checked => ?_⟩
  obtain ⟨live, named⟩ := (Lt.Session.status_map_eq_ok _).mp checked
  have holding := reachable before
  cases valid0 : s0.session.isValid th0
  · rw [(reachable _).frozen valid0, holding.frozen valid0]
  have valid : (checkRun s0 before).session.isValid th0 = true := by
    rwa [Lt.Session.isValid, holding.alive]
  obtain ⟨s1, rechecked⟩ := recheck_ok (holding.torrents ▸ bound) valid
  obtain ⟨handle, found, pending⟩ := pendingOf_recheck rechecked
  obtain rfl : handle = th0 := Option.some_inj.mp (found.symm.trans (holding.torrents ▸ bound))
  have holding1 := holding.recheck bound sole rechecked
  obtain ⟨rest, waiting⟩ := holding1.keeps_first bound sole
    (by rw [pending, if_pos rfl, idle]; rfl) quiet
  have holding2 := holding1.run bound sole between
  obtain ⟨regs, fired, ledger⟩ := holding2.ledger
  have hashed : ((checkRun s1 between).session.instances th).infoHashes = hash := by rw [holding2.hashes, named]
  have fires : ((checkRun s1 between).oneshotTorrentCallbacks.lookup (.torrentChecked,
      ((checkRun s1 between).session.instances th).infoHashes)).getD [] = pendingOf (checkRun s1 between) hash := by
    rw [hashed]; rfl
  have handled : CheckStep.apply (checkRun s1 between) (.checked th) = (checkRun s1 between).torrentChecked th := by
    simp only [CheckStep.apply, dispatch_singleton, handleAlert_torrentChecked, fires]
    rw [if_pos ⟨by rwa [Lt.Session.isValid, holding2.alive], List.any_eq_false.mpr fun callback member => by
      rw [oneshotThrows, ledger.pending_hash member, holding2.torrents, bound]
      simp [Lt.Session.isValid, holding2.alive, show s0.session.alive _ = true from valid0]⟩]
  have unfolded : checkRun s0 (before ++ .recheck hash :: between ++ [.checked th]) =
      (checkRun s1 between).torrentChecked th := by
    have first : CheckStep.apply (checkRun s0 before) (.recheck hash) = s1 := by
      simp only [CheckStep.apply, Session.step, rechecked]
    simp only [checkRun, List.foldl_append, List.foldl_cons, List.foldl_nil] at first handled ⊢
    rw [first, handled]
  rw [unfolded, torrentChecked_instances, hashed, waiting, foldl_restoreOn_bound,
    List.foldl_cons, foldl_restored_clear]
  · have clear := holding2.cleared (by rw [waiting]; exact List.cons_ne_nil _ _)
    simp only [flagsOf, Prod.mk.injEq] at clear
    simp [flagsOf, restored, clear]
  · exact fun callback member => holding2.later callback (by rw [waiting]; exact member)
  · intro callback member
    rw [ledger.pending_hash (waiting ▸ member), holding2.torrents, bound]

theorem recheck_restores_flags_of_added :
    let s0 := (Session.create ⟨false, [], 0, 0⟩ (fun _ => none) ∅).step
      (.addTorrent ⟨⟨1, 0⟩, "t", "/data", true, true, true, ⟨[⟨"a", 1⟩], 1, Nat.one_pos⟩, default⟩)
    s0.torrents.lookup ⟨1, 0⟩ = some ⟨0⟩ ∧
      (∀ other, s0.torrents.lookup other = some ⟨0⟩ → other = ⟨1, 0⟩) ∧
      s0.oneshotTorrentCallbacks = ∅ ∧ RestoresFlags s0 ⟨1, 0⟩ ⟨0⟩ :=
  have sole : ∀ other, ((Session.create ⟨false, [], 0, 0⟩ (fun _ => none) ∅).step
      (.addTorrent ⟨⟨1, 0⟩, "t", "/data", true, true, true, ⟨[⟨"a", 1⟩], 1, Nat.one_pos⟩, default⟩)).torrents.lookup
        other = some ⟨0⟩ → other = ⟨1, 0⟩ := by
    intro other found
    by_contra different
    simp [Session.step, Session.addTorrent, Session.create, Lt.Session.addTorrent, Lt.Session.empty,
      Lt.Torrent.ofParams, lookup_mapInsert_ne different] at found
  ⟨by decide, sole, rfl, recheck_restores_flags _ _ _ (by decide) sole rfl⟩

/-- A callback registered on the first torrent of a hash sets `auto_managed` on a
torrent added under the hash after the first was removed, which was added without
it and never rechecked. -/
theorem recheck_callback_sets_readded_torrent :
    let s := (Session.create ⟨false, [], 0, 0⟩ (fun _ => none) ∅).run
      [.addTorrent ⟨⟨1, 0⟩, "t", "/data", true, false, true, ⟨[⟨"a", 1⟩], 1, Nat.one_pos⟩, default⟩,
        .recheck ⟨1, 0⟩, .remove ⟨1, 0⟩, .readAlerts,
        .addTorrent ⟨⟨1, 0⟩, "t", "/data", false, false, true, ⟨[⟨"a", 1⟩], 1, Nat.one_pos⟩, default⟩,
        .engine (.raise (.torrentChecked ⟨1⟩)), .readAlerts]
    s.torrents.lookup ⟨1, 0⟩ = some ⟨1⟩ ∧ (s.session.instances ⟨1⟩).autoManaged = true := by
  decide

/-- Over every run of the event loop from a session with no callback pending, a
`torrent_checked` dispatch changes no torrent but the one `m_torrents` binds the
alert's hash to at that moment, and none when the hash is unbound. -/
theorem checked_touches_only_bound_torrent (base : Session) (empty : base.oneshotTorrentCallbacks = ∅)
    (ops : List Op) (th other : Lt.TorrentHandle) :
    ((base.run ops).torrentChecked th).session.instances other ≠ (base.run ops).session.instances other →
      (base.run ops).torrents.lookup ((base.run ops).session.instances th).infoHashes = some other := by
  obtain ⟨regs, fired, ledger⟩ := (ledger_initial empty).run ops
  intro changed
  by_contra unbound
  refine changed ((torrentChecked_instances _ th other).trans (foldl_restoreOn_unbound _ ?_))
  intro callback member
  rwa [ledger.pending_hash member]

theorem checked_touches_only_bound_torrent_after_readd :
    (Session.create ⟨false, [], 0, 0⟩ (fun _ => none) ∅).oneshotTorrentCallbacks = ∅ ∧
      let s := (Session.create ⟨false, [], 0, 0⟩ (fun _ => none) ∅).run
        [.addTorrent ⟨⟨1, 0⟩, "t", "/data", true, false, true, ⟨[⟨"a", 1⟩], 1, Nat.one_pos⟩, default⟩,
          .recheck ⟨1, 0⟩, .remove ⟨1, 0⟩, .readAlerts]
      (s.torrentChecked ⟨0⟩).session.instances ⟨0⟩ ≠ s.session.instances ⟨0⟩ →
        s.torrents.lookup (s.session.instances ⟨0⟩).infoHashes = some ⟨0⟩ :=
  ⟨rfl, checked_touches_only_bound_torrent _ rfl _ ⟨0⟩ ⟨0⟩⟩

end Porla.Proofs.Recheck
