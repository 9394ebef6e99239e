import Porla.Proofs.Liveness

/-! Three views of the torrent set: the torrents the engine holds, the keys of
`m_torrents`, and the rows of the torrents table. `AddTorrent` adds to all three,
`Remove` drops the engine's torrent at once, and the `torrent_removed` handler drops
the other two when its alert is dispatched. They agree once every queued removal
has been handled, as long as no hash is added again while its removal is queued:
`std::map::insert` keeps the stale binding then, and the late handler erases the
new torrent's entry and row. -/

namespace Porla.Proofs.TorrentAgreement
open Porla Session Data.Models Liveness

/-- The hashes of the `torrent_removed` alerts in `alerts`. -/
def removals (alerts : List Lt.Alert) : List Lt.InfoHash :=
  alerts.filterMap fun
    | .torrentRemoved hash => some hash
    | _ => none

/-- The alerts the engine queues in these runs: removals and save results. -/
def bookkeeping : Lt.Alert → Bool
  | .torrentRemoved _ | .saveResumeData _ _ _ | .saveResumeDataFailed _ _ => true
  | _ => false

/-- The agreement: the engine's hashes, the keys of `m_torrents` and the hashes with
a row are the same, and `m_torrents` binds each to the engine's handle. -/
def Agreement (s : Session) : Prop :=
  (∀ hash, hash ∈ s.session.torrents ↔ hash ∈ s.torrents) ∧
    (∀ hash, hash ∈ s.torrents ↔ hash ∈ s.db) ∧
    ∀ hash, s.torrents.lookup hash = s.session.torrents.lookup hash

/-- Removing a torrent and adding it again before its `torrent_removed` alert is
dispatched: once the queue is drained the engine holds the torrent, and neither
`m_torrents` nor the table has it. -/
theorem agreement_lost_on_readd :
    let s := (Session.create ⟨false, [], 0, 0⟩ (fun _ => none) ∅).run
      [.addTorrent ⟨⟨1, 0⟩, "t", "/data", true, false, true, ⟨[⟨"a", 1⟩], 1, Nat.one_pos⟩, default⟩,
        .remove ⟨1, 0⟩,
        .addTorrent ⟨⟨1, 0⟩, "t", "/data", true, false, true, ⟨[⟨"a", 1⟩], 1, Nat.one_pos⟩, default⟩,
        .readAlerts]
    s.session.alerts = [] ∧ ⟨1, 0⟩ ∈ s.session.torrents ∧ ⟨1, 0⟩ ∉ s.torrents ∧ ⟨1, 0⟩ ∉ s.db :=
  ⟨rfl, by decide, by decide, by decide⟩

/-- The steps of these runs: `AddTorrent`, `Remove`, drains and the engine's answers
to save requests, with no hash added while its `torrent_removed` alert is queued.
`Load` runs first, on its own. -/
def Allowed (s : Session) : Op → Prop
  | .addTorrent params => params.infoHashes ∉ removals s.session.alerts
  | .remove _ | .readAlerts | .engine (.answer _ _) => True
  | _ => False

def Guarded : Session → List Op → Prop
  | _, [] => True
  | s, op :: ops => Allowed s op ∧ Guarded (s.step op) ops

/-- `m_torrents` has the engine's bindings, and binds each key to a handle whose
instance carries the key. -/
structure Bindings (engine : Lt.Session) (torrents : AList (fun _ : Lt.InfoHash => Lt.TorrentHandle)) :
    Prop where
  bound : ∀ hash th, engine.torrents.lookup hash = some th → torrents.lookup hash = some th
  named : ∀ hash th, torrents.lookup hash = some th →
    (engine.instances th).infoHashes = hash ∧ th.id < engine.nextHandle

section
variable {engine : Lt.Session} {torrents : AList (fun _ : Lt.InfoHash => Lt.TorrentHandle)}

theorem Bindings.add {params : Lt.AddTorrentParams} {handle : Lt.TorrentHandle} {engine' : Lt.Session}
    (bindings : Bindings engine torrents) (added : engine.addTorrent params = .ok (handle, engine')) :
    Bindings engine' (torrents.insert params.infoHashes handle) := by
  obtain ⟨-, rfl, rfl⟩ := Lt.Session.addTorrent_eq _ added
  refine ⟨fun hash th found => ?_, fun hash th found => ?_⟩ <;> dsimp only at found ⊢
  · by_cases same : hash = params.infoHashes
    · subst same
      rw [AList.lookup_insert] at found ⊢
      exact found
    · rw [AList.lookup_insert_ne same] at found ⊢
      exact bindings.bound hash th found
  · by_cases same : hash = params.infoHashes
    · subst same
      rw [AList.lookup_insert, Option.some_inj] at found
      subst found
      simp [Lt.Torrent.ofParams]
    · rw [AList.lookup_insert_ne same] at found
      obtain ⟨named, below⟩ := bindings.named hash th found
      have older : th ≠ ⟨engine.nextHandle⟩ := fun same' => by
        rw [same'] at below
        exact Nat.lt_irrefl _ below
      exact ⟨by simpa [Function.update_noteq older] using named, by omega⟩

theorem Bindings.of_same {engine' : Lt.Session} (bindings : Bindings engine torrents)
    (held : engine'.torrents = engine.torrents) (next : engine'.nextHandle = engine.nextHandle)
    (hashes : ∀ th, (engine'.instances th).infoHashes = (engine.instances th).infoHashes) :
    Bindings engine' torrents :=
  ⟨by simpa only [held] using bindings.bound, by simpa only [hashes, next] using bindings.named⟩

theorem Bindings.drop (bindings : Bindings engine torrents) (hash : Lt.InfoHash) (alerts : List Lt.Alert) :
    Bindings { engine with torrents := engine.torrents.erase hash, alerts := alerts } torrents := by
  refine ⟨fun other th found => ?_, bindings.named⟩
  by_cases same : other = hash
  · rw [same] at found
    simp [AList.lookup_erase] at found
  · exact bindings.bound other th ((AList.lookup_erase_ne same).symm.trans found)

theorem Bindings.forget (bindings : Bindings engine torrents) {hash : Lt.InfoHash}
    (gone : hash ∉ engine.torrents) : Bindings engine (torrents.erase hash) := by
  refine ⟨fun other th found => ?_, fun other th found => ?_⟩
  · have different : other ≠ hash := by
      rintro rfl
      exact gone (AList.lookup_isSome.mp (by simp [found]))
    exact (AList.lookup_erase_ne different).trans (bindings.bound other th found)
  · by_cases same : other = hash
    · rw [same, AList.lookup_erase] at found
      cases found
    · exact bindings.named other th ((AList.lookup_erase_ne same).symm.trans found)

end

/-- What holds between and within the steps; `pending` are the alerts popped by
the drain and not yet handled. A hash the engine holds is bound in `m_torrents`
unless its removal is queued, and `m_torrents` and the table have the same keys. -/
structure Agree (s : Session) (pending : List Lt.Alert) : Prop where
  held : ∀ hash, hash ∈ s.session.torrents ↔ hash ∈ s.torrents ∧ hash ∉ removals (pending ++ s.session.alerts)
  stored : ∀ hash, hash ∈ s.torrents ↔ hash ∈ s.db
  bindings : Bindings s.session s.torrents

@[simp] theorem removals_nil : removals [] = [] := rfl

@[simp] theorem removals_append (alerts alerts' : List Lt.Alert) :
    removals (alerts ++ alerts') = removals alerts ++ removals alerts' :=
  List.filterMap_append _ _ _

@[simp] theorem removals_cons_removed (hash : Lt.InfoHash) (alerts : List Lt.Alert) :
    removals (.torrentRemoved hash :: alerts) = hash :: removals alerts := rfl

theorem removals_cons_of_ne {alert : Lt.Alert} (other : ∀ hash, alert ≠ .torrentRemoved hash)
    (alerts : List Lt.Alert) : removals (alert :: alerts) = removals alerts := by
  cases alert <;> first | rfl | exact absurd rfl (other _)

theorem removals_append_saves (alerts : List Lt.Alert) {added : List Lt.Alert}
    (saves : ∀ alert ∈ added, ∀ hash, alert ≠ .torrentRemoved hash) :
    removals (alerts ++ added) = removals alerts := by
  simp only [removals, List.filterMap_append, List.append_right_eq_self, List.filterMap_eq_nil_iff]
  intro alert member
  cases alert <;> first | rfl | exact absurd rfl (saves _ member _)

section
variable {s : Session} {pending : List Lt.Alert}

/-- A handler that returns keeps the agreement: only `torrent_removed` unbinds a hash
and drops its row, and its hash is no longer the engine's. -/
theorem Agree.handle {alert : Lt.Alert} {s' : Session} (agree : Agree s (alert :: pending))
    (handled : s.handleAlert alert = .ok s') : Agree s' pending := by
  have frame := handleAlert_frame handled
  by_cases removal : ∃ hash, alert = .torrentRemoved hash
  · obtain ⟨hash, rfl⟩ := removal
    obtain ⟨-, rfl⟩ := handled_of_ok handled
    have gone : hash ∉ s.session.torrents := fun held => by simpa using ((agree.held hash).mp held).2
    refine ⟨fun other => ?_, fun other => ?_, agree.bindings.forget gone⟩
    · have old := agree.held other
      simp only [List.cons_append, removals_cons_removed, List.mem_cons, not_or] at old
      simp only [AList.mem_erase, old]
      exact ⟨fun ⟨held, ne, fresh⟩ => ⟨⟨ne, held⟩, fresh⟩, fun ⟨⟨ne, held⟩, fresh⟩ => ⟨held, ne, fresh⟩⟩
    · simp [AddTorrentParams.remove, agree.stored other]
  · obtain ⟨torrents, keys⟩ := frame.kept fun hash same => removal ⟨hash, same⟩
    refine ⟨fun hash => ?_, fun hash => by rw [keys, torrents, agree.stored], torrents ▸ agree.bindings.of_same
      frame.commands.torrents frame.commands.nextHandle frame.commands.hashes⟩
    have old := agree.held hash
    rwa [List.cons_append, removals_cons_of_ne fun hash same => removal ⟨hash, same⟩, ← frame.commands.alerts,
      ← frame.commands.torrents, ← torrents] at old

theorem Agree.dispatch (agree : Agree s pending) (returns : (s.dispatch pending).2 = none) :
    Agree (s.dispatch pending).1 [] := by
  induction pending generalizing s with
  | nil => exact agree
  | cons alert rest ih =>
    cases handled : s.handleAlert alert with
    | error => rw [Session.dispatch, handled] at returns; cases returns
    | ok s' =>
      rw [Session.dispatch, handled] at returns ⊢
      exact ih (agree.handle handled) returns

theorem Agree.react (agree : Agree s []) (event : Lt.Session.Event) :
    Agree { s with session := s.session.react event } [] := by
  have reacts := s.session.reacts event
  obtain ⟨added, queued, new⟩ := reacts.queued
  have unremoved : removals (s.session.react event).alerts = removals s.session.alerts := by
    refine queued ▸ removals_append_saves _ fun alert member hash removed => ?_
    subst removed
    rcases new _ member with ⟨_, -, result | result⟩ | ⟨spontaneous, -⟩
    · cases result
    · cases result
    · cases spontaneous
  exact ⟨fun hash => by simpa only [List.nil_append, reacts.torrents, unremoved] using agree.held hash,
    agree.stored, agree.bindings.of_same reacts.torrents reacts.nextHandle reacts.hashes⟩

/-- What a step needs for the agreement to survive it: no hash is added while its
removal is queued, and a drain hands every alert to its handler. `Load` and `Recheck`
are not among the steps. -/
def Keeps (s : Session) : Op → Prop
  | .addTorrent params => params.infoHashes ∉ removals s.session.alerts
  | .remove _ | .engine _ => True
  | .readAlerts => s.readAlerts.2 = none
  | .load | .recheck _ => False

theorem Agree.step (agree : Agree s []) : ∀ {op : Op}, Keeps s op → Agree (s.step op) []
  | .addTorrent params, fresh => by
    have fresh : params.infoHashes ∉ removals s.session.alerts := fresh
    refine step_addTorrent (P := (Agree · [])) agree fun added returned => ?_
    cases accepted : s.session.addTorrent params with
    | error =>
      simp only [Session.addTorrent, accepted, Option.some_inj] at returned
      rwa [← returned]
    | ok result =>
      obtain ⟨th, engine⟩ := result
      obtain ⟨engine', row, events, eq, torrents, alerts, next, -, -, hashes⟩ := addTorrent_accepted accepted returned
      obtain ⟨free, -, rfl⟩ := Lt.Session.addTorrent_eq _ accepted
      have unbound : params.infoHashes ∉ s.torrents := fun bound =>
        free ((agree.held _).mpr ⟨bound, by simpa using fresh⟩)
      rw [eq, mapInsert_of_not_mem _ unbound]
      refine ⟨fun other => ?_, fun other => ?_, (agree.bindings.add accepted).of_same torrents next hashes⟩
      · have old := agree.held other
        simp only [List.nil_append] at old ⊢
        simp only [torrents, alerts, AList.mem_insert]
        by_cases same : other = params.infoHashes
        · subst same; simp [fresh]
        · simp [same, old]
      · simp [AList.mem_insert, agree.stored other]
  | .remove hash, _ => by
    simp only [Session.step]
    split
    · next removed =>
      obtain ⟨th, engine, found, valid, rfl⟩ := remove_eq removed
      obtain ⟨-, rfl⟩ := Lt.Session.removeTorrent_eq _ valid
      have named : (s.session.instances th).infoHashes = hash := (agree.bindings.named hash th found).1
      refine ⟨fun other => ?_, agree.stored, agree.bindings.drop _ _⟩
      have old := agree.held other
      simp only [named, List.nil_append, removals_append, removals_cons_removed, removals_nil] at old ⊢
      simp only [AList.mem_erase, old, List.mem_append, List.mem_singleton, not_or]
      exact ⟨fun ⟨ne, held, fresh⟩ => ⟨held, fresh, ne⟩, fun ⟨held, fresh, ne⟩ => ⟨ne, held, fresh⟩⟩
    · exact agree
  | .readAlerts, returns =>
    Agree.dispatch ⟨fun hash => by simpa only [Lt.Session.popAlerts, List.append_nil] using agree.held hash,
      agree.stored, agree.bindings.of_same rfl rfl fun _ => rfl⟩ returns
  | .engine event, _ => agree.react event

/-- The alerts queued in these runs are removals and save results. -/
def Bookkeeping (s : Session) : Prop := ∀ alert ∈ s.session.alerts, bookkeeping alert

theorem readAlerts_returns_of_bookkeeping (live : Live s) (books : Bookkeeping s) : s.readAlerts.2 = none :=
  dispatch_returns (P := fun _ => True)
    (Q := fun s alert => bookkeeping alert ∧ ∀ th ∈ alert.handle, s.session.isValid th = true)
    (fun {s alert} _ ⟨kind, named⟩ => by
      obtain ⟨s', handled⟩ : ∃ s', s.handleAlert alert = .ok s' := by
        cases alert <;> first
          | exact ⟨_, rfl⟩
          | exact ⟨_, by rw [Session.handleAlert, Lt.Session.status_of_valid _ (named _ rfl), ok_bind]; rfl⟩
          | simp [bookkeeping] at kind
      have alive := (handleAlert_frame handled).commands.alive
      exact ⟨s', handled, trivial, fun _ ⟨kind, named⟩ =>
        ⟨kind, fun th member => by rw [Lt.Session.isValid, alive]; exact named th member⟩⟩)
    trivial fun alert member => ⟨books alert member, live.queued alert member⟩

theorem Bookkeeping.step (books : Bookkeeping s) : ∀ {op : Op}, Allowed s op → Bookkeeping (s.step op)
  | .addTorrent params, _ => step_addTorrent (P := Bookkeeping) books fun _ returned alert member =>
    books alert (by rwa [addTorrent_alerts returned] at member)
  | .remove hash, _ => by
    simp only [Session.step]
    split
    · next removed =>
      obtain ⟨th, engine, -, valid, rfl⟩ := remove_eq removed
      obtain ⟨-, rfl⟩ := Lt.Session.removeTorrent_eq _ valid
      intro alert member
      rcases List.mem_append.mp member with old | removal
      · exact books alert old
      · rw [List.mem_singleton.mp removal]; rfl
    · exact books
  | .readAlerts, _ => fun alert member => by
    have popped : (s.step .readAlerts).session.alerts = [] :=
      dispatch_preserves (P := fun s => s.session.alerts = []) (Q := fun _ => True)
        (fun empty _ handled => (handleAlert_frame handled).commands.alerts.trans empty) rfl (fun _ _ => trivial)
    rw [popped] at member
    cases member
  | .engine (.answer position succeeded), _ => fun alert member => by
    obtain ⟨requests, added, eq, saves⟩ := s.session.react_answer position succeeded
    simp only [Session.step, eq, List.mem_append] at member
    rcases member with old | new
    · exact books alert old
    · obtain ⟨_, _, result | result⟩ := saves alert new <;> (rw [result]; rfl)
  | .engine (.download _ _), impossible | .engine (.raise _), impossible | .engine (.release _), impossible
  | .load, impossible | .recheck _, impossible => impossible.elim

theorem load_bookkeeping (options : SessionOptions) (parse : String → Option MediaInfoContainer)
    (db : TorrentsTable) : Bookkeeping ((Session.create options parse db).step .load) := fun alert member => by
  rw [Session.step, Session.load, loadRows_alerts] at member
  cases member

theorem freesUnnamed_of_allowed : ∀ {op : Op}, Allowed s op → FreesUnnamed s op
  | .engine (.release _), impossible => impossible.elim
  | .load, _ | .addTorrent _, _ | .remove _, _ | .recheck _, _ | .readAlerts, _ | .engine (.answer _ _), _
  | .engine (.download _ _), _ | .engine (.raise _), _ => trivial

theorem keeps_of_allowed (live : Live s) (books : Bookkeeping s) : ∀ {op : Op}, Allowed s op → Keeps s op
  | .addTorrent _, fresh => fresh
  | .remove _, _ | .engine _, _ => trivial
  | .readAlerts, _ => readAlerts_returns_of_bookkeeping live books
  | .load, impossible | .recheck _, impossible => impossible.elim

theorem Agree.run (agree : Agree s []) (live : Live s) (books : Bookkeeping s) {ops : List Op}
    (guarded : Guarded s ops) : Agree (s.run ops) [] := by
  induction ops generalizing s with
  | nil => exact agree
  | cons op rest ih =>
    exact ih (agree.step (keeps_of_allowed live books guarded.1)) (live.step (freesUnnamed_of_allowed guarded.1))
      (books.step guarded.1) guarded.2

theorem Agree.agreement (agree : Agree s []) (drained : s.session.alerts = []) : Agreement s := by
  have held : ∀ hash, hash ∈ s.session.torrents ↔ hash ∈ s.torrents := fun hash => by
    simpa [drained] using agree.held hash
  refine ⟨held, agree.stored, fun hash => ?_⟩
  cases found : s.session.torrents.lookup hash with
  | none =>
    rw [AList.lookup_eq_none] at found ⊢
    exact fun bound => found ((held hash).mpr bound)
  | some th => exact agree.bindings.bound hash th found

end

/-- `Load` with the rows `rest` still to visit: the torrents added so far are those
of the rows visited, and the rows left carry their own, distinct hashes. -/
structure Loading (db : TorrentsTable) (rest : List (Σ _ : Lt.InfoHash, AddTorrentParams)) (s : Session) :
    Prop where
  table : s.db = db
  quiet : s.session.alerts = []
  held : ∀ hash, hash ∈ s.session.torrents ↔ hash ∈ s.torrents
  visited : ∀ hash, hash ∈ s.torrents ↔ hash ∈ db ∧ hash ∉ rest.keys
  bindings : Bindings s.session s.torrents
  keyed : ∀ entry ∈ rest, entry.2.params.infoHashes = entry.1 ∧ entry.1 ∈ db
  distinct : rest.keys.Nodup

theorem Loading.loadRows {db : TorrentsTable} :
    ∀ {rest s}, Loading db rest s → Agree (s.loadRows (rest.map (·.2.params))).1 []
  | [], s, loading =>
    show Agree s [] from ⟨fun hash => by simpa [loading.quiet] using loading.held hash,
      fun hash => by simpa [loading.table] using loading.visited hash, loading.bindings⟩
  | entry :: rest, s, loading => by
    obtain ⟨own, listed⟩ := loading.keyed entry (List.mem_cons_self _ _)
    obtain ⟨first, distinct⟩ := List.nodup_cons.mp loading.distinct
    have unbound : entry.1 ∉ s.torrents := fun bound => ((loading.visited _).mp bound).2 (by simp)
    have free : entry.2.params.infoHashes ∉ s.session.torrents := own ▸ fun held =>
      unbound ((loading.held _).mp held)
    cases added : s.session.addTorrent entry.2.params with
    | error => simp [Lt.Session.addTorrent, free] at added
    | ok result =>
      obtain ⟨th, engine⟩ := result
      have hashOf : (engine.instances th).infoHashes = entry.1 := by
        obtain ⟨-, rfl, rfl⟩ := Lt.Session.addTorrent_eq _ added
        simp [Lt.Torrent.ofParams, own]
      simp only [List.map_cons, Session.loadRows, added, hashOf]
      rw [mapInsert_of_not_mem _ unbound]
      refine Loading.loadRows ⟨loading.table, by simpa [Lt.Session.addTorrent_eq _ added] using loading.quiet,
        fun hash => ?_, fun hash => ?_, own ▸ loading.bindings.add added,
        fun entry' member => loading.keyed entry' (List.mem_cons_of_mem _ member), distinct⟩
      · obtain ⟨-, -, rfl⟩ := Lt.Session.addTorrent_eq _ added
        simp [AList.mem_insert, loading.held hash, own]
      · have old := loading.visited hash
        simp only [List.keys_cons, List.mem_cons, not_or] at old
        by_cases same : hash = entry.1
        · subst same
          simp only [AList.mem_insert, true_or, true_iff]
          exact ⟨listed, first⟩
        · simp [AList.mem_insert, same, old]

theorem agree_load (options : SessionOptions) (parse : String → Option MediaInfoContainer)
    (db : TorrentsTable) (keyed : ∀ hash row, db.lookup hash = some row → row.params.infoHashes = hash) :
    Agree ((Session.create options parse db).step .load) [] := by
  refine Loading.loadRows (show Loading db db.entries (Session.create options parse db) from
    ⟨rfl, rfl, fun _ => by simp [Session.create, Lt.Session.empty],
      fun hash => ⟨fun bound => by simp [Session.create] at bound, fun ⟨member, notKey⟩ => absurd member notKey⟩,
      ⟨fun _ _ found => by simp [Session.create, Lt.Session.empty] at found,
        fun _ _ found => by simp [Session.create] at found⟩,
      fun entry member => ⟨keyed _ _ (AList.mem_lookup_iff.mpr member), List.mem_keys_of_mem member⟩,
      db.nodupKeys⟩)

/-- The agreement holds in every drained state of a run that loads a table whose
rows carry their own hash and then never adds a hash while its `torrent_removed`
alert is queued. -/
theorem agreement_when_drained (options : SessionOptions) (parse : String → Option MediaInfoContainer)
    (db : TorrentsTable) (keyed : ∀ hash row, db.lookup hash = some row → row.params.infoHashes = hash)
    (ops : List Op) (guarded : Guarded ((Session.create options parse db).step .load) ops)
    (drained : (((Session.create options parse db).step .load).run ops).session.alerts = []) :
    Agreement (((Session.create options parse db).step .load).run ops) :=
  ((agree_load options parse db keyed).run Live.load
    (load_bookkeeping options parse db) guarded).agreement drained

theorem keyed_singleton {hash : Lt.InfoHash} {row : AddTorrentParams} (own : row.params.infoHashes = hash) :
    ∀ other found, ((∅ : TorrentsTable).insert hash row).lookup other = some found →
      found.params.infoHashes = other := by
  intro other found present
  by_cases same : other = hash
  · subst same
    rw [AList.lookup_insert, Option.some.injEq] at present
    exact present ▸ own
  · rw [AList.lookup_insert_ne same, AList.lookup_empty] at present
    cases present

theorem agreement_after_load_and_remove :
    let db : TorrentsTable := (∅ : TorrentsTable).insert ⟨1, 0⟩
      ⟨default, "t", ⟨⟨1, 0⟩, "t", "/data", true, false, true, ⟨[⟨"a", 1⟩], 1, Nat.one_pos⟩, default⟩, 0, "/data"⟩
    let s := (Session.create ⟨false, [], 0, 0⟩ (fun _ => none) db).step .load
    (∀ hash row, db.lookup hash = some row → row.params.infoHashes = hash) ∧
      Guarded s [.remove ⟨1, 0⟩, .readAlerts] ∧ (s.run [.remove ⟨1, 0⟩, .readAlerts]).session.alerts = [] ∧
      Agreement (s.run [.remove ⟨1, 0⟩, .readAlerts]) :=
  ⟨keyed_singleton rfl, ⟨trivial, trivial, trivial⟩, rfl,
    agreement_when_drained _ _ _ (keyed_singleton rfl) _ ⟨trivial, trivial, trivial⟩ rfl⟩

end Porla.Proofs.TorrentAgreement
