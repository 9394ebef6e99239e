import Porla.Proofs.DrainSafety
import Porla.Proofs.Shutdown

/-! The table the session writes is the table it reads back. Every row carries, in
its add parameters, the hash it is stored under: `AddTorrent` writes the parameters
it was given under their own hash, and a save result, handled by `ReadAlerts` or by
the destructor, writes the resume data of the torrent whose hash keys the row. This
needs the engine to name in its alerts only torrents it has created, as it does: a
save result names a torrent with a pending request, and a raised alert one whose
object exists. A handle issued after a save was asked for it would give the older
result a new hash. A table so keyed loads into a new session without an exception,
each row becoming the torrent it describes. -/

namespace Porla.Proofs.Restart
open Porla Session Data.Models Liveness

/-- Every row carries, in its add parameters, the hash it is stored under. -/
def KeyedTable (db : TorrentsTable) : Prop :=
  ∀ hash row, db.lookup hash = some row → row.params.infoHashes = hash

/-- A save result whose handle was issued and whose add parameters carry the hash of
that handle's instance. -/
def Stamped (engine : Lt.Session) : Lt.Alert → Prop
  | .saveResumeData th params _ => th.id < engine.nextHandle ∧ params.infoHashes = (engine.instances th).infoHashes
  | _ => True

/-- The engine's bindings, live torrents and pending save requests name issued
handles, and every queued save result is stamped. -/
structure Issued (engine : Lt.Session) : Prop where
  held : ∀ hash th, engine.torrents.lookup hash = some th → th.id < engine.nextHandle
  alive : ∀ th, engine.isValid th = true → th.id < engine.nextHandle
  requested : ∀ request ∈ engine.saveRequests, request.1.id < engine.nextHandle
  stamped : ∀ alert ∈ engine.alerts, Stamped engine alert

/-- Every queued alert names an issued handle. -/
def Named (engine : Lt.Session) : Prop :=
  ∀ alert ∈ engine.alerts, ∀ th ∈ alert.handle, th.id < engine.nextHandle

/-- The invariant of the run: the table is keyed, and the engine issued every handle
it names. -/
structure Keyed (s : Session) : Prop where
  table : KeyedTable s.db
  issued : Issued s.session
  named : Named s.session

/-- The engine only issues handles: an issued instance keeps its hash. -/
structure Grows (engine engine' : Lt.Session) : Prop where
  next : engine.nextHandle ≤ engine'.nextHandle
  hashes : ∀ th : Lt.TorrentHandle, th.id < engine.nextHandle →
    (engine'.instances th).infoHashes = (engine.instances th).infoHashes

theorem Stamped.grow {engine engine' : Lt.Session} {alert : Lt.Alert} (stamped : Stamped engine alert)
    (grows : Grows engine engine') : Stamped engine' alert := by
  cases alert
  case saveResumeData th params request =>
    exact ⟨Nat.lt_of_lt_of_le stamped.1 grows.next, stamped.2.trans (grows.hashes th stamped.1).symm⟩
  all_goals trivial

section Commands
variable {engine engine' : Lt.Session} {th : Option Lt.TorrentHandle}

theorem Grows.of_commands (commands : Lt.Session.Commands engine engine' th) : Grows engine engine' :=
  ⟨commands.nextHandle.ge, fun other _ => commands.hashes other⟩

theorem Issued.commands (issued : Issued engine) (commands : Lt.Session.Commands engine engine' th)
    (named : ∀ handle ∈ th, handle.id < engine.nextHandle) : Issued engine' :=
  ⟨fun hash handle found => commands.nextHandle ▸ issued.held hash handle (commands.torrents ▸ found),
    fun handle valid => commands.nextHandle ▸ issued.alive handle (by rwa [Lt.Session.isValid, ← commands.alive]),
    fun request member => commands.nextHandle ▸
      (commands.requests request member).elim (issued.requested request) fun mine => named request.1 mine.symm,
    fun alert member => (issued.stamped alert (commands.alerts ▸ member)).grow (.of_commands commands)⟩

theorem Named.commands (named : Named engine) (commands : Lt.Session.Commands engine engine' th) : Named engine' :=
  fun alert member handle names => commands.nextHandle ▸ named alert (commands.alerts ▸ member) handle names

theorem Named.grow (named : Named engine) (grows : Grows engine engine') (alerts : engine'.alerts = engine.alerts) :
    Named engine' :=
  fun alert member handle names => Nat.lt_of_lt_of_le (named alert (alerts ▸ member) handle names) grows.next

end Commands

section
variable {s s' : Session}

theorem Keyed.handleAlert (keyed : Keyed s) {alert : Lt.Alert}
    (named : ∀ th ∈ alert.handle, th.id < s.session.nextHandle) (stamped : Stamped s.session alert)
    (handled : s.handleAlert alert = .ok s') : Keyed s' ∧ Lt.Session.Commands s.session s'.session alert.handle := by
  have frame := handleAlert_frame handled
  refine ⟨⟨fun hash row found => ?_, keyed.issued.commands frame.commands named, keyed.named.commands frame.commands⟩,
    frame.commands⟩
  rcases frame.rows hash row found with old | ⟨th, params, request, rfl, rfl, rfl⟩
  · exact keyed.table hash row old
  · exact stamped.2

/-- The alerts popped and not yet handled name issued handles, and their save results
are stamped. -/
def Pending (engine : Lt.Session) (alerts : List Lt.Alert) : Prop :=
  ∀ alert ∈ alerts, (∀ th ∈ alert.handle, th.id < engine.nextHandle) ∧ Stamped engine alert

theorem Keyed.dispatch : ∀ {alerts : List Lt.Alert} {s : Session}, Keyed s → Pending s.session alerts →
    Keyed (s.dispatch alerts).1
  | [], _, keyed, _ => keyed
  | alert :: rest, s, keyed, pending => by
    unfold Session.dispatch
    split
    · next s' handled =>
      obtain ⟨named, stamped⟩ := pending alert (List.mem_cons_self _ _)
      obtain ⟨keyed', commands⟩ := keyed.handleAlert named stamped handled
      refine Keyed.dispatch keyed' fun other member => ?_
      obtain ⟨names, stamp⟩ := pending other (List.mem_cons_of_mem _ member)
      exact ⟨fun th named' => commands.nextHandle ▸ names th named', stamp.grow (.of_commands commands)⟩
    · exact keyed

theorem Keyed.readAlerts (keyed : Keyed s) : Keyed s.readAlerts.1 :=
  Keyed.dispatch ⟨keyed.table, ⟨keyed.issued.held, keyed.issued.alive, keyed.issued.requested,
    fun _ member => absurd member (List.not_mem_nil _)⟩, fun _ member => absurd member (List.not_mem_nil _)⟩
    fun alert member => ⟨keyed.named alert member, keyed.issued.stamped alert member⟩

theorem Issued.add {engine engine' : Lt.Session} {params : Lt.AddTorrentParams} {th : Lt.TorrentHandle}
    (issued : Issued engine) (added : engine.addTorrent params = .ok (th, engine')) :
    Issued engine' ∧ Grows engine engine' ∧ engine'.alerts = engine.alerts ∧ th.id < engine'.nextHandle := by
  obtain ⟨-, rfl, rfl⟩ := Lt.Session.addTorrent_eq _ added
  have grows : Grows engine { engine with
      torrents := engine.torrents.insert params.infoHashes ⟨engine.nextHandle⟩
      instances := Function.update engine.instances ⟨engine.nextHandle⟩ (Lt.Torrent.ofParams params)
      alive := Function.update engine.alive ⟨engine.nextHandle⟩ true
      nextHandle := engine.nextHandle + 1 } :=
    ⟨Nat.le_succ _, fun other older => congrArg Lt.Torrent.infoHashes
      (Function.update_noteq (fun same => Nat.lt_irrefl _ (same ▸ older)) _ _)⟩
  refine ⟨⟨fun hash handle found => ?_, fun handle valid => ?_,
    fun request member => Nat.lt_succ_of_lt (issued.requested request member),
    fun alert member => (issued.stamped alert member).grow grows⟩, grows, rfl, Nat.lt_succ_self _⟩
  · by_cases same : hash = params.infoHashes
    · subst same
      rw [AList.lookup_insert] at found
      cases found
      exact Nat.lt_succ_self _
    · rw [AList.lookup_insert_ne same] at found
      exact Nat.lt_succ_of_lt (issued.held hash handle found)
  · by_cases same : handle = ⟨engine.nextHandle⟩
    · subst same
      exact Nat.lt_succ_self _
    · exact Nat.lt_succ_of_lt (issued.alive handle (by simpa [Lt.Session.isValid, same] using valid))

theorem Keyed.loadRows : ∀ {rows : List Lt.AddTorrentParams} {s : Session}, Keyed s → Keyed (s.loadRows rows).1
  | [], _, keyed => keyed
  | params :: rest, s, keyed => by
    unfold Session.loadRows
    split
    · exact keyed
    · next th engine added =>
      obtain ⟨issued, grows, alerts, -⟩ := keyed.issued.add added
      exact Keyed.loadRows ⟨keyed.table, issued, keyed.named.grow grows alerts⟩

theorem Keyed.addTorrent (keyed : Keyed s) {params : Lt.AddTorrentParams} {added : Session × Lt.InfoHash}
    (returned : s.addTorrent params = some added) : Keyed added.1 := by
  cases accepted : s.session.addTorrent params with
  | error =>
    simp only [Session.addTorrent, accepted, Option.some_inj] at returned
    rwa [← returned]
  | ok result =>
    obtain ⟨th, engine⟩ := result
    obtain ⟨issued, grows, alerts, fresh⟩ := keyed.issued.add accepted
    obtain ⟨engine', row, events, eq, torrents, alerts', next, alive, requests, hashes⟩ :=
      addTorrent_accepted accepted returned
    have commands : Lt.Session.Commands engine added.1.session (some th) := by
      rw [eq]
      refine ⟨torrents, alerts', alive, next, hashes, fun request member => ?_⟩
      rw [requests] at member
      exact (List.mem_append.mp member).imp_right fun new => by rw [List.mem_singleton.mp new]
    refine ⟨fun hash row found => ?_, issued.commands commands fun handle mine => Option.mem_some_iff.mp mine ▸ fresh,
      (keyed.named.grow grows alerts).commands commands⟩
    rw [addTorrent_db returned, if_neg (Lt.Session.addTorrent_eq _ accepted).1, AddTorrentParams.insert] at found
    by_cases same : hash = params.infoHashes
    · subst same
      rw [lookup_mapInsert_self] at found
      cases old : s.db.lookup params.infoHashes with
      | none => rw [old, Option.getD_none] at found; cases found; rfl
      | some row' => rw [old, Option.getD_some] at found; cases found; exact keyed.table _ _ old
    · rw [lookup_mapInsert_ne same] at found
      exact keyed.table hash row found

theorem Issued.react {engine : Lt.Session} (issued : Issued engine) (event : Lt.Session.Event) :
    Issued (engine.react event) ∧ Grows engine (engine.react event) := by
  have reacts := engine.reacts event
  obtain ⟨added, queued, new⟩ := reacts.queued
  have grows : Grows engine (engine.react event) := ⟨reacts.nextHandle.ge, fun th _ => reacts.hashes th⟩
  refine ⟨⟨fun hash th found => reacts.nextHandle ▸ issued.held hash th (reacts.torrents ▸ found),
    fun th valid => reacts.nextHandle ▸ issued.alive th (reacts.alive th valid),
    fun request member => reacts.nextHandle ▸ issued.requested request (reacts.requests request member),
    fun alert member => ?_⟩, grows⟩
  rw [queued] at member
  rcases List.mem_append.mp member with old | added
  · exact (issued.stamped alert old).grow grows
  rcases new alert added with ⟨request, pending, rfl | rfl⟩ | ⟨spontaneous, -⟩
  · exact ⟨reacts.nextHandle ▸ issued.requested request pending, (reacts.hashes request.1).symm⟩
  · trivial
  · -- a spontaneous alert is no save result
    cases alert <;> trivial

/-- The engine raises alerts only for torrents it has created. -/
def Raises (engine : Lt.Session) : Lt.Session.Event → Prop
  | .raise alert => ∀ th ∈ alert.handle, th.id < engine.nextHandle
  | _ => True

theorem Named.react {engine : Lt.Session} (named : Named engine) (issued : Issued engine)
    (event : Lt.Session.Event) : Named (engine.react event) := by
  have reacts := engine.reacts event
  obtain ⟨added, queued, new⟩ := reacts.queued
  intro alert member th names
  rw [reacts.nextHandle]
  rw [queued] at member
  rcases List.mem_append.mp member with old | added
  · exact named alert old th names
  rcases new alert added with ⟨request, pending, rfl | rfl⟩ | ⟨-, valid⟩
  all_goals first
    | exact issued.alive th (valid th names)
    | exact Option.mem_some_iff.mp names ▸ issued.requested request pending

theorem Keyed.remove (keyed : Keyed s) {hash : Lt.InfoHash} (removed : s.remove hash = .ok s') : Keyed s' := by
  obtain ⟨th, engine, -, valid, rfl⟩ := remove_eq removed
  obtain ⟨-, rfl⟩ := Lt.Session.removeTorrent_eq _ valid
  have grows : Grows s.session { s.session with
      torrents := s.session.torrents.erase (s.session.instances th).infoHashes
      alerts := s.session.alerts ++ [.torrentRemoved (s.session.instances th).infoHashes] } := ⟨le_rfl, fun _ _ => rfl⟩
  refine ⟨keyed.table, ⟨fun other handle found => ?_, keyed.issued.alive, keyed.issued.requested, fun alert member => ?_⟩,
    fun alert member handle names => ?_⟩
  · exact keyed.issued.held other handle (lookup_of_lookup_erase found)
  · rcases List.mem_append.mp member with queued | new
    · exact (keyed.issued.stamped alert queued).grow grows
    · rw [List.mem_singleton.mp new]
      trivial
  · rcases List.mem_append.mp member with queued | new
    · exact keyed.named alert queued handle names
    · rw [List.mem_singleton.mp new] at names
      exact nomatch names

theorem Keyed.recheck (keyed : Keyed s) {hash : Lt.InfoHash} (checked : s.recheck hash = .ok s') : Keyed s' := by
  obtain ⟨handle, -, -, -, status, eq⟩ := recheck_eq checked
  have commands : Lt.Session.Commands s.session s'.session none :=
    ⟨by rw [eq], by rw [eq], by rw [eq], by rw [eq], fun other => by
      rw [status]
      split
      · next same => rw [same]
      · rfl, fun request member => .inl (by rwa [eq] at member)⟩
  exact ⟨by rw [eq]; exact keyed.table, keyed.issued.commands commands
    fun _ none => absurd none (Option.not_mem_none _), keyed.named.commands commands⟩

/-- A step of the event loop in which the engine raises an alert only for a torrent it
has created: every step of the model's engine. -/
def NamesIssued (s : Session) : Op → Prop
  | .engine event => Raises s.session event
  | _ => True

def Honest : Session → List Op → Prop
  | _, [] => True
  | s, op :: ops => NamesIssued s op ∧ Honest (s.step op) ops

theorem Keyed.step (keyed : Keyed s) : ∀ op : Op, Keyed (s.step op)
  | .load => keyed.loadRows
  | .addTorrent _ => step_addTorrent (P := Keyed) keyed fun _ returned => keyed.addTorrent returned
  | .remove hash => by
    simp only [Session.step]
    split
    · next removed => exact keyed.remove removed
    · exact keyed
  | .recheck hash => by
    simp only [Session.step]
    split
    · next checked => exact keyed.recheck checked
    · exact keyed
  | .readAlerts => keyed.readAlerts
  | .engine event => ⟨keyed.table, (keyed.issued.react event).1, keyed.named.react keyed.issued event⟩

theorem Keyed.run (keyed : Keyed s) (ops : List Op) : Keyed (s.run ops) := by
  induction ops generalizing s with
  | nil => exact keyed
  | cons op rest ih => exact ih (keyed.step op)

theorem Keyed.create {options : SessionOptions} {parse : String → Option MediaInfoContainer} {db : TorrentsTable}
    (table : KeyedTable db) : Keyed (Session.create options parse db) :=
  ⟨table, ⟨fun _ _ found => by simp [Session.create, Lt.Session.empty] at found,
    fun _ valid => absurd valid Bool.false_ne_true, fun _ member => absurd member (List.not_mem_nil _),
    fun _ member => absurd member (List.not_mem_nil _)⟩, fun _ member => absurd member (List.not_mem_nil _)⟩

end

section Destructor
variable (P : Session → Prop)

theorem awaitSaves_preserves
    (drained : ∀ (s : Session) (batch : List Lt.Session.Event), P s →
      let popped := (batch.foldl Lt.Session.react s.session).popAlerts
      P { s with session := popped.2, db := popped.1.foldl (Shutdown.saveRow popped.2) s.db }) :
    ∀ (schedule : List (List Lt.Session.Event)) (s : Session) (outstanding : Int) (handled : List Lt.Alert),
      P s → ∀ result ∈ awaitSaves s outstanding handled schedule, P result.1
  | [], s, outstanding, handled, holds, result, returned => by
    simp only [awaitSaves] at returned
    split at returned
    · cases returned
    · cases returned; exact holds
  | batch :: later, s, outstanding, handled, holds, result, returned => by
    rw [Shutdown.awaitSaves_cons] at returned
    split at returned
    · split at returned
      · exact awaitSaves_preserves drained later _ _ _ (drained s batch holds) result returned
      · cases returned
    · cases returned; exact holds

/-- The destructor keeps what its requests for saves, through valid handles, and each
wake-up of its wait loop keep. -/
theorem shutdown_preserves
    (requested : ∀ (s : Session) (added : List (Lt.TorrentHandle × Nat)), P s →
      (∀ request ∈ added, s.session.isValid request.1 = true) →
      P { s with session := { s.session with
        saveRequests := s.session.saveRequests ++ added
        nextRequest := s.session.nextRequest + added.length } })
    (drained : ∀ (s : Session) (batch : List Lt.Session.Event), P s →
      let popped := (batch.foldl Lt.Session.react s.session).popAlerts
      P { s with session := popped.2, db := popped.1.foldl (Shutdown.saveRow popped.2) s.db })
    {s : Session} (holds : P s) (schedule : List (List Lt.Session.Event)) :
    ∀ result ∈ s.shutdown schedule, P result.1 := by
  have chunks : ∀ (chunks : Nat) (handles : List Lt.TorrentHandle) (schedule : List (List Lt.Session.Event))
      (s : Session) (handled : List Lt.Alert), P s → ∀ result ∈ saveChunks schedule s handled chunks handles,
        P result.1 := by
    intro chunks
    induction chunks with
    | zero => intro _ _ s _ holds result returned; cases returned; exact holds
    | succ chunks ih =>
      intro handles schedule s handled holds result returned
      obtain ⟨added, eq, asked, -⟩ := Shutdown.saveChunks_succ schedule s handled chunks handles
      rw [eq] at returned
      split at returned
      · next valid =>
        split at returned
        · cases returned
        · next s' handled' schedule' waited =>
          have valid : ∀ request ∈ added, s.session.isValid request.1 = true := fun request member =>
            List.all_eq_true.mp valid _ (asked request member)
          exact ih _ _ _ _ (awaitSaves_preserves P drained schedule _ _ _ (requested s added holds valid) _ waited)
            result returned
      · cases returned
  intro result returned
  obtain ⟨chunked, found, rfl⟩ := Option.mem_map.mp returned
  exact chunks _ _ schedule s [] holds chunked found

end Destructor

/-- What the destructor keeps: the table keyed and every handle the engine names
issued. Raised alerts are never drained there, so their handles do not matter. -/
structure Saving (s : Session) : Prop where
  table : KeyedTable s.db
  issued : Issued s.session

section
variable {s : Session}

theorem Issued.foldl_react {engine : Lt.Session} (issued : Issued engine) (batch : List Lt.Session.Event) :
    Issued (batch.foldl Lt.Session.react engine) := by
  induction batch generalizing engine with
  | nil => exact issued
  | cons event rest ih => exact ih (issued.react event).1

theorem Issued.popAlerts {engine : Lt.Session} (issued : Issued engine) : Issued engine.popAlerts.2 :=
  ⟨issued.held, issued.alive, issued.requested, fun _ member => absurd member (List.not_mem_nil _)⟩

theorem KeyedTable.foldl_saveRow {engine : Lt.Session} :
    ∀ {alerts : List Lt.Alert} {db : TorrentsTable}, KeyedTable db → (∀ alert ∈ alerts, Stamped engine alert) →
      KeyedTable (alerts.foldl (Shutdown.saveRow engine) db)
  | [], _, table, _ => table
  | alert :: rest, db, table, stamped => by
    rw [List.foldl_cons]
    refine KeyedTable.foldl_saveRow ?_ fun other member => stamped other (List.mem_cons_of_mem _ member)
    cases alert
    case saveResumeData th params request =>
      intro hash row found
      dsimp only [Shutdown.saveRow] at found
      rw [AddTorrentParams.lookup_update] at found
      split at found
      · next hit =>
        cases found
        exact (stamped _ (List.mem_cons_self _ _)).2.trans hit.1.symm
      · exact table hash row found
    all_goals exact table

theorem Saving.request (saving : Saving s) {added : List (Lt.TorrentHandle × Nat)}
    (valid : ∀ request ∈ added, s.session.isValid request.1 = true) :
    Saving { s with session := { s.session with
      saveRequests := s.session.saveRequests ++ added
      nextRequest := s.session.nextRequest + added.length } } :=
  ⟨saving.table, ⟨saving.issued.held, saving.issued.alive, fun request member =>
    (List.mem_append.mp member).elim (saving.issued.requested request) fun new =>
      saving.issued.alive _ (valid request new), saving.issued.stamped⟩⟩

theorem Saving.drain (saving : Saving s) (batch : List Lt.Session.Event) :
    let popped := (batch.foldl Lt.Session.react s.session).popAlerts
    Saving { s with session := popped.2, db := popped.1.foldl (Shutdown.saveRow popped.2) s.db } :=
  have issued := saving.issued.foldl_react batch
  ⟨saving.table.foldl_saveRow issued.stamped, issued.popAlerts⟩

theorem shutdown_saving (saving : Saving s) (schedule : List (List Lt.Session.Event)) :
    ∀ result ∈ s.shutdown schedule, KeyedTable result.1.db := fun result returned =>
  (shutdown_preserves Saving (fun _ _ saving valid => saving.request valid) (fun _ batch saving => saving.drain batch)
    saving schedule result returned).table

end

/-- Over any run, in which the engine names only torrents it has created, and through
the destructor's saves, every row of the table carries, in its add parameters, the
hash it is stored under. -/
theorem table_stays_keyed (options : SessionOptions) (parse : String → Option MediaInfoContainer)
    (db : TorrentsTable) (keyed : KeyedTable db) (ops : List Op)
    (honest : Honest (Session.create options parse db) ops) (schedule : List (List Lt.Session.Event)) :
    KeyedTable ((Session.create options parse db).run ops).db ∧
      ∀ result ∈ ((Session.create options parse db).run ops).shutdown schedule, KeyedTable result.1.db := by
  have run : Keyed ((Session.create options parse db).run ops) := (Keyed.create keyed).run ops
  exact ⟨run.table, shutdown_saving ⟨run.table, run.issued⟩ schedule⟩

theorem table_stays_keyed_after_save :
    let params : Lt.AddTorrentParams := ⟨⟨1, 0⟩, "t", "/data", true, false, true, ⟨[⟨"a", 2⟩], 1, Nat.one_pos⟩, default⟩
    let ops : List Op := [.addTorrent params, .engine (.raise (.pieceFinished ⟨0⟩ 0)), .engine (.answer 0 true),
      .readAlerts]
    let start := Session.create ⟨false, [], 0, 0⟩ (fun _ => none) ∅
    KeyedTable ∅ ∧ Honest start ops ∧ KeyedTable (start.run ops).db ∧
      ∀ result ∈ (start.run ops).shutdown [[.answer 0 false]], KeyedTable result.1.db := by
  intro params ops start
  have empty : KeyedTable ∅ := fun _ _ found => absurd found (by simp)
  have honest : Honest start ops :=
    ⟨trivial, fun th mine => Option.mem_some_iff.mp mine ▸ by decide, trivial, trivial, trivial⟩
  exact ⟨empty, honest, table_stays_keyed _ _ ∅ empty ops honest _⟩

/-- A row loaded: bound under its hash, in the engine and in `m_torrents`, to an
instance made from its add parameters. -/
def Loaded (s : Session) (params : Lt.AddTorrentParams) : Prop :=
  ∃ th, s.session.torrents.lookup params.infoHashes = some th ∧ s.torrents.lookup params.infoHashes = some th ∧
    s.session.instances th = Lt.Torrent.ofParams params

section
variable {s : Session} {params : Lt.AddTorrentParams} {th : Lt.TorrentHandle} {engine : Lt.Session}

theorem addTorrent_named (added : s.session.addTorrent params = .ok (th, engine)) :
    (engine.instances th).infoHashes = params.infoHashes := by
  obtain ⟨-, rfl, rfl⟩ := Lt.Session.addTorrent_eq _ added
  simp [Lt.Torrent.ofParams]

/-- A row loaded before stays loaded when the engine takes another: its hash is held,
so not the new one, and its handle was issued, so not the new one either. -/
theorem Loaded.add (issued : Issued s.session) {loadedParams : Lt.AddTorrentParams} (loaded : Loaded s loadedParams)
    (added : s.session.addTorrent params = .ok (th, engine)) :
    Loaded { s with session := engine, torrents := mapInsert s.torrents (engine.instances th).infoHashes th }
      loadedParams := by
  rw [addTorrent_named added]
  obtain ⟨free, rfl, rfl⟩ := Lt.Session.addTorrent_eq _ added
  obtain ⟨old, held, bound, status⟩ := loaded
  have other : loadedParams.infoHashes ≠ params.infoHashes := fun same =>
    free (same ▸ mem_of_lookup_eq_some held)
  have older : old ≠ ⟨s.session.nextHandle⟩ := fun same => Nat.lt_irrefl _ (same ▸ issued.held _ old held)
  exact ⟨old, by rw [AList.lookup_insert_ne other, held], by rw [lookup_mapInsert_ne other, bound],
    (Function.update_noteq older _ _).trans status⟩

theorem Loaded.added (unbound : params.infoHashes ∉ s.torrents) (added : s.session.addTorrent params = .ok (th, engine)) :
    Loaded { s with session := engine, torrents := mapInsert s.torrents (engine.instances th).infoHashes th } params := by
  rw [addTorrent_named added, mapInsert_of_not_mem _ unbound]
  obtain ⟨-, rfl, rfl⟩ := Lt.Session.addTorrent_eq _ added
  exact ⟨_, AList.lookup_insert _, AList.lookup_insert _, Function.update_same _ _ _⟩

end

/-- `Load` over rows of distinct hashes that neither the engine nor `m_torrents` has:
no row throws, and every row is loaded, with the rows loaded before. -/
theorem loadRows_loaded : ∀ (rows : List Lt.AddTorrentParams) (s : Session), Issued s.session →
    (rows.map (·.infoHashes)).Nodup →
    (∀ params ∈ rows, params.infoHashes ∉ s.session.torrents ∧ params.infoHashes ∉ s.torrents) →
    (s.loadRows rows).2 = none ∧ ∀ params, Loaded s params ∨ params ∈ rows → Loaded (s.loadRows rows).1 params
  | [], _, _, _, _ => ⟨rfl, fun _ => Or.rec id fun member => absurd member (List.not_mem_nil _)⟩
  | params :: rest, s, issued, distinct, fresh => by
    obtain ⟨free, unbound⟩ := fresh params (List.mem_cons_self _ _)
    obtain ⟨other, distinct⟩ := List.nodup_cons.mp distinct
    cases added : s.session.addTorrent params with
    | error => simp [Lt.Session.addTorrent, free] at added
    | ok result =>
      obtain ⟨th, engine⟩ := result
      have later : ∀ p ∈ rest, p.infoHashes ∉ engine.torrents ∧
          p.infoHashes ∉ mapInsert s.torrents (engine.instances th).infoHashes th := by
        intro p member
        have different : p.infoHashes ≠ params.infoHashes := fun same => other (List.mem_map.mpr ⟨p, member, same⟩)
        obtain ⟨-, -, rfl⟩ := Lt.Session.addTorrent_eq _ added
        rw [addTorrent_named added, mem_mapInsert, AList.mem_insert]
        exact ⟨(·.elim different (fresh p (List.mem_cons_of_mem _ member)).1),
          (·.elim different (fresh p (List.mem_cons_of_mem _ member)).2)⟩
      obtain ⟨none, loaded⟩ := loadRows_loaded rest
        { s with session := engine, torrents := mapInsert s.torrents (engine.instances th).infoHashes th }
        (issued.add added).1 distinct later
      simp only [Session.loadRows, added]
      refine ⟨none, fun p found => loaded p ?_⟩
      rcases found with old | member
      · exact .inl (Loaded.add issued old added)
      · rcases List.mem_cons.mp member with rfl | member
        · exact .inl (Loaded.added unbound added)
        · exact .inr member

/-- A table whose rows carry their own hash loads into a new session without an
exception, each row becoming the torrent its add parameters describe. -/
theorem load_keyed (options : SessionOptions) (parse : String → Option MediaInfoContainer) {db : TorrentsTable}
    (keyed : KeyedTable db) :
    (Session.create options parse db).load.2 = none ∧
      ∀ hash row, db.lookup hash = some row → Loaded (Session.create options parse db).load.1 row.params := by
  have rows : ∀ entry ∈ db.entries, entry.2.params.infoHashes = entry.1 := fun entry member =>
    keyed _ _ (AList.mem_lookup_iff.mpr member)
  have hashes : (AddTorrentParams.forEach db).map (·.infoHashes) = db.keys := by
    rw [AddTorrentParams.forEach, List.map_map]
    exact List.map_congr_left rows
  have distinct := hashes ▸ db.keys_nodup
  obtain ⟨none, loaded⟩ := loadRows_loaded _ (Session.create options parse db) (Keyed.create keyed).issued distinct
    fun _ _ => ⟨by simp [Session.create, Lt.Session.empty], by simp [Session.create]⟩
  exact ⟨none, fun hash row found => loaded _ (.inr (List.mem_map_of_mem _ (AList.mem_lookup_iff.mp found)))⟩

/-- A restart. A session loads a table whose rows carry their own hash, then adds,
removes, drains and answers save requests, never adding a hash whose removal is
queued, and is destroyed. A new session, with any options, loads the table it left
without an exception, holds exactly the torrents the old one had bound in
`m_torrents`, and holds each row under its hash as the torrent the row describes. -/
theorem restart_restores_torrents (options : SessionOptions) (parse : String → Option MediaInfoContainer)
    (db : TorrentsTable) (keyed : KeyedTable db) (ops : List Op)
    (guarded : TorrentAgreement.Guarded ((Session.create options parse db).step .load) ops)
    (schedule : List (List Lt.Session.Event)) (options' : SessionOptions)
    (parse' : String → Option MediaInfoContainer) :
    ∀ result ∈ (((Session.create options parse db).step .load).run ops).shutdown schedule,
      (Session.create options' parse' result.1.db).load.2 = none ∧
        (∀ hash, hash ∈ (Session.create options' parse' result.1.db).load.1.session.torrents ↔
          hash ∈ result.1.torrents) ∧
        ∀ hash row, result.1.db.lookup hash = some row →
          Loaded (Session.create options' parse' result.1.db).load.1 row.params := by
  intro result returned
  have run : Keyed (((Session.create options parse db).step .load).run ops) :=
    ((Keyed.create keyed).step .load).run ops
  have table := shutdown_saving ⟨run.table, run.issued⟩ schedule result returned
  obtain ⟨db', kept⟩ := Shutdown.shutdown_returns _ schedule result returned
  have agree := (TorrentAgreement.agree_load options parse db keyed).run Live.load
    (TorrentAgreement.load_bookkeeping options parse db) guarded
  have reloaded := TorrentAgreement.agree_load options' parse' result.1.db table
  obtain ⟨none, rows⟩ := load_keyed options' parse' table
  obtain ⟨engine, torrents, reloadedEq⟩ := (Session.create options' parse' result.1.db).loadRows_eq
    (AddTorrentParams.forEach (Session.create options' parse' result.1.db).db)
  have stored : ∀ hash, hash ∈ result.1.db ↔ hash ∈ result.1.torrents := fun hash => by
    rw [db', Shutdown.mem_foldl_saveRow, kept.torrents]
    exact (agree.stored hash).symm
  refine ⟨none, fun hash => ⟨fun held => ?_, fun bound => ?_⟩, rows⟩
  · have inTable := (reloaded.stored hash).mp ((reloaded.held hash).mp held).1
    exact (stored hash).mp (by rwa [Session.step, Session.load, reloadedEq] at inTable)
  · obtain ⟨row, found⟩ := Option.isSome_iff_exists.mp (AList.lookup_isSome.mpr ((stored hash).mpr bound))
    obtain ⟨th, held, -⟩ := rows hash row found
    rw [table hash row found] at held
    exact mem_of_lookup_eq_some held

theorem restart_restores_torrents_after_add :
    let row : AddTorrentParams :=
      ⟨default, "t", ⟨⟨1, 0⟩, "t", "/data", true, false, true, ⟨[⟨"a", 1⟩], 1, Nat.one_pos⟩, default⟩, 0, "/data"⟩
    let db : TorrentsTable := (∅ : TorrentsTable).insert ⟨1, 0⟩ row
    let added : Lt.AddTorrentParams := ⟨⟨2, 0⟩, "u", "/data", true, false, true, ⟨[⟨"b", 2⟩], 1, Nat.one_pos⟩, default⟩
    let ops : List Op := [.addTorrent added, .engine (.answer 0 true), .readAlerts]
    let start := (Session.create ⟨false, [], 0, 0⟩ (fun _ => none) db).step .load
    KeyedTable db ∧ TorrentAgreement.Guarded start ops ∧
      ((start.run ops).shutdown [[.answer 0 true, .answer 0 true]]).isSome ∧
      ∀ result ∈ (start.run ops).shutdown [[.answer 0 true, .answer 0 true]],
        (Session.create ⟨false, [], 0, 0⟩ (fun _ => none) result.1.db).load.2 = none ∧
          (∀ hash, hash ∈ (Session.create ⟨false, [], 0, 0⟩ (fun _ => none) result.1.db).load.1.session.torrents ↔
            hash ∈ result.1.torrents) ∧
          ∀ hash row, result.1.db.lookup hash = some row →
            Loaded (Session.create ⟨false, [], 0, 0⟩ (fun _ => none) result.1.db).load.1 row.params := by
  intro row db added ops start
  have guarded : TorrentAgreement.Guarded start ops :=
    ⟨show added.infoHashes ∉ TorrentAgreement.removals start.session.alerts by decide, trivial, trivial, trivial⟩
  exact ⟨TorrentAgreement.keyed_singleton rfl, guarded, by decide,
    restart_restores_torrents _ _ db (TorrentAgreement.keyed_singleton rfl) ops guarded _ _ _⟩

end Porla.Proofs.Restart
