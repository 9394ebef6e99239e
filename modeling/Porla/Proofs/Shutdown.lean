import Porla.Session.Shutdown
import Porla.Proofs.DrainSafety
import Porla.Proofs.TorrentAgreement

/-! The destructor's accounting. `outstanding` counts save results still to come,
but the wait loop counts down on any save result, also one answering a request
made before the destructor began: such a stray result can end the wait while a
request of the chunk is still pending. With no request pending when the destructor
begins, the count is exact, so when the loop ends every request of the destructor has
had its result handled; the results it handled are the only rows it writes; and the
loop ends at the first wake-up after the engine has answered them all, as long as the
torrents it visits exist. Once every removal has been dispatched before it begins, the
rows it leaves are those of the torrents the engine holds. -/

namespace Porla.Proofs.Shutdown
open Porla Session Data.Models Liveness DrainSafety PrefetchMaps

/-- The requests whose result alerts are in `alerts`. -/
def results (alerts : List Lt.Alert) : List Nat :=
  alerts.filterMap fun
    | .saveResumeData _ _ request | .saveResumeDataFailed _ request => some request
    | _ => none

/-- The save requests the engine has not answered, and those whose result is queued. -/
def pool (engine : Lt.Session) : List Nat := engine.saveRequests.map (·.2) ++ results engine.alerts

/-- The save results, which the wait loop records. -/
def isSaveResult : Lt.Alert → Bool
  | .saveResumeData _ _ _ | .saveResumeDataFailed _ _ => true
  | _ => false

/-- Whether the wait loop drains an alert without throwing: a `save_resume_data`
result queries its torrent. -/
def Drains (engine : Lt.Session) : Lt.Alert → Bool
  | .saveResumeData th _ _ => engine.isValid th
  | _ => true

/-- The row a handled save result writes: a `save_resume_data` result updates the
row under its torrent's hash with the alert's add parameters. -/
def saveRow (engine : Lt.Session) (db : TorrentsTable) : Lt.Alert → TorrentsTable
  | .saveResumeData th params _ =>
    let status := engine.instances th
    AddTorrentParams.update db status.infoHashes
      ⟨status.userdata, params.name, params, status.queuePosition, params.savePath⟩
  | _ => db

/-- Two torrents with a save request pending when the destructor begins; the second
has no metadata, so the chunk loop asks only the first to save (request 2). The
engine fails the second torrent's old request, that result ends the wait, and the
destructor returns with the first torrent's request unanswered. -/
theorem shutdown_returns_before_own_save :
    let s := (Session.create ⟨false, [], 0, 0⟩ (fun _ => none) ∅).run
      [.addTorrent ⟨⟨1, 0⟩, "a", "/data", true, false, true, ⟨[⟨"a", 1⟩], 1, Nat.one_pos⟩, default⟩,
        .addTorrent ⟨⟨2, 0⟩, "b", "/data", true, false, false, ⟨[⟨"b", 1⟩], 1, Nat.one_pos⟩, default⟩]
    (s.shutdown [[.answer 1 false]]).map (fun result => (results result.2, result.1.session.saveRequests)) =
      some ([1], [(⟨0⟩, 0), (⟨0⟩, 2)]) := by
  decide

@[simp] theorem results_nil : results [] = [] := rfl

@[simp] theorem results_append (alerts alerts' : List Lt.Alert) :
    results (alerts ++ alerts') = results alerts ++ results alerts' :=
  List.filterMap_append _ _ _

@[simp] theorem results_cons_saveResumeData (th : Lt.TorrentHandle) (params : Lt.AddTorrentParams)
    (request : Nat) (rest : List Lt.Alert) :
    results (.saveResumeData th params request :: rest) = request :: results rest := rfl

@[simp] theorem results_cons_saveResumeDataFailed (th : Lt.TorrentHandle) (request : Nat)
    (rest : List Lt.Alert) : results (.saveResumeDataFailed th request :: rest) = request :: results rest := rfl

theorem results_of_spontaneous {alert : Lt.Alert} (spontaneous : alert.spontaneous = true) :
    results [alert] = [] := by
  cases alert <;> first | rfl | cases spontaneous

@[simp] theorem results_filter_isSaveResult : ∀ alerts : List Lt.Alert,
    results (alerts.filter isSaveResult) = results alerts
  | [] => rfl
  | alert :: rest => by
    cases alert <;> simp [isSaveResult, results_filter_isSaveResult rest] <;> rfl

theorem foldl_saveRow_filter (engine : Lt.Session) : ∀ (alerts : List Lt.Alert) (db : TorrentsTable),
    (alerts.filter isSaveResult).foldl (saveRow engine) db = alerts.foldl (saveRow engine) db
  | [], _ => rfl
  | alert :: rest, db => by
    cases alert <;> simp [isSaveResult, foldl_saveRow_filter engine rest] <;> rfl

theorem saveRow_congr {engine engine' : Lt.Session}
    (same : ∀ th, (engine'.instances th).infoHashes = (engine.instances th).infoHashes ∧
      (engine'.instances th).userdata = (engine.instances th).userdata ∧
      (engine'.instances th).queuePosition = (engine.instances th).queuePosition) :
    saveRow engine' = saveRow engine := by
  funext db alert
  cases alert
  case saveResumeData th params request =>
    obtain ⟨hash, data, position⟩ := same th
    simp only [saveRow, hash, data, position]
  all_goals rfl

theorem mem_foldl_saveRow (engine : Lt.Session) {hash : Lt.InfoHash} :
    ∀ (alerts : List Lt.Alert) (db : TorrentsTable), hash ∈ alerts.foldl (saveRow engine) db ↔ hash ∈ db
  | [], _ => Iff.rfl
  | alert :: rest, db => by
    rw [List.foldl_cons, mem_foldl_saveRow engine rest]
    cases alert <;> first | exact AddTorrentParams.mem_update | exact Iff.rfl

theorem perm_answer {requests : List (Lt.TorrentHandle × Nat)} {position : Nat}
    {entry : Lt.TorrentHandle × Nat} (found : requests.get? position = some entry) (queued : List Nat) :
    List.Perm ((requests.eraseIdx position).map (·.2) ++ queued ++ [entry.2]) (requests.map (·.2) ++ queued) := by
  obtain ⟨bound, rfl⟩ := List.getElem?_eq_some_iff.mp (by simpa using found)
  have split : requests = requests.take position ++ requests[position] :: requests.drop (position + 1) := by
    conv_lhs => rw [← List.take_append_drop position requests, List.drop_eq_getElem_cons bound]
  rw [List.eraseIdx_eq_take_drop_succ]
  conv_rhs => rw [split]
  exact List.perm_iff_count.mpr fun request => by
    simp only [List.map_append, List.map_cons, List.count_append, List.count_cons, List.count_nil]
    omega

theorem react_pool (engine : Lt.Session) (event : Lt.Session.Event) :
    List.Perm (pool (engine.react event)) (pool engine) ∧ (engine.react event).nextRequest = engine.nextRequest ∧
      (engine.react event).torrents = engine.torrents ∧ saveRow (engine.react event) = saveRow engine := by
  cases event with
  | answer position succeeded =>
    simp only [Lt.Session.react]
    split
    · exact ⟨List.Perm.refl _, rfl, rfl, rfl⟩
    · next handle request found =>
      have result : results [if succeeded then .saveResumeData handle (engine.instances handle).resumeData request
          else .saveResumeDataFailed handle request] = [request] := by
        cases succeeded <;> rfl
      refine ⟨?_, rfl, rfl, rfl⟩
      simpa only [pool, results_append, result, List.append_assoc] using perm_answer found (results engine.alerts)
  | download handle bytes =>
    simp only [Lt.Session.react]
    split
    · refine ⟨List.Perm.refl _, rfl, rfl, saveRow_congr fun th => ?_⟩
      rw [Lt.Session.instances_modify]
      split
      · next same => rw [same]; exact ⟨rfl, rfl, rfl⟩
      · exact ⟨rfl, rfl, rfl⟩
    · exact ⟨List.Perm.refl _, rfl, rfl, rfl⟩
  | raise alert =>
    simp only [Lt.Session.react]
    split
    · next raised =>
      simp only [Bool.and_eq_true] at raised
      refine ⟨?_, rfl, rfl, rfl⟩
      rw [pool, pool, results_append, results_of_spontaneous raised.1, List.append_nil]
    · exact ⟨List.Perm.refl _, rfl, rfl, rfl⟩
  | release handle =>
    simp only [Lt.Session.react]
    split <;> exact ⟨List.Perm.refl _, rfl, rfl, rfl⟩

theorem foldl_react_pool (batch : List Lt.Session.Event) :
    ∀ engine : Lt.Session, let engine' := batch.foldl Lt.Session.react engine
      List.Perm (pool engine') (pool engine) ∧ engine'.nextRequest = engine.nextRequest ∧
        engine'.torrents = engine.torrents ∧ saveRow engine' = saveRow engine := by
  induction batch with
  | nil => exact fun engine => ⟨List.Perm.refl _, rfl, rfl, rfl⟩
  | cons event rest ih =>
    intro engine
    obtain ⟨pooled, next, held, rows⟩ := ih (engine.react event)
    obtain ⟨pooled', next', held', rows'⟩ := react_pool engine event
    exact ⟨pooled.trans pooled', next.trans next', held.trans held', rows.trans rows'⟩

/-- The drain of one `pop_alerts`: it throws on a `save_resume_data` result whose
torrent is freed; otherwise each save result counts down and is recorded, and the
rows of the `save_resume_data` results are written in turn. -/
theorem drainSaves_eq :
    ∀ (alerts : List Lt.Alert) (s : Session) (outstanding : Int) (handled : List Lt.Alert),
      drainSaves s outstanding handled alerts =
        if alerts.all (Drains s.session) then
          .ok ({ s with db := alerts.foldl (saveRow s.session) s.db }, outstanding - (results alerts).length,
            handled ++ alerts.filter isSaveResult)
        else .error "invalid_torrent_handle"
  | [], s, outstanding, handled => by simp [drainSaves]
  | alert :: rest, s, outstanding, handled => by
    cases alert
    case saveResumeData th params request =>
      cases valid : s.session.isValid th
      · simp [drainSaves, Drains, valid, Lt.Session.status_of_invalid _ valid, bind, Except.bind]
      · rw [drainSaves, Lt.Session.status_of_valid _ valid, ok_bind, drainSaves_eq rest]
        simp only [List.all_cons, Drains, valid, Bool.true_and, List.foldl_cons, saveRow, results_cons_saveResumeData,
          List.length_cons, List.filter_cons, isSaveResult, if_true, List.append_assoc, List.singleton_append]
        split
        · congr 3
          push_cast
          ring
        · rfl
    case saveResumeDataFailed th request =>
      rw [drainSaves, drainSaves_eq rest]
      simp only [List.all_cons, Drains, Bool.true_and, List.foldl_cons, saveRow, results_cons_saveResumeDataFailed,
        List.length_cons, List.filter_cons, isSaveResult, if_true, List.append_assoc, List.singleton_append]
      split
      · congr 3
        push_cast
        ring
      · rfl
    all_goals
      show drainSaves s outstanding handled rest = _
      rw [drainSaves_eq rest]
      rfl

/-- One wake-up of the wait loop: the engine takes the batch's steps, and the alerts
popped then are drained. -/
theorem awaitSaves_cons (s : Session) (outstanding : Int) (handled : List Lt.Alert)
    (batch : List Lt.Session.Event) (later : List (List Lt.Session.Event)) :
    let popped := (batch.foldl Lt.Session.react s.session).popAlerts
    awaitSaves s outstanding handled (batch :: later) =
      if 0 < outstanding then
        if popped.1.all (Drains popped.2) then
          awaitSaves { s with session := popped.2, db := popped.1.foldl (saveRow popped.2) s.db }
            (outstanding - (results popped.1).length) (handled ++ popped.1.filter isSaveResult) later
        else none
      else some (s, handled, batch :: later) := by
  intro popped
  rw [awaitSaves]
  split
  · simp only [drainSaves_eq, popped]
    by_cases drains : ((batch.foldl Lt.Session.react s.session).popAlerts.1.all
        (Drains (batch.foldl Lt.Session.react s.session).popAlerts.2)) = true
    · simp only [drains, if_true]
    · simp only [drains, Bool.false_eq_true, if_false]
  · rfl

theorem foldl_saveResumeData : ∀ (handles : List Lt.TorrentHandle) (engine : Lt.Session),
    ∃ added : List (Lt.TorrentHandle × Nat),
      handles.foldl Lt.Session.saveResumeData engine =
        { engine with
          saveRequests := engine.saveRequests ++ added
          nextRequest := engine.nextRequest + added.length } ∧
      added.map (·.1) = handles ∧ added.map (·.2) = List.range' engine.nextRequest added.length
  | [], engine => ⟨[], by simp, rfl, rfl⟩
  | th :: rest, engine => by
    obtain ⟨added, eq, handles, numbered⟩ := foldl_saveResumeData rest (engine.saveResumeData th)
    refine ⟨(th, engine.nextRequest) :: added, ?_, by simp [handles], ?_⟩
    · rw [List.foldl_cons, eq]
      simp [Lt.Session.saveResumeData, Nat.add_assoc, Nat.add_comm 1]
    · simp [numbered, Lt.Session.saveResumeData, List.range'_succ]

/-- One turn of the chunk loop: it throws on a freed handle of the chunk; otherwise the
chunk's torrents that need it are asked to save, and the wait loop runs. -/
theorem saveChunks_succ (schedule : List (List Lt.Session.Event)) (s : Session) (handled : List Lt.Alert)
    (chunks : Nat) (handles : List Lt.TorrentHandle) :
    ∃ added : List (Lt.TorrentHandle × Nat),
      saveChunks schedule s handled (chunks + 1) handles =
        (if (handles.take chunkSize).all s.session.isValid then
          match awaitSaves { s with session := { s.session with
              saveRequests := s.session.saveRequests ++ added
              nextRequest := s.session.nextRequest + added.length } } added.length handled schedule with
          | none => none
          | some (s, handled, schedule) => saveChunks schedule s handled chunks (handles.drop chunkSize)
        else none) ∧
      (∀ request ∈ added, request.1 ∈ handles.take chunkSize) ∧
      added.map (·.2) = List.range' s.session.nextRequest added.length ∧
      added.length ≤ (handles.take chunkSize).length := by
  obtain ⟨added, eq, named, numbered⟩ := foldl_saveResumeData ((handles.take chunkSize).filter fun th =>
    (s.session.instances th).hasMetadata && (s.session.instances th).needSaveResume) s.session
  have counted := congrArg List.length named
  rw [List.length_map] at counted
  refine ⟨added, ?_, fun request member => ?_, numbered, counted ▸ List.length_filter_le _ _⟩
  · simp only [saveChunks, requestSaves_eq]
    by_cases visited : (handles.take chunkSize).all s.session.isValid = true
    · simp only [visited, if_true]
      -- the sides differ only in their auxiliary matchers, which `rw` may not unfold
      rw [eq, counted]
      all_goals rfl
    · simp only [visited, Bool.false_eq_true, if_false]
  · have asks := List.mem_map_of_mem Prod.fst member
    rw [named] at asks
    exact List.mem_of_mem_filter asks

/-- What the destructor keeps: the bindings of `m_torrents` and of the engine, and
what a save result's row reads. -/
structure Kept (s s' : Session) : Prop where
  torrents : s'.torrents = s.torrents
  held : s'.session.torrents = s.session.torrents
  rows : saveRow s'.session = saveRow s.session

theorem Kept.refl (s : Session) : Kept s s := ⟨rfl, rfl, rfl⟩

theorem Kept.trans {s t u : Session} (first : Kept s t) (second : Kept t u) : Kept s u :=
  ⟨second.torrents.trans first.torrents, second.held.trans first.held, second.rows.trans first.rows⟩

/-- Inside the wait loop: `outstanding` is the size of the pool, and every request
made since `first` is in the pool or handled. -/
structure Accounted (first : Nat) (s : Session) (outstanding : Int) (handled : List Lt.Alert) : Prop where
  counted : outstanding = (pool s.session).length
  covered : ∀ request, first ≤ request → request < s.session.nextRequest →
    request ∈ results handled ∨ request ∈ pool s.session

/-- Between chunks: the pool is empty, and every request made since `first` handled. -/
structure Settled (first : Nat) (s : Session) (handled : List Lt.Alert) : Prop where
  idle : pool s.session = []
  answered : ∀ request, first ≤ request → request < s.session.nextRequest → request ∈ results handled

section
variable {first : Nat} {s : Session} {outstanding : Int} {handled : List Lt.Alert}

theorem Accounted.react (accounted : Accounted first s outstanding handled) (batch : List Lt.Session.Event) :
    Accounted first { s with session := batch.foldl Lt.Session.react s.session } outstanding handled := by
  obtain ⟨pooled, next, -⟩ := foldl_react_pool batch s.session
  refine ⟨by rw [accounted.counted, pooled.length_eq], fun request first' below => ?_⟩
  rw [next] at below
  exact (accounted.covered request first' below).imp_right pooled.mem_iff.mpr

theorem Accounted.pop (accounted : Accounted first s outstanding handled) (db : TorrentsTable) :
    Accounted first { s with session := s.session.popAlerts.2, db := db }
      (outstanding - (results s.session.popAlerts.1).length)
      (handled ++ s.session.popAlerts.1.filter isSaveResult) := by
  refine ⟨?_, fun request first' below => ?_⟩
  · have sizes : (pool s.session).length =
        (pool s.session.popAlerts.2).length + (results s.session.popAlerts.1).length := by
      simp only [pool, Lt.Session.popAlerts, results_nil, List.append_nil, List.length_append]
    have counted := accounted.counted
    show outstanding - ((results s.session.popAlerts.1).length : Int) = (pool s.session.popAlerts.2).length
    omega
  · rw [results_append, results_filter_isSaveResult]
    rcases accounted.covered request first' below with old | waiting
    · exact .inl (List.mem_append_left _ old)
    · simp only [pool, List.mem_append, Lt.Session.popAlerts, results_nil, List.append_nil] at waiting ⊢
      rcases waiting with pending | queued
      exacts [.inr pending, .inl (.inr queued)]

theorem Accounted.settled (accounted : Accounted first s outstanding handled) (done : ¬0 < outstanding) :
    Settled first s handled := by
  have empty : pool s.session = [] := List.eq_nil_of_length_eq_zero (by have := accounted.counted; omega)
  refine ⟨empty, fun request first' below => ?_⟩
  simpa [empty] using accounted.covered request first' below

theorem Settled.initial (idle : s.session.saveRequests = []) (noResults : results s.session.alerts = []) :
    Settled s.session.nextRequest s [] :=
  ⟨by simp [pool, idle, noResults], fun _ late early => absurd early (by omega)⟩

theorem Settled.request (settled : Settled first s handled) {added : List (Lt.TorrentHandle × Nat)}
    (numbered : added.map (·.2) = List.range' s.session.nextRequest added.length) :
    let engine : Lt.Session := { s.session with
      saveRequests := s.session.saveRequests ++ added
      nextRequest := s.session.nextRequest + added.length }
    Accounted first { s with session := engine } added.length handled ∧ engine.saveRequests = added := by
  intro engine
  obtain ⟨idle, earlier⟩ := List.append_eq_nil.mp settled.idle
  have pooled : pool engine = added.map (·.2) := by simp [engine, pool, idle, earlier]
  refine ⟨⟨by simp [pooled], fun request first' below => ?_⟩, by simpa [engine] using idle⟩
  rw [pooled, numbered, List.mem_range'_1]
  by_cases older : request < s.session.nextRequest
  · exact .inl (settled.answered request first' older)
  · exact .inr ⟨by omega, by simpa using below⟩

end

theorem awaitSaves_returns :
    ∀ (schedule : List (List Lt.Session.Event)) (s : Session) (outstanding : Int) (handled : List Lt.Alert),
      ∀ result ∈ awaitSaves s outstanding handled schedule, ∃ more, result.2.1 = handled ++ more ∧
        result.1.db = more.foldl (saveRow s.session) s.db ∧ Kept s result.1
  | [], s, outstanding, handled, result, returned => by
    simp only [awaitSaves] at returned
    split at returned
    · cases returned
    · cases returned
      exact ⟨[], (List.append_nil _).symm, rfl, Kept.refl s⟩
  | batch :: later, s, outstanding, handled, result, returned => by
    obtain ⟨-, -, held, rows⟩ := foldl_react_pool batch s.session
    rw [awaitSaves_cons] at returned
    split at returned
    · split at returned
      · obtain ⟨more, handled', db, kept⟩ := awaitSaves_returns later _ _ _ result returned
        have first : Kept s { s with
            session := (batch.foldl Lt.Session.react s.session).popAlerts.2
            db := (batch.foldl Lt.Session.react s.session).popAlerts.1.foldl
              (saveRow (batch.foldl Lt.Session.react s.session).popAlerts.2) s.db } := ⟨rfl, held, rows⟩
        refine ⟨(batch.foldl Lt.Session.react s.session).popAlerts.1.filter isSaveResult ++ more,
          by rw [handled', List.append_assoc], ?_, first.trans kept⟩
        rw [db, List.foldl_append, foldl_saveRow_filter, ← first.rows]
      · cases returned
    · cases returned
      exact ⟨[], (List.append_nil _).symm, rfl, Kept.refl s⟩

theorem saveChunks_returns :
    ∀ (chunks : Nat) (handles : List Lt.TorrentHandle) (schedule : List (List Lt.Session.Event))
      (s : Session) (handled : List Lt.Alert), ∀ result ∈ saveChunks schedule s handled chunks handles,
        ∃ more, result.2.1 = handled ++ more ∧ result.1.db = more.foldl (saveRow s.session) s.db ∧ Kept s result.1
  | 0, _, _, s, handled, result, returned => by
    cases returned
    exact ⟨[], (List.append_nil _).symm, rfl, Kept.refl s⟩
  | chunks + 1, handles, schedule, s, handled, result, returned => by
    obtain ⟨added, eq, -⟩ := saveChunks_succ schedule s handled chunks handles
    rw [eq] at returned
    split at returned
    · split at returned
      · cases returned
      · next s' handled' schedule' waited =>
        obtain ⟨more, handledMore, db, kept⟩ := awaitSaves_returns schedule _ _ _ _ waited
        obtain ⟨more', handledMore', db', kept'⟩ := saveChunks_returns chunks _ _ _ _ result returned
        dsimp only at handledMore db kept handledMore' db' kept'
        have requested : Kept s { s with session := { s.session with
            saveRequests := s.session.saveRequests ++ added
            nextRequest := s.session.nextRequest + added.length } } := ⟨rfl, rfl, rfl⟩
        refine ⟨more ++ more', by rw [handledMore', handledMore, List.append_assoc], ?_,
          requested.trans (kept.trans kept')⟩
        rw [db', db, List.foldl_append, (requested.trans kept).rows, requested.rows]
    · cases returned

/-- The destructor, when it returns, writes the rows of the save results it handled,
in turn, and no other; it keeps the bindings. -/
theorem shutdown_returns (s : Session) (schedule : List (List Lt.Session.Event)) :
    ∀ result ∈ s.shutdown schedule, result.1.db = result.2.foldl (saveRow s.session) s.db ∧ Kept s result.1 := by
  intro result returned
  obtain ⟨chunked, found, rfl⟩ := Option.mem_map.mp returned
  obtain ⟨more, handled, db, kept⟩ := saveChunks_returns _ _ schedule s [] chunked found
  rw [List.nil_append] at handled
  exact ⟨by rw [handled]; exact db, kept⟩

theorem awaitSaves_settled {first : Nat} :
    ∀ (schedule : List (List Lt.Session.Event)) (s : Session) (outstanding : Int) (handled : List Lt.Alert),
      Accounted first s outstanding handled →
      ∀ result ∈ awaitSaves s outstanding handled schedule, Settled first result.1 result.2.1
  | [], s, outstanding, handled, accounted, result, returned => by
    simp only [awaitSaves] at returned
    split at returned
    · cases returned
    · next done =>
      cases returned
      exact accounted.settled done
  | batch :: later, s, outstanding, handled, accounted, result, returned => by
    rw [awaitSaves_cons] at returned
    split at returned
    · split at returned
      · exact awaitSaves_settled later _ _ _ ((accounted.react batch).pop _) result returned
      · cases returned
    · next done =>
      cases returned
      exact accounted.settled done

theorem saveChunks_settled {first : Nat} :
    ∀ (chunks : Nat) (handles : List Lt.TorrentHandle) (schedule : List (List Lt.Session.Event))
      (s : Session) (handled : List Lt.Alert), Settled first s handled →
      ∀ result ∈ saveChunks schedule s handled chunks handles, Settled first result.1 result.2.1
  | 0, _, _, s, handled, settled, result, returned => by
    cases returned
    exact settled
  | chunks + 1, handles, schedule, s, handled, settled, result, returned => by
    obtain ⟨added, eq, -, numbered, -⟩ := saveChunks_succ schedule s handled chunks handles
    rw [eq] at returned
    split at returned
    · split at returned
      · cases returned
      · next waited =>
        exact saveChunks_settled chunks _ _ _ _
          (awaitSaves_settled schedule _ _ _ (settled.request numbered).1 _ waited) result returned
    · cases returned

/-- When the destructor begins with no save request pending and no save result
queued, then when it returns every save it requested has had its own result handled,
and the table it leaves is the one it began with, each handled `save_resume_data`
result having updated, in turn, the row under its torrent's hash with the alert's add
parameters. -/
theorem shutdown_handles_own_saves (s : Session) (schedule : List (List Lt.Session.Event))
    (idle : s.session.saveRequests = []) (noResults : results s.session.alerts = []) :
    ∀ result ∈ s.shutdown schedule,
      (∀ request, s.session.nextRequest ≤ request → request < result.1.session.nextRequest →
        request ∈ results result.2) ∧
      result.1.db = result.2.foldl (saveRow s.session) s.db := by
  intro result returned
  obtain ⟨chunked, found, rfl⟩ := Option.mem_map.mp returned
  exact ⟨(saveChunks_settled _ _ schedule s [] (Settled.initial idle noResults) chunked found).answered,
    (shutdown_returns s schedule _ returned).1⟩

theorem shutdown_handles_own_saves_after_drain :
    let s := (Session.create ⟨false, [], 0, 0⟩ (fun _ => none) ∅).run
      [.addTorrent ⟨⟨1, 0⟩, "a", "/data", true, false, true, ⟨[⟨"a", 1⟩], 1, Nat.one_pos⟩, default⟩,
        .engine (.answer 0 true), .readAlerts]
    s.session.saveRequests = [] ∧ results s.session.alerts = [] ∧
      (s.shutdown [[.answer 0 true]]).isSome ∧
      ∀ result ∈ s.shutdown [[.answer 0 true]],
        (∀ request, s.session.nextRequest ≤ request → request < result.1.session.nextRequest →
          request ∈ results result.2) ∧
        result.1.db = result.2.foldl (saveRow s.session) s.db :=
  ⟨rfl, rfl, by decide, shutdown_handles_own_saves _ _ rfl rfl⟩

/-- The engine's pending save requests name torrents that exist, and no queued alert
throws in the wait loop. -/
def Ready (engine : Lt.Session) : Prop :=
  (∀ request ∈ engine.saveRequests, engine.isValid request.1 = true) ∧
    ∀ alert ∈ engine.alerts, Drains engine alert = true

theorem Ready.answer {engine : Lt.Session} (ready : Ready engine) (position : Nat) (succeeded : Bool) :
    Ready (engine.react (.answer position succeeded)) ∧ (engine.react (.answer position succeeded)).alive = engine.alive := by
  simp only [Lt.Session.react]
  split
  · exact ⟨ready, rfl⟩
  · next handle request found =>
    refine ⟨⟨fun request member => ready.1 request (List.mem_of_mem_eraseIdx member), fun alert member => ?_⟩, rfl⟩
    rcases List.mem_append.mp member with old | new
    · exact ready.2 alert old
    · rw [List.mem_singleton.mp new]
      split
      · exact ready.1 _ (List.get?_mem found)
      · rfl

/-- A torrent removed just before the destructor begins, its `torrent_removed` alert
still queued: the chunk loop still visits its handle, whose torrent exists, saves it,
and its row outlives the destructor, though the engine no longer holds it. -/
theorem shutdown_keeps_removed_row :
    let s := (Session.create ⟨false, [], 0, 0⟩ (fun _ => none) ∅).run
      [.load, .addTorrent ⟨⟨1, 0⟩, "a", "/data", true, false, true, ⟨[⟨"a", 1⟩], 1, Nat.one_pos⟩, default⟩,
        .remove ⟨1, 0⟩]
    (s.shutdown [[.answer 1 true]]).map
      (fun result => (decide (⟨1, 0⟩ ∈ result.1.db), decide (⟨1, 0⟩ ∈ result.1.session.torrents))) =
      some (true, false) := by
  decide

/-- The steps of the runs the destructor ends: `AddTorrent` of no hash whose
`torrent_removed` alert is queued, `Remove`, drains, and any step of the engine that
frees a torrent only once nothing of the session names it. -/
def Persisting (s : Session) : Op → Prop
  | .addTorrent params => params.infoHashes ∉ TorrentAgreement.removals s.session.alerts
  | .remove _ | .readAlerts => True
  | .engine event => FreesUnnamed s (.engine event)
  | .load | .recheck _ => False

instance (s : Session) : ∀ op, Decidable (Persisting s op)
  | .addTorrent params => inferInstanceAs (Decidable (params.infoHashes ∉ _))
  | .engine event => inferInstanceAs (Decidable (FreesUnnamed s (.engine event)))
  | .remove _ | .readAlerts => isTrue trivial
  | .load | .recheck _ => isFalse id

theorem persisting_step {s : Session} {op : Op}
    (holds : TorrentAgreement.Agree s [] ∧ Live s ∧ Sound s) (persisting : Persisting s op) (supplied : Supplied op) :
    TorrentAgreement.Agree (s.step op) [] ∧ Live (s.step op) ∧ Sound (s.step op) := by
  obtain ⟨agree, live, sound⟩ := holds
  cases op with
  | addTorrent params => exact ⟨agree.step persisting, live.step trivial, sound.step supplied⟩
  | remove hash => exact ⟨agree.step trivial, live.step trivial, sound.step trivial⟩
  | readAlerts => exact ⟨agree.step (readAlerts_returns sound live), live.step trivial, sound.step trivial⟩
  | engine event => exact ⟨agree.step trivial, live.step persisting, sound.step trivial⟩
  | load => exact persisting.elim
  | recheck _ => exact persisting.elim

theorem persisting_run : ∀ {s : Session} {ops : List Op}, TorrentAgreement.Agree s [] ∧ Live s ∧ Sound s →
    Along Persisting s ops → (∀ op ∈ ops, Supplied op) → TorrentAgreement.Agree (s.run ops) []
  | _, [], holds, _, _ => holds.1
  | s, op :: _, holds, ⟨persisting, rest⟩, supplied =>
    persisting_run (s := s.step op) (persisting_step holds persisting (supplied op (List.mem_cons_self _ _))) rest
      fun op member => supplied op (List.mem_cons_of_mem _ member)

/-- After a run that loads a table whose rows carry their own hash and paired client
data, then adds torrents with paired client data, never a hash whose removal is
queued, removes, drains, and lets the engine answer, download, raise alerts and free
torrents once nothing names them, a destructor that begins once the alert queue is
drained leaves exactly the rows of the torrents the engine holds: those loaded or
added and not removed. -/
theorem shutdown_persists_held_torrents (options : SessionOptions)
    (parse : String → Option MediaInfoContainer) (db : TorrentsTable)
    (keyed : ∀ hash row, db.lookup hash = some row → row.params.infoHashes = hash)
    (paired : ∀ hash row, db.lookup hash = some row → Consistent row.params.userdata) (ops : List Op)
    (added : ∀ params, Op.addTorrent params ∈ ops → Consistent params.userdata)
    (persisting : Along Persisting ((Session.create options parse db).step .load) ops)
    (drained : (((Session.create options parse db).step .load).run ops).session.alerts = [])
    (schedule : List (List Lt.Session.Event)) :
    ∀ result ∈ (((Session.create options parse db).step .load).run ops).shutdown schedule,
      ∀ hash, hash ∈ result.1.db ↔ hash ∈ result.1.session.torrents := by
  intro result returned hash
  have agree := persisting_run ⟨TorrentAgreement.agree_load options parse db keyed,
    Live.load, (Sound.create paired).step (show Supplied .load from trivial)⟩ persisting
    (supplied_of_added added)
  obtain ⟨held, stored, -⟩ := agree.agreement drained
  obtain ⟨rows, kept⟩ := shutdown_returns _ schedule result returned
  rw [rows, mem_foldl_saveRow, kept.held, ← stored, held]

theorem shutdown_persists_held_torrents_after_remove :
    let row : AddTorrentParams :=
      ⟨default, "t", ⟨⟨1, 0⟩, "t", "/data", true, false, true, ⟨[⟨"a", 1⟩], 1, Nat.one_pos⟩, default⟩, 0, "/data"⟩
    let db : TorrentsTable := (∅ : TorrentsTable).insert ⟨1, 0⟩ row
    let s := (Session.create ⟨false, [], 0, 0⟩ (fun _ => none) db).step .load
    let ops : List Op := [.addTorrent ⟨⟨2, 0⟩, "u", "/data", true, false, true, ⟨[⟨"b", 1⟩], 1, Nat.one_pos⟩, default⟩,
      .engine (.download ⟨1⟩ 5), .engine (.raise (.pieceFinished ⟨1⟩ 0)), .engine (.answer 0 true),
      .remove ⟨1, 0⟩, .readAlerts, .engine (.release ⟨0⟩)]
    (∀ hash row, db.lookup hash = some row → row.params.infoHashes = hash) ∧
      (∀ hash row, db.lookup hash = some row → Consistent row.params.userdata) ∧
      (∀ params, Op.addTorrent params ∈ ops → Consistent params.userdata) ∧
      Along Persisting s ops ∧ (s.run ops).session.alerts = [] ∧
      ∀ result ∈ (s.run ops).shutdown [[.answer 0 true]],
        ∀ hash, hash ∈ result.1.db ↔ hash ∈ result.1.session.torrents := by
  intro row db s ops
  have paired : ∀ hash found, db.lookup hash = some found → Consistent found.params.userdata := by
    intro hash found present
    by_cases same : hash = ⟨1, 0⟩
    · rw [same, AList.lookup_insert, Option.some_inj] at present
      exact present ▸ Consistent.of_absent rfl rfl
    · rw [AList.lookup_insert_ne same, AList.lookup_empty] at present
      cases present
  have fresh : ∀ params, Op.addTorrent params ∈ ops → Consistent params.userdata := by
    intro params member
    simp only [ops, List.mem_cons, Op.addTorrent.injEq, reduceCtorEq, or_false, List.not_mem_nil] at member
    exact member ▸ Consistent.of_absent rfl rfl
  have persisting : Along Persisting s ops := by decide
  have drained : (s.run ops).session.alerts = [] := List.isEmpty_iff.mp (by decide)
  exact ⟨TorrentAgreement.keyed_singleton rfl, paired, fresh, persisting, drained,
    shutdown_persists_held_torrents ⟨false, [], 0, 0⟩ (fun _ => none) db (TorrentAgreement.keyed_singleton rfl)
      paired ops fresh persisting drained _⟩

end Porla.Proofs.Shutdown
