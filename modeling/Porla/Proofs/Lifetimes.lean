import Porla.Proofs.Restart

/-! The daemon over its lifetimes. Each lifetime constructs a session on the table
the previous destructor left, runs `Load`, then any calls, drains and engine steps,
and ends in the destructor. Both invariants of the table survive the destructor:
every row carries the hash it is stored under, and its client data has paired
prefetch maps. So in every lifetime `Load` throws nothing, and no drain of the
alert queue throws, as long as the engine frees a torrent only once nothing of the
session names it. -/

namespace Porla.Proofs.DrainSafety
open Porla Session Data.Models PrefetchMaps

section
variable {s : Session}

theorem Sound.request (sound : Sound s) (added : List (Lt.TorrentHandle × Nat)) :
    Sound { s with session := { s.session with
      saveRequests := s.session.saveRequests ++ added
      nextRequest := s.session.nextRequest + added.length } } :=
  sound.of_frame rfl (fun _ member => .inl member) fun _ => rfl

theorem Sound.foldl_react : ∀ {s : Session}, Sound s → ∀ batch : List Lt.Session.Event,
    Sound { s with session := batch.foldl Lt.Session.react s.session }
  | _, sound, [] => sound
  | _, sound, event :: rest => Sound.foldl_react (sound.react event) rest

/-- The rows of save results that carry paired maps have paired maps. -/
theorem paired_foldl_saveRow {engine : Lt.Session} :
    ∀ {alerts : List Lt.Alert} {db : TorrentsTable},
      (∀ hash row, db.lookup hash = some row → Consistent row.params.userdata) → (∀ alert ∈ alerts, Carries alert) →
      ∀ hash row, (alerts.foldl (Shutdown.saveRow engine) db).lookup hash = some row → Consistent row.params.userdata
  | [], _, rows, _ => rows
  | alert :: rest, db, rows, carried => by
    rw [List.foldl_cons]
    refine paired_foldl_saveRow ?_ fun other member => carried other (List.mem_cons_of_mem _ member)
    cases alert
    case saveResumeData th params request =>
      intro hash row found
      dsimp only [Shutdown.saveRow] at found
      rw [AddTorrentParams.lookup_update] at found
      split at found
      · cases found
        exact carried _ (List.mem_cons_self _ _)
      · exact rows hash row found
    all_goals exact rows

/-- One wake-up of the wait loop: the engine's steps keep the session sound, and the
drain writes only the add parameters the popped save results carry. -/
theorem Sound.drain (sound : Sound s) (batch : List Lt.Session.Event) :
    let popped := (batch.foldl Lt.Session.react s.session).popAlerts
    Sound { s with session := popped.2, db := popped.1.foldl (Shutdown.saveRow popped.2) s.db } :=
  have reacted := sound.foldl_react batch
  ⟨reacted.instances, fun _ member => absurd member (List.not_mem_nil _),
    paired_foldl_saveRow sound.rows reacted.queued⟩

theorem shutdown_sound (sound : Sound s) (schedule : List (List Lt.Session.Event)) :
    ∀ result ∈ s.shutdown schedule, Sound result.1 :=
  Restart.shutdown_preserves Sound (fun _ added sound _ => sound.request added)
    (fun _ batch sound => sound.drain batch) sound schedule

end

end Porla.Proofs.DrainSafety

namespace Porla.Proofs.Lifetimes
open Porla Session Data.Models PrefetchMaps Liveness DrainSafety Restart

/-- One lifetime of the daemon: the session's options and media-info parser, the
calls, drains and engine steps after `Load`, and the engine's answers while the
destructor waits. -/
structure Lifetime where
  options : SessionOptions
  parse : String → Option MediaInfoContainer
  ops : List Op
  schedule : List (List Lt.Session.Event)

namespace Lifetime

/-- The session constructed on the table. -/
def start (life : Lifetime) (db : TorrentsTable) : Session :=
  Session.create life.options life.parse db

/-- The table the destructor leaves, or `none` when it does not return. -/
def ended (life : Lifetime) (db : TorrentsTable) : Option TorrentsTable :=
  ((((life.start db).step .load).run life.ops).shutdown life.schedule).map (·.1.db)

/-- The lifetime's environment: the engine frees a torrent only once nothing of the
session names it, and every torrent the user adds comes with paired client data. -/
def Behaved (db : TorrentsTable) (life : Lifetime) : Prop :=
  Along FreesUnnamed ((life.start db).step .load) life.ops ∧
    ∀ params, Op.addTorrent params ∈ life.ops → Consistent params.userdata

/-- What the daemon does in the lifetime: `Load` throws nothing, and neither does a
drain at any point of the run. -/
def Safe (db : TorrentsTable) (life : Lifetime) : Prop :=
  (life.start db).load.2 = none ∧
    ∀ done ∈ life.ops.inits, (((life.start db).step .load).run done).readAlerts.2 = none

end Lifetime

/-- `holds` of each lifetime in turn, each on the table the one before it left, up to
a destructor that does not return. -/
def EachLifetime (holds : TorrentsTable → Lifetime → Prop) : TorrentsTable → List Lifetime → Prop
  | _, [] => True
  | db, life :: later => holds db life ∧ ∀ next ∈ life.ended db, EachLifetime holds next later

/-- Started on a table whose rows carry their own hash and paired client data, the
daemon throws neither from `Load` nor from a drain, in any lifetime, as long as in
each the engine frees only torrents nothing names and the user adds torrents with
paired client data. -/
theorem daemon_never_throws_across_restarts (db : TorrentsTable) (keyed : KeyedTable db)
    (paired : ∀ hash row, db.lookup hash = some row → Consistent row.params.userdata) (lives : List Lifetime)
    (behaved : EachLifetime Lifetime.Behaved db lives) : EachLifetime Lifetime.Safe db lives := by
  induction lives generalizing db with
  | nil => trivial
  | cons life later ih =>
    obtain ⟨⟨frees, added⟩, rest⟩ := behaved
    have loaded : Sound ((life.start db).step .load) := (Sound.create paired).step trivial
    have live : Live ((life.start db).step .load) := Live.create.step trivial
    have run : Keyed (((life.start db).step .load).run life.ops) := ((Keyed.create keyed).step .load).run life.ops
    refine ⟨⟨(load_keyed _ _ keyed).1, fun done earlier => ?_⟩, fun next ended => ?_⟩
    · obtain ⟨unseen, whole⟩ := (List.mem_inits _ _).mp earlier
      rw [← whole] at frees added
      exact readAlerts_returns (loaded.run fun op member => supplied_of_added added op (List.mem_append_left _ member))
        (live.run frees.prefix)
    · obtain ⟨result, returned, rfl⟩ := Option.mem_map.mp ended
      exact ih result.1.db (shutdown_saving ⟨run.table, run.issued⟩ _ result returned)
        (shutdown_sound (loaded.run (supplied_of_added added)) _ result returned).rows (rest _ ended)

theorem daemon_never_throws_across_two_lifetimes :
    let params : Lt.AddTorrentParams :=
      ⟨⟨1, 0⟩, "t", "/data", true, false, true, ⟨[⟨"a.mkv", 2⟩], 1, Nat.one_pos⟩, default⟩
    let first : Lifetime := ⟨⟨true, [".mkv"], 0, 2⟩, fun _ => none,
      [.addTorrent params, .engine (.raise (.pieceFinished ⟨0⟩ 0)), .engine (.answer 0 true), .readAlerts],
      [[.answer 0 true]]⟩
    let second : Lifetime := ⟨⟨true, [".mkv"], 0, 2⟩, fun _ => none, [.engine (.answer 0 true), .readAlerts], []⟩
    KeyedTable ∅ ∧ (∀ hash row, (∅ : TorrentsTable).lookup hash = some row → Consistent row.params.userdata) ∧
      (first.ended ∅).isSome ∧
      EachLifetime Lifetime.Behaved ∅ [first, second] ∧ EachLifetime Lifetime.Safe ∅ [first, second] := by
  intro params first second
  have empty : KeyedTable ∅ := fun _ _ found => absurd found (by simp)
  have paired : ∀ hash row, (∅ : TorrentsTable).lookup hash = some row → Consistent row.params.userdata :=
    fun _ _ found => absurd found (by simp)
  have fresh : ∀ added, Op.addTorrent added ∈ first.ops → Consistent added.userdata := by
    intro added member
    simp only [first, List.mem_cons, Op.addTorrent.injEq, reduceCtorEq, or_false, List.not_mem_nil] at member
    exact member ▸ Consistent.of_absent rfl rfl
  have behaved : EachLifetime Lifetime.Behaved ∅ [first, second] :=
    ⟨⟨⟨trivial, trivial, trivial, trivial, trivial⟩, fresh⟩,
      fun _ _ => ⟨⟨⟨trivial, trivial, trivial⟩, fun _ member => by simp [second] at member⟩, fun _ _ => trivial⟩⟩
  exact ⟨empty, paired, by decide, behaved, daemon_never_throws_across_restarts ∅ empty paired _ behaved⟩

end Porla.Proofs.Lifetimes
