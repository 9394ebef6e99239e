import Porla.Proofs.ClientData
import Porla.Proofs.Prefetch
import Porla.Proofs.PrefetchSetup

/-! The representation invariant of the prefetch maps: the wanted and completed maps
are there together, name the same files, and each completed set lies within its
wanted set, both without repeats. The setup establishes it and every `piece_finished`
alert keeps it, so the handler's optional dereferences and its `at(wanted_file)` never
throw, and its size comparison decides set equality. -/

namespace Porla.Proofs.PrefetchMaps
open Porla Session Data.Models

/-- A file's two sets: both there, completed within wanted, each without repeats; or
neither. -/
def Paired : Option (List Nat) → Option (List Nat) → Prop
  | some want, some done => want.Nodup ∧ done.Nodup ∧ done ⊆ want
  | none, none => True
  | _, _ => False

/-- The invariant of the two maps: there together, and every file paired. -/
structure Consistent (data : TorrentClientData) : Prop where
  together : data.mediainfoFilePiecesWanted.isSome = data.mediainfoFilePiecesCompleted.isSome
  paired : ∀ wanted completed, data.mediainfoFilePiecesWanted = some wanted →
    data.mediainfoFilePiecesCompleted = some completed → ∀ file, Paired (wanted.lookup file) (completed.lookup file)

theorem Consistent.of_absent {data : TorrentClientData} (noWanted : data.mediainfoFilePiecesWanted = none)
    (noCompleted : data.mediainfoFilePiecesCompleted = none) : Consistent data :=
  ⟨by rw [noWanted, noCompleted], fun _ _ found => by rw [noWanted] at found; cases found⟩

theorem Paired.of_some {want : List Nat} :
    ∀ {done? : Option (List Nat)}, Paired (some want) done? → ∃ done, done? = some done ∧ Paired (some want) (some done)
  | some done, paired => ⟨done, rfl, paired⟩
  | none, paired => paired.elim

theorem Paired.advance {want done : List Nat} (paired : Paired (some want) (some done)) (piece : Nat) :
    Paired (some want) (some (if piece ∈ want then done.insert piece else done)) := by
  obtain ⟨wantDistinct, distinct, inRun⟩ := paired
  split
  · next wanted =>
    exact ⟨wantDistinct, distinct.insert, fun other mem =>
      (List.mem_insert_iff.mp mem).elim (fun same => same ▸ wanted) (inRun ·)⟩
  · exact ⟨wantDistinct, distinct, inRun⟩

theorem Paired.size_test {want done : List Nat} (paired : Paired (some want) (some done)) :
    done.length = want.length ↔ ∀ other, other ∈ done ↔ other ∈ want := by
  obtain ⟨wantDistinct, distinct, inRun⟩ := paired
  exact ⟨fun full other => ⟨(inRun ·), (Prefetch.covers distinct inRun full ·)⟩,
    fun same => ((List.perm_ext_iff_of_nodup distinct wantDistinct).mpr same).length_eq⟩

theorem runOf_nodup (options : SessionOptions) (storage : Lt.FileStorage) (file : Nat) :
    (PrefetchSetup.runOf options storage file).Nodup := by
  obtain ⟨count, eq, -⟩ := PrefetchSetup.runOf_wanted options storage file
  rw [eq]
  exact List.nodup_range' _ _

theorem selectFile_consistent (options : SessionOptions) (storage : Lt.FileStorage)
    {acc : List Nat × TorrentClientData} (consistent : Consistent acc.2) (file : Nat) :
    Consistent (selectFile options storage acc file).2 := by
  rw [PrefetchSetup.selectFile_eq]
  split
  · refine ⟨rfl, ?_⟩
    rintro wanted completed ⟨⟩ ⟨⟩ other
    rw [Prefetch.lookup_singleton, Prefetch.lookup_singleton]
    split
    · exact ⟨runOf_nodup options storage file, List.nodup_nil, List.nil_subset _⟩
    · trivial
  · exact consistent

theorem mediainfoSetup_consistent (options : SessionOptions) (torrent : Lt.Torrent)
    (consistent : Consistent torrent.userdata) : Consistent (mediainfoSetup options torrent).userdata := by
  have loop : ∀ (files : List Nat) (acc : List Nat × TorrentClientData), Consistent acc.2 →
      Consistent (files.foldl (selectFile options torrent.files) acc).2 := by
    intro files
    induction files with
    | nil => exact fun _ consistent => consistent
    | cons file rest ih => exact fun acc consistent => ih _ (selectFile_consistent _ _ consistent file)
  have selected := loop (List.range torrent.files.files.length) ([], torrent.userdata) consistent
  dsimp only [mediainfoSetup]
  split
  · exact selected
  · exact ⟨selected.together, selected.paired⟩

/-- `AddTorrent` of a torrent the engine takes, with paired client data, leaves the new
torrent's maps paired. -/
theorem addTorrent_consistent {s : Session} {params : Lt.AddTorrentParams}
    (free : params.infoHashes ∉ s.session.torrents) (consistent : Consistent params.userdata)
    {added : Session × Lt.InfoHash} (returned : s.addTorrent params = some added) :
    Consistent (added.1.session.instances ⟨s.session.nextHandle⟩).userdata := by
  rw [Session.addTorrent_instances_self (if_neg free) returned]
  split
  · exact mediainfoSetup_consistent _ _ consistent
  · exact consistent

section Step
variable (parse : String → Option MediaInfoContainer) (th : Lt.TorrentHandle)
  (storage : Lt.FileStorage) (savePath : String) (piece : Nat)

theorem finishPiece_consistent {data : TorrentClientData} (events : List Event)
    (consistent : Consistent data) (live : data.mediainfoFilePiecesWanted.isSome) (file : Nat) :
    ∃ data' events', finishPiece parse th storage savePath piece (data, events) file = .ok (data', events') ∧
      Consistent data' ∧ data'.mediainfoFilePiecesWanted.isSome := by
  obtain ⟨wanted, hw⟩ := Option.isSome_iff_exists.mp live
  obtain ⟨completed, hc⟩ := Option.isSome_iff_exists.mp (consistent.together ▸ live)
  have paired := consistent.paired wanted completed hw hc
  by_cases idle : ((wanted.lookup file).getD []).isEmpty
  · rw [finishPiece_idle hw hc idle]
    exact ⟨data, events, rfl, consistent, live⟩
  · obtain ⟨want, found, wantNe⟩ := wanted_of_busy idle
    obtain ⟨done, has, here⟩ := Paired.of_some (found ▸ paired file)
    have advanced := here.advance piece
    rw [finishPiece_counted hw hc found wantNe has]
    generalize (if piece ∈ want then done.insert piece else done) = done' at advanced ⊢
    dsimp only
    split
    · refine ⟨_, _, rfl, ⟨rfl, ?_⟩, rfl⟩
      rintro _ _ ⟨⟩ ⟨⟩ other
      by_cases same : other = file
      · subst same
        rw [AList.lookup_insert, AList.lookup_insert]
        exact ⟨List.nodup_nil, List.nodup_nil, List.nil_subset _⟩
      · rw [AList.lookup_insert_ne same, AList.lookup_insert_ne same]
        exact paired other
    · refine ⟨{ data with mediainfoFilePiecesCompleted := some (completed.insert file done') }, events, rfl,
        ⟨by rw [hw]; rfl, ?_⟩, live⟩
      rintro wanted' _ found' ⟨⟩ other
      obtain rfl := Option.some_inj.mp (hw.symm.trans found')
      by_cases same : other = file
      · subst same
        rw [AList.lookup_insert, found]
        exact advanced
      · rw [AList.lookup_insert_ne same]
        exact paired other

theorem foldlM_finishPiece_consistent :
    ∀ (files : List Nat) (data : TorrentClientData) (events : List Event),
      Consistent data → data.mediainfoFilePiecesWanted.isSome →
      ∃ data' events',
        files.foldlM (finishPiece parse th storage savePath piece) (data, events) = .ok (data', events') ∧
        Consistent data' ∧ data'.mediainfoFilePiecesWanted.isSome
  | [], data, events, consistent, live => ⟨data, events, rfl, consistent, live⟩
  | file :: rest, data, events, consistent, live => by
    obtain ⟨data₁, events₁, turned, consistent₁, live₁⟩ :=
      finishPiece_consistent parse th storage savePath piece events consistent live file
    obtain ⟨data₂, events₂, rest₂, consistent₂, live₂⟩ :=
      foldlM_finishPiece_consistent rest data₁ events₁ consistent₁ live₁
    exact ⟨data₂, events₂, by rw [List.foldlM_cons, turned]; exact rest₂, consistent₂, live₂⟩

end Step

/-- The `piece_finished` case on a torrent whose object exists and whose maps are
paired throws nothing and keeps them paired. -/
theorem pieceFinished_consistent {s : Session} {th : Lt.TorrentHandle} (valid : s.session.isValid th = true)
    (consistent : Consistent (s.session.instances th).userdata) (piece : Nat) :
    ∃ s', s.pieceFinished th piece = .ok s' ∧ Consistent (s'.session.instances th).userdata := by
  rw [Session.pieceFinished, Lt.Session.status_of_valid _ valid, ok_bind]
  split
  · exact ⟨s, rfl, consistent⟩
  · next wanted hw =>
    split
    · exact ⟨s, rfl, consistent⟩
    · obtain ⟨data, events, turned, consistent', live⟩ :=
        foldlM_finishPiece_consistent s.parseExternal th (s.session.instances th).files
          (s.session.instances th).savePath piece wanted.keys _ [] consistent (by rw [hw]; rfl)
      obtain ⟨completed, hc⟩ := Option.isSome_iff_exists.mp (consistent'.together ▸ live)
      rw [turned]
      simp only [bind, Except.bind, hc, pure, Except.pure]
      split
      · refine ⟨_, rfl, ?_⟩
        rw [Lt.Session.instances_modify, if_pos rfl]
        exact Consistent.of_absent rfl rfl
      · refine ⟨_, rfl, ?_⟩
        rw [Lt.Session.instances_modify, if_pos rfl]
        exact consistent'

theorem dispatch_consistent (th : Lt.TorrentHandle) :
    ∀ (pieces : List Nat) (s : Session), s.session.isValid th = true → Consistent (s.session.instances th).userdata →
      (s.dispatch (pieces.map (.pieceFinished th))).2 = none ∧
        Consistent ((s.dispatch (pieces.map (.pieceFinished th))).1.session.instances th).userdata
  | [], _, _, consistent => ⟨rfl, consistent⟩
  | piece :: rest, s, valid, consistent => by
    obtain ⟨s₁, finished, consistent₁⟩ := pieceFinished_consistent valid consistent piece
    have step : s.dispatch ((piece :: rest).map (.pieceFinished th)) =
        s₁.dispatch (rest.map (.pieceFinished th)) := by
      simp only [List.map_cons, dispatch, handleAlert, finished]
    have valid₁ : s₁.session.isValid th = true := by
      obtain ⟨-, _, -, engine⟩ := pieceFinished_modifies finished
      rw [engine]
      exact valid
    rw [step]
    exact dispatch_consistent th rest s₁ valid₁ consistent₁

/-- From the setup of `AddTorrent` on client data with paired maps (fresh client data
has none), every sequence of `piece_finished` alerts for the torrent is handled
without an exception and leaves the maps paired: present together, naming the same
files, completed within wanted; and the handler's size test for the next piece holds
exactly when the completed set, with that piece, equals the wanted set. -/
theorem prefetch_maps_stay_paired (s : Session) (params : Lt.AddTorrentParams)
    (free : params.infoHashes ∉ s.session.torrents) (consistent : Consistent params.userdata)
    (pieces : List Nat) (added : Session × Lt.InfoHash) (returned : s.addTorrent params = some added) :
    let th : Lt.TorrentHandle := ⟨s.session.nextHandle⟩
    let drained := added.1.dispatch (pieces.map (.pieceFinished th))
    drained.2 = none ∧ Consistent (drained.1.session.instances th).userdata ∧
      ∀ wanted completed, (drained.1.session.instances th).userdata.mediainfoFilePiecesWanted = some wanted →
        (drained.1.session.instances th).userdata.mediainfoFilePiecesCompleted = some completed →
        ∀ file want done piece, wanted.lookup file = some want → completed.lookup file = some done →
          ((if piece ∈ want then done.insert piece else done).length = want.length ↔
            ∀ other, other ∈ (if piece ∈ want then done.insert piece else done) ↔ other ∈ want) := by
  intro th drained
  obtain ⟨clean, paired⟩ := dispatch_consistent th pieces _ (addTorrent_valid_self (if_neg free) returned)
    (addTorrent_consistent free consistent returned)
  refine ⟨clean, paired, fun wanted completed hw hc file want done piece found has => ?_⟩
  have here := paired.paired wanted completed hw hc file
  rw [found, has] at here
  exact (here.advance piece).size_test

theorem prefetch_maps_stay_paired_on_one_file :
    let s := Session.create ⟨true, [".mkv"], 0, 2⟩ (fun _ => none) ∅
    let params : Lt.AddTorrentParams := ⟨⟨1, 0⟩, "t", "/data", true, false, true,
      ⟨[⟨"a.mkv", 2⟩], 1, Nat.one_pos⟩, default⟩
    let added := (s.addTorrent params).getD (s, ⟨0, 0⟩)
    params.infoHashes ∉ s.session.torrents ∧ Consistent params.userdata ∧ s.addTorrent params = some added ∧
      let th : Lt.TorrentHandle := ⟨s.session.nextHandle⟩
      let drained := added.1.dispatch ([1, 0].map (.pieceFinished th))
      drained.2 = none ∧ Consistent (drained.1.session.instances th).userdata ∧
        ∀ wanted completed, (drained.1.session.instances th).userdata.mediainfoFilePiecesWanted = some wanted →
          (drained.1.session.instances th).userdata.mediainfoFilePiecesCompleted = some completed →
          ∀ file want done piece, wanted.lookup file = some want → completed.lookup file = some done →
            ((if piece ∈ want then done.insert piece else done).length = want.length ↔
              ∀ other, other ∈ (if piece ∈ want then done.insert piece else done) ↔ other ∈ want) := by
  intro s params added
  exact ⟨by decide, Consistent.of_absent rfl rfl, rfl,
    prefetch_maps_stay_paired s params (by decide) (Consistent.of_absent rfl rfl) [1, 0] added rfl⟩

theorem consistent_stable (th : Lt.TorrentHandle) : ClientData.Stable Consistent th where
  pieceFinished consistent finished := by
    obtain ⟨s', finished', consistent'⟩ := pieceFinished_consistent (pieceFinished_valid finished) consistent _
    rw [finished] at finished'
    cases finished'
    exact consistent'
  torrentFinished s consistent := by
    obtain ⟨-, -, status⟩ := ClientData.torrentFinished_spec s th
    rw [status]
    split
    · exact ⟨consistent.together, consistent.paired⟩
    · exact consistent

/-- A torrent whose maps are paired keeps them paired over every run of the event loop,
whatever the other torrents, the user and the engine do; so at every later point at
which the torrent's object still exists its `piece_finished` case throws nothing. -/
theorem prefetch_maps_stay_paired_over_runs (s : Session) (th : Lt.TorrentHandle)
    (issued : th.id < s.session.nextHandle) (consistent : Consistent (s.session.instances th).userdata)
    (ops : List Op) (piece : Nat) :
    Consistent ((s.run ops).session.instances th).userdata ∧
      ((s.run ops).session.isValid th = true → ∃ s', (s.run ops).pieceFinished th piece = .ok s') := by
  have kept := (show ClientData.Kept Consistent th s from ⟨issued, consistent⟩).run (consistent_stable th) ops
  refine ⟨kept.2, fun valid => ?_⟩
  obtain ⟨s', finished, -⟩ := pieceFinished_consistent valid kept.2 piece
  exact ⟨s', finished⟩

theorem prefetch_maps_stay_paired_over_runs_after_add :
    let s := Session.create ⟨true, [".mkv"], 0, 2⟩ (fun _ => none) ∅
    let params : Lt.AddTorrentParams := ⟨⟨1, 0⟩, "t", "/data", true, false, true,
      ⟨[⟨"a.mkv", 2⟩], 1, Nat.one_pos⟩, default⟩
    let added := ((s.addTorrent params).getD (s, ⟨0, 0⟩)).1
    let ops : List Op := [.engine (.raise (.pieceFinished ⟨0⟩ 1)), .readAlerts, .engine (.download ⟨0⟩ 2),
      .engine (.raise (.torrentFinished ⟨0⟩)), .readAlerts]
    (⟨0⟩ : Lt.TorrentHandle).id < added.session.nextHandle ∧
      Consistent (added.session.instances ⟨0⟩).userdata ∧ (added.run ops).session.isValid ⟨0⟩ = true ∧
      Consistent ((added.run ops).session.instances ⟨0⟩).userdata ∧
      ((added.run ops).session.isValid ⟨0⟩ = true → ∃ s', (added.run ops).pieceFinished ⟨0⟩ 0 = .ok s') := by
  intro s params added ops
  have start : Consistent (added.session.instances ⟨0⟩).userdata :=
    addTorrent_consistent (by decide) (Consistent.of_absent rfl rfl) (show s.addTorrent params = some _ from rfl)
  exact ⟨by decide, start, by decide, prefetch_maps_stay_paired_over_runs _ _ (by decide) start ops 0⟩

end Porla.Proofs.PrefetchMaps
