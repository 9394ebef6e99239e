import Porla.Session.EventLoop

/-! The media-info prefetch of one torrent: the wanted and completed maps the setup
of `AddTorrent` leaves in the client data, and the `piece_finished` case that
extracts a file once its run has arrived and ends the prefetch once every completed
set is empty. Whatever the layout and the order of finished pieces, no exception is
thrown, a file is extracted at most once and only after every piece of its run was
reported, and the prefetch ends at most once. It can end before anything is
extracted: the setup keeps only the last selected file, and the end test cannot tell
a completed set emptied by an extraction from one still waiting for its first piece. -/

namespace Porla.Proofs.Prefetch
open Porla.Session Data.Models

/-- The extractions the events record: file and path. -/
def extractions : List Event → List (Nat × String)
  | [] => []
  | .mediainfoParsed _ file path :: rest => (file, path) :: extractions rest
  | _ :: rest => extractions rest

/-- How often the prefetch ended: the `torrent-mediainfo` posts. -/
def prefetchEnds : List Event → Nat
  | [] => 0
  | .torrentMediaInfo _ :: rest => prefetchEnds rest + 1
  | _ :: rest => prefetchEnds rest

@[simp] theorem extractions_append (first second : List Event) :
    extractions (first ++ second) = extractions first ++ extractions second := by
  induction first with
  | nil => rfl
  | cons event rest ih => cases event <;> simp [extractions, ih]

@[simp] theorem prefetchEnds_append (first second : List Event) :
    prefetchEnds (first ++ second) = prefetchEnds first + prefetchEnds second := by
  induction first with
  | nil => simp [prefetchEnds]
  | cons event rest ih => cases event <;> simp [prefetchEnds, ih]; omega

/-- Every file the wanted map names has an empty completed set: no piece counted yet. -/
def Unstarted (data : TorrentClientData) : Prop :=
  ∀ wanted, data.mediainfoFilePiecesWanted = some wanted →
    ∃ completed, data.mediainfoFilePiecesCompleted = some completed ∧
      ∀ file want, wanted.lookup file = some want → completed.lookup file = some []

theorem lookup_singleton (key file : Nat) (value : List Nat) :
    (AList.singleton key value : AList (fun _ : Nat => List Nat)).lookup file =
      if file = key then some value else none := by
  rw [← AList.insert_empty]
  split
  · next same => rw [same, AList.lookup_insert]
  · next different => rw [AList.lookup_insert_ne different, AList.lookup_empty]

theorem selectFile_unstarted (options : SessionOptions) (storage : Lt.FileStorage)
    {acc : List Nat × TorrentClientData} (unstarted : Unstarted acc.2) (file : Nat) :
    Unstarted (selectFile options storage acc file).2 := by
  unfold selectFile
  split
  · exact unstarted
  · split
    · rintro wanted ⟨⟩
      refine ⟨_, rfl, fun other want found => ?_⟩
      rw [lookup_singleton] at found ⊢
      by_cases same : other = file
      · rw [if_pos same]
      · rw [if_neg same] at found
        cases found
    · exact unstarted

theorem mediainfoSetup_unstarted (options : SessionOptions) (torrent : Lt.Torrent)
    (unstarted : Unstarted torrent.userdata) : Unstarted (mediainfoSetup options torrent).userdata := by
  have loop : ∀ (files : List Nat) (acc : List Nat × TorrentClientData), Unstarted acc.2 →
      Unstarted (files.foldl (selectFile options torrent.files) acc).2 := by
    intro files
    induction files with
    | nil => exact fun _ unstarted => unstarted
    | cons file rest ih => exact fun acc unstarted => ih _ (selectFile_unstarted _ _ unstarted file)
  dsimp only [mediainfoSetup]
  split
  · exact loop _ _ unstarted
  · exact loop _ _ unstarted

/-- A file still awaited: its run is the one set up, it was not extracted, and its
completed set holds distinct pieces of the run that were reported. -/
structure Awaited (runs : AList (fun _ : Nat => List Nat)) (reported extracted : List Nat)
    (completed : AList (fun _ : Nat => List Nat)) (file : Nat) (want : List Nat) : Prop where
  setUp : runs.lookup file = some want
  fresh : file ∉ extracted
  counted : ∃ done, completed.lookup file = some done ∧ done.Nodup ∧ done ⊆ want ∧ done ⊆ reported

/-- Every file with pieces still wanted is awaited. -/
def AllAwaited (runs : AList (fun _ : Nat => List Nat)) (reported extracted : List Nat)
    (wanted completed : AList (fun _ : Nat => List Nat)) : Prop :=
  ∀ file want, wanted.lookup file = some want → want ≠ [] → Awaited runs reported extracted completed file want

/-- The prefetch state of a torrent against the runs of its setup: the files extracted
so far, each once and after its whole run was reported, the files still awaited, and
how often the prefetch ended, at most once and then for good. -/
structure Tracking (runs : AList (fun _ : Nat => List Nat)) (reported extracted : List Nat)
    (ends : Nat) (data : TorrentClientData) : Prop where
  once : extracted.Nodup
  afterRun : ∀ file ∈ extracted, ∀ piece ∈ (runs.lookup file).getD [], piece ∈ reported
  awaited : ∀ wanted, data.mediainfoFilePiecesWanted = some wanted →
    ∃ completed, data.mediainfoFilePiecesCompleted = some completed ∧
      AllAwaited runs reported extracted wanted completed
  ended : ends ≤ 1 ∧ (ends = 1 → data.mediainfoFilePiecesWanted = none)

variable {runs : AList (fun _ : Nat => List Nat)}

private theorem not_ended (data : TorrentClientData) :
    0 ≤ 1 ∧ (0 = 1 → data.mediainfoFilePiecesWanted = none) :=
  ⟨Nat.zero_le _, fun never => absurd never Nat.zero_ne_one⟩

theorem Tracking.initial {data : TorrentClientData} (unstarted : Unstarted data) :
    Tracking (data.mediainfoFilePiecesWanted.getD ∅) [] [] 0 data where
  once := List.nodup_nil
  afterRun _ absent := absurd absent (List.not_mem_nil _)
  awaited wanted found :=
    let ⟨completed, has, empty⟩ := unstarted wanted found
    ⟨completed, has, fun file want inRun _ =>
      ⟨by rw [found]; exact inRun, List.not_mem_nil _, [], empty file want inRun, List.nodup_nil,
        List.nil_subset _, List.nil_subset _⟩⟩
  ended := not_ended data

theorem Awaited.mono {reported reported' extracted : List Nat} {completed} {file want}
    (awaited : Awaited runs reported extracted completed file want) (more : reported ⊆ reported') :
    Awaited runs reported' extracted completed file want :=
  let ⟨done, found, distinct, inRun, seen⟩ := awaited.counted
  ⟨awaited.setUp, awaited.fresh, done, found, distinct, inRun, seen.trans more⟩

theorem Awaited.insert_other {reported extracted : List Nat} {completed} {file want}
    (awaited : Awaited runs reported extracted completed file want) {other : Nat}
    (different : file ≠ other) (value : List Nat) :
    Awaited runs reported extracted (completed.insert other value) file want :=
  let ⟨done, found, distinct, inRun, seen⟩ := awaited.counted
  ⟨awaited.setUp, awaited.fresh, done, by rw [AList.lookup_insert_ne different]; exact found,
    distinct, inRun, seen⟩

theorem Awaited.extend {reported extracted more : List Nat} {completed} {file want}
    (awaited : Awaited runs reported extracted completed file want) (absent : file ∉ more) :
    Awaited runs reported (extracted ++ more) completed file want :=
  ⟨awaited.setUp, by simp [awaited.fresh, absent], awaited.counted⟩

section Turn
variable {reported extracted : List Nat} {wanted completed : AList (fun _ : Nat => List Nat)}
  {file : Nat} {want : List Nat}

theorem AllAwaited.count (all : AllAwaited runs reported extracted wanted completed)
    (found : wanted.lookup file = some want) (wantNe : want ≠ []) {done : List Nat}
    (distinct : done.Nodup) (inRun : done ⊆ want) (seen : done ⊆ reported) :
    AllAwaited runs reported extracted wanted (completed.insert file done) := by
  intro other want' inRun' nonempty
  by_cases same : other = file
  · subst same
    obtain rfl := Option.some_inj.mp (inRun'.symm.trans found)
    have awaited := all other want' found wantNe
    exact ⟨awaited.setUp, awaited.fresh, done, AList.lookup_insert _, distinct, inRun, seen⟩
  · exact (all other want' inRun' nonempty).insert_other same done

theorem AllAwaited.extract (all : AllAwaited runs reported extracted wanted completed) (file : Nat) :
    AllAwaited runs reported (extracted ++ [file]) (wanted.insert file []) (completed.insert file []) := by
  intro other want' inRun nonempty
  by_cases same : other = file
  · subst same
    rw [AList.lookup_insert] at inRun
    cases inRun
    exact absurd rfl nonempty
  · rw [AList.lookup_insert_ne same] at inRun
    exact ((all other want' inRun nonempty).insert_other same []).extend (by simpa using same)

end Turn

theorem Tracking.mono {reported reported' extracted : List Nat} {ends} {data}
    (tracking : Tracking runs reported extracted ends data) (more : reported ⊆ reported') :
    Tracking runs reported' extracted ends data where
  once := tracking.once
  afterRun file extracted piece inRun := more (tracking.afterRun file extracted piece inRun)
  awaited wanted found :=
    let ⟨completed, has, each⟩ := tracking.awaited wanted found
    ⟨completed, has, fun file want inRun nonempty => (each file want inRun nonempty).mono more⟩
  ended := tracking.ended

theorem advance {done want reported : List Nat} {piece : Nat} (distinct : done.Nodup)
    (inRun : done ⊆ want) (seen : done ⊆ reported) (reportedPiece : piece ∈ reported) :
    let done' := if piece ∈ want then done.insert piece else done
    done'.Nodup ∧ done' ⊆ want ∧ done' ⊆ reported := by
  split
  · next wanted =>
    refine ⟨distinct.insert, fun other mem => ?_, fun other mem => ?_⟩ <;>
      rcases List.mem_insert_iff.mp mem with rfl | mem
    exacts [wanted, inRun mem, reportedPiece, seen mem]
  · exact ⟨distinct, inRun, seen⟩

theorem covers {done want : List Nat} (distinct : done.Nodup) (inRun : done ⊆ want)
    (full : done.length = want.length) : want ⊆ done :=
  ((List.subperm_of_subset distinct inRun).perm_of_length_le full.ge).symm.subset

section Step
variable (parse : String → Option MediaInfoContainer) (th : Lt.TorrentHandle)
  (storage : Lt.FileStorage) (savePath : String) {piece : Nat} {reported : List Nat}

theorem finishPiece_tracking (reportedPiece : piece ∈ reported) {data : TorrentClientData}
    (events : List Event) {extracted : List Nat} (tracking : Tracking runs reported extracted 0 data)
    (live : data.mediainfoFilePiecesWanted.isSome) (file : Nat) :
    ∃ data' added, finishPiece parse th storage savePath piece (data, events) file = .ok (data', events ++ added) ∧
      data'.mediainfoFilePiecesWanted.isSome ∧ prefetchEnds added = 0 ∧
      Tracking runs reported (extracted ++ (extractions added).map Prod.fst) 0 data' := by
  obtain ⟨wanted, hw⟩ := Option.isSome_iff_exists.mp live
  obtain ⟨completed, hc, each⟩ := tracking.awaited wanted hw
  by_cases idle : ((wanted.lookup file).getD []).isEmpty
  · rw [finishPiece_idle hw hc idle]
    exact ⟨data, [], by rw [List.append_nil], live, rfl, by simpa [extractions] using tracking⟩
  · obtain ⟨want, found, wantNe⟩ := wanted_of_busy idle
    obtain ⟨setUp, fresh, done, has, distinct, inRun, seen⟩ := each file want found wantNe
    obtain ⟨distinct', inRun', seen'⟩ := advance distinct inRun seen reportedPiece
    rw [finishPiece_counted hw hc found wantNe has]
    generalize (if piece ∈ want then done.insert piece else done) = done' at distinct' inRun' seen' ⊢
    dsimp only
    split
    · next full =>
      refine ⟨_, _, rfl, rfl, rfl, ?_⟩
      simp only [extractions, List.map_cons, List.map_nil]
      refine ⟨?_, fun other mem => ?_, by rintro _ ⟨⟩; exact ⟨_, rfl, each.extract file⟩, not_ended _⟩
      · exact List.nodup_append.mpr ⟨tracking.once, List.nodup_singleton _,
          fun _ mem same => fresh (List.mem_singleton.mp same ▸ mem)⟩
      · rcases List.mem_append.mp mem with old | same
        · exact tracking.afterRun other old
        · rw [List.mem_singleton.mp same, setUp]
          exact fun piece mem => seen' (covers distinct' inRun' full mem)
    · refine ⟨{ data with mediainfoFilePiecesCompleted := some (completed.insert file done') }, [],
        by rw [List.append_nil], live, rfl, ?_⟩
      simp only [extractions, List.map_nil, List.append_nil]
      refine ⟨tracking.once, tracking.afterRun, fun wanted' found' => ?_, not_ended _⟩
      obtain rfl := Option.some_inj.mp (hw.symm.trans found')
      exact ⟨_, rfl, each.count found wantNe distinct' inRun' seen'⟩

theorem foldlM_finishPiece_tracking (reportedPiece : piece ∈ reported) :
    ∀ (files : List Nat) (data : TorrentClientData) (events : List Event) (extracted : List Nat),
      Tracking runs reported extracted 0 data → data.mediainfoFilePiecesWanted.isSome →
      ∃ data' added,
        files.foldlM (finishPiece parse th storage savePath piece) (data, events) = .ok (data', events ++ added) ∧
        data'.mediainfoFilePiecesWanted.isSome ∧ prefetchEnds added = 0 ∧
        Tracking runs reported (extracted ++ (extractions added).map Prod.fst) 0 data'
  | [], data, events, extracted, tracking, live =>
    ⟨data, [], by rw [List.append_nil]; rfl, live, rfl, by simpa [extractions] using tracking⟩
  | file :: rest, data, events, extracted, tracking, live => by
    obtain ⟨data₁, added₁, turned, live₁, ends₁, tracking₁⟩ :=
      finishPiece_tracking parse th storage savePath reportedPiece events tracking live file
    obtain ⟨data₂, added₂, rest₂, live₂, ends₂, tracking₂⟩ :=
      foldlM_finishPiece_tracking reportedPiece rest data₁ (events ++ added₁) _ tracking₁ live₁
    refine ⟨data₂, added₁ ++ added₂, ?_, live₂, by simp [ends₁, ends₂], by simpa using tracking₂⟩
    rw [List.foldlM_cons, turned]
    simpa using rest₂

end Step

/-- The `piece_finished` case on a tracked torrent: it throws nothing, and the torrent
stays tracked with the piece reported. -/
theorem pieceFinished_tracking {s : Session} {th : Lt.TorrentHandle} {reported extracted : List Nat}
    {ends : Nat} (valid : s.session.isValid th = true)
    (tracking : Tracking runs reported extracted ends (s.session.instances th).userdata) (piece : Nat) :
    ∃ s' added, s.pieceFinished th piece = .ok s' ∧ s'.events = s.events ++ added ∧
      Tracking runs (reported ++ [piece]) (extracted ++ (extractions added).map Prod.fst)
        (ends + prefetchEnds added) (s'.session.instances th).userdata := by
  have more : reported ⊆ reported ++ [piece] := List.subset_append_left _ _
  have unchanged : ∃ s' added, (Except.ok s : Except String Session) = .ok s' ∧ s'.events = s.events ++ added ∧
      Tracking runs (reported ++ [piece]) (extracted ++ (extractions added).map Prod.fst)
        (ends + prefetchEnds added) (s'.session.instances th).userdata :=
    ⟨s, [], rfl, by simp, by simpa [extractions, prefetchEnds] using tracking.mono more⟩
  rw [pieceFinished, Lt.Session.status_of_valid _ valid, ok_bind]
  split
  · exact unchanged
  · next wanted hw =>
    split
    · exact unchanged
    · have ends0 : ends = 0 := by
        have ended := tracking.ended
        by_cases once : ends = 1
        · rw [ended.2 once] at hw
          cases hw
        · omega
      subst ends0
      obtain ⟨data, added, turned, live, ends₀, tracked⟩ :=
        foldlM_finishPiece_tracking s.parseExternal th (s.session.instances th).files
          (s.session.instances th).savePath (List.mem_append_right _ (List.mem_singleton_self piece))
          wanted.keys _ [] _
          (tracking.mono more) (by rw [hw]; rfl)
      obtain ⟨wanted', hw'⟩ := Option.isSome_iff_exists.mp live
      obtain ⟨completed, hc, -⟩ := tracked.awaited wanted' hw'
      rw [turned]
      simp only [bind, Except.bind, List.nil_append, hc, pure, Except.pure]
      split
      · have same : extractions (added ++ [.torrentMediaInfo th]) = extractions added :=
          (extractions_append _ _).trans (List.append_nil _)
        refine ⟨_, added ++ [.torrentMediaInfo th], rfl, by simp, ?_⟩
        rw [Lt.Session.instances_modify, if_pos rfl, same]
        exact ⟨tracked.once, tracked.afterRun, by rintro _ ⟨⟩, by simp [ends₀, prefetchEnds]⟩
      · refine ⟨_, added, rfl, rfl, ?_⟩
        rw [Lt.Session.instances_modify, if_pos rfl]
        simpa [ends₀] using tracked

theorem dispatch_tracking (th : Lt.TorrentHandle) :
    ∀ (pieces : List Nat) (s : Session) (reported extracted : List Nat) (ends : Nat),
      s.session.isValid th = true → Tracking runs reported extracted ends (s.session.instances th).userdata →
      let drained := s.dispatch (pieces.map (.pieceFinished th))
      ∃ added, drained.2 = none ∧ drained.1.events = s.events ++ added ∧
        Tracking runs (reported ++ pieces) (extracted ++ (extractions added).map Prod.fst)
          (ends + prefetchEnds added) (drained.1.session.instances th).userdata
  | [], s, reported, extracted, ends, _, tracking =>
    ⟨[], rfl, (List.append_nil _).symm, by simpa [extractions, prefetchEnds] using tracking⟩
  | piece :: rest, s, reported, extracted, ends, valid, tracking => by
    obtain ⟨s₁, added₁, finished, events₁, tracking₁⟩ := pieceFinished_tracking valid tracking piece
    have valid₁ : s₁.session.isValid th = true := by
      obtain ⟨-, _, -, engine⟩ := pieceFinished_modifies finished
      rw [engine]
      exact valid
    obtain ⟨added₂, clean, events₂, tracking₂⟩ := dispatch_tracking th rest s₁ _ _ _ valid₁ tracking₁
    have step : s.dispatch ((piece :: rest).map (.pieceFinished th)) =
        s₁.dispatch (rest.map (.pieceFinished th)) := by
      simp only [List.map_cons, dispatch, handleAlert, finished]
    refine ⟨added₁ ++ added₂, ?_, ?_, ?_⟩ <;> simp only [step]
    · exact clean
    · rw [events₂, events₁, List.append_assoc]
    · simpa [List.append_assoc, Nat.add_assoc] using tracking₂

/-- After the setup of `AddTorrent` on fresh client data, any sequence of `piece_finished`
alerts for the torrent is handled without an exception; each file is extracted at most
once, and only once every piece of its wanted run has been reported; the prefetch ends
at most once. -/
theorem prefetch_extracts_once_after_run (s : Session) (params : Lt.AddTorrentParams)
    (free : params.infoHashes ∉ s.session.torrents) (fresh : params.userdata = default)
    (pieces : List Nat) (added : Session × Lt.InfoHash) (returned : s.addTorrent params = some added) :
    let th : Lt.TorrentHandle := ⟨s.session.nextHandle⟩
    let runs := ((added.1.session.instances th).userdata.mediainfoFilePiecesWanted).getD ∅
    let drained := added.1.dispatch (pieces.map (.pieceFinished th))
    drained.2 = none ∧ ∃ new, drained.1.events = added.1.events ++ new ∧
      ((extractions new).map Prod.fst).Nodup ∧
      (∀ extraction ∈ extractions new, ∀ piece ∈ (runs.lookup extraction.1).getD [], piece ∈ pieces) ∧
      prefetchEnds new ≤ 1 := by
  intro th runs drained
  have accepted : s.session.addTorrent params = .ok (th, _) := if_neg free
  have unstarted : Unstarted (added.1.session.instances th).userdata := by
    have plain : Unstarted (Lt.Torrent.ofParams params).userdata := by
      rintro wanted found
      simp [Lt.Torrent.ofParams, fresh] at found
    rw [Session.addTorrent_instances_self accepted returned]
    split
    · exact mediainfoSetup_unstarted _ _ plain
    · exact plain
  obtain ⟨new, clean, events, tracking⟩ := dispatch_tracking th pieces added.1 [] [] 0
    (addTorrent_valid_self accepted returned) (Tracking.initial unstarted)
  exact ⟨clean, new, events, by simpa using tracking.once, fun extraction mem =>
    by simpa using tracking.afterRun extraction.1 (by simpa using List.mem_map_of_mem Prod.fst mem),
    by simpa using tracking.ended.1⟩

theorem prefetch_extracts_once_on_one_file :
    let s := Session.create ⟨true, [".mkv"], 0, 2⟩ (fun _ => none) ∅
    let params : Lt.AddTorrentParams := ⟨⟨1, 0⟩, "t", "/data", true, false, true,
      ⟨[⟨"a.mkv", 2⟩], 1, Nat.one_pos⟩, default⟩
    let added := (s.addTorrent params).getD (s, ⟨0, 0⟩)
    params.infoHashes ∉ s.session.torrents ∧ params.userdata = default ∧ s.addTorrent params = some added ∧
      let th : Lt.TorrentHandle := ⟨s.session.nextHandle⟩
      let runs := ((added.1.session.instances th).userdata.mediainfoFilePiecesWanted).getD ∅
      let drained := added.1.dispatch ([1, 1, 0].map (.pieceFinished th))
      drained.2 = none ∧ ∃ new, drained.1.events = added.1.events ++ new ∧
        ((extractions new).map Prod.fst).Nodup ∧
        (∀ extraction ∈ extractions new, ∀ piece ∈ (runs.lookup extraction.1).getD [], piece ∈ [1, 1, 0]) ∧
        prefetchEnds new ≤ 1 := by
  intro s params added
  exact ⟨by decide, rfl, rfl, prefetch_extracts_once_after_run s params (by decide) rfl [1, 1, 0] added rfl⟩

/-- A torrent of two one-byte `.mkv` files of one piece each, added with media-info on
and a wanted size of one byte. -/
def twoMediaFiles : Session :=
  (Session.create ⟨true, [".mkv"], 0, 1⟩ (fun _ => none) ∅).run
    [.addTorrent ⟨⟨1, 0⟩, "t", "/data", true, false, true,
      ⟨[⟨"a.mkv", 1⟩, ⟨"b.mkv", 1⟩], 1, Nat.one_pos⟩, default⟩]

/-- Both files are selected and both pieces prioritized, but only the second file is
tracked: the first file's piece, reported first, ends the prefetch with nothing
extracted, and the second file's piece then finds it over. -/
theorem prefetch_ends_before_extraction :
    (twoMediaFiles.session.instances ⟨0⟩).piecePriorities = [Lt.topPriority, Lt.topPriority] ∧
      let s := twoMediaFiles.run [.engine (.raise (.pieceFinished ⟨0⟩ 0)), .readAlerts,
        .engine (.raise (.pieceFinished ⟨0⟩ 1)), .readAlerts]
      extractions s.events = [] ∧ prefetchEnds s.events = 1 := by
  decide

end Porla.Proofs.Prefetch
