import Porla.Session

/-! The media-info setup of `AddTorrent`, for every layout and configuration. Each
selected file gets the run of pieces §4.B describes, and every run is prioritized;
but each turn of the file loop assigns freshly built one-entry maps to the client
data, so the maps end up naming the last selected file only. -/

namespace Porla.Proofs.PrefetchSetup
open Porla

/-- The two tests of the file loop: large enough, and an extension asked for. -/
def selects (options : SessionOptions) (storage : Lt.FileStorage) (file : Nat) : Bool :=
  decide (options.mediainfoFileMinSize ≤ storage.fileSize file) &&
    decide (extension (storage.filePath file) ∈ options.mediainfoFileExtensions)

def selectedFiles (options : SessionOptions) (storage : Lt.FileStorage) : List Nat :=
  (List.range storage.files.length).filter (selects options storage)

/-- The pieces the loop asks for a file: from the piece the file starts in. -/
def runOf (options : SessionOptions) (storage : Lt.FileStorage) (file : Nat) : List Nat :=
  wantedPieces storage options.mediainfoFileWantedSize (storage.endPiece - storage.pieceIndexAtFile file)
    (storage.pieceIndexAtFile file) 0

/-- The bytes of the `count` pieces from `start`. -/
def askedSize (storage : Lt.FileStorage) (start count : Nat) : Nat :=
  ((List.range' start count).map storage.pieceSize).sum

/-- The run of §4.B from `start`: consecutive pieces, up to the first at which the bytes
asked for reach `wantedSize`, or up to the torrent's last piece. -/
def IsWantedRun (storage : Lt.FileStorage) (wantedSize start : Nat) (run : List Nat) : Prop :=
  ∃ count, run = List.range' start count ∧ count ≤ storage.endPiece - start ∧
    (∀ k < count, askedSize storage start k < wantedSize) ∧
    (count = storage.endPiece - start ∨ wantedSize ≤ askedSize storage start count)

theorem askedSize_succ (storage : Lt.FileStorage) (start count : Nat) :
    askedSize storage start (count + 1) = storage.pieceSize start + askedSize storage (start + 1) count := by
  simp [askedSize, List.range'_succ]

/-- The loop `while (asked_size < wanted_size)` stops at the first piece that makes the
bytes asked for reach the wanted size, or at the end. -/
theorem wantedPieces_run (storage : Lt.FileStorage) (wantedSize : Nat) :
    ∀ (remaining piece asked : Nat), ∃ count,
      wantedPieces storage wantedSize remaining piece asked = List.range' piece count ∧ count ≤ remaining ∧
      (∀ k < count, asked + askedSize storage piece k < wantedSize) ∧
      (count = remaining ∨ wantedSize ≤ asked + askedSize storage piece count)
  | 0, _, _ => ⟨0, rfl, le_rfl, fun _ none => absurd none (Nat.not_lt_zero _), .inl rfl⟩
  | remaining + 1, piece, asked => by
    unfold wantedPieces
    split
    · next short =>
      obtain ⟨count, eq, bound, below, stop⟩ :=
        wantedPieces_run storage wantedSize remaining (piece + 1) (asked + storage.pieceSize piece)
      refine ⟨count + 1, by rw [eq, List.range'_succ], by omega, fun k inRun => ?_, ?_⟩
      · cases k with
        | zero => simpa [askedSize] using short
        | succ k =>
          rw [askedSize_succ, ← Nat.add_assoc]
          exact below k (by omega)
      · rw [askedSize_succ, ← Nat.add_assoc]
        omega
    · next reached =>
      exact ⟨0, rfl, Nat.zero_le _, fun _ none => absurd none (Nat.not_lt_zero _),
        .inr (by simpa [askedSize] using reached)⟩

theorem runOf_wanted (options : SessionOptions) (storage : Lt.FileStorage) (file : Nat) :
    IsWantedRun storage options.mediainfoFileWantedSize (storage.pieceIndexAtFile file)
      (runOf options storage file) := by
  obtain ⟨count, eq, bound, below, stop⟩ := wantedPieces_run storage options.mediainfoFileWantedSize
    (storage.endPiece - storage.pieceIndexAtFile file) (storage.pieceIndexAtFile file) 0
  exact ⟨count, eq, bound, fun k inRun => by simpa using below k inRun, by simpa using stop⟩

/-- One turn of the file loop: a selected file appends its run and replaces both maps. -/
theorem selectFile_eq (options : SessionOptions) (storage : Lt.FileStorage) (acc : List Nat × TorrentClientData)
    (file : Nat) :
    selectFile options storage acc file =
      if selects options storage file then
        (acc.1 ++ runOf options storage file, { acc.2 with
          mediainfoFilePiecesWanted := some (AList.singleton file (runOf options storage file))
          mediainfoFilePiecesCompleted := some (AList.singleton file []) })
      else acc := by
  unfold selectFile selects runOf
  by_cases large : options.mediainfoFileMinSize ≤ storage.fileSize file <;>
    by_cases wanted : extension (storage.filePath file) ∈ options.mediainfoFileExtensions <;>
    simp [large, wanted]

/-- The file loop: the runs of the selected files, in order, and the maps of the last. -/
theorem foldl_selectFile (options : SessionOptions) (storage : Lt.FileStorage) :
    ∀ (files : List Nat) (acc : List Nat × TorrentClientData),
      files.foldl (selectFile options storage) acc =
        (acc.1 ++ (files.filter (selects options storage)).flatMap (runOf options storage),
          match (files.filter (selects options storage)).getLast? with
          | some file => { acc.2 with
              mediainfoFilePiecesWanted := some (AList.singleton file (runOf options storage file))
              mediainfoFilePiecesCompleted := some (AList.singleton file []) }
          | none => acc.2)
  | [], acc => by simp
  | file :: rest, acc => by
    rw [List.foldl_cons, selectFile_eq, foldl_selectFile options storage rest, List.filter_cons]
    split
    · rw [List.flatMap_cons, List.getLast?_cons, List.append_assoc]
      cases (rest.filter (selects options storage)).getLast? <;> rfl
    · rfl

/-- `prioritize_pieces` with one priority for every listed piece. -/
theorem prioritizePieces_getElem? (priority : Nat) :
    ∀ (pieces current : List Nat) (index : Nat),
      (prioritizePieces current (pieces.map (·, priority)))[index]? =
        current[index]?.map fun old => if index ∈ pieces then priority else old
  | [], current, index => by simp [prioritizePieces]
  | piece :: rest, current, index => by
    have step := prioritizePieces_getElem? priority rest (current.set piece priority) index
    simp only [prioritizePieces, List.map_cons, List.foldl_cons] at step ⊢
    rw [step, List.getElem?_set]
    by_cases same : piece = index
    · subst same
      by_cases inside : piece < current.length
      · simp [inside, List.getElem?_eq_getElem inside]
      · simp [inside, List.getElem?_eq_none (Nat.le_of_not_lt inside)]
    · cases current[index]? <;> simp [same, Ne.symm same]

/-- `AddTorrent`'s setup, for every layout and configuration: every selected file gets
the run of §4.B from the piece it starts in; the runs of all selected files, and only
they, are at top priority, the other pieces at `dont_download`; `mediainfo_enabled` is
set exactly when some piece was prioritized; and both maps hold one entry, the last
selected file's, with its run and an empty completed set. -/
theorem mediainfoSetup_tracks_last_selected (options : SessionOptions) (torrent : Lt.Torrent) :
    (∀ file ∈ selectedFiles options torrent.files,
      IsWantedRun torrent.files options.mediainfoFileWantedSize (torrent.files.pieceIndexAtFile file)
        (runOf options torrent.files file)) ∧
    mediainfoSetup options torrent = { torrent with
      userdata := { torrent.userdata with
        mediainfoEnabled :=
          if (selectedFiles options torrent.files).flatMap (runOf options torrent.files) = [] then
            torrent.userdata.mediainfoEnabled
          else some true
        mediainfoFilePiecesWanted :=
          match (selectedFiles options torrent.files).getLast? with
          | some file => some (AList.singleton file (runOf options torrent.files file))
          | none => torrent.userdata.mediainfoFilePiecesWanted
        mediainfoFilePiecesCompleted :=
          match (selectedFiles options torrent.files).getLast? with
          | some file => some (AList.singleton file [])
          | none => torrent.userdata.mediainfoFilePiecesCompleted }
      piecePriorities :=
        if (selectedFiles options torrent.files).flatMap (runOf options torrent.files) = [] then
          torrent.piecePriorities
        else (List.range torrent.files.numPieces).map fun piece =>
          if piece ∈ (selectedFiles options torrent.files).flatMap (runOf options torrent.files) then
            Lt.topPriority
          else Lt.dontDownload } := by
  refine ⟨fun file _ => runOf_wanted options torrent.files file, ?_⟩
  have priorities : ∀ runs : List Nat,
      prioritizePieces (List.replicate torrent.files.numPieces Lt.dontDownload) (runs.map (·, Lt.topPriority)) =
        (List.range torrent.files.numPieces).map fun piece =>
          if piece ∈ runs then Lt.topPriority else Lt.dontDownload :=
    fun runs => List.ext_getElem? fun index => by
      rw [prioritizePieces_getElem?, List.getElem?_replicate, List.getElem?_map]
      by_cases inside : index < torrent.files.numPieces
      · rw [if_pos inside, List.getElem?_range inside]
        rfl
      · rw [if_neg inside, List.getElem?_eq_none (by simpa using Nat.le_of_not_lt inside)]
        rfl
  dsimp only [mediainfoSetup]
  rw [foldl_selectFile, List.nil_append, ← selectedFiles]
  by_cases none : (selectedFiles options torrent.files).flatMap (runOf options torrent.files) = []
  · rw [if_pos (List.isEmpty_iff.mpr none), if_pos none, if_pos none]
    cases (selectedFiles options torrent.files).getLast? <;> rfl
  · rw [if_neg (mt List.isEmpty_iff.mp none), if_neg none, if_neg none, priorities]
    cases (selectedFiles options torrent.files).getLast? <;> rfl

/-- Two selected files: both runs are prioritized, the maps name the second only. -/
example :
    let setup := mediainfoSetup ⟨true, [".mkv"], 0, 1⟩
      (Lt.Torrent.ofParams ⟨⟨1, 0⟩, "t", "/data", true, false, true,
        ⟨[⟨"a.mkv", 1⟩, ⟨"b.mkv", 1⟩], 1, Nat.one_pos⟩, default⟩)
    setup.piecePriorities = [Lt.topPriority, Lt.topPriority] ∧
      setup.userdata.mediainfoFilePiecesWanted.map (·.keys) = some [1] := by
  decide

end Porla.Proofs.PrefetchSetup
