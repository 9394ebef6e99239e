import Porla.Session.Shutdown

/-! The chunk loop of `~Session`: `m_torrents.size() / 1000 + 1` turns, each taking
`min(1000, distance(current, end()))` handles from the iterator. The turns take the
map's handles in key order, each once, and the iterator stops at `end()`; each turn
asks exactly its torrents that have metadata and need saving, in order. -/

namespace Porla.Proofs.ShutdownChunks
open Porla.Session

/-- The handles each of `chunks` turns takes: `size` of them from where the previous
turn stopped, fewer at the end of the list. -/
def chunksOf {α : Type} (size : Nat) : (chunks : Nat) → List α → List (List α)
  | 0, _ => []
  | chunks + 1, handles => handles.take size :: chunksOf size chunks (handles.drop size)

/-- One turn of the chunk loop on the handles it takes: the save requests, then the
wait for as many results. -/
def saveChunk (state : Session × List Lt.Alert × List (List Lt.Session.Event)) (chunk : List Lt.TorrentHandle) :
    Option (Session × List Lt.Alert × List (List Lt.Session.Event)) :=
  match requestSaves state.1.session chunk with
  | .error _ => none
  | .ok requested => awaitSaves { state.1 with session := requested.1 } requested.2 state.2.1 state.2.2

/-- The chunks the destructor's loop takes from `m_torrents`. -/
def shutdownChunks (s : Session) : List (List Lt.TorrentHandle) :=
  chunksOf chunkSize (s.torrents.entries.length / chunkSize + 1) s.handlesInOrder

section
variable {α : Type} (size : Nat)

@[simp] theorem length_chunksOf (chunks : Nat) :
    ∀ handles : List α, (chunksOf size chunks handles).length = chunks := by
  induction chunks with
  | zero => exact fun _ => rfl
  | succ chunks ih => exact fun handles => congrArg Nat.succ (ih _)

/-- Turn `i` takes `min size (remaining)` handles, where `i * size` were taken before. -/
theorem map_length_chunksOf (chunks : Nat) :
    ∀ handles : List α, (chunksOf size chunks handles).map List.length =
      (List.range chunks).map fun i => min size (handles.length - i * size) := by
  induction chunks with
  | zero => exact fun _ => rfl
  | succ chunks ih =>
    intro handles
    rw [chunksOf, List.map_cons, ih, List.range_succ_eq_map, List.map_cons, List.map_map]
    congr 1
    · simp
    · refine List.map_congr_left fun i _ => ?_
      simp only [Function.comp_apply, List.length_drop, Nat.succ_mul]
      congr 1
      omega

example : (chunksOf 2 (4 / 2 + 1) [1, 2, 3, 4]).map List.length = [2, 2, 0] := rfl

/-- The first `i` turns take the first `i * size` handles, up to the last turn. -/
theorem flatten_take_chunksOf (chunks : Nat) :
    ∀ (i : Nat) (handles : List α),
      ((chunksOf size chunks handles).take i).flatten = handles.take (min i chunks * size) := by
  induction chunks with
  | zero => intro i handles; simp [chunksOf]
  | succ chunks ih =>
    intro i handles
    cases i with
    | zero => simp
    | succ i =>
      rw [chunksOf, List.take_succ_cons, List.flatten_cons, ih, ← List.take_add,
        Nat.succ_min_succ, Nat.succ_mul, Nat.add_comm]

end

/-- The loop is the turn folded over the chunks. -/
theorem saveChunks_eq_foldlM (chunks : Nat) :
    ∀ (schedule : List (List Lt.Session.Event)) (s : Session) (handled : List Lt.Alert)
      (handles : List Lt.TorrentHandle),
      saveChunks schedule s handled chunks handles =
        (chunksOf chunkSize chunks handles).foldlM saveChunk (s, handled, schedule) := by
  induction chunks with
  | zero => exact fun _ _ _ _ => rfl
  | succ chunks ih =>
    intro schedule s handled handles
    simp only [saveChunks, chunksOf, List.foldlM_cons, saveChunk]
    cases requestSaves s.session (handles.take chunkSize) with
    | error => rfl
    | ok requested =>
      dsimp only
      cases awaitSaves { s with session := requested.1 } requested.2 handled schedule with
      | none => rfl
      | some result => exact ih result.2.2 result.1 result.2.1 _

/-- A turn throws on a freed handle of its chunk; otherwise it asks every torrent of
the chunk that has metadata and needs saving, in order, and waits for as many
results. -/
theorem saveChunk_eq (state : Session × List Lt.Alert × List (List Lt.Session.Event))
    (chunk : List Lt.TorrentHandle) :
    saveChunk state chunk =
      if chunk.all state.1.session.isValid then
        let asked := chunk.filter fun th =>
          (state.1.session.instances th).hasMetadata && (state.1.session.instances th).needSaveResume
        awaitSaves { state.1 with session := asked.foldl Lt.Session.saveResumeData state.1.session } asked.length
          state.2.1 state.2.2
      else none := by
  unfold saveChunk
  rw [requestSaves_eq]
  by_cases visited : chunk.all state.1.session.isValid = true
  · simp only [visited, if_true]
  · simp only [visited, Bool.false_eq_true, if_false]

/-- `N / 1000 + 1` turns take all `N` handles. -/
theorem take_handles_of_le {α : Type} {handles : List α} {i : Nat}
    (enough : handles.length / chunkSize + 1 ≤ i) : handles.take (i * chunkSize) = handles :=
  List.take_of_length_le (by unfold chunkSize at *; omega)

/-- The destructor's chunk loop runs `N / 1000 + 1` turns over the chunks of the
map's handles; turn `i` takes `min(1000, N - 1000 i)` of them, so the iterator
stands at the first `min(1000 i, N)` handles and never passes `end()`; the chunks
joined are the map's handles in key order, each once; and each turn asks exactly
the torrents of its chunk that have metadata and need saving, in order. -/
theorem shutdown_examines_each_torrent_once (s : Session) (schedule : List (List Lt.Session.Event)) :
    s.shutdown schedule = ((shutdownChunks s).foldlM saveChunk (s, [], schedule)).map
        (fun result => (result.1, result.2.1)) ∧
      (shutdownChunks s).map List.length =
        (List.range (s.torrents.entries.length / chunkSize + 1)).map
          (fun i => min chunkSize (s.torrents.entries.length - i * chunkSize)) ∧
      (∀ i, ((shutdownChunks s).take i).flatten = s.handlesInOrder.take (i * chunkSize)) ∧
      (shutdownChunks s).flatten = s.handlesInOrder ∧
      ∀ state, ∀ chunk ∈ shutdownChunks s, saveChunk state chunk =
        if chunk.all state.1.session.isValid then
          let asked := chunk.filter fun th =>
            (state.1.session.instances th).hasMetadata && (state.1.session.instances th).needSaveResume
          awaitSaves { state.1 with session := asked.foldl Lt.Session.saveResumeData state.1.session } asked.length
            state.2.1 state.2.2
        else none := by
  have full : ∀ j, s.torrents.entries.length / chunkSize + 1 ≤ j →
      s.handlesInOrder.take (j * chunkSize) = s.handlesInOrder :=
    fun _ enough => take_handles_of_le (by rwa [length_handlesInOrder])
  have prefixes : ∀ i, ((shutdownChunks s).take i).flatten = s.handlesInOrder.take (i * chunkSize) := by
    intro i
    rw [shutdownChunks, flatten_take_chunksOf]
    rcases Nat.le_total i (s.torrents.entries.length / chunkSize + 1) with early | late
    · rw [Nat.min_eq_left early]
    · rw [Nat.min_eq_right late, full _ le_rfl, full i late]
  have all := prefixes (s.torrents.entries.length / chunkSize + 1)
  rw [List.take_of_length_le (by rw [shutdownChunks, length_chunksOf]), full _ le_rfl] at all
  exact ⟨by rw [shutdown, saveChunks_eq_foldlM, length_handlesInOrder]; rfl,
    by rw [shutdownChunks, map_length_chunksOf, length_handlesInOrder], prefixes, all,
    fun state chunk _ => saveChunk_eq state chunk⟩

end Porla.Proofs.ShutdownChunks
