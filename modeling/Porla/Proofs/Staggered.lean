import Porla.Proofs.ClientData

/-! The staggered flag of `TorrentClientData`. The end of the prefetch sets it, and the
`torrent_finished` case posts `torrent-finished` only while it is not set. Nothing
clears it: the one assignment in that case runs only when it is already off. So
once a torrent's prefetch has ended, every later `torrent_finished` alert of it is
dropped, over every run of the event loop. -/

namespace Porla.Proofs.Staggered
open Porla Session ClientData

/-- The staggered flag is set. -/
def StaggeredSet (data : TorrentClientData) : Prop := data.mediainfoEnabledStaggered = some true

/-- The end of the prefetch sets the flag and the rest of `piece_finished` leaves it;
`torrent_finished` writes it only where it is off. -/
theorem staggered_stable (th : Lt.TorrentHandle) : Stable StaggeredSet th where
  pieceFinished set finished := by
    obtain ⟨-, -, kept | ended⟩ := pieceFinished_frame finished
    · exact kept.trans set
    · exact ended
  torrentFinished s set := by
    obtain ⟨-, -, status⟩ := torrentFinished_spec s th
    rw [status, if_neg fun both => both.2.2 set]
    exact set

/-- Once a torrent's prefetch has ended, its staggered flag stays set through every run
of the event loop and every alert dispatched after it, and at every such point a
`torrent_finished` alert of the torrent posts nothing. -/
theorem staggered_suppresses_every_later_finish (s : Session) (th : Lt.TorrentHandle)
    (issued : th.id < s.session.nextHandle)
    (ended : (s.session.instances th).userdata.mediainfoEnabledStaggered = some true)
    (ops : List Op) (alerts : List Lt.Alert) :
    (((s.run ops).dispatch alerts).1.session.instances th).userdata.mediainfoEnabledStaggered = some true ∧
      (((s.run ops).dispatch alerts).1.torrentFinished th).events = ((s.run ops).dispatch alerts).1.events := by
  have stable := staggered_stable th
  have set : Kept StaggeredSet th ((s.run ops).dispatch alerts).1 :=
    Kept.dispatch stable ((show Kept StaggeredSet th s from ⟨issued, ended⟩).run stable ops)
  obtain ⟨events, -, -⟩ := torrentFinished_spec ((s.run ops).dispatch alerts).1 th
  exact ⟨set.2, by rw [events, if_neg (fun emits => emits.2 set.2), List.append_nil]⟩

/-- A torrent of one one-byte `.mkv` file, added with media-info on and a wanted size
of one byte, whose one piece has finished: its prefetch has ended. -/
def prefetched : Session :=
  (Session.create ⟨true, [".mkv"], 0, 1⟩ (fun _ => none) ∅).run
    [.addTorrent ⟨⟨1, 0⟩, "t", "/data", true, false, true, ⟨[⟨"a.mkv", 1⟩], 1, Nat.one_pos⟩, default⟩,
      .engine (.raise (.pieceFinished ⟨0⟩ 0)), .readAlerts]

theorem staggered_suppresses_finish_after_download :
    (⟨0⟩ : Lt.TorrentHandle).id < prefetched.session.nextHandle ∧
      (prefetched.session.instances ⟨0⟩).userdata.mediainfoEnabledStaggered = some true ∧
      let later := (prefetched.run [.engine (.download ⟨0⟩ 1), .engine (.raise (.torrentFinished ⟨0⟩)),
        .readAlerts]).dispatch [.torrentFinished ⟨0⟩]
      (later.1.session.instances ⟨0⟩).userdata.mediainfoEnabledStaggered = some true ∧
        (later.1.torrentFinished ⟨0⟩).events = later.1.events :=
  ⟨by decide, by decide, staggered_suppresses_every_later_finish prefetched ⟨0⟩ (by decide) (by decide) _ _⟩

/-- The torrent downloads a byte after its prefetch, and neither of two
`torrent_finished` alerts posts `torrent-finished`. -/
example :
    let s := prefetched.run [.engine (.download ⟨0⟩ 1), .engine (.raise (.torrentFinished ⟨0⟩)), .readAlerts,
      .engine (.raise (.torrentFinished ⟨0⟩)), .readAlerts]
    0 < (s.session.instances ⟨0⟩).totalDownload ∧
      (s.events.filter fun event => match event with | .torrentFinished _ => true | _ => false).length = 0 := by
  decide

end Porla.Proofs.Staggered
