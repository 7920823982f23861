import VRAdmin.Server.Protocol

/-! # Connectors and descriptors

At the head of the select loop the connectors are exactly the accepted
descriptors that are still open. The deferred removal closes each of them once,
also when descriptors are reused and several clients quit in one turn.
-/

namespace VRAdmin

open Foundation

variable {db : XmlDatabase} {reserved : List Int}

theorem ConnRun.addConnector_ret {log : List Event} {k : ConnTable}
    (h : ConnRun db reserved log k) {c ret : Int} (hmem : .addConnector c ret ∈ log) :
    ret = 0 := by
  induction h with
  | start => simp at hmem
  | next _ hs ih =>
      rcases List.mem_append.mp hmem with hold | hnew
      · exact ih hold
      · cases hs with
        | idle _ hadd => exact (hadd c ret (List.mem_singleton.mp hnew).symm).elim
        | accepted => simp_all
        | failed => simp at hnew
        | replied => simp at hnew
        | quit => simp at hnew
        | dropped => simp at hnew

theorem requestSet_fst (s : ServerListener) (hpos : ∀ c ∈ s.mConnectors, 0 < c) :
    s.requestSet.1 = s.mWakeupRead :: s.mListenFd :: s.mConnectors := by
  have hall : s.mConnectors.filter (0 < ·) = s.mConnectors :=
    List.filter_eq_self.mpr fun c hc => decide_eq_true (hpos c hc)
  rw [requestSet_eq, hall]
  rfl

theorem Tracks.ids_apart {s : ServerListener} {log : List Event}
    (h : Tracks db reserved s log) :
    ∀ c ∈ s.mConnectors, 0 < c ∧ c ≠ s.mListenFd ∧ c ≠ s.mWakeupRead := by
  intro c hc
  have hfree := h.run.sound.ids_free c hc
  rw [← h.reserved_eq] at hfree
  simp only [List.mem_cons, not_or] at hfree
  exact ⟨h.run.sound.ids_pos c hc, hfree.2.2.1, hfree.1⟩

/-- The connector invariant of every run: the ids are distinct, positive and not
the listener's own, they are the descriptors accepted and not yet closed and the
ones polled, and no quit is pending. Along the run every open, use and close of a
descriptor finds it in the right state, each accepted descriptor is closed at
most once, and `addConnector` never answers -1. -/
theorem listener_descriptors {wakeupRead wakeupWrite listenFd : Int} {len : UInt32}
    {s : ServerListener} {log : List Event}
    (h : serverLoop.Reach FreshAccept
      (ServerListener.start wakeupRead wakeupWrite listenFd db len) s log) :
    s.mConnectors.Nodup ∧
    (∀ c ∈ s.mConnectors, 0 < c ∧ c ≠ s.mListenFd ∧ c ≠ s.mWakeupRead) ∧
    s.mConnectors = openConns log ∧
    s.quitConns = [] ∧
    s.requestSet.1 = s.mWakeupRead :: s.mListenFd :: s.mConnectors ∧
    Tidy (history log) ∧
    (∀ c, (history log).count (.opens c) =
      (history log).count (.closes c) + if c ∈ s.mConnectors then 1 else 0) ∧
    ∀ c ret, .addConnector c ret ∈ log → ret = 0 := by
  obtain ⟨htracks, hquit⟩ := reach_tracks h
  have hsound := htracks.run.sound
  have hopen : openConns log = s.mConnectors := htracks.run.openConns_eq
  have htidy := htracks.run.tidy
  refine ⟨hsound.ids_nodup, htracks.ids_apart, hopen.symm, hquit,
    requestSet_fst s hsound.ids_pos, htidy, ?_, fun c ret => htracks.run.addConnector_ret⟩
  intro c
  rw [count_opens htidy c]
  have hcount : (openNames (lives (history log))).count c =
      if c ∈ s.mConnectors then 1 else 0 := by
    change (openConns log).count c = _
    rw [hopen, hsound.ids_nodup.count]
  rw [hcount]

theorem listener_descriptors_reuse :
    let io : Int → ConnIo := fun _ => ⟨.chunk ⟨[], by decide⟩, none, []⟩
    let turns : List Turn :=
      [⟨.ready 1 [5], (7, 2), io⟩, ⟨.ready 1 [7], (-1, 2), io⟩, ⟨.ready 1 [5], (7, 2), io⟩]
    let r := serverLoop.run (ServerListener.start 3 4 5 XmlDatabase.empty 0) turns
    r.1.mConnectors = [7] ∧ r.1.mConnectors = openConns r.2 ∧
      (history r.2).count (.closes 7) = 1 := by
  intro io turns r
  have hreach : serverLoop.Reach FreshAccept
      (ServerListener.start 3 4 5 XmlDatabase.empty 0) r.1 ([] ++ r.2) :=
    Machine.Reach.start.run (by decide)
  have hinv := listener_descriptors hreach
  exact ⟨by decide, hinv.2.2.1, by decide⟩

end VRAdmin
