import Pyrrha.Buffer.Effect

/-! Where a step can stop: for each function, the assert that fails and the state it fails in. -/

namespace Pyrrha
open Lib

namespace Buffer

variable {n : ℕ} {cfg : Config n} {s t : State n} {e : Assert}

def State.heldBytes (s : State n) : ℕ := tally Item.size (fun _ => true) s.held

/-! ### How many frames -/

/-- From `s` to `t` at most `k` PFC frames have been added, all of them at `port`. -/
structure AddsFrames (cfg : Config n) (port : Fin n) (k : ℕ) (s t : State n) : Prop where
  held : t.heldBytes ≤ s.heldBytes + k * cfg.pfcSize
  own : t.bytesInQueueTotal port ≤ s.bytesInQueueTotal port + k * cfg.pfcSize
  others : ∀ dev, dev ≠ port → t.bytesInQueueTotal dev = s.bytesInQueueTotal dev

/-- The frames the mode itself can send when a packet arrives. -/
def Config.modeFrames (cfg : Config n) : ℕ :=
  match cfg.fcMode with
  | .voqDstPfc | .bfc => 1
  | _ => 0

section

variable {port : Fin n} {k : ℕ}

theorem addsFrames_none (held : t.held = s.held)
    (total : t.bytesInQueueTotal = s.bytesInQueueTotal) : AddsFrames cfg port k s t := by
  refine ⟨?_, ?_, fun dev _ => congrFun total dev⟩
  · unfold State.heldBytes
    rw [held]
    exact Nat.le_add_right _ _
  · rw [total]
    exact Nat.le_add_right _ _

theorem addsFrames_trans {u : State n} {l : ℕ} (first : AddsFrames cfg port k s t)
    (second : AddsFrames cfg port l t u) : AddsFrames cfg port (k + l) s u where
  held := by
    have one := first.held
    have two := second.held
    rw [add_mul]
    omega
  own := by
    have one := first.own
    have two := second.own
    rw [add_mul]
    omega
  others dev away := (second.others dev away).trans (first.others dev away)

theorem sendPfc_adds {v : State n} (sameHeld : v.held = s.held)
    (sameTotal : v.bytesInQueueTotal = s.bytesInQueueTotal)
    (idx : ℕ) (pause : Bool) : AddsFrames cfg port 1 s (v.sendPfc cfg port idx pause) := by
  unfold State.sendPfc
  generalize logged : { v with pfcFrames := v.pfcFrames ++ [(port, idx, pause)] } = u
  have held : u.held = s.held := by rw [← logged, ← sameHeld]
  have total : u.bytesInQueueTotal = s.bytesInQueueTotal := by rw [← logged, ← sameTotal]
  rcases switchSend_cases cfg u port 0 false (State.pfcFrame cfg) with refused | sent
  · rw [refused]
    exact addsFrames_none held total
  · obtain ⟨-, same⟩ := doEnqueue_cases sent
    rw [same]
    refine ⟨?_, ?_, fun dev away => ?_⟩
    · show tally _ _ (u.held ++ _) ≤ _
      rw [tally_concat, held, if_pos rfl]
      exact le_of_eq (by rw [Nat.one_mul]; rfl)
    · show Function.update u.bytesInQueueTotal port _ port ≤ _
      rw [Function.update_self, total, Nat.one_mul]
      exact Nat.mod_le _ _
    · show Function.update u.bytesInQueueTotal port _ dev = _
      rw [Function.update_of_ne away, total]

theorem checkAndSendPfc_adds (idx : ℕ) : AddsFrames cfg port 1 s
    (s.checkAndSendPfc cfg port idx) := by
  unfold State.checkAndSendPfc
  split
  · have sent : AddsFrames cfg port 1 s (s.sendPfc cfg port idx true) :=
      sendPfc_adds rfl rfl idx true
    exact ⟨sent.held, sent.own, sent.others⟩
  · exact addsFrames_none rfl rfl

theorem charge_adds {dev : Fin n} {q : ℕ} {p : Packet n} {admitted : Bool}
    (h : AddsFrames cfg port k ((s.matchFlow cfg dev q p).charge cfg port dev q p admitted) t) :
    AddsFrames cfg port k s t := by
  have booked := @charge_booked n cfg (s.matchFlow cfg dev q p) port dev q p admitted
  have same : (s.matchFlow cfg dev q p).held = s.held ∧
      (s.matchFlow cfg dev q p).bytesInQueueTotal = s.bytesInQueueTotal := by
    unfold State.matchFlow
    split <;> exact ⟨rfl, rfl⟩
  have whole := addsFrames_trans (k := 0)
    (addsFrames_none (booked.held.trans same.1) (booked.bytesInQueueTotal.trans same.2)) h
  rwa [Nat.zero_add] at whole

theorem arriveMode_adds {dev : Fin n} {q : ℕ} {p p' : Packet n} {bfcPause : Bool}
    (h : s.arriveMode cfg port dev q p bfcPause = .ok (t, p')) :
    AddsFrames cfg port cfg.modeFrames s t := by
  unfold State.arriveMode at h
  split at h
  · rename_i mode
    cases h
    have one : cfg.modeFrames = 1 := by rw [Config.modeFrames, mode]
    rw [one]
    unfold State.arriveVoqDstPfc
    by_cases zero : q = 0
    · rw [if_pos zero]
      exact addsFrames_none rfl rfl
    · rw [if_neg zero]
      dsimp only
      split
      · have sent : AddsFrames cfg port 1 s
            ((s.addBuffering dev p.dst p.size).sendPfc cfg port p.dst true) := by
          apply sendPfc_adds <;> rfl
        exact ⟨sent.held, sent.own, sent.others⟩
      · exact addsFrames_none rfl rfl
  · rename_i mode
    have one : cfg.modeFrames = 1 := by rw [Config.modeFrames, mode]
    rw [one]
    unfold State.arriveBfc at h
    split at h
    · cases h
      exact addsFrames_none rfl rfl
    · split at h
      · cases h
      · split at h
        · obtain ⟨rfl, -⟩ := Prod.mk.inj (Except.ok.inj h)
          split
          · apply sendPfc_adds <;> rfl
          · exact addsFrames_none rfl rfl
        · obtain ⟨rfl, -⟩ := Prod.mk.inj (Except.ok.inj h)
          exact addsFrames_none rfl rfl
  · cases h
    exact addsFrames_none rfl rfl

end

/-! ### The asserts -/

theorem doStatistics_error (h : s.doStatistics cfg = .error e) : e = .doStatistics ∧
    ¬(s.voqBuffer = s.voqBytes ∧ s.egressBuffer ≤ add32 (s.switchBuffer cfg) s.voqBytes) := by
  unfold State.doStatistics at h
  split at h
  · cases h
  · rename_i fails
    exact ⟨(Except.error.inj h).symm, fails⟩

theorem admits_error {inDev dev : Fin n} {q : ℕ} {p : Packet n}
    (h : s.admits cfg inDev dev q p = .error e) :
    cfg.checkSharedBuffer = true ∧ s.doStatistics cfg = .error e := by
  unfold State.admits at h
  split at h
  · split at h
    · rename_i shared
      rcases bind_error h with failed | ⟨buffer, -, rest⟩
      · exact ⟨shared, failed⟩
      · cases rest
    · cases h
  · cases h

theorem arriveMode_error {inDev dev : Fin n} {q : ℕ} {p : Packet n} {bfcPause : Bool}
    (h : s.arriveMode cfg inDev dev q p bfcPause = .error e) : e = .sendToDev ∧
    cfg.fcMode = .bfc := by
  unfold State.arriveMode at h
  split at h
  · cases h
  · rename_i mode
    refine ⟨?_, mode⟩
    unfold State.arriveBfc at h
    split at h
    · cases h
    · split at h
      · exact (Except.error.inj h).symm
      · split at h <;> cases h
  · cases h

/-- From the window check on, `SendToDev` stops at a missing flow entry, or in `DoStatistics` at its
end. -/
theorem forward_error {inDev dev : Fin n} {q : ℕ} {p : Packet n} {ch : Choice}
    (h : s.forward cfg inDev dev q p ch = .error e) : (e = .sendToDev ∧ cfg.fcMode = .bfc) ∨
      ∃ u, State.checkVOQWin cfg p ch.window = .pass ∧
        Quiet cfg ((s.addBytes inDev dev q p.size).chargeMode cfg inDev dev q p ch.bfcPause) u ∧
        AddsFrames cfg inDev (1 + cfg.modeFrames) s u ∧
        (u.switchSend cfg dev q true (p.marked cfg q ch.bfcPause)).doStatistics cfg = .error e := by
  unfold State.forward State.forwardNow at h
  split at h
  · cases h
  · cases h
  · rename_i window
    rcases bind_error h with failed | ⟨v, passed, h⟩
    · rcases bind_error failed with failed | ⟨w, -, rest⟩
      · exact .inl (arriveMode_error failed)
      · cases rest
    · obtain ⟨u, quiet, mode, rfl⟩ := passToDev_cases passed
      refine .inr ⟨u, window, quiet, addsFrames_trans ?_ (arriveMode_adds mode), ?_⟩
      · split
        · have sent := @checkAndSendPfc_adds n cfg (s.addBytes inDev dev q p.size) inDev
            (cfg.pfcFine inDev q p)
          exact ⟨sent.held, sent.own, sent.others⟩
        · exact addsFrames_none rfl rfl
      · rcases bind_error h with failed | ⟨w, stays, h⟩
        · cases failed
        · cases stays
          rcases bind_error h with failed | ⟨buffer, -, rest⟩
          · exact failed
          · cases rest

theorem sendToDev_error {inDev dev : Fin n} {q : ℕ} {p : Packet n} {ch : Choice}
    (h : s.sendToDev cfg inDev dev q p ch = .error e) :
    (e = .sendToDev ∧
      (s.linkUp dev = false ∨ (p.l3Prot = .switchAck ∧ State.consumes cfg p = false) ∨
      cfg.fcMode = .bfc)) ∨
    (cfg.checkSharedBuffer = true ∧ (s.matchFlow cfg dev q (p.arrived inDev)).doStatistics cfg =
      .error e) ∨
    ∃ admitted u, Enters cfg (s.matchFlow cfg dev q (p.arrived inDev)) inDev dev q
      (p.arrived inDev) admitted ∧ State.checkVOQWin cfg p ch.window = .pass ∧
      Quiet cfg ((s.matchFlow cfg dev q (p.arrived inDev)).chargeAll cfg inDev dev q
        (p.arrived inDev) admitted ch.bfcPause) u ∧ AddsFrames cfg inDev (1 + cfg.modeFrames) s u ∧
      (u.switchSend cfg dev q true ((p.arrived inDev).marked cfg q ch.bfcPause)).doStatistics cfg =
        .error e := by
  unfold State.sendToDev State.sendToDevNow at h
  have quiet : Quiet cfg s (s.matchFlow cfg dev q (p.arrived inDev)) := matchFlow_quiet _ _ _
  split at h
  · cases h
  · rename_i goesOn
    rw [not_or, Bool.not_eq_true, not_le] at goesOn
    split at h
    · rename_i down
      exact .inl ⟨(Except.error.inj h).symm, .inl down⟩
    · rename_i up
      have queue : q < (s.matchFlow cfg dev q (p.arrived inDev)).nQueue dev :=
        (congrFun quiet.nQueue dev).symm ▸ goesOn.2
      have linkUp : (s.matchFlow cfg dev q (p.arrived inDev)).linkUp dev = true :=
        (congrFun quiet.linkUp dev).symm ▸ (Bool.not_eq_false _).mp up
      rcases bind_error h with failed | ⟨admitted, test, h⟩
      · exact .inr (.inl (admits_error failed))
      · cases admitted with
        | true =>
          rw [if_pos rfl] at h
          split at h
          · rename_i switchAck
            exact .inl ⟨(Except.error.inj h).symm, .inr (.inl ⟨switchAck, goesOn.1⟩)⟩
          · rename_i switchAck
            rw [← charge_true] at h
            rcases forward_error h with ⟨same, bfc⟩ | ⟨u, window, counters, frames, failed⟩
            · exact .inl ⟨same, .inr (.inr bfc)⟩
            · exact .inr (.inr ⟨true, u, ⟨goesOn.1, queue, linkUp, test, nofun, nofun, switchAck⟩,
                window, counters, charge_adds frames, failed⟩)
        | false =>
          rw [if_neg Bool.false_ne_true] at h
          split at h
          · rename_i off
            rw [← charge_false] at h
            rcases forward_error h with ⟨same, bfc⟩ | ⟨u, window, counters, frames, failed⟩
            · exact .inl ⟨same, .inr (.inr bfc)⟩
            · refine .inr (.inr ⟨false, u, ⟨goesOn.1, queue, linkUp, test, fun _ => off.1,
                fun _ => off.2, ?_⟩, window, counters, charge_adds frames, failed⟩)
              intro switchAck
              simp [switchAck] at off
          · cases h

theorem removeFromEgressAdmission_error {port : Fin n} {q psize : ℕ}
    (h : s.removeFromEgressAdmission port q psize = .error e) :
    e = .removeFromEgressAdmission ∧ ¬(q < s.egressLen port ∧ psize ≤ s.egressBytes port q) := by
  unfold State.removeFromEgressAdmission at h
  split at h
  · cases h
  · rename_i fails
    exact ⟨(Except.error.inj h).symm, fails⟩

theorem departMode_error {inDev dev : Fin n} {q : ℕ} {p : Packet n}
    (h : s.departMode cfg inDev dev q p = .error e) : e = .switchNotifyDequeue := by
  unfold State.departMode at h
  split at h
  · cases h
  · unfold State.departBfc at h
    split at h
    · cases h
    · split at h
      · exact (Except.error.inj h).symm
      · split at h <;> cases h
  · cases h

theorem switchNotifyDequeue_error {dev : Fin n} {q : ℕ} {p : Packet n} {flowId : Option (Fin n)}
    (h : s.switchNotifyDequeue cfg dev q p flowId = .error e) : ¬Skipped p ∧
    (e = .switchNotifyDequeue ∨ (e = .removeFromEgressAdmission ∧
        ¬(q < s.egressLen dev ∧ p.size ≤ s.egressBytes dev q))) := by
  unfold State.switchNotifyDequeue at h
  split at h
  · cases h
  · cases h
  · cases h
  · rename_i notAck notPfc notCi
    refine ⟨fun skipped => ?_, ?_⟩
    · rcases skipped with prot | prot | prot
      · exact notAck prot
      · exact notPfc prot
      · exact notCi prot
    · split at h
      · exact .inl (Except.error.inj h).symm
      · rcases bind_error h with failed | ⟨u, -, h⟩
        · obtain ⟨same, fails⟩ := removeFromEgressAdmission_error failed
          rw [releaseIngress_egressLen, releaseIngress_egressBytes] at fails
          exact .inr ⟨same, fails⟩
        · exact .inl (departMode_error h)

theorem dequeueAndTransmit_error {k : ℕ} {it : Item n} {flowId : Option (Fin n)}
    (h : s.dequeueAndTransmit cfg k it flowId = .error e) : AtFront s k it ∧ ¬Skipped it.packet ∧
      (e = .switchNotifyDequeue ∨ (e = .removeFromEgressAdmission ∧
        ¬(it.q < s.egressLen it.dev ∧ it.size ≤ s.egressBytes it.dev it.q))) := by
  unfold State.dequeueAndTransmit at h
  split at h
  · rename_i ready
    simp only [Bool.and_eq_true, Bool.or_eq_true, decide_eq_true_eq] at ready
    have stopped := switchNotifyDequeue_error h
    exact ⟨isFront_queue ready.1.1, stopped⟩
  · cases h

/-- A move of the hierarchical round stops at a packet that is not accounted for, or in a full
queue. -/
theorem hierMove_error {k : ℕ} {it : Item n} {nextQ : ℕ}
    (h : s.hierMove cfg k it nextQ = .error e) :
    ∃ inDev, AtFront s k it ∧ it.packet.inDev = some inDev ∧
      ((e = .removeFromEgressAdmission ∧
        ¬(it.q < s.egressLen it.dev ∧ it.size ≤ s.egressBytes it.dev it.q)) ∨ (e = .doHierQRR ∧
          (((s.popQueue k it).subEgress it.dev it.q it.size).subBytes inDev it.dev it.q
          it.size).doEnqueue cfg it.dev nextQ true it.packet = none)) := by
  unfold State.hierMove at h
  split at h
  · rename_i inDev ready known
    simp only [Bool.and_eq_true, decide_eq_true_eq] at ready
    refine ⟨inDev, isFront_queue ready.1.1, known, ?_⟩
    rcases bind_error h with failed | ⟨v, removed, h⟩
    · have stopped := removeFromEgressAdmission_error failed
      exact .inl stopped
    · obtain ⟨-, -, rfl⟩ := removeFromEgressAdmission_ok removed
      cases enqueued : (((s.popQueue k it).subEgress it.dev it.q it.size).subBytes inDev it.dev it.q
          it.size).doEnqueue cfg it.dev nextQ true it.packet with
      | none =>
        simp only [enqueued] at h
        exact .inr ⟨(Except.error.inj h).symm, rfl⟩
      | some u =>
        simp only [enqueued] at h
        cases h
  · cases h

end Buffer

end Pyrrha
