import Pyrrha.Buffer.Egress

/-! BFC: what a step does to the buffered packets, and the counters of packets in the flow table and
of each upstream queue. -/

namespace Pyrrha
open Lib

namespace Buffer

variable {n : ℕ} {cfg : Config n} {s t : State n}

/-! ### The buffered packets -/

/-- `l` and control frames. -/
def WithFrames (cfg : Config n) (l m : List (Item n)) : Prop :=
  ∃ frames, m = l ++ frames ∧ ∀ it ∈ frames, it.IsFrame cfg

theorem withFrames_refl (l : List (Item n)) : WithFrames cfg l l :=
  ⟨[], (List.append_nil l).symm, fun _ member => absurd member List.not_mem_nil⟩

theorem tally_withFrames {l m : List (Item n)} {w : Item n → ℕ} {p : Item n → Bool}
    (h : WithFrames cfg l m)
    (skip : ∀ it : Item n, it.IsFrame cfg → p it = false) : tally w p m = tally w p l := by
  obtain ⟨frames, rfl, areFrames⟩ := h
  rw [tally_append, tally_zero fun it member => skip it (areFrames it member), Nat.add_zero]

theorem filter_withFrames {l m : List (Item n)} {p : Item n → Bool} (h : WithFrames cfg l m)
    (skip : ∀ it : Item n, it.IsFrame cfg → p it = false) : m.filter p = l.filter p := by
  obtain ⟨frames, rfl, areFrames⟩ := h
  have none : frames.filter p = [] := List.filter_eq_nil_iff.mpr fun it member => by
    simp [skip it (areFrames it member)]
  rw [List.filter_append, none, List.append_nil]

/-- The packet of an arrival, as it waits in its queue. -/
def Packet.entry (cfg : Config n) (p : Packet n) (inDev dev : Fin n) (q : ℕ) (bfcPause : Bool) : Item n :=
  ⟨dev, q, .queue, true, (p.arrived inDev).marked cfg q bfcPause⟩

/-- An arrival leaves the buffered packets alone, but for frames, or adds its packet at their
end. -/
theorem held_sendToDev (direct : cfg.fcMode ≠ .floodgate) {inDev dev : Fin n} {q : ℕ} {p : Packet n}
    {ch : Choice} (call : s.sendToDev cfg inDev dev q p ch = .ok t) : WithFrames cfg s.held t.held ∨
      ∃ l, WithFrames cfg s.held l ∧ t.held = l ++ [p.entry cfg inDev dev q ch.bfcPause] := by
  rcases sendToDev_cases call with ⟨quiet, -⟩ | ⟨admitted, enters, forwarded⟩
  · exact .inl quiet.held
  · have matched : Quiet cfg s (s.matchFlow cfg dev q (p.arrived inDev)) := matchFlow_quiet _ _ _
    rcases forward_cases forwarded with ⟨window, -⟩ | ⟨window, -⟩ | ⟨-, u, quiet, rfl, -⟩
    · exact absurd (checkVOQWin_held (by rw [window]; nofun)).1 direct
    · exact absurd (checkVOQWin_held (by rw [window]; nofun)).1 direct
    · have booked : Booked (s.matchFlow cfg dev q (p.arrived inDev))
          ((s.matchFlow cfg dev q (p.arrived inDev)).chargeAll cfg inDev dev q
            (p.arrived inDev) admitted ch.bfcPause) :=
        chargeAll_booked _ _ _ _ _ _
      have charged : Quiet cfg
          ((s.matchFlow cfg dev q (p.arrived inDev)).chargeAll cfg inDev dev q
            (p.arrived inDev) admitted ch.bfcPause)
          u := quiet
      have heldU : WithFrames cfg s.held u.held := by
        obtain ⟨first, heldM, areFirst⟩ := matched.held
        obtain ⟨second, heldU, areSecond⟩ := charged.held
        rw [booked.held, heldM, List.append_assoc] at heldU
        refine ⟨first ++ second, heldU, fun it member => ?_⟩
        rcases List.mem_append.mp member with one | two
        · exact areFirst it one
        · exact areSecond it two
      rcases switchSend_cases cfg u dev q true ((p.arrived inDev).marked cfg q ch.bfcPause) with
        refused | sent
      · rw [refused]
        exact .inl heldU
      · obtain ⟨-, after⟩ := doEnqueue_cases sent
        rw [after]
        exact .inr ⟨u.held, heldU, rfl⟩

/-- A transmission takes its packet out of the buffered ones, and may add frames. -/
theorem held_transmit (sound : Sound cfg s) {k : ℕ} {it : Item n} {flowId : Option (Fin n)}
    (call : s.dequeueAndTransmit cfg k it flowId = .ok t) :
    t = s ∨ (s.isFront cfg.pifo .queue k it = true ∧
      WithFrames cfg (s.held.eraseIdx k) t.held) := by
  have test : t = s ∨ s.isFront cfg.pifo .queue k it = true := by
    unfold State.dequeueAndTransmit at call
    split at call
    · rename_i ready
      simp only [Bool.and_eq_true] at ready
      exact .inr ready.1.1
    · exact .inl (Except.ok.inj call).symm
  rcases test with same | front
  · exact .inl same
  · rcases transmit_cases sound call with same | ⟨-, -, rfl⟩ | ⟨inDev, -, -, -, -, -, quiet⟩
    · exact .inl same
    · exact .inr ⟨front, withFrames_refl _⟩
    · obtain ⟨frames, held, areFrames⟩ := quiet.held
      rw [(dischargeAll_booked _ _ _ _).held] at held
      exact .inr ⟨front, frames, held, areFrames⟩

theorem held_other (sound : Sound cfg s) (mode : cfg.fcMode = .bfc) {ev : Event n}
    (arrival : ∀ p inDev dev q ch, ev ≠ .arrive p inDev dev q ch)
    (departure : ∀ k it flowId, ev ≠ .transmit k it flowId)
    (loss : ∀ dev limited, ev ≠ .takeDown dev limited) (call : s.step cfg ev = .ok t) :
    t.held = s.held ∧ t.pfcFrames = s.pfcFrames ∧ t.pauseCounter = s.pauseCounter ∧
    t.flowTb = s.flowTb ∧ t.refused = s.refused := by
  have inQueue : ∀ (k : ℕ) (it : Item n), s.held[k]? = some it → it.place = .queue := by
    intro k it found
    rcases sound.items it (List.mem_of_getElem? found) with frame | stored
    · exact frame.place
    · exact (direct_stored (by rw [mode]; nofun) stored).1
  cases ev with
  | arrive p inDev dev q ch => exact absurd rfl (arrival p inDev dev q ch)
  | transmit k it flowId => exact absurd rfl (departure k it flowId)
  | takeDown dev limited => exact absurd rfl (loss dev limited)
  | hierRR moves =>
    unfold State.step State.doHierQRR at call
    rw [mode] at call
    cases call
    exact ⟨rfl, rfl, rfl, rfl, rfl⟩
  | releaseVoq k it toCache =>
    cases call
    rcases releaseVoq_cases cfg s k it toCache with same | ⟨at_k, place, -⟩
    · rw [same]
      exact ⟨rfl, rfl, rfl, rfl, rfl⟩
    · rw [inQueue k it at_k] at place
      cases place
  | releaseCache k it =>
    cases call
    rcases releaseCache_cases cfg s k it with same | ⟨at_k, place, -⟩
    · rw [same]
      exact ⟨rfl, rfl, rfl, rfl, rfl⟩
    · rw [inQueue k it at_k] at place
      cases place
  | sendFrame dev p =>
    cases call
    unfold State.sendFrame
    rw [mode]
    split <;> exact ⟨rfl, rfl, rfl, rfl, rfl⟩
  | registerQ dev =>
    cases call
    exact ⟨rfl, rfl, rfl, rfl, rfl⟩

end Buffer

end Pyrrha
