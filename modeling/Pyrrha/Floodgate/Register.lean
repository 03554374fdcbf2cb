import Pyrrha.Floodgate.Loops

/-!
Registration of windows in the ToR-to-ToR mode: `EnsureRegisteredWin` stores the window under the id
of the ToR, and every other routine asks for it under the id of the host.
-/

namespace Pyrrha
open Lib

namespace Floodgate

variable {cfg : Config} {s t : State}

/-- The window configured for the ToR of `d` is the window of `d`, and every key of `m_wins` is a
host. -/
structure Registered (cfg : Config) (s : State) (d : ℕ) : Prop where
  window : s.wins d = cfg.bdpMap (cfg.hostNum + d / cfg.hostPerRack)
  keys : ∀ k, (s.wins k).isSome = true → (cfg.dst2group k).isSome = true

namespace State

/-- The first check of a window leaves an entry of 0 for the host, and the configured window with
its ToR. -/
theorem checkDstWin_torOnly (torOnly : cfg.resetOnlyToR = true)
    (mode : cfg.ackMode ≠ .hostPerPacketAck) {d pktSize : ℕ}
    {fits : Bool} (host : d < cfg.hostNum) (first : s.wins d = none)
    (call : s.checkDstWin cfg d pktSize = .ok (t, fits)) :
    t.wins d = some 0 ∧ (t.wins (cfg.hostNum + d / cfg.hostPerRack)).isSome = true ∧
      (cfg.absolutePsn = false → fits = decide (pktSize ≤ 0)) := by
  have key : cfg.winKey d = cfg.hostNum + d / cfg.hostPerRack := if_pos ⟨mode, torOnly⟩
  have other : d ≠ cfg.hostNum + d / cfg.hostPerRack :=
    (Nat.lt_of_lt_of_le host (Nat.le_add_right _ _)).ne
  unfold checkDstWin at call
  obtain ⟨u, registered, call⟩ := bind_ok call
  have stored : ∃ win, cfg.bdpMap (cfg.hostNum + d / cfg.hostPerRack) = some win ∧
      u = s.setWin (cfg.hostNum + d / cfg.hostPerRack) win := by
    unfold ensureRegisteredWin at registered
    rw [first, key] at registered
    dsimp only at registered
    split at registered
    · cases registered
    · rename_i win configured
      refine ⟨win, configured, ?_⟩
      split at registered
      · obtain ⟨_, _, same⟩ := bind_ok registered
        exact (Except.ok.inj same).symm
      · exact (Except.ok.inj registered).symm
  have tested : t = u.touchWin d ∧
      (cfg.absolutePsn = false → fits = decide (pktSize ≤ u.winAt d)) := by
    split at call
    · rename_i absolute
      obtain ⟨_, _, same⟩ := bind_ok call
      exact ⟨(Prod.mk.inj (Except.ok.inj same)).1.symm,
        fun relative => absurd absolute (by simp [relative])⟩
    · obtain ⟨rfl, rfl⟩ := Prod.mk.inj (Except.ok.inj call)
      exact ⟨rfl, fun _ => rfl⟩
  obtain ⟨win, configured, rfl⟩ := stored
  obtain ⟨rfl, test⟩ := tested
  have none : (s.setWin (cfg.hostNum + d / cfg.hostPerRack) win).winAt d = 0 := by
    simp [winAt, setWin, other, first]
  rw [none] at test
  refine ⟨?_, ?_, test⟩
  · rw [touchWin, none]
    simp [setWin]
  · rw [touchWin, none]
    simp [setWin, other.symm]

theorem checkDstWin_zero {d pktSize : ℕ} {fits : Bool} (entry : s.wins d = some 0)
    (call : s.checkDstWin cfg d pktSize = .ok (t, fits)) :
    t.wins d = some 0 ∧ (cfg.absolutePsn = false → fits = decide (pktSize ≤ 0)) := by
  have none : s.winAt d = 0 := by
    unfold winAt
    rw [entry]
    rfl
  have kept : (s.touchWin d).wins d = some 0 := by
    rw [touchWin, none]
    simp [setWin]
  unfold checkDstWin at call
  obtain ⟨u, registered, call⟩ := bind_ok call
  unfold ensureRegisteredWin at registered
  rw [entry] at registered
  obtain rfl := Except.ok.inj registered
  split at call
  · rename_i absolute
    obtain ⟨_, _, same⟩ := bind_ok call
    obtain ⟨rfl, rfl⟩ := Prod.mk.inj (Except.ok.inj same)
    exact ⟨kept, fun relative => absurd absolute (by simp [relative])⟩
  · obtain ⟨rfl, rfl⟩ := Prod.mk.inj (Except.ok.inj call)
    exact ⟨kept, fun _ => by rw [none]⟩

end State

/-- In ToR-to-ToR mode the first check of a window never registers it: the host gets an entry of 0,
which no packet passes, and the key of the window is no host. An entry of 0 that a `SwitchACK` has
made before that check, which it does in the absolute mode, stays, and not even the ToR gets its
window. -/
theorem never_registered (torOnly : cfg.resetOnlyToR = true)
    (mode : cfg.ackMode ≠ .hostPerPacketAck) {d pktSize : ℕ} {fits : Bool} (host : d < cfg.hostNum)
    (first : s.wins d = none ∨ s.wins d = some 0 ∧
      cfg.bdpMap (cfg.hostNum + d / cfg.hostPerRack) ≠ some 0)
    (call : s.checkDstWin cfg d pktSize = .ok (t, fits)) :
    ¬Registered cfg t d ∧ t.wins d = some 0 ∧
    (cfg.absolutePsn = false → 0 < pktSize → fits = false) := by
  have waits : (cfg.absolutePsn = false → fits = decide (pktSize ≤ 0)) →
      cfg.absolutePsn = false → 0 < pktSize → fits = false := by
    intro test relative pos
    rw [test relative, decide_eq_false_iff_not]
    omega
  rcases first with first | ⟨entry, configured⟩
  · obtain ⟨zero, stored, test⟩ := State.checkDstWin_torOnly torOnly mode host first call
    refine ⟨fun right => ?_, zero, waits test⟩
    have known := (cfg.hosts _).mp (right.keys _ stored)
    exact absurd known (Nat.not_lt.mpr (Nat.le_add_right _ _))
  · obtain ⟨zero, test⟩ := State.checkDstWin_zero entry call
    exact ⟨fun right => configured (right.window.symm.trans zero), zero, waits test⟩

/-- Two racks of one host; the window of the second ToR, whose id is 3, is 5000. -/
def torConfig : Config :=
  { smallConfig .switchIngressCredit false (ingressCredit_psn false) 5000 with
    resetOnlyToR := true
    portWin_mode := nofun }

def absoluteTorConfig : Config :=
  { torConfig with
    absolutePsn := true
    psn_mode := ingressCredit_psn true
    syn_mode := fun _ => rfl }

/-- A packet of 1000 bytes finds the window empty, and waits with nothing outstanding; and so it
does where the host has its entry of 0 before. -/
theorem never_registered_first :
    (∃ t : State, (State.initial torConfig).checkDstWin torConfig 1 1000 = .ok (t, false) ∧
      ¬Registered torConfig t 1) ∧
    ∃ t : State, ((State.initial absoluteTorConfig).touchWin 1).checkDstWin absoluteTorConfig 1
      1000 = .ok (t, false) ∧ ¬Registered absoluteTorConfig t 1 := by
  constructor
  · have ends : (((State.initial torConfig).checkDstWin torConfig 1 1000).toOption.any fun r =>
      decide (r.2 = false)) = true := by decide +kernel
    obtain ⟨⟨t, fits⟩, call, waits⟩ := State.exists_ok ends
    obtain rfl : fits = false := waits
    exact ⟨t, call, (never_registered rfl (by decide) (by decide) (.inl rfl) call).1⟩
  · have ends : ((((State.initial absoluteTorConfig).touchWin 1).checkDstWin absoluteTorConfig 1
      1000).toOption.any fun r => decide (r.2 = false)) = true := by decide +kernel
    obtain ⟨⟨t, fits⟩, call, waits⟩ := State.exists_ok ends
    obtain rfl : fits = false := waits
    exact ⟨t, call, (never_registered rfl (by decide) (by decide) (.inr ⟨rfl, by decide⟩) call).1⟩

/-- Once the packet waits, the next `SwitchACK` stops at the key of the ToR. -/
theorem tor_key_asserts : ∃ s : State, State.Reachable torConfig (fun _ _ => True) s ∧ s.sent = [] ∧
    s.getBufferDst 1 = 1000 ∧ s.wins 1 = some 0 ∧ s.wins 3 = some 5000 ∧ ¬Registered torConfig s 1 ∧
    s.step torConfig (.switchAck (fun _ => 0) 0 1) = .error .shouldIgnore := by
  obtain ⟨s, reach, empty, waits, host, tor, stops⟩ :
    ∃ s, State.Reachable torConfig (fun _ _ => True) s ∧
      s.sent = [] ∧ s.getBufferDst 1 = 1000 ∧ s.wins 1 = some 0 ∧ s.wins 3 = some 5000 ∧
      State.stopsAt .shouldIgnore (s.step torConfig (.switchAck (fun _ => 0) 0 1)) = true :=
    State.exists_run [.data (smallPacket 0 999)] (by decide +kernel)
  refine ⟨s, reach, empty, waits, host, tor, fun right => ?_, State.stopsAt_error stops⟩
  have known := right.keys 3 (tor ▸ rfl)
  exact absurd known (by decide)

end Floodgate

end Pyrrha
