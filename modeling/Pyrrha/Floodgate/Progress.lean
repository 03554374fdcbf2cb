import Mathlib.Algebra.BigOperators.Group.List.Basic
import Pyrrha.Floodgate.Loops

/-!
The PSNs a switch has on record as acknowledged, in the absolute mode. `RecoverWin` records the
larger of the old and the new PSN; the DST mode compares only the low 32 bits of the new one.
-/

namespace Pyrrha
open Lib

namespace Floodgate

variable {cfg : Config} {s t : State} {acktag : ℕ → ℕ} {dst inDev : ℕ}

/-- The PSN a tag acknowledges for `d`: its entry, or in DST mode its only entry for the source of
the packet. -/
def Config.ackedPsn (cfg : Config) (acktag : ℕ → ℕ) (dst d : ℕ) : ℕ :=
  match cfg.ackMode with
  | .switchIngressCredit => acktag d
  | .switchDstCredit | .hostPerPacketAck => if d = dst then acktag 0 else 0

def Config.ingress (cfg : Config) : Config where
  ackMode := .switchIngressCredit
  absolutePsn := cfg.absolutePsn
  usePortWin := cfg.usePortWin
  resetOnlyToR := cfg.resetOnlyToR
  hostNum := cfg.hostNum
  hostPerRack := cfg.hostPerRack
  bdpMap := cfg.bdpMap
  bdpMap_lt := cfg.bdpMap_lt
  portWin := cfg.portWin
  portWin_lt := cfg.portWin_lt
  groupNum := cfg.groupNum
  group := cfg.group
  dst2group := cfg.dst2group
  hosts := cfg.hosts
  grouped := cfg.grouped
  portWin_mode := fun port => ⟨(cfg.portWin_mode port).1, nofun⟩
  psn_mode := fun _ => nofun
  synTimeout := cfg.synTimeout
  syn_mode := cfg.syn_mode

/-- A `SwitchACK` of a host destination that acknowledges no more than has been sent. -/
def Event.AckValid (cfg : Config) (s : State) : Event → Prop
  | .switchAck acktag dst inDev => dst < cfg.hostNum ∧
      ∀ d < cfg.hostNum, cfg.ackedPsn acktag dst d ≤ s.nxtDataPsn (cfg.psnRow inDev d) d
  | _ => True

instance (cfg : Config) (s : State) (ev : Event) : Decidable (ev.AckValid cfg s) :=
  match ev with
  | .switchAck acktag dst inDev => inferInstanceAs (Decidable (dst < cfg.hostNum ∧
      ∀ d < cfg.hostNum, cfg.ackedPsn acktag dst d ≤ s.nxtDataPsn (cfg.psnRow inDev d) d))
  | .data _ | .synTimeout _ | .advance _ => isTrue trivial

namespace State

/-- The bytes of `dst` that are not acknowledged. -/
def inflight (s : State) (dst : ℕ) : ℕ :=
  ((List.range switchScale).map fun dev => s.nxtDataPsn dev dst - s.rcvAckPsn dev dst).sum

/-- No more is acknowledged than has been sent. -/
def PsnOrdered (s : State) : Prop := ∀ row d, s.rcvAckPsn row d ≤ s.nxtDataPsn row d

/-- The table after a `SwitchACK`: the larger of the old and the acknowledged PSN. -/
def AckExact (cfg : Config) (s t : State) (acktag : ℕ → ℕ) (dst inDev : ℕ) : Prop :=
  ∀ row d, t.rcvAckPsn row d =
    if row = cfg.psnRow inDev d ∧
      d < cfg.hostNum then max (s.rcvAckPsn row d) (cfg.ackedPsn acktag dst d)
    else s.rcvAckPsn row d

/-- In DST mode, the PSN is not news, or its low 32 bits exceed the one on record. -/
def AckFits (cfg : Config) (s : State) (acktag : ℕ → ℕ) (dst inDev : ℕ) : Prop :=
  cfg.ackMode = .switchDstCredit →
    acktag 0 ≤ s.rcvAckPsn (cfg.psnRow inDev dst) dst ∨ s.rcvAckPsn (cfg.psnRow inDev dst) dst <
      acktag 0 % 2 ^ 32

/-! ### The bytes in flight -/

theorem foldlM_addInflight (dst : ℕ) (devs : List ℕ) {start : ℕ} (small : start < 2 ^ 32)
    (ordered : ∀ dev, s.rcvAckPsn dev dst ≤ s.nxtDataPsn dev dst) :
    devs.foldlM (s.addInflight dst) start =
      .ok ((start + (devs.map fun dev => s.nxtDataPsn dev dst - s.rcvAckPsn dev dst).sum) %
        2 ^ 32) := by
  induction devs generalizing start with
  | nil =>
    rw [List.map_nil, List.sum_nil, Nat.add_zero, Nat.mod_eq_of_lt small]
    rfl
  | cons dev rest ih =>
    have first : s.addInflight dst start dev =
        .ok (add32 start (s.nxtDataPsn dev dst - s.rcvAckPsn dev dst)) := by
      unfold addInflight
      rw [if_neg (Nat.not_lt.mpr (ordered dev))]
    rw [List.foldlM_cons, first]
    refine (ih (Nat.mod_lt _ (by decide))).trans ?_
    rw [List.map_cons, List.sum_cons]
    rw [Nat.mod_add_mod, Nat.add_assoc]

theorem getInflightBytes_eq (ordered : s.PsnOrdered) (dst : ℕ) :
    s.getInflightBytes dst = .ok (s.inflight dst % 2 ^ 32) := by
  unfold getInflightBytes
  rw [foldlM_addInflight dst _ (by decide) fun dev => ordered dev dst, Nat.zero_add]
  rfl

theorem getInflightBytes_exact (ordered : s.PsnOrdered) (dst : ℕ) :
    s.getInflightBytes dst = .ok (s.inflight dst) ↔ s.inflight dst < 2 ^ 32 := by
  rw [getInflightBytes_eq ordered]
  constructor
  · intro same
    rw [← Except.ok.inj same]
    exact Nat.mod_lt _ (by decide)
  · intro fits
    rw [Nat.mod_eq_of_lt fits]

/-! ### What a SwitchACK records -/

theorem rcvAck_rule (table : ℕ → ℕ → ℕ) :
    ReleaseRule cfg (fun t => t.rcvAckPsn = table) fun _ => True where
  one s g voqId before := by
    refine outcome_mono (checkAndSendOne_outcome cfg s g voqId) (fun r after => ?_) fun _ _ =>
      trivial
    split at after
    · obtain ⟨p, released⟩ := after
      exact released.acks.rcvAckPsn.trans before
    · exact after.only.rewindowed.sameAcks.rcvAckPsn.trans before
  cached s dev top rest before _ _ := (sentCached cfg s dev top rest).acks.rcvAckPsn.trans before
  known := trivial
  found _ _ _ _ _ _ := .inr trivial

theorem updateSynTime_rcvAck (cfg : Config) (s : State) (dev dst : ℕ) (acktag : ℕ → ℕ) :
    (s.updateSynTime cfg dev dst acktag).rcvAckPsn = s.rcvAckPsn ∧
      (s.updateSynTime cfg dev dst acktag).nxtDataPsn = s.nxtDataPsn := by
  unfold updateSynTime startTimer noteAckTimes
  split
  · exact ⟨rfl, rfl⟩
  · split <;> split <;> exact ⟨rfl, rfl⟩

theorem resumeDst_rcvAck (absolute : cfg.absolutePsn = true) {acked : ℕ}
    (call : s.resumeDst cfg acked dst inDev = .ok t) :
    t.rcvAckPsn =
      if s.rcvAckPsn (cfg.psnRow inDev dst) dst < acked %
        2 ^ 32 then update₂ s.rcvAckPsn (cfg.psnRow inDev dst) dst acked
      else s.rcvAckPsn := by
  unfold resumeDst at call
  dsimp only at call
  rw [if_pos absolute] at call
  have written := outcome_result (updateWin_outcome _ _ _ _ _ _) call
  rw [written.sameAcks.rcvAckPsn]
  split <;> rfl

theorem recoverDst_rcvAck (absolute : cfg.absolutePsn = true) {i : ℕ}
    (call : s.recoverDst cfg inDev acktag i = .ok t) (row d : ℕ) :
    t.rcvAckPsn row d =
      if row = cfg.psnRow inDev i ∧ d = i then max (s.rcvAckPsn row d) (acktag i)
        else s.rcvAckPsn row d := by
  unfold recoverDst at call
  dsimp only at call
  rw [if_pos absolute] at call
  split at call
  · split at call
    · rename_i news
      have written := outcome_result (updateWin_outcome _ _ _ _ _ _) call
      rw [written.sameAcks.rcvAckPsn]
      change update₂ s.rcvAckPsn (cfg.psnRow inDev i) i (acktag i) row d = _
      rw [update₂_apply]
      split
      · rename_i here
        obtain ⟨rfl, rfl⟩ := here
        exact (Nat.max_eq_right (Nat.le_of_lt news)).symm
      · rfl
    · rename_i old
      have written := outcome_result (updateWin_outcome _ _ _ _ _ _) call
      rw [written.sameAcks.rcvAckPsn]
      split
      · rename_i here
        obtain ⟨rfl, rfl⟩ := here
        exact (Nat.max_eq_left (Nat.not_lt.mp old)).symm
      · rfl
  · rename_i empty
    obtain rfl := Except.ok.inj call
    split
    · omega
    · rfl

theorem foldlM_recoverDst_rcvAck (absolute : cfg.absolutePsn = true) {dsts : List ℕ}
    (nodup : dsts.Nodup) (call : dsts.foldlM (recoverDst cfg inDev acktag) s = .ok t) (row d : ℕ) :
    t.rcvAckPsn row d =
      if row = cfg.psnRow inDev d ∧ d ∈ dsts then max (s.rcvAckPsn row d) (acktag d)
        else s.rcvAckPsn row d := by
  induction dsts generalizing s with
  | nil =>
    obtain rfl := Except.ok.inj call
    simp
  | cons i rest ih =>
    rw [List.foldlM_cons] at call
    obtain ⟨u, first, call⟩ := bind_ok call
    obtain ⟨fresh, nodup⟩ := List.nodup_cons.mp nodup
    rw [ih nodup call, recoverDst_rcvAck absolute first]
    by_cases here : d = i
    · subst here
      simp [fresh]
    · simp [here]

theorem resumeVOQWin_rcvAck (absolute : cfg.absolutePsn = true) {keep : Bool}
    (call : s.resumeVOQWin cfg acktag dst inDev = .ok (t, keep)) (row d : ℕ) :
    t.rcvAckPsn row d =
      match cfg.ackMode with
      | .switchIngressCredit =>
        if row = cfg.psnRow inDev d ∧ d < cfg.hostNum then max (s.rcvAckPsn row d) (acktag d)
          else s.rcvAckPsn row d
      | .switchDstCredit | .hostPerPacketAck =>
        if row = cfg.psnRow inDev dst ∧ d = dst ∧ s.rcvAckPsn row d < acktag 0 %
          2 ^ 32 then acktag 0
        else s.rcvAckPsn row d := by
  unfold resumeVOQWin at call
  obtain ⟨u, windows, call⟩ := bind_ok call
  obtain ⟨rfl, -⟩ := Prod.mk.inj (Except.ok.inj call)
  rw [(rcvAck_rule u.rcvAckPsn).checkAndSendCache inDev rfl]
  have same := (updateSynTime_rcvAck cfg s (cfg.psnRow inDev dst) dst acktag).1
  unfold resumeWindows at windows
  cases mode : cfg.ackMode with
  | switchIngressCredit =>
    rw [mode] at windows
    dsimp only at windows ⊢
    obtain ⟨v, recovered, released⟩ := bind_ok windows
    have kept := outcome_result ((rcvAck_rule v.rcvAckPsn).checkAndSendVOQs rfl) released
    rw [kept, foldlM_recoverDst_rcvAck absolute List.nodup_range recovered, same]
    simp only [List.mem_range]
  | switchDstCredit | hostPerPacketAck =>
    rw [mode] at windows
    dsimp only at windows ⊢
    obtain ⟨v, resumed, released⟩ := bind_ok windows
    have kept := outcome_result ((rcvAck_rule v.rcvAckPsn).checkAndSendVOQ dst rfl) released
    rw [kept, resumeDst_rcvAck absolute resumed, same]
    split
    · rename_i news
      rw [update₂_apply]
      by_cases here : row = cfg.psnRow inDev dst ∧ d = dst
      · obtain ⟨rfl, rfl⟩ := here
        rw [if_pos ⟨rfl, rfl⟩, if_pos ⟨rfl, rfl, news⟩]
      · rw [if_neg here, if_neg fun all => here ⟨all.1, all.2.1⟩]
    · rename_i old
      rw [if_neg]
      rintro ⟨rfl, rfl, news⟩
      exact old news

/-! ### Runs -/

theorem tagged_mono {p : PacketUnit} (h : Tagged cfg s t p) (row d : ℕ) :
    s.nxtDataPsn row d ≤ t.nxtDataPsn row d := by
  rcases h with ⟨-, same⟩ | ⟨-, -, grown⟩
  · rw [same]
  · rw [grown, update₂_apply]
    split
    · rename_i here
      obtain ⟨rfl, rfl⟩ := here
      omega
    · exact le_refl _

theorem nxtData_rule (table : ℕ → ℕ → ℕ) :
    ReleaseRule cfg (fun t => ∀ row d, table row d ≤ t.nxtDataPsn row d) fun _ => True where
  one s g voqId before := by
    refine outcome_mono (checkAndSendOne_outcome cfg s g voqId) (fun r after row d => ?_) fun _ _ =>
      trivial
    split at after
    · obtain ⟨p, released⟩ := after
      exact (before row d).trans (tagged_mono released.tagged row d)
    · rw [after.only.rewindowed.nxtDataPsn]
      exact before row d
  cached s dev top rest before _ _ row d := by
    rw [(sentCached cfg s dev top rest).nxtDataPsn]
    exact before row d
  known := trivial
  found _ _ _ _ _ _ := .inr trivial

theorem resumeVOQWin_nxtData {keep : Bool}
    (call : s.resumeVOQWin cfg acktag dst inDev = .ok (t, keep)) (row d : ℕ) :
    s.nxtDataPsn row d ≤ t.nxtDataPsn row d := by
  have time : ∀ row d, s.nxtDataPsn row d ≤
      (s.updateSynTime cfg (cfg.psnRow inDev dst) dst acktag).nxtDataPsn row d := by
    rw [(updateSynTime_rcvAck cfg s (cfg.psnRow inDev dst) dst acktag).2]
    exact fun _ _ => le_refl _
  have window : ∀ {u : State} (i credit : ℕ) (v : State), v.nxtDataPsn = u.nxtDataPsn →
      (∀ row d, s.nxtDataPsn row d ≤ u.nxtDataPsn row d) →
      Outcome (fun t => ∀ row d, s.nxtDataPsn row d ≤ t.nxtDataPsn row d) (fun _ => True)
        (v.updateWin cfg i credit inDev true) := by
    intro u i credit v same before
    refine outcome_mono (updateWin_outcome cfg v i credit inDev true)
      (fun t written row d => ?_) fun _ _ => trivial
    rw [written.nxtDataPsn, same]
    exact before row d
  refine outcome_result ((nxtData_rule s.nxtDataPsn).resumeVOQWin time ?_ ?_) call row d
  · intro u i _ before
    unfold recoverDst
    dsimp only
    split
    · split
      · split
        · exact window i _ _ rfl before
        · exact window i _ _ rfl before
      · exact window i _ _ rfl before
    · exact before
  · intro u before
    unfold resumeDst
    dsimp only
    split
    · split
      · exact window dst _ _ rfl before
      · exact window dst _ _ rfl before
    · exact window dst _ _ rfl before

/-- A valid `SwitchACK` records at most what it acknowledges, or what was on record. -/
theorem resumeVOQWin_le (absolute : cfg.absolutePsn = true) {keep : Bool}
    (valid : (Event.switchAck acktag dst inDev).AckValid cfg s) (ordered : s.PsnOrdered)
    (call : s.resumeVOQWin cfg acktag dst inDev = .ok (t, keep)) (row d : ℕ) :
    t.rcvAckPsn row d ≤ s.nxtDataPsn row d := by
  obtain ⟨host, below⟩ := valid
  have recorded := resumeVOQWin_rcvAck absolute call row d
  have before := ordered row d
  cases mode : cfg.ackMode with
  | switchIngressCredit =>
    rw [mode] at recorded
    dsimp only at recorded
    rw [recorded]
    split
    · rename_i here
      obtain ⟨rfl, known⟩ := here
      have acked := below d known
      rw [Config.ackedPsn, mode] at acked
      exact Nat.max_le.mpr ⟨before, acked⟩
    · exact before
  | switchDstCredit | hostPerPacketAck =>
    rw [mode] at recorded
    dsimp only at recorded
    rw [recorded]
    split
    · rename_i here
      obtain ⟨rfl, rfl, -⟩ := here
      have acked := below d host
      rw [Config.ackedPsn, mode] at acked
      simpa using acked
    · exact before

theorem psnOrdered_step (absolute : cfg.absolutePsn = true) {ev : Event} (ordered : s.PsnOrdered)
    (valid : ev.AckValid cfg s) (call : s.step cfg ev = .ok t) : t.PsnOrdered := by
  intro row d
  cases ev with
  | data p =>
    rcases outcome_result (sendToDev_outcome cfg s p) call with
      ignored | ⟨p', passed⟩ | ⟨g, voqId, G, held⟩
    · rw [ignored.eq]
      exact ordered row d
    · rw [passed.acks.rcvAckPsn]
      exact (ordered row d).trans (tagged_mono passed.tagged row d)
    · rw [held.acks.rcvAckPsn, held.nxtDataPsn]
      exact ordered row d
  | switchAck acktag dst inDev =>
    obtain ⟨keep, resumed⟩ := step_switchAck call
    exact (resumeVOQWin_le absolute valid ordered resumed row d).trans
      (resumeVOQWin_nxtData resumed row d)
  | advance now =>
    obtain rfl := Except.ok.inj call
    exact ordered row d
  | synTimeout dev =>
    obtain rfl := Except.ok.inj call
    have same : (s.synTimeout cfg dev).rcvAckPsn = s.rcvAckPsn ∧ (s.synTimeout cfg dev).nxtDataPsn =
        s.nxtDataPsn := by
      unfold synTimeout
      dsimp only
      split <;> exact ⟨rfl, rfl⟩
    rw [same.1, same.2]
    exact ordered row d

theorem psnOrdered_reachable (absolute : cfg.absolutePsn = true)
    (reach : Reachable cfg (Event.AckValid cfg) s) : s.PsnOrdered := by
  induction reach with
  | initial => exact fun _ _ => Nat.zero_le _
  | step _ valid call ordered => exact psnOrdered_step absolute ordered valid call

/-- One `SwitchACK` records the larger PSN, except that the DST mode may miss a PSN of more than 32
bits. -/
theorem ackExact_iff (absolute : cfg.absolutePsn = true) {keep : Bool} (host : dst < cfg.hostNum)
    (call : s.resumeVOQWin cfg acktag dst inDev = .ok (t, keep)) :
    AckExact cfg s t acktag dst inDev ↔ AckFits cfg s acktag dst inDev := by
  have recorded := resumeVOQWin_rcvAck absolute call
  unfold AckExact AckFits
  cases mode : cfg.ackMode with
  | hostPerPacketAck => exact absurd mode (cfg.psn_mode absolute)
  | switchIngressCredit =>
    rw [mode] at recorded
    simp only [Config.ackedPsn, mode]
    exact ⟨nofun, fun _ => recorded⟩
  | switchDstCredit =>
    rw [mode] at recorded
    dsimp only at recorded
    simp only [Config.ackedPsn, mode, forall_const]
    constructor
    · intro exact
      have here := exact (cfg.psnRow inDev dst) dst
      rw [recorded] at here
      simp only [true_and, host, and_self, if_true] at here
      split at here
      · rename_i news
        exact .inr news
      · exact .inl (by omega)
    · intro fits row d
      have low := Nat.mod_le (acktag 0) (2 ^ 32)
      rw [recorded]
      by_cases here : row = cfg.psnRow inDev dst ∧ d = dst
      · obtain ⟨rfl, rfl⟩ := here
        simp only [true_and, host, and_self, if_true]
        split <;> omega
      · rw [if_neg fun all => here ⟨all.1, all.2.1⟩]
        split
        · rename_i inside
          have other : d ≠ dst := by
            rintro rfl
            exact here ⟨inside.1, rfl⟩
          rw [if_neg other, Nat.max_eq_left (Nat.zero_le _)]
        · rfl

/-- The two modes leave the same table, except where the DST mode misses a PSN. -/
theorem modes_agree_iff (absolute : cfg.absolutePsn = true) (mode : cfg.ackMode = .switchDstCredit)
    (host : dst < cfg.hostNum) {keep keep' : Bool} {t' : State}
    (call : s.resumeVOQWin cfg acktag dst inDev = .ok (t, keep))
    (call' : s.resumeVOQWin cfg.ingress (fun i => if i = dst then acktag 0 else 0) dst inDev =
      .ok (t', keep')) :
    t.rcvAckPsn = t'.rcvAckPsn ↔ AckFits cfg s acktag dst inDev := by
  have table : ∀ row d, t'.rcvAckPsn row d =
      if row = cfg.psnRow inDev d ∧
        d < cfg.hostNum then max (s.rcvAckPsn row d) (cfg.ackedPsn acktag dst d)
      else s.rcvAckPsn row d := by
    intro row d
    rw [@resumeVOQWin_rcvAck cfg.ingress s t' _ dst inDev absolute keep' call' row d]
    simp only [Config.ackedPsn, mode]
    rfl
  rw [← ackExact_iff absolute host call]
  constructor
  · intro same row d
    rw [same]
    exact table row d
  · intro exact
    funext row d
    rw [exact row d, table row d]

end State

/-- In every run of the absolute mode whose `SwitchACK`s acknowledge no more than has been sent, the
figure of `GetInflightBytes` is exact just when it fits in 32 bits, and a `SwitchACK` records the
larger PSN, as it would in the other mode, just when `AckFits` holds of it. -/
theorem ack_progress (absolute : cfg.absolutePsn = true)
    (reach : State.Reachable cfg (Event.AckValid cfg) s) :
    (∀ d, s.getInflightBytes d = .ok (s.inflight d) ↔ s.inflight d < 2 ^ 32) ∧
    ∀ acktag dst inDev t keep, (Event.switchAck acktag dst inDev).AckValid cfg s →
      s.resumeVOQWin cfg acktag dst inDev = .ok (t, keep) →
      (State.AckExact cfg s t acktag dst inDev ↔ State.AckFits cfg s acktag dst inDev) ∧
      ∀ t' keep', cfg.ackMode = .switchDstCredit →
        s.resumeVOQWin cfg.ingress (fun i => if i = dst then acktag 0 else 0) dst inDev =
          .ok (t', keep') →
        (t.rcvAckPsn = t'.rcvAckPsn ↔ State.AckFits cfg s acktag dst inDev) := by
  have ordered := State.psnOrdered_reachable absolute reach
  refine ⟨fun d => State.getInflightBytes_exact ordered d,
    fun acktag dst inDev t keep valid call => ?_⟩
  refine ⟨State.ackExact_iff absolute valid.1 call, fun t' keep' mode call' => ?_⟩
  exact State.modes_agree_iff absolute mode valid.1 call call'

/-- A run of the INGRESS mode, and a `SwitchACK` for half of what is in flight. -/
theorem ack_progress_half : ∃ (cfg : Config) (s t : State) (acktag : ℕ → ℕ),
    cfg.absolutePsn = true ∧
    s.inflight 1 = 1000 ∧ s.getInflightBytes 1 = .ok 1000 ∧
    s.resumeVOQWin cfg acktag 1 1 = .ok (t, true) ∧
    t.rcvAckPsn 1 1 = 500 ∧ State.AckExact cfg s t acktag 1 1 := by
  let cfg : Config := smallConfig .switchIngressCredit true (ingressCredit_psn true) 5000
  let acktag : ℕ → ℕ := fun i => if i = 1 then 500 else 0
  obtain ⟨s, reach, flying, valid, ends⟩ : ∃ s, State.Reachable cfg (Event.AckValid cfg) s ∧
    s.inflight 1 = 1000 ∧ (Event.switchAck acktag 1 1).AckValid cfg s ∧
        ((s.resumeVOQWin cfg acktag 1 1).toOption.any fun r =>
        decide (r.1.rcvAckPsn 1 1 = 500 ∧ r.2 = true)) = true :=
    State.exists_run [.data (smallPacket 0 999)] (by decide +kernel)
  obtain ⟨⟨t, keep⟩, call, after, kept⟩ := State.exists_ok ends
  obtain ⟨exact, records⟩ := ack_progress rfl reach
  obtain rfl : keep = true := kept
  refine ⟨cfg, s, t, acktag, rfl, flying, ?_, call, after,
    (records _ _ _ _ _ valid call).1.mpr nofun⟩
  rw [(exact 1).mpr (by omega), flying]

/-- Three packets of 2^31 - 1 bytes: the third `SwitchACK` of the DST mode is not recorded. -/
theorem ack_missed : ∃ (cfg : Config) (s t : State) (keep : Bool), cfg.absolutePsn = true ∧
    State.Reachable cfg (Event.AckValid cfg) s ∧
    (Event.switchAck (fun _ => 3 * (2 ^ 31 - 1)) 1 1).AckValid cfg s ∧
    s.resumeVOQWin cfg (fun _ => 3 * (2 ^ 31 - 1)) 1 1 = .ok (t, keep) ∧
    s.rcvAckPsn 1 1 = 2 * (2 ^ 31 - 1) ∧ t.rcvAckPsn 1 1 = 2 * (2 ^ 31 - 1) ∧
    ¬State.AckExact cfg s t (fun _ => 3 * (2 ^ 31 - 1)) 1 1 := by
  let cfg : Config := smallConfig .switchDstCredit true (dstCredit_psn true) (2 ^ 32 - 1)
  let evs : List Event := [.data (smallPacket 0 (2 ^ 31 - 2)), .switchAck (fun _ => 2 ^ 31 - 1) 1 1,
    .data (smallPacket 1 (2 ^ 31 - 2)), .switchAck (fun _ => 2 * (2 ^ 31 - 1)) 1 1,
      .data (smallPacket 2 (2 ^ 31 - 2))]
  obtain ⟨s, reach, valid, before, ends⟩ : ∃ s, State.Reachable cfg (Event.AckValid cfg) s ∧
      (Event.switchAck (fun _ => 3 * (2 ^ 31 - 1)) 1 1).AckValid cfg s ∧
        s.rcvAckPsn 1 1 = 2 * (2 ^ 31 - 1) ∧
      ((s.resumeVOQWin cfg (fun _ => 3 * (2 ^ 31 - 1)) 1 1).toOption.any fun r =>
        decide (r.1.rcvAckPsn 1 1 = 2 * (2 ^ 31 - 1))) = true :=
    State.exists_run evs (by decide +kernel)
  obtain ⟨⟨t, keep⟩, call, after⟩ := State.exists_ok ends
  refine ⟨cfg, s, t, keep, rfl, reach, valid, call, before, after, fun exact => ?_⟩
  have recorded := exact 1 1
  rw [if_pos ⟨rfl, by decide⟩, before, after] at recorded
  exact absurd recorded (by decide)

end Floodgate

end Pyrrha
