import Pyrrha.Floodgate.Linked
import Pyrrha.Floodgate.Order

/-!
The windows of the relative mode as ledgers, hop by hop: what a window lacks of its initial size is
what has passed it and has not come back in a `SwitchACK`. It holds as long as no neighbour returns
more bytes than it still owes.
-/

namespace Pyrrha
open Lib

namespace Floodgate

variable {cfg : Config} {s t u : State} {credited : ℕ → ℕ} {d n dev g voqId : ℕ} {p p' : PacketUnit}

/-! ### What SwitchACKs return -/

/-- What a `SwitchACK` returns to the destination `d`; `dst` is the host that the address of the
packet names. -/
def Config.toDst (cfg : Config) (acktag : ℕ → ℕ) (dst d : ℕ) : ℕ :=
  match cfg.ackMode with
  | .switchIngressCredit => if d < cfg.hostNum then acktag d % 2 ^ 32 else 0
  | .switchDstCredit | .hostPerPacketAck => if d = dst then acktag 0 % 2 ^ 32 else 0

/-- What it returns to the port it comes through. -/
def Config.toPort (cfg : Config) (acktag : ℕ → ℕ) : ℕ :=
  match cfg.ackMode with
  | .switchIngressCredit => ((List.range cfg.hostNum).map fun i => acktag i % 2 ^ 32).sum
  | .switchDstCredit | .hostPerPacketAck => acktag 0 % 2 ^ 32

namespace Event

def dstCredit (cfg : Config) : Event → ℕ → ℕ
  | .switchAck acktag dst _, d => cfg.toDst acktag dst d
  | _, _ => 0

def portCredit (cfg : Config) : Event → ℕ → ℕ
  | .switchAck acktag _ inDev, dev => if dev = inDev then cfg.toPort acktag else 0
  | _, _ => 0

end Event

/-- The states of the runs, with what has been credited so far, in which every step meets `allowed`
and no counter of `m_buffering` wraps. -/
inductive LedgerRun (cfg : Config) (credit : Event → ℕ → ℕ)
    (allowed : (ℕ → ℕ) → State → Event → Prop) : (ℕ → ℕ) → State → Prop where
  | initial : LedgerRun cfg credit allowed (fun _ => 0) (State.initial cfg)
  | step {credited : ℕ → ℕ} {s t : State} {ev : Event} : LedgerRun cfg credit allowed credited s →
      ev.Fits cfg s → allowed credited s ev → s.step cfg ev = .ok t →
      LedgerRun cfg credit allowed (fun k => credited k + credit ev k) t

namespace State

/-- The bytes of `d` that `SendToDev` has admitted. -/
def admittedBytes (s : State) (d : ℕ) : ℕ :=
  tally PacketUnit.size (fun p => decide (p.dst = d)) s.admitted

/-- The bytes sent through `dev` that its window is debited for. -/
def portBytes (cfg : Config) (s : State) (dev : ℕ) : ℕ :=
  tally PacketUnit.size (fun p => decide (p.outDev = dev) &&
    decide (cfg.dst2group p.dst ≠ some .ignore)) s.sent

/-! ### Windows of destinations -/

/-- Each window and what is outstanding add up to the window of `BDPMAP`. -/
structure DstLedger (cfg : Config) (credited : ℕ → ℕ) (s : State) : Prop extends s.Stored cfg where
  wins : ∀ d g w₀, cfg.dst2group d = some (.group g) → cfg.bdpMap d = some w₀ →
    ∃ w, s.window cfg d = some w ∧ w + s.admittedBytes d = w₀ + credited d + s.waiting cfg d
  owed : ∀ d g, cfg.dst2group d = some (.group g) → credited d + s.waiting cfg d ≤ s.admittedBytes d

theorem dstLedger_initial (cfg : Config) : (State.initial cfg).DstLedger cfg fun _ => 0 where
  toStored := stored_initial cfg
  wins d g w₀ rule known := by
    refine ⟨w₀, by rw [window, known]; rfl, ?_⟩
    rw [waiting_initial]
    rfl
  owed d g rule := by
    rw [waiting_initial]
    exact Nat.zero_le _

theorem dstLedger_same (before : s.DstLedger cfg credited) (voqs : SameVoqs s t)
    (admitted : t.admitted = s.admitted)
    (windows : ∀ d g, cfg.dst2group d = some (.group g) → t.window cfg d = s.window cfg d) :
    t.DstLedger cfg credited := by
  have waits : ∀ d, t.waiting cfg d = s.waiting cfg d := fun d => by
    unfold waiting shelf pkts
    rw [voqs.groups]
  have bytes : ∀ d, t.admittedBytes d = s.admittedBytes d := fun d => by
    rw [admittedBytes, admitted, admittedBytes]
  refine ⟨stored_same before.toStored voqs, fun d g w₀ rule known => ?_, fun d g rule => ?_⟩
  · rw [windows d g rule, waits, bytes]
    exact before.wins d g w₀ rule known
  · rw [waits, bytes]
    exact before.owed d g rule

theorem window_checkDstWin (linked : cfg.Linked) {fits : Bool}
    (ended : s.checkDstWin cfg d n = .ok (u, fits)) (d' : ℕ) :
    u.window cfg d' = s.window cfg d' := by
  obtain ⟨w, has, rfl, -⟩ := checkDstWin_ok linked ended
  rw [window_setWin]
  split
  · rename_i here
    rw [here, has]
  · rfl

theorem window_debited (linked : cfg.Linked) (relative : cfg.absolutePsn = false)
    (debited : Debited cfg s t d n)
    (rule : cfg.dst2group d = some (.group g)) : ∃ w, s.window cfg d = some w ∧ n ≤ w ∧
      ∀ d', t.window cfg d' = if d' = d then some (sub32 w n) else s.window cfg d' := by
  obtain ⟨w, has, opens, wins⟩ := debited.linked linked rule
  have fits : n ≤ w := by
    unfold admitsBytes at opens
    rw [relative] at opens
    exact of_decide_eq_true (Except.ok.inj opens)
  refine ⟨w, has, fits, fun d' => ?_⟩
  unfold window
  rw [wins, Function.update_apply, lowered, relative, if_neg Bool.false_ne_true]
  split <;> rfl

theorem dstLedger_released (linked : cfg.Linked) (relative : cfg.absolutePsn = false)
    (before : s.DstLedger cfg credited)
    (h : Released cfg s t g voqId p) : t.DstLedger cfg credited := by
  obtain ⟨top, front, bare, -⟩ := shelf_released h
  have rule : cfg.dst2group p.dst = some (.group g) := by
    rw [← (PacketUnit.bare_fields bare).1]
    exact before.ruled g voqId top (front ▸ List.mem_cons_self)
  obtain ⟨w, has, fits, windows⟩ := window_debited linked relative h.wins rule
  have waits := waiting_released before.toPlaced h
  have bytes : ∀ d, t.admittedBytes d = s.admittedBytes d := fun d => by
    rw [admittedBytes, h.acks.admitted, admittedBytes]
  refine ⟨stored_released before.toStored h, fun d g' w₀ rule' known => ?_, fun d g' rule' => ?_⟩
  · obtain ⟨v, was, sum⟩ := before.wins d g' w₀ rule' known
    have owed := before.owed d g' rule'
    have small := cfg.bdpMap_lt d w₀ known
    have waited := waits d
    rw [windows, bytes]
    split
    · rename_i here
      rw [if_pos here] at waited
      subst here
      obtain rfl := Option.some.inj (was.symm.trans has)
      refine ⟨_, rfl, ?_⟩
      rw [sub32_exact (by omega) fits]
      omega
    · rename_i other
      rw [if_neg other] at waited
      exact ⟨v, was, by omega⟩
  · have waited := waits d
    have owed := before.owed d g' rule'
    rw [bytes]
    omega

theorem admittedBytes_arrival (p : PacketUnit) (same : t.admitted = s.admitted ++ [p]) (d : ℕ) :
    t.admittedBytes d = s.admittedBytes d + if p.dst = d then p.size else 0 := by
  rw [admittedBytes, same, tally_concat, admittedBytes]
  simp only [decide_eq_true_eq]

theorem dstLedger_passed (linked : cfg.Linked) (relative : cfg.absolutePsn = false)
    (before : s.DstLedger cfg credited)
    (h : Passed cfg { s with admitted := s.admitted ++ [p] } t p p') :
    t.DstLedger cfg credited := by
  obtain ⟨g, rule⟩ := h.grouped
  obtain ⟨w, has, fits, windows⟩ := window_debited linked relative h.wins rule
  have waits : ∀ d, t.waiting cfg d = s.waiting cfg d := fun d => by
    unfold waiting shelf pkts
    rw [h.voqs.groups]
  have bytes := admittedBytes_arrival (s := s) (t := t) p h.acks.admitted
  refine ⟨stored_same before.toStored ⟨h.voqs.groups, h.voqs.voqBuffer, h.voqs.buffering⟩,
    fun d g' w₀ rule' known => ?_, fun d g' rule' => ?_⟩
  · obtain ⟨v, was, sum⟩ := before.wins d g' w₀ rule' known
    have owed := before.owed d g' rule'
    have small := cfg.bdpMap_lt d w₀ known
    rw [windows, waits, bytes]
    split
    · rename_i here
      subst here
      obtain rfl := Option.some.inj (was.symm.trans has)
      refine ⟨_, rfl, ?_⟩
      rw [sub32_exact (by omega) fits, if_pos rfl]
      omega
    · rename_i other
      rw [if_neg fun same => other same.symm]
      exact ⟨v, was, sum⟩
  · have owed := before.owed d g' rule'
    rw [waits, bytes]
    omega

theorem dstLedger_held (linked : cfg.Linked) (before : s.DstLedger cfg credited) {G : Group}
    (h : Held cfg { s with admitted := s.admitted ++ [p] } t g voqId G p)
    (space : s.getBufferDst p.dst + p.size < 2 ^ 32) : t.DstLedger cfg credited := by
  have start : ({ s with admitted := s.admitted ++ [p] }).Stored cfg :=
    stored_same before.toStored ⟨rfl, rfl, rfl⟩
  obtain ⟨u, fits, tested, wins, -⟩ := h.tested
  have windows : ∀ d, t.window cfg d = s.window cfg d := by
    intro d
    have kept := window_checkDstWin linked tested d
    unfold window at kept ⊢
    rw [wins, kept]
  have waits := waiting_held start.toPlaced h
  have bytes := admittedBytes_arrival (s := s) (t := t) p h.acks.admitted
  have same : ∀ d, ({ s with admitted := s.admitted ++ [p] }).waiting cfg d = s.waiting cfg d :=
    fun _ => rfl
  refine ⟨stored_held start h space, fun d g' w₀ rule known => ?_, fun d g' rule => ?_⟩
  · obtain ⟨v, was, sum⟩ := before.wins d g' w₀ rule known
    refine ⟨v, (windows d).trans was, ?_⟩
    rw [waits, bytes, same, same]
    by_cases here : d = p.dst
    · rw [if_pos here, if_pos here.symm, ← here]
      omega
    · rw [if_neg here, if_neg fun also => here also.symm]
      exact sum
  · have owed := before.owed d g' rule
    rw [waits, bytes, same, same]
    by_cases here : d = p.dst
    · rw [if_pos here, if_pos here.symm, ← here]
      omega
    · rw [if_neg here, if_neg fun also => here also.symm]
      exact owed

theorem dstLedger_rule (linked : cfg.Linked) (relative : cfg.absolutePsn = false)
    (credited : ℕ → ℕ) : ReleaseRule cfg (fun s => s.DstLedger cfg credited) Assert.OfWindow where
  one s g voqId before := by
    refine outcome_mono (checkAndSendOne_outcome cfg s g voqId) (fun r after => ?_) fun e =>
      release_asserts before.toStored
    split at after
    · obtain ⟨p, released⟩ := after
      exact dstLedger_released linked relative before released
    · refine dstLedger_same before after.only.rewindowed.sameVoqs
        after.only.rewindowed.sameAcks.admitted fun d _ _ => ?_
      rcases after.test with ⟨-, same⟩ | ⟨top, rest, -, tested⟩
      · rw [same]
      · exact window_checkDstWin linked tested d
  cached s dev top rest before _ _ := by
    have sent := sentCached cfg s dev top rest
    refine dstLedger_same before sent.voqs sent.acks.admitted fun d _ _ => ?_
    rw [window, sent.wins, window]
  known := .inl rfl
  found s d g before rule missing :=
    .inl ((before.buffering d).trans (before.none_waits rule missing))

end State

/-! ### Credits -/

/-- Credits of `dsts d` bytes to the window of each `d`, and of `ports dev` to that of each `dev`;
no packet moves. -/
structure Raised (cfg : Config) (dsts ports : ℕ → ℕ) (s t : State) : Prop where
  credited : Credited s t
  windows : ∀ d g w, cfg.dst2group d = some (.group g) → s.window cfg d = some w →
    w + dsts d < 2 ^ 32 → t.window cfg d = some (w + dsts d)
  ports : cfg.usePortWin = true → ∀ dev, s.egressWins dev + ports dev < 2 ^ 32 →
    t.egressWins dev = s.egressWins dev + ports dev

namespace State

theorem raised_refl (cfg : Config) (s : State) : Raised cfg (fun _ => 0) (fun _ => 0) s s :=
  ⟨credited_refl s, fun _ _ _ _ has _ => has, fun _ _ _ => rfl⟩

theorem credited_trans (h : Credited s t) (h' : Credited t u) : Credited s u where
  voqs := ⟨h'.voqs.groups.trans h.voqs.groups, h'.voqs.voqBuffer.trans h.voqs.voqBuffer,
    h'.voqs.buffering.trans h.voqs.buffering⟩
  admitted := h'.admitted.trans h.admitted
  sent := h'.sent.trans h.sent
  egressCache := h'.egressCache.trans h.egressCache
  nxtDataPsn := h'.nxtDataPsn.trans h.nxtDataPsn

theorem raised_trans {dsts ports dsts' ports' : ℕ → ℕ} (h : Raised cfg dsts ports s t)
    (h' : Raised cfg dsts' ports' t u) :
    Raised cfg (fun d => dsts d + dsts' d) (fun dev => ports dev + ports' dev) s u where
  credited := credited_trans h.credited h'.credited
  windows d g w rule has fits := by
    have first := h.windows d g w rule has (by omega)
    rw [← Nat.add_assoc] at fits ⊢
    exact h'.windows d g _ rule first fits
  ports port dev fits := by
    have first := h.ports port dev (by omega)
    have second := h'.ports port dev (by omega)
    rw [second, first, Nat.add_assoc]

theorem raised_updateWin (relative : cfg.absolutePsn = false)
    (ended : s.updateWin cfg d n dev true = .ok t) :
    Raised cfg (fun k => if k = d then n else 0) (fun k => if k = dev then n else 0) s t := by
  have credited : Credited s t :=
    outcome_result (updateWin_credited cfg d n dev (credited_refl s)) ended
  unfold updateWin at ended
  obtain ⟨u, raised, ended⟩ := bind_ok ended
  obtain rfl := Except.ok.inj ended
  have wins : (u.updateEgressWin cfg dev n true).wins = u.wins := by
    unfold updateEgressWin
    split
    · rfl
    · rfl
  unfold updateDstWin at raised
  obtain ⟨ignore, rule, raised⟩ := bind_ok raised
  refine ⟨credited, fun k g w grouped has fits => ?_, fun port k fits => ?_⟩
  · unfold window at has ⊢
    rw [wins]
    cases ignore with
    | true =>
      obtain rfl := Except.ok.inj raised
      have other : k ≠ d := by
        rintro rfl
        rw [Config.shouldIgnore, grouped] at rule
        cases rule
      rw [if_neg other]
      exact has
    | false =>
      rw [relative] at raised
      simp only [Bool.false_eq_true, if_false, if_true] at raised
      split at raised
      · cases raised
      · rename_i w' known
        obtain rfl := Except.ok.inj raised
        rw [setWin_wins, Function.update_apply]
        split
        · rename_i here
          subst here
          rw [if_pos rfl] at fits
          obtain rfl : w' = w := by simpa [known] using has
          rw [add32_exact fits]
          rfl
        · exact has
  · have same : u.egressWins = s.egressWins := by
      cases ignore with
      | true => rw [← Except.ok.inj raised]
      | false =>
        rw [relative] at raised
        simp only [Bool.false_eq_true, if_false, if_true] at raised
        split at raised
        · cases raised
        · rw [← Except.ok.inj raised, setWin]
    unfold updateEgressWin
    rw [port, Bool.not_true, if_neg Bool.false_ne_true, if_pos rfl, same]
    dsimp only
    rw [Function.update_apply]
    split
    · rename_i here
      subst here
      rw [if_pos rfl] at fits
      rw [add32_exact fits]
    · rfl

theorem raised_recoverDst (relative : cfg.absolutePsn = false) {acktag : ℕ → ℕ} {i : ℕ}
    (ended : s.recoverDst cfg dev acktag i = .ok t) :
    Raised cfg (fun k => if k = i then acktag i % 2 ^ 32 else 0)
      (fun k => if k = dev then acktag i % 2 ^ 32 else 0) s t := by
  unfold recoverDst at ended
  rw [relative] at ended
  dsimp only at ended
  rw [if_neg Bool.false_ne_true] at ended
  split at ended
  · exact raised_updateWin relative ended
  · rename_i nothing
    obtain rfl := Except.ok.inj ended
    have zero : acktag i % 2 ^ 32 = 0 := by
      rw [Nat.eq_zero_of_not_pos nothing]
      exact Nat.zero_mod _
    simp only [zero, ite_self]
    exact raised_refl cfg s

/-- `RecoverWin` credits the destinations of the tag, and all of it to the port. -/
theorem raised_recoverWin (relative : cfg.absolutePsn = false) {acktag : ℕ → ℕ}
    (ended : s.recoverWin cfg acktag dev = .ok t) :
    Raised cfg (fun d => if d < cfg.hostNum then acktag d % 2 ^ 32 else 0)
      (fun k => if k = dev then ((List.range cfg.hostNum).map fun i => acktag i % 2 ^ 32).sum
        else 0) s t := by
  -- `done` are the destinations that have been credited
  have folded : ∃ done, done ++ [] = List.range cfg.hostNum ∧
      Raised cfg (fun d => if d ∈ done then acktag d % 2 ^ 32 else 0)
        (fun k => if k = dev then (done.map fun i => acktag i % 2 ^ 32).sum else 0) s t := by
    refine foldlM_rest (I := fun rest b => ∃ done, done ++ rest = List.range cfg.hostNum ∧
      Raised cfg (fun d => if d ∈ done then acktag d % 2 ^ 32 else 0)
        (fun k => if k = dev then (done.map fun i => acktag i % 2 ^ 32).sum else 0) s b) ?_ ?_ ended
    · rintro i rest b b' ⟨done, parts, before⟩ call
      have fresh : i ∉ done := by
        have nodup := @List.nodup_range cfg.hostNum
        rw [← parts] at nodup
        exact fun member => (List.disjoint_of_nodup_append nodup) member List.mem_cons_self
      refine ⟨done ++ [i], by rw [List.append_assoc]; exact parts, ?_⟩
      have after := raised_trans before (raised_recoverDst relative call)
      convert after using 2 with d k
      · by_cases here : d = i
        · subst here
          simp [fresh]
        · simp [here]
      · by_cases here : k = dev <;> simp [here]
    · refine ⟨[], rfl, ?_⟩
      convert raised_refl cfg s using 2 with d k <;> simp
  obtain ⟨done, all, raised⟩ := folded
  rw [List.append_nil] at all
  subst all
  simpa only [List.mem_range] using raised

theorem raised_resumeDst (relative : cfg.absolutePsn = false) {acked dst inDev : ℕ}
    (ended : s.resumeDst cfg acked dst inDev = .ok t) :
    Raised cfg (fun d => if d = dst then acked % 2 ^ 32 else 0)
      (fun dev => if dev = inDev then acked % 2 ^ 32 else 0) s t := by
  unfold resumeDst at ended
  rw [relative] at ended
  exact raised_updateWin relative ended

/-- What the credits of a `SwitchACK` establish and a release keeps, holds after it. -/
theorem resumed_rule {I : State → Prop} {E : Assert → Prop} (rule : ReleaseRule cfg I E)
    (relative : cfg.absolutePsn = false) {acktag : ℕ → ℕ} {dst inDev : ℕ} {keep : Bool}
    (raise : ∀ u, Raised cfg (cfg.toDst acktag dst)
      (fun dev => if dev = inDev then cfg.toPort acktag else 0) s u → I u)
    (ended : s.resumeVOQWin cfg acktag dst inDev = .ok (t, keep)) : I t := by
  have still : s.updateSynTime cfg (cfg.psnRow inDev dst) dst acktag = s := by
    unfold updateSynTime
    rw [if_pos (.inl relative)]
  unfold resumeVOQWin at ended
  rw [still] at ended
  obtain ⟨u, windows, ended⟩ := bind_ok ended
  obtain ⟨rfl, -⟩ := Prod.mk.inj (Except.ok.inj ended)
  refine rule.checkAndSendCache inDev ?_
  unfold resumeWindows at windows
  unfold Config.toDst Config.toPort at raise
  cases mode : cfg.ackMode with
  | switchIngressCredit =>
    rw [mode] at windows raise
    obtain ⟨v, recovered, released⟩ := bind_ok windows
    exact outcome_result (rule.checkAndSendVOQs (raise v (raised_recoverWin relative recovered)))
      released
  | switchDstCredit =>
    rw [mode] at windows raise
    obtain ⟨v, recovered, released⟩ := bind_ok windows
    exact outcome_result (rule.checkAndSendVOQ dst (raise v (raised_resumeDst relative recovered)))
      released
  | hostPerPacketAck =>
    rw [mode] at windows raise
    obtain ⟨v, recovered, released⟩ := bind_ok windows
    exact outcome_result (rule.checkAndSendVOQ dst (raise v (raised_resumeDst relative recovered)))
      released

theorem dstLedger_raised {dsts ports : ℕ → ℕ} (before : s.DstLedger cfg credited)
    (h : Raised cfg dsts ports s t)
    (owed : ∀ d g, cfg.dst2group d = some (.group g) → credited d + dsts d + s.waiting cfg d ≤
      s.admittedBytes d) :
    t.DstLedger cfg fun d => credited d + dsts d := by
  have waits : ∀ d, t.waiting cfg d = s.waiting cfg d := fun d => by
    unfold waiting shelf pkts
    rw [h.credited.voqs.groups]
  have bytes : ∀ d, t.admittedBytes d = s.admittedBytes d := fun d => by
    rw [admittedBytes, h.credited.admitted, admittedBytes]
  refine ⟨stored_same before.toStored h.credited.voqs, fun d g w₀ rule known => ?_,
    fun d g rule => ?_⟩
  · obtain ⟨w, has, sum⟩ := before.wins d g w₀ rule known
    have small := cfg.bdpMap_lt d w₀ known
    have within := owed d g rule
    refine ⟨_, h.windows d g w rule has (by omega), ?_⟩
    rw [waits, bytes]
    omega
  · rw [waits, bytes]
    exact owed d g rule

end State

/-- No neighbour returns bytes of a destination that it has not got. -/
def OwesDst (cfg : Config) (credited : ℕ → ℕ) (s : State) (ev : Event) : Prop :=
  ∀ d < cfg.hostNum, cfg.dst2group d ≠ some .ignore →
    credited d + ev.dstCredit cfg d + s.waiting cfg d ≤ s.admittedBytes d

instance (cfg : Config) (credited : ℕ → ℕ) (s : State) (ev : Event) :
    Decidable (OwesDst cfg credited s ev) :=
  inferInstanceAs (Decidable (∀ d < cfg.hostNum, cfg.dst2group d ≠ some .ignore →
    credited d + ev.dstCredit cfg d + s.waiting cfg d ≤ s.admittedBytes d))

theorem OwesDst.grouped {ev : Event} (h : OwesDst cfg credited s ev)
    (rule : cfg.dst2group d = some (.group g)) :
    credited d + ev.dstCredit cfg d + s.waiting cfg d ≤ s.admittedBytes d := by
  refine h d ((cfg.hosts d).mp (by rw [rule]; rfl)) ?_
  rw [rule]
  exact nofun

namespace State

theorem dstLedger_step (linked : cfg.Linked) (relative : cfg.absolutePsn = false) {ev : Event}
    (before : s.DstLedger cfg credited) (fits : ev.Fits cfg s) (owes : OwesDst cfg credited s ev)
    (call : s.step cfg ev = .ok t) : t.DstLedger cfg fun d => credited d + ev.dstCredit cfg d := by
  cases ev with
  | data p =>
    have arrived := outcome_result (sendToDev_outcome cfg s p) call
    rcases arrived with ignored | ⟨p', passed⟩ | ⟨g, voqId, G, held⟩
    · rw [ignored.eq]
      have other : ∀ d g, cfg.dst2group d = some (.group g) → p.dst ≠ d := by
        rintro d g rule rfl
        have ignore := ignored.rule
        rw [rule] at ignore
        cases ignore
      refine ⟨stored_same before.toStored ⟨rfl, rfl, rfl⟩, fun d g w₀ rule known => ?_,
        fun d g rule => ?_⟩
      · obtain ⟨w, has, sum⟩ := before.wins d g w₀ rule known
        refine ⟨w, has, ?_⟩
        rw [admittedBytes_arrival (s := s) p rfl d, if_neg (other d g rule)]
        exact sum
      · rw [admittedBytes_arrival (s := s) p rfl d, if_neg (other d g rule)]
        exact before.owed d g rule
    · exact dstLedger_passed linked relative before passed
    · have blocked := held.blocked
      rw [holds_admitted] at blocked
      exact dstLedger_held linked before held (fits blocked)
  | switchAck acktag dst inDev =>
    obtain ⟨keep, ended⟩ := step_switchAck call
    refine resumed_rule (dstLedger_rule linked relative _) relative (fun u raised => ?_) ended
    exact dstLedger_raised before raised fun d g rule => owes.grouped rule
  | advance time =>
    obtain rfl := Except.ok.inj call
    exact dstLedger_same before ⟨rfl, rfl, rfl⟩ rfl fun _ _ _ => rfl
  | synTimeout dev =>
    obtain rfl := Except.ok.inj call
    have same := synTimeout_credited cfg s dev
    refine dstLedger_same before same.voqs same.admitted fun d _ _ => ?_
    unfold window synTimeout
    dsimp only
    split <;> rfl

theorem dstLedger_run (linked : cfg.Linked) (relative : cfg.absolutePsn = false)
    (run : LedgerRun cfg (fun ev => ev.dstCredit cfg) (OwesDst cfg) credited s) :
    s.DstLedger cfg credited := by
  induction run with
  | initial => exact dstLedger_initial cfg
  | step _ fits owes call before => exact dstLedger_step linked relative before fits owes call

/-- Hop by hop, in the relative mode, what the window of a destination lacks of its entry of
`BDPMAP` is exactly what has gone on to it and has not been returned: it never wraps, and no more
than its entry is ever outstanding. -/
theorem window_ledger (linked : cfg.Linked) (relative : cfg.absolutePsn = false)
    (run : LedgerRun cfg (fun ev => ev.dstCredit cfg) (OwesDst cfg) credited s) {w₀ : ℕ}
    (rule : cfg.dst2group d = some (.group g)) (known : cfg.bdpMap d = some w₀) :
    credited d + s.waiting cfg d ≤ s.admittedBytes d ∧
      ∃ w, s.window cfg d = some w ∧ w + (s.admittedBytes d - s.waiting cfg d - credited d) =
        w₀ := by
  have ledger := dstLedger_run linked relative run
  obtain ⟨w, has, sum⟩ := ledger.wins d g w₀ rule known
  have owed := ledger.owed d g rule
  exact ⟨owed, w, has, by omega⟩

/-! ### Windows of ports -/

/-- Each window of a port and what it has been debited for add up to its first value. -/
structure PortLedger (cfg : Config) (credited : ℕ → ℕ) (s : State) :
    Prop extends s.Stored cfg, s.Cached cfg where
  wins : ∀ dev, s.egressWins dev + s.portBytes cfg dev = cfg.portWin dev + credited dev
  owed : ∀ dev, credited dev ≤ s.portBytes cfg dev

theorem portLedger_initial (cfg : Config) : (State.initial cfg).PortLedger cfg fun _ => 0 where
  toStored := stored_initial cfg
  toCached := (ordered_initial cfg).toCached
  wins _ := rfl
  owed _ := Nat.zero_le _

theorem portLedger_same (before : s.PortLedger cfg credited) (stored : t.Stored cfg)
    (cache : t.egressCache = s.egressCache) (sent : t.sent = s.sent)
    (windows : t.egressWins = s.egressWins) : t.PortLedger cfg credited where
  toStored := stored
  cached := by
    rw [cache]
    exact before.cached
  direct := by
    rw [cache]
    exact before.direct
  wins dev := by
    rw [windows, portBytes, sent]
    exact before.wins dev
  owed dev := by
    rw [portBytes, sent]
    exact before.owed dev

theorem portBytes_sent (sent : t.sent = s.sent ++ [p]) {g : ℕ}
    (rule : cfg.dst2group p.dst = some (.group g)) (dev : ℕ) :
    t.portBytes cfg dev = s.portBytes cfg dev + if p.outDev = dev then p.size else 0 := by
  rw [portBytes, sent, tally_concat, rule, portBytes]
  simp

theorem portLedger_debited (port : cfg.usePortWin = true) (before : s.PortLedger cfg credited)
    (stored : t.Stored cfg) (cached : t.Cached cfg) (sent : t.sent = s.sent ++ [p])
    (rule : cfg.dst2group p.dst = some (.group g))
    (opens : p.size ≤ s.egressWins p.outDev) (windows : t.egressWins =
      s.debitPort cfg p.outDev p.size) :
    t.PortLedger cfg credited := by
  have bytes := portBytes_sent sent rule
  refine ⟨stored, cached, fun dev => ?_, fun dev => ?_⟩
  · have sum := before.wins dev
    have owed := before.owed dev
    have small := cfg.portWin_lt dev
    rw [windows, bytes, debitPort, if_pos port, Function.update_apply]
    split
    · rename_i here
      subst here
      rw [sub32_exact (by omega) opens, if_pos rfl]
      omega
    · rename_i other
      rw [if_neg fun same => other same.symm]
      exact sum
  · have owed := before.owed dev
    rw [bytes]
    omega

theorem portLedger_forwarded (port : cfg.usePortWin = true) (before : s.PortLedger cfg credited)
    (stored : t.Stored cfg)
    (route : Forwarded cfg s t p) (rule : cfg.dst2group p.dst = some (.group g)) :
    t.PortLedger cfg credited := by
  have cached := cached_forwarded before.toCached route ⟨g, rule⟩
  rcases route with direct | pushed
  · exact portLedger_debited port before stored cached direct.sent rule
      (direct.opens port) direct.egressWins
  · refine ⟨stored, cached, fun dev => ?_, fun dev => ?_⟩
    · rw [pushed.egressWins, portBytes, pushed.sent]
      exact before.wins dev
    · rw [portBytes, pushed.sent]
      exact before.owed dev

theorem portLedger_rule (port : cfg.usePortWin = true) (credited : ℕ → ℕ) :
    ReleaseRule cfg (fun s => s.PortLedger cfg credited) Assert.OfWindow where
  one s g voqId before := by
    refine outcome_mono (checkAndSendOne_outcome cfg s g voqId) (fun r after => ?_) fun e =>
      release_asserts before.toStored
    split at after
    · obtain ⟨p, released⟩ := after
      obtain ⟨top, front, bare, -⟩ := shelf_released released
      have rule : cfg.dst2group p.dst = some (.group g) := by
        rw [← (PacketUnit.bare_fields bare).1]
        exact before.ruled g voqId top (front ▸ List.mem_cons_self)
      exact portLedger_forwarded port before
        (stored_released before.toStored released) released.route rule
    · have same := after.only.rewindowed
      exact portLedger_same before (stored_same before.toStored same.sameVoqs)
        same.egressCache same.sent after.only.egressWins
  cached s dev top rest before front fits := by
    have sent := sentCached cfg s dev top rest
    obtain ⟨outDev, g, rule⟩ := before.cached dev top (front ▸ List.mem_cons_self)
    have opens : top.size ≤ s.egressWins top.outDev := by
      unfold checkEgressWin at fits
      rw [port, Bool.not_true, Bool.false_or] at fits
      rw [outDev]
      exact of_decide_eq_true fits
    exact portLedger_debited port before (stored_same before.toStored sent.voqs)
      (cached_sent before.toCached front sent) sent.sent rule opens (outDev ▸ sent.egressWins)
  known := .inl rfl
  found s d g before rule missing :=
    .inl ((before.buffering d).trans (before.none_waits rule missing))

theorem portLedger_raised {dsts ports : ℕ → ℕ} (port : cfg.usePortWin = true)
    (before : s.PortLedger cfg credited)
    (h : Raised cfg dsts ports s t) (owed : ∀ dev, credited dev + ports dev ≤ s.portBytes cfg dev) :
    t.PortLedger cfg fun dev => credited dev + ports dev := by
  have bytes : ∀ dev, t.portBytes cfg dev = s.portBytes cfg dev := fun dev => by
    rw [portBytes, h.credited.sent, portBytes]
  refine ⟨stored_same before.toStored h.credited.voqs, ⟨?_, ?_⟩, fun dev => ?_, fun dev => ?_⟩
  · rw [h.credited.egressCache]
    exact before.cached
  · rw [h.credited.egressCache]
    exact before.direct
  · have sum := before.wins dev
    have within := owed dev
    have small := cfg.portWin_lt dev
    rw [h.ports port dev (by omega), bytes]
    omega
  · rw [bytes]
    exact owed dev

end State

/-- No neighbour returns bytes that have not been sent through its port. -/
def OwesPort (cfg : Config) (credited : ℕ → ℕ) (s : State) : Event → Prop
  | .switchAck acktag _ inDev => credited inDev + cfg.toPort acktag ≤ s.portBytes cfg inDev
  | _ => True

instance (cfg : Config) (credited : ℕ → ℕ) (s : State) (ev : Event) :
    Decidable (OwesPort cfg credited s ev) :=
  match ev with
  | .switchAck acktag _ inDev =>
    inferInstanceAs (Decidable (credited inDev + cfg.toPort acktag ≤ s.portBytes cfg inDev))
  | .data _ | .synTimeout _ | .advance _ => isTrue trivial

namespace State

theorem portLedger_step (port : cfg.usePortWin = true) (relative : cfg.absolutePsn = false)
    {ev : Event}
    (before : s.PortLedger cfg credited) (fits : ev.Fits cfg s) (owes : OwesPort cfg credited s ev)
    (call : s.step cfg ev = .ok t) : t.PortLedger cfg fun dev =>
      credited dev + ev.portCredit cfg dev := by
  cases ev with
  | data p =>
    have stored := outcome_result (stored_step before.toStored fits) call
    have start : ({ s with admitted := s.admitted ++ [p] }).PortLedger cfg credited :=
      portLedger_same before (stored_same before.toStored ⟨rfl, rfl, rfl⟩) rfl rfl rfl
    have arrived := outcome_result (sendToDev_outcome cfg s p) call
    rcases arrived with ignored | ⟨p', passed⟩ | ⟨g, voqId, G, held⟩
    · have bytes : ∀ dev, t.portBytes cfg dev = s.portBytes cfg dev := fun dev => by
        rw [ignored.eq, portBytes, doSwitchSend, tally_concat, ignored.rule]
        simp [portBytes]
      refine ⟨stored, ⟨?_, ?_⟩, fun dev => ?_, fun dev => ?_⟩
      · rw [ignored.eq]
        exact before.cached
      · rw [ignored.eq]
        exact before.direct
      · rw [bytes, ignored.eq]
        exact before.wins dev
      · rw [bytes]
        exact before.owed dev
    · obtain ⟨g, rule⟩ := passed.grouped
      rw [← (PacketUnit.bare_fields passed.bare).1] at rule
      exact portLedger_forwarded port start stored passed.route rule
    · exact portLedger_same start stored held.egressCache held.sent held.egressWins
  | switchAck acktag dst inDev =>
    obtain ⟨keep, ended⟩ := step_switchAck call
    refine resumed_rule (portLedger_rule port _) relative (fun u raised => ?_) ended
    refine portLedger_raised port before raised fun k => ?_
    show credited k + (if k = inDev then cfg.toPort acktag else 0) ≤ s.portBytes cfg k
    split
    · rename_i here
      subst here
      exact owes
    · exact before.owed k
  | advance time =>
    obtain rfl := Except.ok.inj call
    exact portLedger_same before (stored_same before.toStored ⟨rfl, rfl, rfl⟩) rfl rfl rfl
  | synTimeout dev =>
    obtain rfl := Except.ok.inj call
    have same := synTimeout_credited cfg s dev
    refine portLedger_same before (stored_same before.toStored same.voqs) same.egressCache
      same.sent ?_
    unfold synTimeout
    dsimp only
    split <;> rfl

theorem portLedger_run (port : cfg.usePortWin = true) (relative : cfg.absolutePsn = false)
    (run : LedgerRun cfg (fun ev => ev.portCredit cfg) (OwesPort cfg) credited s) :
    s.PortLedger cfg credited := by
  induction run with
  | initial => exact portLedger_initial cfg
  | step _ fits owes call before => exact portLedger_step port relative before fits owes call

/-- With windows of ports, in the relative mode, what the window of a port lacks of its first value
is exactly what has been sent through it, ignored destinations apart, and has not been returned. -/
theorem port_ledger (port : cfg.usePortWin = true) (relative : cfg.absolutePsn = false)
    (run : LedgerRun cfg (fun ev => ev.portCredit cfg) (OwesPort cfg) credited s) (dev : ℕ) :
    credited dev ≤ s.portBytes cfg dev ∧
      s.egressWins dev + (s.portBytes cfg dev - credited dev) = cfg.portWin dev := by
  have ledger := portLedger_run port relative run
  have sum := ledger.wins dev
  have owed := ledger.owed dev
  exact ⟨owed, by omega⟩

end State

/-! ### Runs with credits -/

namespace LedgerRun

variable {credit : Event → ℕ → ℕ} {allowed : (ℕ → ℕ) → State → Event → Prop}
  [∀ credited s ev, Decidable (allowed credited s ev)]

/-- The run of a list of events, with what they credit, as long as every one is allowed and no
assert fails. -/
def run (cfg : Config) (credit : Event → ℕ → ℕ) (allowed : (ℕ → ℕ) → State → Event → Prop)
    [∀ credited s ev, Decidable (allowed credited s ev)] (credited : ℕ → ℕ) (s : State) :
    List Event → Option ((ℕ → ℕ) × State)
  | [] => some (credited, s)
  | ev :: evs =>
    if ev.Fits cfg s ∧ allowed credited s ev then
      match s.step cfg ev with
      | .ok t => run cfg credit allowed (fun k => credited k + credit ev k) t evs
      | .error _ => none
    else none

theorem of_run {r : (ℕ → ℕ) × State} {evs : List Event}
    (start : LedgerRun cfg credit allowed credited s)
    (ends : run cfg credit allowed credited s evs = some r) :
    LedgerRun cfg credit allowed r.1 r.2 := by
  induction evs generalizing credited s with
  | nil =>
    obtain rfl := Option.some.inj ends
    exact start
  | cons ev evs ih =>
    unfold run at ends
    split at ends
    · rename_i ok
      split at ends
      · rename_i u call
        exact ih (.step start ok.1 ok.2 call) ends
      · cases ends
    · cases ends

theorem exists_run (evs : List Event) {test : (ℕ → ℕ) → State → Prop}
    [∀ credited s, Decidable (test credited s)]
    (ends : ((run cfg credit allowed (fun _ => 0) (State.initial cfg) evs).any fun r =>
      decide (test r.1 r.2)) = true) :
    ∃ credited s, LedgerRun cfg credit allowed credited s ∧ test credited s := by
  obtain ⟨r, ended, passes⟩ := Option.any_eq_true _ _ |>.mp ends
  exact ⟨r.1, r.2, of_run .initial ended, of_decide_eq_true passes⟩

end LedgerRun

/-- A packet passes, a second one waits for its window, and a `SwitchACK` for half of the first one
comes. -/
def ledgerEvents : List Event :=
  [.data (bulkPacket 0), .data (bulkPacket 1), .switchAck (fun _ => 512) 1 1]

theorem window_ledger_waits : ∃ credited s,
    LedgerRun bulkConfig (fun ev => ev.dstCredit bulkConfig) (OwesDst bulkConfig) credited s ∧
    s.pkts 0 1 ≠ [] ∧ credited 1 = 512 ∧ ∃ w, s.window bulkConfig 1 = some w ∧
        w + (s.admittedBytes 1 - s.waiting bulkConfig 1 - credited 1) = 1500 := by
  obtain ⟨credited, s, run, waits, got⟩ : ∃ credited s,
      LedgerRun bulkConfig (fun ev => ev.dstCredit bulkConfig) (OwesDst bulkConfig) credited s ∧
        s.pkts 0 1 ≠ [] ∧ credited 1 = 512 :=
    LedgerRun.exists_run ledgerEvents (by decide +kernel)
  exact ⟨credited, s, run, waits, got,
    (@State.window_ledger bulkConfig s credited 1 0 rfl rfl run 1500 rfl rfl).2⟩

theorem portConfig_lt : 1500 < 2 ^ 32 := by decide

theorem portConfig_mode : bulkConfig.resetOnlyToR = false ∧
    bulkConfig.ackMode ≠ .hostPerPacketAck := ⟨rfl, by decide⟩

/-- Windows of 1500 bytes for host 1 and for each port. -/
def portConfig : Config :=
  { bulkConfig with
    usePortWin := true
    portWin := fun _ => 1500
    portWin_lt := fun _ => portConfig_lt
    portWin_mode := fun _ => portConfig_mode }

theorem port_ledger_waits : ∃ credited s,
    LedgerRun portConfig (fun ev => ev.portCredit portConfig) (OwesPort portConfig) credited s ∧
    credited 1 = 512 ∧ s.egressWins 1 + (s.portBytes portConfig 1 - credited 1) = 1500 := by
  obtain ⟨credited, s, run, got⟩ : ∃ credited s,
      LedgerRun portConfig (fun ev => ev.portCredit portConfig) (OwesPort portConfig) credited s ∧
        credited 1 = 512 :=
    LedgerRun.exists_run ledgerEvents (by decide +kernel)
  exact ⟨credited, s, run, got, (@State.port_ledger portConfig s credited rfl rfl run 1).2⟩

end Floodgate

end Pyrrha
