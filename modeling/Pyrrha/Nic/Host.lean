import Pyrrha.Nic.Pauses

/-!
The two models of a NIC side by side. `NetDevice` has the queue pairs of `RdmaHw` and their clock,
`HostDevice` asks callbacks and has tokens. With the callbacks of a host without tokens both do the
same in `DequeueAndTransmit`.
-/

namespace Pyrrha
open Lib Rdma

namespace Nic

/-- The settings that both models read; the others are those of `base`. -/
def NicConfig.egress (cfg : NicConfig) (base : EgressConfig) : EgressConfig :=
  { base with
    ackQIdx := cfg.ackQIdx
    pfcFine := cfg.pfcFine
    portScale := cfg.portScale
    quotaMode := cfg.quotaMode }

/-- A sender queue pair at place `i` of the group. -/
def SenderQp.seen (i : ℕ) (q : SenderQp) : SndQp (ℕ × SenderQp) :=
  ⟨q.pg, q.dst, q.qpid, q.queueId, (i, q)⟩

def HostQp.seen (i : ℕ) : HostQp → GrpQp (ℕ × SenderQp) Unit
  | .snd q => .snd (q.seen i)
  | .rx => .rx ()

/-- The callbacks of a host without tokens; `quota` is what `CheckUschQuota` says of each place. -/
def NicConfig.callbacks (cfg : NicConfig) (now : ℕ) (quota : ℕ → Bool) :
    Callbacks (ℕ × SenderQp) Unit ℕ where
  now := now
  checkData q := (q.state.2.shouldSndData cfg now).toOption.map fun r => ((q.state.1, r.1), r.2)
  checkUschQuota q := quota q.state.1
  routingHops q := (q.state.2.qp.peek cfg.snd).map fun msg => q.state.2.routingTag msg.msgSeq
  sndToken _ := false
  rxToken r := (r, false)
  getNxtPkt q := (q.state.2.sendPacket cfg now).toOption.map fun r => ((q.state.1, r.1), r.2)
  sndTknPkt _ := none
  rxTknPkt _ := none

/-- Both models of a NIC are in the same state. -/
structure NetDevice.Seen (d : NetDevice) (e : HostDevice (ℕ × SenderQp) Unit) : Prop where
  qpGrp : e.eq.qpGrp = d.qps.mapIdx HostQp.seen
  rrlast : e.eq.rrlast = d.rrlast
  ackQ : e.eq.ackQ.length = d.ackQ.length
  tokenMode : e.eq.tokenMode = .no
  paused : ∀ id, e.paused id = some true ↔ d.paused id = true
  linkUp : e.linkUp = d.linkUp
  busy : e.busy = d.txComplete.isSome

theorem exists_seen (d : NetDevice) : ∃ e, d.Seen e :=
  ⟨{ eq := { qpGrp := d.qps.mapIdx HostQp.seen, rrlast := d.rrlast, ackQ := d.ackQ, tokenMode := .no, rateLimiterMode := 0 }
     paused := fun id => some (d.paused id)
     linkUp := d.linkUp
     busy := d.txComplete.isSome },
    rfl, rfl, rfl, rfl, fun _ => by rw [Option.some_inj], rfl, rfl⟩

variable {cfg : NicConfig} {base : EgressConfig} {d d' : NetDevice}
    {e : HostDevice (ℕ × SenderQp) Unit}
  {eq : EgressQueue (ℕ × SenderQp) Unit} {quota : ℕ → Bool} {q q' : SenderQp} {i : ℕ} {l : List ℕ}

/-! ### A queue pair -/

/-- `ShouldSndData` changes what `RdmaHw` keeps of the queue pair, and none of its ids. -/
theorem shouldSndData_seen {now : ℕ} {ready : Bool} (h : q.shouldSndData cfg now = .ok (q', ready))
    (i : ℕ) : { q.seen i with state := (i, q') } = q'.seen i := by
  unfold SenderQp.shouldSndData at h
  obtain ⟨⟨qp, found⟩, -, h⟩ := bind_ok h
  dsimp only at h
  split at h
  · cases h
    rfl
  · split at h
    · cases h
      rfl
    · obtain ⟨_, -, h⟩ := bind_ok h
      cases h
      rfl

theorem sendPacket_seen {now size : ℕ} (h : q.sendPacket cfg now = .ok (q', size)) (i : ℕ) :
    { q.seen i with state := (i, q') } = q'.seen i := by
  unfold SenderQp.sendPacket at h
  obtain ⟨⟨qp, msg, pkt⟩, -, h⟩ := bind_ok h
  cases h
  dsimp only
  split <;> rfl

theorem isPaused_seen {paused : ℕ → Option Bool} {held : Bool} {now : ℕ}
    (same : ∀ id, paused id = some true ↔ d.paused id = true)
    (h : q.isPaused cfg d.paused = .ok held) :
    (q.seen i).isPaused (cfg.egress base) (cfg.callbacks now quota) paused = .ok held := by
  have flag : ∀ id, decide (paused id = some true) = d.paused id := by
    intro id
    rw [Bool.eq_iff_iff, decide_eq_true_iff]
    exact same id
  unfold SenderQp.isPaused at h
  unfold SndQp.isPaused
  dsimp only [NicConfig.egress, SenderQp.seen, NicConfig.callbacks]
  cases gran : cfg.pfcFine with
  | off =>
    rw [gran] at h
    cases h
  | spot =>
    rw [gran] at h
    obtain ⟨msg, found, h⟩ := bind_ok h
    rw [orHalt_some found]
    exact (congrArg (fun f => Except.ok ((q.routingTag msg.msgSeq).any f))
      (funext fun hop => flag _)).trans (congrArg Except.ok (Except.ok.inj h))
  | pg | dst | qp | queue =>
    rw [gran] at h
    exact congrArg Except.ok ((flag _).trans (Except.ok.inj h))

/-! ### The scan -/

theorem rrOrder_ring (d : NetDevice) : d.rrOrder = ringFrom d.qps.length d.rrlast := by
  unfold NetDevice.rrOrder ringFrom
  rw [List.range'_eq_map_range, List.map_map]
  refine List.map_congr_left fun i _ => ?_
  simp only [Function.comp_apply, Nat.add_comm 1 i]

theorem seen_at (shape : eq.qpGrp = d.qps.mapIdx HostQp.seen) (i : ℕ) :
    eq.qpGrp[i]? = d.qps[i]?.map (HostQp.seen i) := by
  rw [shape, List.getElem?_mapIdx]

theorem seen_set (shape : eq.qpGrp = d.qps.mapIdx HostQp.seen) (i : ℕ) (q : SenderQp) :
    (eq.setQp i (.snd (q.seen i))).qpGrp = (d.qps.set i (.snd q)).mapIdx HostQp.seen := by
  rw [List.mapIdx_set, ← shape]
  rfl

theorem nextQp_seen {paused : ℕ → Option Bool} {r : Option ℕ}
    (shape : eq.qpGrp = d.qps.mapIdx HostQp.seen)
    (same : ∀ id, paused id = some true ↔ d.paused id = true)
    (h : d.nextQp cfg quota l = .ok (d', r)) : d' = { d with qps := d'.qps } ∧
    EgressQueue.scanData (cfg.egress base) (cfg.callbacks d.now quota) paused l eq =
      .ok ({ eq with qpGrp := d'.qps.mapIdx HostQp.seen }, r) := by
  induction l generalizing d eq with
  | nil =>
    cases h
    rw [← shape]
    exact ⟨rfl, rfl⟩
  | cons i rest ih =>
    unfold NetDevice.nextQp at h
    unfold EgressQueue.scanData
    rw [seen_at shape]
    cases here : d.qps[i]? with
    | none =>
      rw [here] at h
      exact ih shape same h
    | some host =>
      rw [here] at h
      cases host with
      | rx => exact ih shape same h
      | snd q =>
        obtain ⟨⟨q', ready⟩, asked, h⟩ := bind_ok h
        have checked : (cfg.callbacks d.now quota).checkData (q.seen i) =
            some ((i, q'), ready) := by
          show (q.shouldSndData cfg d.now).toOption.map _ = _
          rw [asked]
          rfl
        have quotaOf : (cfg.callbacks d.now quota).checkUschQuota (q'.seen i) = quota i := rfl
        have quotaMode : (cfg.egress base).quotaMode = cfg.quotaMode := rfl
        have shape' := seen_set shape i q'
        have again :=
          @ih { d with qps := d.qps.set i (.snd q') } (eq.setQp i (.snd (q'.seen i))) shape' same
        dsimp only at h
        simp only [Option.map_some, HostQp.seen, checked, orFault, bind, Except.bind,
          shouldSndData_seen asked i, quotaOf, quotaMode]
        split at h
        · rename_i skipped
          rw [if_pos skipped]
          exact again h
        · rename_i goes
          obtain ⟨held, looked, h⟩ := bind_ok h
          rw [if_neg goes]
          simp only [@isPaused_seen cfg base d quota q' i paused held d.now same looked]
          cases held with
          | true => exact again h
          | false =>
            cases h
            rw [← shape']
            exact ⟨rfl, rfl⟩

/-! ### `DequeueAndTransmit` -/

theorem dequeueAndTransmit_ok {σ ρ π : Type} {cfg : EgressConfig} {cb : Callbacks σ ρ π}
    {e : HostDevice σ ρ} {eq eq' : EgressQueue σ ρ} {pick : Pick} {sent : Option (Sent π)}
    (on : (!e.linkUp || e.busy) = false)
    (picked : e.eq.getNextQindex cfg cb e.paused = .ok (eq, pick))
    (call : (eq.limitTokens cfg cb pick).dequeueQindex cfg cb pick = .ok (eq', sent)) :
    e.dequeueAndTransmit cfg cb = .ok ({ e with eq := eq', busy := sent.isSome }, sent) := by
  unfold HostDevice.dequeueAndTransmit
  rw [if_neg (by rw [on]; exact Bool.false_ne_true), picked]
  simp only [bind, Except.bind, call]

theorem dequeueAck_seen {size : ℕ} {rest : List ℕ} (same : d.Seen e)
    (on : (!e.linkUp || e.busy) = false)
    (free : d.paused cfg.ackQIdx = false) (waiting : d.ackQ = size :: rest)
    (cb : Callbacks (ℕ × SenderQp) Unit ℕ) :
    ∃ e' sent, e.dequeueAndTransmit (cfg.egress base) cb = .ok (e', some sent) ∧
      ({ d with ackQ := rest }.transmitStart cfg size).Seen e' := by
  obtain ⟨qpid, others, acks⟩ : ∃ qpid others, e.eq.ackQ = qpid :: others := by
    apply List.exists_cons_of_length_pos
    rw [same.ackQ, waiting]
    exact Nat.succ_pos _
  have counted : others.length = rest.length := by
    have := same.ackQ
    rw [acks, waiting] at this
    exact Nat.succ.inj this
  have goes : e.paused cfg.ackQIdx ≠ some true := by
    intro held
    rw [(same.paused _).mp held] at free
    cases free
  have picked : e.eq.getNextQindex (cfg.egress base) cb e.paused = .ok (e.eq, .ack) := by
    apply if_pos
    exact ⟨goes, by rw [acks]; exact List.cons_ne_nil _ _⟩
  have call : e.eq.dequeueQindex (cfg.egress base) cb .ack =
      .ok ({ e.eq with ackQ := others }, some (.ack ((cfg.egress base).ackUpstreamQ qpid))) := by
    unfold EgressQueue.dequeueQindex
    rw [acks]
  exact ⟨_, _, dequeueAndTransmit_ok on picked call,
    ⟨same.qpGrp, same.rrlast, counted, same.tokenMode, same.paused, same.linkUp, rfl⟩⟩

/-- Without tokens and without an acknowledgement that may go, the pick is what the scan of the data
finds. -/
theorem getNextQindex_data {i : Option ℕ} {cb : Callbacks (ℕ × SenderQp) Unit ℕ} (same : d.Seen e)
    (blocked : ∀ size rest, d.paused cfg.ackQIdx = false → d.ackQ = size :: rest → False)
    (scanned : EgressQueue.scanData (cfg.egress base) cb e.paused d.rrOrder e.eq = .ok (eq, i)) :
    e.eq.getNextQindex (cfg.egress base) cb e.paused = .ok (eq, i.elim .none .data) := by
  have order : ringFrom e.eq.qpGrp.length e.eq.rrlast = d.rrOrder := by
    rw [same.qpGrp, same.rrlast, List.length_mapIdx, rrOrder_ring]
  unfold EgressQueue.getNextQindex EgressQueue.nextToken
  rw [if_neg, same.tokenMode]
  · simp only [bind, Except.bind, order, scanned]
    cases i <;> rfl
  · rintro ⟨goes, waiting⟩
    have free : d.paused cfg.ackQIdx = false := Bool.eq_false_of_not_eq_true fun held =>
      goes ((same.paused _).mpr held)
    have some_acks : 0 < d.ackQ.length := same.ackQ ▸ List.length_pos_of_ne_nil waiting
    obtain ⟨size, rest, acks⟩ := List.exists_cons_of_length_pos some_acks
    exact blocked size rest free acks

theorem sendData_seen (shape : eq.qpGrp = d.qps.mapIdx HostQp.seen)
    (sends : d.sendData cfg i = .ok d') :
    ∃ qps size sent, d' = { d with qps := qps, rrlast := i }.transmitStart cfg size ∧
      eq.dequeueQindex (cfg.egress base) (cfg.callbacks d.now quota) (.data i) =
        .ok ({ eq with qpGrp := qps.mapIdx HostQp.seen, rrlast := i }, some sent) := by
  unfold NetDevice.sendData at sends
  split at sends
  · rename_i q here
    obtain ⟨⟨q', size⟩, packet, sends⟩ := bind_ok sends
    cases sends
    have found : eq.qpGrp[i]? = some (.snd (q.seen i)) := by
      rw [seen_at shape, here]
      rfl
    have given : (cfg.callbacks d.now quota).getNxtPkt (q.seen i) = some ((i, q'), size) := by
      show (q.sendPacket cfg d.now).toOption.map _ = _
      rw [packet]
      rfl
    refine ⟨d.qps.set i (.snd q'), size,
      .data i size (if base.bfc then some ((q.seen i).upstreamQ (cfg.egress base)) else none), rfl,
        ?_⟩
    unfold EgressQueue.dequeueQindex
    simp only [found, given, orFault, bind, Except.bind, sendPacket_seen packet i]
    rw [← seen_set shape]
    rfl
  · cases sends

theorem sleep_seen (same : d.Seen e) : (d.sleep cfg).Seen e := by
  unfold NetDevice.sleep
  dsimp only
  split
  · exact ⟨same.qpGrp, same.rrlast, same.ackQ, same.tokenMode, same.paused, same.linkUp, same.busy⟩
  · exact same

/-- What the two models send, or that they find nothing, is the same, and they go on in the same
state. -/
theorem dequeueAndTransmit_seen {turn : Turn} (same : d.Seen e)
    (h : d.dequeueAndTransmit cfg quota = .ok (d', turn)) :
    ∃ e' sent, e.dequeueAndTransmit (cfg.egress base) (cfg.callbacks d.now quota) = .ok (e', sent) ∧
    d'.Seen e' ∧ sent.isSome = decide (turn = .sent) := by
  unfold NetDevice.dequeueAndTransmit at h
  split at h
  · rename_i off
    cases h
    unfold HostDevice.dequeueAndTransmit
    rw [same.linkUp, same.busy, if_pos off]
    exact ⟨e, none, rfl, same, rfl⟩
  rename_i on
  have on : (!e.linkUp || e.busy) = false := by
    rw [same.linkUp, same.busy]
    exact Bool.eq_false_of_not_eq_true on
  split at h
  · rename_i size rest free waiting
    cases h
    obtain ⟨e', sent, call, after⟩ :=
      dequeueAck_seen same on free waiting (cfg.callbacks d.now quota)
    exact ⟨e', some sent, call, after, rfl⟩
  · rename_i blocked
    obtain ⟨⟨f, i⟩, picked, h⟩ := bind_ok h
    obtain ⟨kept, scanned⟩ :=
      @nextQp_seen cfg base d f e.eq quota d.rrOrder e.paused i same.qpGrp same.paused picked
    have pick := getNextQindex_data same blocked scanned
    obtain ⟨qps, rfl⟩ : ∃ qps, f = { d with qps := qps } := ⟨_, kept⟩
    cases i with
    | none =>
      cases h
      have idle : e.busy = false := (Bool.or_eq_false_iff.mp on).2
      refine ⟨_, none, dequeueAndTransmit_ok on pick rfl, sleep_seen ?_, rfl⟩
      exact ⟨rfl, same.rrlast, same.ackQ, same.tokenMode, same.paused, same.linkUp,
        idle.symm.trans same.busy⟩
    | some i =>
      obtain ⟨g, sends, h⟩ := bind_ok h
      cases h
      obtain ⟨qps', size, sent, rfl, call⟩ := @sendData_seen cfg base { d with qps := qps } d'
        { e.eq with qpGrp := qps.mapIdx HostQp.seen } quota i rfl sends
      refine ⟨_, some sent, dequeueAndTransmit_ok on pick call, ?_, rfl⟩
      exact ⟨rfl, rfl, same.ackQ, same.tokenMode, same.paused, same.linkUp, rfl⟩

end Nic

end Pyrrha
