import Pyrrha.Buffer.Bfc
import Pyrrha.Dstpfc.Receive

/-!
A switch in `FC_VOQ_DSTPFC`: its buffers together with the VOQs and pause flags of its ports.
`MatchQ` gives a packet a queue, and a received frame registers queues.
-/

namespace Pyrrha
open Lib

namespace Buffer

open Dstpfc

variable {n : ℕ}

structure Node (n : ℕ) where
  switch : State n := {}
  devices : Devices n

/-- What happens to a switch whose links stay up: an arrival, with the queue `MatchDefaultQ` names
and whether the packet has a `SchTag`; a transmission; and a PFC frame. -/
inductive NodeEvent (n : ℕ) where
  | arrive (p : Packet n) (inDev dev : Fin n) (qIndex : ℕ) (schTag : Bool)
  | transmit (k : ℕ) (it : Item n) (flowId : Option (Fin n))
  | receivePfc (f : Frame n)

/-! ### The code -/

namespace Node

/-- The FC_VOQ_DSTPFC part of `MatchQ`, from the queue `MatchDefaultQ` names; `none` is its
assert. -/
def matchQ (cfg : Config n) (node : Node n) (idx : Fin n) (qIndex : ℕ) (schTag : Bool) (dst : ℕ) :
    Option ℕ :=
  match node.devices idx with
  | none => none
  | some outDev =>
    if qIndex = 0 then some 0
    else
      let q := if schTag then 2 else 1
      if cfg.isLastHop idx then some q
      else match outDev.dstQMap dst with
        | none => some q
        | some voqid =>
          if voqid < node.switch.nQueue idx then
            if outDev.paused voqid = some true ∨ node.switch.bytesInQueue idx voqid ≠
              0 then some voqid else some q
          else none

/-- `SendToDev`. -/
def arrive (cfg : Config n) (node : Node n) (p : Packet n) (inDev dev : Fin n) (qIndex : ℕ)
    (schTag : Bool) : Option (Node n) :=
  if State.consumes cfg p then some node
  else do
    let q ← node.matchQ cfg dev qIndex schTag p.dst
    let s ← (node.switch.sendToDev cfg inDev dev q p ⟨.pass, false⟩).toOption
    some { node with switch := s }

def queues (devices : Devices n) (i : Fin n) : ℕ := (devices i).elim queueNum Port.nQueue

/-- The buffers after a frame: `RegisterNewQ` has added a queue to every device that has one more
than before. -/
def grow (before after : Devices n) (s : State n) (i : Fin n) : State n :=
  if queues before i < queues after i then s.registerNewQ i else s

/-- `SwitchReceivePFC`. -/
def receivePfc (ctrlAllEgress : Bool) (node : Node n) (f : Frame n) : Option (Node n) := do
  let devices ← (Dstpfc.switchReceivePFC .voqDstPfc ctrlAllEgress node.devices f.ifIndex f.qIndex
    f.time).toOption
  some ⟨(List.finRange n).foldl (grow node.devices devices) node.switch, devices⟩

/-- One step; `none` when an assert fails. -/
def step (cfg : Config n) (ctrlAllEgress : Bool) (node : Node n) : NodeEvent n → Option (Node n)
  | .arrive p inDev dev qIndex schTag => node.arrive cfg p inDev dev qIndex schTag
  | .transmit k it flowId => do
    let s ← (node.switch.dequeueAndTransmit cfg k it flowId).toOption
    some { node with switch := s }
  | .receivePfc f => node.receivePfc ctrlAllEgress f

/-- The nodes of the runs from empty buffers all of whose steps satisfy `allowed`, whatever VOQs and
pause flags the ports have at the start. -/
inductive Reachable (cfg : Config n) (ctrlAllEgress : Bool)
    (allowed : Node n → NodeEvent n → Prop) : Node n → Prop where
  | initial (devices : Devices n) (count : ∀ i, queues devices i = queueNum) :
    Reachable cfg ctrlAllEgress allowed ⟨{}, devices⟩
  | step {s t : Node n} {ev : NodeEvent n} : Reachable cfg ctrlAllEgress allowed s → allowed s ev →
    s.step cfg ctrlAllEgress ev = some t → Reachable cfg ctrlAllEgress allowed t

end Node

/-! ### Effects -/

variable {cfg : Config n} {s t : State n}

/-- `MatchQ` names one of the queues of the first level, or the VOQ of the destination. -/
theorem node_matchQ_cases {node : Node n} {idx : Fin n} {qIndex dst q : ℕ} {schTag : Bool}
    (h : node.matchQ cfg idx qIndex schTag dst = some q) :
    q < queueNum ∨ ∃ outDev, node.devices idx = some outDev ∧ outDev.dstQMap dst = some q := by
  have first : (if schTag then 2 else 1) < queueNum := by cases schTag <;> decide
  unfold Node.matchQ at h
  split at h
  · cases h
  · rename_i outDev found
    split at h
    · cases h
      exact .inl (by decide)
    · dsimp only at h
      split at h
      · cases h
        exact .inl first
      · split at h
        · cases h
          exact .inl first
        · rename_i voqid registered
          split at h
          · split at h
            · cases h
              exact .inr ⟨outDev, found, registered⟩
            · cases h
              exact .inl first
          · cases h

/-- The queues whose length counts in the pause mode. -/
def Looked (cfg : Config n) (dev : Fin n) (q : ℕ) : Prop :=
  cfg.voqPauseMode = .egressVqlen → cfg.isLastHop dev = true ∨ queueNum ≤ q

theorem looked_of_pause {ingress egress : Fin n} {q dst : ℕ}
    (pause : s.checkVOQPause cfg ingress egress q dst = true) : Looked cfg egress q := by
  intro mode
  by_contra away
  simp [State.checkVOQPause, State.voqMetric, mode, away] at pause

/-- The state in which `SendToDev` hands a packet to `SwitchSend`. -/
def State.voqArrived (cfg : Config n) (s : State n) (inDev dev : Fin n) (q : ℕ) (p : Packet n) :
    State n :=
  ((s.updateEgressAdmission dev q p.size).addBytes inDev dev q p.size).arriveVoqDstPfc cfg
    inDev dev q p

theorem voqArrived_paused {inDev dev i : Fin n} {q d : ℕ} {p : Packet n}
    (flag : (s.voqArrived cfg inDev dev q p).paused i d = true) :
    s.paused i d = true ∨ (d = p.dst ∧ q ≠ 0 ∧ Looked cfg dev q) := by
  unfold State.voqArrived State.arriveVoqDstPfc at flag
  split at flag
  · exact .inl flag
  · rename_i nonzero
    dsimp only at flag
    split at flag
    · rename_i pause
      rw [setPause_paused, update₂_apply, sendPfc_paused] at flag
      split at flag
      · rename_i here
        exact .inr ⟨here.2, nonzero, looked_of_pause (Bool.and_eq_true _ _ ▸ pause).2⟩
      · exact .inl flag
    · exact .inl flag

theorem voqArrived_frames (mode : cfg.fcMode = .voqDstPfc) (inDev dev : Fin n) (q : ℕ)
    (p : Packet n) : WithFrames cfg s.held (s.voqArrived cfg inDev dev q p).held ∧
      (s.voqArrived cfg inDev dev q p).refused = s.refused := by
  have counted : Booked s ((s.updateEgressAdmission dev q p.size).addBytes inDev dev q p.size) :=
    (updateEgressAdmission_booked dev q p.size).trans (addBytes_booked inDev dev q p.size)
  have call : ((s.updateEgressAdmission dev q p.size).addBytes inDev dev q p.size).arriveMode cfg
    inDev dev q p false = .ok (s.voqArrived cfg inDev dev q p, p) := by
    unfold State.arriveMode
    rw [mode]
    rfl
  obtain ⟨quiet, -⟩ := arriveMode_effect call
  have booked := counted.trans (@chargeMode_booked n cfg _ inDev dev q p false)
  obtain ⟨frames, held, areFrames⟩ := quiet.held
  rw [booked.held] at held
  exact ⟨⟨frames, held, areFrames⟩, quiet.refused.trans booked.refused⟩

/-- Without PFC-controlled queues an arrival is dropped, or counted and handed to its queue. -/
theorem sendToDev_voq (mode : cfg.fcMode = .voqDstPfc) (free : ∀ q, cfg.controlled q = false)
    {inDev dev : Fin n} {q : ℕ}
    {p : Packet n} {ch : Choice} (call : s.sendToDev cfg inDev dev q p ch = .ok t) :
    t = s ∨ (s.admits cfg inDev dev q (p.arrived inDev) = .ok true ∧
      t = (s.voqArrived cfg inDev dev q (p.arrived inDev)).switchSend cfg dev q true
        (p.arrived inDev)) := by
  have matched : s.matchFlow cfg dev q (p.arrived inDev) = s := if_neg (by simp [mode])
  unfold State.sendToDev State.sendToDevNow at call
  split at call
  · exact .inl (Except.ok.inj call).symm
  · split at call
    · cases call
    · dsimp only at call
      rw [matched] at call
      obtain ⟨admitted, test, call⟩ := bind_ok call
      cases admitted with
      | false =>
        left
        simpa [mode, eq_comm] using call
      | true =>
        simp only [if_true] at call
        split at call
        · cases call
        · have window : State.checkVOQWin cfg (p.arrived inDev) ch.window = .pass :=
            if_neg (by simp [mode])
          simp only [State.forwardNow, window, State.chargeIngress, free, Bool.false_eq_true,
            if_false] at call
          obtain ⟨u, passed, call⟩ := bind_ok call
          obtain ⟨v, stays, call⟩ := bind_ok call
          cases stays
          obtain ⟨-, -, call⟩ := bind_ok call
          cases call
          obtain ⟨w, -, arrived, rfl⟩ := passToDev_cases passed
          simp only [free, Bool.false_eq_true, if_false, State.arriveMode, mode] at arrived
          obtain ⟨rfl, marked⟩ := Prod.mk.inj (Except.ok.inj arrived)
          rw [← marked]
          exact .inr ⟨test, rfl⟩

/-- A transmission takes a frame out of its queue, or discharges a packet and then looks whether to
resume the upstreams of its destination. -/
theorem dequeueAndTransmit_voq (mode : cfg.fcMode = .voqDstPfc)
    (free : ∀ q, cfg.controlled q = false) {k : ℕ} {it : Item n}
    {flowId : Option (Fin n)} (call : s.dequeueAndTransmit cfg k it flowId = .ok t) : t = s ∨
      (Skipped it.packet ∧ t = s.popQueue k it) ∨ ∃ (v : State n) (inDev : Fin n),
        v.paused = s.paused ∧
        t = if it.q ≠ 0 ∧ v.checkVOQResume cfg inDev it.dev it.q it.packet.dst = true then
          (List.finRange n).foldl (State.resumeDst cfg it.packet.dst) v else v := by
  rcases dequeueAndTransmit_cases call with same | ⟨-, -, -, call⟩
  · exact .inl same
  · right
    unfold State.switchNotifyDequeue at call
    split at call
    · rename_i prot
      exact .inl ⟨.inl prot, (Except.ok.inj call).symm⟩
    · rename_i prot
      exact .inl ⟨.inr (.inl prot), (Except.ok.inj call).symm⟩
    · rename_i prot
      exact .inl ⟨.inr (.inr prot), (Except.ok.inj call).symm⟩
    · split at call
      · cases call
      · rename_i inDev _
        obtain ⟨u, removed, call⟩ := bind_ok call
        obtain ⟨-, -, rfl⟩ := removeFromEgressAdmission_ok removed
        simp only [State.releaseIngress, free, Bool.false_eq_true, if_false, State.departMode,
          mode] at call
        refine .inr ⟨_, inDev, ?_, (Except.ok.inj call).symm⟩
        split <;> rfl

theorem transmit_paused (mode : cfg.fcMode = .voqDstPfc) (free : ∀ q, cfg.controlled q = false)
    {k : ℕ} {it : Item n}
    {flowId : Option (Fin n)} (call : s.dequeueAndTransmit cfg k it flowId = .ok t)
    {i : Fin n} {d : ℕ} (flag : t.paused i d = true) : s.paused i d = true := by
  rcases dequeueAndTransmit_voq mode free call with rfl | ⟨-, rfl⟩ | ⟨v, inDev, same, rfl⟩
  · exact flag
  · exact flag
  · rw [← same]
    split at flag
    · rw [resumeDst_fold_paused] at flag
      split at flag
      · cases flag
      · exact flag
    · exact flag

theorem transmit_refused (sound : Sound cfg s) {k : ℕ} {it : Item n} {flowId : Option (Fin n)}
    (call : s.dequeueAndTransmit cfg k it flowId = .ok t) : t.refused = s.refused := by
  rcases transmit_cases sound call with rfl | ⟨-, -, rfl⟩ | ⟨inDev, -, -, -, -, -, quiet⟩
  · rfl
  · rfl
  · rw [quiet.refused, (dischargeAll_booked _ _ _ _).refused]
    rfl

/-- When a packet leaves a queue the pause mode looks at and its destination stays paused, the
buffer it was counted in is not empty. -/
theorem transmit_left (mode : cfg.fcMode = .voqDstPfc) (free : ∀ q, cfg.controlled q = false)
    {k : ℕ} {it : Item n}
    {flowId : Option (Fin n)} (call : s.dequeueAndTransmit cfg k it flowId = .ok t) (moved : t ≠ s)
    (kind : ¬Skipped it.packet) (nonzero : it.q ≠ 0) (looked : Looked cfg it.dev it.q) {i : Fin n}
    (flag : t.paused i it.packet.dst = true) : ∃ m, t.voqMetric cfg it.dev it.q it.packet.dst =
      some m ∧ 0 < m := by
  rcases dequeueAndTransmit_voq mode free call with same | ⟨skipped, -⟩ | ⟨v, inDev, -, rfl⟩
  · exact absurd same moved
  · exact absurd skipped kind
  · split at flag
    · rw [resumeDst_fold_paused, if_pos ⟨List.mem_finRange i, rfl⟩] at flag
      cases flag
    · rename_i still
      have high : v.checkVOQResume cfg inDev it.dev it.q it.packet.dst ≠ true :=
        fun low => still ⟨nonzero, low⟩
      rw [if_neg still]
      unfold State.checkVOQResume at high
      cases found : v.voqMetric cfg it.dev it.q it.packet.dst with
      | none =>
        unfold State.voqMetric at found
        split at found
        · rename_i pauseMode
          rw [if_pos (looked pauseMode)] at found
          cases found
        · cases found
        · cases found
      | some m =>
        rw [found, Option.any_some, Ne, decide_eq_true_eq, not_le] at high
        exact ⟨m, rfl, Nat.zero_lt_of_lt high⟩

/-! ### Received frames -/

/-- Registered VOQs stay. -/
def Extends (before after : Devices n) : Prop :=
  ∀ i dev, before i = some dev → ∃ dev', after i = some dev' ∧ ∀ d q, dev.dstQMap d = some q →
    dev'.dstQMap d = some q

theorem extends_refl (devices : Devices n) : Extends devices devices :=
  fun _ dev found => ⟨dev, found, fun _ _ => id⟩

theorem extends_trans {a b c : Devices n} (first : Extends a b) (second : Extends b c) :
    Extends a c := by
  intro i dev found
  obtain ⟨dev', found', old⟩ := first i dev found
  obtain ⟨dev'', found'', old'⟩ := second i dev' found'
  exact ⟨dev'', found'', fun d q registered => old' d q (old d q registered)⟩

theorem extends_update {devices : Devices n} {i : Fin n} {dev dev' : Port}
    (found : devices i = some dev) (old : ∀ d q, dev.dstQMap d = some q → dev'.dstQMap d = some q) :
    Extends devices (Function.update devices i (some dev')) := by
  intro j own before
  rw [Function.update_apply]
  split
  · rename_i here
    rw [here, found] at before
    cases before
    exact ⟨dev', rfl, old⟩
  · exact ⟨own, before, fun _ _ => id⟩

theorem pausePort_extends (s : Devices n × ℕ) (i : Fin n) :
    Extends s.1 (pausePort .voqDstPfc s i).1 := by
  unfold pausePort
  split
  · exact extends_refl s.1
  · rename_i dev found
    refine extends_update found fun d q registered => ?_
    show (dev.registerVOQ s.2).1.dstQMap d = some q
    rw [Port.registerVOQ_map, Function.update_apply]
    split
    · rename_i same
      rw [← same, Port.voqOf_found registered]
    · exact registered

theorem resumePort_extends {all : Bool} {s t : Devices n × ℕ} {i : Fin n}
    (call : resumePort .voqDstPfc all s i = .ok t) : Extends s.1 t.1 := by
  unfold resumePort at call
  split at call
  · cases call
    exact extends_refl s.1
  · rename_i dev found
    split at call
    · cases call
    · rename_i q _
      obtain ⟨dev', resumed, call⟩ := bind_ok call
      cases call
      refine extends_update found fun d q registered => ?_
      unfold Port.resume at resumed
      split at resumed
      · cases resumed
      · split at resumed
        · cases resumed
          exact registered
        · cases resumed

theorem switchReceivePFC_extends {all : Bool} {before after : Devices n} {i : Fin n}
    {qIndex time : ℕ}
    (call : Dstpfc.switchReceivePFC .voqDstPfc all before i qIndex time = .ok after) :
    Extends before after := by
  unfold Dstpfc.switchReceivePFC at call
  split at call
  · split at call
    · cases call
      have loop : ∀ (l : List (Fin n)) (s : Devices n × ℕ),
          Extends s.1 (l.foldl (pausePort .voqDstPfc) s).1 := by
        intro l
        induction l with
        | nil => exact fun s => extends_refl s.1
        | cons j rest ih => exact fun s => extends_trans (pausePort_extends s j) (ih _)
      exact loop _ (before, qIndex)
    · split at call
      · cases call
      · cases call
        exact pausePort_extends (before, qIndex) i
  · split at call
    · obtain ⟨s, looped, call⟩ := bind_ok call
      cases call
      exact foldlM_preserves (I := fun s : Devices n × ℕ => Extends before s.1)
        (fun j _ _ _ earlier turned => extends_trans earlier (resumePort_extends turned))
          (extends_refl before) looped
    · split at call
      · cases call
      · obtain ⟨s, turned, call⟩ := bind_ok call
        cases call
        exact resumePort_extends turned

end Buffer

end Pyrrha
