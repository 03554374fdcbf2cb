import Pyrrha.Floodgate.Ready

/-!
Floodgate keeps no packet that could go on: after every event the first packet of each VOQ finds the
window of its destination closed, and the first one of each egress cache the window of its port.
-/

namespace Pyrrha
open Lib

namespace Floodgate

variable {cfg : Config} {s t u : State} {g voqId d n w dev : ℕ} {k : ℕ × ℕ} {p p' : PacketUnit}

namespace State

/-- The first packet of the VOQ finds its window closed. -/
def Shut (cfg : Config) (s : State) (k : ℕ × ℕ) : Prop :=
  ∀ top rest, s.shelf k = top :: rest → s.Closed cfg top.dst top.size

/-- The first packet of the egress cache finds the window of its port closed. -/
def PortShut (cfg : Config) (s : State) (dev : ℕ) : Prop :=
  ∀ top rest, s.egressCache dev = top :: rest → s.checkEgressWin cfg dev top.size = false

/-- No packet waits that its window would let pass. -/
structure WorkConserving (cfg : Config) (s : State) : Prop where
  voqs : ∀ g v top rest, s.pkts g v = top :: rest → s.checkDstWin cfg top.dst top.size =
    .ok (s, false)
  caches : cfg.usePortWin = true → ∀ dev, s.PortShut cfg dev

theorem shut_same (shelf : t.shelf k = s.shelf k) (same : ∀ top rest, s.shelf k = top :: rest →
    Same top.dst s t) (shut : s.Shut cfg k) : t.Shut cfg k := by
  intro top rest front
  rw [shelf] at front
  exact closed_same (same top rest front) (shut top rest front)

theorem shut_empty (empty : s.shelf k = []) : s.Shut cfg k := by
  intro top rest front
  rw [empty] at front
  cases front

theorem portShut_same (cache : t.egressCache dev = s.egressCache dev)
    (window : t.egressWins dev = s.egressWins dev)
    (shut : s.PortShut cfg dev) : t.PortShut cfg dev := by
  intro top rest front
  unfold checkEgressWin
  rw [cache] at front
  rw [window]
  exact shut top rest front

theorem portShut_forwarded (port : cfg.usePortWin = true) (h : Forwarded cfg s t p)
    (shut : s.PortShut cfg dev) : t.PortShut cfg dev := by
  rcases h with direct | pushed
  · by_cases here : dev = p.outDev
    · intro top rest front
      rw [direct.egressCache, here, direct.empty port] at front
      cases front
    · refine portShut_same (by rw [direct.egressCache]) ?_ shut
      rw [direct.egressWins, debitPort, if_pos port, Function.update_of_ne here]
  · by_cases here : dev = p.outDev
    · subst here
      intro top rest front
      rw [pushed.egressCache, Function.update_self] at front
      unfold checkEgressWin
      rw [pushed.egressWins]
      cases before : s.egressCache p.outDev with
      | nil =>
        rw [before] at front
        obtain ⟨rfl, -⟩ := List.cons.inj front
        have closed := pushed.closed before
        rw [port, decide_eq_false (Nat.not_le.mpr closed)]
        rfl
      | cons q queue =>
        rw [before] at front
        obtain ⟨rfl, -⟩ := List.cons.inj front
        exact shut q queue before
    · refine portShut_same ?_ (by rw [pushed.egressWins]) shut
      rw [pushed.egressCache, Function.update_of_ne here]

/-! ### One release -/

/-- What a turn of a loop at the VOQ `k` does: other VOQs and all ports stay shut. -/
structure Turn (cfg : Config) (s t : State) (k : ℕ × ℕ) (success : Bool) : Prop where
  ready : t.Ready cfg
  shelves : ∀ k', k' ≠ k → t.shelf k' = s.shelf k'
  shut : ∀ k', k' ≠ k → s.Shut cfg k' → t.Shut cfg k'
  ports : cfg.usePortWin = true → ∀ dev, s.PortShut cfg dev → t.PortShut cfg dev
  taken : success = true → (s.shelf k).length = (t.shelf k).length + 1
  stops : success = false → t = s ∧ s.Shut cfg k

theorem mem_shelf {top : PacketUnit} {rest : List PacketUnit} (front : s.shelf k = top :: rest) :
    top ∈ s.pkts k.1 k.2 := by
  show top ∈ s.shelf k
  rw [front]
  exact List.mem_cons_self

theorem Placed.named (h : s.Placed cfg) (waits : p ∈ s.pkts k.1 k.2)
    (rule : cfg.dst2group p.dst = some (.group g)) :
    g = k.1 ∧ (s.groups g).findVOQ (cfg.group g) p.dst = some k.2 := by
  have here := h.ruled k.1 k.2 p waits
  rw [rule] at here
  obtain rfl : g = k.1 := by simpa using here
  have place := (h.valid k.1).located k.2 p waits
  have present := Group.pkts_isSome (List.ne_nil_of_mem waits)
  refine ⟨rfl, ?_⟩
  rw [Group.findVOQ, place, Option.filter, present]
  rfl

theorem Placed.one_voq (h : s.Placed cfg) (member : p ∈ s.shelf k) {k' : ℕ × ℕ}
    (member' : p' ∈ s.shelf k') (same : p'.dst = p.dst) : k' = k := by
  by_contra other
  have waits : p ∈ s.pkts k.1 k.2 := member
  have apart := h.alone waits other p' member'
  rw [same] at apart
  exact of_decide_eq_false apart rfl

theorem turn_released (linked : cfg.Linked) (ready : s.Ready cfg) (h : Released cfg s t g voqId p) :
    Turn cfg s t (g, voqId) true := by
  obtain ⟨top, front, bare, others⟩ := shelf_released h
  have member : top ∈ s.pkts g voqId := front ▸ List.mem_cons_self
  have dst := (PacketUnit.bare_fields bare).1
  have rule : cfg.dst2group p.dst = some (.group g) := by
    rw [← dst]
    exact ready.ruled g voqId top member
  refine ⟨ready_released linked ready h, others, fun k' other => ?_,
    fun port dev => portShut_forwarded port h.route, fun _ => ?_, nofun⟩
  · refine shut_same (others k' other) fun first rest front' => ?_
    refine same_debited linked rule h.wins h.tagged h.acks fun same => other ?_
    exact ready.one_voq member (front' ▸ List.mem_cons_self) (same.trans dst.symm)
  · show (s.pkts g voqId).length = _
    rw [front]
    rfl

theorem checkAndSendOne_turn (linked : cfg.Linked) (ready : s.Ready cfg) (g voqId : ℕ) :
    Outcome (fun r => Turn cfg s r.1 (g, voqId) r.2) (fun _ => True)
      (s.checkAndSendOne cfg g voqId) := by
  refine outcome_mono (checkAndSendOne_outcome cfg s g voqId) (fun r after => ?_) fun _ _ => trivial
  obtain ⟨t, success⟩ := r
  cases success with
  | true =>
    obtain ⟨p, released⟩ := after
    exact turn_released linked ready released
  | false =>
    obtain ⟨same, closed⟩ := blocked_same linked ready after
    dsimp only at same
    subst same
    exact ⟨ready, fun _ _ => rfl, fun _ _ => id, fun _ _ => id, nofun, fun _ => ⟨rfl, closed⟩⟩

/-! ### Loops -/

/-- A loop ends where no VOQ has a packet to release; it has opened no port. -/
structure Settled (cfg : Config) (s t : State) : Prop where
  ready : t.Ready cfg
  shut : ∀ k, t.Shut cfg k
  ports : cfg.usePortWin = true → ∀ dev, s.PortShut cfg dev → t.PortShut cfg dev

/-- The loop at one VOQ ends with its window closed, or with no packet left. -/
theorem sendWhile_turns (linked : cfg.Linked) (bound : ℕ) (ready : s.Ready cfg)
    (short : (s.shelf k).length ≤ bound) :
    Outcome (fun t => t.Ready cfg ∧ t.Shut cfg k ∧ (∀ k', k' ≠ k → s.Shut cfg k' → t.Shut cfg k') ∧
      (cfg.usePortWin = true → ∀ dev, s.PortShut cfg dev → t.PortShut cfg dev)) (fun _ => True)
      (sendWhile cfg k.1 k.2 bound s) := by
  induction bound generalizing s with
  | zero =>
    have empty := List.length_eq_zero_iff.mp (Nat.le_zero.mp short)
    exact ⟨ready, shut_empty empty, fun _ _ => id, fun _ _ => id⟩
  | succ bound ih =>
    refine outcome_bind (checkAndSendOne_turn linked ready k.1 k.2) fun r turn => ?_
    obtain ⟨t, success⟩ := r
    cases success with
    | false =>
      obtain ⟨rfl, closed⟩ := turn.stops rfl
      exact ⟨turn.ready, closed, fun _ _ => id, fun _ _ => id⟩
    | true =>
      have taken := turn.taken rfl
      have shorter : (t.shelf k).length ≤ bound := by
        change (s.shelf k).length = (t.shelf k).length + 1 at taken
        omega
      refine outcome_weaken (ih turn.ready shorter) fun u ended => ?_
      obtain ⟨after, closed, others, ports⟩ := ended
      exact ⟨after, closed, fun k' other shut => others k' other (turn.shut k' other shut),
        fun port dev shut => ports port dev (turn.ports port dev shut)⟩

theorem checkAndSendVOQ_shut (linked : cfg.Linked) (ready : s.Ready cfg)
    (others : ∀ k top rest, s.shelf k = top :: rest → top.dst ≠ d → s.Closed cfg top.dst top.size) :
    Outcome (Settled cfg s) (fun _ => True) (s.checkAndSendVOQ cfg d) := by
  unfold checkAndSendVOQ
  split
  · trivial
  · rename_i ignore
    refine ⟨ready, fun k top rest front => others k top rest front ?_, fun _ _ => id⟩
    rintro rfl
    have rule := ready.ruled k.1 k.2 top (mem_shelf front)
    rw [ignore] at rule
    cases rule
  · rename_i g rule
    split
    · rename_i voqId found
      refine outcome_weaken (sendWhile_turns linked _ ready (le_refl (s.shelf (g, voqId)).length))
        fun t ended => ?_
      obtain ⟨after, closed, kept, ports⟩ := ended
      refine ⟨after, fun k => ?_, ports⟩
      by_cases here : k = (g, voqId)
      · exact here ▸ closed
      · refine kept k here fun top rest front => others k top rest front ?_
        rintro rfl
        obtain ⟨rfl, named⟩ := ready.named (mem_shelf front) rule
        rw [found] at named
        exact here (Prod.ext rfl (Option.some.inj named).symm)
    · rename_i missing
      split
      · refine ⟨ready, fun k top rest front => others k top rest front ?_, fun _ _ => id⟩
        rintro rfl
        obtain ⟨rfl, named⟩ := ready.named (mem_shelf front) rule
        rw [missing] at named
        cases named
      · trivial

theorem closed_zero (ready : s.Ready cfg) (waits : p ∈ s.pkts g voqId) (zero : s.winAt p.dst = 0) :
    s.Closed cfg p.dst p.size := by
  obtain ⟨w, known⟩ := Option.ne_none_iff_exists'.mp (ready.registered g voqId p waits)
  obtain rfl : w = 0 := by
    unfold winAt at zero
    rw [known] at zero
    exact zero
  have pos := p.size_pos
  refine ⟨0, known, ?_⟩
  unfold admitsBytes
  cases mode : cfg.absolutePsn with
  | false => rw [if_neg Bool.false_ne_true, decide_eq_false (by omega)]
  | true =>
    obtain ⟨inflight, sum⟩ := getInflightBytes_inOrder (ready.inOrder mode g voqId p waits)
    have small := p.size_lt
    rw [if_pos rfl, sum, getInflightBytes_unsent (ready.idle mode p.dst zero) sum]
    show Except.ok (decide (add32 0 p.size ≤ 0)) = _
    rw [add32_exact (by omega), decide_eq_false (by omega)]

/-- What the first loop still has to see to: VOQs of the destinations to come, and those left for
the second loop. -/
def Pending (cfg : Config) (s : State) (keys : List ℕ) (dstLeft : List (ℕ × ℕ)) : Prop :=
  ∀ k, s.Shut cfg k ∨ k ∈ dstLeft ∨ ∃ top rest, s.shelf k = top :: rest ∧ top.dst ∈ keys

theorem firstRound_pending (linked : cfg.Linked) (keys : List ℕ) (dstLeft : List (ℕ × ℕ))
    (ready : s.Ready cfg) (pending : s.Pending cfg keys dstLeft) :
    Outcome (fun r => r.1.Ready cfg ∧ (∃ left, r.2 = some left ∧ r.1.Pending cfg [] left) ∧
      (cfg.usePortWin = true → ∀ dev, s.PortShut cfg dev → r.1.PortShut cfg dev)) (fun _ => True)
      (s.firstRound cfg keys dstLeft) := by
  induction keys generalizing s dstLeft with
  | nil => exact ⟨ready, ⟨dstLeft, rfl, pending⟩, fun _ _ => id⟩
  | cons d keys ih =>
    -- A VOQ that waits for `d` is seen to here, and may stay pending for a later destination.
    have skip : (∀ k top rest, s.shelf k = top :: rest → top.dst = d → s.Shut cfg k) →
        s.Pending cfg keys dstLeft := by
      intro here k
      rcases pending k with shut | left | ⟨top, rest, front, member⟩
      · exact .inl shut
      · exact .inr (.inl left)
      · rcases List.mem_cons.mp member with same | later
        · exact .inl (here k top rest front same)
        · exact .inr (.inr ⟨top, rest, front, later⟩)
    unfold firstRound
    split
    · rename_i open_
      split
      · trivial
      · rename_i ignore
        have none := ready.ignored d ignore
        unfold winAt at open_
        rw [none] at open_
        exact absurd open_ (Nat.lt_irrefl 0)
      · rename_i g rule
        split
        · rename_i missing
          refine ih dstLeft ready (skip fun k top rest front same => ?_)
          subst same
          obtain ⟨rfl, named⟩ := ready.named (mem_shelf front) rule
          rw [missing] at named
          cases named
        · rename_i voqId found
          have here : ∀ k top rest, s.shelf k = top :: rest → top.dst = d → k = (g, voqId) := by
            rintro k top rest front rfl
            obtain ⟨rfl, named⟩ := ready.named (mem_shelf front) rule
            rw [found] at named
            exact Prod.ext rfl (Option.some.inj named).symm
          refine outcome_bind (checkAndSendOne_turn linked ready g voqId) fun r turn => ?_
          obtain ⟨t, success⟩ := r
          have after :
              t.Pending cfg keys (if success then dstLeft ++ [(g, voqId)] else dstLeft) := by
            cases success with
            | false =>
              obtain ⟨same, closed⟩ := turn.stops rfl
              dsimp only at same
              subst same
              exact skip fun k top rest front same => here k top rest front same ▸ closed
            | true =>
              intro k
              rw [if_pos rfl]
              by_cases at_k : k = (g, voqId)
              · exact .inr (.inl (List.mem_append_right _ (List.mem_singleton.mpr at_k)))
              · rcases pending k with shut | left | ⟨top, rest, front, member⟩
                · exact .inl (turn.shut k at_k shut)
                · exact .inr (.inl (List.mem_append_left _ left))
                · rcases List.mem_cons.mp member with same | later
                  · exact absurd (here k top rest front same) at_k
                  · exact .inr (.inr ⟨top, rest, (turn.shelves k at_k).trans front, later⟩)
          refine outcome_weaken (ih _ turn.ready after) fun r ended => ?_
          obtain ⟨ready', left, ports⟩ := ended
          exact ⟨ready', left, fun port dev shut => ports port dev (turn.ports port dev shut)⟩
    · rename_i zero
      refine ih dstLeft ready (skip fun k top rest front same => ?_)
      intro top' rest' front'
      rw [front] at front'
      obtain ⟨rfl, -⟩ := List.cons.inj front'
      refine closed_zero ready (mem_shelf front) ?_
      rw [same]
      omega

theorem rounds_turn {v : ℕ × ℕ} {success : Bool} (turn : Turn cfg s t v success)
    (rest : List (ℕ × ℕ)) :
    t.rounds (if success then rest ++ [v] else rest) < s.rounds (v :: rest) := by
  have shorter : ∀ k, (t.shelf k).length ≤ (s.shelf k).length := by
    intro k
    by_cases here : k = v
    · subst here
      cases success with
      | true =>
        have taken := turn.taken rfl
        omega
      | false => rw [(turn.stops rfl).1]
    · rw [turn.shelves k here]
  have others : t.rounds rest ≤ s.rounds rest := by
    refine List.sum_le_sum fun k _ => ?_
    have here := shorter k
    exact Nat.add_le_add_right here 1
  cases success with
  | false =>
    show t.rounds rest < (s.shelf v).length + 1 + s.rounds rest
    omega
  | true =>
    have taken := turn.taken rfl
    have joined : t.rounds (rest ++ [v]) = t.rounds rest + ((t.shelf v).length + 1) := by
      simp [rounds, shelf]
    show t.rounds (rest ++ [v]) < (s.shelf v).length + 1 + s.rounds rest
    omega

theorem roundRobin_shut (linked : cfg.Linked) (bound : ℕ) (dstLeft : List (ℕ × ℕ))
    (ready : s.Ready cfg) (enough : s.rounds dstLeft ≤ bound) (left : s.Pending cfg [] dstLeft) :
    Outcome (Settled cfg s) (fun _ => True) (s.roundRobin cfg bound dstLeft) := by
  induction bound generalizing s dstLeft with
  | zero =>
    cases dstLeft with
    | nil => exact ⟨ready, fun k => (left k).resolve_right (by simp), fun _ _ => id⟩
    | cons v rest =>
      simp only [rounds, List.map_cons, List.sum_cons] at enough
      omega
  | succ bound ih =>
    cases dstLeft with
    | nil => exact ⟨ready, fun k => (left k).resolve_right (by simp), fun _ _ => id⟩
    | cons v rest =>
      refine outcome_bind (checkAndSendOne_turn linked ready v.1 v.2) fun r turn => ?_
      obtain ⟨t, success⟩ := r
      have fewer : t.rounds (if success then rest ++ [v] else rest) < s.rounds (v :: rest) :=
        rounds_turn turn rest
      have after : t.Pending cfg [] (if success then rest ++ [v] else rest) := by
        intro k
        by_cases here : k = v
        · subst here
          cases success with
          | false =>
            obtain ⟨same, closed⟩ := turn.stops rfl
            dsimp only at same
            rw [same]
            exact .inl closed
          | true => exact .inr (.inl (List.mem_append_right _ List.mem_cons_self))
        · rcases left k with shut | member | later
          · exact .inl (turn.shut k here shut)
          · have still := (List.mem_cons.mp member).resolve_left here
            cases success with
            | false => exact .inr (.inl still)
            | true => exact .inr (.inl (List.mem_append_left _ still))
          · obtain ⟨_, _, _, never⟩ := later
            cases never
      refine outcome_weaken (ih _ turn.ready ?_ after) fun u ended => ?_
      · change t.rounds (if success then rest ++ [v] else rest) ≤ bound
        omega
      · exact ⟨ended.ready, ended.shut, fun port dev closed =>
          ended.ports port dev (turn.ports port dev closed)⟩

theorem checkAndSendVOQs_shut (linked : cfg.Linked) (ready : s.Ready cfg) :
    Outcome (Settled cfg s) (fun _ => True) (s.checkAndSendVOQs cfg) := by
  have start : s.Pending cfg (List.range (keyBound cfg)) [] := by
    intro k
    cases front : s.shelf k with
    | nil => exact .inl (shut_empty front)
    | cons top rest =>
      have rule := ready.ruled k.1 k.2 top (mem_shelf front)
      have host := (cfg.hosts top.dst).mp (by rw [rule]; rfl)
      refine .inr (.inr ⟨top, rest, rfl, List.mem_range.mpr (host.trans_le ?_)⟩)
      unfold keyBound
      rw [Nat.add_assoc]
      exact Nat.le_add_right _ _
  unfold checkAndSendVOQs
  refine outcome_bind (firstRound_pending linked _ [] ready start) fun r first => ?_
  obtain ⟨t, left⟩ := r
  obtain ⟨ready', ⟨dstLeft, same, pending⟩, ports⟩ := first
  dsimp only at same
  subst same
  refine outcome_weaken (roundRobin_shut linked _ dstLeft ready' (le_refl _) pending) fun u ended =>
    ?_
  exact ⟨ended.ready, ended.shut, fun port dev closed =>
    ended.ports port dev (ports port dev closed)⟩

/-! ### Caches -/

/-- `CheckAndSendCache` leaves its port shut, and writes nothing else that a test reads. -/
theorem drainCache_shut (port : cfg.usePortWin = true) (cache : List PacketUnit)
    (same : s.egressCache dev = cache) : (drainCache cfg dev cache s).PortShut cfg dev ∧
      (∀ dev', dev' ≠ dev → s.PortShut cfg dev' →
        (drainCache cfg dev cache s).PortShut cfg dev') := by
  induction cache generalizing s with
  | nil =>
    refine ⟨fun top rest front => ?_, fun _ _ => id⟩
    change s.egressCache dev = top :: rest at front
    rw [same] at front
    cases front
  | cons top rest ih =>
    unfold drainCache
    split
    · have sent := sentCached cfg s dev top rest
      have left : (s.sendCached cfg dev top rest).egressCache dev = rest := by
        rw [sent.egressCache, Function.update_self]
      obtain ⟨shut, others⟩ := ih left
      refine ⟨shut, fun dev' other before => others dev' other (portShut_same ?_ ?_ before)⟩
      · rw [sent.egressCache, Function.update_of_ne other]
      · rw [sent.egressWins, debitPort, if_pos port, Function.update_of_ne other]
    · rename_i closed
      refine ⟨fun top' rest' front => ?_, fun _ _ => id⟩
      rw [same] at front
      obtain ⟨rfl, -⟩ := List.cons.inj front
      exact Bool.eq_false_of_not_eq_true closed

/-- What `CheckDstWin` and the VOQs read is the same. -/
structure Apart (s t : State) : Prop where
  wins : t.wins = s.wins
  nxtDataPsn : t.nxtDataPsn = s.nxtDataPsn
  rcvAckPsn : t.rcvAckPsn = s.rcvAckPsn
  voqs : SameVoqs s t

theorem Apart.ready (h : Apart s t) (ready : s.Ready cfg) : t.Ready cfg :=
  ready_same ready h.voqs h.wins h.nxtDataPsn h.rcvAckPsn

theorem Apart.shut (h : Apart s t) (shut : s.Shut cfg k) : t.Shut cfg k := by
  refine shut_same ?_ (fun _ _ _ => ⟨by rw [h.wins], fun _ => by rw [h.nxtDataPsn],
    fun _ => by rw [h.rcvAckPsn]⟩) shut
  unfold shelf pkts
  rw [h.voqs.groups]

theorem drainCache_apart (cache : List PacketUnit) : Apart s (drainCache cfg dev cache s) := by
  induction cache generalizing s with
  | nil => exact ⟨rfl, rfl, rfl, rfl, rfl, rfl⟩
  | cons top rest ih =>
    unfold drainCache
    split
    · have sent := sentCached cfg s dev top rest
      have later := ih (s := s.sendCached cfg dev top rest)
      exact ⟨later.wins.trans sent.wins, later.nxtDataPsn.trans sent.nxtDataPsn,
        later.rcvAckPsn.trans sent.acks.rcvAckPsn, later.voqs.groups.trans sent.voqs.groups,
        later.voqs.voqBuffer.trans sent.voqs.voqBuffer,
          later.voqs.buffering.trans sent.voqs.buffering⟩
    · exact ⟨rfl, rfl, rfl, rfl, rfl, rfl⟩

/-! ### Steps -/

/-- No VOQ and no cache has a packet to release. -/
structure Working (cfg : Config) (s : State) : Prop extends Ready cfg s where
  shut : ∀ k, s.Shut cfg k
  ports : cfg.usePortWin = true → ∀ dev, s.PortShut cfg dev

theorem working_apart (before : s.Working cfg) (h : Apart s t)
    (cache : t.egressCache = s.egressCache)
    (windows : t.egressWins = s.egressWins) : t.Working cfg where
  toReady := h.ready before.toReady
  shut k := h.shut (before.shut k)
  ports port dev := portShut_same (by rw [cache]) (by rw [windows]) (before.ports port dev)

/-- After a credit only the port it came through can have a packet to release. -/
structure Almost (cfg : Config) (inDev : ℕ) (s : State) : Prop extends Ready cfg s where
  ports : cfg.usePortWin = true → ∀ dev, dev ≠ inDev → s.PortShut cfg dev

theorem almost_paid {inDev : ℕ} (before : s.Almost cfg inDev) (h : Paid cfg s t d inDev) :
    t.Almost cfg inDev where
  toReady := ready_paid before.toReady h
  ports port dev other :=
    portShut_same (by rw [h.credited.egressCache]) (h.ports dev other) (before.ports port dev other)

theorem Settled.almost {inDev : ℕ} (h : Settled cfg s t) (before : s.Almost cfg inDev) :
    t.Almost cfg inDev ∧ ∀ k, t.Shut cfg k :=
  ⟨⟨h.ready, fun port dev other => h.ports port dev (before.ports port dev other)⟩, h.shut⟩

theorem resumeWindows_shut (linked : cfg.Linked) (before : s.Working cfg) (acktag : ℕ → ℕ)
    (d inDev : ℕ) : Outcome (fun t => t.Almost cfg inDev ∧ ∀ k, t.Shut cfg k) (fun _ => True)
      (s.resumeWindows cfg acktag d inDev) := by
  have start : s.Almost cfg inDev := ⟨before.toReady, fun port dev _ => before.ports port dev⟩
  have single : Outcome (fun t => t.Almost cfg inDev ∧ ∀ k, t.Shut cfg k) (fun _ => True) (do
      let s ← s.resumeDst cfg (acktag 0) d inDev
      s.checkAndSendVOQ cfg d) := by
    refine outcome_bind (resumeDst_paid cfg s (acktag 0) d inDev) fun t paid => ?_
    have after := almost_paid start paid
    refine outcome_weaken (checkAndSendVOQ_shut linked after.toReady fun k top rest front other =>
      ?_) fun u settled =>
      settled.almost after
    have same : s.shelf k = top :: rest := by
      rw [← front]
      unfold shelf pkts
      rw [paid.credited.voqs.groups]
    exact closed_same (paid.same other) (before.shut k top rest same)
  unfold resumeWindows
  split
  · have credits : Outcome (Almost cfg inDev) (fun _ => True) (s.recoverWin cfg acktag inDev) := by
      unfold recoverWin
      refine outcome_foldlM (fun i _ u at_u => ?_) start
      exact outcome_weaken (recoverDst_paid cfg u inDev acktag i) fun v paid =>
        almost_paid at_u paid
    refine outcome_bind credits fun t after => ?_
    exact outcome_weaken (checkAndSendVOQs_shut linked after.toReady) fun u settled =>
      settled.almost after
  · exact single
  · exact single

theorem updateSynTime_apart (cfg : Config) (s : State) (dev d : ℕ) (acktag : ℕ → ℕ) :
    Apart s (s.updateSynTime cfg dev d acktag) ∧ (s.updateSynTime cfg dev d acktag).egressWins =
      s.egressWins := by
  unfold updateSynTime startTimer noteAckTimes
  split
  · exact ⟨⟨rfl, rfl, rfl, rfl, rfl, rfl⟩, rfl⟩
  · split <;> split <;> exact ⟨⟨rfl, rfl, rfl, rfl, rfl, rfl⟩, rfl⟩

theorem resumeVOQWin_working (linked : cfg.Linked) (before : s.Working cfg) (acktag : ℕ → ℕ)
    (d inDev : ℕ) :
    Outcome (fun r => r.1.Working cfg) (fun _ => True) (s.resumeVOQWin cfg acktag d inDev) := by
  obtain ⟨apart, windows⟩ := updateSynTime_apart cfg s (cfg.psnRow inDev d) d acktag
  have cache := (updateSynTime_credited cfg s (cfg.psnRow inDev d) d acktag).egressCache
  have timed := working_apart before apart cache windows
  unfold resumeVOQWin
  refine outcome_bind (resumeWindows_shut linked timed acktag d inDev) fun t after => ?_
  obtain ⟨almost, shut⟩ := after
  show (t.checkAndSendCache cfg inDev).Working cfg
  unfold checkAndSendCache
  split
  · rename_i port
    obtain ⟨here, others⟩ := @drainCache_shut cfg t inDev port _ rfl
    have kept := @drainCache_apart cfg t inDev (t.egressCache inDev)
    refine ⟨kept.ready almost.toReady, fun k => kept.shut (shut k), fun _ dev => ?_⟩
    by_cases same : dev = inDev
    · exact same ▸ here
    · exact others dev same (almost.ports port dev same)
  · rename_i none
    exact ⟨almost.toReady, shut, fun port => absurd port none⟩

theorem working_ignored (before : s.Working cfg) (h : Ignored cfg s t p) : t.Working cfg := by
  rw [h.eq]
  exact working_apart before ⟨rfl, rfl, rfl, rfl, rfl, rfl⟩ rfl rfl

theorem working_passed (linked : cfg.Linked) (before : s.Working cfg) (h : Passed cfg s t p p') :
    t.Working cfg := by
  obtain ⟨dst, size, -, -⟩ := PacketUnit.bare_fields h.bare
  obtain ⟨g, rule⟩ := h.grouped
  rw [← dst] at rule
  have debit : Debited cfg s t p'.dst p'.size := by
    rw [dst, size]
    exact h.wins
  refine ⟨ready_passed linked before.toReady h, fun k => ?_, fun port dev => ?_⟩
  · have shelf : t.shelf k = s.shelf k := by
      unfold State.shelf pkts
      rw [h.voqs.groups]
    refine shut_same shelf (fun top rest front => ?_) (before.shut k)
    refine same_debited linked rule debit h.tagged h.acks fun same => ?_
    -- None of its packets can have waited.
    have waits := (before.entry (mem_shelf front)).2
    have empty := h.none
    have pos := top.size_pos
    rw [before.buffering, ← dst, ← same] at empty
    omega
  · exact portShut_forwarded port h.route (before.ports port dev)

theorem same_held (linked : cfg.Linked) {G : Group} (held : Held cfg s t g voqId G p)
    (known : s.wins d ≠ none) : Same d s t where
  wins := by
    obtain ⟨u, fits, tested, wins, -⟩ := held.tested
    obtain ⟨w, has, rfl, -⟩ := checkDstWin_ok linked tested
    rw [wins, setWin_wins, Function.update_apply]
    split
    · rename_i here
      subst here
      obtain ⟨w', entry⟩ := Option.ne_none_iff_exists'.mp known
      rw [window_known cfg entry] at has
      rw [entry, has]
    · rfl
  nxtDataPsn row := by rw [held.nxtDataPsn]
  rcvAckPsn row := by rw [held.acks.rcvAckPsn]

theorem working_held (linked : cfg.Linked) (before : s.Working cfg) {G : Group}
    (held : Held cfg s t g voqId G p)
    (space : s.getBufferDst p.dst + p.size < 2 ^ 32) : t.Working cfg := by
  have got := before.got held
  obtain ⟨joined, others⟩ := shelf_held held got
  have known : ∀ k top rest, s.shelf k = top :: rest → s.wins top.dst ≠ none :=
    fun k top rest front => before.registered k.1 k.2 top (mem_shelf front)
  refine ⟨ready_held linked before.toReady held space, fun k => ?_, fun port dev => ?_⟩
  · by_cases here : k = (g, voqId)
    · subst here
      cases old : s.shelf (g, voqId) with
      | cons top rest =>
        intro top' rest' front
        change t.pkts g voqId = _ at front
        change s.pkts g voqId = _ at old
        rw [joined, old] at front
        obtain ⟨rfl, -⟩ := List.cons.inj front
        exact closed_same (same_held linked held (known (g, voqId) top rest old))
          (before.shut (g, voqId) top rest old)
      | nil =>
        -- The packet opens its VOQ, so it is its window that holds it back.
        obtain ⟨u, fits, tested, wins, closed⟩ := held.tested
        obtain ⟨w, has, rfl, answer⟩ := checkDstWin_ok linked tested
        have none : s.getBufferDst p.dst = 0 := by
          by_contra some
          obtain ⟨g', v, q, waits, same⟩ := before.waits (Nat.pos_of_ne_zero some)
          obtain ⟨rfl, named⟩ := before.named (k := (g', v)) waits (same ▸ held.rule)
          unfold Group.findVOQ at named
          rw [same] at named
          obtain rfl := got.kept v (Option.filter_eq_some_iff.mp named).1
          change s.pkts _ _ = [] at old
          rw [old] at waits
          cases waits
        obtain rfl : fits = false := Bool.eq_false_of_not_eq_true fun open' => closed open' none
        intro top rest front
        change t.pkts g voqId = _ at front
        change s.pkts g voqId = _ at old
        rw [joined, old] at front
        obtain ⟨rfl, -⟩ := List.cons.inj front
        refine ⟨w, ?_, ?_⟩
        · rw [wins]
          exact Function.update_self _ _ _
        · refine (admitsBytes_same (s := s.setWin p.dst w)
            ⟨by rw [wins], fun row => ?_, fun row => ?_⟩).trans answer
          · rw [held.nxtDataPsn]
            rfl
          · rw [held.acks.rcvAckPsn]
            rfl
    · exact shut_same (others k here) (fun top rest front =>
        same_held linked held (known k top rest front)) (before.shut k)
  · exact portShut_same (by rw [held.egressCache]) (by rw [held.egressWins]) (before.ports port dev)

theorem working_step (linked : cfg.Linked) {ev : Event} (before : s.Working cfg)
    (fit : ev.Fits cfg s) : Outcome (Working cfg) (fun _ => True) (s.step cfg ev) := by
  cases ev with
  | data p =>
    refine outcome_mono (sendToDev_outcome cfg s p) (fun t arrived => ?_) fun _ _ => trivial
    have start : ({ s with admitted := s.admitted ++ [p] } : State).Working cfg :=
      working_apart before ⟨rfl, rfl, rfl, rfl, rfl, rfl⟩ rfl rfl
    rcases arrived with ignored | ⟨p', passed⟩ | ⟨g, voqId, G, held⟩
    · exact working_ignored start ignored
    · exact working_passed linked start passed
    · have blocked := held.blocked
      rw [holds_admitted] at blocked
      exact working_held linked start held (fit blocked)
  | switchAck acktag d inDev =>
      exact outcome_map (resumeVOQWin_working linked before acktag d inDev)
  | advance time => exact working_apart before ⟨rfl, rfl, rfl, rfl, rfl, rfl⟩ rfl rfl
  | synTimeout dev =>
    show (s.synTimeout cfg dev).Working cfg
    unfold synTimeout
    dsimp only
    split <;> exact working_apart before ⟨rfl, rfl, rfl, rfl, rfl, rfl⟩ rfl rfl

theorem working_reachable (linked : cfg.Linked) (reach : s.Reachable cfg (Event.Fits cfg)) :
    s.Working cfg := by
  induction reach with
  | initial =>
    exact ⟨ready_initial cfg, fun k => shut_empty rfl, fun _ dev top rest front => by cases front⟩
  | step _ fit call before => exact outcome_result (working_step linked before fit) call

/-- While `m_buffering` counts no destination past 2^32 bytes, no packet waits that its window would
let pass. -/
theorem work_conserving (linked : cfg.Linked) (reach : s.Reachable cfg (Event.Fits cfg)) :
    s.WorkConserving cfg := by
  have working := working_reachable linked reach
  exact ⟨fun g v top rest front => closed_checkDstWin linked (working.shut (g, v) top rest front),
    working.ports⟩

/-! ### Where the counter wraps around -/

theorem checkAndSendOne_closed {top : PacketUnit} {rest : List PacketUnit} (linked : cfg.Linked)
    (front : s.pkts g voqId = top :: rest) (closed : s.Closed cfg top.dst top.size) :
    s.checkAndSendOne cfg g voqId = .ok (s, false) := by
  unfold checkAndSendOne
  rw [front]
  dsimp only
  rw [closed_checkDstWin linked closed]
  rfl

theorem relative_closed (relative : cfg.absolutePsn = false) (known : s.wins d = some w)
    (large : w < n) : s.Closed cfg d n := by
  refine ⟨w, known, ?_⟩
  rw [admitsBytes, relative, if_neg Bool.false_ne_true, decide_eq_false (Nat.not_le.mpr large)]

theorem relative_opens (linked : cfg.Linked) (relative : cfg.absolutePsn = false)
    (known : s.wins d = some w) (fits : n ≤ w) : s.checkDstWin cfg d n = .ok (s, true) := by
  rw [checkDstWin_linked linked (window_known cfg known), admitsBytes, relative,
    if_neg Bool.false_ne_true, decide_eq_true fits, setWin_self known]
  rfl

theorem checkAndSendOne_opens {top : PacketUnit} {rest : List PacketUnit} {bytes : ℕ}
    (linked : cfg.Linked)
    (relative : cfg.absolutePsn = false) (rule : cfg.dst2group top.dst = some (.group g))
    (known : s.wins top.dst = some w) (fits : top.size ≤ w) (front : s.pkts g voqId = top :: rest)
    (found : (s.groups g).findVOQId (cfg.group g) top.dst = some voqId)
    (counted : s.buffering top.dst = some bytes) :
    ∃ t p, s.checkAndSendOne cfg g voqId = .ok (t, true) ∧ Released cfg s t g voqId p ∧
    p.bare = top.bare ∧ t.wins top.dst = some (sub32 w top.size) := by
  have opens := relative_opens linked relative known fits
  have debit := @updateDstWin_relative cfg (s.pop g voqId top.size rest) top.dst linked relative g w
    rule known top.size
  have kept : ((s.pop g voqId top.size rest).groups g).findVOQId (cfg.group g) top.dst =
      some voqId := by
    simp only [pop, setGroup, Function.update_self, Group.findVOQId_setPkts, found]
  have counts := @updateBufferingCount_sub
    ((s.pop g voqId top.size rest).setWin top.dst (sub32 w top.size)) top.dst bytes counted top.size
  obtain ⟨t, ended⟩ : ∃ t, s.checkAndSendOne cfg g voqId = .ok (t, true) := by
    unfold checkAndSendOne voqDequeueCallback mmuDequeue tagPsn
    rw [front]
    simp only [bind, Except.bind, opens, if_true, ne_eq, kept, not_true, if_false, relative,
      Bool.false_eq_true, debit, counts]
    exact ⟨_, rfl⟩
  have effect := outcome_result (checkAndSendOne_outcome cfg s g voqId) ended
  obtain ⟨p, released⟩ : ∃ p, Released cfg s t g voqId p := effect
  obtain ⟨first, left, head, bare, -⟩ := released.front
  rw [front] at head
  obtain ⟨rfl, -⟩ := List.cons.inj head
  obtain ⟨dst, size, -, -⟩ := PacketUnit.bare_fields bare
  refine ⟨t, p, ended, released, bare.symm, ?_⟩
  obtain ⟨w', has, -, wins⟩ := released.wins.linked linked (dst ▸ rule)
  rw [← dst, window_known cfg known] at has
  obtain rfl := Option.some.inj has
  rw [wins, ← dst, ← size, Function.update_self, lowered, relative, if_neg Bool.false_ne_true]

theorem resumeVOQWin_relative {inDev : ℕ} (acktag : ℕ → ℕ) (mode : cfg.ackMode = .switchDstCredit)
    (relative : cfg.absolutePsn = false) (direct : cfg.usePortWin = false)
    (rule : cfg.dst2group d = some (.group g)) (known : s.wins d = some w)
    (ended : (s.setWin d (add32 w (acktag 0 % 2 ^ 32))).checkAndSendVOQ cfg d = .ok t) :
    s.step cfg (.switchAck acktag d inDev) = .ok t := by
  have grouped : cfg.shouldIgnore d = .ok false := by rw [Config.shouldIgnore, rule]
  unfold step resumeVOQWin resumeWindows resumeDst updateSynTime updateWin updateDstWin
    updateEgressWin checkAndSendCache
  simp only [mode, relative, direct, grouped, known, bind, Except.bind, Bool.false_eq_true,
    if_false, if_true, true_or, Bool.not_false, ended]
  rfl

end State

/-- One VOQ with dynamic hashing, for the window of `bulkConfig`. -/
def hashConfig : Config := { bulkConfig with group := fun _ => ⟨1, true, fun _ => Nat.one_pos⟩ }

/-- A run in which a packet waits in a VOQ. -/
theorem work_conserving_waiting : ∃ s : State, s.pkts 0 0 ≠ [] ∧ s.WorkConserving hashConfig := by
  obtain ⟨s, reach, waits⟩ : ∃ s : State, s.Reachable hashConfig (Event.Fits hashConfig) ∧
      s.pkts 0 0 ≠ [] :=
    State.exists_run [.data (bulkPacket 0), .data (bulkPacket 1)] (by decide +kernel)
  exact ⟨s, waits, State.work_conserving rfl reach⟩

/-- With 2^32 + 1024 bytes in the VOQ the first release takes the counter to 0 and the VOQ from its
destination: the packets left behind stay whatever window comes. -/
theorem stranded : ∃ s : State, s.Reachable hashConfig (fun _ _ => True) ∧
    ¬s.WorkConserving hashConfig := by
  have linked : hashConfig.Linked := rfl
  have rule : hashConfig.dst2group 1 = some (.group 0) := rfl
  obtain ⟨base, s, reach, -, -, filled⟩ := @bulk_waits hashConfig rfl rfl rfl rfl rfl (2 ^ 22 + 1)
  obtain ⟨rest, waiting⟩ : ∃ rest, bulk (2 ^ 22 + 1) = bulkPacket 1 :: bulkPacket 2 :: rest :=
    bulk_two (by decide)
  have known := filled.known (by rw [waiting]; exact List.cons_ne_nil _ _)
  obtain ⟨v, found, pkts⟩ := filled.pkts.resolve_left fun none => by
    rw [waiting] at none
    cases none.1
  rw [waiting] at pkts
  have counter : s.getBufferDst 1 = 1024 := by
    rw [filled.buffering, bulk_size]
    decide
  have counted : s.buffering 1 = some 1024 := by
    unfold State.getBufferDst at counter
    cases entry : s.buffering 1 with
    | none =>
      rw [entry] at counter
      cases counter
    | some b =>
      rw [entry] at counter
      exact congrArg some counter
  -- A first credit releases one packet, after which the counter reads 0.
  have window : (s.setWin 1 (add32 476 (1024 % 2 ^ 32))).wins 1 = some 1500 := by
    rw [State.setWin_wins, Function.update_self]
    decide
  obtain ⟨u, credit, opened, same, buffers⟩ : ∃ u, s.setWin 1 (add32 476 (1024 % 2 ^ 32)) = u ∧
    u.wins 1 = some 1500 ∧
      u.groups = s.groups ∧ u.buffering = s.buffering := ⟨_, rfl, window, rfl, rfl⟩
  have shelf : u.pkts 0 v = bulkPacket 1 :: bulkPacket 2 :: rest := by
    unfold State.pkts at pkts ⊢
    rw [same]
    exact pkts
  rw [← same] at found
  rw [← buffers] at counted
  obtain ⟨t, p, first, released, bare, left⟩ :=
    @State.checkAndSendOne_opens hashConfig u 0 v 1500 (bulkPacket 1)
      (bulkPacket 2 :: rest) 1024 linked rfl rule opened (by decide) shelf found counted
  obtain ⟨dst, size, -, -⟩ := PacketUnit.bare_fields bare
  obtain ⟨top, front, -, -⟩ := State.shelf_released released
  rw [shelf] at front
  obtain ⟨-, behind⟩ := List.cons.inj front
  have stops : t.checkAndSendOne hashConfig 0 v = .ok (t, false) :=
    State.checkAndSendOne_closed linked behind.symm (State.relative_closed rfl left (by decide))
  have ends : u.checkAndSendVOQ hashConfig 1 = .ok t := by
    have present := Group.pkts_isSome
      (List.ne_nil_of_mem (shelf ▸ List.mem_cons_self : bulkPacket 1 ∈ u.pkts 0 v))
    have voq : (u.groups 0).findVOQ (hashConfig.group 0) 1 = some v := by
      rw [Group.findVOQ, found, Option.filter, present]
      rfl
    unfold State.checkAndSendVOQ State.checkAndSendAll
    rw [rule]
    dsimp only
    rw [voq]
    dsimp only
    rw [shelf, List.length_cons, List.length_cons]
    simp only [State.sendWhile, first, stops, bind, Except.bind, if_true,
      Bool.false_eq_true, if_false]
  have acked := @State.resumeVOQWin_relative hashConfig s t 0 1 476 1
    (fun _ => 1024) rfl rfl rfl rule known (credit ▸ ends)
  -- The second one finds no VOQ.
  have zero : t.getBufferDst 1 = 0 := by
    obtain ⟨bytes, was, now⟩ := released.buffering
    change p.dst = 1 at dst
    change p.size = 1024 at size
    rw [dst, counted] at was
    obtain rfl := Option.some.inj was
    unfold State.getBufferDst
    rw [now, dst, size, Function.update_self]
    decide
  have missing : (t.groups 0).findVOQ (hashConfig.group 0) 1 = none := by
    obtain ⟨_, _, -, -, groups⟩ := released.front
    change p.dst = 1 at dst
    rw [groups, Function.update_self, dst, zero, Group.findVOQ, Group.findVOQId_dynamic rfl,
      Group.release, if_pos ⟨rfl, rfl⟩]
    dsimp only
    rw [Function.update_self]
    rfl
  have lost : (t.setWin 1 (add32 476 (1024 % 2 ^ 32))).checkAndSendVOQ hashConfig 1 =
      .ok (t.setWin 1 (add32 476 (1024 % 2 ^ 32))) := by
    have voq : ((t.setWin 1 (add32 476 (1024 % 2 ^ 32))).groups 0).findVOQ (hashConfig.group 0) 1 =
      none := missing
    have empty : (t.setWin 1 (add32 476 (1024 % 2 ^ 32))).getBufferDst 1 = 0 := zero
    unfold State.checkAndSendVOQ
    rw [rule]
    dsimp only
    rw [voq]
    dsimp only
    rw [if_pos empty]
  have again := @State.resumeVOQWin_relative hashConfig t _ 0 1 476 1
    (fun _ => 1024) rfl rfl rfl rule left lost
  refine ⟨_, .step (.step reach trivial acked) trivial again, fun conserving => ?_⟩
  have head : (t.setWin 1 (add32 476 (1024 % 2 ^ 32))).pkts 0 v = bulkPacket 2 :: rest :=
    behind.symm
  have closed := conserving.voqs 0 v (bulkPacket 2) rest head
  have open' : (t.setWin 1 (add32 476 (1024 % 2 ^ 32))).wins (bulkPacket 2).dst = some 1500 := by
    have here : (bulkPacket 2).dst = 1 := rfl
    rw [here, State.setWin_wins, Function.update_self]
    decide
  have size : (bulkPacket 2).size = 1024 := rfl
  rw [State.relative_opens linked rfl open' (by omega)] at closed
  cases closed

end Floodgate

end Pyrrha
