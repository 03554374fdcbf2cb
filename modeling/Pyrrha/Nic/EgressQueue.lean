import Pyrrha.Lib.RoundRobin
import Pyrrha.Nic.Device

/-!
`RdmaEgressQueue` with both its round robins, the one of the tokens and the one of the data. What it
asks of `RdmaHw` is a record of callbacks, one for each call.
-/

namespace Pyrrha
open Lib

namespace Nic

/-- `RdmaSndQueuePair` with its ids; `σ` is what `RdmaHw` keeps of it. -/
structure SndQp (σ : Type) where
  pg : ℕ
  dst : ℕ
  qpid : ℕ
  queueId : ℕ
  state : σ

/-- `RdmaQueuePair`; `ρ` is what `RdmaHw` keeps of a receiver. -/
inductive GrpQp (σ ρ : Type) where
  | snd (q : SndQp σ)
  | rx (r : ρ)

/-- `m_tokenMode`. -/
inductive TokenMode where
  | no | rateBased

/-- The settings of a NIC. `ackQIdx` is `ack_q_idx`, `bfc` says that `fc_mode` is `FC_BFC`,
`portScale` is `switch_num + host_per_rack`, and `tknTime` the time of `MTU + 84` bytes at the rate
of the NIC. -/
structure EgressConfig where
  ackQIdx : ℕ
  pfcFine : PfcGran
  portScale : ℕ
  quotaMode : Bool
  bfc : Bool
  queueAllocateInHost : ℕ
  ctrlAllEgress : Bool
  tknTime : ℕ

/-- What stops a call: the assert of `Resume`, that of the pause test, or one in a callback. -/
inductive EgressFault where
  | mustBePaused | granularity | callback | disabled
  deriving DecidableEq

/-- The callbacks of `RdmaHw` at a time; `none` is an assert that fails. `GetNxtPkt` and `GetTknPkt`
include `PktSent`. `ShouldSndTkn` changes receivers only. -/
structure Callbacks (σ ρ π : Type) where
  now : ℕ
  checkData : SndQp σ → Option (σ × Bool)
  checkUschQuota : SndQp σ → Bool
  routingHops : SndQp σ → Option (List (ℕ × ℕ))
  sndToken : SndQp σ → Bool
  rxToken : ρ → ρ × Bool
  getNxtPkt : SndQp σ → Option (σ × π)
  sndTknPkt : SndQp σ → Option (σ × π)
  rxTknPkt : ρ → Option (ρ × π)

/-- `RdmaEgressQueue`. `ackQ` are the ids in the `QPTag` of the packets of `m_ackQ`. -/
structure EgressQueue (σ ρ : Type) where
  qpGrp : List (GrpQp σ ρ)
  rrlast : ℕ := 0
  rrlastTkn : ℕ := 0
  ackQ : List ℕ := []
  tokenMode : TokenMode
  rateLimiterMode : ℕ
  rateLimiting : Bool := false
  nxtTknTime : ℕ := 0

/-- What `GetNextQindex` returns, with `is_token`: -1, an index, or -1024. -/
inductive Pick where
  | ack
  | token (i : ℕ)
  | data (i : ℕ)
  | none

/-- The packet that `DequeueQindex` returns, with its `UpstreamTag`. -/
inductive Sent (π : Type) where
  | ack (upstreamQ : Option ℕ)
  | token (i : ℕ) (p : π)
  | data (i : ℕ) (p : π) (upstreamQ : Option ℕ)

def orFault {α : Type} (e : EgressFault) : Option α → Except EgressFault α
  | some a => .ok a
  | none => .error e

variable {σ ρ π : Type}

namespace SndQp

/-- The test of the flow control in `GetNextQindex`. -/
def isPaused (cfg : EgressConfig) (cb : Callbacks σ ρ π) (paused : ℕ → Option Bool) (q : SndQp σ) :
    Except EgressFault Bool :=
  let held := fun id => decide (paused id = some true)
  match cfg.pfcFine with
  | .off => .error .granularity
  | .pg => .ok (held q.pg)
  | .dst => .ok (held q.dst)
  | .qp => .ok (held q.qpid)
  | .queue => .ok (held q.queueId)
  | .spot => do
    let hops ← orFault .callback (cb.routingHops q)
    .ok (hops.any fun hop => held (hop.1 * cfg.portScale + hop.2))

/-- The id `DequeueQindex` puts into the `UpstreamTag` of a data packet. `AddQueuePair` keeps the
messages of an id in one queue pair, so the `QPTag` of the packet has the id of the queue pair. -/
def upstreamQ (cfg : EgressConfig) (q : SndQp σ) : ℕ :=
  if cfg.queueAllocateInHost = 0 then q.qpid
  else if cfg.queueAllocateInHost = 1 then q.queueId
  else 0

end SndQp

/-- The id in the `UpstreamTag` of an acknowledgement. -/
def EgressConfig.ackUpstreamQ (cfg : EgressConfig) (qpid : ℕ) : Option ℕ :=
  if !cfg.bfc then none
  else if cfg.queueAllocateInHost = 0 then some qpid
  else if cfg.queueAllocateInHost = 1 then some cfg.ackQIdx
  else none

namespace EgressQueue

def setQp (eq : EgressQueue σ ρ) (i : ℕ) (x : GrpQp σ ρ) : EgressQueue σ ρ :=
  { eq with qpGrp := eq.qpGrp.set i x }

variable (cfg : EgressConfig) (cb : Callbacks σ ρ π) (paused : ℕ → Option Bool)

/-- The loop over the queue pairs for a token. -/
def scanTokens : List ℕ → EgressQueue σ ρ → EgressQueue σ ρ × Option ℕ
  | [], eq => (eq, none)
  | i :: rest, eq =>
    match eq.qpGrp[i]? with
    | some (.snd q) => if cb.sndToken q then (eq, some i) else scanTokens rest eq
    | some (.rx r) =>
      let (r, ready) := cb.rxToken r
      let eq := eq.setQp i (.rx r)
      if ready then (eq, some i) else scanTokens rest eq
    | none => scanTokens rest eq

/-- The `switch` over `m_tokenMode`. -/
def nextToken (eq : EgressQueue σ ρ) : EgressQueue σ ρ × Option ℕ :=
  match eq.tokenMode with
  | .no => (eq, none)
  | .rateBased =>
    if cb.now < eq.nxtTknTime then (eq, none)
    else
      match scanTokens cb (ringFrom eq.qpGrp.length eq.rrlastTkn) eq with
      | (eq, some i) => (eq, some i)
      | (eq, none) => if eq.rateLimiterMode = 1 then ({ eq with nxtTknTime := cb.now },
          none) else (eq, none)

/-- The loop over the queue pairs for a data packet. -/
def scanData : List ℕ → EgressQueue σ ρ → Except EgressFault (EgressQueue σ ρ × Option ℕ)
  | [], eq => .ok (eq, none)
  | i :: rest, eq =>
    match eq.qpGrp[i]? with
    | some (.snd q) => do
      let (state, ready) ← orFault .callback (cb.checkData q)
      let q := { q with state := state }
      let eq := eq.setQp i (.snd q)
      if !ready || (cfg.quotaMode && !cb.checkUschQuota q) then scanData rest eq
      else do
        if ← q.isPaused cfg cb paused then scanData rest eq else .ok (eq, some i)
    | _ => scanData rest eq

def getNextQindex (eq : EgressQueue σ ρ) : Except EgressFault (EgressQueue σ ρ × Pick) :=
  if paused cfg.ackQIdx ≠ some true ∧ eq.ackQ ≠ [] then .ok (eq, .ack)
  else
    match nextToken cb eq with
    | (eq, some i) => .ok (eq, .token i)
    | (eq, none) => do
      match ← scanData cfg cb paused (ringFrom eq.qpGrp.length eq.rrlast) eq with
      | (eq, some i) => .ok (eq, .data i)
      | (eq, none) => .ok (eq, .none)

/-- `DequeueQindex`, which is not called for -1024. -/
def dequeueQindex (eq : EgressQueue σ ρ) : Pick →
    Except EgressFault (EgressQueue σ ρ × Option (Sent π))
  | .ack =>
    match eq.ackQ with
    | qpid :: rest => .ok ({ eq with ackQ := rest }, some (.ack (cfg.ackUpstreamQ qpid)))
    | [] => .error .callback
  | .token i =>
    match eq.qpGrp[i]? with
    | some (.snd q) => do
      let (state, p) ← orFault .callback (cb.sndTknPkt q)
      .ok ({ eq.setQp i (.snd { q with state := state }) with rrlastTkn := i }, some (.token i p))
    | some (.rx r) => do
      let (r, p) ← orFault .callback (cb.rxTknPkt r)
      .ok ({ eq.setQp i (.rx r) with rrlastTkn := i }, some (.token i p))
    | none => .error .callback
  | .data i =>
    match eq.qpGrp[i]? with
    | some (.snd q) => do
      let (state, p) ← orFault .callback (cb.getNxtPkt q)
      .ok ({ eq.setQp i (.snd { q with state := state }) with rrlast := i },
        some (.data i p (if cfg.bfc then some (q.upstreamQ cfg) else none)))
    | _ => .error .callback
  | .none => .ok (eq, none)

end EgressQueue

/-- `CheckData`, the quota and the pause test pass. -/
def SndQp.Eligible (cfg : EgressConfig) (cb : Callbacks σ ρ π) (paused : ℕ → Option Bool)
    (q : SndQp σ) : Prop :=
  ∃ state, cb.checkData q = some (state, true) ∧
    (cfg.quotaMode = true → cb.checkUschQuota { q with state := state } = true) ∧
    SndQp.isPaused cfg cb paused { q with state := state } = .ok false

/-- The index names a sender queue pair that may send. -/
def EgressQueue.Eligible (cfg : EgressConfig) (cb : Callbacks σ ρ π) (paused : ℕ → Option Bool)
    (eq : EgressQueue σ ρ) (i : ℕ) : Prop :=
  ∃ q, eq.qpGrp[i]? = some (.snd q) ∧ q.Eligible cfg cb paused

/-! ### The scans -/

variable {cfg : EgressConfig} {cb : Callbacks σ ρ π} {paused : ℕ → Option Bool}
    {eq eq' : EgressQueue σ ρ} {i j : ℕ} {l : List ℕ} {pick : Pick}

theorem orFault_ok {α : Type} {e : EgressFault} {o : Option α} {a : α} (h : orFault e o = .ok a) :
    o = some a := by
  cases o with
  | none => cases h
  | some b =>
    cases h
    rfl

/-- The group has the same size and the same senders, and the cursor of the data is the same. -/
structure SameSenders (eq eq' : EgressQueue σ ρ) : Prop where
  length : eq'.qpGrp.length = eq.qpGrp.length
  senders : ∀ (i : ℕ) (q : SndQp σ), eq'.qpGrp[i]? = some (.snd q) ↔ eq.qpGrp[i]? = some (.snd q)
  rrlast : eq'.rrlast = eq.rrlast

theorem sameSenders_refl (eq : EgressQueue σ ρ) : SameSenders eq eq :=
  ⟨rfl, fun _ _ => Iff.rfl, rfl⟩

theorem sameSenders_trans {eq'' : EgressQueue σ ρ} (first : SameSenders eq eq')
    (second : SameSenders eq' eq'') : SameSenders eq eq'' :=
  ⟨second.length.trans first.length, fun i q => (second.senders i q).trans (first.senders i q),
    second.rrlast.trans first.rrlast⟩

theorem sameSenders_rx {r r' : ρ} (here : eq.qpGrp[i]? = some (.rx r)) :
    SameSenders eq (eq.setQp i (.rx r')) := by
  refine ⟨List.length_set .., fun j q => ?_, rfl⟩
  unfold EgressQueue.setQp
  rw [List.getElem?_set]
  split
  · rename_i same
    subst same
    rw [here]
    constructor
    · intro found
      split at found <;> cases found
    · intro found
      cases found
  · exact Iff.rfl

theorem scanTokens_senders (cb : Callbacks σ ρ π) (l : List ℕ) (eq : EgressQueue σ ρ) :
    SameSenders eq (EgressQueue.scanTokens cb l eq).1 := by
  induction l generalizing eq with
  | nil => exact sameSenders_refl eq
  | cons i rest ih =>
    unfold EgressQueue.scanTokens
    split
    · split
      · exact sameSenders_refl eq
      · exact ih eq
    · rename_i r here
      dsimp only
      have same : SameSenders eq (eq.setQp i (.rx (cb.rxToken r).1)) := sameSenders_rx here
      split
      · exact same
      · exact sameSenders_trans same (ih _)
    · exact ih eq

theorem nextToken_senders (cb : Callbacks σ ρ π) (eq : EgressQueue σ ρ) :
    SameSenders eq (EgressQueue.nextToken cb eq).1 := by
  have scanned := scanTokens_senders cb (ringFrom eq.qpGrp.length eq.rrlastTkn) eq
  unfold EgressQueue.nextToken
  split
  · exact sameSenders_refl eq
  · split
    · exact sameSenders_refl eq
    · split
      · rename_i found
        rwa [found] at scanned
      · rename_i found
        rw [found] at scanned
        split
        · exact ⟨scanned.length, scanned.senders, scanned.rrlast⟩
        · exact scanned

theorem eligible_same (same : SameSenders eq eq') : eq'.Eligible cfg cb paused i ↔
    eq.Eligible cfg cb paused i := by
  unfold EgressQueue.Eligible
  simp only [same.senders]

theorem eligible_set {x : GrpQp σ ρ} (other : j ≠ i) :
    (eq.setQp i x).Eligible cfg cb paused j ↔ eq.Eligible cfg cb paused j := by
  unfold EgressQueue.Eligible EgressQueue.setQp
  simp only [List.getElem?_set_ne (Ne.symm other)]

/-- What the loop for the data returns is the first eligible queue pair. -/
structure FirstOf (cfg : EgressConfig) (cb : Callbacks σ ρ π) (paused : ℕ → Option Bool)
    (eq : EgressQueue σ ρ) (l : List ℕ) (i : ℕ) : Prop where
  eligible : eq.Eligible cfg cb paused i
  first : ∃ before after, l = before ++ i :: after ∧ ∀ j ∈ before, ¬eq.Eligible cfg cb paused j

theorem firstOf_skip (skipped : ¬eq.Eligible cfg cb paused i) (fresh : i ∉ l)
    (same : ∀ j, j ≠ i → (eq'.Eligible cfg cb paused j ↔ eq.Eligible cfg cb paused j))
    (found : FirstOf cfg cb paused eq' l j) : FirstOf cfg cb paused eq (i :: l) j := by
  obtain ⟨eligible, before, after, rfl, passed⟩ := found
  have other : ∀ k ∈ before ++ j :: after, k ≠ i := by
    rintro k member rfl
    exact fresh member
  refine ⟨(same j (other j (by simp))).mp eligible, i :: before, after, rfl, ?_⟩
  intro k member
  rcases List.mem_cons.mp member with rfl | later
  · exact skipped
  · rw [← same k (other k (by simp [later]))]
    exact passed k later

theorem scanData_first {r : Option ℕ} (nodup : l.Nodup)
    (h : EgressQueue.scanData cfg cb paused l eq = .ok (eq', r)) :
    eq'.qpGrp.length = eq.qpGrp.length ∧ eq'.rrlast = eq.rrlast ∧ ∀ i, r = some i →
    FirstOf cfg cb paused eq l i := by
  induction l generalizing eq with
  | nil =>
    cases h
    exact ⟨rfl, rfl, nofun⟩
  | cons i rest ih =>
    rw [List.nodup_cons] at nodup
    unfold EgressQueue.scanData at h
    split at h
    · rename_i q here
      obtain ⟨⟨state, ready⟩, data, h⟩ := bind_ok h
      have checked := orFault_ok data
      have skip : ¬eq.Eligible cfg cb paused i →
          EgressQueue.scanData cfg cb paused rest (eq.setQp i (.snd { q with state := state })) =
            .ok (eq', r) → eq'.qpGrp.length = eq.qpGrp.length ∧ eq'.rrlast = eq.rrlast ∧
              ∀ j, r = some j → FirstOf cfg cb paused eq (i :: rest) j := by
        intro skipped later
        obtain ⟨length, rrlast, first⟩ := ih nodup.2 later
        refine ⟨length.trans (List.length_set ..), rrlast, fun j found => ?_⟩
        exact firstOf_skip skipped nodup.1 (fun _ other => eligible_set other) (first j found)
      dsimp only at h
      split at h
      · rename_i refused
        refine skip ?_ h
        rintro ⟨q', here', state', checked', quota, -⟩
        cases here.symm.trans here'
        cases checked.symm.trans checked'
        simp only [Bool.not_true, Bool.false_or, Bool.and_eq_true, Bool.not_eq_true'] at refused
        rw [quota refused.1] at refused
        cases refused.2
      · rename_i passed
        simp only [Bool.or_eq_true, Bool.not_eq_true', Bool.and_eq_true, not_or, Bool.not_eq_false,
          not_and] at passed
        obtain ⟨held, test, h⟩ := bind_ok h
        cases held with
        | true =>
          refine skip ?_ h
          rintro ⟨q', here', state', checked', -, free⟩
          cases here.symm.trans here'
          cases checked.symm.trans checked'
          cases test.symm.trans free
        | false =>
          cases h
          refine ⟨List.length_set .., rfl, fun j found => ?_⟩
          cases found
          refine ⟨⟨q, here, state, ?_, passed.2, test⟩, [], rest, rfl, nofun⟩
          rw [checked, passed.1]
    · rename_i other
      obtain ⟨length, rrlast, first⟩ := ih nodup.2 h
      refine ⟨length, rrlast, fun j found => firstOf_skip ?_ nodup.1 (fun _ _ => Iff.rfl)
        (first j found)⟩
      rintro ⟨q, here, -⟩
      exact other q here

/-- `GetNextQindex` keeps the cursor of the data, and picks the first eligible queue pair behind
it. -/
theorem getNextQindex_first (h : eq.getNextQindex cfg cb paused = .ok (eq', pick)) :
    eq'.qpGrp.length = eq.qpGrp.length ∧ eq'.rrlast = eq.rrlast ∧
      ∀ i, pick = .data i → FirstOf cfg cb paused eq (ringFrom eq.qpGrp.length eq.rrlast) i := by
  have same := nextToken_senders cb eq
  unfold EgressQueue.getNextQindex at h
  split at h
  · cases h
    exact ⟨rfl, rfl, nofun⟩
  · split at h
    · rename_i found
      cases h
      rw [found] at same
      exact ⟨same.length, same.rrlast, nofun⟩
    · rename_i eq₁ found
      rw [found] at same
      obtain ⟨⟨eq₂, r⟩, scanned, h⟩ := bind_ok h
      obtain ⟨length, rrlast, first⟩ := scanData_first (ringFrom_nodup ..) scanned
      rw [same.length, same.rrlast] at first
      have kept : eq₂.qpGrp.length = eq.qpGrp.length ∧ eq₂.rrlast = eq.rrlast :=
        ⟨length.trans same.length, rrlast.trans same.rrlast⟩
      cases r with
      | none =>
        cases h
        exact ⟨kept.1, kept.2, nofun⟩
      | some j =>
        cases h
        refine ⟨kept.1, kept.2, fun i picked => ?_⟩
        cases picked
        obtain ⟨eligible, before, after, ring, passed⟩ := first j rfl
        refine ⟨(eligible_same same).mp eligible, before, after, ring, fun k member => ?_⟩
        rw [← eligible_same same]
        exact passed k member

/-- Only a data packet moves the cursor of the data, to its queue pair. -/
theorem dequeueQindex_cursor {sent : Option (Sent π)}
    (h : eq.dequeueQindex cfg cb pick = .ok (eq', sent)) :
    eq'.qpGrp.length = eq.qpGrp.length ∧ eq'.rrlast =
      (match pick with | .data i => i | _ => eq.rrlast) := by
  cases pick with
  | ack =>
    unfold EgressQueue.dequeueQindex at h
    dsimp only at h
    split at h
    · cases h
      exact ⟨rfl, rfl⟩
    · cases h
  | token i =>
    unfold EgressQueue.dequeueQindex at h
    dsimp only at h
    split at h
    · obtain ⟨⟨state, p⟩, -, h⟩ := bind_ok h
      cases h
      exact ⟨List.length_set .., rfl⟩
    · obtain ⟨⟨r, p⟩, -, h⟩ := bind_ok h
      cases h
      exact ⟨List.length_set .., rfl⟩
    · cases h
  | data i =>
    unfold EgressQueue.dequeueQindex at h
    dsimp only at h
    split at h
    · obtain ⟨⟨state, p⟩, -, h⟩ := bind_ok h
      cases h
      exact ⟨List.length_set .., rfl⟩
    · cases h
  | none =>
    cases h
    exact ⟨rfl, rfl⟩

/-- Callbacks of a host that always has data and no tokens. -/
def eagerCallbacks : Callbacks Unit Unit Unit where
  now := 0
  checkData := fun _ => some ((), true)
  checkUschQuota := fun _ => true
  routingHops := fun _ => some []
  sndToken := fun _ => false
  rxToken := fun r => (r, false)
  getNxtPkt := fun _ => some ((), ())
  sndTknPkt := fun _ => some ((), ())
  rxTknPkt := fun r => some (r, ())

end Nic

end Pyrrha
