import Pyrrha.Rdma.Flight

/-!
A queue pair with its messages and its timer `m_eventTimeoutRetransmission`. Every message has both
its ends, and the network between them, to itself.
-/

namespace Pyrrha

namespace Rdma

/-- The settings of a queue pair; `cfg` is that of its messages, up to their sizes. -/
structure QpConfig where
  cfg : Config
  rtoUs : ℕ
  enableQpWinBound : Bool

/-- A message of the queue pair. Its session says in which of the lists `rdma_msgs_sending`,
`rdma_msgs_waiting` and `m_finished_msgs` it is. -/
structure Message where
  size : ℕ
  size_lt : size < 2 ^ 32
  session : Session := {}
  lastActionTime : ℕ
  deriving DecidableEq

/-- `RdmaSndQueuePair`: the clock, the messages in the order they were added, the time its timer is
set for, and `GetWin`, which congestion control changes. -/
structure QueuePair where
  now : ℕ := 0
  msgs : List Message := []
  eventTimeoutRetransmission : Option ℕ := none
  win : ℕ := 0
  deriving DecidableEq

/-- A message is named by its position, and which of those that can be sent `Peek` takes is left
open. In `other` are the events of a session that neither the queue pair nor its timer takes part
in. When the timer fires, `sent` is the call of `GetNxtPacket` for this queue pair that the NIC
makes before `m_RTOCallback` returns, if it makes one. -/
inductive QpEvent where
  | add (size : ℕ)
  | tick (t : ℕ)
  | setWin (w : ℕ)
  | other (k : ℕ) (ev : Event)
  | send (k : ℕ) (allowed : Bool)
  | ackArrives (k i : ℕ)
  | timeout (sent : Option (ℕ × Bool))
  deriving DecidableEq

/-- `MicroSeconds(Settings::rto_us)`. -/
def QpConfig.rto (q : QpConfig) : ℕ := 1000 * q.rtoUs

namespace Message

def cfg (q : QpConfig) (m : Message) : Config := { q.cfg with size := m.size, size_lt := m.size_lt }

def op (m : Message) : SndOperation := m.session.snd.msg

/-- Whether the timeout of the message has come. -/
def due (q : QpConfig) (now : ℕ) (m : Message) : Bool := decide (m.lastActionTime + q.rto ≤ now)

/-- Whether `ResetMSGRTOTime` looks at the message; `none` is an assert. -/
def inflight (q : QpConfig) (m : Message) : Option Bool :=
  if m.op.getBytesLeft (m.cfg q) ≠ 0 then some false
  else (m.op.getOnTheFly (m.cfg q)).map fun bytes => decide (bytes ≠ 0)

def recoverMSG (q : QpConfig) (now : ℕ) (m : Message) : Message :=
  if m.due q now then { m with
    session := { m.session with snd := m.session.snd.recoverMSG (m.cfg q) } } else m

end Message

namespace QueuePair

/-- The messages of `rdma_msgs_sending` and `rdma_msgs_waiting`. -/
def live (s : QueuePair) : List Message := s.msgs.filter fun m => !m.session.snd.finished

def resetRTOEvent (s : QueuePair) (earliest : ℕ) : QueuePair :=
  { s with eventTimeoutRetransmission := some (max earliest s.now) }

/-- `all_inflight_msgs` of `ResetMSGRTOTime`. -/
def allInflightMsgs (q : QpConfig) : List Message → Option (List Message)
  | [] => some []
  | curr :: rest => do
    let pushed ← curr.inflight q
    let msgs ← allInflightMsgs q rest
    some (if pushed then curr :: msgs else msgs)

def resetMSGRTOTime (q : QpConfig) (s : QueuePair) : Option QueuePair := do
  let msgs ← allInflightMsgs q s.live
  match (msgs.map Message.lastActionTime).min? with
  | none => some s
  | some earliest => some (s.resetRTOEvent (earliest + q.rto))

/-- `RecoverMSG` up to `m_RTOCallback`, and whether it calls it: `OnRTO` triggers the NIC. -/
def recoverMSG (q : QpConfig) (s : QueuePair) : QueuePair × Bool :=
  ({ s with eventTimeoutRetransmission := none, msgs := s.msgs.map (Message.recoverMSG q s.now) },
    s.live.any fun m => m.due q s.now && !m.session.snd.isSending)

/-- The message at `k` is replaced; its last message finished, the queue pair cancels its timer. -/
def put (s : QueuePair) (k : ℕ) (m : Message) : QueuePair :=
  let finishes := m.session.snd.finished && s.msgs[k]?.any fun old => !old.session.snd.finished
  let s := { s with msgs := s.msgs.set k m }
  { s with
    eventTimeoutRetransmission :=
      if finishes && s.live.isEmpty then none else s.eventTimeoutRetransmission }

/-- Whether the window of the queue pair lets the message be sent, when no tokens do. -/
def windowFree (q : QpConfig) (s : QueuePair) (m : Message) : Option Bool :=
  if q.cfg.l4Token then some true
    else (m.session.snd.admits (m.cfg q) q.enableQpWinBound s.win).map Prod.snd

/-- `GetNxtPacket` of the message at `k` up to the call of `ResetMSGRTOTime`, and whether it calls
it. -/
def getNxtPacket (q : QpConfig) (s : QueuePair) (k : ℕ) (allowed : Bool) : Option (QueuePair × Bool) := do
  let m ← s.msgs[k]?
  let free ← s.windowFree q m
  let session ← m.session.step (m.cfg q) (.send (allowed && free))
  let resets := (m.session.snd.shouldSndData (m.cfg q)).2 && (allowed && free) &&
    decide (q.rtoUs ≠ 0)
  some (s.put k { m with
    session := session, lastActionTime := if resets then s.now else m.lastActionTime }, resets)

/-- What `GetNxtPacket`, `Receive` and `RecoverMSG` do up to the call of `ResetMSGRTOTime`, and
whether they call it. A NIC that is not triggered sends nothing. -/
def acted (q : QpConfig) (s : QueuePair) : QpEvent → Option (QueuePair × Bool)
  | .send k allowed => s.getNxtPacket q k allowed
  | .ackArrives k i => do
    let m ← s.msgs[k]?
    let ack ← m.session.acks[i]?
    let session ← m.session.step (m.cfg q) (.ackArrives i)
    let resets := decide (ack.ackType ≠ .sack) && !m.session.snd.finished && !q.cfg.mibo &&
      decide (q.rtoUs ≠ 0)
    some (s.put k { m with
      session := session, lastActionTime := if resets then s.now else m.lastActionTime }, resets)
  | .timeout none => if s.eventTimeoutRetransmission = some s.now then some ((s.recoverMSG q).1,
      false) else none
  | .timeout (some (k, allowed)) =>
    if s.eventTimeoutRetransmission = some s.now ∧ (s.recoverMSG q).2 = true then
      (s.recoverMSG q).1.getNxtPacket q k allowed
    else none
  | _ => none

def step (q : QpConfig) (s : QueuePair) (ev : QpEvent) : Option QueuePair :=
  match ev with
  | .add size => if h : size < 2 ^ 32 then some { s with msgs := s.msgs ++
      [⟨size, h, {}, s.now⟩] } else none
  | .tick t => if s.now ≤ t ∧ ∀ e ∈ s.eventTimeoutRetransmission, t ≤ e then some { s with now :=
      t } else none
  | .setWin w => some { s with win := w }
  | .other k ev =>
    match ev with
    | .send _ | .ackArrives _ | .timeout => none
    | _ => do
      let m ← s.msgs[k]?
      let session ← m.session.step (m.cfg q) ev
      some (s.put k { m with session := session })
  | .send .. | .ackArrives .. | .timeout _ => do
    let (s, resets) ← s.acted q ev
    if resets then s.resetMSGRTOTime q else some s

/-- The states of the runs all of whose steps satisfy `allowed`. -/
inductive Reachable (q : QpConfig) (allowed : QueuePair → QpEvent → Prop) : QueuePair → Prop where
  | initial (w : ℕ) : Reachable q allowed { win := w }
  | step {s t : QueuePair} {ev : QpEvent} : Reachable q allowed s → allowed s ev →
      s.step q ev = some t → Reachable q allowed t

abbrev Reaches (q : QpConfig) (s : QueuePair) : Prop := Reachable q (fun _ _ => True) s

/-- The run of a list of events, as long as they are `allowed`. -/
def run (q : QpConfig) (allowed : QueuePair → QpEvent → Prop) [∀ s ev, Decidable (allowed s ev)]
    (s : QueuePair) (evs : List QpEvent) : Option QueuePair :=
  evs.foldlM (fun s ev => if allowed s ev then s.step q ev else none) s

theorem reachable_run {q : QpConfig} {allowed : QueuePair → QpEvent → Prop}
    [∀ s ev, Decidable (allowed s ev)]
    {s t : QueuePair} {evs : List QpEvent} (start : Reachable q allowed s)
    (ends : run q allowed s evs = some t) : Reachable q allowed t := by
  induction evs generalizing s with
  | nil =>
    cases ends
    exact start
  | cons ev rest ih =>
    obtain ⟨mid, first, ends⟩ := Option.bind_eq_some_iff.mp ((List.foldlM_cons ..).symm.trans ends)
    split at first
    · rename_i ok
      exact ih (.step start ok first) ends
    · cases first

end QueuePair

end Rdma

end Pyrrha
