import Pyrrha.Rdma.Receiver

/-!
One sender, one receiver and the network between them, which loses, repeats and reorders packets.
-/

namespace Pyrrha
open Lib

namespace Rdma

/-- Both ends of a message, with the data packets and acknowledgements in flight. -/
structure Session where
  snd : Sender := {}
  rcv : Receiver := {}
  data : List DataPacket := []
  acks : List AckPacket := []
  deriving DecidableEq

/-- A packet in flight is named by its position. `allowed` stands for rate, window and credit
control, `expired` for the clock. -/
inductive Event where
  | send (allowed : Bool)
  | timeout
  | irnTimer (seq : ℕ)
  | dataArrives (k : ℕ) (expired : Bool)
  | ackArrives (k : ℕ)
  | loseData (k : ℕ)
  | loseAck (k : ℕ)
  | duplicateData (k : ℕ)
  | duplicateAck (k : ℕ)
  deriving DecidableEq

namespace Session

/-- The device asks the sender for a packet. -/
def send (cfg : Config) (s : Session) (allowed : Bool) : Option Session :=
  let (snd, ready) := s.snd.shouldSndData cfg
  if ready && allowed then do
    let (snd, pkt) ← snd.getNxtPacket cfg
    some { s with snd := snd, data := s.data ++ [pkt] }
  else some { s with snd := snd }

def dataArrives (cfg : Config) (s : Session) (k : ℕ) (expired : Bool) : Option Session := do
  let pkt ← s.data[k]?
  let (rcv, ack) ← s.rcv.receiveUdp cfg pkt expired
  some { s with rcv := rcv, data := s.data.eraseIdx k, acks := s.acks ++ ack.toList }

def ackArrives (cfg : Config) (s : Session) (k : ℕ) : Option Session := do
  let ack ← s.acks[k]?
  let snd ← s.snd.receive cfg ack
  some { s with snd := snd, acks := s.acks.eraseIdx k }

def step (cfg : Config) (s : Session) : Event → Option Session
  | .send allowed => s.send cfg allowed
  | .timeout => some { s with snd := s.snd.recoverMSG cfg }
  | .irnTimer seq =>
      if seq ∈ s.snd.timers then some { s with snd := s.snd.irnTimerHandler cfg seq } else none
  | .dataArrives k expired => s.dataArrives cfg k expired
  | .ackArrives k => s.ackArrives cfg k
  | .loseData k => some { s with data := s.data.eraseIdx k }
  | .loseAck k => some { s with acks := s.acks.eraseIdx k }
  | .duplicateData k => s.data[k]?.map fun pkt => { s with data := s.data ++ [pkt] }
  | .duplicateAck k => s.acks[k]?.map fun ack => { s with acks := s.acks ++ [ack] }

/-- The states of the runs all of whose steps satisfy `allowed`. -/
inductive Reachable (cfg : Config) (allowed : Session → Event → Prop) : Session → Prop where
  | initial : Reachable cfg allowed {}
  | step {s t : Session} {ev : Event} : Reachable cfg allowed s → allowed s ev →
      s.step cfg ev = some t → Reachable cfg allowed t

/-- Runs without any condition on their steps. -/
abbrev Reaches (cfg : Config) (s : Session) : Prop := Reachable cfg (fun _ _ => True) s

/-- The run of a list of events, as long as they are `allowed`. -/
def run (cfg : Config) (allowed : Session → Event → Prop) [∀ s ev, Decidable (allowed s ev)]
    (s : Session) (evs : List Event) : Option Session :=
  evs.foldlM (fun s ev => if allowed s ev then s.step cfg ev else none) s

theorem reachable_run {cfg : Config} {allowed : Session → Event → Prop}
    [∀ s ev, Decidable (allowed s ev)]
    {s t : Session} {evs : List Event} (start : Reachable cfg allowed s)
    (ends : run cfg allowed s evs = some t) : Reachable cfg allowed t := by
  induction evs generalizing s with
  | nil =>
    cases ends
    exact start
  | cons ev rest ih =>
    obtain ⟨mid, first, ends⟩ := Option.bind_eq_some_iff.mp ((List.foldlM_cons ..).symm.trans ends)
    split at first
    · rename_i ok
      exact ih (.step start ok first) ends
    · cases first

instance neZero_sizes : NeZero 100 := ⟨by decide⟩

/-- A message of `size` bytes in packets of 10 bytes, every one acknowledged. -/
def smallConfig (mode : Mode) (size : Fin 100) : Config where
  mode := mode
  size := size
  size_lt := by omega
  mtu := 10
  mtu_pos := by decide
  mtu_lt := by decide
  chunk := 1000
  chunk_pos := by decide
  ackInterval := 1
  backto0 := false
  nackReaction := true
  l4Token := false
  hostPerPacketAck := false
  mibo := false

end Session

end Rdma

end Pyrrha
