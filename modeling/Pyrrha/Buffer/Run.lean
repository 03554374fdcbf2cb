import Pyrrha.Buffer.Node

/-! The runs of one switch: any order of arrivals, transmissions, rounds, releases and failures. -/

namespace Pyrrha
open Lib

namespace Buffer

variable {n : ℕ}

/-- What can happen to a switch. A buffered packet is named by its position; routing, queue
assignment and window are choices of the event. -/
inductive Event (n : ℕ) where
  | arrive (p : Packet n) (inDev dev : Fin n) (q : ℕ) (ch : Choice)
  | transmit (k : ℕ) (it : Item n) (flowId : Option (Fin n))
  | hierRR (moves : List (State.Move n))
  | releaseVoq (k : ℕ) (it : Item n) (toCache : Bool)
  | releaseCache (k : ℕ) (it : Item n)
  | sendFrame (dev : Fin n) (p : Packet n)
  | registerQ (dev : Fin n)
  | takeDown (dev : Fin n) (limited : Item n → Bool)

namespace State

def step (cfg : Config n) (s : State n) : Event n → Checked (State n)
  | .arrive p inDev dev q ch => s.sendToDev cfg inDev dev q p ch
  | .transmit k it flowId => s.dequeueAndTransmit cfg k it flowId
  | .hierRR moves => s.doHierQRR cfg moves
  | .releaseVoq k it toCache => .ok (s.releaseVoq cfg k it toCache)
  | .releaseCache k it => .ok (s.releaseCache cfg k it)
  | .sendFrame dev p => .ok (s.sendFrame cfg dev p)
  | .registerQ dev => .ok (s.registerNewQ dev)
  | .takeDown dev limited => .ok (s.takeDown cfg dev limited)

/-- The states of the runs all of whose steps satisfy `allowed`. -/
inductive Reachable (cfg : Config n) (allowed : State n → Event n → Prop) : State n → Prop where
  | initial : Reachable cfg allowed {}
  | step {s t : State n} {ev : Event n} : Reachable cfg allowed s → allowed s ev →
      s.step cfg ev = .ok t → Reachable cfg allowed t

/-- What every allowed step preserves holds in every state of such a run. -/
theorem reachable_induction {cfg : Config n} {allowed : State n → Event n → Prop}
    {I : State n → Prop}
    (start : I {}) (step : ∀ s t ev, I s → allowed s ev → s.step cfg ev = .ok t → I t) {s : State n}
    (reach : Reachable cfg allowed s) : I s := by
  induction reach with
  | initial => exact start
  | step _ ok call ih => exact step _ _ _ ih ok call

theorem Reachable.mono {cfg : Config n} {allowed allowed' : State n → Event n → Prop}
    (weaker : ∀ s ev, allowed s ev → allowed' s ev) {s : State n}
    (reach : Reachable cfg allowed s) : Reachable cfg allowed' s := by
  induction reach with
  | initial => exact .initial
  | step _ ok call ih => exact .step ih (weaker _ _ ok) call

def run (cfg : Config n) (s : State n) (evs : List (Event n)) : Checked (State n) :=
  evs.foldlM (fun s ev => s.step cfg ev) s

theorem reachable_run {cfg : Config n} {allowed : State n → Event n → Prop} {s t : State n}
    {evs : List (Event n)} (start : Reachable cfg allowed s) (ok : ∀ s, ∀ ev ∈ evs, allowed s ev)
    (ends : run cfg s evs = .ok t) : Reachable cfg allowed t :=
  foldlM_preserves (fun ev hev _ _ before call => .step before (ok _ ev hev) call) start ends

theorem any_ok {α : Type} {x : Checked α} {p : α → Bool} (h : x.toOption.any p = true) :
    ∃ a, x = .ok a ∧ p a = true := by
  cases x with
  | error e => cases h
  | ok a => exact ⟨a, rfl, h⟩

theorem run_step (cfg : Config n) (evs : List (Event n)) (ev : Event n)
    (before after : State n → Bool)
    (h : ((run cfg {} evs).toOption.any fun s => before s && (s.step cfg ev).toOption.any after) =
      true) :
    ∃ s t, run cfg {} evs = .ok s ∧ s.step cfg ev = .ok t ∧ before s = true ∧ after t = true := by
  obtain ⟨s, ends, tests⟩ := any_ok h
  obtain ⟨first, second⟩ := Bool.and_eq_true _ _ ▸ tests
  obtain ⟨t, call, last⟩ := any_ok second
  exact ⟨s, t, ends, call, first, last⟩

end State

/-- A switch with two ports, 1 and 2, without PFC-controlled queues. -/
def smallConfig (mode : FcMode) : Config 3 where
  fcMode := mode
  pfcIngressCtrls := fun _ => false
  pfcMode := fun _ => .pg
  pfcThStatic := fun _ => 0
  pfcAShift := fun _ => 3
  headroom := fun _ => 10000
  bufferSize := 100000
  bufferSize_lt := by decide
  maxQlen := fun _ => 2 ^ 31 - 1
  maxBytes := 100000
  maxBytes_le := by decide
  checkSharedBuffer := false
  pifo := false
  useSwitchwin := decide (mode = .floodgate)
  usePortWin := false
  isLastHop := fun _ => false
  voqPauseMode := .buffer
  voqPauseTh := fun _ _ => 0
  voqResumeTh := fun _ _ => 0
  pfcSize := 64
  pfcSize_pos := by decide
  pfcSize_lt := by decide

instance neZero_sizes : NeZero 10000 := ⟨by decide⟩

instance neZero_rooms : NeZero 100001 := ⟨by decide⟩

theorem room_le (room : Fin 100001) : room.val ≤ 2 ^ 31 := by omega

/-- A packet of `size + 1` bytes for host 7. -/
def smallPacket (prot : ProtType) (size : Fin 10000) : Packet 3 where
  l3Prot := prot
  dst := ⟨7, by decide⟩
  size := size + 1
  size_pos := by omega
  size_lt := by omega
  inDev := none
  fid := 0
  upstreamQ := 0
  counterIncr := false

end Buffer

end Pyrrha
