import Pyrrha.Link.Record

/-!
Two adjacent switches joined by in-order lossless channels. In every run, the pause flag of the
upstream switch and the record of the downstream one agree up to the signals in flight.
-/

namespace Pyrrha
open Lib Switch

variable {n m : ℕ}

/-- The switches at the two ends of a link, and the device of each the link is on. `(uint32_t)-1` is
no device. -/
structure LinkConfig (n m : ℕ) where
  up : Config n
  down : Config m
  upPort : Fin n
  downPort : Fin m
  ports : m ≤ noPort

/-- The switches, and the signals whose frames are on their way between them, oldest first: `wire`
to the upstream one, `back` to the downstream one. A signal in `out` is scheduled and has no frame
yet. -/
structure Link (n m : ℕ) where
  up : Switch n := {}
  down : Switch m := {}
  wire : List CITag := []
  back : List CITag := []

/-- An event of one of the switches, the frame of the oldest scheduled signal is sent, or the oldest
signal on its way is received. -/
inductive LinkEvent (n m : ℕ) where
  | up (ev : Event n)
  | down (ev : Event m)
  | upSends (p : Packet n) (pick : Option (ℕ × ℕ))
  | downSends (p : Packet m) (pick : Option (ℕ × ℕ))
  | upReceives (pick : Option (ℕ × ℕ))
  | downReceives (pick : Option (ℕ × ℕ))

/-- CI frames on `p` are those of the link. -/
def Event.avoids (p : Fin n) : Event n → Bool
  | .receiveCI _ ingress _ => decide (ingress ≠ p)
  | .sendFrame dev f _ => decide (dev ≠ p) || f.header.l3Prot != .ci
  | _ => true

/-- The oldest signal scheduled on device `p` is handed over. -/
def Switch.deliver (s : Switch n) (p : Fin n) : Switch n :=
  { s with out := Function.update s.out p (s.out p).tail }

/-- The event `SendCIPacket` of the oldest signal scheduled on `port`: its frame goes into queue 0
of the device. -/
def Switch.sendSignal (cfg : Config n) (s : Switch n) (port : Fin n) (frame : Packet n)
    (pick : Option (ℕ × ℕ)) : Option (CITag × Switch n) :=
  match s.out port with
  | [] => none
  | tag :: _ =>
    if frame.header.l3Prot = .ci then
      ((s.deliver port).step cfg (.sendFrame port frame pick)).toOption.map fun t => (tag, t)
    else none

/-- Whether the `BEgressQueue` of `port` takes the frame. `SwitchSend` does not look at that. -/
def Switch.takes (cfg : Config n) (s : Switch n) (port : Fin n) (frame : Packet n) : Bool :=
  (s.doEnqueue cfg port frame 0).isSome

namespace Link

variable (L : LinkConfig n m)

def step (l : Link n m) : LinkEvent n m → Option (Link n m)
  | .up ev =>
    if ev.avoids L.upPort then (l.up.step L.up ev).toOption.map fun u =>
      { l with up := u } else none
  | .down ev =>
    if ev.avoids L.downPort then (l.down.step L.down ev).toOption.map fun d =>
      { l with down := d } else none
  | .upSends frame pick => do
    let (tag, u) ← l.up.sendSignal L.up L.upPort frame pick
    some { l with
      up := u, back := if l.up.takes L.up L.upPort frame then l.back ++ [tag] else l.back }
  | .downSends frame pick => do
    let (tag, d) ← l.down.sendSignal L.down L.downPort frame pick
    some { l with
      down := d, wire := if l.down.takes L.down L.downPort frame then l.wire ++ [tag] else l.wire }
  | .upReceives pick => do
    let tag ← l.wire.head?
    let u ← (l.up.receiveCI L.up tag L.upPort pick).toOption
    some { l with up := u, wire := l.wire.tail }
  | .downReceives pick => do
    let tag ← l.back.head?
    let d ← (l.down.receiveCI L.down tag L.downPort pick).toOption
    some { l with down := d, back := l.back.tail }

/-- The signal the downstream switch receives in a step. -/
def received (l : Link n m) : LinkEvent n m → Option CITag
  | .down (.receiveCI tag _ _) => some tag
  | .downReceives _ => l.back.head?
  | _ => none

/-- The states of the runs all of whose steps satisfy `allowed`. -/
inductive Reachable (allowed : Link n m → LinkEvent n m → Prop) : Link n m → Prop where
  | initial : Reachable allowed {}
  | step {l l' : Link n m} {ev : LinkEvent n m} : Reachable allowed l → allowed l ev →
      l.step L ev = some l' → Reachable allowed l'

/-- The downstream switch is not told to pause for, or merge into, a root of its own. -/
def Foreign (l : Link n m) (ev : LinkEvent n m) : Prop :=
  ∀ tag, l.received ev = some tag → ForeignRoot L.down tag

/-- The device of the downstream switch takes the frame of the signal. -/
def Taken (l : Link n m) : LinkEvent n m → Prop
  | .downSends frame _ => l.down.takes L.down L.downPort frame = true
  | _ => True

/-- No signal of the downstream switch is lost on its own device, and none it receives is for a root
of its own. -/
def Lossless (l : Link n m) (ev : LinkEvent n m) : Prop := l.Foreign L ev ∧ l.Taken L ev

/-- The signals on their way to the upstream switch, oldest first. -/
def inFlight (l : Link n m) : List CITag := l.wire ++ l.down.out L.downPort

/-- The flag of the upstream switch for `r` once the signals in flight have arrived. -/
def settled (l : Link n m) (r : Spot) : Bool :=
  (l.inFlight L).foldl (fun b tag => tag.applyTo r b) (l.up.flag L.upPort r)

/-- The tables of both switches are coherent, and what the upstream will know is what is
recorded. -/
structure Coherent (l : Link n m) : Prop where
  upTables : Tables l.up
  upAgrees : StatusAgrees l.up
  upRoots : PortRoots l.up
  downTables : Tables l.down
  downRoots : PortRoots l.down
  noOwn : NoOwnEntry L.down l.down
  names : ∀ tag ∈ l.inFlight L, tag.NamesPort
  settled : ∀ r : Spot, l.settled L r = l.down.recordPaused L.down L.downPort r

theorem deliver_tables {s : Switch n} (T : Tables s) (p : Fin n) : Tables (s.deliver p) :=
  frame_tables T ⟨fun _ => rfl, rfl, fun _ _ h => h, rfl, rfl, rfl, rfl⟩

theorem step_agrees {cfg : Config n} {s t : Switch n} {ev : Event n} (T : Tables s)
    (A : StatusAgrees s) (h : s.step cfg ev = .ok t) : StatusAgrees t :=
  control_step agrees_control T (fun _ _ _ _ => trivial) A h

theorem step_portRoots {cfg : Config n} {s t : Switch n} {ev : Event n} (T : Tables s)
    (P : PortRoots s) (h : s.step cfg ev = .ok t) : PortRoots t :=
  control_step portRoots_control T (fun _ _ _ _ => trivial) P h

theorem sendSignal_ok {cfg : Config n} {s t : Switch n} {port : Fin n} {frame : Packet n}
    {pick : Option (ℕ × ℕ)} {tag : CITag} (h : s.sendSignal cfg port frame pick = some (tag, t)) :
    (∃ rest, s.out port = tag :: rest) ∧ (s.deliver port).step cfg (.sendFrame port frame pick) =
      .ok t := by
  unfold sendSignal at h
  split at h
  · cases h
  rename_i first rest scheduled
  split at h
  · obtain ⟨u, call, same⟩ := Option.map_eq_some_iff.mp h
    cases same
    exact ⟨⟨rest, scheduled⟩, toOption_eq_some.mp call⟩
  · cases h

/-- A signal received on another device, or none, leaves the flags on `p`. -/
theorem step_flag {cfg : Config n} {s t : Switch n} {ev : Event n} {p : Fin n} (T : Tables s)
    (A : StatusAgrees s)
    (others : ∀ tag x pick, ev = .receiveCI tag x pick → x ≠ p) (h : s.step cfg ev = .ok t)
    (r : Spot) : t.flag p r = s.flag p r := by
  have same : t.statusPaused p r = s.statusPaused p r :=
    control_step (status_control p r _) T others rfl h
  rw [flag_status (step_agrees T A h), flag_status A, same]

/-- A signal leaves the flags of its own port as it says, whatever its root. -/
theorem receiveCI_flag {cfg : Config n} {s t : Switch n} {tag : CITag} {p : Fin n}
    {pick : Option (ℕ × ℕ)}
    (T : Tables s) (A : StatusAgrees s) (P : PortRoots s) (names : tag.NamesPort)
    (h : s.receiveCI cfg tag p pick = .ok t) (r : Spot) :
    t.flag p r = tag.applyTo r (s.flag p r) := by
  have step : s.step cfg (.receiveCI tag p pick) = .ok t := h
  by_cases none : r.portId = noPort
  · rw [flag_noPort (step_tables T step) (step_portRoots T P step) none, flag_noPort T P none,
      applyTo_noPort names none]
  · rw [flag_status (step_agrees T A step), flag_status A, receiveCI_status T none h]

variable {L}

theorem up_coherent {l : Link n m} {u : Switch n} {ev : Event n} (back : List CITag)
    (C : Coherent L l) (others : ∀ tag x pick, ev = .receiveCI tag x pick → x ≠ L.upPort)
    (h : l.up.step L.up ev = .ok u) :
    Coherent L { l with up := u, back := back } := by
  refine ⟨step_tables C.upTables h, step_agrees C.upTables C.upAgrees h,
    step_portRoots C.upTables C.upRoots h, C.downTables, C.downRoots, C.noOwn, C.names, fun r => ?_⟩
  have before := C.settled r
  unfold Link.settled at before ⊢
  rw [step_flag C.upTables C.upAgrees others h]
  exact before

/-- A step of the downstream switch alone: what it sends is what it records. -/
theorem down_coherent {l : Link n m} {d : Switch m} {ev : Event m} (back : List CITag)
    (C : Coherent L l) (foreign : ∀ tag p pick, ev = .receiveCI tag p pick → ForeignRoot L.down tag)
    (h : l.down.step L.down ev = .ok d) : Coherent L { l with down := d, back := back } := by
  obtain ⟨noOwn, roots, sent, out, names, apply⟩ :=
    told_step L.ports L.downPort C.downTables C.noOwn C.downRoots foreign h
  have flight : ({ l with down := d, back := back } : Link n m).inFlight L =
      l.inFlight L ++ sent := by
    simp only [inFlight, out, List.append_assoc]
  refine ⟨C.upTables, C.upAgrees, C.upRoots, step_tables C.downTables h, roots, noOwn, ?_,
    fun r => ?_⟩
  · intro tag member
    rw [flight] at member
    exact (List.mem_append.mp member).elim (C.names tag) (names tag)
  · have before := C.settled r
    unfold Link.settled at before ⊢
    rw [flight, List.foldl_append, apply, ← before]

/-- The frame of a scheduled signal that is taken: the signal stays in flight. -/
theorem handed_coherent {l : Link n m} {tag : CITag} {rest : List CITag} (C : Coherent L l)
    (scheduled : l.down.out L.downPort = tag :: rest) :
    Coherent L { l with down := l.down.deliver L.downPort, wire := l.wire ++ [tag] } := by
  have flight : ({ l with down := l.down.deliver L.downPort, wire := l.wire ++ [tag] } :
    Link n m).inFlight L = l.inFlight L := by
    simp [inFlight, deliver, scheduled]
  refine ⟨C.upTables, C.upAgrees, C.upRoots, deliver_tables C.downTables _, C.downRoots, C.noOwn,
    ?_, fun r => ?_⟩
  · rw [flight]
    exact C.names
  · have before := C.settled r
    unfold Link.settled at before ⊢
    rw [flight]
    exact before

theorem upReceives_coherent {l : Link n m} {u : Switch n} {tag : CITag} {pick : Option (ℕ × ℕ)}
    (C : Coherent L l) (head : l.wire.head? = some tag)
    (h : l.up.receiveCI L.up tag L.upPort pick = .ok u) :
    Coherent L { l with up := u, wire := l.wire.tail } := by
  have step : l.up.step L.up (.receiveCI tag L.upPort pick) = .ok u := h
  obtain ⟨rest, wire⟩ := List.head?_eq_some_iff.mp head
  have flight : l.inFlight L =
      tag :: ({ l with up := u, wire := l.wire.tail } : Link n m).inFlight L := by
    simp [inFlight, wire]
  have names := C.names
  rw [flight] at names
  refine ⟨step_tables C.upTables step, step_agrees C.upTables C.upAgrees step,
    step_portRoots C.upTables C.upRoots step, C.downTables, C.downRoots, C.noOwn,
    fun tag' member => names tag' (List.mem_cons_of_mem tag member), fun r => ?_⟩
  have before := C.settled r
  unfold Link.settled at before ⊢
  rw [flight, List.foldl_cons] at before
  rw [receiveCI_flag C.upTables C.upAgrees C.upRoots (names tag List.mem_cons_self) h]
  exact before

theorem step_coherent {l l' : Link n m} {ev : LinkEvent n m} (C : Coherent L l)
    (allowed : l.Lossless L ev) (h : l.step L ev = some l') : Coherent L l' := by
  obtain ⟨foreign, taken⟩ := allowed
  cases ev with
  | up ev =>
    simp only [step] at h
    split at h
    · rename_i avoids
      obtain ⟨u, call, rfl⟩ := Option.map_eq_some_iff.mp h
      refine up_coherent l.back C ?_ (toOption_eq_some.mp call)
      rintro tag x pick rfl
      exact of_decide_eq_true avoids
    · cases h
  | down ev =>
    simp only [step] at h
    split at h
    · obtain ⟨d, call, rfl⟩ := Option.map_eq_some_iff.mp h
      refine down_coherent l.back C ?_ (toOption_eq_some.mp call)
      rintro tag p pick rfl
      exact foreign tag rfl
    · cases h
  | upSends frame pick =>
    obtain ⟨⟨tag, u⟩, sent, h⟩ := Option.bind_eq_some_iff.mp h
    cases h
    obtain ⟨-, call⟩ := sendSignal_ok sent
    have delivered : Coherent L { l with up := l.up.deliver L.upPort } :=
      ⟨deliver_tables C.upTables _, C.upAgrees, C.upRoots, C.downTables, C.downRoots, C.noOwn,
        C.names, C.settled⟩
    refine up_coherent (l := { l with up := l.up.deliver L.upPort }) _ delivered ?_ call
    rintro tag x pick' event
    cases event
  | downSends frame pick =>
    obtain ⟨⟨tag, d⟩, sent, h⟩ := Option.bind_eq_some_iff.mp h
    cases h
    obtain ⟨⟨rest, scheduled⟩, call⟩ := sendSignal_ok sent
    have handed := handed_coherent C scheduled
    have taken : l.down.takes L.down L.downPort frame = true := taken
    rw [if_pos taken]
    refine down_coherent l.back handed ?_ call
    rintro tag p pick' event
    cases event
  | upReceives pick =>
    obtain ⟨tag, head, h⟩ := Option.bind_eq_some_iff.mp h
    obtain ⟨u, call, h⟩ := Option.bind_eq_some_iff.mp h
    cases h
    exact upReceives_coherent C head (toOption_eq_some.mp call)
  | downReceives pick =>
    obtain ⟨tag, head, h⟩ := Option.bind_eq_some_iff.mp h
    obtain ⟨d, call, h⟩ := Option.bind_eq_some_iff.mp h
    cases h
    have step : l.down.step L.down (.receiveCI tag L.downPort pick) = .ok d :=
      toOption_eq_some.mp call
    refine down_coherent l.back.tail C ?_ step
    rintro tag' p pick' same
    cases same
    exact foreign tag head

theorem initial_coherent : Coherent L ({} : Link n m) where
  upTables := initial_tables
  upAgrees := fun r e found => by cases found
  upRoots := fun p c r mapped => by cases mapped
  downTables := initial_tables
  downRoots := fun p c r mapped => by cases mapped
  noOwn := fun _ _ => rfl
  names := fun tag member => by simp [inFlight] at member
  settled := fun r => by
    simp [settled, inFlight, flag, getEntry, recordPaused, record]

theorem reachable_coherent {l : Link n m} (h : Reachable L (Lossless L) l) : Coherent L l := by
  induction h with
  | initial => exact initial_coherent
  | step _ allowed call ih => exact step_coherent ih allowed call

/-- The signals in flight bring the flag of the upstream switch to what the downstream one has
recorded; where there is no record, it will not be paused. -/
theorem pause_coherent {l : Link n m} (h : Reachable L (Lossless L) l) (r : Spot) :
    (l.settled L r = true ↔ l.down.record L.down L.downPort r = some true) ∧
      (l.down.record L.down L.downPort r = none → l.settled L r = false) := by
  have settled := (reachable_coherent h).settled r
  constructor
  · rw [settled, recordPaused, decide_eq_true_iff]
  · intro unknown
    rw [settled, recordPaused, unknown]
    rfl

/-! ### Runs on given inputs -/

instance foreign_decidable (l : Link n m) (ev : LinkEvent n m) : Decidable (l.Foreign L ev) :=
  decidable_of_iff (∀ tag ∈ l.received ev, tag.ciType = .pause ∨ tag.ciType = .merge →
    tag.root.switchId ≠ L.down.mId) Iff.rfl

instance taken_decidable (l : Link n m) : (ev : LinkEvent n m) → Decidable (l.Taken L ev)
  | .downSends frame _ => inferInstanceAs (Decidable (l.down.takes L.down L.downPort frame = true))
  | .up _ | .down _ | .upSends _ _ | .upReceives _ | .downReceives _ =>
      inferInstanceAs (Decidable True)

instance lossless_decidable (l : Link n m) (ev : LinkEvent n m) : Decidable (l.Lossless L ev) :=
  inferInstanceAs (Decidable (_ ∧ _))

/-- The run of a list of events, as long as they are `allowed`. -/
def run (allowed : Link n m → LinkEvent n m → Prop) [∀ l ev, Decidable (allowed l ev)]
    (l : Link n m) (evs : List (LinkEvent n m)) : Option (Link n m) :=
  evs.foldlM (fun l ev => if allowed l ev then l.step L ev else none) l

theorem reachable_run {allowed : Link n m → LinkEvent n m → Prop} [∀ l ev, Decidable (allowed l ev)]
    {l l' : Link n m} {evs : List (LinkEvent n m)} (start : Reachable L allowed l)
    (ends : run (L := L) allowed l evs = some l') : Reachable L allowed l' := by
  induction evs generalizing l with
  | nil =>
    cases ends
    exact start
  | cons ev rest ih =>
    obtain ⟨mid, first, ends⟩ := Option.bind_eq_some_iff.mp ((List.foldlM_cons ..).symm.trans ends)
    split at first
    · rename_i ok
      exact ih (.step start ok first) ends
    · cases first

/-- Two switches of two devices, with the link on device 0 of each. The devices of the downstream
one hold less than 200 bytes. -/
def smallLink : LinkConfig 2 2 where
  up := { smallConfig 2 with mId := 2 }
  down := { smallConfig 2 with maxBytes := 200, maxBytes_le := by decide }
  upPort := 0
  downPort := 0
  ports := by decide

def ciFrame : Packet 2 := { pfcFrame with header := { pfcFrame.header with l3Prot := .ci } }

theorem exists_run {allowed : Link 2 2 → LinkEvent 2 2 → Prop} [∀ l ev, Decidable (allowed l ev)]
    (evs : List (LinkEvent 2 2)) {P : Link 2 2 → Prop} [DecidablePred P]
    (ends : (run (L := smallLink) allowed {} evs).any (fun l => decide (P l)) = true) :
    ∃ l, Reachable smallLink allowed l ∧ P l := by
  obtain ⟨l, ends, facts⟩ := (Option.any_eq_true ..).mp ends
  exact ⟨l, reachable_run .initial ends, of_decide_eq_true facts⟩

/-- The port 1 of the downstream switch congests, and drains. -/
def congests (uid : ℕ) : List (LinkEvent 2 2) :=
  [.down (.sendToDev 1 (dataPacket uid 0 [⟨1, 1⟩]) none),
   .down (.sendToDev 1 (dataPacket (uid + 1) 0 [⟨1, 1⟩]) none)]

def drains : List (LinkEvent 2 2) :=
  [.down (.dequeueAndTransmit 1 (some (1, 0))), .down (.dequeueAndTransmit 1 (some (1, 0)))]

/-- The oldest signal of the downstream switch is sent by the idle device. -/
def downSignals : LinkEvent 2 2 := .downSends ciFrame (some (0, 0))

/-- The upstream switch has been paused and resumed, and is to be paused again. -/
def congestedRun : List (LinkEvent 2 2) :=
  congests 0 ++ [downSignals, .upReceives none] ++ drains ++ [downSignals] ++ congests 2

theorem pause_coherent_congested : ∃ l, Reachable smallLink (Lossless smallLink) l ∧
    (l.wire.length = 1 ∧ (l.down.out 0).length = 1 ∧ l.up.flag 0 ⟨1, 1⟩ = true) ∧
    l.down.record smallLink.down 0 ⟨1, 1⟩ = some true ∧ l.settled smallLink ⟨1, 1⟩ = true := by
  have ends : ∃ l, Reachable smallLink (Lossless smallLink) l ∧
      (l.wire.length = 1 ∧ (l.down.out 0).length = 1 ∧ l.up.flag 0 ⟨1, 1⟩ = true) ∧
      l.down.record smallLink.down 0 ⟨1, 1⟩ = some true :=
        exists_run congestedRun (by decide +kernel)
  obtain ⟨l, reached, flight, recorded⟩ := ends
  exact ⟨l, reached, flight, recorded, (pause_coherent reached ⟨1, 1⟩).1.mpr recorded⟩

/-- The downstream switch is told to pause for its own port 0, then gets packets that cross this
port after leaving on port 1. -/
def ownRootRun : List (LinkEvent 2 2) :=
  [.down (.receiveCI ⟨.pause, ⟨1, 0⟩, 1, ⟨0, 0⟩⟩ 1 none),
   .down (.sendToDev 1 (dataPacket 0 0 [⟨1, 1⟩, ⟨1, 0⟩]) none),
   .down (.sendToDev 1 (dataPacket 1 0 [⟨1, 1⟩, ⟨1, 0⟩]) none)]

/-- The deallocation of the first congestion arrives when the second one has come and gone. -/
def crossedRun : List (LinkEvent 2 2) :=
  congests 0 ++ [downSignals, .upReceives none] ++ drains ++ [downSignals, .upReceives none] ++
    congests 2 ++ drains ++
    [.upSends ciFrame (some (0, 0)), downSignals, .downReceives none, .upReceives none]

/-- Two packets from device 1 fill the device of the link, and port 1 congests: no room for the
frame of the pause. -/
def refusedRun : List (LinkEvent 2 2) :=
  [.down (.sendToDev 0 (dataPacket 4 1 [⟨1, 0⟩]) none),
    .down (.sendToDev 0 (dataPacket 5 1 [⟨1, 0⟩]) none),
   .down (.sendToDev 0 (dataPacket 6 1 [⟨1, 0⟩]) none)] ++ congests 0 ++ [.downSends ciFrame none]

/-- In the first run the upstream switch will be paused and is not recorded as paused; in the second
one it is paused although the downstream switch has already dropped its record; in the third it is
recorded as paused, and the pause is lost. -/
theorem pause_incoherent :
    (∃ l, Reachable smallLink (Taken smallLink) l ∧ l.settled smallLink ⟨1, 0⟩ = true ∧
      l.down.record smallLink.down 0 ⟨1, 0⟩ ≠ some true) ∧
    (∃ l, Reachable smallLink (Lossless smallLink) l ∧
      l.down.record smallLink.down 0 ⟨1, 1⟩ = none ∧ l.up.flag 0 ⟨1, 1⟩ = true) ∧
    ∃ l, Reachable smallLink (Foreign smallLink) l ∧
    l.down.record smallLink.down 0 ⟨1, 1⟩ = some true ∧
      l.inFlight smallLink = [] ∧ l.up.flag 0 ⟨1, 1⟩ = false := by
  refine ⟨exists_run ownRootRun ?_, exists_run crossedRun ?_, exists_run refusedRun ?_⟩
  all_goals decide +kernel

end Link

end Pyrrha
