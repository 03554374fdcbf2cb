import Pyrrha.Buffer.Upstream

/-!
The flow table of BFC: which queue `MatchQ` gives a packet, and why the packets of a flow leave a
port in the order in which they came to it, whatever queues the flow is given in between.
-/

namespace Pyrrha
open Lib

namespace Buffer

variable {n : ℕ} {cfg : Config n} {s t : State n}

/-! ### MatchQ -/

/-- What `MatchQ` reads besides the table: the set `usedQ` of `GetUsableQ` (queues with packets,
paused and sticky ones as the settings have it), `rand()`, and whether the entry has been idle for
longer than it is sticky. -/
structure QueueChoice where
  usedQ : ℕ → Bool
  random : ℕ
  expired : Bool

/-- `SwitchMmu::GetUsableQ`: the first queue from 1 on that is not in use. -/
def getUsableQ (usedQ : ℕ → Bool) : ℕ :=
  ((List.range queueNum).tail.find? fun i => !usedQ i).getD queueNum

/-- A switch with the `q_assign` of its flow table. -/
structure Flows (n : ℕ) where
  switch : State n
  qAssign : Fin n → ℕ → ℕ

namespace Flows

/-- The BFC part of `MatchQ`, from the queue `MatchDefaultQ` names. -/
def matchQ (f : Flows n) (idx : Fin n) (qIndex fid : ℕ) (c : QueueChoice) : ℕ × (Fin n → ℕ → ℕ) :=
  if qIndex = 0 then (0, f.qAssign)
  else if f.switch.flowTb idx fid = none ∨
    (f.switch.flowTb idx fid = some 0 ∧ c.expired = true) then
    let usable := getUsableQ c.usedQ
    let q := if queueNum ≤ usable then c.random % (queueNum - 1) + 1 else usable
    (q, update₂ f.qAssign idx fid q)
  else (f.qAssign idx fid, f.qAssign)

/-- An arrival, with the queue `MatchDefaultQ` names. -/
def arrive (cfg : Config n) (f : Flows n) (p : Packet n) (inDev dev : Fin n) (qIndex : ℕ)
    (ch : Choice) (c : QueueChoice) : Checked (Flows n) :=
  if State.consumes cfg p then .ok f
  else do
    let (q, qAssign) := f.matchQ dev qIndex p.fid c
    let s ← f.switch.sendToDev cfg inDev dev q p ch
    .ok ⟨s, qAssign⟩

/-- The packets of a flow in queues other than 0 of a port. -/
def member (dev : Fin n) (fid : ℕ) (it : Item n) : Bool :=
  decide (it.q ≠ 0) && it.packet.inDev.isSome && decide (it.dev = dev) &&
    decide (it.packet.fid = fid)

/-- The runs of a switch without link failures, with the packets that have come to their queues and
those that have left them. -/
inductive Run (cfg : Config n) : Flows n → List (Item n) → List (Item n) → Prop where
  | initial (qAssign : Fin n → ℕ → ℕ) : Run cfg ⟨{}, qAssign⟩ [] []
  | arrive {f g : Flows n} {came left : List (Item n)} {p : Packet n} {inDev dev : Fin n}
      {qIndex : ℕ} {ch : Choice}
      {c : QueueChoice} : Run cfg f came left → f.arrive cfg p inDev dev qIndex ch c = .ok g →
      Run cfg g (came ++ g.switch.held.drop f.switch.held.length) left
  | transmit {f : Flows n} {t : State n} {came left : List (Item n)} {k : ℕ} {it : Item n}
      {flowId : Option (Fin n)} :
      Run cfg f came left → f.switch.isFront cfg.pifo .queue k it = true →
        f.switch.linkUp it.dev = true →
      f.switch.dequeueAndTransmit cfg k it flowId = .ok t →
        Run cfg ⟨t, f.qAssign⟩ came (left ++ [it])
  | other {f : Flows n} {t : State n} {came left : List (Item n)} {ev : Event n} :
      Run cfg f came left → (∀ p inDev dev q ch, ev ≠ .arrive p inDev dev q ch) →
        (∀ k it flowId, ev ≠ .transmit k it flowId) →
      ev.LinksStay → f.switch.step cfg ev = .ok t → Run cfg ⟨t, f.qAssign⟩ came left

end Flows

open Flows

theorem member_frame {dev : Fin n} {fid : ℕ} (it : Item n) (frame : it.IsFrame cfg) :
    member dev fid it = false := by
  simp [member, frame.queue]

theorem matchQ_cases (f : Flows n) (idx : Fin n) (qIndex fid : ℕ) (c : QueueChoice) :
    (f.matchQ idx qIndex fid c).1 = 0 ∧ (f.matchQ idx qIndex fid c).2 = f.qAssign ∨
    f.matchQ idx qIndex fid c = (f.qAssign idx fid, f.qAssign) ∨
    ((f.switch.flowTb idx fid).getD 0 = 0 ∧
      (f.matchQ idx qIndex fid c).2 = update₂ f.qAssign idx fid (f.matchQ idx qIndex fid c).1) := by
  unfold Flows.matchQ
  split
  · exact .inl ⟨rfl, rfl⟩
  · split
    · rename_i fresh
      refine .inr (.inr ⟨?_, rfl⟩)
      rcases fresh with none | ⟨empty, -⟩
      · rw [none]
        rfl
      · rw [empty]
        rfl
    · exact .inr (.inl rfl)

/-- The queue of a packet that is not of the highest priority is what the flow table says from then
on. -/
theorem matchQ_assigned (f : Flows n) (idx : Fin n) (qIndex fid : ℕ) (c : QueueChoice)
    (nonzero : (f.matchQ idx qIndex fid c).1 ≠ 0) :
    (f.matchQ idx qIndex fid c).1 = (f.matchQ idx qIndex fid c).2 idx fid := by
  rcases matchQ_cases f idx qIndex fid c with ⟨zero, -⟩ | kept | ⟨-, assigned⟩
  · exact absurd zero nonzero
  · rw [kept]
  · rw [assigned, update₂_same]

theorem Flows.Run.reachable {f : Flows n} {came left : List (Item n)} (run : Run cfg f came left) :
    State.Reachable cfg (fun _ ev => ev.LinksStay) f.switch := by
  induction run with
  | initial qAssign => exact .initial
  | @arrive f g came left p inDev dev qIndex ch c _ call ih =>
    unfold Flows.arrive at call
    split at call
    · cases call
      exact ih
    · obtain ⟨t, arrived, call⟩ := bind_ok call
      cases call
      exact ih.step (show (Event.arrive p inDev dev _ ch).LinksStay from trivial) arrived
  | @transmit f t came left k it flowId _ _ _ call ih =>
      exact ih.step (show (Event.transmit k it flowId).LinksStay from trivial) call
  | other _ _ _ stays call ih => exact ih.step stays call

/-- The flow table counts the packets of each flow, of which there are never too many for it. -/
theorem flow_exact (mode : cfg.fcMode = .bfc)
    (reach : State.Reachable cfg (fun _ ev => ev.LinksStay) s)
    (room : s.refused = false) (dev : Fin n) (fid : ℕ) :
    (s.flowTb dev fid).getD 0 = tally (fun _ => 1) (member dev fid) s.held ∧
      tally (fun _ => 1) (member dev fid) s.held ≤ 2 ^ 31 := by
  have direct : cfg.fcMode ≠ .floodgate := by rw [mode]; nofun
  obtain ⟨sound, kept⟩ := direct_kept (a := .flow dev fid) direct (fun _ _ => trivial) reach
  have same : tally (Account.flow dev fid).weight ((Account.flow dev fid).test cfg) s.held =
      tally (fun _ => 1) (member dev fid) s.held := by
    refine tally_congr fun it _ => ?_
    simp only [Account.test, member, mode, decide_true, Bool.true_and]
    grind
  have bound : tally (fun _ => 1) (member dev fid) s.held ≤ 2 ^ 31 := by
    refine le_trans ?_ (sound.queued.le dev)
    rw [sound.queued.total_eq]
    refine (tally_le_tally fun it inHeld passes => ⟨?_, size_pos it⟩)
    simp only [member, Bool.and_eq_true, decide_eq_true_eq] at passes
    rcases sound.items it inHeld with frame | stored
    · exact absurd frame.queue (by simpa using passes.1.1.1)
    · simp [Item.queuedOn, (direct_stored direct stored).1, passes.1.2]
  have exact_ := keeps_exact (kept room) (by rw [same]; omega)
  rw [same] at exact_
  exact ⟨exact_, bound⟩

/-! ### Order -/

theorem filter_eraseIdx_first {α : Type} {P : α → Bool} {l : List α} {k : ℕ} {x : α}
    (at_k : l[k]? = some x) (passes : P x = true) (first : ∀ y ∈ l.take k, P y = false) :
    l.filter P = x :: (l.eraseIdx k).filter P := by
  induction l generalizing k with
  | nil => cases at_k
  | cons y rest ih =>
    cases k with
    | zero =>
      cases at_k
      simp [passes]
    | succ k =>
      have skipped : P y = false := first y (by simp)
      rw [List.eraseIdx_cons_succ, List.filter_cons_of_neg (by simp [skipped]),
        List.filter_cons_of_neg (by simp [skipped])]
      exact ih (List.getElem?_cons_succ.symm.trans at_k) fun z early => first z (by simp [early])

theorem filter_eraseIdx_other {α : Type} {P : α → Bool} {l : List α} {k : ℕ} {x : α}
    (at_k : l[k]? = some x) (fails : P x = false) : (l.eraseIdx k).filter P = l.filter P := by
  induction l generalizing k with
  | nil => cases at_k
  | cons y rest ih =>
    cases k with
    | zero =>
      cases at_k
      simp [fails]
    | succ k =>
      rw [List.eraseIdx_cons_succ, List.filter_cons, List.filter_cons,
        ih (List.getElem?_cons_succ.symm.trans at_k)]

/-- The packets of each flow are in the queue the flow table says, and have left in the order they
came. -/
structure Ordered (f : Flows n) (came left : List (Item n)) : Prop where
  queue : ∀ it ∈ f.switch.held, ∀ dev fid, member dev fid it = true → it.q = f.qAssign dev fid
  order : ∀ dev fid, came.filter (member dev fid) =
    left.filter (member dev fid) ++ f.switch.held.filter (member dev fid)

theorem isFront_first {k : ℕ} {it : Item n} (front : s.isFront false .queue k it = true) :
    ∀ x ∈ s.held.take k, x.place = .queue → x.dev = it.dev → x.q ≠ it.q := by
  simp only [State.isFront, Bool.false_or, Bool.and_eq_true, Bool.not_eq_true', List.any_eq_false,
    decide_eq_true_eq] at front
  intro x early place dev same
  exact front.2 x early ⟨⟨place, dev⟩, same⟩

theorem ordered_transmit (direct : cfg.fcMode ≠ .floodgate) (dropTail : cfg.pifo = false)
    {f : Flows n}
    {came left : List (Item n)} (sound : Sound cfg f.switch) (h : Ordered f came left) {k : ℕ}
    {it : Item n} (front : f.switch.isFront cfg.pifo .queue k it = true)
    (same : WithFrames cfg (f.switch.held.eraseIdx k) t.held) :
    Ordered ⟨t, f.qAssign⟩ came (left ++ [it]) := by
  have found := (isFront_queue front).found
  rw [dropTail] at front
  constructor
  · intro x inHeld dev fid passes
    obtain ⟨frames, held, areFrames⟩ := same
    rw [held] at inHeld
    rcases List.mem_append.mp inHeld with old | new
    · exact h.queue x (List.mem_of_mem_eraseIdx old) dev fid passes
    · rw [member_frame x (areFrames x new)] at passes
      cases passes
  · intro dev fid
    rw [filter_withFrames same member_frame, h.order dev fid, List.filter_append, List.append_assoc]
    cases passes : member dev fid it with
    | false =>
      rw [filter_eraseIdx_other found passes, List.filter_cons_of_neg (by simp [passes]),
        List.filter_nil, List.nil_append]
    | true =>
      have first : ∀ y ∈ f.switch.held.take k, member dev fid y = false := by
        intro y early
        by_contra also
        rw [Bool.not_eq_false] at also
        have inHeld := List.mem_of_mem_take early
        have queueIt := h.queue it (List.mem_of_getElem? found) dev fid passes
        have queueY := h.queue y inHeld dev fid also
        simp only [member, Bool.and_eq_true, decide_eq_true_eq] at passes also
        rcases sound.items y inHeld with frame | stored
        · exact absurd frame.queue (by simpa using also.1.1.1)
        · exact isFront_first front y early (direct_stored direct stored).1
            (also.1.2.trans passes.1.2.symm) (queueY.trans queueIt.symm)
      rw [filter_eraseIdx_first found passes first, List.filter_cons_of_pos passes, List.filter_nil,
        List.singleton_append]

theorem ordered_arrive (mode : cfg.fcMode = .bfc) {f : Flows n} {came left : List (Item n)}
    (h : Ordered f came left) (counted : ∀ dev fid, (f.switch.flowTb dev fid).getD 0 =
      tally (fun _ => 1) (member dev fid) f.switch.held)
    {p : Packet n} {inDev dev : Fin n} {qIndex : ℕ} {ch : Choice} {c : QueueChoice}
    (call : f.switch.sendToDev cfg inDev dev (f.matchQ dev qIndex p.fid c).1 p ch = .ok t) :
    Ordered ⟨t, (f.matchQ dev qIndex p.fid c).2⟩
      (came ++ t.held.drop f.switch.held.length) left := by
  have direct : cfg.fcMode ≠ .floodgate := by rw [mode]; nofun
  have assigned := matchQ_assigned f dev qIndex p.fid c
  -- a flow is given another queue only when none of its packets is stored
  have kept : ∀ it ∈ f.switch.held, ∀ i fid, member i fid it = true →
      it.q = (f.matchQ dev qIndex p.fid c).2 i fid := by
    intro it inHeld i fid passes
    rw [h.queue it inHeld i fid passes]
    rcases matchQ_cases f dev qIndex p.fid c with ⟨-, same⟩ | same | ⟨empty, renamed⟩
    · rw [same]
    · rw [same]
    · rw [renamed, update₂_apply]
      split
      · rename_i here
        rw [counted] at empty
        have one : 1 ≤ tally (fun _ => 1) (member dev p.fid) f.switch.held :=
          le_tally (w := fun _ => 1) inHeld (here.1 ▸ here.2 ▸ passes)
        omega
      · rfl
  generalize f.matchQ dev qIndex p.fid c = m at call assigned kept ⊢
  obtain ⟨q, qAssign⟩ := m
  rcases held_sendToDev direct call with ⟨frames, held, areFrames⟩ | ⟨l,
    ⟨frames, rfl, areFrames⟩, held⟩
  · have none : ∀ i fid, frames.filter (member i fid) = [] := fun i fid =>
      List.filter_eq_nil_iff.mpr fun it isIn => by simp [member_frame it (areFrames it isIn)]
    constructor
    · intro it inHeld i fid passes
      rw [held] at inHeld
      rcases List.mem_append.mp inHeld with old | new
      · exact kept it old i fid passes
      · rw [member_frame it (areFrames it new)] at passes
        cases passes
    · intro i fid
      rw [held, List.drop_left, List.filter_append, List.filter_append, none, List.append_nil,
        List.append_nil]
      exact h.order i fid
  · have none : ∀ i fid, frames.filter (member i fid) = [] := fun i fid =>
      List.filter_eq_nil_iff.mpr fun it isIn => by simp [member_frame it (areFrames it isIn)]
    constructor
    · intro it inHeld i fid passes
      rw [held, List.append_assoc] at inHeld
      rcases List.mem_append.mp inHeld with old | new
      · exact kept it old i fid passes
      · rcases List.mem_append.mp new with frame | entry
        · rw [member_frame it (areFrames it frame)] at passes
          cases passes
        · rw [List.mem_singleton] at entry
          subst entry
          simp only [member, Packet.entry, marked_fid, Bool.and_eq_true,
            decide_eq_true_eq] at passes
          obtain ⟨⟨⟨nonzero, -⟩, here⟩, flow⟩ := passes
          have flow : p.fid = fid := flow
          rw [← of_decide_eq_true here, ← flow]
          exact assigned (of_decide_eq_true nonzero)
    · intro i fid
      rw [held, List.append_assoc, List.drop_left]
      simp only [List.filter_append, none, List.nil_append]
      rw [h.order i fid, List.append_assoc]

theorem transmit_pops (notIsolating : cfg.fcMode ≠ .congestionIsolation) {k : ℕ} {it : Item n}
    {flowId : Option (Fin n)} (front : s.isFront cfg.pifo .queue k it = true)
    (up : s.linkUp it.dev = true) (call : s.dequeueAndTransmit cfg k it flowId = .ok t) :
    WithFrames cfg (s.held.eraseIdx k) t.held := by
  unfold State.dequeueAndTransmit at call
  rw [front, up, decide_eq_true notIsolating, Bool.or_true, Bool.and_true, Bool.and_true,
    if_pos rfl] at call
  rcases switchNotifyDequeue_cases call with ⟨-, rfl⟩ | ⟨-, inDev, -, -, -, quiet⟩
  · exact withFrames_refl _
  · obtain ⟨frames, held, areFrames⟩ := quiet.held
    rw [(dischargeAll_booked _ _ _ _).held] at held
    exact ⟨frames, held, areFrames⟩

theorem ordered_run (mode : cfg.fcMode = .bfc) (dropTail : cfg.pifo = false) {f : Flows n}
    {came left : List (Item n)}
    (run : Run cfg f came left) (room : f.switch.refused = false) : Ordered f came left := by
  have direct : cfg.fcMode ≠ .floodgate := by rw [mode]; nofun
  induction run with
  | initial qAssign => exact ⟨fun _ inHeld => absurd inHeld List.not_mem_nil, fun _ _ => rfl⟩
  | @arrive f g came left p inDev dev qIndex ch c before call ih =>
    unfold Flows.arrive at call
    split at call
    · cases call
      rw [List.drop_length, List.append_nil]
      exact ih room
    · obtain ⟨t, arrived, call⟩ := bind_ok call
      cases call
      have earlier := refused_sendToDev arrived room
      exact ordered_arrive mode (ih earlier)
        (fun i fid => (flow_exact mode before.reachable earlier i fid).1) arrived
  | @transmit f t came left k it flowId before front up call ih =>
    have sound := direct_sound direct before.reachable
    exact ordered_transmit direct dropTail sound (ih (refused_transmit sound call room)) front
      (transmit_pops (by rw [mode]; nofun) front up call)
  | @other f t came left ev before arrival departure stays call ih =>
    have sound := direct_sound direct before.reachable
    have same := (held_other sound mode arrival departure (fun dev limited loss => by
      rw [loss] at stays
      exact stays) call)
    have earlier := ih (refused_step sound call room)
    refine ⟨fun it inHeld dev fid passes => ?_, fun dev fid => ?_⟩
    · rw [show (⟨t, f.qAssign⟩ : Flows n).switch.held = f.switch.held from same.1] at inHeld
      exact earlier.queue it inHeld dev fid passes
    · rw [show (⟨t, f.qAssign⟩ : Flows n).switch.held = f.switch.held from same.1]
      exact earlier.order dev fid

/-- BFC with drop-tail queues: the flow table counts the packets of each flow in the queues of each
port, can lose each of them, has them all in `q_assign`, and they leave in the order they came; in
runs in which no queue refuses a packet. -/
theorem flow_table_ordered (mode : cfg.fcMode = .bfc) (dropTail : cfg.pifo = false) {f : Flows n}
    {came left : List (Item n)} (run : Run cfg f came left) (room : f.switch.refused = false)
    (dev : Fin n) (fid : ℕ) :
    (f.switch.flowTb dev fid).getD 0 = tally (fun _ => 1) (member dev fid) f.switch.held ∧
      tally (fun _ => 1) (member dev fid) f.switch.held ≤ 2 ^ 31 ∧
      (∀ it ∈ f.switch.held, member dev fid it = true →
        0 < (f.switch.flowTb dev fid).getD 0 ∧ it.q = f.qAssign dev fid) ∧
      came.filter (member dev fid) = left.filter (member dev fid) ++
        f.switch.held.filter (member dev fid) := by
  obtain ⟨counted, bound⟩ := flow_exact mode run.reachable room dev fid
  have ordered := ordered_run mode dropTail run room
  refine ⟨counted, bound, fun it inHeld passes => ⟨?_, ordered.queue it inHeld dev fid passes⟩,
    ordered.order dev fid⟩
  have one : 1 ≤ tally (fun _ => 1) (member dev fid) f.switch.held :=
    le_tally (w := fun _ => 1) inHeld passes
  rw [counted]
  exact one

def allFree : QueueChoice := ⟨fun _ => false, 0, false⟩

/-- A packet of `size + 1` bytes of flow 0 that asks for the pause of queue 3 of the upstream of
port 1. -/
def Flows.flagged (room : Fin 100001) (f : Flows 3) (size : Fin 10000) : Checked (Flows 3) :=
  f.arrive (bfcConfig room) (flaggedPacket size) 1 2 1 ⟨.pass, true⟩ allFree

/-- Two packets come in, and the first one leaves: the other one is counted, in the queue the flow
has been assigned. -/
theorem flow_table_two : ∃ (f : Flows 3) (came left : List (Item 3)), f.qAssign 2 0 = 1 ∧
    f.switch.held.countP (member 2 0) = 1 ∧ (f.switch.flowTb 2 0).getD 0 = 1 ∧
    (left.filter (member 2 0)).map Item.size = [1000] ∧ (came.filter (member 2 0)).map Item.size =
    [1000, 500] ∧
    came.filter (member 2 0) = left.filter (member 2 0) ++ f.switch.held.filter (member 2 0) := by
  have ends : ((Flows.flagged 100000 ⟨{}, fun _ _ => 0⟩ 999).toOption.any fun f =>
      (Flows.flagged 100000 f 499).toOption.any fun g => (g.switch.held[1]?).any fun it =>
        (g.switch.dequeueAndTransmit (bfcConfig 100000) 1 it none).toOption.any fun t =>
          decide (g.switch.isFront (bfcConfig 100000).pifo .queue 1 it = true ∧
            g.switch.linkUp it.dev = true ∧
            t.refused = false ∧ g.qAssign 2 0 = 1 ∧ t.held.countP (member 2 0) = 1 ∧
              (t.flowTb 2 0).getD 0 = 1 ∧
            ([it].filter (member 2 0)).map Item.size = [1000] ∧
            ((f.switch.held ++ g.switch.held.drop f.switch.held.length).filter
              (member 2 0)).map Item.size = [1000, 500])) = true := by decide +kernel
  obtain ⟨f, first, tests⟩ := State.any_ok ends
  obtain ⟨g, second, tests⟩ := State.any_ok tests
  obtain ⟨it, -, tests⟩ := (Option.any_eq_true ..).mp tests
  obtain ⟨t, leaves, facts⟩ := State.any_ok tests
  obtain ⟨front, up, room, queue, held, counted, gone, both⟩ := of_decide_eq_true facts
  have run :=
    Flows.Run.transmit (.arrive (.arrive (.initial fun _ _ => 0) first) second) front up leaves
  exact ⟨⟨t, g.qAssign⟩, _, _, queue, held, counted, gone, both,
    (flow_table_ordered rfl rfl run room 2 0).2.2.2⟩

/-- The flow table keeps counting a packet that its queue has refused. -/
theorem refused_counted : ∃ f : Flows 3, ∃ came : List (Item 3), (bfcConfig 100).fcMode = .bfc ∧
    (bfcConfig 100).pifo = false ∧ Run (bfcConfig 100) f came [] ∧
    (f.switch.flowTb 2 0).getD 0 = 2 ∧
    f.switch.held.countP (member 2 0) = 1 := by
  have ends : ((Flows.flagged 100 ⟨{}, fun _ _ => 0⟩ 59).toOption.any fun f =>
      (Flows.flagged 100 f 49).toOption.any fun g => decide ((g.switch.flowTb 2 0).getD 0 = 2 ∧
        g.switch.held.countP (member 2 0) = 1)) = true := by decide +kernel
  obtain ⟨f, first, tests⟩ := State.any_ok ends
  obtain ⟨g, second, facts⟩ := State.any_ok tests
  obtain ⟨two, one⟩ := of_decide_eq_true facts
  exact ⟨g, _, rfl, rfl, .arrive (.arrive (.initial fun _ _ => 0) first) second, two, one⟩

end Buffer

end Pyrrha
