import Pyrrha.Rdma.Coverage
import Pyrrha.Rdma.Session

/-!
What an event does to the sender, and what it does to the receiver and the packets in flight, so
that an invariant of one of them needs no look at the other.
-/

namespace Pyrrha
open Lib

namespace Rdma

variable {cfg : Config}

/-- What the sender becomes by an event. -/
inductive Move (cfg : Config) (s : Session) : Event → Sender → Prop where
  | held {allowed : Bool} : ((s.snd.shouldSndData cfg).2 && allowed) = false →
      Move cfg s (.send allowed) (s.snd.shouldSndData cfg).1
  | sent {u t : Sender} {pkt : DataPacket} : s.snd.shouldSndData cfg = (u, true) →
      u.getNxtPacket cfg = some (t, pkt) → Move cfg s (.send true) t
  | recovered : Move cfg s .timeout (s.snd.recoverMSG cfg)
  | timer {seq : ℕ} : seq ∈ s.snd.timers →
      Move cfg s (.irnTimer seq) (s.snd.irnTimerHandler cfg seq)
  | acked {k : ℕ} {ack : AckPacket} {t : Sender} : s.acks[k]? = some ack →
      s.snd.receive cfg ack = some t → Move cfg s (.ackArrives k) t
  | kept {ev : Event} : Move cfg s ev s.snd

theorem send_cases {s t : Session} {allowed : Bool} (h : s.send cfg allowed = some t) :
    (((s.snd.shouldSndData cfg).2 && allowed) = false ∧
      t = { s with snd := (s.snd.shouldSndData cfg).1 }) ∨
      allowed = true ∧ ∃ u snd pkt, s.snd.shouldSndData cfg = (u, true) ∧
        u.getNxtPacket cfg = some (snd, pkt) ∧
        t = { s with snd := snd, data := s.data ++ [pkt] } := by
  unfold Session.send at h
  cases should : s.snd.shouldSndData cfg with
  | mk u ready =>
    simp only [should] at h
    split at h
    · rename_i goes
      rw [Bool.and_eq_true] at goes
      obtain ⟨rfl, rfl⟩ := goes
      obtain ⟨⟨snd, pkt⟩, sent, h⟩ := Option.bind_eq_some_iff.mp h
      cases h
      exact .inr ⟨rfl, u, snd, pkt, rfl, sent, rfl⟩
    · rename_i stays
      cases h
      exact .inl ⟨Bool.eq_false_of_not_eq_true stays, rfl⟩

theorem step_move {s t : Session} {ev : Event} (h : s.step cfg ev = some t) :
    Move cfg s ev t.snd := by
  cases ev with
  | send allowed =>
    rcases send_cases h with ⟨stays, rfl⟩ | ⟨rfl, u, snd, pkt, ready, sent, rfl⟩
    · exact .held stays
    · exact .sent ready sent
  | timeout =>
    cases h
    exact .recovered
  | irnTimer seq =>
    simp only [Session.step] at h
    split at h
    · rename_i armed
      cases h
      exact .timer armed
    · cases h
  | dataArrives k expired =>
    obtain ⟨pkt, -, h⟩ := Option.bind_eq_some_iff.mp h
    obtain ⟨r, -, h⟩ := Option.bind_eq_some_iff.mp h
    cases h
    exact .kept
  | ackArrives k =>
    obtain ⟨ack, here, h⟩ := Option.bind_eq_some_iff.mp h
    obtain ⟨snd, received, h⟩ := Option.bind_eq_some_iff.mp h
    cases h
    exact .acked here received
  | loseData k =>
    cases h
    exact .kept
  | loseAck k =>
    cases h
    exact .kept
  | duplicateData k =>
    obtain ⟨pkt, -, rfl⟩ := Option.map_eq_some_iff.mp h
    exact .kept
  | duplicateAck k =>
    obtain ⟨ack, -, rfl⟩ := Option.map_eq_some_iff.mp h
    exact .kept

/-- What an event does to the receiver and the packets in flight: the network loses and repeats
them, or the sender adds one, or one arrives. -/
inductive Travel (cfg : Config) (s t : Session) : Event → Prop where
  | carried {ev : Event} : t.rcv = s.rcv → t.data ⊆ s.data → t.acks ⊆ s.acks → Travel cfg s t ev
  | sent {u : Sender} {pkt : DataPacket} : s.snd.shouldSndData cfg = (u, true) →
      u.getNxtPacket cfg = some (t.snd, pkt) → t.rcv = s.rcv → t.data = s.data ++ [pkt] →
        t.acks = s.acks →
      Travel cfg s t (.send true)
  | arrived {pkt : DataPacket} {k : ℕ} {expired : Bool} {ack : Option AckPacket} : pkt ∈ s.data →
      s.rcv.receiveUdp cfg pkt expired = some (t.rcv, ack) → t.data ⊆ s.data →
        t.acks = s.acks ++ ack.toList →
      Travel cfg s t (.dataArrives k expired)

theorem append_copy {α : Type} {l : List α} {k : ℕ} {x : α} (here : l[k]? = some x) :
    l ++ [x] ⊆ l := by
  intro y member
  rcases List.mem_append.mp member with old | new
  · exact old
  · rw [List.mem_singleton.mp new]
    exact List.mem_of_getElem? here

theorem step_travel {s t : Session} {ev : Event} (h : s.step cfg ev = some t) :
    Travel cfg s t ev := by
  have same : ∀ {α : Type} (l : List α), l ⊆ l := List.Subset.refl
  have fewer : ∀ {α : Type} (l : List α) (k : ℕ), l.eraseIdx k ⊆ l :=
    fun _ _ _ => List.mem_of_mem_eraseIdx
  cases ev with
  | send allowed =>
    rcases send_cases h with ⟨-, rfl⟩ | ⟨rfl, u, snd, pkt, ready, sent, rfl⟩
    · exact .carried rfl (same _) (same _)
    · exact .sent ready sent rfl rfl rfl
  | timeout =>
    cases h
    exact .carried rfl (same _) (same _)
  | irnTimer seq =>
    simp only [Session.step] at h
    split at h
    · cases h
      exact .carried rfl (same _) (same _)
    · cases h
  | dataArrives k expired =>
    obtain ⟨pkt, arrives, h⟩ := Option.bind_eq_some_iff.mp h
    obtain ⟨⟨r, ack⟩, receive, h⟩ := Option.bind_eq_some_iff.mp h
    cases h
    exact .arrived (List.mem_of_getElem? arrives) receive (fewer _ k) rfl
  | ackArrives k =>
    obtain ⟨ack, -, h⟩ := Option.bind_eq_some_iff.mp h
    obtain ⟨snd, -, h⟩ := Option.bind_eq_some_iff.mp h
    cases h
    exact .carried rfl (same _) (fewer _ k)
  | loseData k =>
    cases h
    exact .carried rfl (fewer _ k) (same _)
  | loseAck k =>
    cases h
    exact .carried rfl (same _) (fewer _ k)
  | duplicateData k =>
    obtain ⟨pkt, here, rfl⟩ := Option.map_eq_some_iff.mp h
    exact .carried rfl (append_copy here) (same _)
  | duplicateAck k =>
    obtain ⟨ack, here, rfl⟩ := Option.map_eq_some_iff.mp h
    exact .carried rfl (same _) (append_copy here)

/-! ### The network and the receiver -/

/-- The receiver and everything in flight agree with the packets that have arrived; IRN sends no
NACK. -/
structure Network (cfg : Config) (s : Session) : Prop where
  rcv : RcvSound cfg s.rcv
  data : ∀ pkt ∈ s.data, Sound cfg pkt
  acks : ∀ ack ∈ s.acks, AckSound cfg s.rcv.checked ack
  kinds : cfg.mode = .irn → ∀ ack ∈ s.acks, ack.ackType ≠ .nack

theorem receiveUdp_kind {r r' : Receiver} {pkt : DataPacket} {expired : Bool}
    {ack : Option AckPacket}
    (mode : cfg.mode = .irn) (h : r.receiveUdp cfg pkt expired = some (r', ack)) :
    ∀ a ∈ ack, a.ackType ≠ .nack := by
  rcases receiveUdp_cases h with ⟨-, -, rfl⟩ | ⟨-, rx, x, nackSeq, -, -, outcome⟩
  · exact fun _ => nofun
  rcases outcome with ⟨-, -, rfl⟩ | ⟨_, -, -, -, x', -, answers, rfl⟩
  · exact fun _ => nofun
  intro a same
  obtain rfl := Option.mem_some_iff.mp same
  unfold RxOperation.ackFor
  rcases answers with rfl | rfl
  · rw [if_neg (by simp)]
    simp
  · rw [if_pos ⟨mode, rfl⟩]
    simp

theorem network_initial (cfg : Config) : Network cfg {} where
  rcv := ⟨fun _ => nofun, fresh_sound cfg [], fun _ => fresh_window cfg⟩
  data _ := nofun
  acks _ := nofun
  kinds _ _ := nofun

theorem network_step {s t : Session} {ev : Event} (fits : Fits cfg) (N : Network cfg s)
    (h : s.step cfg ev = some t) (sends : ∀ u snd pkt, s.snd.shouldSndData cfg = (u, true) →
      u.getNxtPacket cfg = some (snd, pkt) → Sound cfg pkt) :
    Network cfg t := by
  cases step_travel h with
  | carried rcv data acks =>
    refine ⟨rcv ▸ N.rcv, fun pkt member => N.data pkt (data member), fun ack member => ?_,
      fun mode ack member => ?_⟩
    · rw [rcv]
      exact N.acks ack (acks member)
    · exact N.kinds mode ack (acks member)
  | sent ready sent rcv data acks =>
    refine ⟨rcv ▸ N.rcv, fun x member => ?_, ?_, ?_⟩
    · rw [data] at member
      rcases List.mem_append.mp member with old | new
      · exact N.data x old
      · rw [List.mem_singleton.mp new]
        exact sends _ _ _ ready sent
    · rw [rcv, acks]
      exact N.acks
    · rw [acks]
      exact N.kinds
  | @arrived pkt _ expired ack arrives receive data acks =>
    obtain ⟨R, checked, answered⟩ := receiveUdp_sound fits N.rcv (N.data pkt arrives) receive
    refine ⟨R, fun x member => N.data x (data member), fun a member => ?_, fun mode a member => ?_⟩
    all_goals rw [acks] at member
    · rcases List.mem_append.mp member with old | new
      · have before := N.acks a old
        rcases checked with same | more
        · exact same ▸ before
        · exact more ▸ ackSound_append before pkt
      · exact answered a (by simpa using new)
    · rcases List.mem_append.mp member with old | new
      · exact N.kinds mode a old
      · exact receiveUdp_kind mode receive a (by simpa using new)

end Rdma

end Pyrrha
