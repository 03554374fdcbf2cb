import Pyrrha.Rdma.Moves

/-!
What a sender has in flight, and how the window of its queue pair holds it back. In go-back-N a
recovery goes back to `snd_una`, and acknowledgements of what was sent before it can still come.
-/

namespace Pyrrha
open Lib

namespace Rdma

variable {cfg : Config}

/-! ### The window -/

/-- `GetWin`, of a queue pair with the window `win`, its current and its maximal rate. -/
def getWin (win : ℕ) (varWin : Bool) (rate maxRate : ℕ) : ℕ :=
  if win = 0 then 0
  else if varWin then
    let w := win * rate % 2 ^ 64 / maxRate
    if w = 0 then 1 else w
  else win

/-- `IsWinBound`, for a window `w` of `GetWin`. -/
def isWinBound (enableQpWinBound : Bool) (w inflight : ℕ) : Bool :=
  enableQpWinBound && decide (w ≠ 0) && decide (w ≤ inflight)

namespace SndIrn

/-- `GetOnTheFly` of the IRN window: it counts packets. -/
def getOnTheFly (p : ℕ) (irn : SndIrn) : ℕ :=
  irn.states.length - (List.range irn.states.length).countP fun i =>
    match irn.getIrnState p ((irn.baseSeq + i * p) % 2 ^ 32) with
    | .ack | .nack => true
    | .unack | .undef => false

end SndIrn

namespace SndOperation

/-- The bytes of a set of packets as `GetOnTheFly` counts them: the last packet can be shorter. -/
def psnBytes (cfg : Config) (psns : OrderedSet) : ℕ :=
  let rest := cfg.size % cfg.mtu
  if rest ≠ 0 then
    add32 ((psns.elems.length + 2 ^ 32 - 1) * cfg.mtu)
      (if cfg.size - rest ∈ psns then rest else cfg.mtu)
  else psns.elems.length * cfg.mtu % 2 ^ 32

/-- `GetOnTheFly`; `none` is its assert. -/
def getOnTheFly (cfg : Config) (m : SndOperation) : Option ℕ :=
  match cfg.mode with
  | .irn => some (m.irn.getOnTheFly cfg.mtu)
  | .goBackN => some ((m.sndNxt + 2 ^ 64 - m.sndUna) % 2 ^ 64)
  | .disOrder =>
    let result := psnBytes cfg m.sentPsn
    if m.timeouted then
      let timeoutSent := psnBytes cfg m.timeoutPsn
      if result < timeoutSent then none else some (result - timeoutSent)
    else some result

end SndOperation

/-- `ShouldSndData` without tokens, when the rate of the queue pair lets it send. -/
def Sender.admits (cfg : Config) (enableQpWinBound : Bool) (w : ℕ) (s : Sender) :
    Option (Sender × Bool) :=
  match s.shouldSndData cfg with
  | (s, false) => some (s, false)
  | (s, true) =>
      (s.msg.getOnTheFly cfg).map fun inflight => (s, !isWinBound enableQpWinBound w inflight)

/-- The payload of the packet that starts at `q`. -/
def Config.payloadAt (cfg : Config) (q : ℕ) : ℕ := min cfg.mtu (cfg.size - q)

/-! ### Go-back-N -/

/-- What an acknowledgement of `seq` acknowledges: with `m_backto0`, a chunk at a time. -/
def Config.ackedSeq (cfg : Config) (seq : ℕ) : ℕ :=
  if cfg.backto0 then seq / cfg.chunk * cfg.chunk else seq

/-- An acknowledgement covers what has been sent since the last recovery at most, and the sequence
numbers of a packet that is sent end below 2^32. -/
def Event.Orderly (cfg : Config) (s : Session) : Event → Prop
  | .send allowed =>
      (s.snd.shouldSndData cfg).2 = true → allowed = true → s.snd.msg.sndNxt + cfg.mtu < 2 ^ 32
  | .ackArrives k =>
      ∀ ack ∈ s.acks[k]?, s.snd.finished = false → cfg.mibo = false → cfg.ackInterval ≠ 0 →
      cfg.ackedSeq ack.seq ≤ s.snd.msg.sndNxt
  | _ => True

instance (cfg : Config) (s : Session) (ev : Event) : Decidable (ev.Orderly cfg s) :=
  match ev with
  | .send allowed =>
      inferInstanceAs (Decidable ((s.snd.shouldSndData cfg).2 = true → allowed = true →
      s.snd.msg.sndNxt + cfg.mtu < 2 ^ 32))
  | .ackArrives k =>
      inferInstanceAs (Decidable (∀ ack ∈ s.acks[k]?, s.snd.finished = false → cfg.mibo = false →
      cfg.ackInterval ≠ 0 → cfg.ackedSeq ack.seq ≤ s.snd.msg.sndNxt))
  | .timeout | .irnTimer _ | .dataArrives .. | .loseData _ | .loseAck _ | .duplicateData _
  | .duplicateAck _ => isTrue trivial

/-- The bytes from `snd_una` to `snd_nxt` are outstanding. -/
structure Outstanding (cfg : Config) (m : SndOperation) : Prop where
  order : m.sndUna ≤ m.sndNxt
  within : m.sndNxt ≤ cfg.size

theorem outstanding_congr {m m' : SndOperation} (before : Outstanding cfg m)
    (nxt : m'.sndNxt = m.sndNxt) (una : m'.sndUna = m.sndUna) : Outstanding cfg m' := by
  refine ⟨?_, ?_⟩
  · rw [nxt, una]
    exact before.order
  · rw [nxt]
    exact before.within

theorem outstanding_recover {m : SndOperation} (mode : cfg.mode = .goBackN)
    (before : Outstanding cfg m) : Outstanding cfg (m.recover cfg) := by
  have other : ¬cfg.mode = .disOrder := by simp [mode]
  have back : (m.recover cfg).sndNxt = m.sndUna := if_neg other
  have kept : (m.recover cfg).sndUna = m.sndUna := rfl
  refine ⟨?_, ?_⟩
  · rw [back, kept]
  · rw [back]
    exact before.order.trans before.within

theorem outstanding_acknowledge {m : SndOperation} (mode : cfg.mode = .goBackN)
    (before : Outstanding cfg m) {ack : ℕ}
    (sent : ack ≤ m.sndNxt) (isLast : Bool) : Outstanding cfg (m.acknowledge cfg ack isLast) := by
  unfold SndOperation.acknowledge
  rw [if_neg (by simp [mode])]
  split
  · exact ⟨sent, before.within⟩
  · exact before

theorem outstanding_send {s t : Sender} {pkt : DataPacket} (mode : cfg.mode = .goBackN)
    (before : Outstanding cfg s.msg) (left : s.msg.sndNxt < cfg.size)
    (fits : s.msg.sndNxt + cfg.mtu < 2 ^ 32)
    (h : s.getNxtPacket cfg = some (t, pkt)) : Outstanding cfg t.msg := by
  have order := before.order
  have size_lt := cfg.size_lt
  unfold Sender.getNxtPacket Sender.nextPacket SndOperation.getNxtPayload SndOperation.nextPsn at h
  rw [if_neg (by simp [mode])] at h
  simp only [mode, ne_eq, reduceCtorEq, not_false_eq_true, if_true, Option.bind_eq_bind,
    Option.bind_some, Option.some.injEq, Prod.mk.injEq] at h
  obtain ⟨rfl, -⟩ := h
  have seq : s.msg.sndNxt % 2 ^ 32 = s.msg.sndNxt := Nat.mod_eq_of_lt (by omega)
  have ends : add32 s.msg.sndNxt cfg.mtu = s.msg.sndNxt + cfg.mtu := add32_exact fits
  simp only [seq, ends, if_true]
  split
  · rename_i last
    have bytes : sub32 cfg.size s.msg.sndNxt = cfg.size - s.msg.sndNxt :=
      sub32_exact size_lt left.le
    rw [bytes]
    have whole : s.msg.sndNxt + (cfg.size - s.msg.sndNxt) = cfg.size := by omega
    rw [whole]
    exact ⟨order.trans before.within, le_refl _⟩
  · rename_i more
    exact ⟨order.trans (Nat.le_add_right _ _), (not_le.mp more).le⟩

theorem shouldSndData_counters (cfg : Config) (s : Sender) :
    (s.shouldSndData cfg).1.msg.sndNxt = s.msg.sndNxt ∧ (s.shouldSndData cfg).1.msg.sndUna =
      s.msg.sndUna := by
  unfold Sender.shouldSndData
  dsimp only
  split
  · exact ⟨rfl, rfl⟩
  split
  · split <;> exact ⟨rfl, rfl⟩
  · exact ⟨rfl, rfl⟩

theorem shouldSndData_left {s : Sender} (mode : cfg.mode = .goBackN)
    (ready : (s.shouldSndData cfg).2 = true) : s.msg.sndNxt < cfg.size := by
  unfold Sender.shouldSndData at ready
  split at ready
  · cases ready
  · rename_i peeked
    simp only [Sender.peek, mode, SndOperation.getBytesLeft, reduceCtorEq, false_and, decide_false,
      Bool.false_and,
      Bool.or_false, if_false, Bool.not_eq_true', Bool.and_eq_true, Bool.not_eq_false,
        decide_eq_true_eq] at peeked
    omega

theorem irnTimerHandler_counters (cfg : Config) (s : Sender) (seq : ℕ) :
    (s.irnTimerHandler cfg seq).msg.sndNxt = s.msg.sndNxt ∧ (s.irnTimerHandler cfg seq).msg.sndUna =
      s.msg.sndUna := by
  unfold Sender.irnTimerHandler
  dsimp only
  split <;> exact ⟨rfl, rfl⟩

/-- Whether the sender looks at acknowledgements. -/
def Sender.Takes (cfg : Config) (s : Sender) : Prop := s.finished = false ∧ cfg.mibo = false ∧
    cfg.ackInterval ≠ 0

instance (cfg : Config) (s : Sender) : Decidable (s.Takes cfg) := by
  unfold Sender.Takes
  infer_instance

/-- What holds after an acknowledgement, and after a recovery that a NACK causes, holds after
`Receive`. -/
theorem receive_keeps {P : SndOperation → Prop} {s t : Sender} {ack : AckPacket}
    (mode : cfg.mode ≠ .irn) (ignored : ¬s.Takes cfg → P s.msg)
    (acknowledged : s.Takes cfg → P (s.msg.acknowledge cfg (cfg.ackedSeq ack.seq) ack.last))
    (recovered : ack.ackType = .nack → cfg.nackReaction = true → ∀ m, P m → P (m.recover cfg))
    (h : s.receive cfg ack = some t) : P t.msg := by
  have acked : s.finished = false → cfg.mibo = false → P (s.takeAck cfg ack).msg := by
    intro active plain
    unfold Sender.takeAck
    split
    · rename_i interval
      exact ignored fun takes => takes.2.2 interval
    rename_i interval
    have after := acknowledged ⟨active, plain, interval⟩
    unfold Config.ackedSeq at after
    generalize s.msg.acknowledge cfg
      (if cfg.backto0 then ack.seq / cfg.chunk * cfg.chunk else ack.seq) ack.last = m at after ⊢
    dsimp only
    split
    · exact after
    · exact after
  have received : s.receiveAck cfg ack = some t → P t.msg := by
    intro h
    unfold Sender.receiveAck at h
    split at h
    · rename_i done
      cases h
      exact ignored fun takes => by simp [takes.1] at done
    rename_i active
    split at h
    · rename_i once
      split at h
      · cases h
        exact ignored fun takes => by simp [takes.2.1] at once
      · cases h
    rename_i plain
    have after := acked (Bool.eq_false_of_not_eq_true active) (Bool.eq_false_of_not_eq_true plain)
    dsimp only at h
    split at h
    · rename_i nack
      have back := recovered nack.1 nack.2 _ after
      unfold Sender.moveToSending at h
      split at h
      · cases h
        exact back
      split at h
      · cases h
      · cases h
        exact back
    · cases h
      exact after
  unfold Sender.receive at h
  split at h
  · exact received h
  · exact received h
  · rw [Sender.receiveSack, if_pos mode] at h
    cases h

theorem outstanding_receive {s t : Sender} {ack : AckPacket} (mode : cfg.mode = .goBackN)
    (before : Outstanding cfg s.msg)
    (sent : s.finished = false → cfg.mibo = false → cfg.ackInterval ≠ 0 →
      cfg.ackedSeq ack.seq ≤ s.msg.sndNxt)
    (h : s.receive cfg ack = some t) : Outstanding cfg t.msg := by
  refine receive_keeps (by simp [mode]) (fun _ => before) (fun takes => ?_) (fun _ _ _ => ?_) h
  · exact outstanding_acknowledge mode before (sent takes.1 takes.2.1 takes.2.2) ack.last
  · exact outstanding_recover mode

/-! ### Runs -/

theorem outstanding_step {s : Session} {t : Sender} {ev : Event} (mode : cfg.mode = .goBackN)
    (before : Outstanding cfg s.snd.msg) (orderly : ev.Orderly cfg s) (move : Move cfg s ev t) :
    Outstanding cfg t.msg := by
  obtain ⟨nxt, una⟩ := shouldSndData_counters cfg s.snd
  cases move with
  | held stays => exact outstanding_congr before nxt una
  | @sent u _ pkt ready sent =>
    have left := shouldSndData_left mode (by rw [ready])
    have fits : s.snd.msg.sndNxt + cfg.mtu < 2 ^ 32 := orderly (by rw [ready]) rfl
    rw [ready] at nxt una
    refine outstanding_send mode (outstanding_congr before nxt una) ?_ ?_ sent
    · rw [nxt]
      exact left
    · rw [nxt]
      exact fits
  | recovered =>
    unfold Sender.recoverMSG
    split
    · exact before
    · exact outstanding_recover mode before
  | timer armed =>
    obtain ⟨nxt, una⟩ := irnTimerHandler_counters cfg s.snd _
    exact outstanding_congr before nxt una
  | @acked k ack _ here received =>
      exact outstanding_receive mode before (orderly ack here) received
  | kept => exact before

theorem outstanding_reachable {s : Session} (mode : cfg.mode = .goBackN)
    (reach : Session.Reachable cfg (fun s ev => ev.Orderly cfg s) s) :
    Outstanding cfg s.snd.msg := by
  induction reach with
  | initial => exact ⟨le_refl _, Nat.zero_le _⟩
  | step _ orderly h before => exact outstanding_step mode before orderly (step_move h)

/-- What the counters of a sender are for: the bytes in flight are counted without wrapping around,
a packet starts in the message, and a window holds nothing back while nothing is in flight. -/
structure FlightSound (cfg : Config) (m : SndOperation) : Prop extends Outstanding cfg m where
  onTheFly : m.getOnTheFly cfg = some (m.sndNxt - m.sndUna)
  starts : ∀ seq m', m.nextPsn cfg = some (seq, m') → seq ≤ cfg.size
  unbound : m.sndNxt ≤ m.sndUna → ∀ enabled w inflight, m.getOnTheFly cfg = some inflight →
    isWinBound enabled w inflight = false

theorem flightSound (mode : cfg.mode = .goBackN) {m : SndOperation} (counters : Outstanding cfg m) :
    FlightSound cfg m := by
  have order := counters.order
  have within := counters.within
  have size_lt := cfg.size_lt
  have inflight : m.getOnTheFly cfg = some (m.sndNxt - m.sndUna) := by
    unfold SndOperation.getOnTheFly
    rw [mode]
    have exact : (m.sndNxt + 2 ^ 64 - m.sndUna) % 2 ^ 64 = m.sndNxt - m.sndUna := by omega
    exact congrArg some exact
  have starts : ∀ seq m', m.nextPsn cfg = some (seq, m') → seq ≤ cfg.size := by
    intro seq m' picked
    unfold SndOperation.nextPsn at picked
    rw [if_pos (by simp [mode])] at picked
    obtain ⟨rfl, -⟩ := Prod.mk.inj (Option.some.inj picked)
    exact (Nat.mod_le _ _).trans within
  refine ⟨counters, inflight, starts, fun none enabled w bytes read => ?_⟩
  rw [inflight] at read
  obtain rfl := Option.some.inj read
  rw [Nat.sub_eq_zero_of_le none, isWinBound]
  cases enabled with
  | false => rfl
  | true =>
    rw [Bool.true_and, Bool.and_eq_false_iff]
    rcases Nat.eq_zero_or_pos w with zero | pos
    · exact .inl (decide_eq_false (not_not.mpr zero))
    · exact .inr (decide_eq_false (Nat.not_le.mpr pos))

/-- While no acknowledgement overtakes a recovery, the outstanding bytes of go-back-N are
well-formed. -/
theorem outstanding_wellFormed {s : Session} (mode : cfg.mode = .goBackN)
    (reach : Session.Reachable cfg (fun s ev => ev.Orderly cfg s) s) : FlightSound cfg s.snd.msg :=
  flightSound mode (outstanding_reachable mode reach)

/-- A recovery goes back to 0, and the acknowledgement of what has been sent again comes. -/
def recoveredRun : List Event :=
  [.send true, .send true, .timeout, .send true, .dataArrives 0 false, .ackArrives 0]

theorem outstanding_wellFormed_recovered : ∃ s : Session, s.snd.msg.sndUna = 10 ∧
    s.snd.msg.timeouted = true ∧
    FlightSound (Session.smallConfig .goBackN 30) s.snd.msg := by
  have ends : ∃ s, Session.run (Session.smallConfig .goBackN 30)
      (fun s ev => ev.Orderly (Session.smallConfig .goBackN 30) s) {} recoveredRun = some s ∧
      s.snd.msg.sndUna = 10 ∧ s.snd.msg.timeouted = true := by
    refine ⟨_, Option.get_mem (?_ : Option.isSome _), ?_⟩ <;> decide
  obtain ⟨s, ends, una, recovered⟩ := ends
  exact ⟨s, una, recovered, outstanding_wellFormed rfl (Session.reachable_run .initial ends)⟩

/-- Two packets arrive, the sender recovers, and then the acknowledgement of both comes. -/
def overtakenRecovery : List Event :=
  [.send true, .send true, .dataArrives 0 false, .dataArrives 0 false, .timeout, .ackArrives 1]

/-- `snd_una` is beyond `snd_nxt`: nothing is in flight, the difference wraps around and every
window is too small. -/
theorem outstanding_lost : ∃ s, Session.Reaches (Session.smallConfig .goBackN 30) s ∧
    s.snd.finished = false ∧
    s.snd.msg.sndNxt < s.snd.msg.sndUna ∧ s.snd.msg.getOnTheFly (Session.smallConfig .goBackN 30) =
      some (2 ^ 64 - 20) ∧
    isWinBound true 1000 (2 ^ 64 - 20) = true := by
  have ends : ∃ s, Session.run (Session.smallConfig .goBackN 30) (fun _ _ => True)
    {} overtakenRecovery = some s ∧ s.snd.finished = false ∧ s.snd.msg.sndNxt < s.snd.msg.sndUna ∧
      s.snd.msg.getOnTheFly (Session.smallConfig .goBackN 30) = some (2 ^ 64 - 20) := by
    refine ⟨_, Option.get_mem (?_ : Option.isSome _), ?_⟩ <;> decide
  obtain ⟨s, ends, active, beyond, wraps⟩ := ends
  exact ⟨s, Session.reachable_run .initial ends, active, beyond, wraps, by decide⟩

end Rdma

end Pyrrha
