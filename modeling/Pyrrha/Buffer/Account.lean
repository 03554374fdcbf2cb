import Pyrrha.Lib.Ledger
import Pyrrha.Buffer.Effect

/-!
The unsigned counters a switch keeps of what it buffers, as accounts of one kind: each is meant to
be the total weight of the buffered packets that pass a test of its own. One law covers them all, on
every path a packet takes: in, out, from queue to queue, and through VOQ and egress cache.
-/

namespace Pyrrha
open Lib

namespace Buffer

variable {n : ℕ} {cfg : Config n} {s t u : State n}

/-- An entry of `egress_bytes`, `m_bytes`, `m_flow_tb`, `m_pause_counter`, `m_buffering_bytes`,
`m_buffering_egress_bytes`, `VOQ::GetTotalBytes`, `m_buffering` and `m_egress_cache_bytes`. -/
inductive Account (n : ℕ) where
  | egress (dev : Fin n) (q : ℕ)
  | bytes (inDev dev : Fin n) (q : ℕ)
  | flow (dev : Fin n) (fid : ℕ)
  | pauses (inDev : Fin n) (q : ℕ)
  | dst (d : ℕ)
  | egressDst (dev : Fin n) (d : ℕ)
  | voq
  | voqDst (d : ℕ)
  | cache (dev : Fin n)
  deriving DecidableEq

namespace Account

abbrev counter : Account n → State n → ℕ
  | .egress dev q, s => s.egressBytes dev q
  | .bytes inDev dev q, s => s.bytes inDev dev q
  | .flow dev fid, s => (s.flowTb dev fid).getD 0
  | .pauses inDev q, s => s.pauseCounter inDev q
  | .dst d, s => s.bufferingBytes d
  | .egressDst dev d, s => s.bufferingEgressBytes dev d
  | .voq, s => s.voqBytes
  | .voqDst d, s => s.buffering d
  | .cache dev, s => s.egressCacheBytes dev

/-- What a packet weighs: BFC counts packets, all others bytes. -/
abbrev weight : Account n → Item n → ℕ
  | .flow _ _, _ | .pauses _ _, _ => 1
  | _, it => it.size

/-- The packets an account is about. Only BFC and VOQ_DSTPFC keep theirs, of queues other than 0. -/
def test (cfg : Config n) : Account n → Item n → Bool
  | .egress dev q, it => it.packet.inDev.isSome && decide (dev = it.dev) && decide (q = it.q)
  | .bytes inDev dev q, it =>
    it.counted && decide (some inDev = it.packet.inDev) && decide (dev = it.dev) &&
      decide (q = it.q)
  | .flow dev fid, it =>
      decide (cfg.fcMode = .bfc) && decide (it.q ≠ 0) && it.packet.inDev.isSome &&
    decide (dev = it.dev) && decide (fid = it.packet.fid)
  | .pauses inDev q, it =>
      decide (cfg.fcMode = .bfc) && decide (it.q ≠ 0) && it.packet.counterIncr &&
    decide (some inDev = it.packet.inDev) && decide (q = it.packet.upstreamQ)
  | .dst d, it => decide (cfg.fcMode = .voqDstPfc) && decide (it.q ≠ 0) && it.packet.inDev.isSome &&
    decide (d = it.packet.dst)
  | .egressDst dev d, it =>
      decide (cfg.fcMode = .voqDstPfc) && decide (it.q ≠ 0) && it.packet.inDev.isSome &&
    decide (dev = it.dev) && decide (d = it.packet.dst)
  | .voq, it => decide (it.place = .voq)
  | .voqDst d, it => decide (it.place = .voq) && decide (d = it.packet.dst)
  | .cache dev, it => decide (it.place = .cache) && decide (dev = it.dev)

/-- The account is right, as far as 32 bits go. -/
def Kept (cfg : Config n) (s : State n) (a : Account n) : Prop :=
  Keeps (2 ^ 32) (a.counter s) a.weight (a.test cfg) s.held

theorem weight_le (a : Account n) (it : Item n) : a.weight it ≤ it.size := by
  have pos := size_pos it
  cases a <;> simp only [weight] <;> omega

theorem weight_lt (a : Account n) (it : Item n) : a.weight it ≤ 2 ^ 32 := by
  have below := weight_le a it
  have small := size_lt it
  omega

theorem test_frame (a : Account n) {it : Item n} (frame : it.IsFrame cfg) :
    a.test cfg it = false := by
  cases a <;> simp [test, frame.inDev, frame.place]

/-! ### What the primitive updates do to an account -/

variable (a : Account n)

theorem counter_quiet (h : Quiet cfg s t) : a.counter t = a.counter s := by
  cases a <;> simp only [counter, h.egressBytes, h.bytes, h.flows, h.pauseCounter, h.bufferingBytes,
    h.bufferingEgressBytes, h.voqBytes, h.buffering, h.egressCacheBytes]

theorem kept_quiet (h : Quiet cfg s t) (before : a.Kept cfg s) : a.Kept cfg t := by
  obtain ⟨frames, held, areFrames⟩ := h.held
  rw [Kept, counter_quiet a h, held]
  exact keeps_skip before fun it member => test_frame a (areFrames it member)

theorem counter_chargeIngress (inDev : Fin n) (q : ℕ) (p : Packet n) :
    a.counter (s.chargeIngress cfg inDev q p) = a.counter s := by
  simp only [State.chargeIngress, State.updateIngressAdmission]
  split
  · split
    · cases a <;> rfl
    · split <;> cases a <;> rfl
  · rfl

theorem counter_updateIngressAdmission (port : Fin n) (idx psize : ℕ) :
    a.counter (s.updateIngressAdmission cfg port idx psize) = a.counter s := by
  simp only [State.updateIngressAdmission]
  split
  · cases a <;> rfl
  · split <;> cases a <;> rfl

theorem counter_releaseIngress (inDev : Fin n) (q : ℕ) (p : Packet n) :
    a.counter (s.releaseIngress cfg inDev q p) = a.counter s := by
  simp only [State.releaseIngress, State.removeFromIngressAdmission]
  split
  · cases a <;> simp only [counter]
  · rfl

theorem counter_updateEgressAdmission (dev : Fin n) (q psize : ℕ) :
    a.counter (s.updateEgressAdmission dev q psize) =
      if a = .egress dev q then add32 (a.counter s) psize else a.counter s := by
  simp only [State.updateEgressAdmission]
  cases a <;> simp only [counter, reduceCtorEq, if_false, egress.injEq, update₂_apply]
  split
  · rename_i here
    rw [here.1, here.2]
  · rfl

theorem counter_subEgress (dev : Fin n) (q psize : ℕ) : a.counter (s.subEgress dev q psize) =
    if a = .egress dev q then sub32 (a.counter s) psize else a.counter s := by
  simp only [State.subEgress]
  cases a <;> simp only [counter, reduceCtorEq, if_false, egress.injEq, update₂_apply]
  split
  · rename_i here
    rw [here.1, here.2]
  · rfl

theorem counter_addBytes (inDev dev : Fin n) (q psize : ℕ) :
    a.counter (s.addBytes inDev dev q psize) =
    if a = .bytes inDev dev q then add32 (a.counter s) psize else a.counter s := by
  simp only [State.addBytes]
  cases a <;> simp only [counter, reduceCtorEq, if_false, bytes.injEq]
  rename_i inDev' dev' q'
  by_cases same : inDev' = inDev
  · rw [if_pos same, update₂_apply, same]
    simp only [true_and]
    split
    · rename_i here
      rw [here.1, here.2]
    · rfl
  · rw [if_neg same, if_neg fun all => same all.1]

theorem counter_subBytes (inDev dev : Fin n) (q psize : ℕ) :
    a.counter (s.subBytes inDev dev q psize) =
    if a = .bytes inDev dev q then sub32 (a.counter s) psize else a.counter s := by
  simp only [State.subBytes]
  cases a <;> simp only [counter, reduceCtorEq, if_false, bytes.injEq]
  rename_i inDev' dev' q'
  by_cases same : inDev' = inDev
  · rw [if_pos same, update₂_apply, same]
    simp only [true_and]
    split
    · rename_i here
      rw [here.1, here.2]
    · rfl
  · rw [if_neg same, if_neg fun all => same all.1]

theorem counter_setFlow (dev : Fin n) (fid : ℕ) (size : Option ℕ) :
    a.counter (s.setFlow dev fid size) =
    if a = .flow dev fid then size.getD 0 else a.counter s := by
  simp only [State.setFlow]
  cases a <;> simp only [counter, reduceCtorEq, if_false, flow.injEq, update₂_apply]
  split <;> rfl

theorem counter_setPauseCounter (dev : Fin n) (q count : ℕ) :
    a.counter (s.setPauseCounter dev q count) =
    if a = .pauses dev q then count else a.counter s := by
  simp only [State.setPauseCounter]
  cases a <;> simp only [counter, reduceCtorEq, if_false, pauses.injEq, update₂_apply]

theorem counter_setBuffering (dev : Fin n) (d inAll inDev : ℕ) :
    a.counter (s.setBuffering dev d inAll inDev) =
    if a = .dst d then inAll else if a = .egressDst dev d then inDev else a.counter s := by
  simp only [State.setBuffering]
  cases a <;> simp only [counter, reduceCtorEq, if_false, dst.injEq, egressDst.injEq, update₂_apply,
    Function.update_apply]

/-! ### A packet that comes in -/

theorem kept_counter {it : Item n} (before : a.Kept cfg s) (held : t.held = s.held ++ [it])
    (counter : a.counter t = if a.test cfg it then add32 (a.counter s)
      (a.weight it) else a.counter s) :
    a.Kept cfg t := by
  rw [Kept, counter, held]
  exact keeps_concat before

theorem counter_charge (inDev dev : Fin n) (q : ℕ) (p : Packet n) (admitted : Bool) :
    a.counter (s.charge cfg inDev dev q p admitted) =
      if a = .egress dev q then add32 (a.counter s) p.size else a.counter s := by
  rw [State.charge, counter_updateEgressAdmission]
  cases admitted with
  | false => rw [if_neg Bool.false_ne_true]
  | true => rw [if_pos rfl, counter_chargeIngress]

theorem counter_chargeMode (inDev dev : Fin n) (q : ℕ) (p : Packet n) (bfcPause : Bool) :
    a.counter (s.chargeMode cfg inDev dev q p bfcPause) =
      if q ≠ 0 ∧ cfg.fcMode = .voqDstPfc ∧ (a = .dst p.dst ∨ a = .egressDst dev p.dst) then
        add32 (a.counter s) p.size
      else if q ≠ 0 ∧ cfg.fcMode = .bfc ∧
          (a = .flow dev p.fid ∨ (bfcPause = true ∧ a = .pauses inDev p.upstreamQ)) then add32
          (a.counter s) 1
      else a.counter s := by
  unfold State.chargeMode
  split
  · rename_i zero
    rw [if_neg fun all => all.1 zero, if_neg fun all => all.1 zero]
  · rename_i nonzero
    split
    · rename_i mode
      rw [State.addBuffering, counter_setBuffering]
      cases a <;> simp [nonzero, mode, counter] <;> grind
    · rename_i mode
      cases bfcPause <;> simp only [Bool.false_eq_true, if_true, if_false, counter_setPauseCounter,
        counter_setFlow, setFlow_pauseCounter]
      · cases a <;> simp [nonzero, mode, counter]
        grind
      · cases a <;> simp [nonzero, mode, counter] <;> grind
    · rename_i notVoq notBfc
      rw [if_neg fun all => notVoq all.2.1, if_neg fun all => notBfc all.2.1]

/-- A packet on its way to an output queue is entered in the accounts it belongs to. -/
theorem counter_chargeAll {inDev dev : Fin n} {q : ℕ} {p : Packet n} (known : p.inDev = some inDev)
    (admitted bfcPause : Bool) : a.counter (s.chargeAll cfg inDev dev q p admitted bfcPause) =
      if a.test cfg ⟨dev, q, .queue, true, p.marked cfg q bfcPause⟩ then
        add32 (a.counter s) (a.weight ⟨dev, q, .queue, true, p.marked cfg q bfcPause⟩)
      else a.counter s := by
  rw [State.chargeAll, counter_chargeMode, counter_addBytes, counter_charge]
  cases a with
  | pauses inDev' up =>
    simp only [test, weight, marked_inDev, marked_upstreamQ, known, reduceCtorEq, if_false,
      and_false, or_self, false_or, pauses.injEq]
    by_cases mode : q ≠ 0 ∧ cfg.fcMode = .bfc
    · rw [marked_counterIncr q bfcPause p mode.2 mode.1]
      simp [mode.1, mode.2]
      grind
    · rw [if_neg fun all => mode ⟨all.1, all.2.1⟩, if_neg]
      grind
  | _ => simp [test, weight, known, Item.size] <;> grind

theorem counter_enqueued {dev : Fin n} {q : ℕ} {counted : Bool} {p : Packet n}
    (sent : s.doEnqueue cfg dev q counted p = some t) : a.counter t = a.counter s := by
  obtain ⟨-, rfl⟩ := doEnqueue_cases sent
  cases a <;> simp only [counter]

theorem kept_stored {inDev dev : Fin n} {q : ℕ} {p : Packet n} {admitted bfcPause : Bool}
    (before : a.Kept cfg s) (known : p.inDev = some inDev)
    (quiet : Quiet cfg (s.chargeAll cfg inDev dev q p admitted bfcPause) u)
    (sent : u.doEnqueue cfg dev q true (p.marked cfg q bfcPause) = some t) : a.Kept cfg t := by
  obtain ⟨frames, held, areFrames⟩ := quiet.held
  rw [(chargeAll_booked inDev dev q p admitted bfcPause).held] at held
  have counter := (counter_enqueued a sent).trans ((counter_quiet a quiet).trans
    (counter_chargeAll a known admitted bfcPause))
  obtain ⟨-, same⟩ := doEnqueue_cases sent
  have heldAfter : t.held = s.held ++ frames ++
      [⟨dev, q, .queue, true, p.marked cfg q bfcPause⟩] := by
    rw [same, ← held]
  rw [Kept, counter, heldAfter]
  exact keeps_concat (keeps_skip before fun it member => test_frame a (areFrames it member))

/-- A packet Floodgate holds back is entered in `egress_bytes`, and where it waits. -/
theorem kept_holdVoq {inDev dev : Fin n} {q : ℕ} {p : Packet n} {admitted : Bool}
    (before : a.Kept cfg s) (known : p.inDev = some inDev) (mode : cfg.fcMode = .floodgate) :
    a.Kept cfg ((s.charge cfg inDev dev q p admitted).holdVoq dev q p) := by
  refine kept_counter a before (congrArg (· ++ _) (charge_booked inDev dev q p admitted).held) ?_
  have charged := @counter_charge n cfg s a inDev dev q p admitted
  cases a <;> simp [test, weight, counter, known, mode, Item.size,
    State.holdVoq] at charged ⊢ <;> grind

theorem kept_holdCache {inDev dev : Fin n} {q : ℕ} {p : Packet n} {admitted : Bool}
    (before : a.Kept cfg s) (known : p.inDev = some inDev) (mode : cfg.fcMode = .floodgate) :
    a.Kept cfg ((s.charge cfg inDev dev q p admitted).holdCache dev q p) := by
  refine kept_counter a before (congrArg (· ++ _) (charge_booked inDev dev q p admitted).held) ?_
  have charged := @counter_charge n cfg s a inDev dev q p admitted
  cases a <;> simp [test, weight, counter, known, mode, Item.size,
    State.holdCache] at charged ⊢ <;> grind

/-! ### A packet that goes out -/

/-- The packet leaves an account it has entered: `m_bytes` knows it, and so do the two counters
`SwitchNotifyDequeue` reduces in every `fc_mode`. -/
def Settles (cfg : Config n) : Account n → Item n → Prop
  | .bytes _ _ _, it => it.counted = true
  | .dst _, it | .egressDst _ _, it => it.q = 0 ∨ cfg.fcMode = .voqDstPfc
  | _, _ => True

theorem kept_erased {it : Item n} {k : ℕ} (before : a.Kept cfg s) (at_k : s.held[k]? = some it)
    (held : t.held = s.held.eraseIdx k)
    (counter : a.counter t = if a.test cfg it then sub32 (a.counter s)
      (a.weight it) else a.counter s) :
    a.Kept cfg t := by
  rw [Kept, counter, held]
  exact keeps_eraseIdx before at_k (weight_lt a it)

theorem counter_popQueue (k : ℕ) (it : Item n) : a.counter (s.popQueue k it) = a.counter s := by
  cases a <;> simp only [counter, State.popQueue]

theorem counter_discharge (inDev dev : Fin n) (q : ℕ) (p : Packet n) :
    a.counter (s.discharge cfg inDev dev q p) =
      if a = .egress dev q ∨ a = .bytes inDev dev q ∨
          (q ≠ 0 ∧ (a = .dst p.dst ∨ a = .egressDst dev p.dst)) then sub32 (a.counter s) p.size
      else a.counter s := by
  have known : ∀ b : Account n,
      b.counter
        (((s.releaseIngress cfg inDev q p).subEgress dev q p.size).subBytes inDev dev q p.size) =
        if b = .egress dev q ∨ b = .bytes inDev dev q then sub32 (b.counter s) p.size
          else b.counter s := by
    intro b
    rw [counter_subBytes, counter_subEgress, counter_releaseIngress]
    cases b <;> simp
  simp only [State.discharge]
  generalize ((s.releaseIngress cfg inDev q p).subEgress dev q p.size).subBytes inDev dev q p.size =
    v at known ⊢
  split
  · rename_i nonzero
    have inAll : v.bufferingBytes p.dst = s.bufferingBytes p.dst := by
      simpa [counter] using known (.dst p.dst)
    have inEgress : v.bufferingEgressBytes dev p.dst = s.bufferingEgressBytes dev p.dst := by
      simpa [counter] using known (.egressDst dev p.dst)
    rw [State.subBuffering, counter_setBuffering, known, inAll, inEgress]
    cases a <;> simp [nonzero, counter] <;> grind
  · rename_i zero
    rw [known]
    simp [not_not.mp zero]

theorem counter_dischargeMode (inDev dev : Fin n) (q : ℕ) (p : Packet n) :
    a.counter (s.dischargeMode cfg inDev dev q p) =
      if q ≠ 0 ∧ cfg.fcMode = .bfc ∧
      (a = .flow dev p.fid ∨ (p.counterIncr = true ∧ a = .pauses inDev p.upstreamQ))
        then sub32 (a.counter s) 1 else a.counter s := by
  unfold State.dischargeMode
  split
  · rename_i both
    dsimp only
    rw [setFlow_pauseCounter]
    generalize flowRest : sub32 ((s.flowTb dev p.fid).getD 0) 1 = flows
    generalize pauseRest : sub32 (s.pauseCounter inDev p.upstreamQ) 1 = count
    have flowEntry : sub32 ((Account.flow dev p.fid).counter s) 1 = flows := flowRest
    have pauseEntry : sub32 ((Account.pauses inDev p.upstreamQ).counter s) 1 = count := pauseRest
    have read : a.counter (s.setFlow dev p.fid (some flows)) =
        if a = .flow dev p.fid then sub32 (a.counter s) 1 else a.counter s := by
      rw [counter_setFlow]
      split
      · rename_i here
        rw [here, flowEntry, Option.getD_some]
      · rfl
    split
    · rename_i incr
      rw [counter_setPauseCounter, read]
      by_cases here : a = .pauses inDev p.upstreamQ
      · rw [if_pos here, if_pos ⟨both.1, both.2, .inr ⟨incr, here⟩⟩, here, pauseEntry]
      · rw [if_neg here]
        exact if_congr (by simp [both, here]) rfl rfl
    · rename_i noIncr
      rw [read]
      exact if_congr (by simp [both, noIncr]) rfl rfl
  · rename_i other
    rw [if_neg fun all => other ⟨all.1, all.2.1⟩]

theorem counter_dischargeAll {it : Item n} {inDev : Fin n} (known : it.packet.inDev = some inDev)
    (place : it.place = .queue) (settles : a.Settles cfg it) :
    a.counter (s.dischargeAll cfg inDev it.dev it.q it.packet) =
      if a.test cfg it then sub32 (a.counter s) (a.weight it) else a.counter s := by
  rw [State.dischargeAll, counter_dischargeMode, counter_discharge]
  cases a <;> simp [test, weight, known, place, Settles, Item.size] at settles ⊢ <;> grind

theorem kept_discharged {it : Item n} {k : ℕ} {inDev : Fin n} (before : a.Kept cfg s)
    (front : AtFront s k it) (known : it.packet.inDev = some inDev) (settles : a.Settles cfg it)
    (quiet : Quiet cfg ((s.popQueue k it).dischargeAll cfg inDev it.dev it.q it.packet) t) :
    a.Kept cfg t := by
  refine kept_quiet a quiet (kept_erased a before front.found ?_ ?_)
  · exact (dischargeAll_booked inDev it.dev it.q it.packet).held
  · rw [counter_dischargeAll a known front.place settles, counter_popQueue]

theorem kept_frame {it : Item n} {k : ℕ} (before : a.Kept cfg s) (front : AtFront s k it)
    (frame : it.IsFrame cfg) : a.Kept cfg (s.popQueue k it) := by
  refine kept_erased a before front.found rfl ?_
  rw [test_frame a frame, if_neg Bool.false_ne_true, counter_popQueue]

/-! ### A packet that changes its place -/

/-- A packet the hierarchical round moves leaves the accounts of one queue and enters those of
another. -/
theorem kept_moved {it : Item n} {k nextQ : ℕ} {inDev : Fin n} (before : a.Kept cfg s)
    (front : AtFront s k it) (known : it.packet.inDev = some inDev) (counted : it.counted = true)
    (mode : cfg.fcMode = .congestionIsolation)
    (sent : (((s.popQueue k it).subEgress it.dev it.q it.size).subBytes inDev it.dev it.q
      it.size).doEnqueue cfg it.dev nextQ true it.packet = some u) :
    a.Kept cfg
      ((u.addBytes inDev it.dev nextQ it.size).updateEgressAdmission it.dev nextQ it.size) := by
  have left : a.Kept cfg
      (((s.popQueue k it).subEgress it.dev it.q it.size).subBytes inDev it.dev it.q it.size) := by
    refine kept_erased a before front.found rfl ?_
    rw [counter_subBytes, counter_subEgress, counter_popQueue]
    cases a <;> simp [test, weight, known, counted, mode, front.place]
    all_goals grind
  obtain ⟨-, same⟩ := doEnqueue_cases sent
  refine kept_counter a left (by rw [same]; rfl) ?_
  rw [counter_updateEgressAdmission, counter_addBytes, counter_enqueued a sent]
  cases a <;> simp [test, weight, known, mode, Item.size]
  all_goals grind

/-- The accounts a change of place touches. -/
def IsPlace : Account n → Prop
  | .voq | .voqDst _ | .cache _ => True
  | _ => False

/-- A packet that only waits elsewhere stays in the accounts that do not ask where it waits. -/
theorem kept_elsewhere {it it' : Item n} {k : ℕ} (before : a.Kept cfg s)
    (at_k : s.held[k]? = some it)
    (held : t.held = s.held.eraseIdx k ++ [it']) (counter : a.counter t = a.counter s)
    (test : a.test cfg it' = a.test cfg it) (weight : a.weight it' = a.weight it) :
    a.Kept cfg t := by
  rw [Kept, counter]
  refine keeps_congr before ?_
  rw [held, tally_concat, test, weight]
  exact tally_eraseIdx at_k

theorem kept_exchanged (u : State n) {it it' : Item n} {k : ℕ} (before : a.Kept cfg s)
    (at_k : s.held[k]? = some it) (held : t.held = s.held.eraseIdx k ++ [it'])
    (counter : a.counter u = if a.test cfg it then sub32 (a.counter s)
      (a.weight it) else a.counter s)
    (entered : a.counter t = if a.test cfg it' then add32 (a.counter u)
      (a.weight it') else a.counter u) :
    a.Kept cfg t := by
  have left : a.Kept cfg { u with held := s.held.eraseIdx k } := by
    refine kept_erased a before at_k rfl (Eq.trans ?_ counter)
    cases a <;> rfl
  refine kept_counter a left held (entered.trans ?_)
  cases a <;> rfl

variable {k : ℕ} {it : Item n}

theorem counter_popVoq (place : it.place = .voq) (is : a.IsPlace) : a.counter (s.popVoq k it) =
    if a.test cfg it then sub32 (a.counter s) (a.weight it) else a.counter s := by
  unfold State.popVoq
  cases a <;> simp only [IsPlace] at is <;> simp [counter, test, weight, place,
    Function.update_apply]
  grind

theorem counter_popCache (place : it.place = .cache) (is : a.IsPlace) :
    a.counter (s.popCache k it) =
    if a.test cfg it then sub32 (a.counter s) (a.weight it) else a.counter s := by
  unfold State.popCache
  cases a <;> simp only [IsPlace] at is <;> simp [counter, test, weight, place,
    Function.update_apply]
  grind

theorem kept_voqToQueue (before : a.Kept cfg s) (at_k : s.held[k]? = some it)
    (place : it.place = .voq) (counted : it.counted = false)
    (sent : (s.popVoq k it).doEnqueue cfg it.dev it.q false it.packet = some t) : a.Kept cfg t := by
  have entered := counter_enqueued a sent
  obtain ⟨-, same⟩ := doEnqueue_cases sent
  have held : t.held = s.held.eraseIdx k ++ [⟨it.dev, it.q, .queue, false, it.packet⟩] := by rw [same]; rfl
  by_cases is : a.IsPlace
  · refine kept_exchanged a (s.popVoq k it) before at_k held (counter_popVoq a place is)
      (entered.trans ?_)
    cases a <;> simp only [IsPlace] at is <;> simp [test]
  · refine kept_elsewhere a before at_k held (entered.trans ?_) ?_ ?_ <;>
      cases a <;> simp only [IsPlace, not_true_eq_false] at is <;>
        simp [test, weight, counter, State.popVoq, counted, Item.size]

theorem kept_voqToCache (before : a.Kept cfg s) (at_k : s.held[k]? = some it)
    (place : it.place = .voq) (counted : it.counted = false) :
    a.Kept cfg ((s.popVoq k it).holdCache it.dev it.q it.packet) := by
  by_cases is : a.IsPlace
  · refine kept_exchanged a (s.popVoq k it) before at_k rfl (counter_popVoq a place is) ?_
    cases a <;> simp only [IsPlace] at is <;>
      simp [test, weight, counter, State.holdCache, Function.update_apply, Item.size]
    grind
  · refine kept_elsewhere a before at_k rfl ?_ ?_ ?_ <;>
      cases a <;> simp only [IsPlace, not_true_eq_false] at is <;>
        simp [test, weight, counter, State.holdCache, State.popVoq, counted, Item.size]

theorem kept_cacheToQueue (before : a.Kept cfg s) (at_k : s.held[k]? = some it)
    (place : it.place = .cache) (counted : it.counted = false)
    (sent : (s.popCache k it).doEnqueue cfg it.dev it.q false it.packet = some t) :
    a.Kept cfg t := by
  have entered := counter_enqueued a sent
  obtain ⟨-, same⟩ := doEnqueue_cases sent
  have held : t.held = s.held.eraseIdx k ++ [⟨it.dev, it.q, .queue, false, it.packet⟩] := by rw [same]; rfl
  by_cases is : a.IsPlace
  · refine kept_exchanged a (s.popCache k it) before at_k held (counter_popCache a place is)
      (entered.trans ?_)
    cases a <;> simp only [IsPlace] at is <;> simp [test]
  · refine kept_elsewhere a before at_k held (entered.trans ?_) ?_ ?_ <;>
      cases a <;> simp only [IsPlace, not_true_eq_false] at is <;>
        simp [test, weight, counter, State.popCache, counted, Item.size]

end Account

end Buffer

end Pyrrha
