import Pyrrha.Buffer.Books
import Pyrrha.Lib.Grid

/-!
The ingress counters. A packet is charged to reserve and shared pool, or to headroom, as the
threshold of the moment says, and released from headroom first; only the sum of an index says what
is buffered.
-/

namespace Pyrrha
open Lib

namespace Buffer

variable {n : ℕ} {cfg : Config n} {s t u : State n} {l : List (Item n)}

def Item.charged (cfg : Config n) (port : Fin n) (idx : ℕ) (it : Item n) : Bool :=
  decide (it.packet.inDev = some port) && cfg.controlled it.q &&
    decide (cfg.pfcFine port it.q it.packet = idx)

def Item.arrived (it : Item n) : Bool := it.packet.inDev.isSome

/-- The ingress counters account for the packets of `l`. -/
structure IngressBooks (cfg : Config n) (s : State n) (l : List (Item n)) : Prop where
  charged : ∀ port idx, s.ingressBytes port idx + s.hdrmBytes port idx =
    tally Item.size (Item.charged cfg port idx) l
  shared : s.sharedUsedBytes = gridSum nodeScale fun port idx => s.ingressBytes port idx - reserve

theorem charged_iff {port : Fin n} {it : Item n} (known : it.packet.inDev = some port)
    (controlled : cfg.controlled it.q = true) (port' : Fin n) (idx' : ℕ) :
    it.charged cfg port' idx' = true ↔ port' = port ∧ idx' = cfg.pfcFine port it.q it.packet := by
  simp only [Item.charged, known, controlled, Bool.and_true, Bool.and_eq_true, decide_eq_true_eq,
    Option.some.injEq]
  constructor
  · rintro ⟨rfl, rfl⟩
    exact ⟨rfl, rfl⟩
  · rintro ⟨rfl, rfl⟩
    exact ⟨rfl, rfl⟩

theorem charged_arrived {port : Fin n} {idx : ℕ} {it : Item n}
    (h : it.charged cfg port idx = true) : it.arrived = true := by
  simp only [Item.charged, Bool.and_eq_true, decide_eq_true_eq] at h
  rw [Item.arrived, h.1.1]
  rfl

theorem pfcFine_lt {q : ℕ} (controlled : cfg.controlled q = true) (port : Fin n) (p : Packet n) :
    cfg.pfcFine port q p < nodeScale := by
  simp only [Config.controlled, Bool.and_eq_true, decide_eq_true_eq] at controlled
  unfold Config.pfcFine
  split
  · exact p.dst.isLt
  · exact controlled.1.trans (by decide)

theorem ingress_le (h : IngressBooks cfg s l) (port : Fin n) (idx : ℕ) :
    s.ingressBytes port idx + s.hdrmBytes port idx ≤ tally Item.size Item.arrived l := by
  rw [h.charged]
  exact tally_mono fun it _ passes => charged_arrived passes

theorem shared_le (h : IngressBooks cfg s l) : s.sharedUsedBytes ≤
    tally Item.size Item.arrived l := by
  rw [h.shared]
  refine le_trans (gridSum_mono fun port idx _ => ?_)
    (gridSum_tally_le (N := nodeScale) (w := Item.size) (p := Item.charged cfg) l
      (fun _ _ _ passes => charged_arrived passes) fun it i j i' j' one other => ?_)
  · have total := h.charged port idx
    omega
  · simp only [Item.charged, Bool.and_eq_true, decide_eq_true_eq] at one other
    have port : i = i' := Option.some.inj (one.1.1.symm.trans other.1.1)
    subst port
    exact ⟨rfl, one.2.symm.trans other.2⟩

theorem shared_ge (h : IngressBooks cfg s l) (port : Fin n) {idx : ℕ} (inside : idx < nodeScale) :
    s.ingressBytes port idx - reserve ≤ s.sharedUsedBytes := by
  rw [h.shared]
  exact le_gridSum (fun port idx => s.ingressBytes port idx - reserve) port inside

/-! ### Charging and releasing -/

theorem ingress_charge (h : IngressBooks cfg s l) {port : Fin n} (it : Item n)
    (known : it.packet.inDev = some port)
    (controlled : cfg.controlled it.q = true) (fits : tally Item.size Item.arrived l +
      it.size < 2 ^ 32) :
    IngressBooks cfg (s.updateIngressAdmission cfg port (cfg.pfcFine port it.q it.packet) it.size)
      (l ++ [it]) := by
  have entered := charged_iff known controlled
  have inside := pfcFine_lt controlled port it.packet
  generalize cfg.pfcFine port it.q it.packet = idx at entered inside ⊢
  have below := ingress_le h port idx
  have pool := shared_le h
  have new : add32 (s.ingressBytes port idx) it.size = s.ingressBytes port idx + it.size :=
    Nat.mod_eq_of_lt (by omega)
  have sum := gridSum_update (N := nodeScale) (fun b => b - reserve) s.ingressBytes port inside
    (s.ingressBytes port idx + it.size)
  have shared := h.shared
  have total : ∀ port' idx', tally Item.size (Item.charged cfg port' idx') (l ++ [it]) =
      s.ingressBytes port' idx' + s.hdrmBytes port' idx' + if port' = port ∧ idx' = idx then it.size
        else 0 := by
    intro port' idx'
    rw [tally_concat, h.charged]
    simp only [entered]
  simp only [State.updateIngressAdmission, new]
  split
  · rename_i reserved
    refine ⟨fun port' idx' => ?_, ?_⟩
    · simp only [total, update₂_apply]
      split
      · rename_i here
        rw [here.1, here.2]
        omega
      · rfl
    · dsimp only
      omega
  · rename_i beyond
    split
    · refine ⟨fun port' idx' => ?_, shared⟩
      have hdrm : add32 (s.hdrmBytes port idx) it.size = s.hdrmBytes port idx + it.size :=
        Nat.mod_eq_of_lt (by omega)
      simp only [total, update₂_apply, hdrm]
      split
      · rename_i here
        rw [here.1, here.2]
        omega
      · rfl
    · refine ⟨fun port' idx' => ?_, ?_⟩
      · simp only [total, update₂_apply]
        split
        · rename_i here
          rw [here.1, here.2]
          omega
        · rfl
      · dsimp only
        have inPool :
          add32 s.sharedUsedBytes (min it.size (s.ingressBytes port idx + it.size - reserve)) =
            s.sharedUsedBytes + min it.size (s.ingressBytes port idx + it.size - reserve) :=
          Nat.mod_eq_of_lt (by omega)
        rw [inPool]
        omega

/-- `RemoveFromIngressAdmission` takes a packet off, and none of its subtractions wraps. -/
theorem ingress_release (h : IngressBooks cfg s l) {port : Fin n} {it : Item n} {k : ℕ}
    (at_k : l[k]? = some it)
    (known : it.packet.inDev = some port) (controlled : cfg.controlled it.q = true)
    (fits : tally Item.size Item.arrived l < 2 ^ 32) :
    IngressBooks cfg (s.removeFromIngressAdmission port (cfg.pfcFine port it.q it.packet) it.size)
      (l.eraseIdx k) := by
  have left := charged_iff known controlled
  have inside := pfcFine_lt controlled port it.packet
  generalize cfg.pfcFine port it.q it.packet = idx at left inside ⊢
  have below := ingress_le h port idx
  have pool := shared_le h
  have part := shared_ge h port inside
  have enough : it.size ≤ s.ingressBytes port idx + s.hdrmBytes port idx := by
    rw [h.charged]
    exact le_tally (List.mem_of_getElem? at_k) ((left port idx).mpr ⟨rfl, rfl⟩)
  have total : ∀ port' idx', tally Item.size (Item.charged cfg port' idx') (l.eraseIdx k) +
      (if port' = port ∧ idx' = idx then it.size else 0) = s.ingressBytes port' idx' +
        s.hdrmBytes port' idx' := by
    intro port' idx'
    have removed := tally_eraseIdx (w := Item.size) (p := Item.charged cfg port' idx') at_k
    simp only [left] at removed
    rw [removed, h.charged]
  have shared := h.shared
  simp only [State.removeFromIngressAdmission]
  rw [sub32_exact (by omega) (by omega), sub32_exact (by omega) (by omega),
    sub32_exact (by omega) (by omega)]
  have sum := gridSum_update (N := nodeScale) (fun b => b - reserve) s.ingressBytes port inside
    (s.ingressBytes port idx - (it.size - min (s.hdrmBytes port idx) it.size))
  refine ⟨fun port' idx' => ?_, ?_⟩
  · have entry := total port' idx'
    simp only [update₂_apply]
    split
    · rename_i here
      rw [if_pos here, here.1, here.2] at entry
      rw [here.1, here.2]
      omega
    · rename_i other
      rw [if_neg other] at entry
      omega
  · dsimp only
    omega

/-! ### What leaves the ingress counters alone -/

structure SameIngress (s t : State n) : Prop where
  ingress : t.ingressBytes = s.ingressBytes
  hdrm : t.hdrmBytes = s.hdrmBytes
  shared : t.sharedUsedBytes = s.sharedUsedBytes

theorem SameIngress.trans (first : SameIngress s t) (second : SameIngress t u) : SameIngress s u :=
  ⟨second.ingress.trans first.ingress, second.hdrm.trans first.hdrm,
    second.shared.trans first.shared⟩

theorem Quiet.sameIngress (h : Quiet cfg s t) : SameIngress s t :=
  ⟨h.ingressBytes, h.hdrmBytes, h.sharedUsedBytes⟩

theorem chargeMode_sameIngress (inDev dev : Fin n) (q : ℕ) (p : Packet n) (bfcPause : Bool) :
    SameIngress s (s.chargeMode cfg inDev dev q p bfcPause) := by
  unfold State.chargeMode
  split
  · exact ⟨rfl, rfl, rfl⟩
  · split
    · exact ⟨rfl, rfl, rfl⟩
    · dsimp only
      split <;> exact ⟨rfl, rfl, rfl⟩
    · exact ⟨rfl, rfl, rfl⟩

theorem dischargeMode_sameIngress (inDev dev : Fin n) (q : ℕ) (p : Packet n) :
    SameIngress s (s.dischargeMode cfg inDev dev q p) := by
  simp only [State.dischargeMode, State.setFlow, State.setPauseCounter]
  split
  · split <;> exact ⟨rfl, rfl, rfl⟩
  · exact ⟨rfl, rfl, rfl⟩

theorem dischargeAll_sameIngress (inDev dev : Fin n) (q : ℕ) (p : Packet n) :
    SameIngress (s.releaseIngress cfg inDev q p) (s.dischargeAll cfg inDev dev q p) := by
  refine SameIngress.trans ?_ (dischargeMode_sameIngress inDev dev q p)
  simp only [State.discharge, State.subEgress, State.subBytes, State.subBuffering,
    State.setBuffering]
  split <;> exact ⟨rfl, rfl, rfl⟩

theorem doEnqueue_sameIngress {dev : Fin n} {q : ℕ} {counted : Bool} {p : Packet n}
    (sent : s.doEnqueue cfg dev q counted p = some t) : SameIngress s t := by
  obtain ⟨-, rfl⟩ := doEnqueue_cases sent
  exact ⟨rfl, rfl, rfl⟩

theorem IngressBooks.congr (h : IngressBooks cfg s l) (same : SameIngress s t) {l' : List (Item n)}
    (tallies : ∀ port idx, tally Item.size (Item.charged cfg port idx) l' =
      tally Item.size (Item.charged cfg port idx) l) : IngressBooks cfg t l' where
  charged := fun port idx => by
    rw [same.ingress, same.hdrm, tallies]
    exact h.charged port idx
  shared := by
    rw [same.ingress, same.shared]
    exact h.shared

theorem charged_own {it : Item n} (own : it.packet.inDev = none) (port : Fin n) (idx : ℕ) :
    it.charged cfg port idx = false := by
  simp [Item.charged, own]

theorem charged_uncontrolled (it : Item n) (free : cfg.controlled it.q = false)
    (port : Fin n) (idx : ℕ) : it.charged cfg port idx = false := by
  simp [Item.charged, free]

theorem tally_charged_frames {frames : List (Item n)} (areFrames : ∀ it ∈ frames, it.IsFrame cfg)
    (port : Fin n) (idx : ℕ) : tally Item.size (Item.charged cfg port idx) frames = 0 :=
  tally_zero fun it member => charged_own (areFrames it member).inDev port idx

theorem books_quiet (h : IngressBooks cfg s s.held) (quiet : Quiet cfg s t) :
    IngressBooks cfg t t.held := by
  obtain ⟨frames, held, areFrames⟩ := quiet.held
  refine h.congr quiet.sameIngress fun port idx => ?_
  rw [held, tally_append, tally_charged_frames areFrames, Nat.add_zero]

theorem books_charge (h : IngressBooks cfg s l) {inDev dev : Fin n} {q : ℕ} {p : Packet n}
    {admitted : Bool}
    (known : p.inDev = some inDev) (fits : tally Item.size Item.arrived l + p.size < 2 ^ 32)
    (enters : admitted = true ∨ cfg.controlled q = false) (place : Place) (counted : Bool) :
    IngressBooks cfg (s.charge cfg inDev dev q p admitted)
      (l ++ [⟨dev, q, place, counted, p⟩]) := by
  have egress : ∀ v : State n, SameIngress v (v.updateEgressAdmission dev q p.size) :=
    fun v => ⟨rfl, rfl, rfl⟩
  by_cases controlled : cfg.controlled q = true
  · obtain rfl : admitted = true := enters.resolve_right fun free =>
      absurd (controlled.symm.trans free) nofun
    rw [charge_true, State.chargeIngress, if_pos controlled]
    have entered := ingress_charge h ⟨dev, q, place, counted, p⟩ known controlled fits
    exact entered.congr (egress _) fun _ _ => rfl
  · have same : SameIngress s (s.charge cfg inDev dev q p admitted) := by
      cases admitted with
      | true =>
        rw [charge_true, State.chargeIngress, if_neg controlled]
        exact egress s
      | false =>
        rw [charge_false]
        exact egress s
    refine h.congr same fun port idx => ?_
    rw [tally_concat, charged_uncontrolled _ (Bool.eq_false_of_not_eq_true controlled)]
    rfl

theorem charged_marked (dev : Fin n) (q : ℕ) (place place' : Place)
    (counted counted' bfcPause : Bool) (p : Packet n) :
    ∀ port idx, Item.charged cfg port idx ⟨dev, q, place, counted, p.marked cfg q bfcPause⟩ =
      Item.charged cfg port idx ⟨dev, q, place', counted', p⟩ := by
  intro port idx
  simp [Item.charged, Config.pfcFine]

/-! ### The steps -/

/-- The bytes of the buffered packets that have come in through a port. -/
def State.arrivedBytes (s : State n) : ℕ := tally Item.size Item.arrived s.held

/-- The books are right, and what they are about fits in 32 bits. -/
structure IngressRight (cfg : Config n) (s : State n) : Prop where
  books : IngressBooks cfg s s.held
  fits : s.arrivedBytes < 2 ^ 32

theorem arrived_frames {frames : List (Item n)} (areFrames : ∀ it ∈ frames, it.IsFrame cfg) :
    tally Item.size Item.arrived frames = 0 :=
  tally_zero fun it member => by rw [Item.arrived, (areFrames it member).inDev]; rfl

theorem arrivedBytes_quiet (quiet : Quiet cfg s t) : t.arrivedBytes = s.arrivedBytes := by
  obtain ⟨frames, held, areFrames⟩ := quiet.held
  rw [State.arrivedBytes, held, tally_append, arrived_frames areFrames, Nat.add_zero,
    State.arrivedBytes]

theorem right_quiet (h : IngressRight cfg s) (quiet : Quiet cfg s t) : IngressRight cfg t :=
  ⟨books_quiet h.books quiet, by rw [arrivedBytes_quiet quiet]; exact h.fits⟩

/-- What has the same entries in another order or another place is as right. -/
theorem IngressRight.congr (h : IngressBooks cfg s l)
    (fits : tally Item.size Item.arrived l < 2 ^ 32) (same : SameIngress s t) (charged : ∀ port idx,
      tally Item.size (Item.charged cfg port idx) t.held =
      tally Item.size (Item.charged cfg port idx) l) (arrived : t.arrivedBytes =
        tally Item.size Item.arrived l) :
    IngressRight cfg t :=
  ⟨h.congr same charged, by rw [arrived]; exact fits⟩

/-- A packet that goes on to the window check is entered once, wherever it ends up. -/
theorem right_forward {inDev dev : Fin n} {q : ℕ} {p : Packet n} {ch : Choice}
    (known : p.inDev = some inDev)
    (entered : ∀ place counted, IngressBooks cfg s (l ++ [⟨dev, q, place, counted, p⟩]))
    (held : s.held = l) (fits : tally Item.size Item.arrived l + p.size < 2 ^ 32)
    (call : s.forward cfg inDev dev q p ch = .ok t) (room : t.refused = false) :
    IngressRight cfg t := by
  have isArrived : ∀ place counted, Item.arrived (⟨dev, q, place, counted, p⟩ : Item n) = true := by
    simp [Item.arrived, known]
  have small : ∀ place counted, tally Item.size Item.arrived (l ++ [⟨dev, q, place, counted, p⟩]) <
      2 ^ 32 := by
    intro place counted
    rw [tally_concat, if_pos (isArrived place counted)]
    exact fits
  rcases forward_cases call with ⟨-, rfl⟩ | ⟨-, rfl⟩ | ⟨-, u, quiet, rfl, -⟩
  · refine IngressRight.congr (entered .voq false) (small .voq false) ⟨rfl, rfl, rfl⟩
      (fun port idx => ?_) ?_ <;> simp only [State.arrivedBytes, State.holdVoq, held]
  · refine IngressRight.congr (entered .cache false) (small .cache false) ⟨rfl, rfl, rfl⟩
      (fun port idx => ?_) ?_ <;> simp only [State.arrivedBytes, State.holdCache, held]
  · have sent := switchSend_sent (by rw [marked_inDev, known]; rfl) room
    have added : SameIngress s (s.addBytes inDev dev q p.size) := ⟨rfl, rfl, rfl⟩
    have same := ((added.trans (chargeMode_sameIngress inDev dev q p ch.bfcPause)).trans
      quiet.sameIngress).trans (doEnqueue_sameIngress sent)
    obtain ⟨frames, heldU, areFrames⟩ := quiet.held
    rw [((addBytes_booked inDev dev q p.size).trans
      (chargeMode_booked inDev dev q p ch.bfcPause)).held, held] at heldU
    have heldT : (u.switchSend cfg dev q true (p.marked cfg q ch.bfcPause)).held =
        l ++ frames ++ [⟨dev, q, .queue, true, p.marked cfg q ch.bfcPause⟩] := by
      obtain ⟨-, after⟩ := doEnqueue_cases sent
      rw [after, ← heldU]
    refine IngressRight.congr (entered .queue true) (small .queue true) same (fun port idx => ?_) ?_
    · rw [heldT, tally_concat, tally_append, tally_charged_frames areFrames, tally_concat,
        Nat.add_zero, charged_marked dev q .queue .queue true true]
      simp only [Item.size, marked_size]
    · rw [State.arrivedBytes, heldT, tally_concat, tally_append, arrived_frames areFrames,
        tally_concat, Nat.add_zero,
        if_pos (isArrived .queue true), if_pos (by rw [Item.arrived, marked_inDev, known]; rfl)]
      simp only [Item.size, marked_size]

theorem right_sendToDev (h : IngressRight cfg s) {inDev dev : Fin n} {q : ℕ}
    {p : Packet n} {ch : Choice} (off : cfg.fcMode = .pfcOff → cfg.controlled q = false)
    (fits : s.arrivedBytes + p.size < 2 ^ 32)
    (call : s.sendToDev cfg inDev dev q p ch = .ok t) (room : t.refused = false) :
    IngressRight cfg t := by
  rcases sendToDev_cases call with ⟨quiet, -⟩ | ⟨admitted, enters, forwarded⟩
  · exact right_quiet h quiet
  · have matched : Quiet cfg s (s.matchFlow cfg dev q (p.arrived inDev)) := matchFlow_quiet _ _ _
    have charged : admitted = true ∨ cfg.controlled q = false := by
      cases admitted with
      | true => exact .inl rfl
      | false => exact .inr (off (enters.pfcOff rfl))
    have fits : (s.matchFlow cfg dev q (p.arrived inDev)).arrivedBytes + (p.arrived inDev).size <
        2 ^ 32 := by
      rw [arrivedBytes_quiet matched]
      exact fits
    exact right_forward rfl (books_charge (books_quiet h.books matched) rfl fits charged)
      (charge_booked inDev dev q (p.arrived inDev) admitted).held fits forwarded room

theorem popQueue_sameIngress (k : ℕ) (it : Item n) : SameIngress s (s.popQueue k it) := by
  unfold State.popQueue
  exact ⟨rfl, rfl, rfl⟩

theorem right_erased (h : IngressRight cfg s) {k : ℕ} {it : Item n} (at_k : s.held[k]? = some it)
    (free : ∀ port idx, it.charged cfg port idx = false) (same : SameIngress s t)
    (held : t.held = s.held.eraseIdx k) : IngressRight cfg t := by
  refine ⟨h.books.congr same fun port idx => ?_, ?_⟩
  · rw [held, ← tally_eraseIdx at_k, free, if_neg Bool.false_ne_true, Nat.add_zero]
  · have removed := tally_eraseIdx (w := Item.size) (p := Item.arrived) at_k
    have fits := h.fits
    unfold State.arrivedBytes at fits ⊢
    rw [held]
    omega

/-- What an event needs for the ingress counters: 32 bits hold the packets that have come in, and a
SYN of the switch itself leaves through a queue without PFC control. -/
def Event.IngressFits (cfg : Config n) (s : State n) : Event n → Prop
  | .arrive p _ _ _ _ => s.arrivedBytes + p.size < 2 ^ 32
  | .transmit k it _ => AtFront s k it → it.packet.inDev = none → it.packet.l3Prot = .switchPsn →
    cfg.controlled it.q = false
  | .takeDown _ _ => False
  | _ => True

theorem right_transmit (sound : Sound cfg s) (h : IngressRight cfg s) {k : ℕ} {it : Item n}
    {flowId : Option (Fin n)} (fits : (Event.transmit k it flowId).IngressFits cfg s)
    (call : s.dequeueAndTransmit cfg k it flowId = .ok t) :
    IngressRight cfg t := by
  rcases transmit_cases sound call with rfl | ⟨front, frame, rfl⟩ |
    ⟨inDev, front, kind, -, -, -, quiet⟩
  · exact h
  · exact right_erased h front.found (charged_own frame.inDev) (popQueue_sameIngress k it) rfl
  · refine right_quiet ?_ quiet
    have held : ((s.popQueue k it).dischargeAll cfg inDev it.dev it.q it.packet).held =
        s.held.eraseIdx k :=
      (dischargeAll_booked inDev it.dev it.q it.packet).held
    have same : SameIngress ((s.popQueue k it).releaseIngress cfg inDev it.q it.packet)
        ((s.popQueue k it).dischargeAll cfg inDev it.dev it.q it.packet) :=
          dischargeAll_sameIngress _ _ _ _
    have popped := popQueue_sameIngress (s := s) k it
    cases controlled : cfg.controlled it.q with
    | false =>
      rw [State.releaseIngress, controlled, if_neg Bool.false_ne_true] at same
      exact right_erased h front.found (charged_uncontrolled it controlled) (popped.trans same) held
    | true =>
      rcases kind with ⟨frame, syn⟩ | ⟨-, known⟩
      · rw [fits front frame.inDev syn] at controlled
        cases controlled
      · rw [State.releaseIngress, if_pos controlled] at same
        have released :=
          ingress_release (h.books.congr popped fun _ _ => rfl) front.found known controlled h.fits
        have removed := tally_eraseIdx (w := Item.size) (p := Item.arrived) front.found
        have below := h.fits
        unfold State.arrivedBytes at below
        refine IngressRight.congr released (by omega) same (fun port idx => ?_) ?_ <;>
          simp only [State.arrivedBytes, held]

theorem right_elsewhere (h : IngressRight cfg s) {k : ℕ} {it : Item n} (it' : Item n)
    (at_k : s.held[k]? = some it)
    (held : t.held = s.held.eraseIdx k ++ [it']) (packet : it'.packet = it.packet)
    (queue : it'.q = it.q) (same : SameIngress s t) : IngressRight cfg t := by
  have charged : ∀ port idx, it'.charged cfg port idx = it.charged cfg port idx := by
    intro port idx
    rw [Item.charged, Item.charged, packet, queue]
  have size : it'.size = it.size := by rw [Item.size, Item.size, packet]
  refine ⟨h.books.congr same fun port idx => ?_, ?_⟩
  · rw [held, tally_concat, charged, size]
    exact tally_eraseIdx at_k
  · have fits := h.fits
    rw [State.arrivedBytes, ← tally_eraseIdx at_k] at fits
    rw [State.arrivedBytes, held, tally_concat, Item.arrived, packet, size]
    exact fits

theorem right_releaseVoq (sound : Sound cfg s) (h : IngressRight cfg s) {k : ℕ} {it : Item n}
    {toCache : Bool} (room : (s.releaseVoq cfg k it toCache).refused = false) :
    IngressRight cfg (s.releaseVoq cfg k it toCache) := by
  rcases releaseVoq_cases cfg s k it toCache with
    same | ⟨at_k, place, ⟨-, same⟩ | same⟩ <;> rw [same] at room ⊢
  · exact h
  · exact right_elsewhere h ⟨it.dev, it.q, .cache, false, it.packet⟩ at_k rfl rfl rfl
      ⟨rfl, rfl, rfl⟩
  · have sent := switchSend_sent (waiting_stored sound at_k (by simp [place])).inDev room
    have kept : SameIngress s (s.popVoq k it) := ⟨rfl, rfl, rfl⟩
    refine right_elsewhere h ⟨it.dev, it.q, .queue, false, it.packet⟩ at_k ?_ rfl rfl
      (kept.trans (doEnqueue_sameIngress sent))
    obtain ⟨-, after⟩ := doEnqueue_cases sent
    rw [after]
    rfl

theorem right_releaseCache (sound : Sound cfg s) (h : IngressRight cfg s) {k : ℕ} {it : Item n}
    (room : (s.releaseCache cfg k it).refused = false) :
    IngressRight cfg (s.releaseCache cfg k it) := by
  rcases releaseCache_cases cfg s k it with same | ⟨at_k, place, same⟩ <;> rw [same] at room ⊢
  · exact h
  · have sent := switchSend_sent (waiting_stored sound at_k (by simp [place])).inDev room
    have kept : SameIngress s (s.popCache k it) := ⟨rfl, rfl, rfl⟩
    refine right_elsewhere h ⟨it.dev, it.q, .queue, false, it.packet⟩ at_k ?_ rfl rfl
      (kept.trans (doEnqueue_sameIngress sent))
    obtain ⟨-, after⟩ := doEnqueue_cases sent
    rw [after]
    rfl

/-- The hierarchical round moves a packet from a queue without PFC control, and enters it where the
next one has it. -/
theorem right_hierMove (h : IngressRight cfg s)
    {k : ℕ} {it : Item n} {nextQ : ℕ} (aimed : ∀ port, it.packet.inDev = some port →
      cfg.pfcMode port = .dst →
      cfg.controlled nextQ = false) (call : s.hierMove cfg k it nextQ = .ok t) :
      IngressRight cfg t := by
  rcases hierMove_cases call with rfl | ⟨inDev, u, front, known, outer, -, -, -, sent, rfl⟩
  · exact h
  · have free : cfg.controlled it.q = false := by
      simp only [Config.controlled, Bool.and_eq_false_iff, decide_eq_false_iff_not, not_lt]
      exact .inl outer
    have popped : SameIngress s
        (((s.popQueue k it).subEgress it.dev it.q it.size).subBytes inDev it.dev it.q it.size) :=
      (popQueue_sameIngress k it).trans ⟨rfl, rfl, rfl⟩
    have left : IngressRight cfg
        (((s.popQueue k it).subEgress it.dev it.q it.size).subBytes inDev it.dev it.q it.size) :=
      right_erased h front.found (charged_uncontrolled it free) popped rfl
    have isArrived : it.arrived = true := by rw [Item.arrived, known]; rfl
    have removed := tally_eraseIdx (w := Item.size) (p := Item.arrived) front.found
    rw [if_pos isArrived] at removed
    have fits : tally Item.size Item.arrived (s.held.eraseIdx k) + it.size < 2 ^ 32 := by
      rw [removed]
      exact h.fits
    have same := doEnqueue_sameIngress sent
    obtain ⟨-, after⟩ := doEnqueue_cases sent
    have held : u.held = s.held.eraseIdx k ++ [⟨it.dev, nextQ, .queue, true, it.packet⟩] := by rw [after]; rfl
    have added : SameIngress u
        ((u.addBytes inDev it.dev nextQ it.size).updateEgressAdmission it.dev nextQ it.size) :=
      ⟨rfl, rfl, rfl⟩
    have heldT :
      ((u.addBytes inDev it.dev nextQ it.size).updateEgressAdmission it.dev nextQ it.size).held =
        s.held.eraseIdx k ++ [⟨it.dev, nextQ, .queue, true, it.packet⟩] := held
    have books : IngressBooks cfg
        ((u.addBytes inDev it.dev nextQ it.size).updateEgressAdmission it.dev nextQ it.size)
          (s.held.eraseIdx k) :=
      left.books.congr (same.trans added) fun _ _ => rfl
    have small : tally Item.size Item.arrived (s.held.eraseIdx k ++
      [⟨it.dev, nextQ, .queue, true, it.packet⟩]) < 2 ^ 32 := by
      rw [tally_concat]
      split
      · exact fits
      · omega
    split
    · rename_i controlled
      have fine : cfg.pfcFine inDev nextQ it.packet = nextQ :=
        if_neg fun dst => absurd (controlled.symm.trans (aimed inDev known dst)) nofun
      have entered :=
        ingress_charge books ⟨it.dev, nextQ, .queue, true, it.packet⟩ known controlled fits
      rw [fine] at entered
      refine IngressRight.congr entered small ⟨rfl, rfl, rfl⟩ (fun port idx => ?_) ?_
      · rw [(updateIngressAdmission_booked _ _ _).held, heldT]
      · rw [State.arrivedBytes, (updateIngressAdmission_booked _ _ _).held, heldT]
    · rename_i free
      have skipped := charged_uncontrolled ⟨it.dev, nextQ, .queue, true, it.packet⟩
        (Bool.eq_false_of_not_eq_true free)
      refine ⟨books.congr ⟨rfl, rfl, rfl⟩ fun port idx => ?_, ?_⟩
      · rw [heldT, tally_concat, skipped, if_neg Bool.false_ne_true]
        rfl
      · rw [State.arrivedBytes, heldT]
        exact small

theorem right_takeDown (sound : Sound cfg s) (h : IngressRight cfg s) {dev : Fin n}
    {limited : Item n → Bool} (frames : (Event.takeDown dev limited).NoLoss cfg s) :
    IngressRight cfg (s.takeDown cfg dev limited) := by
  have same : SameIngress s (s.takeDown cfg dev limited) := ⟨rfl, rfl, rfl⟩
  refine ⟨h.books.congr same fun port idx => takeDown_tally sound frames fun it frame =>
    charged_own frame.inDev port idx, ?_⟩
  have fits := h.fits
  unfold State.arrivedBytes at fits ⊢
  rw [takeDown_tally sound frames fun it frame => by rw [Item.arrived, frame.inDev]; rfl]
  exact fits

/-! ### Runs -/

/-- The configurations of the law: something is admitted, and hierarchical queues go with indices
that are queues. -/
structure Config.IngressKept (cfg : Config n) : Prop where
  mode : cfg.fcMode ≠ .pfcOff
  hier : cfg.fcMode = .congestionIsolation → ∀ port, cfg.pfcMode port ≠ .dst

/-- What keeps the books, in every configuration and with links that fail. -/
def Event.IngressSafe (cfg : Config n) (s : State n) : Event n → Prop
  | .arrive p _ _ q _ =>
      (cfg.fcMode = .pfcOff → cfg.controlled q = false) ∧ s.arrivedBytes + p.size < 2 ^ 32
  | .transmit k it _ => AtFront s k it → it.packet.inDev = none → it.packet.l3Prot = .switchPsn →
    cfg.controlled it.q = false
  | .hierRR moves =>
      cfg.fcMode = .congestionIsolation → ∀ m ∈ moves, ∀ port, m.2.1.packet.inDev = some port →
    cfg.pfcMode port = .dst → cfg.controlled m.2.2 = false
  | .takeDown dev limited => (Event.takeDown dev limited).NoLoss cfg s
  | _ => True

theorem Config.IngressKept.safe (kept : cfg.IngressKept) {ev : Event n}
    (fits : ev.IngressFits cfg s) : ev.IngressSafe cfg s := by
  cases ev with
  | arrive p inDev dev q ch => exact ⟨fun off => absurd off kept.mode, fits⟩
  | transmit k it flowId => exact fits
  | hierRR moves => exact fun mode _ _ port _ dst => absurd dst (kept.hier mode port)
  | takeDown dev limited => exact fits.elim
  | _ => trivial

theorem right_step (sound : Sound cfg s) (h : IngressRight cfg s) {ev : Event n}
    (safe : ev.IngressSafe cfg s) (call : s.step cfg ev = .ok t) (room : t.refused = false) :
    IngressRight cfg t := by
  cases ev with
  | arrive p inDev dev q ch => exact right_sendToDev h safe.1 safe.2 call room
  | transmit k it flowId => exact right_transmit sound h safe call
  | hierRR moves =>
    rw [State.step, State.doHierQRR] at call
    split at call
    · rename_i mode
      have move : ∀ m ∈ moves, ∀ u v : State n, Sound cfg u ∧ IngressRight cfg u →
          u.hierMove cfg m.1 m.2.1 m.2.2 = .ok v → Sound cfg v ∧ IngressRight cfg v :=
        fun m member u v both moved =>
          ⟨sound_hierMove both.1 moved, right_hierMove both.2 (safe mode m member) moved⟩
      exact (foldlM_preserves move ⟨sound, h⟩ call).2
    · cases call
      exact h
  | releaseVoq k it toCache =>
    cases call
    exact right_releaseVoq sound h room
  | releaseCache k it =>
    cases call
    exact right_releaseCache sound h room
  | sendFrame dev p =>
    cases call
    exact right_quiet h (sendFrame_quiet dev p)
  | registerQ dev =>
    cases call
    have same : SameIngress s (s.registerNewQ dev) := ⟨rfl, rfl, rfl⟩
    exact ⟨h.books.congr same fun _ _ => rfl, h.fits⟩
  | takeDown dev limited =>
    cases call
    exact right_takeDown sound h safe

theorem right_initial : IngressRight cfg {} := by
  refine ⟨⟨fun _ _ => rfl, ?_⟩, Nat.two_pow_pos 32⟩
  simp [gridSum]

theorem right_safe {allowed : State n → Event n → Prop}
    (safe : ∀ s ev, allowed s ev → ev.IngressSafe cfg s)
    (reach : State.Reachable cfg allowed s) : Sound cfg s ∧
    (s.refused = false → IngressRight cfg s) := by
  induction reach with
  | initial => exact ⟨sound_initial, fun _ => right_initial⟩
  | step _ permitted call ih =>
    obtain ⟨sound, right⟩ := ih
    exact ⟨sound_step sound call, fun room =>
      right_step sound (right (refused_step sound call room)) (safe _ _ permitted) call room⟩

theorem right_reachable (kept : cfg.IngressKept)
    (reach : State.Reachable cfg (fun s ev => ev.IngressFits cfg s) s) :
    Sound cfg s ∧ (s.refused = false → IngressRight cfg s) :=
  right_safe (fun _ _ fits => kept.safe fits) reach

end Buffer

end Pyrrha
