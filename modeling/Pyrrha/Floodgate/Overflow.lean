import Pyrrha.Floodgate.Linked
import Pyrrha.Floodgate.Stored

/-!
Packets that do not fit the window of their destination wait, however many there are: nothing keeps
the bytes of a destination below 2^32, where its entry of `m_buffering` starts again from 0.
-/

namespace Pyrrha
open Lib

namespace Floodgate

variable {cfg : Config} {base s t u : State} {g d w : ℕ} {p : PacketUnit} {ps : List PacketUnit}

namespace State

theorem holdVoq_ok (placed : s.Placed cfg) (rule : cfg.dst2group p.dst = some (.group g)) :
    ∃ t, s.holdVoq cfg p = .ok t := by
  obtain ⟨G, v, voq, -⟩ := Group.getVOQ_valid (placed.valid g) p.dst
  unfold holdVoq
  rw [rule]
  dsimp only
  rw [voq]
  exact ⟨_, updateBufferingCount_add _ _ _⟩

theorem sendToDev_holds (placed : s.Placed cfg) (rule : cfg.dst2group p.dst = some (.group g))
    (closed : s.checkDstWin cfg p.dst p.size = .ok (u, false)) :
    ∃ t voqId G, s.sendToDev cfg p = .ok t ∧
    Held cfg { s with admitted := s.admitted ++ [p] } t g voqId G p := by
  have test : ({ s with admitted := s.admitted ++ [p] } : State).checkDstWin cfg p.dst p.size =
      .ok ({ u with admitted := s.admitted ++ [p] }, false) := by
    rw [checkDstWin_admitted, closed]
    rfl
  have kept : ({ u with admitted := s.admitted ++ [p] } : State).Placed cfg := by
    have same := (checkDstWin_only closed).rewindowed.sameVoqs
    exact placed_same placed ⟨same.groups, same.voqBuffer, same.buffering⟩
  obtain ⟨t, held⟩ := holdVoq_ok kept rule
  have ends : s.sendToDev cfg p = .ok t := by
    have grouped : cfg.shouldIgnore p.dst = .ok false := by rw [Config.shouldIgnore, rule]
    unfold sendToDev checkVOQWin
    rw [grouped, test]
    simp only [bind, Except.bind, Bool.false_eq_true, if_false, Bool.false_and, held]
  have waits :=
    outcome_result (holdVoq_outcome rule test fun shut => (Bool.false_ne_true shut).elim) held
  obtain ⟨g', voqId, G, waits⟩ := waits
  have same : g' = g := by simpa [rule] using waits.rule.symm
  subst same
  exact ⟨t, voqId, G, ends, waits⟩

/-- Since `base`, where nothing waited, the packets `ps` of `d` have arrived, and wait. -/
structure Filled (cfg : Config) (base : State) (g d w : ℕ) (ps : List PacketUnit) (s : State) :
    Prop where
  placed : s.Placed cfg
  window : s.window cfg d = some w
  known : ps ≠ [] → s.wins d = some w
  pkts : (ps = [] ∧ ∀ v, s.pkts g v = []) ∨ ∃ v, (s.groups g).findVOQId (cfg.group g) d = some v ∧
    s.pkts g v = ps
  buffering : s.getBufferDst d = (ps.map PacketUnit.size).sum % 2 ^ 32
  admitted : s.admitted = base.admitted ++ ps
  sent : s.sent = base.sent

theorem filled_step (linked : cfg.Linked) (relative : cfg.absolutePsn = false)
    (rule : cfg.dst2group d = some (.group g)) (before : Filled cfg base g d w ps s)
    (dst : p.dst = d) (large : w < p.size) : ∃ t, s.step cfg (.data p) = .ok t ∧
    Filled cfg base g d w (ps ++ [p]) t := by
  subst dst
  have closed : s.checkDstWin cfg p.dst p.size = .ok (s.setWin p.dst w, false) := by
    rw [checkDstWin_linked linked before.window, admitsBytes, relative, if_neg Bool.false_ne_true,
      decide_eq_false (Nat.not_le.mpr large)]
    rfl
  obtain ⟨t, voqId, G, ends, held⟩ := sendToDev_holds before.placed rule closed
  have start : ({ s with admitted := s.admitted ++ [p] } : State).Placed cfg :=
    placed_same before.placed ⟨rfl, rfl, rfl⟩
  have got := start.got held
  obtain ⟨joined, -⟩ := shelf_held held got
  have entry : t.wins p.dst = some w := by
    obtain ⟨u, fits, tested, wins, -⟩ := held.tested
    obtain ⟨w', has, rfl, -⟩ := checkDstWin_ok linked tested
    obtain rfl : w = w' := Option.some.inj (before.window.symm.trans has)
    rw [wins]
    exact Function.update_self _ _ _
  refine ⟨t, ends, {
    placed := placed_held start held
    window := window_known cfg entry
    known := fun _ => entry
    pkts := .inr ⟨voqId, ?_, ?_⟩
    buffering := ?_
    admitted := ?_
    sent := held.sent.trans before.sent }⟩
  · rw [held.groups, Function.update_self]
    exact got.found
  · rw [joined]
    rcases before.pkts with ⟨rfl, empty⟩ | ⟨v, found, waits⟩
    · exact congrArg (· ++ [p]) (empty voqId)
    · rw [got.kept v found] at waits
      exact congrArg (· ++ [p]) waits
  · have small : p.size < 2 ^ 32 := by
      have := p.size_lt
      omega
    have entry : t.getBufferDst p.dst = (s.getBufferDst p.dst + p.size) % 2 ^ 32 := by
      unfold getBufferDst
      rw [held.buffering, Function.update_self, Option.getD_some, countIn_mod _ small]
    rw [entry, before.buffering, List.map_append, List.sum_append, Nat.mod_add_mod]
    simp
  · rw [held.acks.admitted]
    exact (congrArg (· ++ [p]) before.admitted).trans (List.append_assoc _ _ _)

/-- Any number of packets larger than the window of their destination wait for it. -/
theorem filled_run (linked : cfg.Linked) (relative : cfg.absolutePsn = false)
    (rule : cfg.dst2group d = some (.group g))
    (reach : base.Reachable cfg fun _ _ => True) (start : Filled cfg base g d w [] base)
    (ps : List PacketUnit) (large : ∀ p ∈ ps, p.dst = d ∧ w < p.size) :
    ∃ s, Reachable cfg (fun _ _ => True) s ∧ Filled cfg base g d w ps s := by
  induction ps using List.reverseRecOn with
  | nil => exact ⟨base, reach, start⟩
  | append_singleton ps p ih =>
    obtain ⟨s, reach, before⟩ := ih fun q member => large q (List.mem_append_left _ member)
    obtain ⟨dst, wide⟩ := large p (List.mem_append_right _ List.mem_cons_self)
    obtain ⟨t, call, after⟩ := filled_step linked relative rule before dst wide
    exact ⟨t, .step reach trivial call, after⟩

/-- A packet that fits its window, while `m_buffering` reads 0, goes to its queue. -/
theorem sendToDev_passes (linked : cfg.Linked) (relative : cfg.absolutePsn = false)
    (direct : cfg.usePortWin = false)
    (rule : cfg.dst2group p.dst = some (.group g)) (has : s.window cfg p.dst = some w)
    (fits : p.size ≤ w) (empty : s.getBufferDst p.dst = 0) :
    ∃ t, s.sendToDev cfg p = .ok t ∧ t.sent = s.sent ++ [p] ∧ t.admitted = s.admitted ++ [p] ∧
    SameVoqs s t ∧ t.window cfg p.dst = some (sub32 w p.size) := by
  have grouped : cfg.shouldIgnore p.dst = .ok false := by rw [Config.shouldIgnore, rule]
  have opens : s.admitsBytes cfg p.dst p.size w = .ok true := by
    rw [admitsBytes, relative, if_neg Bool.false_ne_true, decide_eq_true fits]
  have test : s.checkDstWin cfg p.dst p.size = .ok (s.setWin p.dst w, true) := by
    rw [checkDstWin_linked linked has, opens]
    rfl
  obtain ⟨v, tested, known, sent, admitted, same⟩ : ∃ v : State,
      ({ s with admitted := s.admitted ++ [p] } : State).checkDstWin cfg p.dst p.size =
        .ok (v, true) ∧ v.wins p.dst = some w ∧ v.sent = s.sent ∧ v.admitted = s.admitted ++ [p] ∧
          SameVoqs s v := by
    refine ⟨{ s.setWin p.dst w with admitted := s.admitted ++ [p] }, ?_, Function.update_self _ _ _,
      rfl, rfl, rfl, rfl, rfl⟩
    rw [checkDstWin_admitted, test]
    rfl
  have none : v.getBufferDst p.dst = 0 := by
    rw [getBufferDst, same.buffering]
    exact empty
  have debit := updateDstWin_relative linked relative rule known p.size
  refine ⟨(v.setWin p.dst (sub32 w p.size)).doSwitchSend p, ?_, congrArg (· ++ [p]) sent, admitted,
    ⟨same.groups, same.voqBuffer, same.buffering⟩, window_known cfg (Function.update_self _ _ _)⟩
  unfold sendToDev checkVOQWin passWin tagPsn passesCache updateEgressWin
  simp only [bind, Except.bind, grouped, tested, none, debit, relative, direct, Bool.false_eq_true,
    if_false, if_true, decide_true, Bool.and_true, Bool.not_false, Bool.true_or]

end State

/-- A window of 1500 bytes for host 1. -/
def bulkConfig : Config := smallConfig .switchDstCredit false (dstCredit_psn false) 1500

/-- The `i`-th of many packets of 1024 bytes for host 1, in turn through one of four devices. -/
def bulkPacket (i : ℕ) : PacketUnit := { smallPacket i 1023 with outDev := 1 + i % 4 }

/-- `n` of them, from the second one on. -/
def bulk (n : ℕ) : List PacketUnit := (List.range n).map fun i => bulkPacket (i + 1)

theorem bulk_first {n : ℕ} (pos : 0 < n) : ∃ rest, bulk n = bulkPacket 1 :: rest := by
  cases n with
  | zero => cases pos
  | succ n => exact ⟨_, congrArg (List.map fun i => bulkPacket (i + 1)) List.range_succ_eq_map⟩

theorem bulk_two {m : ℕ} (several : 2 ≤ m) : ∃ rest, bulk m =
    bulkPacket 1 :: bulkPacket 2 :: rest := by
  obtain ⟨n, rfl⟩ := Nat.exists_eq_add_of_le' several
  obtain ⟨rest, indices⟩ : ∃ rest, List.range (n + 2) = 0 :: 1 :: rest := by
    rw [List.range_succ_eq_map, List.range_succ_eq_map]
    exact ⟨_, rfl⟩
  unfold bulk
  rw [indices]
  exact ⟨_, rfl⟩

theorem bulk_size (n : ℕ) : ((bulk n).map PacketUnit.size).sum = n * 1024 := by
  have each : (bulk n).map PacketUnit.size = List.replicate n 1024 := by
    unfold bulk
    rw [List.map_map, ← List.length_range (n := n), ← List.map_const', List.length_range]
    rfl
  rw [each, List.sum_replicate_nat]

theorem bulk_waits (linked : cfg.Linked) (relative : cfg.absolutePsn = false)
    (direct : cfg.usePortWin = false)
    (rule : cfg.dst2group 1 = some (.group 0)) (win : cfg.bdpMap 1 = some 1500) (n : ℕ) :
    ∃ base s : State, s.Reachable cfg (fun _ _ => True) ∧
      base.admitted = [bulkPacket 0] ∧ base.sent = [bulkPacket 0] ∧
      State.Filled cfg base 0 1 476 (bulk n) s := by
  have initial : (State.initial cfg).window cfg (bulkPacket 0).dst = some 1500 := win
  obtain ⟨base, call, sent, admitted, same, window⟩ :=
    State.sendToDev_passes linked relative direct rule initial (by decide) rfl
  have first : (State.initial cfg).step cfg (.data (bulkPacket 0)) = .ok base := call
  have start : State.Filled cfg base 0 1 476 [] base := {
    placed := State.placed_same (State.stored_initial cfg).toPlaced same
    window := window
    known := nofun
    pkts := .inl ⟨rfl, fun v => by
      unfold State.pkts
      rw [same.groups]
      rfl⟩
    buffering := by
      unfold State.getBufferDst
      rw [same.buffering]
      rfl
    admitted := (List.append_nil _).symm
    sent := rfl }
  have large : ∀ p ∈ bulk n, p.dst = 1 ∧ 476 < p.size := by
    intro p member
    obtain ⟨i, -, rfl⟩ := List.mem_map.mp member
    have size : (bulkPacket (i + 1)).size = 1024 := rfl
    exact ⟨rfl, by omega⟩
  obtain ⟨s, reach, filled⟩ :=
    State.filled_run linked relative rule (.step .initial trivial first) start (bulk n) large
  exact ⟨base, s, reach, admitted, sent, filled⟩

end Floodgate

end Pyrrha
