import Pyrrha.Floodgate.PsnOrder
import Pyrrha.Lib.Grid

/-!
The windows of the absolute mode. The PSNs of a row count the bytes that have passed, so a window
bounds what has passed and is not acknowledged, whatever the links do.
-/

namespace Pyrrha
open Lib Finset

namespace Floodgate

variable {cfg : Config} {s t : State} {start : ℕ → ℕ → ℕ} {acktag : ℕ → ℕ} {p p' : PacketUnit}
    {dst inDev d g w row : ℕ}

/-- The entry of `BDPMAP`, or none. -/
def Config.bdp (cfg : Config) (d : ℕ) : ℕ := (cfg.bdpMap d).getD 0

/-- A window and a packet together are a `uint32_t`. -/
def Config.Moderate (cfg : Config) : Prop := ∀ d, cfg.bdp d ≤ 2 ^ 31

namespace State

/-- The bytes of `d` that have passed the windows to `dev`: handed to queues or to the egress
cache. -/
def passedBytes (s : State) (dev d : ℕ) : ℕ :=
  tally PacketUnit.size (fun q => decide (q.outDev = dev ∧ q.dst = d)) s.sent +
    tally PacketUnit.size (fun q => decide (q.outDev = dev ∧ q.dst = d)) (s.egressCache dev)

/-- The windows of a switch, and what they bound. -/
structure Windowed (cfg : Config) (s : State) : Prop where
  wins : ∀ d w, s.wins d = some w → w ≤ cfg.bdp d
  inflight : ∀ d g, cfg.dst2group d = some (.group g) → s.inflight d ≤ cfg.bdp d
  cached : ∀ dev, ∀ q ∈ s.egressCache dev, q.outDev = dev
  bytes : ∀ dev d g, cfg.dst2group d = some (.group g) → s.nxtDataPsn dev d = s.passedBytes dev d

theorem windowed_initial (cfg : Config) : (State.initial cfg).Windowed cfg where
  wins _ _ registered := by cases registered
  inflight d _ _ := by
    have empty : (State.initial cfg).inflight d = 0 := List.sum_eq_zero fun x member => by
      obtain ⟨dev, -, rfl⟩ := List.mem_map.mp member
      rfl
    rw [empty]
    exact Nat.zero_le _
  cached _ _ member := (List.not_mem_nil member).elim
  bytes _ _ _ _ := rfl

/-! ### Windows -/

theorem winAt_le (wins : ∀ d w, s.wins d = some w → w ≤ cfg.bdp d) (d : ℕ) :
    s.winAt d ≤ cfg.bdp d := by
  unfold winAt
  cases known : s.wins d with
  | none => exact Nat.zero_le _
  | some w => exact wins d w known

theorem setWin_le (wins : ∀ d w, s.wins d = some w → w ≤ cfg.bdp d) {win : ℕ}
    (less : win ≤ cfg.bdp dst) : ∀ d w, (s.setWin dst win).wins d = some w → w ≤ cfg.bdp d := by
  intro d w known
  change Function.update s.wins dst (some win) d = some w at known
  rw [Function.update_apply] at known
  split at known
  · rename_i here
    obtain rfl := Option.some.inj known
    rw [here]
    exact less
  · exact wins d w known

theorem ensureRegisteredWin_wins (wins : ∀ d w, s.wins d = some w → w ≤ cfg.bdp d) (d : ℕ) :
    Outcome (fun t => ∀ d w, t.wins d = some w → w ≤ cfg.bdp d) (fun _ => True)
      (s.ensureRegisteredWin cfg d) := by
  unfold ensureRegisteredWin
  split
  · exact wins
  · split
    · trivial
    · rename_i win entry
      have less : win ≤ cfg.bdp (cfg.winKey d) := by
        unfold Config.bdp
        rw [entry]
        exact Nat.le_refl _
      split
      · cases (s.setWin (cfg.winKey d) win).getInflightBytes (cfg.winKey d) with
        | error e => trivial
        | ok n => exact setWin_le wins less
      · exact setWin_le wins less

theorem checkDstWin_wins (wins : ∀ d w, s.wins d = some w → w ≤ cfg.bdp d) (d size : ℕ) :
    Outcome (fun r => ∀ d w, r.1.wins d = some w → w ≤ cfg.bdp d) (fun _ => True)
      (s.checkDstWin cfg d size) := by
  unfold checkDstWin
  apply outcome_bind (ensureRegisteredWin_wins wins d)
  intro t registered
  have touched := setWin_le registered (winAt_le registered d)
  split
  · cases t.getInflightBytes d with
    | error e => trivial
    | ok n => exact touched
  · exact touched

theorem updateDstWin_wins (absolute : cfg.absolutePsn = true)
    (wins : ∀ d w, s.wins d = some w → w ≤ cfg.bdp d) (d size : ℕ) (isAdd : Bool) :
    Outcome (fun t => ∀ d w, t.wins d = some w → w ≤ cfg.bdp d) (fun _ => True)
      (s.updateDstWin cfg d size isAdd) := by
  unfold updateDstWin
  cases cfg.shouldIgnore d with
  | error e => trivial
  | ok ignore =>
    change Outcome _ _ (if _ then _ else _)
    rw [if_pos absolute]
    split
    · exact wins
    · cases s.getInflightBytes d with
      | error e => trivial
      | ok n => exact setWin_le wins (winAt_le wins d)

theorem updateWin_wins (absolute : cfg.absolutePsn = true)
    (wins : ∀ d w, s.wins d = some w → w ≤ cfg.bdp d) (d size dev : ℕ) (isAdd : Bool) :
    Outcome (fun t => ∀ d w, t.wins d = some w → w ≤ cfg.bdp d) (fun _ => True)
      (s.updateWin cfg d size dev isAdd) := by
  unfold updateWin
  apply outcome_bind (updateDstWin_wins absolute wins d size isAdd)
  intro t after
  show ∀ d w, (t.updateEgressWin cfg dev size isAdd).wins d = some w → w ≤ cfg.bdp d
  unfold updateEgressWin
  split
  · exact after
  · split
    · exact after
    · exact after

/-- A packet that passes the test fits the window along with what is in flight. -/
theorem checkDstWin_fits (absolute : cfg.absolutePsn = true) (ordered : s.PsnOrdered)
    (wins : ∀ d w, s.wins d = some w → w ≤ cfg.bdp d) {size : ℕ} (moderate : cfg.bdp d ≤ 2 ^ 31)
    (small : size < 2 ^ 31)
    (before : s.inflight d ≤ cfg.bdp d) {u : State} (opens : s.checkDstWin cfg d size =
      .ok (u, true)) :
    s.inflight d + size ≤ cfg.bdp d := by
  unfold checkDstWin at opens
  obtain ⟨t, registered, opens⟩ := bind_ok opens
  rw [if_pos absolute] at opens
  obtain ⟨n, counted, opens⟩ := bind_ok opens
  have fits := of_decide_eq_true (Prod.mk.inj (Except.ok.inj opens)).2
  have only := outcome_result (ensureRegisteredWin_outcome cfg s d) registered
  have known := winAt_le (outcome_result (ensureRegisteredWin_wins wins d) registered) d
  rw [getInflightBytes_eq (psnOrdered_onlyWins ordered only)] at counted
  have same : t.inflight d = s.inflight d := by
    obtain ⟨wins, rfl⟩ := only
    rfl
  rw [same, Nat.mod_eq_of_lt (by omega)] at counted
  obtain rfl := Except.ok.inj counted
  rw [add32_exact (by omega)] at fits
  exact fits.trans known

/-! ### Packets -/

theorem inflight_sum (s : State) (d : ℕ) :
    s.inflight d = ∑ dev ∈ range switchScale, (s.nxtDataPsn dev d - s.rcvAckPsn dev d) := rfl

/-- A packet that is numbered adds its size to what is in flight for its destination, and nothing
for others. -/
theorem inflight_tagged (tagged : Tagged cfg s t p) (acks : t.rcvAckPsn = s.rcvAckPsn) (d : ℕ) :
    t.inflight d ≤ s.inflight d + if d = p.dst then p.size else 0 := by
  rcases tagged with ⟨-, same⟩ | ⟨-, -, grown⟩
  · rw [inflight_sum, inflight_sum, same, acks]
    exact Nat.le_add_right _ _
  · rw [inflight_sum, inflight_sum, grown, acks]
    by_cases here : d = p.dst
    · subst here
      rw [if_pos rfl]
      by_cases inside : cfg.psnRow p.outDev p.dst ∈ range switchScale
      · have moved :=
          sum_update (fun n => n) (fun dev => s.nxtDataPsn dev p.dst - s.rcvAckPsn dev p.dst) inside
          (s.nxtDataPsn (cfg.psnRow p.outDev p.dst) p.dst +
            p.size - s.rcvAckPsn (cfg.psnRow p.outDev p.dst) p.dst)
        have rows : ∀ dev, update₂ s.nxtDataPsn (cfg.psnRow p.outDev p.dst) p.dst
              (s.nxtDataPsn (cfg.psnRow p.outDev p.dst) p.dst +
                p.size) dev p.dst - s.rcvAckPsn dev p.dst =
            Function.update (fun dev => s.nxtDataPsn dev p.dst - s.rcvAckPsn dev p.dst)
              (cfg.psnRow p.outDev p.dst) (s.nxtDataPsn (cfg.psnRow p.outDev p.dst) p.dst +
                p.size - s.rcvAckPsn (cfg.psnRow p.outDev p.dst) p.dst) dev := by
          intro dev
          rw [update₂_apply, Function.update_apply]
          by_cases same : dev = cfg.psnRow p.outDev p.dst
          · rw [if_pos ⟨same, rfl⟩, if_pos same, same]
          · rw [if_neg fun both => same both.1, if_neg same]
        simp only [rows]
        omega
      · refine (sum_congr rfl fun dev member => ?_).le.trans (Nat.le_add_right _ _)
        rw [update₂_of_ne]
        rintro ⟨rfl, -⟩
        exact inside member
    · rw [if_neg here, Nat.add_zero]
      refine (sum_congr rfl fun dev _ => ?_).le
      rw [update₂_of_ne]
      exact fun both => here both.2

theorem passedBytes_direct (sent : t.sent = s.sent ++ [p]) (cache : t.egressCache = s.egressCache)
    (dev d : ℕ) :
    t.passedBytes dev d = s.passedBytes dev d + if p.outDev = dev ∧ p.dst = d then p.size
      else 0 := by
  unfold passedBytes
  rw [sent, cache, tally_concat]
  simp only [decide_eq_true_eq]
  omega

theorem passedBytes_forwarded (route : Forwarded cfg s t p) (dev d : ℕ) :
    t.passedBytes dev d = s.passedBytes dev d + if p.outDev = dev ∧ p.dst = d then p.size
      else 0 := by
  rcases route with direct | pushed
  · exact passedBytes_direct direct.sent direct.egressCache dev d
  · unfold passedBytes
    rw [pushed.sent, pushed.egressCache, Function.update_apply]
    by_cases here : dev = p.outDev
    · subst here
      rw [if_pos rfl, tally_concat]
      simp only [decide_eq_true_eq]
      omega
    · rw [if_neg here, if_neg fun both => here both.1.symm]
      rfl

theorem windowed_forwarded (absolute : cfg.absolutePsn = true) (link : cfg.resetOnlyToR = false)
    (moderate : cfg.Moderate)
    (ordered : s.PsnOrdered) (h : s.Windowed cfg) (route : Forwarded cfg s t p)
    (tagged : Tagged cfg s t p)
    (debited : Debited cfg s t p.dst p.size) (acks : SameAcks s t) : t.Windowed cfg := by
  obtain ⟨u, v, x, opens, registered, logged, after⟩ := debited
  constructor
  · rw [after]
    have tested := outcome_result (checkDstWin_wins h.wins p.dst p.size) opens
    rw [← registered] at tested
    have written := outcome_result (updateDstWin_wins absolute tested p.dst p.size false) logged
    exact written
  · intro d g group
    have moved := inflight_tagged tagged acks.rcvAckPsn d
    by_cases here : d = p.dst
    · subst here
      rw [if_pos rfl] at moved
      exact moved.trans (checkDstWin_fits absolute ordered h.wins (moderate _) p.size_lt
        (h.inflight _ g group) opens)
    · rw [if_neg here, Nat.add_zero] at moved
      exact moved.trans (h.inflight d g group)
  · intro dev q member
    rcases route with direct | pushed
    · rw [direct.egressCache] at member
      exact h.cached dev q member
    · rw [pushed.egressCache, Function.update_apply] at member
      split at member
      · rename_i here
        rcases List.mem_append.mp member with old | new
        · exact (h.cached _ q old).trans here.symm
        · rw [List.mem_singleton.mp new, here]
      · exact h.cached dev q member
  · intro dev d g group
    have before := h.bytes dev d g group
    rw [passedBytes_forwarded route, ← before]
    have row : cfg.psnRow p.outDev p.dst = p.outDev := by
      rw [Config.psnRow, link]
      rfl
    rcases tagged with ⟨relative, -⟩ | ⟨-, -, grown⟩
    · rw [absolute] at relative
      cases relative
    · rw [grown, update₂_apply, row]
      by_cases here : p.outDev = dev ∧ p.dst = d
      · obtain ⟨rfl, rfl⟩ := here
        rw [if_pos ⟨rfl, rfl⟩, if_pos ⟨rfl, rfl⟩]
      · rw [if_neg fun both => here ⟨both.1.symm, both.2.symm⟩, if_neg here]
        rfl

theorem windowed_written (h : s.Windowed cfg) (wins : ∀ d w, t.wins d = some w → w ≤ cfg.bdp d)
    (inflight : ∀ d, t.inflight d ≤ s.inflight d) (sent : t.sent = s.sent)
    (cache : t.egressCache = s.egressCache)
    (nxt : t.nxtDataPsn = s.nxtDataPsn) : t.Windowed cfg := by
  refine ⟨wins, fun d g rule => (inflight d).trans (h.inflight d g rule), ?_,
    fun dev d g rule => ?_⟩
  · rw [cache]
    exact h.cached
  · rw [nxt, passedBytes, sent, cache]
    exact h.bytes dev d g rule

theorem inflight_same (acks : t.rcvAckPsn = s.rcvAckPsn)
    (nxt : t.nxtDataPsn = s.nxtDataPsn) (d : ℕ) : t.inflight d ≤ s.inflight d := by
  rw [inflight_sum, inflight_sum, acks, nxt]

theorem windowed_cached (h : s.Windowed cfg) {dev : ℕ} {rest : List PacketUnit}
    (front : s.egressCache dev = p :: rest)
    (out : SentCached cfg s t dev p rest) : t.Windowed cfg := by
  have outDev : p.outDev = dev := h.cached dev p (front ▸ List.mem_cons_self)
  refine ⟨?_, fun d g rule => ?_, fun i q member => ?_, fun i d g rule => ?_⟩
  · rw [out.wins]
    exact h.wins
  · exact (inflight_same out.acks.rcvAckPsn out.nxtDataPsn d).trans (h.inflight d g rule)
  · rw [out.egressCache, Function.update_apply] at member
    split at member
    · rename_i here
      rw [here]
      exact h.cached dev q (front ▸ List.mem_cons_of_mem p member)
    · exact h.cached i q member
  · rw [out.nxtDataPsn, h.bytes i d g rule]
    unfold passedBytes
    rw [out.sent, out.egressCache, tally_concat, Function.update_apply]
    by_cases here : i = dev
    · subst here
      rw [if_pos rfl, front, tally_cons]
      omega
    · have other : ¬(p.outDev = i ∧ p.dst = d) := fun both => here (both.1.symm.trans outDev)
      rw [if_neg here]
      simp [other]

theorem windowed_rule (absolute : cfg.absolutePsn = true) (link : cfg.resetOnlyToR = false)
    (moderate : cfg.Moderate) (start : ℕ → ℕ → ℕ) : ReleaseRule cfg (fun t => t.Onward cfg start ∧
      t.Windowed cfg) Assert.NoInflight where
  one s g voqId before := by
    have onward := (onward_rule absolute start).one s g voqId before.1
    have windowed : Outcome (fun r => r.1.Windowed cfg) (fun _ => True)
        (s.checkAndSendOne cfg g voqId) := by
      refine outcome_of (fun r ends => ?_) fun _ _ => trivial
      have after := outcome_result (checkAndSendOne_outcome cfg s g voqId) ends
      split at after
      · obtain ⟨p, out⟩ := after
        exact windowed_forwarded absolute link moderate before.1.ordered before.2 out.route
          out.tagged out.wins out.acks
      · obtain ⟨-, same⟩ | ⟨top, rest, -, closed⟩ := after.test
        · rw [same]
          exact before.2
        · have only := after.only.rewindowed
          have wins := outcome_result (checkDstWin_wins before.2.wins top.dst top.size) closed
          exact windowed_written before.2 wins
            (inflight_same only.sameAcks.rcvAckPsn only.nxtDataPsn) only.sent
            only.egressCache only.nxtDataPsn
    exact outcome_also onward windowed
  cached s dev top rest before front _ := by
    have out := sentCached cfg s dev top rest
    exact ⟨onward_cached before.1 front out, windowed_cached before.2 front out⟩
  known := (by decide : Assert.shouldIgnore ≠ .getInflightBytes)
  found _ _ _ _ _ _ := .inr (by decide : Assert.checkAndSendVOQ ≠ .getInflightBytes)

/-! ### Steps -/

theorem updateWin_windowed (absolute : cfg.absolutePsn = true) (h : s.Windowed cfg) {u : State}
    (wins : u.wins = s.wins) (inflight : ∀ d, u.inflight d ≤ s.inflight d) (sent : u.sent = s.sent)
    (cache : u.egressCache = s.egressCache) (nxt : u.nxtDataPsn = s.nxtDataPsn) (d size dev : ℕ) :
    Outcome (fun t => t.Windowed cfg) (fun _ => True) (u.updateWin cfg d size dev true) := by
  have before : ∀ d w, u.wins d = some w → w ≤ cfg.bdp d := by
    rw [wins]
    exact h.wins
  refine outcome_of (fun t ends => ?_) fun _ _ => trivial
  have only := outcome_result (updateWin_outcome cfg u d size dev true) ends
  have after := outcome_result (updateWin_wins absolute before d size dev true) ends
  refine windowed_written h after (fun d => ?_) (only.sent.trans sent)
    (only.egressCache.trans cache) (only.nxtDataPsn.trans nxt)
  exact (inflight_same only.sameAcks.rcvAckPsn only.nxtDataPsn d).trans (inflight d)

theorem inflight_setRcvAck (s : State) {row psn : ℕ} (news : s.rcvAckPsn row dst ≤ psn) (d : ℕ) :
    (s.setRcvAck row dst psn).inflight d ≤ s.inflight d := by
  rw [inflight_sum, inflight_sum]
  apply sum_le_sum
  intro dev _
  show s.nxtDataPsn dev d - update₂ s.rcvAckPsn row dst psn dev d ≤ _
  rw [update₂_apply]
  split
  · rename_i here
    obtain ⟨rfl, rfl⟩ := here
    omega
  · exact Nat.le_refl _

theorem recoverDst_windowed (absolute : cfg.absolutePsn = true) (h : s.Windowed cfg) (i : ℕ) :
    Outcome (fun t => t.Windowed cfg) (fun _ => True) (s.recoverDst cfg inDev acktag i) := by
  unfold recoverDst
  dsimp only
  rw [if_pos absolute]
  split
  · split
    · rename_i news
      have less := inflight_setRcvAck s (Nat.le_of_lt news)
      exact updateWin_windowed (u := s.setRcvAck _ i _) absolute h rfl less rfl rfl rfl i _ inDev
    · exact updateWin_windowed absolute h rfl (fun _ => Nat.le_refl _) rfl rfl rfl i _ inDev
  · exact h

theorem resumeDst_windowed (absolute : cfg.absolutePsn = true) (h : s.Windowed cfg) (acked : ℕ) :
    Outcome (fun t => t.Windowed cfg) (fun _ => True) (s.resumeDst cfg acked dst inDev) := by
  unfold resumeDst
  dsimp only
  rw [if_pos absolute]
  split
  · rename_i news
    have more : s.rcvAckPsn (cfg.psnRow inDev dst) dst ≤ acked :=
      (Nat.le_of_lt news).trans (Nat.mod_le _ _)
    have less := inflight_setRcvAck s more
    exact updateWin_windowed (u := s.setRcvAck _ dst _) absolute h rfl less rfl rfl rfl dst _ inDev
  · exact updateWin_windowed absolute h rfl (fun _ => Nat.le_refl _) rfl rfl rfl dst _ inDev

theorem updateSynTime_windowed (h : s.Windowed cfg) (dev : ℕ) :
    (s.updateSynTime cfg dev dst acktag).Windowed cfg := by
  have same := updateSynTime_rcvAck cfg s dev dst acktag
  have credited := updateSynTime_credited cfg s dev dst acktag
  have wins : (s.updateSynTime cfg dev dst acktag).wins = s.wins := by
    unfold updateSynTime startTimer noteAckTimes
    split
    · rfl
    · split <;> split <;> rfl
  refine windowed_written h ?_ (inflight_same same.1 same.2) credited.sent
    credited.egressCache same.2
  rw [wins]
  exact h.wins

theorem sendToDev_windowed (absolute : cfg.absolutePsn = true) (link : cfg.resetOnlyToR = false)
    (moderate : cfg.Moderate)
    (ordered : s.PsnOrdered) (h : s.Windowed cfg) (call : s.sendToDev cfg p = .ok t) :
    t.Windowed cfg := by
  have before : { s with admitted := s.admitted ++ [p] }.Windowed cfg :=
    windowed_written h h.wins (fun _ => Nat.le_refl _) rfl rfl rfl
  rcases outcome_result (sendToDev_outcome cfg s p) call with
    ignored | ⟨p', passed⟩ | ⟨g, voqId, G, held⟩
  · rw [ignored.eq]
    refine ⟨before.wins, before.inflight, before.cached, fun dev d g rule => ?_⟩
    have other : ¬(p.outDev = dev ∧ p.dst = d) := by
      rintro ⟨-, rfl⟩
      rw [ignored.rule] at rule
      cases rule
    have same := passedBytes_direct (s := { s with admitted := s.admitted ++ [p] })
      (t := doSwitchSend { s with admitted := s.admitted ++ [p] } p) rfl rfl dev d
    rw [if_neg other, Nat.add_zero] at same
    rw [same]
    exact before.bytes dev d g rule
  · obtain ⟨dst, size, -, -⟩ := PacketUnit.bare_fields passed.bare
    have debited := passed.wins
    rw [← dst, ← size] at debited
    have start : { s with admitted := s.admitted ++ [p] }.PsnOrdered := ordered
    exact windowed_forwarded absolute link moderate start before passed.route passed.tagged
      debited passed.acks
  · obtain ⟨u, fits, tested, wins, -⟩ := held.tested
    refine windowed_written before ?_ (inflight_same held.acks.rcvAckPsn held.nxtDataPsn) held.sent
      held.egressCache held.nxtDataPsn
    rw [wins]
    have after := outcome_result (checkDstWin_wins before.wins p.dst p.size) tested
    exact after

theorem resumeVOQWin_windowed (absolute : cfg.absolutePsn = true) (link : cfg.resetOnlyToR = false)
    (moderate : cfg.Moderate) (onward : s.Onward cfg start) (h : s.Windowed cfg)
    (valid : (Event.switchAck acktag dst inDev).AckValid cfg s) :
    Outcome (fun r => r.1.Windowed cfg) Assert.NoInflight
      (s.resumeVOQWin cfg acktag dst inDev) := by
  have resumed := resumeVOQWin_valid (windowed_rule absolute link moderate s.nxtDataPsn) valid
    ⟨onward_updateSynTime (onward_again onward) _, updateSynTime_windowed h _⟩
    (fun u i entry before => outcome_also (recoverDst_onward absolute before.1 entry)
      (recoverDst_windowed absolute before.2 i))
    fun u entry before => outcome_also (resumeDst_onward absolute before.1 entry)
      (resumeDst_windowed absolute before.2 _)
  exact outcome_weaken resumed fun r after => after.2

theorem step_windowed (absolute : cfg.absolutePsn = true) (link : cfg.resetOnlyToR = false)
    (moderate : cfg.Moderate)
    (onward : s.Onward cfg start) (h : s.Windowed cfg) {ev : Event} (allowed : ev.Unnumbered cfg s)
    (call : s.step cfg ev = .ok t) : t.Windowed cfg := by
  cases ev with
  | data p => exact sendToDev_windowed absolute link moderate onward.ordered h call
  | switchAck acktag dst inDev =>
    obtain ⟨keep, resumed⟩ := step_switchAck call
    have after :=
      outcome_result (resumeVOQWin_windowed absolute link moderate onward h allowed) resumed
    exact after
  | advance now =>
    obtain rfl := Except.ok.inj call
    exact windowed_written h h.wins (fun _ => Nat.le_refl _) rfl rfl rfl
  | synTimeout dev =>
    obtain rfl := Except.ok.inj call
    have same := synTimeout_credited cfg s dev
    have written : (s.synTimeout cfg dev).wins = s.wins ∧ (s.synTimeout cfg dev).rcvAckPsn =
        s.rcvAckPsn := by
      unfold synTimeout
      dsimp only
      split <;> exact ⟨rfl, rfl⟩
    refine windowed_written h ?_ (inflight_same written.2 same.nxtDataPsn) same.sent
      same.egressCache same.nxtDataPsn
    rw [written.1]
    exact h.wins

end State

namespace PsnNetwork

variable {net : PsnNetwork} {s t : State}

theorem moveUp_step {ev : Floodgate.Event} (call : net.moveUp s ev = .ok t) :
    s.up.step net.up ev = .ok t.up := by
  unfold moveUp at call
  cases moved : s.up.step net.up ev with
  | error e =>
    rw [moved] at call
    cases call
  | ok u =>
    rw [moved] at call
    obtain rfl := Except.ok.inj call
    rfl

theorem moveDown_up {p : ℕ} {stored : List PacketUnit} {moved : Credit.Checked Credit.Downstream}
    (call : moveDown s p stored moved = .ok t) : t.up = s.up := by
  unfold moveDown at call
  cases moved with
  | error e => cases call
  | ok x =>
    obtain rfl := Except.ok.inj call
    rfl

/-- What happens in a network to the switch is a step of it, or nothing. -/
theorem step_up (h : net.Chained s) {ev : net.Event} (allowed : net.Allowed s ev)
    (call : net.step s ev = .ok t) :
    t.up = s.up ∨ ∃ ev : Floodgate.Event, ev.Unnumbered net.up s.up ∧
    s.up.step net.up ev = .ok t.up := by
  cases ev with
  | up ev => exact .inr ⟨ev, up_unnumbered allowed, moveUp_step call⟩
  | data k =>
    unfold step at call
    dsimp only at call
    split at call
    · split at call
      · exact .inl (moveDown_up call)
      · cases call
    · cases call
  | dequeue p k =>
    unfold step at call
    dsimp only at call
    split at call
    · split at call
      · exact .inl (moveDown_up call)
      · cases call
    · cases call
  | syn k =>
    unfold step at call
    dsimp only at call
    split at call
    · exact .inl (moveDown_up call)
    · cases call
  | switchAck p k =>
    unfold step at call
    dsimp only at call
    split at call
    · rename_i a sent
      split at call
      · rename_i here
        have valid := switchAck_valid h (List.mem_of_getElem? sent) here
        exact .inr ⟨.switchAck a.acktag a.dst p, valid, moveUp_step call⟩
      · cases call
    · cases call
  | down p ev => exact .inl (moveDown_up call)
  | otherData p dev dst psn => exact .inl (moveDown_up call)
  | otherSyn p syn => exact .inl (moveDown_up call)

theorem windowed_reachable (moderate : net.up.Moderate) (reach : net.Reachable s) :
    s.up.Windowed net.up := by
  induction reach with
  | initial => exact State.windowed_initial net.up
  | @step s t ev before allowed call windowed =>
    have chained := chained_reachable before
    rcases step_up chained allowed call with same | ⟨ev, bare, moved⟩
    · rw [same]
      exact windowed
    · exact State.step_windowed net.absolute net.link moderate chained.up windowed bare moved

/-- In any interleaving, the bytes of a destination that have passed its window and are not
acknowledged are the ones `GetInflightBytes` counts, and at most the window; so what has passed is
at most a window ahead of what the neighbours have acknowledged. -/
theorem psn_window (moderate : net.up.Moderate) (reach : net.Reachable s)
    (rule : net.up.dst2group d = some (.group g)) :
    (∃ n ≤ net.up.bdp d, s.up.getInflightBytes d = .ok n ∧
      ∑ p ∈ range switchScale, s.up.passedBytes p d = n + ∑ p ∈ range switchScale,
        s.up.rcvAckPsn p d) ∧
    ∑ p ∈ range switchScale, s.up.passedBytes p d ≤
      net.up.bdp d + ∑ p ∈ range switchScale, (s.down p).state.lstAckPsn (net.inDev p) d := by
  have chained := chained_reachable reach
  have windowed := windowed_reachable moderate reach
  have bound := windowed.inflight d g rule
  have small := moderate d
  have counted := (State.getInflightBytes_exact chained.up.ordered d).mpr (by omega)
  have apart : ∑ p ∈ range switchScale, s.up.passedBytes p d =
      s.up.inflight d + ∑ p ∈ range switchScale, s.up.rcvAckPsn p d := by
    rw [State.inflight_sum, ← sum_add_distrib]
    apply sum_congr rfl
    intro p _
    rw [← windowed.bytes p d g rule, Nat.sub_add_cancel (chained.up.ordered p d)]
  have acked : ∑ p ∈ range switchScale, s.up.rcvAckPsn p d ≤
      ∑ p ∈ range switchScale, (s.down p).state.lstAckPsn (net.inDev p) d :=
        sum_le_sum fun p _ => chained.acked p d
  exact ⟨⟨s.up.inflight d, bound, counted, apart⟩, by omega⟩

end PsnNetwork

theorem prompt_moderate : promptNetwork.up.Moderate := by
  intro d
  show (synConfig.bdpMap d).getD 0 ≤ 2 ^ 31
  unfold synConfig smallConfig
  dsimp only
  split
  · decide
  · decide

/-- The window of 5000 bytes is open for five packets; the sixth waits although the first has
arrived. -/
theorem psn_window_full : ∃ s, promptNetwork.Reachable s ∧ s.up.pkts 0 1 ≠ [] ∧
    ∃ n ≤ 5000, s.up.getInflightBytes 1 = .ok n ∧
      ∑ p ∈ range switchScale, s.up.passedBytes p 1 = n + ∑ p ∈ range switchScale,
        s.up.rcvAckPsn p 1 := by
  obtain ⟨s, reach, waits⟩ : ∃ s, promptNetwork.Reachable s ∧ s.up.pkts 0 1 ≠ [] :=
    PsnNetwork.exists_run [.up (.data (smallPacket 0 999)), .up (.data (smallPacket 1 999)),
      .up (.data (smallPacket 2 999)),
      .up (.data (smallPacket 3 999)), .up (.data (smallPacket 4 999)),
        .up (.data (smallPacket 5 999)), .data 0, .dequeue 1 0]
      (by decide +kernel)
  exact ⟨s, reach, waits, (@PsnNetwork.psn_window 1 0 promptNetwork s prompt_moderate reach rfl).1⟩

end Floodgate

end Pyrrha
