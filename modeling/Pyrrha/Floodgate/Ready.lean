import Pyrrha.Floodgate.Linked
import Pyrrha.Floodgate.Loops
import Pyrrha.Floodgate.Overflow

/-!
What holds, hop by hop, of the windows of the destinations whose packets wait: they are registered,
their PSNs are in order, and a window of 0 lets nothing pass.
-/

namespace Pyrrha
open Lib

namespace Floodgate

variable {cfg : Config} {s t u : State} {g voqId d n w : ℕ} {p p' : PacketUnit}

namespace State

/-- What `CheckDstWin` reads for `d` is the same. -/
structure Same (d : ℕ) (s t : State) : Prop where
  wins : t.wins d = s.wins d
  nxtDataPsn : ∀ row, t.nxtDataPsn row d = s.nxtDataPsn row d
  rcvAckPsn : ∀ row, t.rcvAckPsn row d = s.rcvAckPsn row d

/-- `CheckDstWin` finds the window of `d` closed for `n` bytes. -/
def Closed (cfg : Config) (s : State) (d n : ℕ) : Prop :=
  ∃ w, s.wins d = some w ∧ s.admitsBytes cfg d n w = .ok false

theorem getInflightBytes_same (same : Same d s t) :
    t.getInflightBytes d = s.getInflightBytes d := by
  have step : t.addInflight d = s.addInflight d := by
    funext inflight dev
    unfold addInflight
    rw [same.nxtDataPsn, same.rcvAckPsn]
  unfold getInflightBytes
  rw [step]

theorem admitsBytes_same (same : Same d s t) : t.admitsBytes cfg d n w =
    s.admitsBytes cfg d n w := by
  unfold admitsBytes
  rw [getInflightBytes_same same]

theorem closed_same (same : Same d s t) (closed : s.Closed cfg d n) : t.Closed cfg d n := by
  obtain ⟨w, known, answer⟩ := closed
  exact ⟨w, same.wins.trans known, (admitsBytes_same same).trans answer⟩

theorem closed_checkDstWin (linked : cfg.Linked) (closed : s.Closed cfg d n) :
    s.checkDstWin cfg d n = .ok (s, false) := by
  obtain ⟨w, known, answer⟩ := closed
  rw [checkDstWin_linked linked (window_known cfg known), answer]
  show Except.ok (s.setWin d w, false) = _
  rw [setWin_self known]

/-! ### PSNs -/

/-- No row of `d` has more acknowledged than sent. -/
def InOrder (s : State) (d : ℕ) : Prop := ∀ row < switchScale, s.rcvAckPsn row d ≤
    s.nxtDataPsn row d

theorem foldlM_inOrder {devs : List ℕ} {start k : ℕ}
    (ended : devs.foldlM (s.addInflight d) start = .ok k) :
    ∀ dev ∈ devs, s.rcvAckPsn dev d ≤ s.nxtDataPsn dev d := by
  induction devs generalizing start with
  | nil => exact fun _ => nofun
  | cons dev rest ih =>
    rw [List.foldlM_cons] at ended
    obtain ⟨x, first, ended⟩ := bind_ok ended
    intro dev' member
    rcases List.mem_cons.mp member with rfl | member
    · unfold addInflight at first
      split at first
      · cases first
      · omega
    · exact ih ended dev' member

theorem inOrder_of_ok {k : ℕ} (ended : s.getInflightBytes d = .ok k) : s.InOrder d :=
  fun row below => foldlM_inOrder ended row (List.mem_range.mpr below)

theorem getInflightBytes_inOrder (order : s.InOrder d) : ∃ k, s.getInflightBytes d = .ok k := by
  have runs : ∀ devs : List ℕ, (∀ dev ∈ devs, s.rcvAckPsn dev d ≤ s.nxtDataPsn dev d) →
      ∀ start, ∃ k, devs.foldlM (s.addInflight d) start = .ok k := by
    intro devs
    induction devs with
    | nil => exact fun _ start => ⟨start, rfl⟩
    | cons dev rest ih =>
      intro ordered start
      have first := ordered dev List.mem_cons_self
      rw [List.foldlM_cons, addInflight, if_neg (Nat.not_lt.mpr first)]
      exact ih (fun dev' member => ordered dev' (List.mem_cons_of_mem dev member)) _
  exact runs _ (fun dev member => order dev (List.mem_range.mp member)) 0

/-- Nothing is in flight of a destination that nothing has been sent to. -/
theorem getInflightBytes_unsent (unsent : ∀ row, s.nxtDataPsn row d = 0) {k : ℕ}
    (ended : s.getInflightBytes d = .ok k) : k = 0 := by
  have rule : Outcome (fun k => k = 0) (fun _ => True) (s.getInflightBytes d) := by
    unfold getInflightBytes
    refine outcome_foldlM (fun dev _ inflight zero => ?_) rfl
    unfold addInflight
    split
    · trivial
    · rw [zero, unsent, Nat.zero_sub]
      rfl
  have zero := outcome_result rule ended
  exact zero

theorem admitsBytes_inOrder {fits : Bool} (absolute : cfg.absolutePsn = true)
    (answer : s.admitsBytes cfg d n w = .ok fits) : s.InOrder d := by
  unfold admitsBytes at answer
  rw [if_pos absolute] at answer
  cases inflight : s.getInflightBytes d with
  | error e =>
    rw [inflight] at answer
    cases answer
  | ok k => exact inOrder_of_ok inflight

/-! ### The invariant -/

/-- What holds of windows while packets wait. -/
structure Ready (cfg : Config) (s : State) : Prop extends Stored cfg s where
  registered : ∀ g v, ∀ p ∈ s.pkts g v, s.wins p.dst ≠ none
  inOrder : cfg.absolutePsn = true → ∀ g v, ∀ p ∈ s.pkts g v, s.InOrder p.dst
  idle : cfg.absolutePsn = true → ∀ d, s.winAt d = 0 → ∀ row, s.nxtDataPsn row d = 0
  ignored : ∀ d, cfg.dst2group d = some .ignore → s.wins d = none

/-- The window of a destination that is not ignored has been written; the absolute mode never
changes it. -/
def Wrote (cfg : Config) (s t : State) (d : ℕ) : Prop :=
  (∃ g, cfg.dst2group d = some (.group g)) ∧
    ∃ w, t.wins = Function.update s.wins d (some w) ∧
      (cfg.absolutePsn = true → s.wins d = some w ∨ s.wins d = none)

theorem ready_initial (cfg : Config) : (State.initial cfg).Ready cfg where
  toStored := stored_initial cfg
  registered _ _ _ member := (List.not_mem_nil member).elim
  inOrder _ _ _ _ member := (List.not_mem_nil member).elim
  idle _ _ _ _ := rfl
  ignored _ _ := rfl

theorem Wrote.registered (h : Wrote cfg s t d) {d' : ℕ} (known : s.wins d' ≠ none) :
    t.wins d' ≠ none := by
  obtain ⟨-, w, wins, -⟩ := h
  rw [wins, Function.update_apply]
  split
  · simp
  · exact known

theorem Wrote.ignored (h : Wrote cfg s t d) {d' : ℕ} (rule : cfg.dst2group d' = some .ignore) :
    t.wins d' = s.wins d' := by
  obtain ⟨⟨g, grouped⟩, w, wins, -⟩ := h
  rw [wins, Function.update_of_ne]
  rintro rfl
  rw [rule] at grouped
  cases grouped

theorem Wrote.winAt (h : Wrote cfg s t d) (absolute : cfg.absolutePsn = true) {d' : ℕ}
    (zero : t.winAt d' = 0) : s.winAt d' = 0 := by
  obtain ⟨-, w, wins, kept⟩ := h
  unfold State.winAt at zero ⊢
  rw [wins, Function.update_apply] at zero
  split at zero
  · rename_i here
    rw [here]
    rcases kept absolute with same | none
    · rw [same]
      exact zero
    · rw [none]
      rfl
  · exact zero

theorem Wrote.other (h : Wrote cfg s t d) {d' : ℕ} (other : d' ≠ d) : t.wins d' = s.wins d' := by
  obtain ⟨-, w, wins, -⟩ := h
  rw [wins, Function.update_of_ne other]

theorem opens_pos (ready : s.Ready cfg) (absolute : cfg.absolutePsn = true)
    (has : s.window cfg d = some w)
    (zero : s.wins d = none ∨ s.wins d = some w) (opens : s.admitsBytes cfg d n w = .ok true)
    (pos : 0 < n) (small : n < 2 ^ 31) : w ≠ 0 := by
  rintro rfl
  have none : s.winAt d = 0 := by
    unfold winAt
    rcases zero with unknown | known
    · rw [unknown]
      rfl
    · rw [known]
      rfl
  unfold admitsBytes at opens
  rw [if_pos absolute] at opens
  cases inflight : s.getInflightBytes d with
  | error e =>
    rw [inflight] at opens
    cases opens
  | ok k =>
    rw [inflight, getInflightBytes_unsent (ready.idle absolute d none) inflight] at opens
    have fits := of_decide_eq_true (Except.ok.inj opens)
    rw [add32_exact (by omega)] at fits
    omega

/-! ### Packets that go on -/

theorem wrote_debited (linked : cfg.Linked) (rule : cfg.dst2group d = some (.group g))
    (h : Debited cfg s t d n) : Wrote cfg s t d := by
  obtain ⟨w, has, -, wins⟩ := h.linked linked rule
  refine ⟨⟨g, rule⟩, lowered cfg w n, wins, fun absolute => ?_⟩
  unfold lowered
  rw [if_pos absolute]
  unfold window at has
  cases known : s.wins d with
  | none => exact .inr rfl
  | some w' =>
    rw [known] at has
    exact .inl has

theorem nxtData_tagged (h : Tagged cfg s t p) :
    (∀ row d, s.nxtDataPsn row d ≤ t.nxtDataPsn row d) ∧ ∀ d, d ≠ p.dst →
    ∀ row, t.nxtDataPsn row d = s.nxtDataPsn row d := by
  rcases h with ⟨-, same⟩ | ⟨-, -, grown⟩
  · rw [same]
    exact ⟨fun _ _ => le_refl _, fun _ _ _ => rfl⟩
  · rw [grown]
    refine ⟨fun row d => ?_, fun d other row => ?_⟩
    · rw [update₂_apply]
      split
      · rename_i here
        obtain ⟨rfl, rfl⟩ := here
        exact Nat.le_add_right _ _
      · exact le_refl _
    · rw [update₂_apply, if_neg fun here => other here.2]

/-- A packet that has passed its window leaves the other destinations alone. -/
theorem same_debited (linked : cfg.Linked) (rule : cfg.dst2group p.dst = some (.group g))
    (debit : Debited cfg s t p.dst n) (tagged : Tagged cfg s t p) (acks : SameAcks s t)
    (other : d ≠ p.dst) : Same d s t where
  wins := (wrote_debited linked rule debit).other other
  nxtDataPsn := (nxtData_tagged tagged).2 d other
  rcvAckPsn row := by rw [acks.rcvAckPsn]

theorem ready_debited (linked : cfg.Linked) (ready : s.Ready cfg) (stored : t.Stored cfg)
    (rule : cfg.dst2group p.dst = some (.group g)) (debit : Debited cfg s t p.dst p.size)
    (tagged : Tagged cfg s t p)
    (acks : SameAcks s t) (old : ∀ g v, ∀ q ∈ t.pkts g v, ∃ g' v', q ∈ s.pkts g' v') :
    t.Ready cfg := by
  have wrote := wrote_debited linked rule debit
  obtain ⟨grows, others⟩ := nxtData_tagged tagged
  refine ⟨stored, fun g v q member => ?_, fun absolute g v q member row below => ?_,
    fun absolute d zero row => ?_, fun d ignore => ?_⟩
  · obtain ⟨g', v', waited⟩ := old g v q member
    exact wrote.registered (ready.registered g' v' q waited)
  · obtain ⟨g', v', waited⟩ := old g v q member
    rw [acks.rcvAckPsn]
    exact (ready.inOrder absolute g' v' q waited row below).trans (grows row q.dst)
  · by_cases here : d = p.dst
    · subst here
      obtain ⟨w, has, opens, wins⟩ := debit.linked linked rule
      have known : s.wins p.dst = none ∨ s.wins p.dst = some w := by
        unfold window at has
        cases entry : s.wins p.dst with
        | none => exact .inl rfl
        | some w' =>
          rw [entry] at has
          exact .inr has
      have pos := opens_pos ready absolute has known opens p.size_pos p.size_lt
      have entry : t.winAt p.dst = w := by
        unfold winAt
        rw [wins, Function.update_self, lowered, if_pos absolute, Option.getD_some]
      exact absurd (entry.symm.trans zero) pos
    · rw [others d here]
      exact ready.idle absolute d (wrote.winAt absolute zero) row
  · rw [wrote.ignored ignore]
    exact ready.ignored d ignore

theorem ready_released (linked : cfg.Linked) (ready : s.Ready cfg)
    (h : Released cfg s t g voqId p) : t.Ready cfg := by
  obtain ⟨top, front, bare, others⟩ := shelf_released h
  have member : top ∈ s.pkts g voqId := front ▸ List.mem_cons_self
  have rule : cfg.dst2group p.dst = some (.group g) := by
    rw [← (PacketUnit.bare_fields bare).1]
    exact ready.ruled g voqId top member
  refine ready_debited linked ready (stored_released ready.toStored h) rule h.wins
    h.tagged h.acks ?_
  intro g' v q waits
  refine ⟨g', v, ?_⟩
  by_cases here : (g', v) = (g, voqId)
  · obtain ⟨rfl, rfl⟩ := Prod.mk.inj here
    rw [front]
    exact List.mem_cons_of_mem top waits
  · have same : t.pkts g' v = s.pkts g' v := others (g', v) here
    exact same ▸ waits

theorem ready_passed (linked : cfg.Linked) (ready : s.Ready cfg) (h : Passed cfg s t p p') :
    t.Ready cfg := by
  obtain ⟨dst, size, -, -⟩ := PacketUnit.bare_fields h.bare
  obtain ⟨g, rule⟩ := h.grouped
  rw [← dst] at rule
  have debit : Debited cfg s t p'.dst p'.size := by
    rw [dst, size]
    exact h.wins
  refine ready_debited linked ready (stored_same ready.toStored h.voqs) rule debit
    h.tagged h.acks ?_
  intro g' v q waits
  refine ⟨g', v, ?_⟩
  unfold pkts at waits ⊢
  rw [h.voqs.groups] at waits
  exact waits

theorem ready_held (linked : cfg.Linked) (ready : s.Ready cfg) {G : Group}
    (held : Held cfg s t g voqId G p)
    (space : s.getBufferDst p.dst + p.size < 2 ^ 32) : t.Ready cfg := by
  obtain ⟨u, fits, tested, wins, -⟩ := held.tested
  obtain ⟨w, has, rfl, answer⟩ := checkDstWin_ok linked tested
  have entry : t.wins = Function.update s.wins p.dst (some w) := wins
  have wrote : Wrote cfg s t p.dst := by
    refine ⟨⟨g, held.rule⟩, w, entry, fun _ => ?_⟩
    unfold window at has
    cases known : s.wins p.dst with
    | none => exact .inr rfl
    | some w' =>
      rw [known] at has
      exact .inl has
  obtain ⟨joined, others⟩ := shelf_held held (ready.got held)
  have members : ∀ g' v, ∀ q ∈ t.pkts g' v, q ∈ s.pkts g' v ∨ q = p := by
    intro g' v q waits
    by_cases here : (g', v) = (g, voqId)
    · obtain ⟨rfl, rfl⟩ := Prod.mk.inj here
      rw [joined, List.mem_append, List.mem_singleton] at waits
      exact waits
    · have same : t.pkts g' v = s.pkts g' v := others (g', v) here
      exact .inl (same ▸ waits)
  refine ⟨stored_held ready.toStored held space, fun g' v q waits => ?_,
    fun absolute g' v q waits row below => ?_, fun absolute d zero row => ?_, fun d ignore => ?_⟩
  · rcases members g' v q waits with old | rfl
    · exact wrote.registered (ready.registered g' v q old)
    · rw [entry, Function.update_self]
      exact Option.some_ne_none w
  · rw [held.acks.rcvAckPsn, held.nxtDataPsn]
    rcases members g' v q waits with old | rfl
    · exact ready.inOrder absolute g' v q old row below
    · exact admitsBytes_inOrder absolute answer row below
  · rw [held.nxtDataPsn]
    exact ready.idle absolute d (wrote.winAt absolute zero) row
  · rw [wrote.ignored ignore]
    exact ready.ignored d ignore

/-- A test of a destination that waits changes nothing, and where it lets nothing pass the window is
closed. -/
theorem blocked_same (linked : cfg.Linked) (ready : s.Ready cfg) (h : Blocked cfg s t g voqId) :
    t = s ∧ ∀ top rest, s.pkts g voqId = top :: rest → s.Closed cfg top.dst top.size := by
  rcases h.test with ⟨empty, same⟩ | ⟨top, rest, front, tested⟩
  · refine ⟨same, fun top rest front => ?_⟩
    rw [empty] at front
    cases front
  · obtain ⟨w, has, rfl, answer⟩ := checkDstWin_ok linked tested
    have member : top ∈ s.pkts g voqId := front ▸ List.mem_cons_self
    have known : s.wins top.dst = some w := by
      obtain ⟨w', known⟩ := Option.ne_none_iff_exists'.mp (ready.registered g voqId top member)
      rw [window_known cfg known] at has
      rw [known, has]
    refine ⟨setWin_self known, fun top' rest' front' => ?_⟩
    rw [front] at front'
    obtain ⟨rfl, -⟩ := List.cons.inj front'
    exact ⟨w, known, answer⟩

theorem ready_same (ready : s.Ready cfg) (voqs : SameVoqs s t) (wins : t.wins = s.wins)
    (nxt : t.nxtDataPsn = s.nxtDataPsn) (rcv : t.rcvAckPsn = s.rcvAckPsn) : t.Ready cfg := by
  have old : ∀ g v, t.pkts g v = s.pkts g v := by
    intro g v
    unfold pkts
    rw [voqs.groups]
  refine ⟨stored_same ready.toStored voqs, fun g v p member => ?_,
    fun absolute g v p member row below => ?_, fun absolute d zero row => ?_, fun d ignore => ?_⟩
  · rw [wins]
    exact ready.registered g v p (old g v ▸ member)
  · rw [nxt, rcv]
    exact ready.inOrder absolute g v p (old g v ▸ member) row below
  · unfold winAt at zero
    rw [wins] at zero
    rw [nxt]
    exact ready.idle absolute d zero row
  · rw [wins]
    exact ready.ignored d ignore

/-! ### Credits -/

/-- The window of `d` and that of the port `dev` have been credited. -/
structure Paid (cfg : Config) (s t : State) (d dev : ℕ) : Prop where
  credited : Credited s t
  wins : t.wins = s.wins ∨ Wrote cfg s t d
  others : ∀ d', d' ≠ d → ∀ row, t.rcvAckPsn row d' = s.rcvAckPsn row d'
  order : (∀ row, t.rcvAckPsn row d = s.rcvAckPsn row d) ∨
    cfg.dst2group d = some .ignore ∨ t.InOrder d
  ports : ∀ dev', dev' ≠ dev → t.egressWins dev' = s.egressWins dev'

theorem updateDstWin_credit (cfg : Config) (s : State) (d n : ℕ) :
    Outcome (fun t => OnlyWins s t ∧ ((cfg.dst2group d = some .ignore ∧ t = s) ∨
      (Wrote cfg s t d ∧ (cfg.absolutePsn = true → s.InOrder d)))) (fun _ => True)
      (s.updateDstWin cfg d n true) := by
  have only := updateDstWin_outcome cfg s d n true
  refine outcome_mono (outcome_and only ?_) (fun _ h => h) fun _ _ => trivial
  unfold updateDstWin
  refine outcome_bind (shouldIgnore_outcome cfg d) fun ignore known => ?_
  cases ignore with
  | true => exact .inl ⟨known, rfl⟩
  | false =>
    obtain ⟨g, rule⟩ := known
    rw [if_neg Bool.false_ne_true]
    split
    · refine outcome_bind (outcome_call (getInflightBytes_outcome s d)) fun k ended =>
        .inr ⟨?_, fun _ => ?_⟩
      · refine ⟨⟨g, rule⟩, s.winAt d, rfl, fun _ => ?_⟩
        unfold winAt
        cases s.wins d with
        | none => exact .inr rfl
        | some w => exact .inl rfl
      · exact inOrder_of_ok ended.1
    · rename_i relative
      rw [if_pos rfl]
      split
      · exact .inr (.inr (.inr rfl))
      · exact .inr ⟨⟨⟨g, rule⟩, _, rfl, fun absolute => absurd absolute relative⟩,
          fun absolute => absurd absolute relative⟩

theorem updateWin_paid {v : State} (n dev : ℕ) (credited : Credited s v) (wins : v.wins = s.wins)
    (egressWins : v.egressWins = s.egressWins) (others : ∀ d', d' ≠ d →
      ∀ row, v.rcvAckPsn row d' = s.rcvAckPsn row d')
    (order : (∀ row, v.rcvAckPsn row d = s.rcvAckPsn row d) ∨ cfg.absolutePsn = true) :
    Outcome (fun t => Paid cfg s t d dev) (fun _ => True) (v.updateWin cfg d n dev true) := by
  unfold updateWin
  refine outcome_bind (updateDstWin_credit cfg v d n) fun x paid => ?_
  obtain ⟨only, written⟩ := paid
  have wide := rewindowed_trans only.rewindowed (rewindowed_updateEgressWin cfg x dev n true)
  have port := wide.credited
  have kept : (x.updateEgressWin cfg dev n true).wins = x.wins := by
    unfold updateEgressWin
    split <;> rfl
  refine {
    credited := ⟨⟨port.voqs.groups.trans credited.voqs.groups,
      port.voqs.voqBuffer.trans credited.voqs.voqBuffer,
      port.voqs.buffering.trans credited.voqs.buffering⟩, port.admitted.trans credited.admitted,
      port.sent.trans credited.sent, port.egressCache.trans credited.egressCache,
      port.nxtDataPsn.trans credited.nxtDataPsn⟩
    wins := ?_
    others := ?_
    order := ?_
    ports := ?_ }
  · rcases written with ⟨-, rfl⟩ | ⟨wrote, -⟩
    · exact .inl (kept.trans wins)
    · obtain ⟨grouped, w, entry, absolute⟩ := wrote
      rw [wins] at entry absolute
      exact .inr ⟨grouped, w, kept.trans entry, absolute⟩
  · intro d' other row
    rw [wide.sameAcks.rcvAckPsn]
    exact others d' other row
  · rcases order with same | absolute
    · refine .inl fun row => ?_
      rw [wide.sameAcks.rcvAckPsn]
      exact same row
    · rcases written with ⟨ignore, -⟩ | ⟨-, inOrder⟩
      · exact .inr (.inl ignore)
      · refine .inr (.inr fun row below => ?_)
        rw [wide.sameAcks.rcvAckPsn, port.nxtDataPsn]
        exact inOrder absolute row below
  · intro dev' other
    have same : x.egressWins = s.egressWins := only.egressWins.trans egressWins
    unfold updateEgressWin
    split
    · rw [same]
    · rw [if_pos rfl]
      show Function.update _ _ _ dev' = _
      rw [Function.update_of_ne other, same]

theorem recoverDst_paid (cfg : Config) (s : State) (dev : ℕ) (acktag : ℕ → ℕ) (i : ℕ) :
    Outcome (fun t => Paid cfg s t i dev) (fun _ => True) (s.recoverDst cfg dev acktag i) := by
  have unchanged : Paid cfg s s i dev :=
    ⟨credited_refl s, .inl rfl, fun _ _ _ => rfl, .inl fun _ => rfl, fun _ _ => rfl⟩
  unfold recoverDst
  dsimp only
  split
  · split
    · rename_i absolute
      split
      · refine updateWin_paid _ dev (credited_setRcvAck s _ i _) rfl rfl (fun d' other row => ?_)
          (.inr absolute)
        exact (update₂_apply _ _ _ _ _ _).trans (if_neg fun here => other here.2)
      · exact updateWin_paid _ dev (credited_refl s) rfl rfl (fun _ _ _ => rfl) (.inl fun _ => rfl)
    · exact updateWin_paid _ dev (credited_refl s) rfl rfl (fun _ _ _ => rfl) (.inl fun _ => rfl)
  · exact unchanged

theorem resumeDst_paid (cfg : Config) (s : State) (acked d inDev : ℕ) :
    Outcome (fun t => Paid cfg s t d inDev) (fun _ => True) (s.resumeDst cfg acked d inDev) := by
  unfold resumeDst
  dsimp only
  split
  · rename_i absolute
    split
    · refine updateWin_paid _ inDev (credited_setRcvAck s _ d _) rfl rfl (fun d' other row => ?_)
        (.inr absolute)
      exact (update₂_apply _ _ _ _ _ _).trans (if_neg fun here => other here.2)
    · exact updateWin_paid _ inDev (credited_refl s) rfl rfl (fun _ _ _ => rfl) (.inl fun _ => rfl)
  · exact updateWin_paid _ inDev (credited_refl s) rfl rfl (fun _ _ _ => rfl) (.inl fun _ => rfl)

theorem Paid.same {dev d' : ℕ} (h : Paid cfg s t d dev) (other : d' ≠ d) : Same d' s t where
  wins := by
    rcases h.wins with same | wrote
    · rw [same]
    · exact wrote.other other
  nxtDataPsn row := by rw [h.credited.nxtDataPsn]
  rcvAckPsn := h.others d' other

theorem ready_paid {dev : ℕ} (ready : s.Ready cfg) (h : Paid cfg s t d dev) : t.Ready cfg := by
  have old : ∀ g v, t.pkts g v = s.pkts g v := by
    intro g v
    unfold pkts
    rw [h.credited.voqs.groups]
  refine ⟨stored_same ready.toStored h.credited.voqs, fun g v p member => ?_,
    fun absolute g v p member row below => ?_, fun absolute d' zero row => ?_, fun d' ignore => ?_⟩
  · have known := ready.registered g v p (old g v ▸ member)
    rcases h.wins with same | wrote
    · rw [same]
      exact known
    · exact wrote.registered known
  · have waits := old g v ▸ member
    have before := ready.inOrder absolute g v p waits row below
    by_cases here : p.dst = d
    · rcases h.order with same | ignore | order
      · rw [here] at before ⊢
        rw [same, h.credited.nxtDataPsn]
        exact before
      · have rule := ready.ruled g v p waits
        rw [here, ignore] at rule
        cases rule
      · rw [here]
        exact order row below
    · rw [h.others p.dst here, h.credited.nxtDataPsn]
      exact before
  · rw [h.credited.nxtDataPsn]
    refine ready.idle absolute d' ?_ row
    rcases h.wins with same | wrote
    · unfold winAt at zero ⊢
      rw [← same]
      exact zero
    · exact wrote.winAt absolute zero
  · rcases h.wins with same | wrote
    · rw [same]
      exact ready.ignored d' ignore
    · rw [wrote.ignored ignore]
      exact ready.ignored d' ignore

end State

end Floodgate

end Pyrrha
