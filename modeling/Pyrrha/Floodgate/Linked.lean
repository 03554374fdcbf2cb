import Pyrrha.Floodgate.Effect

/-!
Windows hop by hop, which is every mode but the ToR-only one: the window of a destination is its own
entry of `m_wins`, or the one `BDPMAP` has for it.
-/

namespace Pyrrha
open Lib

namespace Floodgate

variable {cfg : Config} {s t u : State} {d n : ℕ}

/-- Every switch keeps windows, not only the ToRs. -/
def Config.Linked (cfg : Config) : Prop := cfg.resetOnlyToR = false

theorem Config.winKey_linked (linked : cfg.Linked) (d : ℕ) : cfg.winKey d = d := by
  unfold winKey
  rw [linked, if_neg (by simp)]

namespace State

/-- The window `EnsureRegisteredWin` leaves for a destination. -/
def window (cfg : Config) (s : State) (d : ℕ) : Option ℕ := (s.wins d).or (cfg.bdpMap d)

/-- What `CheckDstWin` answers for a window of `w` bytes. -/
def admitsBytes (cfg : Config) (s : State) (d n w : ℕ) : Checked Bool :=
  if cfg.absolutePsn then (s.getInflightBytes d).map fun inflight => decide (add32 inflight n ≤ w)
  else .ok (decide (n ≤ w))

theorem setWin_wins (s : State) (d w : ℕ) : (s.setWin d w).wins = Function.update s.wins d
    (some w) := rfl

theorem setWin_self {w : ℕ} (known : s.wins d = some w) : s.setWin d w = s := by
  unfold setWin
  rw [← known, Function.update_eq_self]

theorem window_known (cfg : Config) {w : ℕ} (known : s.wins d = some w) :
    s.window cfg d = some w := by
  rw [window, known]
  rfl

theorem window_setWin (cfg : Config) (s : State) (d w d' : ℕ) :
    (s.setWin d w).window cfg d' = if d' = d then some w else s.window cfg d' := by
  unfold window setWin
  dsimp only
  rw [Function.update_apply]
  split <;> rfl

theorem touchWin_setWin (s : State) (d w : ℕ) : (s.setWin d w).touchWin d = s.setWin d w := by
  unfold touchWin winAt setWin
  simp only [Function.update_self, Option.getD_some, Function.update_idem]

theorem ensureRegisteredWin_linked (linked : cfg.Linked) {w : ℕ} (has : s.window cfg d = some w) :
    s.ensureRegisteredWin cfg d =
      if s.wins d = none ∧ cfg.absolutePsn = true then (s.getInflightBytes d).map fun _ =>
        s.setWin d w
      else .ok (s.setWin d w) := by
  unfold ensureRegisteredWin
  rw [cfg.winKey_linked linked]
  cases known : s.wins d with
  | some w' =>
    obtain rfl : w' = w := by simpa [window, known] using has
    simp [setWin_self known]
  | none =>
    have entry : cfg.bdpMap d = some w := by simpa [window, known] using has
    rw [entry]
    cases cfg.absolutePsn with
    | false => simp
    | true =>
      have same : (s.setWin d w).getInflightBytes d = s.getInflightBytes d := rfl
      simp only [if_true, and_self, same]
      cases s.getInflightBytes d <;> rfl

theorem checkDstWin_linked (linked : cfg.Linked) {w : ℕ} (has : s.window cfg d = some w) (n : ℕ) :
    s.checkDstWin cfg d n = (s.admitsBytes cfg d n w).map fun fits => (s.setWin d w, fits) := by
  have same : (s.setWin d w).getInflightBytes d = s.getInflightBytes d := rfl
  have entry : (s.setWin d w).winAt d = w := by simp [winAt, setWin]
  unfold checkDstWin admitsBytes
  rw [ensureRegisteredWin_linked linked has]
  cases mode : cfg.absolutePsn with
  | false =>
    simp only [Bool.false_eq_true, and_false, if_false, bind, Except.bind, touchWin_setWin, entry]
    rfl
  | true =>
    cases inflight : s.getInflightBytes d with
    | error e =>
      split
      · rfl
      · simp only [bind, Except.bind, same, inflight, if_true]
        rfl
    | ok bytes =>
      split <;> simp only [Except.map, bind, Except.bind, same, inflight, if_true,
        touchWin_setWin, entry]

theorem checkDstWin_unknown (linked : cfg.Linked) (none : s.window cfg d = none) (n : ℕ) :
    s.checkDstWin cfg d n = .error .ensureRegisteredWin := by
  obtain ⟨unregistered, missing⟩ : s.wins d = .none ∧ cfg.bdpMap d = .none := by
    simpa [window, Option.or_eq_none_iff] using none
  unfold checkDstWin ensureRegisteredWin
  rw [cfg.winKey_linked linked, unregistered, missing]
  rfl

theorem checkDstWin_ok (linked : cfg.Linked) {fits : Bool}
    (ended : s.checkDstWin cfg d n = .ok (u, fits)) :
    ∃ w, s.window cfg d = some w ∧ u = s.setWin d w ∧ s.admitsBytes cfg d n w = .ok fits := by
  cases has : s.window cfg d with
  | none =>
    rw [checkDstWin_unknown linked has] at ended
    cases ended
  | some w =>
    rw [checkDstWin_linked linked has] at ended
    cases answer : s.admitsBytes cfg d n w with
    | error e =>
      rw [answer] at ended
      cases ended
    | ok b =>
      rw [answer] at ended
      obtain ⟨rfl, rfl⟩ := Prod.mk.inj (Except.ok.inj ended)
      exact ⟨w, rfl, rfl, answer⟩

/-- The window after a debit of `n` bytes. -/
def lowered (cfg : Config) (w n : ℕ) : ℕ := if cfg.absolutePsn then w else sub32 w n

theorem updateDstWin_relative (linked : cfg.Linked) (relative : cfg.absolutePsn = false) {g w : ℕ}
    (rule : cfg.dst2group d = some (.group g)) (known : s.wins d = some w) (n : ℕ) :
    s.updateDstWin cfg d n false = .ok (s.setWin d (sub32 w n)) := by
  have entry : s.winAt d = w := by rw [winAt, known, Option.getD_some]
  have grouped : cfg.shouldIgnore d = .ok false := by rw [Config.shouldIgnore, rule]
  have registered := ensureRegisteredWin_linked linked (window_known cfg known)
  rw [if_neg (by simp [known]), setWin_self known] at registered
  unfold updateDstWin
  rw [grouped, relative]
  simp only [bind, Except.bind, Bool.false_eq_true, if_false, registered, entry]

theorem updateDstWin_lowered (linked : cfg.Linked) {g w : ℕ}
    (rule : cfg.dst2group d = some (.group g))
    (known : s.wins d = some w) (ended : s.updateDstWin cfg d n false = .ok t) :
    t.wins = Function.update s.wins d (some (lowered cfg w n)) := by
  unfold lowered
  cases mode : cfg.absolutePsn with
  | false =>
    rw [updateDstWin_relative linked mode rule known] at ended
    rw [← Except.ok.inj ended, setWin_wins, if_neg Bool.false_ne_true]
  | true =>
    have entry : s.winAt d = w := by rw [winAt, known, Option.getD_some]
    have grouped : cfg.shouldIgnore d = .ok false := by rw [Config.shouldIgnore, rule]
    unfold updateDstWin at ended
    rw [grouped, mode] at ended
    cases inflight : s.getInflightBytes d with
    | error e =>
      simp only [bind, Except.bind, Bool.false_eq_true, if_false, if_true, inflight] at ended
      cases ended
    | ok bytes =>
      simp only [bind, Except.bind, Bool.false_eq_true, if_false, if_true, inflight] at ended
      rw [← Except.ok.inj ended, touchWin, setWin_wins, entry, if_pos rfl]

end State

theorem Debited.linked (h : Debited cfg s t d n) (linked : cfg.Linked) {g : ℕ}
    (rule : cfg.dst2group d = some (.group g)) :
    ∃ w, s.window cfg d = some w ∧ s.admitsBytes cfg d n w = .ok true ∧
      t.wins = Function.update s.wins d (some (State.lowered cfg w n)) := by
  obtain ⟨u, v, x, tested, same, ended, after⟩ := h
  obtain ⟨w, has, rfl, opens⟩ := State.checkDstWin_ok linked tested
  have known : v.wins d = some w := by
    rw [same]
    exact Function.update_self _ _ _
  refine ⟨w, has, opens, ?_⟩
  rw [after, State.updateDstWin_lowered linked rule known ended, same]
  exact Function.update_idem _ _ _

end Floodgate

end Pyrrha
