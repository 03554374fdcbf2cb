import Mathlib.Data.List.FinRange
import Pyrrha.Buffer.Headroom
import Pyrrha.Buffer.IngressFlow

/-!
The division of the buffer: headroom and reserve are provisioned once for each port, what is left is
shared. A port with a dynamic threshold takes no more than is left; one with a static or no
threshold does not look, and an index does not look at the other indices of its port. Where these
have room nevertheless, the buffer is never committed twice.
-/

namespace Pyrrha
open Lib

namespace Buffer

variable {n : ℕ} {cfg : Config n} {s t : State n} {port : Fin n} {idx psize : ℕ}

/-- The threshold of the port follows what is left of the shared pool. -/
def Config.Dynamic (cfg : Config n) (port : Fin n) : Prop :=
  cfg.pfcMode port ≠ .off ∧ cfg.pfcThStatic port = 0

/-- The 32-bit counters of the index take the packet, and so does the shared pool, if the port looks
at it or not. -/
structure State.Draws (cfg : Config n) (s : State n) (port : Fin n) (idx psize : ℕ) : Prop where
  ingress : s.ingressBytes port idx + psize < 2 ^ 32
  hdrm : s.hdrmBytes port idx + psize < 2 ^ 32
  pool : s.TakesHeadroom cfg port idx psize ∨ cfg.Dynamic port ∨
    min psize (s.ingressBytes port idx + psize - reserve) ≤ s.sharedLeft cfg

/-- The indices of the port together stay within its headroom and its reserve. -/
structure State.Provides (cfg : Config n) (s : State n) (port : Fin n) (idx psize : ℕ) : Prop
    extends s.Draws cfg port idx psize where
  counted : port.val ≠ 0
  headroom : s.TakesHeadroom cfg port idx psize →
    (∑ j ∈ Finset.range nodeScale, s.hdrmBytes port j) + psize ≤ cfg.headroom port
  reserved : ¬s.TakesHeadroom cfg port idx psize →
    (∑ j ∈ Finset.range nodeScale, min (s.ingressBytes port j) reserve) +
      min psize (reserve - s.ingressBytes port idx) ≤ reserve

/-! ### One packet -/

/-- Without a wrap a packet goes into the headroom, or into reserve and shared pool. -/
theorem updateIngressAdmission_exact (ingress : s.ingressBytes port idx + psize < 2 ^ 32)
    (hdrm : s.hdrmBytes port idx + psize < 2 ^ 32) (pool : ¬s.TakesHeadroom cfg port idx psize →
      s.sharedUsedBytes + min psize (s.ingressBytes port idx + psize - reserve) < 2 ^ 32) :
    (s.TakesHeadroom cfg port idx psize ∧ SameIngress
      { s with hdrmBytes := update₂ s.hdrmBytes port idx (s.hdrmBytes port idx + psize) }
      (s.updateIngressAdmission cfg port idx psize)) ∨
    (¬s.TakesHeadroom cfg port idx psize ∧ SameIngress
      { s with
        ingressBytes := update₂ s.ingressBytes port idx (s.ingressBytes port idx + psize)
        sharedUsedBytes :=
          s.sharedUsedBytes + min psize (s.ingressBytes port idx + psize - reserve) }
      (s.updateIngressAdmission cfg port idx psize)) := by
  unfold State.TakesHeadroom at pool ⊢
  unfold State.updateIngressAdmission
  dsimp only
  rw [add32_exact ingress] at pool ⊢
  split
  · rename_i within
    refine .inr ⟨fun takes => absurd within (not_le.mpr takes.1), rfl, rfl, ?_⟩
    dsimp only
    omega
  · rename_i beyond
    split
    · rename_i exceeds
      refine .inl ⟨⟨not_le.mp beyond, exceeds⟩, rfl, ?_, rfl⟩
      dsimp only
      rw [add32_exact hdrm]
    · rename_i below
      refine .inr ⟨fun takes => below takes.2, rfl, rfl, ?_⟩
      dsimp only
      rw [add32_exact (pool fun takes => below takes.2)]

theorem dynamic_draws (dynamic : cfg.Dynamic port)
    (ingress : s.ingressBytes port idx + psize < 2 ^ 32)
    (stays : ¬s.TakesHeadroom cfg port idx psize) :
    min psize (s.ingressBytes port idx + psize - reserve) ≤ s.sharedLeft cfg := by
  unfold State.TakesHeadroom at stays
  rw [add32_exact ingress, not_and, not_lt, State.getPfcThreshold, if_neg dynamic.1,
    if_neg (by rw [dynamic.2]; exact lt_irrefl 0)] at stays
  by_cases beyond : reserve < s.ingressBytes port idx + psize
  · exact (min_le_right _ _).trans ((stays beyond).trans (Nat.shiftRight_le _ _))
  · omega

theorem sharedLeft_exact (kept : cfg.totalHdrm + cfg.totalRsrv + s.sharedUsedBytes ≤
    cfg.bufferSize) :
    s.sharedLeft cfg = cfg.bufferSize - cfg.totalHdrm - cfg.totalRsrv - s.sharedUsedBytes := by
  have small := cfg.bufferSize_lt
  have unprovisioned : sub32 cfg.bufferSize cfg.totalHdrm = cfg.bufferSize - cfg.totalHdrm :=
    sub32_exact small (by omega)
  rw [State.sharedLeft, unprovisioned, sub32_exact (a := cfg.bufferSize - cfg.totalHdrm)
    (by omega) (by omega), sub32_exact (by omega) (by omega)]

/-! ### The shared pool -/

/-- The counters cover what is buffered, and what they say is shared is within the pool. -/
structure PoolKept (cfg : Config n) (s : State n) : Prop where
  covered : ∀ port idx, s.chargedBytes cfg port idx ≤ s.ingressBytes port idx + s.hdrmBytes port idx
  shared : s.sharedUsedBytes = gridSum nodeScale fun port idx => s.ingressBytes port idx - reserve
  pool : cfg.totalHdrm + cfg.totalRsrv + s.sharedUsedBytes ≤ cfg.bufferSize
  ingress_lt : ∀ port idx, s.ingressBytes port idx < 2 ^ 32
  hdrm_lt : ∀ port idx, s.hdrmBytes port idx < 2 ^ 32

theorem pool_same (h : PoolKept cfg s) (same : SameIngress s t)
    (held : ∀ port idx, t.chargedBytes cfg port idx ≤ s.chargedBytes cfg port idx) :
    PoolKept cfg t where
  covered := fun port idx => by
    rw [same.ingress, same.hdrm]
    exact (held port idx).trans (h.covered port idx)
  shared := by
    rw [same.ingress, same.shared]
    exact h.shared
  pool := by
    rw [same.shared]
    exact h.pool
  ingress_lt := fun port idx => by
    rw [same.ingress]
    exact h.ingress_lt port idx
  hdrm_lt := fun port idx => by
    rw [same.hdrm]
    exact h.hdrm_lt port idx

theorem draws_pool (h : PoolKept cfg s) (draws : s.Draws cfg port idx psize)
    (stays : ¬s.TakesHeadroom cfg port idx psize) : cfg.totalHdrm + cfg.totalRsrv +
    (s.sharedUsedBytes +
      min psize (s.ingressBytes port idx + psize - reserve)) ≤ cfg.bufferSize := by
  have left := (draws.pool.resolve_left stays).elim (dynamic_draws · draws.ingress stays) id
  have pool := h.pool
  rw [sharedLeft_exact pool] at left
  omega

theorem pool_enter (h : PoolKept cfg s) {it : Item n} (known : it.packet.inDev = some port)
    (controlled : cfg.controlled it.q = true)
    (draws : s.Draws cfg port (cfg.pfcFine port it.q it.packet) it.size)
    (same :
      SameIngress (s.updateIngressAdmission cfg port (cfg.pfcFine port it.q it.packet) it.size) t)
    (held : ∀ port idx, t.chargedBytes cfg port idx ≤
      s.chargedBytes cfg port idx + if it.charged cfg port idx then it.size else 0) :
      PoolKept cfg t := by
  have entered := charged_iff known controlled
  have inside := pfcFine_lt controlled port it.packet
  generalize cfg.pfcFine port it.q it.packet = idx at entered inside draws same
  have small := cfg.bufferSize_lt
  have bytes : ∀ port' idx', t.chargedBytes cfg port' idx' ≤ s.ingressBytes port' idx' +
    s.hdrmBytes port' idx' +
      if port' = port ∧ idx' = idx then it.size else 0 := by
    intro port' idx'
    have below := held port' idx'
    simp only [entered] at below
    exact below.trans (Nat.add_le_add_right (h.covered port' idx') _)
  rcases updateIngressAdmission_exact draws.ingress draws.hdrm
    (fun stays => by have room := draws_pool h draws stays; omega) with ⟨takes, exact_⟩ | ⟨stays, exact_⟩ <;>
  obtain ⟨ingress, hdrm, shared⟩ := exact_.trans same
  · refine ⟨fun port' idx' => ?_, ?_, ?_, ?_, fun port' idx' => ?_⟩
    · have below := bytes port' idx'
      rw [ingress, hdrm]
      simp only [update₂_apply]
      split at below
      · rename_i here
        rw [if_pos here, here.1, here.2] at *
        omega
      · rename_i other
        rw [if_neg other]
        exact below
    · rw [ingress, shared]
      exact h.shared
    · rw [shared]
      exact h.pool
    · rw [ingress]
      exact h.ingress_lt
    · rw [hdrm]
      simp only [update₂_apply]
      split
      · exact draws.hdrm
      · exact h.hdrm_lt port' idx'
  · have sum := gridSum_update (N := nodeScale) (fun b => b - reserve) s.ingressBytes port inside
      (s.ingressBytes port idx + it.size)
    have before := h.shared
    refine ⟨fun port' idx' => ?_, ?_, ?_, fun port' idx' => ?_, ?_⟩
    · have below := bytes port' idx'
      rw [ingress, hdrm]
      simp only [update₂_apply]
      split at below
      · rename_i here
        rw [if_pos here, here.1, here.2] at *
        omega
      · rename_i other
        rw [if_neg other]
        exact below
    · rw [ingress, shared]
      dsimp only
      omega
    · rw [shared]
      exact draws_pool h draws stays
    · rw [ingress]
      simp only [update₂_apply]
      split
      · exact draws.ingress
      · exact h.ingress_lt port' idx'
    · rw [hdrm]
      exact h.hdrm_lt

theorem pool_part (h : PoolKept cfg s) (port : Fin n) (inside : idx < nodeScale) :
    s.ingressBytes port idx - reserve ≤ s.sharedUsedBytes := by
  rw [h.shared]
  exact le_gridSum (fun port idx => s.ingressBytes port idx - reserve) port inside

/-- No subtraction of `RemoveFromIngressAdmission` wraps, if the index has the packet. -/
theorem removeFromIngressAdmission_exact (h : PoolKept cfg s) (inside : idx < nodeScale)
    (enough : psize ≤ s.ingressBytes port idx + s.hdrmBytes port idx) : SameIngress
      { s with
        hdrmBytes :=
          update₂ s.hdrmBytes port idx (s.hdrmBytes port idx - min (s.hdrmBytes port idx) psize)
        ingressBytes :=
          update₂ s.ingressBytes port idx
            (s.ingressBytes port idx - (psize - min (s.hdrmBytes port idx) psize))
        sharedUsedBytes := s.sharedUsedBytes -
          min (psize - min (s.hdrmBytes port idx) psize) (s.ingressBytes port idx - reserve) }
      (s.removeFromIngressAdmission port idx psize) := by
  have small := cfg.bufferSize_lt
  have pool := h.pool
  have part := pool_part h port inside
  have ingressSmall := h.ingress_lt port idx
  have hdrmSmall := h.hdrm_lt port idx
  simp only [State.removeFromIngressAdmission]
  rw [sub32_exact hdrmSmall (by omega), sub32_exact ingressSmall (by omega),
    sub32_exact (by omega) (by omega)]
  exact ⟨rfl, rfl, rfl⟩

theorem leave_enough (h : PoolKept cfg s) {it : Item n} (known : it.packet.inDev = some port)
    (controlled : cfg.controlled it.q = true)
    (held : ∀ port idx, t.chargedBytes cfg port idx +
      (if it.charged cfg port idx then it.size else 0) ≤ s.chargedBytes cfg port idx) :
      it.size ≤ s.ingressBytes port (cfg.pfcFine port it.q it.packet) +
      s.hdrmBytes port (cfg.pfcFine port it.q it.packet) := by
  have below := held port (cfg.pfcFine port it.q it.packet)
  rw [if_pos ((charged_iff known controlled _ _).mpr ⟨rfl, rfl⟩)] at below
  have covered := h.covered port (cfg.pfcFine port it.q it.packet)
  omega

theorem pool_leave (h : PoolKept cfg s) {it : Item n} (known : it.packet.inDev = some port)
    (controlled : cfg.controlled it.q = true)
    (same :
      SameIngress (s.removeFromIngressAdmission port (cfg.pfcFine port it.q it.packet) it.size) t)
    (held : ∀ port idx, t.chargedBytes cfg port idx +
      (if it.charged cfg port idx then it.size else 0) ≤
      s.chargedBytes cfg port idx) : PoolKept cfg t := by
  have enough := leave_enough h known controlled held
  have left := charged_iff known controlled
  have inside := pfcFine_lt controlled port it.packet
  generalize cfg.pfcFine port it.q it.packet = idx at left inside same enough
  have small := cfg.bufferSize_lt
  have pool := h.pool
  have before := h.shared
  have bytes : ∀ port' idx', t.chargedBytes cfg port' idx' +
    (if port' = port ∧ idx' = idx then it.size else 0) ≤
      s.ingressBytes port' idx' + s.hdrmBytes port' idx' := by
    intro port' idx'
    have below := held port' idx'
    simp only [left] at below
    exact below.trans (h.covered port' idx')
  obtain ⟨ingress, hdrm, shared⟩ := (removeFromIngressAdmission_exact h inside enough).trans same
  have part := pool_part h port inside
  have sum := gridSum_update (N := nodeScale) (fun b => b - reserve) s.ingressBytes port inside
    (s.ingressBytes port idx - (it.size - min (s.hdrmBytes port idx) it.size))
  refine ⟨fun port' idx' => ?_, ?_, ?_, fun port' idx' => ?_, fun port' idx' => ?_⟩
  · have below := bytes port' idx'
    rw [ingress, hdrm]
    simp only [update₂_apply]
    split at below
    · rename_i here
      rw [if_pos here, if_pos here, here.1, here.2] at *
      omega
    · rename_i other
      rw [if_neg other, if_neg other]
      omega
  · rw [ingress, shared]
    dsimp only
    omega
  · rw [shared]
    dsimp only
    omega
  · rw [ingress]
    exact (update₂_le (Nat.sub_le _ _) port' idx').trans_lt (h.ingress_lt port' idx')
  · rw [hdrm]
    exact (update₂_le (Nat.sub_le _ _) port' idx').trans_lt (h.hdrm_lt port' idx')

theorem pool_step (h : PoolKept cfg s) (step : IngressStep cfg (State.Draws cfg) s t) :
    PoolKept cfg t := by
  cases step with
  | keep same held => exact pool_same h same held
  | enter known controlled draws same held => exact pool_enter h known controlled draws same held
  | leave known controlled same held => exact pool_leave h known controlled same held

theorem pool_initial (fits : cfg.totalHdrm + cfg.totalRsrv ≤ cfg.bufferSize) : PoolKept cfg {} where
  covered := fun _ _ => Nat.zero_le _
  shared := by simp [gridSum]
  pool := fits
  ingress_lt := fun _ _ => Nat.two_pow_pos 32
  hdrm_lt := fun _ _ => Nat.two_pow_pos 32

/-- A packet that fills a reserve and goes on to the shared pool. -/
def poolArrival : Event 3 := .arrive (smallPacket .udp 4999) 1 2 1 ⟨.pass, false⟩

/-- The subtraction of `GetPfcThreshold` never wraps, and `shared_used_bytes` is what the indices
hold beyond their reserve. -/
theorem shared_pool (fits : cfg.totalHdrm + cfg.totalRsrv ≤ cfg.bufferSize)
    (reach : State.Reachable cfg (fun s ev => ev.Charges cfg (State.Draws cfg) s) s) :
    s.sharedLeft cfg + (cfg.totalHdrm + cfg.totalRsrv + s.sharedUsedBytes) = cfg.bufferSize ∧
      s.sharedUsedBytes = gridSum nodeScale fun port idx => s.ingressBytes port idx - reserve := by
  have kept :=
    (flow_reachable (pool_initial fits) (fun _ _ before step => pool_step before step) reach).2
  refine ⟨?_, kept.shared⟩
  have pool := kept.pool
  rw [sharedLeft_exact pool]
  omega

theorem shared_pool_used : ∃ s : State 3, s.sharedUsedBytes = 904 ∧
    s.sharedLeft (controlledConfig 100000) + (28192 + s.sharedUsedBytes) = 100000 := by
  have ends : ((State.step (controlledConfig 100000) {} poolArrival).toOption.any fun t =>
      decide (t.sharedUsedBytes = 904)) = true := by decide +kernel
  obtain ⟨s, call, used⟩ := State.any_ok ends
  have charges : poolArrival.Charges (controlledConfig 100000)
      (State.Draws (controlledConfig 100000)) {} :=
    fun _ => ⟨fun _ => ⟨by decide, by decide, .inr (.inl ⟨by decide, rfl⟩)⟩,
      fun _ off => absurd off (by decide)⟩
  exact ⟨s, of_decide_eq_true used, (shared_pool (by decide) (.step .initial charges call)).1⟩

/-! ### The provision of a port -/

/-- What `total_hdrm` has for a port, and what `total_rsrv` has: `ConfigNPort` starts with port
1. -/
def Config.hdrmOf (cfg : Config n) (port : Fin n) : ℕ :=
  if port.val = 0 then 0 else cfg.headroom port

def Config.rsrvOf (_ : Config n) (port : Fin n) : ℕ := if port.val = 0 then 0 else reserve

structure Provisioned (cfg : Config n) (s : State n) : Prop where
  hdrm : ∀ port, ∑ j ∈ Finset.range nodeScale, s.hdrmBytes port j ≤ cfg.hdrmOf port
  rsrv : ∀ port, ∑ j ∈ Finset.range nodeScale, min (s.ingressBytes port j) reserve ≤ cfg.rsrvOf port

theorem provisioned_fewer (h : Provisioned cfg s)
    (hdrm : ∀ port idx, t.hdrmBytes port idx ≤ s.hdrmBytes port idx)
    (ingress : ∀ port idx, t.ingressBytes port idx ≤ s.ingressBytes port idx) :
    Provisioned cfg t where
  hdrm := fun port => (Finset.sum_le_sum fun j _ => hdrm port j).trans (h.hdrm port)
  rsrv := fun port => (Finset.sum_le_sum fun j _ => min_le_min_right _ (ingress port j)).trans
    (h.rsrv port)

theorem provisioned_enter (h : PoolKept cfg s) (within : Provisioned cfg s) {it : Item n}
    (controlled : cfg.controlled it.q = true)
    (provides : s.Provides cfg port (cfg.pfcFine port it.q it.packet) it.size)
    (same :
      SameIngress (s.updateIngressAdmission cfg port (cfg.pfcFine port it.q it.packet) it.size) t) :
    Provisioned cfg t := by
  have inside := pfcFine_lt controlled port it.packet
  generalize cfg.pfcFine port it.q it.packet = idx at inside provides same
  have small := cfg.bufferSize_lt
  have draws := provides.toDraws
  have ofHdrm : cfg.hdrmOf port = cfg.headroom port := if_neg provides.counted
  have ofRsrv : cfg.rsrvOf port = reserve := if_neg provides.counted
  rcases updateIngressAdmission_exact draws.ingress draws.hdrm
    (fun stays => by have room := draws_pool h draws stays; omega) with ⟨takes, exact_⟩ | ⟨stays, exact_⟩ <;>
  obtain ⟨ingress, hdrm, -⟩ := exact_.trans same
  · refine ⟨fun port' => ?_, fun port' => ?_⟩
    · have room := provides.headroom takes
      have sum := rowSum_update (N := nodeScale) id s.hdrmBytes port inside
        (s.hdrmBytes port idx + it.size)
      rw [hdrm]
      by_cases here : port' = port
      · rw [here, ofHdrm]
        simp only [id] at sum
        dsimp only
        omega
      · simp only [update₂_row _ here]
        exact within.hdrm port'
    · rw [ingress]
      exact within.rsrv port'
  · refine ⟨fun port' => ?_, fun port' => ?_⟩
    · rw [hdrm]
      exact within.hdrm port'
    · have room := provides.reserved stays
      have sum := rowSum_update (N := nodeScale) (fun b => min b reserve) s.ingressBytes port inside
        (s.ingressBytes port idx + it.size)
      beta_reduce at sum
      rw [ingress]
      by_cases here : port' = port
      · rw [here, ofRsrv]
        dsimp only
        omega
      · simp only [update₂_row _ here]
        exact within.rsrv port'

theorem provisioned_step (h : PoolKept cfg s) (within : Provisioned cfg s)
    (step : IngressStep cfg (State.Provides cfg) s t) : PoolKept cfg t ∧ Provisioned cfg t := by
  cases step with
  | keep same held =>
    exact ⟨pool_same h same held, provisioned_fewer within
      (fun port idx => (congrFun₂ same.hdrm port idx).le)
      fun port idx => (congrFun₂ same.ingress port idx).le⟩
  | enter known controlled provides same held =>
    exact ⟨pool_enter h known controlled provides.toDraws same held,
      provisioned_enter h within controlled provides same⟩
  | @leave port it known controlled same held =>
    have inside := pfcFine_lt controlled port it.packet
    have enough := leave_enough h known controlled held
    obtain ⟨ingress, hdrm, -⟩ := (removeFromIngressAdmission_exact h inside enough).trans same
    refine ⟨pool_leave h known controlled same held,
      provisioned_fewer within (fun port' idx' => ?_) fun port' idx' => ?_⟩
    · rw [hdrm]
      exact update₂_le (Nat.sub_le _ _) port' idx'
    · rw [ingress]
      exact update₂_le (Nat.sub_le _ _) port' idx'

theorem provisioned_initial : Provisioned cfg {} where
  hdrm := fun port => by simp
  rsrv := fun port => by simp

/-! ### The whole buffer -/

/-- A loop over the ports that adds in 32 bits adds exactly while the sum fits. -/
theorem foldl_add32 {α : Type} (f : α → ℕ) (l : List α) (total : ℕ)
    (fits : total + (l.map f).sum < 2 ^ 32) :
    l.foldl (fun total i => add32 total (f i)) total = total + (l.map f).sum := by
  induction l generalizing total with
  | nil => rfl
  | cons i rest ih =>
    rw [List.map_cons, List.sum_cons] at fits ⊢
    rw [List.foldl_cons, add32_exact (by omega), ih (total + f i) (by omega)]
    omega

theorem sum_counted (f : Fin n → ℕ) :
    ∑ port, (if port.val = 0 then 0 else f port) = ((List.finRange n).tail.map f).sum := by
  cases n with
  | zero => rfl
  | succ m =>
    rw [Fin.sum_univ_succ, List.finRange_succ, List.tail_cons, List.map_map, Fin.sum_univ_def]
    simp [Function.comp_def]

/-- What the ports have charged never exceeds the buffer, if their indices share headroom and
reserve. -/
theorem buffer_committed (fits : cfg.totalHdrm + cfg.totalRsrv ≤ cfg.bufferSize)
    (hdrmFits : ((List.finRange n).tail.map cfg.headroom).sum < 2 ^ 32)
    (rsrvFits : ((List.finRange n).tail.map fun _ => reserve).sum < 2 ^ 32)
    (reach : State.Reachable cfg (fun s ev => ev.Charges cfg (State.Provides cfg) s) s) :
    gridSum nodeScale (fun port idx => s.ingressBytes port idx + s.hdrmBytes port idx) ≤
      cfg.bufferSize := by
  obtain ⟨-, kept, within⟩ := flow_reachable (I := fun s => PoolKept cfg s ∧ Provisioned cfg s)
    ⟨pool_initial fits, provisioned_initial⟩
      (fun _ _ before step => provisioned_step before.1 before.2 step) reach
  have split : gridSum nodeScale (fun port idx => s.ingressBytes port idx + s.hdrmBytes port idx) =
      s.sharedUsedBytes +
        gridSum nodeScale (fun port idx => min (s.ingressBytes port idx) reserve) +
        gridSum nodeScale s.hdrmBytes := by
    rw [kept.shared, ← gridSum_add, ← gridSum_add]
    congr
    funext port idx
    omega
  have hdrm : gridSum nodeScale s.hdrmBytes ≤ cfg.totalHdrm := by
    rw [Config.totalHdrm, foldl_add32 cfg.headroom _ 0 (by omega), Nat.zero_add, ← sum_counted]
    exact gridSum_rows within.hdrm
  have rsrv : gridSum nodeScale (fun port idx => min (s.ingressBytes port idx) reserve) ≤
      cfg.totalRsrv := by
    rw [Config.totalRsrv, foldl_add32 (fun _ => reserve) _ 0 (by omega), Nat.zero_add,
      ← sum_counted (fun _ : Fin n => reserve)]
    exact gridSum_rows within.rsrv
  have pool := kept.pool
  omega

theorem buffer_committed_used : ∃ s : State 3, s.ingressBytes 1 1 = 5000 ∧
    gridSum nodeScale (fun port idx => s.ingressBytes port idx + s.hdrmBytes port idx) ≤
      100000 := by
  have ends : ((State.step (controlledConfig 100000) {} poolArrival).toOption.any fun t =>
      decide (t.ingressBytes 1 1 = 5000)) = true := by decide +kernel
  obtain ⟨s, call, held⟩ := State.any_ok ends
  have provides : State.Provides (controlledConfig 100000) {} 1 1 5000 :=
    { ingress := by decide
      hdrm := by decide
      pool := .inr (.inl ⟨by decide, rfl⟩)
      counted := by decide
      headroom := fun _ => by simp [controlledConfig, smallConfig]
      reserved := fun _ => by simp [reserve] }
  have charges : poolArrival.Charges (controlledConfig 100000)
      (State.Provides (controlledConfig 100000)) {} :=
    fun _ => ⟨fun _ => provides, fun _ off => absurd off (by decide)⟩
  exact ⟨s, of_decide_eq_true held, buffer_committed (by decide) (by decide) (by decide)
    (.step .initial charges call)⟩

end Buffer

end Pyrrha
