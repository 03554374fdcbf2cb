import Pyrrha.Nic.EgressQueue

/-!
How often `GetNextQindex` picks the queue pairs of a NIC for data: it goes round the group from the
one it has picked last, so that as many picks as there are queue pairs leave out none that is always
eligible.
-/

namespace Pyrrha
open Lib

namespace Nic

variable {σ ρ π : Type}

/-- `GetNextQindex` and `DequeueQindex` of what it returns; or anything else, as long as the group
has its size and the cursor of the data stays: acknowledgements and tokens arrive, `RdmaHw` changes
the queue pairs, a timer is set. -/
inductive EgressCall (σ ρ π : Type) where
  | serve (cb : Callbacks σ ρ π) (paused : ℕ → Option Bool)
  | other (eq : EgressQueue σ ρ)

/-- A pick for a data packet, with the queue before it. -/
structure DataPick (σ ρ π : Type) where
  queue : EgressQueue σ ρ
  cb : Callbacks σ ρ π
  paused : ℕ → Option Bool
  index : ℕ

def dataPicks (cfg : EgressConfig) : EgressQueue σ ρ → List (EgressCall σ ρ π) →
    Except EgressFault (List (DataPick σ ρ π))
  | _, [] => .ok []
  | eq, .other next :: rest =>
    if next.qpGrp.length = eq.qpGrp.length ∧ next.rrlast = eq.rrlast then dataPicks cfg next rest
    else .error .disabled
  | eq, .serve cb paused :: rest => do
    let (next, pick) ← eq.getNextQindex cfg cb paused
    let (next, _) ← next.dequeueQindex cfg cb pick
    let later ← dataPicks cfg next rest
    match pick with
    | .data i => .ok (⟨eq, cb, paused, i⟩ :: later)
    | _ => .ok later

/-- The queue pair `i` is eligible at the pick. -/
def DataPick.Eligible (cfg : EgressConfig) (p : DataPick σ ρ π) (i : ℕ) : Prop :=
  p.queue.Eligible cfg p.cb p.paused i

def DataPick.round (cfg : EgressConfig) (p : DataPick σ ρ π) : Round :=
  ⟨p.queue.rrlast, p.Eligible cfg, p.index⟩

variable {cfg : EgressConfig} {cb : Callbacks σ ρ π} {paused : ℕ → Option Bool}
    {eq eq' : EgressQueue σ ρ} {i : ℕ}
  {calls : List (EgressCall σ ρ π)} {picks : List (DataPick σ ρ π)}

theorem round_stops (found : FirstOf cfg cb paused eq (ringFrom eq.qpGrp.length eq.rrlast) i) :
    (DataPick.round cfg ⟨eq, cb, paused, i⟩).Stops eq.qpGrp.length := ⟨found.eligible, found.first⟩

theorem dataPicks_linked (h : dataPicks cfg eq calls = .ok picks) :
    Linked eq.qpGrp.length eq.rrlast (picks.map (DataPick.round cfg)) := by
  induction calls generalizing eq picks with
  | nil =>
    cases h
    trivial
  | cons call rest ih =>
    cases call with
    | other next =>
      unfold dataPicks at h
      split at h
      · rename_i same
        have linked := ih h
        rwa [same.1, same.2] at linked
      · cases h
    | serve cb paused =>
      obtain ⟨⟨eq₁, pick⟩, picked, h⟩ := bind_ok h
      obtain ⟨⟨eq₂, sent⟩, dequeued, h⟩ := bind_ok h
      obtain ⟨later, run, h⟩ := bind_ok h
      obtain ⟨length, rrlast, first⟩ := getNextQindex_first picked
      obtain ⟨length', cursor⟩ := dequeueQindex_cursor dequeued
      have linked := ih run
      rw [length', length, cursor] at linked
      cases pick with
      | data i =>
        cases h
        exact ⟨rfl, round_stops (first i rfl), linked⟩
      | ack | token | none =>
        cases h
        rwa [rrlast] at linked

/-- The index that `GetNextQindex` returns for a data packet names an eligible sender queue pair,
and among as many consecutive picks as the group has queue pairs, each one that is eligible at all
of them is picked. -/
theorem getNextQindex_fair (cfg : EgressConfig) :
    (∀ (cb : Callbacks σ ρ π) (paused : ℕ → Option Bool) (eq eq' : EgressQueue σ ρ) (i : ℕ),
        eq.getNextQindex cfg cb paused = .ok (eq', .data i) → eq.Eligible cfg cb paused i) ∧
      ∀ (eq : EgressQueue σ ρ) (calls : List (EgressCall σ ρ π)) (picks : List (DataPick σ ρ π)),
        dataPicks cfg eq calls = .ok picks →
          ∀ before window after, picks = before ++ window ++ after →
          window.length = eq.qpGrp.length →
            ∀ i < eq.qpGrp.length, (∀ p ∈ window, p.Eligible cfg i) →
            ∃ p ∈ window, p.index = i := by
  constructor
  · intro cb paused eq eq' i picked
    obtain ⟨-, -, first⟩ := getNextQindex_first picked
    exact (first i rfl).eligible
  · rintro eq calls picks run before window after rfl size i inside eligible
    have linked := dataPicks_linked run
    rw [List.map_append, List.map_append] at linked
    obtain ⟨c, linked⟩ := (linked_append (linked_append linked).1).2
    have enough : eq.qpGrp.length ≤ (window.map (DataPick.round cfg)).length := by
      rw [List.length_map, size]
    have accepted : ∀ r ∈ window.map (DataPick.round cfg), r.accepts i := by
      intro r member
      obtain ⟨p, source, rfl⟩ := List.mem_map.mp member
      exact eligible p source
    obtain ⟨r, member, here⟩ := linked_visits linked enough inside accepted
    obtain ⟨p, source, rfl⟩ := List.mem_map.mp member
    exact ⟨p, source, here⟩

/-! ### Two senders and a receiver -/

def pgConfig : EgressConfig := ⟨3, .pg, 1, false, false, 0, false, 1⟩

def threeQps : EgressQueue Unit Unit where
  qpGrp := [.snd ⟨3, 1, 7, 1, ()⟩, .rx (), .snd ⟨3, 2, 8, 2, ()⟩]
  tokenMode := .no
  rateLimiterMode := 1

def threeServes : List (EgressCall Unit Unit Unit) :=
  List.replicate 3 (.serve eagerCallbacks fun _ => none)

def threePicks : List (DataPick Unit Unit Unit) :=
  [⟨threeQps, eagerCallbacks, fun _ => none, 2⟩,
    ⟨{ threeQps with rrlast := 2 }, eagerCallbacks, fun _ => none, 0⟩,
    ⟨threeQps, eagerCallbacks, fun _ => none, 2⟩]

/-- Three picks of the group leave out neither sender. -/
theorem getNextQindex_fair_three : dataPicks pgConfig threeQps threeServes = .ok threePicks ∧
    (∃ p ∈ threePicks, p.index = 0) ∧ ∃ p ∈ threePicks, p.index = 2 := by
  have run : dataPicks pgConfig threeQps threeServes = .ok threePicks := rfl
  have eligible : ∀ p ∈ threePicks, p.Eligible pgConfig 0 ∧ p.Eligible pgConfig 2 := by
    simp [threePicks, DataPick.Eligible, EgressQueue.Eligible, SndQp.Eligible, threeQps,
      eagerCallbacks, pgConfig, SndQp.isPaused]
  have fair := (getNextQindex_fair pgConfig).2 threeQps threeServes threePicks run
    [] threePicks [] rfl rfl
  exact ⟨run, fair 0 (by decide) fun p member => (eligible p member).1,
    fair 2 (by decide) fun p member => (eligible p member).2⟩

end Nic

end Pyrrha
