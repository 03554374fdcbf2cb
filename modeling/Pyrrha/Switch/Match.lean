import Pyrrha.Switch.Run

/-! What `MatchNextCongestionRoot` returns, for both directions of its loops. -/

namespace Pyrrha
open Lib

variable {n : ℕ} {cfg : Config n}

namespace Switch

theorem matchFirst_some {s : Switch n} {dev : Fin n} {tag : RoutingTag} {hops : List ℕ} {r : Spot}
    {e : CAMEntry n} (h : s.matchFirst dev tag hops = .ok (some (r, e))) :
    ∃ before i after, hops = before ++ i :: after ∧ tag.routing[i]? = some r ∧
    s.getEntry r = some e ∧ e.oportCiq dev ≠ none ∧ s.matchFirst dev tag before = .ok none := by
  induction hops with
  | nil => cases h
  | cons j rest ih =>
    unfold matchFirst at h
    split at h
    · cases h
    rename_i root at_j
    -- the hop `j` does not match: it joins the hops before the match
    have later : s.matchFirst dev tag rest = .ok (some (r, e)) →
        (∀ b, s.matchFirst dev tag b = .ok none → s.matchFirst dev tag (j :: b) = .ok none) →
        ∃ before i after, j :: rest = before ++ i :: after ∧ tag.routing[i]? = some r ∧
          s.getEntry r = some e ∧ e.oportCiq dev ≠ none ∧
            s.matchFirst dev tag before = .ok none := by
      intro h skip
      obtain ⟨before, i, after, rfl, facts⟩ := ih h
      exact ⟨j :: before, i, after, rfl, facts.1, facts.2.1, facts.2.2.1, skip before facts.2.2.2⟩
    split at h
    · rename_i e₀ found
      split at h
      · rename_i ciq
        obtain ⟨rfl, rfl⟩ : root = r ∧ e₀ = e := by simpa using h
        exact ⟨[], j, rest, rfl, at_j, found, ciq, rfl⟩
      · rename_i free
        exact later h fun b hb => by simp only [matchFirst, at_j, found, if_neg free, hb]
    · rename_i absent
      exact later h fun b hb => by simp only [matchFirst, at_j, absent, hb]

theorem matchFirst_none {s : Switch n} {dev : Fin n} {tag : RoutingTag} {hops : List ℕ}
    (h : s.matchFirst dev tag hops = .ok none) {i : ℕ} (member : i ∈ hops) {r : Spot}
    (at_i : tag.routing[i]? = some r) {e : CAMEntry n} (found : s.getEntry r = some e) :
    e.oportCiq dev = none := by
  induction hops with
  | nil => cases member
  | cons j rest ih =>
    unfold matchFirst at h
    split at h
    · cases h
    rename_i root at_j
    split at h
    · rename_i e₀ found₀
      split at h
      · simp at h
      · rename_i free
        rcases List.mem_cons.mp member with rfl | member
        · rw [at_j] at at_i
          obtain rfl := Option.some.inj at_i
          rw [found₀] at found
          obtain rfl := Option.some.inj found
          exact not_not.mp free
        · exact ih h member
    · rename_i absent
      rcases List.mem_cons.mp member with rfl | member
      · rw [at_j] at at_i
        obtain rfl := Option.some.inj at_i
        rw [absent] at found
        cases found
      · exact ih h member

theorem match_first {s : Switch n} {dev : Fin n} {tag : RoutingTag} {level : Option ℕ}
    {m : Option (Spot × CAMEntry n)} (h : s.matchNextCongestionRoot cfg dev tag level = .ok m) :
    s.matchFirst dev tag (matchHops cfg tag level) = .ok m := by
  unfold matchNextCongestionRoot at h
  split at h
  · cases h
  · exact h

theorem mem_matchHops_gt {tag : RoutingTag} {level : Option ℕ} {i : ℕ}
    (h : i ∈ matchHops cfg tag level) : tag.currHop < i := by
  unfold matchHops at h
  split at h
  · simp only [List.mem_range'_1] at h
    omega
  · simp only [List.mem_reverse, List.mem_range'_1] at h
    omega

theorem mem_matchHops_ne {tag : RoutingTag} {L i : ℕ} (h : i ∈ matchHops cfg tag (some L)) :
    i - tag.currHop ≠ L := by
  unfold matchHops at h
  split at h
  · simp only [List.mem_range'_1, Option.getD_some] at h
    omega
  · simp only [List.mem_reverse, List.mem_range'_1, Option.getD_some] at h
    omega

theorem matchDefaultQ_lt (cfg : Config n) (ch : CustomHeader) :
    matchDefaultQ cfg ch < queueNum := by
  have udp := ch.udpPg.isLt
  have tkn := ch.tknPg.isLt
  unfold matchDefaultQ
  split
  all_goals first | (split <;> simp_all [queueNum]) | simp_all [queueNum]

theorem matchFirst_error {s : Switch n} {dev : Fin n} {tag : RoutingTag} {hops : List ℕ}
    {a : Assert} (h : s.matchFirst dev tag hops = .error a) : a = .getHopRouting := by
  induction hops with
  | nil => cases h
  | cons j rest ih =>
    unfold matchFirst at h
    split at h
    · cases h
      rfl
    · split at h
      · split at h
        · cases h
        · exact ih h
      · exact ih h

theorem match_error {s : Switch n} {dev : Fin n} {tag : RoutingTag} {level : Option ℕ} {a : Assert}
    (h : s.matchNextCongestionRoot cfg dev tag level = .error a) : a = .getHopRouting := by
  unfold matchNextCongestionRoot at h
  split at h
  · cases h
    rfl
  · exact matchFirst_error h

/-- Where `MatchQ` puts an arriving packet: queue 0, its first matching root's CIQ, or its default
queue. -/
theorem matchQ_cases {s : Switch n} {idx : Fin n} {p : Packet n} {q : ℕ}
    (h : s.matchQ cfg idx p = .ok q) :
    (q = matchDefaultQ cfg p.header ∧
      (q = 0 ∨ s.matchNextCongestionRoot cfg idx p.routingTag none = .ok none)) ∨
    (matchDefaultQ cfg p.header ≠ 0 ∧
      ∃ r e, s.matchNextCongestionRoot cfg idx p.routingTag none = .ok (some (r, e)) ∧
        e.oportCiq idx = some q) := by
  simp only [matchQ] at h
  split at h
  · rename_i zero
    cases h
    exact .inl ⟨rfl, .inl zero⟩
  rename_i nonzero
  obtain ⟨m, matched, h⟩ := bind_ok h
  split at h
  · rename_i r e
    cases h
    obtain ⟨_, _, _, _, _, _, ciq, _⟩ := matchFirst_some (match_first matched)
    obtain ⟨c, at_c⟩ := Option.ne_none_iff_exists'.mp ciq
    exact .inr ⟨nonzero, r, e, matched, by simp [at_c]⟩
  · cases h
    exact .inl ⟨rfl, .inr matched⟩

theorem checkDequeueHierQ_cases {s : Switch n} {dev : Fin n} {level q nextQ : ℕ} {p : Packet n}
    (h : s.checkDequeueHierQ cfg dev level q p = .ok (some (some nextQ))) :
    s.paused dev (some q) ≠ some true ∧
    ((nextQ = matchDefaultQ cfg p.header ∧
      s.matchNextCongestionRoot cfg dev p.routingTag (some level) = .ok none) ∨
    (∃ r e, s.matchNextCongestionRoot cfg dev p.routingTag (some level) = .ok (some (r, e)) ∧
      e.oportCiq dev = some nextQ)) := by
  unfold checkDequeueHierQ at h
  split at h
  · cases h
  rename_i unpaused
  refine ⟨unpaused, ?_⟩
  obtain ⟨m, matched, h⟩ := bind_ok h
  split at h
  · simp only [Except.ok.injEq, Option.some.injEq] at h
    exact .inl ⟨h.symm, matched⟩
  · rename_i r e
    simp only [Except.ok.injEq, Option.some.injEq] at h
    exact .inr ⟨r, e, matched, h⟩

end Switch

end Pyrrha
