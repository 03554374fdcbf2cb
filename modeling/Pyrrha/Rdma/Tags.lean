import Pyrrha.Rdma.Credits

/-!
The `TokenTag`s of the data packets of a queue pair. A packet that is smaller than what remains of
its credit leaves the credit at the front, and the next packet is tagged with it again, unless it
expires first.
-/

namespace Pyrrha
open Lib

namespace Rdma

variable {c : EpConfig} {s t : CreditExchange} {l l' : List Credit} {ev : EpEvent}
    {now payload tag psn : ℕ} {ecn ecn' : Bool} {draws : List Bool}

/-! ### The two queues -/

theorem refreshCredit_suffix (draws : List Bool) (l : List Credit) :
    refreshCredit c now draws l <:+ l :=
  dropExpired_suffix ..

/-- A packet is tagged with the credit it has used up last, or with the first when it has used up
none. -/
theorem spendCredits_spec (call : spendCredits l payload tag ecn = .ok (l', psn, ecn'))
    (sorted : (l.map Credit.number).Pairwise (· < ·)) :
    (l'.map Credit.number).Sublist (l.map Credit.number) ∧
      (psn = tag ∧ l'.map Credit.number = l.map Credit.number ∨
        ∃ n ∈ l.map Credit.number, psn = n % 2 ^ 32 ∧ ∀ m ∈ l'.map Credit.number, n < m) := by
  induction l generalizing payload tag ecn with
  | nil =>
    unfold spendCredits at call
    split at call
    · cases call
      exact ⟨List.Sublist.refl _, .inl ⟨rfl, rfl⟩⟩
    · cases call
  | cons credit rest ih =>
    unfold spendCredits at call
    split at call
    · cases call
      exact ⟨List.Sublist.refl _, .inl ⟨rfl, rfl⟩⟩
    · split at call
      · rw [List.map_cons, List.pairwise_cons] at sorted
        obtain ⟨sub, tagged⟩ := ih call sorted.2
        refine ⟨sub.trans (List.sublist_cons_self _ _), .inr ?_⟩
        rcases tagged with ⟨rfl, same⟩ | ⟨n, member, value, above⟩
        · exact ⟨credit.number, List.mem_cons_self, rfl, fun m member => sorted.1 m (same ▸ member)⟩
        · exact ⟨n, List.mem_cons_of_mem _ member, value, above⟩
      · cases call
        exact ⟨List.Sublist.refl _, .inl ⟨rfl, rfl⟩⟩

theorem sendingData_spec {front : Credit} (call : sendingData l payload = .ok (l', psn, ecn))
    (first : l.head? = some front) (sorted : (l.map Credit.number).Pairwise (· < ·)) :
    (l'.map Credit.number).Sublist (l.map Credit.number) ∧
      ∃ n ∈ l.map Credit.number, psn = n % 2 ^ 32 ∧ front.number ≤ n ∧
        ∀ m ∈ l'.map Credit.number, n < m ∨ n = m ∧ payload < front.remain ∧ m = front.number := by
  cases l with
  | nil => cases first
  | cons head rest =>
    cases first
    simp only [sendingData] at call
    split at call
    · cases call
    · rename_i some_payload
      unfold spendCredits at call
      rw [if_neg some_payload] at call
      rw [List.map_cons, List.pairwise_cons] at sorted
      split at call
      · obtain ⟨sub, tagged⟩ := spendCredits_spec call sorted.2
        refine ⟨sub.trans (List.sublist_cons_self _ _), ?_⟩
        rcases tagged with ⟨rfl, same⟩ | ⟨n, member, value, above⟩
        · refine ⟨front.number, List.mem_cons_self, rfl, le_rfl, fun m member => .inl ?_⟩
          exact sorted.1 m (same ▸ member)
        · refine ⟨n, List.mem_cons_of_mem _ member, value, (sorted.1 n member).le,
            fun m later => .inl ?_⟩
          exact above m later
      · rename_i small
        cases call
        refine ⟨List.Sublist.refl _, front.number, List.mem_cons_self, rfl, le_rfl,
          fun m member => ?_⟩
        rcases List.mem_cons.mp member with rfl | later
        · exact .inr ⟨rfl, not_le.mp small, rfl⟩
        · exact .inl (sorted.1 m later)

theorem receiveDataEP_finds {first count : ℕ}
    (numbers : l.map Credit.number = List.range' first count)
    (lower : first ≤ tag) (upper : tag < first + count) (small : tag < 2 ^ 32) :
    ∃ sent, receiveDataEP tag l = .ok sent ∧
      sent.map Credit.number = List.range' (tag + 1) (first + count - (tag + 1)) := by
  induction count generalizing l first with
  | zero => omega
  | succ count ih =>
    cases l with
    | nil => cases numbers
    | cons credit rest =>
      rw [List.map_cons, List.range'_succ, List.cons.injEq] at numbers
      obtain ⟨head, later⟩ := numbers
      have low : credit.getPSN = first := by
        unfold Credit.getPSN
        rw [head]
        exact Nat.mod_eq_of_lt (by omega)
      unfold receiveDataEP
      rw [low]
      by_cases here : first = tag
      · rw [if_pos here]
        subst here
        refine ⟨rest, rfl, ?_⟩
        rw [later]
        congr 1
        omega
      · rw [if_neg here]
        obtain ⟨sent, found, left⟩ := ih later (by omega) (by omega)
        refine ⟨sent, found, left.trans ?_⟩
        congr 1
        omega

namespace CreditExchange

/-! ### The invariant -/

/-- The numbers of the credits that the sender has or that are on their way to it. -/
def pool (s : CreditExchange) : List ℕ := s.credits.map Credit.number ++ s.tokens

/-- The tags and, behind them, the credits the sender can still use grow. `m_sent_credits` has every
number from the last one found on. -/
structure Matched (s : CreditExchange) : Prop where
  increasing : s.tags.Pairwise (· < ·)
  ordered : s.pool.Pairwise (· < ·)
  issued : ∀ n ∈ s.pool, n < s.tknNxt
  used : ∀ t ∈ s.tags, t < 2 ^ 32 ∧ t < s.tknNxt
  behind : ∀ t ∈ s.tags, ∀ n ∈ s.pool, t < n ∨ t = n ∧ s.unspent = some n
  sent : ∃ older first, s.tags = older ++ s.data.map TaggedData.tag ∧
    s.sentCredits.map Credit.number = List.range' first (s.tknNxt - first) ∧
      (first = 0 ∨ first - 1 ∈ older ∧ 0 < first)

/-- Every packet is sent on a credit that the packet before has not left partly unused, and on one
of the first `2 ^ 32`. -/
def Fresh (c : EpConfig) (s : CreditExchange) : EpEvent → Prop
  | .send draws =>
    let credits := refreshCredit c s.qp.now draws s.credits
    (∀ front ∈ credits.head?, s.unspent ≠ some front.number) ∧
      ∀ credit ∈ credits, credit.number < 2 ^ 32
  | _ => True

/-! ### Steps -/

theorem Matched.fewer (M : s.Matched) (sub : t.pool.Sublist s.pool) (tags : t.tags = s.tags)
    (tknNxt : t.tknNxt = s.tknNxt) (data : t.data = s.data) (sent : t.sentCredits = s.sentCredits)
    (unspent : t.unspent = s.unspent) : t.Matched := by
  refine ⟨?_, M.ordered.sublist sub, fun n member => ?_, ?_, fun a old n member => ?_, ?_⟩
  · rw [tags]
    exact M.increasing
  · rw [tknNxt]
    exact M.issued n (sub.subset member)
  · rw [tags, tknNxt]
    exact M.used
  · rw [tags] at old
    rw [unspent]
    exact M.behind a old n (sub.subset member)
  · rw [tags, data, sent, tknNxt]
    exact M.sent

theorem Matched.frame (M : s.Matched) (credits : t.credits = s.credits)
    (tokens : t.tokens = s.tokens)
    (tags : t.tags = s.tags) (tknNxt : t.tknNxt = s.tknNxt) (data : t.data = s.data)
    (sent : t.sentCredits = s.sentCredits) (unspent : t.unspent = s.unspent) : t.Matched := by
  refine M.fewer ?_ tags tknNxt data sent unspent
  unfold pool
  rw [credits, tokens]

theorem withQp_matched {qp : Except Halt SndQueuePair} (M : s.Matched)
    (call : s.withQp qp = .ok t) : t.Matched := by
  unfold withQp at call
  cases qp with
  | error e => cases call
  | ok qp =>
    cases call
    exact M.frame rfl rfl rfl rfl rfl rfl rfl

theorem shouldSndData_spec {allowed : Bool} (call : s.shouldSndData c draws = .ok (t, allowed)) :
    ∃ qp credits, t = { s with qp := qp, credits := credits } ∧ credits <:+ s.credits ∧
      (allowed = true → credits = refreshCredit c s.qp.now draws s.credits) := by
  unfold shouldSndData at call
  obtain ⟨⟨qp, ready⟩, -, call⟩ := bind_ok call
  cases ready with
  | none =>
    cases call
    exact ⟨qp, s.credits, rfl, List.suffix_refl _, fun h => Bool.noConfusion h⟩
  | some m =>
    obtain ⟨rfl, -⟩ := Prod.mk.inj (Except.ok.inj call)
    exact ⟨qp, _, rfl, refreshCredit_suffix draws s.credits, fun _ => rfl⟩

theorem shouldSndData_matched {allowed : Bool} (M : s.Matched)
    (call : s.shouldSndData c draws = .ok (t, allowed)) : t.Matched := by
  obtain ⟨qp, credits, rfl, suffix, -⟩ := shouldSndData_spec call
  refine M.fewer ?_ rfl rfl rfl rfl rfl
  exact (suffix.sublist.map Credit.number).append_right s.tokens

theorem getNxtPacket_matched (M : s.Matched)
    (fresh : ∀ front ∈ s.credits.head?, s.unspent ≠ some front.number)
    (small : ∀ credit ∈ s.credits, credit.number < 2 ^ 32) (call : s.getNxtPacket c = .ok t) :
    t.Matched := by
  unfold getNxtPacket at call
  obtain ⟨⟨qp, m, pkt⟩, -, call⟩ := bind_ok call
  obtain ⟨⟨credits, psn, ecn⟩, spent, call⟩ := bind_ok call
  obtain rfl := Except.ok.inj call
  cases first : s.credits.head? with
  | none =>
    rw [List.head?_eq_none_iff] at first
    rw [first] at spent
    cases spent
  | some front =>
    have ordered := List.pairwise_append.mp M.ordered
    obtain ⟨sub, n, member, value, above, later⟩ := sendingData_spec spent first ordered.1
    have inPool : n ∈ s.pool := List.mem_append_left _ member
    have low : n < 2 ^ 32 := by
      obtain ⟨credit, inside, rfl⟩ := List.mem_map.mp member
      exact small credit inside
    obtain rfl : psn = n := value.trans (Nat.mod_eq_of_lt low)
    have new : ∀ a ∈ s.tags, a < psn := by
      intro a old
      have head : front.number ∈ s.pool :=
        List.mem_append_left _ (List.mem_map_of_mem (List.mem_of_head? first))
      rcases M.behind a old front.number head with before | ⟨-, again⟩
      · exact before.trans_le above
      · exact (fresh front first again).elim
    have shrinks := sub.append_right s.tokens
    have next : ∀ k ∈ credits.map Credit.number ++ s.tokens,
        psn < k ∨ psn = k ∧ pkt.payload < front.remain ∧ k = front.number := by
      intro k inside
      rcases List.mem_append.mp inside with here | token
      · exact later k here
      · exact .inl (ordered.2.2 psn member k token)
    refine ⟨?_, M.ordered.sublist shrinks, fun k inside => M.issued k (shrinks.subset inside), ?_,
      ?_, ?_⟩
    · refine List.pairwise_append.mpr ⟨M.increasing, List.pairwise_singleton _ _,
        fun a old k one => ?_⟩
      rw [List.mem_singleton.mp one]
      exact new a old
    · intro a old
      rcases List.mem_append.mp old with before | one
      · exact M.used a before
      · rw [List.mem_singleton.mp one]
        exact ⟨low, M.issued psn inPool⟩
    · intro a old k inside
      rcases List.mem_append.mp old with before | one
      · rcases next k inside with lt | ⟨rfl, -⟩
        · exact .inl ((new a before).trans lt)
        · exact .inl (new a before)
      · rw [List.mem_singleton.mp one]
        rcases next k inside with lt | ⟨rfl, less, is_front⟩
        · exact .inl lt
        · refine .inr ⟨rfl, ?_⟩
          dsimp only
          rw [Option.bind_some, if_pos less, is_front]
    · obtain ⟨older, start, split, numbers, bound⟩ := M.sent
      refine ⟨older, start, ?_, numbers, bound⟩
      rw [split, List.map_append, ← List.append_assoc]
      rfl

theorem Matched.finds (M : s.Matched) {d : TaggedData} {rest : List TaggedData}
    (next : s.data = d :: rest) : ∃ sent, receiveDataEP d.tag s.sentCredits = .ok sent ∧
      sent.map Credit.number = List.range' (d.tag + 1) (s.tknNxt - (d.tag + 1)) := by
  obtain ⟨older, first, split, numbers, bound⟩ := M.sent
  rw [next, List.map_cons] at split
  have inside : d.tag ∈ s.tags := by
    rw [split]
    exact List.mem_append_right _ List.mem_cons_self
  obtain ⟨small, issued⟩ := M.used d.tag inside
  have lower : first ≤ d.tag := by
    rcases bound with zero | ⟨before, pos⟩
    · omega
    · have grows := M.increasing
      rw [split] at grows
      have := (List.pairwise_append.mp grows).2.2 (first - 1) before d.tag List.mem_cons_self
      omega
  obtain ⟨sent, found, left⟩ := receiveDataEP_finds numbers lower (by omega) small
  refine ⟨sent, found, left.trans ?_⟩
  congr 1
  omega

theorem dataArrives_matched {expired : Bool} (M : s.Matched)
    (call : s.dataArrives c expired = .ok t) : t.Matched := by
  unfold dataArrives at call
  split at call
  · cases call
  · rename_i d data next
    obtain ⟨⟨rcv, ack⟩, -, call⟩ := bind_ok call
    obtain ⟨sent, found, call⟩ := bind_ok call
    obtain rfl := Except.ok.inj call
    refine ⟨M.increasing, M.ordered, M.issued, M.used, M.behind, ?_⟩
    obtain ⟨older, first, split, numbers, bound⟩ := M.sent
    rw [next, List.map_cons] at split
    have moved : s.tags = (older ++ [d.tag]) ++ data.map TaggedData.tag := by
      rw [split, List.append_assoc]
      rfl
    unfold takeTag at found
    split at found
    · obtain rfl := Except.ok.inj found
      refine ⟨older ++ [d.tag], first, moved, numbers, ?_⟩
      rcases bound with zero | ⟨before, pos⟩
      · exact .inl zero
      · exact .inr ⟨List.mem_append_left _ before, pos⟩
    · obtain ⟨sent', found', left⟩ := M.finds next
      rw [found'] at found
      obtain rfl := Except.ok.inj found
      exact ⟨older ++ [d.tag], d.tag + 1, moved, left,
        .inr ⟨List.mem_append_right _ List.mem_cons_self, by omega⟩⟩

theorem sendToken_matched (M : s.Matched) (call : s.step c .sendToken = .ok t) : t.Matched := by
  dsimp only [step] at call
  split at call
  · obtain rfl := Except.ok.inj call
    refine ⟨M.increasing, ?_, ?_, ?_, ?_, ?_⟩
    · unfold pool
      rw [← List.append_assoc]
      refine List.pairwise_append.mpr ⟨M.ordered, List.pairwise_singleton _ _,
        fun n old k one => ?_⟩
      rw [List.mem_singleton.mp one]
      exact M.issued n old
    · intro n inside
      unfold pool at inside
      rw [← List.append_assoc] at inside
      rcases List.mem_append.mp inside with old | one
      · exact Nat.lt_succ_of_lt (M.issued n old)
      · rw [List.mem_singleton.mp one]
        exact Nat.lt_succ_self _
    · intro a old
      exact ⟨(M.used a old).1, Nat.lt_succ_of_lt (M.used a old).2⟩
    · intro a old n inside
      unfold pool at inside
      rw [← List.append_assoc] at inside
      rcases List.mem_append.mp inside with before | one
      · exact M.behind a old n before
      · rw [List.mem_singleton.mp one]
        exact .inl (M.used a old).2
    · obtain ⟨older, first, split, numbers, bound⟩ := M.sent
      refine ⟨older, first, split, ?_, bound⟩
      have room : first ≤ s.tknNxt := by
        rcases bound with zero | ⟨before, pos⟩
        · omega
        · have inside : first - 1 ∈ s.tags := by
            rw [split]
            exact List.mem_append_left _ before
          have := (M.used _ inside).2
          omega
      rw [List.map_append, numbers, Nat.succ_sub room, List.range'_concat, Nat.one_mul]
      simp only [List.map_cons, List.map_nil]
      congr 2
      omega
  · cases call

theorem step_matched (M : s.Matched) (allowed : s.Fresh c ev) (call : s.step c ev = .ok t) :
    t.Matched := by
  cases ev with
  | add msgSeq size =>
    dsimp only [step] at call
    split at call <;> cases call
    exact M.frame rfl rfl rfl rfl rfl rfl rfl
  | tick now =>
    dsimp only [step] at call
    split at call <;> cases call
    exact M.frame rfl rfl rfl rfl rfl rfl rfl
  | timeout =>
    dsimp only [step] at call
    split at call <;> cases call
    exact M.frame rfl rfl rfl rfl rfl rfl rfl
  | irnTimer k seq => exact withQp_matched M call
  | poll draws =>
    dsimp only [step] at call
    cases asked : s.shouldSndData c draws with
    | error e =>
      rw [asked] at call
      cases call
    | ok r =>
      rw [asked] at call
      cases call
      exact shouldSndData_matched M asked
  | send draws =>
    dsimp only [step] at call
    obtain ⟨⟨mid, allow⟩, asked, call⟩ := bind_ok call
    cases allow with
    | false => cases call
    | true =>
      have M' := shouldSndData_matched M asked
      obtain ⟨qp, credits, rfl, -, refreshed⟩ := shouldSndData_spec asked
      obtain rfl := refreshed rfl
      exact getNxtPacket_matched M' allowed.1 allowed.2 call
  | dataArrives expired => exact dataArrives_matched M call
  | ackArrives i =>
    dsimp only [step] at call
    obtain ⟨⟨k, ack⟩, -, call⟩ := bind_ok call
    have M' : { s with acks := s.acks.eraseIdx i }.Matched := M.frame rfl rfl rfl rfl rfl rfl rfl
    exact withQp_matched M' call
  | loseAck i =>
    cases call
    exact M.frame rfl rfl rfl rfl rfl rfl rfl
  | reqArrives i =>
    dsimp only [step] at call
    unfold reqArrives at call
    obtain ⟨k, -, call⟩ := bind_ok call
    obtain rfl := Except.ok.inj call
    exact M.frame rfl rfl rfl rfl rfl rfl rfl
  | sendToken => exact sendToken_matched M call
  | tokenArrives ecn =>
    dsimp only [step] at call
    split at call
    · cases call
    · rename_i number tokens next
      obtain rfl := Except.ok.inj call
      refine M.fewer ?_ rfl rfl rfl rfl rfl
      unfold pool
      rw [next, List.map_append, List.append_assoc]
      exact List.Sublist.refl _
  | loseToken i =>
    cases call
    refine M.fewer ?_ rfl rfl rfl rfl rfl
    exact (List.eraseIdx_sublist s.tokens i).append_left _

/-! ### Runs -/

theorem initial_matched : ({} : CreditExchange).Matched := by
  refine ⟨List.Pairwise.nil, List.Pairwise.nil, ?_, ?_, ?_, [], 0, rfl, rfl, .inl rfl⟩
  · intro n inside
    cases inside
  · intro a old
    cases old
  · intro a old
    cases old

theorem reachable_matched (run : Reachable c (Fresh c) s) : s.Matched := by
  induction run with
  | initial => exact initial_matched
  | step _ allowed call ih => exact step_matched ih allowed call

/-- While every packet is sent on a fresh credit, the tags grow and `ReceiveDataEP` finds each of
them. -/
theorem tags_matched (run : Reachable c (Fresh c) s) :
    s.tags.Pairwise (· < ·) ∧ ∀ d ∈ s.data.head?, ∃ sent, receiveDataEP d.tag s.sentCredits =
      .ok sent := by
  have M := reachable_matched run
  refine ⟨M.increasing, fun d next => ?_⟩
  cases flying : s.data with
  | nil =>
    rw [flying] at next
    cases next
  | cons head rest =>
    rw [flying] at next
    cases next
    obtain ⟨sent, found, -⟩ := M.finds flying
    exact ⟨sent, found⟩

instance decidableFresh (c : EpConfig) (s : CreditExchange) : (ev : EpEvent) →
    Decidable (Fresh c s ev)
  | .send _ => inferInstanceAs (Decidable (_ ∧ _))
  | .add _ _ | .tick _ | .timeout | .irnTimer _ _ | .poll _ | .dataArrives _ | .ackArrives
      _ | .loseAck _
  | .reqArrives _ | .sendToken | .tokenArrives _ | .loseToken _ => .isTrue trivial

/-- Go-back-N with packets of 10 bytes; credits expire after 40 µs. -/
def smallEp : EpConfig :=
  ⟨⟨⟨{ Session.smallConfig .goBackN 0 with l4Token := true }, 0, true⟩, .fifo⟩, 10, 40,
    false, rfl, rfl⟩

/-- A message of 15 bytes and one of 10. When the third packet is sent, the credit of the second has
expired. -/
def expiredCredit : List EpEvent :=
  [.add 1 15, .add 2 10, .reqArrives 0, .sendToken, .sendToken, .tokenArrives false,
    .tokenArrives false, .send [],
    .send [], .tick 41000, .poll [], .sendToken, .tokenArrives false, .send [], .dataArrives false]

theorem tags_matched_expired : ∃ s : CreditExchange, Reachable smallEp (Fresh smallEp) s ∧
    s.tags = [0, 1, 2] ∧
    s.data.length = 2 ∧ s.tags.Pairwise (· < ·) ∧
      ∀ d ∈ s.data.head?, ∃ sent, receiveDataEP d.tag s.sentCredits = .ok sent := by
  have ends : (run smallEp (Fresh smallEp) {} expiredCredit).toOption.any (fun s =>
      decide (s.tags = [0, 1, 2]) && decide (s.data.length = 2)) = true := by decide +kernel
  obtain ⟨s, ends, shape⟩ := (Option.any_eq_true ..).mp ends
  have reached := reachable_run .initial (toOption_eq_some.mp ends)
  rw [Bool.and_eq_true] at shape
  exact ⟨s, reached, of_decide_eq_true shape.1, of_decide_eq_true shape.2, tags_matched reached⟩

/-- The third packet is sent on what the second has left of its credit. -/
def sharedCredit : List EpEvent :=
  [.add 1 15, .add 2 10, .reqArrives 0, .sendToken, .sendToken, .sendToken, .tokenArrives false,
    .tokenArrives false,
    .tokenArrives false, .send [], .send [], .send [], .dataArrives false, .dataArrives false]

theorem tags_repeated : ∃ s : CreditExchange, Reachable smallEp (fun _ _ => True) s ∧
    ¬ s.tags.Pairwise (· < ·) ∧
    ∃ d, s.data.head? = some d ∧ receiveDataEP d.tag s.sentCredits = .error .sentCreditsEmpty := by
  have ends : (run smallEp (fun _ _ => True) {} sharedCredit).toOption.any (fun s =>
      decide (¬ s.tags.Pairwise (· < ·)) &&
        s.data.head?.any fun d =>
          decide (receiveDataEP d.tag s.sentCredits = .error .sentCreditsEmpty)) = true := by
    decide +kernel
  obtain ⟨s, ends, shape⟩ := (Option.any_eq_true ..).mp ends
  have reached := reachable_run .initial (toOption_eq_some.mp ends)
  rw [Bool.and_eq_true] at shape
  obtain ⟨d, next, empty⟩ := (Option.any_eq_true ..).mp shape.2
  exact ⟨s, reached, of_decide_eq_true shape.1, d, next, of_decide_eq_true empty⟩

end CreditExchange

end Rdma

end Pyrrha
