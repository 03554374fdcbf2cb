import Pyrrha.Rdma.IrnSync

/-!
The bitmap of an IRN sender: which packets its window takes for acknowledged, and what each
operation does to them.
-/

namespace Pyrrha
open Lib

namespace Rdma

variable {cfg : Config} {irn : SndIrn} {nxt q seq : ℕ} {named : ℕ → Prop}

namespace SndIrn

/-- The packet has left the window, or its slot says so. -/
def Acked (p : ℕ) (irn : SndIrn) (q : ℕ) : Prop :=
  q < irn.baseSeq ∨ ∃ i, irn.states[i]? = some .ack ∧ q = irn.baseSeq + i * p

end SndIrn

/-! ### Lookups -/

theorem getIrnState_acked (S : Slots cfg irn nxt) (small : cfg.roundUp nxt < 2 ^ 32)
    (dvd : cfg.mtu ∣ q) : irn.getIrnState cfg.mtu q = .ack ↔ irn.Acked cfg.mtu q := by
  have ends := S.frontier
  have next : irn.getNextSequenceNumber cfg.mtu = irn.frontier cfg.mtu :=
    Nat.mod_eq_of_lt (show irn.frontier cfg.mtu < 2 ^ 32 by omega)
  have bounded : ∀ i, irn.states[i]? = some .ack → irn.baseSeq + i * cfg.mtu <
      irn.frontier cfg.mtu := by
    intro i at_i
    have inside := (List.getElem?_eq_some_iff.mp at_i).1
    exact Nat.add_lt_add_left (Nat.mul_lt_mul_of_pos_right inside cfg.mtu_pos) _
  unfold SndIrn.getIrnState SndIrn.Acked
  rw [next]
  split
  · rename_i beyond
    refine ⟨fun h => (by cases h), ?_⟩
    rintro (before | ⟨i, at_i, rfl⟩)
    · unfold SndIrn.frontier at beyond
      omega
    · exact absurd (bounded i at_i) (Nat.not_lt.mpr beyond)
  split
  · rename_i ahead ge
    have position := index_seq S.aligned dvd ge
    rw [List.getD_eq_getElem?_getD]
    constructor
    · intro h
      refine .inr ⟨irn.index cfg.mtu q, ?_, position.symm⟩
      cases here : irn.states[irn.index cfg.mtu q]? with
      | none =>
        rw [here] at h
        cases h
      | some state =>
        rw [here] at h
        exact congrArg some h
    · rintro (before | ⟨i, at_i, same⟩)
      · omega
      · have scaled : irn.index cfg.mtu q * cfg.mtu = i * cfg.mtu := by omega
        rw [Nat.eq_of_mul_eq_mul_right cfg.mtu_pos scaled, at_i]
        rfl
  · rename_i before
    exact ⟨fun _ => .inl (Nat.not_le.mp before), fun _ => rfl⟩

theorem missing_iff_not_acked (S : Slots cfg irn nxt) (small : cfg.roundUp nxt < 2 ^ 32)
    (known : SndState.undef ∉ irn.states) (dvd : cfg.mtu ∣ q) (sent : q < nxt) :
    irn.isMissing cfg.mtu q = true ↔ ¬irn.Acked cfg.mtu q := by
  have ends := S.frontier
  have below := (aligned_lt_roundUp dvd).mpr sent
  have next : irn.getNextSequenceNumber cfg.mtu = irn.frontier cfg.mtu :=
    Nat.mod_eq_of_lt (show irn.frontier cfg.mtu < 2 ^ 32 by omega)
  have defined : irn.getIrnState cfg.mtu q ≠ .undef := by
    intro undefined
    unfold SndIrn.getIrnState at undefined
    rw [next, if_neg (by omega)] at undefined
    split at undefined
    · rename_i ge
      have position := index_seq S.aligned dvd ge
      have inside : irn.index cfg.mtu q < irn.states.length := by
        unfold SndIrn.frontier at ends
        exact Nat.lt_of_mul_lt_mul_right (a := cfg.mtu) (by omega)
      rw [List.getD_eq_getElem _ _ inside] at undefined
      exact known (undefined ▸ List.getElem_mem inside)
    · cases undefined
  rw [← getIrnState_acked S small dvd]
  unfold SndIrn.isMissing
  cases state : irn.getIrnState cfg.mtu q with
  | undef => exact absurd state defined
  | ack => simp
  | unack => simp
  | nack => simp

/-! ### Operations -/

/-- The bitmap is the one of the packets in `named`. -/
structure Bits (cfg : Config) (irn : SndIrn) (named : ℕ → Prop) : Prop where
  acked : ∀ q, cfg.mtu ∣ q → (irn.Acked cfg.mtu q ↔ named q)
  known : SndState.undef ∉ irn.states

theorem bits_congr {irn' : SndIrn} (B : Bits cfg irn named) (states : irn'.states = irn.states)
    (base : irn'.baseSeq = irn.baseSeq) : Bits cfg irn' named := by
  refine ⟨fun q dvd => ?_, ?_⟩
  · rw [← B.acked q dvd]
    unfold SndIrn.Acked
    rw [states, base]
  · rw [states]
    exact B.known

theorem bits_named {named' : ℕ → Prop} (B : Bits cfg irn named)
    (same : ∀ q, cfg.mtu ∣ q → (named q ↔ named' q)) : Bits cfg irn named' :=
  ⟨fun q dvd => (B.acked q dvd).trans (same q dvd), B.known⟩

theorem bits_move {states : List SndState} {payloads : List ℕ} {base : ℕ} {rtx : List ℕ}
    (aligned : cfg.mtu ∣ base) (small : base + states.length * cfg.mtu < 2 ^ 32)
    (B : Bits cfg ⟨states, payloads, base, rtx⟩ named) :
    Bits cfg (SndIrn.moveWindow cfg.mtu ⟨states, payloads, base, rtx⟩) named := by
  induction states generalizing payloads base with
  | nil => exact B
  | cons state rest ih =>
    cases state with
    | ack =>
      rw [List.length_cons, Nat.succ_mul] at small
      have exact_add : add32 base cfg.mtu = base + cfg.mtu := Nat.mod_eq_of_lt (by omega)
      have same : SndIrn.moveWindow cfg.mtu ⟨.ack :: rest, payloads, base, rtx⟩ =
          SndIrn.moveWindow cfg.mtu ⟨rest, payloads.tail, base + cfg.mtu, rtx⟩ := by
        simp only [SndIrn.moveWindow, SndIrn.dropAcked, exact_add]
      rw [same]
      have position : ∀ i, base + (i + 1) * cfg.mtu = base + cfg.mtu + i * cfg.mtu := fun i => by
        rw [Nat.succ_mul]
        omega
      apply ih (Nat.dvd_add aligned (Nat.dvd_refl _)) (by omega)
      refine ⟨fun q dvd => ?_, fun member => B.known (List.mem_cons_of_mem _ member)⟩
      rw [← B.acked q dvd]
      constructor
      · rintro (before | ⟨i, at_i, rfl⟩)
        · dsimp only at before
          by_cases below : q < base
          · exact .inl below
          · have rest :=
              Nat.eq_zero_of_dvd_of_lt (Nat.dvd_sub dvd aligned) (show q - base < cfg.mtu by omega)
            exact .inr ⟨0, rfl, by dsimp only; omega⟩
        · exact .inr ⟨i + 1, at_i, (position i).symm⟩
      · rintro (before | ⟨i, at_i, rfl⟩)
        · dsimp only at before
          exact .inl (by dsimp only; omega)
        · cases i with
          | zero =>
            have pos := cfg.mtu_pos
            exact .inl (by dsimp only; omega)
          | succ i => exact .inr ⟨i, at_i, position i⟩
    | unack => exact B
    | nack => exact B
    | undef => exact B

theorem bits_slots (S : Slots cfg irn nxt) (small : cfg.roundUp nxt < 2 ^ 32)
    (B : Bits cfg irn named) : Bits cfg (irn.moveWindow cfg.mtu) named := by
  have ends := S.frontier
  unfold SndIrn.frontier at ends
  exact bits_move S.aligned (by omega) B

theorem bits_set (S : Slots cfg irn nxt) (B : Bits cfg irn named) (dvd : cfg.mtu ∣ seq)
    (missing : irn.isMissing cfg.mtu seq = true) :
    Bits cfg (irn.setSeqState cfg.mtu seq .ack) fun q => named q ∨ q = seq := by
  obtain ⟨ge, inside⟩ := isMissing_index missing
  have position := index_seq S.aligned dvd ge
  refine ⟨fun q q_dvd => ?_, fun member => ?_⟩
  · rw [← B.acked q q_dvd]
    unfold SndIrn.Acked SndIrn.setSeqState
    dsimp only
    constructor
    · rintro (before | ⟨i, at_i, rfl⟩)
      · exact .inl (.inl before)
      · by_cases here : irn.index cfg.mtu seq = i
        · rw [← here]
          exact .inr position
        · rw [List.getElem?_set_ne here] at at_i
          exact .inl (.inr ⟨i, at_i, rfl⟩)
    · rintro ((before | ⟨i, at_i, rfl⟩) | rfl)
      · exact .inl before
      · refine .inr ⟨i, ?_, rfl⟩
        by_cases here : irn.index cfg.mtu seq = i
        · rw [here, List.getElem?_set_self (here ▸ inside)]
        · rw [List.getElem?_set_ne here]
          exact at_i
      · exact .inr ⟨_, List.getElem?_set_self inside, position.symm⟩
  · rcases List.mem_or_eq_of_mem_set member with old | new
    · exact B.known old
    · cases new

theorem bits_states {states : List SndState} (B : Bits cfg irn named)
    (same : ∀ i : ℕ, states[i]? = some SndState.ack ↔ irn.states[i]? = some SndState.ack)
    (known : SndState.undef ∉ states) : Bits cfg { irn with states := states } named := by
  refine ⟨fun q dvd => ?_, known⟩
  rw [← B.acked q dvd]
  unfold SndIrn.Acked
  simp only [same]

theorem missing_state (missing : irn.isMissing cfg.mtu seq = true) :
    irn.states[irn.index cfg.mtu seq]? ≠ some .ack := by
  intro acked
  unfold SndIrn.isMissing SndIrn.getIrnState at missing
  split_ifs at missing with beyond ge
  rw [List.getD_eq_getElem?_getD, acked] at missing
  cases missing

theorem bits_again {state : SndState} (B : Bits cfg irn named)
    (missing : irn.isMissing cfg.mtu seq = true) (open_state : state = .unack ∨ state = .nack) :
    Bits cfg (irn.setSeqState cfg.mtu seq state) named := by
  have different : state ≠ .ack ∧ state ≠ .undef := by
    rcases open_state with rfl | rfl
    · exact ⟨by decide, by decide⟩
    · exact ⟨by decide, by decide⟩
  apply bits_states B
  · intro i
    by_cases here : irn.index cfg.mtu seq = i
    · have before := missing_state missing
      rw [here] at before ⊢
      have other : (irn.states.set i state)[i]? ≠ some .ack := by
        rw [List.getElem?_set, if_pos rfl]
        split
        · exact fun same => different.1 (Option.some.inj same)
        · exact (Option.some_ne_none _).symm
      exact ⟨fun acked => absurd acked other, fun acked => absurd acked before⟩
    · rw [List.getElem?_set_ne here]
  · intro member
    rcases List.mem_or_eq_of_mem_set member with old | new
    · exact B.known old
    · exact different.2 new.symm

theorem bits_mark {first bound : ℕ} (B : Bits cfg irn named)
    (unacked : ∀ i, first ≤ i → i < bound → irn.states[i]? ≠ some .ack) :
    Bits cfg (irn.markLost first bound) named := by
  apply bits_states B
  · intro i
    rw [List.getElem?_mapIdx]
    by_cases inside : first ≤ i ∧ i < bound
    · simp only [inside, and_self, if_true]
      have other : Option.map (fun _ => SndState.nack) irn.states[i]? ≠ some .ack := by
        cases irn.states[i]? <;> simp
      exact ⟨fun acked => absurd acked other, fun acked =>
        absurd acked (unacked i inside.1 inside.2)⟩
    · simp only [inside, if_false, Option.map_id']
  · intro member
    obtain ⟨i, inside, same⟩ := List.mem_mapIdx.mp member
    split at same
    · cases same
    · exact B.known (same ▸ List.getElem_mem inside)

theorem bits_send {payload : ℕ} (B : Bits cfg irn named) :
    Bits cfg (irn.sendNewPacket payload) named := by
  have longer : Bits cfg { irn with states := irn.states ++ [.unack] } named := by
    apply bits_states B
    · intro i
      rcases Nat.lt_or_ge i irn.states.length with lt | ge
      · rw [List.getElem?_append_left lt]
      · rw [List.getElem?_append_right ge, List.getElem?_eq_none ge]
        constructor
        · intro acked
          cases List.mem_singleton.mp (List.mem_of_getElem? acked)
        · exact fun none => (Option.some_ne_none _ none.symm).elim
    · intro member
      rcases List.mem_append.mp member with old | new
      · exact B.known old
      · cases List.mem_singleton.mp new
  exact bits_congr longer rfl rfl

theorem bits_ack (S : Slots cfg irn nxt) (small : cfg.roundUp nxt < 2 ^ 32) (B : Bits cfg irn named)
    (dvd : cfg.mtu ∣ seq) (sent : seq < nxt) : Bits cfg (irn.ackIrnState cfg.mtu seq) fun q =>
      named q ∨ q = seq := by
  unfold SndIrn.ackIrnState
  split
  · rename_i missing
    exact bits_slots (slots_states S List.length_set) small (bits_set S B dvd missing)
  · rename_i acked
    rw [missing_iff_not_acked S small B.known dvd sent, not_not] at acked
    apply bits_named (bits_slots S small B)
    intro q _
    constructor
    · exact .inl
    · rintro (old | rfl)
      · exact old
      · exact (B.acked q dvd).mp acked

/-- `SackIrnState`, when all packets that are acknowledged come before those the SACK reports as
missing. -/
theorem bits_sack {ack : ℕ} (S : Slots cfg irn nxt) (small : cfg.roundUp nxt < 2 ^ 32)
    (B : Bits cfg irn named)
    (dvd : cfg.mtu ∣ seq) (sent : seq < nxt) (ack_dvd : cfg.mtu ∣ ack) (skips : ack < seq)
    (before : ∀ q, named q → q < ack) :
    Bits cfg (irn.sackIrnState cfg.mtu seq ack) fun q => named q ∨ q = seq := by
  have unacked : ∀ q, cfg.mtu ∣ q → ack ≤ q → ¬irn.Acked cfg.mtu q := by
    intro q q_dvd ge acked
    have := before q ((B.acked q q_dvd).mp acked)
    omega
  have base : irn.baseSeq ≤ ack := Nat.le_of_not_lt fun lt =>
    unacked ack ack_dvd (le_refl _) (.inl lt)
  have missing := (missing_iff_not_acked S small B.known dvd sent).mpr (unacked seq dvd skips.le)
  have bound : ack < 2 ^ 32 := by
    have := (aligned_lt_roundUp dvd).mpr sent
    omega
  have first : sub32 ack irn.baseSeq / cfg.mtu = irn.index cfg.mtu ack := by
    rw [sub32_exact bound base]
    rfl
  have position := index_seq S.aligned ack_dvd base
  unfold SndIrn.sackIrnState
  dsimp only
  rw [first, if_pos missing]
  apply bits_slots (slots_states (slots_states S List.length_set) List.length_mapIdx) small
  apply bits_mark (bits_set S B dvd missing)
  intro i ge lt acked
  rw [SndIrn.setSeqState, List.getElem?_set_ne (by omega)] at acked
  have far := Nat.mul_le_mul_right cfg.mtu ge
  exact unacked _ (Nat.dvd_add S.aligned (Nat.dvd_mul_left _ _)) (by omega) (.inr ⟨i, acked, rfl⟩)

end Rdma

end Pyrrha
