import Pyrrha.Wire.TagList

/-!
Packets share `TagData` with their copies, and each of them has its tags for itself: in every run
the counts are exact, no node is used after it has been freed, and what is read is what has been
written.
-/

namespace Pyrrha
open Lib Lib.Cells Lib.Reader

namespace Wire

variable {cfg : TagConfig} {heap heap' : Cells TagData} {next prev cur p q : Option ℕ}
    {a i k bound : ℕ}
  {base outer : ℕ → ℕ} {vs ws : List TagData} {l : List Tag} {tag : Tag} {tid : TagClass}

def Tag.node (cfg : TagConfig) (t : Tag) : TagData :=
  ⟨TagLists.padded (t.tid.serialize cfg t.fields), t.tid⟩

/-- Every tag writes the bytes it announces and is read back from them, whatever comes after them;
only the hosts of a `SwitchSYNTag` can be too many for a `TagData`. -/
theorem tag_round_trip (cfg : TagConfig) (c : TagClass) (old new : c.Fields) (rest : List Byte) :
    (c.serialize cfg new).length = c.serializedSize cfg ∧
      c.deserialize cfg old (c.serialize cfg new ++ rest) = some (c.load cfg old new, rest) ∧
      (packetTagMaxSize < c.serializedSize cfg ↔ c = .switchSynTag ∧ 2622 < cfg.hostNum) := by
  refine ⟨c.length_serialize cfg new, c.deserialize_serialize cfg old new rest, ?_⟩
  have hosts : cfg.hostNum ≤ 3000 := cfg.hostNum_le
  unfold packetTagMaxSize TagClass.serializedSize
  cases c with
  | switchSynTag =>
    simp only [true_and]
    omega
  | switchAckTag =>
    cases cfg.ackMode with
    | switchIngressCredit =>
      simp only [reduceCtorEq, false_and, iff_false]
      omega
    | switchDstCredit | hostPerPacketAck => simp
  | _ => simp [routingHops, leafHops, Pyrrha.maxHop]

/-- No count is above `k`. -/
def Small (k : ℕ) (heap : Cells TagData) : Prop := ∀ a c, heap.cell a = some c → c.count ≤ k

theorem small_write {c : Cell TagData} (small : Small k heap) (known : heap.cell a = some c) {n : ℕ}
    (fits : n ≤ k) : Small k (heap.write a { c with count := n }) := by
  intro x d found
  rw [cell_write known] at found
  split at found
  · obtain rfl := Option.some.inj found
    exact fits
  · exact small x d found

theorem small_free (small : Small k heap) (a : ℕ) : Small k (heap.free a) := by
  intro x d found
  rw [cell_free] at found
  split at found
  · cases found
  · exact small x d found

namespace TagLists

theorem readNode_ok {c : Cell TagData} (known : heap.cell a = some c) :
    readNode heap a = .ok c := by
  rw [readNode, known]

theorem ok_bind {α β : Type} (x : α) (f : α → Except Fault β) : (Except.ok x >>= f) = f x := rfl

/-! ### `RemoveAll` -/

/-- What giving up a pointer leaves: the lists that have others stay. -/
structure Dropped (k : ℕ) (base : ℕ → ℕ) (heap heap' : Cells TagData) : Prop where
  counted : Counted heap' base
  small : Small k heap'
  holds : ∀ q vs, (∀ x, q = some x → 0 < base x) → Holds heap q vs → Holds heap' q vs

/-- The heap once `FreeData(prev)` has been made up for. -/
def settled (heap : Cells TagData) : Option ℕ → Cells TagData
  | none => heap
  | some b => heap.free b

theorem freeData_settled (there : ∀ b, prev = some b → ∃ c, heap.cell b = some c) :
    freeData heap prev = .ok (settled heap prev) := by
  cases prev with
  | none => rfl
  | some b =>
    obtain ⟨c, known⟩ := there b rfl
    rw [freeData, readNode_ok known]
    rfl

theorem cell_settled (apart : prev ≠ some a) : (settled heap prev).cell a = heap.cell a := by
  cases prev with
  | none => rfl
  | some b =>
    rw [settled, cell_free, if_neg]
    rintro rfl
    exact apart rfl

theorem settled_write {c : Cell TagData} (apart : prev ≠ some a) :
    settled (heap.write a c) prev = (settled heap prev).write a c := by
  cases prev with
  | none => rfl
  | some b => exact List.set_comm _ _ fun same => apart (congrArg some same.symm)

theorem write_free (heap : Cells TagData) (a : ℕ) (c : Cell TagData) :
    (heap.write a c).free a = heap.free a := by
  rw [write, free, List.set_set, free]

theorem counted_ended (counted : Counted heap fun x => base x + pointer none x) :
    Counted heap base :=
  counted.congr fun x => by rw [pointer_none, Nat.add_zero]

theorem removeAllLoop_some {c : Cell TagData} {n : ℕ} (known : heap.cell a = some c)
    (fewer : sub32 c.count 1 = n) : removeAllLoop (bound + 1) heap prev (some a) =
      if 0 < n then freeData (heap.write a { c with count := n }) prev
      else freeData (heap.write a { c with count := n }) prev >>= fun heap =>
        removeAllLoop bound heap (some a) c.next := by
  subst fewer
  rw [removeAllLoop, readNode_ok known, ok_bind]

/-- The loop of `RemoveAll` when `prev` is still to be freed: it gives up the pointer to `cur`, and
every node that it leaves without any. -/
theorem removeAllLoop_spec (counted : Counted (settled heap prev) fun x => base x + pointer cur x)
    (small : Small k (settled heap prev)) (short : k < 2 ^ 32) (there : ∀ b, prev = some b →
      ∃ c, heap.cell b = some c)
    (holds : Holds (settled heap prev) cur vs) (long : vs.length ≤ bound) :
    ∃ heap', removeAllLoop bound heap prev cur = .ok heap' ∧
    Dropped k base (settled heap prev) heap' := by
  induction bound generalizing heap prev cur vs with
  | zero =>
    cases holds with
    | nil =>
      refine ⟨_, freeData_settled there, counted_ended counted, small, fun _ _ _ held => held⟩
    | cons known rest =>
      rw [List.length_cons] at long
      omega
  | succ bound ih =>
    cases holds with
    | nil =>
      refine ⟨_, freeData_settled there, counted_ended counted, small, fun _ _ _ held => held⟩
    | @cons cur c vs known rest =>
      have apart : prev ≠ some cur := by
        rintro rfl
        rw [settled, cell_free, if_pos rfl] at known
        cases known
      have here : heap.cell cur = some c := (cell_settled apart).symm.trans known
      have pos := counted.used cur c known
      have fits : c.count < 2 ^ 32 := Nat.lt_of_le_of_lt (small cur c known) short
      have fewer : sub32 c.count 1 = c.count - 1 := sub32_exact fits pos
      have there' : ∀ b, prev = some b →
          ∃ d, (heap.write cur { c with count := c.count - 1 }).cell b = some d := by
        intro b same
        rw [cell_write here]
        split
        · exact ⟨_, rfl⟩
        · exact there b same
      have freed := freeData_settled there'
      rw [settled_write apart] at freed
      rw [removeAllLoop_some here fewer]
      by_cases several : 0 < c.count - 1
      · rw [if_pos several, freed]
        refine ⟨_, rfl, counted_lower counted known (by omega), small_write small known ?_,
          fun q ws _ held => holds_recount known _ held⟩
        exact Nat.le_trans (Nat.sub_le _ _) (small cur c known)
      · have last : c.count = 1 := by omega
        obtain ⟨alone, counted'⟩ := counted_free counted known last
        rw [if_neg several, freed]
        have next : settled ((settled heap prev).write cur { c with count := c.count - 1 })
          (some cur) = (settled heap prev).free cur := write_free _ _ _
        have node : ∀ b, some cur = some b →
            ∃ d, ((settled heap prev).write cur { c with count := c.count - 1 }).cell b =
              some d := by
          intro b same
          rw [← Option.some.inj same, cell_write known, if_pos rfl]
          exact ⟨_, rfl⟩
        have goes := @ih ((settled heap prev).write cur { c with count := c.count - 1 })
          (some cur) c.next vs
        rw [next] at goes
        have tail := holds_free alone.2 (fun same => ?_) rest
        · obtain ⟨heap', ends, dropped⟩ :=
            goes counted' (small_free small cur) node tail (Nat.le_of_succ_le_succ long)
          refine ⟨heap', ends, dropped.counted, dropped.small, fun q ws kept held => ?_⟩
          refine dropped.holds q ws kept (holds_free alone.2 ?_ held)
          rintro rfl
          have used := kept cur rfl
          omega
        · have linked := inner_pos known same
          omega

theorem removeAll_spec (counted : Counted heap fun x => base x + pointer next x)
    (small : Small k heap) (short : k < 2 ^ 32) : ∃ heap', removeAll heap next = .ok heap' ∧
    Dropped k base heap heap' := by
  obtain ⟨vs, holds⟩ := counted.pointed next fun a same => by
    subst same
    rw [pointer_self]
    exact Nat.succ_pos _
  have there : ∀ b, (none : Option ℕ) = some b → ∃ c, heap.cell b = some c := nofun
  exact removeAllLoop_spec counted small short there holds (holds_length holds)

/-! ### Searches -/

theorem checkAbsent_spec (holds : Holds heap next vs) (long : vs.length ≤ bound) :
    checkAbsent tid heap bound next = if tid ∈ vs.map TagData.tid then .error .added
      else .ok () := by
  induction bound generalizing next vs with
  | zero =>
    cases holds with
    | nil => rfl
    | cons known rest =>
      rw [List.length_cons] at long
      omega
  | succ bound ih =>
    cases holds with
    | nil => rfl
    | @cons a c vs known rest =>
      rw [checkAbsent, readNode_ok known, ok_bind, ih rest (Nat.le_of_succ_le_succ long)]
      by_cases here : c.value.tid = tid
      · rw [if_pos here, if_pos (by rw [List.map_cons, here]; exact List.mem_cons_self)]
      · rw [if_neg here, List.map_cons]
        simp only [List.mem_cons, Ne.symm here, false_or]

theorem node_tids (cfg : TagConfig) (l : List Tag) : (l.map (Tag.node cfg)).map TagData.tid =
    l.map Tag.tid := by
  rw [List.map_map]
  rfl

theorem deserialize_node (t tag : Tag) (same : t.tid = tag.tid) :
    deserialize cfg tag (t.node cfg).data =
      .ok ⟨tag.tid, tag.tid.load cfg tag.fields (same ▸ t.fields)⟩ := by
  obtain ⟨tid, fields⟩ := t
  obtain ⟨tid', old⟩ := tag
  obtain rfl : tid = tid' := same
  unfold deserialize Tag.node padded
  dsimp only
  rw [TagClass.deserialize_serialize cfg tid old fields]

theorem find_here {t : Tag} (same : t.tid = tag.tid) (l : List Tag) :
    PacketTags.find cfg (t :: l) tag =
      some ⟨tag.tid, tag.tid.load cfg tag.fields (same ▸ t.fields)⟩ := by
  unfold PacketTags.find
  rw [List.find?_cons_of_pos (by simpa using same)]
  simp [same]

theorem find_other {t : Tag} (other : t.tid ≠ tag.tid) (l : List Tag) :
    PacketTags.find cfg (t :: l) tag = PacketTags.find cfg l tag := by
  unfold PacketTags.find
  rw [List.find?_cons_of_neg (by simpa using other)]

theorem find_none (absent : tag.tid ∉ l.map Tag.tid) : PacketTags.find cfg l tag = none := by
  unfold PacketTags.find
  have missing : (l.find? fun t => decide (t.tid = tag.tid)) = none :=
    List.find?_eq_none.mpr fun t member same =>
      absent (of_decide_eq_true same ▸ List.mem_map_of_mem member)
  rw [missing]
  rfl

theorem peek_spec (holds : Holds heap next (l.map (Tag.node cfg))) (long : l.length ≤ bound) :
    peek cfg heap tag bound next = .ok (PacketTags.find cfg l tag) := by
  induction bound generalizing next l with
  | zero =>
    cases l with
    | nil => cases holds with
      | nil => rfl
    | cons t l =>
      rw [List.length_cons] at long
      omega
  | succ bound ih =>
    cases l with
    | nil => cases holds with
      | nil => rfl
    | cons t l =>
      rw [List.map_cons] at holds
      generalize same : t.node cfg :: l.map (Tag.node cfg) = vs at holds
      cases holds with
      | nil => cases same
      | @cons a c ws known rest =>
        obtain ⟨value, rfl⟩ := List.cons.inj same
        rw [peek, readNode_ok known, ok_bind, ← value]
        by_cases here : t.tid = tag.tid
        · rw [if_pos (show (t.node cfg).tid = tag.tid from here), deserialize_node t tag here,
            find_here here]
          rfl
        · rw [if_neg (show ¬(t.node cfg).tid = tag.tid from here), find_other here]
          exact ih rest (Nat.le_of_succ_le_succ long)

theorem findLast_others {found : Option Tag} (holds : Holds heap next (l.map (Tag.node cfg)))
    (absent : tid ∉ l.map Tag.tid) (long : l.length ≤ bound) :
    findLast cfg heap tid bound next found tag = .ok found := by
  induction bound generalizing next l with
  | zero =>
    cases l with
    | nil => cases holds with
      | nil => rfl
    | cons t l =>
      rw [List.length_cons] at long
      omega
  | succ bound ih =>
    cases l with
    | nil => cases holds with
      | nil => rfl
    | cons t l =>
      rw [List.map_cons] at holds absent
      generalize same : t.node cfg :: l.map (Tag.node cfg) = vs at holds
      cases holds with
      | nil => cases same
      | @cons a c ws known rest =>
        obtain ⟨value, rfl⟩ := List.cons.inj same
        have other : ¬(t.node cfg).tid = tid := fun here => absent (here ▸ List.mem_cons_self)
        rw [findLast, readNode_ok known, ok_bind, ← value, if_neg other]
        exact ih rest (fun member => absent (List.mem_cons_of_mem _ member))
          (Nat.le_of_succ_le_succ long)

theorem findLast_spec (holds : Holds heap next (l.map (Tag.node cfg)))
    (distinct : (l.map Tag.tid).Nodup)
    (long : l.length ≤ bound) : findLast cfg heap tag.tid bound next none tag =
      .ok (PacketTags.find cfg l tag) := by
  induction bound generalizing next l with
  | zero =>
    cases l with
    | nil => cases holds with
      | nil => rfl
    | cons t l =>
      rw [List.length_cons] at long
      omega
  | succ bound ih =>
    cases l with
    | nil => cases holds with
      | nil => rfl
    | cons t l =>
      rw [List.map_cons] at holds distinct
      obtain ⟨fresh, distinct⟩ := List.nodup_cons.mp distinct
      generalize same : t.node cfg :: l.map (Tag.node cfg) = vs at holds
      cases holds with
      | nil => cases same
      | @cons a c ws known rest =>
        obtain ⟨value, rfl⟩ := List.cons.inj same
        rw [findLast, readNode_ok known, ok_bind, ← value]
        by_cases here : t.tid = tag.tid
        · rw [if_pos (show (t.node cfg).tid = tag.tid from here), deserialize_node t tag here,
            ok_bind, find_here here]
          exact findLast_others rest (here ▸ fresh) (Nat.le_of_succ_le_succ long)
        · rw [if_neg (show ¬(t.node cfg).tid = tag.tid from here), find_other here]
          exact ih rest distinct (Nat.le_of_succ_le_succ long)

/-! ### Copies -/

/-- The cell `prevNext` points into once the values `vs` have been copied. -/
def lastCopy (n : ℕ) (vs : List TagData) : Option ℕ :=
  if vs.isEmpty then none else some (n + (vs.length - 1))

theorem setPrevNext_copy (old : Cells TagData) (vs : List TagData) (v : TagData) :
    setPrevNext (alloc (old ++ chain old.length vs) ⟨v, none, 1⟩) (chainStart old.length vs)
      (lastCopy old.length vs) (some (old ++ chain old.length vs).length) =
      .ok (old ++ chain old.length (vs ++ [v]), chainStart old.length (vs ++ [v])) := by
  have size : (old ++ chain old.length vs).length = old.length + vs.length := by
    rw [List.length_append, length_chain]
  rw [size]
  cases vs using List.reverseRecOn with
  | nil =>
    unfold setPrevNext lastCopy alloc
    simp [chain, chainStart]
  | append_singleton us u _ =>
    have last : lastCopy old.length (us ++ [u]) = some (old.length + us.length) := by
      simp [lastCopy]
    have start : ∀ ws : List TagData, chainStart old.length (us ++ [u] ++ ws) =
      some old.length := by simp [chainStart]
    have inside : us.length < (chain old.length (us ++ [u])).length := by simp [length_chain]
    have there : cell (alloc (old ++ chain old.length (us ++ [u])) ⟨v, none, 1⟩)
      (old.length + us.length) = some ⟨u, none, 1⟩ := by
      rw [cell_alloc, if_neg (by rw [List.length_append]; omega), cell_append, if_neg (by omega), Nat.add_sub_cancel_left,
        cell_last]
    have written : write (alloc (old ++ chain old.length (us ++ [u])) ⟨v, none, 1⟩)
      (old.length + us.length) ⟨u, some (old.length + (us ++ [u]).length), 1⟩ = old ++
          chain old.length (us ++ [u] ++ [v]) := by
      rw [write, alloc, List.append_assoc, List.set_append_right _ _ (Nat.le_add_right _ _),
        Nat.add_sub_cancel_left, List.set_append_left _ _ inside, chain_concat]
      simp [Nat.add_assoc]
    have first := start []
    rw [List.append_nil] at first
    rw [last, setPrevNext, readNode_ok there, ok_bind, first, start [v], ← written]

theorem setPrevNext_end (old : Cells TagData) (vs : List TagData) :
    setPrevNext (old ++ chain old.length vs) (chainStart old.length vs)
      (lastCopy old.length vs) none =
      .ok (old ++ chain old.length vs, chainStart old.length vs) := by
  cases vs using List.reverseRecOn with
  | nil => rfl
  | append_singleton us u _ =>
    have last : lastCopy old.length (us ++ [u]) = some (old.length + us.length) := by
      simp [lastCopy]
    have there : cell (old ++ chain old.length (us ++ [u])) (old.length + us.length) =
        some ⟨u, none, 1⟩ := by
      rw [cell_append, if_neg (by omega), Nat.add_sub_cancel_left, cell_last]
    have kept : write (old ++ chain old.length (us ++ [u])) (old.length + us.length) ⟨u, none, 1⟩ =
        old ++ chain old.length (us ++ [u]) := by
      obtain ⟨lt, entry⟩ := List.getElem?_eq_some_iff.mp (get_of_cell there)
      rw [write, ← entry, List.set_getElem_self]
    rw [last, setPrevNext, readNode_ok there, ok_bind, kept]

theorem copyOthers_spec {old : Cells TagData} (holds : Holds old cur ws)
    (long : ws.length ≤ bound) :
    copyOthers tid bound (old ++ chain old.length vs) cur (chainStart old.length vs)
      (lastCopy old.length vs) =
      .ok (old ++ chain old.length (vs ++ ws.filter fun v => !decide (v.tid = tid)),
        chainStart old.length (vs ++ ws.filter fun v => !decide (v.tid = tid))) := by
  induction bound generalizing cur ws vs with
  | zero =>
    cases holds with
    | nil =>
      rw [List.filter_nil, List.append_nil]
      exact setPrevNext_end old vs
    | cons known rest =>
      rw [List.length_cons] at long
      omega
  | succ bound ih =>
    cases holds with
    | nil =>
      rw [List.filter_nil, List.append_nil]
      exact setPrevNext_end old vs
    | @cons a c ws known rest =>
      have known' : cell (old ++ chain old.length vs) a = some c := by
        rw [cell_append, if_pos (cell_lt known)]
        exact known
      rw [copyOthers, readNode_ok known', ok_bind]
      by_cases here : c.value.tid = tid
      · rw [if_pos here, List.filter_cons_of_neg (by simpa using here)]
        exact ih rest (Nat.le_of_succ_le_succ long)
      · have next : some (old ++ chain old.length vs).length =
            lastCopy old.length (vs ++ [c.value]) := by
          simp [lastCopy, length_chain]
        rw [if_neg here, List.filter_cons_of_pos (by simpa using here)]
        have goes : copyOthers tid bound (old ++ chain old.length (vs ++ [c.value])) c.next
            (chainStart old.length (vs ++ [c.value])) (lastCopy old.length (vs ++ [c.value])) = _ :=
          ih rest (Nat.le_of_succ_le_succ long)
        rw [List.append_assoc, List.singleton_append] at goes
        dsimp only
        rw [setPrevNext_copy, ok_bind, next]
        exact goes

end TagLists

end Wire

end Pyrrha
