import Pyrrha.Wire.TagSharing

/-!
Runs of packets that are created, copied, assigned, tagged and destroyed: with shared `TagData` they
answer as if each packet had its tags for itself, and no `TagData` outlives the packets that point
to it.
-/

namespace Pyrrha
open Lib Lib.Cells

namespace Wire

variable {cfg : TagConfig} {s t : TagLists} {A B : PacketTags} {heap heap' : Cells TagData}
    {next : Option ℕ}
  {a i j k : ℕ} {lists : List (Option (Option ℕ))} {l : List Tag} {ev : TagEvent}
    {evs : List TagEvent}

/-- The packets whose list starts at a node. -/
def outer (lists : List (Option (Option ℕ))) (a : ℕ) : ℕ :=
  tally (fun _ => 1) (fun x => decide (x = some (some a))) lists

def held : Option (Option ℕ) → ℕ → ℕ
  | none, _ => 0
  | some next, a => pointer next a

theorem held_eq (x : Option (Option ℕ)) (a : ℕ) :
    (if decide (x = some (some a)) = true then 1 else 0) = held x a := by
  cases x with
  | none => rfl
  | some next => simp [held, pointer]

theorem outer_set {x : Option (Option ℕ)} (known : lists[i]? = some x)
    (y : Option (Option ℕ)) (a : ℕ) :
    outer (lists.set i y) a + held x a = outer lists a + held y a := by
  have written := tally_set (w := fun _ => 1) (p := fun x => decide (x = some (some a)))
    (y := y) known
  rw [held_eq, held_eq] at written
  exact written

theorem outer_append (lists : List (Option (Option ℕ))) (x : Option (Option ℕ)) (a : ℕ) :
    outer (lists ++ [x]) a = outer lists a + held x a := by
  rw [outer, tally_concat, held_eq, outer]

theorem outer_pos (known : lists[j]? = some (some (some a))) : 0 < outer lists a :=
  le_tally (w := fun _ => 1) (List.mem_of_getElem? known) (decide_eq_true rfl)

theorem outer_without (known : lists[i]? = some (some next)) (a : ℕ) :
    outer lists a = outer (lists.set i none) a + pointer next a :=
  (outer_set known none a).symm

theorem outer_moved (known : lists[i]? = some (some next)) (new : Option ℕ) (a : ℕ) :
    outer (lists.set i (some new)) a = outer (lists.set i none) a + pointer new a := by
  have moved : outer (lists.set i (some new)) a + pointer next a = outer lists a + pointer new a :=
    outer_set known _ a
  rw [outer_without known] at moved
  omega

/-! ### Refinement -/

/-- A packet and its tags: their nodes are in the list of the packet. -/
inductive Entry (cfg : TagConfig) (heap : Cells TagData) : Option (Option (Option ℕ)) → Option (Option (List Tag)) → Prop
  | absent : Entry cfg heap none none
  | gone : Entry cfg heap (some none) (some none)
  | tags {next : Option ℕ} {l : List Tag} : Holds heap next (l.map (Tag.node cfg)) →
      (l.map Tag.tid).Nodup → Entry cfg heap (some (some next)) (some (some l))

/-- After at most `k` events. -/
structure Refines (cfg : TagConfig) (k : ℕ) (s : TagLists) (A : PacketTags) : Prop where
  counted : Counted s.heap (outer s.lists)
  small : Small k s.heap
  entries : ∀ i : ℕ, Entry cfg s.heap s.lists[i]? A[i]?

/-- The two levels give the same answer, and go on in states that refine each other, or stop at the
same fault. -/
inductive Agrees {β : Type} (cfg : TagConfig) (k : ℕ) : Except Fault (TagLists × β) →
    Except Fault (PacketTags × β) → Prop
  | ok {s : TagLists} {A : PacketTags} {answer : β} : Refines cfg k s A →
      Agrees cfg k (.ok (s, answer)) (.ok (A, answer))
  | error {e : Fault} : e ≠ .freed → e ≠ .overrun → Agrees cfg k (.error e) (.error e)

theorem refines_initial (cfg : TagConfig) : Refines cfg 0 ⟨[], []⟩ [] where
  counted := counted_empty
  small _ _ known := absurd (cell_lt known) (Nat.not_lt_zero _)
  entries _ := .absent

theorem Entry.mono {x : Option (Option (Option ℕ))} {y : Option (Option (List Tag))}
    (h : Entry cfg heap x y)
    (stays : ∀ next vs, x = some (some next) → Holds heap next vs → Holds heap' next vs) :
    Entry cfg heap' x y := by
  cases h with
  | absent => exact .absent
  | gone => exact .gone
  | tags holds distinct => exact .tags (stays _ _ rfl holds) distinct

theorem refines_length (h : Refines cfg k s A) : s.lists.length = A.length := by
  have sides : ∀ i : ℕ, s.lists.length ≤ i ↔ A.length ≤ i := by
    intro i
    rw [← List.getElem?_eq_none_iff, ← List.getElem?_eq_none_iff]
    have entry := h.entries i
    cases left : s.lists[i]? with
    | none =>
      rw [left] at entry
      cases right : A[i]? with
      | none => exact iff_of_true rfl rfl
      | some y =>
        rw [right] at entry
        cases entry
    | some x =>
      rw [left] at entry
      cases right : A[i]? with
      | none =>
        rw [right] at entry
        cases entry
      | some y => exact iff_of_false (by simp) (by simp)
  have le := (sides A.length).mpr (le_refl _)
  have ge := (sides s.lists.length).mp (le_refl _)
  omega

/-- A packet that is there is there on both levels. -/
structure Found (cfg : TagConfig) (s : TagLists) (A : PacketTags) (i : ℕ) (next : Option ℕ)
    (l : List Tag) : Prop where
  list : s.lists[i]? = some (some next)
  spec : A[i]? = some (some l)
  head : s.head i = .ok next
  tags : A.tags i = .ok l
  holds : Holds s.heap next (l.map (Tag.node cfg))
  distinct : (l.map Tag.tid).Nodup

theorem refines_found (h : Refines cfg k s A) (i : ℕ) :
    (s.head i = .error .gone ∧ A.tags i = .error .gone) ∨ ∃ next l, Found cfg s A i next l := by
  have entry := h.entries i
  unfold TagLists.head PacketTags.tags
  generalize left : s.lists[i]? = x at entry
  generalize right : A[i]? = y at entry
  cases entry with
  | absent => exact .inl ⟨rfl, rfl⟩
  | gone => exact .inl ⟨rfl, rfl⟩
  | @tags next l holds distinct =>
    refine .inr ⟨next, l, left, right, ?_, ?_, holds, distinct⟩
    · rw [TagLists.head, left]
    · rw [PacketTags.tags, right]

theorem entries_set {x : Option (Option ℕ)} {y : Option (List Tag)} (h : Refines cfg k s A)
    (here : Entry cfg heap (some x) (some y))
    (stays : ∀ (j : ℕ) next vs, j ≠ i → s.lists[j]? = some (some next) → Holds s.heap next vs →
      Holds heap next vs) (j : ℕ) :
    Entry cfg heap (s.lists.set i x)[j]? (A.set i y)[j]? := by
  have length := refines_length h
  rw [List.getElem?_set, List.getElem?_set]
  by_cases same : i = j
  · rw [if_pos same, if_pos same, ← length]
    split
    · exact here
    · exact .absent
  · rw [if_neg same, if_neg same]
    exact (h.entries j).mono fun next vs known => stays j next vs (fun also => same also.symm) known

theorem entries_append {x : Option (Option ℕ)} {y : Option (List Tag)} (h : Refines cfg k s A)
    (here : Entry cfg heap (some x) (some y))
    (stays : ∀ (j : ℕ) next vs, s.lists[j]? = some (some next) → Holds s.heap next vs →
      Holds heap next vs) (j : ℕ) :
    Entry cfg heap (s.lists ++ [x])[j]? (A ++ [y])[j]? := by
  have length := refines_length h
  rw [List.getElem?_append, List.getElem?_append, ← length]
  split
  · exact (h.entries j).mono fun next vs known => stays j next vs known
  · cases j - s.lists.length with
    | zero => exact here
    | succ k => exact .absent

/-! ### Operations -/

theorem small_mono {n : ℕ} (small : Small k heap) (le : k ≤ n) : Small n heap :=
  fun a c known => Nat.le_trans (small a c known) le

theorem refines_dropped (h : Refines cfg k s A) (short : k < 2 ^ 32)
    (found : Found cfg s A i next l) : ∃ heap', TagLists.removeAll s.heap next = .ok heap' ∧
      TagLists.Dropped k (outer (s.lists.set i none)) s.heap heap' :=
  TagLists.removeAll_spec (h.counted.congr fun a => (outer_without found.list a).symm) h.small short

theorem dropped_others {heap : Cells TagData} {base : ℕ → ℕ}
    (dropped : TagLists.Dropped k base heap heap')
    (more : ∀ a, outer (s.lists.set i none) a ≤ base a) {next : Option ℕ} {vs : List TagData}
    (other : j ≠ i) (known : s.lists[j]? = some (some next)) (holds : Holds heap next vs) :
    Holds heap' next vs := by
  refine dropped.holds next vs (fun a same => ?_) holds
  subst same
  have still : (s.lists.set i none)[j]? = some (some (some a)) := by
    rw [List.getElem?_set, if_neg fun same => other same.symm]
    exact known
  exact Nat.lt_of_lt_of_le (outer_pos still) (more a)

theorem refines_clear (h : Refines cfg k s A) (short : k < 2 ^ 32)
    (found : Found cfg s A i next l) :
    ∃ t, s.clear i = .ok t ∧ Refines cfg (k + 1) t (A.set i (some [])) := by
  obtain ⟨heap', ends, dropped⟩ := refines_dropped h short found
  refine ⟨{ s.setHead i none with heap := heap' }, ?_, dropped.counted.congr fun a => ?_,
    small_mono dropped.small (Nat.le_succ k), ?_⟩
  · rw [TagLists.clear, found.head, TagLists.ok_bind, ends]
    rfl
  · exact outer_moved found.list none a
  · exact entries_set h (.tags .nil List.nodup_nil) fun j next vs other known holds =>
      dropped_others dropped (fun a => le_refl _) other known holds

theorem refines_destroy (h : Refines cfg k s A) (short : k < 2 ^ 32)
    (found : Found cfg s A i next l) :
    ∃ t, s.destroy i = .ok t ∧ Refines cfg (k + 1) t (A.set i none) := by
  obtain ⟨heap', ends, dropped⟩ := refines_dropped h short found
  refine ⟨{ heap := heap', lists := s.lists.set i none }, ?_, dropped.counted,
    small_mono dropped.small (Nat.le_succ k), ?_⟩
  · rw [TagLists.destroy, found.head, TagLists.ok_bind, ends]
    rfl
  · exact entries_set h .gone fun j next vs other known holds =>
      dropped_others dropped (fun a => le_refl _) other known holds

theorem refines_add (h : Refines cfg k s A) (found : Found cfg s A i next l) {tag : Tag}
    (absent : tag.tid ∉ l.map Tag.tid) (fits : tag.tid.serializedSize cfg ≤ packetTagMaxSize) :
    ∃ t, s.add cfg i tag = .ok t ∧ Refines cfg (k + 1) t (A.set i (some (tag :: l))) := by
  have short := holds_length found.holds
  have fresh : TagLists.checkAbsent tag.tid s.heap s.heap.length next = _ :=
    TagLists.checkAbsent_spec found.holds short
  rw [TagLists.node_tids, if_neg absent] at fresh
  have size := tag.tid.length_serialize cfg tag.fields
  have allocated :=
    counted_alloc (tag.node cfg) (h.counted.congr fun a => (outer_without found.list a).symm)
  refine ⟨{ s.setHead i (some s.heap.length) with heap := s.heap.alloc ⟨tag.node cfg, next, 1⟩ },
    ?_, allocated.congr fun a => outer_moved found.list _ a, fun a c known => ?_, ?_⟩
  · rw [TagLists.add, found.head, TagLists.ok_bind, fresh, TagLists.ok_bind,
      if_neg (Nat.not_lt.mpr fits), if_neg]
    · rfl
    · rw [size]
      exact Nat.lt_irrefl _
  · rw [cell_alloc] at known
    split at known
    · obtain rfl := Option.some.inj known
      exact Nat.succ_pos k
    · exact small_mono h.small (Nat.le_succ k) a c known
  · refine entries_set h
      (.tags (Holds.cons (c := ⟨tag.node cfg, next, 1⟩) ?_ (holds_alloc _ found.holds))
      (List.nodup_cons.mpr ⟨absent, found.distinct⟩)) fun j next vs _ _ holds => holds_alloc _ holds
    rw [cell_alloc, if_pos rfl]

theorem small_chain (small : Small k heap) (vs : List TagData) :
    Small (k + 1) (heap ++ chain heap.length vs) := by
  intro a c known
  by_cases old : a < heap.length
  · rw [cell_append, if_pos old] at known
    exact small_mono small (Nat.le_succ k) a c known
  · rw [(cell_chain heap vs (by omega) known).1]
    exact Nat.succ_pos k

theorem refines_remove (h : Refines cfg k s A) (short : k + 1 < 2 ^ 32)
    (found : Found cfg s A i next l) (tag : Tag) :
    ∃ t, s.remove cfg i tag = .ok (t, PacketTags.find cfg l tag) ∧
      Refines cfg (k + 1) t (A.set i (some (l.filter fun t => !decide (t.tid = tag.tid)))) := by
  have long := holds_length found.holds
  rw [List.length_map] at long
  have looked : TagLists.findLast cfg s.heap tag.tid s.heap.length next none tag = _ :=
    TagLists.findLast_spec found.holds found.distinct long
  by_cases present : tag.tid ∈ l.map Tag.tid
  · obtain ⟨tag', answer⟩ : ∃ tag', PacketTags.find cfg l tag = some tag' := by
      obtain ⟨u, member, same⟩ := List.mem_map.mp present
      unfold PacketTags.find
      have there : (l.find? fun t => decide (t.tid = tag.tid)).isSome :=
        List.find?_isSome.mpr ⟨u, member, decide_eq_true same⟩
      obtain ⟨v, first⟩ := Option.isSome_iff_exists.mp there
      have passes := List.find?_some first
      have same : v.tid = tag.tid := of_decide_eq_true passes
      exact ⟨_, by rw [first, Option.bind_some, dif_pos same]⟩
    have copied : TagLists.copyOthers tag.tid s.heap.length
        (s.heap ++ chain s.heap.length []) next none none = _ :=
      TagLists.copyOthers_spec found.holds (by rw [List.length_map]; exact long)
    have kept : (l.map (Tag.node cfg)).filter (fun v => !decide (v.tid = tag.tid)) =
        (l.filter fun t => !decide (t.tid = tag.tid)).map (Tag.node cfg) := List.filter_map ..
    rw [List.nil_append, kept] at copied
    generalize others : l.filter (fun t => !decide (t.tid = tag.tid)) = m at copied ⊢
    have chained : Counted (s.heap ++ chain s.heap.length (m.map (Tag.node cfg))) fun a =>
        outer (s.lists.set i (some (chainStart s.heap.length (m.map (Tag.node cfg))))) a +
          pointer next a := by
      refine (counted_chain h.counted (m.map (Tag.node cfg))).congr fun a => ?_
      rw [outer_moved found.list, outer_without found.list]
      omega
    obtain ⟨heap', ends, dropped⟩ := TagLists.removeAll_spec chained (small_chain h.small _) short
    have distinct : (m.map Tag.tid).Nodup := by
      rw [← others]
      exact (List.Sublist.map Tag.tid List.filter_sublist).nodup found.distinct
    refine ⟨{ s.setHead i (chainStart s.heap.length (m.map (Tag.node cfg))) with heap := heap' },
      ?_, dropped.counted, dropped.small, ?_⟩
    · rw [TagLists.remove, found.head, TagLists.ok_bind, looked, TagLists.ok_bind, answer]
      dsimp only
      rw [chain, List.append_nil] at copied
      have start : TagLists.copyOthers tag.tid s.heap.length s.heap next none none =
          .ok (s.heap ++ chain s.heap.length (m.map (Tag.node cfg)),
            chainStart s.heap.length (m.map (Tag.node cfg))) := copied
      rw [start, TagLists.ok_bind]
      dsimp only
      rw [ends]
      rfl
    · refine entries_set h
        (.tags (dropped.holds _ _ (fun a start => ?_) (holds_chain s.heap _)) distinct)
        fun j next vs other known holds => ?_
      · rw [outer_moved found.list, start, pointer_self]
        exact Nat.succ_pos _
      · refine dropped_others dropped (fun a => ?_) other known (holds_append _ holds)
        rw [outer_moved found.list]
        exact Nat.le_add_right _ _
  · have nothing := @TagLists.find_none cfg l tag present
    have same : (l.filter fun t => !decide (t.tid = tag.tid)) = l := by
      refine List.filter_eq_self.mpr fun t member => ?_
      have other : t.tid ≠ tag.tid := fun same => present (same ▸ List.mem_map_of_mem member)
      simp [other]
    have kept : A.set i (some l) = A := by
      obtain ⟨lt, entry⟩ := List.getElem?_eq_some_iff.mp found.spec
      rw [← entry, List.set_getElem_self]
    refine ⟨s, ?_, ?_⟩
    · rw [TagLists.remove, found.head, TagLists.ok_bind, looked, TagLists.ok_bind, nothing]
    · rw [same, kept]
      exact ⟨h.counted, small_mono h.small (Nat.le_succ k), h.entries⟩

theorem retain_ok {c : Cell TagData} (known : heap.cell a = some c) (room : c.count + 1 < 2 ^ 32) :
    TagLists.retain heap (some a) = .ok (heap.write a { c with count := c.count + 1 }) := by
  rw [TagLists.retain, TagLists.readNode_ok known, TagLists.ok_bind, add32_exact room]

theorem retain_spec {outer : ℕ → ℕ} (counted : Counted heap outer) (small : Small k heap)
    (short : k + 1 < 2 ^ 32) (kept : ∀ a, next = some a → 0 < outer a) :
    ∃ heap', TagLists.retain heap next = .ok heap' ∧
    Counted heap' (fun a => outer a + pointer next a) ∧
      Small (k + 1) heap' ∧ ∀ q vs, Holds heap q vs → Holds heap' q vs := by
  have more := small_mono small (Nat.le_succ k)
  cases next with
  | none => exact ⟨heap, rfl, counted.congr fun a => rfl, more, fun _ _ holds => holds⟩
  | some a =>
    have pos := kept a rfl
    obtain ⟨c, known⟩ := counted.live a (by omega)
    have fits := small a c known
    exact ⟨_, retain_ok known (by omega), counted_retain counted known,
      small_write more known (Nat.succ_le_succ fits), fun _ _ holds => holds_recount known _ holds⟩

theorem refines_copy (h : Refines cfg k s A) (short : k + 1 < 2 ^ 32)
    (found : Found cfg s A i next l) :
    ∃ t, s.copy i = .ok t ∧ Refines cfg (k + 1) t (A ++ [some l]) := by
  have kept : ∀ a, next = some a → 0 < outer s.lists a :=
    fun a same => outer_pos (by rw [found.list, same])
  obtain ⟨heap', ends, counted, small, holds⟩ := retain_spec h.counted h.small short kept
  refine ⟨{ heap := heap', lists := s.lists ++ [some next] }, ?_, counted.congr fun a =>
    outer_append _ _ a, small, ?_⟩
  · rw [TagLists.copy, found.head, TagLists.ok_bind, ends]
    rfl
  · exact entries_append h (.tags (holds _ _ found.holds) found.distinct) fun j next vs _ =>
      holds next vs

theorem refines_assign (h : Refines cfg k s A) (short : k + 1 < 2 ^ 32) {mine : Option ℕ}
    {l' : List Tag} (found : Found cfg s A i mine l') (other : Found cfg s A j next l) :
    ∃ t, s.assign i j = .ok t ∧ Refines cfg (k + 1) t (A.set i (some l)) := by
  unfold TagLists.assign
  rw [found.head, TagLists.ok_bind, other.head, TagLists.ok_bind]
  by_cases same : mine = next
  · rw [if_pos same]
    refine ⟨s, rfl, h.counted, small_mono h.small (Nat.le_succ k), fun m => ?_⟩
    have kept : s.lists.set i (some next) = s.lists := by
      obtain ⟨lt, entry⟩ := List.getElem?_eq_some_iff.mp found.list
      rw [← same, ← entry, List.set_getElem_self]
    rw [← kept]
    exact entries_set h (.tags other.holds other.distinct) (fun _ _ _ _ _ holds => holds) m
  · obtain ⟨heap', ends, dropped⟩ := refines_dropped h (by omega) found
    have apart : i ≠ j := by
      rintro rfl
      exact same (Option.some.inj (Option.some.inj (found.list.symm.trans other.list)))
    have still : (s.lists.set i none)[j]? = some (some next) := by
      rw [List.getElem?_set, if_neg apart]
      exact other.list
    have kept : ∀ a, next = some a → 0 < outer (s.lists.set i none) a :=
      fun a here => outer_pos (by rw [still, here])
    obtain ⟨heap₂, raised, counted, small, holds⟩ :=
      retain_spec dropped.counted dropped.small short kept
    rw [if_neg same, ends, TagLists.ok_bind, raised]
    refine ⟨{ s.setHead i next with heap := heap₂ }, rfl, counted.congr fun a =>
      outer_moved found.list next a, small, ?_⟩
    have others : ∀ (m : ℕ) next vs, m ≠ i → s.lists[m]? = some (some next) → Holds s.heap next vs →
        Holds heap₂ next vs :=
      fun m next vs away known held =>
        holds _ _ (dropped_others dropped (fun a => le_refl _) away known held)
    exact entries_set h (.tags (others j next _ apart.symm other.list other.holds) other.distinct)
      others

/-! ### Runs -/

theorem refines_create (h : Refines cfg k s A) :
    Refines cfg (k + 1) { s with lists := s.lists ++ [some none] } (A ++ [some []]) where
  counted := h.counted.congr fun a => outer_append _ _ a
  small := small_mono h.small (Nat.le_succ k)
  entries := entries_append h (.tags .nil List.nodup_nil) fun _ _ _ _ holds => holds

theorem add_stops (found : Found cfg s A i next l) {tag : Tag} :
    (tag.tid ∈ l.map Tag.tid → s.add cfg i tag = .error .added) ∧
      (tag.tid ∉ l.map Tag.tid → packetTagMaxSize < tag.tid.serializedSize cfg →
        s.add cfg i tag = .error .tooLarge) := by
  have fresh : TagLists.checkAbsent tag.tid s.heap s.heap.length next = _ :=
    TagLists.checkAbsent_spec found.holds (holds_length found.holds)
  rw [TagLists.node_tids] at fresh
  constructor
  · intro present
    rw [if_pos present] at fresh
    rw [TagLists.add, found.head, TagLists.ok_bind, fresh]
    rfl
  · intro absent large
    rw [if_neg absent] at fresh
    rw [TagLists.add, found.head, TagLists.ok_bind, fresh, TagLists.ok_bind, if_pos large]

theorem agrees_gone {β : Type} : Agrees (β := β) cfg k (.error .gone) (.error .gone) :=
  .error (by decide) (by decide)

theorem step_agrees (h : Refines cfg k s A) (short : k + 1 < 2 ^ 32) (ev : TagEvent) :
    Agrees cfg (k + 1) (s.step cfg ev) (A.step cfg ev) := by
  cases ev with
  | create => exact .ok (refines_create h)
  | copy i =>
    rw [TagLists.step, PacketTags.step]
    rcases refines_found h i with ⟨gone, also⟩ | ⟨next, l, found⟩
    · rw [TagLists.copy, gone, also]
      exact agrees_gone
    · obtain ⟨t, ends, after⟩ := refines_copy h short found
      rw [ends, found.tags]
      exact .ok after
  | assign i j =>
    rw [TagLists.step, PacketTags.step]
    rcases refines_found h i with ⟨gone, also⟩ | ⟨mine, l', found⟩
    · rw [TagLists.assign, gone, also]
      exact agrees_gone
    · rcases refines_found h j with ⟨gone, also⟩ | ⟨next, l, other⟩
      · rw [TagLists.assign, found.head, TagLists.ok_bind, gone, found.tags, TagLists.ok_bind, also]
        exact agrees_gone
      · obtain ⟨t, ends, after⟩ := refines_assign h short found other
        rw [ends, found.tags, TagLists.ok_bind, other.tags]
        exact .ok after
  | destroy i =>
    rw [TagLists.step, PacketTags.step]
    rcases refines_found h i with ⟨gone, also⟩ | ⟨next, l, found⟩
    · rw [TagLists.destroy, gone, also]
      exact agrees_gone
    · obtain ⟨t, ends, after⟩ := refines_destroy h (by omega) found
      rw [ends, found.tags]
      exact .ok after
  | removeAllPacketTags i =>
    rw [TagLists.step, PacketTags.step]
    rcases refines_found h i with ⟨gone, also⟩ | ⟨next, l, found⟩
    · rw [TagLists.clear, gone, also]
      exact agrees_gone
    · obtain ⟨t, ends, after⟩ := refines_clear h (by omega) found
      rw [ends, found.tags]
      exact .ok after
  | addPacketTag i tag =>
    rw [TagLists.step, PacketTags.step]
    rcases refines_found h i with ⟨gone, also⟩ | ⟨next, l, found⟩
    · rw [TagLists.add, gone, also]
      exact agrees_gone
    · rw [found.tags, TagLists.ok_bind]
      obtain ⟨added, large⟩ := @add_stops cfg s A next i l found tag
      by_cases present : tag.tid ∈ l.map Tag.tid
      · rw [added present, if_pos present]
        exact .error (by decide) (by decide)
      · rw [if_neg present]
        by_cases fits : packetTagMaxSize < tag.tid.serializedSize cfg
        · rw [large present fits, if_pos fits]
          exact .error (by decide) (by decide)
        · obtain ⟨t, ends, after⟩ := refines_add h found present (Nat.not_lt.mp fits)
          rw [ends, if_neg fits]
          exact .ok after
  | removePacketTag i tag =>
    rw [TagLists.step, PacketTags.step]
    rcases refines_found h i with ⟨gone, also⟩ | ⟨next, l, found⟩
    · rw [TagLists.remove, gone, also]
      exact agrees_gone
    · obtain ⟨t, ends, after⟩ := refines_remove h short found tag
      rw [ends, found.tags]
      exact .ok after
  | peekPacketTag i tag =>
    rw [TagLists.step, PacketTags.step]
    rcases refines_found h i with ⟨gone, also⟩ | ⟨next, l, found⟩
    · rw [gone, also]
      exact agrees_gone
    · have long := holds_length found.holds
      rw [List.length_map] at long
      rw [found.head, TagLists.ok_bind, TagLists.peek_spec found.holds long, found.tags]
      exact .ok ⟨h.counted, small_mono h.small (Nat.le_succ k), h.entries⟩

theorem run_agrees (h : Refines cfg k s A) (short : k + evs.length < 2 ^ 32) :
    Agrees cfg (k + evs.length) (s.run cfg evs) (A.run cfg evs) := by
  induction evs generalizing k s A with
  | nil => exact .ok h
  | cons ev evs ih =>
    rw [List.length_cons] at short
    have first := step_agrees h (by omega) ev
    rw [TagLists.run, PacketTags.run]
    generalize s.step cfg ev = x at first
    generalize A.step cfg ev = y at first
    cases first with
    | error freed overrun => exact .error freed overrun
    | @ok t B answer after =>
      have rest := ih after (by omega)
      rw [TagLists.ok_bind, TagLists.ok_bind]
      dsimp only
      generalize t.run cfg evs = x at rest
      generalize PacketTags.run cfg B evs = y at rest
      have total : k + (ev :: evs).length = k + 1 + evs.length := by rw [List.length_cons]; omega
      rw [total]
      cases rest with
      | error freed overrun => exact .error freed overrun
      | ok last => exact .ok last

/-- In runs of fewer than 2^32 events the packets answer as if each had its tags for itself,
whatever they share: no `TagData` is used after it has been freed, and no tag writes or reads beyond
its buffer. -/
theorem packet_tags_refine (cfg : TagConfig) (evs : List TagEvent) (short : evs.length < 2 ^ 32) :
    (TagLists.run cfg ⟨[], []⟩ evs).map Prod.snd = (PacketTags.run cfg [] evs).map Prod.snd ∧
      ∀ e, TagLists.run cfg ⟨[], []⟩ evs = .error e → e ≠ .freed ∧ e ≠ .overrun := by
  have agrees : Agrees cfg (0 + evs.length) (TagLists.run cfg ⟨[], []⟩ evs)
      (PacketTags.run cfg [] evs) :=
    run_agrees (refines_initial cfg) (by rw [Nat.zero_add]; exact short)
  generalize TagLists.run cfg ⟨[], []⟩ evs = x at agrees
  generalize PacketTags.run cfg [] evs = y at agrees
  cases agrees with
  | ok after => exact ⟨rfl, nofun⟩
  | @error e freed overrun =>
    refine ⟨rfl, fun e' same => ?_⟩
    obtain rfl := Except.error.inj same
    exact ⟨freed, overrun⟩

def smallTags : TagConfig := ⟨2, by decide, .switchIngressCredit⟩

/-- A packet is tagged and copied, and then loses its own tag. -/
def sharedEvents : List TagEvent :=
  [.create, .addPacketTag 0 ⟨.tokenTag, 7#32⟩, .copy 0, .removePacketTag 0 ⟨.tokenTag, 0#32⟩,
    .peekPacketTag 1 ⟨.tokenTag, 0#32⟩]

/-- The copy has kept it. -/
theorem packet_tags_kept : (TagLists.run smallTags ⟨[], []⟩ sharedEvents).map Prod.snd =
    .ok [none, none, none, some ⟨.tokenTag, 7#32⟩, some ⟨.tokenTag, 7#32⟩] :=
  (packet_tags_refine smallTags sharedEvents (by decide)).1.trans rfl

/-- In runs of fewer than 2^32 events each `TagData` counts the packets and the `TagData` that point
to it, and is there as long as there are any: once all packets are gone, none is left. -/
theorem tag_data_counted (cfg : TagConfig) (evs : List TagEvent) (short : evs.length < 2 ^ 32)
    {answers : List (Option Tag)} (ends : TagLists.run cfg ⟨[], []⟩ evs = .ok (s, answers)) :
    (∀ a node, s.heap.cell a = some node → node.count = outer s.lists a + s.heap.inner a ∧
      0 < node.count) ∧
      (∀ a, 0 < outer s.lists a + s.heap.inner a → ∃ node, s.heap.cell a = some node) ∧
      ((∀ x ∈ s.lists, x = none) → ∀ a, s.heap.cell a = none) := by
  have agrees : Agrees cfg (0 + evs.length) (TagLists.run cfg ⟨[], []⟩ evs)
      (PacketTags.run cfg [] evs) :=
    run_agrees (refines_initial cfg) (by rw [Nat.zero_add]; exact short)
  rw [ends] at agrees
  generalize PacketTags.run cfg [] evs = y at agrees
  cases agrees with
  | ok after =>
    refine ⟨fun a node known => ⟨after.counted.exact a node known, after.counted.used a node known⟩,
      after.counted.live, fun gone a => ?_⟩
    refine counted_all_freed (after.counted.congr fun x => ?_) a
    refine (tally_zero fun y member => ?_).symm
    rw [gone y member]
    rfl

def copiedEvents : List TagEvent := [.create, .addPacketTag 0 ⟨.tokenTag, 7#32⟩, .copy 0]

/-- Both share one `TagData`, and when they end it is gone. -/
theorem tag_data_freed :
    (∃ s answers node, TagLists.run smallTags ⟨[], []⟩ copiedEvents = .ok (s, answers) ∧
      s.heap.cell 0 = some node ∧ node.count = 2 ∧ node.count = outer s.lists 0 + s.heap.inner 0) ∧
    ∃ s answers, TagLists.run smallTags ⟨[], []⟩ (copiedEvents ++ [.destroy 0, .destroy 1]) =
      .ok (s, answers) ∧ s.heap.length = 1 ∧ ∀ a, s.heap.cell a = none := by
  obtain ⟨s, answers, ends, two⟩ : ∃ s answers, TagLists.run smallTags ⟨[], []⟩ copiedEvents =
    .ok (s, answers) ∧ outer s.lists 0 + s.heap.inner 0 = 2 := ⟨_, _, rfl, by decide⟩
  have counted := tag_data_counted smallTags copiedEvents (by decide) ends
  obtain ⟨node, there⟩ := counted.2.1 0 (by omega)
  have exact_count := (counted.1 0 node there).1
  obtain ⟨t, answers', ends', gone, once⟩ : ∃ t answers',
      TagLists.run smallTags ⟨[], []⟩ (copiedEvents ++ [.destroy 0, .destroy 1]) =
        .ok (t, answers') ∧
        (∀ x ∈ t.lists, x = none) ∧ t.heap.length = 1 := ⟨_, _, rfl, by decide, rfl⟩
  exact ⟨⟨s, answers, node, ends, there, exact_count.trans two, exact_count⟩, t, answers',
    ends', once,
    (tag_data_counted smallTags (copiedEvents ++ [.destroy 0, .destroy 1]) (by decide) ends').2.2
      gone⟩

end Wire

end Pyrrha
