import Mathlib.Data.List.FinRange
import Pyrrha.Buffer.Data
import Pyrrha.Lib.Checked

/-!
Received PFC frames in `SwitchNode::SwitchReceivePFC`. In `FC_VOQ_DSTPFC` a frame names a
destination, every port has queue ids of its own for destinations, and with `ctrl_all_egress` one
loop acts on all of them.
-/

namespace Pyrrha
open Lib

namespace Dstpfc

open Buffer (FcMode)

variable {n : ℕ}

/-- A `QbbNetDevice` as PFC frames see it: the number of its queues, `m_dstQ_map` and `m_paused`. -/
structure Port where
  nQueue : ℕ
  dstQMap : ℕ → Option ℕ
  paused : ℕ → Option Bool
  queueNum_le : queueNum ≤ nQueue
  ids : ∀ {d q}, dstQMap d = some q → queueNum ≤ q ∧ q < nQueue
  injective : ∀ {d e q}, dstQMap d = some q → dstQMap e = some q → d = e

/-- `m_devices`; `none` is a device that is not a `QbbNetDevice`. -/
abbrev Devices (n : ℕ) := Fin n → Option Port

/-- The asserts on the way of a PFC frame. -/
inductive Assert where
  | isQbb | dstQMap | mustBePaused
  deriving DecidableEq, Repr

/-! ### The code -/

namespace Port

def initial : Port := ⟨queueNum, fun _ => none, fun _ => none, le_refl _, nofun, nofun⟩

/-- `BEgressQueue::RegisterNewQ` and the entry that `RegisterVOQ` makes for its queue. -/
def addVOQ (dev : Port) (dst : ℕ) : Port where
  nQueue := dev.nQueue + 1
  dstQMap := Function.update dev.dstQMap dst (some dev.nQueue)
  paused := dev.paused
  queueNum_le := Nat.le_succ_of_le dev.queueNum_le
  ids := by
    intro d q found
    rw [Function.update_apply] at found
    split at found
    · cases found
      exact ⟨dev.queueNum_le, Nat.lt_succ_self _⟩
    · exact ⟨(dev.ids found).1, Nat.lt_succ_of_lt (dev.ids found).2⟩
  injective := by
    intro d e q left right
    rw [Function.update_apply] at left right
    split at left <;> split at right
    · simp_all
    · cases left
      exact absurd (dev.ids right).2 (lt_irrefl _)
    · cases right
      exact absurd (dev.ids left).2 (lt_irrefl _)
    · exact dev.injective left right

def registerVOQ (dev : Port) (dst : ℕ) : Port × ℕ :=
  match dev.dstQMap dst with
  | some q => (dev, q)
  | none => (dev.addVOQ dst, dev.nQueue)

/-- `m_paused[qIndex] = value`. -/
def setPaused (dev : Port) (qIndex : ℕ) (value : Bool) : Port :=
  { dev with paused := Function.update dev.paused qIndex (some value) }

def resume (ctrlAllEgress : Bool) (dev : Port) (qIndex : ℕ) : Except Assert Port :=
  match dev.paused qIndex with
  | none => .error .mustBePaused
  | some value =>
      if ctrlAllEgress || value then .ok (dev.setPaused qIndex false) else .error .mustBePaused

end Port

/-- What a pause frame does to one device, with the `qIndex` that is left after it. -/
def pausePort (fcMode : FcMode) (s : Devices n × ℕ) (i : Fin n) : Devices n × ℕ :=
  match s.1 i with
  | none => s
  | some dev =>
    let r := if fcMode = .voqDstPfc then dev.registerVOQ s.2 else (dev, s.2)
    (Function.update s.1 i (some (r.1.setPaused r.2 true)), r.2)

/-- What a resume frame does to one device, with the `qIndex` that is left after it. -/
def resumePort (fcMode : FcMode) (ctrlAllEgress : Bool) (s : Devices n × ℕ) (i : Fin n) :
    Except Assert (Devices n × ℕ) :=
  match s.1 i with
  | none => .ok s
  | some dev =>
    match if fcMode = .voqDstPfc then dev.dstQMap s.2 else some s.2 with
    | none => .error .dstQMap
    | some q => do
      let dev ← dev.resume ctrlAllEgress q
      .ok (Function.update s.1 i (some dev), q)

def switchReceivePFC (fcMode : FcMode) (ctrlAllEgress : Bool) (devices : Devices n)
    (ifIndex : Fin n) (qIndex time : ℕ) : Except Assert (Devices n) :=
  if 0 < time then
    if ctrlAllEgress then .ok ((List.finRange n).foldl (pausePort fcMode) (devices, qIndex)).1
    else if (devices ifIndex).isNone then .error .isQbb
    else .ok (pausePort fcMode (devices, qIndex) ifIndex).1
  else if ctrlAllEgress then do
    let s ← (List.finRange n).foldlM (resumePort fcMode ctrlAllEgress) (devices, qIndex)
    .ok s.1
  else if (devices ifIndex).isNone then .error .isQbb
  else do
    let s ← resumePort fcMode ctrlAllEgress (devices, qIndex) ifIndex
    .ok s.1

/-- A PFC frame and the device it comes in through. -/
structure Frame (n : ℕ) where
  ifIndex : Fin n
  qIndex : ℕ
  time : ℕ

def Frame.pauses (f : Frame n) : Bool := decide (0 < f.time)

def receive (devices : Devices n) (f : Frame n) : Except Assert (Devices n) :=
  switchReceivePFC .voqDstPfc true devices f.ifIndex f.qIndex f.time

def run (devices : Devices n) (frames : List (Frame n)) : Except Assert (Devices n) :=
  frames.foldlM receive devices

/-! ### What the frames should do -/

/-- The port takes the frame for destination `d` as it should: it has a VOQ for `d`, with the pause
flag of the frame, and nothing else changes. -/
def Port.Acted (pause : Bool) (d : ℕ) (before after : Port) : Prop :=
  ∃ q, after.dstQMap d = some q ∧ after.paused q = some pause ∧
    (∀ e, e ≠ d → after.dstQMap e = before.dstQMap e) ∧ ∀ r, r ≠ q →
      after.paused r = before.paused r

/-- Every Qbb port takes the frame as it should. -/
def Acted (pause : Bool) (d : ℕ) (before after : Devices n) : Prop :=
  ∀ i, Option.Rel (Port.Acted pause d) (before i) (after i)

/-- Each resume comes after a pause of the same destination. -/
def Answered (frames : List (Frame n)) : Prop :=
  ∀ before f after, frames = before ++ f :: after → f.pauses = false →
    ∃ g ∈ before, g.pauses = true ∧ g.qIndex = f.qIndex

/-! ### What they do -/

namespace Port

/-- The queue id `RegisterVOQ` returns. -/
def voqOf (dev : Port) (d : ℕ) : ℕ := (dev.dstQMap d).getD dev.nQueue

/-- What the loop does with the port when its `qIndex` is `c`. -/
def put (pause : Bool) (dev : Port) (c : ℕ) : Port :=
  (dev.registerVOQ c).1.setPaused (dev.voqOf c) pause

/-- The port has a VOQ for `c` with this pause flag. -/
def Shows (dev : Port) (c : ℕ) (pause : Bool) : Prop :=
  ∃ q, dev.dstQMap c = some q ∧ dev.paused q = some pause

/-- The port has a VOQ for `c` that has been paused. -/
def Known (dev : Port) (c : ℕ) : Prop := ∃ q, dev.dstQMap c = some q ∧ (dev.paused q).isSome

variable {dev : Port} {c d : ℕ} {pause : Bool}

theorem registerVOQ_snd : (dev.registerVOQ c).2 = dev.voqOf c := by
  unfold registerVOQ voqOf
  split
  · rename_i found
    rw [found]
    rfl
  · rename_i absent
    rw [absent]
    rfl

theorem registerVOQ_paused : (dev.registerVOQ c).1.paused = dev.paused := by
  unfold registerVOQ
  split <;> rfl

theorem registerVOQ_map : (dev.registerVOQ c).1.dstQMap = Function.update dev.dstQMap c
    (some (dev.voqOf c)) := by
  unfold registerVOQ voqOf
  split
  · rename_i found
    rw [found, Option.getD_some, ← found, Function.update_eq_self]
  · rename_i absent
    rw [absent]
    rfl

theorem put_map : (dev.put pause c).dstQMap = Function.update dev.dstQMap c (some (dev.voqOf c)) :=
  registerVOQ_map

theorem put_paused : (dev.put pause c).paused = Function.update dev.paused (dev.voqOf c)
    (some pause) := by
  show Function.update (dev.registerVOQ c).1.paused (dev.voqOf c) (some pause) = _
  rw [registerVOQ_paused]

theorem voqOf_found {q : ℕ} (found : dev.dstQMap c = some q) : dev.voqOf c = q := by
  rw [voqOf, found]
  rfl

theorem voqOf_ne {q : ℕ} (different : c ≠ d) (found : dev.dstQMap d = some q) :
    dev.voqOf c ≠ q := by
  intro same
  cases known : dev.dstQMap c with
  | none =>
    rw [voqOf, known] at same
    have below := (dev.ids found).2
    rw [← same] at below
    exact lt_irrefl _ below
  | some r =>
    rw [voqOf_found known] at same
    exact different (dev.injective known (same ▸ found))

theorem put_known : (dev.put pause c).Known c :=
  ⟨dev.voqOf c, by rw [put_map, Function.update_self], by rw [put_paused, Function.update_self]; rfl⟩

theorem put_found {q : ℕ} (found : dev.dstQMap d = some q) :
    (dev.put pause c).dstQMap d = some q := by
  rw [put_map, Function.update_apply]
  split
  · rename_i same
    rw [← same, voqOf_found found]
  · exact found

theorem put_voqOf : (dev.put pause c).voqOf c = dev.voqOf c :=
  voqOf_found (by rw [put_map, Function.update_self])

theorem known_put (known : dev.Known d) : (dev.put pause c).Known d := by
  obtain ⟨q, found, flag⟩ := known
  refine ⟨q, put_found found, ?_⟩
  rw [put_paused, Function.update_apply]
  split
  · rfl
  · exact flag

/-- A port that is handed `c` acts on `d` as it should if `c` is `d`, or if there is nothing left to
do for either. -/
theorem put_acted : Port.Acted pause d dev (dev.put pause c) ↔ c = d ∨
    (dev.Shows d pause ∧ dev.Shows c pause) := by
  constructor
  · rintro ⟨q, found, flag, maps, flags⟩
    by_cases same : c = d
    · exact .inl same
    · right
      have own := maps c same
      rw [put_map, Function.update_self] at own
      rw [put_map, Function.update_of_ne (Ne.symm same)] at found
      have apart := voqOf_ne same found
      have other := flags _ apart
      rw [put_paused, Function.update_self] at other
      rw [put_paused, Function.update_of_ne apart.symm] at flag
      exact ⟨⟨q, found, flag⟩, ⟨_, own.symm, other.symm⟩⟩
  · rintro (rfl | ⟨⟨q, found, flag⟩, r, registered, shown⟩)
    · refine ⟨dev.voqOf c, by rw [put_map, Function.update_self], by rw [put_paused,
        Function.update_self], ?_, ?_⟩
      · intro e different
        rw [put_map, Function.update_of_ne different]
      · intro r different
        rw [put_paused, Function.update_of_ne different]
    · have maps : (dev.put pause c).dstQMap = dev.dstQMap := by
        rw [put_map, voqOf_found registered, ← registered, Function.update_eq_self]
      have flags : (dev.put pause c).paused = dev.paused := by
        rw [put_paused, voqOf_found registered, ← shown, Function.update_eq_self]
      exact ⟨q, by rw [maps, found], by rw [flags, flag], fun e _ => by rw [maps],
        fun r _ => by rw [flags]⟩

end Port

/-! ### The loop over the ports -/

/-- What the loop leaves in `qIndex` after a device. -/
def next (devices : Devices n) (c : ℕ) (i : Fin n) : ℕ := (devices i).elim c fun dev => dev.voqOf c

/-- What the loop over `l`, started with `c`, has in `qIndex` when it comes to device `i`. -/
def handedTo (devices : Devices n) : List (Fin n) → ℕ → Fin n → ℕ
  | [], c, _ => c
  | j :: rest, c, i => if i = j then c else handedTo devices rest (next devices c j) i

/-- What a frame for `d` has become when the loop comes to device `i`. -/
def handed (devices : Devices n) (d : ℕ) (i : Fin n) : ℕ := handedTo devices (List.finRange n) d i

/-- Every Qbb port is handed the destination itself, or one that leaves nothing to do on it. -/
def Harmless (pause : Bool) (devices : Devices n) (d : ℕ) : Prop :=
  ∀ i dev, devices i = some dev →
    handed devices d i = d ∨ (dev.Shows d pause ∧ dev.Shows (handed devices d i) pause)

/-- Every Qbb port has a paused VOQ for what it is handed, so a resume finds its way. -/
def Chained (devices : Devices n) (d : ℕ) : Prop := ∀ i dev, devices i = some dev →
    dev.Known (handed devices d i)

/-- The devices after a frame: each port has done what it was handed. -/
def putAll (pause : Bool) (devices : Devices n) (d : ℕ) : Devices n :=
  fun i => (devices i).map fun dev => dev.put pause (handed devices d i)

variable {devices devices' : Devices n} {d : ℕ} {pause : Bool}

theorem handedTo_congr {l : List (Fin n)} {c : ℕ} (nodup : l.Nodup)
    (same : ∀ i ∈ l, next devices' (handedTo devices l c i) i =
      next devices (handedTo devices l c i) i) (i : Fin n) :
    handedTo devices' l c i = handedTo devices l c i := by
  induction l generalizing c with
  | nil => rfl
  | cons j rest ih =>
    obtain ⟨fresh, nodup⟩ := List.nodup_cons.mp nodup
    have first : next devices' c j = next devices c j := by simpa [handedTo] using same j (by simp)
    simp only [handedTo]
    split
    · rfl
    · rw [first]
      refine ih nodup fun k member => ?_
      have other : k ≠ j := fun e => fresh (e ▸ member)
      simpa [handedTo, other] using same k (by simp [member])

theorem handed_congr (same : ∀ i, next devices' (handed devices d i) i =
    next devices (handed devices d i) i) : handed devices' d = handed devices d :=
  funext (handedTo_congr (List.nodup_finRange n) fun i _ => same i)

def turn (pause : Bool) (s : Devices n × ℕ) (i : Fin n) : Devices n × ℕ :=
  (Function.update s.1 i ((s.1 i).map fun dev => dev.put pause s.2), next s.1 s.2 i)

theorem pausePort_turn (s : Devices n × ℕ) (i : Fin n) :
    pausePort .voqDstPfc s i = turn true s i := by
  unfold pausePort turn next
  cases found : s.1 i with
  | none =>
    have kept : Function.update s.1 i none = s.1 := by rw [← found, Function.update_eq_self]
    show s = (Function.update s.1 i none, s.2)
    rw [kept]
  | some dev => simp [Port.registerVOQ_snd, Port.put]

theorem resumePort_turn {s : Devices n × ℕ} {i : Fin n}
    (known : ∀ dev, s.1 i = some dev → dev.Known s.2) :
    resumePort .voqDstPfc true s i = .ok (turn false s i) := by
  unfold resumePort turn next
  cases found : s.1 i with
  | none =>
    have kept : Function.update s.1 i none = s.1 := by rw [← found, Function.update_eq_self]
    show _ = Except.ok (Function.update s.1 i none, s.2)
    rw [kept]
  | some dev =>
    obtain ⟨q, registered, flag⟩ := known dev found
    obtain ⟨value, flag⟩ := Option.isSome_iff_exists.mp flag
    have same : dev.put false s.2 = dev.setPaused q false := by
      simp [Port.put, Port.registerVOQ, registered, Port.voqOf]
    simp [registered, Port.resume, flag, same, Port.voqOf_found registered, bind, Except.bind]

theorem resumePort_known {s t : Devices n × ℕ} {i : Fin n}
    (call : resumePort .voqDstPfc true s i = .ok t) {dev : Port}
    (found : s.1 i = some dev) : dev.Known s.2 := by
  unfold resumePort at call
  simp only [found, if_true] at call
  cases registered : dev.dstQMap s.2 with
  | none =>
    rw [registered] at call
    cases call
  | some q =>
    rw [registered] at call
    obtain ⟨after, resumed, -⟩ := bind_ok call
    refine ⟨q, registered, ?_⟩
    unfold Port.resume at resumed
    cases flag : dev.paused q with
    | none =>
      rw [flag] at resumed
      cases resumed
    | some value => rfl

theorem handedTo_turn {s : Devices n × ℕ} {j : Fin n} {rest : List (Fin n)} (fresh : j ∉ rest)
    (nodup : rest.Nodup) :
    handedTo (turn pause s j).1 rest (turn pause s j).2 = handedTo s.1 rest (next s.1 s.2 j) := by
  refine funext (handedTo_congr nodup fun k member => ?_)
  have other : k ≠ j := fun e => fresh (e ▸ member)
  simp [next, turn, Function.update_of_ne other]

theorem turns_apply {l : List (Fin n)} (nodup : l.Nodup) (s : Devices n × ℕ) (i : Fin n) :
    (l.foldl (turn pause) s).1 i =
      if i ∈ l then (s.1 i).map fun dev => dev.put pause (handedTo s.1 l s.2 i) else s.1 i := by
  induction l generalizing s with
  | nil => rfl
  | cons j rest ih =>
    obtain ⟨fresh, nodup⟩ := List.nodup_cons.mp nodup
    rw [List.foldl_cons, ih nodup, handedTo_turn fresh nodup]
    by_cases here : i = j
    · subst here
      simp [fresh, turn, handedTo]
    · simp [here, turn, handedTo]

theorem turns_all (devices : Devices n) (d : ℕ) :
    ((List.finRange n).foldl (turn pause) (devices, d)).1 = putAll pause devices d := by
  funext i
  rw [turns_apply (List.nodup_finRange n), if_pos (List.mem_finRange i)]
  rfl

/-! ### One frame -/

theorem resume_turns {l : List (Fin n)} (nodup : l.Nodup) {s : Devices n × ℕ}
    (chained : ∀ i ∈ l, ∀ dev, s.1 i = some dev → dev.Known (handedTo s.1 l s.2 i)) :
    l.foldlM (resumePort .voqDstPfc true) s = .ok (l.foldl (turn false) s) := by
  induction l generalizing s with
  | nil => rfl
  | cons j rest ih =>
    obtain ⟨fresh, nodup⟩ := List.nodup_cons.mp nodup
    have first : ∀ dev, s.1 j = some dev → dev.Known s.2 := by
      intro dev found
      simpa [handedTo] using chained j (by simp) dev found
    rw [List.foldlM_cons, resumePort_turn first, List.foldl_cons]
    refine ih nodup fun k member dev found => ?_
    have other : k ≠ j := fun e => fresh (e ▸ member)
    rw [handedTo_turn fresh nodup]
    simpa [handedTo, other] using chained k (by simp [member]) dev
      (by simpa [turn, other] using found)

theorem resume_found {l : List (Fin n)} {s t : Devices n × ℕ}
    (call : l.foldlM (resumePort .voqDstPfc true) s = .ok t) : t = l.foldl (turn false) s := by
  induction l generalizing s with
  | nil =>
    cases call
    rfl
  | cons j rest ih =>
    rw [List.foldlM_cons] at call
    obtain ⟨u, first, others⟩ := bind_ok call
    have known : ∀ dev, s.1 j = some dev → dev.Known s.2 :=
      fun dev found => resumePort_known first found
    rw [resumePort_turn known] at first
    cases first
    exact ih others

theorem receive_putAll {f : Frame n} (call : receive devices f = .ok devices') :
    devices' = putAll f.pauses devices f.qIndex := by
  unfold receive switchReceivePFC at call
  unfold Frame.pauses
  split at call
  · rename_i pause
    simp only [if_true, Except.ok.injEq] at call
    rw [decide_eq_true pause, ← turns_all, ← call]
    congr 2
    exact funext fun s => funext (pausePort_turn s)
  · rename_i resume
    simp only [if_true] at call
    obtain ⟨s, looped, call⟩ := bind_ok call
    cases call
    rw [decide_eq_false resume, ← turns_all, resume_found looped]

theorem receive_pause {f : Frame n} (pauses : f.pauses = true) :
    receive devices f = .ok (putAll true devices f.qIndex) := by
  unfold receive switchReceivePFC
  rw [if_pos (of_decide_eq_true pauses), if_pos rfl, ← turns_all]
  congr 3
  exact funext fun s => funext (pausePort_turn s)

theorem receive_resume {f : Frame n} (resumes : f.pauses = false)
    (chained : Chained devices f.qIndex) :
    receive devices f = .ok (putAll false devices f.qIndex) := by
  unfold receive switchReceivePFC
  rw [if_neg (of_decide_eq_false resumes), if_pos rfl,
    resume_turns (List.nodup_finRange n) fun i _ => chained i, ← turns_all]
  rfl

theorem putAll_acted : Acted pause d devices (putAll pause devices d) ↔
    Harmless pause devices d := by
  constructor
  · intro acted i dev found
    have here := acted i
    simp only [putAll, found, Option.map_some] at here
    exact Port.put_acted.mp (Option.rel_some_some.mp here)
  · intro harmless i
    cases found : devices i with
    | none =>
      simp only [putAll, found, Option.map_none]
      exact .none
    | some dev =>
      simp only [putAll, found, Option.map_some]
      exact .some (Port.put_acted.mpr (harmless i dev found))

/-- The queue for `d` has the number `d` on every Qbb port but the last. -/
def Aligned (devices : Devices n) (d : ℕ) : Prop :=
  ∀ i j, i < j → ∀ dev, devices i = some dev → (devices j).isSome → dev.voqOf d = d

theorem handedTo_self {l : List (Fin n)} {i : Fin n} (member : i ∈ l) (isQbb : (devices i).isSome)
    (aligned : l.Pairwise fun i j => ∀ dev, devices i = some dev → (devices j).isSome →
      dev.voqOf d = d) :
    handedTo devices l d i = d := by
  induction l with
  | nil => cases member
  | cons j rest ih =>
    obtain ⟨first, aligned⟩ := List.pairwise_cons.mp aligned
    simp only [handedTo]
    split
    · rfl
    · rename_i other
      have later := (List.mem_cons.mp member).resolve_left other
      have kept : next devices d j = d := by
        unfold next
        cases found : devices j with
        | none => rfl
        | some dev => exact first i later dev found isQbb
      rw [kept]
      exact ih later aligned

theorem aligned_harmless (aligned : Aligned devices d) : Harmless pause devices d := by
  intro i dev found
  left
  apply handedTo_self (List.mem_finRange i) (by rw [found]; rfl)
  exact (List.pairwise_lt_finRange n).imp fun {i j} before => aligned i j before

/-! ### Runs -/

theorem putAll_next {e : ℕ} (i : Fin n) :
    (∀ dev, devices i = some dev → dev.Known e) → next (putAll pause devices d) e i =
      next devices e i := by
  intro known
  unfold next putAll
  cases found : devices i with
  | none => rfl
  | some dev =>
    obtain ⟨q, registered, -⟩ := known dev found
    show (dev.put pause _).voqOf e = dev.voqOf e
    rw [Port.voqOf_found registered, Port.voqOf_found (Port.put_found registered)]

theorem chained_putAll {e : ℕ} (chained : Chained devices e) :
    Chained (putAll pause devices d) e := by
  have same : handed (putAll pause devices d) e = handed devices e :=
    handed_congr fun i => putAll_next i (chained i)
  intro i dev found
  obtain ⟨old, before, rfl⟩ := Option.map_eq_some_iff.mp found
  rw [same]
  exact Port.known_put (chained i old before)

theorem chained_own : Chained (putAll pause devices d) d := by
  have same : handed (putAll pause devices d) d = handed devices d := by
    refine handed_congr fun i => ?_
    unfold next putAll
    cases devices i with
    | none => rfl
    | some dev => exact Port.put_voqOf
  intro i dev found
  obtain ⟨old, before, rfl⟩ := Option.map_eq_some_iff.mp found
  rw [same]
  exact Port.put_known

theorem answered_init {frames : List (Frame n)} {f : Frame n}
    (answered : Answered (frames ++ [f])) : Answered frames := by
  rintro before g after rfl resumes
  exact answered before g (after ++ [f]) (by simp) resumes

/-- No assert fails in a run, and every destination that has been paused has its chain. -/
theorem run_chained {frames : List (Frame n)} (answered : Answered frames) :
    ∃ t, run devices frames = .ok t ∧ ∀ g ∈ frames, g.pauses = true → Chained t g.qIndex := by
  induction frames using List.reverseRecOn with
  | nil => exact ⟨devices, rfl, nofun⟩
  | append_singleton before f ih =>
    obtain ⟨s, ran, chains⟩ := ih (answered_init answered)
    have last : run devices (before ++ [f]) = receive s f := by
      unfold run at ran ⊢
      rw [List.foldlM_append, ran]
      simp [bind, Except.bind, pure, Except.pure]
      cases receive s f <;> rfl
    have taken : receive s f = .ok (putAll f.pauses s f.qIndex) := by
      cases kind : f.pauses with
      | true => exact receive_pause kind
      | false =>
        obtain ⟨g, earlier, pauses, same⟩ := answered before f [] rfl kind
        exact receive_resume kind (same ▸ chains g earlier pauses)
    refine ⟨_, last.trans taken, fun g member pauses => ?_⟩
    rcases List.mem_append.mp member with old | new
    · exact chained_putAll (chains g old pauses)
    · cases List.mem_singleton.mp new
      exact chained_own

/-- Received frames in `FC_VOQ_DSTPFC` with `ctrl_all_egress`: no assert fails, and a frame acts as
it should exactly when what every port is handed for its destination is the destination, or is of no
consequence there. -/
theorem received_pfc_acts {frames : List (Frame n)} (answered : Answered frames) :
    (∃ t, run devices frames = .ok t) ∧
      ∀ before f after s t, frames = before ++ f :: after → run devices before = .ok s →
      receive s f = .ok t → (Acted f.pauses f.qIndex s t ↔ Harmless f.pauses s f.qIndex) := by
  refine ⟨?_, fun before f after s t _ _ call => ?_⟩
  · obtain ⟨t, ran, -⟩ := @run_chained n devices _ answered
    exact ⟨t, ran⟩
  · rw [receive_putAll call]
    exact putAll_acted

/-- A switch with two Qbb ports, 1 and 2, without VOQs. -/
def twoPorts : Devices 3 := fun i => if i = 0 then none else some .initial

theorem received_pfc_acts_eight : ∃ s t : Devices 3, receive twoPorts ⟨1, 8, 5⟩ = .ok s ∧
    receive s ⟨1, 8, 0⟩ = .ok t ∧
    Acted true 8 twoPorts s ∧ Acted false 8 s t := by
  have answered : Answered [(⟨1, 8, 5⟩ : Frame 3), ⟨1, 8, 0⟩] := by
    rintro before f after split resumes
    rcases before with _ | ⟨g, _ | ⟨h, rest⟩⟩
    · cases split
      cases resumes
    · cases split
      exact ⟨_, List.mem_singleton_self _, rfl, rfl⟩
    · cases rest <;> cases split
  obtain ⟨-, steps⟩ := @received_pfc_acts 3 twoPorts _ answered
  have first : receive twoPorts ⟨1, 8, 5⟩ = .ok (putAll true twoPorts 8) := receive_pause rfl
  have second := receive_resume (f := (⟨1, 8, 0⟩ : Frame 3)) rfl (@chained_own 3 twoPorts 8 true)
  have direct : Aligned twoPorts 8 := by
    intro i j _ dev found _
    simp only [twoPorts, Option.ite_none_left_eq_some, Option.some.injEq] at found
    rw [← found.2]
    rfl
  have again : ∀ i, handed (putAll true twoPorts 8) 8 i = 8 := by decide
  refine ⟨_, _, first, second, ?_, ?_⟩
  · exact (steps [] _ _ _ _ rfl rfl first).mpr (aligned_harmless direct)
  · refine (steps [_] _ [] _ _ rfl ?_ second).mpr fun i dev _ => .inl (again i)
    show [_].foldlM receive twoPorts = _
    rw [List.foldlM_cons, first]
    rfl

/-- A pause for destination 0 registers queue 8 on port 1, and then a VOQ for destination 8 on port
2. -/
theorem received_pfc_mixed : ∃ t : Devices 3, Answered [(⟨1, 0, 5⟩ : Frame 3)] ∧
    receive twoPorts ⟨1, 0, 5⟩ = .ok t ∧
    ¬Acted true 0 twoPorts t := by
  refine ⟨_, ?_, receive_pause rfl, fun acted => ?_⟩
  · rintro (_ | ⟨g, _ | _⟩) f after split resumes
    · cases split
      cases resumes
    all_goals cases split
  · rcases putAll_acted.mp acted 2 .initial rfl with same | ⟨⟨q, found, -⟩, -⟩
    · revert same
      decide
    · cases found

end Dstpfc

end Pyrrha
