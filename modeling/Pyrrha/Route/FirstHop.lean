import Mathlib.Combinatorics.SimpleGraph.Connectivity.Connected
import Pyrrha.Lib.Floyd
import Pyrrha.Switch.Data

/-!
The first hop that the BDP map of Floodgate looks up. The tables of delays and of transmission times
go through the loops of Floyd one after the other, over one table of next hops; a loop then follows
that table from each destination back to a neighbour of the switch.
-/

namespace Pyrrha
open Lib

namespace Bdp

variable {n : ℕ}

/-- The entry of a pair without a link, in all four tables. -/
def unreachable : ℕ := 0x3fffffff

/-- A line of the topology file: `atoi` of the data rate, in Gbps, and of the delay. -/
structure Link (n : ℕ) where
  src : Fin n
  dst : Fin n
  rate : ℕ
  delay : ℕ
  deriving DecidableEq

namespace Link

/-- `td` of the link, in `uint32_t`. -/
def txTime (mtu : ℕ) (l : Link n) : ℕ := mtu * 8 / l.rate

def Joins (l : Link n) (a b : Fin n) : Prop := (l.src = a ∧ l.dst = b) ∨ (l.src = b ∧ l.dst = a)

instance decJoins (l : Link n) (a b : Fin n) : Decidable (l.Joins a b) := instDecidableOr

end Link

/-! ### The tables -/

/-- `pd`, `td`, `bws` and `nextBDPHop`. -/
structure Tables (n : ℕ) where
  pd : Fin n → Fin n → ℕ
  td : Fin n → Fin n → ℕ
  bws : Fin n → Fin n → ℕ
  nextBDPHop : Fin n → Fin n → ℕ

namespace Tables

/-- The tables before the first link is read. -/
def initial (n : ℕ) : Tables n :=
  let v (i j : Fin n) := if i = j then 0 else unreachable
  ⟨v, v, v, v⟩

/-- An entry and the one opposite to it. -/
def setBoth (table : Fin n → Fin n → ℕ) (a b : Fin n) (v : ℕ) : Fin n → Fin n → ℕ :=
  update₂ (update₂ table a b v) b a v

def readLink (mtu : ℕ) (t : Tables n) (l : Link n) : Tables n where
  pd := setBoth t.pd l.src l.dst l.delay
  td := setBoth t.td l.src l.dst (l.txTime mtu)
  bws := setBoth t.bws l.src l.dst l.rate
  nextBDPHop := update₂ (update₂ t.nextBDPHop l.src l.dst l.dst) l.dst l.src l.src

def readLinks (mtu : ℕ) (links : List (Link n)) : Tables n := links.foldl (readLink mtu) (initial n)

/-! ### Floyd -/

/-- The body of the loops of `Floyd`, in `uint32_t`. -/
def floydStep (t : Hops n) (k i j : Fin n) : Hops n :=
  if add32 (t.dist i k) (t.dist k j) < t.dist i j then
    { dist := update₂ t.dist i j (add32 (t.dist i k) (t.dist k j))
      hop := update₂ t.hop i j k }
  else t

def floyd (G nextHop : Fin n → Fin n → ℕ) : Hops n :=
  (List.finRange n).foldl (fun t k => (List.finRange n).foldl (fun t i => (List.finRange n).foldl
    (fun t j => floydStep t k i j) t) t) ⟨G, nextHop⟩

/-- `Floyd(pd, nextBDPHop)`, then `Floyd(td, nextBDPHop)`. -/
def floyds (t : Tables n) : Tables n :=
  let first := floyd t.pd t.nextBDPHop
  let second := floyd t.td first.hop
  { t with
    pd := first.dist
    td := second.dist
    nextBDPHop := second.hop }

/-! ### The first hop -/

/-- `table[i][x]`; `none` is an index outside the table. -/
def readAt (table : Fin n → Fin n → ℕ) (i : Fin n) (x : ℕ) : Option ℕ :=
  if inside : x < n then some (table i ⟨x, inside⟩) else none

/-- The loop on `link` and `hopBefore`; `none` is a loop that has not ended, or an index outside a
table. -/
def hopLoop (t : Tables n) (i : Fin n) : ℕ → ℕ → ℕ → Option (ℕ × ℕ)
  | 0, link, hopBefore => if link = unreachable then none else some (link, hopBefore)
  | fuel + 1, link, hopBefore =>
    if link = unreachable then do
      let next ← readAt t.nextBDPHop i hopBefore
      let link ← readAt t.bws i next
      hopLoop t i fuel link next
    else some (link, hopBefore)

/-- `link` and `hopBefore` at the end of the loop. -/
def firstHop (t : Tables n) (fuel : ℕ) (i j : Fin n) : Option (ℕ × ℕ) := do
  let hopBefore := t.nextBDPHop i j
  let link ← readAt t.bws i hopBefore
  hopLoop t i fuel link hopBefore

end Tables

/-! ### What the links leave in the tables -/

/-- The entries of a pair: those of a link that joins it, or none. -/
def Entered (mtu : ℕ) (links : List (Link n)) (t : Tables n) (a b : Fin n) : Prop :=
  (∃ l ∈ links, l.Joins a b ∧ t.pd a b = l.delay ∧ t.td a b = l.txTime mtu ∧ t.bws a b = l.rate ∧
    t.nextBDPHop a b = b) ∨
  (t.pd a b = unreachable ∧ t.td a b = unreachable ∧ t.bws a b = unreachable ∧
    ∀ l ∈ links, ¬l.Joins a b)

theorem setBoth_joined {table : Fin n → Fin n → ℕ} {l : Link n} {a b : Fin n}
    (joins : l.Joins a b) (v : ℕ) : Tables.setBoth table l.src l.dst v a b = v := by
  unfold Tables.setBoth
  rcases joins with ⟨rfl, rfl⟩ | ⟨rfl, rfl⟩
  · rw [update₂_apply]
    split
    · rfl
    · exact update₂_same _ _ _ _
  · exact update₂_same _ _ _ _

theorem setBoth_apart {table : Fin n → Fin n → ℕ} {l : Link n} {a b : Fin n}
    (apart : ¬l.Joins a b) (v : ℕ) : Tables.setBoth table l.src l.dst v a b = table a b := by
  unfold Tables.setBoth
  rw [update₂_of_ne, update₂_of_ne]
  · exact fun here => apart (.inl ⟨here.1.symm, here.2.symm⟩)
  · exact fun here => apart (.inr ⟨here.2.symm, here.1.symm⟩)

theorem nextHop_joined {table : Fin n → Fin n → ℕ} {l : Link n} {a b : Fin n}
    (joins : l.Joins a b) :
    update₂ (update₂ table l.src l.dst l.dst) l.dst l.src l.src a b = b := by
  rcases joins with ⟨rfl, rfl⟩ | ⟨rfl, rfl⟩
  · rw [update₂_apply]
    split
    · rename_i loop
      rw [loop.1]
    · exact update₂_same _ _ _ _
  · exact update₂_same _ _ _ _

theorem nextHop_apart {table : Fin n → Fin n → ℕ} {l : Link n} {a b : Fin n}
    (apart : ¬l.Joins a b) :
    update₂ (update₂ table l.src l.dst l.dst) l.dst l.src l.src a b = table a b := by
  rw [update₂_of_ne, update₂_of_ne]
  · exact fun here => apart (.inl ⟨here.1.symm, here.2.symm⟩)
  · exact fun here => apart (.inr ⟨here.2.symm, here.1.symm⟩)

theorem readLinks_entered (mtu : ℕ) (links : List (Link n)) {a b : Fin n} (apart : a ≠ b) :
    Entered mtu links (Tables.readLinks mtu links) a b := by
  induction links using List.reverseRecOn with
  | nil =>
    refine .inr ⟨?_, ?_, ?_, fun _ member => absurd member List.not_mem_nil⟩ <;> exact if_neg apart
  | append_singleton links l ih =>
    have last : Tables.readLinks mtu (links ++ [l]) = (Tables.readLinks mtu links).readLink mtu l :=
      List.foldl_concat _ _ _ _
    rw [last]
    by_cases joins : l.Joins a b
    · exact .inl ⟨l, List.mem_append_right _ (List.mem_singleton_self l), joins,
        setBoth_joined joins _,
        setBoth_joined joins _, setBoth_joined joins _, nextHop_joined joins⟩
    · have same : ∀ table v, Tables.setBoth table l.src l.dst v a b = table a b :=
        fun _ v => setBoth_apart joins v
      have hop : ((Tables.readLinks mtu links).readLink mtu l).nextBDPHop a b =
          (Tables.readLinks mtu links).nextBDPHop a b := nextHop_apart joins
      unfold Entered
      rw [hop]
      simp only [Tables.readLink, same]
      rcases ih with ⟨l', member, entry⟩ | ⟨pd, td, bws, none⟩
      · exact .inl ⟨l', List.mem_append_left _ member, entry⟩
      · refine .inr ⟨pd, td, bws, fun x member => ?_⟩
        rcases List.mem_append.mp member with old | new
        · exact none x old
        · rw [List.mem_singleton.mp new]
          exact joins

theorem readLinks_self {mtu : ℕ} {links : List (Link n)} (noLoop : ∀ l ∈ links, l.src ≠ l.dst)
    (a : Fin n) :
    (Tables.readLinks mtu links).pd a a = 0 ∧ (Tables.readLinks mtu links).td a a = 0 := by
  induction links using List.reverseRecOn with
  | nil => exact ⟨if_pos rfl, if_pos rfl⟩
  | append_singleton links l ih =>
    have last : Tables.readLinks mtu (links ++ [l]) = (Tables.readLinks mtu links).readLink mtu l :=
      List.foldl_concat _ _ _ _
    have loop := noLoop l (List.mem_append_right _ (List.mem_singleton_self l))
    have apart : ¬l.Joins a a := by
      rintro (⟨one, two⟩ | ⟨one, two⟩) <;> exact loop (one.trans two.symm)
    obtain ⟨pd, td⟩ := ih fun x member => noLoop x (List.mem_append_left _ member)
    rw [last]
    exact ⟨(setBoth_apart apart _).trans pd, (setBoth_apart apart _).trans td⟩

/-! ### Floyd in 32 bits -/

theorem foldl_agree {α β : Type} {f g : α → β → α} {I : α → Prop}
    (agree : ∀ s x, I s → f s x = g s x ∧ I (g s x))
    {s : α} (start : I s) (l : List β) : l.foldl f s = l.foldl g s ∧ I (l.foldl g s) := by
  induction l generalizing s with
  | nil => exact ⟨rfl, start⟩
  | cons x rest ih =>
    obtain ⟨same, next⟩ := agree s x start
    rw [List.foldl_cons, List.foldl_cons, same]
    exact ih next

/-- No distance exceeds the entry of a pair without a link. -/
def Bounded (t : Hops n) : Prop := ∀ a b, t.dist a b ≤ unreachable

theorem floydStep_eq {t : Hops n} (bounded : Bounded t) (k i j : Fin n) :
    Tables.floydStep t k i j = t.relax k i j ∧ Bounded (t.relax k i j) := by
  have sum : add32 (t.dist i k) (t.dist k j) = t.dist i k + t.dist k j := by
    have one := bounded i k
    have two := bounded k j
    unfold unreachable at one two
    exact add32_exact (by omega)
  refine ⟨by rw [Tables.floydStep, sum, Hops.relax], fun a b => ?_⟩
  have before := bounded a b
  unfold Hops.relax
  split
  · rename_i shorter
    dsimp only
    rw [update₂_apply]
    split
    · rename_i here
      rw [here.1, here.2] at before
      omega
    · exact before
  · exact before

theorem floyd_eq {G nextHop : Fin n → Fin n → ℕ} (bounded : ∀ a b, G a b ≤ unreachable) :
    Tables.floyd G nextHop = Hops.floyd ⟨G, nextHop⟩ := by
  refine (foldl_agree (I := Bounded) (fun t k before => ?_) (s := ⟨G, nextHop⟩) bounded _).1
  refine foldl_agree (I := Bounded) (fun t i before => ?_) before _
  exact foldl_agree (I := Bounded) (fun t j before => floydStep_eq before k i j) before _

/-! ### Networks -/

def graph (links : List (Link n)) : SimpleGraph (Fin n) where
  Adj a b := a ≠ b ∧ ∃ l ∈ links, l.Joins a b
  symm := ⟨fun _ _ h => ⟨h.1.symm, h.2.imp fun _ both => ⟨both.1, both.2.symm⟩⟩⟩
  loopless := ⟨fun _ h => h.1 rfl⟩

/-- A connected graph whose path sums stay below the entry of a pair without a link. -/
structure Network (mtu : ℕ) (links : List (Link n)) : Prop where
  noLoop : ∀ l ∈ links, l.src ≠ l.dst
  rate : ∀ l ∈ links, l.rate ≠ unreachable
  connected : (graph links).Preconnected
  pathSum : ∀ (a b : Fin n) (path : (graph links).Walk a b), path.IsPath →
    Hops.weight (Tables.readLinks mtu links).pd path < unreachable ∧
      Hops.weight (Tables.readLinks mtu links).td path < unreachable

section

variable {mtu : ℕ} {links : List (Link n)} {i j : Fin n}

theorem entry_le (net : Network mtu links) (a b : Fin n) :
    (Tables.readLinks mtu links).pd a b ≤ unreachable ∧ (Tables.readLinks mtu links).td a b ≤
      unreachable := by
  by_cases apart : a = b
  · obtain ⟨pd, td⟩ := readLinks_self net.noLoop a
    rw [← apart, pd, td]
    exact ⟨Nat.zero_le _, Nat.zero_le _⟩
  · rcases readLinks_entered mtu links apart with ⟨l, member, joins, -⟩ | ⟨pd, td, -⟩
    · have edge : (graph links).Adj a b := ⟨apart, l, member, joins⟩
      obtain ⟨pd, td⟩ := net.pathSum a b edge.toWalk (SimpleGraph.Path.singleton edge).isPath
      exact ⟨pd.le, td.le⟩
    · exact ⟨pd.le, td.le⟩

/-- Once the transmission times are settled, no pair is out of reach. -/
theorem settled_reaches (net : Network mtu links) {hop : Fin n → Fin n → ℕ} {T : Hops n}
    (settled : Hops.Settling ⟨(Tables.readLinks mtu links).td, hop⟩ T (List.finRange n))
    (apart : i ≠ j) : T.dist i j < unreachable := by
  obtain ⟨walk⟩ := net.connected i j
  have below := Hops.dist_le_weight settled (walk.toPath : (graph links).Walk i j) apart
  have sum := (net.pathSum i j walk.toPath walk.toPath.isPath).2
  exact lt_of_le_of_lt below sum

/-- The first entry the loop reads names a node, and not the switch itself. -/
theorem nextHop_found (net : Network mtu links) {T₁ T₂ : Hops n}
    (first : Hops.Settling ⟨(Tables.readLinks mtu links).pd,
      (Tables.readLinks mtu links).nextBDPHop⟩ T₁ (List.finRange n))
    (second : Hops.Settling ⟨(Tables.readLinks mtu links).td, T₁.hop⟩ T₂ (List.finRange n))
    (apart : i ≠ j) : ∃ x : Fin n, x ≠ i ∧ T₂.hop i j = x := by
  by_cases settled : T₂.dist i j < (Tables.readLinks mtu links).td i j
  · obtain ⟨x, -, note, other, -⟩ := second.hop i j settled
    exact ⟨x, other, note⟩
  · -- the second run left what the first one noted
    have same : T₂.dist i j = (Tables.readLinks mtu links).td i j :=
      le_antisymm (second.le i j) (Nat.not_lt.mp settled)
    rw [second.kept i j same]
    by_cases earlier : T₁.dist i j < (Tables.readLinks mtu links).pd i j
    · obtain ⟨x, -, note, other, -⟩ := first.hop i j earlier
      exact ⟨x, other, note⟩
    · rw [first.kept i j (le_antisymm (first.le i j) (Nat.not_lt.mp earlier))]
      have reaches := settled_reaches net second apart
      rcases readLinks_entered mtu links apart with ⟨l, -, -, -, -, -, next⟩ | ⟨-, td, -⟩
      · exact ⟨j, apart.symm, next⟩
      · omega

theorem bws_linked (net : Network mtu links) (apart : i ≠ j) :
    ((Tables.readLinks mtu links).bws i j ≠ unreachable ∧
      ∃ l ∈ links, l.Joins i j ∧ (Tables.readLinks mtu links).bws i j = l.rate) ∨
    ((Tables.readLinks mtu links).bws i j = unreachable ∧ (Tables.readLinks mtu links).td i j =
      unreachable) := by
  rcases readLinks_entered mtu links apart with ⟨l, member, joins, -, -, bws, -⟩ | ⟨-, td, bws, -⟩
  · exact .inl ⟨bws ▸ net.rate l member, l, member, joins, bws⟩
  · exact .inr ⟨bws, td⟩

end

namespace Tables

theorem readAt_fin (table : Fin n → Fin n → ℕ) (i x : Fin n) :
    readAt table i x = some (table i x) := dif_pos x.isLt

/-- From a node without a link the loop goes to the node noted for it. -/
theorem hopLoop_step {t : Tables n} {i x next : Fin n} {fuel : ℕ}
    (noted : t.nextBDPHop i x = next) :
    hopLoop t i (fuel + 1) unreachable x = hopLoop t i fuel (t.bws i next) next := by
  rw [hopLoop, if_pos rfl, readAt_fin, noted]
  dsimp only [Option.bind_eq_bind, Option.bind_some]
  rw [readAt_fin]
  rfl

theorem hopLoop_stop {t : Tables n} {i : Fin n} {fuel link hop : ℕ} (linked : link ≠ unreachable) :
    hopLoop t i fuel link hop = some (link, hop) := by
  cases fuel <;> rw [hopLoop, if_neg linked]

theorem hopLoop_more {t : Tables n} {i : Fin n} {fuel more link hop : ℕ} {found : ℕ × ℕ}
    (le : fuel ≤ more)
    (ends : hopLoop t i fuel link hop = some found) : hopLoop t i more link hop = some found := by
  induction fuel generalizing more link hop with
  | zero =>
    rw [hopLoop] at ends
    split at ends
    · cases ends
    · rename_i linked
      rw [hopLoop_stop linked]
      exact ends
  | succ fuel ih =>
    obtain ⟨more, rfl⟩ := Nat.exists_eq_succ_of_ne_zero (show more ≠ 0 by omega)
    rw [hopLoop] at ends ⊢
    split
    · rename_i apart
      rw [if_pos apart] at ends
      obtain ⟨next, first, ends⟩ := Option.bind_eq_some_iff.mp ends
      obtain ⟨rate, second, ends⟩ := Option.bind_eq_some_iff.mp ends
      exact Option.bind_eq_some_iff.mpr ⟨next, first,
        Option.bind_eq_some_iff.mpr ⟨rate, second, ih (Nat.le_of_succ_le_succ le) ends⟩⟩
    · rename_i linked
      rw [if_neg linked] at ends
      exact ends

end Tables

def bdpTables (mtu : ℕ) (links : List (Link n)) : Tables n := (Tables.readLinks mtu links).floyds

section

variable {mtu : ℕ} {links : List (Link n)} {i : Fin n}

/-- A neighbour, and the rate of the link to it. -/
def FoundHop (links : List (Link n)) (i : Fin n) (found : Option (ℕ × ℕ)) : Prop :=
  ∃ (hop : Fin n) (l : Link n), l ∈ links ∧ l.Joins i hop ∧ found = some (l.rate, (hop : ℕ))

theorem bdpTables_eq (net : Network mtu links) : ∃ T₁ T₂ : Hops n,
    Hops.Settling ⟨(Tables.readLinks mtu links).pd, (Tables.readLinks mtu links).nextBDPHop⟩ T₁
      (List.finRange n) ∧
    Hops.Settling ⟨(Tables.readLinks mtu links).td, T₁.hop⟩ T₂ (List.finRange n) ∧
    (bdpTables mtu links).nextBDPHop = T₂.hop ∧ (bdpTables mtu links).bws =
    (Tables.readLinks mtu links).bws := by
  refine ⟨_, _, Hops.floyd_settled _, Hops.floyd_settled _, ?_, rfl⟩
  show (Tables.floyd _ (Tables.floyd _ _).hop).hop = _
  rw [floyd_eq fun a b => (entry_le net a b).1, floyd_eq fun a b => (entry_le net a b).2]

/-- The loop reads ever smaller nodes: where the second run noted `x`, it tried the note of `x`
before `x`. -/
theorem hopLoop_found (net : Network mtu links) {t : Tables n} {T₂ : Hops n}
    {note : Fin n → Fin n → ℕ}
    (second : Hops.Settling ⟨(Tables.readLinks mtu links).td, note⟩ T₂ (List.finRange n))
    (bws : t.bws = (Tables.readLinks mtu links).bws) (next : t.nextBDPHop = T₂.hop)
    (fuel : ℕ) (x : Fin n) (other : x ≠ i) (enough : x ≤ fuel)
    (back : T₂.dist i x < (Tables.readLinks mtu links).td i x → ∃ k < x, T₂.hop i x = (k : ℕ)) :
    FoundHop links i (Tables.hopLoop t i fuel (t.bws i x) x) := by
  induction fuel generalizing x with
  | zero =>
    rcases bws_linked net other.symm with ⟨linked, l, member, joins, rate⟩ | ⟨-, td⟩
    · rw [bws, Tables.hopLoop_stop linked, rate]
      exact ⟨x, l, member, joins, rfl⟩
    · obtain ⟨k, less, -⟩ := back (td ▸ settled_reaches net second other.symm)
      exact absurd (Fin.lt_def.mp less) (by omega)
  | succ fuel ih =>
    rcases bws_linked net other.symm with ⟨linked, l, member, joins, rate⟩ | ⟨apart, td⟩
    · rw [bws, Tables.hopLoop_stop linked, rate]
      exact ⟨x, l, member, joins, rfl⟩
    · have shorter : T₂.dist i x < (Tables.readLinks mtu links).td i x :=
        td ▸ settled_reaches net second other.symm
      obtain ⟨k, less, noted⟩ := back shorter
      obtain ⟨y, -, same, away, -, further⟩ := second.hop i x shorter
      have named : y = k := Fin.ext (same.symm.trans noted)
      subst named
      rw [show t.bws i x = unreachable from (congrFun (congrFun bws i) x).trans apart,
        Tables.hopLoop_step (by rw [next, noted])]
      have smaller := Fin.lt_def.mp less
      exact ih y away (by omega) further

/-- From every switch the loop towards every other node ends within as many turns as there are
nodes, reads only entries that name a node, and ends at a neighbour with the rate of the link to
it. -/
theorem firstHop_found (net : Network mtu links) {i j : Fin n} (apart : i ≠ j) :
    ∃ (hop : Fin n) (l : Link n), l ∈ links ∧ l.Joins i hop ∧
      ∀ fuel ≥ n, (bdpTables mtu links).firstHop fuel i j = some (l.rate, (hop : ℕ)) := by
  obtain ⟨T₁, T₂, first, second, next, bws⟩ := bdpTables_eq net
  obtain ⟨x, other, note⟩ := nextHop_found net first second apart
  have start : ∀ fuel, (bdpTables mtu links).firstHop fuel i j =
      Tables.hopLoop (bdpTables mtu links) i fuel ((bdpTables mtu links).bws i x) x := by
    intro fuel
    unfold Tables.firstHop
    rw [next, note]
    dsimp only
    rw [Tables.readAt_fin]
    rfl
  obtain ⟨rest, turns⟩ := Nat.exists_eq_succ_of_ne_zero (Nat.ne_of_gt i.pos)
  have found : FoundHop links i ((bdpTables mtu links).firstHop (rest + 1) i j) := by
    rw [start]
    rcases bws_linked net other.symm with ⟨linked, l, member, joins, rate⟩ | ⟨apart, td⟩
    · rw [bws, Tables.hopLoop_stop linked, rate]
      exact ⟨x, l, member, joins, rfl⟩
    · have shorter : T₂.dist i x < (Tables.readLinks mtu links).td i x :=
        td ▸ settled_reaches net second other.symm
      obtain ⟨y, -, noted, away, -, further⟩ := second.hop i x shorter
      have inside := y.isLt
      rw [show (bdpTables mtu links).bws i x =
        unreachable from (congrFun (congrFun bws i) x).trans apart,
        Tables.hopLoop_step (by rw [next, noted])]
      exact hopLoop_found net second bws next rest y away (by omega) further
  obtain ⟨hop, l, member, joins, ends⟩ := found
  refine ⟨hop, l, member, joins, fun fuel enough => ?_⟩
  rw [start] at ends ⊢
  exact Tables.hopLoop_more (by omega) ends

end

/-! ### A line of four nodes -/

def lineLinks : List (Link 4) := [⟨0, 1, 10, 1000⟩, ⟨1, 2, 40, 1000⟩, ⟨2, 3, 40, 1000⟩]

theorem weight_le {G : SimpleGraph (Fin n)} {w : Fin n → Fin n → ℕ} {most : ℕ}
    (edges : ∀ a b, G.Adj a b → w a b ≤ most)
    {a b : Fin n} (walk : G.Walk a b) : Hops.weight w walk ≤ walk.length * most := by
  induction walk with
  | nil => exact Nat.zero_le _
  | @cons a c b edge rest ih =>
    have step := edges a c edge
    rw [Hops.weight, SimpleGraph.Walk.length_cons, Nat.succ_mul]
    omega

theorem line_connected : (graph lineLinks).Preconnected := by
  have edge : ∀ a b : Fin 4, (a ≠ b ∧ ∃ l ∈ lineLinks, l.Joins a b) →
      (graph lineLinks).Reachable a b :=
    fun a b adj => SimpleGraph.Adj.reachable adj
  have first := edge 0 1 (by decide)
  have second := edge 1 2 (by decide)
  have third := edge 2 3 (by decide)
  have all : ∀ a : Fin 4, (graph lineLinks).Reachable 0 a := by
    intro a
    match a with
    | 0 => exact .refl 0
    | 1 => exact first
    | 2 => exact first.trans second
    | 3 => exact (first.trans second).trans third
  exact fun a b => (all a).symm.trans (all b)

theorem line_network : Network 1000 lineLinks where
  noLoop := by decide
  rate := by decide
  connected := line_connected
  pathSum a b path isPath := by
    have short : path.length < 4 := isPath.length_lt
    have times : ∀ a b : Fin 4, (a ≠ b ∧ ∃ l ∈ lineLinks, l.Joins a b) →
        (Tables.readLinks 1000 lineLinks).pd a b ≤ 1000 ∧ (Tables.readLinks 1000 lineLinks).td a b ≤
          1000 := by decide
    have delays := weight_le (G := graph lineLinks) (fun a b adj => (times a b adj).1) path
    have transmissions := weight_le (G := graph lineLinks) (fun a b adj => (times a b adj).2) path
    unfold unreachable
    omega

/-- From one end of the line to the other: the table names node 2, the loop goes on to node 1. -/
theorem firstHop_found_line : ∃ (hop : Fin 4) (l : Link 4), l ∈ lineLinks ∧ l.Joins 0 hop ∧
    ∀ fuel ≥ 4, (bdpTables 1000 lineLinks).firstHop fuel 0 3 = some (l.rate, (hop : ℕ)) :=
  firstHop_found line_network (by decide)

end Bdp

end Pyrrha
