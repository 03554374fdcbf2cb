import Pyrrha.Floodgate.Window

/-! `VOQGroup` and `VOQ`: which VOQ is a destination's, and the packets a VOQ holds. -/

namespace Pyrrha
open Lib

namespace Floodgate

/-- The step of `HashFunctions::APHash` for the character `c` at position `i`. -/
def apHashStep (hash : UInt32) (c : Char) (i : ℕ) : UInt32 :=
  if i % 2 = 0 then hash ^^^ ((hash <<< 7) ^^^ (c.val * (hash >>> 3)))
  else hash ^^^ (~~~((hash <<< 11) + (c.val ^^^ (hash >>> 5))))

/-- `HashFunctions::APHash` of the decimal digits of `dst`. -/
def apHash (dst : ℕ) : ℕ :=
  (((Nat.toDigits 10 dst).zipIdx.foldl (fun hash c => apHashStep hash c.1 c.2) 0xAAAAAAAA :
    UInt32)).toNat

namespace Group

/-- `FindVOQId`; `none` is `(uint32_t)-1`. -/
def findVOQId (c : VoqConfig) (G : Group) (dst : ℕ) : Option ℕ :=
  if c.voqLimit = 0 then some dst
  else if c.dynamicHash then G.dst2voq dst
  else some (apHash dst % c.voqLimit)

/-- `VOQs.size()` of a group with a limit. -/
def voqCount (c : VoqConfig) (G : Group) : ℕ := (List.range c.voqLimit).countP fun i =>
    (G.voqs i).isSome

/-- The last id below the limit that no VOQ has. -/
def lastFree (c : VoqConfig) (G : Group) : Option ℕ :=
  (List.range c.voqLimit).foldl (fun found i => if (G.voqs i).isNone then some i else found) none

/-- `GetVOQId`, with `hasFind_dyn`. -/
def getVOQId (c : VoqConfig) (G : Group) (dst : ℕ) : Checked (Option ℕ × Bool) :=
  match G.findVOQId c dst with
  | some voqId => .ok (some voqId, true)
  | none =>
    if c.dynamicHash then
      if G.voqCount c < c.voqLimit then .ok (G.lastFree c, false)
      else .ok (some (apHash dst % c.voqLimit), false)
    else .error .getVOQId

def findVOQ (c : VoqConfig) (G : Group) (dst : ℕ) : Option ℕ :=
  (G.findVOQId c dst).filter fun voqId => (G.voqs voqId).isSome

/-- The VOQ and the mapping `GetVOQ` creates. -/
def create (c : VoqConfig) (G : Group) (dst voqId : ℕ) : Group where
  voqs := if (G.voqs voqId).isNone then Function.update G.voqs voqId (some []) else G.voqs
  dst2voq := if c.dynamicHash then Function.update G.dst2voq dst (some voqId) else G.dst2voq

/-- The rest of `GetVOQ` for the id it has got. -/
def useVOQ (c : VoqConfig) (G : Group) (dst voqId : ℕ) (hasFind : Bool) : Checked (Group × ℕ) :=
  if (!c.dynamicHash && (G.voqs voqId).isNone) || (c.dynamicHash && !hasFind) then
    if c.dynamicHash && (G.dst2voq dst).isSome then .error .getVOQ
    else .ok (G.create c dst voqId, voqId)
  else if (G.voqs voqId).isNone then .error .getVOQ
  else .ok (G, voqId)

/-- `GetVOQ`, with the group it leaves. -/
def getVOQ (c : VoqConfig) (G : Group) (dst : ℕ) : Checked (Group × ℕ) := do
  let (found, hasFind) ← G.getVOQId c dst
  match found with
  | none => .error .getVOQ
  | some voqId => G.useVOQ c dst voqId hasFind

/-- The packets of a VOQ; one that has been released has none. -/
def pkts (G : Group) (voqId : ℕ) : List PacketUnit := (G.voqs voqId).getD []

def setPkts (G : Group) (voqId : ℕ) (l : List PacketUnit) : Group :=
  { G with voqs := Function.update G.voqs voqId (some l) }

@[simp] theorem pkts_setPkts (G : Group) (voqId : ℕ) (l : List PacketUnit) :
    (G.setPkts voqId l).pkts voqId = l := by
  simp [pkts, setPkts]

theorem pkts_setPkts_of_ne (G : Group) {voqId v : ℕ} (other : v ≠ voqId) (l : List PacketUnit) :
    (G.setPkts voqId l).pkts v = G.pkts v := by
  simp [pkts, setPkts, other]

@[simp] theorem findVOQId_setPkts (c : VoqConfig) (G : Group) (voqId : ℕ)
    (l : List PacketUnit) (dst : ℕ) : (G.setPkts voqId l).findVOQId c dst = G.findVOQId c dst := rfl

/-- What the end of `VOQGroup::VOQDequeueCallback` releases. -/
def release (c : VoqConfig) (G : Group) (dst voqId buffering : ℕ) : Group :=
  if c.dynamicHash ∧ buffering = 0 then
    { voqs := if (G.pkts voqId).isEmpty then Function.update G.voqs voqId none else G.voqs
      dst2voq := Function.update G.dst2voq dst none }
  else G

end Group

namespace State

def pkts (s : State) (g voqId : ℕ) : List PacketUnit := (s.groups g).pkts voqId

def setGroup (s : State) (g : ℕ) (G : Group) : State :=
  { s with groups := Function.update s.groups g G }

def enqueue (s : State) (g voqId : ℕ) (pkt : PacketUnit) : State :=
  { s.setGroup g ((s.groups g).setPkts voqId (s.pkts g voqId ++ [pkt])) with
    voqBuffer := update₂ s.voqBuffer g voqId (add32 (s.voqBuffer g voqId) pkt.size) }

/-- The `pop` of `VOQ::CheckAndSendOne`, of a packet of `size` bytes that leaves `rest`. -/
def pop (s : State) (g voqId size : ℕ) (rest : List PacketUnit) : State :=
  { s.setGroup g ((s.groups g).setPkts voqId rest) with
    voqBuffer := update₂ s.voqBuffer g voqId (sub32 (s.voqBuffer g voqId) size) }

def getBufferDst (s : State) (dst : ℕ) : ℕ := (s.buffering dst).getD 0

def updateBufferingCount (s : State) (dst pktSize : ℕ) (isAdd : Bool) : Checked State :=
  match s.buffering dst with
  | none =>
    if isAdd then .ok { s with buffering := Function.update s.buffering dst (some pktSize) }
    else .error .updateBufferingCount
  | some bytes =>
    .ok { s with
      buffering := Function.update s.buffering dst
        (some (if isAdd then add32 bytes pktSize else sub32 bytes pktSize)) }

end State

end Floodgate

end Pyrrha
