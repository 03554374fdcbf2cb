import Pyrrha.Switch.Mmu

/-!
`SwitchNode` in `FC_CONGESTION_ISOLATION` mode: arrival, the hierarchical round, transmission and
the congestion-tree signals. A loop over an `unordered_map` is written pointwise, since each of its
iterations reads and writes only its own key and its own device.
-/

namespace Pyrrha
open Lib

variable {n : ℕ}

def matchDefaultQ (cfg : Config n) (ch : CustomHeader) : ℕ :=
  match ch.l3Prot with
  | .switchPsn | .switchAck | .qcn | .pfc | .req => 0
  | .nack | .ack | .sack => if cfg.ackHighPrio then 0 else ch.tknPg
  | .token | .tokenAck => ch.tknPg
  | .tcp => 1
  | .udp | .ci => ch.udpPg

/-! ### Signals -/

def pauseTag (root : Spot) (hop : ℕ) : CITag := ⟨.pause, root, hop % 2 ^ 16, ⟨0, 0⟩⟩

def resumeTag (root : Spot) : CITag := ⟨.resume, root, 0, ⟨0, 0⟩⟩

def deallocTag (root : Spot) : CITag := ⟨.dealloc, root, 0, ⟨0, 0⟩⟩

def mergeTag (root : Spot) (hop : ℕ) (old : Spot) : CITag := ⟨.merge, root, hop % 2 ^ 16, old⟩

namespace Switch

/-! ### Deallocation -/

/-- Release of the CIQ `c` of `root` on `port`, as both release routines write it out. -/
def releaseCIQ (s : Switch n) (root : Spot) (e : CAMEntry n) (port : Fin n) (c : ℕ) : Switch n :=
  ((s.setPaused port (some c) none).setCiqRoot port c none).setEntry root (e.setCiq port none)

/-- One iteration of the loop of `CheckAndSendDealloc`; the flag is `dealloc_all`. -/
def deallocPort (root : Spot) : Switch n × Bool → Fin n → Checked (Switch n × Bool)
  | (s, all), i =>
    match s.getEntry root with
    | none => .error .checkAndSendDealloc
    | some e =>
      match e.oportCiq i with
      | none => .ok (s, all)
      | some c =>
        if s.nQueue i ≤ c then .error .checkAndSendDealloc
        else if s.bytesInQueue i c = 0 ∧ e.oportStatus i = .resume then
          if s.paused i (some c) = none ∨ s.ciqRootMap i c = none then .error .checkAndSendDealloc
          else .ok ((s.sendCIPacket i (deallocTag root)).releaseCIQ root
            (e.setStatus i .initial) i c, all)
        else .ok (s, false)

/-- Whether the entry still controls upstreams: paused ones on a ToR, any recorded one elsewhere. -/
def hasChildren (cfg : Config n) (e : CAMEntry n) : Bool :=
  if cfg.isToR then decide (∃ i, e.iportPaused i = some true)
    else decide (∃ i, e.iportPaused i ≠ none)

def checkAndSendDealloc (cfg : Config n) (s : Switch n) (root : Spot) : Checked (Switch n) :=
  if !cfg.deallocOn then .ok s
  else match s.getEntry root with
    | none => .error .checkAndSendDealloc
    | some e =>
      if hasChildren cfg e then .ok s
      else do
        let (s, all) ← (List.finRange n).foldlM (deallocPort root) (s, true)
        .ok (if all then s.eraseEntry root else s)

/-- The end of `ReleaseMergeCIQEntry`: `e` is erased once no port and no child holds it. -/
def releaseEntry (s : Switch n) (root : Spot) (e : CAMEntry n) : Switch n :=
  if (∀ i, e.oportCiq i = none) ∧ (∀ i, e.iportPaused i = none) then s.eraseEntry root else s

def releaseMergeCIQEntry (cfg : Config n) (s : Switch n) (root : Spot) (oport : Fin n) :
    Checked (Switch n) :=
  match s.getEntry root with
  | none => .error .releaseMergeCIQEntry
  | some e =>
    if !cfg.congestionMerge || e.oportStatus oport != .merge then .error .releaseMergeCIQEntry
    else match e.oportCiq oport with
      | none => .ok s
      | some c =>
        if s.nQueue oport ≤ c then .error .releaseMergeCIQEntry
        else if s.bytesInQueue oport c = 0 then
          if s.paused oport (some c) = none ∨ s.ciqRootMap oport c = none then
            .error .releaseMergeCIQEntry
          else .ok ((s.releaseCIQ root e oport c).releaseEntry root (e.setCiq oport none))
        else .ok (s.releaseEntry root e)

/-! ### Enqueue and dequeue notifications -/

/-- `SwitchNode::NotifyEnqueueIntoOQ_CI`. -/
def notifyEnqueueIntoOQ (cfg : Config n) (s : Switch n) (inDev idx : Fin n) (q : ℕ) : Switch n :=
  if cfg.onlyDownPortEnable && cfg.upPort idx then s
  else if s.checkRootPause cfg inDev idx q then
    (s.sendCIPacket inDev (pauseTag ⟨cfg.mId, idx⟩ 1)).setRootPause inDev idx
  else s

/-- The pause of a child that `NotifyEnqueueIntoCIQ_CI` and no other function decides on. -/
def pauseChild (cfg : Config n) (s : Switch n) (root : Spot) (e : CAMEntry n) (inDev idx : Fin n) :
    Switch n :=
  if e.checkCIQPause cfg inDev idx then
    (s.sendCIPacket inDev (pauseTag root (e.hop + 1))).setEntry root (e.setCIQPause inDev)
  else s

/-- `SwitchNode::NotifyEnqueueIntoCIQ_CI`. -/
def notifyEnqueueIntoCIQ (cfg : Config n) (s : Switch n) (idx : Fin n) (q : ℕ) (p : Packet n) :
    Checked (Switch n) :=
  match s.ciqRootMap idx q with
  | none => .error .notifyEnqueueIntoCIQ
  | some root =>
    match s.getEntry root with
    | none => .error .notifyEnqueueIntoCIQ
    | some e =>
      let e := e.setCounter p.inDev (add32 (e.iportCounter p.inDev) p.size)
      .ok ((s.setEntry root e).pauseChild cfg root e p.inDev idx)

/-- `SwitchNode::NotifyEnqueue_CI`. -/
def notifyEnqueue (cfg : Config n) (s : Switch n) (idx : Fin n) (q : ℕ) (p : Packet n) :
    Checked (Switch n) :=
  if q = 0 then .ok s
  else if q < queueNum then .ok (s.notifyEnqueueIntoOQ cfg p.inDev idx q)
  else s.notifyEnqueueIntoCIQ cfg idx q p

/-- The upstreams the loop of `NotifyDequeueFromOQ_CI` resumes. -/
def resumesUpstream (cfg : Config n) (s : Switch n) (ifIndex : Fin n) (q : ℕ) (i : Fin n) : Bool :=
  (s.upstreamPaused ifIndex i == some true) && s.checkRootResume cfg i ifIndex q

/-- `SwitchNode::NotifyDequeueFromOQ_CI`. -/
def notifyDequeueFromOQ (cfg : Config n) (s : Switch n) (ifIndex : Fin n) (q : ℕ) : Switch n :=
  if cfg.onlyDownPortEnable && cfg.upPort ifIndex then s
  else
    { s with
      out := fun i => if s.resumesUpstream cfg ifIndex q i then s.out i ++
        [resumeTag ⟨cfg.mId, ifIndex⟩]
        else s.out i
      upstreamPaused := fun e i =>
        if e = ifIndex ∧ s.resumesUpstream cfg ifIndex q i then some false
          else s.upstreamPaused e i }

/-- The resume of a child that `NotifyDequeueFromCIQ_CI` and no other function decides on. -/
def resumeChild (cfg : Config n) (s : Switch n) (root : Spot) (e : CAMEntry n)
    (inDev ifIndex : Fin n) : Switch n :=
  if e.checkCIQResume cfg inDev ifIndex then
    (s.sendCIPacket inDev (resumeTag root)).setEntry root (e.setCIQResume inDev)
  else s

/-- `SwitchNode::NotifyDequeueFromCIQ_CI`. -/
def notifyDequeueFromCIQ (cfg : Config n) (s : Switch n) (ifIndex : Fin n) (q : ℕ) (p : Packet n) :
    Checked (Switch n) :=
  match s.ciqRootMap ifIndex q with
  | none => .error .notifyDequeueFromCIQ
  | some root =>
    match s.getEntry root with
    | none => .error .notifyDequeueFromCIQ
    | some e =>
      let e := e.setCounter p.inDev (sub32 (e.iportCounter p.inDev) p.size)
      let s := (s.setEntry root e).resumeChild cfg root e p.inDev ifIndex
      if e.oportStatus ifIndex ≠ .merge then s.checkAndSendDealloc cfg root
      else s.releaseMergeCIQEntry cfg root ifIndex

/-- `SwitchNode::NotifyDequeue_CI`. -/
def notifyDequeue (cfg : Config n) (s : Switch n) (ifIndex : Fin n) (q : ℕ) (p : Packet n) :
    Checked (Switch n) :=
  if q = 0 then .ok s
  else if q < queueNum then .ok (s.notifyDequeueFromOQ cfg ifIndex q)
  else s.notifyDequeueFromCIQ cfg ifIndex q p

/-! ### Transmission -/

/-- `SwitchNode::SwitchNotifyDequeue`; PFC, CI and SwitchACK frames were never admitted. -/
def switchNotifyDequeue (cfg : Config n) (s : Switch n) (ifIndex : Fin n) (q : ℕ) (p : Packet n) :
    Checked (Switch n) :=
  match p.header.l3Prot with
  | .pfc | .ci | .switchAck => .ok s
  | _ => do
    let s ← s.removeFromEgressAdmission ifIndex q p.size
    s.notifyDequeue cfg ifIndex q p

/-- A packet leaves the device. Its tag advances one hop, unless it comes from queue 0. -/
def transmitStart (s : Switch n) (dev : Fin n) (q : ℕ) (p : Packet n) : Switch n :=
  let tag := if q = 0 then p.routingTag else p.routingTag.addCurrHop
  { s with departed := Function.update s.departed dev (s.departed dev ++ [(p, tag)]) }

/-- `QbbNetDevice::DequeueAndTransmit`. The pick stands for link state, rate limiters and round
robin: nothing to send, or an output queue and the position its `Dequeue` takes (the head if
drop-tail). -/
def dequeueAndTransmit (cfg : Config n) (s : Switch n) (dev : Fin n) :
    Option (ℕ × ℕ) → Checked (Switch n)
  | none => .ok s
  | some (q, k) =>
    if queueNum ≤ q ∨ (cfg.pifo = false ∧ k ≠ 0) then .ok s
    else match (s.queues dev q)[k]? with
      | none => .ok s
      | some p => ((s.popQueue dev q k p).transmitStart dev q p).switchNotifyDequeue cfg dev q p

/-- `QbbNetDevice::SwitchSend` up to its `DequeueAndTransmit`; it ignores what `Enqueue` returns. -/
def switchSend (cfg : Config n) (s : Switch n) (dev : Fin n) (q : ℕ) (p : Packet n) : Switch n :=
  (s.doEnqueue cfg dev p q).getD s

/-! ### Arrival -/

def matchQ (cfg : Config n) (s : Switch n) (idx : Fin n) (p : Packet n) : Checked ℕ :=
  let q := matchDefaultQ cfg p.header
  if q = 0 then .ok q
  else do
    match ← s.matchNextCongestionRoot cfg idx p.routingTag none with
    | some (_, e) => .ok ((e.oportCiq idx).getD q)
    | none => .ok q

/-- The admission test of `SendToDev`. -/
def admits (cfg : Config n) (s : Switch n) (idx : Fin n) (q : ℕ) (p : Packet n) : Bool :=
  s.checkEgressAdmission cfg idx q p.size &&
    (!cfg.checkSharedBuffer || decide (add32 p.size s.switchBuffer < cfg.bufferSize))

/-- `SwitchNode::SendToDev` up to the enqueue, for the output device `idx` of the routing table. -/
def acceptPacket (cfg : Config n) (s : Switch n) (idx : Fin n) (p : Packet n) : Checked (Switch n) := do
  let q ← s.matchQ cfg idx p
  if s.admits cfg idx q p then
    if p.header.l3Prot = .switchAck then .error .sendToDev
    else do
      let s := s.updateEgressAdmission idx q p.size
      let s ← s.notifyEnqueue cfg idx q p
      .ok (s.switchSend cfg idx q p)
  else .ok s

/-- `SwitchNode::SendToDev`. PFC frames stop in `QbbNetDevice::Receive`, and CI frames carry a
`CITag` and go to `ReceiveCI`, so neither is routed. -/
def sendToDev (cfg : Config n) (s : Switch n) (idx : Fin n) (p : Packet n) (pick : Option (ℕ × ℕ)) :
    Checked (Switch n) :=
  if p.header.l3Prot = .pfc ∨ p.header.l3Prot = .ci then .ok s
  else do
    let s ← s.acceptPacket cfg idx p
    let s ← s.dequeueAndTransmit cfg idx pick
    s.doStatistics

/-! ### The hierarchical round -/

/-- `SwitchNode::CheckDequeueHierQ_CI` for the head `p` of queue `q`; `none` is its `false`. -/
def checkDequeueHierQ (cfg : Config n) (s : Switch n) (dev : Fin n) (level q : ℕ) (p : Packet n) :
    Checked (Option (Option ℕ)) :=
  if s.paused dev (some q) = some true then .ok none
  else do
    match ← s.matchNextCongestionRoot cfg dev p.routingTag (some level) with
    | none => .ok (some (some (matchDefaultQ cfg p.header)))
    | some (_, e) => .ok (some (e.oportCiq dev))

/-- The body of the innermost loop of `DoHierQRR`; the flag is `intoOQ`. -/
def hierMove (cfg : Config n) (dev : Fin n) (level : ℕ) :
    Switch n × Bool → ℕ → Checked (Switch n × Bool)
  | (s, intoOQ), q =>
    match s.queues dev q with
    | [] => .ok (s, intoOQ)
    | p :: _ => do
      match ← s.checkDequeueHierQ cfg dev level q p with
      | none => .ok (s, intoOQ)
      | some none => .error .doHierQRR
      | some (some nextQ) =>
        let s ← (s.popQueue dev q 0 p).notifyDequeue cfg dev q p
        let s ← s.removeFromEgressAdmission dev q p.size
        match s.doEnqueue cfg dev p nextQ with
        | none => .error .doHierQRR
        | some s =>
          let s ← s.notifyEnqueue cfg dev nextQ p
          .ok (s.updateEgressAdmission dev nextQ p.size, intoOQ || decide (nextQ < queueNum))

/-- The queues of one device in the order `DoHierQRR` visits them. -/
def hierLevel (cfg : Config n) (dev : Fin n) (acc : Switch n × Bool) (level : ℕ) :
    Checked (Switch n × Bool) :=
  (acc.1.priorities dev level).foldlM (hierMove cfg dev level) acc

/-- `SwitchNode::DoHierQRR` on one device, with what its `DequeueAndTransmit` picks. -/
def hierDevice (cfg : Config n) (picks : Fin n → Option (ℕ × ℕ)) (s : Switch n) (dev : Fin n) :
    Checked (Switch n) := do
  let (s, intoOQ) ← (List.range' 1 maxHop).reverse.foldlM (hierLevel cfg dev) (s, false)
  if intoOQ then s.dequeueAndTransmit cfg dev (picks dev) else .ok s

def doHierQRR (cfg : Config n) (s : Switch n) (picks : Fin n → Option (ℕ × ℕ)) :
    Checked (Switch n) :=
  (List.finRange n).foldlM (hierDevice cfg picks) s

/-! ### ReceiveCI -/

/-- The entry a pause or merge signal is about, created with the hop it carries if it is new. -/
def entryFor (s : Switch n) (tag : CITag) : Checked (Switch n × CAMEntry n) :=
  match s.getEntry tag.root with
  | some e => .ok (s, e)
  | none =>
    if tag.hop = 0 then .error .receiveCI
    else .ok (s.setEntry tag.root { hop := tag.hop }, { hop := tag.hop })

/-- Registration of a CIQ for `root` on `ingress`, as the pause and the merge branch write it
out. -/
def registerRoot (s : Switch n) (root : Spot) (e : CAMEntry n) (ingress : Fin n) :
    Switch n × CAMEntry n :=
  let ciq := s.nQueue ingress
  let e := e.setCiq ingress (some ciq)
  ((((s.registerCIQ ingress e.hop).setEntry root e).setCiqRoot ingress ciq
    (some root)).updateEgressAdmission ingress ciq 0, e)

/-- Whether the signal makes `ingress` register a CIQ. -/
def registers (e : CAMEntry n) (root : Spot) (ingress : Fin n) : Bool :=
  decide (root.portId ≠ noPort) && decide (e.oportCiq ingress = none)

/-- The loop both merges run over the upstreams in `moves`: send a merge, and record them as resumed
children of the new root, whose entry is `e`. -/
def mergeUpstreams (s : Switch n) (root : Spot) (e : CAMEntry n) (old : Spot)
    (moves : Fin n → Bool) : Switch n :=
  { s with
    out := fun i => if moves i then s.out i ++ [mergeTag root (e.hop + 1) old] else s.out i }
    |>.setEntry root (e.setCIQResumes moves)

/-- The merge that starts at a local root: its upstreams move to the tree of `root`. -/
def startMerge (cfg : Config n) (s : Switch n) (root : Spot) (e : CAMEntry n) (ingress : Fin n) :
    Switch n :=
  let moves := fun i => decide (s.upstreamPaused ingress i ≠ none)
  { s.mergeUpstreams root e ⟨cfg.mId, ingress⟩ moves with
    upstreamPaused := fun x i => if x = ingress then none else s.upstreamPaused x i }

/-- The pause branch of `ReceiveCI`. -/
def receivePause (cfg : Config n) (s : Switch n) (tag : CITag) (ingress : Fin n) : Checked (Switch n) := do
  let (s, e) ← s.entryFor tag
  let initial := registers e tag.root ingress
  let (s, e) := if initial then s.registerRoot tag.root e ingress else (s, e)
  let e := e.setStatus ingress .pause
  let s := (s.setEntry tag.root e).setPaused ingress (e.oportCiq ingress) (some true)
  if cfg.congestionMerge && initial && !cfg.upPort ingress && s.isRoot ingress then
    .ok (s.startMerge cfg tag.root e ingress)
  else .ok s

/-- The resume branch of `ReceiveCI`. -/
def receiveResume (cfg : Config n) (s : Switch n) (tag : CITag) (ingress : Fin n)
    (pick : Option (ℕ × ℕ)) : Checked (Switch n) :=
  match s.getEntry tag.root with
  | none => .ok s
  | some e =>
    match e.oportCiq ingress with
    | none => .ok s
    | some c => do
      let s := (s.setEntry tag.root (e.setStatus ingress .resume)).setPaused ingress (some c)
        (some false)
      let s ← s.checkAndSendDealloc cfg tag.root
      s.dequeueAndTransmit cfg ingress pick

/-- The dealloc branch of `ReceiveCI`. -/
def receiveDealloc (cfg : Config n) (s : Switch n) (tag : CITag) (ingress : Fin n) :
    Checked (Switch n) :=
  if tag.root.switchId ≠ cfg.mId then
    match s.getEntry tag.root with
    | none => .ok s
    | some e =>
      if e.iportPaused ingress = some false then
        (s.setEntry tag.root (e.setCIQDealloc ingress)).checkAndSendDealloc cfg tag.root
      else .ok s
  else if h : tag.root.portId < n then
    if s.upstreamPaused ⟨tag.root.portId, h⟩ ingress = some false then
      .ok (s.setRootDealloc ingress ⟨tag.root.portId, h⟩)
    else .ok s
  else .ok s

def passesMerge (cfg : Config n) (old : CAMEntry n) (i : Fin n) : Bool :=
  match old.iportPaused i with
  | none => false
  | some b => !cfg.isToR || b

/-- The old root's side of a merge: its CIQ on `ingress` becomes a merging one, its children are
told and move to the new root. -/
def retireOldRoot (cfg : Config n) (s : Switch n) (tag : CITag) (old : CAMEntry n)
    (ingress : Fin n) : Switch n :=
  let old := old.setStatus ingress .merge
  let s := s.setEntry tag.old old
  let s :=
    if s.paused ingress (old.oportCiq ingress) = some true then
      s.setPaused ingress (old.oportCiq ingress) (some false)
    else s
  let s :=
    match s.getEntry tag.root with
    | none => s
    | some e => s.mergeUpstreams tag.root e tag.old (passesMerge cfg old)
  match s.getEntry tag.old with
  | none => s
  | some old => s.setEntry tag.old { old with iportPaused := fun _ => none }

/-- What the merge branch does for the old root, if there still is an entry of it. -/
def mergeOldRoot (cfg : Config n) (s : Switch n) (tag : CITag) (ingress : Fin n) :
    Checked (Switch n) :=
  match s.getEntry tag.old with
  | none => .ok s
  | some old => (s.retireOldRoot cfg tag old ingress).releaseMergeCIQEntry cfg tag.old ingress

/-- The merge branch of `ReceiveCI`. -/
def receiveMerge (cfg : Config n) (s : Switch n) (tag : CITag) (ingress : Fin n)
    (pick : Option (ℕ × ℕ)) : Checked (Switch n) := do
  let (s, e) ← s.entryFor tag
  let (s, e) := if registers e tag.root ingress then s.registerRoot tag.root e ingress else (s, e)
  let s := (s.setEntry tag.root (e.setStatus ingress .resume)).setPaused ingress
    (e.oportCiq ingress) (some false)
  let s ← s.mergeOldRoot cfg tag ingress
  s.dequeueAndTransmit cfg ingress pick

def receiveCI (cfg : Config n) (s : Switch n) (tag : CITag) (ingress : Fin n)
    (pick : Option (ℕ × ℕ)) : Checked (Switch n) :=
  match tag.ciType with
  | .pause => s.receivePause cfg tag ingress
  | .resume => s.receiveResume cfg tag ingress pick
  | .dealloc => s.receiveDealloc cfg tag ingress
  | .merge => s.receiveMerge cfg tag ingress pick

end Switch

end Pyrrha
