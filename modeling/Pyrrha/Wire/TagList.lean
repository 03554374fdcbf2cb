import Pyrrha.Lib.Checked
import Pyrrha.Lib.SharedList
import Pyrrha.Wire.Tags

/-!
`PacketTagList`: the tags of the packets, in lists of `TagData` that packets and their copies share
and that count the pointers to them.
-/

namespace Pyrrha
open Lib Lib.Cells

namespace Wire

/-- `PACKET_TAG_MAX_SIZE`. -/
def packetTagMaxSize : ℕ := 41960

/-- The data and the `TypeId` of a `TagData`. -/
structure TagData where
  data : List Byte
  tid : TagClass

/-- A tag of any class. -/
structure Tag where
  tid : TagClass
  fields : tid.Fields

/-- What can stop an operation: `freed` is the use of a `TagData` after it has been freed, `overrun`
a tag that writes or reads beyond its `TagBuffer`, `added` and `tooLarge` are the asserts of `Add`,
and `gone` is a packet that is no more. -/
inductive Fault where
  | freed | overrun | added | tooLarge | gone
  deriving DecidableEq

/-- The `TagData` on the heap, and `m_next` of the list of each packet; `none` is a packet that is
gone. -/
structure TagLists where
  heap : Cells TagData
  lists : List (Option (Option ℕ))

namespace TagLists

variable (cfg : TagConfig)

/-! ### Nodes -/

def readNode (heap : Cells TagData) (a : ℕ) : Except Fault (Cell TagData) :=
  match heap.cell a with
  | some node => .ok node
  | none => .error .freed

/-- `FreeData(prev)` unless `prev` is null. -/
def freeData (heap : Cells TagData) : Option ℕ → Except Fault (Cells TagData)
  | none => .ok heap
  | some a => do
    let _ ← readNode heap a
    .ok (heap.free a)

/-- The loop of `RemoveAll`, at most `bound` times round. -/
def removeAllLoop : ℕ → Cells TagData → (prev cur : Option ℕ) → Except Fault (Cells TagData)
  | bound + 1, heap, prev, some cur => do
    let node ← readNode heap cur
    let heap := heap.write cur { node with count := sub32 node.count 1 }
    if 0 < sub32 node.count 1 then freeData heap prev
    else do
      let heap ← freeData heap prev
      removeAllLoop bound heap (some cur) node.next
  | _, heap, prev, _ => freeData heap prev

/-- `RemoveAll`; a loop over a list goes round at most as often as there are nodes. -/
def removeAll (heap : Cells TagData) (next : Option ℕ) : Except Fault (Cells TagData) :=
  removeAllLoop heap.length heap none next

/-- The `count++` of a list that is copied. -/
def retain (heap : Cells TagData) : Option ℕ → Except Fault (Cells TagData)
  | none => .ok heap
  | some a => do
    let node ← readNode heap a
    .ok (heap.write a { node with count := add32 node.count 1 })

/-! ### Searches -/

/-- The assert of `Add` over the nodes of the list. -/
def checkAbsent (tid : TagClass) (heap : Cells TagData) : ℕ → Option ℕ → Except Fault Unit
  | bound + 1, some cur => do
    let node ← readNode heap cur
    if node.value.tid = tid then .error .added else checkAbsent tid heap bound node.next
  | _, _ => .ok ()

/-- `tag.Deserialize` of the data of a node. -/
def deserialize (tag : Tag) (data : List Byte) : Except Fault Tag :=
  match tag.tid.deserialize cfg tag.fields data with
  | some (fields, _) => .ok ⟨tag.tid, fields⟩
  | none => .error .overrun

def peek (heap : Cells TagData) (tag : Tag) : ℕ → Option ℕ → Except Fault (Option Tag)
  | bound + 1, some cur => do
    let node ← readNode heap cur
    if node.value.tid = tag.tid then (deserialize cfg tag node.value.data).map some else peek heap tag bound node.next
  | _, _ => .ok none

/-- The first loop of `Remove`: the last node of the class is the one that is read. -/
def findLast (heap : Cells TagData) (tid : TagClass) : ℕ → Option ℕ → (found : Option Tag) → Tag →
    Except Fault (Option Tag)
  | bound + 1, some cur, found, tag => do
    let node ← readNode heap cur
    if node.value.tid = tid then do
      let tag ← deserialize cfg tag node.value.data
      findLast heap tid bound node.next (some tag) tag
    else findLast heap tid bound node.next found tag
  | _, _, found, _ => .ok found

/-! ### Copies -/

/-- `*prevNext = target`: the local `start` until a node has been copied, then the `next` of the
last copy. -/
def setPrevNext (heap : Cells TagData) (start last target : Option ℕ) :
    Except Fault (Cells TagData × Option ℕ) :=
  match last with
  | none => .ok (heap, target)
  | some b => do
    let node ← readNode heap b
    .ok (heap.write b { node with next := target }, start)

/-- The second loop of `Remove`, which copies the nodes of other classes; `last` is the copy
`prevNext` points into. -/
def copyOthers (tid : TagClass) : ℕ → Cells TagData → (cur start last : Option ℕ) →
    Except Fault (Cells TagData × Option ℕ)
  | bound + 1, heap, some cur, start, last => do
    let node ← readNode heap cur
    if node.value.tid = tid then copyOthers tid bound heap node.next start last
    else do
      let copy := heap.length
      let (heap, start) ← setPrevNext (heap.alloc ⟨node.value, none, 1⟩) start last (some copy)
      copyOthers tid bound heap node.next start (some copy)
  | _, heap, _, start, last => setPrevNext heap start last none

/-! ### Packets -/

variable (s : TagLists)

/-- `m_next` of a packet. -/
def head (i : ℕ) : Except Fault (Option ℕ) :=
  match s.lists[i]? with
  | some (some next) => .ok next
  | _ => .error .gone

def setHead (i : ℕ) (next : Option ℕ) : TagLists := { s with lists := s.lists.set i (some next) }

/-- The zeros of a new `TagData` that `Serialize` has not written. -/
def padded (bytes : List Byte) : List Byte :=
  bytes ++ List.replicate (packetTagMaxSize - bytes.length) 0#8

def add (i : ℕ) (tag : Tag) : Except Fault TagLists := do
  let next ← s.head i
  checkAbsent tag.tid s.heap s.heap.length next
  if packetTagMaxSize < tag.tid.serializedSize cfg then .error .tooLarge
  else
    let bytes := tag.tid.serialize cfg tag.fields
    if tag.tid.serializedSize cfg < bytes.length then .error .overrun
    else
      .ok { s.setHead i (some s.heap.length) with
        heap := s.heap.alloc ⟨⟨padded bytes, tag.tid⟩, next, 1⟩ }

/-- `Remove`, with the tag it has read. -/
def remove (i : ℕ) (tag : Tag) : Except Fault (TagLists × Option Tag) := do
  let next ← s.head i
  let found ← findLast cfg s.heap tag.tid s.heap.length next none tag
  match found with
  | none => .ok (s, none)
  | some tag' => do
    let (heap, start) ← copyOthers tag.tid s.heap.length s.heap next none none
    let heap ← removeAll heap next
    .ok ({ s.setHead i start with heap := heap }, some tag')

/-- The copy constructor, as `Packet::Copy` uses it. -/
def copy (i : ℕ) : Except Fault TagLists := do
  let next ← s.head i
  let heap ← retain s.heap next
  .ok { heap := heap, lists := s.lists ++ [some next] }

/-- `operator=`. -/
def assign (i j : ℕ) : Except Fault TagLists := do
  let mine ← s.head i
  let next ← s.head j
  if mine = next then .ok s
  else do
    let heap ← removeAll s.heap mine
    let heap ← retain heap next
    .ok { s.setHead i next with heap := heap }

def destroy (i : ℕ) : Except Fault TagLists := do
  let next ← s.head i
  let heap ← removeAll s.heap next
  .ok { heap := heap, lists := s.lists.set i none }

/-- `RemoveAll` of a packet. -/
def clear (i : ℕ) : Except Fault TagLists := do
  let next ← s.head i
  let heap ← removeAll s.heap next
  .ok { s.setHead i none with heap := heap }

end TagLists

/-- What happens to the packets, which are numbered in the order of their creation. `tag` is the
object that `Peek` and `Remove` read into. -/
inductive TagEvent where
  | create
  | copy (i : ℕ)
  | assign (i j : ℕ)
  | destroy (i : ℕ)
  | removeAllPacketTags (i : ℕ)
  | addPacketTag (i : ℕ) (tag : Tag)
  | removePacketTag (i : ℕ) (tag : Tag)
  | peekPacketTag (i : ℕ) (tag : Tag)

/-- One event, with the tag that `Peek` or `Remove` has found. -/
def TagLists.step (cfg : TagConfig) (s : TagLists) : TagEvent → Except Fault (TagLists × Option Tag)
  | .create => .ok ({ s with lists := s.lists ++ [some none] }, none)
  | .copy i => (s.copy i).map fun s => (s, none)
  | .assign i j => (s.assign i j).map fun s => (s, none)
  | .destroy i => (s.destroy i).map fun s => (s, none)
  | .removeAllPacketTags i => (s.clear i).map fun s => (s, none)
  | .addPacketTag i tag => (s.add cfg i tag).map fun s => (s, none)
  | .removePacketTag i tag => s.remove cfg i tag
  | .peekPacketTag i tag => do
    let next ← s.head i
    let found ← TagLists.peek cfg s.heap tag s.heap.length next
    .ok (s, found)

def TagLists.run (cfg : TagConfig) (s : TagLists) : List TagEvent →
    Except Fault (TagLists × List (Option Tag))
  | [] => .ok (s, [])
  | ev :: evs => do
    let (s, answer) ← s.step cfg ev
    let (s, answers) ← run cfg s evs
    .ok (s, answer :: answers)

/-! ### What the lists are for -/

/-- The tags of each packet, which has them for itself; `none` is a packet that is gone. -/
abbrev PacketTags := List (Option (List Tag))

namespace PacketTags

def tags (A : PacketTags) (i : ℕ) : Except Fault (List Tag) :=
  match A[i]? with
  | some (some l) => .ok l
  | _ => .error .gone

/-- The tag of a class, read into `tag`. -/
def find (cfg : TagConfig) (l : List Tag) (tag : Tag) : Option Tag :=
  (l.find? fun t => decide (t.tid = tag.tid)).bind fun t =>
    if same : t.tid = tag.tid then some ⟨tag.tid, tag.tid.load cfg tag.fields (same ▸ t.fields)⟩
      else none

def step (cfg : TagConfig) (A : PacketTags) : TagEvent → Except Fault (PacketTags × Option Tag)
  | .create => .ok (A ++ [some []], none)
  | .copy i => do
    let l ← A.tags i
    .ok (A ++ [some l], none)
  | .assign i j => do
    let _ ← A.tags i
    let l ← A.tags j
    .ok (A.set i (some l), none)
  | .destroy i => do
    let _ ← A.tags i
    .ok (A.set i none, none)
  | .removeAllPacketTags i => do
    let _ ← A.tags i
    .ok (A.set i (some []), none)
  | .addPacketTag i tag => do
    let l ← A.tags i
    if tag.tid ∈ l.map Tag.tid then .error .added
    else if packetTagMaxSize < tag.tid.serializedSize cfg then .error .tooLarge
    else .ok (A.set i (some (tag :: l)), none)
  | .removePacketTag i tag => do
    let l ← A.tags i
    .ok (A.set i (some (l.filter fun t => !decide (t.tid = tag.tid))), find cfg l tag)
  | .peekPacketTag i tag => do
    let l ← A.tags i
    .ok (A, find cfg l tag)

def run (cfg : TagConfig) (A : PacketTags) : List TagEvent →
    Except Fault (PacketTags × List (Option Tag))
  | [] => .ok (A, [])
  | ev :: evs => do
    let (A, answer) ← A.step cfg ev
    let (A, answers) ← run cfg A evs
    .ok (A, answer :: answers)

end PacketTags

end Wire

end Pyrrha
