import MyBase.Lib.Run

/-!
# MyBase — `FifoQueue`

A queue whose elements are in a chain of nodes of the same size: `push` writes behind the
last element, into the last node, and `pop` moves past the first one. A node that `pop`
has left goes to a recycle bin, a circular array of three places, from which `push` takes
its next node; what does not fit in there is freed.

The chain is the list of its nodes from `tailNode` to `headNode`, and a node the list of its
elements; a queue that is not initialised has no node. `none` is an access outside of an
array or through a null pointer, or an assertion that fails. The counters wrap around.

`clear` leaves the recycle bin without places, and nothing gives it any again.

Main results:

* `RecycleBin.Holds` — the nodes in the bin, in order, and what each call does to them;
* `FifoQueue.Represents` — the list that a queue stands for, and what each call does to it;
* `FifoRun.fifo_iff` — when a sequence of calls behaves as on a list of bounded length.
-/

namespace MyBase

open Lib List

variable {α : Type}

/-- `FifoQueue::RecycleBin`; a place that was never used holds no node. -/
structure RecycleBin (α : Type) where
  binSize : Nat
  reusableNodes : List (Option (List α))
  cursorHead : Nat
  cursorTail : Nat
deriving DecidableEq, Repr

namespace RecycleBin

def create (binSize : Nat) : RecycleBin α := ⟨binSize, List.replicate binSize none, 0, 0⟩

def empty (bin : RecycleBin α) : Bool := bin.cursorHead == bin.cursorTail

def full (bin : RecycleBin α) : Bool := (bin.cursorHead + 1) % bin.binSize == bin.cursorTail

def popFreeNode (bin : RecycleBin α) : Option (List α × RecycleBin α) := do
  guard (!bin.empty)
  let place ← bin.reusableNodes[bin.cursorTail]?
  let getNode ← place
  return (getNode, { bin with cursorTail := (bin.cursorTail + 1) % bin.binSize })

def pushFreeNode (bin : RecycleBin α) (nod : List α) : Option (RecycleBin α) := do
  guard (!bin.full)
  guard (bin.cursorHead < bin.reusableNodes.length)
  return { bin with
    reusableNodes := bin.reusableNodes.set bin.cursorHead (some nod)
    cursorHead := (bin.cursorHead + 1) % bin.binSize }

/-- The loop of `clear`; it takes fewer turns than there are places. -/
def clearNodes : Nat → RecycleBin α → Option (RecycleBin α)
  | 0, _ => none
  | turns + 1, bin =>
    if bin.empty then some bin
    else do
      let (_, bin) ← bin.popFreeNode
      clearNodes turns bin

/-- `clear`: the array itself is left without places. -/
def clear (bin : RecycleBin α) : Option (RecycleBin α) := do
  let bin ← bin.clearNodes bin.binSize
  return { bin with reusableNodes := [] }

end RecycleBin

structure FifoQueue (α : Type) where
  recycleBin : RecycleBin α
  headIdx : UInt64
  headNodeStartIdx : UInt64
  tailIdx : UInt64
  tailNodeStartIdx : UInt64
  /-- From `tailNode` to `headNode`. -/
  nodes : List (List α)
  queueCapacity : UInt32
  nodeCapacity : UInt32
deriving DecidableEq, Repr

namespace FifoQueue

def create : FifoQueue α := ⟨.create 3, 0, 0, 0, 0, [], 0, 0⟩

def size (q : FifoQueue α) : UInt32 := (q.headIdx - q.tailIdx).toUInt32

def full (q : FifoQueue α) : Bool := q.size == q.queueCapacity

def empty (q : FifoQueue α) : Bool := q.headIdx == q.tailIdx

/-- A new node: its elements are value-initialised. -/
def newNode [Inhabited α] (size : UInt32) : List α := List.replicate size.toNat default

/-- `init`; the comparison is of the member, not of the argument. -/
def init [Inhabited α] (q : FifoQueue α) (node_capacity capacity_ : UInt32) : FifoQueue α × Int :=
  if capacity_ = 0 then (q, -1)
  else if q.nodes ≠ [] then (q, -1)
  else
    let nodeCapacity := if q.nodeCapacity > capacity_ then capacity_ else node_capacity
    ({ q with queueCapacity := capacity_, nodeCapacity, nodes := [newNode nodeCapacity] }, 0)

def front (q : FifoQueue α) : Option α := do
  let tailNode ← q.nodes.head?
  tailNode[(q.tailIdx - q.tailNodeStartIdx).toUInt32.toNat]?

/-- The node that `pop` leaves. -/
def recycle (bin : RecycleBin α) (thisnod : List α) : Option (RecycleBin α) :=
  if bin.full then some bin else bin.pushFreeNode thisnod

/-- The node that `push` continues in. -/
def nextNode [Inhabited α] (bin : RecycleBin α) (nodeCapacity : UInt32) :
    Option (List α × RecycleBin α) :=
  if bin.empty then some (newNode nodeCapacity, bin) else bin.popFreeNode

/-- `pop`; without a next node, `tailNode` would be null. -/
def pop (q : FifoQueue α) : Option (FifoQueue α × Int) :=
  if q.empty then some (q, -1)
  else
    let offset := (q.tailIdx - q.tailNodeStartIdx).toUInt32
    if offset + 1 = q.nodeCapacity then
      match q.nodes with
      | thisnod :: next :: nodes => do
        let recycleBin ← recycle q.recycleBin thisnod
        return ({ q with
          tailNodeStartIdx := q.tailIdx + 1
          nodes := next :: nodes
          recycleBin
          tailIdx := q.tailIdx + 1 }, 0)
      | _ => none
    else some ({ q with tailIdx := q.tailIdx + 1 }, 0)

def push [Inhabited α] (q : FifoQueue α) (value : α) : Option (FifoQueue α × Int) :=
  if q.full then some (q, -1)
  else do
    let offset := (q.headIdx - q.headNodeStartIdx).toUInt32
    let headNode ← q.nodes.getLast?
    guard (offset.toNat < headNode.length)
    let nodes := q.nodes.dropLast ++ [headNode.set offset.toNat value]
    if offset + 1 = q.nodeCapacity then
      let (node, recycleBin) ← nextNode q.recycleBin q.nodeCapacity
      return ({ q with
        nodes := nodes ++ [node]
        recycleBin
        headNodeStartIdx := q.headIdx + 1
        headIdx := q.headIdx + 1 }, 0)
    else return ({ q with nodes, headIdx := q.headIdx + 1 }, 0)

def clear (q : FifoQueue α) : Option (FifoQueue α) :=
  if q.queueCapacity = 0 then some q
  else do
    let recycleBin ← q.recycleBin.clear
    return { q with
      recycleBin
      headIdx := 0
      tailIdx := 0
      headNodeStartIdx := 0
      tailNodeStartIdx := 0
      nodes := []
      queueCapacity := 0 }

end FifoQueue

-- Sequences of calls

inductive FifoCall (α : Type)
  | init (node_capacity capacity_ : UInt32)
  | push (value : α)
  | pop
  | front
  | size
  | clear
deriving DecidableEq, Repr

inductive FifoAnswer (α : Type)
  | code (ret : Int)
  | value (v : α)
  | size (n : UInt32)
  | done
deriving DecidableEq, Repr

def FifoQueue.call [Inhabited α] (q : FifoQueue α) :
    FifoCall α → Option (FifoQueue α × FifoAnswer α)
  | .init node_capacity capacity_ => some ((q.init node_capacity capacity_).map id .code)
  | .push value => (q.push value).map (Prod.map id .code)
  | .pop => q.pop.map (Prod.map id .code)
  | .front => q.front.map fun v => (q, .value v)
  | .size => some (q, .size q.size)
  | .clear => q.clear.map fun q => (q, .done)

/-- What the queue is for: a list of bounded length. A capacity of 0 is that of a queue
that is not initialised. -/
structure FifoList (α : Type) where
  items : List α
  capacity : Nat
deriving DecidableEq, Repr

namespace FifoList

def call (l : FifoList α) : FifoCall α → FifoList α
  | .init _ capacity_ => if l.capacity = 0 then ⟨[], capacity_.toNat⟩ else l
  | .push value =>
    if l.items.length = l.capacity then l else { l with items := l.items ++ [value] }
  | .pop => { l with items := l.items.tail }
  | .front => l
  | .size => l
  | .clear => ⟨[], 0⟩

/-- What a call is to return; of an empty queue, `front` may return anything. -/
def Answers (l : FifoList α) : FifoCall α → FifoAnswer α → Prop
  | .init _ _, answer => answer = .code (if l.capacity = 0 then 0 else -1)
  | .push _, answer => answer = .code (if l.items.length = l.capacity then -1 else 0)
  | .pop, answer => answer = .code (if l.items = [] then -1 else 0)
  | .front, answer => ∀ v ∈ l.items.head?, answer = .value v
  | .size, answer => ∃ n, answer = .size n ∧ n.toNat = l.items.length
  | .clear, answer => answer = .done

end FifoList

/-- A queue, and the list that it is to behave as. -/
structure FifoRun (α : Type) where
  queue : FifoQueue α
  list : FifoList α
deriving DecidableEq, Repr

namespace FifoRun

def start : FifoRun α := ⟨.create, ⟨[], 0⟩⟩

def step [Inhabited α] (s : FifoRun α) (c : FifoCall α) : Option (FifoRun α) :=
  (s.queue.call c).map fun out => ⟨out.1, s.list.call c⟩

/-- Capacities are not 0, and `front` is not called before `init`. -/
def Allowed (s : FifoRun α) : FifoCall α → Prop
  | .init node_capacity capacity_ => node_capacity ≠ 0 ∧ capacity_ ≠ 0
  | .front => s.list.capacity ≠ 0
  | .push _ => True
  | .pop => True
  | .size => True
  | .clear => True

/-- The next `pop` takes the last element of a node. -/
def LeavesNode (q : FifoQueue α) : Prop :=
  q.empty = false ∧ (q.tailIdx - q.tailNodeStartIdx).toUInt32 + 1 = q.nodeCapacity

/-- A `pop` does not leave a node while the recycle bin has no places. -/
def Recycles (s : FifoRun α) : FifoCall α → Prop
  | .pop => LeavesNode s.queue → s.queue.recycleBin.reusableNodes ≠ []
  | .init _ _ => True
  | .push _ => True
  | .front => True
  | .size => True
  | .clear => True

instance (s : FifoRun α) (c : FifoCall α) : Decidable (s.Allowed c) :=
  match c with
  | .init node_capacity capacity_ => inferInstanceAs (Decidable (node_capacity ≠ 0 ∧ capacity_ ≠ 0))
  | .front => inferInstanceAs (Decidable (s.list.capacity ≠ 0))
  | .push _ => isTrue trivial
  | .pop => isTrue trivial
  | .size => isTrue trivial
  | .clear => isTrue trivial

instance (q : FifoQueue α) : Decidable (LeavesNode q) := inferInstanceAs (Decidable (_ ∧ _))

instance [DecidableEq α] (s : FifoRun α) (c : FifoCall α) : Decidable (s.Recycles c) :=
  match c with
  | .pop =>
    inferInstanceAs (Decidable (LeavesNode s.queue → s.queue.recycleBin.reusableNodes ≠ []))
  | .init _ _ => isTrue trivial
  | .push _ => isTrue trivial
  | .front => isTrue trivial
  | .size => isTrue trivial
  | .clear => isTrue trivial

/-- What a call returns is what the list is to return. -/
def Behaves [Inhabited α] (s : FifoRun α) : Prop :=
  ∀ c out, s.Allowed c → s.queue.call c = some out → s.list.Answers c out.2

end FifoRun

-- Counters

section Counters

variable {a b : UInt64} {n : Nat}

/-- The distance of two counters, as it is kept in 32 bits. -/
theorem distance_toNat (h : a = b + UInt64.ofNat n) (hn : n < 2 ^ 32) :
    (a - b).toUInt32.toNat = n := by
  rw [h, add_sub_cancel_left, UInt64.toNat_toUInt32, UInt64.toNat_ofNat',
    Nat.mod_eq_of_lt (show n < 2 ^ 64 by omega), Nat.mod_eq_of_lt hn]

theorem counter_succ (h : a = b + UInt64.ofNat n) : a + 1 = b + UInt64.ofNat (n + 1) := by
  rw [h, UInt64.ofNat_add, add_assoc]
  rfl

theorem counter_eq_iff (h : a = b + UInt64.ofNat n) (hn : n < 2 ^ 32) : a = b ↔ n = 0 := by
  rw [h, add_eq_left, ← UInt64.toNat_inj, UInt64.toNat_ofNat', Nat.mod_eq_of_lt (by omega)]
  rfl

theorem succ_eq_iff {x c : UInt32} (h : x.toNat < c.toNat) : x + 1 = c ↔ x.toNat + 1 = c.toNat := by
  have hLt := c.toNat_lt
  rw [← UInt32.toNat_inj, UInt32.toNat_add, UInt32.toNat_one, Nat.mod_eq_of_lt (by omega)]

end Counters

-- The recycle bin

namespace RecycleBin

/-- The bin holds these nodes, in the order in which they are taken out. -/
structure Holds (bin : RecycleBin α) (nodes : List (List α)) : Prop where
  binSize : bin.binSize = 3
  tail_lt : bin.cursorTail < 3
  head_eq : bin.cursorHead = (bin.cursorTail + nodes.length) % 3
  length_le : nodes.length ≤ 2
  /-- After `clear` there is no place left. -/
  places : bin.reusableNodes.length = 3 ∨ (bin.reusableNodes = [] ∧ nodes = [])
  stored : ∀ k node, nodes[k]? = some node →
    bin.reusableNodes[(bin.cursorTail + k) % 3]? = some (some node)

variable {bin : RecycleBin α} {node : List α} {nodes : List (List α)}

theorem create_holds : (create 3 : RecycleBin α).Holds [] where
  binSize := rfl
  tail_lt := by simp [create]
  head_eq := rfl
  length_le := by simp
  places := .inl rfl
  stored := by simp

theorem Holds.empty_iff (h : bin.Holds nodes) : bin.empty = true ↔ nodes = [] := by
  have hTail := h.tail_lt
  have hLe := h.length_le
  rw [empty, beq_iff_eq, h.head_eq, ← length_eq_zero_iff]
  omega

theorem Holds.full_iff (h : bin.Holds nodes) : bin.full = true ↔ nodes.length = 2 := by
  have hTail := h.tail_lt
  have hLe := h.length_le
  rw [full, beq_iff_eq, h.head_eq, h.binSize]
  omega

/-- The node that has been longest in the bin is taken. -/
theorem Holds.popFreeNode (h : bin.Holds (node :: nodes)) :
    ∃ bin', bin.popFreeNode = some (node, bin') ∧ bin'.Holds nodes := by
  have hEmpty : bin.empty = false := by simpa using h.empty_iff.not.mpr (by simp)
  have hTail := h.tail_lt
  have hLe := h.length_le
  have hHead := h.head_eq
  have hFirst := h.stored 0 node rfl
  rw [Nat.add_zero, Nat.mod_eq_of_lt hTail] at hFirst
  rw [length_cons] at hLe hHead
  refine ⟨{ bin with cursorTail := (bin.cursorTail + 1) % bin.binSize }, ?_, ?_⟩
  · simp [RecycleBin.popFreeNode, hEmpty, hFirst, guard]
  · refine ⟨h.binSize, ?_, ?_, by omega, ?_, ?_⟩
    · show (bin.cursorTail + 1) % bin.binSize < 3
      rw [h.binSize]
      omega
    · show bin.cursorHead = ((bin.cursorTail + 1) % bin.binSize + nodes.length) % 3
      rw [h.binSize]
      omega
    · rcases h.places with hPlaces | ⟨-, hNil⟩
      · exact .inl hPlaces
      · cases hNil
    · intro k node' hk
      have hNext := h.stored (k + 1) node' hk
      rw [h.binSize, Nat.mod_add_mod, Nat.add_assoc, Nat.add_comm 1 k]
      exact hNext

/-- A node can be put in, unless the bin has no places. -/
theorem Holds.pushFreeNode (h : bin.Holds nodes) (hRoom : nodes.length < 2)
    (hPlaces : bin.reusableNodes ≠ []) (node : List α) :
    ∃ bin', bin.pushFreeNode node = some bin' ∧ bin'.Holds (nodes ++ [node]) ∧
      bin'.reusableNodes.length = 3 := by
  have hFull : bin.full = false := by
    have hIff := h.full_iff.not.mpr (by omega)
    simpa using hIff
  have hLength : bin.reusableNodes.length = 3 := h.places.resolve_right fun hNone => hPlaces hNone.1
  have hTail := h.tail_lt
  have hHead := h.head_eq
  have hLt : bin.cursorHead < bin.reusableNodes.length := by omega
  have hLength' : (bin.reusableNodes.set bin.cursorHead (some node)).length = 3 :=
    length_set.trans hLength
  refine ⟨{ bin with
    reusableNodes := bin.reusableNodes.set bin.cursorHead (some node)
    cursorHead := (bin.cursorHead + 1) % bin.binSize }, ?_, ?_, hLength'⟩
  · simp [RecycleBin.pushFreeNode, hFull, hLt, guard]
  · refine ⟨h.binSize, hTail, ?_, ?_, .inl hLength', ?_⟩
    · show (bin.cursorHead + 1) % bin.binSize = (bin.cursorTail + (nodes ++ [node]).length) % 3
      rw [h.binSize, length_append, length_singleton]
      omega
    · rw [length_append, length_singleton]
      omega
    · intro k node' hk
      show (bin.reusableNodes.set bin.cursorHead (some node))[(bin.cursorTail + k) % 3]? = _
      rcases Nat.lt_or_ge k nodes.length with hOld | hNew
      · rw [getElem?_append_left hOld] at hk
        rw [getElem?_set_ne (by omega)]
        exact h.stored k node' hk
      · rw [getElem?_append_right hNew, getElem?_singleton] at hk
        split at hk
        next hZero =>
          cases hk
          rw [show (bin.cursorTail + k) % 3 = bin.cursorHead by omega, getElem?_set_self hLt]
        next => cases hk

/-- There is no place for a node. -/
theorem pushFreeNode_cleared (h : bin.reusableNodes = []) (node : List α) :
    bin.pushFreeNode node = none := by
  simp [RecycleBin.pushFreeNode, h, guard]

/-- Clearing takes one node after the other until none is left. -/
theorem Holds.clearNodes (h : bin.Holds nodes) (turns : Nat) (hTurns : nodes.length < turns) :
    ∃ bin', bin.clearNodes turns = some bin' ∧ bin'.Holds [] := by
  induction turns generalizing bin nodes with
  | zero => omega
  | succ turns ih =>
    cases nodes with
    | nil => exact ⟨bin, if_pos (h.empty_iff.mpr rfl), h⟩
    | cons node nodes =>
      obtain ⟨bin₁, hPop, hRest⟩ := h.popFreeNode
      rw [length_cons] at hTurns
      obtain ⟨bin₂, hClear, hNone⟩ := ih hRest (by omega)
      have hEmpty := h.empty_iff.not.mpr (cons_ne_nil node nodes)
      refine ⟨bin₂, ?_, hNone⟩
      rw [RecycleBin.clearNodes, if_neg hEmpty, hPop]
      exact hClear

theorem Holds.clear (h : bin.Holds nodes) :
    ∃ bin', bin.clear = some bin' ∧ bin'.Holds [] ∧ bin'.reusableNodes = [] := by
  have hLe := h.length_le
  obtain ⟨bin₁, hClear, hNone⟩ := h.clearNodes bin.binSize (by rw [h.binSize]; omega)
  refine ⟨{ bin₁ with reusableNodes := [] }, ?_, ?_, rfl⟩
  · rw [RecycleBin.clear, hClear]
    rfl
  · exact ⟨hNone.binSize, hNone.tail_lt, hNone.head_eq, by simp, .inr ⟨rfl, rfl⟩, by simp⟩

end RecycleBin

-- The chain

namespace FifoQueue

/-- The chain holds these elements: they begin at `tailIdx` in its first node and end
before `headIdx` in its last. -/
structure Chain (q : FifoQueue α) (items : List α) (front : List (List α)) (last : List α)
    (t h : Nat) : Prop where
  nodes_eq : q.nodes = front ++ [last]
  front_length : ∀ node ∈ front, node.length = q.nodeCapacity.toNat
  last_length : last.length = q.nodeCapacity.toNat
  t_lt : t < q.nodeCapacity.toNat
  h_lt : h < q.nodeCapacity.toNat
  tail_eq : q.tailIdx = q.tailNodeStartIdx + UInt64.ofNat t
  head_eq : q.headIdx = q.headNodeStartIdx + UInt64.ofNat h
  size_eq : q.headIdx = q.tailIdx + UInt64.ofNat items.length
  t_le : t ≤ (front.flatten ++ last.take h).length
  items_eq : items = (front.flatten ++ last.take h).drop t

/-- The queue stands for the list. -/
structure Represents (q : FifoQueue α) (l : FifoList α) : Prop where
  bin : ∃ nodes, q.recycleBin.Holds nodes ∧ (∀ node ∈ nodes, node.length = q.nodeCapacity.toNat) ∧
    (l.capacity = 0 → nodes = [])
  capacity_eq : q.queueCapacity.toNat = l.capacity
  length_le : l.items.length ≤ l.capacity
  idle : l.capacity = 0 → q.nodes = [] ∧ q.headIdx = 0 ∧ q.tailIdx = 0 ∧
    q.headNodeStartIdx = 0 ∧ q.tailNodeStartIdx = 0
  chain : l.capacity ≠ 0 → ∃ front last t h, q.Chain l.items front last t h

variable {q : FifoQueue α} {l : FifoList α} {items : List α} {front : List (List α)} {last : List α}
  {t h : Nat}

theorem create_represents : (create : FifoQueue α).Represents ⟨[], 0⟩ where
  bin := ⟨[], RecycleBin.create_holds, by simp, fun _ => rfl⟩
  capacity_eq := rfl
  length_le := le_rfl
  idle := fun _ => ⟨rfl, rfl, rfl, rfl, rfl⟩
  chain := fun hNe => absurd rfl hNe

section Represents

variable (hq : q.Represents l)
include hq

theorem Represents.head_eq : q.headIdx = q.tailIdx + UInt64.ofNat l.items.length := by
  by_cases hIdle : l.capacity = 0
  · obtain ⟨-, hHead, hTail, -, -⟩ := hq.idle hIdle
    have hLe := hq.length_le
    rw [hHead, hTail, show l.items.length = 0 by omega]
    rfl
  · obtain ⟨front, last, t, h, hChain⟩ := hq.chain hIdle
    exact hChain.size_eq

theorem Represents.length_lt : l.items.length < 2 ^ 32 := by
  have hLe := hq.length_le
  have hLt := q.queueCapacity.toNat_lt
  rw [hq.capacity_eq] at hLt
  omega

theorem Represents.size_toNat : q.size.toNat = l.items.length :=
  distance_toNat hq.head_eq hq.length_lt

theorem Represents.full_iff : q.full = true ↔ l.items.length = l.capacity := by
  rw [full, beq_iff_eq, ← UInt32.toNat_inj, hq.size_toNat, hq.capacity_eq]

theorem Represents.empty_iff : q.empty = true ↔ l.items = [] := by
  rw [empty, beq_iff_eq, counter_eq_iff hq.head_eq hq.length_lt, length_eq_zero_iff]

end Represents

theorem take_set_succ {l : List α} {i : Nat} (hi : i < l.length) (v : α) :
    (l.set i v).take (i + 1) = l.take i ++ [v] := by
  rw [take_add_one, take_set_of_le (le_refl i), getElem?_set_self hi]
  rfl

section Push

variable (hc : q.Chain items front last t h)
include hc

theorem Chain.head_toNat : (q.headIdx - q.headNodeStartIdx).toUInt32.toNat = h :=
  distance_toNat hc.head_eq (hc.h_lt.trans q.nodeCapacity.toNat_lt)

theorem Chain.tail_toNat : (q.tailIdx - q.tailNodeStartIdx).toUInt32.toNat = t :=
  distance_toNat hc.tail_eq (hc.t_lt.trans q.nodeCapacity.toNat_lt)

theorem Chain.push_items (v : α) :
    items ++ [v] = (front.flatten ++ (last.set h v).take (h + 1)).drop t ∧
      t ≤ (front.flatten ++ (last.set h v).take (h + 1)).length := by
  have hLt : h < last.length := hc.h_lt.trans_eq hc.last_length.symm
  rw [take_set_succ hLt, ← append_assoc, drop_append_of_le_length hc.t_le,
    ← hc.items_eq, length_append]
  exact ⟨rfl, Nat.le_add_right_of_le hc.t_le⟩

theorem Chain.push_size (v : α) :
    q.headIdx + 1 = q.tailIdx + UInt64.ofNat (items ++ [v]).length := by
  rw [length_append, length_singleton]
  exact counter_succ hc.size_eq

/-- An item is stored in the node that the end is in. -/
theorem Chain.push_within (hIn : h + 1 < q.nodeCapacity.toNat) (v : α) :
    Chain { q with nodes := front ++ [last.set h v], headIdx := q.headIdx + 1 } (items ++ [v])
      front (last.set h v) t (h + 1) where
  nodes_eq := rfl
  front_length := hc.front_length
  last_length := length_set.trans hc.last_length
  t_lt := hc.t_lt
  h_lt := hIn
  tail_eq := hc.tail_eq
  head_eq := counter_succ hc.head_eq
  size_eq := hc.push_size v
  t_le := (hc.push_items v).2
  items_eq := (hc.push_items v).1

/-- The node is full, and another is put behind it. -/
theorem Chain.push_across (hEnd : h + 1 = q.nodeCapacity.toNat) (v : α) {node : List α}
    (hNode : node.length = q.nodeCapacity.toNat) (bin : RecycleBin α) :
    Chain { q with
        nodes := front ++ [last.set h v] ++ [node]
        recycleBin := bin
        headNodeStartIdx := q.headIdx + 1
        headIdx := q.headIdx + 1 } (items ++ [v]) (front ++ [last.set h v]) node t 0 := by
  have hLength : (last.set h v).length = q.nodeCapacity.toNat :=
    length_set.trans hc.last_length
  obtain ⟨hItems, hLe⟩ := hc.push_items v
  rw [hEnd, take_of_length_le hLength.le] at hItems hLe
  have hFlatten : (front ++ [last.set h v]).flatten ++ node.take 0 =
      front.flatten ++ last.set h v := by
    simp
  refine ⟨rfl, ?_, hNode, hc.t_lt, ?_, hc.tail_eq, ?_, hc.push_size v, ?_, ?_⟩
  · intro node' hMem
    rcases mem_append.mp hMem with hOld | hNew
    · exact hc.front_length node' hOld
    · rw [mem_singleton.mp hNew]
      exact hLength
  · exact (Nat.zero_le t).trans_lt hc.t_lt
  · exact (add_zero _).symm
  · rw [hFlatten]
    exact hLe
  · rw [hFlatten]
    exact hItems

end Push

/-- The next node comes from the bin, if there is one. -/
theorem nextNode_spec [Inhabited α] {bin : RecycleBin α} {nodes : List (List α)} {size : UInt32}
    (hBin : bin.Holds nodes) (hNodes : ∀ node ∈ nodes, node.length = size.toNat) :
    ∃ node bin' nodes', nextNode bin size = some (node, bin') ∧ node.length = size.toNat ∧
      bin'.Holds nodes' ∧ ∀ n ∈ nodes', n.length = size.toNat := by
  cases nodes with
  | nil =>
    exact ⟨_, _, [], if_pos (hBin.empty_iff.mpr rfl), length_replicate .., hBin, hNodes⟩
  | cons node nodes =>
    obtain ⟨bin', hPop, hRest⟩ := hBin.popFreeNode
    refine ⟨node, bin', nodes, ?_, hNodes node mem_cons_self, hRest,
      fun n hn => hNodes n (mem_cons_of_mem _ hn)⟩
    rw [nextNode, if_neg (hBin.empty_iff.not.mpr (cons_ne_nil node nodes)), hPop]

/-- Below the capacity an item is added. -/
theorem Represents.push_room [Inhabited α] (hq : q.Represents l)
    (hRoom : l.items.length < l.capacity) (v : α) :
    ∃ q', q.push v = some (q', 0) ∧ q'.Represents { l with items := l.items ++ [v] } := by
  have hCap : l.capacity ≠ 0 := by omega
  obtain ⟨front, last, t, h, hc⟩ := hq.chain hCap
  obtain ⟨nodes, hBin, hNodes, -⟩ := hq.bin
  have hHead := hc.head_toNat
  have hEndIff := succ_eq_iff (hHead.trans_lt hc.h_lt)
  rw [hHead] at hEndIff
  have hLast : q.nodes.getLast? = some last := by rw [hc.nodes_eq, getLast?_concat]
  have hFront : q.nodes.dropLast = front := by rw [hc.nodes_eq, dropLast_concat]
  have hLt : h < last.length := hc.h_lt.trans_eq hc.last_length.symm
  have hLe : (l.items ++ [v]).length ≤ l.capacity := by
    rw [length_append, length_singleton]
    omega
  by_cases hEnd : h + 1 = q.nodeCapacity.toNat
  · obtain ⟨node, bin', nodes', hNext, hNode, hBin', hNodes'⟩ := nextNode_spec hBin hNodes
    refine ⟨{ q with
        nodes := front ++ [last.set h v] ++ [node]
        recycleBin := bin'
        headNodeStartIdx := q.headIdx + 1
        headIdx := q.headIdx + 1 }, ?_,
      ⟨nodes', hBin', hNodes', fun hZero => absurd hZero hCap⟩, hq.capacity_eq, hLe,
      fun hZero => absurd hZero hCap, fun _ => ⟨_, _, _, _, hc.push_across hEnd v hNode bin'⟩⟩
    rw [FifoQueue.push, if_neg (hq.full_iff.not.mpr hRoom.ne)]
    simp only [hLast, hFront, hHead, guard, if_pos hLt, if_pos (hEndIff.mpr hEnd), hNext,
      Option.bind_eq_bind, Option.bind_some, Option.pure_def]
  · refine ⟨{ q with nodes := front ++ [last.set h v], headIdx := q.headIdx + 1 }, ?_,
      ⟨nodes, hBin, hNodes, fun hZero => absurd hZero hCap⟩, hq.capacity_eq, hLe,
      fun hZero => absurd hZero hCap,
      fun _ => ⟨_, _, _, _, hc.push_within (Nat.lt_of_le_of_ne hc.h_lt hEnd) v⟩⟩
    rw [FifoQueue.push, if_neg (hq.full_iff.not.mpr hRoom.ne)]
    simp only [hLast, hFront, hHead, guard, if_pos hLt, if_neg (hEndIff.not.mpr hEnd),
      Option.bind_eq_bind, Option.bind_some, Option.pure_def]

/-- **`push`** refuses exactly if the list is full. -/
theorem Represents.push [Inhabited α] (hq : q.Represents l) (v : α) :
    ∃ q', q.push v = some (q', if l.items.length = l.capacity then -1 else 0) ∧
      q'.Represents (l.call (.push v)) := by
  rw [FifoList.call]
  by_cases hFull : l.items.length = l.capacity
  · rw [if_pos hFull, if_pos hFull]
    exact ⟨q, if_pos (hq.full_iff.mpr hFull), hq⟩
  · rw [if_neg hFull, if_neg hFull]
    exact hq.push_room (Nat.lt_of_le_of_ne hq.length_le hFull) v

-- The other calls

section Pop

variable (hc : q.Chain items front last t h)
include hc

theorem Chain.node_length : ∀ node ∈ q.nodes, node.length = q.nodeCapacity.toNat := by
  intro node hNode
  rw [hc.nodes_eq] at hNode
  rcases mem_append.mp hNode with hFront | hLast
  · exact hc.front_length node hFront
  · rw [mem_singleton.mp hLast]
    exact hc.last_length

theorem Chain.lt_of_ne_nil (hNe : items ≠ []) : t < (front.flatten ++ last.take h).length := by
  by_contra hGe
  rw [hc.items_eq, drop_eq_nil_of_le (by omega)] at hNe
  exact hNe rfl

/-- `front` reads the first item, and some other value when there is none. -/
theorem Chain.front_eq : ∃ v, q.front = some v ∧ ∀ x ∈ items.head?, v = x := by
  obtain ⟨node, rest, hNodes⟩ : ∃ node rest, q.nodes = node :: rest := by
    rw [hc.nodes_eq]
    cases front with
    | nil => exact ⟨last, [], rfl⟩
    | cons node front => exact ⟨node, front ++ [last], rfl⟩
  have hLength := hc.node_length node (by rw [hNodes]; exact mem_cons_self)
  have hLt : t < node.length := hc.t_lt.trans_eq hLength.symm
  refine ⟨node.get ⟨t, hLt⟩, ?_, ?_⟩
  · rw [FifoQueue.front, hNodes, hc.tail_toNat]
    exact getElem?_eq_getElem hLt
  · intro x hx
    -- the elements are part of what the nodes hold
    have hGet : (front.flatten ++ last.take h)[t]? = some x := by
      rw [hc.items_eq, head?_drop] at hx
      exact hx
    have hAll : q.nodes.flatten[t]? = some x := by
      rw [hc.nodes_eq, flatten_append, flatten_singleton,
        ← take_append_drop h last, ← append_assoc]
      exact getElem?_append_left (List.getElem?_eq_some_iff.mp hGet).1 |>.trans hGet
    rw [hNodes, flatten_cons, getElem?_append_left hLt,
      getElem?_eq_getElem hLt] at hAll
    exact Option.some.inj hAll

theorem Chain.pop_size (hNe : items ≠ []) :
    q.headIdx = q.tailIdx + 1 + UInt64.ofNat items.tail.length := by
  obtain ⟨x, xs, rfl⟩ := exists_cons_of_ne_nil hNe
  rw [hc.size_eq, length_cons, UInt64.ofNat_add, add_assoc, add_comm (UInt64.ofNat _)]
  rfl

theorem Chain.pop_within (hNe : items ≠ []) (hIn : t + 1 < q.nodeCapacity.toNat) :
    Chain { q with tailIdx := q.tailIdx + 1 } items.tail front last (t + 1) h where
  nodes_eq := hc.nodes_eq
  front_length := hc.front_length
  last_length := hc.last_length
  t_lt := hIn
  h_lt := hc.h_lt
  tail_eq := counter_succ hc.tail_eq
  head_eq := hc.head_eq
  size_eq := hc.pop_size hNe
  t_le := hc.lt_of_ne_nil hNe
  items_eq := by rw [hc.items_eq, tail_drop]

/-- The node is left. It is not the last one, which is not full. -/
theorem Chain.pop_across (hNe : items ≠ []) (hEnd : t + 1 = q.nodeCapacity.toNat)
    (bin : RecycleBin α) :
    ∃ node front', front = node :: front' ∧ node.length = q.nodeCapacity.toNat ∧
      Chain { q with
        tailNodeStartIdx := q.tailIdx + 1
        nodes := front' ++ [last]
        recycleBin := bin
        tailIdx := q.tailIdx + 1 } items.tail front' last 0 h := by
  have hLt := hc.lt_of_ne_nil hNe
  have hh := hc.h_lt
  cases front with
  | nil =>
    rw [flatten_nil, nil_append, length_take] at hLt
    omega
  | cons node front' =>
    have hNode := hc.front_length node mem_cons_self
    refine ⟨node, front', rfl, hNode, rfl, ?_, hc.last_length, ?_, hh, ?_, hc.head_eq,
      hc.pop_size hNe, Nat.zero_le _, ?_⟩
    · exact fun n hn => hc.front_length n (mem_cons_of_mem _ hn)
    · exact (Nat.zero_le t).trans_lt hc.t_lt
    · exact (add_zero _).symm
    · rw [hc.items_eq, tail_drop, drop_zero, flatten_cons, append_assoc,
        hEnd, ← hNode, drop_left]

end Pop

section Recycle

variable {bin : RecycleBin α} {nodes : List (List α)} {thisnod : List α} {size : Nat}

/-- A node is put into the bin or freed. -/
theorem recycle_spec (hBin : bin.Holds nodes) (hNodes : ∀ node ∈ nodes, node.length = size)
    (hPlaces : bin.reusableNodes ≠ []) (hNode : thisnod.length = size) :
    ∃ bin' nodes', recycle bin thisnod = some bin' ∧ bin'.Holds nodes' ∧
      ∀ node ∈ nodes', node.length = size := by
  by_cases hFull : nodes.length = 2
  · exact ⟨bin, nodes, if_pos (hBin.full_iff.mpr hFull), hBin, hNodes⟩
  · have hLe := hBin.length_le
    obtain ⟨bin', hPush, hBin', -⟩ := hBin.pushFreeNode (by omega) hPlaces thisnod
    refine ⟨bin', nodes ++ [thisnod], ?_, hBin', ?_⟩
    · rw [recycle, if_neg (hBin.full_iff.not.mpr hFull), hPush]
    · intro node hMem
      rcases mem_append.mp hMem with hOld | hNew
      · exact hNodes node hOld
      · rw [mem_singleton.mp hNew]
        exact hNode

/-- A bin without places is not full either. -/
theorem recycle_cleared (hBin : bin.Holds nodes) (hCleared : bin.reusableNodes = []) :
    recycle bin thisnod = none := by
  have hNodes : nodes = [] := by
    rcases hBin.places with hPlaces | ⟨-, hNone⟩
    · rw [hCleared] at hPlaces
      cases hPlaces
    · exact hNone
  have hFull : ¬ bin.full = true := by
    rw [hBin.full_iff, hNodes]
    simp
  rw [recycle, if_neg hFull, RecycleBin.pushFreeNode_cleared hCleared]

end Recycle

theorem pop_eq_of_end (hEmpty : q.empty = false)
    (hEnd : (q.tailIdx - q.tailNodeStartIdx).toUInt32 + 1 = q.nodeCapacity) {node : List α}
    {rest : List (List α)} (hNodes : q.nodes = node :: rest) (hRest : rest ≠ []) :
    q.pop = (recycle q.recycleBin node).map fun bin => ({ q with
      tailNodeStartIdx := q.tailIdx + 1
      nodes := rest
      recycleBin := bin
      tailIdx := q.tailIdx + 1 }, 0) := by
  obtain ⟨next, rest, rfl⟩ := exists_cons_of_ne_nil hRest
  rw [FifoQueue.pop, if_neg (by simp [hEmpty])]
  simp only [if_pos hEnd, hNodes]
  cases recycle q.recycleBin node <;> rfl

/-- **`pop`** refuses exactly if the list is empty, and does not return exactly if it
leaves a node that the bin has no place for. -/
theorem Represents.pop (hq : q.Represents l) :
    ((FifoRun.LeavesNode q → q.recycleBin.reusableNodes ≠ []) →
      ∃ q', q.pop = some (q', if l.items = [] then -1 else 0) ∧ q'.Represents (l.call .pop)) ∧
    (FifoRun.LeavesNode q → q.recycleBin.reusableNodes = [] → q.pop = none) := by
  rw [FifoList.call]
  by_cases hEmpty : l.items = []
  · have hIs := hq.empty_iff.mpr hEmpty
    refine ⟨fun _ => ⟨q, ?_, ?_⟩, fun hLeaves => ?_⟩
    · rw [FifoQueue.pop, if_pos hIs, if_pos hEmpty]
    · rw [show { l with items := l.items.tail } = l by rw [hEmpty, tail_nil, ← hEmpty]]
      exact hq
    · cases hIs.symm.trans hLeaves.1
  · have hNot := hq.empty_iff.not.mpr hEmpty
    have hLe := hq.length_le
    have hPos := length_pos_iff.mpr hEmpty
    have hCap : l.capacity ≠ 0 := by omega
    have hLe' : l.items.tail.length ≤ l.capacity := by
      rw [length_tail]
      omega
    obtain ⟨front, last, t, h, hc⟩ := hq.chain hCap
    obtain ⟨nodes, hBin, hNodes, -⟩ := hq.bin
    have hEndIff := succ_eq_iff (hc.tail_toNat.trans_lt hc.t_lt)
    rw [hc.tail_toNat] at hEndIff
    rw [if_neg hEmpty]
    -- the last item of its node: the node goes to the bin
    by_cases hEnd : t + 1 = q.nodeCapacity.toNat
    · obtain ⟨node, front', rfl, hNode, -⟩ := hc.pop_across hEmpty hEnd q.recycleBin
      have hFalse : q.empty = false := by simpa using hNot
      have hPop := pop_eq_of_end hFalse (hEndIff.mpr hEnd)
        (show q.nodes = node :: (front' ++ [last]) from hc.nodes_eq) (by simp)
      rw [hPop]
      refine ⟨fun hRecycles => ?_, fun _ hCleared => by rw [recycle_cleared hBin hCleared]; rfl⟩
      obtain ⟨bin', nodes', hRecycle, hBin', hNodes'⟩ :=
        recycle_spec hBin hNodes (hRecycles ⟨hFalse, hEndIff.mpr hEnd⟩) hNode
      obtain ⟨_, _, hEq, -, hChain⟩ := hc.pop_across hEmpty hEnd bin'
      cases hEq
      rw [hRecycle]
      exact ⟨_, rfl, ⟨nodes', hBin', hNodes', fun hZero => absurd hZero hCap⟩, hq.capacity_eq, hLe',
        fun hZero => absurd hZero hCap, fun _ => ⟨_, _, _, _, hChain⟩⟩
    · refine ⟨fun _ => ⟨{ q with tailIdx := q.tailIdx + 1 }, ?_,
        ⟨nodes, hBin, hNodes, fun hZero => absurd hZero hCap⟩, hq.capacity_eq, hLe',
        fun hZero => absurd hZero hCap,
        fun _ => ⟨_, _, _, _, hc.pop_within hEmpty (Nat.lt_of_le_of_ne hc.t_lt hEnd)⟩⟩, ?_⟩
      · rw [FifoQueue.pop, if_neg hNot]
        exact if_neg (hEndIff.not.mpr hEnd)
      · exact fun hLeaves => absurd (hEndIff.mp hLeaves.2) hEnd

theorem Represents.front_spec (hq : q.Represents l) (hCap : l.capacity ≠ 0) :
    ∃ v, q.front = some v ∧ ∀ x ∈ l.items.head?, v = x := by
  obtain ⟨front, last, t, h, hc⟩ := hq.chain hCap
  exact hc.front_eq

/-- **`init`** makes an empty queue, unless there is one already. -/
theorem Represents.init [Inhabited α] (hq : q.Represents l) {node_capacity capacity_ : UInt32}
    (hNode : node_capacity ≠ 0) (hCapacity : capacity_ ≠ 0) :
    ∃ q', q.init node_capacity capacity_ = (q', if l.capacity = 0 then 0 else -1) ∧
      q'.Represents (l.call (.init node_capacity capacity_)) := by
  rw [FifoList.call, FifoQueue.init, if_neg hCapacity]
  by_cases hIdle : l.capacity = 0
  · obtain ⟨hNodes, hHead, hTail, hHeadStart, hTailStart⟩ := hq.idle hIdle
    obtain ⟨nodes, hBin, -, hNone⟩ := hq.bin
    rw [hNone hIdle] at hBin
    have hPos : ∀ x : UInt32, x ≠ 0 → 0 < x.toNat := fun x hx =>
      Nat.pos_of_ne_zero fun hZero => hx (UInt32.toNat_inj.mp hZero)
    rw [if_neg (not_not.mpr hNodes), if_pos hIdle, if_pos hIdle]
    refine ⟨_, rfl, ⟨[], hBin, by simp, fun _ => rfl⟩, rfl, Nat.zero_le _, ?_, fun _ => ?_⟩
    · exact fun hZero => absurd hZero (hPos _ hCapacity).ne'
    · -- the chain is one new node, whichever capacity it has got
      have hCap : 0 < (if q.nodeCapacity > capacity_ then capacity_ else node_capacity).toNat := by
        split
        · exact hPos _ hCapacity
        · exact hPos _ hNode
      refine ⟨[], _, 0, 0, rfl, by simp, length_replicate .., hCap, hCap, ?_, ?_, ?_, by simp,
        by simp⟩
      · simp [hTail, hTailStart]
      · simp [hHead, hHeadStart]
      · simp [hHead, hTail]
  · obtain ⟨front, last, t, h, hc⟩ := hq.chain hIdle
    rw [if_pos (by rw [hc.nodes_eq]; simp), if_neg hIdle, if_neg hIdle]
    exact ⟨q, rfl, hq⟩

/-- Clearing gives all nodes to the bin. -/
theorem Represents.clear (hq : q.Represents l) :
    ∃ q', q.clear = some q' ∧ q'.Represents (l.call .clear) := by
  rw [FifoList.call]
  obtain ⟨nodes, hBin, hNodes, -⟩ := hq.bin
  by_cases hZero : q.queueCapacity = 0
  · have hIdle : l.capacity = 0 := by
      rw [← hq.capacity_eq, hZero]
      rfl
    have hLe := hq.length_le
    refine ⟨q, if_pos hZero, ?_⟩
    rw [show (⟨[], 0⟩ : FifoList α) = l by
      rw [← hIdle, ← length_eq_zero_iff.mp (show l.items.length = 0 by omega)]]
    exact hq
  · obtain ⟨bin', hClear, hBin', -⟩ := hBin.clear
    refine ⟨{ q with
      recycleBin := bin'
      headIdx := 0
      tailIdx := 0
      headNodeStartIdx := 0
      tailNodeStartIdx := 0
      nodes := []
      queueCapacity := 0 }, ?_, ?_⟩
    · rw [FifoQueue.clear, if_neg hZero, hClear]
      rfl
    · exact ⟨⟨[], hBin', by simp, fun _ => rfl⟩, rfl, le_rfl, fun _ => ⟨rfl, rfl, rfl, rfl, rfl⟩,
        fun hNe => absurd rfl hNe⟩

end FifoQueue

namespace FifoRun

variable [Inhabited α] {s : FifoRun α}

/-- A call does what it does to the list, or a `pop` leaves a node and the bin has no places. -/
theorem call_spec (h : s.queue.Represents s.list) {c : FifoCall α} (hAllowed : s.Allowed c) :
    (s.Recycles c → ∃ out, s.queue.call c = some out ∧ out.1.Represents (s.list.call c) ∧
      s.list.Answers c out.2) ∧ (¬ s.Recycles c → s.queue.call c = none) := by
  cases c with
  | init node_capacity capacity_ =>
    obtain ⟨q', hInit, hRep⟩ := h.init hAllowed.1 hAllowed.2
    refine ⟨fun _ => ⟨_, rfl, ?_, ?_⟩, fun hNot => absurd trivial hNot⟩
    · rw [hInit]
      exact hRep
    · rw [hInit]
      rfl
  | push value =>
    obtain ⟨q', hPush, hRep⟩ := h.push value
    refine ⟨fun _ => ⟨(q', _), ?_, hRep, rfl⟩, fun hNot => absurd trivial hNot⟩
    rw [FifoQueue.call, hPush]
    rfl
  | pop =>
    obtain ⟨hPops, hFails⟩ := h.pop
    constructor
    · intro hRecycles
      obtain ⟨q', hPop, hRep⟩ := hPops hRecycles
      refine ⟨(q', _), ?_, hRep, rfl⟩
      rw [FifoQueue.call, hPop]
      rfl
    · intro hNot
      obtain ⟨hLeaves, hCleared⟩ := Classical.not_imp.mp hNot
      rw [FifoQueue.call, hFails hLeaves (not_not.mp hCleared)]
      rfl
  | front =>
    obtain ⟨v, hFront, hOldest⟩ := h.front_spec hAllowed
    refine ⟨fun _ => ⟨(s.queue, .value v), ?_, h, ?_⟩, fun hNot => absurd trivial hNot⟩
    · rw [FifoQueue.call, hFront]
      rfl
    · intro x hx
      rw [hOldest x hx]
  | size => exact ⟨fun _ => ⟨_, rfl, h, _, rfl, h.size_toNat⟩, fun hNot => absurd trivial hNot⟩
  | clear =>
    obtain ⟨q', hClear, hRep⟩ := h.clear
    refine ⟨fun _ => ⟨(q', .done), ?_, hRep, rfl⟩, fun hNot => absurd trivial hNot⟩
    rw [FifoQueue.call, hClear]
    rfl

/-- **Step lemma.** -/
theorem represents_step (h : s.queue.Represents s.list) {c : FifoCall α} (hAllowed : s.Allowed c) :
    (s.Recycles c → ∃ s', s.step c = some s' ∧ s'.queue.Represents s'.list) ∧
      (¬ s.Recycles c → s.step c = none) := by
  obtain ⟨hReturns, hFails⟩ := call_spec h hAllowed
  constructor
  · intro hRecycles
    obtain ⟨out, hCall, hRep, -⟩ := hReturns hRecycles
    refine ⟨⟨out.1, s.list.call c⟩, ?_, hRep⟩
    rw [step, hCall]
    rfl
  · intro hNot
    rw [step, hFails hNot]
    rfl

theorem behaves_of_represents (h : s.queue.Represents s.list) : s.Behaves := by
  intro c out hAllowed hCall
  obtain ⟨hReturns, hFails⟩ := call_spec h hAllowed
  by_cases hRecycles : s.Recycles c
  · obtain ⟨out', hCall', -, hAnswers⟩ := hReturns hRecycles
    cases hCall.symm.trans hCall'
    exact hAnswers
  · cases hCall.symm.trans (hFails hRecycles)

/-- For all capacities and every sequence of calls, the whole sequence is performed without
an access outside of an array, and the queue behaves in every state on the way as a list
of bounded length, if and only if no `pop` leaves a node after a `clear`, when the recycle
bin has no places any more. -/
theorem fifo_iff {calls : List (FifoCall α)} (hAllowed : Along step Allowed start calls) :
    ((∃ s, run step start calls = some s) ∧
      ∀ before s, before <+: calls → run step start before = some s → s.Behaves) ↔
        Along step Recycles (start : FifoRun α) calls := by
  have hInit : (start : FifoRun α).queue.Represents start.list := FifoQueue.create_represents
  rw [← run_total_iff (fun _ _ hc hInv => represents_step hInv hc) hInit hAllowed]
  have hKept : ∀ (s : FifoRun α) (c : FifoCall α) (s' : FifoRun α), s.Allowed c →
      s.queue.Represents s.list → s.step c = some s' → s'.queue.Represents s'.list := by
    intro s c s' hc hInv hStep
    obtain ⟨hReturns, hFails⟩ := represents_step hInv hc
    by_cases hRecycles : s.Recycles c
    · obtain ⟨s₁, hStep₁, hRep⟩ := hReturns hRecycles
      cases hStep.symm.trans hStep₁
      exact hRep
    · cases hStep.symm.trans (hFails hRecycles)
  refine and_iff_left fun before s hBefore hRun => behaves_of_represents ?_
  obtain ⟨after, rfl⟩ := hBefore
  exact run_invariant hKept hInit (along_append hAllowed hRun).1 hRun

/-- Nodes of one element, a queue of two: two nodes are recycled, and the queue is cleared
and used again. -/
theorem fifo_iff_reused :
    (∃ s : FifoRun Nat, run step start
        [.init 1 2, .push 7, .push 8, .push 9, .pop, .pop, .push 5, .front, .clear, .init 4 4,
          .push 6, .pop] = some s) ∧
      ∀ before (s : FifoRun Nat), before <+: [.init 1 2, .push 7, .push 8, .push 9, .pop, .pop,
          .push 5, .front, .clear, .init 4 4, .push 6, .pop] →
        run step start before = some s → s.Behaves :=
  (fifo_iff (by decide)).mpr (by decide)

/-- After a `clear`, the first node that is left is written to an array without places. -/
theorem pop_after_clear :
    Along step Allowed (start : FifoRun Nat) [.init 1 2, .clear, .init 1 2, .push 7, .pop] ∧
      ∃ s : FifoRun Nat, run step start [.init 1 2, .clear, .init 1 2, .push 7] = some s ∧
        s.queue.recycleBin.reusableNodes = [] ∧ s.queue.pop = none :=
  ⟨by decide, _, rfl, rfl, rfl⟩

end FifoRun

end MyBase
