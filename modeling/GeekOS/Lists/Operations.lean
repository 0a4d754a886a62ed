import GeekOS.Library.Segment
import GeekOS.Library.Result

/-!
# The intrusive lists

The functions that `IMPLEMENT_LIST` generates, store by store. Any number of lists share a pool of
nodes: `list` holds the head and the tail of each list, `link` the two links inside of each node. To
follow a null pointer is a fault, and so is an assertion that fails.

`Op` are the operations that change something, and `Op.apply` is what they do to the sequences of
nodes on the lists.
-/

namespace GeekOS.Lists

open LinkedList Result

/-- How the functions can fail. -/
inductive Fault
  /-- A null pointer is followed. -/
  | nullPointer
  /-- `list->head != 0`. -/
  | emptyList
  deriving DecidableEq, Repr

/-- The lists `L` and the nodes `N`. -/
structure Pool (L N : Type) where
  list : L → Head N
  link : N → Link N

variable {L N : Type} [DecidableEq L] [DecidableEq N]

/-- Follow a pointer. -/
def deref : Option N → Except Fault N
  | some n => .ok n
  | none => .error .nullPointer

namespace Pool

variable (s : Pool L N)

/-! ## Stores -/

/-- Store into `list->head`. -/
def setHead (l : L) (p : Option N) : Pool L N :=
  { s with list := Function.update s.list l { s.list l with first := p } }

/-- Store into `list->tail`. -/
def setTail (l : L) (p : Option N) : Pool L N :=
  { s with list := Function.update s.list l { s.list l with last := p } }

/-- Store into the `next` link of a node. -/
def setNext (n : N) (p : Option N) : Pool L N := { s with link := LinkedList.setNext s.link n p }

/-- Store into its `prev` link. -/
def setPrev (n : N) (p : Option N) : Pool L N := { s with link := LinkedList.setPrev s.link n p }

/-! ## Functions -/

/-- `IMPLEMENT_LIST_IS_EMPTY`. -/
def isEmpty (l : L) : Bool := (s.list l).first = none

/-- `IMPLEMENT_LIST_GET_FIRST`. -/
def getFirst (l : L) : Option N := (s.list l).first

/-- `IMPLEMENT_LIST_GET_LAST`. -/
def getLast (l : L) : Option N := (s.list l).last

/-- `IMPLEMENT_LIST_NEXT`. -/
def next (node : N) : Option N := (s.link node).next

/-- `IMPLEMENT_LIST_PREV`. -/
def prev (node : N) : Option N := (s.link node).prev

/-- `IMPLEMENT_LIST_CLEAR`. -/
def clear (l : L) : Pool L N := (s.setTail l none).setHead l none

/-- `IMPLEMENT_LIST_APPEND`. -/
def append (l : L) (node : N) : Except Fault (Pool L N) := do
  let s := (s.setPrev node none).setNext node none
  if (s.list l).first = none then
    pure ((s.setTail l (some node)).setHead l (some node))
  else
    let s := s.setPrev node (s.list l).last
    let tail ← deref (s.list l).last
    let s := s.setNext tail (some node)
    pure (s.setTail l (some node))

/-- `IMPLEMENT_LIST_APPEND_ALL`. -/
def appendAll (l toAppend : L) : Except Fault (Pool L N) := do
  if (s.list toAppend).first = none then
    pure s
  else if (s.list l).first = none then
    -- the nodes stay linked as they are
    let s := s.setHead l (s.list toAppend).first
    let s := s.setTail l (s.list toAppend).last
    pure (s.clear toAppend)
  else
    let tail ← deref (s.list l).last
    let s := s.setNext tail (s.list toAppend).first
    let head ← deref (s.list toAppend).first
    let s := s.setPrev head (s.list l).last
    let s := s.setTail l (s.list toAppend).last
    pure (s.clear toAppend)

/-- `IMPLEMENT_LIST_PREPEND`. -/
def prepend (l : L) (node : N) : Except Fault (Pool L N) := do
  let s := (s.setPrev node none).setNext node none
  if (s.list l).first = none then
    pure ((s.setTail l (some node)).setHead l (some node))
  else
    let s := s.setNext node (s.list l).first
    let head ← deref (s.list l).first
    let s := s.setPrev head (some node)
    pure (s.setHead l (some node))

/-- `IMPLEMENT_LIST_REMOVE_LAST`. -/
def removeLast (l : L) : Except Fault (Option N × Pool L N) := do
  require ((s.list l).first ≠ none) .emptyList
  if (s.list l).first = (s.list l).last then
    pure ((s.list l).first, (s.setTail l none).setHead l none)
  else
    let result := (s.list l).last
    let tail ← deref (s.list l).last
    let s := s.setTail l (s.link tail).prev
    -- the new tail; the old one keeps its links
    let tail ← deref (s.list l).last
    pure (result, s.setNext tail none)

/-- `IMPLEMENT_LIST_REMOVE_FIRST`. -/
def removeFirst (l : L) : Except Fault (Option N × Pool L N) := do
  require ((s.list l).first ≠ none) .emptyList
  if (s.list l).first = (s.list l).last then
    pure ((s.list l).first, (s.setTail l none).setHead l none)
  else
    let result := (s.list l).first
    let head ← deref (s.list l).first
    let s := s.setHead l (s.link head).next
    let head ← deref (s.list l).first
    pure (result, s.setPrev head none)

/-- `IMPLEMENT_LIST_REMOVE`, up to what leads to the node from in front of it. -/
def unlinkNext (l : L) (node : N) : Pool L N :=
  match (s.link node).prev with
  | some before => s.setNext before (s.link node).next
  | none => s.setHead l (s.link node).next

/-- The rest of it: what leads to the node from behind it. -/
def unlinkPrev (l : L) (node : N) : Pool L N :=
  match (s.link node).next with
  | some after => s.setPrev after (s.link node).prev
  | none => s.setTail l (s.link node).prev

/-- `IMPLEMENT_LIST_REMOVE`. -/
def remove (l : L) (node : N) : Pool L N := (s.unlinkNext l node).unlinkPrev l node

/-! ## What the stores change -/

variable {s} {l m : L} {n : N} {p : Option N}

omit [DecidableEq N] in
@[simp]
theorem setHead_list_self : (s.setHead l p).list l = ⟨p, (s.list l).last⟩ := Function.update_self ..

omit [DecidableEq N] in
@[simp]
theorem setTail_list_self : (s.setTail l p).list l = ⟨(s.list l).first, p⟩ :=
  Function.update_self ..

omit [DecidableEq N] in
theorem setHead_list_of_ne (hm : m ≠ l) : (s.setHead l p).list m = s.list m :=
  Function.update_of_ne hm ..

omit [DecidableEq N] in
theorem setTail_list_of_ne (hm : m ≠ l) : (s.setTail l p).list m = s.list m :=
  Function.update_of_ne hm ..

omit [DecidableEq N] in
@[simp]
theorem setHead_link : (s.setHead l p).link = s.link := rfl

omit [DecidableEq N] in
@[simp]
theorem setTail_link : (s.setTail l p).link = s.link := rfl

omit [DecidableEq N] in
/-- Both stores into a list. -/
theorem setHead_setTail {q : Option N} :
    (s.setTail l q).setHead l p = { s with list := Function.update s.list l ⟨p, q⟩ } := by
  rw [setHead, setTail_list_self, setTail, Function.update_idem]

omit [DecidableEq N] in
@[simp]
theorem clear_list_self : (s.clear l).list l = Head.empty := by
  rw [clear, setHead_list_self, setTail_list_self]
  rfl

omit [DecidableEq N] in
theorem clear_list_of_ne (hm : m ≠ l) : (s.clear l).list m = s.list m := by
  rw [clear, setHead_list_of_ne hm, setTail_list_of_ne hm]

omit [DecidableEq N] in
@[simp]
theorem clear_link : (s.clear l).link = s.link := rfl

omit [DecidableEq L] in
@[simp]
theorem setNext_list : (s.setNext n p).list = s.list := rfl

omit [DecidableEq L] in
@[simp]
theorem setPrev_list : (s.setPrev n p).list = s.list := rfl

omit [DecidableEq L] in
@[simp]
theorem setNext_link : (s.setNext n p).link = LinkedList.setNext s.link n p := rfl

omit [DecidableEq L] in
@[simp]
theorem setPrev_link : (s.setPrev n p).link = LinkedList.setPrev s.link n p := rfl

end Pool

/-! ## Operations -/

/-- A call of a function that changes something. -/
inductive Op (L N : Type)
  | append (l : L) (node : N)
  | prepend (l : L) (node : N)
  | appendAll (l toAppend : L)
  | removeFirst (l : L)
  | removeLast (l : L)
  | remove (l : L) (node : N)
  | clear (l : L)
  deriving DecidableEq, Repr

namespace Op

/-- Carry out a call. The result is a null pointer where the function has none. -/
def exec (s : Pool L N) : Op L N → Except Fault (Option N × Pool L N)
  | append l node => do pure (none, ← s.append l node)
  | prepend l node => do pure (none, ← s.prepend l node)
  | appendAll l toAppend => do pure (none, ← s.appendAll l toAppend)
  | removeFirst l => s.removeFirst l
  | removeLast l => s.removeLast l
  | remove l node => pure (none, s.remove l node)
  | clear l => pure (none, s.clear l)

/-- What the call does to the sequences of nodes that are on the lists. -/
def apply (c : L → List N) : Op L N → Except Fault (Option N × (L → List N))
  | append l node => .ok (none, Function.update c l (c l ++ [node]))
  | prepend l node => .ok (none, Function.update c l (node :: c l))
  | appendAll l toAppend =>
      .ok (none, Function.update (Function.update c l (c l ++ c toAppend)) toAppend [])
  | removeFirst l =>
      match c l with
      | [] => .error .emptyList
      | node :: nodes => .ok (some node, Function.update c l nodes)
  | removeLast l =>
      match (c l).getLast? with
      | none => .error .emptyList
      | some node => .ok (some node, Function.update c l (c l).dropLast)
  | remove l node => .ok (none, Function.update c l ((c l).erase node))
  | clear l => .ok (none, Function.update c l [])

/-- A node is inserted when it is on no list, and removed from the list on which it is; a list is
not appended to itself. -/
def Allowed (c : L → List N) : Op L N → Prop
  | append _ node | prepend _ node => ∀ l, node ∉ c l
  | appendAll l toAppend => l ≠ toAppend
  | remove l node => node ∈ c l
  | removeFirst _ | removeLast _ | clear _ => True

/-- Calls one after the other, with their results. -/
def run {σ : Type} (step : σ → Op L N → Except Fault (Option N × σ)) :
    List (Op L N) → σ → Except Fault (List (Option N) × σ)
  | [], s => pure ([], s)
  | op :: ops, s => do
      let (result, s) ← step s op
      let (results, s) ← run step ops s
      pure (result :: results, s)

/-- Each of the calls is allowed when it comes. -/
def AllAllowed : List (Op L N) → (L → List N) → Prop
  | [], _ => True
  | op :: ops, c => op.Allowed c ∧ ∀ result c', op.apply c = .ok (result, c') → AllAllowed ops c'

/-- The call names the list. -/
def NamesList (m : L) : Op L N → Prop
  | append l _ | prepend l _ | removeFirst l | removeLast l | remove l _ | clear l => m = l
  | appendAll l toAppend => m = l ∨ m = toAppend

/-- The call names the node. -/
def NamesNode (n : N) : Op L N → Prop
  | append _ node | prepend _ node | remove _ node => n = node
  | appendAll .. | removeFirst _ | removeLast _ | clear _ => False

end Op

end GeekOS.Lists
