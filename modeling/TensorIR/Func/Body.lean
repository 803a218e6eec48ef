import TensorIR.Operation

/-!
# Bodies

The operations of a function in program order, each under its number. The numbers stand for places
in a graph store: a number that becomes free by an erasure is given out again, the one freed last
first, and a new number is taken only when none is free. So the numbers in use and the free ones are
together exactly those below `capacity` (`Body.ids_perm`), and no two operations share a number
(`Body.nodup_ids`).

In what order freed numbers come back is up to the store, and nothing that is proved about all
functions rests on it: only on this, that the number of a new operation is not in use
(`Body.nextId_notMem_ids`), and that numbers are counted up as long as none has become free.
-/

namespace TensorIR

/-- An operation under its number. -/
structure Node where
  id : OpId
  op : Operation
  deriving DecidableEq, Inhabited

/-- Operations in program order. -/
structure Body where
  nodes : List Node
  /-- Numbers that are free again, the one freed last in front. -/
  free : List OpId
  /-- How many numbers have been given out. -/
  capacity : Nat
  ids_perm : (nodes.map Node.id ++ free).Perm (List.range capacity)
  deriving DecidableEq

namespace Body

def empty : Body := ⟨[], [], 0, .refl _⟩

instance : Inhabited Body := ⟨empty⟩

/-- The numbers of the operations, in program order. -/
def ids (b : Body) : List OpId :=
  b.nodes.map Node.id

/-- The operations, in program order. -/
def ops (b : Body) : List Operation :=
  b.nodes.map Node.op

def size (b : Body) : Nat :=
  b.nodes.length

def find? (b : Body) (id : OpId) : Option Node :=
  b.nodes.find? fun node => node.id == id

/-- The operation with a number. -/
def op? (b : Body) (id : OpId) : Option Operation :=
  (b.find? id).map Node.op

/-- The place of a number in program order. -/
def position? (b : Body) (id : OpId) : Option Nat :=
  b.ids.idxOf? id

theorem nodup_ids (b : Body) : b.ids.Nodup :=
  (List.nodup_append.1 (b.ids_perm.nodup_iff.2 List.nodup_range)).1

/-- The number that the next operation gets. -/
def nextId (b : Body) : OpId :=
  b.free.headD b.capacity

/-- The free numbers and the capacity once `nextId` is taken. -/
def afterNext (b : Body) : List OpId × Nat :=
  match b.free with
  | [] => ([], b.capacity + 1)
  | _ :: rest => (rest, b.capacity)

/-- Append an operation under `nextId`. -/
def push (b : Body) (op : Operation) : Body where
  nodes := b.nodes ++ [⟨b.nextId, op⟩]
  free := b.afterNext.1
  capacity := b.afterNext.2
  ids_perm := by
    have h := b.ids_perm
    cases hf : b.free with
    | nil =>
      rw [hf, List.append_nil] at h
      simpa [nextId, afterNext, hf, List.range_succ] using h.append_right [b.capacity]
    | cons id rest =>
      rw [hf] at h
      simpa [nextId, afterNext, hf] using h

/-- Change every operation in its place. -/
def mapOps (b : Body) (f : Node → Operation) : Body where
  nodes := b.nodes.map fun node => ⟨node.id, f node⟩
  free := b.free
  capacity := b.capacity
  ids_perm := by simpa [List.map_map, Function.comp_def] using b.ids_perm

/-- Change the operation with a number, if there is one. -/
def modify (b : Body) (id : OpId) (f : Operation → Operation) : Body :=
  b.mapOps fun node => if node.id = id then f node.op else node.op

theorem perm_erase {ids free : List Nat} {id : Nat} (hnd : ids.Nodup) (hid : id ∈ ids) :
    (ids.filter (· != id) ++ id :: free).Perm (ids ++ free) := by
  rw [← hnd.erase_eq_filter id]
  have h : (id :: ids.erase id).Perm ids := (List.perm_cons_erase hid).symm
  exact List.perm_middle.trans (h.append_right free)

/-- Take away the operation with a number, if there is one, and make its number free. -/
def erase (b : Body) (id : OpId) : Body :=
  if h : id ∈ b.ids then
    { nodes := b.nodes.filter fun node => node.id != id
      free := id :: b.free
      capacity := b.capacity
      ids_perm := by
        have hm : (b.nodes.filter fun node => node.id != id).map Node.id =
            b.ids.filter (· != id) := by
          simp [ids, List.filter_map, Function.comp_def]
        rw [hm]
        exact (perm_erase b.nodup_ids h).trans b.ids_perm }
  else b

end Body

end TensorIR
