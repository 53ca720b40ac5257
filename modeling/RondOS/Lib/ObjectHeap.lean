import Mathlib.Data.List.Pairwise
import Mathlib.Logic.Function.Basic

/-!
# A heap of separate objects

What a heap is for, without addresses: named objects, each with its own contents, which change only
when the object itself is written. A memory represents such a heap when every object has a place of
its own and the bytes there are the object's contents. The lemmas say which changes of the memory
carry the representation along each operation.
-/

namespace ObjectHeap

set_option autoImplicit false

variable {Name Addr Val : Type}

structure Heap (Name Val : Type) where
  live : List Name
  contents : Name → Nat → Val

inductive Op (Name Val : Type) where
  | acquire (name : Name)
  | acquireFilled (name : Name) (value : Val)
  | resize (old new : Name)
  | release (name : Name)
  | write (name : Name) (index : Nat) (value : Val)
  | read (name : Name) (index : Nat) (value : Val)

section Machine

variable [DecidableEq Name]

def Heap.acquired (heap : Heap Name Val) (name : Name) (initial : Nat → Val) : Heap Name Val where
  live := name :: heap.live
  contents := Function.update heap.contents name initial

def Heap.released (heap : Heap Name Val) (name : Name) : Heap Name Val :=
  { heap with live := heap.live.erase name }

def Heap.wrote (heap : Heap Name Val) (name : Name) (index : Nat) (value : Val) : Heap Name Val :=
  { heap with
    contents := Function.update heap.contents name
      (Function.update (heap.contents name) index value) }

@[simp] theorem acquired_contents (heap : Heap Name Val) (name : Name) (initial : Nat → Val) :
    (heap.acquired name initial).contents = Function.update heap.contents name initial := rfl

@[simp] theorem wrote_contents (heap : Heap Name Val) (name : Name) (index : Nat) (value : Val) :
    (heap.wrote name index value).contents = Function.update heap.contents name
      (Function.update (heap.contents name) index value) := rfl

end Machine

variable (size : Name → Nat) (place : Name → Nat → Addr)

def Apart (first second : Name) : Prop :=
  ∀ i, i < size first → ∀ j, j < size second → place first i ≠ place second j

structure Represents (heap : Heap Name Val) (mem : Addr → Val) : Prop where
  apart : heap.live.Pairwise (Apart size place)
  stored : ∀ name ∈ heap.live, ∀ index, index < size name →
    mem (place name index) = heap.contents name index

/-- The bytes of every object in the list are the same in both memories. -/
def Keeps (names : List Name) (mem after : Addr → Val) : Prop :=
  ∀ name ∈ names, ∀ index, index < size name → after (place name index) = mem (place name index)

variable {size place}

instance : Std.Symm (Apart size place) where
  symm := fun _ _ apart i iInside j jInside same => apart j jInside i iInside same.symm

theorem Keeps.trans {names : List Name} {mem middle after : Addr → Val}
    (first : Keeps size place names mem middle) (second : Keeps size place names middle after) :
    Keeps size place names mem after := by
  intro name member index inside
  rw [second name member index inside, first name member index inside]

section Operations

variable [DecidableEq Name] {heap : Heap Name Val} {mem after : Addr → Val} {name : Name}

theorem Represents.acquire (represents : Represents size place heap mem)
    (apart : ∀ other ∈ heap.live, Apart size place name other)
    (kept : Keeps size place heap.live mem after) :
    Represents size place (heap.acquired name fun index => after (place name index)) after where
  apart := List.Pairwise.cons apart represents.apart
  stored := by
    intro object member index inside
    by_cases new : object = name
    · subst new
      rw [acquired_contents, Function.update_self]
    · have old : object ∈ heap.live := List.mem_of_ne_of_mem new member
      rw [acquired_contents, Function.update_of_ne new, kept object old index inside,
        represents.stored object old index inside]

theorem Represents.release (represents : Represents size place heap mem)
    (kept : Keeps size place (heap.live.erase name) mem after) :
    Represents size place (heap.released name) after where
  apart := represents.apart.sublist List.erase_sublist
  stored := by
    intro object member index inside
    rw [kept object member index inside]
    exact represents.stored object (List.mem_of_mem_erase member) index inside

theorem Represents.write [DecidableEq Addr] (represents : Represents size place heap mem)
    (member : name ∈ heap.live) {index : Nat} (inside : index < size name)
    (injective : ∀ other, other < size name → place name other = place name index → other = index)
    (value : Val) :
    Represents size place (heap.wrote name index value)
      (Function.update mem (place name index) value) where
  apart := represents.apart
  stored := by
    intro object live other bound
    by_cases target : object = name
    · subst target
      rw [wrote_contents, Function.update_self]
      by_cases same : other = index
      · subst same
        rw [Function.update_self, Function.update_self]
      · have elsewhere : place object other ≠ place object index :=
          fun equal => same (injective other bound equal)
        rw [Function.update_of_ne elsewhere, Function.update_of_ne same]
        exact represents.stored object live other bound
    · have elsewhere : place object other ≠ place name index :=
        represents.apart.forall live member target other bound index inside
      rw [wrote_contents, Function.update_of_ne target, Function.update_of_ne elsewhere]
      exact represents.stored object live other bound

end Operations

end ObjectHeap
