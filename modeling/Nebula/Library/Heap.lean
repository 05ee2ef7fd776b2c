import Nebula.Library.Buffer

/-!
Memory that is handed out in blocks, and that may run out: a request is granted or refused, as the
heap has it, and the cells of a new block hold whatever the heap says. `Ample.request` is about a
heap that grants every request.
-/

set_option autoImplicit false
set_option relaxedAutoImplicit false

namespace Nebula.Library

/-- The memory that is left: which requests for it are granted, what the cells hold when they are
handed out, and how many requests have been made. -/
structure Heap where
  grants : ℕ → Bool
  slots : ℕ → ℤ → ℤ
  bytes : ℕ → ℤ → UInt8
  requests : ℕ

namespace Heap

/-- The heap after a request. -/
def asked (heap : Heap) : Heap := { heap with requests := heap.requests + 1 }

/-- A request for a block of memory. -/
def request {α : Type*} (heap : Heap) (block : Buffer α) : Option (Buffer α) × Heap :=
  (if heap.grants heap.requests then some block else none, heap.asked)

/-- The block that `realloc` hands out: what fits into it is kept. -/
def enlarged {α : Type*} (old : Buffer α) (size : ℕ) (fresh : ℤ → α) : Buffer α where
  size := size
  cell i := if old.InBounds i then old.cell i else fresh i
  strayed := old.strayed

/-- `malloc` for a number of slots. -/
def malloc (heap : Heap) (count : ℕ) : Option (Buffer ℤ) × Heap :=
  heap.request ⟨count, heap.slots heap.requests, false⟩

/-- `realloc` of slots. -/
def realloc (heap : Heap) (old : Buffer ℤ) (count : ℕ) : Option (Buffer ℤ) × Heap :=
  heap.request (enlarged old count (heap.slots heap.requests))

/-- Every request is granted. -/
def Ample (heap : Heap) : Prop := ∀ n, heap.grants n = true

theorem Ample.request {α : Type*} {heap : Heap} (h : heap.Ample) (block : Buffer α) :
    heap.request block = (some block, heap.asked) := by
  rw [Heap.request, h, if_pos rfl]

end Heap

/-- Memory that does not run out. -/
def ampleHeap : Heap := ⟨fun _ ↦ true, fun _ _ ↦ 0, fun _ _ ↦ 0, 0⟩

theorem ample_ampleHeap : ampleHeap.Ample := fun _ ↦ rfl

end Nebula.Library
