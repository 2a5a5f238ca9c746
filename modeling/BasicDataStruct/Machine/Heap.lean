import BasicDataStruct.Machine.Exec

namespace machine

variable {a x : Nat}

/-- A C pointer: `none` is `NULL`, and every allocated object has a natural
number for its address. -/
abbrev Ptr := Option Nat

/-- A heap of objects of one type. Addresses from `next` on have never been
handed out. `raw` is what freshly allocated memory happens to contain: `malloc`
does not initialise it. -/
@[ext]
structure Heap (ν : Type) where
  cells : Nat → Option ν
  next : Nat
  raw : Nat → ν
  fresh : ∀ a, next ≤ a → cells a = none

namespace Heap

variable {ν : Type}

/-- A heap in which nothing has been allocated. -/
def empty (raw : Nat → ν) : Heap ν where
  cells _ := none
  next := 0
  raw
  fresh _ _ := rfl

/-- Change the object at an address; nothing happens at an unused address. -/
def alter (h : Heap ν) (a : Nat) (f : ν → ν) : Heap ν where
  cells x := if x = a then (h.cells a).map f else h.cells x
  next := h.next
  raw := h.raw
  fresh x hx := by
    by_cases hxa : x = a
    · simp [hxa, h.fresh a (hxa ▸ hx)]
    · simp [hxa, h.fresh x hx]

/-- Hand out the next address with its uninitialised contents. -/
def extend (h : Heap ν) : Heap ν where
  cells x := if x = h.next then some (h.raw h.next) else h.cells x
  next := h.next + 1
  raw := h.raw
  fresh x hx := by
    have hne : x ≠ h.next := by omega
    simp [hne, h.fresh x (by omega)]

/-- Hand out an address with the object that a constructor builds there. -/
def place (h : Heap ν) (a : Nat) (v : ν) : Heap ν where
  cells x := if x = a then some v else h.cells x
  next := max h.next (a + 1)
  raw := h.raw
  fresh x hx := by
    have hne : x ≠ a := by omega
    simp [hne, h.fresh x (by omega)]

/-- Give an object back. -/
def release (h : Heap ν) (a : Nat) : Heap ν where
  cells x := if x = a then none else h.cells x
  next := h.next
  raw := h.raw
  fresh x hx := by
    by_cases hxa : x = a
    · simp [hxa]
    · simp [hxa, h.fresh x hx]

section

variable (h : Heap ν)
include h

theorem alter_cells (a x : Nat) (f : ν → ν) :
    (h.alter a f).cells x = if x = a then (h.cells a).map f else h.cells x := rfl

theorem extend_cells (x : Nat) :
    h.extend.cells x = if x = h.next then some (h.raw h.next) else h.cells x := rfl

theorem place_cells (a x : Nat) (v : ν) : (h.place a v).cells x = if x = a then some v else h.cells x := rfl

theorem release_cells (a x : Nat) : (h.release a).cells x = if x = a then none else h.cells x := rfl

@[simp] theorem alter_cells_same (a : Nat) (f : ν → ν) : (h.alter a f).cells a = (h.cells a).map f := by
  simp [alter_cells]

theorem alter_cells_of_ne (f : ν → ν) (hne : x ≠ a) : (h.alter a f).cells x = h.cells x := by
  simp [alter_cells, hne]

@[simp] theorem alter_cells_eq_none (a x : Nat) (f : ν → ν) : (h.alter a f).cells x = none ↔ h.cells x = none := by
  rw [alter_cells]
  split
  · next heq => simp [heq]
  · rfl

theorem isSome_alter (a : Nat) (f : ν → ν) (x : Nat) : ((h.alter a f).cells x).isSome = (h.cells x).isSome := by
  rw [alter_cells]
  split
  · next heq => rw [Option.isSome_map, heq]
  · rfl

theorem release_cells_of_ne (hne : x ≠ a) : (h.release a).cells x = h.cells x := by
  simp [release_cells, hne]

end

theorem release_cells_eq_some {h : Heap ν} {v : ν} : (h.release a).cells x = some v ↔ x ≠ a ∧ h.cells x = some v := by
  rw [release_cells]
  split
  · next heq => exact iff_of_false (fun h => nomatch h) fun hne => hne.1 heq
  · next hne => exact (and_iff_right hne).symm

theorem lt_next_of_some {h : Heap ν} {v : ν} (ha : h.cells a = some v) : a < h.next := by
  by_contra hle
  have hfresh := h.fresh a (by omega)
  rw [ha] at hfresh
  simp at hfresh

theorem next_ne_of_some {h : Heap ν} {v : ν} (ha : h.cells a = some v) : a ≠ h.next :=
  Nat.ne_of_lt (lt_next_of_some ha)

end Heap

namespace Exec

variable {ν : Type}

/-- Dereference a pointer for reading. -/
def load (p : Ptr) : Exec (Heap ν) ν := ⟨fun h =>
  match p.bind h.cells with
  | some v => .ok (v, h)
  | none => .error .null⟩

/-- Dereference a pointer for writing: `f` says what the assignment does to the
object. -/
def store (p : Ptr) (f : ν → ν) : Exec (Heap ν) Unit := ⟨fun h =>
  match p with
  | some a => if (h.cells a).isSome then .ok ((), h.alter a f) else .error .null
  | none => .error .null⟩

/-- Allocate an object. The model's memory is unbounded, so `malloc` returns a
pointer other than `NULL`. -/
def malloc : Exec (Heap ν) Ptr := ⟨fun h => .ok (some h.next, h.extend)⟩

/-- Release an object. -/
def free (p : Ptr) : Exec (Heap ν) Unit := ⟨fun h =>
  match p with
  | some a => if (h.cells a).isSome then .ok ((), h.release a) else .error .null
  | none => .ok ((), h)⟩

theorem run_load {h : Heap ν} {v : ν} (ha : h.cells a = some v) : (load (some a)).run h = .ok (v, h) := by
  simp [load, ha]

theorem run_store {h : Heap ν} {v : ν} (ha : h.cells a = some v) (f : ν → ν) :
    (store (some a) f).run h = .ok ((), h.alter a f) := by
  simp [store, ha]

theorem run_store_of_isSome {h : Heap ν} (ha : (h.cells a).isSome) (f : ν → ν) :
    (store (some a) f).run h = .ok ((), h.alter a f) := by
  simp [store, ha]

theorem run_free {h : Heap ν} {v : ν} (ha : h.cells a = some v) : (free (some a)).run h = .ok ((), h.release a) := by
  simp [free, ha]

theorem run_free_of_isSome {h : Heap ν} (ha : (h.cells a).isSome) :
    (free (some a)).run h = .ok ((), h.release a) := by
  simp [free, ha]

theorem run_malloc (h : Heap ν) : malloc.run h = .ok (some h.next, h.extend) := rfl

end Exec

end machine
