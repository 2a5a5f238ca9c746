import Mathlib.Data.List.Nodup
import BasicDataStruct.Machine.Heap

namespace machine

/-- The nodes that a singly linked list starting at `p` goes through, each with its
address. -/
def Spine {ν : Type} (next : ν → Ptr) (h : Heap ν) : Ptr → List (Nat × ν) → Prop
  | p, [] => p = none
  | p, (a, v) :: nodes => p = some a ∧ h.cells a = some v ∧ Spine next h (next v) nodes

/-- The addresses of a list's nodes. -/
def addresses {ν : Type} (nodes : List (Nat × ν)) : List Nat := nodes.map Prod.fst

namespace Spine

variable {ν : Type} {next : ν → Ptr} {h : Heap ν} {p : Ptr} {a : Nat} {v : ν} {nodes front back : List (Nat × ν)}

theorem cell (hspine : Spine next h p (front ++ (a, v) :: back)) : h.cells a = some v := by
  induction front generalizing p with
  | nil => exact hspine.2.1
  | cons node front ih => exact ih hspine.2.2

theorem rest (hspine : Spine next h p (front ++ (a, v) :: back)) : Spine next h (next v) back := by
  induction front generalizing p with
  | nil => exact hspine.2.2
  | cons node front ih => exact ih hspine.2.2

/-- The heap determines the nodes. -/
theorem unique {nodes' : List (Nat × ν)} (hspine : Spine next h p nodes) (hspine' : Spine next h p nodes') :
    nodes = nodes' := by
  induction nodes generalizing p nodes' with
  | nil =>
    cases nodes' with
    | nil => rfl
    | cons node nodes' => exact absurd (hspine.symm.trans hspine'.1) (by simp)
  | cons node nodes ih =>
    cases nodes' with
    | nil => exact absurd (hspine'.symm.trans hspine.1) (by simp)
    | cons node' nodes' =>
      obtain ⟨a, v⟩ := node
      obtain ⟨a', v'⟩ := node'
      obtain ⟨rfl, hcell, htail⟩ := hspine
      obtain ⟨heq, hcell', htail'⟩ := hspine'
      cases heq
      obtain rfl : v = v' := by rwa [hcell, Option.some.injEq] at hcell'
      rw [ih htail htail']

/-- A list that ends goes through no node twice. -/
theorem nodup (hspine : Spine next h p nodes) : (addresses nodes).Nodup := by
  induction nodes generalizing p with
  | nil => exact List.nodup_nil
  | cons node nodes ih =>
    obtain ⟨a, v⟩ := node
    obtain ⟨rfl, hcell, htail⟩ := hspine
    refine List.nodup_cons.mpr ⟨fun hmem => ?_, ih htail⟩
    -- a second visit of the address would start the same list again
    obtain ⟨⟨a', w⟩, hnode, rfl⟩ := List.mem_map.mp hmem
    obtain ⟨front, back, hsplit⟩ := List.append_of_mem hnode
    rw [hsplit] at htail
    obtain rfl : v = w := by
      have hcell' := htail.cell
      rwa [hcell, Option.some.injEq] at hcell'
    have hlen := congrArg List.length (htail.unique htail.rest)
    rw [List.length_append, List.length_cons] at hlen
    omega

/-- A change of a node outside a list. -/
theorem alter (f : ν → ν) (ha : a ∉ addresses nodes) (hspine : Spine next h p nodes) :
    Spine next (h.alter a f) p nodes := by
  induction nodes generalizing p with
  | nil => exact hspine
  | cons node nodes ih =>
    obtain ⟨b, w⟩ := node
    obtain ⟨hp, hcell, htail⟩ := hspine
    obtain ⟨hne, hrest⟩ : a ≠ b ∧ a ∉ addresses nodes := by simpa [addresses] using ha
    exact ⟨hp, by rw [Heap.alter_cells_of_ne _ _ (Ne.symm hne), hcell], ih hrest htail⟩

/-- A change of a node of a list, whose next node may then start another list. -/
theorem alter_at (f : ν → ν) {back' : List (Nat × ν)} (hspine : Spine next h p (front ++ (a, v) :: back))
    (hback : Spine next h (next (f v)) back') (ha : a ∉ addresses back') :
    Spine next (h.alter a f) p (front ++ (a, f v) :: back') := by
  have hnodup := hspine.nodup
  induction front generalizing p with
  | nil => exact ⟨hspine.1, by rw [Heap.alter_cells_same, hspine.2.1, Option.map_some], hback.alter f ha⟩
  | cons node front ih =>
    obtain ⟨b, w⟩ := node
    obtain ⟨hp, hcell, htail⟩ := hspine
    obtain ⟨hmem, hnodup⟩ := List.nodup_cons.mp hnodup
    have hne : b ≠ a := fun heq => hmem (by simp [heq])
    exact ⟨hp, by rw [Heap.alter_cells_of_ne _ _ hne, hcell], ih htail hnodup⟩

section

variable (hspine : Spine next h p nodes)
include hspine

/-- A list stays where its nodes are not changed. -/
theorem of_cells {h' : Heap ν} (hcells : ∀ a v, a ∈ addresses nodes → h.cells a = some v → h'.cells a = some v) :
    Spine next h' p nodes := by
  induction nodes generalizing p with
  | nil => exact hspine
  | cons node nodes ih =>
    obtain ⟨a, v⟩ := node
    obtain ⟨hp, hcell, htail⟩ := hspine
    exact ⟨hp, hcells a v List.mem_cons_self hcell, ih htail fun b w hb => hcells b w (List.mem_cons_of_mem a hb)⟩

/-- The nodes of a list were allocated. -/
theorem lt_next : ∀ a ∈ addresses nodes, a < h.next := by
  intro a hmem
  obtain ⟨⟨_, v⟩, hnode, rfl⟩ := List.mem_map.mp hmem
  obtain ⟨front, back, rfl⟩ := List.append_of_mem hnode
  exact Heap.lt_next_of_some hspine.cell

/-- An allocation leaves a list as it is. -/
theorem extend : Spine next h.extend p nodes := by
  induction nodes generalizing p with
  | nil => exact hspine
  | cons node nodes ih =>
    obtain ⟨a, v⟩ := node
    obtain ⟨hp, hcell, htail⟩ := hspine
    exact ⟨hp, by rw [Heap.extend_cells, if_neg (Heap.next_ne_of_some hcell), hcell], ih htail⟩

theorem next_notMem : h.next ∉ addresses nodes :=
  fun hmem => Nat.lt_irrefl _ (hspine.lt_next _ hmem)

end

end Spine

end machine
