import Mathlib.Order.Bounds.Basic
import BasicDataStruct.Dijkstra.Model

open machine machine.Exec

namespace basic_data_struct.dijkstra

variable {e : Edge} {u v : Nat} {done : List Edge} {g : Globals}

section Access

variable {i j : Nat} (g : Globals)

theorem run_readMap (hi : i < LEN) (hj : j < LEN) : (readMap i j).run g = .ok (g.map i j, g) := by
  simp only [readMap, run_bind, run_inBounds hi, run_inBounds hj, run_get, run_pure]

theorem run_writeMap (hi : i < LEN) (hj : j < LEN) (v : Int32) : (writeMap i j v).run g = .ok ((), g.setMap i j v) := by
  simp only [writeMap, run_bind, run_inBounds hi, run_inBounds hj, run_modify]

theorem run_readDist (hi : i < LEN) : (readDist i).run g = .ok (g.dist i, g) := by
  simp only [readDist, run_bind, run_inBounds hi, run_get, run_pure]

theorem run_writeDist (hi : i < LEN) (v : Int32) : (writeDist i v).run g = .ok ((), g.setDist i v) := by
  simp only [writeDist, run_bind, run_inBounds hi, run_modify]

theorem run_readMark (hi : i < LEN) : (readMark i).run g = .ok (g.mark i, g) := by
  simp only [readMark, run_bind, run_inBounds hi, run_get, run_pure]

theorem run_writeMark (hi : i < LEN) (v : Int32) : (writeMark i v).run g = .ok ((), g.setMark i v) := by
  simp only [writeMark, run_bind, run_inBounds hi, run_modify]

end Access

/-- An edge joins its two ends in both directions. -/
def Edge.Joins (e : Edge) (u v : Nat) : Prop := e.a = u ∧ e.b = v ∨ e.a = v ∧ e.b = u

instance (e : Edge) (u v : Nat) : Decidable (e.Joins u v) := inferInstanceAs (Decidable (_ ∨ _))

theorem Edge.joins_comm : e.Joins u v ↔ e.Joins v u := or_comm

/-- The undirected edges of the input, with their lengths. -/
def Linked (edges : List Edge) (u v : Nat) (c : Int) : Prop := ∃ e ∈ edges, e.Joins u v ∧ e.d.toInt = c

theorem linked_append {c : Int} : Linked (done ++ [e]) u v c ↔ Linked done u v c ∨ e.Joins u v ∧ e.d.toInt = c := by
  simp only [Linked, List.mem_append, List.mem_singleton, or_and_right, exists_or, exists_eq_left]

/-- Each entry of the matrix is the length of the shortest of the parallel edges
between its vertices, and MAX where there is none. -/
def Loaded (edges : List Edge) (g : Globals) : Prop :=
  ∀ u v, u < LEN → v < LEN → IsLeast (insert MAX.toInt {c | Linked edges u v c}) (g.map u v).toInt

/-- One row of the matrix is filled with MAX. -/
theorem run_init_row {i : Nat} (hi : i < LEN) (g : Globals) :
    ∃ g', (forRange (fun j _ => init_body i j) 0 LEN ()).run g = .ok ((), g') ∧
      ∀ u v, v < LEN → g'.map u v = if u = i then MAX else g.map u v := by
  have hbody : ∀ j (b : Unit) g₁, 0 ≤ j → j < 0 + LEN →
      (∀ u v, v < LEN → g₁.map u v = if u = i ∧ v < j then MAX else g.map u v) →
      ∃ b' g₂, (init_body i j).run g₁ = .ok (b', g₂) ∧
        ∀ u v, v < LEN → g₂.map u v = if u = i ∧ v < j + 1 then MAX else g.map u v := by
    intro j _ g₁ _ hj hinv
    refine ⟨(), _, run_writeMap g₁ hi (by omega) MAX, fun u v hv => ?_⟩
    simp only [Globals.setMap, hinv u v hv]
    split_ifs <;> first | rfl | omega
  obtain ⟨_, g', hrun, hinv⟩ := forRange_total (b := ()) (s := g) _ hbody (fun u v _ => by simp)
  refine ⟨g', hrun, fun u v hv => ?_⟩
  rw [hinv u v hv]
  simp [hv]

/-- Filling the matrix with MAX loads the graph without edges. -/
theorem run_init (g : Globals) : ∃ g', init.run g = .ok ((), g') ∧ Loaded [] g' := by
  have hbody : ∀ i (b : Unit) g₁, 0 ≤ i → i < 0 + LEN →
      (∀ u v, u < i → v < LEN → g₁.map u v = MAX) →
      ∃ b' g₂, (forRange (fun j _ => init_body i j) 0 LEN ()).run g₁ = .ok (b', g₂) ∧
        ∀ u v, u < i + 1 → v < LEN → g₂.map u v = MAX := by
    intro i _ g₁ _ hi hinv
    obtain ⟨g₂, hrun, hrow⟩ := run_init_row (by omega : i < LEN) g₁
    refine ⟨(), g₂, hrun, fun u v hu hv => ?_⟩
    rw [hrow u v hv]
    split
    · rfl
    · exact hinv u v (by omega) hv
  obtain ⟨_, g', hrun, hinv⟩ := forRange_total (b := ()) (s := g) _ hbody (fun u v hu _ => by omega)
  refine ⟨g', hrun, fun u v hu hv => ?_⟩
  rw [hinv u v (by omega) hv]
  simp [Linked, isLeast_singleton]

/-- The new entries after an edge has been taken into account. -/
theorem Loaded.append {g' : Globals} (hg : Loaded done g)
    (hjoined : ∀ u v, e.Joins u v → (g'.map u v).toInt = min e.d.toInt (g.map u v).toInt)
    (hother : ∀ u v, ¬ e.Joins u v → g'.map u v = g.map u v) : Loaded (done ++ [e]) g' := by
  intro u v hu hv
  by_cases huv : e.Joins u v
  · have hset : {c | Linked (done ++ [e]) u v c} = insert e.d.toInt {c | Linked done u v c} := by
      ext c
      simp [linked_append, huv, or_comm, eq_comm]
    rw [hset, Set.insert_comm, hjoined u v huv]
    exact (hg u v hu hv).insert e.d.toInt
  · have hset : {c | Linked (done ++ [e]) u v c} = {c | Linked done u v c} := by
      ext c
      simp [linked_append, huv]
    rw [hset, hother u v huv]
    exact hg u v hu hv

/-- Loading an edge keeps the smaller length in both of its entries. The test of
one entry is enough because the matrix is symmetric. -/
theorem run_load_body (hg : Loaded done g) (e : Edge) (ha : e.a < LEN)
    (hb : e.b < LEN) : ∃ g', (load_body e).run g = .ok ((), g') ∧ Loaded (done ++ [e]) g' := by
  have hsymm : (g.map e.b e.a).toInt = (g.map e.a e.b).toInt := by
    refine (hg e.b e.a hb ha).unique ?_
    have hset : {c | Linked done e.b e.a c} = {c | Linked done e.a e.b c} := by
      ext c
      simp only [Linked, Edge.joins_comm]
    rw [hset]
    exact hg e.a e.b ha hb
  have hentry : ∀ u v, e.Joins u v → (g.map u v).toInt = (g.map e.a e.b).toInt := by
    rintro u v (⟨rfl, rfl⟩ | ⟨rfl, rfl⟩)
    · rfl
    · exact hsymm
  simp only [load_body, run_bind, run_readMap g ha hb, run_ite]
  by_cases hlt : g.map e.a e.b > e.d
  · refine ⟨(g.setMap e.b e.a e.d).setMap e.a e.b e.d, ?_, hg.append ?_ ?_⟩
    · rw [if_pos hlt]
      simp only [run_writeMap _ hb ha, run_writeMap _ ha hb]
    · intro u v huv
      have hle : e.d.toInt < (g.map e.a e.b).toInt := Int32.lt_iff_toInt_lt.mp hlt
      rw [hentry u v huv, min_eq_left (by omega)]
      rcases huv with ⟨rfl, rfl⟩ | ⟨rfl, rfl⟩ <;> simp [Globals.setMap]
    · intro u v huv
      have hab : ¬ (u = e.a ∧ v = e.b) := fun h => huv (.inl ⟨h.1.symm, h.2.symm⟩)
      have hba : ¬ (u = e.b ∧ v = e.a) := fun h => huv (.inr ⟨h.2.symm, h.1.symm⟩)
      simp [Globals.setMap, hab, hba]
  · refine ⟨g, ?_, hg.append ?_ fun _ _ _ => rfl⟩
    · rw [if_neg hlt, run_pure]
    · intro u v huv
      have hle : (g.map e.a e.b).toInt ≤ e.d.toInt := Int32.le_iff_toInt_le.mp (Int32.not_lt.mp hlt)
      rw [hentry u v huv, min_eq_right (by omega)]

/-- The loading loop of `main` keeps the shortest of the parallel edges. -/
theorem run_load (edges done : List Edge) (hg : Loaded done g) (hends : ∀ e ∈ edges, e.a < LEN ∧ e.b < LEN) :
    ∃ g', (load edges).run g = .ok ((), g') ∧ Loaded (done ++ edges) g' := by
  induction edges generalizing done g with
  | nil => exact ⟨g, rfl, by rwa [List.append_nil]⟩
  | cons e edges ih =>
    obtain ⟨ha, hb⟩ := hends e List.mem_cons_self
    obtain ⟨g₁, hrun₁, hg₁⟩ := run_load_body hg e ha hb
    obtain ⟨g₂, hrun₂, hg₂⟩ := ih (done ++ [e]) hg₁ fun f hf => hends f (List.mem_cons_of_mem _ hf)
    refine ⟨g₂, ?_, ?_⟩
    · rw [load, run_bind_of_ok hrun₁, hrun₂]
    · rw [List.append_assoc] at hg₂
      exact hg₂

end basic_data_struct.dijkstra
