import Mathlib.Logic.Function.Basic

namespace compact_table

variable {β κ : Type} {key : β → κ} {entry : Int → β} {index : κ → Int} {count : Int}

/-- The value `v` is one of the first `count` entries. -/
def Has (entry : Int → β) (count : Int) (v : β) : Prop := ∃ j, 0 ≤ j ∧ j < count ∧ entry j = v

/-- Among the first `count` entries, the index finds each one by its key. -/
def Indexed (key : β → κ) (entry : Int → β) (index : κ → Int) (count : Int) : Prop :=
  ∀ j, 0 ≤ j → j < count → index (key (entry j)) = j

/-- Entries at different places have different keys. -/
theorem Indexed.key_ne (h : Indexed key entry index count) {i j : Int} (hi : 0 ≤ i) (hi' : i < count) (hj : 0 ≤ j)
    (hj' : j < count) (hne : i ≠ j) : key (entry i) ≠ key (entry j) := by
  intro heq
  have hindex := h i hi hi'
  rw [heq, h j hj hj'] at hindex
  exact hne hindex.symm

theorem Indexed.entry_index (h : Indexed key entry index count) {v : β} (hv : Has entry count v) :
    0 ≤ index (key v) ∧ index (key v) < count ∧ entry (index (key v)) = v := by
  obtain ⟨j, hj, hj', rfl⟩ := hv
  rw [h j hj hj']
  exact ⟨hj, hj', rfl⟩

section Add

variable {v : β}

theorem has_add_iff (hcount : 0 ≤ count) (w : β) :
    Has (Function.update entry count v) (count + 1) w ↔ w = v ∨ Has entry count w := by
  constructor
  · rintro ⟨j, hj, hj', rfl⟩
    by_cases hlast : j = count
    · exact .inl (by rw [hlast, Function.update_self])
    · exact .inr ⟨j, hj, by omega, by rw [Function.update_of_ne hlast]⟩
  · rintro (rfl | ⟨j, hj, hj', rfl⟩)
    · exact ⟨count, hcount, by omega, Function.update_self ..⟩
    · exact ⟨j, hj, by omega, Function.update_of_ne (by omega) ..⟩

/-- A value with a new key goes to the end. -/
theorem Indexed.add [DecidableEq κ] (h : Indexed key entry index count)
    (hnew : ∀ w, Has entry count w → key w ≠ key v) :
    Indexed key (Function.update entry count v) (Function.update index (key v) count) (count + 1) := by
  intro j hj hj'
  by_cases hlast : j = count
  · rw [hlast, Function.update_self, Function.update_self]
  · have hkey : key (entry j) ≠ key v := hnew _ ⟨j, hj, by omega, rfl⟩
    rw [Function.update_of_ne hlast, Function.update_of_ne hkey]
    exact h j hj (by omega)

end Add

section Remove

variable {i : Int} (h : Indexed key entry index count) (hi : 0 ≤ i) (hi' : i < count)
include h hi hi'

/-- The last entry moves to the place of the removed one. -/
theorem has_remove_iff (w : β) :
    Has (Function.update entry i (entry (count - 1))) (count - 1) w ↔ Has entry count w ∧ key w ≠ key (entry i) := by
  constructor
  · rintro ⟨j, hj, hj', rfl⟩
    by_cases hji : j = i
    · rw [hji, Function.update_self]
      exact ⟨⟨count - 1, by omega, by omega, rfl⟩, h.key_ne (by omega) (by omega) hi hi' (by omega)⟩
    · rw [Function.update_of_ne hji]
      exact ⟨⟨j, hj, by omega, rfl⟩, h.key_ne hj (by omega) hi hi' hji⟩
  · rintro ⟨⟨j, hj, hj', rfl⟩, hkey⟩
    have hji : j ≠ i := fun heq => hkey (by rw [heq])
    by_cases hlast : j = count - 1
    · exact ⟨i, hi, by omega, by rw [Function.update_self, hlast]⟩
    · exact ⟨j, hj, by omega, Function.update_of_ne hji ..⟩

/-- The index of the moved entry is set last, so that what the index says about the
removed key does not matter. -/
theorem Indexed.remove [DecidableEq κ] (stale : Int) :
    Indexed key (Function.update entry i (entry (count - 1)))
      (Function.update (Function.update index (key (entry i)) stale) (key (entry (count - 1))) i) (count - 1) := by
  intro j hj hj'
  by_cases hji : j = i
  · rw [hji, Function.update_self, Function.update_self]
  · have hlast : key (entry j) ≠ key (entry (count - 1)) := h.key_ne hj (by omega) (by omega) (by omega) (by omega)
    have hold : key (entry j) ≠ key (entry i) := h.key_ne hj (by omega) hi hi' hji
    rw [Function.update_of_ne hji, Function.update_of_ne hlast, Function.update_of_ne hold]
    exact h j hj (by omega)

end Remove

end compact_table
