import Mathlib.Logic.Basic

namespace runs

variable {σ α : Type} (step : σ → α → σ)

variable {s : σ} {as : List α}

/-- A property of every state that a sequence of actions goes through. -/
def Always (P : σ → Prop) : σ → List α → Prop
  | s, [] => P s
  | s, a :: as => P s ∧ Always P (step s a) as

/-- A condition on every action of a sequence, in the state in which it is taken. -/
def Each (C : σ → α → Prop) : σ → List α → Prop
  | _, [] => True
  | s, a :: as => C s a ∧ Each C (step s a) as

variable {step} {P : σ → Prop} {C : σ → α → Prop}

theorem Always.here (h : Always step P s as) : P s := by
  cases as with
  | nil => exact h
  | cons a as => exact h.1

theorem Always.last (h : Always step P s as) : P (as.foldl step s) := by
  induction as generalizing s with
  | nil => exact h
  | cons a as ih => exact ih h.2

theorem each_of_forall (h : ∀ s a, C s a) (s : σ) (as : List α) : Each step C s as := by
  induction as generalizing s with
  | nil => trivial
  | cons a as ih => exact ⟨h s a, ih (step s a)⟩

theorem each_congr {D : σ → α → Prop} (h : ∀ s a, C s a ↔ D s a) (s : σ) (as : List α) :
    Each step C s as ↔ Each step D s as := by
  induction as generalizing s with
  | nil => exact Iff.rfl
  | cons a as ih => exact and_congr (h s a) (ih (step s a))

/-- A property that holds as long as the actions meet a condition, and is lost by the first
that does not. -/
theorem always_iff_each (Inv : σ → Prop) (Permitted : σ → α → Prop) (hinv : ∀ s, Inv s → P s)
    (hkeep : ∀ s a, Inv s → Permitted s a → C s a → Inv (step s a))
    (hlose : ∀ s a, Inv s → Permitted s a → ¬C s a → ¬P (step s a)) (hs : Inv s)
    (hpermitted : Each step Permitted s as) : Always step P s as ↔ Each step C s as := by
  induction as generalizing s with
  | nil => exact iff_of_true (hinv s hs) trivial
  | cons a as ih =>
    obtain ⟨hfirst, hrest⟩ := hpermitted
    by_cases hmeets : C s a
    · have htail := ih (hkeep s a hs hfirst hmeets) hrest
      exact ⟨fun h => ⟨hmeets, htail.mp h.2⟩, fun h => ⟨hinv s hs, htail.mpr h.2⟩⟩
    · exact iff_of_false (fun h => hlose s a hs hfirst hmeets h.2.here) fun h => hmeets h.1

/-- The same for actions of which nothing is required. -/
theorem always_iff_each_of_keeps (Inv : σ → Prop) (hinv : ∀ s, Inv s → P s)
    (hkeep : ∀ s a, Inv s → C s a → Inv (step s a)) (hlose : ∀ s a, Inv s → ¬C s a → ¬P (step s a))
    (hs : Inv s) (as : List α) : Always step P s as ↔ Each step C s as :=
  always_iff_each Inv (fun _ _ => True) hinv (fun s a h _ => hkeep s a h) (fun s a h _ => hlose s a h) hs
    (each_of_forall (fun _ _ => trivial) s as)

end runs
