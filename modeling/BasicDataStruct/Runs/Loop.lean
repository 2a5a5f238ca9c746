import Mathlib.Logic.Basic

namespace runs

/-- A loop that terminates: a round either goes on with a state of a smaller measure or leaves the
loop with a result. -/
structure Loop (σ α : Type) where
  body : σ → σ ⊕ α
  measure : σ → Nat
  decreases : ∀ {s t : σ}, body s = .inl t → measure t < measure s

namespace Loop

variable {σ α : Type} {loop : Loop σ α} {s t : σ} {a : α}

def run (loop : Loop σ α) (s : σ) : α :=
  match _hbody : loop.body s with
  | .inl t => loop.run t
  | .inr a => a
termination_by loop.measure s
decreasing_by exact loop.decreases _hbody

theorem run_of_next (h : loop.body s = .inl t) : loop.run s = loop.run t := by
  rw [run]
  split
  next t' ht' =>
    rw [h] at ht'
    rw [Sum.inl.inj ht']
  next a ha =>
    rw [h] at ha
    cases ha

theorem run_of_done (h : loop.body s = .inr a) : loop.run s = a := by
  rw [run]
  split
  next t ht =>
    rw [h] at ht
    cases ht
  next a' ha' =>
    rw [h] at ha'
    exact (Sum.inr.inj ha').symm

theorem run_congr (h : loop.body s = loop.body t) : loop.run s = loop.run t := by
  cases hbody : loop.body t with
  | inl u => rw [run_of_next hbody, run_of_next (h.trans hbody)]
  | inr a => rw [run_of_done hbody, run_of_done (h.trans hbody)]

/-- Induction over the rounds of a loop. -/
theorem run_induction (loop : Loop σ α) {motive : σ → α → Prop}
    (next : ∀ s t a, loop.body s = .inl t → motive t a → motive s a)
    (done : ∀ s a, loop.body s = .inr a → motive s a) (s : σ) : motive s (loop.run s) := by
  induction hmeasure : loop.measure s using Nat.strongRecOn generalizing s with
  | ind n ih =>
    cases hbody : loop.body s with
    | inl t =>
      rw [run_of_next hbody]
      exact next s t _ hbody (ih _ (hmeasure ▸ loop.decreases hbody) t rfl)
    | inr a =>
      rw [run_of_done hbody]
      exact done s a hbody

/-- The states in which the rounds of a run begin. -/
inductive Visits (loop : Loop σ α) : σ → σ → Prop
  | start (s : σ) : Visits loop s s
  | next {s t u : σ} (hnext : loop.body s = .inl t) (hvisits : Visits loop t u) : Visits loop s u

theorem Visits.invariant {P : σ → Prop} (hkeep : ∀ s t, P s → loop.body s = .inl t → P t) (h : loop.Visits s t)
    (hs : P s) : P t := by
  induction h with
  | start => exact hs
  | next hnext _ ih => exact ih (hkeep _ _ hs hnext)

theorem Visits.run_eq (h : loop.Visits s t) : loop.run s = loop.run t :=
  h.invariant (P := fun t => loop.run s = loop.run t) (fun _ _ hs hnext => hs.trans (run_of_next hnext)) rfl

/-- The round in which a run ends. -/
theorem exists_visits_done (loop : Loop σ α) (s : σ) : ∃ t, loop.Visits s t ∧ loop.body t = .inr (loop.run s) := by
  refine loop.run_induction (motive := fun s a => ∃ t, loop.Visits s t ∧ loop.body t = .inr a) ?_ ?_ s
  · rintro s t a hnext ⟨u, hvisits, hdone⟩
    exact ⟨u, .next hnext hvisits, hdone⟩
  · intro s a hdone
    exact ⟨s, .start s, hdone⟩

end Loop

end runs
