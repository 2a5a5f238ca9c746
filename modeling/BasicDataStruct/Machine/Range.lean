import Mathlib.Algebra.Group.Nat.Defs
import BasicDataStruct.Machine.Exec

namespace machine

variable {lo count : Nat}

/-- Counting up an `int` counter. -/
theorem ofNat_succ (n : Nat) : Int32.ofNat n + 1 = Int32.ofNat (n + 1) := by
  rw [Int32.ofNat_add]
  rfl

/-- An `int` counter wraps around, so two counters agree when the numbers they
count are congruent. -/
theorem ofNat_eq_ofNat_iff (a b : Nat) : Int32.ofNat a = Int32.ofNat b ↔ a % 2 ^ 32 = b % 2 ^ 32 := by
  rw [← Int32.toBitVec_inj, Int32.toBitVec_ofNat', Int32.toBitVec_ofNat', ← BitVec.toNat_inj,
    BitVec.toNat_ofNat, BitVec.toNat_ofNat]

end machine

namespace machine.Exec

variable {σ β : Type}

/-- The loop `for (i = lo; i < lo + count; i++)` over the locals `β`. -/
def forRange (body : Nat → β → Exec σ β) : (lo count : Nat) → β → Exec σ β
  | _, 0, b => pure b
  | i, count + 1, b => do
    let b ← body i b
    forRange body (i + 1) count b

/-- A counted loop establishes what its body carries from one index to the next. -/
theorem forRange_total {body : Nat → β → Exec σ β} (Inv : Nat → β → σ → Prop)
    (hbody : ∀ i b s, lo ≤ i → i < lo + count → Inv i b s →
      ∃ b' s', (body i b).run s = .ok (b', s') ∧ Inv (i + 1) b' s')
    {b : β} {s : σ} (hinv : Inv lo b s) :
    ∃ b' s', (forRange body lo count b).run s = .ok (b', s') ∧ Inv (lo + count) b' s' := by
  induction count generalizing lo b s with
  | zero => exact ⟨b, s, rfl, hinv⟩
  | succ count ih =>
    obtain ⟨b₁, s₁, hrun₁, hinv₁⟩ := hbody lo b s (Nat.le_refl lo) (by omega) hinv
    have hrest : ∀ i b s, lo + 1 ≤ i → i < lo + 1 + count → Inv i b s →
        ∃ b' s', (body i b).run s = .ok (b', s') ∧ Inv (i + 1) b' s' := by
      intro i b s hlo hhi
      exact hbody i b s (by omega) (by omega)
    obtain ⟨b₂, s₂, hrun₂, hinv₂⟩ := ih hrest hinv₁
    refine ⟨b₂, s₂, ?_, ?_⟩
    · rw [forRange, run_bind_of_ok hrun₁, hrun₂]
    · rw [← Nat.add_assoc, Nat.add_right_comm]
      exact hinv₂

/-- A counted loop whose rounds only change the memory, from `g i` to `g (i + 1)`. -/
theorem run_forRange {body : Nat → Unit → Exec σ Unit} (g : Nat → σ)
    (hbody : ∀ i, lo ≤ i → i < lo + count → (body i ()).run (g i) = .ok ((), g (i + 1))) :
    (forRange body lo count ()).run (g lo) = .ok ((), g (lo + count)) := by
  induction count generalizing lo with
  | zero => rfl
  | succ count ih =>
    have hfirst := hbody lo (Nat.le_refl lo) (by omega)
    have hrest : (forRange body (lo + 1) count ()).run (g (lo + 1)) = .ok ((), g (lo + 1 + count)) :=
      ih fun i hlo hhi => hbody i (by omega) (by omega)
    rw [forRange, run_bind_of_ok hfirst, hrest, Nat.add_assoc, Nat.add_comm 1 count]

/-- A counted loop with a `break`: the body goes on with new locals, or leaves
the loop with them. -/
def forBreak (body : Nat → β → Exec σ (β ⊕ β)) : (lo count : Nat) → β → Exec σ β
  | _, 0, b => pure b
  | i, count + 1, b => do
    match ← body i b with
    | .inl b => forBreak body (i + 1) count b
    | .inr b => pure b

/-- A counted loop that breaks with `Post`, or has gone through all its indices. -/
theorem forBreak_total {body : Nat → β → Exec σ (β ⊕ β)} (Inv : Nat → β → σ → Prop) (Post : β → σ → Prop)
    (hbody : ∀ i b s, lo ≤ i → i < lo + count → Inv i b s →
      (∃ b' s', (body i b).run s = .ok (.inl b', s') ∧ Inv (i + 1) b' s') ∨
      ∃ b' s', (body i b).run s = .ok (.inr b', s') ∧ Post b' s')
    {b : β} {s : σ} (hinv : Inv lo b s) :
    ∃ b' s', (forBreak body lo count b).run s = .ok (b', s') ∧ (Post b' s' ∨ Inv (lo + count) b' s') := by
  induction count generalizing lo b s with
  | zero => exact ⟨b, s, rfl, .inr hinv⟩
  | succ count ih =>
    rcases hbody lo b s (Nat.le_refl lo) (by omega) hinv with ⟨b₁, s₁, hrun₁, hinv₁⟩ | ⟨b₁, s₁, hrun₁, hpost⟩
    · have hrest : ∀ i b s, lo + 1 ≤ i → i < lo + 1 + count → Inv i b s →
          (∃ b' s', (body i b).run s = .ok (.inl b', s') ∧ Inv (i + 1) b' s') ∨
          ∃ b' s', (body i b).run s = .ok (.inr b', s') ∧ Post b' s' := by
        intro i b s hlo hhi
        exact hbody i b s (by omega) (by omega)
      obtain ⟨b₂, s₂, hrun₂, hend⟩ := ih hrest hinv₁
      refine ⟨b₂, s₂, ?_, ?_⟩
      · rw [forBreak, run_bind_of_ok hrun₁]
        exact hrun₂
      · rw [← Nat.add_assoc, Nat.add_right_comm]
        exact hend
    · refine ⟨b₁, s₁, ?_, .inl hpost⟩
      rw [forBreak, run_bind_of_ok hrun₁, run_pure]

end machine.Exec
