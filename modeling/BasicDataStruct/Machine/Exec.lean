import Mathlib.Logic.Function.Basic

namespace machine

/-- The ways in which a run of a modelled C program can stop without a result:
a dereference of `NULL` or of a released object, a read of a local that was
never assigned, an array index out of bounds, an exhausted loop budget of the
model, and the program's own `exit` after a last message. -/
inductive Fault where
  | null
  | uninit
  | bounds
  | fuel
  | exit (message : String) (code : Int)
deriving DecidableEq, Repr

/-- A computation over the memory `σ` that returns a value and the new memory,
or stops with a fault. -/
structure Exec (σ α : Type) : Type where
  run : σ → Except Fault (α × σ)

namespace Exec

variable {σ α β ι : Type}

instance : Monad (Exec σ) where
  pure a := ⟨fun s => .ok (a, s)⟩
  bind x f := ⟨fun s => match x.run s with
    | .ok (a, t) => (f a).run t
    | .error e => .error e⟩

/-- Stop with a fault. -/
def fail (e : Fault) : Exec σ α := ⟨fun _ => .error e⟩

/-- The value of a local that may not have been assigned yet. -/
def assigned (v : Option α) : Exec σ α :=
  match v with
  | some a => pure a
  | none => fail .uninit

/-- The whole memory. -/
def get : Exec σ σ := ⟨fun s => .ok (s, s)⟩

/-- Change the memory. -/
def modify (f : σ → σ) : Exec σ Unit := ⟨fun s => .ok ((), f s)⟩

/-- The check of an array index that C leaves out: an access beyond the array is
a fault of the program. -/
def inBounds (i len : Nat) : Exec σ Unit := if i < len then pure () else fail .bounds

@[simp] theorem run_pure (a : α) (s : σ) : (pure a : Exec σ α).run s = .ok (a, s) := rfl

@[simp] theorem run_fail (e : Fault) (s : σ) : (fail e : Exec σ α).run s = .error e := rfl

@[simp] theorem run_get (s : σ) : (get : Exec σ σ).run s = .ok (s, s) := rfl

@[simp] theorem run_modify (f : σ → σ) (s : σ) : (modify f).run s = .ok ((), f s) := rfl

theorem run_inBounds {i len : Nat} (h : i < len) (s : σ) : (inBounds i len).run s = .ok ((), s) := by
  rw [inBounds, if_pos h, run_pure]

@[simp] theorem assigned_some (a : α) : (assigned (some a) : Exec σ α) = pure a := rfl

/-- Sequencing runs the continuation on the value and the memory left behind. -/
theorem run_bind (x : Exec σ α) (f : α → Exec σ β) (s : σ) :
    (x >>= f).run s = match x.run s with
      | .ok (a, t) => (f a).run t
      | .error e => .error e := rfl

theorem run_bind_of_ok {x : Exec σ α} {s t : σ} {a : α} (hx : x.run s = .ok (a, t))
    (f : α → Exec σ β) : (x >>= f).run s = (f a).run t := by
  rw [run_bind, hx]

theorem run_bind_of_error {x : Exec σ α} {s : σ} {e : Fault} (hx : x.run s = .error e)
    (f : α → Exec σ β) : (x >>= f).run s = .error e := by
  rw [run_bind, hx]

@[simp] theorem run_pure_bind (a : α) (f : α → Exec σ β) (s : σ) :
    ((pure a : Exec σ α) >>= f).run s = (f a).run s := rfl

theorem run_bind_eq_ok_iff {x : Exec σ α} {f : α → Exec σ β} {s u : σ} {b : β} :
    (x >>= f).run s = .ok (b, u) ↔ ∃ a t, x.run s = .ok (a, t) ∧ (f a).run t = .ok (b, u) := by
  rw [run_bind]
  cases x.run s with
  | error e => simp
  | ok p => exact ⟨fun h => ⟨p.1, p.2, rfl, h⟩, by rintro ⟨a, t, hx, hf⟩; cases hx; exact hf⟩

/-- A conditional computation runs the branch its test selects. -/
theorem run_ite (c : Prop) [Decidable c] (x y : Exec σ α) (s : σ) :
    (if c then x else y).run s = if c then x.run s else y.run s := by
  split <;> rfl

/-- Run a computation on a component of the memory, such as an array that is
passed to a function by its address. -/
def zoom {τ : Type} (part : σ → τ) (put : σ → τ → σ) (x : Exec τ α) : Exec σ α := ⟨fun s =>
  match x.run (part s) with
  | .ok (a, t) => .ok (a, put s t)
  | .error e => .error e⟩

theorem run_zoom {τ : Type} {part : σ → τ} {put : σ → τ → σ} {x : Exec τ α} {s : σ} {a : α} {t : τ}
    (hx : x.run (part s) = .ok (a, t)) : (zoom part put x).run s = .ok (a, put s t) := by
  simp only [zoom, hx]

/-- A `while` loop with the locals `ι`: the body either goes round with new
locals or leaves the loop with a result. The budget bounds the number of
rounds; it is a device of the model, and a loop that uses it up faults. -/
def loop (body : ι → Exec σ (ι ⊕ α)) : Nat → ι → Exec σ α
  | 0, _ => fail .fuel
  | fuel + 1, i => do
    match ← body i with
    | .inl j => loop body fuel j
    | .inr a => pure a

theorem run_loop_next {body : ι → Exec σ (ι ⊕ α)} {i j : ι} {s t : σ}
    (hbody : (body i).run s = .ok (.inl j, t)) (fuel : Nat) :
    (loop body (fuel + 1) i).run s = (loop body fuel j).run t := by
  rw [loop, run_bind_of_ok hbody]

theorem run_loop_done {body : ι → Exec σ (ι ⊕ α)} {i : ι} {a : α} {s t : σ}
    (hbody : (body i).run s = .ok (.inr a, t)) (fuel : Nat) :
    (loop body (fuel + 1) i).run s = .ok (a, t) := by
  rw [loop, run_bind_of_ok hbody, run_pure]

/-- A budget above a bound allows another round. -/
theorem exists_fuel {n fuel : Nat} (h : n < fuel) : ∃ k, fuel = k + 1 :=
  Nat.exists_eq_succ_of_ne_zero (Nat.ne_zero_of_lt h)

/-- Total correctness of a loop. The first argument of the invariant bounds the
number of rounds still to come; every budget above it gives the same result. -/
theorem loop_total {body : ι → Exec σ (ι ⊕ α)} (Inv : Nat → ι → σ → Prop) (Post : α → σ → Prop)
    (hbody : ∀ n i s, Inv n i s →
      (∃ m j t, m < n ∧ (body i).run s = .ok (.inl j, t) ∧ Inv m j t) ∨
      ∃ a t, (body i).run s = .ok (.inr a, t) ∧ Post a t)
    {n : Nat} {i : ι} {s : σ} (hinv : Inv n i s) :
    ∃ a t, (∀ fuel, n < fuel → (loop body fuel i).run s = .ok (a, t)) ∧ Post a t := by
  induction n using Nat.strongRecOn generalizing i s with
  | ind n ih =>
    rcases hbody n i s hinv with ⟨m, j, t, hlt, hrun, hnext⟩ | ⟨a, t, hrun, hpost⟩
    · obtain ⟨a, u, hloop, hpost⟩ := ih m hlt hnext
      refine ⟨a, u, fun fuel hfuel => ?_, hpost⟩
      obtain ⟨fuel, rfl⟩ := exists_fuel hfuel
      rw [run_loop_next hrun, hloop fuel (by omega)]
    · refine ⟨a, t, fun fuel hfuel => ?_, hpost⟩
      obtain ⟨fuel, rfl⟩ := exists_fuel hfuel
      rw [run_loop_done hrun]

/-- A loop that only reads, goes over the locals `place 0`, `place 1`, … and
leaves at `place n`. -/
theorem run_loop_walk {body : ι → Exec σ (ι ⊕ α)} (place : Nat → ι) {s : σ} {a : α} {n fuel : Nat}
    (hnext : ∀ k < n, (body (place k)).run s = .ok (.inl (place (k + 1)), s))
    (hlast : (body (place n)).run s = .ok (.inr a, s)) (hfuel : n < fuel) :
    (loop body fuel (place 0)).run s = .ok (a, s) := by
  obtain ⟨fuel, rfl⟩ := exists_fuel hfuel
  induction n generalizing place fuel with
  | zero => exact run_loop_done hlast fuel
  | succ n ih =>
    rw [run_loop_next (hnext 0 n.succ_pos)]
    obtain ⟨fuel, rfl⟩ := exists_fuel (Nat.lt_of_succ_lt_succ hfuel)
    exact ih (fun k => place (k + 1)) (fun k hk => hnext (k + 1) (by omega)) hlast fuel (by omega)

/-- What a program gives with enough fuel is one thing. -/
theorem eq_of_fuel {β : Type} {f : Nat → β} {m n : Nat} {a b : β} (ha : ∀ fuel, m < fuel → f fuel = a)
    (hb : ∀ fuel, n < fuel → f fuel = b) : a = b :=
  (ha (max m n + 1) (by omega)).symm.trans (hb (max m n + 1) (by omega))

/-- A loop whose body never leaves it from an invariant state uses up every
budget: the modelled loop does not terminate. -/
theorem loop_diverges {body : ι → Exec σ (ι ⊕ α)} (Inv : ι → σ → Prop)
    (hbody : ∀ i s, Inv i s → (body i).run s = .error .fuel ∨
      ∃ j t, (body i).run s = .ok (.inl j, t) ∧ Inv j t)
    (fuel : Nat) {i : ι} {s : σ} (hinv : Inv i s) : (loop body fuel i).run s = .error .fuel := by
  induction fuel generalizing i s with
  | zero => rfl
  | succ fuel ih =>
    rcases hbody i s hinv with hfuel | ⟨j, t, hrun, hnext⟩
    · rw [loop, run_bind, hfuel]
    · rw [run_loop_next hrun, ih hnext]

/-- The computation `x` does what `y` does, as far as its own budget carries. -/
def Within (x y : Exec σ α) : Prop := ∀ s, x.run s = .error .fuel ∨ x.run s = y.run s

theorem Within.refl (x : Exec σ α) : Within x x := fun _ => .inr rfl

theorem Within.bind {x y : Exec σ α} {f g : α → Exec σ β} (hx : Within x y) (hf : ∀ a, Within (f a) (g a)) :
    Within (x >>= f) (y >>= g) := by
  intro s
  rw [run_bind, run_bind]
  rcases hx s with hfuel | heq
  · rw [hfuel]
    exact .inl rfl
  · rw [heq]
    cases y.run s with
    | error e => exact .inr rfl
    | ok p => exact hf p.1 p.2

theorem Within.ite {x y u v : Exec σ α} (c : Prop) [Decidable c] (hx : Within x u) (hy : Within y v) :
    Within (if c then x else y) (if c then u else v) := by
  split
  · exact hx
  · exact hy

/-- A loop with a smaller budget runs the same rounds and stops earlier. -/
theorem within_loop (body : ι → Exec σ (ι ⊕ α)) {fuel fuel' : Nat} (hle : fuel ≤ fuel') (i : ι) :
    Within (loop body fuel i) (loop body fuel' i) := by
  induction fuel generalizing fuel' i with
  | zero => exact fun _ => .inl rfl
  | succ fuel ih =>
    obtain ⟨fuel', rfl⟩ := Nat.exists_eq_succ_of_ne_zero (by omega : fuel' ≠ 0)
    refine (Within.refl (body i)).bind fun res => ?_
    cases res with
    | inl j => exact ih (by omega) j
    | inr a => exact Within.refl _

/-- The computation leaves the part `f` of the memory as it is. -/
def Keeps (f : σ → β) (x : Exec σ α) : Prop := ∀ s a t, x.run s = .ok (a, t) → f t = f s

section Keeps

variable {γ : Type} {f : σ → β}

theorem Keeps.pure (a : α) : Keeps f (pure a : Exec σ α) := by
  intro s b t hrun
  rw [run_pure] at hrun
  cases hrun
  rfl

theorem Keeps.fail (e : Fault) : Keeps f (fail e : Exec σ α) := by
  intro s b t hrun
  simp at hrun

theorem Keeps.get : Keeps f (get : Exec σ σ) := by
  intro s b t hrun
  rw [run_get] at hrun
  cases hrun
  rfl

theorem Keeps.modify {g : σ → σ} (hg : ∀ s, f (g s) = f s) : Keeps f (modify g) := by
  intro s b t hrun
  rw [run_modify] at hrun
  cases hrun
  exact hg s

theorem Keeps.bind {x : Exec σ α} {k : α → Exec σ γ} (hx : Keeps f x) (hk : ∀ a, Keeps f (k a)) :
    Keeps f (x >>= k) := by
  intro s c u hrun
  obtain ⟨a, t, hxrun, hkrun⟩ := run_bind_eq_ok_iff.mp hrun
  rw [hk a t c u hkrun, hx s a t hxrun]

theorem Keeps.ite {x y : Exec σ α} (c : Prop) [Decidable c] (hx : Keeps f x) (hy : Keeps f y) :
    Keeps f (if c then x else y) := by
  split
  · exact hx
  · exact hy

end Keeps

/-- The computation does not stop with the fault `e`. -/
def Avoids (e : Fault) (x : Exec σ α) : Prop := ∀ s, x.run s ≠ .error e

section Avoids

variable {γ : Type} {e : Fault}

theorem Avoids.pure (a : α) : Avoids e (pure a : Exec σ α) := fun _ h => nomatch h

theorem Avoids.get : Avoids e (get : Exec σ σ) := fun _ h => nomatch h

theorem Avoids.modify (g : σ → σ) : Avoids e (modify g) := fun _ h => nomatch h

theorem Avoids.fail {e' : Fault} (hne : e' ≠ e) : Avoids e (fail e' : Exec σ α) :=
  fun _ h => hne (Except.error.inj h)

/-- At a given memory, a sequence stops with `e` only in its second part if the first avoids it. -/
theorem run_bind_ne_error {x : Exec σ α} {k : α → Exec σ γ} {s : σ} (hx : x.run s ≠ .error e)
    (hk : ∀ a t, x.run s = .ok (a, t) → (k a).run t ≠ .error e) : (x >>= k).run s ≠ .error e := by
  rw [run_bind]
  cases hrun : x.run s with
  | error e' =>
    rw [hrun] at hx
    exact fun h => hx (congrArg Except.error (Except.error.inj h))
  | ok p => exact hk p.1 p.2 hrun

theorem Avoids.bind {x : Exec σ α} {k : α → Exec σ γ} (hx : Avoids e x) (hk : ∀ a, Avoids e (k a)) :
    Avoids e (x >>= k) :=
  fun s => run_bind_ne_error (hx s) fun a t _ => hk a t

end Avoids

/-- A property of computations that a sequence inherits from its parts. -/
structure Compositional (Q : (α : Type) → Exec σ α → Prop) : Prop where
  pure : ∀ {α : Type} (a : α), Q α (Pure.pure a)
  get : Q σ Exec.get
  bind : ∀ {α γ : Type} {x : Exec σ α} {k : α → Exec σ γ}, Q α x → (∀ a, Q γ (k a)) → Q γ (x >>= k)

theorem Compositional.ite {Q : (α : Type) → Exec σ α → Prop} (_ : Compositional Q) {x y : Exec σ α} (c : Prop)
    [Decidable c] (hx : Q α x) (hy : Q α y) : Q α (if c then x else y) := by
  split
  · exact hx
  · exact hy

theorem compositional_keeps (f : σ → β) : Compositional fun α (x : Exec σ α) => Keeps f x := ⟨.pure, .get, .bind⟩

theorem compositional_avoids (e : Fault) : Compositional fun α (x : Exec σ α) => Avoids e x := ⟨.pure, .get, .bind⟩

/-- The computation returns from every memory. -/
def Total (x : Exec σ α) : Prop := ∀ s, ∃ a t, x.run s = .ok (a, t)

section Total

variable {γ : Type}

theorem Total.pure (a : α) : Total (pure a : Exec σ α) := fun s => ⟨a, s, rfl⟩

theorem Total.get : Total (get : Exec σ σ) := fun s => ⟨s, s, rfl⟩

theorem Total.modify (g : σ → σ) : Total (modify g) := fun s => ⟨(), g s, rfl⟩

theorem Total.bind {x : Exec σ α} {k : α → Exec σ γ} (hx : Total x) (hk : ∀ a, Total (k a)) : Total (x >>= k) := by
  intro s
  obtain ⟨a, t, hrun⟩ := hx s
  rw [run_bind_of_ok hrun]
  exact hk a t

theorem Total.ite {x y : Exec σ α} (c : Prop) [Decidable c] (hx : Total x) (hy : Total y) :
    Total (if c then x else y) := by
  split
  · exact hx
  · exact hy

end Total

end Exec

end machine

namespace socket

/-- What a call of `recv` gives: bytes, of which it delivers as many as it was asked for, or
-1 with `EAGAIN`, or -1 with another error. No bytes means that the peer has closed. -/
inductive Recv where
  | bytes (data : List UInt8)
  | again
  | error

/-- What a call of `send` gives: the number of bytes that it takes, at most what it is
given, or -1 with `EAGAIN`, or -1 with another error. -/
inductive Send where
  | count (n : Nat)
  | again
  | error

/-- What calls of `recv` deliver until one has nothing, fails or meets the end, and the
result of that one. When the results are used up there is nothing more. -/
def delivered : List Recv → List UInt8 × Recv
  | [] => ([], .again)
  | .bytes (x :: data) :: results => (x :: data ++ (delivered results).1, (delivered results).2)
  | result :: _ => ([], result)

/-- How many bytes calls of `send` take until one takes none, and the result of that one. -/
def accepted : List Send → Nat × Send
  | [] => (0, .again)
  | .count (n + 1) :: results => (n + 1 + (accepted results).1, (accepted results).2)
  | result :: _ => (0, result)

end socket
