import Mathlib.Data.List.Chain
import Mathlib.Data.List.Nodup
import Mathlib.Data.List.Perm.Subperm

namespace search

variable {V : Type}

section Tree

variable {next : V → List V} {root v : V} {pred : V → Option V} {seen path : List V}

/-- The marked vertices, the newest first, each with a predecessor among the older ones. -/
inductive Grown (next : V → List V) (root : V) (pred : V → Option V) : List V → Prop
  | root (hroot : pred root = none) : Grown next root pred [root]
  | visit {seen : List V} {p q : V} (hseen : Grown next root pred seen) (hp : p ∈ seen) (hq : q ∉ seen)
      (hnext : q ∈ next p) (hpred : pred q = some p) : Grown next root pred (q :: seen)

/-- The way back along the predecessors. -/
inductive Back (pred : V → Option V) : V → List V → Prop
  | stop {v : V} (hv : pred v = none) : Back pred v [v]
  | step {v u : V} {path : List V} (hv : pred v = some u) (hpath : Back pred u path) : Back pred v (v :: path)

theorem Back.head (h : Back pred v path) : path.head? = some v := by
  cases h <;> rfl

section

variable (h : Grown next root pred seen)
include h

theorem Grown.nodup : seen.Nodup := by
  induction h with
  | root => exact List.nodup_singleton root
  | visit _ _ hq _ _ ih => exact List.nodup_cons.mpr ⟨hq, ih⟩

theorem Grown.root_mem : root ∈ seen := by
  induction h with
  | root => exact List.mem_cons_self
  | visit _ _ _ _ _ ih => exact List.mem_cons_of_mem _ ih

theorem Grown.root_or_next (hv : v ∈ seen) : v = root ∨ ∃ p, v ∈ next p := by
  induction h with
  | root => exact .inl (List.mem_singleton.mp hv)
  | @visit seen p q _ _ _ hnext _ ih =>
    rcases List.mem_cons.mp hv with rfl | hv
    · exact .inr ⟨p, hnext⟩
    · exact ih hv

/-- Predecessors of vertices that are not marked do not matter. -/
theorem Grown.congr {pred' : V → Option V} (heq : ∀ v ∈ seen, pred' v = pred v) : Grown next root pred' seen := by
  induction h with
  | root hroot => exact .root ((heq root List.mem_cons_self).trans hroot)
  | visit _ hp hq hnext hpred ih =>
    exact .visit (ih fun v hv => heq v (List.mem_cons_of_mem _ hv)) hp hq hnext
      ((heq _ List.mem_cons_self).trans hpred)

/-- A marked vertex can be reached. -/
theorem Grown.reachable (hv : v ∈ seen) : Relation.ReflTransGen (fun p q => q ∈ next p) root v := by
  induction h generalizing v with
  | root => exact List.mem_singleton.mp hv ▸ .refl
  | visit _ hp _ hnext _ ih =>
    rcases List.mem_cons.mp hv with rfl | hv
    · exact (ih hp).tail hnext
    · exact ih hv

/-- The way back from a marked vertex goes to the root, over marked vertices and over none twice. -/
theorem Grown.back (hv : v ∈ seen) :
    ∃ path, Back pred v path ∧ path.Nodup ∧ (∀ u ∈ path, u ∈ seen) ∧ path.getLast? = some root ∧
      path.IsChain (fun q p => q ∈ next p) := by
  induction h generalizing v with
  | root hroot =>
    obtain rfl := List.mem_singleton.mp hv
    exact ⟨[v], .stop hroot, List.nodup_singleton v, fun _ hu => hu, rfl, List.isChain_singleton v⟩
  | @visit seen p q _ hp hq hnext hpred ih =>
    rcases List.mem_cons.mp hv with rfl | hv
    · obtain ⟨path, hback, hnodup, hsub, hlast, hchain⟩ := ih hp
      have hpath : path ≠ [] := fun hnil => nomatch hnil ▸ hback.head
      refine ⟨v :: path, .step hpred hback, List.nodup_cons.mpr ⟨fun hmem => hq (hsub v hmem), hnodup⟩, ?_, ?_, ?_⟩
      · exact List.forall_mem_cons.mpr ⟨hv, fun u hu => List.mem_cons_of_mem v (hsub u hu)⟩
      · rw [List.getLast?_cons_of_ne_nil hpath, hlast]
      · refine List.isChain_cons.mpr ⟨fun u hu => ?_, hchain⟩
        rw [hback.head] at hu
        cases hu
        exact hnext
    · obtain ⟨path, hback, hnodup, hsub, hlast, hchain⟩ := ih hv
      exact ⟨path, hback, hnodup, fun u hu => List.mem_cons_of_mem q (hsub u hu), hlast, hchain⟩

end

end Tree

/-- A search that marks a vertex when it is put on the stack: the stack, the marked vertices, and from where a vertex
was found. -/
structure State (V : Type) where
  stack : List V
  seen : List V
  pred : V → Option V

def State.start (root : V) : State V := { stack := [root], seen := [root], pred := fun _ => none }

/-- How many rounds are left at most, for `n` vertices. -/
def State.weight (n : Nat) (s : State V) : Nat := 2 * (n - s.seen.length) + s.stack.length

section Invariant

variable {next : V → List V} {root goal p q : V} {current : Option V} {s : State V} {stack vertices : List V}

/-- The invariant of the search, while the successors of `current` are visited. The vertex `goal`, which ends the
search, was not taken from the stack. -/
structure Invariant (next : V → List V) (root goal : V) (current : Option V) (s : State V) : Prop where
  grown : Grown next root s.pred s.seen
  stack_nodup : s.stack.Nodup
  stack_seen : ∀ v ∈ s.stack, v ∈ s.seen
  closed : ∀ v ∈ s.seen, v ∉ s.stack → some v ≠ current → ∀ q ∈ next v, q ∈ s.seen
  goal_waits : goal ∈ s.seen → goal ∈ s.stack

theorem Invariant.start : Invariant next root goal none (State.start root) where
  grown := .root rfl
  stack_nodup := List.nodup_singleton root
  stack_seen := fun _ hv => hv
  closed := fun _ hv hstack => absurd hv hstack
  goal_waits := id

/-- A vertex that is not the goal is taken from the stack. -/
theorem Invariant.pop (h : Invariant next root goal none s) (hstack : s.stack = p :: stack) (hp : p ≠ goal) :
    Invariant next root goal (some p) { s with stack } ∧ p ∈ s.seen ∧ p ∉ stack := by
  obtain ⟨hgrown, hnodup, hseen, hclosed, hgoal⟩ := h
  rw [hstack] at hnodup hseen hclosed hgoal
  obtain ⟨hnotMem, hnodup⟩ := List.nodup_cons.mp hnodup
  refine ⟨⟨hgrown, hnodup, fun v hv => hseen v (List.mem_cons_of_mem p hv), ?_, ?_⟩,
    hseen p List.mem_cons_self, hnotMem⟩
  · intro v hv hvstack hcurrent
    refine hclosed v hv (fun hmem => ?_) nofun
    exact (List.mem_cons.mp hmem).elim (fun heq => hcurrent (congrArg some heq)) hvstack
  · exact fun hmem => (List.mem_cons.mp (hgoal hmem)).resolve_left fun heq => hp heq.symm

/-- With an empty stack everything that can be reached is marked, and the goal cannot be reached. -/
theorem Invariant.not_reachable (h : Invariant next root goal none s) (hstack : s.stack = []) :
    ¬Relation.ReflTransGen (fun p q => q ∈ next p) root goal := by
  have hseen : ∀ v, Relation.ReflTransGen (fun p q => q ∈ next p) root v → v ∈ s.seen := by
    intro v hv
    induction hv with
    | refl => exact h.grown.root_mem
    | @tail u w _ hnext ih => exact h.closed u ih (hstack ▸ List.not_mem_nil) nofun w hnext
  intro hgoal
  have hmem := h.goal_waits (hseen goal hgoal)
  rw [hstack] at hmem
  exact nomatch hmem

theorem Grown.subset {pred : V → Option V} {seen : List V} (h : Grown next root pred seen) (hroot : root ∈ vertices)
    (hnext : ∀ p ∈ vertices, ∀ q ∈ next p, q ∈ vertices) : seen ⊆ vertices := by
  induction h with
  | root => exact fun v hv => List.mem_singleton.mp hv ▸ hroot
  | visit _ hp _ hq _ ih =>
    exact fun v hv => (List.mem_cons.mp hv).elim (fun heq => heq ▸ hnext _ (ih hp) _ hq) fun hv => ih hv

/-- There are at most as many marked vertices, and at most as many on the stack, as there are vertices. -/
theorem Invariant.length_le (h : Invariant next root goal current s) (hroot : root ∈ vertices)
    (hnext : ∀ p ∈ vertices, ∀ q ∈ next p, q ∈ vertices) :
    s.seen.length ≤ vertices.length ∧ s.stack.length ≤ vertices.length := by
  have hsub := h.grown.subset hroot hnext
  exact ⟨(List.subperm_of_subset h.grown.nodup hsub).length_le,
    (List.subperm_of_subset h.stack_nodup fun v hv => hsub (h.stack_seen v hv)).length_le⟩

end Invariant

section Visit

variable [DecidableEq V] {next : V → List V} {root goal p q : V} {s : State V}

/-- The vertex `q` is found from `p`. -/
def State.visit (p : V) (s : State V) (q : V) : State V :=
  if q ∈ s.seen then s
  else { stack := q :: s.stack, seen := q :: s.seen, pred := Function.update s.pred q (some p) }

/-- The successors of `p`, which was taken from the stack, are visited. -/
def State.expand (next : V → List V) (p : V) (s : State V) : State V := (next p).foldl (State.visit p) s

section

variable (h : Invariant next root goal (some p) s)
include h

/-- A successor is visited. -/
theorem Invariant.visit (hp : p ∈ s.seen) (hstack : p ∉ s.stack)
    (hq : q ∈ next p) : Invariant next root goal (some p) (s.visit p q) ∧ p ∈ (s.visit p q).seen ∧
      p ∉ (s.visit p q).stack ∧ q ∈ (s.visit p q).seen ∧ ∀ v ∈ s.seen, v ∈ (s.visit p q).seen := by
  rw [State.visit]
  split
  next hseen => exact ⟨h, hp, hstack, hseen, fun _ hv => hv⟩
  next hseen =>
    have hpred : ∀ v ∈ s.seen, Function.update s.pred q (some p) v = s.pred v := by
      intro v hv
      have hne : v ≠ q := fun heq => hseen (heq ▸ hv)
      exact Function.update_of_ne hne _ _
    refine ⟨⟨.visit (h.grown.congr hpred) hp hseen hq (Function.update_self _ _ _), ?_, ?_, ?_, ?_⟩, ?_, ?_,
      List.mem_cons_self, fun v hv => List.mem_cons_of_mem q hv⟩
    · exact List.nodup_cons.mpr ⟨fun hmem => hseen (h.stack_seen q hmem), h.stack_nodup⟩
    · exact List.forall_mem_cons.mpr
        ⟨List.mem_cons_self, fun v hv => List.mem_cons_of_mem q (h.stack_seen v hv)⟩
    · intro v hv hvstack hcurrent u hu
      rw [List.mem_cons, not_or] at hvstack
      have hv := (List.mem_cons.mp hv).resolve_left hvstack.1
      exact List.mem_cons_of_mem q (h.closed v hv hvstack.2 hcurrent u hu)
    · intro hgoal
      rcases List.mem_cons.mp hgoal with rfl | hgoal
      · exact List.mem_cons_self
      · exact List.mem_cons_of_mem q (h.goal_waits hgoal)
    · exact List.mem_cons_of_mem q hp
    · rintro hmem
      rcases List.mem_cons.mp hmem with rfl | hmem
      · exact hseen hp
      · exact hstack hmem

/-- Successors are visited one after the other. -/
theorem Invariant.foldl_visit (hp : p ∈ s.seen) (hstack : p ∉ s.stack)
    {vs : List V} (hvs : ∀ q ∈ vs, q ∈ next p) : Invariant next root goal (some p) (vs.foldl (State.visit p) s) ∧
      (∀ q ∈ vs, q ∈ (vs.foldl (State.visit p) s).seen) ∧ ∀ v ∈ s.seen, v ∈ (vs.foldl (State.visit p) s).seen := by
  induction vs generalizing s with
  | nil => exact ⟨h, nofun, fun _ hv => hv⟩
  | cons q vs ih =>
    obtain ⟨hq, hvs⟩ := List.forall_mem_cons.mp hvs
    obtain ⟨hvisit, hp, hstack, hmem, hmono⟩ := h.visit hp hstack hq
    obtain ⟨hrest, hall, hseen⟩ := ih hvisit hp hstack hvs
    exact ⟨hrest, List.forall_mem_cons.mpr ⟨hseen q hmem, hall⟩, fun v hv => hseen v (hmono v hv)⟩

theorem Invariant.expand (hp : p ∈ s.seen) (hstack : p ∉ s.stack) :
    Invariant next root goal none (s.expand next p) := by
  obtain ⟨hinv, hall, -⟩ := h.foldl_visit hp hstack fun _ hq => hq
  refine ⟨hinv.grown, hinv.stack_nodup, hinv.stack_seen, fun v hv hvstack _ => ?_, hinv.goal_waits⟩
  by_cases hvp : v = p
  · rw [hvp]
    exact hall
  · exact hinv.closed v hv hvstack fun heq => hvp (Option.some_inj.mp heq)

end

theorem length_seen_foldl_visit (vs : List V) (s : State V) :
    s.seen.length ≤ (vs.foldl (State.visit p) s).seen.length := by
  induction vs generalizing s with
  | nil => exact Nat.le_refl _
  | cons q vs ih =>
    refine Nat.le_trans ?_ (ih (s.visit p q))
    rw [State.visit]
    split
    · exact Nat.le_refl _
    · exact Nat.le_succ _

theorem weight_foldl_visit_le {n : Nat} (vs : List V) (s : State V)
    (h : (vs.foldl (State.visit p) s).seen.length ≤ n) : (vs.foldl (State.visit p) s).weight n ≤ s.weight n := by
  induction vs generalizing s with
  | nil => exact Nat.le_refl _
  | cons q vs ih =>
    have hlength : (s.visit p q).seen.length ≤ n := Nat.le_trans (length_seen_foldl_visit vs _) h
    refine Nat.le_trans (ih (s.visit p q) h) ?_
    revert hlength
    rw [State.visit]
    split
    · exact fun _ => Nat.le_refl _
    · simp only [State.weight, List.length_cons]
      omega

end Visit

end search
