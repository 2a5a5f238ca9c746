import Mathlib.Order.Bounds.Basic

namespace shortest_path

variable {V : Type}

/-- A walk from `s` and its length, in the graph with the weighted edges `E`. -/
inductive Walk (E : V → V → Int → Prop) (s : V) : V → Int → Prop where
  | nil : Walk E s s 0
  | snoc {u v : V} {len c : Int} (hwalk : Walk E s u len) (hedge : E u v c) : Walk E s v (len + c)

/-- The greedy search for shortest walks from `s` among the vertices `P`, with
the settled vertices `S` and the tentative distances `d`. Distances do not exceed
`cap`, which stands for no walk at all. -/
structure Greedy (E : V → V → Int → Prop) (cap : Int) (P : V → Prop) (s : V) (S : V → Prop) (d : V → Int) :
    Prop where
  source : S s ∧ d s = 0
  le_cap : ∀ v, P v → d v ≤ cap
  attained : ∀ v, P v → d v = cap ∨ Walk E s v (d v)
  ordered : ∀ u v, P v → S u → ¬ S v → d u ≤ d v
  relaxed : ∀ u v c, S u → E u v c → d v ≤ d u + c

section

variable {E : V → V → Int → Prop} {cap : Int} {P : V → Prop} {s : V} {S : V → Prop} {d : V → Int}
  {m : V → V → Int}

theorem Walk.nonneg {v : V} {len : Int} (hwalk : Walk E s v len) (hE : ∀ u v c, E u v c → P u ∧ P v ∧ 0 ≤ c) :
    0 ≤ len := by
  induction hwalk with
  | nil => exact le_refl _
  | snoc _ hedge ih =>
    have hc := (hE _ _ _ hedge).2.2
    omega

theorem Greedy.nonneg (hg : Greedy E cap P s S d) (hcap : 0 ≤ cap) (hE : ∀ u v c, E u v c → P u ∧ P v ∧ 0 ≤ c)
    {v : V} (hv : P v) : 0 ≤ d v := by
  rcases hg.attained v hv with hmax | hwalk
  · rw [hmax]
    exact hcap
  · exact hwalk.nonneg hE

/-- At the start only the source is settled, and the distances are the lengths of
the edges from the source. -/
theorem Greedy.init (hcap : 0 ≤ cap) (hE : ∀ u v c, E u v c → P u ∧ P v ∧ 0 ≤ c)
    (hm : ∀ v, P v → IsLeast (insert cap {c | E s v c}) (m s v)) (hs : d s = 0)
    (hd : ∀ v, P v → v ≠ s → d v = m s v) : Greedy E cap P s (· = s) d where
  source := ⟨rfl, hs⟩
  le_cap := by
    intro v hv
    by_cases hvs : v = s
    · rw [hvs, hs]
      exact hcap
    · rw [hd v hv hvs]
      exact (hm v hv).2 (Set.mem_insert _ _)
  attained := by
    intro v hv
    by_cases hvs : v = s
    · rw [hvs, hs]
      exact .inr .nil
    · rw [hd v hv hvs]
      rcases (hm v hv).1 with hmax | hedge
      · exact .inl hmax
      · have hwalk := Walk.nil.snoc hedge
        rw [Int.zero_add] at hwalk
        exact .inr hwalk
  ordered := by
    rintro u v hv rfl hvs
    rw [hs, hd v hv hvs]
    rcases (hm v hv).1 with hmax | hedge
    · rw [hmax]
      exact hcap
    · exact (hE _ _ _ hedge).2.2
  relaxed := by
    rintro u v c rfl hedge
    obtain ⟨_, hv, hc⟩ := hE _ _ _ hedge
    by_cases hvu : v = u
    · rw [hvu]
      omega
    · have hle := (hm v hv).2 (Set.mem_insert_of_mem _ hedge)
      rw [hd v hv hvu]
      omega

/-- Settling the nearest vertex `p` and relaxing the edges from it. -/
theorem Greedy.step {p : V} {d' : V → Int} (hg : Greedy E cap P s S d) (hE : ∀ u v c, E u v c → P u ∧ P v ∧ 0 ≤ c)
    (hm : ∀ v, P v → IsLeast (insert cap {c | E p v c}) (m p v)) (hp : P p) (hfree : ¬ S p) (hlt : d p < cap)
    (hmin : ∀ v, P v → ¬ S v → d p ≤ d v) (hkept : ∀ v, S v ∨ v = p → d' v = d v)
    (hrelax : ∀ v, P v → ¬ S v → v ≠ p → d' v = min (d v) (d p + m p v)) :
    Greedy E cap P s (fun v => S v ∨ v = p) d' := by
  have hpos : 0 ≤ d p := by
    rw [← hg.source.2]
    exact hg.ordered s p hp hg.source.1 hfree
  have hm_nonneg : ∀ v, P v → 0 ≤ m p v := by
    intro v hv
    rcases (hm v hv).1 with hmax | hedge
    · omega
    · exact (hE _ _ _ hedge).2.2
  have hshrink : ∀ v, P v → d' v ≤ d v := by
    intro v hv
    by_cases hset : S v ∨ v = p
    · rw [hkept v hset]
    · rw [hrelax v hv (fun h => hset (.inl h)) (fun h => hset (.inr h))]
      omega
  refine ⟨⟨.inl hg.source.1, (hkept s (.inl hg.source.1)).trans hg.source.2⟩, ?_, ?_, ?_, ?_⟩
  · intro v hv
    exact (hshrink v hv).trans (hg.le_cap v hv)
  · intro v hv
    by_cases hset : S v ∨ v = p
    · rw [hkept v hset]
      exact hg.attained v hv
    · rw [hrelax v hv (fun h => hset (.inl h)) (fun h => hset (.inr h))]
      by_cases hshort : d v ≤ d p + m p v
      · rw [min_eq_left hshort]
        exact hg.attained v hv
      · rw [min_eq_right (by omega)]
        have hcapv := hg.le_cap v hv
        have hwalk := (hg.attained p hp).resolve_left (by omega)
        rcases (hm v hv).1 with hmax | hedge
        · omega
        · exact .inr (hwalk.snoc hedge)
  · intro u v hv hu hout
    rw [not_or] at hout
    rw [hkept u hu, hrelax v hv hout.1 hout.2]
    have hup : d u ≤ d p := by
      rcases hu with hu | rfl
      · exact hg.ordered u p hp hu hfree
      · exact le_refl _
    have hpv := hmin v hv hout.1
    have hmv := hm_nonneg v hv
    omega
  · intro u v c hu hedge
    obtain ⟨_, hv, hc⟩ := hE _ _ _ hedge
    rw [hkept u hu]
    rcases hu with hu | rfl
    · exact (hshrink v hv).trans (hg.relaxed u v c hu hedge)
    · by_cases hset : S v ∨ v = u
      · rw [hkept v hset]
        rcases hset with hset | rfl
        · have hle := hg.ordered v u hp hset hfree
          omega
        · omega
      · have hle := (hm v hv).2 (Set.mem_insert_of_mem _ hedge)
        rw [hrelax v hv (fun h => hset (.inl h)) (fun h => hset (.inr h))]
        omega

/-- When every vertex that is not settled is at the cap, all distances are exact. -/
theorem Greedy.exact (hg : Greedy E cap P s S d) (hE : ∀ u v c, E u v c → P u ∧ P v ∧ 0 ≤ c)
    (hrest : ∀ v, P v → ¬ S v → cap ≤ d v) {v : V} (hv : P v) :
    IsLeast (insert cap {len | Walk E s v len}) (d v) := by
  have hlower : ∀ w len, Walk E s w len → d w ≤ len := by
    intro w len hwalk
    induction hwalk with
    | nil => exact le_of_eq hg.source.2
    | @snoc u w len c _ hedge ih =>
      obtain ⟨hu, hw, hc⟩ := hE _ _ _ hedge
      by_cases hset : S u
      · have hle := hg.relaxed u w c hset hedge
        omega
      · have hfar := hrest u hu hset
        have hcap := hg.le_cap w hw
        omega
  refine ⟨hg.attained v hv, ?_⟩
  rintro len (rfl | hwalk)
  · exact hg.le_cap v hv
  · exact hlower v len hwalk

end

end shortest_path
