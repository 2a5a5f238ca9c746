import Mathlib.Order.Interval.Finset.Nat
import BasicDataStruct.ShortestPath.Greedy
import BasicDataStruct.Dijkstra.Loops

open machine machine.Exec shortest_path

namespace basic_data_struct.dijkstra

variable {g : Globals} {i : Nat} {S : Finset Nat}

/-- The state of the main loop: the marked vertices are those of `S`. -/
structure Rounds (n start : Nat) (edges : List Edge) (i : Nat) (g : Globals) (S : Finset Nat) : Prop where
  loaded : Loaded edges g
  vertices : ∀ v ∈ S, Vertex n v
  marked : ∀ v, Vertex n v → (g.mark v = 0 ↔ v ∉ S)
  count : i ≤ S.card
  greedy : Greedy (Linked edges) MAX.toInt (Vertex n) start (· ∈ S) fun v => (g.dist v).toInt

section Rounds

variable {n start : Nat} {edges : List Edge} (hn : n < LEN) (hstart : Vertex n start)
  (hedges : ∀ e ∈ edges, Vertex n e.a ∧ Vertex n e.b ∧ 0 ≤ e.d)
include hedges

theorem linked_bounds (u v : Nat) (c : Int) (hlink : Linked edges u v c) : Vertex n u ∧ Vertex n v ∧ 0 ≤ c := by
  obtain ⟨e, he, hjoin, rfl⟩ := hlink
  obtain ⟨ha, hb, hd⟩ := hedges e he
  have hd' : 0 ≤ e.d.toInt := Int32.le_iff_toInt_le.mp hd
  rcases hjoin with ⟨rfl, rfl⟩ | ⟨rfl, rfl⟩
  · exact ⟨ha, hb, hd'⟩
  · exact ⟨hb, ha, hd'⟩

include hn

/-- The entries of a row of the matrix lie between 0 and MAX. -/
theorem Loaded.bounds (hg : Loaded edges g) {u v : Nat} (hu : Vertex n u) (hv : Vertex n v) :
    0 ≤ (g.map u v).toInt ∧ (g.map u v).toInt ≤ MAX.toInt := by
  have hleast := hg u v (Nat.lt_of_le_of_lt hu.2 hn) (Nat.lt_of_le_of_lt hv.2 hn)
  refine ⟨?_, hleast.2 (Set.mem_insert _ _)⟩
  rcases hleast.1 with hmax | hlink
  · rw [hmax]
    exact toInt_MAX_nonneg
  · exact (linked_bounds hedges _ _ _ hlink).2.2

/-- Marking the nearest vertex `p` and relaxing its edges is one greedy step. -/
theorem Rounds.settle {p : Nat} (hinv : Rounds n start edges i g S)
    (hp : Vertex n p) (hfree : g.mark p = 0) (hlt : g.dist p < MAX)
    (hmin : ∀ v, Vertex n v → g.mark v = 0 → g.dist p ≤ g.dist v) :
    ∃ g', (forRange (fun j _ => relax_body p j) 1 n ()).run (g.setMark p 1) = .ok ((), g') ∧
      Rounds n start edges (i + 1) g' (insert p S) := by
  have hE := linked_bounds hedges
  have hout : p ∉ S := (hinv.marked p hp).mp hfree
  have hmarked : ∀ v, Vertex n v → ((g.setMark p 1).mark v = 0 ↔ v ∉ insert p S) := by
    intro v hv
    rw [Finset.mem_insert, not_or, ← hinv.marked v hv]
    by_cases hvp : v = p <;> simp [Globals.setMark, hvp]
  have hdist : ∀ v, Vertex n v → 0 ≤ (g.dist v).toInt ∧ (g.dist v).toInt ≤ MAX.toInt := fun v hv =>
    ⟨hinv.greedy.nonneg toInt_MAX_nonneg hE hv, hinv.greedy.le_cap v hv⟩
  have hmap : ∀ v, Vertex n v → 0 ≤ (g.map p v).toInt ∧ (g.map p v).toInt ≤ MAX.toInt := fun v hv =>
    hinv.loaded.bounds hn hedges hp hv
  have hpmark : (g.setMark p 1).mark p ≠ 0 := by simp [Globals.setMark]
  obtain ⟨g', hrun, hmap', hmark', hdist'⟩ := run_relax hn hp hpmark hdist hmap
  refine ⟨g', hrun, ?_, ?_, ?_, ?_, ?_⟩
  · intro u v hu hv
    rw [hmap']
    exact hinv.loaded u v hu hv
  · intro v hv
    rcases Finset.mem_insert.mp hv with rfl | hv
    · exact hp
    · exact hinv.vertices v hv
  · intro v hv
    rw [hmark']
    exact hmarked v hv
  · rw [Finset.card_insert_of_notMem hout]
    have hcount := hinv.count
    omega
  · have hset : (fun v => v ∈ S ∨ v = p) = (· ∈ insert p S) := by
      ext v
      rw [Finset.mem_insert, or_comm]
    rw [← hset]
    refine hinv.greedy.step (m := fun u v => (g.map u v).toInt) hE
      (fun v hv => hinv.loaded p v (Nat.lt_of_le_of_lt hp.2 hn) (Nat.lt_of_le_of_lt hv.2 hn))
      hp hout (Int32.lt_iff_toInt_lt.mp hlt) ?_ ?_ ?_
    · intro v hv hvS
      exact Int32.le_iff_toInt_le.mp (hmin v hv ((hinv.marked v hv).mpr hvS))
    · intro v hv
      have hvertex : Vertex n v := by
        rcases hv with hv | rfl
        · exact hinv.vertices v hv
        · exact hp
      have hin : v ∈ insert p S := by
        rw [Finset.mem_insert, or_comm]
        exact hv
      rw [hdist' v hvertex, if_neg fun h => (hmarked v hvertex).mp h.2 hin]
      rfl
    · intro v hv hvS hvp
      have hin : v ∉ insert p S := by
        rw [Finset.mem_insert, not_or]
        exact ⟨hvp, hvS⟩
      rw [hdist' v hv, if_pos ⟨by have := hv.2; omega, (hmarked v hv).mpr hin⟩]
      rfl

/-- A round marks a nearest vertex and relaxes its edges, or ends the search. -/
theorem rounds_step (hinv : Rounds n start edges i g S) (pos : Option Nat) :
    (∃ pos' g' S', (round_body n pos).run g = .ok (.inl pos', g') ∧ Rounds n start edges (i + 1) g' S') ∨
    ∃ pos', (round_body n pos).run g = .ok (.inr pos', g) ∧
      ∀ v, Vertex n v → v ∉ S → MAX.toInt ≤ (g.dist v).toInt := by
  obtain ⟨⟨min, pos'⟩, hrun, hnear⟩ := run_min hn g pos
  simp only [round_body, run_bind, hrun, run_ite]
  rcases hnear with ⟨rfl, hall⟩ | ⟨hlt, p, rfl, hp, hfree, rfl, hall⟩
  · right
    refine ⟨pos', by simp, fun v hv hout => ?_⟩
    exact Int32.le_iff_toInt_le.mp (hall v hv ((hinv.marked v hv).mpr hout))
  · left
    obtain ⟨g', hrelax, hinv'⟩ := hinv.settle hn hedges hp hfree hlt hall
    refine ⟨some p, g', insert p S, ?_, hinv'⟩
    have hne : g.dist p ≠ MAX := Int32.ne_of_lt hlt
    rw [if_neg hne]
    simp only [assigned_some, run_writeMark g (Nat.lt_of_le_of_lt hp.2 hn), hrelax, run_pure]

/-- The main loop ends with a `break`: there are not enough vertices for all of
its rounds to mark one. -/
theorem run_rounds (hinv : Rounds n start edges 1 g S) :
    ∃ pos g' S', (forBreak (fun _ pos => round_body n pos) 1 n none).run g = .ok (pos, g') ∧
      (∃ i, Rounds n start edges i g' S') ∧ ∀ v, Vertex n v → v ∉ S' → MAX.toInt ≤ (g'.dist v).toInt := by
  have hbody : ∀ i pos g, 1 ≤ i → i < 1 + n → (∃ S, Rounds n start edges i g S) →
      (∃ pos' g', (round_body n pos).run g = .ok (.inl pos', g') ∧ ∃ S, Rounds n start edges (i + 1) g' S) ∨
      ∃ pos' g', (round_body n pos).run g = .ok (.inr pos', g') ∧
        ∃ S, (∃ i, Rounds n start edges i g' S) ∧ ∀ v, Vertex n v → v ∉ S → MAX.toInt ≤ (g'.dist v).toInt := by
    rintro i pos g _ _ ⟨S, hinv⟩
    rcases rounds_step hn hedges hinv pos with ⟨pos', g', S', hrun, hinv'⟩ | ⟨pos', hrun, hrest⟩
    · exact .inl ⟨pos', g', hrun, S', hinv'⟩
    · exact .inr ⟨pos', g, hrun, S, ⟨i, hinv⟩, hrest⟩
  obtain ⟨pos, g', hrun, hend⟩ := forBreak_total (b := none) _ (fun _ g' => ∃ S, (∃ i, Rounds n start edges i g' S) ∧
    ∀ v, Vertex n v → v ∉ S → MAX.toInt ≤ (g'.dist v).toInt) hbody ⟨S, hinv⟩
  rcases hend with ⟨S', hinv', hrest⟩ | ⟨S', hinv'⟩
  · exact ⟨pos, g', S', hrun, hinv', hrest⟩
  · have hsub : S' ⊆ Finset.Icc 1 n := by
      intro v hv
      rw [Finset.mem_Icc]
      exact hinv'.vertices v hv
    have hcard := Finset.card_le_card hsub
    have hcount := hinv'.count
    rw [Nat.card_Icc] at hcard
    omega

/-- The statements of `myDijstra` before its main loop. -/
theorem run_start (hstart : Vertex n start) (hg : Loaded edges g) :
    ∃ g', (forRange (fun i _ => start_body start i) 1 n ()).run g = .ok ((), g') ∧
      Rounds n start edges 1 ((g'.setMark start 1).setDist start 0) {start} := by
  have hslen : start < LEN := Nat.lt_of_le_of_lt hstart.2 hn
  have hbody : ∀ i (b : Unit) g₁, 1 ≤ i → i < 1 + n →
      (g₁.map = g.map ∧ ∀ v, 1 ≤ v → v < i → g₁.mark v = 0 ∧ g₁.dist v = g.map start v) →
      ∃ b' g₂, (start_body start i).run g₁ = .ok (b', g₂) ∧
        (g₂.map = g.map ∧ ∀ v, 1 ≤ v → v < i + 1 → g₂.mark v = 0 ∧ g₂.dist v = g.map start v) := by
    rintro i _ g₁ hlo hhi ⟨hmap, hdone⟩
    have hilen : i < LEN := by omega
    refine ⟨(), ((g₁.setMark i 0).setDist i (g₁.map start i)), ?_, hmap, fun v hv hvi => ?_⟩
    · simp only [start_body, run_bind, run_writeMark _ hilen, run_readMap _ hslen hilen, run_writeDist _ hilen]
      rfl
    · by_cases hvi' : v = i
      · simp [Globals.setMark, Globals.setDist, hvi', hmap]
      · simpa [Globals.setMark, Globals.setDist, hvi'] using hdone v hv (by omega)
  obtain ⟨_, g', hrun, hmap, hdone⟩ := forRange_total (b := ()) (s := g) _ hbody ⟨rfl, fun v _ _ => by omega⟩
  refine ⟨g', hrun, ?_, ?_, ?_, ?_, ?_⟩
  · intro u v hu hv
    have hentry := hg u v hu hv
    rw [← hmap] at hentry
    exact hentry
  · intro v hv
    rw [Finset.mem_singleton.mp hv]
    exact hstart
  · intro v hv
    by_cases hvs : v = start
    · simp [Globals.setMark, Globals.setDist, hvs]
    · simpa [Globals.setMark, Globals.setDist, hvs] using (hdone v hv.1 (by have := hv.2; omega)).1
  · simp
  · have hset : (fun v => v = start) = (· ∈ ({start} : Finset Nat)) := by
      ext v
      rw [Finset.mem_singleton]
    rw [← hset]
    refine Greedy.init (m := fun u v => (g.map u v).toInt) toInt_MAX_nonneg (linked_bounds hedges)
      (fun v hv => hg start v hslen (Nat.lt_of_le_of_lt hv.2 hn)) ?_ ?_
    · simp [Globals.setDist]
    · intro v hv hvs
      simp [Globals.setDist, Globals.setMark, hvs, (hdone v hv.1 (by have := hv.2; omega)).2]

end Rounds

/-- After `main` has read a graph and run `myDijstra`, every distance is the
smaller of MAX and the length of a shortest walk from the start; a vertex that no
walk reaches keeps the distance MAX. -/
theorem main_computes_shortest (g : Globals) (n start : Nat) (edges : List Edge) (hn : n < LEN)
    (hstart : Vertex n start) (hedges : ∀ e ∈ edges, Vertex n e.a ∧ Vertex n e.b ∧ 0 ≤ e.d) :
    ∃ g', (main n start edges).run g = .ok ((), g') ∧ ∀ v, Vertex n v →
      IsLeast (insert MAX.toInt {len | Walk (Linked edges) start v len}) (g'.dist v).toInt ∧
      ((∀ len, ¬ Walk (Linked edges) start v len) → g'.dist v = MAX) := by
  have hends : ∀ e ∈ edges, e.a < LEN ∧ e.b < LEN := fun e he =>
    ⟨Nat.lt_of_le_of_lt (hedges e he).1.2 hn, Nat.lt_of_le_of_lt (hedges e he).2.1.2 hn⟩
  have hslen : start < LEN := Nat.lt_of_le_of_lt hstart.2 hn
  obtain ⟨g₁, hinit, hloaded⟩ := run_init g
  obtain ⟨g₂, hload, hloaded⟩ := run_load edges [] hloaded hends
  obtain ⟨g₃, hfirst, hrounds⟩ := run_start hn hedges hstart hloaded
  obtain ⟨pos, g', S, hloop, ⟨i, hfinal⟩, hrest⟩ := run_rounds hn hedges hrounds
  refine ⟨g', ?_, fun v hv => ?_⟩
  · rw [main, run_bind_of_ok hinit, run_bind_of_ok hload, myDijstra, run_bind_of_ok hfirst,
      run_bind_of_ok (run_writeMark g₃ hslen 1), run_bind_of_ok (run_writeDist _ hslen 0), run_bind_of_ok hloop,
      run_pure]
  · have hexact := hfinal.greedy.exact (linked_bounds hedges) hrest hv
    refine ⟨hexact, fun hunreach => ?_⟩
    rcases hexact.1 with hmax | hwalk
    · exact Int32.toInt_inj.mp hmax
    · exact absurd hwalk (hunreach _)

/-- A graph with parallel edges, a self-loop and an isolated vertex. -/
theorem main_computes_shortest_example :
    ∃ g', (main 4 1 [⟨1, 2, 10⟩, ⟨2, 1, 7⟩, ⟨2, 2, 3⟩, ⟨2, 3, 5⟩]).run ⟨fun _ _ => 0, fun _ => 0, fun _ => 0⟩ =
      .ok ((), g') ∧ ∀ v, Vertex 4 v →
        IsLeast (insert MAX.toInt {len | Walk (Linked [⟨1, 2, 10⟩, ⟨2, 1, 7⟩, ⟨2, 2, 3⟩, ⟨2, 3, 5⟩]) 1 v len})
          (g'.dist v).toInt ∧
        ((∀ len, ¬ Walk (Linked [⟨1, 2, 10⟩, ⟨2, 1, 7⟩, ⟨2, 2, 3⟩, ⟨2, 3, 5⟩]) 1 v len) → g'.dist v = MAX) :=
  main_computes_shortest _ 4 1 _ (by decide) (by decide) (by decide)

end basic_data_struct.dijkstra
