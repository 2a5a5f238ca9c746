import BasicDataStruct.RedBlack.Height
import BasicDataStruct.RbTree.Correctness

open machine machine.Exec red_black

namespace basic_data_struct.rbtree

/-- Some way down the child links from `p` to NULL crosses `k` nodes. -/
inductive NullPath (h : Heap rb_node_t) : Ptr → Nat → Prop where
  | null : NullPath h none 0
  | node {a k : Nat} {n : rb_node_t} (s : Side) (hn : h.cells a = some n) (hpath : NullPath h (n.child s) k) :
      NullPath h (some a) (k + 1)

variable {h : Heap rb_node_t} {root : Ptr} {t : RBTree Cell}

/-- The height of the spelled tree is the length of a way down to NULL. -/
theorem Spells.nullPath_height {p : Ptr} (hs : Spells h p t) : NullPath h (ptr t) t.height := by
  induction t generalizing p with
  | nil => exact .null
  | node c l x r ihl ihr =>
    obtain ⟨hx, hl, hr⟩ := hs
    rcases Nat.le_total l.height r.height with hle | hle
    · rw [RBTree.height, Nat.max_eq_right hle]
      exact .node .right hx (ihr hr)
    · rw [RBTree.height, Nat.max_eq_left hle]
      exact .node .left hx (ihl hl)

/-- No way down to NULL is longer. -/
theorem Spells.nullPath_le_height {p : Ptr} {k : Nat} (hs : Spells h p t) (hpath : NullPath h (ptr t) k) :
    k ≤ t.height := by
  induction t generalizing p k with
  | nil =>
    cases hpath
    exact Nat.le_refl 0
  | node c l x r ihl ihr =>
    obtain ⟨hx, hl, hr⟩ := hs
    cases hpath with
    | node s hn hpath =>
      obtain rfl := Option.some.inj (hx.symm.trans hn)
      cases s with
      | left => exact Nat.succ_le_succ (Nat.le_trans (ihl hl hpath) (Nat.le_max_left _ _))
      | right => exact Nat.succ_le_succ (Nat.le_trans (ihr hr hpath) (Nat.le_max_right _ _))

/-- The search is at a node whose subtree has height `n`. -/
def LevelInv (h : Heap rb_node_t) (n : Nat) (locals : Ptr × Ptr) (h' : Heap rb_node_t) : Prop :=
  h' = h ∧ ∃ p t, Spells h p t ∧ locals.1 = ptr t ∧ t.height = n

/-- A round of the search goes down at least one level, whatever the keys are, or
is the last one. -/
theorem levelInv_step (key : key_t) (save : Ptr) (n : Nat) (locals : Ptr × Ptr) (h' : Heap rb_node_t)
    (hinv : LevelInv h n locals h') :
    (∃ m next h'', m < n ∧ (rb_search_auxiliary_body key save locals).run h' = .ok (.inl next, h'') ∧
      LevelInv h m next h'') ∨
    ∃ res h'', (rb_search_auxiliary_body key save locals).run h' = .ok (.inr res, h'') ∧ h'' = h := by
  obtain ⟨node, parent⟩ := locals
  obtain ⟨rfl, p, t, hs, hnode, rfl⟩ := hinv
  simp only at hnode
  subst hnode
  cases t with
  | nil => exact .inr ⟨_, _, rfl, rfl⟩
  | node c l x r =>
    rw [ptr_node, hs.run_search_node]
    obtain ⟨_, hl, hr⟩ := hs
    by_cases hpos : 0 < x.key - key
    · rw [if_pos hpos]
      exact .inl ⟨_, _, _, by rw [RBTree.height]; omega, rfl, rfl, _, l, hl, rfl, rfl⟩
    · rw [if_neg hpos]
      by_cases hneg : x.key - key < 0
      · rw [if_pos hneg]
        exact .inl ⟨_, _, _, by rw [RBTree.height]; omega, rfl, rfl, _, r, hr, rfl, rfl⟩
      · rw [if_neg hneg]
        exact .inr ⟨_, _, rfl, rfl⟩

/-- A search takes at most one round for each level, and one that tests a NULL
pointer. -/
theorem Repr.run_search_of_height (hr : Repr h root t) (key : key_t) (save : Ptr) :
    ∃ res, ∀ fuel, t.height < fuel → (rb_search_auxiliary fuel key root save).run h = .ok (res, h) := by
  have hinit : LevelInv h t.height (root, none) h := ⟨rfl, _, t, hr.spells, hr.root_eq, rfl⟩
  obtain ⟨res, h', hrun, rfl⟩ := loop_total (LevelInv h) (fun (_ : Ptr × Ptr) h' => h' = h)
    (levelInv_step key save) hinit
  exact ⟨res, hrun⟩

/-- A search that goes on below a node takes one round more than below it. -/
theorem search_ge_of_next {u : RBTree Cell} {key : key_t} {a n : Nat}
    (hround : ∀ save parent, (rb_search_auxiliary_body key save (some a, parent)).run h =
      .ok (.inl (ptr u, some a), h))
    (hbelow : ∀ save parent fuel, fuel < n →
      (loop (rb_search_auxiliary_body key save) fuel (ptr u, parent)).run h = .error .fuel)
    (save parent : Ptr) (fuel : Nat) (hfuel : fuel < n + 1) :
    (loop (rb_search_auxiliary_body key save) fuel (some a, parent)).run h = .error .fuel := by
  cases fuel with
  | zero => rfl
  | succ fuel => rw [run_loop_next (hround save parent), hbelow save _ fuel (by omega)]

/-- The key of a deepest node needs as many rounds as the tree is high. -/
theorem Spells.exists_search_ge_height {p : Ptr} (hs : Spells h p t) (hsorted : Sorted t)
    (hagree : ∀ x ∈ t.toList, ∀ y ∈ t.toList, Agree x.key y.key) (hne : t ≠ .nil) :
    ∃ y ∈ t.toList, ∀ save parent fuel, fuel < t.height →
      (loop (rb_search_auxiliary_body y.key save) fuel (ptr t, parent)).run h = .error .fuel := by
  induction t generalizing p with
  | nil => exact absurd rfl hne
  | node c l x r ihl ihr =>
    have hround := hs.run_search_node
    obtain ⟨_, hl, hr⟩ := hs
    rw [Sorted, RBTree.toList, List.pairwise_append, List.pairwise_cons] at hsorted
    obtain ⟨hsl, ⟨hxr, hsr⟩, hlx⟩ := hsorted
    simp only [RBTree.toList, List.mem_append, List.mem_cons] at hagree ⊢
    -- the deepest node lies in the higher subtree, unless both are empty
    by_cases hleaf : max l.height r.height = 0
    · refine ⟨x, .inr (.inl rfl), fun save parent fuel hfuel => ?_⟩
      rw [RBTree.height, hleaf] at hfuel
      obtain rfl : fuel = 0 := by omega
      rfl
    rcases Nat.le_total l.height r.height with hle | hle
    · rw [Nat.max_eq_right hle] at hleaf
      have hne' : r ≠ .nil := fun hnil => hleaf (by rw [hnil, RBTree.height])
      obtain ⟨y, hy, hdeep⟩ := ihr hr hsr
        (fun a ha b hb => hagree a (.inr (.inr ha)) b (.inr (.inr hb))) hne'
      have hxy : Agree x.key y.key := hagree x (.inr (.inl rfl)) y (.inr (.inr hy))
      refine ⟨y, .inr (.inr hy), fun save parent fuel hfuel => search_ge_of_next (fun save parent => ?_) hdeep
        save parent fuel (by rwa [RBTree.height, Nat.max_eq_right hle] at hfuel)⟩
      rw [hround, if_neg ((sub_pos_iff_of_agree hxy).not.mpr (Int32.not_lt.mpr (Int32.le_of_lt (hxr y hy)))),
        if_pos ((sub_neg_iff_of_agree hxy).mpr (hxr y hy))]
    · rw [Nat.max_eq_left hle] at hleaf
      have hne' : l ≠ .nil := fun hnil => hleaf (by rw [hnil, RBTree.height])
      obtain ⟨y, hy, hdeep⟩ := ihl hl hsl (fun a ha b hb => hagree a (.inl ha) b (.inl hb)) hne'
      have hxy : Agree x.key y.key := hagree x (.inr (.inl rfl)) y (.inl hy)
      refine ⟨y, .inl hy, fun save parent fuel hfuel => search_ge_of_next (fun save parent => ?_) hdeep
        save parent fuel (by rwa [RBTree.height, Nat.max_eq_left hle] at hfuel)⟩
      rw [hround, if_pos ((sub_pos_iff_of_agree hxy).mpr (hlx y hy x (List.mem_cons_self ..)))]

/-- A tree that calls with non-negative keys reach is at most twice as high as the
logarithm of its size: with `height` the number of nodes on the longest way from
the root to NULL and `n` the number of nodes, `2 ^ height ≤ (n + 1) ^ 2`. The
height bounds the iterations of a search, whatever the key is (one further round
only tests the NULL pointer at which the search stops), and the key of some node
needs that many. -/
theorem height_of_reachable (hreach : Reachable root h) :
    ∃ height nodes, Inorder h root nodes ∧ 2 ^ height ≤ (nodes.length + 1) ^ 2 ∧
      (NullPath h root height ∧ ∀ k, NullPath h root k → k ≤ height) ∧
      (∀ key save, ∃ res, ∀ fuel, height < fuel → (rb_search_auxiliary fuel key root save).run h = .ok (res, h)) ∧
      (root ≠ none → ∃ n ∈ nodes, ∀ save fuel, fuel < height →
        (rb_search_auxiliary fuel n.key root save).run h = .error .fuel) := by
  obtain ⟨t, m, hold⟩ := hreach.holds
  obtain ⟨b, hbal⟩ := hold.balanced
  have hs := hold.repr.spells
  have hroot := hold.repr.root_eq
  obtain ⟨nodes, hwalk, hmap⟩ := hs.inorder
  have hlen : nodes.length = t.toList.length := by simpa using congrArg List.length hmap
  refine ⟨t.height, nodes, hroot ▸ hwalk, hlen ▸ hbal.two_pow_height_le,
    ⟨hroot ▸ hs.nullPath_height, fun k hpath => hs.nullPath_le_height (hroot ▸ hpath)⟩,
    hold.repr.run_search_of_height, fun hne => ?_⟩
  have hnil : t ≠ .nil := fun hnil => hne (by rw [hroot, hnil, ptr_nil])
  obtain ⟨y, hy, hdeep⟩ := hs.exists_search_ge_height hold.sorted
    (fun a ha b hb => agree_of_nonneg (hold.keys a ha) (hold.keys b hb)) hnil
  have hpair : (y.key, y.data) ∈ nodes.map fun n => (n.key, n.data) := by
    rw [hmap]
    exact List.mem_map_of_mem hy
  obtain ⟨n, hn, hkey⟩ := List.mem_map.mp hpair
  refine ⟨n, hn, fun save fuel hfuel => ?_⟩
  rw [(Prod.mk.inj hkey).1, hroot]
  exact hdeep save none fuel hfuel

/-- The tree of ten ascending insertions and an erasure, which rotates the root. A search
takes at most `height` rounds, and one for the key of a deepest node takes them all. -/
theorem height_of_reachable_rotated :
    ∃ root h height nodes, (execAll 12 (ascending ++ [.erase 1]) none).run (.empty fun _ => default) = .ok (root, h) ∧
      Inorder h root nodes ∧ 2 ^ height ≤ (nodes.length + 1) ^ 2 ∧ NullPath h root height ∧
      (∀ k, NullPath h root k → k ≤ height) ∧
      (∃ res, ∀ fuel, height < fuel → (rb_search_auxiliary fuel 10 root none).run h = .ok (res, h)) ∧
      ∃ n ∈ nodes, ∀ fuel, fuel < height → (rb_search_auxiliary fuel n.key root none).run h = .error .fuel := by
  have hkeys : ∀ call ∈ ascending ++ [.erase 1], 0 ≤ call.key := by decide
  obtain ⟨root, h, _, hruns, _⟩ := holds_execAll (fun _ => default) (ascending ++ [.erase 1]) hkeys
  have hrun := hruns 12 (by decide)
  obtain ⟨height, nodes, hwalk, hpow, ⟨hpath, hmax⟩, hsearch, hdeep⟩ := height_of_reachable ⟨_, 12, _, hkeys, hrun⟩
  have hroot : ((execAll 12 (ascending ++ [.erase 1]) none).run (.empty fun _ => default)).map Prod.fst =
      .ok (some 5) := by decide
  rw [hrun] at hroot
  cases hroot
  obtain ⟨n, hn, hslow⟩ := hdeep nofun
  exact ⟨some 5, h, height, nodes, hrun, hwalk, hpow, hpath, hmax, hsearch 10 none, n, hn, hslow none⟩

end basic_data_struct.rbtree
