import BasicDataStruct.RbTree.History
import BasicDataStruct.RbTree.WellFormed

open machine machine.Exec red_black

namespace basic_data_struct.rbtree

variable {K : key_t → Prop} {h : Heap rb_node_t} {root : Ptr} {t : RBTree Cell} {m : Contents}

/-- Non-negative keys, as `main` passes them, never overflow the subtraction. -/
theorem agree_of_nonneg {a b : key_t} (ha : 0 ≤ a) (hb : 0 ≤ b) : Agree a b := by
  have ha' : (0 : key_t).toInt ≤ a.toInt := Int32.le_iff_toInt_le.mp ha
  have hb' : (0 : key_t).toInt ≤ b.toInt := Int32.le_iff_toInt_le.mp hb
  have halt := a.toInt_lt
  have hblt := b.toInt_lt
  have hzero : (0 : key_t).toInt = 0 := rfl
  unfold Agree
  omega

theorem Holds.wellFormed (hold : Holds K h root t m) : WellFormed h root := by
  obtain ⟨n, hbal⟩ := hold.balanced
  exact hold.repr.wellFormed hbal hold.sorted

/-- The in-order walk lists the pairs of the map by increasing keys. -/
theorem Holds.inorder (hold : Holds K h root t m) :
    ∃ nodes, Inorder h root nodes ∧ nodes.Pairwise (fun n n' => n.key < n'.key) ∧
      ∀ key data, (∃ n ∈ nodes, n.key = key ∧ n.data = data) ↔ m key = some data := by
  obtain ⟨nodes, hwalk, hsorted⟩ := hold.wellFormed.ordered
  obtain ⟨nodes', hwalk', hmap⟩ := hold.repr.spells.inorder
  rw [← hold.repr.root_eq] at hwalk'
  obtain rfl := hwalk.unique hwalk'
  refine ⟨nodes, hwalk, hsorted, fun key data => ?_⟩
  have hpair : (∃ n ∈ nodes, n.key = key ∧ n.data = data) ↔ (key, data) ∈ nodes.map fun n => (n.key, n.data) := by
    simp
  rw [hpair, hmap, ← hold.mem_iff]
  simp

/-- A search returns a node with the mapped data, or NULL for a key that is not
in the map. Only the keys of the map have to agree with each other. -/
theorem Holds.search (hagree : ∀ a b, K a → K b → Agree a b) (hold : Holds K h root t m) (key : key_t) :
    ∃ res, (∀ fuel, t.toList.length < fuel → (rb_search fuel key root).run h = .ok (res, h)) ∧
      match m key with
      | some data => ∃ a n, res = some a ∧ h.cells a = some n ∧ n.key = key ∧ n.data = data
      | none => res = none := by
  by_cases hmem : ∃ x ∈ t.toList, x.key = key
  · obtain ⟨y, hy, rfl⟩ := hmem
    have hwith : ∀ x ∈ t.toList, Agree x.key y.key := fun x hx => hagree _ _ (hold.keys x hx) (hold.keys y hy)
    obtain ⟨res, hrun, hfound⟩ := run_rb_search_auxiliary hold.repr hold.sorted hwith none
    cases hfound with
    | miss htree hp => exact absurd ⟨y, htree ▸ hy, rfl⟩ hp.notMem
    | @hit ctx c l r x htree hkey =>
      have hx : x ∈ t.toList := by simp [htree, Ctx.toList_plug, RBTree.toList]
      have hdata : m y.key = some x.data := (hold.mem_iff _ _).mp ⟨x, hx, hkey, rfl⟩
      have hr := hold.repr
      rw [htree] at hr
      refine ⟨some x.addr, fun fuel hfuel => ?_, ?_⟩
      · simp [rb_search, run_bind, hrun fuel hfuel]
      · rw [hdata]
        exact ⟨x.addr, _, rfl, hr.cells_focus (s := .left), hkey, rfl⟩
  · obtain ⟨save, hrun⟩ := run_rb_search_auxiliary_of_notMem hold.repr hmem none
    have hnone : m key = none := by
      by_contra hsome
      exact hmem ((hold.isSome_iff key).mpr hsome)
    refine ⟨none, fun fuel hfuel => ?_, ?_⟩
    · simp [rb_search, run_bind, hrun fuel hfuel]
    · rw [hnone]

/-- What the program's calls with non-negative keys reach from the NULL tree. -/
theorem holds_execAll (raw : Nat → rb_node_t) (calls : List Call) (hkeys : ∀ call ∈ calls, 0 ≤ call.key) :
    ∃ root h t, (∀ fuel, calls.length < fuel → (execAll fuel calls none).run (.empty raw) = .ok (root, h)) ∧
      Holds (0 ≤ ·) h root t (contents calls) ∧ t.toList.length ≤ calls.length := by
  have hagree : ∀ a b : key_t, 0 ≤ a → 0 ≤ b → Agree a b := fun a b => agree_of_nonneg
  obtain ⟨root, h, t, hrun, hold, hlen⟩ := (Holds.empty (0 ≤ ·) raw).execAll hagree calls hkeys
  simp only [RBTree.toList, List.length_nil, Nat.zero_add] at hrun hlen
  exact ⟨root, h, t, hrun, hold, hlen⟩

/-- Every sequence of insertions and erasures with non-negative keys completes
and leaves a heap of nodes that is a red-black tree, node by node. -/
theorem execAll_wellFormed (raw : Nat → rb_node_t) (calls : List Call) (hkeys : ∀ call ∈ calls, 0 ≤ call.key) :
    ∃ root h, (∀ fuel, calls.length < fuel → (execAll fuel calls none).run (.empty raw) = .ok (root, h)) ∧
      WellFormed h root := by
  obtain ⟨root, h, t, hrun, hold, _⟩ := holds_execAll raw calls hkeys
  exact ⟨root, h, hrun, hold.wellFormed⟩

/-- An erasure of a node with two children, after three insertions. -/
theorem execAll_wellFormed_example :
    ∃ root h, (∀ fuel, 4 < fuel →
        (execAll fuel [.insert 2 20, .insert 1 10, .insert 3 30, .erase 2] none).run (.empty fun _ => default) =
          .ok (root, h)) ∧ WellFormed h root :=
  execAll_wellFormed _ [.insert 2 20, .insert 1 10, .insert 3 30, .erase 2] (by decide)

/-- The tree refines the finite map of its calls: the in-order walk is the sorted
list of the map, a search returns the mapped data, and a call that does not
change the map leaves the root and every node as they were. -/
theorem execAll_refines_contents (raw : Nat → rb_node_t) (calls : List Call)
    (hkeys : ∀ call ∈ calls, 0 ≤ call.key) :
    ∃ root h, (∀ fuel, calls.length < fuel → (execAll fuel calls none).run (.empty raw) = .ok (root, h)) ∧
      (∃ nodes, Inorder h root nodes ∧ nodes.Pairwise (fun n n' => n.key < n'.key) ∧
        ∀ key data, (∃ n ∈ nodes, n.key = key ∧ n.data = data) ↔ contents calls key = some data) ∧
      (∀ key, ∃ res, (∀ fuel, calls.length < fuel → (rb_search fuel key root).run h = .ok (res, h)) ∧
        match contents calls key with
        | some data => ∃ a n, res = some a ∧ h.cells a = some n ∧ n.key = key ∧ n.data = data
        | none => res = none) ∧
      (∀ key data, 0 ≤ key → contents calls key ≠ none → ∀ fuel, calls.length < fuel →
        (rb_insert fuel key data root).run h = .ok (root, h)) ∧
      (∀ key, 0 ≤ key → contents calls key = none → ∀ fuel, calls.length < fuel →
        (rb_erase fuel key root).run h = .ok (root, h)) := by
  have hagree : ∀ a b : key_t, 0 ≤ a → 0 ≤ b → Agree a b := fun a b => agree_of_nonneg
  obtain ⟨root, h, t, hrun, hold, hlen⟩ := holds_execAll raw calls hkeys
  refine ⟨root, h, hrun, hold.inorder, fun key => ?_, fun key data hkey hin fuel hfuel => ?_,
    fun key hkey hout fuel hfuel => ?_⟩
  · obtain ⟨res, hsearch, hres⟩ := hold.search hagree key
    exact ⟨res, fun fuel hfuel => hsearch fuel (by omega), hres⟩
  · have hwith : ∀ x ∈ t.toList, Agree x.key key := fun x hx => agree_of_nonneg (hold.keys x hx) hkey
    exact hold.repr.run_rb_insert_of_mem hold.sorted hwith ((hold.isSome_iff key).mpr hin) data (by omega)
  · have hwith : ∀ x ∈ t.toList, Agree x.key key := fun x hx => agree_of_nonneg (hold.keys x hx) hkey
    exact hold.repr.run_rb_erase_of_notMem hold.sorted hwith ((hold.isSome_iff key).not.mpr (not_not.mpr hout))
      (by omega)

/-- A duplicate insertion, and the erasure of a present and of an absent key. -/
theorem execAll_refines_contents_example :
    ∃ root h, (∀ fuel, 4 < fuel →
        (execAll fuel [.insert 2 20, .insert 1 10, .insert 2 99, .erase 1] none).run (.empty fun _ => default) =
          .ok (root, h)) ∧
      (∃ a n, (∀ fuel, 4 < fuel → (rb_search fuel 2 root).run h = .ok (some a, h)) ∧ h.cells a = some n ∧
        n.key = 2 ∧ n.data = 20) ∧
      (∀ fuel, 4 < fuel → (rb_search fuel 1 root).run h = .ok (none, h)) ∧
      (∀ fuel, 4 < fuel → (rb_insert fuel 2 7 root).run h = .ok (root, h)) ∧
      ∀ fuel, 4 < fuel → (rb_erase fuel 1 root).run h = .ok (root, h) := by
  obtain ⟨root, h, hrun, _, hsearch, hinsert, herase⟩ := execAll_refines_contents (fun _ => default)
    [.insert 2 20, .insert 1 10, .insert 2 99, .erase 1] (by decide)
  obtain ⟨res₂, hsearch₂, a, n, rfl, hcell, hkey, hdata⟩ := hsearch 2
  obtain ⟨res₁, hsearch₁, rfl⟩ := hsearch 1
  exact ⟨root, h, hrun, ⟨a, n, hsearch₂, hcell, hkey, hdata⟩, hsearch₁, hinsert 2 7 (by decide) (by decide),
    herase 1 (by decide) (by decide)⟩

/-- The trees that calls with non-negative keys reach from the NULL tree. -/
def Reachable (root : Ptr) (h : Heap rb_node_t) : Prop :=
  ∃ raw fuel calls, (∀ call ∈ calls, 0 ≤ Call.key call) ∧ (execAll fuel calls none).run (.empty raw) = .ok (root, h)

/-- A tree that was reached under some budget is the one that its calls reach. -/
theorem Reachable.holds (hreach : Reachable root h) : ∃ t m, Holds (0 ≤ ·) h root t m := by
  obtain ⟨raw, fuel, calls, hkeys, hrun⟩ := hreach
  obtain ⟨root', h', t, hrun', hold, _⟩ := holds_execAll raw calls hkeys
  have hbudget := within_execAll (Nat.le_add_right fuel (calls.length + 1)) calls none (.empty raw)
  rw [hrun, hrun' (fuel + (calls.length + 1)) (by omega)] at hbudget
  rcases hbudget with hfuel | hsame
  · cases hfuel
  · cases hsame
    exact ⟨t, _, hold⟩

/-- From every reachable tree every further call completes: with a budget for the
loops that exceeds the number of nodes it returns, and no budget at all lets it
come to a dereference of NULL or of a released node. -/
theorem exec_safe_of_reachable (hreach : Reachable root h) (call : Call) (hkey : 0 ≤ call.key) :
    ∃ root' h' nodes, Inorder h root nodes ∧
      (∀ fuel, nodes.length < fuel → (call.exec fuel root).run h = .ok (root', h')) ∧
      ∀ fuel, (call.exec fuel root).run h = .error .fuel ∨ (call.exec fuel root).run h = .ok (root', h') := by
  have hagree : ∀ a b : key_t, 0 ≤ a → 0 ≤ b → Agree a b := fun a b => agree_of_nonneg
  obtain ⟨t, m, hold⟩ := hreach.holds
  obtain ⟨root', h', t', hrun, _, _⟩ := hold.exec hagree call hkey
  obtain ⟨nodes, hwalk, hmap⟩ := hold.repr.spells.inorder
  have hlen : nodes.length = t.toList.length := by simpa using congrArg List.length hmap
  refine ⟨root', h', nodes, hold.repr.root_eq ▸ hwalk, fun fuel hfuel => hrun fuel (by omega), fun fuel => ?_⟩
  have hbudget := call.within_exec (Nat.le_add_right fuel (t.toList.length + 1)) root h
  rwa [hrun (fuel + (t.toList.length + 1)) (by omega)] at hbudget

/-- Ten insertions by ascending keys. The tree has 4 at its root, above 2 and 6, and below 6
the red node 8. -/
def ascending : List Call := [1, 2, 3, 4, 5, 6, 7, 8, 9, 10].map fun key => .insert key (10 * key)

/-- Erasing 1 repairs the tree in two rounds: the first one colours the sibling 3 red and goes
up to 2, the second one rotates the root 4, the address 3, below its child 6, the address 5. -/
theorem exec_safe_of_reachable_two_rounds :
    ∃ h h' nodes, (execAll 11 ascending none).run (.empty fun _ => default) = .ok (some 3, h) ∧
      Inorder h (some 3) nodes ∧
      (∀ fuel, nodes.length < fuel → ((Call.erase 1).exec fuel (some 3)).run h = .ok (some 5, h')) ∧
      ∀ fuel, ((Call.erase 1).exec fuel (some 3)).run h = .error .fuel ∨
        ((Call.erase 1).exec fuel (some 3)).run h = .ok (some 5, h') := by
  have hkeys : ∀ call ∈ ascending, 0 ≤ call.key := by decide
  obtain ⟨root, h, _, hruns, _⟩ := holds_execAll (fun _ => default) ascending hkeys
  have hrun := hruns 11 (by decide)
  obtain ⟨root', h', nodes, hwalk, hsafe, hall⟩ :=
    exec_safe_of_reachable ⟨_, 11, _, hkeys, hrun⟩ (.erase 1) (by decide)
  have hbefore : ((execAll 11 ascending none).run (.empty fun _ => default)).map Prod.fst = .ok (some 3) := by decide
  have hafter : ((execAll 11 ascending none >>= (Call.erase 1).exec 11).run (.empty fun _ => default)).map Prod.fst =
      .ok (some 5) := by decide
  rw [hrun] at hbefore
  cases hbefore
  rw [run_bind_of_ok hrun] at hafter
  rcases hall 11 with hfuel | hok
  · rw [hfuel] at hafter
    cases hafter
  · rw [hok] at hafter
    cases hafter
    exact ⟨h, h', nodes, hrun, hwalk, hsafe, hall⟩

end basic_data_struct.rbtree
