import BasicDataStruct.RbTree.Correctness

open machine machine.Exec red_black

namespace basic_data_struct.rbtree

variable {h : Heap rb_node_t} {root : Ptr}

variable {a b key : key_t} {c : Color} {l : RBTree Cell} {x : Cell} {fuel : Nat}

/-- The difference of two keys that are too far apart wraps to the wrong sign. -/
theorem sub_neg_of_not_agree (hlt : a < b) (hfar : ¬ Agree a b) : b - a < 0 := by
  have hlt' := Int32.lt_iff_toInt_lt.mp hlt
  have hbound := b.toInt_lt
  have hbound' := a.le_toInt
  unfold Agree at hfar
  have hwrap : (b.toInt - a.toInt).bmod (2 ^ 32) = b.toInt - a.toInt - 2 ^ 32 := by
    rw [← Int.sub_bmod_right]
    apply Int.bmod_eq_of_le <;> omega
  rw [Int32.lt_iff_toInt_lt, Int32.toInt_sub, hwrap, Int32.toInt_zero]
  omega

/-- A search for a key whose difference to the root's key is negative ends at the
missing right child of the root. -/
theorem Repr.run_rb_search_auxiliary_right
    (hr : Repr h root (.node c l x .nil)) (hneg : x.key - key < 0) (hfuel : 1 < fuel) :
    (rb_search_auxiliary fuel key root none).run h = .ok ((none, some x.addr), h) := by
  obtain ⟨fuel, rfl⟩ : ∃ k, fuel = k + 2 := ⟨fuel - 2, by omega⟩
  have hpos : ¬ 0 < x.key - key := fun hpos => Int32.lt_irrefl (Int32.lt_trans hpos hneg)
  have hx := hr.spells.1
  have hfirst : (rb_search_auxiliary_body key none (root, none)).run h = .ok (.inl (none, some x.addr), h) := by
    simp only [rb_search_auxiliary_body, hr.root_eq, ptr_node, reduceCtorEq, if_false, run_bind, run_load hx,
      record_key, run_ite, run_pure]
    rw [if_neg hpos, if_pos hneg]
    rfl
  have hsecond : (rb_search_auxiliary_body key none (none, some x.addr)).run h =
      .ok (.inr (none, some x.addr), h) := rfl
  rw [rb_search_auxiliary, run_loop_next hfirst, run_loop_done hsecond]

/-- Below a black parent an insertion needs no repair. -/
theorem Repr.run_rb_insert_rebalance_black {s : Side} {y : Cell} {r sib : RBTree Cell}
    (hr : Repr h root (Ctx.plug [⟨s, .black, x, sib⟩] (.node c l y r))) :
    ∃ h', (rb_insert_rebalance (fuel + 1) (some y.addr) root).run h = .ok (root, h') ∧
      Repr h' root (.mk s .black x (.node c l y r) sib) := by
  have hload := hr.cells_focus (s := .left)
  have hparent := hr.isRed_parent
  have htop : Repr h root (Ctx.plug [] (.mk s .black x (.node c l y r) sib)) := hr
  obtain ⟨h', hcolor, hr'⟩ := htop.setColor_focus .black
  have hbody : (rb_insert_rebalance_body (some y.addr, root)).run h = .ok (.inr root, h) := by
    simp only [rb_insert_rebalance_body, run_bind, run_load hload, record_parent, hparent]
    simp
  have hroot : root = some x.addr := hr.root_eq.trans (ptr_mk s .black x _ _)
  refine ⟨h', ?_, hr'⟩
  rw [hroot] at hbody ⊢
  simp only [rb_insert_rebalance, run_bind, run_loop_done hbody, BLACK, hcolor, run_pure]

/-- The insertion places such a key by the direct comparison, to the left. -/
theorem Repr.run_rb_insert_left (hr : Repr h root (.node .black .nil x .nil))
    (hlt : key < x.key) (hneg : x.key - key < 0) (data : data_t) (hfuel : 1 < fuel) :
    ∃ h', (rb_insert fuel key data root).run h = .ok (root, h') ∧
      Repr h' root (.node .black (.node .red .nil ⟨h.next, key, data⟩ .nil) x .nil) := by
  have hctx : Repr h root (Ctx.plug [⟨.left, .black, x, .nil⟩] .nil) := hr
  have hp : Placed [⟨.left, .black, x, .nil⟩] key := by
    simpa [Placed, Ctx.before, Ctx.after, RBTree.toList] using hlt
  have hplant := hctx.plant key data
  rw [if_neg (List.cons_ne_nil _ _)] at hplant
  obtain ⟨fuel, rfl⟩ : ∃ k, fuel = k + 1 := ⟨fuel - 1, by omega⟩
  rw [hctx.run_rb_insert_at hp data (hr.run_rb_search_auxiliary_right hneg hfuel), if_neg (List.cons_ne_nil _ _)]
  exact hplant.run_rb_insert_rebalance_black

/-- A tree whose only key is `b`. -/
theorem Holds.single {t : RBTree Cell} {d : data_t} {m : Contents} (hold : Holds (· = b) h root t m)
    (hb : m b = some d) (hlen : t.toList.length ≤ 1) : ∃ x : Cell, x.key = b ∧ t = .node .black .nil x .nil := by
  obtain ⟨x, hx, hkey, _⟩ := (hold.mem_iff b d).mpr hb
  cases t with
  | nil => simp [RBTree.toList] at hx
  | node c l y r =>
    simp only [RBTree.toList, List.length_append, List.length_cons] at hlen
    have hl : l = .nil := RBTree.eq_nil_of_length (by omega)
    have hr : r = .nil := RBTree.eq_nil_of_length (by omega)
    subst hl hr
    obtain ⟨n, hbal⟩ := hold.balanced
    obtain rfl : c = .black := hbal.rootColor_eq
    exact ⟨y, hold.keys y (by simp [RBTree.toList]), rfl⟩

/-- Two insertions after which the second key is not found: the larger key first,
then a key so much smaller that the difference wraps. -/
theorem rb_search_loses_key (hlt : a < b) (hfar : ¬ Agree a b) (raw : Nat → rb_node_t)
    (d e : data_t) (hfuel : 2 < fuel) :
    ∃ root h, (execAll fuel [.insert b d, .insert a e] none).run (.empty raw) = .ok (root, h) ∧
      (rb_search fuel a root).run h = .ok (none, h) := by
  have hself : ∀ k k', k = b → k' = b → Agree k k' := by
    rintro k k' rfl rfl
    simp [Agree]
  have hempty := Holds.empty (· = b) raw
  obtain ⟨root, h₁, t₁, hrun₁, hold, hlen⟩ := hempty.exec hself (.insert b d) rfl
  obtain ⟨x, rfl, rfl⟩ := hold.single (d := d) (by simp [Contents.apply]) hlen
  have hneg := sub_neg_of_not_agree hlt hfar
  obtain ⟨h₂, hrun₂, hr₂⟩ := hold.repr.run_rb_insert_left hlt hneg e (by omega : 1 < fuel)
  refine ⟨root, h₂, ?_, ?_⟩
  · simp only [execAll, run_bind, hrun₁ fuel (by simp [RBTree.toList]; omega)]
    simp only [Call.exec, hrun₂, run_pure]
  · simp only [rb_search, run_bind, hr₂.run_rb_search_auxiliary_right hneg (by omega : 1 < fuel), run_pure]

/-- The calls `rb_insert(key, data, root)` for a list of pairs. -/
def insertions (pairs : List (key_t × data_t)) : List Call := pairs.map fun p => .insert p.1 p.2

/-- After the insertions a search finds every inserted key, and the in-order keys
are strictly increasing. -/
def FindsAll (raw : Nat → rb_node_t) (pairs : List (key_t × data_t)) : Prop :=
  ∃ root h, (∀ fuel, pairs.length < fuel →
      (execAll fuel (insertions pairs) none).run (.empty raw) = .ok (root, h)) ∧
    (∀ p ∈ pairs, ∃ a n, (∀ fuel, pairs.length < fuel → (rb_search fuel p.1 root).run h = .ok (some a, h)) ∧
      h.cells a = some n ∧ n.key = p.1) ∧
    ∃ nodes, Inorder h root nodes ∧ nodes.Pairwise fun n n' => n.key < n'.key

/-- Insertions only add keys to the map. -/
theorem foldl_insertions_ne_none (pairs : List (key_t × data_t)) (m : Contents) (key : key_t)
    (hkey : m key ≠ none ∨ ∃ p ∈ pairs, p.1 = key) :
    (insertions pairs).foldl Contents.apply m key ≠ none := by
  induction pairs generalizing m with
  | nil => simpa [insertions] using hkey
  | cons p pairs ih =>
    refine ih (m.apply (.insert p.1 p.2)) ?_
    by_cases hp : p.1 = key
    · left
      subst hp
      by_cases hfree : m p.1 = none <;> simp [Contents.apply, hfree]
    · rcases hkey with hkey | ⟨q, hq, hqk⟩
      · left
        by_cases hfree : m p.1 = none
        · simpa [Contents.apply, hfree, Function.update_of_ne (Ne.symm hp)] using hkey
        · simpa [Contents.apply, hfree] using hkey
      · right
        rcases List.mem_cons.mp hq with rfl | hq
        · exact absurd hqk hp
        · exact ⟨q, hq, hqk⟩

/-- Keys that pairwise agree are all found again. -/
theorem findsAll_of_agree {K : key_t → Prop} (hagree : ∀ a b, K a → K b → Agree a b) (raw : Nat → rb_node_t)
    (pairs : List (key_t × data_t)) (hkeys : ∀ p ∈ pairs, K p.1) : FindsAll raw pairs := by
  have hcalls : ∀ call ∈ insertions pairs, K call.key := by
    intro call hcall
    obtain ⟨p, hp, rfl⟩ := List.mem_map.mp hcall
    exact hkeys p hp
  obtain ⟨root, h, t, hrun, hold, hlen⟩ := (Holds.empty K raw).execAll hagree _ hcalls
  simp only [RBTree.toList, List.length_nil, Nat.zero_add, insertions, List.length_map] at hrun hlen
  obtain ⟨nodes, hwalk, hsorted, _⟩ := hold.inorder
  refine ⟨root, h, hrun, fun p hp => ?_, nodes, hwalk, hsorted⟩
  have hin := foldl_insertions_ne_none pairs (fun _ => none) p.1 (.inr ⟨p, hp, rfl⟩)
  obtain ⟨data, hdata⟩ := Option.ne_none_iff_exists'.mp hin
  obtain ⟨res, hsearch, hres⟩ := hold.search hagree p.1
  rw [hdata] at hres
  obtain ⟨a, n, rfl, hcell, hkey, _⟩ := hres
  exact ⟨a, n, fun fuel hfuel => hsearch fuel (by omega), hcell, hkey⟩

/-- Two keys that are too far apart are not both found, inserted in falling order. -/
theorem not_findsAll_of_not_agree (hlt : a < b) (hfar : ¬ Agree a b) (raw : Nat → rb_node_t) :
    ¬ FindsAll raw [(b, 0), (a, 0)] := by
  rintro ⟨root, h, hrun, hfind, _⟩
  obtain ⟨root', h', hrun', hlost⟩ := rb_search_loses_key hlt hfar raw 0 0 (by decide : 2 < 3)
  have hsame := (hrun 3 (by simp)).symm.trans hrun'
  simp only [Except.ok.injEq, Prod.mk.injEq] at hsame
  obtain ⟨rfl, rfl⟩ := hsame
  obtain ⟨p, n, hfound, _⟩ := hfind (a, 0) (by simp)
  have hboth := (hfound 3 (by simp)).symm.trans hlost
  simp at hboth

/-- Every two keys of `K` are compared alike by the sign of their difference and
directly. -/
def SignsAgree (K : key_t → Prop) : Prop :=
  ∀ a b, K a → K b → (0 < a - b ↔ b < a) ∧ (a - b < 0 ↔ a < b)

/-- For which sets of keys the tree works: the insertions of keys from `K` are all
found again, and the two comparisons of the source agree on `K`, exactly when no
difference of two keys of `K` overflows. -/
theorem findsAll_iff_agree (raw : Nat → rb_node_t) (K : key_t → Prop) :
    ((∀ pairs : List (key_t × data_t), (∀ p ∈ pairs, K p.1) → FindsAll raw pairs) ↔
      ∀ a b, K a → K b → Agree a b) ∧
    (SignsAgree K ↔ ∀ a b, K a → K b → Agree a b) := by
  have hlt_of : ∀ {a b : key_t}, ¬ Agree a b → (a < b ∧ ¬ Agree a b) ∨ (b < a ∧ ¬ Agree b a) := by
    intro a b hfar
    have hne : a.toInt ≠ b.toInt := by
      unfold Agree at hfar
      omega
    rw [Int32.lt_iff_toInt_lt, Int32.lt_iff_toInt_lt]
    unfold Agree at hfar ⊢
    omega
  refine ⟨⟨fun hall a b ha hb => ?_, fun hagree pairs hkeys => findsAll_of_agree hagree raw pairs hkeys⟩,
    fun hsigns a b ha hb => ?_, fun hagree a b ha hb =>
      ⟨sub_pos_iff_of_agree (hagree a b ha hb), sub_neg_iff_of_agree (hagree a b ha hb)⟩⟩
  · by_contra hfar
    rcases hlt_of hfar with ⟨hlt, hfar⟩ | ⟨hlt, hfar⟩
    · exact not_findsAll_of_not_agree hlt hfar raw (hall _ (by simp [ha, hb]))
    · exact not_findsAll_of_not_agree hlt hfar raw (hall _ (by simp [ha, hb]))
  · by_contra hfar
    rcases hlt_of hfar with ⟨hlt, hfar⟩ | ⟨hlt, hfar⟩
    · exact Int32.lt_irrefl (Int32.lt_trans hlt ((hsigns b a hb ha).2.mp (sub_neg_of_not_agree hlt hfar)))
    · exact Int32.lt_irrefl (Int32.lt_trans hlt ((hsigns a b ha hb).2.mp (sub_neg_of_not_agree hlt hfar)))

/-- The smallest key is lost when it is inserted after `0`. -/
theorem not_findsAll_zero_min : ¬ FindsAll (fun _ => default) [(0, 0), (-2147483648, 0)] :=
  not_findsAll_of_not_agree (by decide) (by decide) _

end basic_data_struct.rbtree
