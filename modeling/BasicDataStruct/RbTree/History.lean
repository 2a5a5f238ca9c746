import BasicDataStruct.RbTree.Insert
import BasicDataStruct.RbTree.Erase

open machine machine.Exec red_black

namespace basic_data_struct.rbtree

variable {h' : Heap rb_node_t} {root' : Ptr} {t' : RBTree Cell} {n : Nat} {pre post : List Cell}

/-- A call that changes the tree. -/
inductive Call where
  | insert (key : key_t) (data : data_t)
  | erase (key : key_t)
  deriving DecidableEq

def Call.key : Call → key_t
  | .insert key _ => key
  | .erase key => key

/-- The statement `root = rb_insert(key, data, root);` or `root = rb_erase(key, root);`. -/
def Call.exec (fuel : Nat) (root : Ptr) : Call → Prog Ptr
  | .insert key data => rb_insert fuel key data root
  | .erase key => rb_erase fuel key root

/-- A sequence of calls, each on the root that the previous one returned. -/
def execAll (fuel : Nat) : List Call → Ptr → Prog Ptr
  | [], root => return root
  | call :: calls, root => do
    let root ← call.exec fuel root
    execAll fuel calls root

section Budget

variable {fuel fuel' : Nat} (hle : fuel ≤ fuel')
include hle

theorem within_rb_insert (key : key_t) (data : data_t) (root : Ptr) :
    Within (rb_insert fuel key data root) (rb_insert fuel' key data root) := by
  refine (within_loop _ hle _).bind fun found => Within.ite _ (.refl _) ?_
  refine (Within.refl _).bind fun node => (Within.refl _).bind fun _ => (Within.refl _).bind fun _ => ?_
  refine (Within.refl _).bind fun _ => (Within.refl _).bind fun _ => (Within.refl _).bind fun root' => ?_
  exact (within_loop _ hle _).bind fun _ => .refl _

theorem within_rb_erase (key : key_t) (root : Ptr) : Within (rb_erase fuel key root) (rb_erase fuel' key root) := by
  have hremove : ∀ old, Within (rb_erase_remove fuel old root) (rb_erase_remove fuel' old root) := by
    intro old
    refine (Within.refl _).bind fun n => Within.ite _ ?_ (.refl _)
    exact (Within.refl _).bind fun n => (within_loop _ hle _).bind fun _ => .refl _
  refine (within_loop _ hle _).bind fun found => Within.ite _ (.refl _) ?_
  refine (hremove found.1).bind fun removed => (Within.refl _).bind fun _ => Within.ite _ ?_ (.refl _)
  exact (within_loop _ hle _).bind fun _ => .refl _

theorem Call.within_exec (call : Call) (root : Ptr) : Within (call.exec fuel root) (call.exec fuel' root) := by
  cases call with
  | insert key data => exact within_rb_insert hle key data root
  | erase key => exact within_rb_erase hle key root

theorem within_execAll (calls : List Call) (root : Ptr) :
    Within (execAll fuel calls root) (execAll fuel' calls root) := by
  induction calls generalizing root with
  | nil => exact .refl _
  | cons call calls ih => exact (call.within_exec hle root).bind ih

end Budget

/-- What the tree is for: a finite map from keys to data. -/
abbrev Contents := key_t → Option data_t

/-- A call on the map. The data of a key that is present are kept. -/
def Contents.apply (m : Contents) : Call → Contents
  | .insert key data => if m key = none then Function.update m key (some data) else m
  | .erase key => Function.update m key none

/-- The map after a sequence of calls on the empty one. -/
def contents (calls : List Call) : Contents := calls.foldl Contents.apply fun _ => none

/-- The stored tree `t` holds the map `m`, with keys that satisfy `K` only. -/
structure Holds (K : key_t → Prop) (h : Heap rb_node_t) (root : Ptr) (t : RBTree Cell) (m : Contents) : Prop where
  repr : Repr h root t
  balanced : ∃ n, Balanced t .black n
  sorted : Sorted t
  keys : ∀ x ∈ t.toList, K x.key
  mem_iff : ∀ key data, (∃ x ∈ t.toList, x.key = key ∧ x.data = data) ↔ m key = some data

variable {K : key_t → Prop} {h : Heap rb_node_t} {root : Ptr} {t : RBTree Cell} {m : Contents}

theorem Holds.empty (K : key_t → Prop) (raw : Nat → rb_node_t) : Holds K (.empty raw) none .nil fun _ => none where
  repr := ⟨trivial, rfl, List.nodup_nil, fun _ _ => rfl⟩
  balanced := ⟨0, .nil⟩
  sorted := List.Pairwise.nil
  keys := by simp [RBTree.toList]
  mem_iff := by simp [RBTree.toList]

/-- A key is in the map when some node has it. -/
theorem Holds.isSome_iff (hold : Holds K h root t m) (key : key_t) :
    (∃ x ∈ t.toList, x.key = key) ↔ m key ≠ none := by
  rw [Option.ne_none_iff_exists']
  constructor
  · rintro ⟨x, hx, hkey⟩
    exact ⟨x.data, (hold.mem_iff key x.data).mp ⟨x, hx, hkey, rfl⟩⟩
  · rintro ⟨data, hdata⟩
    obtain ⟨x, hx, hkey, _⟩ := (hold.mem_iff key data).mpr hdata
    exact ⟨x, hx, hkey⟩

theorem Holds.insert_absent {key : key_t} {data : data_t}
    {a : Nat} (hold : Holds K h root t m) (hkey : K key) (habsent : m key = none)
    (hr : Repr h' root' t') (hbal : Balanced t' .black n) (hold_list : t.toList = pre ++ post)
    (hnew_list : t'.toList = pre ++ ⟨a, key, data⟩ :: post) (hpre : ∀ x ∈ pre, x.key < key)
    (hpost : ∀ x ∈ post, key < x.key) : Holds K h' root' t' (Function.update m key (some data)) := by
  have hmem : ∀ x, x ∈ t'.toList ↔ x = ⟨a, key, data⟩ ∨ x ∈ t.toList := by
    intro x
    rw [hnew_list, hold_list]
    simp only [List.mem_append, List.mem_cons]
    tauto
  refine ⟨hr, ⟨n, hbal⟩, ?_, ?_, ?_⟩
  · have hsorted := hold.sorted
    rw [Sorted, hold_list, List.pairwise_append] at hsorted
    rw [Sorted, hnew_list, List.pairwise_append]
    refine ⟨hsorted.1, List.pairwise_cons.mpr ⟨hpost, hsorted.2.1⟩, ?_⟩
    intro x hx y hy
    rcases List.mem_cons.mp hy with rfl | hy
    · exact hpre x hx
    · exact hsorted.2.2 x hx y hy
  · intro x hx
    rcases (hmem x).mp hx with rfl | hx
    · exact hkey
    · exact hold.keys x hx
  · intro k d
    have hfree := (hold.isSome_iff key).not.mpr (not_not.mpr habsent)
    by_cases hk : k = key
    · subst hk
      simp only [hmem, Function.update_self, Option.some.injEq]
      constructor
      · rintro ⟨x, rfl | hx, hxk, rfl⟩
        · rfl
        · exact absurd ⟨x, hx, hxk⟩ hfree
      · rintro rfl
        exact ⟨_, .inl rfl, rfl, rfl⟩
    · rw [Function.update_of_ne hk, ← hold.mem_iff]
      simp only [hmem]
      constructor
      · rintro ⟨x, rfl | hx, hxk, hxd⟩
        · exact absurd hxk.symm hk
        · exact ⟨x, hx, hxk, hxd⟩
      · rintro ⟨x, hx, hxk, hxd⟩
        exact ⟨x, .inr hx, hxk, hxd⟩

theorem Holds.erase_present {x : Cell} (hold : Holds K h root t m)
    (hr : Repr h' root' t') (hbal : Balanced t' .black n) (hold_list : t.toList = pre ++ x :: post)
    (hnew_list : t'.toList = pre ++ post) : Holds K h' root' t' (Function.update m x.key none) := by
  have hsorted := hold.sorted
  rw [Sorted, hold_list, List.pairwise_append, List.pairwise_cons] at hsorted
  obtain ⟨hpre, ⟨hxpost, hpost⟩, hcross⟩ := hsorted
  have hmem : ∀ y, y ∈ t.toList ↔ y = x ∨ y ∈ t'.toList := by
    intro y
    rw [hnew_list, hold_list]
    simp only [List.mem_append, List.mem_cons]
    tauto
  have hother : ∀ y ∈ t'.toList, y.key ≠ x.key := by
    intro y hy heq
    rw [hnew_list, List.mem_append] at hy
    rcases hy with hy | hy
    · exact Int32.lt_irrefl (heq ▸ hcross y hy x List.mem_cons_self)
    · exact Int32.lt_irrefl (heq ▸ hxpost y hy)
  refine ⟨hr, ⟨n, hbal⟩, ?_, ?_, ?_⟩
  · rw [Sorted, hnew_list, List.pairwise_append]
    exact ⟨hpre, hpost, fun y hy z hz => hcross y hy z (List.mem_cons_of_mem _ hz)⟩
  · intro y hy
    exact hold.keys y ((hmem y).mpr (.inr hy))
  · intro k d
    by_cases hk : k = x.key
    · subst hk
      rw [Function.update_self]
      constructor
      · rintro ⟨y, hy, hyk, _⟩
        exact absurd hyk (hother y hy)
      · intro hnone
        cases hnone
    · rw [Function.update_of_ne hk, ← hold.mem_iff]
      simp only [hmem]
      constructor
      · rintro ⟨y, hy, hyk, hyd⟩
        exact ⟨y, .inr hy, hyk, hyd⟩
      · rintro ⟨y, rfl | hy, hyk, hyd⟩
        · exact absurd hyk.symm hk
        · exact ⟨y, hy, hyk, hyd⟩

/-- One call carries the stored tree from the map before to the map after, in at
most as many rounds of each loop as there are nodes, and one more. -/
theorem Holds.exec (hagree : ∀ a b, K a → K b → Agree a b) (hold : Holds K h root t m) (call : Call)
    (hkey : K call.key) :
    ∃ root' h' t', (∀ fuel, t.toList.length < fuel → (call.exec fuel root).run h = .ok (root', h')) ∧
      Holds K h' root' t' (m.apply call) ∧ t'.toList.length ≤ t.toList.length + 1 := by
  have hwith : ∀ x ∈ t.toList, Agree x.key call.key := fun x hx => hagree _ _ (hold.keys x hx) hkey
  obtain ⟨n, hbal⟩ := hold.balanced
  cases call with
  | insert key data =>
    by_cases hfree : m key = none
    · obtain ⟨root', h', t', n', pre, post, hrun, hr, hbal', hlist, hlist', hpre, hpost⟩ :=
        hold.repr.run_rb_insert_of_notMem hold.sorted hbal hwith
          ((hold.isSome_iff key).not.mpr (not_not.mpr hfree)) data
      refine ⟨root', h', t', hrun, ?_, ?_⟩
      · rw [Contents.apply, if_pos hfree]
        exact hold.insert_absent hkey hfree hr hbal' hlist hlist' hpre hpost
      · simp only [hlist, hlist', List.length_append, List.length_cons]
        omega
    · refine ⟨root, h, t, fun fuel hfuel => ?_, ?_, Nat.le_succ _⟩
      · exact hold.repr.run_rb_insert_of_mem hold.sorted hwith ((hold.isSome_iff key).mpr hfree) data hfuel
      · rw [Contents.apply, if_neg hfree]
        exact hold
  | erase key =>
    by_cases hfree : m key = none
    · refine ⟨root, h, t, fun fuel hfuel => ?_, ?_, Nat.le_succ _⟩
      · exact hold.repr.run_rb_erase_of_notMem hold.sorted hwith
          ((hold.isSome_iff key).not.mpr (not_not.mpr hfree)) hfuel
      · rw [Contents.apply, ← hfree, Function.update_eq_self]
        exact hold
    · obtain ⟨root', h', t', n', pre, x, post, hrun, hr, hbal', rfl, hlist, hlist'⟩ :=
        hold.repr.run_rb_erase_of_mem hold.sorted hbal hwith ((hold.isSome_iff key).mpr hfree)
      refine ⟨root', h', t', hrun, hold.erase_present hr hbal' hlist hlist', ?_⟩
      simp only [hlist, hlist', List.length_append, List.length_cons]
      omega

/-- A whole history of calls, from any stored tree. -/
theorem Holds.execAll (hagree : ∀ a b, K a → K b → Agree a b) (calls : List Call)
    (hkeys : ∀ call ∈ calls, K call.key) (hold : Holds K h root t m) :
    ∃ root' h' t', (∀ fuel, t.toList.length + calls.length < fuel →
        (rbtree.execAll fuel calls root).run h = .ok (root', h')) ∧
      Holds K h' root' t' (calls.foldl Contents.apply m) ∧
      t'.toList.length ≤ t.toList.length + calls.length := by
  induction calls generalizing h root t m with
  | nil => exact ⟨root, h, t, fun _ _ => rfl, hold, Nat.le_refl _⟩
  | cons call calls ih =>
    obtain ⟨root₁, h₁, t₁, hrun₁, hold₁, hlen₁⟩ := hold.exec hagree call (hkeys call List.mem_cons_self)
    obtain ⟨root₂, h₂, t₂, hrun₂, hold₂, hlen₂⟩ :=
      ih (fun c hc => hkeys c (List.mem_cons_of_mem _ hc)) hold₁
    refine ⟨root₂, h₂, t₂, ?_, hold₂, ?_⟩
    · intro fuel hfuel
      rw [List.length_cons] at hfuel
      simp only [rbtree.execAll, run_bind, hrun₁ fuel (by omega)]
      exact hrun₂ fuel (by omega)
    · rw [List.length_cons]
      omega

end basic_data_struct.rbtree
