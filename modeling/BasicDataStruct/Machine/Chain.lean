import Mathlib.Data.List.Induction
import Mathlib.Data.List.Nodup
import BasicDataStruct.Machine.Heap

namespace machine

variable {p n : Ptr} {x a : Nat}

/-- An object of a doubly linked list. -/
structure Link (δ : Type) where
  data : δ
  prev : Ptr
  next : Ptr
deriving DecidableEq, Inhabited

namespace Heap

variable {δ : Type}

/-- A store through `p`, if `p` is not `NULL`. -/
def alterAt (h : Heap (Link δ)) (p : Ptr) (f : Link δ → Link δ) : Heap (Link δ) := p.elim h fun a => h.alter a f

/-- The store `p->next = q`, if `p` is not `NULL`. -/
abbrev setNext (h : Heap (Link δ)) (p q : Ptr) : Heap (Link δ) := h.alterAt p fun v => { v with next := q }

/-- The store `p->prev = q`, if `p` is not `NULL`. -/
abbrev setPrev (h : Heap (Link δ)) (p q : Ptr) : Heap (Link δ) := h.alterAt p fun v => { v with prev := q }

section

variable {h : Heap (Link δ)} {v : Link δ}

theorem alterAt_cells_of_ne (hne : p ≠ some x) (f : Link δ → Link δ) : (h.alterAt p f).cells x = h.cells x := by
  cases p with
  | none => rfl
  | some a => exact alter_cells_of_ne _ _ fun heq => hne (by rw [heq])

theorem alterAt_cells_same (ha : h.cells a = some v) (f : Link δ → Link δ) :
    (h.alterAt (some a) f).cells a = some (f v) := by
  rw [alterAt, Option.elim_some, alter_cells_same, ha, Option.map_some]

theorem isSome_alterAt (h : Heap (Link δ)) (p : Ptr) (f : Link δ → Link δ) (x : Nat) :
    ((h.alterAt p f).cells x).isSome = (h.cells x).isSome := by
  cases p with
  | none => rfl
  | some a => exact isSome_alter h a f x

/-- A store that changes nothing. -/
theorem alterAt_eq_self {f : Link δ → Link δ} (ha : h.cells a = some v) (hv : f v = v) : h.alterAt (some a) f = h := by
  refine Heap.ext (funext fun x => ?_) rfl rfl
  by_cases hx : x = a
  · subst hx
    rw [alterAt_cells_same ha, hv, ha]
  · exact alterAt_cells_of_ne (fun heq => hx (Option.some.inj heq).symm) f

end

theorem setNext_setPrev_comm (h : Heap (Link δ)) (p p' q q' : Ptr) :
    (h.setPrev p q).setNext p' q' = (h.setNext p' q').setPrev p q := by
  cases p with
  | none => rfl
  | some a =>
    cases p' with
    | none => rfl
    | some b =>
      refine Heap.ext (funext fun x => ?_) rfl rfl
      simp only [alterAt, Option.elim_some, alter_cells]
      by_cases hab : a = b
      · subst hab
        by_cases hxa : x = a
        · simp only [hxa, if_true, Option.map_map]
          rfl
        · simp only [hxa, if_false]
      · by_cases hxa : x = a
        · simp only [hxa, hab, if_true, if_false]
        · simp only [hxa, if_false, Ne.symm hab]

/-- The stores that put the object `a` between two neighbours. -/
def link (h : Heap (Link δ)) (p : Ptr) (a : Nat) (n : Ptr) : Heap (Link δ) :=
  (((h.setNext p (some a)).setNext (some a) n).setPrev n (some a)).setPrev (some a) p

/-- The stores that take out what is between two neighbours. -/
def unlink (h : Heap (Link δ)) (p n : Ptr) : Heap (Link δ) := (h.setNext p n).setPrev n p

/-- A new object is put before the first one: it has no predecessor as it is. -/
theorem link_none {h : Heap (Link δ)} {v : Link δ} (ha : h.cells a = some v) (hprev : v.prev = none)
    (hn : n ≠ some a) : h.link none a n = (h.setNext (some a) n).setPrev n (some a) := by
  have hcell : ((h.setNext (some a) n).setPrev n (some a)).cells a = some { v with next := n } := by
    rw [alterAt_cells_of_ne hn, alterAt_cells_same ha]
  exact alterAt_eq_self hcell (by rw [← hprev])

theorem link_cells_of_ne {h : Heap (Link δ)} (hp : p ≠ some x) (ha : x ≠ a) (hn : n ≠ some x) :
    (h.link p a n).cells x = h.cells x := by
  have ha' : (some a : Ptr) ≠ some x := fun heq => ha (Option.some.inj heq).symm
  rw [link, alterAt_cells_of_ne ha', alterAt_cells_of_ne hn, alterAt_cells_of_ne ha', alterAt_cells_of_ne hp]

theorem release_setPrev_comm (h : Heap (Link δ)) (a : Nat) (p q : Ptr) :
    (h.release a).setPrev p q = (h.setPrev p q).release a := by
  cases p with
  | none => rfl
  | some b =>
    refine Heap.ext (funext fun x => ?_) rfl rfl
    simp only [alterAt, Option.elim_some, alter_cells, release_cells]
    by_cases hxa : x = a
    · subst hxa
      by_cases hxb : x = b
      · simp [hxb]
      · simp [hxb]
    · by_cases hxb : x = b
      · subst hxb
        simp [hxa]
      · simp [hxa, hxb]

theorem isSome_link (h : Heap (Link δ)) (p : Ptr) (a : Nat) (n : Ptr) (x : Nat) :
    ((h.link p a n).cells x).isSome = (h.cells x).isSome := by
  rw [link, isSome_alterAt, isSome_alterAt, isSome_alterAt, isSome_alterAt]

theorem isSome_unlink (h : Heap (Link δ)) (p n : Ptr) (x : Nat) :
    ((h.unlink p n).cells x).isSome = (h.cells x).isSome := by
  rw [unlink, isSome_alterAt, isSome_alterAt]

theorem unlink_cells_of_ne {h : Heap (Link δ)} (hp : p ≠ some x) (hn : n ≠ some x) :
    (h.unlink p n).cells x = h.cells x := by
  rw [unlink, alterAt_cells_of_ne hn, alterAt_cells_of_ne hp]

end Heap

namespace Exec

variable {δ : Type} {h : Heap (Link δ)} {a : Nat}

theorem run_store_next (ha : (h.cells a).isSome) (q : Ptr) :
    (store (some a) fun v => { v with next := q }).run h = .ok ((), h.setNext (some a) q) := run_store_of_isSome ha _

theorem run_store_prev (ha : (h.cells a).isSome) (q : Ptr) :
    (store (some a) fun v => { v with prev := q }).run h = .ok ((), h.setPrev (some a) q) := run_store_of_isSome ha _

/-- The statement `if( p ) { p->prev = q; }`. -/
def resetPrev (p q : Ptr) : Exec (Heap (Link δ)) Unit :=
  if p ≠ none then store p fun v => { v with prev := q } else pure ()

theorem run_resetPrev (hp : ∀ b, p = some b → (h.cells b).isSome) (q : Ptr) :
    (resetPrev p q).run h = .ok ((), h.setPrev p q) := by
  cases p with
  | none => rfl
  | some a => exact run_store_prev (hp a rfl) q

end Exec

variable {δ : Type}

/-- The address of the first object of a part of a list, or what follows an empty part. -/
def first : List (Nat × δ) → (after : Ptr) → Ptr
  | [], after => after
  | (a, _) :: _, _ => some a

/-- The address of the last object of a part of a list, or what precedes an empty part. -/
def last : (before : Ptr) → List (Nat × δ) → Ptr
  | before, [] => before
  | _, (a, _) :: items => last (some a) items

/-- The objects of a part of a doubly linked list, between `before` and `after`. -/
def Chain (h : Heap (Link δ)) : (before : Ptr) → List (Nat × δ) → (after : Ptr) → Prop
  | _, [], _ => True
  | before, (a, d) :: items, after => h.cells a = some ⟨d, before, first items after⟩ ∧ Chain h (some a) items after

/-- The addresses of objects. -/
def places (items : List (Nat × δ)) : List Nat := items.map Prod.fst

section

variable {h h' : Heap (Link δ)} {before after p q : Ptr} {a : Nat} {d : δ} {items front back : List (Nat × δ)}

@[simp] theorem first_nil : first ([] : List (Nat × δ)) after = after := rfl

@[simp] theorem first_cons : first ((a, d) :: items) after = some a := rfl

@[simp] theorem last_nil : last before ([] : List (Nat × δ)) = before := rfl

@[simp] theorem last_cons : last before ((a, d) :: items) = last (some a) items := rfl

theorem first_append (front back : List (Nat × δ)) (after : Ptr) :
    first (front ++ back) after = first front (first back after) := by
  cases front with
  | nil => rfl
  | cons item front => rfl

theorem last_append (before : Ptr) (front back : List (Nat × δ)) :
    last before (front ++ back) = last (last before front) back := by
  induction front generalizing before with
  | nil => rfl
  | cons item front ih => exact ih (some item.1)

@[simp] theorem last_concat : last before (front ++ [(a, d)]) = some a := by rw [last_append, last_cons, last_nil]

/-- The last object of a part that is not empty does not depend on what precedes it. -/
theorem last_eq_of_ne_nil (hne : items ≠ []) (p q : Ptr) : last p items = last q items := by
  cases items with
  | nil => exact absurd rfl hne
  | cons item items => rfl

/-- Nor does the first object depend on what follows. -/
theorem first_append_of_ne_nil (hne : front ≠ []) (back back' : List (Nat × δ)) (p q : Ptr) :
    first (front ++ back) p = first (front ++ back') q := by
  cases front with
  | nil => exact absurd rfl hne
  | cons item front => rfl

theorem first_eq_none_iff : first items none = none ↔ items = [] := by
  cases items with
  | nil => exact iff_of_true rfl rfl
  | cons item items => exact iff_of_false (fun h => nomatch h) (List.cons_ne_nil _ _)

@[simp] theorem places_nil : places ([] : List (Nat × δ)) = [] := rfl

@[simp] theorem places_cons : places ((a, d) :: items) = a :: places items := rfl

@[simp] theorem places_append : places (front ++ back) = places front ++ places back := List.map_append

theorem mem_places (hmem : (a, d) ∈ items) : a ∈ places items := List.mem_map_of_mem hmem

theorem mem_places_middle : x ∈ places (front ++ (a, d) :: back) ↔ x = a ∨ x ∈ places (front ++ back) := by
  rw [places_append, places_append, places_cons, List.mem_append, List.mem_append, List.mem_cons, or_left_comm]

theorem nodup_places_middle :
    (places (front ++ (a, d) :: back)).Nodup ↔ a ∉ places (front ++ back) ∧ (places (front ++ back)).Nodup := by
  rw [places_append, places_cons, List.nodup_middle, List.nodup_cons, ← places_append]

/-- The objects other than one. -/
theorem mem_rest_iff (hnodup : (places (front ++ (a, d) :: back)).Nodup) (x : Nat × δ) :
    x ∈ front ++ back ↔ x.1 ≠ a ∧ x ∈ front ++ (a, d) :: back := by
  constructor
  · intro hx
    refine ⟨fun heq => (nodup_places_middle.mp hnodup).1 (heq ▸ mem_places hx), ?_⟩
    exact ((List.sublist_cons_self _ back).append_left front).subset hx
  · rintro ⟨hne, hx⟩
    rcases List.mem_append.mp hx with hx | hx
    · exact List.mem_append_left _ hx
    · rcases List.mem_cons.mp hx with rfl | hx
      · exact absurd rfl hne
      · exact List.mem_append_right _ hx

/-- The first object, if there is one, is one of the list. -/
theorem mem_of_first (hfirst : first items none = some a) : a ∈ places items := by
  cases items with
  | nil => cases hfirst
  | cons item items =>
    cases hfirst
    exact List.mem_cons_self

theorem mem_of_last (hlast : last none items = some a) : a ∈ places items := by
  induction items using List.reverseRecOn with
  | nil => cases hlast
  | append_singleton items item ih =>
    obtain ⟨b, d⟩ := item
    rw [last_concat] at hlast
    cases hlast
    rw [places_append]
    exact List.mem_append_right _ List.mem_cons_self

/-- An object is the first one exactly if there are none before it. -/
theorem eq_first_iff (hnodup : (places (front ++ (a, d) :: back)).Nodup) (after : Ptr) :
    some a = first (front ++ (a, d) :: back) after ↔ front = [] := by
  cases front with
  | nil => exact iff_of_true rfl rfl
  | cons item front =>
    refine iff_of_false (fun heq => (nodup_places_middle.mp hnodup).1 ?_) (List.cons_ne_nil _ _)
    cases heq
    exact List.mem_cons_self

end

namespace Chain

variable {h h' : Heap (Link δ)} {before after p q : Ptr} {a : Nat} {d : δ} {items front back : List (Nat × δ)}

theorem append_iff : Chain h before (front ++ back) after ↔
    Chain h before front (first back after) ∧ Chain h (last before front) back after := by
  induction front generalizing before with
  | nil => simp only [List.nil_append, Chain, true_and, last_nil]
  | cons item front ih =>
    obtain ⟨a, d⟩ := item
    rw [List.cons_append, Chain, Chain, first_append, ih, last_cons, and_assoc]

theorem cell (hchain : Chain h before (front ++ (a, d) :: back) after) :
    h.cells a = some ⟨d, last before front, first back after⟩ := (append_iff.mp hchain).2.1

section

variable (hchain : Chain h before items after)
include hchain

/-- The first object of a part that is not empty. -/
theorem exists_first (hne : items ≠ []) (q : Ptr) : ∃ b, first items q = some b ∧ (h.cells b).isSome := by
  cases items with
  | nil => exact absurd rfl hne
  | cons item items => exact ⟨item.1, rfl, Option.isSome_of_eq_some hchain.1⟩

theorem isSome_of_first (b : Nat) (hfirst : first items none = some b) : (h.cells b).isSome := by
  cases items with
  | nil => cases hfirst
  | cons item items =>
    cases hfirst
    exact Option.isSome_of_eq_some hchain.1

/-- The last object of a part that is not empty. -/
theorem exists_last (hne : items ≠ []) : ∃ b, last before items = some b ∧ (h.cells b).isSome := by
  obtain ⟨items, ⟨b, d⟩, rfl⟩ := List.eq_nil_or_concat' items |>.resolve_left hne
  exact ⟨b, last_concat, Option.isSome_of_eq_some hchain.cell⟩

/-- A change of the heap elsewhere. -/
theorem congr (hsame : ∀ x ∈ places items, h'.cells x = h.cells x) : Chain h' before items after := by
  induction items generalizing before with
  | nil => trivial
  | cons item items ih =>
    obtain ⟨a, d⟩ := item
    rw [places_cons, List.forall_mem_cons] at hsame
    exact ⟨hsame.1.trans hchain.1, ih hchain.2 hsame.2⟩

theorem alterAt_of_notMem (hp : ∀ x ∈ places items, p ≠ some x)
    (f : Link δ → Link δ) : Chain (h.alterAt p f) before items after :=
  hchain.congr fun x hx => Heap.alterAt_cells_of_ne (hp x hx) f

/-- What follows the last object changes. -/
theorem setNext_last (hnodup : (places items).Nodup) (q : Ptr) :
    Chain (h.setNext (last none items) q) before items q := by
  induction items using List.reverseRecOn with
  | nil => trivial
  | append_singleton items item _ =>
    obtain ⟨a, d⟩ := item
    rw [places_append, List.nodup_append] at hnodup
    obtain ⟨hfront, hlast⟩ := append_iff.mp hchain
    rw [last_concat]
    refine append_iff.mpr ⟨hfront.alterAt_of_notMem (fun x hx heq => ?_) _, ?_⟩
    · exact hnodup.2.2 x hx a List.mem_cons_self (Option.some.inj heq).symm
    · exact ⟨Heap.alterAt_cells_same hlast.1 _, trivial⟩

/-- What precedes the first object changes. -/
theorem setPrev_first (hnodup : (places items).Nodup) (q : Ptr) :
    Chain (h.setPrev (first items none) q) q items after := by
  cases items with
  | nil => trivial
  | cons item items =>
    obtain ⟨a, d⟩ := item
    rw [places_cons, List.nodup_cons] at hnodup
    refine ⟨Heap.alterAt_cells_same hchain.1 _, hchain.2.alterAt_of_notMem (fun x hx heq => ?_) _⟩
    cases heq
    exact hnodup.1 hx

end

/-- An object is put between two parts of a list. -/
theorem link {v : Link δ} (hchain : Chain h none (front ++ back) none) (hnodup : (places (front ++ back)).Nodup)
    (ha : h.cells a = some v) (hnew : a ∉ places (front ++ back)) :
    Chain (h.link (last none front) a (first back none)) none (front ++ (a, v.data) :: back) none := by
  rw [places_append] at hnodup hnew
  obtain ⟨hfront, hback⟩ := append_iff.mp hchain
  obtain ⟨hnodup_front, hnodup_back, hdisjoint⟩ := List.nodup_append.mp hnodup
  rw [List.mem_append, not_or] at hnew
  have hlast : ∀ x ∈ places back, last none front ≠ some x :=
    fun x hx heq => hdisjoint x (mem_of_last heq) x hx rfl
  have hfirst : ∀ x ∈ places front, first back none ≠ some x :=
    fun x hx heq => hdisjoint x hx x (mem_of_first heq) rfl
  have ha_front : ∀ x ∈ places front, some a ≠ some x := fun x hx heq => hnew.1 (Option.some.inj heq ▸ hx)
  have ha_back : ∀ x ∈ places back, some a ≠ some x := fun x hx heq => hnew.2 (Option.some.inj heq ▸ hx)
  refine append_iff.mpr ⟨?_, ?_, ?_⟩
  · exact (((hfront.setNext_last hnodup_front (some a)).alterAt_of_notMem ha_front _).alterAt_of_notMem hfirst _
      ).alterAt_of_notMem ha_front _
  · have hlast_ne : last none front ≠ some a := fun heq => hnew.1 (mem_of_last heq)
    have hfirst_ne : first back none ≠ some a := fun heq => hnew.2 (mem_of_first heq)
    refine Heap.alterAt_cells_same (v := { v with next := first back none }) ?_ _
    rw [Heap.alterAt_cells_of_ne hfirst_ne]
    exact Heap.alterAt_cells_same ((Heap.alterAt_cells_of_ne hlast_ne _).trans ha) _
  · exact (((hback.alterAt_of_notMem hlast _).alterAt_of_notMem ha_back _).setPrev_first hnodup_back (some a)
      ).alterAt_of_notMem ha_back _

/-- An object is taken out of a list. -/
theorem unlink (hchain : Chain h none (front ++ (a, d) :: back) none)
    (hnodup : (places (front ++ (a, d) :: back)).Nodup) :
    Chain (h.unlink (last none front) (first back none)) none (front ++ back) none := by
  rw [places_append, places_cons] at hnodup
  obtain ⟨hfront, _, hback⟩ := append_iff.mp hchain
  obtain ⟨hnodup_front, hnodup_back, hdisjoint⟩ := List.nodup_append.mp hnodup
  have hlast : ∀ x ∈ places back, last none front ≠ some x :=
    fun x hx heq => hdisjoint x (mem_of_last heq) x (List.mem_cons_of_mem a hx) rfl
  have hfirst : ∀ x ∈ places front, first back none ≠ some x :=
    fun x hx heq => hdisjoint x hx x (List.mem_cons_of_mem a (mem_of_first heq)) rfl
  refine append_iff.mpr ⟨?_, ?_⟩
  · exact (hfront.setNext_last hnodup_front _).alterAt_of_notMem hfirst _
  · exact (hback.alterAt_of_notMem hlast _).setPrev_first (List.nodup_cons.mp hnodup_back).2 _

/-- The data of an object change. -/
theorem setData (hchain : Chain h before (front ++ (a, d) :: back) after)
    (hnodup : (places (front ++ (a, d) :: back)).Nodup) (f : δ → δ) :
    Chain (h.alter a fun v => { v with data := f v.data }) before (front ++ (a, f d) :: back) after := by
  rw [places_append, places_cons, List.nodup_middle, List.nodup_cons, List.mem_append, not_or] at hnodup
  obtain ⟨hfront, hcell, hback⟩ := append_iff.mp hchain
  refine append_iff.mpr ⟨hfront.congr fun x hx => ?_, ?_, hback.congr fun x hx => ?_⟩
  · exact Heap.alter_cells_of_ne _ _ fun heq => hnodup.1.1 (heq ▸ hx)
  · rw [Heap.alter_cells_same, hcell, Option.map_some]
  · exact Heap.alter_cells_of_ne _ _ fun heq => hnodup.1.2 (heq ▸ hx)

/-- The statements that take an object that is not the first one out of its list and release it. -/
theorem run_takeOut {β : Type} (hchain : Chain h none (front ++ (a, d) :: back) none) (hne : front ≠ [])
    (k : Exec (Heap (Link δ)) β) :
    (do Exec.store (last none front) fun v => { v with next := first back none }
        Exec.resetPrev (first back none) (last none front)
        Exec.free (some a)
        k : Exec (Heap (Link δ)) β).run h = k.run ((h.unlink (last none front) (first back none)).release a) := by
  have ha := hchain.cell
  obtain ⟨hfront, _, hback⟩ := append_iff.mp hchain
  obtain ⟨b, hlast, hb⟩ := hfront.exists_last hne
  have hlive : ∀ t, first back none = some t → ((h.setNext (some b) (first back none)).cells t).isSome := by
    intro t ht
    rw [Heap.isSome_alterAt]
    exact hback.isSome_of_first t ht
  rw [hlast, Exec.run_bind_of_ok (Exec.run_store_next hb _), Exec.run_bind_of_ok (Exec.run_resetPrev hlive _)]
  refine Exec.run_bind_of_ok (Exec.run_free_of_isSome ?_) _
  exact (Heap.isSome_unlink h _ _ a).trans (Option.isSome_of_eq_some ha)

/-- An object outside of a list is released. -/
theorem release (hchain : Chain h before items after) (ha : a ∉ places items) :
    Chain (h.release a) before items after := by
  refine hchain.congr fun x hx => Heap.release_cells_of_ne _ ?_
  rintro rfl
  exact ha hx

/-- An object outside of a list is built. -/
theorem place {v : Link δ} (hchain : Chain h before items after) (ha : a ∉ places items) :
    Chain (h.place a v) before items after := by
  refine hchain.congr fun x hx => ?_
  rw [Heap.place_cells, if_neg]
  rintro rfl
  exact ha hx

end Chain

end machine
