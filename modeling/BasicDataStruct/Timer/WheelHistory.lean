import BasicDataStruct.Runs.Deterministic
import BasicDataStruct.Timer.Wheel

open machine machine.Exec runs

namespace basic_data_struct.wheel

variable {cur_slot r size fuel : Nat}

/-- A call of a function of the wheel; `new` may return the address of a timer that is gone. -/
inductive Op where
  | add (a : Nat) (timeout : Int)
  | del (timer : Ptr)
  | tick
deriving DecidableEq

/-- The new wheel, and the timers whose callbacks are called. -/
def Op.exec (fuel : Nat) (w : time_wheel) : Op → Prog (time_wheel × List Ptr)
  | .add a timeout => return ((← w.add_timer a timeout).2, [])
  | .del timer => return (← w.del_timer timer, [])
  | .tick => w.tick fuel

def execAll (fuel : Nat) : List Op → time_wheel → Prog time_wheel
  | [], w => return w
  | op :: ops, w => do
    let (w, _) ← op.exec fuel w
    execAll fuel ops w

/-- What the wheel is for: the number of the call of `tick` in which each timer fires, counted from now. -/
abbrev Members := Nat → Option Nat

def Members.apply (m : Members) : Op → Members
  | .add a timeout => if timeout < 0 then m else Function.update m a (some (max timeout.toNat 1 + 1))
  | .del none => m
  | .del (some a) => Function.update m a none
  | .tick => fun a => (m a).bind fun r => if r ≤ 1 then none else some (r - 1)

/-- The address of a new timer is not in use, and a timer that is deleted is in the wheel. -/
def Permitted (m : Members) : Op → Prop
  | .add a timeout => 0 ≤ timeout → m a = none
  | .del timer => ∀ a, timer = some a → m a ≠ none
  | .tick => True

/-- The number of the call of `tick` in which a timer fires: the wheel reaches its slot, and then comes round for each
rotation. -/
def timer_data.remaining (cur_slot : Nat) (d : timer_data) : Nat :=
  d.rotation * N + (d.time_slot + N - cur_slot) % N + 1

/-- The wheel holds the timers `m`. -/
structure Holds (h : Heap tw_timer) (w : time_wheel) (lists : Nat → List (Nat × timer_data)) (m : Members) : Prop where
  slots : Slots h w lists
  mem_iff : ∀ a r, m a = some r ↔ ∃ d, (a, d) ∈ lists d.time_slot ∧ d.remaining w.cur_slot = r

variable {h : Heap tw_timer} {w : time_wheel} {lists : Nat → List (Nat × timer_data)} {m : Members} {a : Nat}
  {d : timer_data}

theorem Holds.init (raw : Nat → tw_timer) : Holds (.empty raw) .init (fun _ => []) fun _ => none where
  slots := .init raw
  mem_iff _ _ := iff_of_false (fun h => nomatch h) fun ⟨_, hx, _⟩ => List.not_mem_nil hx

theorem Holds.mem_places_iff (hold : Holds h w lists m) (a : Nat) : (∃ s, a ∈ places (lists s)) ↔ m a ≠ none := by
  rw [Option.ne_none_iff_exists']
  constructor
  · rintro ⟨s, hmem⟩
    obtain ⟨⟨_, d⟩, hx, rfl⟩ := List.mem_map.mp hmem
    obtain ⟨rfl, _⟩ := hold.slots.own s _ hx
    exact ⟨_, (hold.mem_iff _ _).mpr ⟨d, hx, rfl⟩⟩
  · rintro ⟨r, hr⟩
    obtain ⟨d, hx, _⟩ := (hold.mem_iff a r).mp hr
    exact ⟨_, mem_places hx⟩

theorem remaining_entry (hlt : w.cur_slot < N) (timeout : Int) :
    (w.entry timeout).remaining w.cur_slot = max timeout.toNat 1 + 1 := by
  simp only [timer_data.remaining, time_wheel.entry, N] at hlt ⊢
  omega

/-- A timer in another slot has one call less to wait for after a tick. -/
theorem remaining_next (hcur : cur_slot < N) (hd : d.time_slot < N) (hne : d.time_slot ≠ cur_slot) :
    d.remaining ((cur_slot + 1) % N) + 1 = d.remaining cur_slot := by
  simp only [timer_data.remaining, N] at hcur hd ⊢
  omega

/-- So has a timer in the current slot, which loses a rotation. -/
theorem remaining_turn (hd : d.time_slot < N) :
    d.remaining ((d.time_slot + 1) % N) + 1 = { d with rotation := d.rotation + 1 }.remaining d.time_slot := by
  simp only [timer_data.remaining, N] at hd ⊢
  omega

theorem remaining_eq_one_iff (hcur : cur_slot < N) (hd : d.time_slot < N) :
    d.remaining cur_slot = 1 ↔ d.time_slot = cur_slot ∧ d.rotation = 0 := by
  simp only [timer_data.remaining, N] at hcur hd ⊢
  omega

theorem Members.apply_tick (m : Members) (a : Nat) :
    m.apply .tick a = (m a).bind fun r => if r ≤ 1 then none else some (r - 1) := rfl

theorem Members.apply_tick_eq_some : m.apply .tick a = some r ↔ m a = some (r + 1) ∧ 1 ≤ r := by
  rw [Members.apply_tick, Option.bind_eq_some_iff]
  constructor
  · rintro ⟨q, hq, heq⟩
    split at heq
    next => cases heq
    next hlt =>
      cases heq
      rw [Nat.not_le] at hlt
      exact ⟨by rw [hq, Nat.sub_add_cancel (Nat.le_of_lt hlt)], Nat.le_sub_one_of_lt hlt⟩
  · rintro ⟨hq, hr⟩
    exact ⟨r + 1, hq, if_neg (by omega)⟩

theorem length_update_le {ts : Nat} {items : List (Nat × timer_data)} (hsize : ∀ s, (lists s).length ≤ size)
    (hitems : items.length ≤ size + 1) (s : Nat) : (Function.update lists ts items s).length ≤ size + 1 := by
  by_cases hst : s = ts
  · subst hst
    rwa [Function.update_self]
  · rw [Function.update_of_ne hst]
    exact Nat.le_succ_of_le (hsize s)

/-- What a call leaves: the wheel for the timers that there should be, with at most one more in each slot than before,
and the calls of the callbacks of the timers that fire. -/
def Done (m : Members) (size : Nat) (op : Op) (run : Except Fault ((time_wheel × List Ptr) × Heap tw_timer)) : Prop :=
  ∃ w' calls h' lists', run = .ok ((w', calls), h') ∧ Holds h' w' lists' (m.apply op) ∧
    (∀ s, (lists' s).length ≤ size + 1) ∧ calls.Nodup ∧ ∀ p, p ∈ calls ↔ op = .tick ∧ ∃ a, p = some a ∧ m a = some 1

section

variable (hold : Holds h w lists m)
include hold

theorem Holds.add {timeout : Int} (hfree : 0 ≤ timeout → m a = none)
    (hsize : ∀ s, (lists s).length ≤ size) (fuel : Nat) :
    Done m size (.add a timeout) (((Op.add a timeout).exec fuel w).run h) := by
  by_cases ht : timeout < 0
  · have hrun : (w.add_timer a timeout).run h = .ok ((none, w), h) := by
      rw [time_wheel.add_timer, if_pos ht]
      rfl
    refine ⟨w, [], h, lists, run_bind_of_ok hrun _, ?_, fun s => Nat.le_succ_of_le (hsize s), List.nodup_nil, by simp⟩
    rw [Members.apply, if_pos ht]
    exact hold
  · have hfree := hfree (Int.not_lt.mp ht)
    have hnone : h.cells a = none := by
      rw [← Option.not_isSome_iff_eq_none, hold.slots.live, hold.mem_places_iff]
      exact not_not.mpr hfree
    have hslot : (w.entry timeout).time_slot < N := Nat.mod_lt _ (by decide)
    refine ⟨_, [], _, _, run_bind_of_ok (hold.slots.run_add_timer hnone (Int.not_lt.mp ht)) _,
      ⟨hold.slots.push hnone hslot, fun b r => ?_⟩, fun s => ?_, List.nodup_nil, by simp⟩
    · have hmem : ∀ d, (b, d) ∈ Function.update lists (w.entry timeout).time_slot
          ((a, w.entry timeout) :: lists (w.entry timeout).time_slot) d.time_slot ↔
          b = a ∧ d = w.entry timeout ∨ (b, d) ∈ lists d.time_slot := by
        intro d
        by_cases hd : d.time_slot = (w.entry timeout).time_slot
        · rw [hd, Function.update_self, List.mem_cons, Prod.mk.injEq]
        · rw [Function.update_of_ne hd, or_iff_right]
          rintro ⟨_, rfl⟩
          exact hd rfl
      rw [Members.apply, if_neg ht]
      by_cases hb : b = a
      · subst hb
        have hnot : ∀ d : timer_data, (b, d) ∉ lists d.time_slot :=
          fun d hx => (hold.mem_places_iff b).mp ⟨_, mem_places hx⟩ hfree
        simp only [hmem, hnot, Function.update_self, Option.some.injEq, true_and, or_false, exists_eq_left]
        rw [← remaining_entry hold.slots.cur_lt timeout]
        rfl
      · rw [Function.update_of_ne hb, hold.mem_iff]
        simp only [hmem, hb, false_and, false_or]
        rfl
    · refine length_update_le hsize ?_ s
      rw [List.length_cons]
      exact Nat.succ_le_succ (hsize _)

theorem Holds.del {timer : Ptr} (hmember : ∀ a, timer = some a → m a ≠ none)
    (hsize : ∀ s, (lists s).length ≤ size) (fuel : Nat) :
    Done m size (.del timer) (((Op.del timer).exec fuel w).run h) := by
  cases timer with
  | none => exact ⟨w, [], h, lists, rfl, hold, fun s => Nat.le_succ_of_le (hsize s), List.nodup_nil, by simp⟩
  | some a =>
    obtain ⟨r, hr⟩ := Option.ne_none_iff_exists'.mp (hmember a rfl)
    obtain ⟨d, hd, _⟩ := (hold.mem_iff a r).mp hr
    obtain ⟨front, back, hsplit⟩ := List.append_of_mem hd
    refine ⟨_, [], _, _, run_bind_of_ok (hold.slots.run_del_timer hsplit) _, ⟨hold.slots.remove hsplit, fun b r => ?_⟩,
      fun s => ?_, List.nodup_nil, by simp⟩
    · have hmem : ∀ e, (b, e) ∈ Function.update lists d.time_slot (front ++ back) e.time_slot ↔
          b ≠ a ∧ (b, e) ∈ lists e.time_slot := by
        intro e
        have hnodup := hold.slots.nodup d.time_slot
        by_cases he : e.time_slot = d.time_slot
        · rw [he, Function.update_self, hsplit]
          exact mem_rest_iff (hsplit ▸ hnodup) (b, e)
        · rw [Function.update_of_ne he, iff_and_self]
          rintro hx rfl
          exact he (hold.slots.unique (mem_places hx) (mem_places hd))
      simp only [hmem]
      by_cases hb : b = a
      · simp [hb, Members.apply]
      · rw [Members.apply, Function.update_of_ne hb, hold.mem_iff]
        simp only [hb, ne_eq, not_false_eq_true, true_and]
        rfl
    · refine length_update_le hsize ?_ s
      have hlen := hsize d.time_slot
      rw [hsplit] at hlen
      simp only [List.length_append, List.length_cons] at hlen ⊢
      omega

/-- The timers that fire in a tick. -/
theorem Holds.mem_firing_iff : a ∈ firing (lists w.cur_slot) ↔ m a = some 1 := by
  rw [hold.mem_iff, firing, places, List.mem_map]
  constructor
  · rintro ⟨⟨_, d⟩, hx, rfl⟩
    obtain ⟨hx, hzero⟩ := List.mem_filter.mp hx
    obtain ⟨hslot, hlt⟩ := hold.slots.own _ _ hx
    refine ⟨d, ?_, (remaining_eq_one_iff hold.slots.cur_lt (hslot ▸ hlt)).mpr ⟨hslot, of_decide_eq_true hzero⟩⟩
    exact hslot ▸ hx
  · rintro ⟨d, hx, hone⟩
    obtain ⟨hslot, hzero⟩ := (remaining_eq_one_iff hold.slots.cur_lt (hold.slots.own _ _ hx).2).mp hone
    exact ⟨(a, d), List.mem_filter.mpr ⟨hslot ▸ hx, decide_eq_true hzero⟩, rfl⟩

theorem Holds.tick (hsize : ∀ s, (lists s).length ≤ size)
    (hfuel : size < fuel) : Done m size .tick ((Op.tick.exec fuel w).run h) := by
  have hcur := hold.slots.cur_lt
  obtain ⟨h', hrun, hslots⟩ := hold.slots.tick (Nat.lt_of_le_of_lt (hsize _) hfuel)
  refine ⟨_, _, h', _, hrun, ⟨hslots, fun a r => ?_⟩, fun s => ?_, ?_, fun p => ?_⟩
  · rw [Members.apply_tick_eq_some, hold.mem_iff]
    constructor
    · rintro ⟨⟨d, hx, hr⟩, hpos⟩
      have hlt := (hold.slots.own _ _ hx).2
      by_cases hslot : d.time_slot = w.cur_slot
      · obtain ⟨rotation, time_slot⟩ := d
        dsimp only at hslot hlt hx
        subst hslot
        cases rotation with
        | zero =>
          rw [(remaining_eq_one_iff hcur hlt).mpr ⟨rfl, rfl⟩] at hr
          omega
        | succ rotation =>
          refine ⟨⟨rotation, w.cur_slot⟩, ?_, Nat.succ.inj ((remaining_turn hlt).trans hr)⟩
          rw [Function.update_self]
          exact mem_filterMap_turn.mpr hx
      · refine ⟨d, ?_, ?_⟩
        · rwa [Function.update_of_ne hslot]
        · have hnext := remaining_next hcur hlt hslot
          exact Nat.succ.inj (hnext.trans hr)
    · rintro ⟨d, hx, rfl⟩
      have hlt := (hslots.own _ _ hx).2
      refine ⟨?_, Nat.le_add_left 1 _⟩
      by_cases hslot : d.time_slot = w.cur_slot
      · rw [hslot, Function.update_self] at hx
        have hmem := mem_filterMap_turn.mp hx
        rw [← hslot] at hmem ⊢
        exact ⟨{ d with rotation := d.rotation + 1 }, hmem, (remaining_turn hlt).symm⟩
      · rw [Function.update_of_ne hslot] at hx
        exact ⟨d, hx, (remaining_next hcur hlt hslot).symm⟩
  · exact length_update_le hsize (Nat.le_succ_of_le (Nat.le_trans (List.length_filterMap_le _ _) (hsize _))) s
  · exact ((hold.slots.nodup _).sublist (List.filter_sublist.map _)).map fun _ _ => Option.some.inj
  · rw [List.mem_map]
    simp only [hold.mem_firing_iff, true_and, eq_comm, and_comm]

/-- Every call keeps the wheel. -/
theorem Holds.exec (op : Op) (hop : Permitted m op)
    (hsize : ∀ s, (lists s).length ≤ size) (hfuel : size < fuel) : Done m size op ((op.exec fuel w).run h) := by
  cases op with
  | add a timeout => exact hold.add hop hsize fuel
  | del timer => exact hold.del hop hsize fuel
  | tick => exact hold.tick hsize hfuel

theorem Holds.execAll (ops : List Op)
    (hops : Each Members.apply Permitted m ops) (hsize : ∀ s, (lists s).length ≤ size)
    (hfuel : size + ops.length < fuel) :
    ∃ w' h' lists', (execAll fuel ops w).run h = .ok (w', h') ∧ Holds h' w' lists' (ops.foldl Members.apply m) ∧
      ∀ s, (lists' s).length ≤ size + ops.length := by
  induction ops generalizing h w lists m size with
  | nil => exact ⟨w, h, lists, rfl, hold, hsize⟩
  | cons op ops ih =>
    rw [List.length_cons] at hfuel ⊢
    obtain ⟨w₁, calls, h₁, lists₁, hrun₁, hold₁, hsize₁, _⟩ := hold.exec op hops.1 hsize (by omega : size < fuel)
    obtain ⟨w₂, h₂, lists₂, hrun₂, hold₂, hsize₂⟩ := ih hold₁ hops.2 hsize₁ (by omega)
    refine ⟨w₂, h₂, lists₂, ?_, hold₂, fun s => ?_⟩
    · rw [wheel.execAll, run_bind_of_ok hrun₁]
      exact hrun₂
    · have := hsize₂ s
      omega

end

section Countdown

/-- The calls that have nothing to do with the timer at the address `a`. -/
def Op.Other (a : Nat) : Op → Prop
  | .add b timeout => 0 ≤ timeout → b ≠ a
  | .del timer => timer ≠ some a
  | .tick => False

theorem Members.apply_of_other {op : Op} (hop : op.Other a) : m.apply op a = m a := by
  cases op with
  | add b timeout =>
    rw [Members.apply]
    split
    next => rfl
    next hlt => exact Function.update_of_ne (hop (Int.not_lt.mp hlt)).symm _ _
  | del timer =>
    cases timer with
    | none => rfl
    | some b => exact Function.update_of_ne (fun heq => hop (congrArg some heq.symm)) _ _
  | tick => exact hop.elim

/-- A timer that is gone stays gone as long as no new timer gets its address. -/
theorem foldl_apply_of_none (ops : List Op) (hnone : m a = none)
    (hnew : ∀ timeout, 0 ≤ timeout → .add a timeout ∉ ops) : ops.foldl Members.apply m a = none := by
  induction ops generalizing m with
  | nil => exact hnone
  | cons op ops ih =>
    refine ih ?_ fun timeout ht hmem => hnew timeout ht (List.mem_cons_of_mem _ hmem)
    by_cases hop : op.Other a
    · rw [Members.apply_of_other hop, hnone]
    · cases op with
      | add b timeout =>
        simp only [Op.Other, not_forall, not_not] at hop
        obtain ⟨ht, rfl⟩ := hop
        exact absurd List.mem_cons_self (hnew timeout ht)
      | del timer =>
        rw [Op.Other, not_not] at hop
        subst hop
        exact Function.update_self a none m
      | tick => rw [Members.apply_tick, hnone, Option.bind_none]

/-- A timer counts down with every tick until it is deleted or fires. -/
theorem foldl_apply_of_some (ops : List Op) (hr : m a = some (r + 1))
    (hnew : ∀ timeout, 0 ≤ timeout → .add a timeout ∉ ops) :
    ops.foldl Members.apply m a = some 1 ↔ .del (some a) ∉ ops ∧ ops.count .tick = r := by
  induction ops generalizing m r with
  | nil => simp [hr, eq_comm]
  | cons op ops ih =>
    have hnew' : ∀ timeout, 0 ≤ timeout → .add a timeout ∉ ops :=
      fun timeout ht hmem => hnew timeout ht (List.mem_cons_of_mem _ hmem)
    rw [List.foldl_cons]
    by_cases hop : op.Other a
    · have hdel : .del (some a) ≠ op := by
        rintro rfl
        exact hop rfl
      have htick : op ≠ .tick := by
        rintro rfl
        exact hop
      rw [ih ((Members.apply_of_other hop).trans hr) hnew', List.mem_cons, or_iff_right hdel,
        List.count_cons_of_ne htick]
    · cases op with
      | add b timeout =>
        simp only [Op.Other, not_forall, not_not] at hop
        obtain ⟨ht, rfl⟩ := hop
        exact absurd List.mem_cons_self (hnew timeout ht)
      | del timer =>
        rw [Op.Other, not_not] at hop
        subst hop
        have hgone : m.apply (.del (some a)) a = none := by rw [Members.apply, Function.update_self]
        rw [foldl_apply_of_none ops hgone hnew']
        exact iff_of_false (fun h => nomatch h) fun h => h.1 List.mem_cons_self
      | tick =>
        have hdel : .del (some a) ≠ Op.tick := fun h => nomatch h
        rw [List.mem_cons, or_iff_right hdel, List.count_cons_self]
        cases r with
        | zero =>
          have hfires : m.apply .tick a = none := by
            rw [Members.apply_tick, hr]
            rfl
          rw [foldl_apply_of_none ops hfires hnew']
          exact iff_of_false (fun h => nomatch h) fun h => nomatch h.2
        | succ r =>
          rw [ih (Members.apply_tick_eq_some.mpr ⟨hr, Nat.le_add_left 1 r⟩) hnew', Nat.succ_inj]

end Countdown

/-- After every sequence of calls all slots are correctly linked lists; and in the next call of `tick`, which calls no
callback twice, a timer that was added with a timeout `t` fires exactly if it has not been deleted and there were
`max t 1` calls of `tick` since. -/
theorem wheel_correct (raw : Nat → tw_timer) (ops : List Op) (hops : Each Members.apply Permitted (fun _ => none) ops)
    (fuel : Nat) (hfuel : ops.length < fuel) :
    ∃ w h lists, (execAll fuel ops .init).run (.empty raw) = .ok (w, h) ∧ Slots h w lists ∧
      ∃ w' calls h' lists', (w.tick fuel).run h = .ok ((w', calls), h') ∧ Slots h' w' lists' ∧ calls.Nodup ∧
        ∀ pre a timeout post, ops = pre ++ .add a timeout :: post → 0 ≤ timeout →
          (∀ t, 0 ≤ t → .add a t ∉ post) →
          (some a ∈ calls ↔ .del (some a) ∉ post ∧ post.count .tick = max timeout.toNat 1) := by
  obtain ⟨w, h, lists, hrun, hold, hsize⟩ := (Holds.init raw).execAll ops hops (fun _ => Nat.le_refl 0)
    (by rwa [Nat.zero_add])
  rw [Nat.zero_add] at hsize
  obtain ⟨w', calls, h', lists', hrun', hold', _, hnodup, hcalls⟩ := hold.tick hsize hfuel
  refine ⟨w, h, lists, hrun, hold.slots, w', calls, h', lists', hrun', hold'.slots, hnodup, ?_⟩
  rintro pre a timeout post rfl ht hnew
  have hadded : (pre.foldl Members.apply fun _ => none).apply (.add a timeout) a = some (max timeout.toNat 1 + 1) := by
    rw [Members.apply, if_neg (Int.not_lt.mpr ht), Function.update_self]
  rw [hcalls, ← foldl_apply_of_some post hadded hnew, List.foldl_append, List.foldl_cons]
  constructor
  · rintro ⟨_, b, heq, hb⟩
    cases heq
    exact hb
  · exact fun hb => ⟨rfl, a, rfl, hb⟩

/-- Two timers in one slot, the second of which fires a whole turn later and is deleted. -/
theorem wheel_correct_shared : ∃ w h lists,
    (execAll 6 [.add 0 1, .add 1 61, .tick, .del (some 1), .del none] .init).run
        (.empty fun _ => ⟨⟨0, 0⟩, none, none⟩) = .ok (w, h) ∧ Slots h w lists ∧
      ∃ w' calls h' lists', (w.tick 6).run h = .ok ((w', calls), h') ∧ Slots h' w' lists' ∧ calls.Nodup ∧
        ∀ pre a timeout post, [Op.add 0 1, .add 1 61, .tick, .del (some 1), .del none] = pre ++ .add a timeout :: post →
          0 ≤ timeout → (∀ t, 0 ≤ t → .add a t ∉ post) →
          (some a ∈ calls ↔ .del (some a) ∉ post ∧ post.count .tick = max timeout.toNat 1) :=
  wheel_correct _ [.add 0 1, .add 1 61, .tick, .del (some 1), .del none]
    ⟨fun _ => rfl, fun _ => rfl, trivial, (fun _ heq => Option.some.inj heq ▸ by decide), (fun _ heq => nomatch heq),
      trivial⟩ 6 (by decide)

end basic_data_struct.wheel
