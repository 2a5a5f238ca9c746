import Mathlib.Data.List.Nodup
import BasicDataStruct.Machine.Range
import BasicDataStruct.Thread.ProducerConsumer

open machine

namespace basic_data_struct.thread

variable {pc : Pc} {n : Nat}

/-- The places between a thread's assignment and the end of its round. -/
def Pc.after : Pc → Bool
  | .signal | .unlock | .forStep => true
  | _ => false

/-- The places inside the body of the `for` loop. -/
def Pc.inside : Pc → Bool
  | .forTest | .done => false
  | _ => true

/-- The items from 1 to `n`. -/
def items (n : Nat) : List Int32 := (List.range n).map fun k => Int32.ofNat (k + 1)

/-- A thread that has handled `n` items. -/
structure Local (MAX : Int) (pc : Pc) (i : Int32) (n : Nat) : Prop where
  i_eq : i = Int32.ofNat (if pc.after then n else n + 1)
  entered : pc.inside → i.toInt ≤ MAX
  finished : pc = .done → ¬i.toInt ≤ MAX
  count_le : (n : Int) ≤ max MAX 0

/-- The threads have handled the items in order, and the buffer holds the item by which
the producer is ahead. -/
structure Counted (MAX : Int) (s : State) : Prop where
  local_of (t : Thread) : Local MAX (s.pc t) (s.i t) (s.log t).length
  log_eq (t : Thread) : s.log t = items (s.log t).length
  buffer_eq : s.buffer = 0 ∧ (s.log .producer).length = (s.log .consumer).length ∨
    s.buffer = Int32.ofNat (s.log .producer).length ∧ (s.log .producer).length = (s.log .consumer).length + 1

section

variable {MAX : Int} {t : Thread} {s s' : State}

theorem items_succ (n : Nat) : items (n + 1) = items n ++ [Int32.ofNat (n + 1)] := by
  rw [items, List.range_succ, List.map_append, List.map_singleton, items]

theorem counted_initial : Counted MAX initial where
  local_of t := ⟨rfl, by simp [initial, Pc.inside], by simp [initial], Int.le_max_right MAX 0⟩
  log_eq t := rfl
  buffer_eq := .inl ⟨rfl, rfl⟩

theorem Local.move {pc' : Pc} {i : Int32} (h : Local MAX pc i n) (hafter : pc'.after = pc.after)
    (hinside : pc'.inside → i.toInt ≤ MAX) (hdone : pc' = .done → ¬i.toInt ≤ MAX) : Local MAX pc' i n :=
  ⟨by rw [hafter]; exact h.i_eq, hinside, hdone, h.count_le⟩

section

variable (hs : Counted MAX s)
include hs

/-- A step that changes only places of the threads. -/
theorem Counted.move (hbuffer : s'.buffer = s.buffer) (hi : s'.i = s.i) (hlog : s'.log = s.log)
    (hafter : ∀ u, (s'.pc u).after = (s.pc u).after) (hinside : ∀ u, (s'.pc u).inside → (s.i u).toInt ≤ MAX)
    (hdone : ∀ u, s'.pc u = .done → ¬(s.i u).toInt ≤ MAX) : Counted MAX s' where
  local_of u := by
    rw [hi, hlog]
    exact (hs.local_of u).move (hafter u) (hinside u) (hdone u)
  log_eq u := by
    rw [hlog]
    exact hs.log_eq u
  buffer_eq := by
    rw [hbuffer, hlog]
    exact hs.buffer_eq

/-- A thread that goes on within the body of its loop. -/
theorem Counted.goto (hinside : (s.pc t).inside) (hafter : pc.after = (s.pc t).after)
    (hdone : pc ≠ .done) (m : Option Thread) : Counted MAX { s.goto t pc with the_mutex := m } := by
  refine hs.move rfl rfl rfl (fun u => ?_) (fun u hu => ?_) (fun u hu => ?_) <;> rcases t.eq_or_other u with rfl | rfl
  · simpa using hafter
  · simp
  · exact (hs.local_of u).entered hinside
  · exact (hs.local_of t.other).entered (by simpa using hu)
  · exact absurd (by simpa using hu) hdone
  · exact (hs.local_of t.other).finished (by simpa using hu)

theorem Counted.wake : Counted MAX (s.wake t) := by
  rw [State.wake]
  split
  next hwaiting => exact hs.goto (by rw [hwaiting]; rfl) (by rw [hwaiting]; rfl) (by decide) s.the_mutex
  next => exact hs

theorem Counted.forTest (ht : s.pc t = .forTest) :
    Counted MAX (s.goto t (if (s.i t).toInt ≤ MAX then .lock else .done)) := by
  refine hs.move rfl rfl rfl (fun u => ?_) (fun u hu => ?_) (fun u hu => ?_) <;> rcases t.eq_or_other u with rfl | rfl
  · rw [goto_pc_self, ht]
    split <;> rfl
  · rw [goto_pc_other]
  · rw [goto_pc_self] at hu
    split at hu
    next hle => exact hle
    next => cases hu
  · exact (hs.local_of t.other).entered (by simpa using hu)
  · rw [goto_pc_self] at hu
    split at hu
    next => cases hu
    next hgt => exact hgt
  · exact (hs.local_of t.other).finished (by simpa using hu)

theorem Counted.forStep (ht : s.pc t = .forStep) :
    Counted MAX { s.goto t .forTest with i := Function.update s.i t (s.i t + 1) } where
  local_of u := by
    rcases t.eq_or_other u with rfl | rfl
    · have hi := (hs.local_of u).i_eq
      rw [ht] at hi
      refine ⟨?_, by simp [Pc.inside], by simp, (hs.local_of u).count_le⟩
      simp only [Function.update_self, goto_pc_self]
      rw [hi]
      exact ofNat_succ _
    · simp only [Function.update_of_ne t.other_ne, goto_pc_other]
      exact hs.local_of t.other
  log_eq := hs.log_eq
  buffer_eq := hs.buffer_eq

end

section

variable (hMAX : MAX < 2147483647)
include hMAX

/-- An empty buffer means that no item is outstanding. -/
theorem Counted.length_eq_of_empty (hs : Counted MAX s) (hempty : s.buffer = 0) :
    (s.log .producer).length = (s.log .consumer).length := by
  rcases hs.buffer_eq with ⟨-, hlength⟩ | ⟨hfull, hahead⟩
  · exact hlength
  · have hcount := (hs.local_of .producer).count_le
    have hzero : (Int32.ofNat (s.log .producer).length).toInt = 0 := by rw [← hfull, hempty, Int32.toInt_zero]
    rw [Int32.toInt_ofNat_of_lt (by omega)] at hzero
    omega

/-- A thread in the middle of its round handles an item that is an `int`. -/
theorem Counted.item_le (hs : Counted MAX s) (ht : s.pc t = .assign) :
    s.i t = Int32.ofNat ((s.log t).length + 1) ∧ ((s.log t).length + 1 : Int) ≤ MAX := by
  obtain ⟨hi, hentered, -, hcount⟩ := hs.local_of t
  rw [ht] at hi
  have hi : s.i t = Int32.ofNat ((s.log t).length + 1) := hi
  have hle := hentered (by rw [ht]; rfl)
  refine ⟨hi, ?_⟩
  rw [hi, Int32.toInt_ofNat_of_lt (by omega)] at hle
  omega

/-- A thread assigns to the buffer after it has found there what it waited for. -/
theorem Counted.item_eq (hs : Counted MAX s) (hmonitor : Monitor s) (ht : s.pc t = .assign) :
    item s t = Int32.ofNat ((s.log t).length + 1) := by
  have hpassed := hmonitor.passed t ht
  cases t with
  | producer => exact (hs.item_le hMAX ht).1
  | consumer =>
    rcases hs.buffer_eq with ⟨hempty, -⟩ | ⟨hfull, hahead⟩
    · exact absurd hempty hpassed
    · rw [item, hfull, hahead]

/-- The assignment puts the next item into the buffer, or takes it out. -/
theorem Counted.assign (hs : Counted MAX s) (hmonitor : Monitor s) (ht : s.pc t = .assign) :
    Counted MAX { s.goto t .signal with
      buffer := assigned s t
      log := Function.update s.log t (s.log t ++ [item s t]) } := by
  obtain ⟨hi, hle⟩ := hs.item_le hMAX ht
  refine ⟨fun u => ?_, fun u => ?_, ?_⟩
  · rcases t.eq_or_other u with rfl | rfl
    · simp only [Function.update_self, goto_pc_self, List.length_append, List.length_singleton]
      exact ⟨hi, fun _ => (hs.local_of u).entered (by rw [ht]; rfl), by simp, by push_cast; omega⟩
    · simp only [Function.update_of_ne t.other_ne, goto_pc_other]
      exact hs.local_of t.other
  · rcases t.eq_or_other u with rfl | rfl
    · simp only [Function.update_self, List.length_append, List.length_singleton]
      rw [items_succ, ← hs.log_eq, hs.item_eq hMAX hmonitor ht]
    · simp only [Function.update_of_ne t.other_ne]
      exact hs.log_eq t.other
  · have hpassed := hmonitor.passed t ht
    cases t with
    | producer =>
      have hempty : s.buffer = 0 := not_not.mp hpassed
      have hlength := hs.length_eq_of_empty hMAX hempty
      refine .inr ⟨?_, ?_⟩
      · simpa [assigned] using hi
      · simpa using hlength
    | consumer =>
      have hlength := (hs.buffer_eq.resolve_left fun hempty => hpassed hempty.1).2
      refine .inl ⟨rfl, ?_⟩
      simpa using hlength

/-- One action of a thread keeps the count. -/
theorem Counted.action (hs : Counted MAX s) (hmonitor : Monitor s) (h : step MAX t s = some s') : Counted MAX s' := by
  revert h
  rw [step]
  cases hpc : s.pc t with
  | forTest =>
    rintro ⟨⟩
    exact hs.forTest hpc
  | lock | woken =>
    intro h
    dsimp only at h
    split at h <;> cases h
    exact hs.goto (by rw [hpc]; rfl) (by rw [hpc]; rfl) (by decide) (some t)
  | whileTest =>
    intro h
    dsimp only at h
    split at h <;> cases h
    · exact hs.goto (by rw [hpc]; rfl) (by rw [hpc]; rfl) (by decide) none
    · exact hs.goto (by rw [hpc]; rfl) (by rw [hpc]; rfl) (by decide) s.the_mutex
  | waiting => rintro ⟨⟩
  | assign =>
    rintro ⟨⟩
    exact hs.assign hMAX hmonitor hpc
  | signal =>
    rintro ⟨⟩
    exact (hs.goto (by rw [hpc]; rfl) (by rw [hpc]; rfl) (by decide) s.the_mutex).wake
  | unlock =>
    rintro ⟨⟩
    exact hs.goto (by rw [hpc]; rfl) (by rw [hpc]; rfl) (by decide) none
  | forStep =>
    rintro ⟨⟩
    exact hs.forStep hpc
  | done => rintro ⟨⟩

theorem Reachable.counted (hs : Reachable MAX s) : Counted MAX s := by
  induction hs with
  | refl => exact counted_initial
  | tail hbefore hstep ih =>
    cases hstep with
    | action t h => exact ih.action hMAX (Reachable.monitor hbefore) h
    | spurious t h => exact ih.goto (by rw [h]; rfl) (by rw [h]; rfl) (by decide) _

end

end

/-- Items are neither lost nor consumed twice: the consumer has found the values from 1
on in order, the producer overwrites nothing, and the buffer is empty or holds the one
item that was put into it and not yet taken out. -/
structure Exact (s : State) : Prop where
  removed (k : Nat) (v : Int32) : (s.log .consumer)[k]? = some v → v.toInt = k + 1
  once : (s.log .consumer).Nodup
  overwrites_nothing : s.pc .producer = .assign → s.buffer = 0
  outstanding : s.buffer = 0 ∧ s.log .producer = s.log .consumer ∨
    s.buffer ≠ 0 ∧ s.log .producer = s.log .consumer ++ [s.buffer]

section

variable {n : Nat}

theorem getElem_items {k : Nat} {v : Int32} (hn : n < 2147483648) (hv : (items n)[k]? = some v) : v.toInt = k + 1 := by
  have hlt : k < n := by
    rw [items, List.getElem?_eq_some_iff] at hv
    simpa using hv.1
  rw [items, List.getElem?_map, List.getElem?_range hlt, Option.map_some, Option.some.injEq] at hv
  rw [← hv, Int32.toInt_ofNat_of_lt (by omega)]
  rfl

theorem nodup_items (hn : n < 2147483648) : (items n).Nodup := by
  refine List.Nodup.map_on (fun k hk l hl heq => ?_) List.nodup_range
  rw [List.mem_range] at hk hl
  rw [← Int32.toInt_inj, Int32.toInt_ofNat_of_lt (by omega), Int32.toInt_ofNat_of_lt (by omega)] at heq
  omega

end

section Turn

variable {MAX : Int} {t : Thread} {s : State}

/-- A round of a thread that runs alone. -/
theorem turn (ht : s.pc t = .forTest) (hmutex : s.the_mutex = none) (hle : (s.i t).toInt ≤ MAX)
    (hfree : ¬Blocked s.buffer t) (hother : s.pc t.other ≠ .waiting) :
    Relation.ReflTransGen (Step MAX) s { s with
      buffer := assigned s t
      i := Function.update s.i t (s.i t + 1)
      log := Function.update s.log t (s.log t ++ [item s t]) } := by
  let buffer := assigned s t
  let log := Function.update s.log t (s.log t ++ [item s t])
  have hlock : step MAX t s = some (s.goto t .lock) := by simp [step, ht, hle]
  have hwhile : step MAX t (s.goto t .lock) = some { s.goto t .whileTest with the_mutex := some t } := by
    simp [step, hmutex, State.goto]
  have hassign : step MAX t { s.goto t .whileTest with the_mutex := some t } =
      some { s.goto t .assign with the_mutex := some t } := by
    simp [step, hfree, State.goto]
  have hsignal : step MAX t { s.goto t .assign with the_mutex := some t } =
      some { s.goto t .signal with the_mutex := some t, buffer, log } := by
    cases t <;> simp [step, State.goto, buffer, log, assigned, item]
  have hunlock : step MAX t { s.goto t .signal with the_mutex := some t, buffer, log } =
      some { s.goto t .unlock with the_mutex := some t, buffer, log } := by
    simp [step, State.goto, State.wake, Function.update_of_ne t.other_ne, hother]
  have hstep : step MAX t { s.goto t .unlock with the_mutex := some t, buffer, log } =
      some { s.goto t .forStep with buffer, log } := by
    simp [step, State.goto, hmutex]
  have htest : step MAX t { s.goto t .forStep with buffer, log } =
      some { s with buffer, log, i := Function.update s.i t (s.i t + 1) } := by
    have hpc : Function.update s.pc t .forTest = s.pc := by rw [← ht, Function.update_eq_self]
    simp [step, State.goto, hpc]
  exact .head (.action t hlock) (.head (.action t hwhile) (.head (.action t hassign) (.head (.action t hsignal)
    (.head (.action t hunlock) (.head (.action t hstep) (.single (.action t htest)))))))

end Turn

/-- Every state of every interleaving is exact, for every item count that leaves room for the `int` counters to go past
it. Wake-ups may be spurious. -/
theorem items_exact (MAX : Int) (hMAX : MAX < 2147483647) (s : State) (hs : Reachable MAX s) : Exact s := by
  have hcounted := hs.counted hMAX
  have hmonitor := hs.monitor
  have hbound := (hcounted.local_of .consumer).count_le
  refine ⟨fun k v hv => ?_, ?_, fun hpc => ?_, ?_⟩
  · rw [hcounted.log_eq .consumer] at hv
    exact getElem_items (by omega) hv
  · rw [hcounted.log_eq .consumer]
    exact nodup_items (by omega)
  · exact not_not.mp (hmonitor.passed .producer hpc)
  · rcases hcounted.buffer_eq with ⟨hempty, hlength⟩ | ⟨hfull, hahead⟩
    · exact .inl ⟨hempty, by rw [hcounted.log_eq .producer, hcounted.log_eq .consumer, hlength]⟩
    · refine .inr ⟨fun hempty => ?_, ?_⟩
      · have hlength := hcounted.length_eq_of_empty hMAX hempty
        omega
      · rw [hcounted.log_eq .producer, hcounted.log_eq .consumer, hfull, hahead, items_succ]

/-- Two of ten items have been taken, and the third is in the buffer. -/
theorem items_exact_third :
    ∃ s, follow 10 ([.producer, .consumer, .producer, .consumer, .producer].flatMap (.replicate 7)) initial = some s ∧
      s.log .consumer = [1, 2] ∧ s.buffer = 3 ∧ Exact s := by
  refine ⟨_, rfl, by decide, by decide, ?_⟩
  exact items_exact 10 (by decide) _
    (reachable_of_follow ([.producer, .consumer, .producer, .consumer, .producer].flatMap (.replicate 7)) rfl)

section Overflow

variable {MAX : Int}

/-- The state after `n` rounds in which the producer and the consumer take turns. -/
def rounds (n : Nat) : State where
  buffer := 0
  the_mutex := none
  pc _ := .forTest
  i _ := Int32.ofNat (n + 1)
  log _ := items n

/-- The state between the two turns of a round. -/
def halfway (n : Nat) : State where
  buffer := Int32.ofNat (n + 1)
  the_mutex := none
  pc _ := .forTest
  i := Function.update (fun _ => Int32.ofNat (n + 1)) .producer (Int32.ofNat (n + 2))
  log := Function.update (fun _ => items n) .producer (items (n + 1))

section

variable (hMAX : 2147483647 ≤ MAX)
include hMAX

/-- An `int` never goes past the largest one. -/
theorem toInt_le_of_large (i : Int32) : i.toInt ≤ MAX := by
  have hlt := i.toInt_lt
  omega

theorem turn_producer (n : Nat) : Relation.ReflTransGen (Step MAX) (rounds n) (halfway n) := by
  have hturn := turn (t := .producer) (s := rounds n) rfl rfl (toInt_le_of_large hMAX _) (by simp [Blocked, rounds])
    (by simp [rounds])
  have hhalf : halfway n = { rounds n with
      buffer := assigned (rounds n) .producer
      i := Function.update (rounds n).i .producer ((rounds n).i .producer + 1)
      log := Function.update (rounds n).log .producer ((rounds n).log .producer ++ [item (rounds n) .producer]) } := by
    simp only [halfway, rounds, assigned, item, items_succ, ofNat_succ]
  rw [hhalf]
  exact hturn

theorem turn_consumer (hn : n + 1 < 4294967296) : Relation.ReflTransGen (Step MAX) (halfway n) (rounds (n + 1)) := by
  have hne : Int32.ofNat (n + 1) ≠ 0 := by
    intro hzero
    have hmod := (ofNat_eq_ofNat_iff (n + 1) 0).mp hzero
    omega
  have hturn := turn (t := .consumer) (s := halfway n) rfl rfl (toInt_le_of_large hMAX _)
    (by simpa only [Blocked, halfway] using hne) (by simp [halfway])
  have hfull : rounds (n + 1) = { halfway n with
      buffer := assigned (halfway n) .consumer
      i := Function.update (halfway n).i .consumer ((halfway n).i .consumer + 1)
      log := Function.update (halfway n).log .consumer
        ((halfway n).log .consumer ++ [item (halfway n) .consumer]) } := by
    refine State.ext rfl rfl rfl (funext fun u => ?_) (funext fun u => ?_) <;> cases u
    · simp only [rounds, halfway, ne_eq, reduceCtorEq, not_false_eq_true, Function.update_of_ne, Function.update_self]
    · simp only [rounds, halfway, ne_eq, reduceCtorEq, not_false_eq_true, Function.update_of_ne, Function.update_self,
        ofNat_succ]
    · simp only [rounds, halfway, ne_eq, reduceCtorEq, not_false_eq_true, Function.update_of_ne, Function.update_self]
    · simp only [rounds, halfway, item, ne_eq, reduceCtorEq, not_false_eq_true, Function.update_of_ne,
        Function.update_self, items_succ]
  rw [hfull]
  exact hturn

theorem reachable_rounds (hn : n < 4294967296) : Reachable MAX (rounds n) := by
  induction n with
  | zero => exact .refl
  | succ n ih => exact (ih (by omega)).trans ((turn_producer hMAX n).trans (turn_consumer hMAX hn))

end

/-- A value found at a removal that has no `int` for its number is wrong. -/
theorem not_exact_rounds (hn : 2147483647 ≤ n) : ¬Exact (rounds (n + 1)) := by
  intro hexact
  have hlast : (items (n + 1))[n]? = some (Int32.ofNat (n + 1)) := by
    rw [items, List.getElem?_map, List.getElem?_range (Nat.lt_succ_self n), Option.map_some]
  have hvalue := hexact.removed n (Int32.ofNat (n + 1)) hlast
  have hlt := (Int32.ofNat (n + 1)).toInt_lt
  omega

end Overflow

/-- With one item more the counters wrap around: the value that the consumer finds at
its removal number 2147483648 is negative. -/
theorem not_exact_largest : ∃ s, Reachable 2147483647 s ∧ ¬Exact s :=
  ⟨rounds (2147483647 + 1), reachable_rounds (by decide) (by decide), not_exact_rounds (Nat.le_refl _)⟩

end basic_data_struct.thread
