import Mathlib.Logic.Function.Basic
import Mathlib.Logic.Relation

namespace basic_data_struct.thread

inductive Thread where
  | producer
  | consumer
deriving DecidableEq

def Thread.other : Thread → Thread
  | .producer => .consumer
  | .consumer => .producer

/-- Where a thread stands in its loop. `woken` is inside `pthread_cond_wait`, after the
wake-up and before the mutex is taken again. -/
inductive Pc where
  | forTest
  | lock
  | whileTest
  | waiting
  | woken
  | assign
  | signal
  | unlock
  | forStep
  | done
deriving DecidableEq

/-- The shared variables and the two threads. A thread waits on its own condition
variable only, so `waiting` says on which. `log` holds the values that a thread has put
into the buffer or found there. -/
@[ext]
structure State where
  buffer : Int32
  the_mutex : Option Thread
  pc : Thread → Pc
  i : Thread → Int32
  log : Thread → List Int32

def initial : State where
  buffer := 0
  the_mutex := none
  pc _ := .forTest
  i _ := 1
  log _ := []

/-- The condition of a thread's `while` loop. -/
def Blocked (buffer : Int32) : Thread → Prop
  | .producer => buffer ≠ 0
  | .consumer => buffer = 0

instance (buffer : Int32) : (t : Thread) → Decidable (Blocked buffer t)
  | .producer => inferInstanceAs (Decidable (buffer ≠ 0))
  | .consumer => inferInstanceAs (Decidable (buffer = 0))

/-- What a thread assigns to the buffer. -/
def assigned (s : State) : Thread → Int32
  | .producer => s.i .producer
  | .consumer => 0

/-- The item that a thread's assignment is about. -/
def item (s : State) : Thread → Int32
  | .producer => s.i .producer
  | .consumer => s.buffer

def State.goto (s : State) (t : Thread) (pc : Pc) : State := { s with pc := Function.update s.pc t pc }

/-- `pthread_cond_signal` of the other thread's condition variable. It is lost when that
thread is not waiting. -/
def State.wake (s : State) (t : Thread) : State := if s.pc t = .waiting then s.goto t .woken else s

/-- The next action of a thread, if it can take one. -/
def step (MAX : Int) (t : Thread) (s : State) : Option State :=
  match s.pc t with
  | .forTest => some (s.goto t (if (s.i t).toInt ≤ MAX then .lock else .done))
  | .lock | .woken =>
    if s.the_mutex = none then some { s.goto t .whileTest with the_mutex := some t } else none
  | .whileTest =>
    if Blocked s.buffer t then some { s.goto t .waiting with the_mutex := none } else some (s.goto t .assign)
  | .waiting => none
  | .assign =>
    some { s.goto t .signal with
      buffer := assigned s t
      log := Function.update s.log t (s.log t ++ [item s t]) }
  | .signal => some ((s.goto t .unlock).wake t.other)
  | .unlock => some { s.goto t .forStep with the_mutex := none }
  | .forStep => some { s.goto t .forTest with i := Function.update s.i t (s.i t + 1) }
  | .done => none

/-- A step of the program: an action of a thread, or a wake-up without a signal. -/
inductive Step (MAX : Int) (s : State) : State → Prop where
  | action (t : Thread) {s' : State} (h : step MAX t s = some s') : Step MAX s s'
  | spurious (t : Thread) (h : s.pc t = .waiting) : Step MAX s (s.goto t .woken)

def Reachable (MAX : Int) : State → Prop := Relation.ReflTransGen (Step MAX) initial

/-- The state after the actions of the threads in a given order. -/
def follow (MAX : Int) (schedule : List Thread) (s : State) : Option State :=
  schedule.foldlM (fun s t => step MAX t s) s

theorem reachable_of_follow {MAX : Int} (schedule : List Thread) {s : State}
    (h : follow MAX schedule initial = some s) : Reachable MAX s := by
  have hpath : ∀ schedule u, follow MAX schedule u = some s → Relation.ReflTransGen (Step MAX) u s := by
    intro schedule
    induction schedule with
    | nil =>
      rintro u ⟨⟩
      exact .refl
    | cons t schedule ih =>
      intro u hu
      obtain ⟨v, hv, hrest⟩ := Option.bind_eq_some_iff.mp hu
      exact .head (.action t hv) (ih v hrest)
  exact hpath schedule initial h

/-- The places where a thread holds the mutex. -/
def Pc.Holds : Pc → Prop
  | .whileTest | .assign | .signal | .unlock => True
  | _ => False

/-- What the mutex and the condition variables give: a thread that holds the mutex is
alone, and one that waits is blocked or about to be woken. -/
structure Monitor (s : State) : Prop where
  holds (t : Thread) : (s.pc t).Holds ↔ s.the_mutex = some t
  waits (t : Thread) : s.pc t = .waiting → Blocked s.buffer t ∨ s.pc t.other = .signal
  passed (t : Thread) : s.pc t = .assign → ¬Blocked s.buffer t

theorem Thread.other_ne (t : Thread) : t.other ≠ t := by cases t <;> decide

theorem Thread.other_other (t : Thread) : t.other.other = t := by cases t <;> rfl

theorem Thread.eq_or_other (t u : Thread) : u = t ∨ u = t.other := by cases t <;> cases u <;> decide

section

variable {MAX : Int} {t : Thread} {s s' : State}

@[simp] theorem goto_pc_self (pc : Pc) : (s.goto t pc).pc t = pc := Function.update_self ..

@[simp] theorem goto_pc_other (pc : Pc) : (s.goto t pc).pc t.other = s.pc t.other :=
  Function.update_of_ne t.other_ne ..

@[simp] theorem goto_the_mutex (pc : Pc) : (s.goto t pc).the_mutex = s.the_mutex := rfl

theorem monitor_initial : Monitor initial where
  holds t := by simp [initial, Pc.Holds]
  waits t h := by cases h
  passed t h := by cases h

theorem ne_other_of_holder (ht : s.the_mutex = some t) : s.the_mutex ≠ some t.other := by
  rw [ht, ne_eq, Option.some.injEq]
  exact Ne.symm t.other_ne

/-- A move of one thread that neither writes the buffer nor sends its signal. -/
theorem Monitor.move (hs : Monitor s) (hbuffer : s'.buffer = s.buffer) (hpc : s'.pc t.other = s.pc t.other)
    (hmutex : s'.the_mutex = some t.other ↔ s.the_mutex = some t.other) (hsignal : s.pc t ≠ .signal)
    (hholds : (s'.pc t).Holds ↔ s'.the_mutex = some t) (hwaits : s'.pc t = .waiting → Blocked s.buffer t)
    (hpassed : s'.pc t = .assign → ¬Blocked s.buffer t) : Monitor s' where
  holds u := by
    rcases t.eq_or_other u with rfl | rfl
    · exact hholds
    · rw [hpc, hmutex]
      exact hs.holds _
  waits u hu := by
    rw [hbuffer]
    rcases t.eq_or_other u with rfl | rfl
    · exact .inl (hwaits hu)
    · rw [hpc] at hu
      have hblocked := hs.waits _ hu
      rw [t.other_other] at hblocked
      exact .inl (hblocked.resolve_right hsignal)
  passed u hu := by
    rw [hbuffer]
    rcases t.eq_or_other u with rfl | rfl
    · exact hpassed hu
    · rw [hpc] at hu
      exact hs.passed _ hu

/-- The assignment is made with the mutex, so the other thread can only be waiting for
the signal that follows. -/
theorem Monitor.assign (hs : Monitor s) (ht : s.pc t = .assign) (buffer : Int32) (log : Thread → List Int32) :
    Monitor { s.goto t .signal with buffer, log } := by
  have hmutex : s.the_mutex = some t := (hs.holds t).mp (by rw [ht]; trivial)
  have hother : ¬(s.pc t.other).Holds := by
    rw [hs.holds]
    exact ne_other_of_holder hmutex
  refine ⟨fun u => ?_, fun u hu => ?_, fun u hu => ?_⟩ <;> rcases t.eq_or_other u with rfl | rfl
  · simpa [Pc.Holds] using hmutex
  · simpa using hs.holds t.other
  · simp at hu
  · exact .inr (by rw [t.other_other]; simp)
  · simp at hu
  · simp only [goto_pc_other] at hu
    rw [hu] at hother
    exact absurd trivial hother

/-- The signal wakes the other thread if it is waiting. -/
theorem Monitor.signal (hs : Monitor s) (ht : s.pc t = .signal) : Monitor ((s.goto t .unlock).wake t.other) := by
  have hmutex : s.the_mutex = some t := (hs.holds t).mp (by rw [ht]; trivial)
  rw [State.wake, goto_pc_other]
  split
  next hwaiting =>
    have hself : ((s.goto t .unlock).goto t.other .woken).pc t = .unlock := by
      have hother := goto_pc_other (s := s.goto t .unlock) (t := t.other) .woken
      rwa [t.other_other, goto_pc_self] at hother
    refine ⟨fun u => ?_, fun u hu => ?_, fun u hu => ?_⟩ <;> rcases t.eq_or_other u with rfl | rfl
    · rw [hself]
      simpa [Pc.Holds] using hmutex
    · simpa [Pc.Holds] using ne_other_of_holder hmutex
    · simp [hself] at hu
    · simp at hu
    · simp [hself] at hu
    · simp at hu
  next hawake =>
    refine ⟨fun u => ?_, fun u hu => ?_, fun u hu => ?_⟩ <;> rcases t.eq_or_other u with rfl | rfl
    · simpa [Pc.Holds] using hmutex
    · simpa using hs.holds t.other
    · simp at hu
    · exact absurd (by simpa using hu) hawake
    · simp at hu
    · exact hs.passed _ (by simpa using hu)

theorem Monitor.spurious (hs : Monitor s) (ht : s.pc t = .waiting) : Monitor (s.goto t .woken) :=
  hs.move rfl (goto_pc_other _) Iff.rfl (by simp [ht]) (by simpa [ht, Pc.Holds] using hs.holds t) (by simp) (by simp)

/-- One action of a thread keeps the monitor. -/
theorem Monitor.action (hs : Monitor s) (h : step MAX t s = some s') : Monitor s' := by
  have hholds := hs.holds t
  revert h
  rw [step]
  cases hpc : s.pc t with
  | forTest =>
    rintro ⟨⟩
    refine hs.move rfl (goto_pc_other _) Iff.rfl (by simp [hpc]) ?_ ?_ ?_ <;> rw [goto_pc_self] <;> split
    · simpa [hpc, Pc.Holds] using hholds
    · simpa [hpc, Pc.Holds] using hholds
    all_goals simp
  | lock | woken =>
    intro h
    dsimp only at h
    split at h <;> cases h
    next hfree =>
      refine hs.move rfl (goto_pc_other _) ?_ (by simp [hpc]) (by simp [Pc.Holds]) (by simp) (by simp)
      simp [hfree, Ne.symm t.other_ne]
  | whileTest =>
    have hmutex : s.the_mutex = some t := hholds.mp (by rw [hpc]; trivial)
    have hother := ne_other_of_holder hmutex
    intro h
    dsimp only at h
    split at h <;> cases h
    next hblocked =>
      exact hs.move rfl (goto_pc_other _) (by simp [hother]) (by simp [hpc]) (by simp [Pc.Holds]) (fun _ => hblocked)
        (by simp)
    next hfree =>
      exact hs.move rfl (goto_pc_other _) Iff.rfl (by simp [hpc]) (by simpa [Pc.Holds] using hmutex) (by simp)
        fun _ => hfree
  | waiting => rintro ⟨⟩
  | assign =>
    rintro ⟨⟩
    exact hs.assign hpc _ _
  | signal =>
    rintro ⟨⟩
    exact hs.signal hpc
  | unlock =>
    have hother := ne_other_of_holder (hholds.mp (by rw [hpc]; trivial))
    rintro ⟨⟩
    exact hs.move rfl (goto_pc_other _) (by simp [hother]) (by simp [hpc]) (by simp [Pc.Holds]) (by simp) (by simp)
  | forStep =>
    rintro ⟨⟩
    exact hs.move rfl (goto_pc_other _) Iff.rfl (by simp [hpc]) (by simpa [hpc, Pc.Holds] using hholds) (by simp)
      (by simp)
  | done => rintro ⟨⟩

/-- The monitor holds in every reachable state. -/
theorem Reachable.monitor (hs : Reachable MAX s) : Monitor s := by
  induction hs with
  | refl => exact monitor_initial
  | tail _ hstep ih =>
    cases hstep with
    | action t h => exact ih.action h
    | spurious t h => exact ih.spurious h

end

end basic_data_struct.thread
