import BasicDataStruct.Runs.Deterministic
import BasicDataStruct.Selection.FirstLeast
import BasicDataStruct.Springsnail.Processpool
import Mathlib.Algebra.Order.Ring.Int
import Mathlib.Data.Fin.VecNotation

open runs selection

namespace basic_data_struct.processpool

variable {n : Nat}

/-- The child has not exited. -/
def Parent.Alive (p : Parent n) (i : Fin n) : Prop := (p.m_sub_process i).m_pid ≠ -1

instance (p : Parent n) : DecidablePred p.Alive := fun _ => inferInstanceAs (Decidable (_ ≠ _))

/-- The ratio of a child as a number. -/
def Parent.ratio (p : Parent n) (i : Fin n) : Int := (p.m_sub_process i).m_busy_ratio.toInt

/-- A connection goes to the least busy one of the children that are alive, if there are any. -/
def System.WellDispatched [NeZero n] (s : System n) : Event n → Prop
  | .connection => (∃ i, s.parent.Alive i) →
      s.parent.Alive s.parent.get_most_free_srv ∧
        ∀ j, s.parent.Alive j → s.parent.ratio s.parent.get_most_free_srv ≤ s.parent.ratio j
  | _ => True

/-- One of the children that are alive is less busy than each one that has exited, or as busy
and in front of it: the last ratio of a child that has exited is kept. -/
def System.LiveFirst (s : System n) : Event n → Prop
  | .connection => (∃ i, s.parent.Alive i) →
      ∃ i, s.parent.Alive i ∧ ∀ d, ¬s.parent.Alive d →
        s.parent.ratio i < s.parent.ratio d ∨ s.parent.ratio i = s.parent.ratio d ∧ i < d
  | _ => True

/-- The variable `ratio` of the loop is the ratio of the child `idx`. -/
theorem most_free_body_eq (p : Parent n) (k i : Fin n) :
    most_free_body p.m_sub_process (k, (p.m_sub_process k).m_busy_ratio) i =
      (if p.ratio i < p.ratio k then i else k,
        (p.m_sub_process (if p.ratio i < p.ratio k then i else k)).m_busy_ratio) := by
  have hcomp : (p.m_sub_process i).m_busy_ratio < (p.m_sub_process k).m_busy_ratio ↔ p.ratio i < p.ratio k :=
    Int32.lt_iff_toInt_lt
  by_cases hlt : p.ratio i < p.ratio k
  · rw [most_free_body, if_pos hlt, if_pos (hcomp.mpr hlt)]
  · rw [most_free_body, if_neg hlt, if_neg (mt hcomp.mp hlt)]

theorem most_free_loop (p : Parent n) (l : List (Fin n)) (k : Fin n) :
    l.foldl (most_free_body p.m_sub_process) (k, (p.m_sub_process k).m_busy_ratio) =
      (firstLeast p.ratio k l, (p.m_sub_process (firstLeast p.ratio k l)).m_busy_ratio) := by
  induction l generalizing k with
  | nil => rfl
  | cons i l ih =>
    rw [List.foldl_cons, most_free_body_eq]
    exact ih _

/-- `get_most_free_srv` finds the first one of all children that has the least ratio. -/
theorem Parent.get_most_free_srv_spec [NeZero n] (p : Parent n) :
    FirstLeast p.ratio p.get_most_free_srv (0 :: List.finRange n) := by
  rw [Parent.get_most_free_srv, most_free_loop]
  apply firstLeast_spec
  · exact fun i _ => Fin.zero_le i
  · exact (List.pairwise_lt_finRange n).imp le_of_lt

section

variable [NeZero n] (p : Parent n) (j : Fin n)

theorem Parent.ratio_get_most_free_srv : p.ratio p.get_most_free_srv ≤ p.ratio j :=
  p.get_most_free_srv_spec.least j (List.mem_cons_of_mem 0 (List.mem_finRange j))

theorem Parent.get_most_free_srv_le {p : Parent n} {j : Fin n} (h : p.ratio j ≤ p.ratio p.get_most_free_srv) :
    p.get_most_free_srv ≤ j :=
  p.get_most_free_srv_spec.first j (List.mem_cons_of_mem 0 (List.mem_finRange j)) h

/-- The child that is found is alive when one that is alive is in front of all that have exited. -/
theorem Parent.alive_get_most_free_srv :
    p.Alive p.get_most_free_srv ↔
      ∃ i, p.Alive i ∧ ∀ d, ¬p.Alive d → p.ratio i < p.ratio d ∨ p.ratio i = p.ratio d ∧ i < d := by
  refine ⟨fun halive => ⟨_, halive, fun d hd => ?_⟩, fun ⟨i, hi, hfront⟩ => ?_⟩
  · rcases (p.ratio_get_most_free_srv d).lt_or_eq with hlt | heq
    · exact Or.inl hlt
    · have hne : p.get_most_free_srv ≠ d := fun h => hd (h ▸ halive)
      exact Or.inr ⟨heq, lt_of_le_of_ne (Parent.get_most_free_srv_le heq.ge) hne⟩
  · by_contra hexited
    rcases hfront _ hexited with hlt | ⟨heq, hlt⟩
    · exact absurd (p.ratio_get_most_free_srv i) (not_le.mpr hlt)
    · exact absurd (Parent.get_most_free_srv_le heq.le) (not_le.mpr hlt)

theorem System.wellDispatched_iff (s : System n) (e : Event n) : s.WellDispatched e ↔ s.LiveFirst e := by
  cases e with
  | connection =>
    refine imp_congr_right fun _ => ?_
    rw [← Parent.alive_get_most_free_srv]
    exact and_iff_left fun j _ => s.parent.ratio_get_most_free_srv j
  | notify i count => exact Iff.rfl
  | read i result => exact Iff.rfl
  | sigchld pids => exact Iff.rfl

end

/-- All connections of a history go to the least busy child that is alive exactly when, at each
connection, such a child is in front of all that have exited. -/
theorem dispatch_alive_iff [NeZero n] (m_pid m_pipefd : Fin n → Int) (events : List (Event n)) :
    Each System.step System.WellDispatched (.init m_pid m_pipefd) events ↔
      Each System.step System.LiveFirst (.init m_pid m_pipefd) events :=
  each_congr System.wellDispatched_iff (.init m_pid m_pipefd) events

/-- The first child is idle and the second one has exited. -/
theorem dispatch_alive_first :
    Each System.step System.WellDispatched (.init ![100, 101] ![5, 6]) [.sigchld [101], .connection] := by
  refine (dispatch_alive_iff ![100, 101] ![5, 6] [.sigchld [101], .connection]).mpr ⟨trivial, ?_, trivial⟩
  exact fun _ => ⟨0, by decide, by decide⟩

/-- The first child has exited, and a connection goes to it. -/
theorem dispatch_exited :
    ¬Each System.step System.WellDispatched (.init ![100, 101] ![5, 6]) [.sigchld [100], .connection] := by
  rintro ⟨-, hconnection, -⟩
  exact absurd (hconnection ⟨1, by decide⟩).1 (by decide)

end basic_data_struct.processpool
