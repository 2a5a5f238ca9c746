import BasicDataStruct.Runs.Deterministic
import BasicDataStruct.Springsnail.Processpool

open runs

namespace basic_data_struct.processpool

variable {n : Nat}

/-- When everything that a child has sent is read, the parent knows its last count. -/
def System.CurrentAt (s : System n) (i : Fin n) : Prop :=
  s.pipe i = [] → ∀ count, (s.notified i).getLast? = some count →
    (s.parent.m_sub_process i).m_busy_ratio = count

def System.Current (s : System n) : Prop := ∀ i, s.CurrentAt i

/-- What `recv` can return on a pipe that is open: up to `sizeof(int)` of the bytes that are
there, and `EAGAIN` or the end of the stream when there are none. -/
def System.Permitted (s : System n) : Event n → Prop
  | .read i (.data ret) =>
    (s.parent.m_sub_process i).m_pid ≠ -1 ∧ 0 < ret ∧ ret ≤ 4 ∧ ret ≤ (s.pipe i).length
  | .read i .again | .read i .closed => (s.parent.m_sub_process i).m_pid ≠ -1 ∧ s.pipe i = []
  | _ => True

instance System.decidablePermitted (s : System n) : DecidablePred s.Permitted
  | .read _ (.data _) => inferInstanceAs (Decidable (_ ∧ _ ∧ _ ∧ _))
  | .read _ .again | .read _ .closed => inferInstanceAs (Decidable (_ ∧ _))
  | .read _ .failed | .notify _ _ | .sigchld _ | .connection => isTrue trivial

/-- A read that takes everything a child has sent takes a single notification. -/
def System.Single (s : System n) : Event n → Prop
  | .read i (.data ret) => ret = (s.pipe i).length → ret = 1
  | _ => True

/-- The notified count is one that fits into a byte when everything is read, and 0 when a
read fails with `EAGAIN`. -/
def System.Small (s : System n) : Event n → Prop
  | .read i (.data ret) => ret = (s.pipe i).length →
      ∀ count, (s.notified i).getLast? = some count → 0 ≤ count ∧ count ≤ 255
  | .read i .again => ∀ count, (s.notified i).getLast? = some count → count = 0
  | _ => True

/-- The bytes in a pipe are those of the last notifications of its child. -/
def System.Sent (s : System n) : Prop := ∀ i, s.pipe i <:+ (s.notified i).map msgByte

/-- The pipes have different descriptors. -/
def Parent.Apart (p : Parent n) : Prop := Function.Injective fun i => (p.m_sub_process i).m_pipefd

section

variable {p : Parent n}

theorem Parent.Apart.find_pipe (hp : p.Apart) (i : Fin n) :
    (List.finRange n).find? (fun j => (p.m_sub_process i).m_pipefd = (p.m_sub_process j).m_pipefd) = some i := by
  cases h : (List.finRange n).find? fun j => (p.m_sub_process i).m_pipefd = (p.m_sub_process j).m_pipefd with
  | none => exact absurd (List.find?_eq_none.mp h i (List.mem_finRange i)) (by simp)
  | some j =>
    have hj : (p.m_sub_process i).m_pipefd = (p.m_sub_process j).m_pipefd := by
      simpa using List.find?_some h
    rw [hp hj]

/-- The loop over the children changes the ratio of the one behind the pipe. -/
theorem Parent.Apart.set_busy_ratio (hp : p.Apart) (i : Fin n) (busy_ratio : Int32) :
    p.set_busy_ratio (p.m_sub_process i).m_pipefd busy_ratio =
      { p with
        m_sub_process := Function.update p.m_sub_process i { p.m_sub_process i with m_busy_ratio := busy_ratio } } := by
  rw [Parent.set_busy_ratio, hp.find_pipe]

end

theorem pipefd_update (m_sub_process : Fin n → process) (i : Fin n) (busy_ratio : Int32) (j : Fin n) :
    (Function.update m_sub_process i { m_sub_process i with m_busy_ratio := busy_ratio } j).m_pipefd =
      (m_sub_process j).m_pipefd := by
  rw [Function.apply_update fun _ => process.m_pipefd]
  exact congrFun (Function.update_eq_self i fun j => (m_sub_process j).m_pipefd) j

theorem Parent.pipefd_set_busy_ratio (p : Parent n) (sockfd : Int) (busy_ratio : Int32) (j : Fin n) :
    ((p.set_busy_ratio sockfd busy_ratio).m_sub_process j).m_pipefd = (p.m_sub_process j).m_pipefd := by
  unfold Parent.set_busy_ratio
  split
  · exact pipefd_update p.m_sub_process _ busy_ratio j
  · rfl

/-- That a child has exited changes neither its pipe nor its ratio. -/
theorem kept_join (m_sub_process : Fin n → process) (pid : Int) (j : Fin n) :
    (join m_sub_process pid j).m_pipefd = (m_sub_process j).m_pipefd ∧
      (join m_sub_process pid j).m_busy_ratio = (m_sub_process j).m_busy_ratio := by
  unfold join
  split
  · exact ⟨rfl, rfl⟩
  · exact ⟨rfl, rfl⟩

theorem kept_joins (pids : List Int) (m_sub_process : Fin n → process) (j : Fin n) :
    (pids.foldl join m_sub_process j).m_pipefd = (m_sub_process j).m_pipefd ∧
      (pids.foldl join m_sub_process j).m_busy_ratio = (m_sub_process j).m_busy_ratio := by
  induction pids generalizing m_sub_process with
  | nil => exact ⟨rfl, rfl⟩
  | cons pid pids ih =>
    have hfirst := kept_join m_sub_process pid j
    have hrest := ih (join m_sub_process pid)
    exact ⟨hrest.1.trans hfirst.1, hrest.2.trans hfirst.2⟩

/-- No branch of the parent changes a descriptor. -/
theorem System.pipefd_step (s : System n) (e : Event n) (j : Fin n) :
    ((s.step e).parent.m_sub_process j).m_pipefd = (s.parent.m_sub_process j).m_pipefd := by
  cases e with
  | notify i count => rfl
  | read i result =>
    cases result with
    | data ret => exact s.parent.pipefd_set_busy_ratio _ _ j
    | again => exact s.parent.pipefd_set_busy_ratio _ _ j
    | closed => rfl
    | failed => rfl
  | sigchld pids => exact (kept_joins pids s.parent.m_sub_process j).1
  | connection => rfl

theorem System.apart_step {s : System n} (hp : s.parent.Apart) (e : Event n) : (s.step e).parent.Apart := by
  intro i j hij
  apply hp
  simpa only [System.pipefd_step] using hij

/-- The byte of a count is the count itself when it is from 0 to 255. -/
theorem intOf_msgByte (count : Int32) : (intOf [msgByte count]).toInt32 = count ↔ 0 ≤ count ∧ count ≤ 255 := by
  have hvalue : (intOf [msgByte count]).toInt32.toBitVec = count.toBitVec % 256#32 := by simp [intOf, msgByte]
  rw [← Int32.toBitVec_inj, hvalue, Int32.le_iff_toInt_le, Int32.le_iff_toInt_le, ← BitVec.toNat_inj,
    BitVec.toNat_umod, Int32.toInt, Int32.toInt, Int32.toInt, BitVec.toInt_eq_toNat_cond count.toBitVec]
  change count.toBitVec.toNat % 256 = _ ↔ 0 ≤ _ ∧ _ ≤ 255
  split <;> omega

section

variable {s : System n} {i j : Fin n}

theorem System.sent_step (h : s.Sent) (e : Event n) : (s.step e).Sent := by
  intro j
  cases e with
  | notify i count =>
    by_cases hj : j = i
    · subst hj
      obtain ⟨read, hread⟩ := h j
      exact ⟨read, by simp [System.step, ← hread]⟩
    · simpa [System.step, hj] using h j
  | read i result =>
    by_cases hj : j = i
    · subst hj
      simpa [System.step] using (List.drop_suffix _ _).trans (h j)
    · simpa [System.step, hj] using h j
  | sigchld pids => exact h j
  | connection => exact h j

/-- A read of one pipe says nothing about the other children. -/
theorem System.currentAt_read_of_ne (hp : s.parent.Apart) (hj : j ≠ i) (result : Recv) :
    (s.step (.read i result)).CurrentAt j ↔ s.CurrentAt j := by
  have hratio : ((s.step (.read i result)).parent.m_sub_process j).m_busy_ratio =
      (s.parent.m_sub_process j).m_busy_ratio := by
    cases result with
    | data ret => simp only [System.step, Parent.read_ratio, hp.set_busy_ratio, Function.update_of_ne hj]
    | again => simp only [System.step, Parent.read_ratio, hp.set_busy_ratio, Function.update_of_ne hj]
    | closed => rfl
    | failed => rfl
  have hpipe : (s.step (.read i result)).pipe j = s.pipe j := Function.update_of_ne hj _ _
  rw [System.CurrentAt, hratio, hpipe]
  exact Iff.rfl

/-- A lone byte in a pipe is the one of the last notification. -/
theorem System.Sent.lone (h : s.Sent) {count : Int32} (hlone : (s.pipe i).length = 1)
    (hlast : (s.notified i).getLast? = some count) : s.pipe i = [msgByte count] := by
  obtain ⟨b, hb⟩ := List.length_eq_one_iff.mp hlone
  obtain ⟨read, hsent⟩ := hb ▸ h i
  have hlast' := congrArg List.getLast? hsent
  rw [List.getLast?_concat, List.getLast?_map, hlast] at hlast'
  rw [hb, Option.some.inj hlast']

/-- What the parent knows of a child after it has read from the child's pipe. -/
theorem System.currentAt_read (hp : s.parent.Apart) (hsent : s.Sent) (h : s.CurrentAt i) {result : Recv}
    (hpermitted : s.Permitted (.read i result)) (hsingle : s.Single (.read i result)) :
    (s.step (.read i result)).CurrentAt i ↔ s.Small (.read i result) := by
  have hpipe : (s.step (.read i result)).pipe i = (s.pipe i).drop result.taken := Function.update_self _ _ _
  rw [System.CurrentAt, hpipe]
  cases result with
  | data ret =>
    obtain ⟨-, -, -, hret⟩ := hpermitted
    have hempty : (s.pipe i).drop ret = [] ↔ ret = (s.pipe i).length := by
      rw [List.drop_eq_nil_iff]
      omega
    simp only [Recv.taken, hempty, System.Small, System.step, Parent.read_ratio, hp.set_busy_ratio,
      Function.update_self]
    refine forall_congr' fun hall => forall₂_congr fun count hlast => ?_
    rw [hall, List.take_length, hsent.lone (hall ▸ hsingle hall) hlast]
    exact intOf_msgByte count
  | again =>
    obtain ⟨-, hempty⟩ := hpermitted
    simp only [Recv.taken, List.drop_zero, hempty, System.Small, System.step, Parent.read_ratio,
      hp.set_busy_ratio, Function.update_self, true_implies, eq_comm]
  | closed => exact iff_of_true h trivial
  | failed => exact iff_of_true h trivial

theorem System.current_notify (h : s.Current) (i : Fin n) (count : Int32) : (s.step (.notify i count)).Current := by
  intro j
  by_cases hj : j = i
  · subst hj
    have hpipe : (s.step (.notify j count)).pipe j = s.pipe j ++ [msgByte count] := Function.update_self _ _ _
    rw [System.CurrentAt, hpipe]
    exact fun hempty => absurd hempty (by simp)
  · have hpipe : (s.step (.notify i count)).pipe j = s.pipe j := Function.update_of_ne hj _ _
    have hnotified : (s.step (.notify i count)).notified j = s.notified j := Function.update_of_ne hj _ _
    rw [System.CurrentAt, hpipe, hnotified]
    exact h j

theorem System.current_sigchld (h : s.Current) (pids : List Int) : (s.step (.sigchld pids)).Current := by
  intro j hempty count hlast
  exact (kept_joins pids s.parent.m_sub_process j).2.trans (h j hempty count hlast)

/-- One step, with the reads as the only ones that can lose a count. -/
theorem System.current_step (hp : s.parent.Apart) (hsent : s.Sent) (h : s.Current) {e : Event n}
    (hpermitted : s.Permitted e) (hsingle : s.Single e) : (s.step e).Current ↔ s.Small e := by
  cases e with
  | notify i count => exact iff_of_true (s.current_notify h i count) trivial
  | read i result =>
    rw [← s.currentAt_read hp hsent (h i) hpermitted hsingle]
    refine ⟨fun hnext => hnext i, fun hi j => ?_⟩
    by_cases hj : j = i
    · rwa [hj]
    · exact (s.currentAt_read_of_ne hp hj result).mpr (h j)
  | sigchld pids => exact iff_of_true (s.current_sigchld h pids) trivial
  | connection => exact iff_of_true h trivial

end

theorem System.current_init (m_pid m_pipefd : Fin n → Int) : (System.init m_pid m_pipefd).Current := by
  intro i _ count hlast
  exact absurd hlast (by simp [System.init])

/-- When no two notifications are in flight at a read that takes everything, the parent knows
the last count of each child whose bytes are all read, along the whole history, exactly when
these counts are from 0 to 255 and no read fails with `EAGAIN` after another count than 0. -/
theorem busy_ratio_current_iff (m_pid : Fin n → Int) {m_pipefd : Fin n → Int} (hfds : Function.Injective m_pipefd)
    {events : List (Event n)}
    (hpermitted : Each System.step (fun s e => s.Permitted e ∧ s.Single e) (.init m_pid m_pipefd) events) :
    Always System.step System.Current (.init m_pid m_pipefd) events ↔
      Each System.step System.Small (.init m_pid m_pipefd) events := by
  apply always_iff_each (fun s => (s.parent.Apart ∧ s.Sent) ∧ s.Current) _ _ _ _ _ hpermitted
  · intro s hs
    exact hs.2
  · rintro s e ⟨⟨hp, hsent⟩, hs⟩ he hc
    exact ⟨⟨System.apart_step hp e, System.sent_step hsent e⟩, (System.current_step hp hsent hs he.1 he.2).mpr hc⟩
  · rintro s e ⟨⟨hp, hsent⟩, hs⟩ he hc hnext
    exact hc ((System.current_step hp hsent hs he.1 he.2).mp hnext)
  · exact ⟨⟨hfds, fun _ => List.nil_suffix⟩, System.current_init m_pid m_pipefd⟩

/-- Two children, whose notifications are read in another order than they are sent. The
last read finds nothing, after the count 0. -/
theorem busy_ratio_current_two :
    Always System.step System.Current (.init (n := 2) (fun _ => 100) (fun i => i.val))
      [.notify 0 7, .notify 1 255, .read 1 (.data 1), .read 0 (.data 1), .notify 0 0, .read 0 (.data 1),
        .read 0 .again] := by
  have hfds : Function.Injective fun i : Fin 2 => (i.val : Int) := fun i j h => Fin.ext (Int.ofNat.inj h)
  refine (busy_ratio_current_iff (fun _ => 100) hfds ?_).mpr ?_
  · exact ⟨⟨trivial, trivial⟩, ⟨trivial, trivial⟩, ⟨by decide, fun _ => rfl⟩, ⟨by decide, fun _ => rfl⟩,
      ⟨trivial, trivial⟩, ⟨by decide, fun _ => rfl⟩, ⟨by decide, trivial⟩, trivial⟩
  · refine ⟨trivial, trivial, ?_, ?_, trivial, ?_, ?_, trivial⟩
    · rintro - count ⟨⟩
      decide
    · rintro - count ⟨⟩
      decide
    · rintro - count ⟨⟩
      decide
    · rintro count ⟨⟩
      rfl

/-- Of 256 only the byte 0 is sent. -/
theorem busy_ratio_lost :
    Each System.step System.Permitted (.init (n := 1) (fun _ => 100) (fun _ => 5)) [.notify 0 256, .read 0 (.data 1)] ∧
      ¬Always System.step System.Current (.init (n := 1) (fun _ => 100) (fun _ => 5))
        [.notify 0 256, .read 0 (.data 1)] := by
  refine ⟨⟨trivial, by decide, trivial⟩, fun h => ?_⟩
  exact absurd (h.last 0 rfl 256 rfl) (by decide)

-- The bytes of two notifications that are in flight together become the number 513.
example : ¬Always System.step System.Current (.init (n := 1) (fun _ => 100) (fun _ => 5))
    [.notify 0 1, .notify 0 2, .read 0 (.data 2)] := by
  intro h
  exact absurd (h.last 0 rfl 2 rfl) (by decide)

end basic_data_struct.processpool
