import BasicDataStruct.Runs.Deterministic
import BasicDataStruct.ShmTalk.Server

open machine machine.Exec runs compact_table

namespace basic_data_struct.shm_talk

variable {server : Server} {i pid : Int} {e : Event}

/-- The running children use different segments of the shared memory, all inside of it,
and `sub_process` leads from the process number of each to its entry of `users`. -/
structure System.Served (s : System) : Prop where
  distinct : (segments s.children).Nodup
  inside : ∀ c ∈ s.children, c.running → 0 ≤ c.idx ∧ c.idx < USER_LIMIT
  mapped : ∀ c ∈ s.children, c.running → ∃ j, 0 ≤ j ∧ j < s.server.user_count ∧
    s.server.sub_process c.data.pid = j ∧ s.server.users j = c.data

/-- What holds between the tables and the children as long as no segment is given twice. -/
structure System.Tables (s : System) : Prop where
  count : 0 ≤ s.server.user_count ∧ s.server.user_count ≤ USER_LIMIT
  indexed : Indexed client_data.pid s.server.users s.server.sub_process s.server.user_count
  has : ∀ d, Has s.server.users s.server.user_count d ↔ ∃ c ∈ s.children, c.data = d
  pids : ∀ c ∈ s.children, 0 < c.data.pid ∧ c.data.pid < PROCESS_LIMIT
  inside : ∀ c ∈ s.children, 0 ≤ c.idx ∧ c.idx < USER_LIMIT
  distinct : (segments s.children).Nodup

variable {s : System}

theorem tables_init (users : Int → client_data) : System.Tables ⟨.init users, []⟩ where
  count := ⟨Int.le_refl 0, (by decide : (0 : Int) ≤ USER_LIMIT)⟩
  indexed j hj hj' := absurd hj' (Int.not_lt.mpr hj)
  has d := by
    refine iff_of_false ?_ (by simp)
    rintro ⟨j, hj, hj', -⟩
    exact absurd hj' (Int.not_lt.mpr hj)
  pids c hc := by cases hc
  inside c hc := by cases hc
  distinct := List.nodup_nil

theorem System.Tables.served (hs : s.Tables) : s.Served where
  distinct := hs.distinct
  inside c hc _ := hs.inside c hc
  mapped c hc _ := by
    obtain ⟨hj, hj', hentry⟩ := hs.indexed.entry_index ((hs.has c.data).mpr ⟨c, hc, rfl⟩)
    exact ⟨_, hj, hj', rfl, hentry⟩

theorem run_user (hi : 0 ≤ i ∧ i ≤ USER_LIMIT) : (user i).run server = .ok (server.users i, server) := by
  rw [user, if_pos hi]
  rfl

theorem run_setUser (hi : 0 ≤ i ∧ i ≤ USER_LIMIT) (data : client_data) :
    (setUser i data).run server = .ok ((), { server with users := Function.update server.users i data }) := by
  rw [setUser, if_pos hi, run_modify]

theorem run_subProcess (hpid : 0 ≤ pid ∧ pid < PROCESS_LIMIT) :
    (subProcess pid).run server = .ok (server.sub_process pid, server) := by
  rw [subProcess, if_pos hpid]
  rfl

theorem run_setSubProcess (hpid : 0 ≤ pid ∧ pid < PROCESS_LIMIT) (i : Int) : (setSubProcess pid i).run server =
      .ok ((), { server with sub_process := Function.update server.sub_process pid i }) := by
  rw [setSubProcess, if_pos hpid, run_modify]

section Connection

variable {server : Server} {connfd pid : Int} {pipefd : Int × Int}

/-- The entry at the end is written before `fork`. -/
def Server.offered (server : Server) (connfd : Int) (pipefd : Int × Int) : Server :=
  let data := server.users server.user_count
  { server with users := Function.update server.users server.user_count ⟨connfd, data.pid, pipefd⟩ }

theorem run_new_connection (hcount : 0 ≤ server.user_count) (hconn : 0 ≤ connfd)
    (hroom : server.user_count < USER_LIMIT) :
    (new_connection connfd pipefd pid).run server =
      (after_fork server.user_count ⟨connfd, (server.users server.user_count).pid, pipefd⟩ pid).run
        (server.offered connfd pipefd) := by
  have hindex : 0 ≤ server.user_count ∧ server.user_count ≤ USER_LIMIT := ⟨hcount, Int.le_of_lt hroom⟩
  rw [new_connection, run_bind, run_get]
  simp only [if_neg (Int.not_lt.mpr hconn), if_neg (Int.not_le.mpr hroom), ge_iff_le, run_bind, run_user hindex,
    run_setUser hindex]
  rfl

/-- Nothing happens when `accept` fails or there is no room. -/
theorem run_new_connection_refused (hnone : connfd < 0 ∨ USER_LIMIT ≤ server.user_count) :
    (new_connection connfd pipefd pid).run server = .ok (none, server) := by
  rw [new_connection, run_bind, run_get]
  by_cases hconn : connfd < 0
  · simp only [if_pos hconn, run_pure]
  · simp only [if_neg hconn, ge_iff_le, if_pos (hnone.resolve_left hconn), run_pure]

section Started

variable (hcount : 0 ≤ server.user_count) (hconn : 0 ≤ connfd) (hroom : server.user_count < USER_LIMIT)
include hcount hconn hroom

/-- A failed `fork` leaves the entry behind the last user. -/
theorem run_new_connection_failed (hpid : pid < 0) :
    (new_connection connfd pipefd pid).run server = .ok (none, server.offered connfd pipefd) := by
  rw [run_new_connection hcount hconn hroom, after_fork, if_pos hpid, run_pure]

theorem run_new_connection_started (hpid : 0 < pid) (hlimit : pid < PROCESS_LIMIT) :
    (new_connection connfd pipefd pid).run server = .ok (some server.user_count,
      ⟨Function.update server.users server.user_count ⟨connfd, pid, pipefd⟩,
        Function.update server.sub_process pid server.user_count, server.user_count + 1⟩) := by
  have hindex : 0 ≤ server.user_count ∧ server.user_count ≤ USER_LIMIT := ⟨hcount, Int.le_of_lt hroom⟩
  have hpos : ¬ pid < 0 := by omega
  rw [run_new_connection hcount hconn hroom, after_fork, if_neg hpos]
  simp only [run_bind, run_setUser hindex, run_setSubProcess ⟨Int.le_of_lt hpid, hlimit⟩, run_modify, run_pure,
    Server.offered, Function.update_idem]

/-- A process number beyond the array is written outside of it. -/
theorem run_new_connection_beyond (hpid : PROCESS_LIMIT ≤ pid) :
    (new_connection connfd pipefd pid).run server = .error .bounds := by
  have hindex : 0 ≤ server.user_count ∧ server.user_count ≤ USER_LIMIT := ⟨hcount, Int.le_of_lt hroom⟩
  have hlimit : 0 < PROCESS_LIMIT := by decide
  have hpos : ¬ pid < 0 := by omega
  have hout : ¬ (0 ≤ pid ∧ pid < PROCESS_LIMIT) := by omega
  rw [run_new_connection hcount hconn hroom, after_fork, if_neg hpos]
  simp only [run_bind, run_setUser hindex, setSubProcess, if_neg hout, run_fail]

end Started

end Connection

/-- The last user moves to the place of the one whose child has exited. -/
theorem run_child_exit (hcount : server.user_count ≤ USER_LIMIT)
    (hpid : 0 ≤ pid ∧ pid < PROCESS_LIMIT) (hindex : server.sub_process pid = i) (hi : 0 ≤ i)
    (hi' : i < server.user_count)
    (hlast : 0 ≤ (server.users (server.user_count - 1)).pid ∧
      (server.users (server.user_count - 1)).pid < PROCESS_LIMIT) :
    (child_exit pid).run server = .ok ((),
      ⟨Function.update server.users i (server.users (server.user_count - 1)),
        Function.update (Function.update server.sub_process pid (-1)) (server.users (server.user_count - 1)).pid i,
        server.user_count - 1⟩) := by
  have hend : 0 ≤ server.user_count - 1 ∧ server.user_count - 1 ≤ USER_LIMIT := by omega
  have hplace : 0 ≤ i ∧ i ≤ USER_LIMIT := by omega
  have hkeep : ¬ (i < 0 ∨ i > USER_LIMIT) := by omega
  simp only [child_exit, run_bind, run_subProcess hpid, run_setSubProcess hpid, hindex, if_neg hkeep, run_modify,
    run_get, run_user hend, run_setUser hplace, run_user hplace, Function.update_self, run_setSubProcess hlast]

/-- What the kernel grants: `fork` fails or gives a process number that no child has,
only a running child exits, and `waitpid` returns a child that has exited. -/
def System.Permitted (s : System) : Event → Prop
  | .connection _ _ pid => pid ≠ 0 ∧ ∀ c ∈ s.children, c.data.pid ≠ pid
  | .exit pid => ∃ c ∈ s.children, c.data.pid = pid ∧ c.running
  | .wait pid => ∃ c ∈ s.children, c.data.pid = pid ∧ ¬ c.running

/-- A child that is started has a process number inside of `sub_process`, and the number
of users is the index of no running child. -/
def System.Unused (s : System) : Event → Prop
  | .connection connfd _ pid => 0 ≤ connfd → s.server.user_count < USER_LIMIT → 0 < pid →
      pid < PROCESS_LIMIT ∧ ∀ c ∈ s.children, c.running → c.idx ≠ s.server.user_count
  | _ => True

instance (e : Event) : Decidable (s.Permitted e) := by
  cases e <;> unfold System.Permitted <;> infer_instance

instance (e : Event) : Decidable (s.Unused e) := by
  cases e <;> unfold System.Unused <;> infer_instance

/-- An entry behind the last user concerns nobody. -/
theorem System.Tables.offered (hs : s.Tables) (connfd : Int) (pipefd : Int × Int) :
    System.Tables ⟨s.server.offered connfd pipefd, s.children⟩ := by
  have hsame : ∀ j, j < s.server.user_count → (s.server.offered connfd pipefd).users j = s.server.users j :=
    fun j hj => Function.update_of_ne (Int.ne_of_lt hj) ..
  refine ⟨hs.count, fun j hj hj' => ?_, fun d => ?_, hs.pids, hs.inside, hs.distinct⟩
  · change s.server.sub_process ((s.server.offered connfd pipefd).users j).pid = j
    rw [hsame j hj']
    exact hs.indexed j hj hj'
  · rw [← hs.has d]
    refine exists_congr fun j => and_congr_right fun _ => and_congr_right fun hj' => ?_
    change (s.server.offered connfd pipefd).users j = d ↔ _
    rw [hsame j hj']

/-- A new child at the end of the tables. -/
theorem System.Tables.started (hs : s.Tables) (connfd : Int) (pipefd : Int × Int)
    (hroom : s.server.user_count < USER_LIMIT) (hpid : 0 < pid) (hlimit : pid < PROCESS_LIMIT)
    (hnew : ∀ c ∈ s.children, c.data.pid ≠ pid)
    (hunused : ∀ c ∈ s.children, c.running → c.idx ≠ s.server.user_count) :
    System.Tables ⟨⟨Function.update s.server.users s.server.user_count ⟨connfd, pid, pipefd⟩,
        Function.update s.server.sub_process pid s.server.user_count, s.server.user_count + 1⟩,
      s.children ++ [⟨⟨connfd, pid, pipefd⟩, s.server.user_count, true⟩]⟩ where
  count := ⟨Int.le_add_one hs.count.1, Int.add_one_le_of_lt hroom⟩
  indexed := by
    refine hs.indexed.add (v := ⟨connfd, pid, pipefd⟩) fun d hd => ?_
    obtain ⟨c, hc, rfl⟩ := (hs.has d).mp hd
    exact hnew c hc
  has d := by
    rw [has_add_iff hs.count.1, hs.has]
    simp only [List.mem_append, List.mem_singleton, or_and_right, exists_or, exists_eq_left]
    exact ⟨fun h => h.elim (fun heq => .inr heq.symm) .inl, fun h => h.elim .inr fun heq => .inl heq.symm⟩
  pids c hc := by
    rcases List.mem_append.mp hc with hc | hc
    · exact hs.pids c hc
    · rw [List.mem_singleton.mp hc]
      exact ⟨hpid, hlimit⟩
  inside c hc := by
    rcases List.mem_append.mp hc with hc | hc
    · exact hs.inside c hc
    · rw [List.mem_singleton.mp hc]
      exact ⟨hs.count.1, hroom⟩
  distinct := by
    rw [segments, List.filter_append, List.map_append, List.nodup_append]
    refine ⟨hs.distinct, List.pairwise_singleton _ _, fun i hi j hj => ?_⟩
    obtain ⟨c, hc, rfl⟩ := List.mem_map.mp hi
    obtain ⟨hc, hrunning⟩ := List.mem_filter.mp hc
    rw [List.mem_singleton.mp hj]
    exact hunused c hc hrunning

section Ended

variable (pid : Int)

@[simp] theorem ended_data (c : Child) : (c.ended pid).data = c.data := by
  unfold Child.ended
  split <;> rfl

@[simp] theorem ended_idx (c : Child) : (c.ended pid).idx = c.idx := by
  unfold Child.ended
  split <;> rfl

/-- Only running children have ended, so the segments in use are a part of those before. -/
theorem segments_ended_sublist (children : List Child) :
    (segments (children.map (·.ended pid))).Sublist (segments children) := by
  induction children with
  | nil => exact List.Sublist.refl _
  | cons c children ih =>
    unfold segments at ih ⊢
    rw [List.map_cons]
    by_cases hc : c.data.pid = pid
    · have hended : ¬ (c.ended pid).running = true := by
        rw [Child.ended, if_pos hc]
        exact Bool.false_ne_true
      rw [List.filter_cons_of_neg hended]
      exact ih.trans (((List.sublist_cons_self c children).filter _).map _)
    · rw [Child.ended, if_neg hc]
      by_cases hrunning : c.running = true
      · rw [List.filter_cons_of_pos hrunning, List.filter_cons_of_pos hrunning]
        exact ih.cons_cons c.idx
      · rw [List.filter_cons_of_neg hrunning, List.filter_cons_of_neg hrunning]
        exact ih

/-- The end of a child frees its segment and leaves the tables alone. -/
theorem System.Tables.ended (hs : s.Tables) : System.Tables ⟨s.server, s.children.map (·.ended pid)⟩ where
  count := hs.count
  indexed := hs.indexed
  has d := by
    rw [hs.has d]
    simp
  pids := by simpa using hs.pids
  inside := by simpa using hs.inside
  distinct := hs.distinct.sublist (segments_ended_sublist pid s.children)

end Ended

/-- A child that was waited for leaves the tables. -/
theorem System.Tables.waited (hs : s.Tables) {c : Child} (hc : c ∈ s.children) :
    ∃ server, (child_exit c.data.pid).run s.server = .ok ((), server) ∧
      System.Tables ⟨server, s.children.filter fun c' => c'.data.pid ≠ c.data.pid⟩ := by
  obtain ⟨hj, hj', hentry⟩ := hs.indexed.entry_index ((hs.has c.data).mpr ⟨c, hc, rfl⟩)
  obtain ⟨d, hd, hlast⟩ := (hs.has _).mp ⟨s.server.user_count - 1, by omega, by omega, rfl⟩
  have hpid := hs.pids c hc
  have hpid' := hs.pids d hd
  refine ⟨_, run_child_exit hs.count.2 ⟨Int.le_of_lt hpid.1, hpid.2⟩ rfl hj hj'
    (hlast ▸ ⟨Int.le_of_lt hpid'.1, hpid'.2⟩), ?_⟩
  have hremove := hs.indexed.remove hj hj' (-1)
  rw [hentry] at hremove
  refine ⟨⟨?_, ?_⟩, hremove, fun e => ?_, fun c' hc' => hs.pids c' (List.mem_filter.mp hc').1,
    fun c' hc' => hs.inside c' (List.mem_filter.mp hc').1, hs.distinct.sublist ?_⟩
  · change 0 ≤ s.server.user_count - 1
    omega
  · have := hs.count.2
    change s.server.user_count - 1 ≤ USER_LIMIT
    omega
  · rw [has_remove_iff hs.indexed hj hj', hs.has, hentry]
    constructor
    · rintro ⟨⟨c', hc', rfl⟩, hne⟩
      exact ⟨c', List.mem_filter.mpr ⟨hc', by simpa using hne⟩, rfl⟩
    · rintro ⟨c', hc', rfl⟩
      obtain ⟨hc', hne⟩ := List.mem_filter.mp hc'
      exact ⟨⟨c', hc', rfl⟩, by simpa using hne⟩
  · exact (List.filter_sublist.filter _).map _

/-- An event that gives no segment a second time keeps the tables. -/
theorem System.Tables.step (hs : s.Tables) (hpermitted : s.Permitted e) (hunused : s.Unused e) :
    ∃ s', s.step e = .ok s' ∧ s'.Tables := by
  cases e with
  | connection connfd pipefd pid =>
    obtain ⟨hzero, hnew⟩ := hpermitted
    by_cases hrefused : connfd < 0 ∨ USER_LIMIT ≤ s.server.user_count
    · refine ⟨s, ?_, hs⟩
      simp only [System.step, run_new_connection_refused hrefused]
    obtain ⟨hconn, hroom⟩ := not_or.mp hrefused
    rw [Int.not_lt] at hconn
    rw [Int.not_le] at hroom
    by_cases hpid : 0 < pid
    · obtain ⟨hlimit, hfree⟩ := hunused hconn hroom hpid
      refine ⟨_, ?_, hs.started connfd pipefd hroom hpid hlimit hnew hfree⟩
      simp only [System.step, run_new_connection_started hs.count.1 hconn hroom hpid hlimit]
    · refine ⟨_, ?_, hs.offered connfd pipefd⟩
      simp only [System.step, run_new_connection_failed hs.count.1 hconn hroom (by omega : pid < 0)]
  | exit pid => exact ⟨_, rfl, hs.ended pid⟩
  | wait pid =>
    obtain ⟨c, hc, rfl, -⟩ := hpermitted
    obtain ⟨server, hrun, hs'⟩ := hs.waited hc
    refine ⟨_, ?_, hs'⟩
    simp only [System.step, hrun]

/-- An event that gives a segment a second time leaves two running children with it, or
writes outside of `sub_process`. -/
theorem System.Tables.not_served (hs : s.Tables) (hused : ¬ s.Unused e) (s' : System)
    (hstep : s.step e = .ok s') : ¬ s'.Served := by
  cases e with
  | exit | wait => exact absurd trivial hused
  | connection connfd pipefd pid =>
    simp only [System.Unused, not_forall] at hused
    obtain ⟨hconn, hroom, hpid, hused⟩ := hused
    by_cases hlimit : pid < PROCESS_LIMIT
    · simp only [System.step, run_new_connection_started hs.count.1 hconn hroom hpid hlimit, Except.ok.injEq] at hstep
      subst hstep
      intro hserved
      refine hused ⟨hlimit, fun c hc hrunning heq => ?_⟩
      have hdistinct := hserved.distinct
      rw [segments, List.filter_append, List.map_append, List.nodup_append] at hdistinct
      have hmem : c.idx ∈ (s.children.filter (·.running)).map (·.idx) :=
        List.mem_map_of_mem (List.mem_filter.mpr ⟨hc, hrunning⟩)
      exact hdistinct.2.2 c.idx hmem _ (List.mem_singleton_self _) heq
    · simp only [System.step, run_new_connection_beyond hs.count.1 hconn hroom (Int.not_lt.mp hlimit)] at hstep
      cases hstep

/-- A condition on the events of a run that has not failed. -/
def During (C : System → Event → Prop) (r : Except Fault System) (e : Event) : Prop := ∀ s, r = .ok s → C s e

/-- For every sequence of connections and exits that the kernel permits, the running
children use different segments of the shared memory and are found through `sub_process`
all the time, exactly when no child is started while the number of users is the index of
a running child, or with a process number outside of `sub_process`. -/
theorem segments_distinct_iff (users : Int → client_data) (events : List Event)
    (hpermitted : Each step (During System.Permitted) (.ok ⟨.init users, []⟩) events) :
    Always step (fun r => ∃ s, r = .ok s ∧ s.Served) (.ok ⟨.init users, []⟩) events ↔
      Each step (During System.Unused) (.ok ⟨.init users, []⟩) events := by
  refine always_iff_each (fun r => ∃ s, r = .ok s ∧ s.Tables) (During System.Permitted) ?_ ?_ ?_
    ⟨_, rfl, tables_init users⟩ hpermitted
  · rintro r ⟨s, rfl, hs⟩
    exact ⟨s, rfl, hs.served⟩
  · rintro r e ⟨s, rfl, hs⟩ hp hu
    exact hs.step (hp s rfl) (hu s rfl)
  · rintro r e ⟨s, rfl, hs⟩ _ hu ⟨s', hstep, hserved⟩
    refine hs.not_served (fun hunused => hu fun s'' heq => ?_) s' hstep hserved
    cases heq
    exact hunused

/-- Two users at the same time, the younger of whom leaves, and then a third one. -/
theorem segments_distinct_younger :
    Always step (fun r => ∃ s, r = .ok s ∧ s.Served) (.ok ⟨.init fun _ => default, []⟩)
      [.connection 10 (11, 12) 100, .connection 20 (21, 22) 101, .exit 101, .wait 101,
        .connection 30 (31, 32) 102] := by
  refine (segments_distinct_iff (fun _ => default) _ ?_).mpr ?_
  · refine ⟨?_, ?_, ?_, ?_, ?_, trivial⟩ <;> intro s hs <;> obtain rfl := Except.ok.inj hs <;> decide
  · refine ⟨?_, ?_, ?_, ?_, ?_, trivial⟩ <;> intro s hs <;> obtain rfl := Except.ok.inj hs <;> decide

/-- Two users, the first of whom leaves, and then a third one: the third child is started
with the index of the second. -/
theorem segments_shared :
    Each step (During System.Permitted) (.ok ⟨.init fun _ => default, []⟩)
      [.connection 10 (11, 12) 100, .connection 20 (21, 22) 101, .exit 100, .wait 100,
        .connection 30 (31, 32) 102] ∧
    ∃ s, [Event.connection 10 (11, 12) 100, .connection 20 (21, 22) 101, .exit 100, .wait 100,
        .connection 30 (31, 32) 102].foldl step (.ok ⟨.init fun _ => default, []⟩) = .ok s ∧
      segments s.children = [1, 1] := by
  constructor
  · refine ⟨?_, ?_, ?_, ?_, ?_, trivial⟩ <;> intro s hs <;> obtain rfl := Except.ok.inj hs <;> decide
  · exact ⟨_, rfl, rfl⟩

end basic_data_struct.shm_talk
