import BasicDataStruct.Runs.Deterministic
import BasicDataStruct.Springsnail.Mgr

open Std runs socket

namespace basic_data_struct.springsnail

variable {c : Nat} {fd : Int} {mem : Nat → conn} {wire : Nat → Wire} {entries : List (Int × Nat)} {a : Action}
  {results : List (Option Int)}

section

variable {T : Type} {m : IntMap T} {k a : Int} {v : T}

/-- A map has a value, under some descriptor. -/
def Held (m : IntMap T) (v : T) : Prop := ∃ fd : Int, m[fd]? = some v

theorem getElem?_insertIfNew_of_notMem (hk : k ∉ m) (v : T) (a : Int) :
    (m.insertIfNew k v)[a]? = if k = a then some v else m[a]? := by
  rw [ExtTreeMap.getElem?_insertIfNew]
  simp only [Std.compare_eq_iff_eq, hk, not_false_eq_true, and_true]

theorem getElem?_erase_eq (m : IntMap T) (k a : Int) : (m.erase k)[a]? = if k = a then none else m[a]? := by
  rw [ExtTreeMap.getElem?_erase]
  simp only [Std.compare_eq_iff_eq]

theorem mem_iff_exists (m : IntMap T) (k : Int) : k ∈ m ↔ ∃ v, m[k]? = some v := by
  rw [ExtTreeMap.mem_iff_isSome_getElem?, Option.isSome_iff_exists]

theorem not_held_of_toList_eq_nil (hm : m.toList = []) (v : T) : ¬Held m v := by
  rintro ⟨fd, hfd⟩
  rw [← ExtTreeMap.mem_toList_iff_getElem?_eq_some, hm] at hfd
  cases hfd

theorem size_erase_of_mem (hk : k ∈ m) : (m.erase k).size = m.size - 1 := by
  rw [ExtTreeMap.size_erase, if_pos (ExtTreeMap.contains_iff_mem.mpr hk)]

theorem size_insertIfNew_of_notMem (hk : k ∉ m) (v : T) : (m.insertIfNew k v).size = m.size + 1 := by
  rw [ExtTreeMap.size_insertIfNew, if_neg hk]

end

/-- One of the two descriptors of a connection. -/
def State.Owns (s : State) (c : Nat) (fd : Int) : Prop := fd = (s.mem c).m_cltfd ∨ fd = (s.mem c).m_srvfd

/-- `m_used` has exactly the descriptors of the active connections. -/
structure State.Exact (s : State) : Prop where
  used : ∀ (fd : Int) p, s.m_used[fd]? = some p ↔ ∃ c ∈ s.active, p = some c ∧ s.Owns c fd
  count : s.get_used_conn_cnt = 2 * s.active.length

/-- What holds between `m_conns` and `m_used` in all calls: the connections in `m_conns` stand under
their server descriptors, which are open and not in use. -/
structure State.Tidy (s : State) : Prop extends s.Exact where
  nodup : s.active.Nodup
  apart : ∀ c ∈ s.active, (s.mem c).m_cltfd ≠ (s.mem c).m_srvfd
  active_lt : ∀ c ∈ s.active, c < s.created
  used_opened : ∀ fd ∈ s.m_used, fd ∈ s.opened
  conns : ∀ (fd : Int) c, s.m_conns[fd]? = some c →
    (s.mem c).m_srvfd = fd ∧ c ∉ s.active ∧ c < s.created ∧ fd ∈ s.opened ∧ fd ∉ s.m_used

/-- What holds for `m_freed`: its connections stand under their last server descriptors, which no
other connection has. -/
structure State.Parked (s : State) : Prop where
  freed : ∀ (fd : Int) c, s.m_freed[fd]? = some c →
    (s.mem c).m_srvfd = fd ∧ c ∉ s.active ∧ c < s.created ∧ ¬Held s.m_conns c
  keys : ∀ c, c ∈ s.active ∨ Held s.m_conns c → (s.mem c).m_srvfd ∉ s.m_freed

variable {s : State}

theorem State.Exact.mem_used_iff (hs : s.Exact) (fd : Int) : fd ∈ s.m_used ↔ ∃ c ∈ s.active, s.Owns c fd := by
  rw [mem_iff_exists]
  constructor
  · rintro ⟨p, hp⟩
    obtain ⟨c, hc, _, hfd⟩ := (hs.used fd p).mp hp
    exact ⟨c, hc, hfd⟩
  · rintro ⟨c, hc, hfd⟩
    exact ⟨some c, (hs.used fd (some c)).mpr ⟨c, hc, rfl, hfd⟩⟩

theorem State.Exact.owner_unique (hs : s.Exact) {d : Nat} (hc : c ∈ s.active) (hd : d ∈ s.active)
    (hcfd : s.Owns c fd) (hdfd : s.Owns d fd) : c = d := by
  have hfirst := (hs.used fd (some c)).mpr ⟨c, hc, rfl, hcfd⟩
  have hsecond := (hs.used fd (some d)).mpr ⟨d, hd, rfl, hdfd⟩
  rw [hfirst] at hsecond
  exact Option.some.inj (Option.some.inj hsecond)

theorem State.Exact.active_of_used (hs : s.Exact) (hc : s.m_used[fd]? = some (some c)) : c ∈ s.active := by
  obtain ⟨d, hd, hcd, _⟩ := (hs.used fd (some c)).mp hc
  rwa [Option.some.inj hcd]

/-- A field that an assignment to one connection leaves alone. -/
theorem apply_update_eq {f : conn → Int} {connection : conn} (h : f connection = f (mem c)) (d : Nat) :
    f (Function.update mem c connection d) = f (mem d) := by
  rcases eq_or_ne d c with rfl | hd
  · rw [Function.update_self, h]
  · rw [Function.update_of_ne hd]

/-- Calls that leave the descriptors and the maps alone. -/
theorem State.Tidy.of_mem (hs : s.Tidy)
    (hclt : ∀ c, (mem c).m_cltfd = (s.mem c).m_cltfd) (hsrv : ∀ c, (mem c).m_srvfd = (s.mem c).m_srvfd) :
    { s with mem := mem, wire := wire : State }.Tidy := by
  refine ⟨⟨?_, hs.count⟩, hs.nodup, ?_, hs.active_lt, hs.used_opened, ?_⟩
  · intro fd p
    simp only [State.Owns, hclt, hsrv]
    exact hs.used fd p
  · intro c hc
    simp only [hclt, hsrv]
    exact hs.apart c hc
  · intro fd c hc
    simp only [hsrv]
    exact hs.conns fd c hc

theorem State.Parked.of_mem (hs : s.Parked)
    (hsrv : ∀ c, (mem c).m_srvfd = (s.mem c).m_srvfd) : { s with mem := mem, wire := wire : State }.Parked := by
  refine ⟨?_, ?_⟩
  · intro fd c hc
    simp only [hsrv]
    exact hs.freed fd c hc
  · intro c hc
    simp only [hsrv]
    exact hs.keys c hc

/-- A connection that is nowhere gets a new server descriptor, as the constructor and
`recycle_conns` do it. -/
theorem State.Tidy.attach (hs : s.Tidy) {n : Nat} (connection : conn) (hopened : connection.m_srvfd ∉ s.opened)
    (hactive : c ∉ s.active) (hheld : ¬Held s.m_conns c) (hle : s.created ≤ n) (hlt : c < n) :
    { s with
      mem := Function.update s.mem c connection
      created := n
      m_conns := s.m_conns.insertIfNew connection.m_srvfd c
      opened := insert connection.m_srvfd s.opened : State }.Tidy := by
  have hsame : ∀ d ∈ s.active, Function.update s.mem c connection d = s.mem d := by
    intro d hd
    refine Function.update_of_ne ?_ _ _
    rintro rfl
    exact hactive hd
  have hnew : connection.m_srvfd ∉ s.m_conns := by
    rw [mem_iff_exists]
    rintro ⟨d, hd⟩
    exact hopened (hs.conns _ d hd).2.2.2.1
  refine ⟨⟨?_, hs.count⟩, hs.nodup, ?_, ?_, ?_, ?_⟩
  · intro fd p
    rw [hs.used fd p]
    refine exists_congr fun d => and_congr_right fun hd => ?_
    simp only [State.Owns, hsame d hd]
  · intro d hd
    simp only [hsame d hd]
    exact hs.apart d hd
  · exact fun d hd => Nat.lt_of_lt_of_le (hs.active_lt d hd) hle
  · exact fun fd hfd => .inr (hs.used_opened fd hfd)
  · intro fd d hd
    simp only [getElem?_insertIfNew_of_notMem hnew] at hd
    split at hd
    next hfd =>
      cases hd
      subst hfd
      exact ⟨by simp only [Function.update_self], hactive, hlt, .inl rfl, fun hmem => hopened (hs.used_opened _ hmem)⟩
    next hfd =>
      obtain ⟨hsrv, hnot, hcreated, hopen, hfree⟩ := hs.conns fd d hd
      have hne : d ≠ c := by
        rintro rfl
        exact hheld ⟨fd, hd⟩
      exact ⟨by simp only [Function.update_of_ne hne, hsrv], hnot, Nat.lt_of_lt_of_le hcreated hle, .inr hopen, hfree⟩

section

variable {cltfd srvfd : Int} {c : Nat} {mem : Nat → conn}

theorem State.mem_head_conns (hlist : s.m_conns.toList = (srvfd, c) :: entries) : s.m_conns[srvfd]? = some c := by
  rw [← ExtTreeMap.mem_toList_iff_getElem?_eq_some, hlist]
  exact List.mem_cons_self

theorem State.Tidy.notMem_used_insert (hs : s.Tidy) (hc : s.m_conns[srvfd]? = some c) (hopened : cltfd ∉ s.opened) :
    srvfd ∉ s.m_used.insertIfNew cltfd (some c) := by
  obtain ⟨_, _, _, hopen, hfree⟩ := hs.conns srvfd c hc
  rw [ExtTreeMap.mem_insertIfNew, Std.compare_eq_iff_eq]
  rintro (rfl | hmem)
  · exact hopened hopen
  · exact hfree hmem

/-- The lookups after a connection was picked. -/
theorem State.Tidy.getElem?_pick (hs : s.Tidy) (hc : s.m_conns[srvfd]? = some c) (hopened : cltfd ∉ s.opened)
    (fd : Int) : ((s.m_used.insertIfNew cltfd (some c)).insertIfNew srvfd (some c))[fd]? =
      if fd = cltfd ∨ fd = srvfd then some (some c) else s.m_used[fd]? := by
  have hclt : cltfd ∉ s.m_used := fun h => hopened (hs.used_opened cltfd h)
  rw [getElem?_insertIfNew_of_notMem (hs.notMem_used_insert hc hopened), getElem?_insertIfNew_of_notMem hclt]
  grind

/-- A picked connection and its client's descriptor keep `m_used` exact. -/
theorem State.Tidy.exact_pick (hs : s.Tidy) (hc : s.m_conns[srvfd]? = some c) (hopened : cltfd ∉ s.opened)
    (hclt : (mem c).m_cltfd = cltfd) (hsrv : (mem c).m_srvfd = srvfd) (hsame : ∀ d ≠ c, mem d = s.mem d)
    (m_conns : IntMap Nat) (opened : Set Int) :
    { s with
      mem := mem
      m_conns := m_conns
      m_used := (s.m_used.insertIfNew cltfd (some c)).insertIfNew srvfd (some c)
      opened := opened
      active := c :: s.active : State }.Exact := by
  obtain ⟨_, hactive, _, hopen, hfree⟩ := hs.conns srvfd c hc
  have hclosed : cltfd ∉ s.m_used := fun h => hopened (hs.used_opened cltfd h)
  have hold : ∀ d ∈ s.active, mem d = s.mem d := by
    intro d hd
    refine hsame d ?_
    rintro rfl
    exact hactive hd
  refine ⟨fun fd p => ?_, ?_⟩
  · simp only [hs.getElem?_pick hc hopened, State.Owns, List.mem_cons, exists_eq_or_imp, hclt, hsrv]
    split
    next hfd =>
      constructor
      · exact fun hp => .inl ⟨(Option.some.inj hp).symm, hfd⟩
      · rintro (⟨rfl, _⟩ | ⟨d, hd, rfl, howns⟩)
        · rfl
        · rw [hold d hd] at howns
          have hmem : fd ∈ s.m_used := (hs.mem_used_iff fd).mpr ⟨d, hd, howns⟩
          rcases hfd with rfl | rfl
          · exact absurd hmem hclosed
          · exact absurd hmem hfree
    next hfd =>
      rw [hs.used fd p]
      constructor
      · rintro ⟨d, hd, hp, howns⟩
        rw [State.Owns, ← hold d hd] at howns
        exact .inr ⟨d, hd, hp, howns⟩
      · rintro (⟨_, h⟩ | ⟨d, hd, hp, howns⟩)
        · exact absurd h hfd
        · rw [hold d hd] at howns
          exact ⟨d, hd, hp, howns⟩
  · have hcount := hs.count
    simp only [State.get_used_conn_cnt, size_insertIfNew_of_notMem (hs.notMem_used_insert hc hopened),
      size_insertIfNew_of_notMem hclosed, List.length_cons] at hcount ⊢
    omega

theorem State.Tidy.accept (hs : s.Tidy) (hopened : cltfd ∉ s.opened) : (s.accept cltfd).Tidy := by
  unfold State.accept State.pick_conn
  cases hlist : s.m_conns.toList with
  | nil => exact hs
  | cons entry entries =>
    obtain ⟨srvfd, c⟩ := entry
    have hc := State.mem_head_conns hlist
    obtain ⟨hsrv, hactive, hcreated, hopen, hfree⟩ := hs.conns srvfd c hc
    have hself : Function.update s.mem c ((s.mem c).init_clt cltfd) c = (s.mem c).init_clt cltfd :=
      Function.update_self ..
    have hsame : ∀ d ≠ c, Function.update s.mem c ((s.mem c).init_clt cltfd) d = s.mem d :=
      fun d hd => Function.update_of_ne hd _ _
    have hclt : (Function.update s.mem c ((s.mem c).init_clt cltfd) c).m_cltfd = cltfd := by rw [hself, conn.init_clt]
    have hsrv' : (Function.update s.mem c ((s.mem c).init_clt cltfd) c).m_srvfd = srvfd := by rw [hself, ← hsrv]; rfl
    refine ⟨hs.exact_pick hc hopened hclt hsrv' hsame _ _, List.nodup_cons.mpr ⟨hactive, hs.nodup⟩, ?_,
      List.forall_mem_cons.mpr ⟨hcreated, hs.active_lt⟩, ?_, ?_⟩
    · refine List.forall_mem_cons.mpr ⟨?_, fun d hd => ?_⟩
      · simp only [hclt, hsrv']
        rintro rfl
        exact hopened hopen
      · have hne : d ≠ c := by
          rintro rfl
          exact hactive hd
        simp only [hsame d hne]
        exact hs.apart d hd
    · intro fd hfd
      simp only [ExtTreeMap.mem_insertIfNew, Std.compare_eq_iff_eq] at hfd
      rcases hfd with rfl | rfl | hfd
      · exact .inr hopen
      · exact .inl rfl
      · exact .inr (hs.used_opened fd hfd)
    · intro fd d hd
      simp only [getElem?_erase_eq] at hd
      split at hd
      · cases hd
      next hfd =>
        obtain ⟨hsrv_d, hactive_d, hcreated_d, hopen_d, hfree_d⟩ := hs.conns fd d hd
        have hne : d ≠ c := by
          rintro rfl
          exact hfd (hsrv.symm.trans hsrv_d)
        refine ⟨by simp only [hsame d hne, hsrv_d], ?_, hcreated_d, .inr hopen_d, ?_⟩
        · exact fun h => (List.mem_cons.mp h).elim hne hactive_d
        · simp only [ExtTreeMap.mem_insertIfNew, Std.compare_eq_iff_eq]
          rintro (rfl | rfl | hmem)
          · exact hfd rfl
          · exact hopened hopen_d
          · exact hfree_d hmem

theorem State.Parked.accept (hs : s.Parked) (cltfd : Int) : (s.accept cltfd).Parked := by
  unfold State.accept State.pick_conn
  cases hlist : s.m_conns.toList with
  | nil => exact hs
  | cons entry entries =>
    obtain ⟨srvfd, c⟩ := entry
    have hc := State.mem_head_conns hlist
    have hsrv : ∀ d, (Function.update s.mem c ((s.mem c).init_clt cltfd) d).m_srvfd = (s.mem d).m_srvfd :=
      apply_update_eq rfl
    have herase : ∀ d, Held (s.m_conns.erase srvfd) d → Held s.m_conns d := by
      rintro d ⟨fd, hfd⟩
      rw [getElem?_erase_eq] at hfd
      split at hfd
      · cases hfd
      · exact ⟨fd, hfd⟩
    refine ⟨fun fd d hd => ?_, fun d hd => ?_⟩
    · obtain ⟨hkey, hactive, hcreated, hheld⟩ := hs.freed fd d hd
      refine ⟨by simp only [hsrv, hkey], ?_, hcreated, fun h => hheld (herase d h)⟩
      rintro (_ | ⟨_, hmem⟩)
      · exact hheld ⟨srvfd, hc⟩
      · exact hactive hmem
    · simp only [hsrv]
      refine hs.keys d ?_
      rcases hd with (_ | ⟨_, hmem⟩) | hheld
      · exact .inr ⟨srvfd, hc⟩
      · exact .inl hmem
      · exact .inr (herase d hheld)

/-- The lookups after an active connection was freed. -/
theorem State.getElem?_free (s : State) (c : Nat) (reason : Reason) (fd : Int) [Decidable (s.Owns c fd)] :
    (s.free_conn c reason).m_used[fd]? = if s.Owns c fd then none else s.m_used[fd]? := by
  simp only [State.free_conn, getElem?_erase_eq]
  by_cases hclt : (s.mem c).m_cltfd = fd
  · rw [if_pos (show s.Owns c fd from .inl hclt.symm), if_pos hclt, ite_self]
  · by_cases hsrv : (s.mem c).m_srvfd = fd
    · rw [if_pos (show s.Owns c fd from .inr hsrv.symm), if_pos hsrv]
    · rw [if_neg hsrv, if_neg hclt, if_neg fun h => h.elim (fun h => hclt h.symm) fun h => hsrv h.symm]

theorem State.Tidy.size_free (hs : s.Tidy) (hc : c ∈ s.active) (reason : Reason) :
    (s.free_conn c reason).m_used.size = s.m_used.size - 1 - 1 := by
  have hclt : (s.mem c).m_cltfd ∈ s.m_used := (hs.mem_used_iff _).mpr ⟨c, hc, .inl rfl⟩
  have hsrv : (s.mem c).m_srvfd ∈ s.m_used.erase (s.mem c).m_cltfd := by
    rw [ExtTreeMap.mem_erase]
    exact ⟨fun h => hs.apart c hc (Std.compare_eq_iff_eq.mp h), (hs.mem_used_iff _).mpr ⟨c, hc, .inr rfl⟩⟩
  simp only [State.free_conn]
  rw [size_erase_of_mem hsrv, size_erase_of_mem hclt]

theorem State.Tidy.exact_free (hs : s.Tidy) (hc : c ∈ s.active) (reason : Reason) :
    (s.free_conn c reason).Exact := by
  have hsame : ∀ d ≠ c, (s.free_conn c reason).mem d = s.mem d := fun d hd => Function.update_of_ne hd _ _
  classical
  refine ⟨fun fd p => ?_, ?_⟩
  · rw [State.getElem?_free]
    split
    next howns =>
      refine iff_of_false (fun h => nomatch h) ?_
      rintro ⟨d, hd, rfl, hfd⟩
      obtain ⟨hne, hd⟩ := (hs.nodup.mem_erase_iff).mp hd
      rw [State.Owns, hsame d hne] at hfd
      exact hne (hs.owner_unique hd hc hfd howns)
    next howns =>
      rw [hs.used fd p]
      constructor
      · rintro ⟨d, hd, hp, hfd⟩
        have hne : d ≠ c := by
          rintro rfl
          exact howns hfd
        rw [State.Owns, ← hsame d hne] at hfd
        exact ⟨d, (hs.nodup.mem_erase_iff).mpr ⟨hne, hd⟩, hp, hfd⟩
      · rintro ⟨d, hd, hp, hfd⟩
        obtain ⟨hne, hd⟩ := (hs.nodup.mem_erase_iff).mp hd
        rw [State.Owns, hsame d hne] at hfd
        exact ⟨d, hd, hp, hfd⟩
  · have hcount := hs.count
    rw [State.get_used_conn_cnt] at hcount
    rw [State.get_used_conn_cnt, hs.size_free hc, hcount]
    simp only [State.free_conn, List.length_erase_of_mem hc]
    omega

theorem State.Tidy.free_conn (hs : s.Tidy) (hc : c ∈ s.active) (reason : Reason) : (s.free_conn c reason).Tidy := by
  have hsame : ∀ d ≠ c, (s.free_conn c reason).mem d = s.mem d := fun d hd => Function.update_of_ne hd _ _
  have hsub : ∀ d ∈ (s.free_conn c reason).active, d ≠ c ∧ d ∈ s.active := fun d hd => hs.nodup.mem_erase_iff.mp hd
  have hother : ∀ (d : Nat) (fd : Int), d ≠ c → d ∈ s.active → s.Owns d fd → ¬s.Owns c fd :=
    fun d fd hne hd hfd hcfd => hne (hs.owner_unique hd hc hfd hcfd)
  refine ⟨hs.exact_free hc reason, hs.nodup.erase c, ?_, ?_, ?_, ?_⟩
  · intro d hd
    obtain ⟨hne, hd⟩ := hsub d hd
    rw [hsame d hne]
    exact hs.apart d hd
  · exact fun d hd => hs.active_lt d (hsub d hd).2
  · intro fd hfd
    obtain ⟨d, hd, hdfd⟩ := ((hs.exact_free hc reason).mem_used_iff fd).mp hfd
    obtain ⟨hne, hd⟩ := hsub d hd
    rw [State.Owns, hsame d hne] at hdfd
    exact ⟨hs.used_opened fd ((hs.mem_used_iff fd).mpr ⟨d, hd, hdfd⟩), hother d fd hne hd hdfd⟩
  · intro fd d hd
    obtain ⟨hsrv, hactive, hcreated, hopen, hfree⟩ := hs.conns fd d hd
    have hne : d ≠ c := by
      rintro rfl
      exact hactive hc
    refine ⟨by rw [hsame d hne, hsrv], fun h => hactive (hsub d h).2, hcreated, ⟨hopen, ?_⟩, ?_⟩
    · exact fun h => hfree ((hs.mem_used_iff fd).mpr ⟨c, hc, h⟩)
    · intro hmem
      obtain ⟨e, he, hefd⟩ := ((hs.exact_free hc reason).mem_used_iff fd).mp hmem
      obtain ⟨hne, he⟩ := hsub e he
      rw [State.Owns, hsame e hne] at hefd
      exact hfree ((hs.mem_used_iff fd).mpr ⟨e, he, hefd⟩)

theorem State.Parked.free_conn (hs : s.Parked) (htidy : s.Tidy) (hc : c ∈ s.active) (reason : Reason) :
    (s.free_conn c reason).Parked := by
  have hsrv : ∀ d, ((s.free_conn c reason).mem d).m_srvfd = (s.mem d).m_srvfd := apply_update_eq rfl
  have hkey := hs.keys c (.inl hc)
  refine ⟨fun fd d hd => ?_, fun d hd => ?_⟩
  · simp only [State.free_conn, getElem?_insertIfNew_of_notMem hkey] at hd
    rw [hsrv]
    split at hd
    next hfd =>
      cases hd
      refine ⟨hfd, fun h => (htidy.nodup.mem_erase_iff.mp h).1 rfl, htidy.active_lt c hc, ?_⟩
      rintro ⟨fd', hfd'⟩
      exact (htidy.conns fd' c hfd').2.1 hc
    next =>
      obtain ⟨hfd, hactive, hcreated, hheld⟩ := hs.freed fd d hd
      exact ⟨hfd, fun h => hactive (List.mem_of_mem_erase h), hcreated, hheld⟩
  · rw [hsrv]
    have hold : d ∈ s.active ∨ Held s.m_conns d := hd.imp_left List.mem_of_mem_erase
    have hne : d ≠ c := by
      rintro rfl
      rcases hd with hd | ⟨fd, hfd⟩
      · exact (htidy.nodup.mem_erase_iff.mp hd).1 rfl
      · exact (htidy.conns fd d hfd).2.1 hc
    simp only [State.free_conn, ExtTreeMap.mem_insertIfNew, Std.compare_eq_iff_eq]
    rintro (hfd | hmem)
    · have hused : (s.mem c).m_srvfd ∈ s.m_used := (htidy.mem_used_iff _).mpr ⟨c, hc, .inr rfl⟩
      rcases hold with hd | ⟨fd, hheld⟩
      · exact hne (htidy.owner_unique hd hc (.inr rfl) (.inr hfd.symm))
      · obtain ⟨hfd', _, _, _, hfree⟩ := htidy.conns fd d hheld
        rw [hfd, hfd'] at hused
        exact hfree hused
    · exact hs.keys d hold hmem

end

section

variable {srv : Nat → Option Int}

/-- What the loop of `recycle_conns` may rely on for the entries that are left. -/
structure State.Reconnectable (s : State) (srv : Nat → Option Int) (entries : List (Int × Nat)) : Prop where
  fresh : ∀ entry ∈ entries, entry.2 ∉ s.active ∧ entry.2 < s.created ∧ ¬Held s.m_conns entry.2
  closed : ∀ entry ∈ entries, ∀ fd, srv entry.2 = some fd → fd ∉ s.opened
  apart : entries.Pairwise fun entry entry' =>
    entry.2 ≠ entry'.2 ∧ ∀ fd, srv entry.2 = some fd → srv entry'.2 ≠ some fd

theorem State.Tidy.getElem?_reconnect (hs : s.Tidy) {srvfd : Int} (hclosed : srvfd ∉ s.opened) (c : Nat) (fd : Int) :
    (s.m_conns.insertIfNew srvfd c)[fd]? = if srvfd = fd then some c else s.m_conns[fd]? := by
  refine getElem?_insertIfNew_of_notMem ?_ c fd
  rw [mem_iff_exists]
  rintro ⟨d, hd⟩
  exact hclosed (hs.conns srvfd d hd).2.2.2.1

/-- One round of the loop: the entries that are left stay reconnectable. -/
theorem State.Reconnectable.round (hs : s.Tidy) {entry : Int × Nat}
    (hentries : s.Reconnectable srv (entry :: entries)) :
    (reconnect srv s entry).Tidy ∧ (reconnect srv s entry).Reconnectable srv entries := by
  obtain ⟨hfresh, hclosed, hapart⟩ := hentries
  rw [List.forall_mem_cons] at hfresh hclosed
  rw [List.pairwise_cons] at hapart
  obtain ⟨⟨hactive, hcreated, hheld⟩, hfresh⟩ := hfresh
  unfold reconnect
  cases hsrv : srv entry.2 with
  | none => exact ⟨hs, hfresh, hclosed.2, hapart.2⟩
  | some srvfd =>
    have hnew : srvfd ∉ s.opened := hclosed.1 srvfd hsrv
    refine ⟨hs.attach ((s.mem entry.2).init_srv srvfd) hnew hactive hheld (Nat.le_refl _) hcreated, ?_, ?_,
      hapart.2⟩
    · intro other hother
      refine ⟨(hfresh other hother).1, (hfresh other hother).2.1, ?_⟩
      rintro ⟨fd, hfd⟩
      rw [hs.getElem?_reconnect hnew] at hfd
      split at hfd
      · exact (hapart.1 other hother).1 (Option.some.inj hfd)
      · exact (hfresh other hother).2.2 ⟨fd, hfd⟩
    · rintro other hother fd hfd (rfl | hmem)
      · exact (hapart.1 other hother).2 fd hsrv hfd
      · exact hclosed.2 other hother fd hfd hmem

/-- The loop of `recycle_conns`: the connections for which it gets a descriptor are in `m_conns`
again. -/
theorem State.Reconnectable.foldl (hs : s.Tidy) (hentries : s.Reconnectable srv entries) :
    (entries.foldl (reconnect srv) s).Tidy ∧
      ∀ (fd : Int) c, (entries.foldl (reconnect srv) s).m_conns[fd]? = some c ↔
        s.m_conns[fd]? = some c ∨ ∃ entry ∈ entries, entry.2 = c ∧ srv c = some fd := by
  induction entries generalizing s with
  | nil => exact ⟨hs, fun fd c => by simp⟩
  | cons entry entries ih =>
    obtain ⟨htidy, hrest⟩ := hentries.round hs
    obtain ⟨hlast, hconns⟩ := ih htidy hrest
    refine ⟨hlast, fun fd c => ?_⟩
    rw [List.foldl_cons, hconns]
    have hstep : (reconnect srv s entry).m_conns[fd]? = some c ↔
        s.m_conns[fd]? = some c ∨ entry.2 = c ∧ srv c = some fd := by
      unfold reconnect
      cases hsrv : srv entry.2 with
      | none => grind
      | some srvfd =>
        have hnew : srvfd ∉ s.opened := hentries.closed entry List.mem_cons_self srvfd hsrv
        have hnone : s.m_conns[srvfd]? ≠ some c := fun h => hnew (hs.conns srvfd c h).2.2.2.1
        simp only [hs.getElem?_reconnect hnew]
        grind
    rw [hstep, or_assoc]
    simp

/-- The rest of the state after the loop of `recycle_conns`. -/
theorem foldl_reconnect_frame (srv : Nat → Option Int) (entries : List (Int × Nat)) (s : State) :
    (entries.foldl (reconnect srv) s).m_used = s.m_used ∧ (entries.foldl (reconnect srv) s).active = s.active ∧
      (entries.foldl (reconnect srv) s).created = s.created := by
  induction entries generalizing s with
  | nil => exact ⟨rfl, rfl, rfl⟩
  | cons entry entries ih =>
    rw [List.foldl_cons]
    obtain ⟨hused, hactive, hcreated⟩ := ih (reconnect srv s entry)
    rw [hused, hactive, hcreated, reconnect]
    split <;> exact ⟨rfl, rfl, rfl⟩

theorem State.reconnectable_freed (hs : s.Parked) (hpermitted : Permitted s (.recycle srv)) :
    s.Reconnectable srv s.m_freed.toList := by
  obtain ⟨hclosed, hdistinct⟩ := hpermitted
  refine ⟨?_, ?_, ?_⟩
  · rintro ⟨fd, c⟩ hmem
    rw [ExtTreeMap.mem_toList_iff_getElem?_eq_some] at hmem
    exact (hs.freed fd c hmem).2
  · rintro ⟨fd, c⟩ hmem srvfd hsrv
    rw [ExtTreeMap.mem_toList_iff_getElem?_eq_some] at hmem
    exact hclosed fd c srvfd hmem hsrv
  · refine ExtTreeMap.distinct_keys_toList.imp_of_mem ?_
    rintro ⟨fd, c⟩ ⟨fd', c'⟩ hmem hmem' hkey
    rw [ExtTreeMap.mem_toList_iff_getElem?_eq_some] at hmem hmem'
    have hne : c ≠ c' := by
      rintro rfl
      exact hkey (Std.compare_eq_iff_eq.mpr ((hs.freed fd c hmem).1.symm.trans (hs.freed fd' c hmem').1))
    exact ⟨hne, fun srvfd hsrv hsrv' => hne (hdistinct fd fd' c c' srvfd hmem hmem' hsrv hsrv')⟩

theorem State.Tidy.recycle_conns (hs : s.Tidy) (hparked : s.Parked) (hpermitted : Permitted s (.recycle srv)) :
    (s.recycle_conns srv).Tidy ∧ (s.recycle_conns srv).Parked ∧
      ∀ (fd : Int) c, (s.recycle_conns srv).m_conns[fd]? = some c ↔
        s.m_conns[fd]? = some c ∨ Held s.m_freed c ∧ srv c = some fd := by
  obtain ⟨htidy, hconns⟩ := (State.reconnectable_freed hparked hpermitted).foldl hs
  refine ⟨⟨⟨htidy.used, htidy.count⟩, htidy.nodup, htidy.apart, htidy.active_lt, htidy.used_opened, htidy.conns⟩,
    ⟨fun fd c h => ?_, fun c _ h => ?_⟩, fun fd c => ?_⟩
  · simp [State.recycle_conns] at h
  · simp [State.recycle_conns] at h
  · refine (hconns fd c).trans (or_congr_right ?_)
    constructor
    · rintro ⟨⟨key, _⟩, hmem, rfl, hsrv⟩
      exact ⟨⟨key, ExtTreeMap.mem_toList_iff_getElem?_eq_some.mp hmem⟩, hsrv⟩
    · rintro ⟨⟨key, hkey⟩, hsrv⟩
      exact ⟨(key, c), ExtTreeMap.mem_toList_iff_getElem?_eq_some.mpr hkey, rfl, hsrv⟩

end

/-- Everything that holds between the pools. -/
structure State.Ordered (s : State) : Prop where
  tidy : s.Tidy
  parked : s.Parked

theorem State.Ordered.free_conn (hs : s.Ordered) (hc : c ∈ s.active) (reason : Reason) :
    (s.free_conn c reason).Ordered :=
  ⟨hs.tidy.free_conn hc reason, hs.parked.free_conn hs.tidy hc reason⟩

theorem Op.exec_fds (op : Op) (c : conn) (w : Wire) :
    (op.exec c w).2.1.m_cltfd = c.m_cltfd ∧ (op.exec c w).2.1.m_srvfd = c.m_srvfd := by
  cases op <;> exact ⟨rfl, rfl⟩

/-- A change of one connection that leaves its descriptors alone. -/
theorem State.Ordered.update (hs : s.Ordered) {connection : conn} (wire : Nat → Wire)
    (hclt : connection.m_cltfd = (s.mem c).m_cltfd) (hsrv : connection.m_srvfd = (s.mem c).m_srvfd) :
    { s with mem := Function.update s.mem c connection, wire := wire : State }.Ordered :=
  ⟨hs.tidy.of_mem (apply_update_eq hclt) (apply_update_eq hsrv), hs.parked.of_mem (apply_update_eq hsrv)⟩

theorem State.Ordered.call (hs : s.Ordered) (c : Nat) (op : Op) : (s.call c op).2.Ordered := by
  obtain ⟨hclt, hsrv⟩ := op.exec_fds (s.mem c) (s.wire c)
  exact hs.update _ hclt hsrv

/-- The condition under which `process` finds a connection. -/
def Served (s : State) : Action → Prop
  | .process fd _ _ _ => ∃ c ∈ s.active, s.Owns c fd
  | _ => True

theorem State.Ordered.process (hs : s.Ordered) {type : OP_TYPE} {recvs : List Recv} {sends : List Send}
    (hserved : Served s (.process fd type recvs sends)) : (s.process fd type recvs sends).2.Ordered := by
  refine State.process_cases (fun hnull => ?_) hs (fun c op hc => ?_) fun c op hc => ?_
  · obtain ⟨c, hc, hfd⟩ := hserved
    exact absurd ((hs.tidy.used fd (some c)).mpr ⟨c, hc, rfl, hfd⟩) (hnull c)
  · have hcall := hs.call c op
    have hactive : c ∈ (s.call c op).2.active := hs.tidy.active_of_used hc
    unfold State.after_clt
    split
    · exact hcall.free_conn hactive .client
    · exact hcall.free_conn hactive .client
    · split
      · exact hcall.free_conn hactive .srv_closed
      · exact hcall
  · have hcall := hs.call c op
    unfold State.after_srv
    split
    · exact hcall.update _ rfl rfl
    · exact hcall.update _ rfl rfl
    · exact hcall

theorem State.Ordered.step (hs : s.Ordered) (hpermitted : Permitted s a) (hserved : Served s a) :
    (step s a).Ordered := by
  cases a with
  | accept cltfd => exact ⟨hs.tidy.accept hpermitted, hs.parked.accept cltfd⟩
  | free c => exact hs.free_conn hpermitted .caller
  | recycle srv =>
    obtain ⟨htidy, hparked, _⟩ := hs.tidy.recycle_conns hs.parked hpermitted
    exact ⟨htidy, hparked⟩
  | process fd type recvs sends => exact hs.process hserved

/-- An event for another descriptor leaves `NULL` in `m_used`. -/
theorem State.Exact.not_served (hs : s.Exact) (ha : ¬Served s a) : ¬(step s a).Exact := by
  cases a with
  | process fd type recvs sends =>
    have hmem : fd ∉ s.m_used := by
      rw [hs.mem_used_iff]
      exact ha
    have hnone : s.m_used[fd]? = none := ExtTreeMap.getElem?_eq_none hmem
    intro h
    have hnull : (springsnail.step s (.process fd type recvs sends)).m_used[fd]? = some none := by
      simp only [springsnail.step, State.process, hnone, getElem?_insertIfNew_of_notMem hmem, if_true]
    obtain ⟨c, _, hc, _⟩ := (h.used fd none).mp hnull
    cases hc
  | _ => exact absurd trivial ha

/-- The constructor leaves its connections in `m_conns`. -/
structure State.Constructed (s : State) (results : List (Option Int)) : Prop extends s.Ordered where
  opened : ∀ fd ∈ s.opened, some fd ∈ results
  freed : s.m_freed = ∅
  held : ∀ c < s.created, Held s.m_conns c

theorem State.empty_constructed : State.empty.Constructed [] := by
  refine ⟨⟨⟨⟨fun fd p => ?_, rfl⟩, List.nodup_nil, ?_, ?_, ?_, ?_⟩, ⟨?_, ?_⟩⟩, fun fd hfd => False.elim hfd, rfl, ?_⟩
  all_goals simp [State.empty, Held]

theorem State.Constructed.build (hs : s.Constructed results) {sockfd : Int}
    (hnew : some sockfd ∉ results) : (build s (some sockfd)).Constructed (results ++ [some sockfd]) := by
  have hclosed : sockfd ∉ s.opened := fun h => hnew (hs.opened sockfd h)
  have hactive : s.created ∉ s.active := fun h => Nat.lt_irrefl _ (hs.tidy.active_lt _ h)
  have hheld : ¬Held s.m_conns s.created := fun ⟨fd, h⟩ => Nat.lt_irrefl _ (hs.tidy.conns fd _ h).2.2.1
  refine ⟨⟨hs.tidy.attach (conn.new.init_srv sockfd) hclosed hactive hheld (Nat.le_succ _) (Nat.lt_succ_self _),
    ?_⟩, ?_, hs.freed, ?_⟩
  · refine ⟨fun fd c h => ?_, fun c _ h => ?_⟩
    · simp [springsnail.build, hs.freed] at h
    · simp [springsnail.build, hs.freed] at h
  · rintro fd (rfl | hfd)
    · exact List.mem_append_right _ (List.mem_singleton_self _)
    · exact List.mem_append_left _ (hs.opened fd hfd)
  · intro c hc
    have hlookup := fun fd => hs.tidy.getElem?_reconnect hclosed s.created fd
    rcases Nat.lt_succ_iff_lt_or_eq.mp hc with hlt | rfl
    · obtain ⟨fd, hfd⟩ := hs.held c hlt
      have hne : sockfd ≠ fd := by
        rintro rfl
        exact hclosed (hs.tidy.conns sockfd c hfd).2.2.2.1
      exact ⟨fd, by simp only [springsnail.build, hlookup, if_neg hne, hfd]⟩
    · exact ⟨sockfd, by simp only [springsnail.build, hlookup, if_true]⟩

theorem State.mgr_constructed (hdistinct : Distinct results) : (State.mgr results).Constructed results := by
  induction results using List.reverseRecOn with
  | nil => exact State.empty_constructed
  | append_singleton results result ih =>
    rw [Distinct, List.filterMap_append, List.nodup_append] at hdistinct
    obtain ⟨hinit, _, hlast⟩ := hdistinct
    have hs := ih hinit
    rw [State.mgr, List.foldl_append]
    cases result with
    | none => exact ⟨hs.toOrdered, fun fd hfd => List.mem_append_left _ (hs.opened fd hfd), hs.freed, hs.held⟩
    | some sockfd =>
      refine hs.build fun hmem => hlast sockfd ?_ sockfd ?_ rfl
      · exact List.mem_filterMap.mpr ⟨some sockfd, hmem, rfl⟩
      · exact List.mem_singleton_self sockfd

/-- `m_used` is exact, and so it is after a connection is picked for a new descriptor: both of its descriptors
look it up. -/
structure State.Mapped (s : State) : Prop extends s.Exact where
  pick : ∀ cltfd ∉ s.opened, ∀ c, (s.pick_conn cltfd).1 = some c →
    (s.accept cltfd).m_used[cltfd]? = some (some c) ∧
      (s.accept cltfd).m_used[((s.accept cltfd).mem c).m_srvfd]? = some (some c)

theorem State.accept_picked {cltfd : Int} (hpick : (s.pick_conn cltfd).1 = some c) :
    c ∈ (s.accept cltfd).active ∧ ((s.accept cltfd).mem c).m_cltfd = cltfd := by
  unfold State.accept
  unfold State.pick_conn at hpick ⊢
  cases hlist : s.m_conns.toList with
  | nil =>
    rw [hlist] at hpick
    cases hpick
  | cons entry entries =>
    rw [hlist] at hpick
    cases hpick
    exact ⟨List.mem_cons_self, by simp only [Function.update_self, conn.init_clt]⟩

theorem State.Ordered.mapped (hs : s.Ordered) : s.Mapped := by
  refine ⟨hs.tidy.toExact, fun cltfd hopened c hpick => ?_⟩
  obtain ⟨hactive, hclt⟩ := State.accept_picked hpick
  have hexact := (hs.tidy.accept hopened).toExact
  exact ⟨(hexact.used _ _).mpr ⟨c, hactive, rfl, .inl hclt.symm⟩, (hexact.used _ _).mpr ⟨c, hactive, rfl, .inr rfl⟩⟩

/-- `m_used` is exact in every state of a run exactly when every event is for a descriptor of an active
connection. -/
theorem always_mapped_iff {results : List (Option Int)} (hdistinct : Distinct results) {actions : List Action}
    (hpermitted : Each step Permitted (State.mgr results) actions) :
    Always step State.Mapped (State.mgr results) actions ↔ Each step Served (State.mgr results) actions := by
  refine always_iff_each State.Ordered Permitted (fun s hs => hs.mapped) ?_ ?_
    (State.mgr_constructed hdistinct).toOrdered hpermitted
  · exact fun s a hs ha hserved => hs.step ha hserved
  · exact fun s a hs _ hserved hmapped => hs.tidy.not_served hserved hmapped.toExact

/-- A client comes, is read from and is freed. -/
theorem mapped_client_read :
    Always step State.Mapped (State.mgr [some 5]) [.accept 6, .process 6 .READ [.bytes [1]] [], .free 0] := by
  refine (always_mapped_iff (by decide) ?_).mpr ?_
  · refine ⟨?_, trivial, ?_, trivial⟩
    · rintro (h | h)
      · cases h
      · cases h
    · show 0 ∈ _
      decide +kernel
  · refine ⟨trivial, ?_, trivial, trivial⟩
    refine ⟨0, ?_, ?_⟩
    · decide +kernel
    · show _ ∨ _
      decide +kernel

/-- An event of a descriptor that was closed before it is handled: the entry that it makes is
still there when the kernel gives the number to a new client, which then finds no connection. -/
theorem stale_event_hides_client :
    Each step Permitted (State.mgr [some 4, some 5])
        [.accept 6, .free 0, .process 6 .READ [] [], .accept 6] ∧
      ¬Always step State.Mapped (State.mgr [some 4, some 5])
        [.accept 6, .free 0, .process 6 .READ [] [], .accept 6] := by
  refine ⟨⟨?_, ?_, trivial, ?_, trivial⟩, fun h => ?_⟩
  · rintro (h | h | h) <;> cases h
  · show 0 ∈ _
    decide +kernel
  · rintro ⟨h | h | h | h, hclosed⟩
    · exact hclosed (.inl h)
    all_goals cases h
  · have hnull : (List.foldl step (State.mgr [some 4, some 5])
        [.accept 6, .free 0, .process 6 .READ [] [], .accept 6]).m_used[(6 : Int)]? = some none := by
      decide +kernel
    obtain ⟨c, _, hc, _⟩ := (h.last.used 6 none).mp hnull
    cases hc

end basic_data_struct.springsnail
