import BasicDataStruct.Springsnail.Descriptors

open Std runs socket

namespace basic_data_struct.springsnail

variable {s : State}

/-- A connection is in exactly one of the three pools, and there once; in `m_used`, under
its two descriptors. -/
def State.Placed (s : State) (c : Nat) : Prop :=
  ((∃! fd : Int, s.m_conns[fd]? = some c) ∧ ¬Held s.m_used (some c) ∧ ¬Held s.m_freed c) ∨
    (((s.mem c).m_cltfd ≠ (s.mem c).m_srvfd ∧ ∀ fd : Int, s.m_used[fd]? = some (some c) ↔ s.Owns c fd) ∧
      ¬Held s.m_conns c ∧ ¬Held s.m_freed c) ∨
    ((∃! fd : Int, s.m_freed[fd]? = some c) ∧ ¬Held s.m_conns c ∧ ¬Held s.m_used (some c))

/-- No connection is lost or shared. -/
def State.Complete (s : State) : Prop := ∀ c < s.created, s.Placed c

/-- The condition under which `recycle_conns` drops no connection: all reconnects succeed. -/
def Reconnects (s : State) : Action → Prop
  | .recycle srv => ∀ c, Held s.m_freed c → srv c ≠ none
  | _ => True

theorem State.Ordered.placed_iff (hs : s.Ordered) (c : Nat) :
    s.Placed c ↔ c ∈ s.active ∨ Held s.m_conns c ∨ Held s.m_freed c := by
  have hused : Held s.m_used (some c) → c ∈ s.active := fun ⟨fd, hfd⟩ => hs.tidy.active_of_used hfd
  constructor
  · rintro (⟨h, _⟩ | ⟨⟨_, h⟩, _⟩ | ⟨h, _⟩)
    · exact .inr (.inl h.exists)
    · exact .inl (hs.tidy.active_of_used ((h _).mpr (.inl rfl)))
    · exact .inr (.inr h.exists)
  · rintro (h | ⟨fd, hfd⟩ | ⟨fd, hfd⟩)
    · refine .inr (.inl ⟨⟨hs.tidy.apart c h, fun fd => ?_⟩, ?_, ?_⟩)
      · rw [hs.tidy.used]
        constructor
        · rintro ⟨d, _, hd, hfd⟩
          rwa [Option.some.inj hd]
        · exact fun hfd => ⟨c, h, rfl, hfd⟩
      · exact fun ⟨fd, hfd⟩ => (hs.tidy.conns fd c hfd).2.1 h
      · exact fun ⟨fd, hfd⟩ => (hs.parked.freed fd c hfd).2.1 h
    · have hc := hs.tidy.conns fd c hfd
      refine .inl ⟨⟨fd, hfd, fun fd' hfd' => ?_⟩, fun h => hc.2.1 (hused h), ?_⟩
      · exact (hs.tidy.conns fd' c hfd').1.symm.trans hc.1
      · exact fun ⟨fd', hfd'⟩ => (hs.parked.freed fd' c hfd').2.2.2 ⟨fd, hfd⟩
    · have hc := hs.parked.freed fd c hfd
      refine .inr (.inr ⟨⟨fd, hfd, fun fd' hfd' => ?_⟩, hc.2.2.2, fun h => hc.2.1 (hused h)⟩)
      exact (hs.parked.freed fd' c hfd').1.symm.trans hc.1

/-- Every connection is in one of the pools. -/
def State.Covered (s : State) : Prop :=
  ∀ c < s.created, c ∈ s.active ∨ Held s.m_conns c ∨ Held s.m_freed c

theorem State.Ordered.complete_iff (hs : s.Ordered) : s.Complete ↔ s.Covered :=
  forall₂_congr fun c _ => hs.placed_iff c

theorem State.Covered.accept (hs : s.Covered) (cltfd : Int) : (s.accept cltfd).Covered := by
  unfold State.accept State.pick_conn
  cases hlist : s.m_conns.toList with
  | nil => exact hs
  | cons entry entries =>
    obtain ⟨srvfd, c⟩ := entry
    have hc := State.mem_head_conns hlist
    intro d hd
    rcases hs d hd with h | ⟨fd, hfd⟩ | h
    · exact .inl (List.mem_cons_of_mem c h)
    · by_cases hne : srvfd = fd
      · subst hne
        rw [hc] at hfd
        cases hfd
        exact .inl List.mem_cons_self
      · exact .inr (.inl ⟨fd, by rw [getElem?_erase_eq, if_neg hne, hfd]⟩)
    · exact .inr (.inr h)

theorem State.Covered.free_conn (hs : s.Covered) (hordered : s.Ordered) {c : Nat} (hc : c ∈ s.active)
    (reason : Reason) : (s.free_conn c reason).Covered := by
  have hkey := hordered.parked.keys c (.inl hc)
  have hlookup : ∀ fd : Int, (s.free_conn c reason).m_freed[fd]? =
      if (s.mem c).m_srvfd = fd then some c else s.m_freed[fd]? :=
    fun fd => getElem?_insertIfNew_of_notMem hkey c fd
  intro d hd
  by_cases hdc : d = c
  · subst hdc
    exact .inr (.inr ⟨(s.mem d).m_srvfd, by rw [hlookup, if_pos rfl]⟩)
  · rcases hs d hd with h | h | ⟨fd, hfd⟩
    · exact .inl ((List.mem_erase_of_ne hdc).mpr h)
    · exact .inr (.inl h)
    · have hne : (s.mem c).m_srvfd ≠ fd := by
        rintro rfl
        exact hkey ((mem_iff_exists _ _).mpr ⟨d, hfd⟩)
      exact .inr (.inr ⟨fd, by rw [hlookup, if_neg hne, hfd]⟩)

theorem State.Covered.process (hs : s.Covered) (hordered : s.Ordered) (fd : Int) (type : OP_TYPE)
    (recvs : List Recv) (sends : List Send) : (s.process fd type recvs sends).2.Covered := by
  refine State.process_cases (fun _ => hs) hs (fun c op hc => ?_) fun c op hc => ?_
  · have hcall : (s.call c op).2.Covered := hs
    have hcalled := hordered.call c op
    have hactive : c ∈ (s.call c op).2.active := hordered.tidy.active_of_used hc
    unfold State.after_clt
    split
    · exact hcall.free_conn hcalled hactive .client
    · exact hcall.free_conn hcalled hactive .client
    · split
      · exact hcall.free_conn hcalled hactive .srv_closed
      · exact hcall
  · unfold State.after_srv
    split <;> exact hs

/-- A failed reconnect loses its connection, and nothing else does. -/
theorem State.Covered.step_iff (hs : s.Covered) (hordered : s.Ordered) {a : Action} (hpermitted : Permitted s a) :
    (step s a).Covered ↔ Reconnects s a := by
  cases a with
  | accept cltfd => exact iff_of_true (hs.accept cltfd) trivial
  | free c => exact iff_of_true (hs.free_conn hordered hpermitted .caller) trivial
  | process fd type recvs sends => exact iff_of_true (hs.process hordered fd type recvs sends) trivial
  | recycle srv =>
    obtain ⟨_, _, hconns⟩ := hordered.tidy.recycle_conns hordered.parked hpermitted
    obtain ⟨_, hactive, hcreated⟩ := foldl_reconnect_frame srv s.m_freed.toList s
    have hempty : ∀ c, ¬Held (s.recycle_conns srv).m_freed c := by
      rintro c ⟨fd, hfd⟩
      simp [State.recycle_conns] at hfd
    constructor
    · rintro h c ⟨fd, hfd⟩ hnone
      obtain ⟨_, hnot, hlt, hheld⟩ := hordered.parked.freed fd c hfd
      rcases h c (Nat.lt_of_lt_of_eq hlt hcreated.symm) with h | ⟨fd', h⟩ | h
      · exact hnot (hactive ▸ h)
      · rcases (hconns fd' c).mp h with h | ⟨_, h⟩
        · exact hheld ⟨fd', h⟩
        · rw [hnone] at h
          cases h
      · exact hempty c h
    · intro h c hc
      rcases hs c (Nat.lt_of_lt_of_eq hc hcreated) with hmem | ⟨fd, hfd⟩ | hfreed
      · exact .inl (hactive.symm ▸ hmem)
      · exact .inr (.inl ⟨fd, (hconns fd c).mpr (.inl hfd)⟩)
      · obtain ⟨fd, hfd⟩ := Option.ne_none_iff_exists'.mp (h c hfreed)
        exact .inr (.inl ⟨fd, (hconns fd c).mpr (.inr ⟨hfreed, hfd⟩)⟩)

/-- No connection is lost or shared in any state of a run exactly when all reconnects
succeed. -/
theorem always_complete_iff {results : List (Option Int)} (hdistinct : Distinct results) {actions : List Action}
    (hpermitted : Each step (fun s a => Permitted s a ∧ Served s a) (State.mgr results) actions) :
    Always step State.Complete (State.mgr results) actions ↔ Each step Reconnects (State.mgr results) actions := by
  have hstart := State.mgr_constructed hdistinct
  refine always_iff_each (fun s : State => s.Ordered ∧ s.Covered) _ (fun s hs => hs.1.complete_iff.mpr hs.2) ?_ ?_
    ⟨hstart.toOrdered, fun c hc => .inr (.inl (hstart.held c hc))⟩ hpermitted
  · exact fun s a hs ha h => ⟨hs.1.step ha.1 ha.2, (hs.2.step_iff hs.1 ha.1).mpr h⟩
  · intro s a hs ha h hcomplete
    exact h ((hs.2.step_iff hs.1 ha.1).mp ((hs.1.step ha.1 ha.2).complete_iff.mp hcomplete))

theorem permitted_accept_free :
    Permitted (State.mgr [some 5]) (.accept 6) ∧ Permitted (step (State.mgr [some 5]) (.accept 6)) (.free 0) := by
  refine ⟨?_, ?_⟩
  · rintro (h | h) <;> cases h
  · show 0 ∈ _
    decide +kernel

/-- A connection is used, freed and reconnected. -/
theorem complete_reconnected :
    Always step State.Complete (State.mgr [some 5]) [.accept 6, .free 0, .recycle fun _ => some 7] := by
  obtain ⟨haccept, hfree⟩ := permitted_accept_free
  have hstart : (State.mgr [some 5]).Ordered := (State.mgr_constructed (by decide)).toOrdered
  have hordered := (hstart.step haccept trivial).step hfree trivial
  refine (always_complete_iff (by decide) ?_).mpr ?_
  · refine ⟨⟨haccept, trivial⟩, ⟨hfree, trivial⟩, ⟨⟨?_, ?_⟩, trivial⟩, trivial⟩
    · rintro fd c _ _ ⟨⟩ ⟨h | h | h, _⟩ <;> cases h
    · intro fd fd' c c' _ hc hc' _ _
      have hlt := (hordered.parked.freed fd c hc).2.2.1
      have hlt' := (hordered.parked.freed fd' c' hc').2.2.1
      exact (Nat.lt_one_iff.mp hlt).trans (Nat.lt_one_iff.mp hlt').symm
  · exact ⟨trivial, trivial, (fun _ _ h => nomatch h), trivial⟩

/-- The only connection is freed, and its reconnect fails. -/
theorem failed_reconnect_loses :
    Each step (fun s a => Permitted s a ∧ Served s a) (State.mgr [some 5])
        [.accept 6, .free 0, .recycle fun _ => none] ∧
      ¬Always step State.Complete (State.mgr [some 5]) [.accept 6, .free 0, .recycle fun _ => none] := by
  obtain ⟨haccept, hfree⟩ := permitted_accept_free
  refine ⟨⟨⟨haccept, trivial⟩, ⟨hfree, trivial⟩, ⟨⟨?_, ?_⟩, trivial⟩, trivial⟩, fun h => ?_⟩
  · exact fun _ _ _ _ h => nomatch h
  · exact fun _ _ _ _ _ _ _ h => nomatch h
  · have hempty : (List.foldl step (State.mgr [some 5])
      [.accept 6, .free 0, .recycle fun _ => none]).m_conns.toList = [] ∧
        (List.foldl step (State.mgr [some 5]) [.accept 6, .free 0, .recycle fun _ => none]).m_used.toList = [] ∧
        (List.foldl step (State.mgr [some 5]) [.accept 6, .free 0, .recycle fun _ => none]).m_freed.toList = [] := by
      decide +kernel
    obtain ⟨hconns, hused, hfreed⟩ := hempty
    rcases h.last 0 Nat.one_pos with ⟨hc, _⟩ | ⟨⟨_, hc⟩, _⟩ | ⟨hc, _⟩
    · exact not_held_of_toList_eq_nil hconns 0 hc.exists
    · exact not_held_of_toList_eq_nil hused (some 0) ⟨_, (hc _).mpr (.inl rfl)⟩
    · exact not_held_of_toList_eq_nil hfreed 0 hc.exists

end basic_data_struct.springsnail
