import BasicDataStruct.Runs.Deterministic
import BasicDataStruct.Telnet.LineControl
import BasicDataStruct.Telnet.Session

open machine machine.Exec runs

namespace basic_data_struct.telnet

/-- A client with the number of urgent notifications that no data mark has answered yet; no
statement of the program reads it. -/
structure Synch where
  client : Client
  outstanding : Nat

namespace Synch

/-- A data mark is the byte `TCDM` of a command. With none outstanding it is ignored. -/
def counted (s : Synch) : Input → Nat
  | .urgent => s.outstanding + 1
  | .byte c => if s.client.ttstate = TSIAC ∧ c = TCDM then s.outstanding - 1 else s.outstanding
  | .key _ => s.outstanding

/-- After an input, unless the client has stopped. -/
def after (env : Env) (s : Option Synch) (input : Input) : Option Synch :=
  s.bind fun s => (s.client.after env input).map fun t => ⟨t, s.counted input⟩

/-- The counter is the number of notifications, and it decides whether the Network Virtual
Terminal is silent. A printable byte is shown unless the capability of a line control that is
held back does not fit into the static buffer of `tcout`. -/
structure Matched (env : Env) (s : Synch) : Prop where
  counter : s.client.synching.toInt = s.outstanding
  nonneg : 0 ≤ s.client.synching
  silent : s.client.flags .rcvbinary = 0 → 0 < s.outstanding → ∀ c, (ttputc env c).run s.client = .ok (0, s.client)
  shows : s.client.flags .rcvbinary = 0 → s.outstanding = 0 →
    AreaHolds env s.client.termcap (heldItems s.client.last_char) → ∀ c, 32 ≤ c → c < TCIAC →
    ∃ t text, (ttputc env c).run s.client = .ok (0, t) ∧ t.tfp = s.client.tfp ++ text ++ [c]

end Synch

section Counter

variable {env : Env} {s t : Client} {c : UInt8}

theorem unkeyed_synching : Unkeyed Client.synching := {}

theorem unmarked_synching : Unmarked Client.synching := {}

theorem tt_iac_mark (env : Env) :
    (ttstab env)[rowIndex (ttrows env) TSIAC TCDM.toNat]? = some (onChar TSIAC TCDM TSDATA tcdm) := by
  have hindex : rowIndex (ttrows env) TSIAC TCDM.toNat = 5 := rfl
  rw [hindex]
  rfl

theorem synching_tcdm {result : Int32} (hrun : (tcdm c).run s = .ok (result, t)) :
    t.synching = if 0 < s.synching then s.synching - 1 else s.synching := by
  cases hrun
  exact apply_ite Client.synching (0 < s.synching) { s with synching := s.synching - 1 } s

/-- A data mark that the machine has selected is the byte `TCDM` of a command. -/
theorem eq_mark_of_selected {state : Nat}
    (hrow : (ttstab env)[rowIndex (ttrows env) state c.toNat]? = some (onChar TSIAC TCDM TSDATA tcdm)) :
    state = TSIAC ∧ c = TCDM := by
  rcases selected_cases hrow with ⟨_, hnames | hany⟩ | hlast
  · obtain ⟨hstate, _, hchar⟩ := hnames
    exact ⟨hstate.symm, UInt8.toNat_inj.mp (Int.ofNat_inj.mp hchar.symm)⟩
  · exact absurd hany.2 (by decide)
  · exact absurd (congrArg fsm_trans.ft_state hlast) (by decide)

/-- Only a data mark changes the counter. -/
theorem synching_byte (hb : Built env s.fsms) (hrun : (ttwrite_body env c).run s = .ok ((), t)) :
    t.synching = if s.ttstate = TSIAC ∧ c = TCDM then (if 0 < s.synching then s.synching - 1 else s.synching)
      else s.synching := by
  obtain ⟨pt, result, u, hrow, haction, rfl⟩ := ttwrite_body_eq_ok hb hrun
  by_cases hmark : s.ttstate = TSIAC ∧ c = TCDM
  · rw [hmark.1, hmark.2, tt_iac_mark, Option.some_inj] at hrow
    subst hrow
    rw [if_pos hmark]
    have hcount : u.synching = _ := synching_tcdm (c := c) haction
    exact hcount
  · rw [if_neg hmark]
    rcases keeps_unmarked_ttstab unmarked_synching (fun _ _ => rfl) c pt (List.mem_of_getElem? hrow) with hkeeps | rfl
    · exact hkeeps s result u haction
    · exact absurd (eq_mark_of_selected hrow) hmark

theorem synching_key (hrun : (sowrite_body env c).run s = .ok ((), t)) : t.synching = s.synching :=
  keeps_so_round unkeyed_synching (fun _ _ => rfl) c s () t hrun

end Counter

namespace Synch

variable {env : Env} {s : Synch} {t : Client} {input : Input}

/-- A notification beyond the range of the counter makes it negative. -/
theorem toInt_urgent (hs : s.client.synching.toInt = s.outstanding) :
    (s.client.synching + 1).toInt = s.outstanding + 1 ↔ s.outstanding < 127 := by
  have hlt := s.client.synching.toInt_lt
  have hone : (1 : Int8).toInt = 1 := rfl
  rw [Int8.toInt_add, hs, hone]
  constructor
  · intro heq
    have hbound := @Int.bmod_lt (s.outstanding + 1) (2 ^ 8) (by decide)
    omega
  · intro hroom
    exact Int.bmod_eq_of_le (by omega) (by omega)

/-- A data mark is subtracted unless there is none to subtract from. -/
theorem toInt_mark (hs : s.client.synching.toInt = s.outstanding) :
    (if 0 < s.client.synching then s.client.synching - 1 else s.client.synching).toInt = (s.outstanding - 1 : Nat) := by
  have hzero : (0 : Int8).toInt = 0 := rfl
  have hone : (1 : Int8).toInt = 1 := rfl
  have hlt := s.client.synching.toInt_lt
  split
  next hpos =>
    rw [Int8.lt_iff_toInt_lt, hs, hzero] at hpos
    rw [Int8.toInt_sub, hs, hone, Int.bmod_eq_of_le (by omega) (by omega)]
    omega
  next hpos =>
    rw [Int8.lt_iff_toInt_lt, hs, hzero] at hpos
    rw [hs]
    omega

/-- One input keeps the counter in step, but for a notification beyond its range. -/
theorem counter_after (hb : Built env s.client.fsms) (hs : s.client.synching.toInt = s.outstanding)
    (hafter : s.client.after env input = some t) :
    t.synching.toInt = s.counted input ↔ (input = .urgent → s.outstanding < 127) := by
  have hrun := Client.after_eq_some.mp hafter
  cases input with
  | key c =>
    have hcount : t.synching.toInt = s.outstanding := by rw [synching_key hrun, hs]
    exact iff_of_true hcount nofun
  | byte c =>
    refine iff_of_true ?_ nofun
    rw [synching_byte hb hrun, counted]
    split
    · exact toInt_mark hs
    · exact hs
  | urgent =>
    cases hrun
    exact (toInt_urgent hs).trans ⟨fun h _ => h, fun h => h rfl⟩

/-- The output of the terminal follows from the counter. -/
theorem matched_of_counter (hs : s.client.synching.toInt = s.outstanding) : s.Matched env := by
  have hzero : (0 : Int8).toInt = 0 := rfl
  refine ⟨hs, ?_, fun hbin hpos c => ?_, fun hbin hnone hroom c hle hlt => ?_⟩
  · rw [Int8.le_iff_toInt_le, hs, hzero]
    exact Int.natCast_nonneg _
  · have hsync : s.client.synching ≠ 0 := fun h => by
      rw [h, hzero] at hs
      omega
    rw [ttputc, run_bind_of_ok (run_get _), if_neg (not_not_intro hbin), if_pos hsync, run_pure]
  · have hsync : s.client.synching = 0 := Int8.toInt_inj.mp (by rw [hs, hnone]; rfl)
    exact ttputc_shows env _ hbin hsync hroom hle hlt

/-- The arrays are built and the counter is in step. -/
def Counting (env : Env) (s : Option Synch) : Prop :=
  ∀ u ∈ s, Built env u.client.fsms ∧ u.client.synching.toInt = u.outstanding

theorem after_eq_some {s : Option Synch} {v : Synch} : after env s input = some v ↔
    ∃ u ∈ s, ∃ t, u.client.after env input = some t ∧ v = ⟨t, u.counted input⟩ := by
  cases s with
  | none => simp [after]
  | some u =>
    rw [after, Option.bind_some, Option.map_eq_some_iff]
    simp [eq_comm]

theorem counting_after {s : Option Synch} (hs : Counting env s)
    (hroom : ∀ u ∈ s, input = .urgent → u.outstanding < 127) : Counting env (after env s input) := by
  intro v hv
  obtain ⟨u, hu, t, hafter, rfl⟩ := after_eq_some.mp hv
  obtain ⟨hb, hcount⟩ := hs u hu
  exact ⟨Client.fsms_after hafter ▸ hb, (counter_after hb hcount hafter).mpr (hroom u hu)⟩

/-- A notification that does not fit is not counted. -/
theorem not_matched_after {s : Option Synch} (hs : Counting env s)
    (hfull : ¬ ∀ u ∈ s, input = .urgent → u.outstanding < 127) :
    ¬ ∀ v ∈ after env s input, v.Matched env := by
  intro hmatched
  apply hfull
  rintro u hu rfl
  obtain ⟨hb, hcount⟩ := hs u hu
  have hafter : u.client.after env .urgent = some { u.client with synching := u.client.synching + 1 } := rfl
  exact (counter_after hb hcount hafter).mp (hmatched _ (after_eq_some.mpr ⟨u, hu, _, hafter, rfl⟩)).counter rfl

end Synch

/-- From the start of the client on, and in every order of notifications, received bytes and
keys: the counter is the number of outstanding notifications, and the terminal is silent just
while there are some, exactly when no notification comes on top of 127 others. -/
theorem synching_matched_iff (env : Env) {s₀ s : Client} (hfresh : s₀.Fresh)
    (hbuild : (fsmbuild env).run s₀ = .ok ((), s)) (inputs : List Input) :
    Always (Synch.after env) (fun u => ∀ v ∈ u, v.Matched env) (some ⟨s, 0⟩) inputs ↔
      Each (Synch.after env) (fun u input => ∀ v ∈ u, input = .urgent → v.outstanding < 127) (some ⟨s, 0⟩) inputs := by
  have hstart : Synch.Counting env (some ⟨s, 0⟩) := by
    obtain ⟨fsms, hb, rfl⟩ := fsmbuild_eq_ok hbuild
    rintro u ⟨⟩
    exact ⟨hb, congrArg Int8.toInt hfresh.synching⟩
  refine always_iff_each_of_keeps (Synch.Counting env) ?_ ?_ ?_ hstart inputs
  · exact fun u hu v hv => Synch.matched_of_counter (hu v hv).2
  · exact fun u input hu => Synch.counting_after hu
  · exact fun u input hu => Synch.not_matched_after hu

/-- A notification and the data mark that answers it. -/
theorem synching_matched_mark : ∃ s, (fsmbuild quietEnv).run (Client.zero fun _ => 0) = .ok ((), s) ∧
    Always (Synch.after quietEnv) (fun u => ∀ v ∈ u, v.Matched quietEnv) (some ⟨s, 0⟩)
      [.urgent, .byte TCIAC, .byte TCDM] := by
  obtain ⟨fsms, hbuild, _⟩ := run_fsmbuild quietEnv (Client.zero fun _ => 0)
  refine ⟨_, hbuild, (synching_matched_iff quietEnv zero_fresh hbuild _).mpr ⟨?_, ?_, ?_, trivial⟩⟩
  · rintro v ⟨⟩ _
    exact show 0 < 127 by decide
  · exact fun _ _ h => nomatch h
  · exact fun _ _ h => nomatch h

theorem foldl_urgent (env : Env) (n : Nat) (s : Synch) :
    (List.replicate n Input.urgent).foldl (Synch.after env) (some s) =
      some ⟨{ s.client with synching := s.client.synching + .ofNat n }, s.outstanding + n⟩ := by
  induction n generalizing s with
  | zero =>
    have hzero : s.client.synching + .ofNat 0 = s.client.synching := Int8.add_zero _
    rw [hzero]
    rfl
  | succ n ih =>
    have hsucc : s.client.synching + 1 + .ofNat n = s.client.synching + .ofNat (n + 1) := by
      rw [Nat.add_comm n 1, Int8.ofNat_add, Int8.add_assoc]
      rfl
    have hcount : s.outstanding + 1 + n = s.outstanding + (n + 1) := by omega
    rw [List.replicate_succ, List.foldl_cons, ← hsucc, ← hcount]
    exact ih ⟨{ s.client with synching := s.client.synching + 1 }, s.outstanding + 1⟩

/-- After 128 notifications the counter is negative. -/
theorem synching_wraps : ∃ s t, (fsmbuild quietEnv).run (Client.zero fun _ => 0) = .ok ((), s) ∧
    (List.replicate 128 Input.urgent).foldl (Synch.after quietEnv) (some ⟨s, 0⟩) = some t ∧
    t.client.synching = -128 ∧ t.outstanding = 128 := by
  obtain ⟨fsms, hbuild, _⟩ := run_fsmbuild quietEnv (Client.zero fun _ => 0)
  exact ⟨_, _, hbuild, foldl_urgent quietEnv 128 _, rfl, rfl⟩

end basic_data_struct.telnet
