import BasicDataStruct.Telnet.Refusal
import BasicDataStruct.Telnet.Session

open machine machine.Exec

namespace basic_data_struct.telnet

section Modes

variable {env : Env} {s t : Client} {c : UInt8} {result : Int32}

/-- The client after a call of `tcsetattr` that has succeeded. -/
def Client.tuned (env : Env) (s : Client) (tio : termios) : Client :=
  { s.called with tty := Function.update s.tty (env.terminal 0) tio }

/-- The settings of the user's terminal. -/
def Client.modes (env : Env) (s : Client) : termios := s.tty (env.terminal 0)

theorem modes_tuned (tio : termios) : (s.tuned env tio).modes env = tio := Function.update_self _ _ _

theorem getModes_eq_ok {tio : termios} (hrun : (getModes env).run s = .ok (tio, t)) :
    tio = s.modes env ∧ t = s.called := by
  rw [getModes, run_bind_of_ok (run_tcgetattr env 0 s)] at hrun
  by_cases hok : env.ttyOk s.calls
  · rw [if_pos hok] at hrun
    cases hrun
    exact ⟨rfl, rfl⟩
  · rw [if_neg hok] at hrun
    cases hrun

theorem run_setModes (text : String) (tio : termios) (hok : env.ttyOk s.calls) :
    (setModes env text tio).run s = .ok ((), s.tuned env tio) := by
  have hset : (tcsetattr env 0 tio).run s = .ok (true, s.tuned env tio) := by
    rw [tcsetattr, run_bind_of_ok (run_call s), if_pos hok]
    rfl
  rw [setModes, run_bind_of_ok hset, if_pos rfl, run_pure]

theorem setModes_eq_ok {text : String} {tio : termios} {u : Unit} (hrun : (setModes env text tio).run s = .ok (u, t)) :
    env.ttyOk s.calls ∧ t = s.tuned env tio := by
  by_cases hok : env.ttyOk s.calls
  · rw [run_setModes text tio hok] at hrun
    cases hrun
    exact ⟨hok, rfl⟩
  · have hset : (tcsetattr env 0 tio).run s = .ok (false, s.called) := by
      rw [tcsetattr, run_bind_of_ok (run_call s), if_neg hok, run_pure]
    rw [setModes, run_bind_of_ok hset, if_neg (by decide)] at hrun
    cases hrun

end Modes

section Collection

/-- The client after a message to the user. -/
def Client.printed (s : Client) (text : List UInt8) : Client := { s with tfp := s.tfp ++ text }

theorem run_tprint (text : List UInt8) (s : Client) : (tprint text).run s = .ok ((), s.printed text) := rfl

variable {env : Env} {s t : Client} {c : UInt8} {result : Int32}

/-- `scrinit` refuses, or it saves the terminal settings and starts an empty name. -/
theorem scrinit_eq_ok (hrun : (scrinit env c).run s = .ok (result, t)) :
    result = -1 ∧ t.tty = s.tty ∨ result = 0 ∧ t.scrindex = 0 ∧ t.tntty = s.modes env := by
  rw [scrinit, run_bind_of_ok (run_get s)] at hrun
  by_cases hecho : s.flags .doecho = 0
  · rw [if_pos hecho] at hrun
    cases hrun
    exact .inl ⟨rfl, rfl⟩
  by_cases hscript : s.scrfp.isSome
  · rw [if_neg hecho, if_pos hscript] at hrun
    cases hrun
    exact .inl ⟨rfl, rfl⟩
  rw [if_neg hecho, if_neg hscript, run_bind_of_ok (run_modify _ s)] at hrun
  obtain ⟨tio, u, hget, hrun⟩ := run_bind_eq_ok_iff.mp hrun
  obtain ⟨rfl, rfl⟩ := getModes_eq_ok hget
  rw [run_bind_of_ok (run_modify _ _)] at hrun
  obtain ⟨_, v, hset, hrun⟩ := run_bind_eq_ok_iff.mp hrun
  obtain ⟨-, rfl⟩ := setModes_eq_ok hset
  cases hrun
  exact .inr ⟨rfl, rfl, rfl⟩

/-- The client after `scrinit` has started a collection. -/
def Client.collecting (env : Env) (s : Client) : Client :=
  (({ s.called with scrindex := 0, tntty := s.modes env } : Client).tuned env (collect_settings s.oldtty)).printed
    (bytes "\nscript file: ")

theorem run_getModes (hok : env.ttyOk s.calls) : (getModes env).run s = .ok (s.modes env, s.called) := by
  rw [getModes, run_bind_of_ok (run_tcgetattr env 0 s), if_pos hok]
  rfl

theorem run_scrinit (hecho : s.flags .doecho ≠ 0) (hscript : s.scrfp = none) (hok : env.ttyOk s.calls)
    (hok' : env.ttyOk (s.calls + 1)) : (scrinit env c).run s = .ok (0, s.collecting env) := by
  have hget : (getModes env).run { s with scrindex := 0 } = .ok (s.modes env, { s.called with scrindex := 0 }) :=
    run_getModes hok
  have hset : (setModes env "can't set tty modes: " (collect_settings s.oldtty)).run
      { s.called with scrindex := 0, tntty := s.modes env } =
      .ok ((), ({ s.called with scrindex := 0, tntty := s.modes env } : Client).tuned env
        (collect_settings s.oldtty)) :=
    run_setModes _ _ hok'
  rw [scrinit, run_bind_of_ok (run_get s), if_neg hecho, if_neg (by simp [hscript]), run_bind_of_ok (run_modify _ s),
    run_bind_of_ok hget, run_bind_of_ok (run_modify _ _), run_bind_of_ok hset, run_bind_of_ok (run_tprint _ _),
    run_pure]
  rfl

/-- The client after another character of the name. -/
def Client.typed (s : Client) (c : UInt8) : Client :=
  { s with scrname := Function.update s.scrname s.scrindex c, scrindex := s.scrindex + 1 }

theorem run_setScrname {i : Nat} (hi : i < SFBUFSZ) (b : UInt8) :
    (setScrname i b).run s = .ok ((), { s with scrname := Function.update s.scrname i b }) := by
  rw [setScrname, run_bind_of_ok (run_inBounds hi s), run_modify]

/-- A character is stored, and then the end of the buffer is checked. -/
theorem run_scrgetc_typed (hfits : s.scrindex < SFBUFSZ) : (scrgetc env c).run s =
    (if SFBUFSZ ≤ s.scrindex + 1 then do
      tprint (bytes "\nname too long\n")
      setModes env "tcsetattr: " s.oldtty
      return -1
    else return 0 : Prog Int32).run (s.typed c) := by
  rw [scrgetc, run_bind_of_ok (run_get s), run_bind_of_ok (run_setScrname hfits c)]
  rfl

/-- When the last place of the buffer is filled, the settings from before the start of the
client are put back. -/
theorem scrgetc_eq_ok (hfits : s.scrindex < SFBUFSZ) (hrun : (scrgetc env c).run s = .ok (result, t)) :
    result = 0 ∧ s.scrindex + 1 < SFBUFSZ ∧ t = s.typed c ∨
      result = -1 ∧ s.scrindex + 1 = SFBUFSZ ∧ env.ttyOk s.calls ∧ t.modes env = s.oldtty := by
  rw [run_scrgetc_typed hfits] at hrun
  by_cases hlast : SFBUFSZ ≤ s.scrindex + 1
  · rw [if_pos hlast, run_bind_of_ok (run_tprint _ _)] at hrun
    obtain ⟨_, u, hset, hrun⟩ := run_bind_eq_ok_iff.mp hrun
    obtain ⟨hok, rfl⟩ := setModes_eq_ok hset
    cases hrun
    exact .inr ⟨rfl, by omega, hok, modes_tuned _⟩
  · rw [if_neg hlast] at hrun
    cases hrun
    exact .inl ⟨rfl, by omega, rfl⟩

/-- The current and the saved settings. -/
def Client.settings (s : Client) : (Nat → termios) × termios := (s.tty, s.tntty)

theorem plainRules_settings : PlainRules fun _ x => Keeps Client.settings x where
  toCompositional := compositional_keeps _
  exit _ _ := .fail _
  call s n t hrun := by
    cases hrun
    rfl
  sputs _ := .modify fun _ => rfl
  tprint _ := .modify fun _ => rfl
  stdout _ := .modify fun _ => rfl
  scrfp _ := .modify fun _ => rfl
  scrindex _ := .modify fun _ => rfl

theorem keeps_settings_setScrname (i : Nat) (b : UInt8) : Keeps Client.settings (setScrname i b) :=
  Keeps.bind (.ite _ (.pure _) (.fail _)) fun _ => .modify fun _ => rfl

/-- A complete name: the saved settings are put back. -/
theorem scrwrap_eq_ok (hrun : (scrwrap env c).run s = .ok (result, t)) : result = 0 ∧ t.modes env = s.tntty := by
  have hend : ∀ u : Client, u.tntty = s.tntty →
      (do let s ← get; setModes env "tcsetattr: " s.tntty; return (0 : Int32) : Prog Int32).run u = .ok (result, t) →
      result = 0 ∧ t.modes env = s.tntty := by
    intro u hu hrest
    rw [run_bind_of_ok (run_get u)] at hrest
    obtain ⟨_, v, hset, hrest⟩ := run_bind_eq_ok_iff.mp hrest
    obtain ⟨-, rfl⟩ := setModes_eq_ok hset
    cases hrest
    exact ⟨rfl, (modes_tuned _).trans hu⟩
  rw [scrwrap, run_bind_of_ok (run_get s)] at hrun
  by_cases hempty : s.scrindex ≠ 0
  · rw [if_pos hempty] at hrun
    obtain ⟨_, u, hopen, hrest⟩ := run_bind_eq_ok_iff.mp hrun
    have hkept := plainRules_settings.open_script keeps_settings_setScrname s () u hopen
    exact hend u (congrArg Prod.snd hkept) hrest
  · rw [if_neg hempty] at hrun
    exact hend s rfl hrun

/-- Suspending the client comes back to the settings from before. -/
theorem suspend_eq_ok (hrun : (suspend env c).run s = .ok (result, t)) : t.modes env = s.modes env := by
  rw [suspend] at hrun
  obtain ⟨tio, u, hget, hrun⟩ := run_bind_eq_ok_iff.mp hrun
  obtain ⟨rfl, rfl⟩ := getModes_eq_ok hget
  rw [run_bind_of_ok (run_modify _ _), run_bind_of_ok (run_get _)] at hrun
  obtain ⟨_, u, hset, hrun⟩ := run_bind_eq_ok_iff.mp hrun
  obtain ⟨-, rfl⟩ := setModes_eq_ok hset
  rw [run_bind_of_ok (run_call _), run_bind_of_ok (run_modify _ _)] at hrun
  obtain ⟨tio, u, hget, hrun⟩ := run_bind_eq_ok_iff.mp hrun
  obtain ⟨rfl, rfl⟩ := getModes_eq_ok hget
  rw [run_bind_of_ok (run_modify _ _), run_bind_of_ok (run_get _)] at hrun
  obtain ⟨_, u, hset, hrun⟩ := run_bind_eq_ok_iff.mp hrun
  obtain ⟨-, rfl⟩ := setModes_eq_ok hset
  cases hrun
  exact modes_tuned _

end Collection

/-- While a name is collected there is room for the next character. -/
structure Client.NameFits (s : Client) : Prop where
  sostate_lt : s.sostate < NKSTATES
  scrindex_lt : s.sostate = KSCOLLECT → s.scrindex < SFBUFSZ

/-- A collection begins with `scrinit` and goes on with `scrgetc`. -/
theorem into_collect (env : Env) : ∀ pt ∈ sorows env, pt.ft_next.toNat < NKSTATES ∧
    (pt.ft_next.toNat = KSCOLLECT → pt = scriptRow env ∨ pt = nameRow env) := by
  simp [sorows, scriptRow, nameRow, onChar, onAny, KSREMOTE, KSLOCAL, KSCOLLECT, NKSTATES]

section Inside

variable {env : Env} {s t : Client} {c : UInt8}

theorem nameFits_remote (u : Client) : (u.setSostate KSREMOTE).NameFits where
  sostate_lt := Nat.zero_lt_succ _
  scrindex_lt hcollect := absurd hcollect (Nat.zero_ne_add_one 1)

theorem nameFits_key (hb : Built env s.fsms) (hs : s.NameFits) (hrun : (sowrite_body env c).run s = .ok ((), t)) :
    t.NameFits := by
  obtain ⟨pt, result, u, hrow, haction, rfl⟩ := sowrite_body_eq_ok hb hrun
  by_cases herror : result < 0
  · rw [if_pos herror]
    exact nameFits_remote u
  rw [if_neg herror]
  rcases selected_cases hrow with ⟨hmem, hfits⟩ | rfl
  · obtain ⟨hlt, hinto⟩ := into_collect env pt hmem
    refine ⟨hlt, fun hcollect => ?_⟩
    rcases hinto hcollect with rfl | rfl
    · obtain ⟨rfl, -⟩ | ⟨-, hindex, -⟩ := scrinit_eq_ok (c := c) haction
      · exact absurd (by decide) herror
      · exact Nat.lt_of_le_of_lt (Nat.le_of_eq hindex) (by decide)
    · have hstate : KSCOLLECT = s.sostate := hfits.elim And.left And.left
      obtain ⟨-, hroom, rfl⟩ | ⟨rfl, -⟩ := scrgetc_eq_ok (hs.scrindex_lt hstate.symm) haction
      · exact hroom
      · exact absurd (by decide) herror
  · cases haction

theorem unnegotiated_name : Unnegotiated fun s : Client => (s.sostate, s.scrindex) := {}

/-- No input breaks the invariant. -/
theorem nameFits_after {input : Input} (hb : Built env s.fsms) (hs : s.NameFits) (h : s.after env input = some t) :
    t.NameFits := by
  have hrun := Client.after_eq_some.mp h
  cases input with
  | key c => exact nameFits_key hb hs hrun
  | byte c =>
    obtain ⟨hstate, hindex⟩ := Prod.mk.inj
      (keeps_tt_round unnegotiated_name (fun _ _ => rfl) (fun _ _ => rfl) c s () t hrun)
    exact ⟨hstate ▸ hs.sostate_lt, fun hcollect => hindex ▸ hs.scrindex_lt (hstate ▸ hcollect)⟩
  | urgent =>
    cases hrun
    exact ⟨hs.sostate_lt, hs.scrindex_lt⟩

theorem scrgetc_inside (hroom : s.scrindex < SFBUFSZ) (c : UInt8) : (scrgetc env c).run s ≠ .error .bounds := by
  rw [scrgetc, run_bind_of_ok (run_get s), run_bind_of_ok (run_setScrname hroom c)]
  exact keyRules_avoids.scrgetc_rest s _

theorem scrwrap_inside (hroom : s.scrindex < SFBUFSZ) (c : UInt8) : (scrwrap env c).run s ≠ .error .bounds := by
  rw [scrwrap, run_bind_of_ok (run_get s), run_ite]
  split
  · refine run_bind_ne_error ?_ fun _ t _ => keyRules_avoids.scrwrap_rest t
    rw [open_script, run_bind_of_ok (run_get s), run_bind_of_ok (run_setScrname hroom 0)]
    exact keyRules_avoids.open_script_rest _
  · exact keyRules_avoids.scrwrap_rest s

/-- A key does not lead out of an array. -/
theorem key_inside (hb : Built env s.fsms) (hs : s.NameFits) (c : UInt8) :
    (sowrite_body env c).run s ≠ .error .bounds := by
  obtain ⟨pt, hrow⟩ := exists_selected (sorows env) s.sostate c.toNat
  have htrans : (transition (·.fsms.sofsm) (·.sostate) NKSTATES (sostab env) c).run s = .ok (pt, s) :=
    run_transition hb.sofsm hs.sostate_lt hrow
  rw [sowrite_body, run_bind_of_ok htrans]
  refine run_bind_ne_error ?_ fun result t _ => Avoids.modify _ t
  rcases selected_cases hrow with ⟨hmem, hfits⟩ | rfl
  · rcases keyRules_avoids.sorows c pt hmem with havoids | hcollect
    · exact havoids s
    · have hsame : pt.ft_state.toNat = s.sostate := hfits.elim And.left And.left
      have hroom := hs.scrindex_lt (hsame ▸ hcollect)
      rcases collect_rows env pt hmem hcollect with rfl | rfl
      · exact scrwrap_inside hroom c
      · exact scrgetc_inside hroom c
  · exact Avoids.fail (by simp) s

/-- Neither do many. -/
theorem keys_inside (buf : List UInt8) (hb : Built env s.fsms) (hs : s.NameFits) :
    (sowrite env buf).run s ≠ .error .bounds := by
  rw [sowrite]
  induction buf generalizing s with
  | nil => exact Avoids.pure _ s
  | cons c buf ih =>
    refine run_bind_ne_error (key_inside hb hs c) fun _ t hrun => ?_
    have hfsms : t.fsms = s.fsms := keeps_so_round unkeyed_fsms (fun _ _ => rfl) c s () t hrun
    exact ih (hfsms ▸ hb) (nameFits_key hb hs hrun)

/-- Whatever reaches the client, there is room for the next character of a name. -/
theorem nameFits_session {inputs : List Input} (hb : Built env s.fsms) (hs : s.NameFits)
    (hrun : inputs.foldlM (Client.after env) s = some t) : Built env t.fsms ∧ t.NameFits := by
  induction inputs generalizing s with
  | nil =>
    cases hrun
    exact ⟨hb, hs⟩
  | cons input inputs ih =>
    rw [List.foldlM_cons] at hrun
    obtain ⟨u, hu, hrest⟩ := Option.bind_eq_some_iff.mp hrun
    exact ih (Client.fsms_after hu ▸ hb) (nameFits_after hb hs hu) hrest

end Inside

/-- From the start of the client on, and whatever the keyboard and the server send: while a
name is collected its next character has a place in `scrname`, and no further keys make the
client write outside of its arrays. -/
theorem scrname_inside (env : Env) {s₀ s t : Client} (hbuild : (fsmbuild env).run s₀ = .ok ((), s))
    (inputs : List Input) (hrun : inputs.foldlM (Client.after env) s = some t) :
    (t.sostate = KSCOLLECT → t.scrindex < SFBUFSZ) ∧ ∀ buf, (sowrite env buf).run t ≠ .error .bounds := by
  obtain ⟨fsms, hb, rfl⟩ := fsmbuild_eq_ok hbuild
  obtain ⟨hb', hfits⟩ := nameFits_session hb (nameFits_remote (s₀.built fsms)) hrun
  exact ⟨hfits.scrindex_lt, fun buf => keys_inside buf hb' hfits⟩

section Start

variable {env : Env} {s t : Client} {c : UInt8}

theorem so_local_script (env : Env) :
    (sostab env)[rowIndex (sorows env) KSLOCAL KCSCRIPT.toNat]? = some (scriptRow env) := by
  have hindex : rowIndex (sorows env) KSLOCAL KCSCRIPT.toNat = 2 := rfl
  rw [hindex]
  rfl

/-- The escape character and the letter `s` start a collection. -/
theorem start_collection (hb : Built env s.fsms) (hso : s.sostate = KSREMOTE) (hecho : s.flags .doecho ≠ 0)
    (hscript : s.scrfp = none) (hok : env.ttyOk s.calls) (hok' : env.ttyOk (s.calls + 1)) :
    s.after env (.key KCESCAPE) = some (s.setSostate KSLOCAL) ∧
      (s.setSostate KSLOCAL).after env (.key KCSCRIPT) = some ((s.collecting env).setSostate KSCOLLECT) := by
  constructor
  · exact Client.after_eq_some.mpr (run_sowrite_escape hb hso)
  · have hinit : (scrinit env KCSCRIPT).run (s.setSostate KSLOCAL) = .ok (0, (s.setSostate KSLOCAL).collecting env) :=
      run_scrinit hecho hscript hok hok'
    exact Client.after_eq_some.mpr
      (run_sowrite_body (s := s.setSostate KSLOCAL) hb (rfl : _ = KSLOCAL) (by decide) (so_local_script env) hinit)

theorem so_collect (env : Env) (hc : c ≠ KCNL) :
    (sostab env)[rowIndex (sorows env) KSCOLLECT c.toNat]? = some (nameRow env) := by
  have hindex : rowIndex (sorows env) KSCOLLECT c.toNat = 10 := by
    simp [rowIndex, lastNamed, firstAny, sorows, UInt8.toNat_inj, hc.symm, KSREMOTE, KSLOCAL, KSCOLLECT]
  rw [hindex]
  rfl

/-- The key fills the last place of the buffer, and the call of `tcsetattr` succeeds. -/
def Client.TooLong (env : Env) (s : Client) (c : UInt8) : Prop :=
  s.sostate = KSCOLLECT ∧ c ≠ KCNL ∧ s.scrindex + 1 = SFBUFSZ ∧ env.ttyOk s.calls

/-- The next key, for a client that has not stopped. -/
def keyed (env : Env) (s : Option Client) (c : UInt8) : Option Client := s.bind (·.after env (.key c))

/-- A name that is too long ends with the settings from before the start of the client. -/
theorem after_tooLong (hb : Built env s.fsms) (hlong : s.TooLong env c) : ∃ t, s.after env (.key c) = some t ∧
    t.sostate = KSREMOTE ∧ t.modes env = s.oldtty ∧ t.fsms = s.fsms ∧ t.flags = s.flags ∧ t.scrfp = s.scrfp := by
  obtain ⟨hon, hnl, hlast, hok⟩ := hlong
  have hfits : s.scrindex < SFBUFSZ := by omega
  have hset : (setModes env "tcsetattr: " s.oldtty).run ((s.typed c).printed (bytes "\nname too long\n")) =
      .ok ((), ((s.typed c).printed (bytes "\nname too long\n")).tuned env s.oldtty) := run_setModes _ _ hok
  have haction : (scrgetc env c).run s =
      .ok (-1, ((s.typed c).printed (bytes "\nname too long\n")).tuned env s.oldtty) := by
    rw [run_scrgetc_typed hfits, if_pos (Nat.le_of_eq hlast.symm), run_bind_of_ok (run_tprint _ _), run_bind_of_ok hset,
      run_pure]
  have hrun := run_sowrite_body hb hon (by decide) (so_collect env hnl) haction
  have hsame (u : Client) : let t := (u.tuned env s.oldtty).setSostate KSREMOTE
      t.fsms = u.fsms ∧ t.flags = u.flags ∧ t.scrfp = u.scrfp := ⟨rfl, rfl, rfl⟩
  exact ⟨_, Client.after_eq_some.mpr hrun, rfl, modes_tuned _, hsame ((s.typed c).printed _)⟩

theorem keyed_some (h : s.after env (.key c) = some t) : keyed env (some s) c = some t := h

theorem foldl_keyed_none (keys : List UInt8) : keys.foldl (keyed env) none = none := by
  induction keys with
  | nil => rfl
  | cons _ _ ih => exact ih

theorem foldl_keyed (keys : List UInt8) :
    keys.foldl (keyed env) (some s) = (keys.map Input.key).foldlM (Client.after env) s := by
  induction keys generalizing s with
  | nil => rfl
  | cons c keys ih =>
    rw [List.foldl_cons, List.map_cons, List.foldlM_cons, keyed, Option.bind_some]
    cases s.after env (.key c) with
    | none => exact foldl_keyed_none keys
    | some t => exact ih

/-- A character for which there is room. -/
theorem after_typed (hb : Built env s.fsms) (hon : s.sostate = KSCOLLECT) (hc : c ≠ KCNL)
    (hroom : s.scrindex + 1 < SFBUFSZ) : s.after env (.key c) = some ((s.typed c).setSostate KSCOLLECT) := by
  have haction : (scrgetc env c).run s = .ok (0, s.typed c) := by
    rw [run_scrgetc_typed (by omega), if_neg (by omega), run_pure]
  exact Client.after_eq_some.mpr (run_sowrite_body hb hon (by decide) (so_collect env hc) haction)

/-- The characters of a name that is not yet too long. -/
theorem type_name {name : List UInt8} (hnl : KCNL ∉ name) (hb : Built env s.fsms) (hon : s.sostate = KSCOLLECT)
    (hroom : s.scrindex + name.length < SFBUFSZ) : ∃ scrname, name.foldl (keyed env) (some s) =
      some { s with scrname := scrname, scrindex := s.scrindex + name.length } := by
  induction name generalizing s with
  | nil => exact ⟨s.scrname, rfl⟩
  | cons c name ih =>
    rw [List.mem_cons, not_or] at hnl
    rw [List.length_cons] at hroom
    have hafter := after_typed hb hon (Ne.symm hnl.1) (by omega)
    have hindex : ((s.typed c).setSostate KSCOLLECT).scrindex = s.scrindex + 1 := rfl
    obtain ⟨scrname, hrun⟩ := ih hnl.2 (s := (s.typed c).setSostate KSCOLLECT) hb rfl (by rw [hindex]; omega)
    refine ⟨scrname, ?_⟩
    rw [List.foldl_cons, keyed_some hafter, hrun, List.length_cons, hindex, Nat.add_assoc, Nat.add_comm 1, ← hon]
    rfl

/-- A name that fills the whole buffer. -/
theorem type_long_name {name : List UInt8} (hnl : KCNL ∉ name) (hlen : name.length + 1 = SFBUFSZ) (hc : c ≠ KCNL)
    (hb : Built env s.fsms) (hon : s.sostate = KSCOLLECT) (hstart : s.scrindex = 0) (hok : env.ttyOk s.calls) :
    ∃ t, (name ++ [c]).foldl (keyed env) (some s) = some t ∧ t.sostate = KSREMOTE ∧ t.modes env = s.oldtty ∧
      t.fsms = s.fsms ∧ t.flags = s.flags ∧ t.scrfp = s.scrfp := by
  obtain ⟨scrname, hrun⟩ := type_name hnl hb hon (by omega)
  let u : Client := { s with scrname := scrname, scrindex := s.scrindex + name.length }
  have hlast : s.scrindex + name.length + 1 = SFBUFSZ := by omega
  obtain ⟨t, hafter, hend⟩ := after_tooLong (s := u) hb ⟨hon, hc, hlast, hok⟩
  refine ⟨t, ?_, hend⟩
  rw [List.foldl_append, hrun, List.foldl_cons, List.foldl_nil, keyed_some hafter]

end Start

/-- On a quiet system with all options on, a name of 2048 letters is refused, and the next one is collected. -/
theorem scrname_inside_second : ∃ s t, (fsmbuild quietEnv).run (Client.zero fun _ => 1) = .ok ((), s) ∧
    ((KCESCAPE :: KCSCRIPT :: (List.replicate 2047 97 ++ [97] ++ [KCESCAPE, KCSCRIPT])).map Input.key).foldlM
      (Client.after quietEnv) s = some t ∧ t.sostate = KSCOLLECT ∧ t.scrindex < SFBUFSZ := by
  obtain ⟨fsms, hbuild, hb⟩ := run_fsmbuild quietEnv (Client.zero fun _ => 1)
  have hecho : ((Client.zero fun _ => 1).built fsms).flags .doecho ≠ 0 := show (1 : Int8) ≠ 0 by decide
  obtain ⟨hescape, hscript⟩ := start_collection hb (s := (Client.zero fun _ => 1).built fsms) rfl hecho rfl rfl rfl
  have hnl : KCNL ∉ List.replicate 2047 (97 : UInt8) := fun hmem => absurd (List.eq_of_mem_replicate hmem) (by decide)
  obtain ⟨u, hlong, hremote, -, hfsms, hflags, hscrfp⟩ := type_long_name (c := 97)
    (s := (((Client.zero fun _ => 1).built fsms).collecting quietEnv).setSostate KSCOLLECT) hnl
    (by rw [List.length_replicate]) (by decide) hb rfl rfl rfl
  have hb' : Built quietEnv u.fsms := hfsms ▸ hb
  obtain ⟨hescape', hscript'⟩ := start_collection hb' hremote (hflags ▸ hecho) hscrfp rfl rfl
  have hrun : ((KCESCAPE :: KCSCRIPT :: (List.replicate 2047 97 ++ [97] ++ [KCESCAPE, KCSCRIPT])).map Input.key).foldlM
      (Client.after quietEnv) ((Client.zero fun _ => 1).built fsms) =
        some ((u.collecting quietEnv).setSostate KSCOLLECT) := by
    rw [← foldl_keyed, List.foldl_cons, List.foldl_cons, keyed_some hescape, keyed_some hscript,
      List.foldl_append, hlong,
      List.foldl_cons, keyed_some hescape', List.foldl_cons, keyed_some hscript', List.foldl_nil]
  exact ⟨_, _, hbuild, hrun, rfl, (scrname_inside quietEnv hbuild _ hrun).1 rfl⟩

end basic_data_struct.telnet
