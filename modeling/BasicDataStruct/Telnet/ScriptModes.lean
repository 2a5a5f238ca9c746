import BasicDataStruct.Runs.Deterministic
import BasicDataStruct.Telnet.ScriptName

open machine machine.Exec runs

namespace basic_data_struct.telnet

/-- While a name is collected the client's own settings are saved in `tntty`, and otherwise
the terminal has them. -/
def Client.InOwnModes (env : Env) (own : termios) (s : Client) : Prop :=
  (s.sostate = KSCOLLECT → s.tntty = own) ∧ (s.sostate ≠ KSCOLLECT → s.modes env = own)

section Keys

variable {env : Env} {s t : Client} {c : UInt8} {own : termios} {result : Int32}

theorem so_collect_newline (env : Env) :
    (sostab env)[rowIndex (sorows env) KSCOLLECT KCNL.toNat]? = some (nameEndRow env) := by
  have hindex : rowIndex (sorows env) KSCOLLECT KCNL.toNat = 9 := rfl
  rw [hindex]
  rfl

theorem dcon_ne_ok : (dcon env c).run s ≠ .ok (result, t) := by
  intro hrun
  rw [dcon, run_bind_of_ok (run_tprint _ s), run_bind_of_ok (run_get _)] at hrun
  obtain ⟨_, u, _, hexit⟩ := run_bind_eq_ok_iff.mp hrun
  cases hexit

/-- Outside of a collection no key changes the settings, apart from one that starts it. -/
theorem modes_outside {pt : fsm_trans Action} (hmem : pt ∈ sorows env) (hstate : pt.ft_state.toNat ≠ KSCOLLECT)
    (hrow : pt ≠ scriptRow env) (haction : (pt.ft_action c).run s = .ok (result, t)) :
    t.modes env = s.modes env ∧ pt.ft_next.toNat ≠ KSCOLLECT := by
  constructor
  · rcases plainRules_settings.sorows c pt hmem with hkeeps | hscript | hdcon | hsuspend | hcollect
    · exact congrFun (congrArg Prod.fst (hkeeps s result t haction)) _
    · exact absurd hscript hrow
    · rw [hdcon] at haction
      exact absurd haction dcon_ne_ok
    · rw [hsuspend] at haction
      exact suspend_eq_ok haction
    · exact absurd hcollect hstate
  · intro hnext
    rcases (into_collect env pt hmem).2 hnext with hscript | rfl
    · exact hrow hscript
    · exact hstate rfl

theorem inOwnModes_of_off {state : Nat} (hoff : state ≠ KSCOLLECT) (hmodes : t.modes env = own) :
    (t.setSostate state).InOwnModes env own :=
  ⟨fun hcollect => absurd hcollect hoff, fun _ => hmodes⟩

/-- A key outside of a collection keeps the client in its own modes. -/
theorem inOwnModes_outside (hb : Built env s.fsms) (hs : s.InOwnModes env own) (hoff : s.sostate ≠ KSCOLLECT)
    (hrun : (sowrite_body env c).run s = .ok ((), t)) : t.InOwnModes env own := by
  obtain ⟨pt, result, u, hrow, haction, rfl⟩ := sowrite_body_eq_ok hb hrun
  rcases selected_cases hrow with ⟨hmem, hfits⟩ | rfl
  · have hstate : pt.ft_state.toNat ≠ KSCOLLECT := by rwa [hfits.elim And.left And.left]
    by_cases hscript : pt = scriptRow env
    · subst hscript
      obtain ⟨rfl, htty⟩ | ⟨rfl, -, hsaved⟩ := scrinit_eq_ok (c := c) haction
      · exact inOwnModes_of_off (Nat.zero_ne_add_one 1) ((congrFun htty _).trans (hs.2 hoff))
      · exact ⟨fun _ => hsaved.trans (hs.2 hoff), fun hne => absurd rfl hne⟩
    · obtain ⟨hmodes, hnext⟩ := modes_outside hmem hstate hscript haction
      refine inOwnModes_of_off ?_ (hmodes.trans (hs.2 hoff))
      split
      · exact Nat.zero_ne_add_one 1
      · exact hnext
  · cases haction

/-- So does a key of a collection, unless the name gets too long and the client's own settings
are not those from before its start. -/
theorem inOwnModes_inside (hb : Built env s.fsms) (hfits : s.NameFits) (hs : s.InOwnModes env own)
    (hon : s.sostate = KSCOLLECT) (hlong : s.TooLong env c → s.oldtty = own)
    (hrun : (sowrite_body env c).run s = .ok ((), t)) : t.InOwnModes env own := by
  obtain ⟨pt, result, u, hrow, haction, rfl⟩ := sowrite_body_eq_ok hb hrun
  rw [hon] at hrow
  by_cases hnl : c = KCNL
  · rw [hnl, so_collect_newline, Option.some_inj] at hrow
    subst hrow
    obtain ⟨rfl, hmodes⟩ := scrwrap_eq_ok (c := c) haction
    exact inOwnModes_of_off (Nat.zero_ne_add_one 1) (hmodes.trans (hs.1 hon))
  · rw [so_collect env hnl, Option.some_inj] at hrow
    subst hrow
    obtain ⟨rfl, -, rfl⟩ | ⟨rfl, hlast, hok, hmodes⟩ := scrgetc_eq_ok (hfits.scrindex_lt hon) haction
    · exact ⟨fun _ => hs.1 hon, fun hne => absurd rfl hne⟩
    · exact inOwnModes_of_off (Nat.zero_ne_add_one 1) (hmodes.trans (hlong ⟨hon, hnl, hlast, hok⟩))

end Keys

/-- Every key leaves the client in its own modes exactly if, whenever a name gets too long,
the settings from before the start of the client are its own. -/
theorem own_modes_iff (env : Env) (s : Client) (hs : FromBuild env s.fsms) (hoff : s.sostate < KSCOLLECT)
    (keys : List UInt8) :
    Always (keyed env) (fun t => ∀ u ∈ t, u.InOwnModes env (s.modes env)) (some s) keys ↔
      Each (keyed env) (fun t c => ∀ u ∈ t, u.TooLong env c → u.oldtty = s.modes env) (some s) keys := by
  have hne : s.sostate ≠ KSCOLLECT := Nat.ne_of_lt hoff
  refine always_iff_each_of_keeps
    (fun t : Option Client => ∀ u ∈ t, Built env u.fsms ∧ u.NameFits ∧ u.InOwnModes env (s.modes env))
    (fun t ht u hu => (ht u hu).2.2) ?_ ?_ ?_ keys
  · intro t c ht hmeets v hv
    obtain ⟨u, hu, hafter⟩ := Option.bind_eq_some_iff.mp hv
    obtain ⟨hb, hfits, hown⟩ := ht u hu
    have hrun := Client.after_eq_some.mp hafter
    refine ⟨Client.fsms_after hafter ▸ hb, nameFits_key hb hfits hrun, ?_⟩
    by_cases hon : u.sostate = KSCOLLECT
    · exact inOwnModes_inside hb hfits hown hon (hmeets u hu) hrun
    · exact inOwnModes_outside hb hown hon hrun
  · intro t c ht hfails hown
    simp only [not_forall, exists_prop] at hfails
    obtain ⟨u, hu, hlong, hdiffers⟩ := hfails
    obtain ⟨v, hafter, hremote, hmodes, -⟩ := after_tooLong (ht u hu).1 hlong
    have hv : v ∈ keyed env t c := Option.bind_eq_some_iff.mpr ⟨u, hu, hafter⟩
    exact hdiffers (hmodes.symm.trans ((hown v hv).2 (by rw [hremote]; decide)))
  · rintro u ⟨⟩
    exact ⟨hs.built, ⟨Nat.lt_trans hoff (by decide), fun hcollect => absurd hcollect hne⟩,
      fun hcollect => absurd hcollect hne, fun _ => rfl⟩

/-- A client with all options on and its own settings, which are not those of the user. -/
def echoing : Client := { Client.zero (fun _ => 1) with tty := fun _ => ⟨ECHO, fun _ => 0⟩ }

theorem echoing_start (fsms : Fsms) (hb : Built quietEnv fsms) :
    (echoing.built fsms).after quietEnv (.key KCESCAPE) = some ((echoing.built fsms).setSostate KSLOCAL) ∧
      ((echoing.built fsms).setSostate KSLOCAL).after quietEnv (.key KCSCRIPT) =
        some (((echoing.built fsms).collecting quietEnv).setSostate KSCOLLECT) :=
  start_collection (s := echoing.built fsms) hb rfl (show (1 : Int8) ≠ 0 by decide) rfl rfl rfl

/-- A name of two letters. -/
theorem own_modes_two_letters : ∃ s, FromBuild quietEnv s.fsms ∧ s.flags .doecho ≠ 0 ∧
    Always (keyed quietEnv) (fun t => ∀ u ∈ t, u.InOwnModes quietEnv (s.modes quietEnv)) (some s)
      [KCESCAPE, KCSCRIPT, 97, 98, KCNL] := by
  obtain ⟨fsms, hbuild, hb⟩ := run_fsmbuild quietEnv echoing
  obtain ⟨hescape, hscript⟩ := echoing_start fsms hb
  have hfrom : FromBuild quietEnv (echoing.built fsms).fsms := ⟨_, _, hbuild, rfl⟩
  let u := ((echoing.built fsms).collecting quietEnv).setSostate KSCOLLECT
  have hfirst : u.after quietEnv (.key 97) = some _ := after_typed hb rfl (by decide) (show 0 + 1 < 2048 by decide)
  have hsecond : ((u.typed 97).setSostate KSCOLLECT).after quietEnv (.key 98) = some _ :=
    after_typed hb rfl (by decide) (show 1 + 1 < 2048 by decide)
  refine ⟨echoing.built fsms, hfrom, show (1 : Int8) ≠ 0 by decide,
    (own_modes_iff quietEnv _ hfrom Nat.zero_lt_two _).mpr ⟨?_, ?_, ?_, ?_, ?_, trivial⟩⟩
  · rintro u ⟨⟩ ⟨hon, -⟩
    exact absurd hon (Nat.zero_ne_add_one 1)
  · rw [keyed_some hescape]
    rintro u ⟨⟩ ⟨hon, -⟩
    exact absurd hon (Nat.ne_of_lt Nat.one_lt_two)
  · rw [keyed_some hescape, keyed_some hscript]
    rintro u ⟨⟩ ⟨-, -, hlast, -⟩
    exact absurd (show 0 + 1 = 2048 from hlast) (by decide)
  · rw [keyed_some hescape, keyed_some hscript, keyed_some hfirst]
    rintro u ⟨⟩ ⟨-, -, hlast, -⟩
    exact absurd (show 1 + 1 = 2048 from hlast) (by decide)
  · rw [keyed_some hescape, keyed_some hscript, keyed_some hfirst, keyed_some hsecond]
    rintro u ⟨⟩ ⟨-, hnl, -⟩
    exact absurd rfl hnl

/-- A name of 2048 letters: the terminal is left with the settings of the user, while the
client goes on. -/
theorem own_modes_lost : ∃ s, FromBuild quietEnv s.fsms ∧ s.sostate = KSREMOTE ∧
    ¬Always (keyed quietEnv) (fun t => ∀ u ∈ t, u.InOwnModes quietEnv (s.modes quietEnv)) (some s)
      (KCESCAPE :: KCSCRIPT :: (List.replicate 2047 97 ++ [97])) := by
  obtain ⟨fsms, hbuild, hb⟩ := run_fsmbuild quietEnv echoing
  obtain ⟨hescape, hscript⟩ := echoing_start fsms hb
  refine ⟨echoing.built fsms, ⟨_, _, hbuild, rfl⟩, rfl, fun halways => ?_⟩
  have hnl : KCNL ∉ List.replicate 2047 (97 : UInt8) := fun hmem => absurd (List.eq_of_mem_replicate hmem) (by decide)
  have hlen : (List.replicate 2047 (97 : UInt8)).length + 1 = SFBUFSZ := by rw [List.length_replicate]
  have hc : (97 : UInt8) ≠ KCNL := by decide
  obtain ⟨t, hrun, hremote, hmodes, -⟩ := type_long_name
    (s := ((echoing.built fsms).collecting quietEnv).setSostate KSCOLLECT) hnl hlen hc hb rfl rfl rfl
  have hlast := halways.last
  rw [List.foldl_cons, List.foldl_cons, keyed_some hescape, keyed_some hscript, hrun] at hlast
  have hown := (hlast t rfl).2 (by rw [hremote]; decide)
  rw [hmodes] at hown
  have hflags : (0 : UInt32) = ECHO := congrArg termios.c_lflag hown
  exact absurd hflags (by decide)

end basic_data_struct.telnet
