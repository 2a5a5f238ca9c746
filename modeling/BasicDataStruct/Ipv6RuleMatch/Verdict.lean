import BasicDataStruct.Ipv6RuleMatch.Traverse

namespace basic_data_struct.ipv6_rule_match

variable {α : Type} {keys : List ipv6_pkt_key}

/-- The `*_mk` fields as `main` prepares them. -/
structure ipv6_mask_rule_item.Prepared (mrp : ipv6_mask_rule_item) : Prop where
  prot_mk : mrp.prot_mk = mrp.protocol &&& mrp.protocol_mask
  sp_mk : mrp.sp_mk = mrp.sport &&& mrp.sport_mask
  dp_mk : mrp.dp_mk = mrp.dport &&& mrp.dport_mask
  sipv6_mk : ∀ k, mrp.sipv6_mk k = mrp.sipv6 k &&& mrp.sipv6_mask k
  dipv6_mk : ∀ k, mrp.dipv6_mk k = mrp.dipv6 k &&& mrp.dipv6_mask k

/-- The array of rules as `main` prepares it. -/
structure RuleTable where
  rules : List ipv6_mask_rule_item
  size : rules.length = IPV6_MASK_RULE_NUM
  prepared : ∀ mrp ∈ rules, mrp.Prepared

/-- What a rule is for: protocol, ports and all words match under their masks. -/
structure MatchesRule (key : ipv6_pkt_key) (mrp : ipv6_mask_rule_item) : Prop where
  protocol : key.protocol &&& mrp.protocol_mask = mrp.protocol &&& mrp.protocol_mask
  sport : key.sport &&& mrp.sport_mask = mrp.sport &&& mrp.sport_mask
  dport : key.dport &&& mrp.dport_mask = mrp.dport &&& mrp.dport_mask
  sipv6 : ∀ k, key.sipv6 k &&& mrp.sipv6_mask k = mrp.sipv6 k &&& mrp.sipv6_mask k
  dipv6 : ∀ k, key.dipv6 k &&& mrp.dipv6_mask k = mrp.dipv6 k &&& mrp.dipv6_mask k

instance (key : ipv6_pkt_key) (mrp : ipv6_mask_rule_item) : Decidable (MatchesRule key mrp) :=
  decidable_of_iff
    ((key.protocol &&& mrp.protocol_mask = mrp.protocol &&& mrp.protocol_mask ∧
        key.sport &&& mrp.sport_mask = mrp.sport &&& mrp.sport_mask ∧
        key.dport &&& mrp.dport_mask = mrp.dport &&& mrp.dport_mask) ∧
      (∀ k, key.sipv6 k &&& mrp.sipv6_mask k = mrp.sipv6 k &&& mrp.sipv6_mask k) ∧
      ∀ k, key.dipv6 k &&& mrp.dipv6_mask k = mrp.dipv6 k &&& mrp.dipv6_mask k)
    ⟨fun ⟨⟨hp, hs, hd⟩, hsrc, hdst⟩ => ⟨hp, hs, hd, hsrc, hdst⟩, fun h => ⟨⟨h.1, h.2, h.3⟩, h.4, h.5⟩⟩

/-- The packet with the index of the first rule that matches it, or the number of
rules when there is none. -/
def classified (rules : List ipv6_mask_rule_item) (key : ipv6_pkt_key) : ipv6_pkt_key :=
  { key with match_id := .ofNat ((rules.findIdx? (MatchesRule key ·)).getD IPV6_MASK_RULE_NUM) }

/-- No rule before the first one that matches the packet hits it. -/
def Unspoiled (rules : List ipv6_mask_rule_item) (key : ipv6_pkt_key) : Prop :=
  ∀ before mrp after, rules = before ++ mrp :: after → (∀ r ∈ before, ¬ MatchesRule key r) → Hits key mrp →
    MatchesRule key mrp

/-- The first word loop of the run, if there is one, has a source word that matches. -/
def FirstLoopSets (rules : List ipv6_mask_rule_item) (keys : List ipv6_pkt_key) : Prop :=
  ∀ key mrp, keys.find? (fun key => ∃ r ∈ rules, Ports key r) = some key → rules.find? (Ports key ·) = some mrp →
    ∃ k, Source key mrp k

section

variable {key : ipv6_pkt_key} {mrp : ipv6_mask_rule_item} {rules : List ipv6_mask_rule_item} {flag : Int32}

/-- A prepared rule that matches in full has no word that differs. -/
theorem MatchesRule.source (hmrp : mrp.Prepared) (hm : MatchesRule key mrp) (k : Fin 8) : Source key mrp k := by
  rw [Source, hmrp.sipv6_mk]
  exact hm.sipv6 k

theorem MatchesRule.hits (hmrp : mrp.Prepared) (hm : MatchesRule key mrp) : Hits key mrp := by
  refine ⟨⟨?_, ?_, ?_⟩, 7, hm.source hmrp 7, ?_, fun k hk => absurd hk (by omega)⟩
  · rw [hmrp.prot_mk]
    exact hm.protocol
  · rw [hmrp.sp_mk]
    exact hm.sport
  · rw [hmrp.dp_mk]
    exact hm.dport
  · rw [Destination, hmrp.dipv6_mk]
    exact hm.dipv6 7

/-- Two tests of which the second is weaker find the same first rule exactly when it
is not too weak before that rule. -/
theorem findIdx?_eq_iff {p q : α → Prop} [DecidablePred p] [DecidablePred q] {l : List α}
    (hpq : ∀ a ∈ l, p a → q a) : l.findIdx? (q ·) = l.findIdx? (p ·) ↔
      ∀ before a after, l = before ++ a :: after → (∀ b ∈ before, ¬ p b) → q a → p a := by
  induction l with
  | nil => simp
  | cons a l ih =>
    have hrest := ih fun b hb => hpq b (List.mem_cons_of_mem a hb)
    rw [List.findIdx?_cons, List.findIdx?_cons]
    by_cases hp : p a
    · rw [decide_eq_true hp, decide_eq_true (hpq a List.mem_cons_self hp)]
      refine iff_of_true rfl fun before b after heq hbefore _ => ?_
      cases before with
      | nil =>
        obtain ⟨rfl, _⟩ := List.cons.inj heq
        exact hp
      | cons c before =>
        obtain ⟨rfl, _⟩ := List.cons.inj heq
        exact absurd hp (hbefore a List.mem_cons_self)
    · by_cases hq : q a
      · rw [decide_eq_false hp, decide_eq_true hq]
        refine iff_of_false ?_ fun hall => hp (hall [] a l rfl (by simp) hq)
        cases l.findIdx? (p ·) <;> simp
      · rw [decide_eq_false hp, decide_eq_false hq]
        have hshift : l.findIdx? (q ·) = l.findIdx? (p ·) ↔
            Option.map (· + 1) (l.findIdx? (q ·)) = Option.map (· + 1) (l.findIdx? (p ·)) :=
          (Option.map_injective fun _ _ heq => Nat.succ.inj heq).eq_iff.symm
        refine hshift.symm.trans (hrest.trans ⟨fun hall before b after heq hbefore hqb => ?_, ?_⟩)
        · cases before with
          | nil =>
            obtain ⟨rfl, _⟩ := List.cons.inj heq
            exact absurd hqb hq
          | cons c before =>
            obtain ⟨_, heq'⟩ := List.cons.inj heq
            exact hall before b after heq' (fun d hd => hbefore d (List.mem_cons_of_mem c hd)) hqb
        · intro hall before b after heq hbefore hqb
          refine hall (a :: before) b after (by rw [heq, List.cons_append]) (fun d hd => ?_) hqb
          rcases List.mem_cons.mp hd with rfl | hd
          · exact hp
          · exact hbefore d hd

theorem findIdx?_lt {p : α → Bool} {l : List α} {j : Nat} (hj : l.findIdx? p = some j) : j < l.length := by
  obtain ⟨hlt, _⟩ := List.findIdx?_eq_some_iff_getElem.mp hj
  exact hlt

/-- Indices of rules and the mark for no match are different values of `match_id`. -/
theorem ofNat_getD_inj {l : List ipv6_mask_rule_item} (hsize : l.length = IPV6_MASK_RULE_NUM)
    {p q : ipv6_mask_rule_item → Bool} :
    UInt32.ofNat ((l.findIdx? q).getD IPV6_MASK_RULE_NUM) = UInt32.ofNat ((l.findIdx? p).getD IPV6_MASK_RULE_NUM) ↔
      l.findIdx? q = l.findIdx? p := by
  have hbound : ∀ r : ipv6_mask_rule_item → Bool, ∀ j, l.findIdx? r = some j → j < 100000 := by
    intro r j hj
    have hlt := findIdx?_lt hj
    rwa [hsize] at hlt
  refine ⟨fun heq => ?_, fun heq => by rw [heq]⟩
  have hnum : IPV6_MASK_RULE_NUM = 100000 := rfl
  have hnat := congrArg UInt32.toNat heq
  rw [UInt32.toNat_ofNat', UInt32.toNat_ofNat', hnum] at hnat
  cases hq : l.findIdx? q with
  | none =>
    cases hp : l.findIdx? p with
    | none => rfl
    | some i =>
      have hi := hbound p i hp
      rw [hq, hp, Option.getD_none, Option.getD_some] at hnat
      omega
  | some j =>
    have hj := hbound q j hq
    cases hp : l.findIdx? p with
    | none =>
      rw [hq, hp, Option.getD_none, Option.getD_some] at hnat
      omega
    | some i =>
      have hi := hbound p i hp
      rw [hq, hp, Option.getD_some, Option.getD_some] at hnat
      rw [Option.some_inj]
      omega

/-- With `flag` clear a packet is classified exactly when no rule spoils it. -/
theorem verdict_eq_classified_iff (table : RuleTable) (hkey : key.match_id = .ofNat IPV6_MASK_RULE_NUM) :
    verdict table.rules key = classified table.rules key ↔ Unspoiled table.rules key := by
  have hverdict : verdict table.rules key =
      { key with match_id := .ofNat ((table.rules.findIdx? (Hits key ·)).getD IPV6_MASK_RULE_NUM) } := by
    unfold verdict
    cases table.rules.findIdx? (Hits key ·) with
    | some j => rfl
    | none => rw [Option.getD_none, ← hkey]
  have hpq : ∀ mrp ∈ table.rules, MatchesRule key mrp → Hits key mrp :=
    fun mrp hmrp hm => hm.hits (table.prepared mrp hmrp)
  rw [hverdict, classified, Unspoiled, ← findIdx?_eq_iff hpq, ← ofNat_getD_inj table.size]
  simp

/-- Once a source word matches, the earlier value of `flag` is forgotten. -/
theorem word_loop_forgets (hsrc : ∃ k, Source key mrp k) (flag flag' : Int32) :
    word_loop key mrp flag = word_loop key mrp flag' := by
  have hwords : ∀ words : List (Fin 8), (∃ k ∈ words, Source key mrp k) → ∀ flag flag',
      words.foldl (word_body key mrp) flag = words.foldl (word_body key mrp) flag' := by
    intro words
    induction words with
    | nil => simp
    | cons k words ih =>
      intro hex flag flag'
      rw [List.foldl_cons, List.foldl_cons]
      by_cases hk : Source key mrp k
      · rw [word_body, if_pos hk, word_body, if_pos hk]
      · rw [word_body, if_neg hk, word_body, if_neg hk]
        obtain ⟨i, hi, hsi⟩ := hex
        rcases List.mem_cons.mp hi with rfl | hi
        · exact absurd hsi hk
        · exact ih ⟨i, hi, hsi⟩ flag flag'
  obtain ⟨k, hk⟩ := hsrc
  exact hwords _ ⟨k, List.mem_finRange k, hk⟩ flag flag'

/-- A packet with no rule for its ports runs no word loop. -/
theorem rule_loop_no_ports (hnone : ∀ r ∈ rules, ¬ Ports key r) (j : Nat) (flag : Int32) :
    rule_loop key rules j flag = (key, flag) := by
  induction rules generalizing j with
  | nil => rfl
  | cons mrp rules ih =>
    rw [rule_loop, if_neg (hnone mrp List.mem_cons_self)]
    exact ih (fun r hr => hnone r (List.mem_cons_of_mem mrp hr)) (j + 1)

/-- The first word loop of a packet either forgets `flag` or takes its rule for a match. -/
theorem rule_loop_first (hfirst : rules.find? (Ports key ·) = some mrp) (hflag : flag ≠ 0) (j : Nat) :
    ((∃ k, Source key mrp k) → rule_loop key rules j flag = rule_loop key rules j 0) ∧
      ((∀ k, ¬ Source key mrp k) → ∃ i, rules[i]? = some mrp ∧ (∀ r ∈ rules.take i, ¬ Ports key r) ∧
        rule_loop key rules j flag = ({ key with match_id := .ofNat (j + i) }, 0)) := by
  induction rules generalizing j with
  | nil => simp at hfirst
  | cons r rules ih =>
    by_cases hports : Ports key r
    · rw [List.find?_cons_of_pos (by simpa using hports), Option.some_inj] at hfirst
      subst hfirst
      rw [rule_loop, if_pos hports, rule_loop, if_pos hports]
      refine ⟨fun hsrc => by rw [word_loop_forgets hsrc flag 0], fun hnone => ⟨0, rfl, by simp, ?_⟩⟩
      rw [if_pos (word_loop_ne_zero.mpr (.inr ⟨hnone, hflag⟩)), Nat.add_zero]
    · rw [List.find?_cons_of_neg (by simpa using hports)] at hfirst
      obtain ⟨hforgets, htakes⟩ := ih hfirst (j + 1)
      rw [rule_loop, if_neg hports, rule_loop, if_neg hports]
      refine ⟨hforgets, fun hnone => ?_⟩
      obtain ⟨i, hi, hbefore, hrun⟩ := htakes hnone
      refine ⟨i + 1, by rwa [List.getElem?_cons_succ], fun r' hr' => ?_, ?_⟩
      · rw [List.take_succ_cons] at hr'
        rcases List.mem_cons.mp hr' with rfl | hr'
        · exact hports
        · exact hbefore r' hr'
      · rw [hrun]
        congr 3
        omega

theorem MatchesRule.ports (hmrp : mrp.Prepared) (hm : MatchesRule key mrp) : Ports key mrp := (hm.hits hmrp).1

theorem classified_no_ports (table : RuleTable) (hkey : key.match_id = .ofNat IPV6_MASK_RULE_NUM)
    (hnone : ∀ r ∈ table.rules, ¬ Ports key r) : classified table.rules key = key := by
  have hmiss : table.rules.findIdx? (MatchesRule key ·) = none := by
    rw [List.findIdx?_eq_none_iff]
    intro r hr
    exact decide_eq_false fun hm => hnone r hr (hm.ports (table.prepared r hr))
  rw [classified, hmiss, Option.getD_none, ← hkey]

theorem unspoiled_no_ports (hnone : ∀ r ∈ rules, ¬ Ports key r) : Unspoiled rules key := by
  intro before mrp after heq _ hhit
  exact absurd hhit.1 (hnone mrp (heq ▸ by simp))

/-- A rule without a matching source word is not the right one. -/
theorem ne_classified (table : RuleTable) {i : Nat} (hi : table.rules[i]? = some mrp)
    (hnone : ∀ k, ¬ Source key mrp k) :
    ({ key with match_id := .ofNat i } : ipv6_pkt_key) ≠ classified table.rules key := by
  intro heq
  obtain ⟨hlt, hmrp⟩ := List.getElem?_eq_some_iff.mp hi
  have hsize := table.size
  have hid : UInt32.ofNat i = .ofNat ((table.rules.findIdx? (MatchesRule key ·)).getD IPV6_MASK_RULE_NUM) :=
    congrArg ipv6_pkt_key.match_id heq
  have hnum : IPV6_MASK_RULE_NUM = 100000 := rfl
  have hnat := congrArg UInt32.toNat hid
  rw [UInt32.toNat_ofNat', UInt32.toNat_ofNat', hnum] at hnat
  cases hfound : table.rules.findIdx? (MatchesRule key ·) with
  | none =>
    rw [hfound, Option.getD_none] at hnat
    omega
  | some j =>
    have hj := findIdx?_lt hfound
    rw [hfound, Option.getD_some] at hnat
    have hij : i = j := by omega
    obtain ⟨_, hmatch, _⟩ := List.findIdx?_eq_some_iff_getElem.mp hfound
    subst hij
    rw [hmrp, decide_eq_true_eq] at hmatch
    exact hnone 0 (hmatch.source (table.prepared mrp (List.mem_of_getElem? hi)) 0)

theorem map_verdict_iff (table : RuleTable) (hkeys : ∀ key ∈ keys, key.match_id = .ofNat IPV6_MASK_RULE_NUM) :
    keys.map (verdict table.rules) = keys.map (classified table.rules) ↔
      ∀ key ∈ keys, Unspoiled table.rules key := by
  rw [List.map_inj_left]
  exact forall₂_congr fun key hkey => verdict_eq_classified_iff table (hkeys key hkey)

/-- The packets of a run that starts with `flag` set. -/
theorem key_loop_set_iff (table : RuleTable) (hflag : flag ≠ 0)
    (hkeys : ∀ key ∈ keys, key.match_id = .ofNat IPV6_MASK_RULE_NUM) :
    key_loop table.rules keys flag = keys.map (classified table.rules) ↔
      (∀ key ∈ keys, Unspoiled table.rules key) ∧ FirstLoopSets table.rules keys := by
  induction keys with
  | nil => simp [key_loop, FirstLoopSets]
  | cons key keys ih =>
    obtain ⟨hkey, hrest⟩ := List.forall_mem_cons.mp hkeys
    rw [key_loop, List.map_cons, List.forall_mem_cons]
    by_cases hports : ∃ r ∈ table.rules, Ports key r
    · -- this packet runs the first word loop
      have hfind : (key :: keys).find? (fun key => ∃ r ∈ table.rules, Ports key r) = some key :=
        List.find?_cons_of_pos (by simpa using hports)
      obtain ⟨mrp, hmrp⟩ : ∃ mrp, table.rules.find? (Ports key ·) = some mrp := by
        rw [← Option.isSome_iff_exists, List.find?_isSome]
        simpa using hports
      obtain ⟨hforgets, htakes⟩ := rule_loop_first hmrp hflag 0
      by_cases hsrc : ∃ k, Source key mrp k
      · have hsets : FirstLoopSets table.rules (key :: keys) := by
          intro key' mrp' hkey' hmrp'
          rw [hfind, Option.some_inj] at hkey'
          subst hkey'
          rw [hmrp, Option.some_inj] at hmrp'
          exact hmrp' ▸ hsrc
        have hmap := map_verdict_iff table hkeys
        rw [List.map_cons, List.map_cons, List.forall_mem_cons] at hmap
        rw [hforgets hsrc, rule_loop_zero, key_loop_zero, and_iff_left hsets, ← hmap]
        simp only [Nat.zero_add, verdict]
      · have hnone : ∀ k, ¬ Source key mrp k := fun k hk => hsrc ⟨k, hk⟩
        obtain ⟨i, hi, _, hrun⟩ := htakes hnone
        rw [hrun, Nat.zero_add]
        refine iff_of_false ?_ fun hboth => hsrc (hboth.2 key mrp hfind hmrp)
        intro heq
        exact ne_classified table hi hnone (List.cons.inj heq).1
    · have hnone : ∀ r ∈ table.rules, ¬ Ports key r := fun r hr hp => hports ⟨r, hr, hp⟩
      have hfind : FirstLoopSets table.rules (key :: keys) ↔ FirstLoopSets table.rules keys := by
        rw [FirstLoopSets, FirstLoopSets, List.find?_cons_of_neg (by simpa using hnone)]
      rw [rule_loop_no_ports hnone, classified_no_ports table hkey hnone, hfind,
        and_iff_right (unspoiled_no_ports hnone), List.cons_inj_right]
      exact ih hrest

/-- `traverse` classifies all packets exactly when, for every packet, no rule before
the first one that matches it agrees with its ports and with both words at the last
source word that matches, and `flag` starts clear or is overwritten in time. -/
theorem traverse_classifies_iff (table : RuleTable) (keys : List ipv6_pkt_key) (flag : Int32)
    (hkeys : ∀ key ∈ keys, key.match_id = .ofNat IPV6_MASK_RULE_NUM) :
    traverse keys table.rules flag = keys.map (classified table.rules) ↔
      (∀ key ∈ keys, Unspoiled table.rules key) ∧ (flag = 0 ∨ FirstLoopSets table.rules keys) := by
  rw [traverse]
  by_cases hflag : flag = 0
  · rw [hflag, key_loop_zero, map_verdict_iff table hkeys]
    simp
  · rw [key_loop_set_iff table hflag hkeys]
    simp [hflag]

/-- A table with the first rule of `main` in every place. -/
def uniformTable : RuleTable where
  rules := List.replicate IPV6_MASK_RULE_NUM (uniformRule 0)
  size := List.length_replicate
  prepared mrp hmrp := by
    rw [List.eq_of_mem_replicate hmrp]
    exact ⟨by decide, by decide, by decide, fun _ => rfl, fun _ => rfl⟩

/-- A full array of packets, of which only the first one matches a rule. It overwrites the
`flag` that was set before. -/
theorem traverse_classifies_full :
    let keys := uniformKey 0 :: List.replicate (PKT_KEY_NUM - 1) (uniformKey 1)
    traverse keys uniformTable.rules 7 = keys.map (classified uniformTable.rules) := by
  intro keys
  have hmem : ∀ key ∈ keys, key = uniformKey 0 ∨ key = uniformKey 1 :=
    fun key hkey => (List.mem_cons.mp hkey).imp_right List.eq_of_mem_replicate
  refine (traverse_classifies_iff uniformTable keys 7 fun key hkey => ?_).mpr
    ⟨fun key hkey before mrp after heq _ => ?_, .inr fun key mrp hfind hports => ?_⟩
  · rcases hmem key hkey with rfl | rfl <;> rfl
  · rw [List.eq_of_mem_replicate (show mrp ∈ uniformTable.rules from heq ▸ by simp)]
    rcases hmem key hkey with rfl | rfl <;> decide
  · have hfirst : ∃ r ∈ uniformTable.rules, Ports (uniformKey 0) r :=
      ⟨uniformRule 0, List.mem_replicate.mpr ⟨by decide, rfl⟩, by decide⟩
    rw [List.find?_cons_of_pos (by simpa using hfirst)] at hfind
    cases hfind
    rw [List.eq_of_mem_replicate (List.mem_of_find?_eq_some hports)]
    exact ⟨0, by decide⟩

/-- A packet whose first destination word is in no rule of the table. -/
def splitKey : ipv6_pkt_key := { uniformKey 0 with dipv6 := fun k => if k = 0 then 1 else 0 }

/-- All packets of the array are taken for a match of the first rule, although no
rule matches their first destination word. -/
theorem not_classified_split :
    traverse (List.replicate PKT_KEY_NUM splitKey) uniformTable.rules 0 ≠
      (List.replicate PKT_KEY_NUM splitKey).map (classified uniformTable.rules) := by
  have hkeys : ∀ key ∈ List.replicate PKT_KEY_NUM splitKey, key.match_id = .ofNat IPV6_MASK_RULE_NUM := by
    intro key hkey
    rw [List.eq_of_mem_replicate hkey]
    rfl
  rw [traverse, key_loop_zero, Ne, map_verdict_iff uniformTable hkeys]
  intro hall
  have hsplit : uniformTable.rules = [] ++ uniformRule 0 :: List.replicate 99999 (uniformRule 0) := List.replicate_succ
  have hmem : splitKey ∈ List.replicate PKT_KEY_NUM splitKey := List.mem_replicate.mpr ⟨by decide, rfl⟩
  have hhit : Hits splitKey (uniformRule 0) := by decide
  have hmiss : ¬ MatchesRule splitKey (uniformRule 0) := by decide
  exact hmiss (hall splitKey hmem [] _ _ hsplit (by simp) hhit)

end

end basic_data_struct.ipv6_rule_match
