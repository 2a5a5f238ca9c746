import Mathlib.Data.List.FinRange
import Mathlib.Data.List.Induction

namespace basic_data_struct.ipv6_rule_match

abbrev IPV6_MASK_RULE_NUM : Nat := 100000

abbrev PKT_KEY_NUM : Nat := 10000

/-- A rule. The `*_mk` fields hold the value under its mask. -/
structure ipv6_mask_rule_item where
  protocol : UInt8
  protocol_mask : UInt8
  prot_mk : UInt8
  sport : UInt16
  sport_mask : UInt16
  sp_mk : UInt16
  dport : UInt16
  dport_mask : UInt16
  dp_mk : UInt16
  sipv6 : Fin 8 → UInt16
  sipv6_mask : Fin 8 → UInt16
  sipv6_mk : Fin 8 → UInt16
  dipv6 : Fin 8 → UInt16
  dipv6_mask : Fin 8 → UInt16
  dipv6_mk : Fin 8 → UInt16

structure ipv6_pkt_key where
  protocol : UInt8
  sport : UInt16
  dport : UInt16
  sipv6 : Fin 8 → UInt16
  dipv6 : Fin 8 → UInt16
  match_id : UInt32

/-- The conditions around the word loop. -/
def Ports (key : ipv6_pkt_key) (mrp : ipv6_mask_rule_item) : Prop :=
  key.protocol &&& mrp.protocol_mask = mrp.prot_mk ∧ key.sport &&& mrp.sport_mask = mrp.sp_mk ∧
    key.dport &&& mrp.dport_mask = mrp.dp_mk

def Source (key : ipv6_pkt_key) (mrp : ipv6_mask_rule_item) (k : Fin 8) : Prop :=
  key.sipv6 k &&& mrp.sipv6_mask k = mrp.sipv6_mk k

def Destination (key : ipv6_pkt_key) (mrp : ipv6_mask_rule_item) (k : Fin 8) : Prop :=
  key.dipv6 k &&& mrp.dipv6_mask k = mrp.dipv6_mk k

instance (key : ipv6_pkt_key) (mrp : ipv6_mask_rule_item) : Decidable (Ports key mrp) :=
  inferInstanceAs (Decidable (_ ∧ _ ∧ _))

instance (key : ipv6_pkt_key) (mrp : ipv6_mask_rule_item) (k : Fin 8) : Decidable (Source key mrp k) :=
  inferInstanceAs (Decidable (_ = _))

instance (key : ipv6_pkt_key) (mrp : ipv6_mask_rule_item) (k : Fin 8) : Decidable (Destination key mrp k) :=
  inferInstanceAs (Decidable (_ = _))

/-- One round of the word loop. Without a match of the source word `flag` stays as
it is. -/
def word_body (key : ipv6_pkt_key) (mrp : ipv6_mask_rule_item) (flag : Int32) (k : Fin 8) : Int32 :=
  if Source key mrp k then
    if Destination key mrp k then 1 else 0
  else flag

/-- `for(k=0;k<8;k++)` -/
def word_loop (key : ipv6_pkt_key) (mrp : ipv6_mask_rule_item) (flag : Int32) : Int32 :=
  (List.finRange 8).foldl (word_body key mrp) flag

/-- `for(j=0;j<IPV6_MASK_RULE_NUM;j++)` over the rules from the index `j` on. Returns
the packet and `flag`. -/
def rule_loop (key : ipv6_pkt_key) : List ipv6_mask_rule_item → (j : Nat) → (flag : Int32) → ipv6_pkt_key × Int32
  | [], _, flag => (key, flag)
  | mrp :: rules, j, flag =>
    if Ports key mrp then
      if word_loop key mrp flag ≠ 0 then ({ key with match_id := .ofNat j }, 0)
      else rule_loop key rules (j + 1) (word_loop key mrp flag)
    else rule_loop key rules (j + 1) flag

/-- `for(i=0;i<PKT_KEY_NUM;i++)` over the remaining packets. -/
def key_loop (rules : List ipv6_mask_rule_item) : List ipv6_pkt_key → (flag : Int32) → List ipv6_pkt_key
  | [], _ => []
  | key :: keys, flag => (rule_loop key rules 0 flag).1 :: key_loop rules keys (rule_loop key rules 0 flag).2

/-- `traverse` works on the two global arrays whatever its arguments are. `flag` is
the value that the uninitialised local variable happens to have. -/
def traverse (keys : List ipv6_pkt_key) (rules : List ipv6_mask_rule_item) (flag : Int32) : List ipv6_pkt_key :=
  key_loop rules keys flag

section

variable {key : ipv6_pkt_key} {mrp : ipv6_mask_rule_item} {rules : List ipv6_mask_rule_item} {flag : Int32}

/-- The last source word that matches has a destination word that matches too. -/
def LastWord (key : ipv6_pkt_key) (mrp : ipv6_mask_rule_item) : Prop :=
  ∃ k, Source key mrp k ∧ Destination key mrp k ∧ ∀ k', k < k' → ¬ Source key mrp k'

instance (key : ipv6_pkt_key) (mrp : ipv6_mask_rule_item) : Decidable (LastWord key mrp) :=
  inferInstanceAs (Decidable (∃ _, _))

/-- The word loop over any increasing words: the last source word that matches
decides, and `flag` is kept where there is none. -/
theorem foldl_word_body {words : List (Fin 8)} (hwords : words.Pairwise (· < ·)) :
    words.foldl (word_body key mrp) flag ≠ 0 ↔
      (∃ k ∈ words, Source key mrp k ∧ Destination key mrp k ∧ ∀ k' ∈ words, k < k' → ¬ Source key mrp k') ∨
        ((∀ k ∈ words, ¬ Source key mrp k) ∧ flag ≠ 0) := by
  induction words using List.reverseRecOn with
  | nil => simp
  | append_singleton words k ih =>
    obtain ⟨hinit, _, hlast⟩ := List.pairwise_append.mp hwords
    have hbelow : ∀ i ∈ words, i < k := fun i hi => hlast i hi k (List.mem_singleton_self k)
    rw [List.foldl_concat, word_body]
    by_cases hsrc : Source key mrp k
    · rw [if_pos hsrc]
      by_cases hdst : Destination key mrp k
      · rw [if_pos hdst]
        refine iff_of_true (by decide) (.inl ⟨k, by simp, hsrc, hdst, fun k' hk' hlt => ?_⟩)
        rw [List.mem_append, List.mem_singleton] at hk'
        rcases hk' with hk' | rfl
        · exact absurd hlt (hbelow k' hk').not_gt
        · exact absurd hlt (lt_irrefl _)
      · rw [if_neg hdst]
        refine iff_of_false (by decide) ?_
        rintro (⟨i, hi, _, hdi, hmax⟩ | ⟨hnone, _⟩)
        · rw [List.mem_append, List.mem_singleton] at hi
          rcases hi with hi | rfl
          · exact hmax k (by simp) (hbelow i hi) hsrc
          · exact hdst hdi
        · exact hnone k (by simp) hsrc
    · rw [if_neg hsrc, ih hinit]
      simp only [List.mem_append, List.mem_singleton, or_imp, forall_and, forall_eq, hsrc, not_false_eq_true, and_true,
        or_and_right, exists_or, exists_eq_left, false_and, or_false, implies_true]

/-- The word loop of a rule. -/
theorem word_loop_ne_zero : word_loop key mrp flag ≠ 0 ↔
    LastWord key mrp ∨ ((∀ k, ¬ Source key mrp k) ∧ flag ≠ 0) := by
  rw [word_loop, foldl_word_body (List.pairwise_lt_finRange 8)]
  simp only [List.mem_finRange, true_and, forall_const, LastWord]

/-- A rule that the code takes for a match when `flag` is clear. -/
def Hits (key : ipv6_pkt_key) (mrp : ipv6_mask_rule_item) : Prop := Ports key mrp ∧ LastWord key mrp

instance (key : ipv6_pkt_key) (mrp : ipv6_mask_rule_item) : Decidable (Hits key mrp) :=
  inferInstanceAs (Decidable (_ ∧ _))

/-- The packet after the rule loop with `flag` clear. -/
def verdict (rules : List ipv6_mask_rule_item) (key : ipv6_pkt_key) : ipv6_pkt_key :=
  match rules.findIdx? (Hits key ·) with
  | some j => { key with match_id := .ofNat j }
  | none => key

theorem word_loop_zero : word_loop key mrp 0 ≠ 0 ↔ LastWord key mrp := by
  rw [word_loop_ne_zero]
  simp

/-- With `flag` clear at its start, the rule loop takes the first rule that hits and
leaves `flag` clear, also on the way out of the `break`. -/
theorem rule_loop_zero (key : ipv6_pkt_key) (rules : List ipv6_mask_rule_item) (j : Nat) :
    rule_loop key rules j 0 = (match rules.findIdx? (Hits key ·) with
      | some i => { key with match_id := .ofNat (j + i) }
      | none => key, 0) := by
  induction rules generalizing j with
  | nil => rfl
  | cons mrp rules ih =>
    have hnext : ¬ Hits key mrp → rule_loop key rules (j + 1) 0 =
        (match (mrp :: rules).findIdx? (Hits key ·) with
          | some i => { key with match_id := .ofNat (j + i) }
          | none => key, 0) := by
      intro hmiss
      rw [ih, List.findIdx?_cons, decide_eq_false hmiss]
      cases rules.findIdx? (Hits key ·) with
      | none => rfl
      | some i =>
        have hindex : j + 1 + i = j + (i + 1) := by omega
        simp [hindex]
    rw [rule_loop]
    by_cases hports : Ports key mrp
    · rw [if_pos hports]
      by_cases hword : word_loop key mrp 0 ≠ 0
      · have hhit : Hits key mrp := ⟨hports, word_loop_zero.mp hword⟩
        rw [if_pos hword, List.findIdx?_cons, decide_eq_true hhit]
        rfl
      · rw [if_neg hword, not_not.mp hword]
        exact hnext fun hhit => hword (word_loop_zero.mpr hhit.2)
    · rw [if_neg hports]
      exact hnext fun hhit => hports hhit.1

/-- `flag` is clear at the start of every packet, so each gets its own verdict. -/
theorem key_loop_zero (rules : List ipv6_mask_rule_item) (keys : List ipv6_pkt_key) :
    key_loop rules keys 0 = keys.map (verdict rules) := by
  induction keys with
  | nil => rfl
  | cons key keys ih =>
    rw [key_loop, rule_loop_zero, List.map_cons, ih]
    simp only [Nat.zero_add, verdict]

/-- The verdict of a packet does not depend on the packets around it. -/
theorem traverse_independent (rules : List ipv6_mask_rule_item) {keys keys' : List ipv6_pkt_key} {i i' : Nat}
    (hi : keys[i]? = some key) (hi' : keys'[i']? = some key) :
    ∃ key', (traverse keys rules 0)[i]? = some key' ∧ (traverse keys' rules 0)[i']? = some key' := by
  refine ⟨verdict rules key, ?_, ?_⟩
  · rw [traverse, key_loop_zero, List.getElem?_map, hi, Option.map_some]
  · rw [traverse, key_loop_zero, List.getElem?_map, hi', Option.map_some]

/-- The packets that `main` makes, with one source and destination word. -/
def uniformKey (word : UInt16) : ipv6_pkt_key :=
  ⟨6, 0x80, 0x90, fun _ => word, fun _ => word, .ofNat IPV6_MASK_RULE_NUM⟩

/-- The rule that `main` makes for an index. -/
def uniformRule (word : UInt16) : ipv6_mask_rule_item where
  protocol := 6
  protocol_mask := 0xFF
  prot_mk := 6
  sport := 0x80
  sport_mask := 0xFFFF
  sp_mk := 0x80
  dport := 0x90
  dport_mask := 0xFFFF
  dp_mk := 0x90
  sipv6 _ := word
  sipv6_mask _ := 0xFFFF
  sipv6_mk _ := word &&& 0xFFFF
  dipv6 _ := word
  dipv6_mask _ := 0xFFFF
  dipv6_mk _ := word &&& 0xFFFF

theorem traverse_independent_example : ∃ key',
    (traverse [uniformKey 7, uniformKey 1] [uniformRule 0, uniformRule 1] 0)[1]? = some key' ∧
      (traverse [uniformKey 1] [uniformRule 0, uniformRule 1] 0)[0]? = some key' :=
  traverse_independent [uniformRule 0, uniformRule 1] rfl rfl

end

end basic_data_struct.ipv6_rule_match
