import BasicDataStruct.Machine.Range
import BasicDataStruct.Btree.Parse

open machine machine.Exec

namespace basic_data_struct.btree

variable {before a : List Int8} {n fuel : Nat} {c : Int8} {l : Parser} {h : Heap BT}

/-- `CreateBTree` terminates on the text `a` and leaves the tree `t` in `*bt`,
stored in nodes that are new on the heap. -/
def Rebuilds (a : List Int8) (t : BinTree) (h : Heap BT) : Prop :=
  ∃ n p h', (∀ fuel, n < fuel → (CreateBTree fuel a).run h = .ok (p, h')) ∧ Stored h' h.next t p

/-- As long as the index fits into an `int` it finds the next character. -/
theorem run_charAt (rest : List Int8) (hn : before.length = n) (hfits : n < 2 ^ 31) (h : Heap BT) :
    (charAt (before ++ rest) (Int32.ofNat n)).run h = .ok (rest.headD 0, h) := by
  have hint : (Int32.ofNat n).toInt = n := Int32.toInt_ofNat_of_lt hfits
  unfold charAt
  rw [hint, if_pos ⟨by omega, by rw [List.length_append]; omega⟩, run_pure, Int.toNat_natCast, ← hn]
  cases rest with
  | nil => simp
  | cons c rest => simp

/-- After `2 ^ 31` characters the index has become negative. -/
theorem run_charAt_wrapped (a : List Int8) (h : Heap BT) :
    (charAt a (Int32.ofNat (2 ^ 31))).run h = .error .bounds := by
  have hneg : ¬ (0 ≤ (Int32.ofNat (2 ^ 31)).toInt ∧ (Int32.ofNat (2 ^ 31)).toInt ≤ a.length) := by
    intro hboth
    have hpos : 0 ≤ (Int32.ofNat (2 ^ 31)).toInt := hboth.1
    revert hpos
    decide
  unfold charAt
  rw [if_neg hneg, run_fail]

theorem run_parse_body_next (rest : List Int8) (hn : before.length = n)
    (hfits : n < 2 ^ 31) (hc : c ≠ 0) (l : Parser) (h : Heap BT) :
    (parse_body (before ++ c :: rest) (Int32.ofNat n, l)).run h =
      (char_body c l >>= fun l' => return .inl (Int32.ofNat (n + 1), l')).run h := by
  unfold parse_body
  rw [run_bind_of_ok (run_charAt (c :: rest) hn hfits h), List.headD_cons, if_neg hc, ofNat_succ]

theorem run_parse_body_end (hn : a.length = n)
    (hfits : n < 2 ^ 31) : (parse_body a (Int32.ofNat n, l)).run h = .ok (.inr l, h) := by
  have hchar := run_charAt [] hn hfits h
  rw [List.append_nil] at hchar
  unfold parse_body
  rw [run_bind_of_ok hchar, List.headD_nil, if_pos rfl, run_pure]

/-- The loop reads characters as long as its index fits into an `int`. -/
theorem run_loop_append {text : List Int8} (rest : List Int8) (hn : before.length = n)
    (hfits : n + text.length ≤ 2 ^ 31) (hzero : ∀ c ∈ text, c ≠ 0) (fuel : Nat) (l : Parser) (h : Heap BT) :
    (loop (parse_body (before ++ (text ++ rest))) (text.length + fuel) (Int32.ofNat n, l)).run h =
      (feed text l >>= fun l' =>
        loop (parse_body (before ++ (text ++ rest))) fuel (Int32.ofNat (n + text.length), l')).run h := by
  induction text generalizing before n l h with
  | nil => rw [feed, run_pure_bind, List.length_nil, Nat.zero_add, Nat.add_zero]
  | cons c text ih =>
    rw [List.length_cons] at hfits ⊢
    have hbody := run_parse_body_next (text ++ rest) hn (by omega) (hzero c List.mem_cons_self) l h
    have hrest : (before ++ [c]).length = n + 1 := by rw [List.length_append, hn, List.length_singleton]
    rw [List.cons_append, Nat.add_right_comm, feed]
    cases hchar : (char_body c l).run h with
    | error e => rw [loop, run_bind, hbody, run_bind, hchar, run_bind, run_bind, hchar]
    | ok res =>
      obtain ⟨l', h'⟩ := res
      rw [run_bind_of_ok hchar, run_pure] at hbody
      have hnext := ih hrest (by omega) (fun d hd => hzero d (List.mem_cons_of_mem c hd)) l' h'
      rw [List.append_assoc, List.singleton_append] at hnext
      rw [run_loop_next hbody, hnext, run_bind, run_bind, run_bind_of_ok hchar, Nat.add_right_comm n 1, Nat.add_assoc]

/-- A text is read to its first error, or to its end if it fits. In a longer text
the index runs over behind `2 ^ 31` characters. -/
theorem run_loop_text (hzero : ∀ c ∈ a, c ≠ 0) (h : Heap BT) (hfuel : a.length < fuel) :
    (loop (parse_body a) fuel (0, .init)).run h =
      match (feed (a.take (2 ^ 31)) .init).run h with
      | .ok res => if a.length < 2 ^ 31 then .ok res else .error .bounds
      | .error e => .error e := by
  have hshort : (a.take (2 ^ 31)).length ≤ 2 ^ 31 := List.length_take_le ..
  have hlength : (a.take (2 ^ 31)).length = min (2 ^ 31) a.length := List.length_take
  obtain ⟨k, hk⟩ := Nat.exists_eq_add_of_lt (show (a.take (2 ^ 31)).length < fuel by omega)
  have hloop := run_loop_append (a.drop (2 ^ 31)) List.length_nil (by rwa [Nat.zero_add])
    (fun c hc => hzero c (List.mem_of_mem_take hc)) (k + 1) .init h
  rw [List.take_append_drop, List.nil_append, Nat.zero_add, run_bind, ← Nat.add_assoc, ← hk] at hloop
  refine hloop.trans ?_
  cases (feed (a.take (2 ^ 31)) .init).run h with
  | error e => rfl
  | ok res =>
    by_cases hfits : a.length < 2 ^ 31
    · have hend : a.length = (a.take (2 ^ 31)).length := by omega
      simp only [if_pos hfits]
      exact run_loop_done (run_parse_body_end hend (by omega)) k
    · have hend : (a.take (2 ^ 31)).length = 2 ^ 31 := by omega
      simp only [if_neg hfits, hend]
      rw [loop, run_bind, parse_body, run_bind, run_charAt_wrapped]

/-- The loop returns exactly when the text fits and each character is read. -/
theorem run_loop_ok_iff (hzero : ∀ c ∈ a, c ≠ 0) {h' : Heap BT} (hfuel : a.length < fuel) :
    (loop (parse_body a) fuel (0, .init)).run h = .ok (l, h') ↔
      a.length < 2 ^ 31 ∧ (feed a .init).run h = .ok (l, h') := by
  rw [run_loop_text hzero h hfuel]
  by_cases hfits : a.length < 2 ^ 31
  · rw [List.take_of_length_le hfits.le, and_iff_right hfits]
    cases (feed a .init).run h with
    | error e => rfl
    | ok res => simp only [if_pos hfits]
  · have hnot : ¬ (a.length < 2 ^ 31 ∧ (feed a .init).run h = .ok (l, h')) := fun hboth => hfits hboth.1
    rw [iff_false_right hnot]
    cases (feed (a.take (2 ^ 31)) .init).run h with
    | error e => simp
    | ok res => simp only [if_neg hfits, reduceCtorEq, not_false_eq_true]

section

variable {t : BinTree} {a : List Int8}

theorem GenList.ne_zero_of_mem_text (hg : GenList (a.filter (· ≠ blank)) t) (hc : c ∈ a) : c ≠ 0 := by
  by_cases hblank : c = blank
  · rw [hblank]
    decide
  · exact hg.ne_zero_of_mem (List.mem_filter.mpr ⟨hc, by simpa using hblank⟩)

theorem GenList.run_feed_text (hg : GenList (a.filter (· ≠ blank)) t) (hopen : OpenAtMost MS (a.filter (· ≠ blank)))
    (h : Heap BT) : ∃ l h', (feed a .init).run h = .ok (l, h') ∧ l.top = -1 ∧ Laid h' t l.bt h.next := by
  rw [← feed_filter]
  exact hg.run_feed hopen h

/-- A text whose characters can all be counted by an `int` is rebuilt. -/
theorem rebuilds_of_fits (ht : t.Letters) (hopen : OpenAtMost MS t.print) (ha : a.filter (· ≠ blank) = t.print)
    (h : Heap BT) (hfits : a.length < 2 ^ 31) : Rebuilds a t h := by
  have hg : GenList (a.filter (· ≠ blank)) t := ha ▸ genList_print ht
  obtain ⟨l, h', hfeed, _, hlaid⟩ := hg.run_feed_text (ha ▸ hopen) h
  refine ⟨a.length, l.bt, h', fun fuel hfuel => ?_, hlaid.stored (Nat.le_refl _)⟩
  have hloop := (run_loop_ok_iff (fun c => hg.ne_zero_of_mem_text) hfuel).mpr ⟨hfits, hfeed⟩
  rw [CreateBTree, run_bind_of_ok hloop, run_pure]

/-- On a longer text the index runs over and `CreateBTree` does not return. -/
theorem not_rebuilds_of_long (ht : t.Letters) (ha : a.filter (· ≠ blank) = t.print) (h : Heap BT)
    (hlong : 2 ^ 31 ≤ a.length) : ¬ Rebuilds a t h := by
  have hg : GenList (a.filter (· ≠ blank)) t := ha ▸ genList_print ht
  rintro ⟨n, p, h', hrun, _⟩
  have hok := hrun (n + a.length + 1) (by omega)
  obtain ⟨l, h'', hloop, _⟩ := run_bind_eq_ok_iff.mp hok
  have hfits := ((run_loop_ok_iff (fun c => hg.ne_zero_of_mem_text) (by omega)).mp hloop).1
  omega

end

/-- `CreateBTree` rebuilds every tree of letters from its notation with blanks
inserted anywhere, exactly when the text is short enough for its `int` index. -/
theorem CreateBTree_rebuilds_iff (t : BinTree) (ht : t.Letters) (hopen : OpenAtMost MS t.print) (a : List Int8)
    (ha : a.filter (· ≠ blank) = t.print) (h : Heap BT) : Rebuilds a t h ↔ a.length < 2 ^ 31 := by
  constructor
  · intro hreb
    by_contra hlong
    exact not_rebuilds_of_long ht ha h (by omega) hreb
  · exact rebuilds_of_fits ht hopen ha h

/-- The tree `A(B(C),D(E(F,G),H(,I)))` of the program's `main`. -/
def mainTree : BinTree :=
  .node 65 (.node 66 (.node 67 .empty .empty) .empty)
    (.node 68 (.node 69 (.node 70 .empty .empty) (.node 71 .empty .empty)) (.node 72 .empty (.node 73 .empty .empty)))

theorem mainTree_letters : mainTree.Letters := by
  simp [mainTree, BinTree.Letters, isLetter]

theorem mainTree_openAtMost : OpenAtMost MS mainTree.print := by decide

/-- The tree of `main` is rebuilt on an empty heap. -/
theorem CreateBTree_rebuilds_mainTree : Rebuilds mainTree.print mainTree (.empty fun _ => default) :=
  (CreateBTree_rebuilds_iff mainTree mainTree_letters mainTree_openAtMost mainTree.print (by decide) _).mpr (by decide)

/-- The notation of a single node followed by blanks. -/
def padded (n : Nat) : List Int8 := 65 :: List.replicate n blank

theorem padded_filter (n : Nat) : (padded n).filter (· ≠ blank) = (BinTree.node 65 .empty .empty).print := by
  have hblanks : (List.replicate n blank).filter (· ≠ blank) = [] := by simp
  rw [padded, List.filter_cons_of_pos (by decide), hblanks]
  rfl

/-- With `2 ^ 31` blanks after its only letter the tree is not rebuilt. -/
theorem not_rebuilds_padded :
    (BinTree.node 65 .empty .empty).Letters ∧ OpenAtMost MS (BinTree.node 65 .empty .empty).print ∧
      (padded (2 ^ 31)).filter (· ≠ blank) = (BinTree.node 65 .empty .empty).print ∧
      ¬ Rebuilds (padded (2 ^ 31)) (.node 65 .empty .empty) (.empty fun _ => default) := by
  have hletters : (BinTree.node 65 .empty .empty).Letters := ⟨by decide, trivial, trivial⟩
  have hopen : OpenAtMost MS (BinTree.node 65 .empty .empty).print := by decide
  have hlong : 2 ^ 31 ≤ (padded (2 ^ 31)).length := by
    rw [padded, List.length_cons, List.length_replicate]
    omega
  exact ⟨hletters, hopen, padded_filter _, not_rebuilds_of_long hletters (padded_filter _) _ hlong⟩

end basic_data_struct.btree
