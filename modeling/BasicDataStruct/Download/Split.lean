import BasicDataStruct.Download.Model

open ranges

namespace basic_data_struct.download

/-- What `download` writes to `targs[i]`, apart from the resource. -/
structure ThreadArg where
  start_pos : Int32
  limit : Int32
  no : Int32
deriving DecidableEq

/-- How the split of a new task ends. -/
inductive Split where
  | rejected
  | divisionByZero
  | targs (args : List ThreadArg)

/-- A round of the loop that fills `targs`. -/
def targ (file_size thread_amount block_size i : Int32) : ThreadArg where
  start_pos := block_size * i
  limit := if i = thread_amount - 1 then block_size + file_size % thread_amount else block_size
  no := i

/-- The statements of `download` from its guard to the threads of a new task. -/
def split (file_size thread_amount : Int32) : Split :=
  if thread_amount > Int32.ofNat MAX_THREAD then .rejected
  else
    let thread_amount := if file_size < 1000000 then 1 else thread_amount
    if thread_amount = 0 then .divisionByZero
    else
      let block_size := file_size / thread_amount
      .targs ((List.range thread_amount.toInt.toNat).map fun i => targ file_size thread_amount block_size
        (Int32.ofNat i))

/-- The bytes that a thread is given. -/
def ThreadArg.bytes (arg : ThreadArg) : Set Int :=
  {b | arg.start_pos.toInt ≤ b ∧ b < arg.start_pos.toInt + arg.limit.toInt}

/-- The threads are given every byte of the file, and none of them twice. -/
structure Exact (file_size : Int32) (args : List ThreadArg) : Prop where
  once : args.Pairwise fun arg arg' => ∀ b ∈ arg.bytes, b ∉ arg'.bytes
  covered (b : Int) : 0 ≤ b ∧ b < file_size.toInt ↔ ∃ arg ∈ args, b ∈ arg.bytes

section Blocks

variable {F n : Nat}

/-- A round of the loop computes the block of `ranges`. -/
theorem targ_eq (hF : F < 2 ^ 31) (hn : n < 2 ^ 31) (i : Fin n) :
    targ (.ofNat F) (.ofNat n) (.ofNat F / .ofNat n) (.ofNat i) =
      ⟨.ofNat (F / n * i), .ofNat (blockLen (F / n) (F % n) i), .ofNat i⟩ := by
  have hlast : Int32.ofNat i = Int32.ofNat n - 1 ↔ i.val + 1 = n := by
    have hi := i.isLt
    rw [← Int32.toInt_inj, Int32.toInt_ofNat_of_lt (by omega), Int32.toInt_sub, Int32.toInt_ofNat_of_lt hn,
      Int32.toInt_one, Int.bmod_eq_of_le (by omega) (by omega)]
    omega
  rw [targ, blockLen, ← Int32.ofNat_div hF hn, ← Int32.ofNat_mod hF hn, ← Int32.ofNat_mul]
  simp only [hlast]
  split
  · rw [Int32.ofNat_add]
  · rfl

theorem mem_bytes (hF : F < 2 ^ 31) (hn : n < 2 ^ 31) (i : Fin n) (b : Int) :
    b ∈ (targ (.ofNat F) (.ofNat n) (.ofNat F / .ofNat n) (.ofNat i)).bytes ↔
      0 ≤ b ∧ b.toNat ∈ Set.Ico (F / n * i) (F / n * i + blockLen (F / n) (F % n) i) := by
  have hend := block_end_le_total (F / n) (F % n) i
  rw [Nat.mul_comm (F / n) n, Nat.div_add_mod] at hend
  rw [targ_eq hF hn, ThreadArg.bytes, Int32.toInt_ofNat_of_lt (by omega), Int32.toInt_ofNat_of_lt (by omega)]
  simp only [Set.mem_ofPred_eq, Set.mem_Ico]
  omega

/-- With a positive number of threads the bytes are split exactly. -/
theorem exact_blocks (hF : F < 2 ^ 31) (hpos : 0 < n) (hn : n < 2 ^ 31) :
    Exact (.ofNat F) ((List.range n).map fun i => targ (.ofNat F) (.ofNat n) (.ofNat F / .ofNat n) (.ofNat i)) := by
  have hblocks := partitions_blocks (F / n) (F % n) hpos
  rw [Nat.mul_comm, Nat.div_add_mod] at hblocks
  constructor
  · rw [List.pairwise_map]
    refine List.pairwise_lt_range.imp_of_mem fun {i j} hi hj hlt b hbi hbj => ?_
    have hi' := (mem_bytes hF hn ⟨i, List.mem_range.mp hi⟩ b).mp hbi
    have hj' := (mem_bytes hF hn ⟨j, List.mem_range.mp hj⟩ b).mp hbj
    exact absurd (Fin.mk.inj (hblocks.once hi'.2 hj'.2)) (Nat.ne_of_lt hlt)
  · intro b
    have hcovered := hblocks.covered b.toNat
    rw [Int32.toInt_ofNat_of_lt hF]
    constructor
    · rintro ⟨hlow, hhigh⟩
      obtain ⟨i, hi⟩ := hcovered.mp (show b.toNat < F by omega)
      exact ⟨_, List.mem_map.mpr ⟨i, List.mem_range.mpr i.isLt, rfl⟩, (mem_bytes hF hn i b).mpr ⟨hlow, hi⟩⟩
    · rintro ⟨_, harg, hb⟩
      obtain ⟨i, hi, rfl⟩ := List.mem_map.mp harg
      obtain ⟨hlow, hmem⟩ := (mem_bytes hF hn ⟨i, List.mem_range.mp hi⟩ b).mp hb
      have hlt : b.toNat < F := hcovered.mpr ⟨_, hmem⟩
      exact ⟨hlow, by omega⟩

end Blocks

variable {file_size thread_amount : Int32}

theorem toNat_of_nonneg {x : Int32} (hx : 0 ≤ x.toInt) : ∃ k : Nat, k < 2 ^ 31 ∧ x = .ofNat k ∧ x.toInt = k := by
  have hlt := x.toInt_lt
  refine ⟨x.toInt.toNat, by omega, ?_, by omega⟩
  rw [← Int32.toInt_inj, Int32.toInt_ofNat_of_lt (by omega)]
  omega

/-- The division is by the number of threads, unless the file is small. -/
theorem exact_of_pos (hsize : 0 ≤ file_size) (hpos : 0 < thread_amount) :
    Exact file_size ((List.range thread_amount.toInt.toNat).map fun i =>
      targ file_size thread_amount (file_size / thread_amount) (Int32.ofNat i)) := by
  rw [Int32.le_iff_toInt_le] at hsize
  rw [Int32.lt_iff_toInt_lt] at hpos
  obtain ⟨F, hF, rfl, -⟩ := toNat_of_nonneg hsize
  obtain ⟨n, hn, rfl, hint⟩ := toNat_of_nonneg (Int.le_of_lt hpos)
  rw [hint, Int.toNat_natCast]
  rw [hint] at hpos
  exact exact_blocks hF (Int.natCast_pos.mp hpos) hn

theorem file_pos (hlarge : ¬file_size < 1000000) : 0 < file_size.toInt := by
  rw [Int32.lt_iff_toInt_lt] at hlarge
  exact Int.lt_of_lt_of_le (by decide) (Int.not_lt.mp hlarge)

/-- The split is exact exactly for a positive number of threads and for small files. For
0 threads it divides by zero, and for a negative number no thread is started. -/
theorem split_exact_iff (hsize : 0 ≤ file_size) (haccepted : thread_amount ≤ Int32.ofNat MAX_THREAD) :
    (∃ args, split file_size thread_amount = .targs args ∧ Exact file_size args) ↔
      file_size < 1000000 ∨ 1 ≤ thread_amount := by
  rw [split, if_neg (Int32.not_lt.mpr haccepted)]
  by_cases hsmall : file_size < 1000000
  · rw [if_pos hsmall, if_neg (by decide)]
    exact ⟨fun _ => .inl hsmall, fun _ => ⟨_, rfl, exact_of_pos hsize (by decide)⟩⟩
  rw [if_neg hsmall, or_iff_right hsmall]
  by_cases hzero : thread_amount = 0
  · rw [if_pos hzero, hzero]
    refine iff_of_false ?_ (by decide)
    rintro ⟨_, hargs, -⟩
    cases hargs
  rw [if_neg hzero]
  constructor
  · rintro ⟨args, hargs, hexact⟩
    cases hargs
    -- the byte 0 is given to some thread
    obtain ⟨arg, harg, -⟩ := (hexact.covered 0).mp ⟨Int.le_refl 0, file_pos hsmall⟩
    obtain ⟨i, hi, -⟩ := List.mem_map.mp harg
    rw [List.mem_range] at hi
    rw [Int32.le_iff_toInt_le, Int32.toInt_one]
    omega
  · intro hone
    exact ⟨_, rfl, exact_of_pos hsize (Int32.lt_of_lt_of_le (by decide) hone)⟩

theorem split_exact_five :
    ∃ args, split 1000003 5 = .targs args ∧ Exact 1000003 args :=
  (split_exact_iff (by decide) (by decide)).mpr (.inr (by decide))

/-- No thread at all is a division by zero. -/
theorem split_zero_threads : split 1000000 0 = .divisionByZero ∧
    ¬∃ args, split 1000000 0 = .targs args ∧ Exact 1000000 args :=
  ⟨rfl, fun ⟨_, hargs, _⟩ => by cases hargs⟩

end basic_data_struct.download
