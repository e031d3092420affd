import Gristle.Block

/-! `read_partition_table`: the entries of a partition table that are passed on to the caller. -/
namespace Gristle

/-- `PARTITION0START` -/
abbrev partition0Start : ℕ := 0x1BE

/-- The fields of `mbr_entry` that are read. -/
structure MbrEntry where
  type : ℕ
  lbaStart : ℕ
  length : ℕ
  deriving DecidableEq, Repr

/-- `struct partition` -/
structure Partition where
  start : ℕ
  length : ℕ
  type : ℕ
  deriving DecidableEq, Repr

/-- Entry `i` of the table in a boot record. -/
def Sector.mbrEntry (mbr : Sector) (i : ℕ) : MbrEntry where
  type := (mbr.get (partition0Start + 16*i + 4)).toNat
  lbaStart := mbr.le32 (partition0Start + 16*i + 8)
  length := mbr.le32 (partition0Start + 16*i + 12)

def Sector.mbrEntries (mbr : Sector) : List MbrEntry := (List.range 4).map mbr.mbrEntry

namespace MbrEntry

def partition (e : MbrEntry) : Partition := ⟨e.lbaStart,e.length,e.type⟩

/-- The test of `read_partition_table`. -/
def accepted (e : MbrEntry) (volumeSize : ℕ) : Bool :=
  e.lbaStart < volumeSize && u32 (e.lbaStart + e.length) ≤ volumeSize && 0 < e.lbaStart && 0 < e.length

/-- The partition is not empty, leaves room for the boot record and ends within the device. -/
def inDevice (e : MbrEntry) (volumeSize : ℕ) : Bool :=
  0 < e.lbaStart && 0 < e.length && e.lbaStart + e.length ≤ volumeSize

/-- The partition starts within the device, and its end is not a 32 bit number. -/
def Overflows (e : MbrEntry) (volumeSize : ℕ) : Prop :=
  0 < e.lbaStart ∧ e.lbaStart < volumeSize ∧ 2^32 ≤ e.lbaStart + e.length

end MbrEntry

/-- The loop of `read_partition_table` over the entries `i, …, i+n-1`; `retval` is the static array. -/
def readPartitionLoop (mbr : Sector) (volumeSize : ℕ) :
    ℕ → ℕ → ℕ → (ℕ → Partition) → ℕ × (ℕ → Partition)
  | 0, _, j, retval => (j,retval)
  | n+1, i, j, retval =>
    let entry := mbr.mbrEntry i
    if entry.accepted volumeSize then
      readPartitionLoop mbr volumeSize n (i+1) (j+1) (Function.update retval j entry.partition)
    else readPartitionLoop mbr volumeSize n (i+1) j retval

/-- `read_partition_table`: the count and `*retlist`. -/
def readPartitionTable (mbr : Sector) (volumeSize : ℕ) (retval : ℕ → Partition) : ℕ × (ℕ → Partition) :=
  readPartitionLoop mbr volumeSize 4 0 0 retval

/-! ### What the loop collects -/

theorem map_range_update {α : Type} (f : ℕ → α) (j : ℕ) (a : α) :
    (List.range j).map (Function.update f j a) = (List.range j).map f := by
  apply List.map_congr_left
  intro k hk
  rw [Function.update_of_ne (List.mem_range.1 hk).ne]

/-- The accepted entries follow the elements that are already in the array. -/
theorem readPartitionLoop_list (mbr : Sector) (volumeSize n i j : ℕ) (retval : ℕ → Partition) :
    (List.range (readPartitionLoop mbr volumeSize n i j retval).1).map
        (readPartitionLoop mbr volumeSize n i j retval).2 =
      (List.range j).map retval ++
        (((List.range' i n).map mbr.mbrEntry).filter (·.accepted volumeSize)).map MbrEntry.partition := by
  induction n generalizing i j retval with
  | zero => simp [readPartitionLoop]
  | succ n ih =>
    rw [readPartitionLoop,List.range'_succ,List.map_cons]
    by_cases h : (mbr.mbrEntry i).accepted volumeSize = true
    · rw [if_pos h,ih,List.filter_cons,if_pos h,List.range_succ,List.map_append,map_range_update]
      simp
    · rw [if_neg h,ih,List.filter_cons,if_neg h]

theorem readPartitionTable_list (mbr : Sector) (volumeSize : ℕ) (retval : ℕ → Partition) :
    (List.range (readPartitionTable mbr volumeSize retval).1).map (readPartitionTable mbr volumeSize retval).2 =
      (mbr.mbrEntries.filter (·.accepted volumeSize)).map MbrEntry.partition := by
  rw [readPartitionTable,readPartitionLoop_list,List.range_zero,List.map_nil,List.nil_append,
    ← List.range_eq_range',Sector.mbrEntries]

/-! ### Which entries are accepted -/

namespace MbrEntry
variable {e : MbrEntry} {volumeSize : ℕ}

/-- Every partition within the device is accepted. -/
theorem accepted_of_inDevice (hv : volumeSize < 2^32) (h : e.inDevice volumeSize = true) :
    e.accepted volumeSize = true := by
  simp only [inDevice,Bool.and_eq_true,decide_eq_true_eq] at h
  simp only [accepted,Bool.and_eq_true,decide_eq_true_eq]
  rw [u32_of_lt (by omega)]
  omega

/-- What is accepted besides overflows. -/
theorem accepted_iff (hv : volumeSize < 2^32) (hstart : e.lbaStart < 2^32) (hlength : e.length < 2^32) :
    e.accepted volumeSize = true ↔ e.inDevice volumeSize = true ∨ e.Overflows volumeSize := by
  simp only [accepted,inDevice,Overflows,Bool.and_eq_true,decide_eq_true_eq]
  unfold u32
  omega

theorem not_inDevice_of_overflows (hv : volumeSize < 2^32) (h : e.Overflows volumeSize) :
    e.inDevice volumeSize = false := by
  unfold Overflows at h
  simp only [inDevice,Bool.and_eq_false_iff,decide_eq_false_iff_not]
  omega

end MbrEntry

theorem Sector.mbrEntry_lt {mbr : Sector} {e : MbrEntry} (h : e ∈ mbr.mbrEntries) :
    e.lbaStart < 2^32 ∧ e.length < 2^32 := by
  obtain ⟨i,-,rfl⟩ := List.mem_map.1 h
  exact ⟨le32_lt _ _,le32_lt _ _⟩

/-! ### Exactness -/

/-- The list of `j` partitions is that of the entries within the device, in their order. -/
structure TableExact (mbr : Sector) (volumeSize j : ℕ) (retlist : ℕ → Partition) : Prop where
  list : (List.range j).map retlist = (mbr.mbrEntries.filter (·.inDevice volumeSize)).map MbrEntry.partition
  inside : ∀ k < j, 0 < (retlist k).start ∧ 0 < (retlist k).length ∧
    (retlist k).start + (retlist k).length ≤ volumeSize

/-- A list with the right elements is exact. -/
theorem TableExact.of_list {mbr : Sector} {volumeSize j : ℕ} {retlist : ℕ → Partition}
    (h : (List.range j).map retlist =
      (mbr.mbrEntries.filter (·.inDevice volumeSize)).map MbrEntry.partition) :
    TableExact mbr volumeSize j retlist := by
  refine ⟨h,?_⟩
  intro k hk
  have hmem : retlist k ∈ (List.range j).map retlist := List.mem_map_of_mem (List.mem_range.2 hk)
  rw [h] at hmem
  obtain ⟨e,he,heq⟩ := List.mem_map.1 hmem
  have hin := (List.mem_filter.1 he).2
  simp only [MbrEntry.inDevice,Bool.and_eq_true,decide_eq_true_eq] at hin
  rw [← heq]
  exact ⟨hin.1.1,hin.1.2,hin.2⟩

/-- `read_partition_table` is exact when no entry that starts within the device ends beyond the 32 bit
numbers, and only then. -/
theorem readPartitionTable_exact_iff (mbr : Sector) {volumeSize : ℕ} (hv : volumeSize < 2^32)
    (retval : ℕ → Partition) :
    TableExact mbr volumeSize (readPartitionTable mbr volumeSize retval).1
        (readPartitionTable mbr volumeSize retval).2 ↔
      ∀ e ∈ mbr.mbrEntries, ¬ e.Overflows volumeSize := by
  have hlist := readPartitionTable_list mbr volumeSize retval
  -- the entries within the device are among the accepted ones
  have hboth : (mbr.mbrEntries.filter (·.accepted volumeSize)).filter (·.inDevice volumeSize) =
      mbr.mbrEntries.filter (·.inDevice volumeSize) := by
    rw [List.filter_filter]
    apply List.filter_congr
    intro e he
    cases hin : e.inDevice volumeSize with
    | false => rfl
    | true => rw [MbrEntry.accepted_of_inDevice hv hin]; rfl
  constructor
  · intro hexact e he hover
    have hsame := hexact.list
    rw [hlist,← hboth] at hsame
    have hlength := congrArg List.length hsame
    rw [List.length_map,List.length_map] at hlength
    have hall := List.length_filter_eq_length_iff.1 hlength.symm
    obtain ⟨hstart,hlen⟩ := Sector.mbrEntry_lt he
    have hin := hall e (List.mem_filter.2 ⟨he,(MbrEntry.accepted_iff hv hstart hlen).2 (.inr hover)⟩)
    rw [MbrEntry.not_inDevice_of_overflows hv hover] at hin
    exact absurd hin (by decide)
  · intro hnone
    apply TableExact.of_list
    rw [hlist,← hboth]
    congr 1
    symm
    apply List.filter_eq_self.2
    intro e he
    obtain ⟨he,hacc⟩ := List.mem_filter.1 he
    obtain ⟨hstart,hlen⟩ := Sector.mbrEntry_lt he
    exact ((MbrEntry.accepted_iff hv hstart hlen).1 hacc).resolve_right (hnone e he)

/-- A boot record whose first entry has this start and length. -/
def oneEntry (start length : ℕ) : Sector :=
  (Sector.zero.setLe32 (partition0Start + 8) start).setLe32 (partition0Start + 12) length

/-- A table with one small partition is read exactly. -/
theorem readPartitionTable_exact_small : TableExact (oneEntry 63 37) 100
    (readPartitionTable (oneEntry 63 37) 100 fun _ => ⟨0,0,0⟩).1
    (readPartitionTable (oneEntry 63 37) 100 fun _ => ⟨0,0,0⟩).2 :=
  (readPartitionTable_exact_iff (oneEntry 63 37) (by decide) _).2
    (by unfold MbrEntry.Overflows; decide +kernel)

/-- A partition of more than four thousand million blocks is returned for a device of a hundred. -/
theorem readPartitionTable_wraps : ¬ TableExact (oneEntry 16 0xFFFFFFF8) 100
    (readPartitionTable (oneEntry 16 0xFFFFFFF8) 100 fun _ => ⟨0,0,0⟩).1
    (readPartitionTable (oneEntry 16 0xFFFFFFF8) 100 fun _ => ⟨0,0,0⟩).2 := by
  intro h
  exact absurd (h.inside 0 (by decide +kernel)).2.2 (by decide +kernel)

end Gristle
