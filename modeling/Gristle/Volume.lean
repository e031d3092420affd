import Gristle.Run
import Gristle.Lib.Chain

/-! The layout of a volume: where the entries of the file allocation table and the sectors of a
cluster lie, and the table as a function from clusters to entries. -/
namespace Gristle

namespace FatInfo

/-- The number of entries of the table. -/
def entries (g : FatInfo) : ℕ := g.sectorsPerFat * g.perBlock

/-- The first sector of the data area, that of cluster 2. -/
def dataStart (g : FatInfo) : ℕ := u32 (g.cluster0 + 2 * g.sectorsPerCluster)

/-- What `fat_mount_fat16` stores besides the layout. -/
structure IsFat16 (g : FatInfo) : Prop where
  type : g.type = partTypeFat16
  len : g.fatEntryLen = 2
  marker : g.endClusterMarker = 0xFFF0
  root : g.rootCluster = 1
  width : g.entries ≤ 2^16
  rootLen : 0 < g.rootLen
  table : g.activeFatStart + g.sectorsPerFat ≤ g.rootStart
  fixed : g.rootStart + g.rootLen ≤ g.dataStart

/-- What `fat_mount_fat32` stores besides the layout. -/
structure IsFat32 (g : FatInfo) : Prop where
  type : g.type = partTypeFat32
  len : g.fatEntryLen = 4
  marker : g.endClusterMarker = 0xFFFFFF0
  root : 2 ≤ g.rootCluster
  width : g.entries ≤ 2^28
  table : g.activeFatStart + g.sectorsPerFat ≤ g.dataStart

/-- The two kinds of table. -/
def Kind (g : FatInfo) : Prop :=
  g.type = partTypeFat16 ∧ g.fatEntryLen = 2 ∧ g.endClusterMarker = 0xFFF0 ∨
    g.type = partTypeFat32 ∧ g.fatEntryLen = 4 ∧ g.endClusterMarker = 0xFFFFFF0

/-- A table whose blocks lie on a device of `size` blocks. -/
structure Table (g : FatInfo) (size : ℕ) : Prop where
  kind : g.Kind
  width : g.entries ≤ 2^28
  inside : g.activeFatStart + g.sectorsPerFat ≤ size
  last : g.activeFatStart + g.sectorsPerFat < 2^32

/-- The table, the fixed root and the data area follow each other, and every cluster with an entry
lies on a device of `size` blocks. -/
structure Valid (g : FatInfo) (size : ℕ) : Prop where
  kind : g.IsFat16 ∨ g.IsFat32
  spc : ∃ k ≤ 7, g.sectorsPerCluster = 2^k
  fatPos : 0 < g.activeFatStart
  fatLen : 0 < g.sectorsPerFat
  cluster0 : g.cluster0 < 2^32
  data : g.dataStart + (g.entries - 2) * g.sectorsPerCluster ≤ size
  size : size ≤ 2^32

/-- The numbers of clusters with an entry and sectors. -/
def InRange (g : FatInfo) (c : ℕ) : Prop := 2 ≤ c ∧ c < g.entries

instance (g : FatInfo) (c : ℕ) : Decidable (g.InRange c) := inferInstanceAs (Decidable (_ ∧ _))

/-- Sector `j` of a cluster. -/
def clusterSector (g : FatInfo) (c j : ℕ) : ℕ := g.dataStart + (c - 2) * g.sectorsPerCluster + j

/-! ### Where an entry lies -/

theorem Kind.entryLen {g : FatInfo} (hg : g.Kind) : g.fatEntryLen = 2 ∨ g.fatEntryLen = 4 :=
  hg.imp (fun h => h.2.1) fun h => h.2.1

namespace Table
variable {g : FatInfo} {size : ℕ} (hg : g.Table size)
include hg

theorem perBlock_mul : g.perBlock * g.fatEntryLen = 512 := by
  unfold perBlock
  rcases hg.kind.entryLen with h | h <;> rw [h]
  · rfl
  · rfl

theorem perBlock_cases : g.perBlock = 256 ∧ g.fatEntryLen = 2 ∨ g.perBlock = 128 ∧ g.fatEntryLen = 4 := by
  unfold perBlock
  rcases hg.kind.entryLen with h | h <;> rw [h] <;> decide

theorem perBlock_pos : 0 < g.perBlock := by
  rcases hg.perBlock_cases with ⟨h,-⟩ | ⟨h,-⟩ <;> omega

theorem entries_bytes : g.entries * g.fatEntryLen ≤ 2^30 := by
  have hwidth := hg.width
  rcases hg.kind.entryLen with h | h <;> rw [h] <;> omega

theorem entry_bytes {c : ℕ} (hc : c < g.entries) : u32 (c * g.fatEntryLen) = c * g.fatEntryLen := by
  apply u32_of_lt
  have := hg.entries_bytes
  have := Nat.mul_le_mul hc.le (Nat.le_refl g.fatEntryLen)
  omega

theorem entryBlock_eq {c : ℕ} (hc : c < g.entries) :
    g.entryBlock c = g.activeFatStart + c / g.perBlock := by
  have hdiv : c * g.fatEntryLen / 512 = c / g.perBlock := by
    rw [← hg.perBlock_mul,Nat.mul_div_mul_right _ _ (by rcases hg.kind.entryLen with h | h <;> omega)]
  have hlt : c / g.perBlock < g.sectorsPerFat := Nat.div_lt_of_lt_mul (by rwa [Nat.mul_comm])
  have hlast := hg.last
  rw [entryBlock,hg.entry_bytes hc,hdiv,Nat.add_comm]
  exact u32_of_lt (by omega)

theorem entryOffset_eq {c : ℕ} (hc : c < g.entries) :
    g.entryOffset c = c % g.perBlock * g.fatEntryLen := by
  rw [entryOffset,hg.entry_bytes hc]
  change c * g.fatEntryLen % 512 = _
  rw [← hg.perBlock_mul,Nat.mul_mod_mul_right]

/-- The blocks of the table. -/
theorem entryBlock_mem {c : ℕ} (hc : c < g.entries) : g.activeFatStart ≤ g.entryBlock c ∧
    g.entryBlock c < g.activeFatStart + g.sectorsPerFat := by
  have hlt : c / g.perBlock < g.sectorsPerFat := Nat.div_lt_of_lt_mul (by rwa [Nat.mul_comm])
  rw [hg.entryBlock_eq hc]
  exact ⟨Nat.le_add_right _ _,Nat.add_lt_add_left hlt _⟩

theorem entryOffset_le {c : ℕ} (hc : c < g.entries) : g.entryOffset c + g.fatEntryLen ≤ 512 := by
  have hmod := Nat.mod_lt c hg.perBlock_pos
  have h := Nat.mul_le_mul (Nat.succ_le_of_lt hmod) (Nat.le_refl g.fatEntryLen)
  rw [hg.perBlock_mul,Nat.succ_mul] at h
  rw [hg.entryOffset_eq hc]
  exact h

/-- Entries of different clusters do not overlap. -/
theorem entry_apart {c d : ℕ} (hc : c < g.entries) (hd : d < g.entries) (h : c ≠ d)
    (hb : g.entryBlock c = g.entryBlock d) :
    g.entryOffset d + g.fatEntryLen ≤ g.entryOffset c ∨
      g.entryOffset c + g.fatEntryLen ≤ g.entryOffset d := by
  rw [hg.entryBlock_eq hc,hg.entryBlock_eq hd] at hb
  rw [hg.entryOffset_eq hc,hg.entryOffset_eq hd]
  have hmod : c % g.perBlock ≠ d % g.perBlock := fun he => h (by
    rw [← Nat.div_add_mod c g.perBlock,← Nat.div_add_mod d g.perBlock,he,
      show c / g.perBlock = d / g.perBlock by omega])
  rcases Nat.lt_or_gt_of_ne hmod with hlt | hlt
  · right
    have := Nat.mul_le_mul (Nat.succ_le_of_lt hlt) (Nat.le_refl g.fatEntryLen)
    rwa [Nat.succ_mul] at this
  · left
    have := Nat.mul_le_mul (Nat.succ_le_of_lt hlt) (Nat.le_refl g.fatEntryLen)
    rwa [Nat.succ_mul] at this

end Table

/-! ### Where a cluster lies -/

namespace Valid
variable {g : FatInfo} {size : ℕ} (hg : g.Valid size)
include hg

theorem spc_pos : 0 < g.sectorsPerCluster := by
  obtain ⟨k,-,hk⟩ := hg.spc
  rw [hk]
  exact Nat.two_pow_pos k

theorem spc_le : g.sectorsPerCluster ≤ 128 := by
  obtain ⟨k,hk,h⟩ := hg.spc
  rw [h]
  exact Nat.pow_le_pow_right (by decide) hk

theorem entries_ge : 128 ≤ g.entries := by
  have h := Nat.mul_le_mul hg.fatLen (Nat.le_refl g.perBlock)
  have hp : 128 ≤ g.perBlock := by
    unfold perBlock
    rcases hg.kind with hk | hk <;> rw [hk.len] <;> decide
  unfold entries
  omega

theorem entries_le : g.entries ≤ 2^28 := by
  rcases hg.kind with h | h
  · have := h.width
    omega
  · exact h.width

theorem table_le : g.activeFatStart + g.sectorsPerFat ≤ g.dataStart := by
  rcases hg.kind with h | h
  · have := h.table
    have := h.fixed
    omega
  · exact h.table

theorem dataStart_lt : g.dataStart < size := by
  have h := hg.data
  have hpos : 0 < (g.entries - 2) * g.sectorsPerCluster :=
    Nat.mul_pos (by have := hg.entries_ge; omega) hg.spc_pos
  omega

theorem table : g.Table size where
  kind := hg.kind.imp (fun h => ⟨h.type,h.len,h.marker⟩) fun h => ⟨h.type,h.len,h.marker⟩
  width := hg.entries_le
  inside := by
    have := hg.table_le
    have := hg.dataStart_lt
    omega
  last := by
    have := hg.table_le
    have := hg.dataStart_lt
    have := hg.size
    omega

theorem entryBlock_lt {c : ℕ} (hc : c < g.entries) : g.entryBlock c < g.dataStart :=
  Nat.lt_of_lt_of_le (hg.table.entryBlock_mem hc).2 hg.table_le

theorem clusterSector_lt {c j : ℕ} (hc : g.InRange c) (hj : j < g.sectorsPerCluster) :
    g.clusterSector c j < size := by
  have h := hg.data
  obtain ⟨h₂,hlt⟩ := hc
  have hm := Nat.mul_le_mul (show c - 2 + 1 ≤ g.entries - 2 by omega) (Nat.le_refl g.sectorsPerCluster)
  rw [Nat.succ_mul] at hm
  unfold clusterSector
  omega

omit hg in
theorem dataStart_le (c j : ℕ) : g.dataStart ≤ g.clusterSector c j := by
  unfold clusterSector
  omega

theorem firstSector_eq {c : ℕ} (hc : g.InRange c) : g.firstSector c = g.clusterSector c 0 := by
  have hlt := hg.clusterSector_lt hc hg.spc_pos
  have hsize := hg.size
  obtain ⟨c,rfl⟩ := Nat.exists_eq_add_of_le' hc.1
  unfold clusterSector dataStart u32 at hlt ⊢
  unfold firstSector u32
  rw [Nat.add_sub_cancel] at hlt ⊢
  rw [Nat.add_mul]
  generalize c * g.sectorsPerCluster = x at hlt ⊢
  omega

/-- Different sectors of clusters are different blocks. -/
theorem clusterSector_inj {c d i j : ℕ} (hc : g.InRange c) (hd : g.InRange d)
    (hi : i < g.sectorsPerCluster) (hj : j < g.sectorsPerCluster)
    (h : g.clusterSector c i = g.clusterSector d j) : c = d ∧ i = j := by
  unfold clusterSector at h
  have h₁ : (c - 2) * g.sectorsPerCluster + i = (d - 2) * g.sectorsPerCluster + j := by omega
  have hdiv (q r : ℕ) (hr : r < g.sectorsPerCluster) :
      (q * g.sectorsPerCluster + r) / g.sectorsPerCluster = q := by
    rw [Nat.mul_comm,Nat.mul_add_div hg.spc_pos,Nat.div_eq_of_lt hr,Nat.add_zero]
  have hq : c - 2 = d - 2 := by rw [← hdiv (c-2) i hi,h₁,hdiv (d-2) j hj]
  have hc₂ := hc.1
  have hd₂ := hd.1
  rw [hq] at h₁
  exact ⟨by omega,by omega⟩

end Valid

/-! ### The table as a function -/

/-- The entry of a cluster. -/
def entry (g : FatInfo) (blocks : ℕ → Sector) (c : ℕ) : ℕ :=
  g.entryAt (blocks (g.entryBlock c)) (g.entryOffset c)

/-- The medium with the entry of a cluster replaced. -/
def setEntry (g : FatInfo) (blocks : ℕ → Sector) (c v : ℕ) : ℕ → Sector :=
  Function.update blocks (g.entryBlock c)
    (g.setLink (blocks (g.entryBlock c)) (g.entryOffset c) v)

/-- The value that ends a chain. -/
def endMark (g : FatInfo) : ℕ := if g.type = partTypeFat16 then 0xFFF8 else 0x0FFFFFF8

/-- The cluster behind a cluster, if its entry does not end the chain. -/
def next (g : FatInfo) (blocks : ℕ → Sector) (c : ℕ) : Option ℕ :=
  if g.endClusterMarker ≤ g.entry blocks c then none else some (g.entry blocks c)

/-- A terminated chain of clusters with an entry. -/
structure Chain (g : FatInfo) (blocks : ℕ → Sector) (c : ℕ) (cs : List ℕ) : Prop where
  links : ChainFrom (g.next blocks) c cs
  inRange : ∀ d ∈ cs, g.InRange d

theorem markEnd_eq (g : FatInfo) (b : Sector) (off : ℕ) : g.markEnd b off = g.setLink b off g.endMark := by
  unfold markEnd setLink endMark
  split <;> rfl

namespace Kind
variable {g : FatInfo} (hg : g.Kind)
include hg

theorem clearEntry_eq (b : Sector) (off : ℕ) : g.clearEntry b off = g.setLink b off 0 := by
  unfold clearEntry setLink
  rcases hg with ⟨h,-⟩ | ⟨h,-⟩ <;> rw [h]
  · rfl
  · rfl

theorem entryAt_setLink (b : Sector) {off v : ℕ} (hoff : off + g.fatEntryLen ≤ 512)
    (hv : v < 2^(8 * g.fatEntryLen)) : g.entryAt (g.setLink b off v) off = v := by
  unfold entryAt setLink
  rcases hg with ⟨h,hlen,-⟩ | ⟨h,hlen,-⟩ <;> rw [h] <;> rw [hlen] at hoff hv
  · rw [if_neg (by decide),if_pos rfl,Sector.le16_setLe16 _ _ _ (by change off + 1 < 512; omega)]
    exact Nat.mod_eq_of_lt hv
  · rw [if_pos rfl,if_neg (by decide),Sector.le32_setLe32 _ _ _ (by change off + 3 < 512; omega)]
    exact Nat.mod_eq_of_lt hv

theorem entryAt_setLink_of_apart (b : Sector) {off off' v : ℕ} (hoff : off + g.fatEntryLen ≤ 512)
    (h : off' + g.fatEntryLen ≤ off ∨ off + g.fatEntryLen ≤ off') :
    g.entryAt (g.setLink b off v) off' = g.entryAt b off' := by
  unfold entryAt setLink
  rcases hg with ⟨hk,hlen,-⟩ | ⟨hk,hlen,-⟩ <;> rw [hk] <;> rw [hlen] at hoff h
  · rw [if_neg (by decide),if_pos rfl,if_neg (by decide)]
    exact Sector.le16_setLe16_of_ne _ _ _ _ (by change off + 1 < 512; omega) (by omega)
  · rw [if_pos rfl,if_neg (by decide),if_pos rfl]
    exact Sector.le32_setLe32_of_ne _ _ _ _ (by change off + 3 < 512; omega) (by omega)

theorem endMark_lt : g.endMark < 2^(8 * g.fatEntryLen) := by
  unfold endMark
  rcases hg with ⟨h,hlen,-⟩ | ⟨h,hlen,-⟩ <;> rw [h,hlen] <;> decide

theorem marker_le_endMark : g.endClusterMarker ≤ g.endMark := by
  unfold endMark
  rcases hg with ⟨h,-,hm⟩ | ⟨h,-,hm⟩ <;> rw [h,hm] <;> decide

theorem marker_pos : 2 < g.endClusterMarker := by
  rcases hg with ⟨-,-,hm⟩ | ⟨-,-,hm⟩ <;> rw [hm] <;> decide

theorem marker_lt : g.endClusterMarker < 2^31 := by
  rcases hg with ⟨-,-,hm⟩ | ⟨-,-,hm⟩ <;> rw [hm] <;> decide

end Kind

namespace Table
variable {g : FatInfo} {size : ℕ} (hg : g.Table size)
include hg

theorem entry_setEntry (blocks : ℕ → Sector) {c v : ℕ} (hc : c < g.entries)
    (hv : v < 2^(8 * g.fatEntryLen)) : g.entry (g.setEntry blocks c v) c = v := by
  rw [entry,setEntry,Function.update_self,hg.kind.entryAt_setLink _ (hg.entryOffset_le hc) hv]

theorem entry_setEntry_of_ne (blocks : ℕ → Sector) {c d v : ℕ} (hc : c < g.entries)
    (hd : d < g.entries) (h : d ≠ c) : g.entry (g.setEntry blocks c v) d = g.entry blocks d := by
  unfold entry setEntry
  by_cases hb : g.entryBlock d = g.entryBlock c
  · rw [hb,Function.update_self]
    exact hg.kind.entryAt_setLink_of_apart _ (hg.entryOffset_le hc)
      (hg.entry_apart hc hd h.symm hb.symm)
  · rw [Function.update_of_ne hb]

/-- Outside the table nothing changes. -/
theorem setEntry_apply (blocks : ℕ → Sector) {c v b : ℕ} (hc : c < g.entries)
    (hb : b < g.activeFatStart ∨ g.activeFatStart + g.sectorsPerFat ≤ b) :
    g.setEntry blocks c v b = blocks b := by
  have := hg.entryBlock_mem hc
  exact Function.update_of_ne (by omega) _ _

/-- Only the blocks of the table matter for its entries. -/
theorem entry_congr {blocks blocks' : ℕ → Sector} {c : ℕ} (hc : c < g.entries)
    (h : ∀ b, g.activeFatStart ≤ b → b < g.activeFatStart + g.sectorsPerFat → blocks' b = blocks b) :
    g.entry blocks' c = g.entry blocks c := by
  have := hg.entryBlock_mem hc
  rw [entry,entry,h _ this.1 this.2]

end Table

/-- A cluster number fits an entry. -/
theorem Valid.cluster_lt {g : FatInfo} {size : ℕ} (hg : g.Valid size) {c : ℕ} (hc : c < g.entries) : c < 2^(8 * g.fatEntryLen) := by
  rcases hg.kind with h | h
  · have := h.width
    rw [h.len]
    omega
  · have := h.width
    rw [h.len]
    omega


end FatInfo

/-! ### A small FAT16 volume -/

/-- One block of table, one of root directory, clusters of one sector. -/
def smallFat16 : FatInfo where
  readOnly := 0
  fatEntryLen := 2
  endClusterMarker := 0xFFF0
  sectorsPerCluster := 1
  cluster0 := 1
  activeFatStart := 1
  sectorsPerFat := 1
  rootLen := 1
  rootStart := 2
  rootCluster := 1
  type := partTypeFat16
  partStart := 0
  totalSectors := 300

theorem smallFat16_valid : smallFat16.Valid 300 where
  kind := .inl ⟨rfl,rfl,rfl,rfl,by decide,by decide,by decide,by decide⟩
  spc := ⟨0,by decide,rfl⟩
  fatPos := by decide
  fatLen := by decide
  cluster0 := by decide
  data := by decide
  size := by decide

/-- A slot of the table that is not in use. -/
def FileS.closed : FileS where
  flags := .none
  buffer := .zero
  sector := 0
  cluster := 0
  sectorsLeft := 0
  cursor := 0
  error := 0
  filename _ := 0
  extension _ := 0
  attributes := 0
  size := 0
  fullFirstCluster := 0
  entrySector := 0
  entryNumber := 0
  parentCluster := 0
  fileSector := 0
  created := 0
  modified := 0
  accessed := 0

/-- The driver after mounting a device with these blocks. -/
def FatState.mounted (g : FatInfo) (size : ℕ) (blocks : ℕ → Sector) : FatState where
  dev := { blocks := blocks, size := size, tick := 0, trace := [] }
  fatfs := g
  sysbuf := .zero
  fileNum _ := .closed

/-- The small volume with the file `/AB.TXT` of five bytes in cluster 2. -/
def oneFile : ℕ → Sector
  | 1 => Sector.ofBytes [0xF8,0xFF,0xFF,0xFF,0xFF,0xFF]
  | 2 => Sector.ofBytes [0x41,0x42,0x20,0x20,0x20,0x20,0x20,0x20,0x54,0x58,0x54,0x20,
      0,0,0,0,0,0,0,0,0,0,0,0,0,0,2,0,5,0,0,0]
  | _ => Sector.zero

/-- `"/AB.TXT"` -/
def oneFilePath : List UInt8 := [0x2F,0x41,0x42,0x2E,0x54,0x58,0x54]

/-- Surroundings without faults in which every time is `now`. -/
def Env.calm (now : ℕ → ℤ) (fuel : ℕ) : Env where
  clock := now
  gmtime t := ⟨t,0,1,0,0,0⟩
  mktime t := t.tmYear
  readFails _ := false
  writeFails _ := false
  lockRefused _ := false
  junk _ _ := 0
  deviceReadOnly := 0
  fuel := fuel

end Gristle
