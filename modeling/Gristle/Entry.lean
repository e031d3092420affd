import Gristle.Run

/-! Directory entries inside a block: what a slot holds after an entry was stored in it or in
another slot. -/
namespace Gristle

/-! ### Storing an entry -/

theorem get_setDirent (b : Sector) (i k : ℕ) (d : DirentS) (hi : i < 16) (hk : k < 32) :
    (b.setDirent i d).get (32*i + k) = d.byte k := by
  have hb : 32*i ≤ 32*i + k ∧ 32*i + k < 32*i + 32 ∧ 32*i + k < 512 := by omega
  rw [Sector.setDirent,Sector.get_splice,if_pos hb,Nat.add_sub_cancel_left]

theorem get_setDirent_of_ne (b : Sector) (i j : ℕ) (d : DirentS) (hj : j < 32*i ∨ 32*i + 32 ≤ j) :
    (b.setDirent i d).get j = b.get j := by
  rw [Sector.setDirent,Sector.get_splice,if_neg (by omega)]

/-- Slots are equal when their bytes are. -/
theorem dirent_congr {b c : Sector} {i j : ℕ} (h : ∀ k < 32, b.get (32*i + k) = c.get (32*j + k)) :
    b.dirent i = c.dirent j := by
  have h16 (k : ℕ) (hk : k + 1 < 32) : b.le16 (32*i + k) = c.le16 (32*j + k) := by
    rw [Sector.le16,Sector.le16,h k (by omega),Nat.add_assoc,Nat.add_assoc,h (k+1) hk]
  have h32 : b.le32 (32*i + 28) = c.le32 (32*j + 28) := by
    rw [Sector.le32,Sector.le32,Nat.add_assoc,Nat.add_assoc,h16 28 (by omega),h16 (28+2) (by omega)]
  have hext (k : Fin 3) : b.get (32*i + 8 + k) = c.get (32*j + 8 + k) := by
    rw [Nat.add_assoc,Nat.add_assoc,h (8+k) (by omega)]
  have hname (k : Fin 8) : b.get (32*i + k) = c.get (32*j + k) := h k (by omega)
  simp only [Sector.dirent,hname,hext,h 11 (by omega),h 12 (by omega),h 13 (by omega),h16 14 (by omega),
    h16 16 (by omega),h16 18 (by omega),h16 20 (by omega),h16 22 (by omega),h16 24 (by omega),
    h16 26 (by omega),h32]

/-- The other slots of the block keep their entries. -/
theorem dirent_setDirent_of_ne (b : Sector) {i j : ℕ} (d : DirentS) (hj : j ≠ i) :
    (b.setDirent i d).dirent j = b.dirent j :=
  dirent_congr fun k hk => get_setDirent_of_ne _ _ _ _ (by omega)

/-- What an entry is once it has gone through its 32 bytes. -/
def DirentS.stored (d : DirentS) : DirentS :=
  { d with
    createTimeFine := d.createTimeFine % 2^8
    createTime := d.createTime % 2^16
    createDate := d.createDate % 2^16
    accessDate := d.accessDate % 2^16
    highFirstCluster := d.highFirstCluster % 2^16
    modifiedTime := d.modifiedTime % 2^16
    modifiedDate := d.modifiedDate % 2^16
    firstCluster := d.firstCluster % 2^16
    size := d.size % 2^32 }

theorem ofNat_two_bytes (v : ℕ) :
    (UInt8.ofNat v).toNat + (UInt8.ofNat (v / 2^8)).toNat * 2^8 = v % 2^16 := by
  simp only [UInt8.toNat_ofNat']
  omega

theorem ofNat_four_bytes (v : ℕ) :
    (UInt8.ofNat v).toNat + (UInt8.ofNat (v / 2^8)).toNat * 2^8 +
      ((UInt8.ofNat (v / 2^16)).toNat + (UInt8.ofNat (v / 2^24)).toNat * 2^8) * 2^16 = v % 2^32 := by
  simp only [UInt8.toNat_ofNat']
  omega

theorem dirent_setDirent (b : Sector) {i : ℕ} (d : DirentS) (hi : i < 16) :
    (b.setDirent i d).dirent i = d.stored := by
  have h (k : ℕ) (hk : k < 32) := get_setDirent b i k d hi hk
  have h16 (k v : ℕ) (hk : k + 1 < 32) (h₀ : d.byte k = UInt8.ofNat v)
      (h₁ : d.byte (k+1) = UInt8.ofNat (v / 2^8)) :
      (b.setDirent i d).le16 (32*i + k) = v % 2^16 := by
    rw [Sector.le16,h k (by omega),Nat.add_assoc,h (k+1) hk,h₀,h₁,ofNat_two_bytes]
  have h32 : (b.setDirent i d).le32 (32*i + 28) = d.size % 2^32 := by
    have h₁ : (b.setDirent i d).get (32*i + 28 + 1) = UInt8.ofNat (d.size / 2^8) := h 29 (by omega)
    have h₂ : (b.setDirent i d).get (32*i + 28 + 2) = UInt8.ofNat (d.size / 2^16) := h 30 (by omega)
    have h₃ : (b.setDirent i d).get (32*i + 28 + 2 + 1) = UInt8.ofNat (d.size / 2^24) :=
      h 31 (by omega)
    have h₀ : (b.setDirent i d).get (32*i + 28) = UInt8.ofNat d.size := h 28 (by omega)
    rw [Sector.le32,Sector.le16,Sector.le16,h₀,h₁,h₂,h₃,ofNat_four_bytes]
  have hname (k : Fin 8) : (b.setDirent i d).get (32*i + k) = d.filename k := by
    rw [h k (by omega),DirentS.byte,dif_pos k.isLt]
  have hext (k : Fin 3) : (b.setDirent i d).get (32*i + 8 + k) = d.extension k := by
    rw [Nat.add_assoc,h (8+k) (by omega),DirentS.byte,dif_neg (by omega),dif_pos (by omega)]
    congr 1
    exact Fin.ext (by simp)
  have h13 : ((b.setDirent i d).get (32*i + 13)).toNat = d.createTimeFine % 2^8 := by
    rw [h 13 (by omega)]
    exact UInt8.toNat_ofNat'
  simp only [Sector.dirent,DirentS.stored,hname,hext,h 11 (by omega),h 12 (by omega),h13,h32,
    h16 14 d.createTime (by omega) rfl rfl,h16 16 d.createDate (by omega) rfl rfl,
    h16 18 d.accessDate (by omega) rfl rfl,h16 20 d.highFirstCluster (by omega) rfl rfl,
    h16 22 d.modifiedTime (by omega) rfl rfl,h16 24 d.modifiedDate (by omega) rfl rfl,
    h16 26 d.firstCluster (by omega) rfl rfl]
  rfl

/-! ### Bounds on what is read -/

theorem dirent_size_lt (b : Sector) (i : ℕ) : (b.dirent i).size < 2^32 := b.le32_lt _

theorem dirent_cluster_lt (b : Sector) (i : ℕ) (g : FatInfo) : (b.dirent i).cluster g < 2^32 := by
  have h₀ : (b.dirent i).firstCluster < 2^16 := b.le16_lt _
  have h₁ : (b.dirent i).highFirstCluster < 2^16 := b.le16_lt _
  unfold DirentS.cluster
  split <;> omega

theorem dirent_cluster_lt_fat16 (b : Sector) (i : ℕ) {g : FatInfo} (hg : g.type = partTypeFat16) :
    (b.dirent i).cluster g < 2^16 := by
  rw [DirentS.cluster,if_pos hg]
  exact b.le16_lt _

/-- A cluster number that fits the volume survives being split over two fields. -/
theorem cluster_toDirent_stored (E : Env) (g : FatInfo) (f : FileS) (reserved : UInt8)
    (h : f.fullFirstCluster < 2^32) (h16 : g.type = partTypeFat16 → f.fullFirstCluster < 2^16) :
    (f.toDirent E reserved).stored.cluster g = f.fullFirstCluster := by
  unfold DirentS.cluster
  simp only [DirentS.stored,FileS.toDirent]
  split
  · have := h16 ‹_›
    omega
  · omega

end Gristle
