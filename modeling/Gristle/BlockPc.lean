import Gristle.Block
import Gristle.Md5

/-! The block driver for image files on a PC. It bounds an access in `uint32_t` arithmetic; stated
here is for which block numbers that bound is the exact one. -/
namespace Gristle

/-- The image that `block_init` read into memory, of less than 2 GiB. -/
structure PcImage where
  size : ℕ
  small : size < 2048 * 1024 * 1024
  bytes : ℕ → UInt8

namespace PcImage

/-- `block_init` with the content of the image file; nothing when the file does not open or is too
large. -/
def blockInit (file : Option (List UInt8)) : Option PcImage :=
  file.bind fun content =>
    if h : content.length < 2048 * 1024 * 1024 then
      some { size := content.length, small := h, bytes := fun i => content.getD i 0 }
    else none

/-- `(block+1) * BLOCK_SIZE - 1 > block_fs_size` -/
def refuses (image : PcImage) (block : UInt32) : Prop :=
  image.size < ((block+1) * 512 - 1).toNat

instance (image : PcImage) (block : UInt32) : Decidable (image.refuses block) :=
  inferInstanceAs (Decidable (_ < _))

/-- The index in `blocks` that a transfer starts at. -/
def offset (block : UInt32) : ℕ := (block * 512).toNat

/-- `memcpy` of 512 bytes from or to the image has no defined behaviour outside of it. -/
def inside (image : PcImage) (block : UInt32) : Prop := offset block + blockSize ≤ image.size

instance (image : PcImage) (block : UInt32) : Decidable (image.inside block) :=
  inferInstanceAs (Decidable (_ ≤ _))

def load (image : PcImage) (p : ℕ) : Sector := fun i => image.bytes (p + i)

def store (image : PcImage) (p : ℕ) (buffer : Sector) : PcImage :=
  { image with bytes := fun j => if p ≤ j ∧ j < p + blockSize then buffer.get (j-p) else image.bytes j }

/-- `block_read`: the block, or nothing for the result -1. -/
def blockRead (block : UInt32) : Prog PcImage (Option Sector) := fun image =>
  if image.refuses block then .ok (none,image)
  else if image.inside block then .ok (some (image.load (offset block)),image)
  else .error .undefined

/-- `block_write`; `true` is the result -1. -/
def blockWrite (block : UInt32) (buffer : Sector) : Prog PcImage Bool := fun image =>
  if image.refuses block then .ok (true,image)
  else if image.inside block then .ok (false,image.store (offset block) buffer)
  else .error .undefined

/-- `block_get_volume_size` -/
def volumeSize (image : PcImage) : ℕ := u32 (image.size / blockSize)

/-- `block_pc_hash_all` -/
def hashAll (context : Md5.MdContext) (image : PcImage) : List.Vector UInt8 16 :=
  Md5.md5Memory context ((List.range image.size).map image.bytes)

/-! ### The bound -/

/-- Access to the block is bounded as it should be: the last byte of a block that is too large to be
on the image does not fall on it modulo 2^32, and the image does not end on the last byte of this
block. -/
def Sane (size : ℕ) (block : UInt32) : Prop :=
  if block.toNat < 2^23 then size ≠ block.toNat * 512 + 511
  else size < block.toNat % 2^23 * 512 + 511

instance (size : ℕ) (block : UInt32) : Decidable (Sane size block) := by
  unfold Sane
  infer_instance

theorem offset_eq (block : UInt32) : offset block = block.toNat % 2^23 * 512 := by
  have h := UInt32.toNat_mul block 512
  rw [offset,h]
  simp only [UInt32.reduceToNat]
  omega

theorem refuses_iff (image : PcImage) (block : UInt32) :
    image.refuses block ↔ image.size < block.toNat % 2^23 * 512 + 511 := by
  have hsmall := image.small
  have hlt := block.toNat_lt
  have hsub := UInt32.toNat_sub ((block+1) * 512) 1
  rw [UInt32.toNat_mul,UInt32.toNat_add] at hsub
  simp only [UInt32.reduceToNat] at hsub
  rw [refuses,hsub]
  omega

theorem volumeSize_eq (image : PcImage) : image.volumeSize = image.size / 512 := by
  have hsmall := image.small
  exact u32_of_lt (by simp only [blockSize]; omega)

/-- Reading and writing succeed exactly for the blocks of the volume, and touch the bytes
`512*b .. 512*b+511`. -/
structure Exact (image : PcImage) (block : UInt32) : Prop where
  read : blockRead block image = if block.toNat < image.volumeSize
    then .ok (some (image.load (block.toNat * 512)),image) else .ok (none,image)
  write : ∀ buffer, blockWrite block buffer image = if block.toNat < image.volumeSize
    then .ok (false,image.store (block.toNat * 512) buffer) else .ok (true,image)

/-- What is written to the block is read back from it, and another block keeps its content. -/
def Apart (image : PcImage) (block other : UInt32) : Prop :=
  ∀ buffer image', blockWrite block buffer image = .ok (false,image') →
    blockRead block image' = .ok (some buffer,image') ∧
      (block ≠ other → (blockRead other image').map Prod.fst = (blockRead other image).map Prod.fst)

/-- Where the bound is sane, the block is refused exactly when it is not on the volume. -/
theorem Sane.refuses_iff {image : PcImage} {block : UInt32} (h : Sane image.size block) :
    image.refuses block ↔ ¬ block.toNat < image.volumeSize := by
  rw [PcImage.refuses_iff,volumeSize_eq]
  have hsmall := image.small
  rw [Sane] at h
  split at h <;> omega

theorem offset_of_lt {image : PcImage} {block : UInt32} (hb : block.toNat < image.volumeSize) :
    offset block = block.toNat * 512 := by
  have hsmall := image.small
  rw [volumeSize_eq] at hb
  rw [PcImage.offset_eq]
  omega

theorem inside_of_lt {image : PcImage} {block : UInt32} (hb : block.toNat < image.volumeSize) :
    image.inside block := by
  rw [inside,offset_of_lt hb]
  rw [volumeSize_eq] at hb
  simp only [blockSize]
  omega

/-- The driver bounds accesses to a block exactly if and only if its bound is sane there. -/
theorem exact_iff (image : PcImage) (block : UInt32) : Exact image block ↔ Sane image.size block := by
  constructor
  · intro h
    by_contra hsane
    have hread := h.read
    have hsmall := image.small
    have haccepts : ¬ image.refuses block := by
      rw [refuses_iff]
      rw [Sane] at hsane
      split at hsane <;> omega
    have hbeyond : ¬ block.toNat < image.volumeSize := by
      rw [volumeSize_eq]
      rw [Sane] at hsane
      split at hsane <;> omega
    rw [blockRead,if_neg haccepts,if_neg hbeyond] at hread
    split at hread <;> simp at hread
  · intro h
    by_cases hb : block.toNat < image.volumeSize
    · have haccepts : ¬ image.refuses block := fun hr => h.refuses_iff.1 hr hb
      constructor
      · rw [blockRead,if_neg haccepts,if_pos (inside_of_lt hb),if_pos hb,offset_of_lt hb]
      · intro buffer
        rw [blockWrite,if_neg haccepts,if_pos (inside_of_lt hb),if_pos hb,offset_of_lt hb]
    · have hrefuses := h.refuses_iff.2 hb
      constructor
      · rw [blockRead,if_pos hrefuses,if_neg hb]
      · intro buffer
        rw [blockWrite,if_pos hrefuses,if_neg hb]

theorem load_store_self (image : PcImage) (p : ℕ) (buffer : Sector) :
    (image.store p buffer).load p = buffer := by
  funext i
  have hi : p ≤ p + i.val ∧ p + i.val < p + blockSize := ⟨by omega,by have := i.isLt; omega⟩
  simp only [load,store,if_pos hi,Nat.add_sub_cancel_left,Sector.get,i.isLt,dif_pos]

theorem load_store_other (image : PcImage) {p q : ℕ} (h : p + blockSize ≤ q ∨ q + blockSize ≤ p)
    (buffer : Sector) : (image.store p buffer).load q = image.load q := by
  funext i
  have hi : ¬ (p ≤ q + i.val ∧ q + i.val < p + blockSize) := by
    have := i.isLt
    omega
  simp only [load,store,if_neg hi]

/-- Two blocks whose bounds are sane do not share bytes. -/
theorem apart_of_sane {image : PcImage} {block other : UInt32} (h : Sane image.size block)
    (ho : Sane image.size other) : Apart image block other := by
  intro buffer image' hw
  rw [((exact_iff image block).2 h).write buffer] at hw
  by_cases hb : block.toNat < image.volumeSize
  · rw [if_pos hb] at hw
    simp only [Except.ok.injEq,Prod.mk.injEq,true_and] at hw
    subst hw
    have hread := ((exact_iff (image.store (block.toNat * 512) buffer) block).2 h).read
    have hother := ((exact_iff (image.store (block.toNat * 512) buffer) other).2 ho).read
    have hvolume : (image.store (block.toNat * 512) buffer).volumeSize = image.volumeSize := rfl
    rw [hvolume] at hread hother
    constructor
    · rw [hread,if_pos hb,load_store_self]
    · intro hne
      have hne' : block.toNat ≠ other.toNat := fun he => hne (UInt32.toNat_inj.1 he)
      rw [hother,((exact_iff image other).2 ho).read]
      by_cases hlt : other.toNat < image.volumeSize
      · rw [if_pos hlt,if_pos hlt,load_store_other _ (by simp only [blockSize]; omega)]
        rfl
      · rw [if_neg hlt,if_neg hlt]
        rfl
  · rw [if_neg hb] at hw
    simp at hw

/-- For two block numbers the driver is exact, and keeps them apart, if and only if its bound is sane
at both. -/
theorem blocks_exact_iff (image : PcImage) (block other : UInt32) :
    Exact image block ∧ Exact image other ∧ Apart image block other ↔
      Sane image.size block ∧ Sane image.size other := by
  constructor
  · rintro ⟨h,ho,-⟩
    exact ⟨(exact_iff image block).1 h,(exact_iff image other).1 ho⟩
  · rintro ⟨h,ho⟩
    exact ⟨(exact_iff image block).2 h,(exact_iff image other).2 ho,apart_of_sane h ho⟩

/-- An image of one block answers for block 2^23 as well, and what is written there overwrites its
only block. -/
theorem block_aliased : ¬ ∀ (image : PcImage) (block other : UInt32),
    Exact image block ∧ Exact image other ∧ Apart image block other := by
  intro h
  have hread := (h ⟨512,by decide,fun _ => 0⟩ 8388608 0).1.read
  rw [blockRead,if_neg (by decide),if_pos (by decide),if_neg (by decide)] at hread
  simp at hread

/-- A driver with a sane bound is the block device of the file system code. -/
theorem blockRead_device {E : Env} (hE : E.NoFault) (image : PcImage) {block : UInt32}
    (h : Sane image.size block) :
    (blockRead block image).map Prod.fst = (Device.blockRead E block.toNat
      ⟨fun b => image.load (b * 512),image.volumeSize,0,[]⟩).map Prod.fst := by
  rw [((exact_iff image block).2 h).read,Device.blockRead,hE.read]
  by_cases hb : block.toNat < image.volumeSize
  · rw [if_pos hb,if_neg (by simpa using hb)]
    rfl
  · rw [if_neg hb,if_pos (by simpa using hb)]
    rfl

theorem hashAll_eq (context : Md5.MdContext) (image : PcImage) :
    hashAll context image = Md5.md5 ((List.range image.size).map image.bytes) :=
  Md5.md5Memory_eq context _

end PcImage
end Gristle
