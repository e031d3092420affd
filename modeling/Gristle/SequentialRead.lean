import Gristle.Reopen

/-! Successive reads of an opened inode, call by call, against the concatenation of its direct blocks. -/
namespace Gristle
open Prog

/-! ### The blocks one behind the other -/

namespace Ext2Context
variable (c : Ext2Context) (B : ℕ → Sector) (K : ℕ → ℕ)

/-- The bytes of block `b` of the file system. -/
def blockBytes (b : ℕ) : List UInt8 :=
  (List.range (c.sectors * 512)).map fun i => (B (b * c.sectors + c.partStart + i / 512)).get (i % 512)

/-- The first `nb` blocks of a block list, concatenated. -/
def concatenated (nb : ℕ) : List UInt8 := (List.range nb).flatMap fun j => c.blockBytes B (K j)

/-- The blocks a file of this many bytes needs. -/
def neededBlocks (size : ℕ) : ℕ := (size + (c.sectors * 512 - 1)) / (c.sectors * 512)

variable {c B K} {nb size : ℕ}

/-- A byte of a block is the byte of the file that lies as far behind the block's first. -/
theorem byteAt_block (j : ℕ) {i : ℕ} (hi : i < c.sectors * 512) : c.byteAt B K (j * (c.sectors * 512) + i) =
    (B (K j * c.sectors + c.partStart + i / 512)).get (i % 512) := by
  have hsector : (j * (c.sectors * 512) + i) / 512 = i / 512 + c.sectors * j := by
    rw [show j * (c.sectors * 512) + i = i + 512 * (c.sectors * j) by ring]
    exact Nat.add_mul_div_left _ _ (by decide)
  have hoffset : (j * (c.sectors * 512) + i) % 512 = i % 512 := by
    rw [show j * (c.sectors * 512) + i = i + 512 * (c.sectors * j) by ring,Nat.add_mul_mod_self_left]
  have hlt : i / 512 < c.sectors := (Nat.div_lt_iff_lt_mul (by decide)).2 hi
  have hblock : (i / 512 + c.sectors * j) / c.sectors = j := by
    rw [Nat.add_mul_div_left _ _ c.sectors_pos,Nat.div_eq_of_lt hlt,Nat.zero_add]
  have hinside : (i / 512 + c.sectors * j) % c.sectors = i / 512 := by
    rw [Nat.add_mul_mod_self_left,Nat.mod_eq_of_lt hlt]
  rw [byteAt,hsector,hoffset,dataSector,hblock,hinside]

theorem fileContent_blocks (nb : ℕ) :
    c.fileContent B K (nb * (c.sectors * 512)) = c.concatenated B K nb := by
  induction nb with
  | zero => simp [fileContent,concatenated]
  | succ nb ih =>
    have hlast : (List.range (c.sectors * 512)).map (c.byteAt B K ∘ (nb * (c.sectors * 512) + ·)) =
        c.blockBytes B (K nb) := by
      apply List.map_congr_left
      intro i hi
      exact byteAt_block nb (List.mem_range.1 hi)
    rw [fileContent] at ih
    rw [fileContent,Nat.succ_mul,List.range_add,List.map_append,List.map_map,ih,hlast,concatenated,
      concatenated,List.range_succ,List.flatMap_append]
    simp

/-- The content of a file is the beginning of its blocks. -/
theorem fileContent_eq_take (hsize : size ≤ nb * c.sectors * 512) :
    c.fileContent B K size = (c.concatenated B K nb).take size := by
  rw [Nat.mul_assoc] at hsize
  rw [← fileContent_blocks,fileContent,fileContent,← List.map_take,List.take_range,min_eq_left hsize]

theorem size_le_neededBlocks (size : ℕ) : size ≤ c.neededBlocks size * c.sectors * 512 := by
  have hpos : 0 < c.sectors * 512 := Nat.mul_pos c.sectors_pos (by decide)
  have hdiv := Nat.div_add_mod (size + (c.sectors * 512 - 1)) (c.sectors * 512)
  have hmod := Nat.mod_lt (size + (c.sectors * 512 - 1)) hpos
  rw [Nat.mul_assoc,neededBlocks,Nat.mul_comm]
  omega

end Ext2Context

/-! ### Call by call -/

namespace Ext2

/-- Reads of these lengths one after the other: what each returns and the bytes it delivers. -/
def readCalls (E : Env) (fe : ℕ) (e : ℤ) : List ℕ → Ext2M (List (ℤ × List UInt8))
  | [] => pure []
  | n :: counts => do
    let (r,_,bytes) ← read E (some fe) n e
    let rest ← readCalls E fe e counts
    pure ((r,bytes) :: rest)

/-- What the reads should give: each returns the smaller of its count and what is left. -/
def deliveries : List UInt8 → List ℕ → List (ℤ × List UInt8)
  | _, [] => []
  | content, n :: counts =>
    ((min n content.length : ℕ),content.take n) :: deliveries (content.drop n) counts

/-- Together they give the bytes of the beginning, once and in order. -/
theorem deliveries_bytes (content : List UInt8) (counts : List ℕ) :
    (deliveries content counts).flatMap Prod.snd = content.take counts.sum := by
  induction counts generalizing content with
  | nil => simp [deliveries]
  | cons n counts ih => rw [deliveries,List.flatMap_cons,ih,List.sum_cons,List.take_add]

section NoFault
variable {c : Ext2Context} {N fe nb size pos : ℕ} {B : ℕ → Sector} {K : ℕ → ℕ} {f : FileEnt}
  {s : Ext2State} {E : Env} (hE : E.NoFault) (hc : c.WellFormed)
include hE hc

theorem readCalls_at (hd : c.Direct K nb N) (e : ℤ) (counts : List ℕ) (h : At c N fe B f s)
    (hr : f.Reads c B K nb size pos) (hsize : size ≤ nb * c.sectors * 512) :
    (readCalls E fe e counts).Returns s fun results _ =>
      results = deliveries ((c.fileContent B K size).drop pos) counts := by
  have hlength := c.length_fileContent B K size
  have hcap := hc.capacity hd
  induction counts generalizing s f pos with
  | nil => exact returns_pure rfl
  | cons n counts ih =>
    refine (read_at hE hc hd n e h hr hsize).bind fun p t ht => ?_
    obtain ⟨r,e',bytes⟩ := p
    obtain ⟨hbytes,hr',-,g,hg,-,hread⟩ := ht
    change bytes = _ at hbytes
    change r = i32 bytes.length at hr'
    refine (ih hg hread).bind fun rest u hu => returns_pure ?_
    have hmin : bytes.length = min n (size - pos) := by
      rw [hbytes,List.length_take,List.length_drop,hlength]
    have hresult : r = (min n (size - pos) : ℕ) := by
      rw [hr',hmin]
      exact i32_of_lt (by omega)
    -- a call that delivers fewer bytes than it was asked for has come to the end
    have hrest : (c.fileContent B K size).drop (pos + bytes.length) = (c.fileContent B K size).drop (pos + n) := by
      by_cases hn : n ≤ size - pos
      · rw [hmin,min_eq_left hn]
      · rw [List.drop_eq_nil_of_le (by omega),List.drop_eq_nil_of_le (by omega)]
    change (r,bytes) :: rest = _
    rw [hu,hrest,deliveries,List.length_drop,hlength,List.drop_drop,← hresult,← hbytes]

end NoFault

/-- The small volume with one entry on the heap. -/
def smallHeap : Ext2State := { smallState with files := fun fe => if fe = 0 then some .zero else none }

theorem smallHeap_at : At smallContext 16 0 smallExt2 .zero smallHeap :=
  ⟨⟨.zero,rfl⟩,rfl,rfl,rfl⟩

end Ext2

end Gristle
