import Gristle.SequentialRead

/-! Reading an ext2 file with any inode and any failures: where `ext2_read` stays inside its buffer. The result
of `ext2_next_sector` is not looked at, so behind the last block the cursor stands behind the buffer. -/
namespace Gristle
open Prog

/-! ### The blocks that can be read -/

/-- The direct blocks before the first zero. -/
def leadingBlocks (K : ℕ → ℕ) : ℕ := Nat.find (⟨12,.inl rfl⟩ : ∃ k, k = 12 ∨ K k = 0)

/-- The blocks the driver goes through: the first one is not compared with zero. -/
def visitedBlocks (K : ℕ → ℕ) : ℕ :=
  Nat.find (⟨12,by decide,.inl rfl⟩ : ∃ k, 0 < k ∧ (k = 12 ∨ K k = 0))

theorem leadingBlocks_le_visitedBlocks (K : ℕ → ℕ) : leadingBlocks K ≤ visitedBlocks K := by
  apply Nat.find_min'
  exact (Nat.find_spec (⟨12,by decide,.inl rfl⟩ : ∃ k, 0 < k ∧ (k = 12 ∨ K k = 0))).2

theorem visitedBlocks_le (K : ℕ → ℕ) : visitedBlocks K ≤ 12 := by
  apply Nat.find_min'
  exact ⟨by decide,.inl rfl⟩

theorem visitedBlocks_pos (K : ℕ → ℕ) : 0 < visitedBlocks K :=
  (Nat.find_spec (⟨12,by decide,.inl rfl⟩ : ∃ k, 0 < k ∧ (k = 12 ∨ K k = 0))).1

/-- Among the blocks behind the first these are the ones before a zero. -/
theorem lt_visitedBlocks {K : ℕ → ℕ} {k : ℕ} (hk : 0 < k) (hlt : k ≤ visitedBlocks K) :
    k < visitedBlocks K ↔ k < 12 ∧ 0 < K k := by
  constructor
  · intro h
    have hmin := Nat.find_min (⟨12,by decide,.inl rfl⟩ : ∃ k, 0 < k ∧ (k = 12 ∨ K k = 0)) h
    have hle := visitedBlocks_le K
    by_contra hnot
    apply hmin
    refine ⟨hk,.inr ?_⟩
    omega
  · intro h
    by_contra hge
    obtain rfl : k = visitedBlocks K := by omega
    have hspec := (Nat.find_spec (⟨12,by decide,.inl rfl⟩ : ∃ k, 0 < k ∧ (k = 12 ∨ K k = 0))).2
    change visitedBlocks K = 12 ∨ K (visitedBlocks K) = 0 at hspec
    omega

/-! ### The fields of an open file -/

namespace FileEnt

/-- The file stands in a sector of the visited blocks; nothing is said of its buffer. -/
structure Inside (c : Ext2Context) (K : ℕ → ℕ) (f : FileEnt) : Prop where
  sector : f.fileSector < visitedBlocks K * c.sectors
  left : f.sectorsLeft = c.sectors - 1 - f.fileSector % c.sectors
  block : f.blockIndex = f.fileSector / c.sectors

/-- `pos` bytes have been read of a file with the block list `K` and this size. When the blocks are used up the
cursor stands behind the buffer. -/
structure Follows (c : Ext2Context) (K : ℕ → ℕ) (size pos : ℕ) (f : FileEnt) : Prop where
  blocks : f.inode.iBlock = K
  length : f.inode.iSize = size
  position : f.fileSector * 512 + f.cursor = pos
  place : f.cursor < 512 ∧ f.Inside c K ∨ f.cursor = 512 ∧ pos = visitedBlocks K * c.sectors * 512

variable {c : Ext2Context} {K : ℕ → ℕ} {size pos : ℕ} {f : FileEnt}

theorem Follows.le (h : f.Follows c K size pos) : pos ≤ visitedBlocks K * c.sectors * 512 := by
  have hposition := h.position
  rcases h.place with ⟨hcursor,hinside⟩ | ⟨-,hend⟩
  · have hsector := hinside.sector
    omega
  · omega

theorem Follows.inside (h : f.Follows c K size pos) (hlt : pos < visitedBlocks K * c.sectors * 512) :
    f.cursor < 512 ∧ f.Inside c K := by
  rcases h.place with hplace | ⟨-,hend⟩
  · exact hplace
  · omega

theorem Follows.behind (h : f.Follows c K size pos) (hle : visitedBlocks K * c.sectors * 512 ≤ pos) :
    f.cursor = 512 := by
  have hposition := h.position
  rcases h.place with ⟨hcursor,hinside⟩ | ⟨hcursor,-⟩
  · have hsector := hinside.sector
    omega
  · exact hcursor

end FileEnt

theorem Ext2Context.WellFormed.visited_lt {c : Ext2Context} (hc : c.WellFormed) (K : ℕ → ℕ) :
    visitedBlocks K * c.sectors * 512 < 2^31 := by
  have hlog : c.sectors ≤ 2^18 := Nat.pow_le_pow_right (by decide) (by have := hc.log; omega)
  have h := Nat.mul_le_mul (visitedBlocks_le K) hlog
  omega

/-! ### One byte -/

namespace Ext2
variable {c : Ext2Context} {N fe size pos : ℕ} {B : ℕ → Sector} {K : ℕ → ℕ} {f : FileEnt} {s : Ext2State}
  (E : Env) (hc : c.WellFormed)
include hc

/-- The sector after the current one, or none, whatever fails. -/
theorem nextSector_any (h : At c N fe B f s) (hblocks : f.inode.iBlock = K) (hlength : f.inode.iSize = size)
    (hf : f.Inside c K) (hcursor : f.cursor = 512) : (nextSector E fe).Returns s fun _ t =>
      ∃ g, At c N fe B g t ∧ g.Follows c K size (f.fileSector * 512 + 512) := by
  have hlimit := hc.visited_lt K
  have hsector := hf.sector
  have hleft := hf.left
  have hspos := c.sectors_pos
  have hmod := Nat.mod_lt f.fileSector hspos
  have hfs : u32 (f.fileSector + 1) = f.fileSector + 1 := u32_of_lt (by omega)
  refine returns_file h (returns_ite (fun hmore => ?_) fun hlast => ?_)
  · obtain ⟨hdiv,hmod'⟩ := div_mod_succ_inside (show f.fileSector % c.sectors + 1 < c.sectors by omega)
    refine (updateFile_at h _).bind fun _ t ht => returns_file ht ?_
    refine (readBuffer_total E ht _).bind fun _ u hu => ?_
    obtain ⟨d,hu⟩ := hu
    refine (updateFile_at hu _).bind fun _ v hv => returns_pure ⟨_,hv,hblocks,hlength,?_,.inl ⟨Nat.succ_pos 511,?_⟩⟩
    · change u32 (f.fileSector + 1) * 512 + 0 = _
      rw [hfs]
      omega
    · constructor
      · change u32 (f.fileSector + 1) < _
        rw [hfs,← Nat.div_lt_iff_lt_mul hspos,hdiv]
        exact (Nat.div_lt_iff_lt_mul hspos).2 hsector
      · change f.sectorsLeft - 1 = c.sectors - 1 - u32 (f.fileSector + 1) % c.sectors
        rw [hfs,hmod',hleft]
        omega
      · change f.blockIndex = u32 (f.fileSector + 1) / c.sectors
        rw [hfs,hdiv,hf.block]
  · obtain ⟨hdiv,hmod'⟩ := div_mod_succ_across hspos (show f.fileSector % c.sectors + 1 = c.sectors by omega)
    have hindex : f.blockIndex + 1 ≤ visitedBlocks K := by
      rw [hf.block]
      exact (Nat.div_lt_iff_lt_mul hspos).2 hsector
    -- where no block follows, all sectors have been read
    have hend (hno : ¬ (f.blockIndex + 1 < 12 ∧ 0 < K (f.blockIndex + 1))) :
        f.fileSector * 512 + 512 = visitedBlocks K * c.sectors * 512 := by
      have hnot := (lt_visitedBlocks (Nat.succ_pos _) hindex).not.2 hno
      have hvisited : visitedBlocks K = f.fileSector / c.sectors + 1 := by
        rw [← hf.block]
        omega
      have hparts := Nat.mod_add_div f.fileSector c.sectors
      have hall : f.fileSector + 1 = visitedBlocks K * c.sectors := by
        rw [hvisited,Nat.succ_mul,Nat.mul_comm]
        omega
      omega
    have hstay {g : FileEnt} {t : Ext2State} (ht : At c N fe B g t) (hinode : g.inode = f.inode)
        (hplace : g.fileSector = f.fileSector ∧ g.cursor = f.cursor)
        (hno : ¬ (f.blockIndex + 1 < 12 ∧ 0 < K (f.blockIndex + 1))) :
        ∃ g, At c N fe B g t ∧ g.Follows c K size (f.fileSector * 512 + 512) := by
      refine ⟨g,ht,?_,?_,?_,.inr ⟨hplace.2.trans hcursor,hend hno⟩⟩
      · rw [hinode,hblocks]
      · rw [hinode,hlength]
      · rw [hplace.1,hplace.2,hcursor]
    refine returns_file h (returns_ite (fun hlt => ?_) fun hge => ?_)
    · refine (updateFile_at h _).bind fun _ t ht => returns_file ht (returns_ite (fun hpos => ?_) fun hzero => ?_)
      · change 0 < f.inode.iBlock (f.blockIndex + 1) at hpos
        rw [hblocks] at hpos
        obtain ⟨b,hb⟩ := ht.context
        refine returns_context hb ?_
        rw [logPlus_eq hc (by decide),logPlus_eq hc (by decide)]
        have hlog := hc.log
        refine returns_oneShl (by omega) (returns_shl32 (by omega) ?_)
        have hbytes : 2^(c.superblock.sLogBlockSize + 10) / 512 = c.sectors := by
          rw [c.two_pow_log,Nat.mul_div_cancel_left _ (by decide)]
        refine (updateFile_at ht _).bind fun _ u hu => ?_
        refine (readBuffer_total E hu _).mono fun _ v hv => ?_
        obtain ⟨d,hv⟩ := hv
        refine ⟨_,hv,hblocks,hlength,?_,.inl ⟨Nat.succ_pos 511,?_⟩⟩
        · change u32 (f.fileSector + 1) * 512 + 0 = _
          rw [hfs]
          omega
        · constructor
          · change u32 (f.fileSector + 1) < _
            rw [hfs,← Nat.div_lt_iff_lt_mul hspos,hdiv,← hf.block]
            exact (lt_visitedBlocks (Nat.succ_pos _) hindex).2 ⟨by omega,hpos⟩
          · change 2^(c.superblock.sLogBlockSize + 10) / 512 - 1 =
              c.sectors - 1 - u32 (f.fileSector + 1) % c.sectors
            rw [hfs,hmod',hbytes,Nat.sub_zero]
          · change f.blockIndex + 1 = u32 (f.fileSector + 1) / c.sectors
            rw [hfs,hdiv,hf.block]
      · change ¬ 0 < f.inode.iBlock (f.blockIndex + 1) at hzero
        rw [hblocks] at hzero
        exact returns_pure (hstay ht rfl ⟨rfl,rfl⟩ fun h => hzero h.2)
    · exact returns_pure (hstay h rfl ⟨rfl,rfl⟩ fun h => by omega)

theorem position_follows (hf : f.Follows c K size pos) : position f = pos := by
  have hle := hf.le
  have hlimit := hc.visited_lt K
  have hposition := hf.position
  have hlt : f.fileSector * 512 + f.cursor < 2^32 := by
    rw [hposition]
    exact lt_trans (lt_of_le_of_lt hle hlimit) (by decide)
  rw [FileEnt.position_eq hlt,hposition]

/-- One pass of the loop of `ext2_read` inside the visited blocks. -/
theorem readLoop_next (h : At c N fe B f s) (hf : f.Follows c K size pos) (hmore : pos < size)
    (hlt : pos < visitedBlocks K * c.sectors * 512) : ∃ b g t, At c N fe B g t ∧ g.Follows c K size (pos + 1) ∧
      ∀ n, readLoop E fe (n+1) s = (readLoop E fe n >>= fun bytes => pure (b :: bytes) : Ext2M _) t := by
  obtain ⟨hcursor,hinside⟩ := hf.inside hlt
  have hposition := hf.position
  have hcall (n : ℕ) : readLoop E fe (n+1) s = (do
      let _ ← (if f.cursor + 1 = blockSize then nextSector E fe else pure false)
      let bytes ← readLoop E fe n
      pure (f.buffer.get f.cursor :: bytes) : Ext2M _) { s with
        files := Function.update s.files fe (some { f with cursor := f.cursor + 1 }) } := by
    have hupdate : updateFile fe (fun f => { f with cursor := f.cursor + 1 }) s = .ok ((),{ s with
        files := Function.update s.files fe (some { f with cursor := f.cursor + 1 }) }) := by
      rw [updateFile,modify_apply,h.file]
      rfl
    rw [readLoop,bind_of_ok (show Ext2.file fe s = .ok (f,s) by rw [Ext2.file,h.file]),
      position_follows hc hf,hf.length,if_neg (by omega),if_neg (show ¬ blockSize ≤ f.cursor from not_le.2 hcursor),
      bind_of_ok hupdate]
  have hmoved : At c N fe B { f with cursor := f.cursor + 1 } { s with
      files := Function.update s.files fe (some { f with cursor := f.cursor + 1 }) } :=
    ⟨h.context,h.size,h.blocks,Function.update_self _ _ _⟩
  have hadvance : (if f.cursor + 1 = blockSize then nextSector E fe else pure false).Returns { s with
      files := Function.update s.files fe (some { f with cursor := f.cursor + 1 }) } fun _ t =>
      ∃ g, At c N fe B g t ∧ g.Follows c K size (pos + 1) := by
    refine returns_ite (fun hfull => ?_) fun hfull => returns_pure ⟨_,hmoved,hf.blocks,hf.length,?_,.inl ⟨?_,?_⟩⟩
    · have hpos : pos + 1 = f.fileSector * 512 + 512 := by
        change f.cursor + 1 = 512 at hfull
        omega
      rw [hpos]
      have hinside' : FileEnt.Inside c K { f with cursor := f.cursor + 1 } := ⟨hinside.1,hinside.2,hinside.3⟩
      have hnext := nextSector_any E hc hmoved hf.blocks hf.length hinside' hfull
      exact hnext
    · change f.fileSector * 512 + (f.cursor + 1) = pos + 1
      omega
    · change f.cursor + 1 < 512
      change f.cursor + 1 ≠ 512 at hfull
      omega
    · exact ⟨hinside.1,hinside.2,hinside.3⟩
  obtain ⟨failed,t,hrun,g,hg,hfollows⟩ := hadvance
  refine ⟨f.buffer.get f.cursor,g,t,hg,hfollows,fun n => ?_⟩
  rw [hcall n,bind_of_ok hrun]

/-! ### The loop -/

/-- As long as the visited blocks hold what is asked for, the loop delivers it. -/
theorem readLoop_short (n : ℕ) (h : At c N fe B f s) (hf : f.Follows c K size pos)
    (hshort : min (pos + n) size ≤ visitedBlocks K * c.sectors * 512) : (readLoop E fe n).Returns s fun bytes t =>
      bytes.length = min n (size - pos) ∧
        ∃ g, At c N fe B g t ∧ g.Follows c K size (pos + bytes.length) := by
  induction n generalizing s f pos with
  | zero => exact returns_pure ⟨(Nat.zero_min _).symm,f,h,hf⟩
  | succ n ih =>
    by_cases hmore : pos < size
    · have hlt : pos < visitedBlocks K * c.sectors * 512 := by omega
      obtain ⟨b,g,t,hg,hfollows,hcall⟩ := readLoop_next E hc h hf hmore hlt
      obtain ⟨bytes,u,hrun,hlength,g',hg',hfollows'⟩ := ih hg hfollows (by omega)
      refine ⟨b :: bytes,u,by rw [hcall,bind_of_ok hrun]; rfl,?_,g',hg',?_⟩
      · rw [List.length_cons]
        omega
      · rw [List.length_cons,← Nat.add_assoc,Nat.add_right_comm]
        exact hfollows'
    · refine returns_file h ?_
      rw [position_follows hc hf,hf.length,if_pos (by omega)]
      exact returns_pure ⟨by rw [List.length_nil]; omega,f,h,hf⟩

/-- When more is asked for, the byte behind the buffer is read. -/
theorem readLoop_long (n : ℕ) (h : At c N fe B f s) (hf : f.Follows c K size pos)
    (hlong : visitedBlocks K * c.sectors * 512 < min (pos + n) size) : readLoop E fe n s = .error .undefined := by
  induction n generalizing s f pos with
  | zero =>
    have hle := hf.le
    omega
  | succ n ih =>
    by_cases hlt : pos < visitedBlocks K * c.sectors * 512
    · obtain ⟨b,g,t,hg,hfollows,hcall⟩ := readLoop_next E hc h hf (by omega) hlt
      rw [hcall,bind_apply,ih hg hfollows (by omega)]
    · have hle := hf.le
      have hcursor := hf.behind (by omega)
      rw [readLoop,bind_of_ok (show Ext2.file fe s = .ok (f,s) by rw [Ext2.file,h.file]),
        position_follows hc hf,hf.length,if_neg (by omega),if_pos (show blockSize ≤ f.cursor from hcursor.ge),
        stop_apply]

theorem read_short (n : ℕ) (e : ℤ) (h : At c N fe B f s) (hf : f.Follows c K size pos)
    (hshort : min (pos + n) size ≤ visitedBlocks K * c.sectors * 512) : (read E (some fe) n e).Returns s fun p t =>
      p.2.2.length = min n (size - pos) ∧
        ∃ g, At c N fe B g t ∧ g.Follows c K size (pos + p.2.2.length) := by
  refine (readLoop_short E hc n h hf hshort).bind fun bytes t ht => ?_
  obtain ⟨hlength,g,hg,hfollows⟩ := ht
  have htime : (if 0 < bytes.length then updateAtime E fe else pure ()).Returns t fun _ u =>
      ∃ g, At c N fe B g u ∧ g.Follows c K size (pos + bytes.length) := by
    refine returns_ite (fun _ => ?_) fun _ => returns_pure ⟨g,hg,hfollows⟩
    refine (time_at E hg).bind fun now u hu => (updateFile_at hu _).mono fun _ v hv => ⟨_,hv,?_,?_,?_,?_⟩
    · rw [← hfollows.blocks]
      funext k
      exact Inode.iBlock_setAtime _ _ _
    · exact (Inode.iSize_setAtime _ _).trans hfollows.length
    · exact hfollows.position
    · rcases hfollows.place with ⟨hcursor,hinside⟩ | hend
      · exact .inl ⟨hcursor,hinside.1,hinside.2,hinside.3⟩
      · exact .inr hend
  exact htime.bind fun _ u hu => returns_pure ⟨hlength,hu⟩

/-! ### Sequences of calls -/

/-- Reads that stay within the visited blocks return and deliver what is there. -/
theorem reads_short (counts : List ℕ) (h : At c N fe B f s) (hf : f.Follows c K size pos) (hle : pos ≤ size)
    (hshort : min (pos + counts.sum) size ≤ visitedBlocks K * c.sectors * 512) :
    (reads E fe counts).Returns s fun bytes _ => bytes.length = min counts.sum (size - pos) := by
  induction counts generalizing s f pos with
  | nil => exact returns_pure (by simp)
  | cons n counts ih =>
    rw [List.sum_cons] at hshort ⊢
    refine (read_short E hc n 0 h hf (by omega)).bind fun p t ht => ?_
    obtain ⟨r,e,bytes⟩ := p
    obtain ⟨hlength,g,hg,hfollows⟩ := ht
    change bytes.length = _ at hlength
    change g.Follows c K size (pos + bytes.length) at hfollows
    refine (ih hg hfollows (by omega) (by omega)).bind fun rest u hu => returns_pure ?_
    rw [List.length_append]
    omega

/-- Other reads do not return. -/
theorem reads_long (counts : List ℕ) (h : At c N fe B f s) (hf : f.Follows c K size pos)
    (hlong : visitedBlocks K * c.sectors * 512 < min (pos + counts.sum) size) :
    reads E fe counts s = .error .undefined := by
  induction counts generalizing s f pos with
  | nil =>
    have hle := hf.le
    rw [List.sum_nil] at hlong
    omega
  | cons n counts ih =>
    rw [List.sum_cons] at hlong
    by_cases hover : visitedBlocks K * c.sectors * 512 < min (pos + n) size
    · rw [reads,bind_apply,read,bind_apply,readLoop_long E hc n h hf hover]
    · obtain ⟨p,t,hrun,hlength,g,hg,hfollows⟩ := read_short E hc n 0 h hf (by omega)
      rw [reads,bind_of_ok hrun]
      dsimp only
      rw [bind_apply,ih hg hfollows (by omega)]

/-! ### From the opening on -/

omit hc in
theorem readSysbuf_any (h : At c N fe B f s) (b : ℕ) : (readSysbuf E b).Returns s fun _ t =>
    At c N fe B f t ∧ ∃ d, t.context = some { c with sysbuf := d } := by
  have hx : (Device.blockRead E b).Returns s.dev fun _ d => d.size = N ∧ d.blocks = B :=
    ⟨_,_,rfl,h.size,h.blocks⟩
  refine (onDevice_at h hx).bind fun o t ht => ?_
  obtain ⟨⟨hN,hB⟩,hat,-⟩ := ht
  have hat : At c N fe B f t := by
    rw [← hB]
    exact hat hN
  cases o with
  | none => exact returns_pure ⟨hat,hat.context⟩
  | some d => exact (setSysbuf_at hat d).mono fun _ u hu => ⟨hu.1,d,hu.2⟩

theorem loadInodeBlock_any (n : ℤ) (h : At c N fe B f s) : (loadInodeBlock E n).Returns s fun _ t =>
    At c N fe B f t ∧ ∃ d, t.context = some { c with sysbuf := d } := by
  obtain ⟨b,hb⟩ := h.context
  have hlog : c.superblock.sLogBlockSize + 1 < 32 := by
    have := hc.log
    omega
  refine returns_context hb (returns_divisor hc.perGroup ?_)
  rw [logPlus_eq hc (by decide)]
  refine returns_shl32 hlog ?_
  refine (readSysbuf_any E h _).bind fun _ t ht => ?_
  obtain ⟨hat,d,hd⟩ := ht
  refine returns_context hd (returns_shl32 hlog ?_)
  refine returns_divisor (ne_of_gt (lt_of_lt_of_le (by decide) hc.least)) ?_
  refine returns_divisor (ne_of_gt hc.inodesPerSector_pos) ?_
  refine (readSysbuf_any E hat _).bind fun _ u hu => ?_
  refine returns_ite (fun hlt => ?_) fun _ => returns_pure hu
  exact absurd (hc.inodeOffset_le (n := n)) (not_le.2 hlt)

/-- Whatever inode is opened, nothing of it has been read. -/
theorem openInode_any (n : ℤ) (h : At c N fe B f s) : (openInode E fe n).Returns s fun r t => r = 0 ∧
    ∃ g, At c N fe B g t ∧ g.Follows c g.inode.iBlock g.inode.iSize 0 := by
  have hlog : c.superblock.sLogBlockSize + 1 < 31 := by
    have := hc.log
    omega
  refine (loadInodeBlock_any E hc n h).bind fun p t ht => ?_
  obtain ⟨hat,d,hd⟩ := ht
  refine returns_context hd ((updateFile_at hat _).bind fun _ u hu => returns_file hu ?_)
  rw [logPlus_eq hc (by decide)]
  refine returns_shl32 (lt_trans hlog (by decide)) ?_
  refine (readBuffer_total E hu _).bind fun _ v hv => ?_
  obtain ⟨b,hv⟩ := hv
  refine returns_oneShl hlog ((updateFile_at hv _).bind fun _ w hw => returns_pure ⟨rfl,_,hw,rfl,rfl,?_,?_⟩)
  · change 0 * 512 + 0 = 0
    rw [Nat.zero_mul]
  refine .inl ⟨Nat.succ_pos 511,Nat.mul_pos (visitedBlocks_pos _) c.sectors_pos,?_,(Nat.zero_div _).symm⟩
  change c.sectors - 1 = c.sectors - 1 - 0 % c.sectors
  rw [Nat.zero_mod,Nat.sub_zero]

/-- Whatever inode is opened and whatever fails: the reads of a sequence all stay inside the buffer and deliver
no more than the leading non-zero blocks hold if and only if no more than that is asked for below the size. -/
theorem openInode_reads_iff (n : ℤ) (h : At c N fe B f s) : (openInode E fe n).Returns s fun r t => r = 0 ∧
    ∃ g, t.files fe = some g ∧ ∀ counts, ((reads E fe counts).Returns t (fun bytes _ =>
      bytes.length ≤ leadingBlocks g.inode.iBlock * c.sectors * 512) ↔
        min counts.sum g.inode.iSize ≤ leadingBlocks g.inode.iBlock * c.sectors * 512) := by
  refine (openInode_any E hc n h).mono fun r t ht => ?_
  obtain ⟨hr,g,hg,hfollows⟩ := ht
  refine ⟨hr,g,hg.file,fun counts => ?_⟩
  have hle : leadingBlocks g.inode.iBlock * c.sectors * 512 ≤ visitedBlocks g.inode.iBlock * c.sectors * 512 := by
    gcongr
    exact leadingBlocks_le_visitedBlocks _
  constructor
  · intro hreads
    by_contra hover
    by_cases hlong : visitedBlocks g.inode.iBlock * c.sectors * 512 < min (0 + counts.sum) g.inode.iSize
    · obtain ⟨bytes,u,hrun,-⟩ := hreads
      rw [reads_long E hc counts hg hfollows hlong] at hrun
      cases hrun
    · have hshort := reads_short E hc counts hg hfollows (Nat.zero_le _) (not_lt.1 hlong)
      obtain ⟨bytes,u,hrun,hlength⟩ := hshort
      have hfew := hreads.of_ok hrun
      omega
  · intro hwithin
    refine (reads_short E hc counts hg hfollows (Nat.zero_le _) (by omega)).mono fun bytes u hlength => ?_
    omega

omit hc in
theorem opened_follows (B : ℕ → Sector) (n : ℤ) (b : Sector) :
    (opened c B n b).Follows c (c.inodeAt B n).iBlock (c.inodeAt B n).iSize 0 := by
  refine ⟨rfl,rfl,by simp [opened],.inl ⟨Nat.succ_pos 511,Nat.mul_pos (visitedBlocks_pos _) c.sectors_pos,?_,
    (Nat.zero_div _).symm⟩⟩
  change c.sectors - 1 = c.sectors - 1 - 0 % c.sectors
  rw [Nat.zero_mod,Nat.sub_zero]

omit hc

/-- The file of the small volume fits into its only block, so no sequence of reads leaves the buffer. -/
theorem openInode_reads_small : let E := Env.calm (fun _ => 90) 8
    (openInode E 0 3).Returns smallHeap fun r t => r = 0 ∧ ∀ counts,
      (reads E 0 counts).Returns t fun bytes _ => bytes.length ≤ 1024 := by
  intro E
  have hE : E.NoFault := ⟨fun _ => rfl,fun _ => rfl,fun _ => rfl⟩
  obtain ⟨r,t,hrun,hr,g,hg,hiff⟩ := openInode_reads_iff E smallContext_wellFormed 3 smallHeap_at
  obtain ⟨-,b,hat,-⟩ := (openInode_at hE smallContext_wellFormed smallExt2_owned.holds smallHeap_at).of_ok hrun
  obtain rfl : g = opened smallContext smallExt2 3 b := Option.some.inj (hg.symm.trans hat.file)
  refine ⟨r,t,hrun,hr,fun counts => ?_⟩
  have hone : leadingBlocks (smallContext.inodeAt smallExt2 3).iBlock = 1 := by
    rw [leadingBlocks,Nat.find_eq_iff]
    decide +kernel
  have hfive : (smallContext.inodeAt smallExt2 3).iSize = 5 := by decide +kernel
  have hiff := hiff counts
  change (_ ↔ min counts.sum (smallContext.inodeAt smallExt2 3).iSize ≤
    leadingBlocks (smallContext.inodeAt smallExt2 3).iBlock * smallContext.sectors * 512) at hiff
  rw [hfive,hone,smallExt2_sectors] at hiff
  refine (hiff.2 (by omega)).mono fun bytes u hlength => ?_
  change bytes.length ≤ leadingBlocks (smallContext.inodeAt smallExt2 3).iBlock * smallContext.sectors * 512 at hlength
  rwa [hone,smallExt2_sectors] at hlength

/-- The small volume with another size for the file, which has one block of 1024 bytes. -/
def sizedExt2 (size : ℕ) : ℕ → Sector := Function.update smallExt2 6 ((smallExt2 6).setLe32 260 size)

/-- Asked for all its bytes, the driver reads the byte behind its buffer. -/
theorem read_leaves_buffer : let E := Env.calm (fun _ => 90) 8
    (openInode E 0 3).Returns { smallHeap with dev := ⟨sizedExt2 1025,16,0,[]⟩ } fun r t =>
      r = 0 ∧ reads E 0 [1025] t = .error .undefined := by
  intro E
  have hE : E.NoFault := ⟨fun _ => rfl,fun _ => rfl,fun _ => rfl⟩
  have hholds : smallContext.Holds (sizedExt2 1025) 3 16 :=
    ⟨by decide +kernel,by decide +kernel,by decide +kernel⟩
  have hat : At smallContext 16 0 (sizedExt2 1025) .zero { smallHeap with dev := ⟨sizedExt2 1025,16,0,[]⟩ } :=
    ⟨⟨.zero,rfl⟩,rfl,rfl,rfl⟩
  refine (openInode_at hE smallContext_wellFormed hholds hat).mono fun r t ht => ?_
  obtain ⟨hr,b,ht,-⟩ := ht
  refine ⟨hr,reads_long E smallContext_wellFormed [1025] ht (opened_follows (sizedExt2 1025) 3 b) ?_⟩
  have hone : visitedBlocks (smallContext.inodeAt (sizedExt2 1025) 3).iBlock = 1 := by
    rw [visitedBlocks,Nat.find_eq_iff]
    decide +kernel
  have hsize : (smallContext.inodeAt (sizedExt2 1025) 3).iSize = 1025 := by decide +kernel
  rw [hone,hsize,smallExt2_sectors]
  decide

end Ext2

end Gristle
