import Gristle.Readdir
import Gristle.ReadBounds

/-! Listing an ext2 directory: the calls of `ext2_readdir` against the records that tile its blocks. -/
namespace Gristle
open Prog

/-! ### Directories -/

namespace DirRecord

/-- The record is in use. -/
def live (r : DirRecord) : Bool := r.inode != 0

theorem live_iff (r : DirRecord) : r.live = true ↔ r.inode ≠ 0 := by simp [live]

/-- Taken for a record, the padding ends the listing. -/
def Inert (r : DirRecord) : Prop :=
  r.padding.length < 8 ∨ i32 ((Sector.ofBytes (r.padding.take 4)).le32 0) ≤ 0

instance (r : DirRecord) : Decidable r.Inert := inferInstanceAs (Decidable (_ ∨ _))

/-- Each record of a list that starts at `pos` lies within one block. -/
def Fits (block : ℕ) : ℕ → List DirRecord → Prop
  | _, [] => True
  | pos, r :: rs => pos % block + r.recLen ≤ block ∧ Fits block (pos + r.recLen) rs

/-- Whether the countdown of sectors is right behind the record: the seek over the padding spoils it when it
leads to another sector of the block, and repairs it when it leads to another block. -/
def exactAfter (block : ℕ) (exact : Bool) (pos : ℕ) (r : DirRecord) : Bool :=
  exact && (pos + r.recLen) / 512 == (pos + r.used) / 512 ||
    (pos + r.recLen) / block != (pos + r.used) / block

/-- Where the name of a record ends at the end of a block, but not of the directory, the countdown is
right. -/
def Straight (block size : ℕ) : Bool → ℕ → List DirRecord → Bool
  | _, _, [] => true
  | exact, pos, r :: rs =>
    (exact || (pos + r.used) % block != 0 || pos + r.used == size) &&
      Straight block size (r.exactAfter block exact pos) (pos + r.recLen) rs

/-- The bytes of records one behind the other. -/
def area (rs : List DirRecord) : ℕ := (rs.map recLen).sum

theorem length_flatMap_bytes (rs : List DirRecord) : (rs.flatMap bytes).length = area rs := by
  induction rs with
  | nil => rfl
  | cons r rs ih => rw [List.flatMap_cons,List.length_append,ih,r.length_bytes,area,area,List.map_cons,
    List.sum_cons]

theorem area_cons (r : DirRecord) (rs : List DirRecord) : area (r :: rs) = r.recLen + area rs := by
  rw [area,area,List.map_cons,List.sum_cons]

variable {block pos : ℕ}

/-- Within a record that fits a block ends at the end of the record only. -/
theorem eq_of_block_end {p n : ℕ} (hfits : pos % block + n ≤ block) (hp : pos < p) (hp' : p ≤ pos + n)
    (hzero : p % block = 0) : p = pos + n := by
  have hsplit := Nat.div_add_mod pos block
  obtain ⟨k,hk⟩ := Nat.dvd_of_mod_eq_zero hzero
  have hlow : block * (pos / block) < block * k := by omega
  have hnext := Nat.mul_le_mul_left block (Nat.succ_le_of_lt (Nat.lt_of_mul_lt_mul_left hlow))
  rw [Nat.mul_succ] at hnext
  omega

theorem fits_append {rs rs' : List DirRecord} (h : Fits block pos rs)
    (h' : Fits block (pos + area rs) rs') :
    Fits block pos (rs ++ rs') := by
  induction rs generalizing pos with
  | nil => exact h'
  | cons r rs ih =>
    rw [area_cons,← Nat.add_assoc] at h'
    exact ⟨h.1,ih h.2 h'⟩

/-- Records that fill up a block at most. -/
theorem fits_of_area {rs : List DirRecord} (h : pos % block + area rs ≤ block) : Fits block pos rs := by
  induction rs generalizing pos with
  | nil => trivial
  | cons r rs ih =>
    rw [area_cons] at h
    refine ⟨by omega,?_⟩
    cases rs with
    | nil => trivial
    | cons r' rs =>
      apply ih
      have hpos := r'.recLen_pos
      have harea : r'.recLen ≤ area (r' :: rs) := by
        rw [area_cons]
        omega
      have hstep : (pos + r.recLen) % block = pos % block + r.recLen := by
        rw [Nat.add_mod,Nat.mod_eq_of_lt (show r.recLen < block by omega),Nat.mod_eq_of_lt (by omega)]
      rw [hstep]
      omega

end DirRecord

open DirRecord

/-- The inode is a directory whose blocks these records tile. -/
structure Ext2Context.Tiles (c : Ext2Context) (B : ℕ → Sector) (d : Inode) (N : ℕ)
    (blocks : List (List DirRecord)) : Prop where
  direct : c.Direct d.iBlock blocks.length N
  length : d.iSize = blocks.length * c.sectors * 512
  tiled : ∀ j rs, blocks[j]? = some rs → c.blockBytes B (d.iBlock j) = rs.flatMap bytes

namespace Ext2Context.Tiles
variable {c : Ext2Context} {B : ℕ → Sector} {d : Inode} {N : ℕ} {blocks : List (List DirRecord)}

theorem content (h : c.Tiles B d N blocks) :
    c.fileContent B d.iBlock d.iSize = blocks.flatten.flatMap bytes := by
  have hrange (l : List (List DirRecord)) (g : ℕ → List UInt8) (hg : ∀ j rs, l[j]? = some rs →
      g j = rs.flatMap bytes) :
      (List.range l.length).flatMap g = l.flatten.flatMap bytes := by
    induction l generalizing g with
    | nil => rfl
    | cons rs l ih =>
      rw [List.length_cons,List.range_succ_eq_map,List.flatMap_cons,List.flatMap_map,List.flatten_cons,
        List.flatMap_append,hg 0 rs rfl,ih (fun j => g (j+1)) fun j rs hj => hg (j+1) rs hj]
  rw [h.length,Nat.mul_assoc,fileContent_blocks,concatenated]
  exact hrange blocks _ h.tiled

theorem area_eq (h : c.Tiles B d N blocks) {rs : List DirRecord}
    (hrs : rs ∈ blocks) : area rs = c.sectors * 512 := by
  obtain ⟨j,hj⟩ := List.mem_iff_getElem?.1 hrs
  rw [← length_flatMap_bytes,← h.tiled j rs hj,blockBytes,List.length_map,List.length_range]

theorem fits (h : c.Tiles B d N blocks) : Fits (c.sectors * 512) 0 blocks.flatten := by
  have hall (l : List (List DirRecord)) (pos : ℕ) (hl : ∀ rs ∈ l, area rs = c.sectors * 512)
      (hpos : pos % (c.sectors * 512) = 0) : Fits (c.sectors * 512) pos l.flatten := by
    induction l generalizing pos with
    | nil => trivial
    | cons rs l ih =>
      have harea := hl rs (by simp)
      apply fits_append
      · apply fits_of_area
        omega
      · apply ih _ fun rs hrs => hl rs (by simp [hrs])
        rw [harea,Nat.add_mod_right,hpos]
  exact hall blocks 0 (fun rs hrs => h.area_eq hrs) (Nat.zero_mod _)

end Ext2Context.Tiles

/-! ### Listing -/

namespace Ext2

/-- `ext2_readdir` again and again, until it returns `NULL`: the entries it returned. -/
def entries (E : Env) (fe : ℕ) : ℕ → ℤ → Ext2M (List Ext2Dirent)
  | 0, _ => stop .fuel
  | n+1, e => do
    let (found,e) ← readdir E (some fe) e
    if found then
      let de := (← get).de
      let rest ← entries E fe n e
      pure (de :: rest)
    else pure []

section NoFault
variable {c : Ext2Context} {N fe nb size pos : ℕ} {B : ℕ → Sector} {K : ℕ → ℕ} {f : FileEnt}
  {s : Ext2State} {E : Env} (hE : E.NoFault) (hc : c.WellFormed) (hd : c.Direct K nb N)
  (hsize : size ≤ nb * c.sectors * 512)
include hE hc hd hsize

/-- A record in use among the records of a directory: it is returned, and the file stands at the next
one, or before the padding when the block behind the twelfth is needed for that. -/
theorem readdir_next (e : ℤ) {exact : Bool} {r : DirRecord} {rs : List DirRecord} (h : At c N fe B f s)
    (hr : f.Visits c B K nb size pos) (hexact : exact = true → pos < size → f.Exact c)
    (hbytes : (c.fileContent B K size).drop pos = (r :: rs).flatMap bytes)
    (hfits : pos % (c.sectors * 512) + r.recLen ≤ c.sectors * 512)
    (hstraight : exact = true ∨ (pos + r.used) % (c.sectors * 512) ≠ 0 ∨ pos + r.used = size)
    (hlive : r.live = true) (hint : r.inode < 2^31) :
    (readdir E (some fe) e).Returns s fun p t => p.1 = true ∧ t.de.Shows r ∧ ∃ g, At c N fe B g t ∧
      (rs = [] ∧ 12 ≤ nb ∧ g.Visits c B K nb size (pos + r.used) ∨ g.Visits c B K nb size (pos + r.recLen) ∧
        (r.exactAfter (c.sectors * 512) exact pos = true → pos + r.recLen < size → g.Exact c)) := by
  have hlength := congrArg List.length hbytes
  rw [List.length_drop,c.length_fileContent,length_flatMap_bytes,area_cons] at hlength
  have hrec := r.recLen_pos
  have hused : r.used ≤ r.recLen := by
    rw [recLen]
    omega
  have hpos := c.sectors_pos
  -- within the record a block can only end where its name does
  have hends : f.Exact c ∨ ∀ p, pos < p → p ≤ pos + r.used → p < size → p % (c.sectors * 512) ≠ 0 := by
    by_cases hx : exact = true
    · exact .inl (hexact hx (by omega))
    · refine .inr fun p hp hp' hlt hzero => ?_
      have hlast : p = pos + r.used := eq_of_block_end (by omega) hp hp' hzero
      rcases hstraight with h | h | h
      · exact hx h
      · exact h (hlast ▸ hzero)
      · omega
  rw [List.flatMap_cons] at hbytes
  have hinode : 0 < r.inode := Nat.pos_of_ne_zero ((live_iff r).1 hlive)
  refine (readdir_record hE hc hd hsize e r h hr hbytes hinode hint hends).mono fun p t ht => ?_
  obtain ⟨hfound,hshows,g,g',hread,hg',hsought⟩ := ht
  refine ⟨hfound,hshows,g',hg',?_⟩
  have hdiv (x : ℕ) : x / 512 / c.sectors = x / (c.sectors * 512) := by
    rw [Nat.div_div_eq_div_mul,Nat.mul_comm]
  unfold Sought at hsought
  split at hsought
  · rename_i hfar
    obtain ⟨-,hfar⟩ := hfar
    rw [hdiv] at hfar
    have htwelve : 12 * (c.sectors * 512) ≤ pos + r.recLen := (Nat.le_div_iff_mul_le (by omega)).1 hfar
    have hcount := hd.count
    have hroom : nb * (c.sectors * 512) ≤ 12 * (c.sectors * 512) := Nat.mul_le_mul_right _ hcount
    rw [Nat.mul_assoc] at hsize
    have hempty : area rs = 0 := by omega
    have hnb : 12 ≤ nb := by
      have hle : 12 * (c.sectors * 512) ≤ nb * (c.sectors * 512) := by omega
      exact Nat.le_of_mul_le_mul_right hle (by omega)
    refine .inl ⟨?_,hnb,hsought.1⟩
    cases rs with
    | nil => rfl
    | cons r' rs =>
      have := r'.recLen_pos
      rw [area_cons] at hempty
      omega
  · refine .inr ⟨hsought.1,fun hx hlt => hsought.2 hlt ?_⟩
    rw [exactAfter,Bool.or_eq_true,Bool.and_eq_true,beq_iff_eq,bne_iff_ne] at hx
    refine hx.imp (fun hx => ⟨hread.exact (hexact hx.1 (by omega)) (by omega),hx.2⟩) fun hx => ?_
    rw [hdiv,hdiv]
    exact hx

end NoFault

/-- The conditions under which a directory is listed in full: no record in use comes behind an unused
one, the inode numbers are positive as `int`, the countdown is right where it matters, and the padding of
the last record does not look like a record in use when the directory has twelve blocks. -/
structure Listable (c : Ext2Context) (blocks : List (List DirRecord)) : Prop where
  ordered : blocks.flatten.Pairwise fun r r' => r'.inode ≠ 0 → r.inode ≠ 0
  small : ∀ r ∈ blocks.flatten, r.inode < 2^31
  straight : Straight (c.sectors * 512) (blocks.length * c.sectors * 512) true 0
    (blocks.flatten.filter DirRecord.live) = true
  inert : 12 ≤ blocks.length → ∀ r, blocks.flatten.getLast? = some r → r.inode ≠ 0 → r.Inert

section NoFault
variable {c : Ext2Context} {N fe nb size pos : ℕ} {B : ℕ → Sector} {K : ℕ → ℕ} {f : FileEnt}
  {s : Ext2State} {E : Env} (hE : E.NoFault) (hc : c.WellFormed) (hd : c.Direct K nb N)
  (hsize : size ≤ nb * c.sectors * 512)
include hE hc hd hsize

/-- The next call returns `NULL` where no record in use begins. -/
theorem readdir_end (e : ℤ) {rs : List DirRecord} (h : At c N fe B f s) (hr : f.Visits c B K nb size pos)
    (hbytes : (c.fileContent B K size).drop pos = rs.flatMap bytes) (hfits : Fits (c.sectors * 512) pos rs)
    (hunused : ∀ r, rs.head? = some r → r.inode = 0) :
    (readdir E (some fe) e).Returns s fun p t => p.1 = false ∧ ∃ g, At c N fe B g t := by
  cases rs with
  | nil =>
    have hlength := congrArg List.length hbytes
    rw [List.length_drop,c.length_fileContent,List.flatMap_nil,List.length_nil] at hlength
    refine readdir_null hE hc hd hsize e h hr hbytes (.inl (Nat.succ_pos 7)) (.inr fun p _ _ _ => ?_)
    omega
  | cons r rs =>
    have hrec : 8 ≤ r.recLen := by
      rw [recLen,used]
      omega
    have hzero : i32 ((Sector.ofBytes (((r :: rs).flatMap bytes).take 4)).le32 0) ≤ 0 := by
      have htake : ((r :: rs).flatMap bytes).take 4 = r.inodeBytes := by
        rw [List.flatMap_cons,DirRecord.bytes,List.append_assoc]
        rfl
      rw [htake,r.le32_inodeBytes,hunused r rfl]
      decide
    refine readdir_null hE hc hd hsize e h hr hbytes (.inr hzero) (.inr fun p hp hp' _ hend => ?_)
    have hlast := eq_of_block_end (n := r.recLen) hfits.1 hp (by omega) hend
    omega

/-- Where the seek over the last padding was refused, the padding is read as a record. -/
theorem readdir_padding (e : ℤ) {r : DirRecord} (h : At c N fe B f s)
    (hr : f.Visits c B K nb size (pos + r.used))
      (hbytes : (c.fileContent B K size).drop pos = [r].flatMap bytes)
    (hfits : pos % (c.sectors * 512) + r.recLen ≤ c.sectors * 512) (hinert : r.Inert) :
    (readdir E (some fe) e).Returns s fun p t => p.1 = false ∧ ∃ g, At c N fe B g t := by
  have hpadding : (c.fileContent B K size).drop (pos + r.used) = r.padding := by
    rw [← List.drop_drop,hbytes]
    simp [DirRecord.bytes,inodeBytes,recLenBytes,used,List.drop_append,Nat.add_comm 8]
  have hlength := congrArg List.length hbytes
  rw [List.length_drop,c.length_fileContent,length_flatMap_bytes,area_cons] at hlength
  refine readdir_null hE hc hd hsize e h hr hpadding hinert (.inr fun p hp _ hlt hend => ?_)
  have hrec : r.used ≤ r.recLen := by
    rw [recLen]
    omega
  have harea : area [] = 0 := rfl
  have hlast := eq_of_block_end (n := r.recLen) hfits (by omega) (by omega) hend
  omega

/-- Repeated calls return the records in use that lie before the first unused one. -/
theorem entries_visits (n : ℕ) (e : ℤ) {exact : Bool} {rs : List DirRecord} (h : At c N fe B f s)
    (hr : f.Visits c B K nb size pos) (hexact : exact = true → pos < size → f.Exact c)
    (hbytes : (c.fileContent B K size).drop pos = rs.flatMap bytes) (hfits : Fits (c.sectors * 512) pos rs)
    (hordered : rs.Pairwise fun r r' => r'.inode ≠ 0 → r.inode ≠ 0) (hsmall : ∀ r ∈ rs, r.inode < 2^31)
    (hstraight : Straight (c.sectors * 512) size exact pos (rs.filter DirRecord.live) = true)
    (hinert : 12 ≤ nb → ∀ r, rs.getLast? = some r → r.inode ≠ 0 →
      r.Inert) (hn : (rs.filter DirRecord.live).length < n) :
    (entries E fe n e).Returns s fun des _ =>
      List.Forall₂ Ext2Dirent.Shows des (rs.filter DirRecord.live) := by
  obtain ⟨n,rfl⟩ : ∃ m, n = m + 1 := ⟨n - 1,by omega⟩
  induction rs generalizing s f pos exact n e with
  | nil =>
    refine (readdir_end hE hc hd hsize e h hr hbytes hfits (by simp)).bind fun p t ht => ?_
    obtain ⟨found,e'⟩ := p
    obtain rfl : found = false := ht.1
    exact returns_pure .nil
  | cons r rs ih =>
    cases hlive : r.live with
    | false =>
      have hzero : r.inode = 0 := by
        by_contra hne
        rw [(live_iff r).2 hne] at hlive
        exact absurd hlive (by decide)
      have hnone : (r :: rs).filter DirRecord.live = [] := by
        rw [List.filter_eq_nil_iff]
        intro r' hr' hlive'
        rcases List.mem_cons.1 hr' with rfl | hr'
        · exact (live_iff _).1 hlive' hzero
        · exact List.rel_of_pairwise_cons hordered hr' ((live_iff _).1 hlive') hzero
      rw [hnone]
      refine (readdir_end hE hc hd hsize e h hr hbytes hfits fun r' hr' => ?_).bind fun p t ht => ?_
      · obtain rfl : r = r' := by simpa using hr'
        exact hzero
      obtain ⟨found,e'⟩ := p
      obtain rfl : found = false := ht.1
      exact returns_pure .nil
    | true =>
      rw [List.filter_cons_of_pos hlive,List.length_cons] at hn
      rw [List.filter_cons_of_pos hlive] at hstraight ⊢
      simp only [Straight,Bool.and_eq_true,Bool.or_eq_true,bne_iff_ne,beq_iff_eq] at hstraight
      obtain ⟨hhead,hstraight⟩ := hstraight
      refine (readdir_next hE hc hd hsize e h hr hexact hbytes hfits.1 (or_assoc.1 hhead) hlive
        (hsmall r (by simp))).bind fun p t ht => ?_
      obtain ⟨found,e'⟩ := p
      obtain ⟨hfound,hshows,g,hg,hplace⟩ := ht
      obtain rfl : found = true := hfound
      obtain ⟨n,rfl⟩ : ∃ m, n = m + 1 := ⟨n - 1,by omega⟩
      have hrest : (entries E fe (n+1) e').Returns t fun des _ =>
          List.Forall₂ Ext2Dirent.Shows des (rs.filter DirRecord.live) := by
        rcases hplace with ⟨rfl,htwelve,hvisits⟩ | ⟨hvisits,hexact'⟩
        · -- the seek was refused: the padding is read as a record
          refine (readdir_padding hE hc hd hsize e' hg hvisits hbytes hfits.1
            (hinert htwelve r rfl ((live_iff r).1 hlive))).bind fun p u hu => ?_
          obtain ⟨found,e''⟩ := p
          obtain rfl : found = false := hu.1
          exact returns_pure .nil
        · refine @ih (pos + r.recLen) g t e'
            (r.exactAfter (c.sectors * 512) exact pos) hg hvisits hexact' ?_ hfits.2
            hordered.of_cons (fun r' hr' => hsmall r' (by simp [hr'])) hstraight (fun h12 r' hr' =>
              ?_) n (by omega)
          · rw [← List.drop_drop,hbytes,List.flatMap_cons,← r.length_bytes,List.drop_left]
          · apply hinert h12
            rw [List.getLast?_cons,hr',Option.getD_some]
      exact returns_bind_of_ok rfl (hrest.bind fun des u hu => returns_pure (.cons hshows hu))

end NoFault

variable {c : Ext2Context} {N fe : ℕ} {B : ℕ → Sector} {f : FileEnt} {n : ℤ} {s : Ext2State} {E : Env}

/-- Repeated calls of `ext2_readdir` on an opened directory return the records in use, each once and in
order, and `NULL` only behind the last. -/
theorem directory_listed (hE : E.NoFault) (hc : c.WellFormed) (hn : c.Holds B n N)
    {blocks : List (List DirRecord)} (ht : c.Tiles B (c.inodeAt B n) N blocks) (hl : Listable c blocks)
    (h : At c N fe B f s) : (openInode E fe n).Returns s fun r t => r = 0 ∧
      ∀ k e, (blocks.flatten.filter DirRecord.live).length < k → (entries E fe k e).Returns t fun des _ =>
        List.Forall₂ Ext2Dirent.Shows des (blocks.flatten.filter DirRecord.live) := by
  refine (openInode_at hE hc hn h).mono fun r t hopen => ?_
  obtain ⟨hr,b,hat,hbuffer⟩ := hopen
  refine ⟨hr,fun k e hk => ?_⟩
  have hsize := le_of_eq ht.length
  have hreads := opened_reads (opened c B n b).flags ht.direct (fun _ _ => rfl) rfl hsize hbuffer
  obtain ⟨hvisits,hexact⟩ := hreads.visits rfl
  refine entries_visits hE hc ht.direct hsize k e hat hvisits (fun _ : true = true =>
    hexact) ?_ ht.fits hl.ordered hl.small
    ?_ hl.inert hk
  · rw [List.drop_zero]
    exact ht.content
  · rw [ht.length]
    exact hl.straight

/-! ### The small volume -/

/-- The entry `A` of the root, which fills its block. -/
def recordA : DirRecord where
  inode := 3
  fileType := 1
  name := [0x41]
  padding := List.replicate 1015 0
  inode_lt := by decide
  name_lt := by decide
  length_lt := by rw [List.length_replicate]; decide
  aligned := by rw [List.length_replicate]; decide

/-- A root of one block, block 5. -/
theorem smallRoot_tiles {B : ℕ → Sector} {rs : List DirRecord}
    (hblock : (smallContext.inodeAt B 2).iBlock 0 = 5) (hsize : (smallContext.inodeAt B 2).iSize = 1024)
    (hbytes : smallContext.blockBytes B 5 = rs.flatMap bytes) :
    smallContext.Tiles B (smallContext.inodeAt B 2) 16 [rs] := by
  refine ⟨⟨show 1 ≤ 12 by decide,fun j hj => ?_,fun j hj => ?_,by decide⟩,?_,fun j rs' hj => ?_⟩
  · obtain rfl : j = 0 := by simpa using hj
    rw [hblock]
    decide
  · obtain rfl : j = 0 := by simpa using hj
    rw [hblock,smallExt2_sectors]
    decide
  · simp [hsize,smallExt2_sectors]
  · cases j with
    | zero =>
      obtain rfl : rs = rs' := by simpa using hj
      rw [hblock]
      exact hbytes
    | succ j => simp at hj

theorem small_directory_listed : (openInode (Env.calm (fun _ => 90) 8) 0 2).Returns smallHeap fun r t =>
    r = 0 ∧
    ∀ k e, 1 < k → (entries (Env.calm (fun _ => 90) 8) 0 k e).Returns t fun des _ =>
      List.Forall₂ Ext2Dirent.Shows des [recordA] := by
  have hholds : smallContext.Holds smallExt2 2 16 := ⟨by decide +kernel,by decide +kernel,by decide +kernel⟩
  have hlist : Listable smallContext [[recordA]] := by
    refine ⟨by simp,fun r hr => ?_,by decide +kernel,fun h => absurd h (by decide)⟩
    obtain rfl : r = recordA := by simpa using hr
    decide
  exact directory_listed ⟨fun _ => rfl,fun _ => rfl,fun _ => rfl⟩ smallContext_wellFormed hholds
    (smallRoot_tiles (by decide +kernel) (by decide +kernel) (by decide +kernel)) hlist (f :=
      .zero) ⟨⟨.zero,rfl⟩,rfl,rfl,rfl⟩

/-- An unused record before the entry `A`. -/
def unusedRecord : DirRecord where
  inode := 0
  fileType := 0
  name := []
  padding := List.replicate 4 0
  inode_lt := by decide
  name_lt := by decide
  length_lt := by decide
  aligned := by decide

def recordBehind : DirRecord where
  inode := 3
  fileType := 1
  name := [0x41]
  padding := List.replicate 1003 0
  inode_lt := by decide
  name_lt := by decide
  length_lt := by rw [List.length_replicate]; decide
  aligned := by rw [List.length_replicate]; decide

/-- The small volume after its first entry was deleted and another created. -/
def deletedExt2 : ℕ → Sector := Function.update smallExt2 10
  (Sector.ofBytes [0,0,0,0,12,0,0,0,0,0,0,0,3,0,0,0,0xF4,3,1,1,0x41])

/-- The listing ends at the unused record. -/
theorem deleted_hides_entry :
    smallContext.Tiles deletedExt2 (smallContext.inodeAt deletedExt2 2) 16 [[unusedRecord,recordBehind]] ∧
    recordBehind.live = true ∧
    (do let _ ← openInode (Env.calm (fun _ => 90) 8) 0 2; entries (Env.calm (fun _ => 90) 8) 0 3 0).Returns
      { smallHeap with dev := ⟨deletedExt2,16,0,[]⟩ } fun des _ => des = [] := by
  refine ⟨smallRoot_tiles (by decide +kernel) (by decide +kernel) (by decide +kernel),rfl,?_⟩
  have hrun : Prog.test (do let _ ← openInode (Env.calm (fun _ => 90) 8) 0 2
                            entries (Env.calm (fun _ => 90) 8) 0 3 0)
      { smallHeap with dev := ⟨deletedExt2,16,0,[]⟩ } (fun des _ => des.isEmpty) = true := by decide +kernel
  obtain ⟨des,t,hdes,hempty⟩ := ok_of_test hrun
  exact ⟨des,t,hdes,List.isEmpty_iff.1 hempty⟩

end Ext2

end Gristle
