import Gristle.WriteBack
import Gristle.EmbextLookup
import Gristle.Volume

/-! Closing a written file and opening it again: the written bytes are on the medium, the inode has the
new size, and the path leads to the same inode. -/
namespace Gristle
open Prog

/-- What a sequence of calls does to the bytes and the position. -/
def ByteFile.run (F : ByteFile) (c : Ext2Context) (append : Bool) (ops : List FileOp) : ByteFile :=
  ops.foldl (fun F op => F.step c append op) F

namespace Ext2

/-- The calls and the closing succeed. Afterwards the inode on the medium has the length of the
content, and the path can be opened for reading and delivers the content. -/
def Survives (E : Env) (c : Ext2Context) (n : ℤ) (path : List UInt8) (fe : ℕ) (e : ℤ) (ops : List FileOp)
    (content : List UInt8) (s : Ext2State) : Prop :=
  (calls E fe e ops).Returns s fun _ t => (close E (some fe) e).Returns t fun p u => p.1 = 0 ∧
    (c.inodeAt u.dev.blocks n).iSize = content.length ∧
    (openPath E path oRdonly e).Returns u fun q v => ∃ fe', q.1 = some fe' ∧
      ∀ counts, (reads E fe' counts).Returns v fun bytes _ => bytes = content.take counts.sum

variable {c : Ext2Context} {B₀ B : ℕ → Sector} {n : ℤ} {N nb fe : ℕ} {F : ByteFile} {f : FileEnt}
  {s : Ext2State} {E : Env}

/-! ### A run of calls -/

/-- One call does to the file what it does to its bytes. -/
theorem call_at (hE : E.NoFault) (ho : c.Owned B₀ n nb N) (op : FileOp) (e : ℤ) (h : At c N fe B f s)
    (hw : f.Writes c B₀ n nb F.content F.pos B) (hfits : f.Fits c nb op) (hcareful : f.Careful op) :
    (call E fe e op).Returns s fun _ t => ∃ B' g, At c N fe B' g t ∧ g.flags.append = f.flags.append ∧
      g.Writes c B₀ n nb (F.step c f.flags.append op).content (F.step c f.flags.append op).pos B' := by
  cases op with
  | write bytes => exact write_at hE ho bytes e h hw hfits hcareful
  | seek ptr dir =>
    refine (lseek_at hE ho ptr dir h hw).mono fun p t ht => ?_
    obtain ⟨B',g,hg,hwrites,hga,-⟩ := ht
    exact ⟨B',g,hg,hga,hwrites⟩

theorem calls_at (hE : E.NoFault) (ho : c.Owned B₀ n nb N) (ops : List FileOp) (e : ℤ) (h : At c N fe B f s)
    (hw : f.Writes c B₀ n nb F.content F.pos B) (hfits : Throughout (FileEnt.Fits c nb) E fe e ops s)
    (hcareful : Throughout FileEnt.Careful E fe e ops s) : (calls E fe e ops).Returns s fun _ t =>
      ∃ B' g, At c N fe B' g t ∧ g.Writes c B₀ n nb (F.run c f.flags.append ops).content
        (F.run c f.flags.append ops).pos B' := by
  induction ops generalizing s f F B with
  | nil => exact returns_pure ⟨B,f,h,hw⟩
  | cons op ops ih =>
    obtain ⟨p,t,hcall,B',g,hg,hga,hwrites⟩ := call_at hE ho op e h hw (hfits.1 f h.file) (hcareful.1 f h.file)
    refine returns_bind_of_ok hcall ?_
    have hrest := ih hg hwrites (hfits.2 p t hcall) (hcareful.2 p t hcall)
    rw [hga] at hrest
    exact hrest

/-! ### Closing -/

theorem close_at (hE : E.NoFault) (ho : c.Owned B₀ n nb N) (e : ℤ) (h : At c N fe B f s)
    (hw : f.Writes c B₀ n nb F.content F.pos B) : (close E (some fe) e).Returns s fun p t => p.1 = 0 ∧
      ∃ B', Mounted c N B' t ∧ c.Elsewhere B₀ n nb B' ∧
        (c.inodeAt B' n).iSize = F.content.length ∧
        (∀ j < 12, (c.inodeAt B' n).iBlock j = (c.inodeAt B₀ n).iBlock j) ∧
        c.fileContent B' (c.inodeAt B₀ n).iBlock F.content.length = F.content := by
  have hflush : (if f.flags.dirty then do pure ((← flush E fe) != 0) else pure false : Ext2M Bool).Returns s
      fun failed t => failed = false ∧ ∃ B' g, At c N fe B' g t ∧ g.flags.dirty = false ∧
        g.Writes c B₀ n nb F.content F.pos B' := by
    refine returns_ite (fun _ => ?_) fun hclean => returns_pure ⟨rfl,B,f,h,by simpa using hclean,hw⟩
    refine (flush_at hE ho h hw).bind fun r t ht => returns_pure ?_
    obtain ⟨rfl,B',hat,hwrites⟩ := ht
    exact ⟨rfl,B',_,hat,rfl,hwrites⟩
  refine returns_file h (hflush.bind fun failed t ht => ?_)
  obtain ⟨rfl,B',g,hg,hclean,hwrites⟩ := ht
  rw [if_neg (by decide)]
  -- the two sectors of the inode are still the ones from before
  have hgroup : B' (c.groupSector n) = B₀ (c.groupSector n) := hwrites.other _ ho.group_apart
  have hinode : B' (c.inodeSector B₀ n) = B₀ (c.inodeSector B₀ n) := hwrites.other _ ho.inode_apart
  have hplace := Ext2Context.inodeSector_congr hgroup
  have hholds : c.Holds B' n N := ⟨ho.holds.group,hplace ▸ ho.holds.inode,hplace ▸ ho.holds.apart⟩
  have hcontent := hwrites.content
  rw [hclean,if_neg (by decide)] at hcontent
  have hsame {B'' : ℕ → Sector} {t : Ext2State} (ht : Mounted c N B'' t) (hother : c.Elsewhere B₀ n nb B'')
      (hdata : ∀ k < nb * c.sectors, B'' (c.dataSector (c.inodeAt B₀ n).iBlock k) =
        B' (c.dataSector (c.inodeAt B₀ n).iBlock k)) (hrecord : (c.inodeAt B'' n).SameRecord g.inode) :
      ∃ B', Mounted c N B' t ∧ c.Elsewhere B₀ n nb B' ∧ (c.inodeAt B' n).iSize = F.content.length ∧
        (∀ j < 12, (c.inodeAt B' n).iBlock j = (c.inodeAt B₀ n).iBlock j) ∧
        c.fileContent B' (c.inodeAt B₀ n).iBlock F.content.length = F.content := by
    refine ⟨B'',ht,hother,hrecord.iSize.trans hwrites.length,
      fun j hj => (hrecord.iBlock hj).trans (hwrites.blocks j hj),?_⟩
    refine Eq.trans (List.map_congr_left fun i hi => ?_) hcontent
    have hi := List.mem_range.1 hi
    have hroom := hwrites.room
    rw [Ext2Context.byteAt,Ext2Context.byteAt,hdata _ (by omega)]
  have hinodes : (if g.flags.fsDirty then do pure ((← flushInode E fe) != 0) else pure false :
      Ext2M Bool).Returns t fun failed u => failed = false ∧ ∃ B', Mounted c N B' u ∧
        c.Elsewhere B₀ n nb B' ∧ (c.inodeAt B' n).iSize = F.content.length ∧
        (∀ j < 12, (c.inodeAt B' n).iBlock j = (c.inodeAt B₀ n).iBlock j) ∧
        c.fileContent B' (c.inodeAt B₀ n).iBlock F.content.length = F.content := by
    refine returns_ite (fun hdirty => ?_) fun hdirty => returns_pure ⟨rfl,?_⟩
    · refine (flushInode_at hE ho.wellFormed hholds hg hwrites.number hclean hdirty).bind fun r u hu => ?_
      obtain ⟨rfl,hat⟩ := hu
      refine returns_pure ⟨rfl,hsame hat.mounted ⟨fun b hb hdata => ?_,fun i hi => ?_⟩ (fun k hk => ?_)
        (Ext2Context.inodeAt_storeInode ho.wellFormed hholds _)⟩
      · rw [Ext2Context.storeInode,hplace,Function.update_of_ne hb]
        exact hwrites.other b hdata
      · rw [Ext2Context.storeInode,hplace,Function.update_self,Sector.get_splice,if_neg (by omega),hinode]
      · rw [Ext2Context.storeInode,hplace,Function.update_of_ne (ho.inode_apart k hk)]
    · refine hsame hg.mounted ⟨fun b _ hdata => hwrites.other b hdata,fun i _ => by rw [hinode]⟩
        (fun k _ => rfl) ?_
      rw [Ext2Context.inodeAt_congr hgroup (hplace ▸ hinode)]
      exact hwrites.stored (by simpa using hdirty)
  refine returns_file hg (hinodes.bind fun failed u hu => ?_)
  obtain ⟨rfl,B'',hm,hrest⟩ := hu
  rw [if_neg (by decide)]
  exact Returns.bind (Q := fun _ v => Mounted c N B'' v) (returns_modify ⟨hm.context,hm.size,hm.blocks⟩)
    fun _ v hv => returns_pure ⟨rfl,B'',hv,hrest⟩

/-! ### Opening -/

/-- A path that leads to an inode is opened for reading, and opened for writing unless it is refused. -/
theorem openPath_at {path : List UInt8} (flags : OpenFlags) (e : ℤ) (hm : Mounted c N B s)
    (hpath : Leads E c N path n B) : (openPath E path flags e).Returns s fun p t =>
      (flags = oRdonly → ∃ fe, p.1 = some fe) ∧ ∀ fe, p.1 = some fe → ∃ b,
        ((opened c B n b).sector < N → b = B (opened c B n b).sector) ∧ At c N fe B
          { opened c B n b with flags := access flags ⟨true,false,false,false,false⟩ } t := by
  rw [openPath]
  refine returns_bind_of_ok rfl ?_
  refine Returns.bind (Q := fun _ t => Mounted c N B t) (returns_modify ⟨hm.context,hm.size,hm.blocks⟩)
    fun _ t ht => ?_
  refine (ht.store _ _).bind fun _ u hu => (hpath _ _ e u hu).bind fun p v hv => ?_
  obtain ⟨hi,b,hat,hbuffer⟩ := hv
  obtain ⟨i,e'⟩ := p
  obtain rfl : i = 0 := hi
  refine (updateFile_at hat _).bind fun _ w hw => ?_
  obtain ⟨b',hb'⟩ := hw.context
  refine returns_context hb' ?_
  have hrefuse {e : ℤ} {w : Ext2State} : (refuse s.nextFile e).Returns w fun p t => p.1 = none :=
    ⟨_,_,rfl,rfl⟩
  have hnone (hne : flags ≠ oRdonly) {e : ℤ} {w : Ext2State} : (refuse s.nextFile e).Returns w fun p t =>
      (flags = oRdonly → ∃ fe, p.1 = some fe) ∧ ∀ fe, p.1 = some fe → ∃ b,
        ((opened c B n b).sector < N → b = B (opened c B n b).sector) ∧ At c N fe B
          { opened c B n b with flags := access flags ⟨true,false,false,false,false⟩ } t :=
    hrefuse.mono fun p t hp => ⟨fun h => absurd h hne,fun fe h => by rw [hp] at h; cases h⟩
  have hdone {e : ℤ} {w : Ext2State} (hw : At c N s.nextFile B
      { opened c B n b with flags := access flags ⟨true,false,false,false,false⟩ } w) :
      (do updateFile s.nextFile fun f => { f with fileSector := 0 }
          pure (some s.nextFile,e) : Ext2M (Option ℕ × ℤ)).Returns w fun p t =>
      (flags = oRdonly → ∃ fe, p.1 = some fe) ∧ ∀ fe, p.1 = some fe → ∃ b,
        ((opened c B n b).sector < N → b = B (opened c B n b).sector) ∧ At c N fe B
          { opened c B n b with flags := access flags ⟨true,false,false,false,false⟩ } t := by
    refine (updateFile_at hw _).bind fun _ x hx => returns_pure ⟨fun _ => ⟨_,rfl⟩,fun fe h => ?_⟩
    obtain rfl := Option.some.inj h
    exact ⟨b,hbuffer,hx⟩
  refine returns_ite (fun h => absurd h.1 (by decide)) fun _ => ?_
  rw [if_pos rfl]
  refine returns_ite (fun h => hnone fun he => ?_) fun _ => ?_
  · rw [he] at h
    exact absurd h (by decide)
  refine returns_ite (fun _ => hdone hw) fun hwrite => ?_
  have hne : flags ≠ oRdonly := by
    rintro rfl
    exact hwrite ⟨rfl,rfl⟩
  refine returns_ite (fun _ => hnone hne) fun _ => returns_file hw ?_
  refine returns_ite (fun _ => hnone hne) fun _ => ?_
  exact returns_ite (fun _ => hnone hne) fun _ => hdone hw

/-- A file just opened for writing holds what is on the medium. -/
theorem opened_writes (ho : c.Owned B₀ n nb N) {flags : OpenFlags} {b : Sector}
    (hflags : flags.wronly = true ∨ flags.rdwr = true)
    (hbuffer : (opened c B₀ n b).sector < N → b = B₀ (opened c B₀ n b).sector) : FileEnt.Writes c B₀ n nb
      (c.fileContent B₀ (c.inodeAt B₀ n).iBlock (c.inodeAt B₀ n).iSize) 0 B₀
      { opened c B₀ n b with flags := access flags ⟨true,false,false,false,false⟩ } := by
  have hlength := c.length_fileContent B₀ (c.inodeAt B₀ n).iBlock (c.inodeAt B₀ n).iSize
  have hpos := c.sectors_pos
  have hnb (h : 0 < nb * c.sectors) : 0 < nb := Nat.pos_of_mul_pos_right h
  have hsector (h : 0 < nb * c.sectors) := opened_sector ho.direct (hnb h) b
  exact {
    number := rfl
    writable := by
      change (false || flags.rdwr || flags.wronly) = true
      rcases hflags with h | h <;> simp [h]
    blocks := fun _ _ => rfl
    length := hlength.symm
    room := hlength.symm ▸ ho.size
    position := by simp [opened]
    cursor := Nat.succ_pos 511
    inside := Nat.zero_le _
    sector := hsector
    content := by rw [hlength]; rfl
    dirty := fun h => by cases h
    clean := fun _ h => hbuffer (by rw [hsector h]; exact ho.direct.dataSector_lt h)
    stored := fun _ _ _ => rfl
    other := fun _ _ => rfl }

/-- Writes and seeks on a file opened for writing are all found again when every write stays inside its
sector and grows the file or meets a sector already marked. -/
theorem careful_writes_survive (hE : E.NoFault) {s₀ : Ext2State} {path : List UInt8} {flags : OpenFlags}
    {e e' : ℤ} (hm : s₀.context = some c) (ho : c.Owned s₀.dev.blocks n nb s₀.dev.size)
    (hpath : ∀ B, c.Elsewhere s₀.dev.blocks n nb B → Leads E c s₀.dev.size path n B)
    (hflags : flags.wronly = true ∨ flags.rdwr = true)
    (hopen : openPath E path flags e s₀ = .ok ((some fe,e'),s)) (ops : List FileOp)
    (hfits : Throughout (FileEnt.Fits c nb) E fe e ops s)
    (hcareful : Throughout FileEnt.Careful E fe e ops s) :
    Survives E c n path fe e ops
      (ByteFile.run ⟨c.fileContent s₀.dev.blocks (c.inodeAt s₀.dev.blocks n).iBlock
        (c.inodeAt s₀.dev.blocks n).iSize,0⟩ c flags.append ops).content s := by
  have hmounted : Mounted c s₀.dev.size s₀.dev.blocks s₀ := ⟨⟨c.sysbuf,hm⟩,rfl,rfl⟩
  have hself : c.Elsewhere s₀.dev.blocks n nb s₀.dev.blocks := ⟨fun _ _ _ => rfl,fun _ _ => rfl⟩
  obtain ⟨-,hopened⟩ := (openPath_at flags e hmounted (hpath _ hself)).of_ok hopen
  obtain ⟨b,hbuffer,hat⟩ := hopened fe rfl
  have hwrites := opened_writes ho hflags hbuffer
  generalize c.fileContent s₀.dev.blocks (c.inodeAt s₀.dev.blocks n).iBlock
    (c.inodeAt s₀.dev.blocks n).iSize = content at hwrites ⊢
  have hrun := calls_at hE ho ops e hat (F := ⟨content,0⟩) hwrites hfits hcareful
  change (calls E fe e ops).Returns s fun _ t => ∃ B' g, At c s₀.dev.size fe B' g t ∧
    g.Writes c s₀.dev.blocks n nb (ByteFile.run ⟨content,0⟩ c (false || flags.append) ops).content
      (ByteFile.run ⟨content,0⟩ c (false || flags.append) ops).pos B' at hrun
  rw [Bool.false_or] at hrun
  refine hrun.mono fun _ t ht => ?_
  obtain ⟨B',g,hg,hw⟩ := ht
  refine (close_at hE ho e hg hw).mono fun p u hu => ?_
  obtain ⟨hp,B'',hm'',hother,hsize,hK,hcontent⟩ := hu
  refine ⟨hp,by rw [hm''.blocks,hsize],?_⟩
  refine (openPath_at oRdonly e hm'' (hpath B'' hother)).mono fun q v hv => ?_
  obtain ⟨hsome,hfile⟩ := hv
  obtain ⟨fe',hfe'⟩ := hsome rfl
  obtain ⟨b',hbuffer',hat'⟩ := hfile fe' hfe'
  refine ⟨fe',hfe',fun counts => ?_⟩
  have hreads := opened_reads (access oRdonly ⟨true,false,false,false,false⟩) ho.direct hK hsize hw.room
    hbuffer'
  have h := reads_at hE ho.wellFormed ho.direct counts hat' hreads hw.room
  rw [hcontent,List.drop_zero] at h
  exact h

/-! ### A small volume -/

/-- A superblock for blocks of 1024 bytes and eight inodes of 128 bytes in a group. -/
def smallContext : Ext2Context where
  partStart := 0
  superblock := ⟨(Sector.zero.setLe32 40 8).setLe16 88 128⟩
  sparse := false
  sysbuf := .zero
  superblockBlock := 1
  readOnly := 0
  numBlockgroups := 1
  superblockBlocks := []

/-- The root, inode 2, lies in block 5 and has the entry `A` for inode 3, a file in block 6 that holds
`hello`. -/
def smallExt2 : ℕ → Sector
  | 4 => Sector.ofBytes [0,0,0,0,0,0,0,0,3]
  | 6 => ((((((Sector.zero.setLe16 128 0x41ED).setLe32 132 1024).setLe32 168 5).setLe16 256 0x81A4).setLe32
      260 5).setLe32 296 6)
  | 10 => Sector.ofBytes [3,0,0,0,0,4,1,1,0x41]
  | 12 => Sector.ofBytes [0x68,0x65,0x6C,0x6C,0x6F]
  | _ => fun _ => 0

def smallState : Ext2State where
  dev := ⟨smallExt2,16,0,[]⟩
  context := some smallContext
  files := fun _ => none
  nextFile := 0
  de := ⟨0,fun _ => 0⟩

/-- `"/A"` -/
def smallPath : List UInt8 := [0x2F,0x41]

theorem smallContext_wellFormed : smallContext.WellFormed :=
  ⟨by decide +kernel,by decide +kernel,by decide +kernel,by decide +kernel⟩

theorem smallExt2_sectors : smallContext.sectors = 2 := by decide +kernel

theorem smallExt2_owned : smallContext.Owned smallExt2 3 1 16 := by
  have hsectors := smallExt2_sectors
  have hblock : (smallContext.inodeAt smallExt2 3).iBlock 0 = 6 := by decide +kernel
  have hinode : smallContext.inodeSector smallExt2 3 = 6 := by decide +kernel
  have hgroup : smallContext.groupSector 3 = 4 := by decide +kernel
  have hone {j : ℕ} (hj : j < 1) : j = 0 := by omega
  have hdata {k : ℕ} (hk : k < 1 * smallContext.sectors) :
      smallContext.dataSector (smallContext.inodeAt smallExt2 3).iBlock k = 12 + k := by
    rw [hsectors] at hk
    rw [Ext2Context.dataSector,hsectors,Nat.div_eq_of_lt (by omega),hblock,Nat.mod_eq_of_lt (by omega)]
    rfl
  refine ⟨smallContext_wellFormed,⟨?_,?_,?_⟩,⟨by decide,fun j hj => ?_,fun j hj => ?_,by decide⟩,
    by decide +kernel,fun i hi j hj _ => by omega,fun k hk => ?_,fun k hk => ?_⟩
  · rw [hgroup]
    decide
  · rw [hinode]
    decide
  · rw [hinode,hgroup]
    decide
  · rw [hone hj,hblock]
    decide
  · rw [hone hj,hblock,hsectors]
    decide
  · rw [hdata hk,hinode]
    rw [hsectors] at hk
    omega
  · rw [hdata hk,hgroup]
    omega

/-- The path does not depend on the blocks of the file and its inode. -/
theorem smallPath_leads {E : Env} (hE : E.NoFault) (hfuel : 0 < E.fuel) {B : ℕ → Sector}
    (h : smallContext.Elsewhere smallExt2 3 1 B) : Leads E smallContext 16 smallPath 3 B := by
  have hsectors := smallExt2_sectors
  have hblock : (smallContext.inodeAt smallExt2 3).iBlock 0 = 6 := by decide +kernel
  have hinode : smallContext.inodeSector smallExt2 3 = 6 := by decide +kernel
  have hgroup : ∀ n ∈ ({2,3} : List ℤ), smallContext.groupSector n = 4 := by decide +kernel
  have hother (b : ℕ) (hb : b ≠ 6) (hb₁ : b ≠ 12) (hb₂ : b ≠ 13) : B b = smallExt2 b := by
    refine h.other b (hinode ▸ hb) fun k hk => ?_
    rw [hsectors] at hk
    rw [Ext2Context.dataSector,hsectors,Nat.div_eq_of_lt (by omega),hblock,Nat.mod_eq_of_lt (by omega)]
    change 12 + k ≠ b
    omega
  have hplace : ∀ n ∈ ({2,3} : List ℤ), smallContext.inodeSector B n = 6 := by
    intro n hn
    have hsame : B (smallContext.groupSector n) = smallExt2 (smallContext.groupSector n) := by
      rw [hgroup n hn]
      exact hother 4 (by decide) (by decide) (by decide)
    rw [Ext2Context.inodeSector_congr hsame]
    clear hsame
    revert n
    decide +kernel
  have hholds : ∀ n ∈ ({2,3} : List ℤ), smallContext.Holds B n 16 := fun n hn =>
    ⟨by rw [hgroup n hn]; decide,by rw [hplace n hn]; decide,by rw [hgroup n hn,hplace n hn]; decide⟩
  have hroot : smallContext.inodeAt B 2 = smallContext.inodeAt smallExt2 2 := by
    have hsector : smallContext.inodeSector smallExt2 2 = 6 := by decide +kernel
    have hoffset : smallContext.inodeOffset 2 = 128 ∧ smallContext.inodeOffset 3 = 256 := by decide +kernel
    rw [Ext2Context.inodeAt,Ext2Context.inodeAt,hplace 2 (by decide),hsector,hoffset.1]
    refine congrArg Inode.mk (Sector.ext_get fun i hi => ?_)
    rw [Sector.get_splice,Sector.get_splice]
    split
    · have hlt : Inode.length = 128 := rfl
      have hbeside := h.beside (128 + (i - 0)) (.inl (by rw [hoffset.2]; omega))
      rwa [hinode] at hbeside
    · rfl
  have hbytes : (smallContext.fileContent B (smallContext.inodeAt smallExt2 2).iBlock 1024) =
      smallContext.fileContent smallExt2 (smallContext.inodeAt smallExt2 2).iBlock 1024 := by
    refine List.map_congr_left fun i hi => ?_
    have hi := List.mem_range.1 hi
    have hdir : (smallContext.inodeAt smallExt2 2).iBlock 0 = 5 := by decide +kernel
    rw [Ext2Context.byteAt,Ext2Context.byteAt,Ext2Context.dataSector,hsectors,
      Nat.div_eq_of_lt (show i / 512 < 2 by omega),hdir,hother]
    · change 5 * 2 + 0 + _ ≠ 6
      omega
    · change 5 * 2 + 0 + _ ≠ 12
      omega
    · change 5 * 2 + 0 + _ ≠ 13
      omega
  refine @leads_first smallContext 16 B 3 E hE hfuel smallContext_wellFormed smallPath [0x41] (by decide)
    (hholds 2 (by decide)) ?_ ?_ (hholds 3 (by decide)) [3,0,0,0] [0,4]
    ((smallContext.fileContent smallExt2 (smallContext.inodeAt smallExt2 2).iBlock 1024).drop 9) 1 1 ?_ rfl rfl
    rfl (by decide +kernel) (by decide +kernel) (by decide)
  · change smallContext.Direct (smallContext.inodeAt B 2).iBlock 1 16
    rw [hroot]
    refine ⟨by decide,fun j hj => ?_,fun j hj => ?_,by decide⟩
    · obtain rfl : j = 0 := by omega
      decide +kernel
    · obtain rfl : j = 0 := by omega
      decide +kernel
  · change (smallContext.inodeAt B 2).iSize ≤ _
    rw [hroot]
    decide +kernel
  · change smallContext.fileContent B (smallContext.inodeAt B 2).iBlock (smallContext.inodeAt B 2).iSize = _
    have hsize : (smallContext.inodeAt smallExt2 2).iSize = 1024 := by decide +kernel
    rw [hroot,hsize,hbytes]
    have htake : (smallContext.fileContent smallExt2 (smallContext.inodeAt smallExt2 2).iBlock 1024).take 9 =
        [3,0,0,0,0,4,1,1,0x41] := by decide +kernel
    nth_rewrite 1 [← List.take_append_drop 9
      (smallContext.fileContent smallExt2 (smallContext.inodeAt smallExt2 2).iBlock 1024)]
    rw [htake]
    simp only [List.cons_append,List.nil_append]

/-- A byte appended to the file of the small volume. -/
theorem appended_byte_survives : let E := Env.calm (fun _ => 90) 8
    ∃ s, openPath E smallPath { oWronly with append := true } 0 smallState = .ok ((some 0,0),s) ∧
      Survives E smallContext 3 smallPath 0 0 [.write [0x21]] [0x68,0x65,0x6C,0x6C,0x6F,0x21] s := by
  intro E
  have hE : E.NoFault := ⟨fun _ => rfl,fun _ => rfl,fun _ => rfl⟩
  have hrun : Prog.test (openPath E smallPath { oWronly with append := true } 0) smallState (fun p t =>
      decide (p = (some 0,0)) && (t.files 0).any fun f => decide (f.start = 5 ∧ f.inode.iSize = 5)) = true := by decide +kernel
  obtain ⟨p,s,hopen,hp⟩ := ok_of_test hrun
  obtain ⟨rfl,hfile⟩ : p = (some 0,0) ∧ _ := by simpa only [Bool.and_eq_true,decide_eq_true_eq] using hp
  have hstart (f : FileEnt) (hf : s.files 0 = some f) : f.start = 5 ∧ f.inode.iSize = 5 := by
    simpa only [hf,Option.any_some,decide_eq_true_eq] using hfile
  refine ⟨s,hopen,?_⟩
  have hcontent : (ByteFile.run ⟨smallContext.fileContent smallState.dev.blocks
      (smallContext.inodeAt smallState.dev.blocks 3).iBlock (smallContext.inodeAt smallState.dev.blocks 3).iSize,0⟩
      smallContext true [.write [0x21]]).content = [0x68,0x65,0x6C,0x6C,0x6F,0x21] := by decide +kernel
  rw [← hcontent]
  refine @careful_writes_survive smallContext 3 1 0 s E hE smallState smallPath
    { oWronly with append := true } 0 0 rfl smallExt2_owned (fun B hB => smallPath_leads hE (by decide) hB)
    (.inl rfl) hopen [.write [0x21]] ⟨fun f hf => .inr ?_,fun _ _ _ => trivial⟩
    ⟨fun f hf => .inr ?_,fun _ _ _ => trivial⟩
  · rw [(hstart f hf).1]
    decide +kernel
  · rw [(hstart f hf).1,(hstart f hf).2]
    exact ⟨by decide,.inr (by decide)⟩

/-- A byte written over the first one of the file is lost: nothing marks its sector. -/
theorem overwritten_byte_lost : let E := Env.calm (fun _ => 90) 8
    smallContext.Owned smallExt2 3 1 16 ∧
    (∀ B, smallContext.Elsewhere smallExt2 3 1 B → Leads E smallContext 16 smallPath 3 B) ∧
    ∃ s, openPath E smallPath oWronly 0 smallState = .ok ((some 0,0),s) ∧
      Throughout (FileEnt.Fits smallContext 1) E 0 0 [.write [0x58]] s ∧
      ByteFile.run ⟨[0x68,0x65,0x6C,0x6C,0x6F],0⟩ smallContext false [.write [0x58]] =
        ⟨[0x58,0x65,0x6C,0x6C,0x6F],1⟩ ∧
      ¬ Survives E smallContext 3 smallPath 0 0 [.write [0x58]] [0x58,0x65,0x6C,0x6C,0x6F] s := by
  intro E
  have hE : E.NoFault := ⟨fun _ => rfl,fun _ => rfl,fun _ => rfl⟩
  have hrun : Prog.test (do
      let p ← openPath E smallPath oWronly 0
      let s ← get
      calls E 0 0 [.write [0x58]]
      let _ ← close E (some 0) 0
      let (q,_) ← openPath E smallPath oRdonly 0
      let bytes ← reads E (q.getD 0) [5]
      pure (p,s,bytes)) smallState (fun r _ => decide (r.1 = (some 0,0)) &&
        ((r.2.1.files 0).any fun f => decide (f.start = 0)) && decide (r.2.2 = [0x68,0x65,0x6C,0x6C,0x6F])) = true := by decide +kernel
  obtain ⟨r,z,hrun,hp⟩ := ok_of_test hrun
  obtain ⟨p,s,hopen,hrun⟩ := bind_ok hrun
  rw [bind_of_ok rfl] at hrun
  obtain ⟨_,t,hcalls,hrun⟩ := bind_ok hrun
  obtain ⟨_,u,hclose,hrun⟩ := bind_ok hrun
  obtain ⟨q,v,hreopen,hrun⟩ := bind_ok hrun
  obtain ⟨bytes,w,hreads,hrun⟩ := bind_ok hrun
  obtain ⟨rfl,-⟩ : (p,s,bytes) = r ∧ w = z := by simpa using hrun
  simp only [Bool.and_eq_true,decide_eq_true_eq] at hp
  obtain ⟨⟨rfl,hfile⟩,hbytes⟩ := hp
  have hstart (f : FileEnt) (hf : s.files 0 = some f) : f.start = 0 := by
    simpa only [hf,Option.any_some,decide_eq_true_eq] using hfile
  refine ⟨smallExt2_owned,fun B hB => smallPath_leads hE (by decide) hB,s,hopen,
    ⟨fun f hf => .inr ?_,fun _ _ _ => trivial⟩,by decide +kernel,fun hsurvives => ?_⟩
  · rw [hstart f hf]
    decide +kernel
  · obtain ⟨-,-,hq⟩ := (hsurvives.of_ok hcalls).of_ok hclose
    obtain ⟨fe,hfe,hall⟩ := hq.of_ok hreopen
    rw [hfe] at hreads
    have h := (hall [5]).of_ok hreads
    rw [hbytes] at h
    exact absurd h (by decide)

end Ext2

end Gristle
