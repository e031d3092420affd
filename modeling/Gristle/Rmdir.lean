import Gristle.OpenSlots
import Gristle.Parent

/-! `fat_rmdir`: what its answer says about the path, and what it has done to the medium. -/
namespace Gristle
open Prog

/-! ### What the answer should mean -/

/-- The path names the entry in slot `i` of block `b`. -/
def FatState.Names (E : Env) (s : FatState) (path : List UInt8) (b i : ℕ) : Prop :=
  ∃ names p, Converts (s.garbage E) (pathElements path) names ∧
    Walk s.fatfs s.dev.blocks (s.fatfs.DirBlocks s.dev.blocks) s.fatfs.rootCluster (nameBytes names)
      (.entry p b i)

/-- The entry is that of a subdirectory with the clusters `cs` and nothing in it. -/
structure FatInfo.EmptyDir (g : FatInfo) (B : ℕ → Sector) (b i : ℕ) (cs : List ℕ) : Prop where
  slot : g.LiveSlot B b i
  dir : ((B b).dirent i).isSubdir = true
  chain : g.Chain B (((B b).dirent i).cluster g) cs
  empty : live B ((List.range (g.span cs)).map (g.sectorAt cs)) = []

/-- The medium without the entry and its clusters. -/
def FatInfo.removed (g : FatInfo) (B : ℕ → Sector) (b i : ℕ) (cs : List ℕ) : ℕ → Sector :=
  g.cleared (Function.update B b ((B b).set (i * 32) 0xE5)) cs

/-- On success an empty subdirectory was removed and nothing else; on failure no entry and no cluster. -/
def RmdirSound (E : Env) (path : List UInt8) (s : FatState) (r : ℤ × ℤ) (t : FatState) : Prop :=
  (r.1 = 0 → ∃ b i cs, s.Names E path b i ∧ s.fatfs.EmptyDir s.dev.blocks b i cs ∧
    t.dev.blocks = s.fatfs.removed s.dev.blocks b i cs) ∧
  (r.1 = -1 → EntriesKept s t ∧
    ∀ c < s.fatfs.entries, s.fatfs.entry t.dev.blocks c = 0 → s.fatfs.entry s.dev.blocks c = 0)

/-! ### When it does -/

/-- Nothing fails, and the path names an empty subdirectory within the limits of a path. -/
structure Removable (E : Env) (path : List UInt8) (s : FatState) : Prop where
  noFault : E.NoFault
  short : (pathElements path).length ≤ 20
  names : ∃ b i cs, s.Names E path b i ∧ s.fatfs.EmptyDir s.dev.blocks b i cs

/-- The path cannot be opened, or an entry other than `.` and `..` is listed and what the close stores
goes to the slot it came from. -/
def RefusedSafely (E : Env) (path : List UInt8) (e : ℤ) (s : FatState) : Prop :=
  (fatOpen E path oRdonly 0o777 e).Every s fun r t => ∀ fd : Fd, r.1 = fd.val →
    (rmdirLoop E fd E.fuel r.2).Every t fun q u => q.1 = true ∧
      ((u.fileNum fd).WritesEntry u.fatfs → (u.fileNum fd).UpToDate u.fatfs u.dev.blocks ∧
        u.fatfs.Outside (u.fileNum fd).entrySector)

section Refused
variable {E : Env} {path : List UInt8} {e : ℤ} {s t : FatState} {r : ℤ × ℤ}

theorem RmdirSound.of_blocks (hr : r.1 = -1) (h : t.dev.blocks = s.dev.blocks) : RmdirSound E path s r t :=
  ⟨fun h₀ => absurd (h₀.symm.trans hr) (by decide),fun _ => ⟨.of_blocks h,fun c _ hc => by rwa [h] at hc⟩⟩

/-- A refusal changes at most the times in the directory's own entry. -/
theorem fatRmdir_refused (hg : s.fatfs.Valid s.dev.size) (hcond : RefusedSafely E path e s)
    (h : fatRmdir E path e s = .ok (r,t)) : RmdirSound E path s r t := by
  obtain ⟨⟨i,e'⟩,u,hu,h⟩ := bind_ok h
  have hmedium := fatOpen_sameMedium ⟨rfl,rfl⟩ rfl hu
  rcases fatOpen_session hu with ⟨hi,-⟩ | ⟨fd,hi,hsession⟩
  · obtain rfl : i = -1 := hi
    obtain ⟨rfl,rfl⟩ := pure_ok h
    exact .of_blocks rfl hmedium.blocks
  obtain rfl : i = fd.val := hi
  simp only [dif_pos (slot_cond fd),slot_eq] at h
  simp only [Int.toNat_natCast] at h
  obtain ⟨⟨nonempty,e₁⟩,v,hv,h⟩ := bind_ok h
  obtain ⟨hne,hstore⟩ := (every_of_ok hv).1 ((every_of_ok hu).1 hcond fd rfl)
  obtain rfl : nonempty = true := hne
  have hro := fatOpen_readOnlyAt ⟨rfl,rfl⟩ hu
  have hreads := rmdirLoop_keeps (withFd_keeps (readSlot_rests E fd 32)) E.fuel e' _ _ _ hv hro.quiet
  obtain ⟨hquiet,hmv,hsnap⟩ := hreads
  have hbut := (rmdirLoop_keeps (withFd_keeps (readSlot_sameBut E fd 32)) E.fuel e').of_ok hv
  have hgv : v.fatfs = s.fatfs := hbut.fatfs.trans hsession.but.fatfs
  have hgu : u.fatfs = s.fatfs := hsession.but.fatfs
  have hblocks : v.dev.blocks = s.dev.blocks := hmv.blocks.trans hmedium.blocks
  have hfits : (v.fileNum fd).Fits s.fatfs := by
    rw [← hgu]
    exact hro.fits.congr hsnap
  rw [run_ite,if_pos rfl] at h
  obtain ⟨q,w,hw,h⟩ := bind_ok h
  obtain ⟨rfl,rfl⟩ := pure_ok h
  obtain ⟨⟨-,-,hstored⟩,hkeep⟩ := closeSlot_quiet hw hquiet
  rw [hgv,hblocks] at hstore
  rw [hgv] at hkeep
  by_cases hwrites : (v.fileNum fd).WritesEntry s.fatfs
  · rcases hstored with hb | ⟨reserved,hb⟩
    · exact .of_blocks rfl (hb.trans hblocks)
    obtain ⟨hup,hout⟩ := hstore hwrites
    rw [hblocks] at hb
    refine ⟨fun h₀ => absurd h₀ (by decide),fun _ => ⟨fun b i _ => ?_,fun c hc hzero => ?_⟩⟩
    · rw [hb]
      exact storedOn_ident hfits (fun he => hwrites.2 (.inl he)) hup
    · rw [hb] at hzero
      rwa [hg.table.entry_congr hc fun b hlo hhi => Function.update_of_ne (by unfold FatInfo.Outside at hout; omega) _ _]
        at hzero
  · exact .of_blocks rfl ((hkeep fun h => hwrites h.2).blocks.trans hblocks)

end Refused

/-! ### A directory with nothing but its dot entries -/

/-- The entries `.` and `..` are listed under these names. -/
theorem isDotName_of_isDots {d : DirentS} (h : d.isDots) : isDotName (fatnameToStr d.nameByte) = true := by
  obtain ⟨hname,hext⟩ := h
  have hbytes : d.nameByte = fun i => if h : i < 8 then d.filename ⟨i,h⟩ else if i - 8 < 3 then chSpace else 0 := by
    funext i
    unfold DirentS.nameByte
    rw [hext]
    rfl
  rcases hname with hname | hname
  · rw [hbytes,hname]
    decide
  · rw [hbytes,hname]
    decide

/-- Enough passes for every chain. -/
theorem Env.Ample.chain {E : Env} {g : FatInfo} (hE : E.Ample g) {size : ℕ} (hg : g.Valid size)
    {B : ℕ → Sector} {c : ℕ} {cs : List ℕ} (h : g.Chain B c cs) : cs.length ≤ E.fuel := by
  have hlen := h.length_le
  have hmul := Nat.le_mul_of_pos_right g.entries hg.spc_pos
  unfold Env.Ample at hE
  omega

section NoFault
variable {E : Env} (hE : E.NoFault)
include hE

/-- `fat_rmdir` finds nothing in a directory that lists `.` and `..` at most. -/
theorem rmdirLoop_returns {fd : Fd} {n : ℕ} {e : ℤ} {s : FatState} {c p : ℕ} {secs : List ℕ}
    (hg : s.fatfs.Valid s.dev.size) (h : s.fatfs.Scanned s.dev.blocks c secs)
    (hl : (s.fileNum fd).ListsAt s.fatfs s.dev.blocks c p) (hfuel : (slots secs).length < E.fuel)
    (hn : (listed s.dev.blocks ((slots secs).drop p)).length < n)
    (hdots : ∀ x ∈ listed s.dev.blocks ((slots secs).drop p), ((s.dev.blocks x.1).dirent x.2).isDots) :
    (rmdirLoop E fd n e).Returns s fun q t => q.1 = false ∧ After fd s t s.dev.blocks (t.fileNum fd) := by
  induction n generalizing s p e with
  | zero => omega
  | succ n ih =>
    have hnext := nextDirentLoop_returns hE hg h hl (n := E.fuel) (by rw [List.length_drop]; omega)
    refine hnext.bind fun a t ht => ?_
    obtain ⟨r,e',de⟩ := a
    obtain ⟨ha,ht⟩ := ht
    cases hlist : listed s.dev.blocks ((slots secs).drop p) with
    | nil =>
      simp only [hlist] at ht
      subst ht
      exact returns_ite (fun _ => returns_pure ⟨rfl,ha⟩) (by simp)
    | cons x rest =>
      simp only [hlist] at ht hdots hn
      obtain ⟨⟨e₁,d,heq,hname⟩,-,-,p',hlt,hrest⟩ := ht
      obtain ⟨rfl,rfl,rfl⟩ : r = 0 ∧ e' = e₁ ∧ de = some d := by simpa using heq
      have hdot : isDotName d.dName = true := by
        rw [hname]
        exact isDotName_of_isDots (hdots x (by simp))
      refine returns_ite (by simp) fun _ => ?_
      simp only [Option.elim_some,hdot,if_true]
      have hloop := @ih e' t p' (by rw [ha.fatfs,ha.size]; exact hg) (by rw [ha.fatfs,ha.blocks]; exact h)
        (by rw [ha.fatfs,ha.blocks]; exact hlt) (by rw [ha.blocks,hrest]; simpa using hn)
        (by rw [ha.blocks,hrest]; exact fun y hy => hdots y (by simp [hy]))
      rw [ha.blocks] at hloop
      exact hloop.mono fun q u hu => ⟨hu.1,ha.trans hu.2⟩

/-- `fat_delete` marks the entry of its descriptor first. -/
theorem fatDelete_marks {fd : Fd} {s : FatState} (hlt : (s.fileNum fd).entrySector < s.dev.size) :
    ∃ v, SameBut fd s v ∧ v.dev.blocks = Function.update s.dev.blocks (s.fileNum fd).entrySector
        ((s.dev.blocks (s.fileNum fd).entrySector).set ((s.fileNum fd).entryNumber * 32) 0xE5) ∧
      fatDelete E fd s = (fatFreeClusters E (s.fileNum fd).fullFirstCluster >>= fun _ =>
        updateFile fd fun f => { f with flags := .justOpen }) v := by
  obtain ⟨failed,t,ht,-,hst⟩ := readBuffer_returns hE hlt
  have hu := updateFile_after fd (fun f => { f with buffer := f.buffer.set (f.entryNumber * 32) 0xE5 }) t
  set u := t.setFile fd _
  have hsu := hst.trans hu
  rw [hst.blocks,hst.file] at hsu
  have hes : (u.fileNum fd).entrySector = (s.fileNum fd).entrySector := by rw [hsu.file]
  have hfirst : (u.fileNum fd).fullFirstCluster = (s.fileNum fd).fullFirstCluster := by rw [hsu.file]
  have hin : (u.fileNum fd).entrySector < u.dev.size := by
    rw [hes,hsu.size]
    exact hlt
  obtain ⟨ok,v,hv,-,hwrite,-⟩ := writeBlock_returns hE .fatDelete (u.fileNum fd).buffer hin
  refine ⟨v,IsTrans.trans _ _ _ hsu.but (hwrite.table.sameBut fd),?_,?_⟩
  · rw [hwrite.blocks,hsu.blocks,hsu.file]
  · rw [fatDelete,bind_of_ok rfl,bind_of_ok ht]
    change (writeBlock E .fatDelete (u.fileNum fd).entrySector (u.fileNum fd).buffer >>= fun _ => _) u = _
    rw [bind_of_ok hv,hfirst]

/-- `fat_delete` marks the entry of its descriptor and gives its chain back. -/
theorem fatDelete_returns {fd : Fd} {s : FatState} {cs : List ℕ} (hg : s.fatfs.Valid s.dev.size)
    (hlt : (s.fileNum fd).entrySector < s.dev.size) (hout : s.fatfs.Outside (s.fileNum fd).entrySector)
    (hcs : s.fatfs.Chain s.dev.blocks (s.fileNum fd).fullFirstCluster cs) (hfuel : cs.length ≤ E.fuel) :
    (fatDelete E fd).Returns s fun _ t => SameBut fd s t ∧ (t.fileNum fd).flags = .justOpen ∧
      t.dev.blocks = s.fatfs.removed s.dev.blocks (s.fileNum fd).entrySector (s.fileNum fd).entryNumber cs := by
  obtain ⟨v,hsv,hmark,hrun⟩ := fatDelete_marks hE hlt
  have hgv : v.fatfs = s.fatfs := hsv.fatfs
  have hchain : v.fatfs.Chain v.dev.blocks (s.fileNum fd).fullFirstCluster cs := by
    rw [hgv,hmark]
    refine FatInfo.Chain.congr hcs fun d hd => hg.table.entry_congr (hcs.inRange d hd).2 fun b hlo hhi => ?_
    exact Function.update_of_ne (by unfold FatInfo.Outside at hout; omega) _ _
  have hfree := @fatFreeClusters_returns E hE v (s.fileNum fd).fullFirstCluster cs
    (by rw [hgv,hsv.size]; exact hg.table) hchain hfuel
  rw [Returns,hrun]
  refine hfree.bind fun _ w hw => ?_
  have hsw := IsTrans.trans _ _ _ hsv (hw.2.table.sameBut fd)
  refine (updateFile_returns fd _ w).mono fun _ x hx => ⟨IsTrans.trans _ _ _ hsw hx.but,?_,?_⟩
  · rw [hx.file]
  · rw [hx.blocks,hw.2.blocks,hgv,hmark]
    rfl

/-- Opening a path for reading gives the descriptor of the entry it names. -/
theorem fatOpen_names {path : List UInt8} {flags : OpenFlags} {mode : ℕ} {e e' : ℤ} {s u : FatState} {fd : Fd}
    (hg : s.fatfs.Valid s.dev.size) (hfuel : E.Ample s.fatfs) (hshort : (pathElements path).length ≤ 20)
    {b i : ℕ} (hnames : s.Names E path b i) (hflags : flags.wronly = false ∧ flags.rdwr = false)
    (hcreat : flags.creat = false) (hu : fatOpen E path flags mode e s = .ok (((fd.val : ℤ),e'),u)) :
    After fd s u s.dev.blocks (u.fileNum fd) ∧ ∃ (f : FileS) (p : ℕ), f.Holds E s.fatfs s.dev.blocks s.dev.size p b i ∧
      u.fileNum fd = { f with flags := f.flags.access flags, fileSector := 0 } := by
  obtain ⟨names,p,hconv,hwalk⟩ := hnames
  obtain ⟨o,hscan,ho⟩ := hwalk.scan rfl
  obtain ⟨e₁,v,hlookup,hopened⟩ := fatOpen_reading hflags hcreat hu
  have hlen : path.length ≤ 99 := by
    by_contra hlong
    rw [fatLookupPath,run_ite,if_pos (by omega)] at hlookup
    simp at hlookup
  have hret := @fatLookupPath_returns E hE fd path names e (s.taken fd) o hg
    (fun c secs h => hfuel.scanned hg h) hlen (by rw [List.take_of_length_le hshort]; exact hconv) hscan
    (by rw [FatState.taken,FatState.setFile_self])
  obtain ⟨hafter,-,hrep⟩ := hret.of_ok hlookup
  have htaken := updateFile_after fd (fun f => { f with flags := .justOpen }) s
  have hbefore := htaken.trans hafter
  rcases ho with rfl | rfl | ⟨q,rfl⟩
  · rw [hbefore.blocks] at hopened
    exact ⟨(hbefore.trans hopened).self,_,p,hrep.2,hopened.file⟩
  · exact absurd (congrArg Prod.fst hrep) (by simp)
  · exact absurd (congrArg Prod.fst hrep.1) (by simp)

/-- An empty subdirectory is removed, if the path can be opened at all. -/
theorem fatRmdir_removable {path : List UInt8} {e : ℤ} {s t : FatState} {r : ℤ × ℤ}
    (hg : s.fatfs.Valid s.dev.size) (hfuel : E.Ample s.fatfs) (hshort : (pathElements path).length ≤ 20)
    {b i : ℕ} {cs : List ℕ} (hnames : s.Names E path b i) (hempty : s.fatfs.EmptyDir s.dev.blocks b i cs)
    (h : fatRmdir E path e s = .ok (r,t)) : RmdirSound E path s r t := by
  obtain ⟨⟨k,e'⟩,u,hu,h⟩ := bind_ok h
  rcases fatOpen_session hu with ⟨hk,-⟩ | ⟨fd,hk,-⟩
  · obtain rfl : k = -1 := hk
    obtain ⟨rfl,rfl⟩ := pure_ok h
    exact .of_blocks rfl (fatOpen_sameMedium ⟨rfl,rfl⟩ rfl hu).blocks
  obtain rfl : k = fd.val := hk
  simp only [dif_pos (slot_cond fd),slot_eq] at h
  simp only [Int.toNat_natCast] at h
  obtain ⟨hafter,f,p,hholds,hfile⟩ := fatOpen_names hE hg hfuel hshort hnames ⟨rfl,rfl⟩ rfl hu
  have hchain := hempty.chain
  have hfirst : (u.fileNum fd).fullFirstCluster = ((s.dev.blocks b).dirent i).cluster s.fatfs := by
    have hne : ((s.dev.blocks b).dirent i).cluster s.fatfs ≠ 0 := fun h₀ => by
      have := (hchain.inRange _ hchain.links.head_mem).1
      omega
    rw [hfile]
    exact hholds.first.trans (if_neg hne)
  have hdir : (u.fileNum fd).isSubdir = true := by
    rw [hfile]
    change (f.attributes &&& attSubdir != 0) = true
    rw [hholds.attributes]
    exact hempty.dir
  have hsecs := FatInfo.Scanned.chain hchain
  have hsecsu : u.fatfs.Scanned u.dev.blocks (u.fileNum fd).fullFirstCluster
      ((List.range (s.fatfs.span cs)).map (s.fatfs.sectorAt cs)) := by
    rw [hafter.fatfs,hafter.blocks,hfirst]
    exact hsecs
  have hgu : u.fatfs.Valid u.dev.size := by rwa [hafter.fatfs,hafter.size]
  have hlists := fatOpen_listsAt hE ⟨rfl,rfl⟩ hu hdir hgu hsecsu
  obtain ⟨⟨nonempty,e₂⟩,w,hw,h⟩ := bind_ok h
  have hslots := hfuel.slots hg hsecs
  have hdots : ∀ x ∈ listed u.dev.blocks ((slots ((List.range (s.fatfs.span cs)).map (s.fatfs.sectorAt cs))).drop 0),
      ((u.dev.blocks x.1).dirent x.2).isDots := by
    rw [List.drop_zero,hafter.blocks]
    intro x hx
    by_contra hnot
    have hmem : x ∈ live s.dev.blocks ((List.range (s.fatfs.span cs)).map (s.fatfs.sectorAt cs)) :=
      List.mem_filter.2 ⟨hx,decide_eq_true hnot⟩
    rw [hempty.empty] at hmem
    exact List.not_mem_nil hmem
  have hfew : (listed u.dev.blocks ((slots ((List.range (s.fatfs.span cs)).map (s.fatfs.sectorAt cs))).drop 0)).length <
      E.fuel := by
    rw [List.drop_zero]
    refine lt_of_le_of_lt ?_ hslots
    exact (List.length_filter_le _ _).trans (List.takeWhile_sublist _).length_le
  obtain ⟨hfalse,hafterw⟩ := (rmdirLoop_returns hE hgu hsecsu hlists hslots hfew hdots).of_ok hw
  obtain rfl : nonempty = false := hfalse
  have hro := fatOpen_readOnlyAt ⟨rfl,rfl⟩ hu
  obtain ⟨-,-,hsnap⟩ := rmdirLoop_keeps (withFd_keeps (readSlot_rests E fd 32)) E.fuel e' _ _ _ hw hro.quiet
  simp only [FileS.snapshot,Prod.mk.injEq] at hsnap
  obtain ⟨-,-,-,hfirstw,hsector,hnumber⟩ := hsnap
  rw [hfile] at hsector hnumber
  replace hsector : (w.fileNum fd).entrySector = b := hsector.trans hholds.entrySector
  replace hnumber : (w.fileNum fd).entryNumber = i := hnumber.trans hholds.entryNumber
  have hsw := hafter.trans hafterw.self
  obtain ⟨hlt,hbehind,-⟩ := hempty.slot.mem hg
  rw [run_ite,if_neg Bool.false_ne_true] at h
  obtain ⟨a,x,hx,h⟩ := bind_ok h
  have hdelete := @fatDelete_returns E hE fd w cs (by rwa [hsw.fatfs,hsw.size])
    (by rwa [hsector,hsw.size]) (by rw [hsw.fatfs,hsector]; exact .inr hbehind)
    (by rwa [hsw.fatfs,hsw.blocks,hafter.blocks,hfirstw,hfirst]) (hfuel.chain hg hchain)
  obtain ⟨-,hflags,hbx⟩ := hdelete.of_ok hx
  rw [hsector,hnumber,hsw.fatfs,hsw.blocks,hafter.blocks] at hbx
  rw [bind_of_ok (closeSlot_clean (by rw [hflags]; rfl) (by rw [hflags]; rfl) (by rw [hflags]; rfl)),run_ite,
    if_neg (by simp)] at h
  obtain ⟨rfl,rfl⟩ := pure_ok h
  exact ⟨fun _ => ⟨b,i,cs,hnames,hempty,hbx⟩,fun h₁ => absurd h₁ (by simp)⟩

end NoFault

/-- `DD` -/
def nameDD : ShortName := { nameAA with
  base := [0x44,0x44]
  base_pos := by decide
  base_le := by decide
  base_chars := by decide +kernel }

theorem smallTree_names_dd :
    smallTreeState.Names (Env.calm (fun _ => 90) 9000) [0x2F,0x44,0x44] 2 2 := by
  obtain ⟨ns,hconv,halike⟩ := @converts_names [nameDD] (by simp [ShortName.clear]; decide)
    (smallTreeState.garbage (Env.calm (fun _ => 90) 9000))
  have hwalk : Walk smallFat16 smallTree (smallFat16.DirBlocks smallTree) 1 [some nameDD.byte] (.entry 1 2 2) :=
    .entry smallTree_blocks.1 (by decide +kernel)
  exact ⟨ns,1,hconv,halike.walk hwalk⟩

theorem smallTree_empty_dd : smallFat16.EmptyDir smallTree 2 2 [5] where
  slot := ⟨1,[2],.root,smallTree_blocks.1,by rw [smallTree_live.1]; simp⟩
  dir := by decide +kernel
  chain := smallTree_chain (by decide) (by decide)
  empty := smallTree_live.2.2

end Gristle
