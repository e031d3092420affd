import Gristle.Sharing
import Gristle.FileCalls

/-! A mounted volume beside the file system it is for: the files in the slots of its directories, the open ones
as their descriptors have them. -/
namespace Gristle
open Prog

namespace FatInfo
variable (g : FatInfo) (B : ℕ → Sector)

/-- The directories below the root and their blocks. -/
def LiveBlocks (c : ℕ) (secs : List ℕ) : Prop := g.LiveDir B c ∧ g.DirBlocks B c secs

/-- A path of plain names that leads to slot `q`. -/
def LeadsTo (path : List UInt8) (q : ℕ × ℕ) : Prop :=
  ∃ (names : List ShortName) (p : ℕ), path.length ≤ 99 ∧ names.length ≤ 20 ∧
    pathElements path = names.map ShortName.text ∧ (∀ n ∈ names, n.clear ∧ n.plain = true) ∧
    Walk g B (g.LiveBlocks B) g.rootCluster (names.map fun n => some n.byte) (.entry p q.1 q.2)

/-- A regular file in slot `q`, with the clusters `cs`. -/
structure FileAt (q : ℕ × ℕ) (F : StoredFile) (cs : List ℕ) : Prop where
  slot : g.LiveSlot B q.1 q.2
  regular : ((B q.1).dirent q.2).isSubdir = false
  chain : g.Chain B (((B q.1).dirent q.2).cluster g) cs
  capacity : F.capacity = g.span cs * 512
  locked : F.locked = (((B q.1).dirent q.2).attributes &&& attRo != 0)

/-- The medium has the content of a file and its length. -/
structure Stores (q : ℕ × ℕ) (F : StoredFile) (cs : List ℕ) : Prop where
  size : ((B q.1).dirent q.2).size = F.content.length
  room : F.content.length ≤ F.capacity
  small : F.content.length < 2^31
  content : (List.range F.content.length).map (g.content B cs) = F.content

/-- The descriptors `fds` on the medium `B` are those of the file system `Φ`, and so are the files. -/
structure Hosts (size : ℕ) (T : Tree (ℕ × ℕ)) (fds : Fd → FileS) (Φ : FileSystem (ℕ × ℕ)) : Prop where
  consistent : g.Consistent B
  free : Φ.free = g.freeCount B
  files : ∀ q F, Φ.files q = some F → ∃ cs, g.FileAt B q F cs
  stored : ∀ q F cs, Φ.files q = some F → (∀ n h, Φ.table n = some h → h.file ≠ q) → g.FileAt B q F cs →
    g.Stores B q F cs
  closed : ∀ fd : Fd, Φ.table fd = none ↔ (fds fd).flags.open_ = false
  numbers : ∀ n, maxOpenFiles ≤ n → Φ.table n = none
  opened : ∀ (fd : Fd) h, Φ.table fd = some h → h.file = ((fds fd).entrySector,(fds fd).entryNumber) ∧
    ∃ F cs, Φ.files h.file = some F ∧ (fds fd).Carries g size B cs (Φ.opened h F)
  single : ∀ m n h h', Φ.table m = some h → Φ.table n = some h' → h.file = h'.file → m = n
  paths : ∀ path q F, T.names path = some q → Φ.files q = some F → g.LeadsTo B path q

/-- What does not change while the volume is mounted: it is one the driver can keep in order, and what is said of
it is true. -/
structure Mounted (size : ℕ) (T : Tree (ℕ × ℕ)) : Prop where
  volume : g.Valid size
  narrow : g.entries ≤ g.endClusterMarker
  root : g.rootLen < 256
  unit : T.unit = g.clusterBytes
  readOnly : T.readOnly = true ↔ g.readOnly ≠ 0

end FatInfo

/-- The driver's state is the one of the file system `Φ`. -/
abbrev FatState.Hosts (T : Tree (ℕ × ℕ)) (s : FatState) (Φ : FileSystem (ℕ × ℕ)) : Prop :=
  s.fatfs.Hosts s.dev.blocks s.dev.size T s.fileNum Φ

/-! ### Files and paths that stay -/

section Kept
variable {g : FatInfo} {size : ℕ} {B B' : ℕ → Sector} {q r : ℕ × ℕ} {F : StoredFile} {cs cs' ds : List ℕ}

theorem FatInfo.FileAt.unique (h : g.FileAt B q F cs) (h' : g.FileAt B q F ds) : cs = ds :=
  h.chain.links.unique h'.chain.links

/-- A path still leads to a file that is still there. -/
theorem Retains.leadsTo {gone : Option (ℕ × ℕ)} (h : Retains g gone B B') {path : List UInt8}
    (hpath : g.LeadsTo B path q) (hgone : gone ≠ some q) : g.LeadsTo B' path q := by
  obtain ⟨names,p,hlen,hcount,htext,hnames,hwalk⟩ := hpath
  refine ⟨names,p,hlen,hcount,htext,hnames,h.walk hwalk rfl (fun n hn => ?_) hgone⟩
  obtain ⟨name,-,hbyte⟩ := List.mem_map.1 hn
  obtain rfl := Option.some.inj hbyte
  have hpos : 0 < (name.base.map doschar).length := by
    rw [List.length_map]
    exact name.base_pos
  rw [ShortName.byte,if_pos (by decide),List.getD_eq_getElem _ _ hpos,List.getElem_map]
  exact doschar_ne_deleted _

namespace Enlarged
variable (h : Enlarged g size q.1 q.2 B cs B' cs')
include h

/-- Another file. -/
theorem fileAt (hr : g.FileAt B r F ds) (hne : r ≠ q) : g.FileAt B' r F ds := by
  have hsame := h.other_slot hr.slot hne
  refine ⟨h.retains.liveSlot hr.slot (by simp),?_,?_,hr.capacity,?_⟩
  · rw [hsame]
    exact hr.regular
  · rw [hsame]
    exact h.other_chain (.slot hr.slot hr.chain) hr.chain fun heq => hne (Option.some.inj heq)
  · rw [hsame]
    exact hr.locked

theorem stores (hr : g.FileAt B r F ds) (hne : r ≠ q) (hs : g.Stores B r F ds) : g.Stores B' r F ds := by
  refine ⟨?_,hs.room,hs.small,?_⟩
  · rw [h.other_slot hr.slot hne]
    exact hs.size
  refine Eq.trans ?_ hs.content
  apply List.map_congr_left
  intro i hi
  have hlt := List.mem_range.1 hi
  have hroom := hs.room
  have hcapacity := hr.capacity
  rw [FatInfo.content,FatInfo.content,
    h.other_data hr.slot hr.regular hr.chain hne ⟨i / 512,by omega,rfl⟩]

/-- The file itself. -/
theorem fileAt_self (hq : g.FileAt B q F cs) (content : List UInt8) :
    g.FileAt B' q { F with content := content, capacity := g.span cs' * 512 } cs' := by
  refine ⟨h.retains.liveSlot h.live (by simp),?_,?_,rfl,?_⟩
  · rw [isSubdir_of_title h.title]
    exact h.regular
  · rw [cluster_of_title h.title]
    exact h.after
  · have hattr : ((B' q.1).dirent q.2).attributes = ((B q.1).dirent q.2).attributes :=
      congrArg (fun x => x.2.2.1) h.title
    rw [hattr]
    exact hq.locked

/-- The descriptor of another file. -/
theorem carries {f : FileS} {o : OpenFile} (hr : g.FileAt B r F ds) (hne : r ≠ q)
    (hf : r = (f.entrySector,f.entryNumber)) (hc : f.Carries g size B ds o) :
    f.Carries g size B' ds { o with free := g.freeCount B' } := by
  have hkept := h.fileAt hr hne
  subst hf
  have hsame := h.other_slot hr.slot hne
  apply FileS.Carries.elsewhere hc h.consistent_after.reserved
  · exact h.other_chain (.slot hr.slot hr.chain) hc.chain fun heq => hne (Option.some.inj heq)
  · exact h.consistent_after.apart_entry h.volume hkept.slot hkept.slot hkept.regular hkept.chain
  · exact hsame
  · intro b hb
    exact h.other_data hr.slot hr.regular hr.chain hne hb

end Enlarged

end Kept

/-! ### One file is worked on -/

section Update
variable {s t : FatState} {T : Tree (ℕ × ℕ)} {Φ : FileSystem (ℕ × ℕ)} {fd : Fd} {k : Handle (ℕ × ℕ)}
  {F : StoredFile} {cs cs' : List ℕ} {o : OpenFile} (h : s.Hosts T Φ) (hk : Φ.table fd = some k)
  (hF : Φ.files k.file = some F)
include h hk hF

/-- The file behind an open descriptor. -/
theorem FatInfo.Hosts.file : k.file = ((s.fileNum fd).entrySector,(s.fileNum fd).entryNumber) ∧
    ∃ cs, s.fatfs.FileAt s.dev.blocks k.file F cs ∧ s.Carries fd cs (Φ.opened k F) := by
  obtain ⟨hslot,F',cs,hF',hc⟩ := h.opened fd k hk
  obtain rfl : F = F' := Option.some.inj (hF.symm.trans hF')
  refine ⟨hslot,cs,?_,hc⟩
  obtain ⟨ds,hds⟩ := h.files k.file F hF
  have htitle := hc.named
  rw [FileS.slot] at htitle
  have hfirst : ((s.dev.blocks k.file.1).dirent k.file.2).cluster s.fatfs = (s.fileNum fd).fullFirstCluster := by
    rw [hslot]
    exact congrArg (fun x => x.2.2.2) htitle
  have hchain := hds.chain
  rw [hfirst] at hchain
  obtain rfl := hchain.links.unique hc.chain.links
  exact hds

variable (hw : Working fd s cs t cs' o) (hc : s.Carries fd cs (Φ.opened k F))
include hw hc

/-- What a call left of the volume. -/
theorem FatInfo.Hosts.enlarged : Enlarged s.fatfs s.dev.size k.file.1 k.file.2 s.dev.blocks cs t.dev.blocks cs' := by
  obtain ⟨hslot,ds,hds,hc'⟩ := h.file hk hF
  obtain rfl := hc.chain.links.unique hc'.chain.links
  have hes := FileS.field_of_origin FileS.entrySector (fun _ => rfl) hw.origin
  have hen := FileS.field_of_origin FileS.entryNumber (fun _ => rfl) hw.origin
  have htitle := FileS.field_of_origin FileS.title (fun _ => rfl) hw.origin
  have hfirst := FileS.field_of_origin FileS.fullFirstCluster (fun _ => rfl) hw.origin
  have hnamed := hw.carries.named
  have hrecorded := hw.carries.recorded
  have hchain := hw.carries.chain
  have hgrows := hw.grows
  rw [FileS.slot,hes,hen] at hnamed hrecorded
  rw [htitle,← hc.named,FileS.slot] at hnamed
  rw [hfirst] at hchain
  have hcluster : ((s.dev.blocks k.file.1).dirent k.file.2).cluster s.fatfs = (s.fileNum fd).fullFirstCluster := by
    rw [hslot]
    exact congrArg (fun x => x.2.2.2) hc.named
  rw [← hcluster] at hchain
  rw [hw.carries.capacity] at hrecorded
  rw [hslot] at hds hchain ⊢
  exact {
    toGrows := hgrows
    volume := hc.volume
    consistent := h.consistent
    live := hds.slot
    regular := hds.regular
    before := hds.chain
    title := hnamed
    after := hchain
    recorded := hrecorded }

/-- After a call on a descriptor the state is the one of the file system in which the file has become `o`. -/
theorem FatInfo.Hosts.updated : t.Hosts T (Φ.update fd k F o) := by
  obtain ⟨hslot,ds,hds,hc'⟩ := h.file hk hF
  obtain rfl := hc.chain.links.unique hc'.chain.links
  have hgrown := h.enlarged hk hF hw hc
  have hfree : o.free = s.fatfs.freeCount t.dev.blocks := hw.carries.free
  have hfiles {r : ℕ × ℕ} (hne : r ≠ k.file) : (Φ.update fd k F o).files r = Φ.files r :=
    Function.update_of_ne hne _ _
  have hself : (Φ.update fd k F o).files k.file = some { F with content := o.content, capacity := o.capacity } :=
    Function.update_self _ _ _
  have htable {n : ℕ} (hne : n ≠ fd) : (Φ.update fd k F o).table n = Φ.table n := Function.update_of_ne hne _ _
  have hown : (Φ.update fd k F o).table fd = some { k with pos := o.pos } := Function.update_self _ _ _
  have hnum {j : Fd} (hne : j ≠ fd) : (j : ℕ) ≠ fd := fun heq => hne (Fin.ext heq)
  have hhandle {n : ℕ} {k' : Handle (ℕ × ℕ)} (hk' : (Φ.update fd k F o).table n = some k') :
      ∃ k₀, Φ.table n = some k₀ ∧ k₀.file = k'.file := by
    by_cases hne : n = fd
    · subst hne
      rw [hown] at hk'
      obtain rfl := Option.some.inj hk'
      exact ⟨k,hk,rfl⟩
    · exact ⟨k',(htable hne).symm.trans hk',rfl⟩
  change t.fatfs.Hosts t.dev.blocks t.dev.size T t.fileNum (Φ.update fd k F o)
  rw [hw.but.fatfs,hw.but.size]
  refine ⟨hgrown.consistent_after,hfree,?_,?_,?_,?_,?_,?_,?_⟩
  · -- files
    intro r F' hF'
    by_cases hne : r = k.file
    · subst hne
      rw [hself] at hF'
      obtain rfl := Option.some.inj hF'
      rw [hw.carries.capacity]
      exact ⟨cs',hgrown.fileAt_self hds o.content⟩
    · rw [hfiles hne] at hF'
      obtain ⟨ds,hr⟩ := h.files r F' hF'
      exact ⟨ds,hgrown.fileAt hr hne⟩
  · -- what is stored of the others
    intro r F' es hF' hclosed hr
    have hne : r ≠ k.file := fun heq => hclosed fd _ hown heq.symm
    rw [hfiles hne] at hF'
    obtain ⟨ds,hr₀⟩ := h.files r F' hF'
    obtain rfl := (hgrown.fileAt hr₀ hne).unique hr
    apply hgrown.stores hr₀ hne (h.stored r F' ds hF' (fun n k' hk' heq => ?_) hr₀)
    by_cases hn : n = fd
    · subst hn
      obtain rfl := Option.some.inj (hk.symm.trans hk')
      exact hne heq.symm
    · exact hclosed n k' ((htable hn).trans hk') heq
  · -- which are open
    intro j
    by_cases hne : j = fd
    · subst hne
      simp [hown,hw.carries.open_]
    · rw [htable (hnum hne),hw.but.others j hne]
      exact h.closed j
  · intro n hn
    have := fd.isLt
    rw [htable (by omega)]
    exact h.numbers n hn
  · -- the descriptors
    intro j k' hk'
    by_cases hne : j = fd
    · subst hne
      rw [hown] at hk'
      obtain rfl := Option.some.inj hk'
      have hes := FileS.field_of_origin FileS.entrySector (fun _ => rfl) hw.origin
      have hen := FileS.field_of_origin FileS.entryNumber (fun _ => rfl) hw.origin
      have hread : k.read = o.read := hc.read.symm.trans
        ((FileS.field_of_origin (fun f => f.flags.read) (fun _ => rfl) hw.origin).symm.trans hw.carries.read)
      have hwrite : k.write = o.write := hc.write.symm.trans
        ((FileS.field_of_origin (fun f => f.flags.write) (fun _ => rfl) hw.origin).symm.trans hw.carries.write)
      have happend : k.append = o.append := hc.append.symm.trans
        ((FileS.field_of_origin (fun f => f.flags.append) (fun _ => rfl) hw.origin).symm.trans hw.carries.append)
      have hopened : (Φ.update j k F o).opened { k with pos := o.pos }
          { F with content := o.content, capacity := o.capacity } = o := by
        rw [FileSystem.opened,FileSystem.update]
        simp only [hread,hwrite,happend]
      refine ⟨by rw [hes,hen]; exact hslot,_,cs',hself,?_⟩
      rw [hopened]
      exact hw.carries
    · rw [htable (hnum hne)] at hk'
      rw [hw.but.others j hne]
      obtain ⟨hslot',F',ds,hF',hf⟩ := h.opened j k' hk'
      have hother : k'.file ≠ k.file := fun heq => hnum hne (h.single _ _ _ _ hk' hk heq)
      obtain ⟨-,ds',hr,hf'⟩ := h.file hk' hF'
      obtain rfl := hf.chain.links.unique hf'.chain.links
      refine ⟨hslot',F',ds,(hfiles hother).trans hF',?_⟩
      have hkept := hgrown.carries hr hother hslot' hf
      rw [← hfree] at hkept
      exact hkept
  · intro m n k₁ k₂ h₁ h₂ heq
    obtain ⟨a,ha,hfa⟩ := hhandle h₁
    obtain ⟨b,hb,hfb⟩ := hhandle h₂
    exact h.single m n a b ha hb (hfa.trans (heq.trans hfb.symm))
  · intro path r F' hpath hF'
    have hold : ∃ F₀, Φ.files r = some F₀ := by
      by_cases hne : r = k.file
      · exact ⟨F,hne ▸ hF⟩
      · exact ⟨F',(hfiles hne).symm.trans hF'⟩
    obtain ⟨F₀,hF₀⟩ := hold
    exact hgrown.retains.leadsTo (h.paths path r F₀ hpath hF₀) (by simp)

end Update

/-! ### Descriptors come and go -/

section Table
variable {s t : FatState} {T : Tree (ℕ × ℕ)} {Φ : FileSystem (ℕ × ℕ)} {fd : Fd} {f : FileS}
  (h : s.Hosts T Φ) (ht : After fd s t s.dev.blocks f)
include h ht

/-- The state once descriptor `fd` is another one, or none. -/
theorem FatInfo.Hosts.retable {o : Option (Handle (ℕ × ℕ))} (hclosed : o = none ↔ f.flags.open_ = false)
    (hstored : ∀ k F cs, Φ.table fd = some k → Φ.files k.file = some F → s.fatfs.FileAt s.dev.blocks k.file F cs →
      s.fatfs.Stores s.dev.blocks k.file F cs)
    (hopened : ∀ k, o = some k → k.file = (f.entrySector,f.entryNumber) ∧
      ∃ F cs, Φ.files k.file = some F ∧ f.Carries s.fatfs s.dev.size s.dev.blocks cs (Φ.opened k F))
    (hsingle : ∀ k n k', o = some k → Φ.table n = some k' → k.file = k'.file → n = fd) :
    t.Hosts T { Φ with table := Function.update Φ.table fd o } := by
  have hnum {j : Fd} (hne : j ≠ fd) : (j : ℕ) ≠ fd := fun heq => hne (Fin.ext heq)
  change t.fatfs.Hosts t.dev.blocks t.dev.size T t.fileNum _
  rw [ht.fatfs,ht.size,ht.blocks]
  refine ⟨h.consistent,h.free,h.files,?_,?_,?_,?_,?_,h.paths⟩
  · intro q F cs hF hout hq
    by_cases hmine : ∃ k, Φ.table fd = some k ∧ k.file = q
    · obtain ⟨k,hk,rfl⟩ := hmine
      exact hstored k F cs hk hF hq
    refine h.stored q F cs hF (fun n k hk heq => ?_) hq
    by_cases hn : n = fd
    · subst hn
      exact hmine ⟨k,hk,heq⟩
    · exact hout n k ((Function.update_of_ne hn _ _).trans hk) heq
  · intro j
    by_cases hne : j = fd
    · subst hne
      rw [ht.file]
      change Function.update Φ.table j o j = none ↔ _
      rw [Function.update_self]
      exact hclosed
    · rw [ht.but.others j hne,← h.closed j]
      change Function.update Φ.table fd o j = none ↔ _
      rw [Function.update_of_ne (hnum hne)]
  · intro n hn
    have := fd.isLt
    exact (Function.update_of_ne (by omega) _ _).trans (h.numbers n hn)
  · intro j k hk
    change Function.update Φ.table fd o j = some k at hk
    by_cases hne : j = fd
    · subst hne
      rw [ht.file]
      exact hopened k ((Function.update_self (j : ℕ) o Φ.table).symm.trans hk)
    · rw [Function.update_of_ne (hnum hne)] at hk
      rw [ht.but.others j hne]
      exact h.opened j k hk
  · intro m n k₁ k₂ h₁ h₂ heq
    change Function.update Φ.table fd o m = some k₁ at h₁
    change Function.update Φ.table fd o n = some k₂ at h₂
    rw [Function.update_apply] at h₁ h₂
    split at h₁ <;> split at h₂
    · omega
    · rename_i hm _
      rw [hsingle k₁ n k₂ h₁ h₂ heq,hm]
    · rename_i _ hn
      rw [hsingle k₂ m k₁ h₂ h₁ heq.symm,hn]
    · exact h.single m n k₁ k₂ h₁ h₂ heq

/-- A descriptor with nothing left to write is closed. -/
theorem FatInfo.Hosts.closing {k : Handle (ℕ × ℕ)} (hk : Φ.table fd = some k) (hf : f.flags.open_ = false)
    (hclean : (s.fileNum fd).flags.dirty = false) (hmark : (s.fileNum fd).flags.fsDirty = false) :
    t.Hosts T { Φ with table := Function.update Φ.table fd none } := by
  apply h.retable ht (by simp [hf])
  · intro k' F cs hk' hF hq
    obtain ⟨hslot,ds,hds,hc⟩ := h.file hk' hF
    obtain rfl := hds.unique hq
    have hsize : (s.fileNum fd).size = F.content.length := hc.size_eq
    refine ⟨?_,hc.room,hc.small,?_⟩
    · rw [hslot,← hsize,← hc.stored hmark]
      rfl
    · have hcontent : (List.range (s.fileNum fd).size).map _ = F.content := hc.content
      rw [FileS.flushed_of_clean hclean,hsize] at hcontent
      exact hcontent
  · simp
  · simp

/-- A descriptor is handed out on a file that is not open. -/
theorem FatInfo.Hosts.granted {k : Handle (ℕ × ℕ)} {F : StoredFile} {cs : List ℕ} (hfree : Φ.table fd = none)
    (hk : k.file = (f.entrySector,f.entryNumber)) (hF : Φ.files k.file = some F)
    (hc : f.Carries s.fatfs s.dev.size s.dev.blocks cs (Φ.opened k F))
    (hnew : ∀ n k', Φ.table n = some k' → k'.file ≠ k.file) :
    t.Hosts T { Φ with table := Function.update Φ.table fd (some k) } := by
  apply h.retable ht (by simp [hc.open_])
  · simp [hfree]
  · rintro k' ⟨⟩
    exact ⟨hk,F,cs,hF,hc⟩
  · rintro k₁ n k₂ ⟨⟩ hk₂ heq
    exact absurd heq.symm (hnew n k₂ hk₂)

end Table

end Gristle
