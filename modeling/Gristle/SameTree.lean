import Gristle.Serving

/-! A volume whose directories stay: the entries may get other sizes and dates, a file may get more clusters,
and one file may go. The tree, the paths of its other files and its consistency stay. -/
namespace Gristle
open Prog

/-! ### Slots with the same name -/

section Title
variable {g : FatInfo} {b b' : Sector} {i j : ℕ} (h : (b'.dirent j).title g = (b.dirent i).title g)
include h

/-- The name and the attributes are the first twelve bytes of a slot. -/
theorem get_of_title {k : ℕ} (hk : k < 12) : b'.get (32*j + k) = b.get (32*i + k) := by
  have hname : (b'.dirent j).filename = (b.dirent i).filename := congrArg Prod.fst h
  have hext : (b'.dirent j).extension = (b.dirent i).extension := congrArg (fun x => x.2.1) h
  have hattr : (b'.dirent j).attributes = (b.dirent i).attributes := congrArg (fun x => x.2.2.1) h
  by_cases h8 : k < 8
  · exact congrFun hname ⟨k,h8⟩
  by_cases h11 : k < 11
  · have := congrFun hext ⟨k - 8,by omega⟩
    change b'.get (32*j + 8 + (k - 8)) = b.get (32*i + 8 + (k - 8)) at this
    rwa [show 32*j + 8 + (k - 8) = 32*j + k by omega,show 32*i + 8 + (k - 8) = 32*i + k by omega] at this
  · obtain rfl : k = 11 := by omega
    exact hattr

theorem emptyAt_of_title : b'.emptyAt j ↔ b.emptyAt i := by
  rw [Sector.emptyAt,Sector.emptyAt,← Nat.add_zero (32*j),get_of_title h (by decide)]
  rfl

theorem carries_of_title (n : ℕ → UInt8) : b'.carries n j ↔ b.carries n i := by
  have hcmp := @strncmpEq_congr_right n (fun k => b'.get (32*j + k)) (fun k => b.get (32*i + k)) 11 0
    fun k _ hk => get_of_title h (by omega)
  rw [Sector.carries,Sector.carries,hcmp]

theorem isSkipped_of_title : (b'.dirent j).isSkipped = (b.dirent i).isSkipped := by
  have hname : (b'.dirent j).filename = (b.dirent i).filename := congrArg Prod.fst h
  have hattr : (b'.dirent j).attributes = (b.dirent i).attributes := congrArg (fun x => x.2.2.1) h
  rw [DirentS.isSkipped,DirentS.isSkipped,hname,hattr]

theorem isDots_of_title : (b'.dirent j).isDots ↔ (b.dirent i).isDots := by
  have hname : (b'.dirent j).filename = (b.dirent i).filename := congrArg Prod.fst h
  have hext : (b'.dirent j).extension = (b.dirent i).extension := congrArg (fun x => x.2.1) h
  rw [DirentS.isDots,DirentS.isDots,hname,hext]

theorem isSubdir_of_title : (b'.dirent j).isSubdir = (b.dirent i).isSubdir := by
  have hattr : (b'.dirent j).attributes = (b.dirent i).attributes := congrArg (fun x => x.2.2.1) h
  rw [DirentS.isSubdir,DirentS.isSubdir,hattr]

theorem cluster_of_title : (b'.dirent j).cluster g = (b.dirent i).cluster g := congrArg (fun x => x.2.2.2) h

end Title

theorem FatInfo.Consistent.dir_blocks {g : FatInfo} {B : ℕ → Sector} {c : ℕ} (h : g.Consistent B)
    (hc : g.LiveDir B c) : ∃ secs, g.DirBlocks B c secs := by
  cases hc with
  | root => exact h.root
  | @sub c b i secs parent blocks slot dir =>
    obtain ⟨cs,hcs⟩ := h.subdirs b i ⟨c,secs,parent,blocks,slot⟩ dir
    exact ⟨_,.chain hcs⟩

/-! ### Directories that stay -/

/-- The directories keep their clusters, and their slots keep names, attributes and first clusters, but for the
slot `gone`, whose file was deleted. -/
structure Retains (g : FatInfo) (gone : Option (ℕ × ℕ)) (B B' : ℕ → Sector) : Prop where
  chains : ∀ c cs, g.LiveDir B c → g.Chain B c cs → g.Chain B' c cs
  titles : ∀ c secs, g.LiveDir B c → g.DirBlocks B c secs → ∀ q ∈ slots secs, gone ≠ some q →
    ((B' q.1).dirent q.2).title g = ((B q.1).dirent q.2).title g
  deleted : ∀ q : ℕ × ℕ, gone = some q → (B' q.1).get (32*q.2) = 0xE5
  file : ∀ q : ℕ × ℕ, gone = some q → ¬ (B q.1).emptyAt q.2 ∧ ((B q.1).dirent q.2).isSubdir = false

namespace Retains
variable {g : FatInfo} {gone : Option (ℕ × ℕ)} {B B' : ℕ → Sector} {c : ℕ} {secs : List ℕ}
  (h : Retains g gone B B')
include h

theorem dirBlocks (hc : g.LiveDir B c) (hs : g.DirBlocks B c secs) : g.DirBlocks B' c secs := by
  cases hs with
  | fixed h16 => exact .fixed h16
  | chain hcs => exact .chain (h.chains _ _ hc hcs)

section Blocks
variable (hc : g.LiveDir B c) (hs : g.DirBlocks B c secs)
include hc hs

theorem emptyAt {q : ℕ × ℕ} (hq : q ∈ slots secs) : (B' q.1).emptyAt q.2 ↔ (B q.1).emptyAt q.2 := by
  by_cases hgone : gone = some q
  · refine iff_of_false (fun hempty => ?_) (h.file q hgone).1
    rw [Sector.emptyAt,h.deleted q hgone] at hempty
    exact absurd hempty (by decide)
  · exact emptyAt_of_title (h.titles c secs hc hs q hq hgone)

theorem entries_eq : entries B' (slots secs) = entries B (slots secs) :=
  takeWhile_congr fun q hq => by rw [decide_eq_decide.2 (not_congr (h.emptyAt hc hs hq))]

/-- The same slots stand for files and subdirectories, but for the one that is gone. -/
theorem mem_live {q : ℕ × ℕ} : q ∈ live B' secs ↔ q ∈ live B secs ∧ gone ≠ some q := by
  simp only [live,listed,h.entries_eq hc hs,List.mem_filter,Bool.not_eq_true',decide_eq_true_eq]
  by_cases hgone : gone = some q
  · have hskip : ((B' q.1).dirent q.2).isSkipped = true := by
      have hfirst : ((B' q.1).dirent q.2).filename 0 = 0xE5 := h.deleted q hgone
      rw [DirentS.isSkipped,hfirst]
      simp
    simp [hgone,hskip]
  · constructor
    · rintro ⟨⟨hentry,hskip⟩,hdots⟩
      have htitle := h.titles c secs hc hs q (mem_of_mem_entries hentry) hgone
      exact ⟨⟨⟨hentry,(isSkipped_of_title htitle).symm.trans hskip⟩,
        fun hd => hdots ((isDots_of_title htitle).2 hd)⟩,hgone⟩
    · rintro ⟨⟨⟨hentry,hskip⟩,hdots⟩,-⟩
      have htitle := h.titles c secs hc hs q (mem_of_mem_entries hentry) hgone
      exact ⟨⟨hentry,(isSkipped_of_title htitle).trans hskip⟩,fun hd => hdots ((isDots_of_title htitle).1 hd)⟩

/-- A search finds what it found, if that is still there. -/
theorem search {n : ℕ → UInt8} (hn : n 0 ≠ 0xE5) {q : ℕ × ℕ} (hq : searchBlocks n B secs = some q)
    (hgone : gone ≠ some q) : searchBlocks n B' secs = some q := by
  have hcarries {r : ℕ × ℕ} (hr : r ∈ slots secs) (hc' : (B' r.1).carries n r.2) : (B r.1).carries n r.2 := by
    by_cases hg : gone = some r
    · rw [Sector.carries,strncmpEq,if_pos (by rw [Nat.add_zero,h.deleted r hg]; exact hn)] at hc'
      exact absurd hc' (by decide)
    · exact (carries_of_title (h.titles c secs hc hs r hr hg) n).1 hc'
  rw [searchBlocks_eq_find,List.find?_eq_some_iff_append] at hq ⊢
  obtain ⟨hfound,l,l',hsplit,hbefore⟩ := hq
  have hmem {r : ℕ × ℕ} (hr : r ∈ l ∨ r = q) : r ∈ slots secs := by
    apply mem_of_mem_entries (B := B)
    rw [hsplit]
    rcases hr with hr | rfl
    · exact List.mem_append_left _ hr
    · simp
  refine ⟨decide_eq_true ?_,l,l',?_,?_⟩
  · exact (carries_of_title (h.titles c secs hc hs q (hmem (.inr rfl)) hgone) n).2 (of_decide_eq_true hfound)
  · rw [h.entries_eq hc hs,hsplit]
  · intro r hr
    have hnot : ¬ (B r.1).carries n r.2 := by simpa using hbefore r hr
    simpa using fun hc' => hnot (hcarries (hmem (.inl hr)) hc')

end Blocks

/-! ### The tree -/

theorem sub_ne {b i : ℕ} (hdir : ((B b).dirent i).isSubdir = true) : gone ≠ some (b,i) := by
  intro hgone
  have := (h.file _ hgone).2
  simp only [hdir,Bool.true_eq_false] at this

theorem liveDir (hc : g.LiveDir B c) : g.LiveDir B' c := by
  induction hc with
  | root => exact .root
  | @sub c b i secs parent blocks slot dir ih =>
    have hgone := h.sub_ne dir
    have htitle := h.titles c secs parent blocks _ (FatInfo.mem_slots.2 ⟨(FatInfo.mem_live slot).1,
      (FatInfo.mem_live slot).2.1⟩) hgone
    rw [← cluster_of_title htitle]
    exact .sub ih (h.dirBlocks parent blocks) ((h.mem_live parent blocks).2 ⟨slot,hgone⟩)
      ((isSubdir_of_title htitle).trans dir)

theorem liveSlot {b i : ℕ} (hs : g.LiveSlot B b i) (hgone : gone ≠ some (b,i)) : g.LiveSlot B' b i := by
  obtain ⟨c,secs,hc,hblocks,hmem⟩ := hs
  exact ⟨c,secs,h.liveDir hc,h.dirBlocks hc hblocks,(h.mem_live hc hblocks).2 ⟨hmem,hgone⟩⟩

theorem title_eq {b i : ℕ} (hs : g.LiveSlot B b i) (hgone : gone ≠ some (b,i)) :
    ((B' b).dirent i).title g = ((B b).dirent i).title g := by
  obtain ⟨c,secs,hc,hblocks,hmem⟩ := hs
  have hslot := FatInfo.mem_live hmem
  exact h.titles c secs hc hblocks (b,i) (FatInfo.mem_slots.2 ⟨hslot.1,hslot.2.1⟩) hgone

section Consistent
variable (hcons : g.Consistent B)
include hcons

/-- There are no other directories than before. -/
theorem liveDir_rev (hc : g.LiveDir B' c) : g.LiveDir B c := by
  induction hc with
  | root => exact .root
  | @sub c b i secs parent blocks slot dir ih =>
    obtain ⟨secs',hsecs⟩ := hcons.dir_blocks ih
    obtain rfl := (h.dirBlocks ih hsecs).unique blocks
    obtain ⟨hmem,hgone⟩ := (h.mem_live ih hsecs).1 slot
    have htitle := h.title_eq ⟨c,_,ih,hsecs,hmem⟩ hgone
    rw [cluster_of_title htitle]
    exact .sub ih hsecs hmem ((isSubdir_of_title htitle).symm.trans dir)

/-- The same slots stand for files and subdirectories, but for the one that is gone. -/
theorem liveSlot_iff {b i : ℕ} : g.LiveSlot B' b i ↔ g.LiveSlot B b i ∧ gone ≠ some (b,i) := by
  constructor
  · rintro ⟨c,secs,hc,hblocks,hmem⟩
    have hc' := h.liveDir_rev hcons hc
    obtain ⟨secs',hsecs⟩ := hcons.dir_blocks hc'
    obtain rfl := (h.dirBlocks hc' hsecs).unique hblocks
    obtain ⟨hmem,hgone⟩ := (h.mem_live hc' hsecs).1 hmem
    exact ⟨⟨c,_,hc',hsecs,hmem⟩,hgone⟩
  · rintro ⟨hs,hgone⟩
    exact h.liveSlot hs hgone

/-- The volume stays consistent when the clusters of the files do not get mixed up: whoever has clusters had
them before, or they were free and went to the one file `o₀`. -/
theorem consistent {size : ℕ} (hg : g.Valid size) (o₀ : Option (ℕ × ℕ)) (hreserved : g.Reserved B')
    (hfiles : ∀ b i, g.LiveSlot B' b i → ((B' b).dirent i).isSubdir = false →
      ∃ cs, g.FileChain B' (((B' b).dirent i).cluster g) cs ∧ ((B' b).dirent i).size ≤ g.span cs * 512)
    (howner : ∀ o ds', g.Owner B' o ds' → ∃ ds, g.Owner B o ds ∧
      ∀ d ∈ ds', d ∈ ds ∨ g.entry B d = 0 ∧ o = o₀) : g.Consistent B' where
  reserved := hreserved
  root := by
    obtain ⟨secs,hsecs⟩ := hcons.root
    exact ⟨secs,h.dirBlocks .root hsecs⟩
  subdirs b i hs hdir := by
    obtain ⟨⟨c,secs,hc,hblocks,hmem⟩,hgone⟩ := (h.liveSlot_iff hcons).1 hs
    have htitle := h.title_eq ⟨c,secs,hc,hblocks,hmem⟩ hgone
    have hdir' := (isSubdir_of_title htitle).symm.trans hdir
    obtain ⟨cs,hcs⟩ := hcons.subdirs b i ⟨c,secs,hc,hblocks,hmem⟩ hdir'
    rw [cluster_of_title htitle]
    exact ⟨cs,h.chains _ cs (.sub hc hblocks hmem hdir') hcs⟩
  files := hfiles
  apart o o' cs cs' ho ho' hne c hc hc' := by
    have hused {o : Option (ℕ × ℕ)} {ds : List ℕ} {d : ℕ} (hd : g.Owner B o ds) (hmem : d ∈ ds) :
        g.entry B d ≠ 0 := by
      cases hd with
      | root hchain => exact hchain.entry_ne_zero hg hmem
      | slot _ hchain => exact hchain.entry_ne_zero hg hmem
    obtain ⟨ds,hds,hfrom⟩ := howner o cs ho
    obtain ⟨ds',hds',hfrom'⟩ := howner o' cs' ho'
    rcases hfrom c hc with hmem | ⟨hzero,rfl⟩
    · rcases hfrom' c hc' with hmem' | ⟨hzero,-⟩
      · exact hcons.apart o o' ds ds' hds hds' hne c hmem hmem'
      · exact hused hds hmem hzero
    · rcases hfrom' c hc' with hmem' | ⟨-,heq⟩
      · exact hused hds' hmem' hzero
      · exact hne heq.symm

end Consistent

/-! ### Paths -/

/-- A walk that ends at an entry that is still there. -/
theorem walk {names : List (Option (ℕ → UInt8))} {o : Outcome} {p b i : ℕ}
    (hw : Walk g B (fun c secs => g.LiveDir B c ∧ g.DirBlocks B c secs) c names o) (ho : o = .entry p b i)
    (hn : ∀ n, some n ∈ names → n 0 ≠ 0xE5) (hgone : gone ≠ some (b,i)) :
    Walk g B' (fun c secs => g.LiveDir B' c ∧ g.DirBlocks B' c secs) c names o := by
  induction hw with
  | root => simp at ho
  | noName => simp at ho
  | missing => simp at ho
  | badPath => simp at ho
  | notDir => simp at ho
  | @entry c b' i' secs n blocks search =>
    obtain ⟨rfl,rfl,rfl⟩ := Outcome.entry.inj ho
    obtain ⟨hc,hs⟩ := blocks
    exact .entry ⟨h.liveDir hc,h.dirBlocks hc hs⟩ (h.search hc hs (hn n (by simp)) search hgone)
  | @down c b' i' secs n m rest o blocks search dir tail ih =>
    obtain ⟨hc,hs⟩ := blocks
    have hsub := h.sub_ne dir
    obtain ⟨hb,hi,-⟩ := searchBlocks_some search
    have htitle := h.titles c secs hc hs (b',i') (FatInfo.mem_slots.2 ⟨hb,hi⟩) hsub
    have hfirst : g.first ((B' b').dirent i') = g.first ((B b').dirent i') := by
      rw [FatInfo.first,FatInfo.first,cluster_of_title htitle]
    apply Walk.down ⟨h.liveDir hc,h.dirBlocks hc hs⟩ (h.search hc hs (hn n (by simp)) search hsub)
      ((isSubdir_of_title htitle).trans dir)
    rw [hfirst]
    exact ih ho fun n hm => hn n (by simp [hm])

end Retains

end Gristle
