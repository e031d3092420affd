import Gristle.SameTree

/-! What the work on one file leaves of a consistent volume: the tree, the other files and the descriptors that
are open on them. -/
namespace Gristle
open Prog

/-! ### Directory blocks and files -/

namespace FatInfo
variable {g : FatInfo} {size : ℕ} {B : ℕ → Sector} {c b i : ℕ} {cs secs : List ℕ}

/-- Clusters that no directory has hold no block of a directory. -/
theorem LiveDir.not_owns (hc : g.LiveDir B c) (hg : g.Valid size) (hs : g.DirBlocks B c secs) (hb : b ∈ secs)
    (hcs : ∀ d ∈ cs, g.InRange d) (hother : ∀ ds, g.Chain B c ds → ∀ d ∈ ds, d ∉ cs) : ¬ g.Owns cs b := by
  intro hown
  cases hs with
  | fixed h16 =>
    have hfixed := (hg.fat16_of_type h16).fixed
    obtain ⟨k,hk,rfl⟩ := List.mem_map.1 hb
    rw [List.mem_range] at hk
    obtain ⟨d,-,j,-,hd⟩ := hg.owns_cluster hown
    rw [clusterSector] at hd
    omega
  | chain hchain =>
    obtain ⟨q,hq,rfl⟩ := List.mem_map.1 hb
    rw [List.mem_range] at hq
    exact hg.not_owns hchain.inRange hcs (hother _ hchain) ⟨q,hq,rfl⟩ hown

/-- The clusters of a regular file are not those of a directory. -/
theorem Consistent.file_apart (h : g.Consistent B) (hslot : g.LiveSlot B b i)
    (hfile : ((B b).dirent i).isSubdir = false) (hcs : g.Chain B (((B b).dirent i).cluster g) cs)
    (hc : g.LiveDir B c) {ds : List ℕ} (hds : g.Chain B c ds) : ∀ d ∈ ds, d ∉ cs := by
  obtain ⟨o,ho,hdir⟩ := hc.owner hds
  apply h.apart o (some (b,i)) ds cs ho (.slot hslot hcs)
  intro heq
  have := hdir b i heq
  simp only [hfile,Bool.false_eq_true] at this

/-- The block with an entry lies in none of the clusters of a regular file and in no free one. -/
theorem Consistent.apart_entry (h : g.Consistent B) (hg : g.Valid size) {b' i' : ℕ} (hslot' : g.LiveSlot B b' i')
    (hslot : g.LiveSlot B b i) (hfile : ((B b).dirent i).isSubdir = false)
    (hcs : g.Chain B (((B b).dirent i).cluster g) cs) : g.Apart B cs b' := by
  obtain ⟨c,secs,hc,hsecs,hmem⟩ := hslot'
  have hb := (mem_live hmem).1
  have hone {k : ℕ} (hk : g.InRange k) (hother : ∀ ds, g.Chain B c ds → k ∉ ds) {j : ℕ}
      (hj : j < g.sectorsPerCluster) : b' ≠ g.clusterSector k j := by
    intro heq
    apply @LiveDir.not_owns g size B c b' [k] secs hc hg hsecs hb (by simpa using hk)
      fun ds hds d hd hdk => hother ds hds (List.mem_singleton.1 hdk ▸ hd)
    refine ⟨j,?_,?_⟩
    · rw [span,List.length_singleton,Nat.one_mul]
      exact hj
    · rw [sectorAt,Nat.div_eq_of_lt hj,Nat.mod_eq_of_lt hj,List.getD_cons_zero]
      exact heq
  refine ⟨.inr (hsecs.mem hg hb).2,fun k hk j hj => ?_,fun k hk hzero j hj => ?_⟩
  · exact hone (hcs.inRange k hk) (fun ds hds hd => h.file_apart hslot hfile hcs hc hds k hd hk) hj
  · exact hone hk (fun ds hds hd => hds.entry_ne_zero hg hd hzero) hj

end FatInfo

/-! ### One file grows -/

/-- Work on one regular file of a consistent volume: its chain `cs` has become `cs'`, and of its entry only the
size and the dates are others. -/
structure Enlarged (g : FatInfo) (size es en : ℕ) (B : ℕ → Sector) (cs : List ℕ) (B' : ℕ → Sector)
    (cs' : List ℕ) : Prop extends Grows g es en B cs B' cs' where
  volume : g.Valid size
  consistent : g.Consistent B
  live : g.LiveSlot B es en
  regular : ((B es).dirent en).isSubdir = false
  before : g.Chain B (((B es).dirent en).cluster g) cs
  title : ((B' es).dirent en).title g = ((B es).dirent en).title g
  after : g.Chain B' (((B es).dirent en).cluster g) cs'
  recorded : ((B' es).dirent en).size ≤ g.span cs' * 512

namespace Enlarged
variable {g : FatInfo} {size es en : ℕ} {B B' : ℕ → Sector} {cs cs' : List ℕ}
  (h : Enlarged g size es en B cs B' cs')
include h

/-- Another owner of clusters has none of those of the file. -/
theorem other_clusters {o : Option (ℕ × ℕ)} {ds : List ℕ} (ho : g.Owner B o ds) (hne : o ≠ some (es,en)) :
    ∀ d ∈ ds, d ∉ cs' := by
  intro d hd hmem
  have hused : g.entry B d ≠ 0 := by
    cases ho with
    | root hchain => exact hchain.entry_ne_zero h.volume hd
    | slot _ hchain => exact hchain.entry_ne_zero h.volume hd
  by_cases hold : d ∈ cs
  · exact h.consistent.apart o (some (es,en)) ds cs ho (.slot h.live h.before) hne d hd hold
  · exact hused (h.fresh d hmem hold)

/-- Another owner keeps its chain. -/
theorem other_chain {o : Option (ℕ × ℕ)} {a : ℕ} {ds : List ℕ} (ho : g.Owner B o ds)
    (hds : g.Chain B a ds) (hne : o ≠ some (es,en)) : g.Chain B' a ds :=
  hds.congr fun d hd => h.table d (hds.inRange d hd).2 (h.other_clusters ho hne d hd)

theorem dir_clusters {c : ℕ} (hc : g.LiveDir B c) {ds : List ℕ} (hds : g.Chain B c ds) :
    (∀ d ∈ ds, d ∉ cs') ∧ g.Chain B' c ds := by
  obtain ⟨o,ho,hdir⟩ := hc.owner hds
  have hne : o ≠ some (es,en) := by
    intro heq
    have := hdir es en heq
    simp only [h.regular,Bool.false_eq_true] at this
  exact ⟨h.other_clusters ho hne,h.other_chain ho hds hne⟩

/-- Another slot of a directory stays as it is. -/
theorem dir_slot {c : ℕ} {secs : List ℕ} (hc : g.LiveDir B c) (hs : g.DirBlocks B c secs) {q : ℕ × ℕ}
    (hq : q ∈ slots secs) (hne : q ≠ (es,en)) : (B' q.1).dirent q.2 = (B q.1).dirent q.2 := by
  obtain ⟨hb,hi⟩ := FatInfo.mem_slots.1 hq
  have hnot : ¬ g.Owns cs' q.1 := hc.not_owns h.volume hs hb h.inRange fun ds hds => (h.dir_clusters hc hds).1
  have hout : g.Outside q.1 := .inr (hs.mem h.volume hb).2
  apply dirent_congr
  intro k hk
  by_cases heq : q.1 = es
  · have hen : q.2 ≠ en := fun h => hne (Prod.ext heq h)
    rw [heq] at hnot hout ⊢
    exact h.slot _ (by omega) hnot hout
  · rw [h.blocks q.1 hout hnot heq]

theorem other_slot {q : ℕ × ℕ} (hs : g.LiveSlot B q.1 q.2) (hne : q ≠ (es,en)) :
    (B' q.1).dirent q.2 = (B q.1).dirent q.2 := by
  obtain ⟨c,secs,hc,hblocks,hmem⟩ := hs
  have hin := FatInfo.mem_live hmem
  exact h.dir_slot hc hblocks (FatInfo.mem_slots.2 ⟨hin.1,hin.2.1⟩) hne

/-- What another regular file has stored stays. -/
theorem other_data {q : ℕ × ℕ} (hs : g.LiveSlot B q.1 q.2) (hfile : ((B q.1).dirent q.2).isSubdir = false)
    {ds : List ℕ} (hds : g.Chain B (((B q.1).dirent q.2).cluster g) ds) (hne : q ≠ (es,en)) {b : ℕ}
    (hb : g.Owns ds b) : B' b = B b := by
  apply h.blocks b (h.volume.owns_outside hb)
  · apply h.volume.not_owns hds.inRange h.inRange ?_ hb
    exact h.other_clusters (.slot hs hds) fun heq => hne (Option.some.inj heq)
  · rintro rfl
    exact (h.consistent.apart_entry h.volume h.live hs hfile hds).not_owns h.volume hb

/-- The tree stays. -/
theorem retains : Retains g none B B' where
  chains _ _ hc hds := (h.dir_clusters hc hds).2
  titles c secs hc hs q hq _ := by
    by_cases hne : q = (es,en)
    · rw [hne]
      exact h.title
    · rw [h.dir_slot hc hs hq hne]
  deleted _ h := by simp at h
  file _ h := by simp at h

/-- No cluster is free that was not. -/
theorem busier : g.Busier B B' := by
  intro c hc hzero
  by_cases hmem : c ∈ cs'
  · exact absurd hzero (h.after.entry_ne_zero h.volume hmem)
  · rw [← h.table c hc hmem,hzero]

/-- The volume stays consistent. -/
theorem consistent_after : g.Consistent B' := by
  have hzero {B : ℕ → Sector} {ds : List ℕ} (h : g.Chain B 0 ds) : False := by
    have := (h.inRange 0 h.links.head_mem).1
    omega
  apply h.retains.consistent h.consistent h.volume (some (es,en)) (h.consistent.reserved.congr h.volume h.busier)
  · intro b i hs hdir
    obtain ⟨hs,-⟩ := (h.retains.liveSlot_iff h.consistent).1 hs
    by_cases heq : (b,i) = (es,en)
    · obtain ⟨rfl,rfl⟩ := Prod.mk.inj heq
      rw [cluster_of_title h.title]
      refine ⟨cs',.inr ⟨fun hfirst => ?_,h.after⟩,h.recorded⟩
      exact hzero (hfirst ▸ h.after)
    · have hsame := @other_slot _ _ _ _ _ _ _ _ h (b,i) hs heq
      dsimp only at hsame
      rw [hsame] at hdir ⊢
      obtain ⟨ds,hds,hle⟩ := h.consistent.files b i hs hdir
      refine ⟨ds,hds.imp id fun hds => ⟨hds.1,?_⟩,hle⟩
      exact h.other_chain (.slot hs hds.2) hds.2 fun h => heq (Option.some.inj h)
  · intro o ds' ho
    cases ho with
    | root hchain =>
      obtain ⟨secs,hsecs⟩ := h.consistent.root
      generalize hroot : g.rootCluster = c at *
      cases hsecs with
      | fixed h16 =>
        have := (hchain.inRange 1 hchain.links.head_mem).1
        omega
      | @chain c ds hds =>
        subst hroot
        have hsame := (h.dir_clusters .root hds).2
        obtain rfl := hsame.links.unique hchain.links
        exact ⟨ds,.root hds,fun d hd => .inl hd⟩
    | @slot b i _ hs hchain =>
      obtain ⟨hs,-⟩ := (h.retains.liveSlot_iff h.consistent).1 hs
      by_cases heq : (b,i) = (es,en)
      · obtain ⟨rfl,rfl⟩ := Prod.mk.inj heq
        rw [cluster_of_title h.title] at hchain
        obtain rfl := hchain.links.unique h.after.links
        refine ⟨cs,.slot h.live h.before,fun d hd => ?_⟩
        by_cases hold : d ∈ cs
        · exact .inl hold
        · exact .inr ⟨h.fresh d hd hold,rfl⟩
      · have hsame := @other_slot _ _ _ _ _ _ _ _ h (b,i) hs heq
        dsimp only at hsame
        rw [hsame] at hchain
        have hne : some (b,i) ≠ some (es,en) := fun h => heq (Option.some.inj h)
        obtain ⟨ds,hds⟩ : ∃ ds, g.Chain B (((B b).dirent i).cluster g) ds := by
          cases hdir : ((B b).dirent i).isSubdir with
          | true => exact h.consistent.subdirs b i hs hdir
          | false =>
            obtain ⟨ds,⟨hfirst,-⟩ | ⟨-,hds⟩,-⟩ := h.consistent.files b i hs hdir
            · exact (hzero (hfirst ▸ hchain)).elim
            · exact ⟨ds,hds⟩
        have hkept := h.other_chain (.slot hs hds) hds hne
        obtain rfl := hkept.links.unique hchain.links
        exact ⟨ds,.slot hs hds,fun d hd => .inl hd⟩

end Enlarged

end Gristle
