import Gristle.Cursor

/-! What a descriptor with a chain of its own does to the medium: it writes the sectors of its
chain, lets the chain grow by free clusters and stores its directory entry. -/
namespace Gristle
open Prog

/-! ### Chains -/

namespace FatInfo
variable {g : FatInfo} {size : ℕ}

theorem Chain.entry_ne_zero {B : ℕ → Sector} {a c : ℕ} {cs : List ℕ} (h : g.Chain B a cs)
    (hg : g.Valid size) (hc : c ∈ cs) : g.entry B c ≠ 0 := by
  intro hzero
  have hm := hg.table.kind.marker_pos
  have hnext : g.next B c = some 0 := by rw [FatInfo.next,hzero,if_neg (by omega)]
  have := (h.inRange 0 (h.links.next_mem hc hnext)).1
  omega

/-- A chain has no more clusters than the table has entries. -/
theorem Chain.length_le {B : ℕ → Sector} {a : ℕ} {cs : List ℕ} (h : g.Chain B a cs) :
    cs.length ≤ g.entries - 2 := by
  have hsub : cs.toFinset ⊆ Finset.Ico 2 g.entries := by
    intro c hc
    rw [List.mem_toFinset] at hc
    exact Finset.mem_Ico.2 (h.inRange c hc)
  have hcard := Finset.card_le_card hsub
  rwa [List.toFinset_card_of_nodup h.links.nodup,Nat.card_Ico] at hcard

theorem Chain.span_le {B : ℕ → Sector} {a : ℕ} {cs : List ℕ} (h : g.Chain B a cs)
    (hg : g.Valid size) : g.span cs ≤ 2^32 := by
  have h₁ := Nat.mul_le_mul h.length_le (Nat.le_refl g.sectorsPerCluster)
  have h₂ := hg.data
  have h₃ := hg.size
  unfold FatInfo.span
  omega

/-- A free cluster marked as an end and linked behind the last cluster of a chain extends it,
if its number does not end a chain itself. -/
theorem Chain.linked {B : ℕ → Sector} {a c k : ℕ} {cs : List ℕ} (h : g.Chain B a cs)
    (hg : g.Valid size) (hlt : k < g.endClusterMarker) (hc : c ∈ cs) (hlast : g.next B c = none)
    (hk : g.InRange k) (hfree : g.entry B k = 0) : g.Chain (g.linked B c k) a (cs ++ [k]) := by
  have hkc : k ≠ c := by
    rintro rfl
    exact h.entry_ne_zero hg hc hfree
  have hcr := h.inRange c hc
  have hkfits := hg.cluster_lt hk.2
  have hentry (d : ℕ) (hd : d < g.entries) (hdc : d ≠ c) (hdk : d ≠ k) :
      g.entry (g.linked B c k) d = g.entry B d := by
    rw [FatInfo.linked,hg.table.entry_setEntry_of_ne _ hcr.2 hd hdc,hg.table.entry_setEntry_of_ne _ hk.2 hd hdk]
  refine ⟨h.links.extend hlast ?_ ?_ (fun d hd hdc => ?_) hc,fun d hd => ?_⟩
  · rw [FatInfo.next,FatInfo.linked,hg.table.entry_setEntry _ hcr.2 hkfits,if_neg (by omega)]
  · rw [FatInfo.next,FatInfo.linked,hg.table.entry_setEntry_of_ne _ hcr.2 hk.2 hkc,
      hg.table.entry_setEntry _ hk.2 hg.table.kind.endMark_lt,if_pos hg.table.kind.marker_le_endMark]
  · have hdk : d ≠ k := by
      rintro rfl
      exact h.entry_ne_zero hg hd hfree
    rw [FatInfo.next,FatInfo.next,hentry d (h.inRange d hd).2 hdc hdk]
  · rcases List.mem_append.1 hd with hd | hd
    · exact h.inRange d hd
    · exact List.mem_singleton.1 hd ▸ hk

/-- The blocks that hold no part of the table. -/
def Outside (g : FatInfo) (b : ℕ) : Prop :=
  b < g.activeFatStart ∨ g.activeFatStart + g.sectorsPerFat ≤ b

/-- The block is a sector of a cluster of this chain. -/
def Owns (g : FatInfo) (cs : List ℕ) (b : ℕ) : Prop := ∃ q < g.span cs, b = g.sectorAt cs q

theorem Valid.outside_of_le (hg : g.Valid size) {b : ℕ} (hb : g.dataStart ≤ b) : g.Outside b :=
  .inr (hg.table_le.trans hb)

theorem Valid.owns_outside (hg : g.Valid size) {cs : List ℕ} {b : ℕ} (h : g.Owns cs b) :
    g.Outside b := by
  obtain ⟨q,-,rfl⟩ := h
  exact hg.outside_of_le (FatInfo.Valid.dataStart_le _ _)

theorem Valid.owns_prefix (hg : g.Valid size) {cs cs' : List ℕ} {b : ℕ} (h : g.Owns cs b)
    (hp : cs <+: cs') : g.Owns cs' b := by
  obtain ⟨ds,rfl⟩ := hp
  obtain ⟨q,hq,rfl⟩ := h
  refine ⟨q,?_,(hg.sectorAt_append hq).symm⟩
  rw [FatInfo.span_append]
  omega

/-- A sector of a chain is a sector of one of its clusters. -/
theorem Valid.owns_cluster (hg : g.Valid size) {cs : List ℕ} {b : ℕ} (h : g.Owns cs b) :
    ∃ c ∈ cs, ∃ j < g.sectorsPerCluster, b = g.clusterSector c j := by
  obtain ⟨q,hq,rfl⟩ := h
  exact ⟨_,hg.getD_mem hq,_,Nat.mod_lt _ hg.spc_pos,rfl⟩

/-- Chains without a common cluster have no common sector. -/
theorem Valid.not_owns (hg : g.Valid size) {cs ds : List ℕ} (hcs : ∀ c ∈ cs, g.InRange c)
    (hds : ∀ c ∈ ds, g.InRange c) (hdisj : ∀ c ∈ cs, c ∉ ds) {b : ℕ} (h : g.Owns cs b) :
    ¬ g.Owns ds b := by
  intro h'
  obtain ⟨c,hc,i,hi,hb⟩ := hg.owns_cluster h
  obtain ⟨d,hd,j,hj,hb'⟩ := hg.owns_cluster h'
  obtain ⟨rfl,-⟩ := hg.clusterSector_inj (hcs c hc) (hds d hd) hi hj (hb.symm.trans hb')
  exact hdisj c hc hd

theorem Valid.setEntry_outside (hg : g.Valid size) (B : ℕ → Sector) {c v b : ℕ} (hc : c < g.entries)
    (hb : g.Outside b) : g.setEntry B c v b = B b := hg.table.setEntry_apply B hc hb

theorem Valid.linked_outside (hg : g.Valid size) (B : ℕ → Sector) {c k b : ℕ} (hc : c < g.entries)
    (hk : k < g.entries) (hb : g.Outside b) : g.linked B c k b = B b := by
  rw [FatInfo.linked,hg.setEntry_outside _ hc hb,hg.setEntry_outside _ hk hb]

theorem Valid.entry_linked (hg : g.Valid size) (B : ℕ → Sector) {c k d : ℕ} (hc : c < g.entries)
    (hk : k < g.entries) (hd : d < g.entries) (hdc : d ≠ c) (hdk : d ≠ k) :
    g.entry (g.linked B c k) d = g.entry B d := by
  rw [FatInfo.linked,hg.table.entry_setEntry_of_ne _ hc hd hdc,hg.table.entry_setEntry_of_ne _ hk hd hdk]

/-- Storing a directory entry behind the table does not touch it. -/
theorem Valid.entry_storedOn (hg : g.Valid size) {E : Env} {f : FileS} (hf : f.HasEntry g size)
    (reserved : UInt8) (B : ℕ → Sector) {c : ℕ} (hc : c < g.entries) :
    g.entry (f.storedOn E reserved B) c = g.entry B c := by
  have := hf.behind
  exact hg.table.entry_congr hc fun b _ hb => Function.update_of_ne (by omega) _ _

end FatInfo

/-! ### What changes on the medium -/

/-- From `B` with the chain `cs` to `B'` with the longer chain `cs'`: apart from the sectors and the
table entries of the chain and slot `en` of block `es` everything is as it was. -/
structure Grows (g : FatInfo) (es en : ℕ) (B : ℕ → Sector) (cs : List ℕ) (B' : ℕ → Sector)
    (cs' : List ℕ) : Prop where
  longer : cs <+: cs'
  inRange : ∀ c ∈ cs', g.InRange c
  fresh : ∀ c ∈ cs', c ∉ cs → g.entry B c = 0
  table : ∀ c < g.entries, c ∉ cs' → g.entry B' c = g.entry B c
  blocks : ∀ b, g.Outside b → ¬ g.Owns cs' b → b ≠ es → B' b = B b
  slot : ∀ j, j < 32*en ∨ 32*en + 32 ≤ j → ¬ g.Owns cs' es → g.Outside es →
    (B' es).get j = (B es).get j

namespace Grows
variable {g : FatInfo} {size es en : ℕ} {B B' B'' : ℕ → Sector} {cs cs' cs'' : List ℕ}

theorem refl (hcs : ∀ c ∈ cs, g.InRange c) : Grows g es en B cs B cs :=
  ⟨List.prefix_refl cs,hcs,fun _ h h' => absurd h h',fun _ _ _ => rfl,fun _ _ _ _ => rfl,
    fun _ _ _ _ => rfl⟩

theorem trans (hg : g.Valid size) (h : Grows g es en B cs B' cs') (h' : Grows g es en B' cs' B'' cs'') :
    Grows g es en B cs B'' cs'' where
  longer := h.longer.trans h'.longer
  inRange := h'.inRange
  fresh c hc hcs := by
    by_cases hc' : c ∈ cs'
    · exact h.fresh c hc' hcs
    · rw [← h.table c (h'.inRange c hc).2 hc']
      exact h'.fresh c hc hc'
  table c hc hcs := by
    rw [h'.table c hc hcs,h.table c hc fun h₁ => hcs (h'.longer.subset h₁)]
  blocks b hb hown hes := by
    rw [h'.blocks b hb hown hes,h.blocks b hb (fun h₁ => hown (hg.owns_prefix h₁ h'.longer)) hes]
  slot j hj hown hes := by
    rw [h'.slot j hj hown hes,h.slot j hj (fun h₁ => hown (hg.owns_prefix h₁ h'.longer)) hes]

/-- Writing sectors of the chain. -/
theorem of_data (hg : g.Valid size) (hcs : ∀ c ∈ cs, g.InRange c)
    (h : ∀ b, ¬ g.Owns cs b → B' b = B b) : Grows g es en B cs B' cs where
  longer := List.prefix_refl cs
  inRange := hcs
  fresh _ h h' := absurd h h'
  table c hc _ := hg.table.entry_congr hc fun b hb hb' => h b fun hown => by
    have := hg.owns_outside hown
    unfold FatInfo.Outside at this
    omega
  blocks b _ hown _ := h b hown
  slot j _ hown _ := by rw [h es hown]

theorem flushed (hg : g.Valid size) (hcs : ∀ c ∈ cs, g.InRange c) {f : FileS} {q : ℕ}
    (hat : f.At g cs q) : Grows g es en B cs (f.flushed B) cs := by
  refine of_data hg hcs fun b hb => ?_
  unfold FileS.flushed
  split
  · refine Function.update_of_ne (fun hbs => hb ?_) _ _
    exact ⟨q,hat.inside,hbs.trans hat.sector⟩
  · rfl

/-- Linking a free cluster. -/
theorem linked (hg : g.Valid size) (hcs : ∀ c ∈ cs, g.InRange c) {c k : ℕ} (hc : c ∈ cs)
    (hk : g.InRange k) (hfree : g.entry B k = 0) :
    Grows g es en B cs (g.linked B c k) (cs ++ [k]) where
  longer := List.prefix_append cs [k]
  inRange d hd := by
    rcases List.mem_append.1 hd with hd | hd
    · exact hcs d hd
    · exact List.mem_singleton.1 hd ▸ hk
  fresh d hd hdcs := by
    rcases List.mem_append.1 hd with hd | hd
    · exact absurd hd hdcs
    · exact List.mem_singleton.1 hd ▸ hfree
  table d hd hdcs := by
    simp only [List.mem_append,List.mem_singleton,not_or] at hdcs
    refine hg.entry_linked B (hcs c hc).2 hk.2 hd (fun h => hdcs.1 (h ▸ hc)) hdcs.2
  blocks b hb _ _ := hg.linked_outside B (hcs c hc).2 hk.2 hb
  slot j _ _ hes := by rw [hg.linked_outside B (hcs c hc).2 hk.2 hes]

/-- Storing the entry of the descriptor. -/
theorem stored (hg : g.Valid size) (hcs : ∀ c ∈ cs, g.InRange c) {E : Env} {f : FileS}
    (hf : f.HasEntry g size) (reserved : UInt8) :
    Grows g f.entrySector f.entryNumber B cs (f.storedOn E reserved B) cs where
  longer := List.prefix_refl cs
  inRange := hcs
  fresh _ h h' := absurd h h'
  table c hc _ := hg.entry_storedOn hf reserved B hc
  blocks b _ _ hb := Function.update_of_ne hb _ _
  slot j hj _ _ := by
    rw [FileS.storedOn,Function.update_self,get_setDirent_of_ne _ _ _ _ hj]

end Grows

end Gristle
