import Gristle.FileSystem
import Gristle.FullFile

/-! A descriptor of the driver beside the open file it stands for: what the volume, the buffer and the
directory entry hold, and how single steps change it. -/
namespace Gristle
open Prog

/-! ### Free clusters -/

namespace FatInfo
variable {g : FatInfo} {size : ℕ} {B B' : ℕ → Sector} {a c k : ℕ} {cs : List ℕ}

/-- The number of zero entries of the table. -/
def freeCount (g : FatInfo) (B : ℕ → Sector) : ℕ := ((Finset.range g.entries).filter fun c => g.entry B c = 0).card

/-- The bytes of a cluster. -/
def clusterBytes (g : FatInfo) : ℕ := g.sectorsPerCluster * 512

theorem Valid.clusterBytes_pos (hg : g.Valid size) : 0 < g.clusterBytes := Nat.mul_pos hg.spc_pos (by decide)

theorem freeCount_congr (h : ∀ c < g.entries, g.entry B' c = g.entry B c) : g.freeCount B' = g.freeCount B := by
  rw [freeCount,freeCount]
  congr 1
  apply Finset.filter_congr
  intro c hc
  rw [h c (Finset.mem_range.1 hc)]

theorem freeCount_eq_zero : g.freeCount B = 0 ↔ g.Full B := by
  rw [freeCount,Finset.card_eq_zero,Finset.filter_eq_empty_iff]
  simp only [Finset.mem_range]
  rfl

/-- A block in none of these clusters. -/
theorem Apart.not_owns {b : ℕ} (h : g.Apart B cs b) (hg : g.Valid size) : ¬ g.Owns cs b := by
  intro hown
  obtain ⟨c,hc,j,hj,heq⟩ := hg.owns_cluster hown
  exact h.own c hc j hj heq

section Linked
variable (h : g.Chain B a cs) (hg : g.Valid size) (hc : c ∈ cs) (hk : g.InRange k) (hfree : g.entry B k = 0)
include h hg hc hk hfree

/-- A link takes one cluster from the free ones. -/
theorem Chain.linked_zero {d : ℕ} (hd : d < g.entries) :
    g.entry (g.linked B c k) d = 0 ↔ d ≠ k ∧ g.entry B d = 0 := by
  have hcr := h.inRange c hc
  have hused := h.entry_ne_zero hg hc
  have hkc : k ≠ c := by
    rintro rfl
    exact hused hfree
  by_cases hdk : d = k
  · subst hdk
    have := hg.table.kind.marker_le_endMark
    have := hg.table.kind.marker_pos
    rw [FatInfo.linked,hg.table.entry_setEntry_of_ne _ hcr.2 hd hkc,hg.table.entry_setEntry _ hd hg.table.kind.endMark_lt]
    simp only [ne_eq,not_true,false_and,iff_false]
    omega
  by_cases hdc : d = c
  · subst hdc
    have := hk.1
    rw [FatInfo.linked,hg.table.entry_setEntry _ hcr.2 (hg.cluster_lt hk.2)]
    simp only [hused,and_false,iff_false]
    omega
  · rw [hg.entry_linked B hcr.2 hk.2 hd hdc hdk]
    simp [hdk]

theorem Chain.busier_linked : g.Busier B (g.linked B c k) :=
  fun _ hd hzero => ((h.linked_zero hg hc hk hfree hd).1 hzero).2

theorem Chain.freeCount_linked : g.freeCount (g.linked B c k) + 1 = g.freeCount B := by
  have hset : ((Finset.range g.entries).filter fun d => g.entry (g.linked B c k) d = 0) =
      ((Finset.range g.entries).filter fun d => g.entry B d = 0).erase k := by
    ext d
    simp only [Finset.mem_filter,Finset.mem_erase,Finset.mem_range]
    constructor
    · rintro ⟨hd,hzero⟩
      obtain ⟨hdk,hzero⟩ := (h.linked_zero hg hc hk hfree hd).1 hzero
      exact ⟨hdk,hd,hzero⟩
    · rintro ⟨hdk,hd,hzero⟩
      exact ⟨hd,(h.linked_zero hg hc hk hfree hd).2 ⟨hdk,hzero⟩⟩
  rw [freeCount,hset]
  apply Finset.card_erase_add_one
  simp [hk.2,hfree]

end Linked

end FatInfo

/-! ### The descriptor of an open file -/

/-- The part of a descriptor that the calls on an open file leave alone. -/
def FileS.origin (f : FileS) : FileS := { f.home with accessed := 0 }

theorem FileS.field_of_origin {α : Type} {f f' : FileS} (u : FileS → α) (hu : ∀ f, u f.origin = u f)
    (h : f'.origin = f.origin) : u f' = u f := by rw [← hu f',h,hu f]

theorem FileS.origin_of_still {f f' : FileS} (h : f'.still = f.still) : f'.origin = f.origin :=
  congrArg (fun f : FileS => { f with size := 0, modified := 0, accessed := 0 }) h

theorem FileS.HasEntry.of_origin {g : FatInfo} {size : ℕ} {f f' : FileS} (h : f.HasEntry g size)
    (hs : f'.origin = f.origin) : f'.HasEntry g size := by
  have h₁ := FileS.field_of_origin FileS.fullFirstCluster (fun _ => rfl) hs
  have h₂ := FileS.field_of_origin FileS.entrySector (fun _ => rfl) hs
  have h₃ := FileS.field_of_origin FileS.entryNumber (fun _ => rfl) hs
  exact ⟨h₁ ▸ h.notRoot,h₁ ▸ h.cluster,h₂ ▸ h.behind,h₂ ▸ h.sector_lt,h₃ ▸ h.number⟩

/-- The directory entry of the descriptor. -/
def FileS.slot (f : FileS) (B : ℕ → Sector) : DirentS := (B f.entrySector).dirent f.entryNumber

/-- Name, attributes and first cluster of an entry. -/
def DirentS.title (g : FatInfo) (d : DirentS) : (Fin 8 → UInt8) × (Fin 3 → UInt8) × UInt8 × ℕ :=
  (d.filename,d.extension,d.attributes,d.cluster g)

/-- Name, attributes and first cluster of the file a descriptor is for. -/
def FileS.title (f : FileS) : (Fin 8 → UInt8) × (Fin 3 → UInt8) × UInt8 × ℕ :=
  (f.filename,f.extension,f.attributes,f.fullFirstCluster)

/-- The descriptor is the one of this open file: the clusters `cs` and the buffer hold the content, and the
entry on the medium is that of the file, with a size that may be behind. -/
structure FileS.Carries (g : FatInfo) (size : ℕ) (B : ℕ → Sector) (cs : List ℕ) (o : OpenFile) (f : FileS) :
    Prop where
  volume : g.Valid size
  narrow : g.entries ≤ g.endClusterMarker
  reserved : g.Reserved B
  chain : g.Chain B f.fullFirstCluster cs
  capacity : o.capacity = g.span cs * 512
  free : o.free = g.freeCount B
  open_ : f.flags.open_ = true
  read : f.flags.read = o.read
  write : f.flags.write = o.write
  append : f.flags.append = o.append
  regular : f.isSubdir = false
  entry : f.HasEntry g size
  apart : g.Apart B cs f.entrySector
  named : (f.slot B).title g = f.title
  recorded : (f.slot B).size ≤ o.capacity
  stored : f.flags.fsDirty = false → (f.slot B).size = f.size
  place : f.At g cs f.fileSector
  cursor : f.cursor ≤ 512
  pos : f.offset = o.pos
  inside : o.pos ≤ o.content.length
  room : o.content.length ≤ o.capacity
  small : o.content.length < 2^31
  size_eq : f.size = o.content.length
  current : f.cursor < 512 → f.flags.dirty = true ∨ f.Loaded B
  content : (List.range f.size).map (g.content (f.flushed B) cs) = o.content

namespace FileS.Carries
variable {g : FatInfo} {size : ℕ} {B : ℕ → Sector} {cs : List ℕ} {o : OpenFile} {f f' : FileS}

section Facts
variable (h : f.Carries g size B cs o)
include h

theorem owns : g.Owns cs f.sector := ⟨_,h.place.inside,h.place.sector⟩

/-- The entry lies in none of the file's clusters. -/
theorem not_owns : ¬ g.Owns cs f.entrySector := h.apart.not_owns h.volume

theorem sector_ne_entry : f.sector ≠ f.entrySector := fun heq => h.not_owns (heq ▸ h.owns)

theorem slot_flushed : f.slot (f.flushed B) = f.slot B := by
  rw [FileS.slot,FileS.slot,flushed_of_ne B h.sector_ne_entry.symm]

theorem position_eq : f.position = o.pos := by
  have := h.inside
  have := h.small
  rw [FileS.position_eq,h.pos]
  exact u32_of_lt (by omega)

theorem pos_le : o.pos ≤ o.capacity := h.inside.trans h.room

/-- The buffer counts for the sector under the descriptor. -/
theorem buffer (hcursor : f.cursor < 512) : f.flushed B f.sector = f.buffer := by
  rw [FileS.flushed]
  rcases h.current hcursor with hdirty | hloaded
  · rw [if_pos hdirty,Function.update_self]
  · split
    · rw [Function.update_self]
    · exact hloaded.symm

/-- The byte under the descriptor. -/
theorem byte (hcursor : f.cursor < 512) (hpos : o.pos < o.content.length) :
    f.buffer.get f.cursor = o.content[o.pos] := by
  have hplace := h.pos
  have hsize := h.size_eq
  unfold FileS.offset at hplace
  have hdiv : o.pos / 512 = f.fileSector := by omega
  have hmod : o.pos % 512 = f.cursor := by omega
  have hget : o.content[o.pos]? = some (g.content (f.flushed B) cs o.pos) := by
    rw [← h.content,List.getElem?_map,List.getElem?_range (by omega),Option.map_some]
  rw [List.getElem?_eq_getElem hpos] at hget
  rw [Option.some.inj hget,FatInfo.content,hdiv,hmod,← h.place.sector,h.buffer hcursor]

/-- The same open file, somewhere else or with other marks. -/
theorem congr (ho : f'.origin = f.origin) (hsize : f'.size = f.size) (hview : f'.flushed B = f.flushed B)
    (hmark : f'.flags.fsDirty = false → f.flags.fsDirty = false) (hplace : f'.At g cs f'.fileSector)
    (hcursor : f'.cursor ≤ 512) {p : ℕ} (hpos : f'.offset = p) (hp : p ≤ o.content.length)
    (hcurrent : f'.cursor < 512 → f'.flags.dirty = true ∨ f'.Loaded B) :
    f'.Carries g size B cs { o with pos := p } := by
  have hslot : f'.slot B = f.slot B := FileS.field_of_origin (fun f => f.slot B) (fun _ => rfl) ho
  have htitle := FileS.field_of_origin FileS.title (fun _ => rfl) ho
  have hfirst := FileS.field_of_origin FileS.fullFirstCluster (fun _ => rfl) ho
  have hopen := FileS.field_of_origin (fun f => f.flags.open_) (fun _ => rfl) ho
  have hread := FileS.field_of_origin (fun f => f.flags.read) (fun _ => rfl) ho
  have hwrite := FileS.field_of_origin (fun f => f.flags.write) (fun _ => rfl) ho
  have happend := FileS.field_of_origin (fun f => f.flags.append) (fun _ => rfl) ho
  have hdir := FileS.field_of_origin FileS.isSubdir (fun _ => rfl) ho
  have hes := FileS.field_of_origin FileS.entrySector (fun _ => rfl) ho
  exact {
    volume := h.volume
    narrow := h.narrow
    reserved := h.reserved
    chain := hfirst ▸ h.chain
    capacity := h.capacity
    free := h.free
    open_ := hopen.trans h.open_
    read := hread.trans h.read
    write := hwrite.trans h.write
    append := happend.trans h.append
    regular := hdir.trans h.regular
    entry := h.entry.of_origin ho
    apart := hes ▸ h.apart
    named := by rw [hslot,h.named,htitle]
    recorded := hslot ▸ h.recorded
    stored := fun hm => by rw [hslot,h.stored (hmark hm),hsize]
    place := hplace
    cursor := hcursor
    pos := hpos
    inside := hp
    room := h.room
    small := h.small
    size_eq := hsize.trans h.size_eq
    current := hcurrent
    content := by rw [hsize,hview,h.content] }

theorem same (ho : f'.origin = f.origin) (hsize : f'.size = f.size) (hview : f'.flushed B = f.flushed B)
    (hmark : f'.flags.fsDirty = false → f.flags.fsDirty = false) (hplace : f'.At g cs f'.fileSector)
    (hcursor : f'.cursor ≤ 512) (hpos : f'.offset = o.pos)
    (hcurrent : f'.cursor < 512 → f'.flags.dirty = true ∨ f'.Loaded B) : f'.Carries g size B cs o :=
  h.congr ho hsize hview hmark hplace hcursor hpos h.inside hcurrent

/-- The buffer is written back. -/
theorem flushed : f.clean.Carries g size (f.flushed B) cs o :=
  have hentry (c : ℕ) (hc : c < g.entries) : g.entry (f.flushed B) c = g.entry B c :=
    h.volume.entry_flushed hc h.place.dataStart_le
  { h with
    reserved := h.reserved.flushed h.volume h.place.dataStart_le
    chain := h.volume.chain_flushed h.chain h.place.dataStart_le
    free := h.free.trans (FatInfo.freeCount_congr hentry).symm
    apart := h.apart.congr fun c hc hzero => (hentry c hc).symm.trans hzero
    entry := h.entry.of_origin rfl
    named := (congrArg (DirentS.title g) h.slot_flushed).trans h.named
    place := h.place.congr rfl rfl rfl
    recorded := (congrArg DirentS.size h.slot_flushed).le.trans h.recorded
    stored := fun hm => (congrArg DirentS.size h.slot_flushed).trans (h.stored hm)
    current := fun hcursor => .inr (h.buffer hcursor).symm }

/-- Behind the last cluster a free one is linked. -/
theorem linked (hclean : f.flags.dirty = false) (hend : o.pos = o.capacity) {k : ℕ} (hk : g.LeastFree B k) :
    f.Carries g size (g.linked B f.cluster k) (cs ++ [k]) (o.extend g.clusterBytes) := by
  have hkr := hk.inRange h.reserved
  have hcursor := h.cursor
  have hinside := h.place.inside
  have hpos := h.pos
  have hcapacity := h.capacity
  unfold FileS.offset at hpos
  have hlast : f.fileSector + 1 = g.span cs := by omega
  have hmem : f.cluster ∈ cs := h.place.cluster ▸ h.volume.getD_mem hinside
  have hcr := h.chain.inRange _ hmem
  have hbusy := h.chain.busier_linked h.volume hmem hkr hk.free
  have hout {b : ℕ} (hb : g.Outside b) : g.linked B f.cluster k b = B b := h.volume.linked_outside B hcr.2 hkr.2 hb
  have hslot : f.slot (g.linked B f.cluster k) = f.slot B := by
    rw [FileS.slot,FileS.slot,hout h.apart.outside]
  have hspan : g.span (cs ++ [k]) = g.span cs + g.sectorsPerCluster := by
    rw [FatInfo.span_append,FatInfo.span,FatInfo.span,List.length_singleton,Nat.one_mul]
  have hroom := h.room
  exact {
    h with
    reserved := h.reserved.congr h.volume hbusy
    chain := h.chain.linked h.volume (hkr.2.trans_le h.narrow) hmem
      (h.place.at_end h.volume h.chain hlast).2 hkr hk.free
    capacity := by
      change o.capacity + g.sectorsPerCluster * 512 = _
      rw [hspan,Nat.add_mul,h.capacity]
    free := by
      change o.free - 1 = _
      rw [h.free,← h.chain.freeCount_linked h.volume hmem hkr hk.free,Nat.add_sub_cancel]
    apart := by
      refine ⟨h.apart.outside,fun c hc => ?_,fun c hc hzero => h.apart.free c hc (hbusy c hc.2 hzero)⟩
      rcases List.mem_append.1 hc with hc | hc
      · exact h.apart.own c hc
      · exact List.mem_singleton.1 hc ▸ h.apart.free k hkr hk.free
    named := (congrArg (DirentS.title g) hslot).trans h.named
    recorded := by
      rw [hslot]
      exact h.recorded.trans (Nat.le_add_right _ _)
    stored := fun hm => (congrArg DirentS.size hslot).trans (h.stored hm)
    place := by
      refine ⟨by omega,?_,?_,h.place.left⟩
      · rw [h.place.cluster,List.getD_append _ _ _ _ (h.volume.index_lt hinside)]
      · rw [h.volume.sectorAt_append hinside,h.place.sector]
    room := hroom.trans (Nat.le_add_right _ _)
    current := fun hlt => by omega
    content := by
      refine Eq.trans ?_ h.content
      rw [FileS.flushed_of_clean hclean,FileS.flushed_of_clean hclean]
      apply List.map_congr_left
      intro i hi
      have hsize := h.size_eq
      have hq : i / 512 < g.span cs := by
        have := List.mem_range.1 hi
        omega
      rw [FatInfo.content,FatInfo.content,h.volume.sectorAt_append hq,hout (h.volume.owns_outside ⟨_,hq,rfl⟩)] }

/-- The entry is stored. -/
theorem storedOn (hclean : f.flags.dirty = false) (E : Env) (reserved : UInt8) :
    { f with buffer := f.storedOn E reserved B f.sector, flags.fsDirty := false }.Carries g size
      (f.storedOn E reserved B) cs o := by
  have hentry (c : ℕ) (hc : c < g.entries) : g.entry (f.storedOn E reserved B) c = g.entry B c :=
    h.volume.entry_storedOn h.entry reserved B hc
  have hother {b : ℕ} (hb : b ≠ f.entrySector) : f.storedOn E reserved B b = B b := Function.update_of_ne hb _ _
  have hslot : f.slot (f.storedOn E reserved B) = (f.toDirent E reserved).stored := by
    rw [FileS.slot,FileS.storedOn,Function.update_self,dirent_setDirent _ _ h.entry.number]
  have hfirst := (h.chain.inRange _ h.chain.links.head_mem).2
  have hsmall := h.small
  have hsize : (f.slot (f.storedOn E reserved B)).size = f.size := by
    have := h.size_eq
    rw [hslot]
    change u32 f.size % 2^32 = f.size
    unfold u32
    omega
  have hdata {q : ℕ} (hq : q < g.span cs) : f.storedOn E reserved B (g.sectorAt cs q) = B (g.sectorAt cs q) :=
    hother fun heq => h.not_owns ⟨q,hq,heq.symm⟩
  exact {
    h with
    reserved := ⟨by rw [hentry 0 (by have := h.volume.entries_ge; omega)]; exact h.reserved.zero,
      by rw [hentry 1 (by have := h.volume.entries_ge; omega)]; exact h.reserved.one⟩
    chain := h.chain.congr fun c hc => hentry c (h.chain.inRange c hc).2
    free := h.free.trans (FatInfo.freeCount_congr hentry).symm
    entry := h.entry.of_origin rfl
    apart := h.apart.congr fun c hc hzero => (hentry c hc).symm.trans hzero
    named := by
      change (f.slot (f.storedOn E reserved B)).title g = f.title
      rw [hslot,DirentS.title,cluster_toDirent_stored E g f reserved]
      · rfl
      · exact hfirst.trans (h.volume.entries_le.trans_lt (by decide))
      · intro h16
        have := h.volume.cluster_lt hfirst
        rwa [(h.volume.fat16_of_type h16).len] at this
    recorded := by
      change (f.slot (f.storedOn E reserved B)).size ≤ _
      rw [hsize,h.size_eq]
      exact h.room
    stored := fun _ => hsize
    place := h.place.congr rfl rfl rfl
    current := fun _ => .inr rfl
    content := by
      have hview : FileS.flushed { f with buffer := f.storedOn E reserved B f.sector, flags.fsDirty := false }
          (f.storedOn E reserved B) = f.storedOn E reserved B :=
        if_neg (by rw [Bool.not_eq_true]; exact hclean)
      rw [hview,← h.content,FileS.flushed_of_clean hclean]
      apply List.map_congr_left
      intro i hi
      have hsize := h.size_eq
      have hroom := h.room
      have hcapacity := h.capacity
      have hlt : i < f.size := List.mem_range.1 hi
      rw [FatInfo.content,FatInfo.content,hdata (by omega)] }

/-- A byte is put into the buffer. -/
theorem put (hcursor : f.cursor < 512) (hsmall : o.pos + 1 < 2^31) (c : UInt8) :
    (f.swell.put c).Carries g size B cs (o.put [c]) := by
  have hinside := h.inside
  have hsize := h.size_eq
  have hpos := h.pos
  have hposition := h.position_eq
  have hcapacity := h.capacity
  have hin := h.place.inside
  have hlength : (overwrite o.content o.pos [c]).length = max o.content.length (o.pos + 1) :=
    length_overwrite hinside [c]
  have hnew : f.swell.size = if o.pos = f.size then f.size + 1 else f.size := by
    rw [f.size_swell h.regular,hposition]
    split
    · exact u32_of_lt (by omega)
    · rfl
  have hview : FileS.flushed (f.swell.put c) B = Function.update B f.sector (f.buffer.set f.cursor c) := by
    rw [FileS.put_swell]
    rfl
  unfold FileS.offset at hpos
  rw [FileS.put_swell] at hview ⊢
  exact {
    h with
    entry := h.entry.of_origin rfl
    stored := fun hm => by
      change (f.slot B).size = f.swell.size
      have hne : ¬ o.pos = f.size := by
        intro heq
        have : f.swell.flags.fsDirty = true := by rw [FileS.swell,if_pos ⟨h.regular,hposition.trans heq⟩]
        exact absurd (hm.symm.trans this) (by decide)
      have hkept : f.swell = f := if_neg fun h' => hne (hposition.symm.trans h'.2)
      rw [hkept] at hm ⊢
      exact h.stored hm
    place := h.place.congr rfl rfl rfl
    cursor := hcursor
    pos := by
      change f.fileSector * 512 + (f.cursor + 1) = o.pos + 1
      omega
    inside := by
      change o.pos + 1 ≤ (overwrite o.content o.pos [c]).length
      omega
    room := by
      change (overwrite o.content o.pos [c]).length ≤ o.capacity
      have := h.room
      have : (f.fileSector + 1) * 512 ≤ g.span cs * 512 := Nat.mul_le_mul_right _ hin
      omega
    small := by
      change (overwrite o.content o.pos [c]).length < 2^31
      have := h.small
      omega
    size_eq := by
      change f.swell.size = (overwrite o.content o.pos [c]).length
      rw [hnew,hlength,hsize]
      split <;> omega
    current := fun _ => .inl rfl
    content := by
      change (List.range f.swell.size).map _ = overwrite o.content o.pos [c]
      have hdiv : o.pos / 512 = f.fileSector := by omega
      have hmod : o.pos % 512 = f.cursor := by omega
      rw [hview,hnew,← h.content]
      apply map_range_eq_overwrite (by omega)
      · rw [FatInfo.content,hdiv,hmod,← h.place.sector,Function.update_self,Sector.get_set,if_pos ⟨rfl,hcursor⟩]
      intro i hi hne
      rw [FatInfo.content,FatInfo.content]
      by_cases hq : i / 512 = f.fileSector
      · rw [hq,← h.place.sector,Function.update_self,Sector.get_set,if_neg (by omega),h.buffer hcursor]
      · have hroom := h.room
        have hne' : g.sectorAt cs (i / 512) ≠ f.sector := by
          rw [h.place.sector]
          intro heq
          exact hq (h.volume.sectorAt_inj h.chain.inRange h.chain.links.nodup (by omega) hin heq)
        rw [Function.update_of_ne hne',flushed_of_ne B hne'] }

/-- A descriptor that has used up its sector, at the start of the next one. -/
theorem arrived (hclean : f.flags.dirty = false) (hend : f.cursor = 512) {f₀ : FileS}
    (har : Arrived g cs (f.fileSector + 1) B f₀ f') (hstill : f₀.still = f.still)
    (hsector : f₀.fileSector = f.fileSector) (hmark : f'.flags.fsDirty = false → f.flags.fsDirty = false) : f'.Carries g size B cs o := by
  have hinside := h.inside
  have hsmall := h.small
  have hpos := h.pos
  have hnext := har.fileSector
  have hzero := har.cursor
  unfold FileS.offset at hpos
  rw [hsector,u32_of_lt (by omega)] at hnext
  have hsame := har.still.trans hstill
  apply h.same (FileS.origin_of_still hsame) (FileS.field_of_still FileS.size (fun _ => rfl) hsame) ?_ hmark
    (hnext ▸ har.at_) (by omega) ?_ fun _ => .inr har.loaded
  · rw [FileS.flushed_of_clean har.clean,FileS.flushed_of_clean hclean]
  · rw [FileS.offset,hnext,hzero,Nat.add_zero,Nat.succ_mul,← hpos,hend]

/-- The byte under the descriptor is passed. -/
theorem step (hcursor : f.cursor < 512) (hpos : o.pos < o.content.length) :
    { f with cursor := f.cursor + 1 }.Carries g size B cs { o with pos := o.pos + 1 } := by
  have hplace := h.pos
  unfold FileS.offset at hplace
  refine @congr g size B cs o f { f with cursor := f.cursor + 1 } h rfl rfl rfl id (h.place.congr rfl rfl rfl) hcursor
    (o.pos + 1) ?_ hpos fun _ => h.current hcursor
  change f.fileSector * 512 + (f.cursor + 1) = o.pos + 1
  omega

/-- After a seek. -/
theorem landed (hclean : f.flags.dirty = false) {p : ℕ} (hl : Landed g cs p B f f') (hp : p ≤ o.content.length) :
    f'.Carries g size B cs { o with pos := p } := by
  apply h.congr (FileS.origin_of_still hl.still) (FileS.field_of_still FileS.size (fun _ => rfl) hl.still) ?_
    (fun hm => hl.fsDirty.symm.trans hm) hl.place.at_ hl.place.cursor hl.place.position hp
    fun _ => .inr hl.place.loaded
  rw [FileS.flushed_of_clean hl.clean,FileS.flushed_of_clean hclean]

/-- Where a seek goes to, in the driver's arithmetic. -/
theorem target_eq (ptr : ℤ) (dir : Whence) (hptr : -2^31 ≤ ptr ∧ ptr < 2^31) :
    (o.base dir + ptr < 0 ∨ o.content.length < o.base dir + ptr → f.size < f.target ptr dir) ∧
      (0 ≤ o.base dir + ptr → o.base dir + ptr ≤ o.content.length →
        f.target ptr dir = (o.base dir + ptr).toNat ∧ f.target ptr dir ≤ f.size) := by
  have hinside := h.inside
  have hsmall := h.small
  have hsize := h.size_eq
  have hpos := h.pos
  unfold FileS.offset at hpos
  have hbase : f.target ptr dir = u32OfInt (o.base dir + ptr) ∧ o.base dir ≤ o.content.length := by
    cases dir with
    | set => exact ⟨by rw [FileS.target,OpenFile.base,Nat.cast_zero,zero_add],Nat.zero_le _⟩
    | cur =>
      refine ⟨?_,hinside⟩
      rw [FileS.target,OpenFile.base,← hpos]
      push_cast
      rfl
    | end_ => exact ⟨by rw [FileS.target,OpenFile.base,hsize],le_refl _⟩
  obtain ⟨htarget,hle⟩ := hbase
  rw [htarget]
  generalize o.base dir = b at hle
  unfold u32OfInt
  omega

/-- A descriptor behind the last sector of the chain, with something else in its buffer. -/
theorem stays (hclean : f.flags.dirty = false) (hend : f.cursor = 512) (b : Sector) (e : ℕ) :
    { f with buffer := b, error := e }.Carries g size B cs o :=
  h.same rfl rfl (by rw [FileS.flushed_of_clean hclean]; exact if_neg (by simp [hclean])) id
    (h.place.congr rfl rfl rfl) h.cursor h.pos fun hlt => absurd hlt (by simp [hend])

/-- Work elsewhere on the volume, which may change the number of free clusters. -/
theorem elsewhere {B' : ℕ → Sector} (hreserved : g.Reserved B') (hchain : g.Chain B' f.fullFirstCluster cs)
    (hapart : g.Apart B' cs f.entrySector) (hslot : f.slot B' = f.slot B) (hdata : ∀ b, g.Owns cs b → B' b = B b) :
    f.Carries g size B' cs { o with free := g.freeCount B' } :=
  have hview (q : ℕ) (hq : q < g.span cs) : f.flushed B' (g.sectorAt cs q) = f.flushed B (g.sectorAt cs q) := by
    rw [FileS.flushed,FileS.flushed]
    split
    · rw [Function.update_apply,Function.update_apply,hdata _ ⟨q,hq,rfl⟩]
    · exact hdata _ ⟨q,hq,rfl⟩
  { h with
    reserved := hreserved
    chain := hchain
    free := rfl
    apart := hapart
    named := (congrArg (DirentS.title g) hslot).trans h.named
    recorded := (congrArg DirentS.size hslot).le.trans h.recorded
    stored := fun hm => (congrArg DirentS.size hslot).trans (h.stored hm)
    current := fun hcursor => (h.current hcursor).imp_right fun hloaded => hloaded.trans (hdata _ h.owns).symm
    content := by
      refine Eq.trans ?_ h.content
      apply List.map_congr_left
      intro i hi
      have hsize := h.size_eq
      have hroom := h.room
      have hcapacity := h.capacity
      have hlt := List.mem_range.1 hi
      rw [FatInfo.content,FatInfo.content,hview _ (by omega)] }

end Facts

end FileS.Carries

end Gristle
