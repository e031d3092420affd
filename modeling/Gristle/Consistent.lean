import Mathlib.Data.List.TakeWhile
import Gristle.Listing

/-! A consistent volume: every entry reached from the root leads to a chain of its own. -/
namespace Gristle
open Prog

/-- The entries `.` and `..`. -/
def DirentS.isDots (d : DirentS) : Prop :=
  (d.filename = paddedName [chDot] ∨ d.filename = paddedName [chDot,chDot]) ∧
    d.extension = fun _ => chSpace

instance (d : DirentS) : Decidable d.isDots := inferInstanceAs (Decidable (_ ∧ _))

/-- The slots of a directory that stand for files and subdirectories. -/
def live (B : ℕ → Sector) (secs : List ℕ) : List (ℕ × ℕ) :=
  (listed B (slots secs)).filter fun p => ¬ ((B p.1).dirent p.2).isDots

namespace FatInfo
variable (g : FatInfo) (B : ℕ → Sector)

/-- The first clusters of the directories below the root, the root included. -/
inductive LiveDir : ℕ → Prop
  | root : LiveDir g.rootCluster
  | sub {c b i : ℕ} {secs : List ℕ} (parent : LiveDir c) (blocks : g.DirBlocks B c secs)
      (slot : (b,i) ∈ live B secs) (dir : ((B b).dirent i).isSubdir = true) :
      LiveDir (((B b).dirent i).cluster g)

/-- Slot `i` of block `b` stands for a file or a subdirectory. -/
def LiveSlot (b i : ℕ) : Prop :=
  ∃ c secs, g.LiveDir B c ∧ g.DirBlocks B c secs ∧ (b,i) ∈ live B secs

/-- The chain of the root, and the chains of the entries. -/
inductive Owner : Option (ℕ × ℕ) → List ℕ → Prop
  | root {cs : List ℕ} (chain : g.Chain B g.rootCluster cs) : Owner none cs
  | slot {b i : ℕ} {cs : List ℕ} (live : g.LiveSlot B b i)
      (chain : g.Chain B (((B b).dirent i).cluster g) cs) : Owner (some (b,i)) cs

/-- The clusters of an entry: none when its first cluster is zero. -/
def FileChain (c : ℕ) (cs : List ℕ) : Prop := c = 0 ∧ cs = [] ∨ c ≠ 0 ∧ g.Chain B c cs

/-- Nothing dangles and nothing is shared. -/
structure Consistent : Prop where
  reserved : g.Reserved B
  root : ∃ secs, g.DirBlocks B g.rootCluster secs
  subdirs : ∀ b i, g.LiveSlot B b i → ((B b).dirent i).isSubdir = true →
    ∃ cs, g.Chain B (((B b).dirent i).cluster g) cs
  files : ∀ b i, g.LiveSlot B b i → ((B b).dirent i).isSubdir = false →
    ∃ cs, g.FileChain B (((B b).dirent i).cluster g) cs ∧
      ((B b).dirent i).size ≤ g.span cs * 512
  apart : ∀ o o' cs cs', g.Owner B o cs → g.Owner B o' cs' → o ≠ o' → ∀ c ∈ cs, c ∉ cs'

variable {g B}

theorem DirBlocks.mem {size c : ℕ} {secs : List ℕ} (h : g.DirBlocks B c secs) (hg : g.Valid size)
    {b : ℕ} (hb : b ∈ secs) : b < size ∧ g.activeFatStart + g.sectorsPerFat ≤ b := by
  cases h with
  | fixed h =>
    have h16 := hg.fat16_of_type h
    have h₁ := h16.table
    have h₂ := h16.fixed
    have h₃ := hg.dataStart_lt
    obtain ⟨q,hq,rfl⟩ := List.mem_map.1 hb
    have hq := List.mem_range.1 hq
    omega
  | chain h => exact (Scanned.chain h).mem hg hb

/-- A directory's chain is not that of a file. -/
theorem LiveDir.owner {c : ℕ} {cs : List ℕ} (h : g.LiveDir B c) (hcs : g.Chain B c cs) :
    ∃ o, g.Owner B o cs ∧ ∀ b i, o = some (b,i) → ((B b).dirent i).isSubdir = true := by
  cases h with
  | root => exact ⟨none,.root hcs,by simp⟩
  | @sub c' b i secs parent blocks slot dir =>
    refine ⟨some (b,i),.slot ⟨c',secs,parent,blocks,slot⟩ hcs,?_⟩
    rintro b' i' ⟨⟩
    exact dir

theorem mem_slots {secs : List ℕ} {b i : ℕ} : (b,i) ∈ slots secs ↔ b ∈ secs ∧ i < 16 := by
  simp [slots]

theorem mem_live {secs : List ℕ} {b i : ℕ} (h : (b,i) ∈ live B secs) :
    b ∈ secs ∧ i < 16 ∧ ¬ (B b).emptyAt i ∧ ((B b).dirent i).isSkipped = false ∧
      ¬ ((B b).dirent i).isDots := by
  simp only [live,List.mem_filter,listed,Bool.not_eq_true',decide_eq_true_eq] at h
  obtain ⟨⟨hentry,hskip⟩,hdots⟩ := h
  obtain ⟨hb,hi⟩ := mem_slots.1 (List.takeWhile_subset _ hentry)
  have hempty := List.mem_takeWhile_imp hentry
  exact ⟨hb,hi,by simpa using hempty,hskip,hdots⟩

theorem LiveSlot.mem {size b i : ℕ} (h : g.LiveSlot B b i) (hg : g.Valid size) :
    b < size ∧ g.activeFatStart + g.sectorsPerFat ≤ b ∧ i < 16 := by
  obtain ⟨c,secs,-,hblocks,hmem⟩ := h
  obtain ⟨hb,hi,-⟩ := mem_live hmem
  obtain ⟨hlt,hle⟩ := hblocks.mem hg hb
  exact ⟨hlt,hle,hi⟩

/-- Only the chain of a directory matters for the blocks a scan visits. -/
theorem Scanned.congr {B' : ℕ → Sector} {c : ℕ} {secs : List ℕ} (h : g.Scanned B c secs)
    (hchain : ∀ cs, g.Chain B c cs → g.Chain B' c cs) : g.Scanned B' c secs := by
  cases h with
  | fixed h => exact .fixed h
  | chain h => exact .chain (hchain _ h)

theorem Owner.unique {o : Option (ℕ × ℕ)} {cs cs' : List ℕ} (h : g.Owner B o cs) (h' : g.Owner B o cs') :
    cs = cs' := by
  cases h with
  | root h =>
    cases h' with
    | root h' => exact h.links.unique h'.links
  | slot _ h =>
    cases h' with
    | slot _ h' => exact h.links.unique h'.links

theorem Chain.head_eq {c c' : ℕ} {cs : List ℕ} (h : g.Chain B c cs) (h' : g.Chain B c' cs) : c = c' :=
  Option.some.inj (h.links.getElem_zero.symm.trans h'.links.getElem_zero)

namespace Consistent
variable (h : g.Consistent B)
include h

/-- Owners of one cluster are the same. -/
theorem owner_eq {o o' : Option (ℕ × ℕ)} {cs cs' : List ℕ} {d : ℕ} (ho : g.Owner B o cs)
    (ho' : g.Owner B o' cs') (hd : d ∈ cs) (hd' : d ∈ cs') : o = o' := by
  by_contra hne
  exact h.apart o o' cs cs' ho ho' hne d hd hd'

variable {size : ℕ} (hg : g.Valid size)
include hg

/-- Directories that share a block are the same. -/
theorem dir_eq {c c' b : ℕ} {secs secs' : List ℕ} (hc : g.LiveDir B c) (hc' : g.LiveDir B c')
    (hsecs : g.DirBlocks B c secs) (hsecs' : g.DirBlocks B c' secs') (hb : b ∈ secs) (hb' : b ∈ secs') :
    c = c' := by
  have hfixed {cs : List ℕ} (h16 : g.type = partTypeFat16) (hr : b ∈ (List.range g.rootLen).map (g.rootStart + ·))
      (hs : b ∈ (List.range (g.span cs)).map (g.sectorAt cs)) : False := by
    obtain ⟨q,hq,rfl⟩ := List.mem_map.1 hr
    obtain ⟨q',-,hq'⟩ := List.mem_map.1 hs
    have hle := (hg.fat16_of_type h16).fixed
    have hq := List.mem_range.1 hq
    have hdata : g.dataStart ≤ g.sectorAt cs q' := FatInfo.Valid.dataStart_le _ _
    omega
  cases hsecs with
  | fixed h16 =>
    cases hsecs' with
    | fixed => rfl
    | chain => exact (hfixed h16 hb hb').elim
  | chain hcs =>
    cases hsecs' with
    | fixed h16 => exact (hfixed h16 hb' hb).elim
    | chain hcs' =>
      obtain ⟨o,ho,-⟩ := hc.owner hcs
      obtain ⟨o',ho',-⟩ := hc'.owner hcs'
      obtain ⟨q,hq,rfl⟩ := List.mem_map.1 hb
      obtain ⟨q',hq',heq⟩ := List.mem_map.1 hb'
      by_cases hoo : o = o'
      · subst hoo
        obtain rfl := ho.unique ho'
        exact hcs.head_eq hcs'
      · exact absurd ⟨q',List.mem_range.1 hq',heq.symm⟩ (hg.not_owns hcs.inRange hcs'.inRange
          (h.apart o o' _ _ ho ho' hoo) ⟨q,List.mem_range.1 hq,rfl⟩)

/-- A directory is not one of its own entries. -/
theorem sub_ne {c b i : ℕ} {secs : List ℕ} (hc : g.LiveDir B c) (hsecs : g.DirBlocks B c secs)
    (hslot : (b,i) ∈ live B secs) (hdir : ((B b).dirent i).isSubdir = true) :
    ((B b).dirent i).cluster g ≠ c := by
  induction hc generalizing b i secs with
  | root =>
    intro heq
    obtain ⟨cs,hcs⟩ := h.subdirs b i ⟨_,secs,.root,hsecs,hslot⟩ hdir
    have hroot : g.Owner B none cs := .root (heq ▸ hcs)
    have := h.owner_eq hroot (.slot ⟨_,secs,.root,hsecs,hslot⟩ hcs) hcs.links.head_mem hcs.links.head_mem
    simp at this
  | @sub p b' i' secs' parent blocks slot dir ih =>
    intro heq
    have hsub := LiveDir.sub parent blocks slot dir
    obtain ⟨cs,hcs⟩ := h.subdirs b i ⟨_,secs,hsub,hsecs,hslot⟩ hdir
    have hother : g.Owner B (some (b',i')) cs := .slot ⟨p,secs',parent,blocks,slot⟩ (heq ▸ hcs)
    have hsame := h.owner_eq (.slot ⟨_,secs,hsub,hsecs,hslot⟩ hcs) hother hcs.links.head_mem hcs.links.head_mem
    obtain ⟨rfl,rfl⟩ := Prod.mk.inj (Option.some.inj hsame)
    have hp := h.dir_eq hg parent hsub blocks hsecs (mem_live slot).1 (mem_live hslot).1
    exact ih blocks slot dir hp.symm

end Consistent

end FatInfo

/-! ### A small volume -/

/-- The bytes of an entry with this name, these attributes and this first cluster and size. -/
def entryBytes (name : List UInt8) (attributes : UInt8) (cluster size : ℕ) : List UInt8 :=
  (List.range 11).map (fun j => name.getD j chSpace) ++ attributes :: List.replicate 14 0 ++
    [UInt8.ofNat cluster,0,UInt8.ofNat size,0,0,0]

/-- The directory `AA` with the file `BB` in it, the file `CC` and the empty directory `DD`. -/
def smallTree : ℕ → Sector
  | 1 => Sector.ofBytes [0xF8,0xFF,0xFF,0xFF,0xFF,0xFF,0xFF,0xFF,0xFF,0xFF,0xFF,0xFF]
  | 2 => Sector.ofBytes (entryBytes [0x41,0x41] 0x10 2 0 ++ entryBytes [0x43,0x43] 0x20 4 5 ++
      entryBytes [0x44,0x44] 0x10 5 0)
  | 3 => Sector.ofBytes (entryBytes [0x2E] 0x10 2 0 ++ entryBytes [0x2E,0x2E] 0x10 0 0 ++
      entryBytes [0x42,0x42] 0x20 3 5)
  | 6 => Sector.ofBytes (entryBytes [0x2E] 0x10 5 0 ++ entryBytes [0x2E,0x2E] 0x10 0 0)
  | _ => Sector.zero

theorem smallTree_chain {c : ℕ} (h : 2 ≤ c) (hc : c ≤ 5) : smallFat16.Chain smallTree c [c] := by
  have hmark : ∀ c ≤ 5, 2 ≤ c → smallFat16.next smallTree c = none ∧ smallFat16.InRange c := by
    decide +kernel
  obtain ⟨hnext,hrange⟩ := hmark c hc h
  exact ⟨.last hnext,fun d hd => List.mem_singleton.1 hd ▸ hrange⟩

theorem smallTree_live : live smallTree [2] = [(2,0),(2,1),(2,2)] ∧ live smallTree [3] = [(3,2)] ∧
    live smallTree [6] = [] := by
  decide +kernel

theorem smallTree_blocks : smallFat16.DirBlocks smallTree 1 [2] ∧ smallFat16.DirBlocks smallTree 2 [3] ∧
    smallFat16.DirBlocks smallTree 5 [6] :=
  ⟨.fixed rfl,.chain (smallTree_chain (by decide) (by decide)),.chain (smallTree_chain (by decide) (by decide))⟩

theorem smallTree_dir {c : ℕ} (h : smallFat16.LiveDir smallTree c) :
    c = 1 ∧ smallFat16.DirBlocks smallTree c [2] ∨ c = 2 ∧ smallFat16.DirBlocks smallTree c [3] ∨
      c = 5 ∧ smallFat16.DirBlocks smallTree c [6] := by
  obtain ⟨h₁,h₂,h₅⟩ := smallTree_blocks
  have hsub : ∀ p ∈ live smallTree [2], ((smallTree p.1).dirent p.2).isSubdir = true →
      ((smallTree p.1).dirent p.2).cluster smallFat16 = 2 ∨ ((smallTree p.1).dirent p.2).cluster smallFat16 = 5 := by
    rw [smallTree_live.1]
    decide +kernel
  have hfile : ∀ p ∈ live smallTree [3], ((smallTree p.1).dirent p.2).isSubdir = false := by
    rw [smallTree_live.2.1]
    decide +kernel
  induction h with
  | root => exact .inl ⟨rfl,h₁⟩
  | @sub c b i secs parent blocks slot dir ih =>
    rcases ih with ⟨rfl,hc⟩ | ⟨rfl,hc⟩ | ⟨rfl,hc⟩ <;> obtain rfl := blocks.unique hc
    · rcases hsub (b,i) slot dir with h | h <;> rw [h]
      · exact .inr (.inl ⟨rfl,h₂⟩)
      · exact .inr (.inr ⟨rfl,h₅⟩)
    · exact absurd dir (by rw [hfile (b,i) slot]; decide)
    · rw [smallTree_live.2.2] at slot
      simp at slot

/-- The four entries and their clusters. -/
theorem smallTree_slot {b i : ℕ} (h : smallFat16.LiveSlot smallTree b i) :
    (b,i) ∈ [(2,0),(2,1),(2,2),(3,2)] := by
  obtain ⟨c,secs,hc,hsecs,hslot⟩ := h
  rcases smallTree_dir hc with ⟨rfl,hd⟩ | ⟨rfl,hd⟩ | ⟨rfl,hd⟩ <;> obtain rfl := hsecs.unique hd
  · rw [smallTree_live.1] at hslot
    simp only [List.mem_cons] at hslot ⊢
    tauto
  · rw [smallTree_live.2.1] at hslot
    simp only [List.mem_cons] at hslot ⊢
    tauto
  · rw [smallTree_live.2.2] at hslot
    simp at hslot

theorem smallTree_owner {o : Option (ℕ × ℕ)} {cs : List ℕ} (h : smallFat16.Owner smallTree o cs) :
    (o,cs) ∈ [(some (2,0),[2]),(some (2,1),[4]),(some (2,2),[5]),(some (3,2),[3])] := by
  cases h with
  | root h => exact absurd (h.inRange _ h.links.head_mem) (by decide)
  | @slot b i cs hlive hchain =>
    have hcluster : ∀ p ∈ [(2,0),(2,1),(2,2),(3,2)],
        2 ≤ ((smallTree p.1).dirent p.2).cluster smallFat16 ∧
        ((smallTree p.1).dirent p.2).cluster smallFat16 ≤ 5 ∧
        (some p,[((smallTree p.1).dirent p.2).cluster smallFat16]) ∈
          [(some (2,0),[2]),(some (2,1),[4]),(some (2,2),[5]),(some (3,2),[3])] := by
      decide +kernel
    obtain ⟨h₂,h₅,hmem⟩ := hcluster (b,i) (smallTree_slot hlive)
    rw [hchain.links.unique (smallTree_chain h₂ h₅).links]
    exact hmem

theorem smallTree_consistent : smallFat16.Consistent smallTree where
  reserved := ⟨by decide +kernel,by decide +kernel⟩
  root := ⟨_,smallTree_blocks.1⟩
  subdirs b i hslot hdir := by
    have hcluster : ∀ p ∈ [(2,0),(2,1),(2,2),(3,2)],
        2 ≤ ((smallTree p.1).dirent p.2).cluster smallFat16 ∧
        ((smallTree p.1).dirent p.2).cluster smallFat16 ≤ 5 := by decide +kernel
    obtain ⟨h₂,h₅⟩ := hcluster (b,i) (smallTree_slot hslot)
    exact ⟨_,smallTree_chain h₂ h₅⟩
  files b i hslot hfile := by
    have hcluster : ∀ p ∈ [(2,0),(2,1),(2,2),(3,2)],
        2 ≤ ((smallTree p.1).dirent p.2).cluster smallFat16 ∧
        ((smallTree p.1).dirent p.2).cluster smallFat16 ≤ 5 ∧ ((smallTree p.1).dirent p.2).size ≤ 512 := by
      decide +kernel
    obtain ⟨h₂,h₅,hsize⟩ := hcluster (b,i) (smallTree_slot hslot)
    refine ⟨_,.inr ⟨Nat.ne_of_gt (Nat.lt_of_lt_of_le (by decide) h₂),smallTree_chain h₂ h₅⟩,?_⟩
    rw [FatInfo.span,List.length_singleton]
    exact hsize
  apart o o' cs cs' ho ho' hne := by
    have hapart : ∀ p ∈ [(some (2,0),[2]),(some (2,1),[4]),(some (2,2),[5]),(some (3,2),[3])],
        ∀ q ∈ [(some (2,0),[2]),(some (2,1),[4]),(some (2,2),[5]),(some (3,2),[3])],
        p.1 ≠ q.1 → ∀ c ∈ p.2, c ∉ q.2 := by decide
    exact hapart _ (smallTree_owner ho) _ (smallTree_owner ho') hne

end Gristle
