import Gristle.Ext2Listing

/-! Path lookup on an ext2 volume against a walk along all elements of the path. -/
namespace Gristle
open Prog DirRecord

namespace DirRecord

/-- The records a search for the name goes through, the one it finds included. -/
def upTo (name : List UInt8) : List DirRecord → List DirRecord
  | [] => []
  | r :: rs => if r.name = name then [r] else r :: upTo name rs

/-- The record of that name. -/
def search (name : List UInt8) (rs : List DirRecord) : Option DirRecord := rs.find? fun r => r.name == name

theorem search_cons (name : List UInt8) (r : DirRecord) (rs : List DirRecord) :
    search name (r :: rs) = if r.name = name then some r else search name rs := by
  by_cases h : r.name = name <;> simp [search,h]

end DirRecord

/-! ### The walk -/

/-- `S_ISDIR` -/
def Inode.isDir (d : Inode) : Bool := d.iMode / 2^12 == 4

namespace Ext2Context
variable (c : Ext2Context) (B : ℕ → Sector) (records : ℤ → List (List DirRecord))

/-- From inode `n` along the elements: each but the last has to lead to a directory. -/
def walk : ℤ → List (List UInt8) → Option ℤ
  | n, [] => some n
  | n, element :: rest =>
    if (c.inodeAt B n).isDir then
      (search element (records n).flatten).bind fun r => walk r.inode rest
    else none

/-- The root and the directories below it. -/
inductive IsDir : ℤ → Prop
  | root : IsDir ext2RootIno
  | sub {n : ℤ} {r : DirRecord} (parent : IsDir n) (mem : r ∈ (records n).flatten)
      (dir : (c.inodeAt B r.inode).isDir = true) : IsDir r.inode

/-- A well-formed volume of `N` sectors: the records of a directory tile its blocks, none of them is unused,
and each has a name without zeros and a valid inode. -/
structure Hierarchy (N : ℕ) : Prop where
  rootHeld : c.Holds B ext2RootIno N
  rootDir : (c.inodeAt B ext2RootIno).isDir = true
  tiles : ∀ n, IsDir c B records n → c.Tiles B (c.inodeAt B n) N (records n)
  live : ∀ n, IsDir c B records n → ∀ r ∈ (records n).flatten, r.inode ≠ 0
  names : ∀ n, IsDir c B records n → ∀ r ∈ (records n).flatten, ∀ b ∈ r.name, b ≠ 0
  held : ∀ n, IsDir c B records n → ∀ r ∈ (records n).flatten, c.Holds B r.inode N

/-- A directory that can be searched for the name: up to its record the inode numbers are positive as `int`
and the countdown of sectors is right where it matters; when there is no such record, the padding of the last
one does not look like a record in a directory of twelve blocks. -/
structure Searchable (blocks : List (List DirRecord)) (name : List UInt8) : Prop where
  small : ∀ r ∈ upTo name blocks.flatten, r.inode < 2^31
  straight : Straight (c.sectors * 512) (blocks.length * c.sectors * 512) true 0 (upTo name blocks.flatten) = true
  inert : search name blocks.flatten = none → 12 ≤ blocks.length →
    ∀ r, blocks.flatten.getLast? = some r → r.Inert

/-- Every directory on the way can be searched, and an element that is found and not the last is one. -/
def Passable : ℤ → List (List UInt8) → Prop
  | _, [] => True
  | n, element :: rest => c.Searchable (records n) element ∧
    ∀ r, search element (records n).flatten = some r →
      (rest ≠ [] → (c.inodeAt B r.inode).isDir = true) ∧ Passable r.inode rest

end Ext2Context

namespace Ext2
section NoFault
variable {c : Ext2Context} {N fe nb size pos : ℕ} {B : ℕ → Sector} {K : ℕ → ℕ} {f : FileEnt}
  {s : Ext2State} {E : Env} (hE : E.NoFault) (hc : c.WellFormed)
include hE hc

/-- The search of a directory without unused records finds the first one of the name. -/
theorem findEntry_visits (hd : c.Direct K nb N) (hsize : size ≤ nb * c.sectors * 512) (n : ℕ) (e : ℤ)
    {name : List UInt8} {exact : Bool} {rs : List DirRecord} (h : At c N fe B f s)
    (hr : f.Visits c B K nb size pos) (hexact : exact = true → pos < size → f.Exact c)
    (hbytes : (c.fileContent B K size).drop pos = rs.flatMap bytes) (hfits : Fits (c.sectors * 512) pos rs)
    (hlive : ∀ r ∈ rs, r.inode ≠ 0) (hnames : ∀ r ∈ rs, ∀ b ∈ r.name, b ≠ 0)
    (hsmall : ∀ r ∈ upTo name rs, r.inode < 2^31)
    (hstraight : Straight (c.sectors * 512) size exact pos (upTo name rs) = true)
    (hinert : search name rs = none → 12 ≤ nb → ∀ r, rs.getLast? = some r → r.Inert) (hn : rs.length < n) :
    (findEntry E fe name n e).Returns s fun p t =>
      p.1 = (search name rs).map (fun r => (r.inode : ℤ)) ∧ ∃ g, At c N fe B g t := by
  obtain ⟨n,rfl⟩ : ∃ m, n = m + 1 := ⟨n - 1,by omega⟩
  induction rs generalizing s f pos exact n e with
  | nil =>
    refine (readdir_end hE hc hd hsize e h hr hbytes hfits (by simp)).bind fun p t ht => ?_
    obtain ⟨found,e'⟩ := p
    obtain ⟨hfound,hg⟩ := ht
    obtain rfl : found = false := hfound
    exact returns_pure ⟨rfl,hg⟩
  | cons r rs ih =>
    have hhead : upTo name (r :: rs) = r :: if r.name = name then [] else upTo name rs := by
      rw [upTo]
      split <;> rfl
    rw [hhead] at hsmall hstraight
    simp only [Straight,Bool.and_eq_true,Bool.or_eq_true,bne_iff_ne,beq_iff_eq] at hstraight
    obtain ⟨hfirst,hstraight⟩ := hstraight
    refine (readdir_next hE hc hd hsize e h hr hexact hbytes hfits.1 (or_assoc.1 hfirst)
      ((live_iff r).2 (hlive r (by simp))) (hsmall r (by simp))).bind fun p t ht => ?_
    obtain ⟨found,e'⟩ := p
    obtain ⟨hfound,hshows,g,hg,hplace⟩ := ht
    obtain rfl : found = true := hfound
    refine returns_bind_of_ok rfl ?_
    have hname : t.de.name = r.name := Ext2Dirent.name_eq r.name_lt hshows.name hshows.closed (hnames r (by simp))
    rw [search_cons]
    refine returns_ite (fun heq => returns_pure ?_) fun hne => ?_
    · rw [hname] at heq
      rw [if_pos heq]
      exact ⟨congrArg some hshows.inode,g,hg⟩
    rw [hname] at hne
    rw [if_neg hne] at hsmall hstraight ⊢
    rw [search_cons,if_neg hne] at hinert
    rw [List.length_cons] at hn
    obtain ⟨n,rfl⟩ : ∃ m, n = m + 1 := ⟨n - 1,by omega⟩
    rcases hplace with ⟨rfl,htwelve,hvisits⟩ | ⟨hvisits,hexact'⟩
    · have hinert := hinert rfl htwelve r rfl
      refine (readdir_padding hE hc hd hsize e' hg hvisits hbytes hfits.1 hinert).bind fun p u hu => ?_
      obtain ⟨found,e''⟩ := p
      obtain ⟨hfound,hg⟩ := hu
      obtain rfl : found = false := hfound
      exact returns_pure ⟨rfl,hg⟩
    · refine @ih (pos + r.recLen) g t e' (r.exactAfter (c.sectors * 512) exact pos) hg hvisits hexact' ?_ hfits.2
        (fun r' hr' => hlive r' (by simp [hr'])) (fun r' hr' => hnames r' (by simp [hr']))
        (fun r' hr' => hsmall r' (by simp [hr'])) hstraight (fun hnone h12 r' hr' => ?_) n (by omega)
      · rw [← List.drop_drop,hbytes,List.flatMap_cons,← r.length_bytes,List.drop_left]
      · apply hinert hnone h12
        rw [List.getLast?_cons,hr',Option.getD_some]

/-- Looking up elements from inode `n` on ends as the walk does. -/
theorem lookupLoop_walk {records : ℤ → List (List DirRecord)} (hh : c.Hierarchy B records N)
    (hfuel : ∀ n, Ext2Context.IsDir c B records n → (records n).flatten.length < E.fuel)
    (elements : List (List UInt8)) {n : ℤ} (e : ℤ) (h : At c N fe B f s) (hn : c.Holds B n N)
    (hdir : elements ≠ [] → Ext2Context.IsDir c B records n ∧ (c.inodeAt B n).isDir = true)
    (hpass : c.Passable B records n elements) :
    (lookupLoop E fe elements n e).Returns s fun p t =>
      p.1 = (if (c.walk B records n elements).isSome then 0 else -1) ∧
        ∀ m, c.walk B records n elements = some m → ∃ b, At c N fe B (opened c B m b) t := by
  induction elements generalizing n e s f with
  | nil =>
    refine (openInode_at hE hc hn h).bind fun r t ht => returns_pure ⟨ht.1,fun m hm => ?_⟩
    obtain ⟨-,b,hat,-⟩ := ht
    obtain rfl : n = m := Option.some.inj hm
    exact ⟨b,hat⟩
  | cons element rest ih =>
    obtain ⟨hisDir,hmode⟩ := hdir (by simp)
    obtain ⟨hsearch,hrest⟩ := hpass
    have ht := hh.tiles n hisDir
    refine (openInode_at hE hc hn h).bind fun _ t hopen => ?_
    obtain ⟨-,b,hat,hbuffer⟩ := hopen
    have hsize := le_of_eq ht.length
    have hreads := opened_reads (opened c B n b).flags ht.direct (fun _ _ => rfl) rfl hsize hbuffer
    obtain ⟨hvisits,hexact⟩ := hreads.visits rfl
    have hbytes : (c.fileContent B (c.inodeAt B n).iBlock (c.inodeAt B n).iSize).drop 0 =
        (records n).flatten.flatMap bytes := by
      rw [List.drop_zero]
      exact ht.content
    have hstraight : Straight (c.sectors * 512) (c.inodeAt B n).iSize true 0
        (upTo element (records n).flatten) = true := by
      rw [ht.length]
      exact hsearch.straight
    refine (findEntry_visits hE hc ht.direct hsize E.fuel e hat hvisits (fun _ : true = true => hexact) hbytes
      ht.fits (hh.live n hisDir) (hh.names n hisDir) hsearch.small hstraight hsearch.inert
      (hfuel n hisDir)).bind fun p u hu => ?_
    obtain ⟨o,e'⟩ := p
    obtain ⟨ho,g,hg⟩ := hu
    dsimp only at ho
    rw [Ext2Context.walk,if_pos hmode]
    cases hfound : search element (records n).flatten with
    | none =>
      rw [hfound] at ho
      obtain rfl : o = none := ho
      refine returns_pure ⟨rfl,fun m hm => ?_⟩
      exact absurd hm (by simp)
    | some r =>
      rw [hfound] at ho
      obtain rfl : o = some (r.inode : ℤ) := ho
      obtain ⟨hnext,hpass⟩ := hrest r hfound
      have hmem := List.mem_of_find?_eq_some hfound
      exact ih e' hg (hh.held n hisDir r hmem)
        (fun hne => ⟨.sub hisDir hmem (hnext hne),hnext hne⟩) hpass

end NoFault

/-! ### The small volume -/

/-- The root has the entry `A`. -/
def smallRecords (n : ℤ) : List (List DirRecord) := if n = ext2RootIno then [[recordA]] else []

theorem smallHierarchy {B : ℕ → Sector} (hroot : smallContext.Holds B ext2RootIno 16)
    (hrootDir : (smallContext.inodeAt B ext2RootIno).isDir = true) (hfile : smallContext.Holds B 3 16)
    (hnoDir : (smallContext.inodeAt B 3).isDir = false)
    (htiles : smallContext.Tiles B (smallContext.inodeAt B ext2RootIno) 16 [[recordA]]) :
    smallContext.Hierarchy B smallRecords 16 := by
  have hrecord {r : DirRecord} (hr : r ∈ (smallRecords ext2RootIno).flatten) : r = recordA := by
    simpa [smallRecords] using hr
  have honly {n : ℤ} (h : Ext2Context.IsDir smallContext B smallRecords n) : n = ext2RootIno := by
    induction h with
    | root => rfl
    | @sub n r parent mem dir ih =>
      subst ih
      obtain rfl := hrecord mem
      rw [show ((recordA.inode : ℕ) : ℤ) = 3 from rfl,hnoDir] at dir
      exact absurd dir (by decide)
  refine ⟨hroot,hrootDir,fun n hn => ?_,fun n hn r hr => ?_,fun n hn r hr => ?_,fun n hn r hr => ?_⟩
  · obtain rfl := honly hn
    exact htiles
  all_goals
    obtain rfl := honly hn
    obtain rfl := hrecord hr
  · decide
  · intro b hb
    obtain rfl : b = 0x41 := List.mem_singleton.1 hb
    decide
  · exact hfile

/-- The file `A` has the bytes of a directory with an entry `x` for the root. -/
def disguisedExt2 : ℕ → Sector :=
  Function.update (sizedExt2 1024) 12 (Sector.ofBytes [2,0,0,0,0,4,1,2,0x78])

end Ext2

end Gristle
