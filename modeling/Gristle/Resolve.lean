import Gristle.Search

/-! Resolving a path: what `fat_lookup_path` returns is what a walk through the directories, one name
after the other, finds. -/
namespace Gristle
open Prog

/-! ### The walk -/

/-- How a walk through directories ends: in the root, at the entry in slot `slot` of `block` in the
directory `parent`, at a last name the directory `parent` does not have, at an earlier name that is
missing, at an earlier entry that is no directory or at an element that is no name. -/
inductive Outcome
  | root
  | entry (parent block slot : ℕ)
  | missing (parent : ℕ)
  | badPath
  | notDir
  | noName
  deriving DecidableEq, Repr

/-- The cluster an entry leads to: an entry without a cluster leads to the root. -/
def FatInfo.first (g : FatInfo) (de : DirentS) : ℕ :=
  if de.cluster g = 0 then g.rootCluster else de.cluster g

/-- A walk from the directory at cluster `c`, where `D` relates a directory to its blocks. An element
of the path that is no name is `none`. -/
inductive Walk (g : FatInfo) (B : ℕ → Sector) (D : ℕ → List ℕ → Prop) :
    ℕ → List (Option (ℕ → UInt8)) → Outcome → Prop
  | root {c : ℕ} : Walk g B D c [] .root
  | noName {c : ℕ} {rest : List (Option (ℕ → UInt8))} : Walk g B D c (none :: rest) .noName
  | missing {c : ℕ} {secs : List ℕ} {n : ℕ → UInt8} (blocks : D c secs)
      (search : searchBlocks n B secs = none) : Walk g B D c [some n] (.missing c)
  | badPath {c : ℕ} {secs : List ℕ} {n : ℕ → UInt8} {m : Option (ℕ → UInt8)}
      {rest : List (Option (ℕ → UInt8))} (blocks : D c secs) (search : searchBlocks n B secs = none) :
      Walk g B D c (some n :: m :: rest) .badPath
  | entry {c b i : ℕ} {secs : List ℕ} {n : ℕ → UInt8} (blocks : D c secs)
      (search : searchBlocks n B secs = some (b,i)) : Walk g B D c [some n] (.entry c b i)
  | notDir {c b i : ℕ} {secs : List ℕ} {n : ℕ → UInt8} {m : Option (ℕ → UInt8)}
      {rest : List (Option (ℕ → UInt8))} (blocks : D c secs)
      (search : searchBlocks n B secs = some (b,i)) (file : ((B b).dirent i).isSubdir = false) :
      Walk g B D c (some n :: m :: rest) .notDir
  | down {c b i : ℕ} {secs : List ℕ} {n : ℕ → UInt8} {m : Option (ℕ → UInt8)}
      {rest : List (Option (ℕ → UInt8))} {o : Outcome} (blocks : D c secs)
      (search : searchBlocks n B secs = some (b,i)) (dir : ((B b).dirent i).isSubdir = true)
      (tail : Walk g B D (g.first ((B b).dirent i)) (m :: rest) o) :
      Walk g B D c (some n :: m :: rest) o

/-- Where directories have one list of blocks at most, walks are determined. -/
theorem Walk.unique {g : FatInfo} {B : ℕ → Sector} {D : ℕ → List ℕ → Prop}
    (hD : ∀ c l l', D c l → D c l' → l = l') {c : ℕ} {names : List (Option (ℕ → UInt8))}
    {o o' : Outcome} (h : Walk g B D c names o) (h' : Walk g B D c names o') : o = o' := by
  induction h with
  | root =>
    cases h'
    rfl
  | noName =>
    cases h'
    rfl
  | missing hb hs =>
    cases h' with
    | missing => rfl
    | entry hb' hs' => simp [hD _ _ _ hb hb',hs'] at hs
  | badPath hb hs =>
    cases h' with
    | badPath => rfl
    | notDir hb' hs' => simp [hD _ _ _ hb hb',hs'] at hs
    | down hb' hs' => simp [hD _ _ _ hb hb',hs'] at hs
  | entry hb hs =>
    cases h' with
    | missing hb' hs' => simp [hD _ _ _ hb hb',hs'] at hs
    | entry hb' hs' =>
      rw [hD _ _ _ hb hb',hs'] at hs
      obtain ⟨rfl,rfl⟩ := Prod.mk.inj (Option.some.inj hs)
      rfl
  | notDir hb hs hf =>
    cases h' with
    | badPath hb' hs' => simp [hD _ _ _ hb hb',hs'] at hs
    | notDir => rfl
    | down hb' hs' hd =>
      rw [hD _ _ _ hb hb',hs'] at hs
      obtain ⟨rfl,rfl⟩ := Prod.mk.inj (Option.some.inj hs)
      rw [hf] at hd
      exact absurd hd (by decide)
  | down hb hs hd tail ih =>
    cases h' with
    | badPath hb' hs' => simp [hD _ _ _ hb hb',hs'] at hs
    | notDir hb' hs' hf =>
      rw [hD _ _ _ hb hb',hs'] at hs
      obtain ⟨rfl,rfl⟩ := Prod.mk.inj (Option.some.inj hs)
      rw [hf] at hd
      exact absurd hd (by decide)
    | down hb' hs' hd' tail' =>
      rw [hD _ _ _ hb hb',hs'] at hs
      obtain ⟨rfl,rfl⟩ := Prod.mk.inj (Option.some.inj hs)
      exact ih tail'

theorem Walk.blocks {g : FatInfo} {B : ℕ → Sector} {D : ℕ → List ℕ → Prop} {c : ℕ}
    {n : ℕ → UInt8} {rest : List (Option (ℕ → UInt8))} {o : Outcome}
    (h : Walk g B D c (some n :: rest) o) : ∃ secs, D c secs := by
  cases h <;> exact ⟨_,‹D c _›⟩

/-! ### Names -/

/-- The names that `fat_lookup_path` makes of path elements, in one array, up to an element that is
no name. -/
inductive Converts : DosName → List (List UInt8) → List (Option DosName) → Prop
  | nil {d : DosName} : Converts d [] []
  | cons {d n : DosName} {e : List UInt8} {rest : List (List UInt8)} {ns : List (Option DosName)}
      (head : convertElement d e = .ok (some n)) (tail : Converts n rest ns) :
      Converts d (e :: rest) (some n :: ns)
  | stop {d : DosName} {e : List UInt8} {rest : List (List UInt8)} {ns : List (Option DosName)}
      (head : convertElement d e = .ok none) (length : ns.length = rest.length) :
      Converts d (e :: rest) (none :: ns)

theorem Converts.length {d : DosName} {elements : List (List UInt8)} {names : List (Option DosName)}
    (h : Converts d elements names) : names.length = elements.length := by
  induction h with
  | nil => rfl
  | cons head tail ih => rw [List.length_cons,List.length_cons,ih]
  | stop head hlen => rw [List.length_cons,List.length_cons,hlen]

/-- The names as a search compares them. -/
def nameBytes (names : List (Option DosName)) : List (Option (ℕ → UInt8)) :=
  names.map fun n => n.map DosName.byte

/-! ### The descriptor after a lookup -/

/-- The descriptor holds the entry in slot `i` of block `b` and stands at the start of what the entry
leads to. -/
structure FileS.Holds (E : Env) (g : FatInfo) (B : ℕ → Sector) (limit p b i : ℕ) (f : FileS) :
    Prop where
  flags : f.flags = .justOpen
  filename : f.filename = ((B b).dirent i).filename
  extension : f.extension = ((B b).dirent i).extension
  attributes : f.attributes = ((B b).dirent i).attributes
  size : f.size = ((B b).dirent i).size
  first : f.fullFirstCluster = g.first ((B b).dirent i)
  entrySector : f.entrySector = b
  entryNumber : f.entryNumber = i
  parent : f.parentCluster = p
  fileSector : f.fileSector = 0
  cursor : f.cursor = 0
  created : f.created = fatToUnixDate E ((B b).dirent i).createDate +
    fatToUnixTime E ((B b).dirent i).createTime + ((B b).dirent i).createTimeFine
  selected : f.select g f.fullFirstCluster = f
  loaded : f.sector < limit → f.Loaded B

/-- The descriptor stands at the start of the root directory. -/
structure FileS.HoldsRoot (g : FatInfo) (B : ℕ → Sector) (limit : ℕ) (f : FileS) : Prop where
  flags : f.flags = .justOpen
  attributes : f.attributes = attSubdir
  size : f.size = 0
  first : f.fullFirstCluster = g.rootCluster
  entrySector : f.entrySector = 0
  fileSector : f.fileSector = 0
  cursor : f.cursor = 0
  selected : f.select g f.fullFirstCluster = f
  loaded : f.sector < limit → f.Loaded B

/-- What `fat_lookup_path` reports for an outcome, and the descriptor it leaves. -/
def Outcome.Reported (E : Env) (g : FatInfo) (B : ℕ → Sector) (limit : ℕ) (names : List (Option DosName))
    (e : ℤ) (r : ℤ × ℤ) (f : FileS) : Outcome → Prop
  | .root => r = (0,e) ∧ f.HoldsRoot g B limit
  | .entry p b i => r = (0,e) ∧ f.Holds E g B limit p b i
  | .missing p => r = (-1,eNoent) ∧ f.parentCluster = p ∧
      ∃ n, names.getLast? = some (some n) ∧ FileS.rename n f = f
  | .badPath => r = (-1,Gristle.badPath)
  | .notDir => r = (-1,eNotdir)
  | .noName => r = (-1,eIo)

section NoFault
variable {E : Env} (hE : E.NoFault)
include hE

/-- Turn to a cluster, wherever it lies. -/
theorem fatSelectCluster_total (fd : Fd) (c : ℕ) (s : FatState) :
    (fatSelectCluster E fd c).Returns s fun _ t => ∃ buf, After fd s t s.dev.blocks
      { (s.fileNum fd).select s.fatfs c with buffer := buf } ∧
      (((s.fileNum fd).select s.fatfs c).sector < s.dev.size →
        buf = s.dev.blocks ((s.fileNum fd).select s.fatfs c).sector) := by
  by_cases hlt : ((s.fileNum fd).select s.fatfs c).sector < s.dev.size
  · exact (fatSelectCluster_returns hE hlt).mono fun _ t h => ⟨_,h.2,fun _ => rfl⟩
  · have hread (u : FatState) (hu : u.dev.size = s.dev.size)
        (hf : u.fileNum fd = (s.fileNum fd).select s.fatfs c) :
        ∃ v, readBuffer E fd ((s.fileNum fd).select s.fatfs c).sector u = .ok (true,v) := by
      refine ⟨{ u with dev := { u.dev with tick := u.dev.tick + 1 } },?_⟩
      have hnone : onDevice (Device.blockRead E ((s.fileNum fd).select s.fatfs c).sector) u =
          .ok (none,{ u with dev := { u.dev with tick := u.dev.tick + 1 } }) := by
        rw [onDevice,zoom,Device.blockRead,if_pos (.inr (by omega))]
      rw [readBuffer,bind_of_ok hnone]
      rfl
    have hset := updateFile_after fd (FileS.select s.fatfs c) s
    obtain ⟨v,hv⟩ := hread _ hset.size hset.file
    have hrun : fatSelectCluster E fd c s = .ok (true,v) := by
      rw [fatSelectCluster,bind_of_ok rfl]
      have hupd : updateFile fd (FileS.select s.fatfs c) s =
        .ok ((),s.setFile fd ((s.fileNum fd).select s.fatfs c)) := rfl
      rw [bind_of_ok hupd,bind_of_ok rfl,hset.file]
      exact hv
    obtain ⟨buf,ha,-⟩ := fatSelectCluster_result hrun
    exact ⟨true,v,hrun,buf,ha,fun h => absurd h hlt⟩

/-- Turn to a cluster; if it is the first one of a directory, to the first block of that. -/
theorem fatSelectCluster_turn (fd : Fd) (c : ℕ) (s : FatState) (hg : s.fatfs.Valid s.dev.size) :
    (fatSelectCluster E fd c).Returns s fun _ t => ∃ buf, After fd s t s.dev.blocks
      { (s.fileNum fd).select s.fatfs c with buffer := buf } ∧
      ((∃ secs, s.fatfs.Scanned s.dev.blocks c secs) →
        (t.fileNum fd).Stands s.fatfs s.dev.blocks c 0 ∧ (t.fileNum fd).Loaded s.dev.blocks) := by
  refine (fatSelectCluster_total hE fd c s).mono fun _ t ht => ?_
  obtain ⟨buf,ht,hbuf⟩ := ht
  refine ⟨buf,ht,fun hsecs => ?_⟩
  obtain ⟨secs,h⟩ := hsecs
  have hstands := (h.select hg (s.fileNum fd)).1
  obtain ⟨hq,hsector⟩ := h.stands hg hstands
  have hmem : ((s.fileNum fd).select s.fatfs c).sector ∈ secs := by
    rw [← hsector,List.getD_eq_getElem _ _ hq]
    exact List.getElem_mem _
  rw [ht.file]
  refine ⟨?_,hbuf (h.mem hg hmem).1⟩
  rcases hstands with h | ⟨cs,hcs,hat⟩
  · exact .inl h
  · exact .inr ⟨cs,hcs,⟨hat.inside,hat.cluster,hat.sector,hat.left⟩⟩

/-- Loading an entry and turning to the cluster it leads to. -/
theorem loadEntry_returns {fd : Fd} {s : FatState} {p b i : ℕ} {e : ℤ}
    (hp : (s.fileNum fd).parentCluster = p) (hb : (s.fileNum fd).sector = b) :
    (do
      updateFile fd (FileS.load E s.fatfs ((s.dev.blocks b).dirent i) i)
      let f ← file fd
      let _ ← fatSelectCluster E fd f.fullFirstCluster
      pure (0,e)).Returns s fun (r : ℤ × ℤ) t => After fd s t s.dev.blocks (t.fileNum fd) ∧
        r = (0,e) ∧ (t.fileNum fd).Holds E s.fatfs s.dev.blocks s.dev.size p b i := by
  refine (updateFile_returns fd _ s).bind fun _ t ht => returns_file ?_
  rw [ht.file]
  refine (fatSelectCluster_total hE fd _ t).bind fun _ u hu => returns_pure ?_
  obtain ⟨buf,hu,hbuf⟩ := hu
  rw [ht.blocks,ht.file,ht.fatfs] at hu
  rw [ht.blocks,ht.size,ht.file,ht.fatfs] at hbuf
  refine ⟨(ht.trans hu).self,rfl,?_⟩
  have hfirst : (FileS.load E s.fatfs ((s.dev.blocks b).dirent i) i (s.fileNum fd)).fullFirstCluster =
      s.fatfs.first ((s.dev.blocks b).dirent i) := rfl
  rw [hfirst] at hu hbuf
  have hstill : (u.fileNum fd).still =
      (FileS.load E s.fatfs ((s.dev.blocks b).dirent i) i (s.fileNum fd)).still := by
    rw [hu.file]
    exact FileS.still_select _ _ _
  have hfield {α : Type} (v : FileS → α) (hv : ∀ f, v f.still = v f) := FileS.field_of_still v hv hstill
  have hfc : (u.fileNum fd).fullFirstCluster = s.fatfs.first ((s.dev.blocks b).dirent i) :=
    hfield FileS.fullFirstCluster fun _ => rfl
  refine ⟨?_,hfield FileS.filename fun _ => rfl,hfield FileS.extension fun _ => rfl,
    hfield FileS.attributes fun _ => rfl,hfield FileS.size fun _ => rfl,hfc,
    (hfield FileS.entrySector fun _ => rfl).trans hb,hfield FileS.entryNumber fun _ => rfl,
    (hfield FileS.parentCluster fun _ => rfl).trans hp,?_,?_,hfield FileS.created fun _ => rfl,?_,?_⟩
  · rw [hu.file]
    exact FileS.flags_select _ _ _
  · rw [hu.file]
    change (FileS.select _ _ _).fileSector = 0
    unfold FileS.select
    split <;> rfl
  · rw [hu.file]
    exact FileS.cursor_select _ _ _
  · rw [hfc,hu.file]
    exact FileS.select_select _ _ _ _
  · rw [hu.file]
    exact hbuf

/-- From a directory on, `fat_lookup_path` reports the outcome of the walk. -/
theorem lookupLoop_returns {fd : Fd} {elements : List (List UInt8)} {names : List (Option DosName)}
    {dosname : DosName} {e : ℤ} {s : FatState} {c : ℕ} {o : Outcome}
    (hg : s.fatfs.Valid s.dev.size)
    (hfuel : ∀ c secs, s.fatfs.Scanned s.dev.blocks c secs → secs.length ≤ E.fuel)
    (hne : elements ≠ []) (hconv : Converts dosname elements names)
    (hwalk : Walk s.fatfs s.dev.blocks (s.fatfs.Scanned s.dev.blocks) c (nameBytes names) o)
    (hstands : (∃ secs, s.fatfs.Scanned s.dev.blocks c secs) →
      (s.fileNum fd).Stands s.fatfs s.dev.blocks c 0 ∧ (s.fileNum fd).Loaded s.dev.blocks)
    (hflags : (s.fileNum fd).flags = .justOpen) (hparent : (s.fileNum fd).parentCluster = c) :
    (lookupLoop E fd elements dosname e).Returns s fun r t => After fd s t s.dev.blocks (t.fileNum fd) ∧
      (t.fileNum fd).flags = .justOpen ∧
      o.Reported E s.fatfs s.dev.blocks s.dev.size names e r (t.fileNum fd) := by
  induction elements generalizing names dosname s c with
  | nil => exact absurd rfl hne
  | cons element rest ih =>
    cases hconv with
    | stop hhead hlen =>
      cases hwalk
      have hlift : liftStop (convertElement dosname element) s = .ok (none,s) := by
        rw [hhead]
        rfl
      exact returns_bind_of_ok hlift (returns_pure ⟨After.refl s,hflags,rfl⟩)
    | @cons _ n _ _ ns hhead htail =>
    have hlift : liftStop (convertElement dosname element) s = .ok (some n,s) := by
      rw [hhead]
      rfl
    refine returns_bind_of_ok hlift ?_
    obtain ⟨hstands,hload⟩ := hstands (Walk.blocks hwalk)
    have hparent' {t : FatState} (h : (t.fileNum fd).still = (s.fileNum fd).still) :
        (t.fileNum fd).parentCluster = c :=
      (FileS.field_of_still FileS.parentCluster (fun _ => rfl) h).trans hparent
    have hlength := htail.length
    cases ns with
    | nil =>
      obtain rfl := List.length_eq_zero_iff.1 hlength.symm
      cases hwalk with
      | missing hb hs =>
        refine (scanLoop_none hE hg hb hstands hload hflags (hfuel c _ hb) hs).bind fun o t ht => ?_
        obtain ⟨rfl,ha,hstill,hfl⟩ := ht
        refine (updateFile_returns fd _ t).bind fun _ u hu => returns_pure ?_
        rw [ha.blocks] at hu
        refine ⟨(ha.trans hu).self,?_,rfl,?_,n,rfl,?_⟩ <;> rw [hu.file]
        · exact hfl
        · exact hparent' hstill
        · rfl
      | @entry _ b i _ _ hb hs =>
        refine (scanLoop_some hE hg hb hstands hload hflags (hfuel c _ hb) hs).bind fun o t ht => ?_
        obtain ⟨rfl,ha,hstill,hfl,hsector,hbuf⟩ := ht
        refine returns_file (returns_fatfs (returns_ite (fun _ => ?_) (by simp)))
        have hloaded := @loadEntry_returns E hE fd t c b i e (hparent' hstill) hsector
        rw [ha.blocks,ha.fatfs,ha.size] at hloaded
        rw [hbuf,ha.fatfs]
        refine hloaded.mono fun r u hu => ?_
        obtain ⟨hau,hr,hholds⟩ := hu
        exact ⟨ha.trans hau,hholds.flags,hr,hholds⟩
    | cons n' ns' =>
      have hrest : rest ≠ [] := by
        rintro rfl
        simp at hlength
      cases hwalk with
      | badPath hb hs =>
        refine (scanLoop_none hE hg hb hstands hload hflags (hfuel c _ hb) hs).bind fun o t ht => ?_
        obtain ⟨rfl,ha,hstill,hfl⟩ := ht
        refine (updateFile_returns fd _ t).bind fun _ u hu => returns_pure ?_
        rw [ha.blocks] at hu
        refine ⟨(ha.trans hu).self,?_,by rw [if_pos hrest]; rfl⟩
        rw [hu.file]
        exact hfl
      | @notDir _ b i _ _ _ _ hb hs hf =>
        refine (scanLoop_some hE hg hb hstands hload hflags (hfuel c _ hb) hs).bind fun o t ht => ?_
        obtain ⟨rfl,ha,hstill,hfl,hsector,hbuf⟩ := ht
        refine returns_file (returns_fatfs (returns_ite (by simp [hrest]) fun _ => ?_))
        rw [hbuf]
        exact returns_ite (by simp [hf]) fun _ => returns_pure ⟨ha,hfl,rfl⟩
      | @down _ b i _ _ _ _ _ hb hs hd tail =>
        refine (scanLoop_some hE hg hb hstands hload hflags (hfuel c _ hb) hs).bind fun o t ht => ?_
        obtain ⟨rfl,ha,hstill,hfl,hsector,hbuf⟩ := ht
        refine returns_file (returns_fatfs (returns_ite (by simp [hrest]) fun _ => ?_))
        rw [hbuf]
        refine returns_ite (fun _ => ?_) (by simp [hd])
        rw [ha.fatfs]
        refine (updateFile_returns fd _ t).bind fun _ u hu => ?_
        rw [ha.blocks] at hu
        have hsu := ha.trans hu
        refine (fatSelectCluster_turn hE fd (s.fatfs.first ((s.dev.blocks b).dirent i)) u
          (by rw [hsu.fatfs,hsu.size]; exact hg)).bind fun _ v hv => ?_
        rw [hsu.fatfs,hsu.blocks] at hv
        obtain ⟨buf,hv,hturn⟩ := hv
        have hsv := hsu.trans hv
        have hrest := @ih (n' :: ns') n v _ (by rw [hsv.fatfs,hsv.size]; exact hg)
          (by rw [hsv.fatfs,hsv.blocks]; exact hfuel) hrest htail
          (by rw [hsv.fatfs,hsv.blocks]; exact tail) (by rw [hsv.fatfs,hsv.blocks]; exact hturn) ?_ ?_
        · rw [hsv.blocks,hsv.fatfs,hsv.size] at hrest
          refine hrest.mono fun r w hw => ?_
          obtain ⟨haw,hflw,hrep⟩ := hw
          refine ⟨hsv.trans haw,hflw,?_⟩
          cases o with
          | missing p => exact ⟨hrep.1,hrep.2.1,hrep.2.2⟩
          | _ => exact hrep
        · rw [hv.file]
          change (FileS.select _ _ _).flags = _
          rw [FileS.flags_select,hu.file]
          exact hfl
        · have hstill' : (v.fileNum fd).still = (u.fileNum fd).still := by
            rw [hv.file]
            exact FileS.still_select _ _ _
          rw [FileS.field_of_still FileS.parentCluster (fun _ => rfl) hstill',hu.file]
          rfl

/-- The bytes in the array of names when a lookup starts. -/
def FatState.garbage (E : Env) (s : FatState) : DosName := fun k => E.junk s.dev.tick k

/-- `fat_lookup_path` reports the outcome of the walk from the root along its first twenty elements. -/
theorem fatLookupPath_returns {fd : Fd} {path : List UInt8} {names : List (Option DosName)} {e : ℤ}
    {s : FatState} {o : Outcome} (hg : s.fatfs.Valid s.dev.size)
    (hfuel : ∀ c secs, s.fatfs.Scanned s.dev.blocks c secs → secs.length ≤ E.fuel)
    (hlen : path.length ≤ 99) (hconv : Converts (s.garbage E) ((pathElements path).take 20) names)
    (hwalk : Walk s.fatfs s.dev.blocks (s.fatfs.Scanned s.dev.blocks) s.fatfs.rootCluster
      (nameBytes names) o)
    (hflags : (s.fileNum fd).flags = .justOpen) :
    (fatLookupPath E fd path e).Returns s fun r t => After fd s t s.dev.blocks (t.fileNum fd) ∧
      (t.fileNum fd).flags = .justOpen ∧
      o.Reported E s.fatfs s.dev.blocks s.dev.size names e r (t.fileNum fd) := by
  refine returns_ite (fun h => absurd h (by omega)) fun _ => returns_fatfs ?_
  have hjunk : junk E s = .ok (E.junk s.dev.tick,
      { s with dev := { s.dev with tick := s.dev.tick + 1 } }) := rfl
  refine returns_bind_of_ok hjunk ?_
  set t : FatState := { s with dev := { s.dev with tick := s.dev.tick + 1 } }
  have ht : After fd s t s.dev.blocks (s.fileNum fd) :=
    ((junk_returns E s).of_ok hjunk).after fd
  refine (fatSelectCluster_turn hE fd s.fatfs.rootCluster t hg).bind fun _ u hu => ?_
  obtain ⟨buf,hu,hturn⟩ := hu
  have hsu := ht.trans hu
  have hflu : (u.fileNum fd).flags = .justOpen := by
    rw [hu.file]
    change (FileS.select _ _ _).flags = _
    rw [FileS.flags_select]
    exact hflags
  cases hp : (pathElements path).take 20 with
  | nil =>
    rw [hp] at hconv
    cases hconv
    cases hwalk
    refine (updateFile_returns fd _ u).bind fun _ v hv => ?_
    rw [hu.blocks] at hv
    have hsv := hsu.trans hv
    refine (fatSelectCluster_total hE fd s.fatfs.rootCluster v).bind fun _ w hw => returns_pure ?_
    obtain ⟨buf',hw,hbuf⟩ := hw
    rw [hsv.blocks,hsv.fatfs] at hw
    rw [hsv.blocks,hsv.fatfs,hsv.size] at hbuf
    have hstill : (w.fileNum fd).still = (v.fileNum fd).still := by
      rw [hw.file]
      exact FileS.still_select _ _ _
    have hfield {α : Type} (x : FileS → α) (hx : ∀ f, x f.still = x f) : x (w.fileNum fd) = _ :=
      (FileS.field_of_still x hx hstill).trans (congrArg x hsv.file)
    have hfirst : (w.fileNum fd).fullFirstCluster = s.fatfs.rootCluster :=
      hfield FileS.fullFirstCluster fun _ => rfl
    have hflw : (w.fileNum fd).flags = .justOpen := by
      rw [hw.file]
      change (FileS.select _ _ _).flags = _
      rw [FileS.flags_select,hsv.file]
      exact hflu
    refine ⟨(hsv.trans hw).self,hflw,rfl,hflw,hfield FileS.attributes fun _ => rfl,
      hfield FileS.size fun _ => rfl,hfirst,hfield FileS.entrySector fun _ => rfl,?_,?_,?_,?_⟩
    · rw [hw.file]
      have hzero : (v.fileNum fd).fileSector = 0 := by
        rw [hsv.file]
        rfl
      change (FileS.select _ _ _).fileSector = 0
      unfold FileS.select
      split <;> exact hzero
    · rw [hw.file]
      exact FileS.cursor_select _ _ _
    · rw [hfirst,hw.file]
      exact FileS.select_select _ _ _ _
    · rw [hw.file]
      exact hbuf
  | cons element rest =>
    refine (updateFile_returns fd _ u).bind fun _ v hv => ?_
    rw [hu.blocks] at hv
    have hsv := hsu.trans hv
    have hsame {f : FileS} (h : f.Stands s.fatfs s.dev.blocks s.fatfs.rootCluster 0) :
        FileS.Stands s.fatfs s.dev.blocks s.fatfs.rootCluster 0
          { f with parentCluster := s.fatfs.rootCluster } :=
      h.imp_right fun ⟨cs,hcs,h⟩ => ⟨cs,hcs,⟨h.inside,h.cluster,h.sector,h.left⟩⟩
    have hloop := @lookupLoop_returns E hE fd (element :: rest) names (s.garbage E) e v
      s.fatfs.rootCluster o (by rw [hsv.fatfs,hsv.size]; exact hg)
      (by rw [hsv.fatfs,hsv.blocks]; exact hfuel) (by simp) (by rw [← hp]; exact hconv)
      (by rw [hsv.fatfs,hsv.blocks]; exact hwalk)
      (by
        rw [hsv.fatfs,hsv.blocks,hv.file]
        exact fun hsecs => ⟨hsame (hturn hsecs).1,(hturn hsecs).2⟩)
      (by rw [hv.file]; exact hflu) (by rw [hv.file])
    rw [hsv.blocks,hsv.fatfs,hsv.size] at hloop
    exact hloop.mono fun r w hw => ⟨hsv.trans hw.1,hw.2⟩

end NoFault

end Gristle
