import Gristle.Element
import Gristle.Listing
import Gristle.Parent

/-! Searches and listings on a volume with any contents: which of them come to an end. -/
namespace Gristle
open Prog

/-! ### The position of a descriptor -/

/-- The sector under a descriptor, the cursor in it and the buffer. -/
structure Place where
  sector : ℕ
  sectorsLeft : ℕ
  cluster : ℕ
  cursor : ℕ
  buffer : Sector

def FileS.place (f : FileS) : Place := ⟨f.sector,f.sectorsLeft,f.cluster,f.cursor,f.buffer⟩

/-- A descriptor that neither extends a chain nor has anything to write back. -/
structure FileS.Reading (f : FileS) : Prop where
  clean : f.flags.dirty = false
  write : f.flags.write = false

/-- A mounted table on a device with these blocks. -/
structure FatState.On (g : FatInfo) (B : ℕ → Sector) (size : ℕ) (s : FatState) : Prop where
  fatfs : s.fatfs = g
  blocks : s.dev.blocks = B
  device : s.dev.size = size

theorem FatState.On.after {g : FatInfo} {B : ℕ → Sector} {size : ℕ} {s t : FatState} {fd : Fd} {f : FileS}
    (h : s.On g B size) (ht : After fd s t s.dev.blocks f) : t.On g B size :=
  ⟨ht.fatfs.trans h.fatfs,ht.blocks.trans h.blocks,ht.size.trans h.device⟩

namespace Place
variable (g : FatInfo) (B : ℕ → Sector) (size : ℕ)

/-- The start of a cluster. The buffer stays as it is when the sector cannot be read. -/
def turn (c : ℕ) (p : Place) : Place :=
  let sector := if c = 1 then g.rootStart else g.firstSector c
  { sector := sector
    sectorsLeft := if c = 1 then u8 g.rootLen else u8 (g.sectorsPerCluster + 2^8 - 1)
    cluster := c
    cursor := 0
    buffer := if sector < size then B sector else p.buffer }

/-- The place one sector on, in the cluster or in the one its entry links to; nothing where the chain
ends, its link is no cluster or a block lies outside the device. -/
def next (p : Place) : Option Place :=
  if 0 < p.sectorsLeft then
    if u32 (p.sector + 1) < size then
      some ⟨u32 (p.sector + 1),p.sectorsLeft - 1,p.cluster,0,B (u32 (p.sector + 1))⟩
    else none
  else if p.cluster = 1 ∨ size ≤ g.entryBlock p.cluster then none
  else if g.entry B p.cluster < 2 ∨ g.endClusterMarker ≤ g.entry B p.cluster ∨
      size ≤ g.firstSector (g.entry B p.cluster) then none
  else some (p.turn g B size (g.entry B p.cluster))

end Place

/-- Only the place, the position in the file and the error of a descriptor may have changed. -/
structure FileS.Moved (f f' : FileS) : Prop where
  flags : f'.flags = f.flags
  still : f'.still = f.still

theorem FileS.Moved.subdir {f f' : FileS} (h : f.Moved f') : f'.isSubdir = f.isSubdir :=
  FileS.field_of_still FileS.isSubdir (fun _ => rfl) h.still

theorem FileS.Moved.reading {f f' : FileS} (h : f.Moved f') (hf : f.Reading) : f'.Reading :=
  ⟨by rw [h.flags]; exact hf.clean,by rw [h.flags]; exact hf.write⟩

section NoFault
variable {E : Env} (hE : E.NoFault) {fd : Fd} {s : FatState} {g : FatInfo} {B : ℕ → Sector} {size : ℕ}
  (hs : s.On g B size)
include hE hs

theorem readBuffer_any (b : ℕ) : (readBuffer E fd b).Returns s fun failed t =>
    failed = decide (size ≤ b) ∧ After fd s t s.dev.blocks
      { s.fileNum fd with buffer := if b < size then B b else (s.fileNum fd).buffer } := by
  obtain ⟨-,rfl,rfl⟩ := hs
  by_cases hb : b < s.dev.size
  · refine (readBuffer_returns hE hb).mono fun failed t ht => ?_
    rw [if_pos hb]
    exact ⟨ht.1.trans (by simp [hb]),ht.2⟩
  · have hnone : (Device.blockRead E b).Returns s.dev fun o _ => o = none :=
      ⟨_,_,rfl,if_pos (Or.inr (Nat.le_of_not_lt hb))⟩
    have hread : (readBuffer E fd b).Returns s fun failed _ => failed = true := by
      refine (onDevice_returns hnone).bind fun o t ht => ?_
      obtain ⟨rfl,-⟩ := ht
      exact returns_pure rfl
    obtain ⟨failed,t,hrun,rfl⟩ := hread
    refine ⟨true,t,hrun,by simp [Nat.le_of_not_lt hb],?_⟩
    rw [if_neg hb]
    exact (readBuffer_result hrun).elim (fun h => h.2) fun h => absurd h.1 (by simp)

/-- `fat_select_cluster` on any volume. -/
theorem fatSelectCluster_any (c : ℕ) : (fatSelectCluster E fd c).Returns s fun failed t =>
    failed = decide (size ≤ ((s.fileNum fd).place.turn g B size c).sector) ∧
      After fd s t s.dev.blocks (t.fileNum fd) ∧ (s.fileNum fd).Moved (t.fileNum fd) ∧
      (t.fileNum fd).place = (s.fileNum fd).place.turn g B size c := by
  have hfatfs := hs.fatfs
  refine returns_fatfs ((updateFile_returns fd _ s).bind fun _ t ht => returns_file ?_)
  rw [ht.file]
  refine (readBuffer_any hE (hs.after ht) _).mono fun failed u hu => ?_
  obtain ⟨rfl,hu⟩ := hu
  rw [ht.blocks,ht.file,hfatfs] at hu
  have hau := ht.trans hu
  refine ⟨?_,hau.self,?_,?_⟩
  · rw [hfatfs]
    unfold FileS.select Place.turn
    split <;> rfl
  · rw [hau.file]
    exact ⟨FileS.flags_select _ _ _,FileS.still_select _ _ _⟩
  · rw [hau.file]
    unfold FileS.select Place.turn FileS.place
    split
    · rename_i h
      rw [h]
    · rfl

/-- `fat_next_cluster` on any volume, for a descriptor that only reads. -/
theorem fatNextClusterWith_any {ffi : Fd → FatM ℤ} (hf : (s.fileNum fd).Reading) :
    (fatNextClusterWith ffi E fd).Returns s fun c t =>
      After fd s t s.dev.blocks (t.fileNum fd) ∧ (s.fileNum fd).Moved (t.fileNum fd) ∧
      c.1 = if ((s.fileNum fd).cluster = 1 ∨ size ≤ g.entryBlock (s.fileNum fd).cluster) ∨
          g.entry B (s.fileNum fd).cluster < 2 ∨ g.endClusterMarker ≤ g.entry B (s.fileNum fd).cluster
        then -1 else i32 (g.entry B (s.fileNum fd).cluster) := by
  have hfatfs := hs.fatfs
  have herror {t : FatState} (u : FileS → FileS) (ht : After fd s t s.dev.blocks (t.fileNum fd))
      (hm : (s.fileNum fd).Moved (t.fileNum fd)) (hu : ∀ f, FileS.Moved f (u f)) (e : ℤ) :
      (do
        updateFile fd u
        pure (-1,e)).Returns t fun (c : ℤ × ℤ) v => c.1 = -1 ∧
          After fd s v s.dev.blocks (v.fileNum fd) ∧ (s.fileNum fd).Moved (v.fileNum fd) := by
    refine (updateFile_returns fd u t).bind fun _ v hv => returns_pure ⟨rfl,?_⟩
    rw [ht.blocks] at hv
    refine ⟨(ht.trans hv).self,?_⟩
    rw [hv.file]
    exact ⟨(hu _).flags.trans hm.flags,(hu _).still.trans hm.still⟩
  refine returns_bind_of_ok (fatFlushWith_clean hf.clean) (returns_ite (by simp) fun _ =>
    returns_fatfs (returns_file ?_))
  rw [hfatfs]
  refine returns_ite (fun hroot => ?_) fun hroot => ?_
  · refine (herror (fun f => { f with error := fatEndOfFile }) (After.refl s) ⟨rfl,rfl⟩
      (fun _ => ⟨rfl,rfl⟩) 0).mono fun c v hv => ?_
    rw [if_pos (.inl (.inl hroot))]
    exact ⟨hv.2.1,hv.2.2,hv.1⟩
  refine (readBuffer_any hE hs _).bind fun failed t ht => ?_
  obtain ⟨rfl,ht⟩ := ht
  have hmoved : (s.fileNum fd).Moved (t.fileNum fd) := by
    rw [ht.file]
    exact ⟨rfl,rfl⟩
  refine returns_ite (fun hout => returns_pure ?_) fun hin => returns_file ?_
  · rw [if_pos (.inl (.inr (of_decide_eq_true hout)))]
    exact ⟨ht.self,hmoved,rfl⟩
  have hlt : g.entryBlock (s.fileNum fd).cluster < size := by simpa using hin
  rw [ht.file,if_pos hlt]
  have hentry : g.entryAt (B (g.entryBlock (s.fileNum fd).cluster)) (g.entryOffset (s.fileNum fd).cluster) =
    g.entry B (s.fileNum fd).cluster := rfl
  dsimp only
  rw [hentry]
  have hnot : ¬ ((s.fileNum fd).cluster = 1 ∨ size ≤ g.entryBlock (s.fileNum fd).cluster) :=
    fun h => h.elim hroot fun h => Nat.not_le_of_lt hlt h
  refine returns_ite (fun hlow => ?_) fun hlow => returns_ite (fun hend => ?_) fun hend => ?_
  · refine (herror (fun f => { f with error := fatErrorCluster }) ht.self hmoved
      (fun _ => ⟨rfl,rfl⟩) eIo).mono fun c v hv => ?_
    rw [if_pos (.inr (.inl hlow))]
    exact ⟨hv.2.1,hv.2.2,hv.1⟩
  · refine returns_ite (fun hwrite => absurd hwrite (by simp [hf.write])) fun _ => ?_
    refine (herror (fun f => { f with error := fatEndOfFile }) ht.self hmoved
      (fun _ => ⟨rfl,rfl⟩) 0).mono fun c v hv => ?_
    rw [if_pos (.inr (.inr hend))]
    exact ⟨hv.2.1,hv.2.2,hv.1⟩
  · refine returns_pure ⟨ht.self,hmoved,?_⟩
    rw [if_neg fun h => h.elim hnot fun h => h.elim hlow hend]

/-- `fat_next_sector` on any volume. -/
theorem fatNextSectorWith_any (hg : g.Kind) {ffi : Fd → FatM ℤ} (hf : (s.fileNum fd).Reading) :
    (fatNextSectorWith ffi E fd).Returns s fun failed t =>
      After fd s t s.dev.blocks (t.fileNum fd) ∧ (s.fileNum fd).Moved (t.fileNum fd) ∧
      match (s.fileNum fd).place.next g B size with
      | none => failed = true
      | some q => failed = false ∧ (t.fileNum fd).place = q := by
  refine returns_bind_of_ok (fatFlushWith_clean hf.clean) (returns_ite (by simp) fun _ => returns_file ?_)
  refine returns_ite (fun hleft => ?_) fun hleft => ?_
  · refine (updateFile_returns fd _ s).bind fun _ t ht => returns_file ?_
    rw [ht.file]
    refine (readBuffer_any hE (hs.after ht) _).mono fun failed u hu => ?_
    obtain ⟨rfl,hu⟩ := hu
    rw [ht.blocks,ht.file] at hu
    have hau := ht.trans hu
    refine ⟨hau.self,?_,?_⟩
    · rw [hau.file]
      exact ⟨rfl,rfl⟩
    · rw [Place.next,if_pos (show 0 < (s.fileNum fd).place.sectorsLeft from hleft),hau.file]
      by_cases hb : u32 ((s.fileNum fd).sector + 1) < size
      · simp [FileS.place,hb]
      · simp [FileS.place,hb,Nat.le_of_not_lt hb]
  · rw [Place.next,if_neg (show ¬ 0 < (s.fileNum fd).place.sectorsLeft from hleft)]
    refine (fatNextClusterWith_any hE hs hf).bind fun c t ht => ?_
    obtain ⟨c,e⟩ := c
    obtain ⟨ha,hm,hc⟩ := ht
    change c = _ at hc
    set j := g.entry B (s.fileNum fd).cluster with hj
    by_cases hroot : (s.fileNum fd).cluster = 1 ∨ size ≤ g.entryBlock (s.fileNum fd).cluster
    · rw [if_pos (.inl hroot)] at hc
      subst hc
      refine returns_ite (fun h => absurd h (by decide)) fun _ => returns_pure ⟨ha,hm,?_⟩
      rw [if_pos (show (s.fileNum fd).place.cluster = 1 ∨ size ≤ g.entryBlock (s.fileNum fd).place.cluster
        from hroot)]
    rw [if_neg (show ¬ ((s.fileNum fd).place.cluster = 1 ∨
      size ≤ g.entryBlock (s.fileNum fd).place.cluster) from hroot),
      show (s.fileNum fd).place.cluster = (s.fileNum fd).cluster from rfl,← hj]
    by_cases hend : j < 2 ∨ g.endClusterMarker ≤ j
    · rw [if_pos (.inr hend)] at hc
      subst hc
      refine returns_ite (fun h => absurd h (by decide)) fun _ => returns_pure ⟨ha,hm,?_⟩
      rw [if_pos (hend.imp_right fun h => Or.inl h)]
    have hmark := hg.marker_lt
    rw [if_neg fun h => h.elim hroot hend,i32_of_lt (by omega)] at hc
    subst hc
    refine returns_ite (fun _ => ?_) fun h => absurd (show (-1 : ℤ) < j by omega) h
    refine (updateFile_returns fd _ t).bind fun _ u hu => ?_
    rw [ha.blocks] at hu
    have hau := ha.trans hu
    rw [Int.toNat_natCast]
    refine (fatSelectCluster_any hE (hs.after hau) j).mono fun failed v hv => ?_
    obtain ⟨rfl,hv,hmv,hplace⟩ := hv
    rw [hau.blocks] at hv
    have hturn (p q : Place) (h : g.firstSector j < size) : p.turn g B size j = q.turn g B size j := by
      have hone : ¬ j = 1 := by omega
      simp only [Place.turn,if_neg hone,if_pos h]
    have hsector (p : Place) : (p.turn g B size j).sector = g.firstSector j :=
      if_neg (show ¬ j = 1 by omega)
    refine ⟨hau.trans hv,?_,?_⟩
    · rw [hau.file] at hmv
      exact ⟨hmv.flags.trans hm.flags,hmv.still.trans hm.still⟩
    · rw [hsector]
      by_cases hout : size ≤ g.firstSector j
      · rw [if_pos (.inr (.inr hout))]
        exact decide_eq_true hout
      · rw [if_neg fun h => h.elim (fun h => hend (.inl h)) fun h => h.elim (fun h => hend (.inr h)) hout]
        exact ⟨decide_eq_false hout,hplace.trans (hturn _ _ (Nat.lt_of_not_le hout))⟩

end NoFault

/-! ### Searches -/

namespace Place

/-- From a place on, a search for a name goes on for `n` sectors and ends at place `q`: an empty slot or
the name is there, or nothing follows. -/
inductive Finds (g : FatInfo) (B : ℕ → Sector) (size : ℕ) (name : ℕ → UInt8) :
    ℕ → Place → SlotSearch → Place → Prop
  | here {p : Place} {o : SlotSearch} : searchSlots name p.buffer 16 0 = o → o ≠ .absent →
      Finds g B size name 0 p o p
  | ended {p : Place} : searchSlots name p.buffer 16 0 = .absent → p.next g B size = none →
      Finds g B size name 0 p .absent p
  | next {n : ℕ} {p q r : Place} {o : SlotSearch} : searchSlots name p.buffer 16 0 = .absent →
      p.next g B size = some q → Finds g B size name n q o r → Finds g B size name (n+1) p o r

end Place

/-- What the loop returns, and where the descriptor is, when the search ends so. -/
def SlotSearch.Leads (q p : Place) (r : Option ℕ) : SlotSearch → Prop
  | .found i => r = some i ∧ p = q
  | _ => r = none

section NoFault
variable {E : Env} (hE : E.NoFault) {fd : Fd} {s : FatState} {g : FatInfo} {B : ℕ → Sector} {size : ℕ}
  (hg : g.Kind)
include hE hg

/-- A search that ends returns, given passes enough. -/
theorem scanLoop_finds {name : DosName} {n m : ℕ} {p q : Place} {o : SlotSearch}
    (h : p.Finds g B size name.byte n o q) (hs : s.On g B size) (hf : (s.fileNum fd).Reading)
    (hp : (s.fileNum fd).place = p) (hm : n < m) :
    (scanLoop E fd name m).Returns s fun r t => After fd s t s.dev.blocks (t.fileNum fd) ∧
      (s.fileNum fd).Moved (t.fileNum fd) ∧ o.Leads q (t.fileNum fd).place r := by
  obtain ⟨m,rfl⟩ := Nat.exists_eq_add_of_lt hm
  induction h generalizing s m with
  | @here p o hsearch hne =>
    subst hp
    refine returns_file ?_
    rw [show (s.fileNum fd).buffer = (s.fileNum fd).place.buffer from rfl,hsearch]
    cases o with
    | last => exact returns_pure ⟨After.refl s,⟨rfl,rfl⟩,rfl⟩
    | found i => exact returns_pure ⟨After.refl s,⟨rfl,rfl⟩,rfl,rfl⟩
    | absent => exact absurd rfl hne
  | @ended p hsearch hnone =>
    subst hp
    refine returns_file ?_
    rw [show (s.fileNum fd).buffer = (s.fileNum fd).place.buffer from rfl,hsearch]
    refine (fatNextSectorWith_any hE hs hg hf).bind fun failed t ht => ?_
    obtain ⟨ha,hmoved,hfailed⟩ := ht
    rw [hnone] at hfailed
    subst hfailed
    exact returns_ite (fun _ => returns_pure ⟨ha,hmoved,rfl⟩) (by simp)
  | @next n p q r o hsearch hsome hrest ih =>
    subst hp
    refine returns_file ?_
    rw [show (s.fileNum fd).buffer = (s.fileNum fd).place.buffer from rfl,hsearch]
    refine (fatNextSectorWith_any hE hs hg hf).bind fun failed t ht => ?_
    obtain ⟨ha,hmoved,hfailed⟩ := ht
    rw [hsome] at hfailed
    obtain ⟨rfl,hplace⟩ := hfailed
    refine returns_ite (by simp) fun _ => ?_
    rw [show n + 1 + m = n + m + 1 by omega]
    refine (ih (hs.after ha) (hmoved.reading hf) hplace m (by omega)).mono fun r u hu => ?_
    obtain ⟨hau,hmovedu,hr⟩ := hu
    rw [ha.blocks] at hau
    exact ⟨ha.trans hau,⟨hmovedu.flags.trans hmoved.flags,hmovedu.still.trans hmoved.still⟩,hr⟩

/-- A search that returns has ended. -/
theorem finds_of_scanLoop {name : DosName} {m : ℕ} {r : Option ℕ} {t : FatState} (hs : s.On g B size)
    (hf : (s.fileNum fd).Reading) (hrun : scanLoop E fd name m s = .ok (r,t)) :
    ∃ n o q, (s.fileNum fd).place.Finds g B size name.byte n o q ∧
      After fd s t s.dev.blocks (t.fileNum fd) ∧ (s.fileNum fd).Moved (t.fileNum fd) ∧
      o.Leads q (t.fileNum fd).place r := by
  suffices h : ∃ n < m, ∃ o q, (s.fileNum fd).place.Finds g B size name.byte n o q by
    obtain ⟨n,hn,o,q,h⟩ := h
    exact ⟨n,o,q,h,(scanLoop_finds hE hg h hs hf rfl hn).of_ok hrun⟩
  induction m generalizing s with
  | zero => simp [scanLoop] at hrun
  | succ m ih =>
    by_cases hsearch : searchSlots name.byte (s.fileNum fd).place.buffer 16 0 = .absent
    · rw [scanLoop,bind_of_ok rfl,show (s.fileNum fd).buffer = (s.fileNum fd).place.buffer from rfl,
        hsearch] at hrun
      obtain ⟨failed,u,hu,hrest⟩ := bind_ok hrun
      obtain ⟨ha,hmoved,hfailed⟩ := (fatNextSectorWith_any hE hs hg hf).of_ok hu
      cases hnext : (s.fileNum fd).place.next g B size with
      | none => exact ⟨0,Nat.succ_pos m,_,_,.ended hsearch hnext⟩
      | some q =>
        rw [hnext] at hfailed
        obtain ⟨rfl,rfl⟩ := hfailed
        rw [run_ite,if_neg (by simp)] at hrest
        obtain ⟨n,hn,o,q,h⟩ := ih (hs.after ha) (hmoved.reading hf) hrest
        exact ⟨n+1,Nat.succ_lt_succ hn,o,q,.next hsearch hnext h⟩
    · exact ⟨0,Nat.succ_pos m,_,_,.here rfl hsearch⟩

end NoFault

/-! ### Lookups -/

/-- Every search of a lookup ends: that for the first element from a place, and those for the following
ones in the directories that are found. -/
def LookupEnds (g : FatInfo) (B : ℕ → Sector) (size : ℕ) : List (List UInt8) → DosName → Place → Prop
  | [], _, _ => True
  | element :: rest, dosname, p => ∀ name, convertElement dosname element = .ok (some name) →
      ∃ n o q, p.Finds g B size name.byte n o q ∧ ∀ i, o = .found i → rest ≠ [] →
        (q.buffer.dirent i).isSubdir = true →
          LookupEnds g B size rest name (q.turn g B size (g.first (q.buffer.dirent i)))

/-- The elements of a path are strings of its characters. -/
theorem pathElements_mem {path e : List UInt8} (he : e ∈ pathElements path) :
    e ≠ [] ∧ ∀ c ∈ e, c ∈ path := by
  induction path generalizing e with
  | nil => simp [pathElements] at he
  | cons c cs ih =>
    have ih' {e : List UInt8} (h : e ∈ pathElements cs) : e ≠ [] ∧ ∀ d ∈ e, d ∈ c :: cs :=
      ⟨(ih h).1,fun d hd => by simp [(ih h).2 d hd]⟩
    by_cases hc : c = chSlash
    · rw [hc,pathElements_slash] at he
      exact ih' he
    rw [pathElements_cons hc] at he
    have hone : [c] ≠ [] ∧ ∀ d ∈ [c], d ∈ c :: cs := ⟨by simp,by simp⟩
    cases cs with
    | nil =>
      rw [List.mem_singleton.1 he]
      exact hone
    | cons d cs =>
      dsimp only at he
      split at he
      · rcases List.mem_cons.1 he with rfl | he
        · exact hone
        · exact ih' he
      · split at he
        · rename_i x xs hx
          rcases List.mem_cons.1 he with rfl | he
          · refine ⟨by simp,fun a ha => ?_⟩
            rcases List.mem_cons.1 ha with rfl | ha
            · simp
            · exact (ih' (e := x) (by simp [hx])).2 a ha
          · exact ih' (by simp [hx,he])
        · rw [List.mem_singleton.1 he]
          exact hone

/-- A string of a path is converted or refused. -/
theorem convertElement_defined {e : List UInt8} (hne : e ≠ []) (h₀ : 0 ∉ e) (d : DosName) :
    ∃ o, convertElement d e = .ok o := by
  have h := Element.convertElement_eq hne h₀ d
  split at h
  · obtain ⟨d',h,-⟩ := h
    exact ⟨_,h⟩
  · exact ⟨_,h⟩

section Lookup
variable {fd : Fd} {g : FatInfo} {B : ℕ → Sector} {size : ℕ} (hg : g.Kind)
include hg

/-- A lookup whose searches end returns, given passes enough. -/
theorem lookupLoop_ends {elements : List (List UInt8)} {dosname : DosName} {p : Place}
    (hstring : ∀ e ∈ elements, e ≠ [] ∧ 0 ∉ e) (h : LookupEnds g B size elements dosname p) :
    ∃ m, ∀ {E : Env} {s : FatState} (e : ℤ), E.NoFault → m ≤ E.fuel → s.On g B size →
      (s.fileNum fd).Reading → (s.fileNum fd).place = p →
      (lookupLoop E fd elements dosname e).Returns s fun _ _ => True := by
  induction elements generalizing dosname p with
  | nil => exact ⟨0,fun e _ _ _ _ _ => returns_pure trivial⟩
  | cons element rest ih =>
    obtain ⟨hne,h₀⟩ := hstring element (by simp)
    obtain ⟨converted,hconv⟩ := convertElement_defined hne h₀ dosname
    have hlift (s : FatState) : liftStop (convertElement dosname element) s = .ok (converted,s) := by
      rw [hconv]
      rfl
    cases converted with
    | none => exact ⟨0,fun e _ _ _ _ _ => returns_bind_of_ok (hlift _) (returns_pure trivial)⟩
    | some name =>
      obtain ⟨n,o,q,hfinds,hrest⟩ := h name hconv
      have hlater : ∃ m, ∀ i, o = .found i → rest ≠ [] → (q.buffer.dirent i).isSubdir = true →
          ∀ {E : Env} {s : FatState} (e : ℤ), E.NoFault → m ≤ E.fuel → s.On g B size →
            (s.fileNum fd).Reading →
            (s.fileNum fd).place = q.turn g B size (g.first (q.buffer.dirent i)) →
            (lookupLoop E fd rest name e).Returns s fun _ _ => True := by
        by_cases hdir : ∃ i, o = .found i ∧ rest ≠ [] ∧ (q.buffer.dirent i).isSubdir = true
        · obtain ⟨i,rfl,hrest',hsub⟩ := hdir
          obtain ⟨m,hm⟩ := ih (fun e he => hstring e (by simp [he])) (hrest i rfl hrest' hsub)
          refine ⟨m,fun j hj _ _ => ?_⟩
          obtain rfl := SlotSearch.found.inj hj
          exact hm
        · exact ⟨0,fun i ho hne hsub => absurd ⟨i,ho,hne,hsub⟩ hdir⟩
      obtain ⟨m,hm⟩ := hlater
      refine ⟨max (n+1) m,fun {E s} e hE hfuel hs hf hp => returns_bind_of_ok (hlift s) ?_⟩
      refine (scanLoop_finds hE hg hfinds hs hf hp (by omega)).bind fun r t ht => ?_
      obtain ⟨ha,hmoved,hleads⟩ := ht
      have hon := hs.after ha
      cases r with
      | none => exact (updateFile_returns fd _ t).bind fun _ _ _ => returns_pure trivial
      | some i =>
        refine returns_file (returns_fatfs (returns_ite (fun _ => ?_) fun hlast => returns_ite (fun hsub => ?_)
          fun _ => returns_pure trivial))
        · refine (updateFile_returns fd _ t).bind fun _ u hu => returns_file ?_
          exact (fatSelectCluster_any hE (hon.after hu) _).bind fun _ _ _ => returns_pure trivial
        · obtain ⟨rfl,hplace⟩ : o = .found i ∧ (t.fileNum fd).place = q := by
            cases o with
            | last => exact absurd hleads (by simp [SlotSearch.Leads])
            | absent => exact absurd hleads (by simp [SlotSearch.Leads])
            | found j =>
              obtain ⟨hj,hplace⟩ := hleads
              exact ⟨by rw [Option.some.inj hj],hplace⟩
          have hbuf : (t.fileNum fd).buffer = q.buffer := congrArg Place.buffer hplace
          rw [hbuf] at hsub ⊢
          rw [hon.fatfs]
          refine (updateFile_returns fd _ t).bind fun _ u hu => ?_
          have honu := hon.after hu
          refine (fatSelectCluster_any hE honu _).bind fun _ v hv => ?_
          obtain ⟨-,hv,hmovedv,hplacev⟩ := hv
          rw [hu.file] at hmovedv hplacev
          refine hm i rfl hlast hsub e hE (by omega) (honu.after hv) ?_ (hplacev.trans ?_)
          · have hft := hmoved.reading hf
            exact hmovedv.reading ⟨hft.clean,hft.write⟩
          · change (t.fileNum fd).place.turn g B size _ = _
            rw [hplace]
            rfl

/-- The searches of a lookup that returns have ended. -/
theorem ends_of_lookupLoop {E : Env} (hE : E.NoFault) {elements : List (List UInt8)} {dosname : DosName}
    {s t : FatState} {e : ℤ} {r : ℤ × ℤ} (hs : s.On g B size) (hf : (s.fileNum fd).Reading)
    (hrun : lookupLoop E fd elements dosname e s = .ok (r,t)) :
    LookupEnds g B size elements dosname (s.fileNum fd).place := by
  induction elements generalizing dosname s with
  | nil => trivial
  | cons element rest ih =>
    intro name hconv
    have hlift : liftStop (convertElement dosname element) s = .ok (some name,s) := by
      rw [hconv]
      rfl
    rw [lookupLoop,bind_of_ok hlift] at hrun
    obtain ⟨found,u,hu,hrun⟩ := bind_ok hrun
    obtain ⟨n,o,q,hfinds,ha,hmoved,hleads⟩ := finds_of_scanLoop hE hg hs hf hu
    refine ⟨n,o,q,hfinds,fun i ho hne hsub => ?_⟩
    subst ho
    obtain ⟨rfl,rfl⟩ := hleads
    have hon := hs.after ha
    have hft := hmoved.reading hf
    change (u.fileNum fd).buffer.dirent i |>.isSubdir at hsub
    dsimp only at hrun
    rw [bind_of_ok rfl,bind_of_ok rfl,run_ite,if_neg hne,run_ite,if_pos hsub,hon.fatfs] at hrun
    obtain ⟨_,v,hv,hrun⟩ := bind_ok hrun
    have hset := updateFile_result hv
    obtain ⟨_,w,hw,hrun⟩ := bind_ok hrun
    obtain ⟨-,haw,hmovedw,hplace⟩ := (fatSelectCluster_any hE (hon.after hset) _).of_ok hw
    rw [hset.file] at hmovedw hplace
    have hrest := ih ((hon.after hset).after haw) (hmovedw.reading ⟨hft.clean,hft.write⟩) hrun
    rw [hplace] at hrest
    exact hrest

end Lookup

/-! ### Listings -/

/-- A directory open for reading. -/
structure FileS.OpenDir (f : FileS) : Prop extends f.Reading where
  open_ : f.flags.open_ = true
  read : f.flags.read = true
  subdir : f.isSubdir = true

namespace Place
variable (g : FatInfo) (B : ℕ → Sector) (size : ℕ)

/-- Up to `n` bytes of a directory from a place on, and the place behind them. -/
def read : ℕ → Place → List UInt8 × Place
  | 0, p => ([],p)
  | n+1, p => match (if p.cursor = blockSize then p.next g B size else some p) with
    | none => ([],p)
    | some q => (q.buffer.get q.cursor :: (read n { q with cursor := q.cursor + 1 }).1,
        (read n { q with cursor := q.cursor + 1 }).2)

theorem read_length (n : ℕ) (p : Place) : (p.read g B size n).1.length ≤ n := by
  induction n generalizing p with
  | zero => exact Nat.le_refl _
  | succ n ih =>
    rw [read]
    split
    · exact Nat.zero_le _
    · exact Nat.succ_le_succ (ih _)

/-- From a place on, `n` records are passed over until there is one to deliver, the last one or none. -/
inductive Lists (g : FatInfo) (B : ℕ → Sector) (size : ℕ) : ℕ → Place → Prop
  | short {p : Place} : (p.read g B size 32).1.length < 32 → Lists g B size 0 p
  | last {p : Place} : (direntOfBytes (p.read g B size 32).1).filename 0 = 0 → Lists g B size 0 p
  | entry {p : Place} : (direntOfBytes (p.read g B size 32).1).isSkipped = false → Lists g B size 0 p
  | skip {n : ℕ} {p : Place} : (p.read g B size 32).1.length = 32 →
      (direntOfBytes (p.read g B size 32).1).filename 0 ≠ 0 →
      (direntOfBytes (p.read g B size 32).1).isSkipped = true →
      Lists g B size n (p.read g B size 32).2 → Lists g B size (n+1) p

end Place

section NoFault
variable {E : Env} (hE : E.NoFault) {fd : Fd} {s : FatState} {g : FatInfo} {B : ℕ → Sector} {size : ℕ}
  (hg : g.Kind)
include hE hg

theorem readLoop_any {n : ℕ} (hs : s.On g B size) (hf : (s.fileNum fd).OpenDir) :
    (readLoop E fd n).Returns s fun bytes t => bytes = ((s.fileNum fd).place.read g B size n).1 ∧
      After fd s t s.dev.blocks (t.fileNum fd) ∧ (t.fileNum fd).OpenDir ∧
      (bytes.length = n → (t.fileNum fd).place = ((s.fileNum fd).place.read g B size n).2) := by
  induction n generalizing s with
  | zero => exact returns_pure ⟨rfl,After.refl s,hf,fun _ => rfl⟩
  | succ n ih =>
    refine returns_file (returns_ite (by simp [hf.subdir]) fun _ => ?_)
    have hnext : (if (s.fileNum fd).cursor = blockSize then fatNextSector E fd else pure false).Returns s
        fun failed t => After fd s t s.dev.blocks (t.fileNum fd) ∧ (s.fileNum fd).Moved (t.fileNum fd) ∧
          match (if (s.fileNum fd).place.cursor = blockSize then (s.fileNum fd).place.next g B size
            else some (s.fileNum fd).place) with
          | none => failed = true
          | some q => failed = false ∧ (t.fileNum fd).place = q := by
      by_cases hcursor : (s.fileNum fd).cursor = blockSize
      · rw [if_pos hcursor,if_pos (show (s.fileNum fd).place.cursor = blockSize from hcursor)]
        exact fatNextSectorWith_any hE hs hg hf.toReading
      · rw [if_neg hcursor,if_neg (show ¬ (s.fileNum fd).place.cursor = blockSize from hcursor)]
        exact returns_pure ⟨After.refl s,⟨rfl,rfl⟩,rfl,rfl⟩
    refine hnext.bind fun failed t ht => ?_
    obtain ⟨ha,hmoved,hq⟩ := ht
    have hft : (t.fileNum fd).OpenDir := ⟨hmoved.reading hf.toReading,by rw [hmoved.flags]; exact hf.open_,
      by rw [hmoved.flags]; exact hf.read,hmoved.subdir.trans hf.subdir⟩
    rw [Place.read]
    cases hstep : (if (s.fileNum fd).place.cursor = blockSize then (s.fileNum fd).place.next g B size
            else some (s.fileNum fd).place) with
    | none =>
      rw [hstep] at hq
      subst hq
      exact returns_ite (fun _ => returns_pure ⟨rfl,ha,hft,by simp⟩) (by simp)
    | some q =>
      rw [hstep] at hq
      obtain ⟨rfl,rfl⟩ := hq
      refine returns_ite (by simp) fun _ => returns_file ?_
      refine (updateFile_returns fd _ t).bind fun _ u hu => ?_
      have hrest := @ih u ((hs.after ha).after hu) (by
        rw [hu.file]
        exact ⟨⟨hft.clean,hft.write⟩,hft.open_,hft.read,hft.subdir⟩)
      rw [hu.file] at hrest
      refine hrest.bind fun bytes v hv => returns_pure ?_
      obtain ⟨rfl,hav,hfv,hplace⟩ := hv
      rw [ha.blocks] at hu
      rw [hu.blocks] at hav
      exact ⟨rfl,(ha.trans hu).trans hav,hfv,fun hlen => hplace (by simpa using hlen)⟩

/-- `fat_read` of a record on any volume. -/
theorem fatRead_any (hs : s.On g B size) (hf : (s.fileNum fd).OpenDir) :
    (fatRead E fd.val 32).Returns s fun a t => a.1 = ((s.fileNum fd).place.read g B size 32).1.length ∧
      a.2.2 = ((s.fileNum fd).place.read g B size 32).1 ∧ After fd s t s.dev.blocks (t.fileNum fd) ∧
      (t.fileNum fd).OpenDir ∧
      (a.2.2.length = 32 → (t.fileNum fd).place = ((s.fileNum fd).place.read g B size 32).2) := by
  rw [fatRead,withFd,dif_pos fd.isLt,readSlot]
  refine returns_file (returns_ite (by simp [hf.open_,hf.read]) fun _ => ?_)
  refine (readLoop_any hE hg hs hf).bind fun bytes t ht => ?_
  obtain ⟨rfl,ha,hft,hplace⟩ := ht
  have hint : i32 ((s.fileNum fd).place.read g B size 32).1.length =
      ((s.fileNum fd).place.read g B size 32).1.length := by
    have := (s.fileNum fd).place.read_length g B size 32
    exact i32_of_lt (by omega)
  by_cases hpos : 0 < ((s.fileNum fd).place.read g B size 32).1.length
  · rw [if_pos hpos]
    refine (fatUpdateAtime_returns E fd t).bind fun _ u hu => returns_pure ?_
    obtain ⟨now,mark,hu⟩ := hu
    rw [ha.blocks] at hu
    refine ⟨hint,rfl,(ha.trans hu).self,?_⟩
    rw [hu.file]
    exact ⟨⟨⟨hft.clean,hft.write⟩,hft.open_,hft.read,hft.subdir⟩,hplace⟩
  · rw [if_neg hpos]
    exact returns_bind_of_ok rfl (returns_pure ⟨hint,rfl,ha,hft,hplace⟩)

/-- A listing goes on exactly as long as it passes records over. -/
theorem nextDirentLoop_any (hs : s.On g B size) (hf : (s.fileNum fd).OpenDir) (m : ℕ) :
    ((nextDirentLoop E fd.val m).Returns s fun _ _ => True) ↔
      ∃ n < m, (s.fileNum fd).place.Lists g B size n := by
  induction m generalizing s with
  | zero => exact ⟨fun ⟨_,_,hrun,_⟩ => by simp [nextDirentLoop] at hrun,fun ⟨n,hn,_⟩ => by omega⟩
  | succ m ih =>
    obtain ⟨a,t,hrun,hlen,hbytes,ha,hft,hplace⟩ := fatRead_any hE hg hs hf
    obtain ⟨r,e,bytes⟩ := a
    obtain rfl : r = _ := hlen
    obtain rfl : bytes = _ := hbytes
    rw [Returns,nextDirentLoop,bind_of_ok hrun]
    dsimp only
    set p := (s.fileNum fd).place with hp
    by_cases hshort : (p.read g B size 32).1.length < 32
    · rw [if_pos (by exact_mod_cast hshort)]
      exact ⟨fun _ => ⟨0,Nat.succ_pos m,.short hshort⟩,fun _ => ⟨_,_,rfl,trivial⟩⟩
    have hfull : (p.read g B size 32).1.length = 32 := by
      have := p.read_length g B size 32
      omega
    rw [if_neg (by exact_mod_cast hshort)]
    by_cases hlast : (direntOfBytes (p.read g B size 32).1).filename 0 = 0
    · rw [if_pos hlast]
      exact ⟨fun _ => ⟨0,Nat.succ_pos m,.last hlast⟩,fun _ => ⟨_,_,rfl,trivial⟩⟩
    rw [if_neg hlast]
    by_cases hskip : (direntOfBytes (p.read g B size 32).1).isSkipped = true
    · rw [if_pos hskip]
      refine (ih (hs.after ha) hft).trans ?_
      rw [hplace hfull]
      constructor
      · rintro ⟨n,hn,h⟩
        exact ⟨n+1,Nat.succ_lt_succ hn,.skip hfull hlast hskip h⟩
      · rintro ⟨n,hn,h⟩
        cases h with
        | short h => exact absurd h hshort
        | last h => exact absurd h hlast
        | entry h => simp [h] at hskip
        | skip _ _ _ h => exact ⟨_,by omega,h⟩
    · rw [if_neg hskip]
      exact ⟨fun _ => ⟨0,Nat.succ_pos m,.entry (by simpa using hskip)⟩,fun _ => ⟨_,_,rfl,trivial⟩⟩

end NoFault

/-! ### Every call -/

/-- The call returns, given passes enough. -/
def Terminates {α : Type} (x : Env → FatM α) (E : Env) (s : FatState) : Prop :=
  ∃ n, ∀ fuel ≥ n, (x { E with fuel := fuel }).Returns s fun _ _ => True

section Calls
variable {E : Env} (hE : E.NoFault) {fd : Fd} {s : FatState}
include hE

/-- The first steps of a lookup lead to the root. -/
theorem fatLookupPath_start {path : List UInt8} (e : ℤ) (hpath : path.length ≤ 99)
    (hf : (s.fileNum fd).Reading) : ∃ u, u.On s.fatfs s.dev.blocks s.dev.size ∧
      (u.fileNum fd).Reading ∧ (u.fileNum fd).place =
        (s.fileNum fd).place.turn s.fatfs s.dev.blocks s.dev.size s.fatfs.rootCluster ∧
      fatLookupPath E fd path e s = (match (pathElements path).take 20 with
        | [] => do
          updateFile fd (FileS.loadRoot s.fatfs)
          let _ ← fatSelectCluster E fd s.fatfs.rootCluster
          pure (0,e)
        | elements => do
          updateFile fd fun f => { f with parentCluster := s.fatfs.rootCluster }
          lookupLoop E fd elements (fun k => E.junk s.dev.tick k) e : FatM (ℤ × ℤ)) u := by
  set v : FatState := { s with dev := { s.dev with tick := s.dev.tick + 1 } } with hv
  have hjunk : junk E s = .ok (E.junk s.dev.tick,v) := rfl
  have hon : v.On s.fatfs s.dev.blocks s.dev.size := ⟨rfl,rfl,rfl⟩
  obtain ⟨_,u,hrun,-,ha,hmoved,hplace⟩ := @fatSelectCluster_any E hE fd v _ _ _ hon s.fatfs.rootCluster
  refine ⟨u,hon.after ha,hmoved.reading hf,hplace,?_⟩
  rw [fatLookupPath,if_neg (Nat.not_lt_of_le hpath),bind_of_ok rfl,bind_of_ok hjunk,bind_of_ok hrun] <;>
    cases (pathElements path).take 20 <;> rfl

theorem fatLookupPath_terminates (hg : s.fatfs.Kind) {path : List UInt8} (e : ℤ) (hpath : 0 ∉ path)
    (hf : (s.fileNum fd).Reading) : Terminates (fun E => fatLookupPath E fd path e) E s ↔
      99 < path.length ∨ LookupEnds s.fatfs s.dev.blocks s.dev.size ((pathElements path).take 20)
        (fun k => E.junk s.dev.tick k)
        ((s.fileNum fd).place.turn s.fatfs s.dev.blocks s.dev.size s.fatfs.rootCluster) := by
  have hfault (fuel : ℕ) : Env.NoFault { E with fuel := fuel } := ⟨hE.read,hE.write,hE.lock⟩
  by_cases hlong : 99 < path.length
  · refine ⟨fun _ => .inl hlong,fun _ => ⟨0,fun fuel _ => ?_⟩⟩
    exact returns_ite (fun _ => returns_pure trivial) fun h => absurd hlong h
  have hstring : ∀ el ∈ (pathElements path).take 20, el ≠ [] ∧ 0 ∉ el := fun el hel =>
    ⟨(pathElements_mem (List.mem_of_mem_take hel)).1,
      fun h => hpath ((pathElements_mem (List.mem_of_mem_take hel)).2 0 h)⟩
  have hstart (fuel : ℕ) := @fatLookupPath_start _ (hfault fuel) fd s path e (Nat.le_of_not_lt hlong) hf
  revert hstart hstring
  cases (pathElements path).take 20 with
  | nil =>
    intro hstring hstart
    refine ⟨fun _ => .inr trivial,fun _ => ⟨0,fun fuel _ => ?_⟩⟩
    obtain ⟨u,hon,-,-,hrun⟩ := hstart fuel
    rw [Returns]
    dsimp only
    rw [hrun]
    refine (updateFile_returns fd _ u).bind fun _ v hv => ?_
    exact (fatSelectCluster_any (hfault fuel) (hon.after hv) _).bind fun _ _ _ => returns_pure trivial
  | cons el rest =>
    intro hstring hstart
    constructor
    · rintro ⟨n,h⟩
      obtain ⟨r,t,hreturn,-⟩ := h n (Nat.le_refl n)
      obtain ⟨u,hon,hfu,hplace,hrun⟩ := hstart n
      dsimp only at hreturn
      rw [hrun] at hreturn
      obtain ⟨_,v,hv,hreturn⟩ := bind_ok hreturn
      have hset := updateFile_result hv
      refine .inr ?_
      have hends := ends_of_lookupLoop hg (hfault n) (hon.after hset)
        (by rw [hset.file]; exact ⟨hfu.clean,hfu.write⟩) hreturn
      rw [hset.file] at hends
      rw [← hplace]
      exact hends
    · intro h
      obtain ⟨n,hn⟩ := @lookupLoop_ends fd _ _ _ hg _ _ _ hstring (h.resolve_left hlong)
      refine ⟨n,fun fuel hfuel => ?_⟩
      obtain ⟨u,hon,hfu,hplace,hrun⟩ := hstart fuel
      rw [Returns]
      dsimp only
      rw [hrun]
      refine (updateFile_returns fd _ u).bind fun _ v hv => ?_
      refine hn e (hfault fuel) hfuel (hon.after hv) ?_ ?_
      · rw [hv.file]
        exact ⟨hfu.clean,hfu.write⟩
      · rw [hv.file,← hplace]
        rfl

theorem fatGetNextDirent_terminates (hg : s.fatfs.Kind) (hf : (s.fileNum fd).OpenDir) :
    Terminates (fun E => fatGetNextDirent E fd.val) E s ↔
      ∃ n, (s.fileNum fd).place.Lists s.fatfs s.dev.blocks s.dev.size n := by
  have hon : s.On s.fatfs s.dev.blocks s.dev.size := ⟨rfl,rfl,rfl⟩
  have hfault (fuel : ℕ) : Env.NoFault { E with fuel := fuel } := ⟨hE.read,hE.write,hE.lock⟩
  have hany (fuel : ℕ) : ((fatGetNextDirent { E with fuel := fuel } fd.val).Returns s fun _ _ => True) ↔ _ :=
    nextDirentLoop_any (hfault fuel) hg hon hf fuel
  constructor
  · rintro ⟨n,h⟩
    obtain ⟨m,-,hm⟩ := (hany n).1 (h n (Nat.le_refl n))
    exact ⟨m,hm⟩
  · rintro ⟨n,h⟩
    exact ⟨n+1,fun fuel hfuel => (hany fuel).2 ⟨n,hfuel,h⟩⟩

/-- Exactly the searches and listings that end on the volume end as calls. -/
theorem directoryScans_terminate (hg : s.fatfs.Kind) :
    (∀ path e, 0 ∉ path → (s.fileNum fd).Reading →
      (Terminates (fun E => fatLookupPath E fd path e) E s ↔
        99 < path.length ∨ LookupEnds s.fatfs s.dev.blocks s.dev.size ((pathElements path).take 20)
          (fun k => E.junk s.dev.tick k)
          ((s.fileNum fd).place.turn s.fatfs s.dev.blocks s.dev.size s.fatfs.rootCluster))) ∧
    ((s.fileNum fd).OpenDir → (Terminates (fun E => fatGetNextDirent E fd.val) E s ↔
      ∃ n, (s.fileNum fd).place.Lists s.fatfs s.dev.blocks s.dev.size n)) :=
  ⟨fun _ e hpath hf => fatLookupPath_terminates hE hg e hpath hf,
    fun hf => fatGetNextDirent_terminates hE hg hf⟩

end Calls

/-- On the volume with one file the lookup of that file ends, and so does a listing. -/
theorem directoryScans_terminate_oneFile :
    let s := (FatState.mounted smallFat16 300 oneFile).setFile 0
      { FileS.closed with flags := { Flags.none with open_ := true, read := true }, attributes := attSubdir }
    Terminates (fun E => fatLookupPath E 0 oneFilePath 0) (.calm (fun _ => 0) 8) s ∧
      Terminates (fun E => fatGetNextDirent E 0) (.calm (fun _ => 0) 8) s := by
  intro s
  have hends := @directoryScans_terminate (.calm (fun _ => 0) 8) ⟨fun _ => rfl,fun _ => rfl,fun _ => rfl⟩ 0 s
    smallFat16_valid.table.kind
  refine ⟨(hends.1 oneFilePath 0 (by decide) ⟨rfl,rfl⟩).2 (.inr ?_),
    (hends.2 ⟨⟨rfl,rfl⟩,rfl,rfl,by decide⟩).2 ⟨0,.last (by decide +kernel)⟩⟩
  have helements : (pathElements oneFilePath).take 20 = [oneFilePath.drop 1] := by decide +kernel
  rw [helements]
  intro name _
  refine ⟨0,_,_,.here rfl fun habsent => ?_,fun i _ hne => absurd rfl hne⟩
  -- the second slot of the root is empty
  have hcases := searchSlots_cases name.byte (oneFile 2) 16 0
  have hroot : (Place.turn s.fatfs s.dev.blocks s.dev.size s.fatfs.rootCluster (s.fileNum 0).place).buffer =
    oneFile 2 := rfl
  rw [hroot] at habsent
  rw [habsent] at hcases
  exact (hcases 1 (by decide) (by decide)).1 (by decide +kernel)

/-- A FAT32 volume whose root is one cluster of sixteen entries that links to itself. -/
def loopFat32 : FatInfo :=
  { smallFat16 with
    fatEntryLen := 4, endClusterMarker := 0xFFFFFF0, rootCluster := 2, type := partTypeFat32 }

def rootLoop : ℕ → Sector
  | 1 => Sector.ofBytes [0xF8,0xFF,0xFF,0x0F,0xFF,0xFF,0xFF,0x0F,2]
  | 3 => fun _ => 0x41
  | _ => Sector.zero

/-- There the lookup of `/X` never ends. -/
theorem fatLookupPath_rootLoop : ¬ Terminates (fun E => fatLookupPath E 0 [chSlash,0x58] 0)
    (.calm (fun _ => 0) 8) (.mounted loopFat32 300 rootLoop) := by
  intro h
  have hends := (fatLookupPath_terminates (s := .mounted loopFat32 300 rootLoop)
    ⟨fun _ => rfl,fun _ => rfl,fun _ => rfl⟩ (.inr ⟨rfl,rfl,rfl⟩) 0 (by decide) ⟨rfl,rfl⟩).1 h
  have helements : (pathElements [chSlash,0x58]).take 20 = [[0x58]] := by decide +kernel
  rw [helements] at hends
  replace hends := hends.resolve_left (by decide)
  have hname : ((convertElement (fun _ => 0) [0x58]).toOption.join.any fun name =>
      decide (searchSlots name.byte (rootLoop 3) 16 0 = .absent)) = true := by decide +kernel
  obtain ⟨name,hjoin,habsent⟩ := (Option.any_eq_true _ _).1 hname
  have hconv := ok_of_join hjoin
  replace habsent := of_decide_eq_true habsent
  obtain ⟨n,o,q,hfinds,-⟩ := hends name hconv
  set p := Place.turn loopFat32 rootLoop 300 2 FileS.closed.place with hp
  have hnext : p.next loopFat32 rootLoop 300 = some p := by
    have hentry : loopFat32.entry rootLoop 2 = 2 := by decide +kernel
    have hlink (j : ℕ) (hj : loopFat32.entry rootLoop 2 = j) : p.next loopFat32 rootLoop 300 =
        if j < 2 ∨ loopFat32.endClusterMarker ≤ j ∨ 300 ≤ loopFat32.firstSector j then none
        else some (p.turn loopFat32 rootLoop 300 j) := by
      subst hj
      rw [Place.next,if_neg (by decide),if_neg (by decide)]
      rfl
    rw [hlink 2 hentry,if_neg (by decide)]
    rfl
  have hnever (n : ℕ) (o : SlotSearch) (q : Place) :
      ¬ p.Finds loopFat32 rootLoop 300 name.byte n o q := by
    induction n with
    | zero =>
      intro h
      cases h with
      | here h hne => exact hne (h.symm.trans habsent)
      | ended _ hnone => simp [hnext] at hnone
    | succ n ih =>
      intro h
      cases h with
      | next _ hsome hrest =>
        obtain rfl := Option.some.inj (hnext.symm.trans hsome)
        exact ih hrest
  exact hnever n o q hfinds

end Gristle
