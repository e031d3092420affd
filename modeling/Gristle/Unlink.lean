import Gristle.DamagedTable
import Gristle.Rmdir
import Gristle.ScanEnds

/-! `fat_unlink`: the entry and the chain it removes, and the lookup of its path afterwards. -/
namespace Gristle
open Prog

/-! ### The name after the conversion -/

theorem doschar_ne_deleted (c : UInt8) : doschar c ≠ 0xE5 := by
  revert c
  exact forall_uint8 (by decide +kernel)

theorem Element.padded_ne_deleted (l : List UInt8) (j : ℕ) : padded l j ≠ 0xE5 := by
  by_cases hj : j < l.length
  · rw [padded_of_lt hj]
    exact doschar_ne_deleted _
  · rw [padded_of_le (Nat.le_of_not_lt hj)]
    decide

/-- No name starts like a deleted entry. -/
theorem Element.byteOf_ne_deleted (left : UInt8) (p : List UInt8 × Option (List UInt8)) :
    byteOf left p 0 ≠ 0xE5 := by
  unfold byteOf
  split
  · exact padded_ne_deleted _ 0
  · exact padded_ne_deleted _ 0
  · split
    · exact padded_ne_deleted _ 0
    · rw [if_neg (by decide)]
      exact padded_ne_deleted _ 0
  · exact padded_ne_deleted _ 0

theorem Converts.ne_deleted {d : DosName} {elements : List (List UInt8)} {names : List (Option DosName)}
    (h : Converts d elements names) (hs : ∀ e ∈ elements, e ≠ [] ∧ 0 ∉ e) (hsome : none ∉ names) :
    ∀ n, some n ∈ names → n.byte 0 ≠ 0xE5 := by
  induction h with
  | nil => simp
  | @cons d n e rest ns head tail ih =>
    intro m hm
    rcases List.mem_cons.1 hm with heq | hm
    · obtain rfl := Option.some.inj heq
      obtain ⟨hne,h₀⟩ := hs e (by simp)
      have hconv := Element.convertElement_eq hne h₀ d
      split at hconv
      · obtain ⟨d',hrun,hbytes⟩ := hconv
        obtain rfl : m = d' := by simpa [hrun] using head.symm
        rw [hbytes 0 (by decide)]
        exact Element.byteOf_ne_deleted _ _
      · simp [hconv] at head
    · exact ih (fun e he => hs e (by simp [he])) (fun h => hsome (by simp [h])) m hm
  | stop head length => simp at hsome

/-! ### The search after the deletion -/

/-- Among the slots of these blocks the mark of a deletion in slot `i` of block `b` is the only change. -/
structure Deleted (B B' : ℕ → Sector) (b i : ℕ) (secs : List ℕ) : Prop where
  mark : (B' b).get (32*i) = 0xE5
  others : ∀ q ∈ slots secs, q ≠ (b,i) → ∀ k < 32, (B' q.1).get (32*q.2 + k) = (B q.1).get (32*q.2 + k)

/-- A comparison looks at no byte behind the last it compares. -/
theorem strncmpEq_congr_right {a b c : ℕ → UInt8} {n i : ℕ} (h : ∀ k, i ≤ k → k < i + n → b k = c k) :
    strncmpEq a b n i = strncmpEq a c n i := by
  induction n generalizing i with
  | zero => rfl
  | succ n ih =>
    rw [strncmpEq,strncmpEq,h i le_rfl (by omega),ih fun k hk hlt => h k (by omega) (by omega)]

section Deleted
variable {B B' : ℕ → Sector} {b i : ℕ} {secs : List ℕ} {n : ℕ → UInt8}

theorem Deleted.emptyAt (h : Deleted B B' b i secs) (hslot : ¬ (B b).emptyAt i) {q : ℕ × ℕ}
    (hq : q ∈ slots secs) : (B' q.1).emptyAt q.2 ↔ (B q.1).emptyAt q.2 := by
  by_cases heq : q = (b,i)
  · subst heq
    refine iff_of_false (fun hempty => ?_) hslot
    rw [Sector.emptyAt,h.mark] at hempty
    exact absurd hempty (by decide)
  · rw [Sector.emptyAt,Sector.emptyAt,← Nat.add_zero (32*q.2),h.others q hq heq 0 (by decide)]

theorem takeWhile_congr {α : Type} {l : List α} {p q : α → Bool} (h : ∀ x ∈ l, p x = q x) :
    l.takeWhile p = l.takeWhile q := by
  induction l with
  | nil => rfl
  | cons x l ih =>
    rw [List.takeWhile_cons,List.takeWhile_cons,h x (by simp),ih fun y hy => h y (by simp [hy])]

/-- The same slots are in use. -/
theorem Deleted.entries (h : Deleted B B' b i secs) (hslot : ¬ (B b).emptyAt i) :
    entries B' (slots secs) = entries B (slots secs) :=
  takeWhile_congr fun q hq => by rw [decide_eq_decide.2 (not_congr (h.emptyAt hslot hq))]

theorem mem_of_mem_entries {l : List (ℕ × ℕ)} {q : ℕ × ℕ} (h : q ∈ Gristle.entries B l) : q ∈ l :=
  List.takeWhile_subset _ h

/-- A name does not compare equal to a deleted entry, and to the others as before. -/
theorem Deleted.carries (h : Deleted B B' b i secs) (hn : n 0 ≠ 0xE5) {q : ℕ × ℕ} (hq : q ∈ slots secs) :
    (B' q.1).carries n q.2 ↔ (B q.1).carries n q.2 ∧ q ≠ (b,i) := by
  by_cases heq : q = (b,i)
  · subst heq
    refine iff_of_false (fun hc => ?_) fun hc => hc.2 rfl
    rw [Sector.carries,strncmpEq,if_pos (by rw [Nat.add_zero,h.mark]; exact hn)] at hc
    exact absurd hc (by decide)
  · have hsame : (B' q.1).carries n q.2 ↔ (B q.1).carries n q.2 := by
      have hcmp := @strncmpEq_congr_right n (fun k => (B' q.1).get (32*q.2 + k))
        (fun k => (B q.1).get (32*q.2 + k)) 11 0 fun k _ hk => h.others q hq heq k (by omega)
      rw [Sector.carries,Sector.carries,hcmp]
    rw [hsame,and_iff_left heq]

/-- Another slot is found as before. -/
theorem Deleted.search_other (h : Deleted B B' b i secs) (hslot : ¬ (B b).emptyAt i) (hn : n 0 ≠ 0xE5)
    {q : ℕ × ℕ} (hq : searchBlocks n B secs = some q) (hne : q ≠ (b,i)) : searchBlocks n B' secs = some q := by
  rw [searchBlocks_eq_find,List.find?_eq_some_iff_append] at hq ⊢
  obtain ⟨hcarries,l,l',hsplit,hbefore⟩ := hq
  have hmem {r : ℕ × ℕ} (hr : r ∈ l ∨ r = q) : r ∈ slots secs := by
    refine mem_of_mem_entries (B := B) ?_
    rw [hsplit]
    rcases hr with hr | rfl
    · exact List.mem_append_left _ hr
    · simp
  refine ⟨decide_eq_true ((h.carries hn (hmem (.inr rfl))).2 ⟨of_decide_eq_true hcarries,hne⟩),l,l',?_,?_⟩
  · rw [h.entries hslot,hsplit]
  · intro r hr
    have hnot : ¬ (B r.1).carries n r.2 := by simpa using hbefore r hr
    simpa using fun hc => hnot ((h.carries hn (hmem (.inl hr))).1 hc).1

/-- Nothing is found when the deleted slot was the only one that carried the name. -/
theorem Deleted.search_none (h : Deleted B B' b i secs) (hslot : ¬ (B b).emptyAt i) (hn : n 0 ≠ 0xE5) :
    searchBlocks n B' secs = none ↔
      ∀ q ∈ Gristle.entries B (slots secs), (B q.1).carries n q.2 → q = (b,i) := by
  rw [searchBlocks_eq_find,List.find?_eq_none,h.entries hslot]
  refine forall₂_congr fun q hq => ?_
  rw [decide_eq_true_iff,h.carries hn (mem_of_mem_entries hq)]
  simp

end Deleted

/-! ### The walk after the deletion -/

/-- Among the entries a lookup sees in the directory at cluster `p`, only the one in slot `i` of block
`b` carries the last of the names. -/
def FatInfo.Sole (g : FatInfo) (B : ℕ → Sector) (names : List (Option DosName)) (p b i : ℕ) : Prop :=
  ∀ n secs, names.getLast? = some (some n) → g.Scanned B p secs →
    ∀ q ∈ Gristle.entries B (slots secs), (B q.1).carries n.byte q.2 → q = (b,i)

/-- The directories of the tree and the blocks a lookup sees of them. -/
def FatInfo.TreeDir (g : FatInfo) (B : ℕ → Sector) (c : ℕ) (secs : List ℕ) : Prop :=
  g.LiveDir B c ∧ g.Scanned B c secs

/-- After the deletion of a file the walk along its path comes to its directory as before. -/
theorem Walk.deleted {g : FatInfo} {B B' : ℕ → Sector} {D : ℕ → List ℕ → Prop} {c p b i : ℕ}
    {names : List (Option (ℕ → UInt8))} {o : Outcome} (h : Walk g B D c names o) (ho : o = .entry p b i)
    (hslot : ¬ (B b).emptyAt i) (hfile : ((B b).dirent i).isSubdir = false)
    (hn : ∀ n, some n ∈ names → n 0 ≠ 0xE5)
    (hD : ∀ c secs, D c secs → g.Scanned B' c secs ∧ Deleted B B' b i secs) :
    ∃ n secs, names.getLast? = some (some n) ∧ D p secs ∧ searchBlocks n B secs = some (b,i) ∧
      ∀ o', Walk g B' (g.Scanned B') p [some n] o' → Walk g B' (g.Scanned B') c names o' := by
  induction h with
  | root => simp at ho
  | noName => simp at ho
  | missing => simp at ho
  | badPath => simp at ho
  | notDir => simp at ho
  | @entry c b' i' secs n blocks search =>
    obtain ⟨rfl,rfl,rfl⟩ := Outcome.entry.inj ho
    exact ⟨n,secs,rfl,blocks,search,fun o' h => h⟩
  | @down c b' i' secs n m rest o blocks search dir tail ih =>
    obtain ⟨last,secs',hlast,hp,hs,hwalk⟩ := ih ho fun n hm => hn n (by simp [hm])
    obtain ⟨hscan,hdel⟩ := hD c secs blocks
    have hne : (b',i') ≠ (b,i) := by
      intro heq
      obtain ⟨rfl,rfl⟩ := Prod.mk.inj heq
      rw [hfile] at dir
      exact absurd dir (by decide)
    obtain ⟨hb,hi,-⟩ := searchBlocks_some search
    have hsame : (B' b').dirent i' = (B b').dirent i' :=
      dirent_congr fun k hk => hdel.others (b',i') (FatInfo.mem_slots.2 ⟨hb,hi⟩) hne k hk
    refine ⟨last,secs',by rw [List.getLast?_cons_cons]; exact hlast,hp,hs,fun o' h => ?_⟩
    refine .down hscan (hdel.search_other hslot (hn n (by simp)) search hne) (by rw [hsame]; exact dir) ?_
    rw [hsame]
    exact hwalk o' h

/-! ### The medium after the deletion -/

section Removed
variable {g : FatInfo} {B : ℕ → Sector} {size b i : ℕ} {cs : List ℕ} (hg : g.Valid size)
  (hcs : g.FileChain B (((B b).dirent i).cluster g) cs)
include hg hcs

omit hg in
theorem FatInfo.FileChain.inTable : ∀ c ∈ cs, c < g.entries := by
  rcases hcs with ⟨-,rfl⟩ | ⟨-,h⟩
  · simp
  · exact fun c hc => (h.inRange c hc).2

variable (hslot : g.LiveSlot B b i)
include hslot

theorem FatInfo.removed_entry {d : ℕ} (hd : d < g.entries) :
    g.entry (g.removed B b i cs) d = if d ∈ cs then 0 else g.entry B d := by
  obtain ⟨-,hbehind,-⟩ := hslot.mem hg
  rw [FatInfo.removed,hg.table.entry_cleared _ hcs.inTable hd]
  split
  · rfl
  · exact hg.table.entry_congr hd fun b' hlo hhi => Function.update_of_ne (by omega) _ _

theorem FatInfo.removed_deleted {c : ℕ} {secs : List ℕ} (h : g.Scanned B c secs) :
    Deleted B (g.removed B b i cs) b i secs := by
  obtain ⟨-,hbehind,hi⟩ := hslot.mem hg
  have hmark {b' : ℕ} (hb' : g.activeFatStart + g.sectorsPerFat ≤ b') :
      g.removed B b i cs b' = Function.update B b ((B b).set (i * 32) 0xE5) b' :=
    hg.table.cleared_apply _ hcs.inTable (.inr hb')
  have hlt : 32 * i < blockSize := by
    change 32 * i < 512
    omega
  constructor
  · rw [hmark hbehind,Function.update_self,Nat.mul_comm,Sector.get_set,if_pos ⟨rfl,hlt⟩]
  · rintro ⟨b',i'⟩ hq hne k hk
    obtain ⟨hb',hi'⟩ := FatInfo.mem_slots.1 hq
    rw [hmark (h.mem hg hb').2]
    by_cases heq : b' = b
    · have hii : i' ≠ i := fun h => hne (by rw [heq,h])
      rw [heq,Function.update_self,Sector.get_set,if_neg (by dsimp only; omega)]
    · rw [Function.update_of_ne heq]

/-- The directories keep their chains. -/
theorem FatInfo.removed_scanned (hcons : g.Consistent B) (hfile : ((B b).dirent i).isSubdir = false) {c : ℕ}
    {secs : List ℕ} (h : g.TreeDir B c secs) : g.Scanned (g.removed B b i cs) c secs := by
  refine h.2.congr fun cs' hcs' => hcs'.congr fun d hd => ?_
  rw [FatInfo.removed_entry hg hcs hslot (hcs'.inRange d hd).2,if_neg fun hmem => ?_]
  obtain ⟨o,ho,hdir⟩ := h.1.owner hcs'
  rcases hcs with ⟨-,rfl⟩ | ⟨-,hchain⟩
  · simp at hmem
  · have heq := hcons.owner_eq ho (.slot hslot hchain) hd hmem
    rw [hdir b i heq] at hfile
    exact absurd hfile (by decide)

/-- A lookup sees the directories of the tree as before, but for the deletion. -/
theorem FatInfo.removed_tree (hcons : g.Consistent B) (hfile : ((B b).dirent i).isSubdir = false) (c : ℕ)
    (secs : List ℕ) (h : g.TreeDir B c secs) :
    g.Scanned (g.removed B b i cs) c secs ∧ Deleted B (g.removed B b i cs) b i secs :=
  ⟨FatInfo.removed_scanned hg hcs hslot hcons hfile h,FatInfo.removed_deleted hg hcs hslot h.2⟩

end Removed

/-! ### The call -/

theorem exists_freeSlot {s : FatState} (h : ∃ fd, (s.fileNum fd).flags.open_ = false) :
    ∃ fd, s.FreeSlot fd := by
  obtain ⟨fd,hfd⟩ := h
  induction hn : fd.val using Nat.strong_induction_on generalizing fd with
  | _ n ih =>
    by_cases hfirst : ∀ j < fd, (s.fileNum j).flags.open_ = true
    · exact ⟨fd,hfd,hfirst⟩
    · push Not at hfirst
      obtain ⟨j,hj,hfree⟩ := hfirst
      exact ih j.val (by rw [← hn]; exact hj) j (by simpa using hfree) rfl

/-- A call that succeeds had a free slot. -/
theorem fatUnlink_freeSlot {E : Env} {path : List UInt8} {e : ℤ} {s t : FatState} {r : ℤ × ℤ}
    (h : fatUnlink E path e s = .ok (r,t)) (hr : r.1 = 0) : ∃ fd, s.FreeSlot fd := by
  obtain ⟨⟨k,e'⟩,u,hu,hrest⟩ := bind_ok h
  rcases fatOpen_session hu with ⟨hk,-⟩ | ⟨fd,-,hsession⟩
  · obtain rfl : k = -1 := hk
    obtain ⟨rfl,-⟩ := pure_ok hrest
    simp at hr
  · exact exists_freeSlot ⟨fd,hsession.closed⟩

/-- Giving back what starts at one of the first two entries destroys that entry. -/
theorem fatFreeClusters_head {E : Env} (hE : E.NoFault) {s t : FatState} {r : ℤ} {c : ℕ}
    (hg : s.fatfs.Valid s.dev.size) (hsize : s.dev.size ≤ maxBlock) (hc : c < 2)
    (h : fatFreeClusters E c s = .ok (r,t)) : s.fatfs.entry t.dev.blocks c = 0 := by
  have hentries := hg.entries_ge
  have hblock {d : ℕ} (hd : d < 2) : s.fatfs.entryBlock d < s.dev.size :=
    Nat.lt_trans (hg.entryBlock_lt (by omega)) hg.dataStart_lt
  obtain ⟨u,hu,hsees⟩ := sysLock_sees hE hsize
  rw [fatFreeClusters,bind_of_ok hu,if_pos rfl] at h
  cases hn : E.fuel with
  | zero =>
    rw [hn] at h
    simp [freeClustersLoop] at h
  | succ n =>
    rw [hn] at h
    have hkind := hg.table.kind
    have hclear : s.fatfs.entry
        (s.fatfs.setEntry (Function.update s.dev.blocks maxBlock s.sysbuf) c 0) c = 0 :=
      hkind.entry_setEntry_same _ ⟨rfl,rfl⟩
    rcases freeClustersLoop_result hE hkind hsize hsees h with ⟨hnot,-⟩ | ⟨-,-,ht⟩ | ⟨-,-,v,hv,hrest⟩
    · exact absurd (.inl (hblock hc)) hnot
    · rw [hkind.entry_of_view (hblock (by decide)) hc ht,hclear]
    · exact freeClustersLoop_zero hE hkind hsize (hblock (by decide)) hc hclear hv hrest

/-- The entry and the clusters `cs` go and nothing else, and then the path is not found, as long as its
elements are converted to the same names. -/
def UnlinkExact (E : Env) (path : List UInt8) (names : List (Option DosName)) (e : ℤ) (s : FatState)
    (b i : ℕ) (cs : List ℕ) : Prop :=
  (fatUnlink E path e).Returns s fun r t => r.1 = 0 ∧ t.dev.blocks = s.fatfs.removed s.dev.blocks b i cs ∧
    ∀ (E' : Env) (fd : Fd) (e' : ℤ), E'.NoFault → E'.Ample s.fatfs →
      Converts (t.garbage E') ((pathElements path).take 20) names →
      (fatLookupPath E' fd path e').Returns (t.taken fd) fun q _ => q = (-1,eNoent)

section Unlink
variable {E : Env} (hE : E.NoFault) {path : List UInt8} {names : List (Option DosName)} {e : ℤ} {s : FatState}
  {p b i : ℕ} (hg : s.fatfs.Valid s.dev.size) (hfuel : E.Ample s.fatfs) (hlen : path.length ≤ 99)
  (hconv : Converts (s.garbage E) ((pathElements path).take 20) names)
include hE hg hfuel hlen hconv

/-- Opening for reading hands out the descriptor of the entry the path leads to. -/
theorem fatOpen_entry {fd : Fd} (hfree : s.FreeSlot fd) (mode : ℕ)
    (hwalk : Walk s.fatfs s.dev.blocks (s.fatfs.Scanned s.dev.blocks) s.fatfs.rootCluster (nameBytes names)
      (.entry p b i)) :
    (fatOpen E path oRdonly mode e).Returns s fun r t => r = ((fd.val : ℤ),e) ∧
      After fd s t s.dev.blocks (t.fileNum fd) ∧ ∃ f : FileS, f.Holds E s.fatfs s.dev.blocks s.dev.size p b i ∧
        t.fileNum fd = { f with flags := f.flags.access oRdonly, fileSector := 0 } := by
  obtain ⟨r,u,hu,hafter,-,hr,hholds⟩ := @fatLookupPath_returns E hE fd path names e (s.taken fd) _ hg
    (fun c secs h => hfuel.scanned hg h) hlen hconv hwalk (by rw [FatState.taken,FatState.setFile_self])
  subst hr
  have htaken := updateFile_after fd (fun f => { f with flags := .justOpen }) s
  have hgrant := updateFile_after fd (FileS.granted oRdonly) u
  rw [hafter.blocks] at hgrant
  have hsu := (htaken.trans hafter).trans hgrant
  rw [Returns,fatOpen_lookup hfree hu,if_neg (by simp),if_neg (by simp),if_pos rfl]
  change (openExisting E fd oRdonly e).Returns _ _
  refine returns_fatfs (returns_file (returns_ite (fun h => absurd h.1 (by decide)) fun _ => ?_))
  refine returns_ite (fun _ => ?_) fun h => absurd ⟨by decide,by decide⟩ h
  refine (updateFile_returns fd _ _).bind fun _ v hv => returns_pure ⟨rfl,?_,u.fileNum fd,hholds,?_⟩
  · rw [hsu.blocks] at hv
    exact (hsu.trans hv).self
  · rw [hv.file,hsu.file]
    rfl

/-- `fat_unlink` deletes through the descriptor of the entry the path leads to. -/
theorem fatUnlink_opened {fd : Fd} (hfree : s.FreeSlot fd)
    (hwalk : Walk s.fatfs s.dev.blocks (s.fatfs.Scanned s.dev.blocks) s.fatfs.rootCluster (nameBytes names)
      (.entry p b i)) (hfile : ((s.dev.blocks b).dirent i).isSubdir = false) :
    ∃ u, After fd s u s.dev.blocks (u.fileNum fd) ∧
      (u.fileNum fd).fullFirstCluster = s.fatfs.first ((s.dev.blocks b).dirent i) ∧
      (u.fileNum fd).entrySector = b ∧ (u.fileNum fd).entryNumber = i ∧
      fatUnlink E path e s =
        (fatDelete E fd >>= fun _ => closeSlot E fd >>= fun q => pure ((0 : ℤ),q.2)) u := by
  obtain ⟨r,u,hu,rfl,hafter,f,hholds,hf⟩ := fatOpen_entry hE hg hfuel hlen hconv hfree 0o777 hwalk
  have hopen : (u.fileNum fd).flags.open_ = true := by
    rw [hf]
    change (f.flags.access oRdonly).open_ = true
    rw [hholds.flags]
    rfl
  have hdir : (u.fileNum fd).isSubdir = false := by
    rw [hf]
    change (f.attributes &&& attSubdir != 0) = false
    rw [hholds.attributes]
    exact hfile
  refine ⟨u,hafter,?_,?_,?_,?_⟩
  · rw [hf]
    exact hholds.first
  · rw [hf]
    exact hholds.entrySector
  · rw [hf]
    exact hholds.entryNumber
  · rw [fatUnlink,bind_of_ok hu]
    simp only [dif_pos (slot_cond fd),slot_eq]
    rw [bind_of_ok (fstatSlot_open hopen)]
    dsimp only
    rw [hdir]
    rfl

/-- What the deletion leaves on the medium. -/
def Unlinked (s : FatState) (b i : ℕ) (cs : List ℕ) (r : ℤ × ℤ) (t : FatState) : Prop :=
  r.1 = 0 ∧ t.fatfs = s.fatfs ∧ t.dev.size = s.dev.size ∧
    t.dev.blocks = s.fatfs.removed s.dev.blocks b i cs

variable {cs : List ℕ}
  (hwalk : Walk s.fatfs s.dev.blocks (s.fatfs.Scanned s.dev.blocks) s.fatfs.rootCluster (nameBytes names)
    (.entry p b i)) (hslot : s.fatfs.LiveSlot s.dev.blocks b i)
  (hfile : ((s.dev.blocks b).dirent i).isSubdir = false)
include hwalk hslot hfile

/-- The chain that is given back is the one the descriptor was opened with. -/
theorem fatUnlink_chain (hfree : ∃ fd, s.FreeSlot fd)
    (hcs : s.fatfs.Chain s.dev.blocks (s.fatfs.first ((s.dev.blocks b).dirent i)) cs) :
    (fatUnlink E path e).Returns s (Unlinked s b i cs) := by
  obtain ⟨fd,hfree⟩ := hfree
  obtain ⟨hlt,hbehind,-⟩ := hslot.mem hg
  obtain ⟨u,hu,hfirst,hsector,hnumber,hrun⟩ :=
    fatUnlink_opened (e := e) hE hg hfuel hlen hconv hfree hwalk hfile
  have hgu : u.fatfs = s.fatfs := hu.fatfs
  have hsize : u.dev.size = s.dev.size := hu.size
  rw [Returns,hrun]
  have hchain : u.fatfs.Chain u.dev.blocks (u.fileNum fd).fullFirstCluster cs := by
    rwa [hgu,hu.blocks,hfirst]
  refine (fatDelete_returns hE (by rwa [hgu,hsize]) (by rwa [hsector,hsize])
    (by rw [hgu,hsector]; exact .inr hbehind) hchain (hfuel.chain hg hcs)).bind fun _ v hv => ?_
  obtain ⟨hbut,hflags,hblocks⟩ := hv
  refine returns_bind_of_ok (closeSlot_clean (by rw [hflags]; rfl) (by rw [hflags]; rfl) (by rw [hflags]; rfl)) ?_
  refine returns_pure ⟨rfl,hbut.fatfs.trans hgu,hbut.size.trans hsize,?_⟩
  rw [hgu,hu.blocks,hsector,hnumber] at hblocks
  exact hblocks

/-- When the entry has no cluster, what is given back is the root. -/
theorem fatUnlink_rootless {r : ℤ × ℤ} {t : FatState} (hsize : s.dev.size ≤ maxBlock)
    (hroot : ∃ secs, s.fatfs.DirBlocks s.dev.blocks s.fatfs.rootCluster secs)
    (hzero : ((s.dev.blocks b).dirent i).cluster s.fatfs = 0) (h : fatUnlink E path e s = .ok (r,t))
    (hr : r.1 = 0) : s.fatfs.entry t.dev.blocks s.fatfs.rootCluster = 0 := by
  have hfree := fatUnlink_freeSlot h hr
  have hfirst : s.fatfs.first ((s.dev.blocks b).dirent i) = s.fatfs.rootCluster := if_pos hzero
  obtain ⟨secs,hsecs⟩ := hroot
  by_cases h16 : s.fatfs.type = partTypeFat16
  · -- the fixed root counts as cluster 1
    have hone := (hg.fat16_of_type h16).root
    obtain ⟨fd,hfree⟩ := hfree
    obtain ⟨u,hu,hstart,hsector,hnumber,hrun⟩ :=
      fatUnlink_opened (e := e) hE hg hfuel hlen hconv hfree hwalk hfile
    obtain ⟨hlt,-⟩ := hslot.mem hg
    have hplace : (u.fileNum fd).entrySector < u.dev.size := by rwa [hsector,hu.size]
    obtain ⟨v,huv,hmark,hdelete⟩ := fatDelete_marks hE hplace
    rw [hrun] at h
    obtain ⟨a,w,hw,h⟩ := bind_ok h
    rw [hdelete] at hw
    obtain ⟨k,x,hx,hw⟩ := bind_ok hw
    rw [hstart,hfirst,hone] at hx
    have hgv : v.fatfs = s.fatfs := huv.fatfs.trans hu.fatfs
    have hsv : v.dev.size = s.dev.size := huv.size.trans hu.size
    have hhead := fatFreeClusters_head hE (by rwa [hgv,hsv]) (by rwa [hsv]) (by decide) hx
    have hflags := (updateFile_result hw).file
    rw [bind_of_ok (closeSlot_clean (by rw [hflags]; rfl) (by rw [hflags]; rfl) (by rw [hflags]; rfl))] at h
    obtain ⟨-,rfl⟩ := pure_ok h
    rw [hone,← hgv]
    change v.fatfs.entry w.dev.blocks 1 = 0
    rw [(updateFile_result hw).blocks]
    exact hhead
  · generalize hc : s.fatfs.rootCluster = c at hsecs
    cases hsecs with
    | fixed h => exact absurd h h16
    | chain hcs =>
      rename_i cs'
      have hchain := fatUnlink_chain (e := e) hE hg hfuel hlen hconv hwalk hslot hfile hfree
        (by rw [hfirst,hc]; exact hcs)
      obtain ⟨-,-,-,hblocks⟩ := hchain.of_ok h
      rw [hblocks,FatInfo.removed,hg.table.entry_cleared _ (fun d hd => (hcs.inRange d hd).2)
        (hcs.inRange _ hcs.links.head_mem).2,if_pos hcs.links.head_mem]

end Unlink

/-- The lookup after the deletion finds nothing exactly when no other entry carries the name. -/
theorem lookup_unlinked {E : Env} (hE : E.NoFault) {fd : Fd} {path : List UInt8}
    {names : List (Option DosName)} {e : ℤ} {g : FatInfo} {B : ℕ → Sector} {t : FatState} {p b i : ℕ} {cs : List ℕ} (hg : g.Valid t.dev.size)
    (hfuel : E.Ample g) (hcons : g.Consistent B) (hstring : 0 ∉ path) (hlen : path.length ≤ 99)
    (hconv : Converts (t.garbage E) ((pathElements path).take 20) names)
    (hwalk : Walk g B (g.TreeDir B) g.rootCluster (nameBytes names) (.entry p b i)) (hslot : g.LiveSlot B b i)
    (hfile : ((B b).dirent i).isSubdir = false) (hcs : g.FileChain B (((B b).dirent i).cluster g) cs)
    (hfatfs : t.fatfs = g) (hblocks : t.dev.blocks = g.removed B b i cs) :
    (fatLookupPath E fd path e).Returns (t.taken fd) (fun q _ => q = (-1,eNoent)) ↔
      g.Sole B names p b i := by
  have hempty : ¬ (B b).emptyAt i := by
    obtain ⟨c,secs,-,-,hmem⟩ := hslot
    exact (FatInfo.mem_live hmem).2.2.1
  have hsome : none ∉ names := fun h => hwalk.names_some rfl (List.mem_map.2 ⟨none,h,rfl⟩)
  have hname := hconv.ne_deleted (fun el hel => ⟨(pathElements_mem (List.mem_of_mem_take hel)).1,
    fun h₀ => hstring ((pathElements_mem (List.mem_of_mem_take hel)).2 0 h₀)⟩) hsome
  have hbyte : ∀ n, some n ∈ nameBytes names → n 0 ≠ 0xE5 := by
    intro n hn
    obtain ⟨m,hm,heq⟩ := List.mem_map.1 hn
    cases m with
    | none => simp at heq
    | some m =>
      obtain rfl := Option.some.inj heq
      exact hname m hm
  obtain ⟨n,secs,hlast,htree,-,hafter⟩ := hwalk.deleted rfl hempty hfile hbyte
    (FatInfo.removed_tree hg hcs hslot hcons hfile)
  obtain ⟨m,hm,rfl⟩ : ∃ m, names.getLast? = some (some m) ∧ n = m.byte := by
    rw [nameBytes,List.getLast?_map] at hlast
    obtain ⟨m,hm,heq⟩ := Option.map_eq_some_iff.1 hlast
    cases m with
    | none => simp at heq
    | some m => exact ⟨m,hm,(Option.some.inj heq).symm⟩
  obtain ⟨hscan',hdel⟩ := FatInfo.removed_tree hg hcs hslot hcons hfile p secs htree
  have hsole : g.Sole B names p b i ↔ searchBlocks m.byte (g.removed B b i cs) secs = none := by
    rw [hdel.search_none hempty (hname m (List.mem_of_getLast? hm))]
    refine ⟨fun h => h m secs hm htree.2,fun h m' secs' hm' hscan' => ?_⟩
    obtain rfl : m = m' := by simpa [hm] using hm'
    rwa [hscan'.unique htree.2]
  have hreport {o : Outcome}
      (ho : Walk g (g.removed B b i cs) (g.Scanned (g.removed B b i cs)) p [some m.byte] o) :=
    @fatLookupPath_returns E hE fd path names e (t.taken fd) o
      (by rw [FatState.taken,FatState.setFile_fatfs,hfatfs]; exact hg)
      (fun c secs h => hfuel.scanned hg (by rw [← hfatfs]; exact h)) hlen hconv
      (by rw [FatState.taken,FatState.setFile_fatfs,FatState.setFile_dev,hfatfs,hblocks]; exact hafter o ho)
      (by rw [FatState.taken,FatState.setFile_self])
  rw [hsole]
  cases hs : searchBlocks m.byte (g.removed B b i cs) secs with
  | none => exact iff_of_true ((hreport (.missing hscan' hs)).mono fun r u hu => hu.2.2.1) rfl
  | some q =>
    refine iff_of_false (fun hret => ?_) (by simp)
    obtain ⟨r,u,hu,-,-,hr,-⟩ := hreport (.entry hscan' hs)
    have hnoent := hret.of_ok hu
    rw [hr] at hnoent
    simp at hnoent

theorem Walk.mono {g : FatInfo} {B : ℕ → Sector} {D D' : ℕ → List ℕ → Prop} {c : ℕ}
    {names : List (Option (ℕ → UInt8))} {o : Outcome} (h : Walk g B D c names o)
    (hD : ∀ c secs, D c secs → D' c secs) : Walk g B D' c names o := by
  induction h with
  | root => exact .root
  | noName => exact .noName
  | missing blocks search => exact .missing (hD _ _ blocks) search
  | badPath blocks search => exact .badPath (hD _ _ blocks) search
  | entry blocks search => exact .entry (hD _ _ blocks) search
  | notDir blocks search file => exact .notDir (hD _ _ blocks) search file
  | down blocks search dir tail ih => exact .down (hD _ _ blocks) search dir ih

/-- The entry of the root directory is in use. -/
theorem FatInfo.Consistent.root_used {g : FatInfo} {B : ℕ → Sector} {size : ℕ} (h : g.Consistent B)
    (hg : g.Valid size) : g.rootCluster < g.entries ∧ g.entry B g.rootCluster ≠ 0 := by
  obtain ⟨secs,hsecs⟩ := h.root
  by_cases h16 : g.type = partTypeFat16
  · have hentries := hg.entries_ge
    rw [(hg.fat16_of_type h16).root]
    exact ⟨by omega,h.reserved.one⟩
  · generalize g.rootCluster = c at hsecs
    cases hsecs with
    | fixed h => exact absurd h h16
    | chain hcs => exact ⟨(hcs.inRange _ hcs.links.head_mem).2,hcs.entry_ne_zero hg hcs.links.head_mem⟩

/-- `fat_unlink` removes exactly the file when its entry names a cluster, a descriptor is free and no other
entry of the directory carries the name. -/
theorem fatUnlink_exact_iff {E : Env} (hE : E.NoFault) {path : List UInt8} {names : List (Option DosName)}
    {e : ℤ} {s : FatState} {p b i : ℕ} {cs : List ℕ} (hg : s.fatfs.Valid s.dev.size)
    (hsize : s.dev.size ≤ maxBlock) (hfuel : E.Ample s.fatfs) (hcons : s.fatfs.Consistent s.dev.blocks)
    (hstring : 0 ∉ path) (hlen : path.length ≤ 99)
    (hconv : Converts (s.garbage E) ((pathElements path).take 20) names)
    (hwalk : Walk s.fatfs s.dev.blocks (s.fatfs.TreeDir s.dev.blocks) s.fatfs.rootCluster (nameBytes names)
      (.entry p b i))
    (hslot : s.fatfs.LiveSlot s.dev.blocks b i) (hfile : ((s.dev.blocks b).dirent i).isSubdir = false)
    (hcs : s.fatfs.FileChain s.dev.blocks (((s.dev.blocks b).dirent i).cluster s.fatfs) cs) :
    UnlinkExact E path names e s b i cs ↔ ((s.dev.blocks b).dirent i).cluster s.fatfs ≠ 0 ∧
      (∃ fd, (s.fileNum fd).flags.open_ = false) ∧ s.fatfs.Sole s.dev.blocks names p b i := by
  have hscan := hwalk.mono fun c secs h => h.2
  constructor
  · rintro ⟨r,t,hrun,hr,hblocks,hlookup⟩
    have hfree := fatUnlink_freeSlot hrun hr
    have hcluster : ((s.dev.blocks b).dirent i).cluster s.fatfs ≠ 0 := by
      intro hzero
      obtain ⟨hroot,hused⟩ := hcons.root_used hg
      have hlost := fatUnlink_rootless hE hg hfuel hlen hconv hscan hslot hfile hsize hcons.root hzero hrun hr
      have hnil : cs = [] := hcs.elim And.right fun h => absurd hzero h.1
      rw [hblocks,FatInfo.removed_entry hg hcs hslot hroot,hnil,if_neg (by simp)] at hlost
      exact hused hlost
    have hchain : s.fatfs.Chain s.dev.blocks (s.fatfs.first ((s.dev.blocks b).dirent i)) cs := by
      rw [FatInfo.first,if_neg hcluster]
      exact (hcs.resolve_left fun h => hcluster h.1).2
    obtain ⟨-,hfatfs,htsize,-⟩ := (fatUnlink_chain (e := e) hE hg hfuel hlen hconv hscan hslot hfile hfree
      hchain).of_ok hrun
    refine ⟨hcluster,hfree.imp fun fd h => h.1,?_⟩
    -- a lookup whose array starts as this one did
    have hlook := hlookup { E with junk := fun _ => E.junk s.dev.tick } 0 0
      ⟨hE.read,hE.write,hE.lock⟩ hfuel hconv
    exact (@lookup_unlinked { E with junk := fun _ => E.junk s.dev.tick } ⟨hE.read,hE.write,hE.lock⟩ 0 path names 0
      _ _ t p b i cs (by rwa [htsize]) hfuel hcons hstring hlen hconv hwalk hslot hfile hcs hfatfs hblocks).1 hlook
  · rintro ⟨hcluster,hfree,hsole⟩
    have hchain : s.fatfs.Chain s.dev.blocks (s.fatfs.first ((s.dev.blocks b).dirent i)) cs := by
      rw [FatInfo.first,if_neg hcluster]
      exact (hcs.resolve_left fun h => hcluster h.1).2
    refine (fatUnlink_chain hE hg hfuel hlen hconv hscan hslot hfile (exists_freeSlot hfree) hchain).mono
      fun r t ht => ?_
    obtain ⟨hr,hfatfs,htsize,hblocks⟩ := ht
    refine ⟨hr,hblocks,fun E' fd e' hE' hfuel' hconv' => ?_⟩
    exact (lookup_unlinked hE' (by rwa [htsize]) hfuel' hcons hstring hlen hconv' hwalk hslot hfile hcs hfatfs
      hblocks).2 hsole

/-! ### A file and an empty file -/

/-- The bytes of the name with these two characters. -/
def twoChars (c d : UInt8) : DosName :=
  fun k => if k.val = 0 then c else if k.val = 1 then d else if k.val < 11 then chSpace else 0

theorem twoChars_converts {c d : UInt8} (h : (match convertElement (fun _ => 0) [c,d] with
    | .ok (some n) => decide (n = twoChars c d)
    | _ => false) = true) : convertElement (fun _ => 0) [c,d] = .ok (some (twoChars c d)) := by
  split at h
  · rename_i n hn
    rw [hn,of_decide_eq_true h]
  · simp at h

/-- `/CC` is unlinked, and then it is not found. -/
theorem fatUnlink_exact_cc : UnlinkExact (Env.calm (fun _ => 90) 9000) [0x2F,0x43,0x43]
    [some (twoChars 0x43 0x43)] 0 smallTreeState 2 1 [4] := by
  have hscan : smallFat16.Scanned smallTree 1 [2,3] := .fixed rfl
  have hlive : (2,1) ∈ live smallTree [2] := by
    rw [smallTree_live.1]
    simp
  refine (@fatUnlink_exact_iff _ (env_calm_noFault (fun _ => 90) 9000) [0x2F,0x43,0x43] _ 0 smallTreeState 1 2 1 _
    smallFat16_valid (by decide) (by decide) smallTree_consistent (by decide) (by decide)
    (.cons (twoChars_converts (by decide +kernel)) .nil) ?_ ⟨1,[2],.root,smallTree_blocks.1,hlive⟩
    (by decide +kernel) ?_).2 ⟨?_,?_,?_⟩
  · exact .entry ⟨.root,hscan⟩ (by decide +kernel)
  · exact .inr ⟨by decide +kernel,smallTree_chain (by decide) (by decide)⟩
  · decide +kernel
  · exact ⟨0,rfl⟩
  · intro n secs hn hsecs
    obtain rfl : twoChars 0x43 0x43 = n := by simpa using hn
    obtain rfl := FatInfo.Scanned.unique hsecs hscan
    decide +kernel

/-- The file `EE`, which has no cluster. -/
def hollow : ℕ → Sector
  | 1 => Sector.ofBytes [0xF8,0xFF,0xFF,0xFF]
  | 2 => Sector.ofBytes (entryBytes [0x45,0x45] 0x20 0 0)
  | _ => Sector.zero

theorem hollow_dir {c : ℕ} {secs : List ℕ} (h : smallFat16.LiveDir hollow c)
    (hs : smallFat16.DirBlocks hollow c secs) : c = 1 ∧ live hollow secs = [(2,0)] := by
  have hroot : smallFat16.DirBlocks hollow 1 [2] := .fixed rfl
  have hlive : live hollow [2] = [(2,0)] := by decide +kernel
  induction h generalizing secs with
  | root =>
    obtain rfl := hs.unique hroot
    exact ⟨rfl,hlive⟩
  | @sub c b i secs' parent blocks slot dir ih =>
    rw [(ih blocks).2] at slot
    obtain ⟨rfl,rfl⟩ := Prod.mk.inj (List.mem_singleton.1 slot)
    exact absurd dir (by decide +kernel)

theorem hollow_slot {b i : ℕ} (h : smallFat16.LiveSlot hollow b i) : (b,i) = (2,0) := by
  obtain ⟨c,secs,hc,hsecs,hslot⟩ := h
  rw [(hollow_dir hc hsecs).2] at hslot
  exact List.mem_singleton.1 hslot

theorem hollow_consistent : smallFat16.Consistent hollow where
  reserved := ⟨by decide +kernel,by decide +kernel⟩
  root := ⟨[2],.fixed rfl⟩
  subdirs b i hslot hdir := by
    obtain ⟨rfl,rfl⟩ := Prod.mk.inj (hollow_slot hslot)
    exact absurd hdir (by decide +kernel)
  files b i hslot _ := by
    obtain ⟨rfl,rfl⟩ := Prod.mk.inj (hollow_slot hslot)
    exact ⟨[],.inl ⟨by decide +kernel,rfl⟩,by decide +kernel⟩
  apart o o' cs cs' ho ho' hne := by
    have hnone {o : Option (ℕ × ℕ)} {cs : List ℕ} (h : smallFat16.Owner hollow o cs) : False := by
      cases h with
      | root h => exact absurd (h.inRange _ h.links.head_mem) (by decide)
      | slot hlive h =>
        obtain ⟨rfl,rfl⟩ := Prod.mk.inj (hollow_slot hlive)
        exact absurd (h.inRange _ h.links.head_mem).1 (by decide +kernel)
    exact (hnone ho).elim

/-- Unlinking `/EE` destroys the entry of cluster 1 in the table. -/
theorem fatUnlink_destroys_mark : smallFat16.Consistent hollow ∧ smallFat16.LiveSlot hollow 2 0 ∧
    Converts (fun _ => 0) [[0x45,0x45]] [some (twoChars 0x45 0x45)] ∧
    Walk smallFat16 hollow (smallFat16.TreeDir hollow) 1 [some (twoChars 0x45 0x45).byte] (.entry 1 2 0) ∧
    ¬ UnlinkExact (Env.calm (fun _ => 90) 9000) [0x2F,0x45,0x45] [some (twoChars 0x45 0x45)] 0
      (.mounted smallFat16 300 hollow) 2 0 [] := by
  have hlive : (2,0) ∈ live hollow [2] := by decide +kernel
  refine ⟨hollow_consistent,⟨1,[2],.root,.fixed rfl,hlive⟩,.cons (twoChars_converts (by decide +kernel)) .nil,
    .entry ⟨.root,.fixed rfl⟩ (by decide +kernel),?_⟩
  rintro ⟨r,t,hrun,-,hblocks,-⟩
  have htest : Prog.test (fatUnlink (Env.calm (fun _ => 90) 9000) [0x2F,0x45,0x45] 0)
      (.mounted smallFat16 300 hollow) (fun _ t => (t.dev.blocks 1).get 2 == 0) = true := by decide +kernel
  obtain ⟨r',t',hrun',hget⟩ := ok_of_test htest
  obtain ⟨rfl,rfl⟩ : r = r' ∧ t = t' := by simpa [hrun] using hrun'
  rw [hblocks] at hget
  have hkept : ((smallFat16.removed hollow 2 0 [] 1).get 2 == 0) = false := by decide +kernel
  exact absurd (hget.symm.trans hkept) (by decide)

end Gristle
