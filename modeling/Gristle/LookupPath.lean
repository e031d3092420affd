import Gristle.Resolve
import Gristle.ShortName

/-! Path resolution against a reference: a walk along all elements of the path through directories
that end where they should. -/
namespace Gristle
open Prog

/-! ### Directories -/

/-- The blocks of the directory at cluster `c`. -/
inductive FatInfo.DirBlocks (g : FatInfo) (B : ℕ → Sector) : ℕ → List ℕ → Prop
  | fixed (h : g.type = partTypeFat16) :
      g.DirBlocks B 1 ((List.range g.rootLen).map (g.rootStart + ·))
  | chain {c : ℕ} {cs : List ℕ} (h : g.Chain B c cs) :
      g.DirBlocks B c ((List.range (g.span cs)).map (g.sectorAt cs))

/-- The root and the directories a path of valid names can lead to. -/
inductive FatInfo.IsDir (g : FatInfo) (B : ℕ → Sector) : ℕ → Prop
  | root : g.IsDir B g.rootCluster
  | sub {c b i : ℕ} {secs : List ℕ} {n : ShortName} (parent : g.IsDir B c) (blocks : g.DirBlocks B c secs)
      (search : searchBlocks n.byte B secs = some (b,i)) (dir : ((B b).dirent i).isSubdir = true) :
      g.IsDir B (g.first ((B b).dirent i))

/-- Each of these directories has blocks and an empty slot. -/
def FatInfo.WellFormedDirs (g : FatInfo) (B : ℕ → Sector) : Prop :=
  ∀ c, g.IsDir B c → ∃ secs, g.DirBlocks B c secs ∧ ∃ b ∈ secs, ∃ i < 16, (B b).emptyAt i

/-- Enough passes for every loop over the blocks or the slots of a directory. -/
def Env.Ample (E : Env) (g : FatInfo) : Prop := 16 * (g.entries * g.sectorsPerCluster + 256) < E.fuel

instance (E : Env) (g : FatInfo) : Decidable (E.Ample g) := inferInstanceAs (Decidable (_ < _))

theorem Env.Ample.scanned {E : Env} {g : FatInfo} (hE : E.Ample g) {size : ℕ} (hg : g.Valid size)
    {B : ℕ → Sector} {c : ℕ} {secs : List ℕ} (h : g.Scanned B c secs) : secs.length ≤ E.fuel := by
  have hlen := h.length_le hg
  have hmul := Nat.mul_le_mul (Nat.sub_le g.entries 2) (Nat.le_refl g.sectorsPerCluster)
  rw [FatInfo.span,List.length_range] at hlen
  unfold Env.Ample at hE
  omega

namespace FatInfo
variable {g : FatInfo} {B : ℕ → Sector} {c : ℕ} {secs secs' : List ℕ}

theorem DirBlocks.unique (h : g.DirBlocks B c secs) (h' : g.DirBlocks B c secs') : secs = secs' := by
  have hone {cs : List ℕ} (h : g.Chain B 1 cs) : False := by
    have := (h.inRange 1 h.links.head_mem).1
    omega
  cases h with
  | fixed =>
    cases h' with
    | fixed => rfl
    | chain h' => exact (hone h').elim
  | chain h =>
    cases h' with
    | fixed => exact (hone h).elim
    | chain h' => rw [h.links.unique h'.links]

theorem searchBlocks_append {n : ℕ → UInt8} {l l' : List ℕ} {b i : ℕ}
    (h : searchBlocks n B l = some (b,i)) : searchBlocks n B (l ++ l') = some (b,i) := by
  induction l with
  | nil => simp [searchBlocks] at h
  | cons a l ih =>
    rw [searchBlocks] at h
    rw [List.cons_append,searchBlocks]
    cases hs : searchSlots n (B a) 16 0 <;> simp only [hs] at h ⊢
    · exact absurd h (by simp)
    · exact h
    · exact ih h

/-- A search ends at an empty slot. -/
theorem searchBlocks_append_of_empty {n : ℕ → UInt8} {l l' : List ℕ}
    (h : ∃ b ∈ l, ∃ i < 16, (B b).emptyAt i) : searchBlocks n B (l ++ l') = searchBlocks n B l := by
  obtain ⟨b,hb,i,hi,hempty⟩ := h
  induction l with
  | nil => simp at hb
  | cons a l ih =>
    have hcases := searchSlots_cases n (B a) 16 0
    rw [List.cons_append,searchBlocks,searchBlocks]
    cases hs : searchSlots n (B a) 16 0 <;> simp only [hs] at hcases ⊢
    rcases List.mem_cons.1 hb with rfl | hb
    · exact absurd hempty (hcases i (Nat.zero_le _) (by omega)).1
    · exact ih hb

/-- A scan of a directory that ends finds nothing a search of its blocks does not find. -/
theorem Scanned.search (h : g.Scanned B c secs') (hd : g.DirBlocks B c secs)
    (hend : ∃ b ∈ secs, ∃ i < 16, (B b).emptyAt i) (n : ℕ → UInt8) :
    searchBlocks n B secs' = none ∨ searchBlocks n B secs' = searchBlocks n B secs := by
  cases hd with
  | chain hcs =>
    obtain rfl := h.unique (.chain hcs)
    exact .inr rfl
  | fixed h16 =>
    obtain rfl := h.unique (.fixed h16)
    rcases Nat.le_total g.rootLen (u8 g.rootLen + 1) with hle | hle
    · right
      obtain ⟨k,hk⟩ := Nat.exists_eq_add_of_le hle
      rw [hk,List.range_add,List.map_append]
      exact searchBlocks_append_of_empty hend
    · obtain ⟨k,hk⟩ := Nat.exists_eq_add_of_le hle
      cases hs : searchBlocks n B ((List.range (u8 g.rootLen + 1)).map (g.rootStart + ·)) with
      | none => exact .inl rfl
      | some p =>
        right
        rw [hk,List.range_add,List.map_append]
        exact (searchBlocks_append hs).symm

/-- With fewer than 256 blocks in the fixed root the scan finds what is there. -/
theorem Scanned.search_eq (h : g.Scanned B c secs') (hd : g.DirBlocks B c secs)
    (hend : ∃ b ∈ secs, ∃ i < 16, (B b).emptyAt i) (hroot : g.rootLen < 256) (n : ℕ → UInt8) :
    searchBlocks n B secs' = searchBlocks n B secs := by
  cases hd with
  | chain hcs =>
    obtain rfl := h.unique (.chain hcs)
    rfl
  | fixed h16 =>
    obtain rfl := h.unique (.fixed h16)
    rw [u8_of_lt hroot,List.range_succ,List.map_append]
    exact searchBlocks_append_of_empty hend

theorem DirBlocks.scanned (h : g.DirBlocks B c secs) : ∃ secs', g.Scanned B c secs' := by
  cases h with
  | fixed h => exact ⟨_,.fixed h⟩
  | chain h => exact ⟨_,.chain h⟩

end FatInfo

/-! ### Walks along valid names -/

/-- The name as a lookup uses it: the second conversion gives up at a character 0xE5. -/
def ShortName.name (n : ShortName) : Option (ℕ → UInt8) := if n.plain then some n.byte else none

/-- Names that compare alike, up to the first element that is no name. -/
inductive NamesAlike : List (Option (ℕ → UInt8)) → List (Option (ℕ → UInt8)) → Prop
  | nil : NamesAlike [] []
  | cons {n m : ℕ → UInt8} {l l' : List (Option (ℕ → UInt8))} (h : ∀ k < 11, n k = m k)
      (tail : NamesAlike l l') : NamesAlike (some n :: l) (some m :: l')
  | stop {l l' : List (Option (ℕ → UInt8))} : NamesAlike (none :: l) (none :: l')

theorem NamesAlike.walk {g : FatInfo} {B : ℕ → Sector} {D : ℕ → List ℕ → Prop} {c : ℕ}
    {l l' : List (Option (ℕ → UInt8))} {o : Outcome} (h : NamesAlike l l') (hw : Walk g B D c l o) :
    Walk g B D c l' o := by
  induction hw generalizing l' with
  | root =>
    cases h
    exact .root
  | noName =>
    cases h
    exact .noName
  | missing hb hs =>
    cases h with
    | cons hn tail =>
      cases tail
      exact .missing hb (searchBlocks_congr hn ▸ hs)
  | badPath hb hs =>
    cases h with
    | cons hn tail =>
      cases tail <;> exact .badPath hb (searchBlocks_congr hn ▸ hs)
  | entry hb hs =>
    cases h with
    | cons hn tail =>
      cases tail
      exact .entry hb (searchBlocks_congr hn ▸ hs)
  | notDir hb hs hf =>
    cases h with
    | cons hn tail =>
      cases tail <;> exact .notDir hb (searchBlocks_congr hn ▸ hs) hf
  | down hb hs hd _ ih =>
    cases h with
    | cons hn tail =>
      have hrest := ih tail
      cases tail <;> exact .down hb (searchBlocks_congr hn ▸ hs) hd hrest

/-- What the driver makes of path elements that are valid names. -/
theorem converts_names {names : List ShortName} (hclear : ∀ n ∈ names, n.clear) (d : DosName) :
    ∃ ns, Converts d (names.map ShortName.text) ns ∧
      NamesAlike (names.map ShortName.name) (nameBytes ns) := by
  induction names generalizing d with
  | nil => exact ⟨[],.nil,.nil⟩
  | cons n names ih =>
    cases hplain : n.plain with
    | true =>
      obtain ⟨d',hconv,hbytes⟩ := n.convertElement_plain hplain (hclear n (by simp)) d
      obtain ⟨ns,hns,halike⟩ := ih (fun m hm => hclear m (by simp [hm])) d'
      refine ⟨some d' :: ns,.cons hconv hns,?_⟩
      rw [List.map_cons,ShortName.name,if_pos hplain]
      exact .cons (fun k hk => (hbytes k hk).symm) halike
    | false =>
      have hconv := n.convertElement_e5 hplain (hclear n (by simp)) d
      refine ⟨none :: names.map fun _ => none,.stop hconv (by simp),?_⟩
      rw [List.map_cons,ShortName.name,if_neg (by simp [hplain])]
      exact .stop

section Walks
variable {g : FatInfo} {B : ℕ → Sector} (hwf : g.WellFormedDirs B)
include hwf

/-- The reference walk has an outcome. -/
theorem exists_walk (names : List ShortName) {c : ℕ} (hc : g.IsDir B c) :
    ∃ o, Walk g B (g.DirBlocks B) c (names.map fun n => some n.byte) o := by
  induction names generalizing c with
  | nil => exact ⟨_,.root⟩
  | cons n names ih =>
    obtain ⟨secs,hsecs,-⟩ := hwf c hc
    cases hs : searchBlocks n.byte B secs with
    | none =>
      cases names with
      | nil => exact ⟨_,.missing hsecs hs⟩
      | cons m names => exact ⟨_,.badPath hsecs hs⟩
    | some p =>
      cases names with
      | nil => exact ⟨_,.entry hsecs hs⟩
      | cons m names =>
        cases hd : ((B p.1).dirent p.2).isSubdir with
        | false => exact ⟨_,.notDir hsecs hs hd⟩
        | true =>
          obtain ⟨o,ho⟩ := ih (.sub hc hsecs hs hd)
          exact ⟨o,.down hsecs hs hd ho⟩

/-- The driver's walk has one too. -/
theorem exists_scan (names : List ShortName) {c : ℕ} (hc : g.IsDir B c) :
    ∃ o, Walk g B (g.Scanned B) c (names.map ShortName.name) o := by
  induction names generalizing c with
  | nil => exact ⟨_,.root⟩
  | cons n names ih =>
    rw [List.map_cons,ShortName.name]
    by_cases hplain : n.plain = true
    · rw [if_pos hplain]
      obtain ⟨secs,hsecs,hend⟩ := hwf c hc
      obtain ⟨secs',hsecs'⟩ := hsecs.scanned
      cases hs : searchBlocks n.byte B secs' with
      | none =>
        cases names with
        | nil => exact ⟨_,.missing hsecs' hs⟩
        | cons m names => exact ⟨_,.badPath hsecs' hs⟩
      | some p =>
        cases names with
        | nil => exact ⟨_,.entry hsecs' hs⟩
        | cons m names =>
          cases hd : ((B p.1).dirent p.2).isSubdir with
          | false => exact ⟨_,.notDir hsecs' hs hd⟩
          | true =>
            have hs' := (hsecs'.search hsecs hend n.byte).resolve_left (by rw [hs]; simp)
            obtain ⟨o,ho⟩ := ih (.sub hc hsecs (hs'.symm.trans hs) hd)
            exact ⟨o,.down hsecs' hs hd ho⟩
    · rw [if_neg hplain]
      exact ⟨_,.noName⟩

/-- Plain names and a fixed root of fewer than 256 blocks: the two walks end alike. -/
theorem walk_scan {names : List ShortName} (hplain : ∀ n ∈ names, n.plain = true)
    (hroot : g.rootLen < 256) {c : ℕ} (hc : g.IsDir B c) {o : Outcome}
    (h : Walk g B (g.DirBlocks B) c (names.map fun n => some n.byte) o) :
    Walk g B (g.Scanned B) c (names.map ShortName.name) o := by
  induction names generalizing c with
  | nil =>
    cases h
    exact .root
  | cons n names ih =>
    rw [List.map_cons,ShortName.name,if_pos (hplain n (by simp))]
    have hscan {secs : List ℕ} (hsecs : g.DirBlocks B c secs) :
        ∃ secs', g.Scanned B c secs' ∧ searchBlocks n.byte B secs' = searchBlocks n.byte B secs := by
      obtain ⟨secs₁,hsecs₁,hend⟩ := hwf c hc
      obtain rfl := hsecs.unique hsecs₁
      obtain ⟨secs',hsecs'⟩ := hsecs.scanned
      exact ⟨secs',hsecs',hsecs'.search_eq hsecs hend hroot n.byte⟩
    have hrest := @ih fun m hm => hplain m (by simp [hm])
    cases names with
    | nil =>
      cases h with
      | missing hb hs =>
        obtain ⟨secs',hb',hs'⟩ := hscan hb
        exact .missing hb' (hs'.trans hs)
      | entry hb hs =>
        obtain ⟨secs',hb',hs'⟩ := hscan hb
        exact .entry hb' (hs'.trans hs)
    | cons m names =>
      cases h with
      | badPath hb hs =>
        obtain ⟨secs',hb',hs'⟩ := hscan hb
        exact .badPath hb' (hs'.trans hs)
      | notDir hb hs hf =>
        obtain ⟨secs',hb',hs'⟩ := hscan hb
        exact .notDir hb' (hs'.trans hs) hf
      | down hb hs hd tail =>
        obtain ⟨secs',hb',hs'⟩ := hscan hb
        exact .down hb' (hs'.trans hs) hd (hrest (.sub hc hb hs hd) tail)

end Walks

/-! ### The reference -/

/-- What a lookup that ends like this is expected to report: zero and the entry, or the error. -/
def Outcome.Expected (g : FatInfo) (B : ℕ → Sector) (r : ℤ × ℤ) (f : FileS) : Outcome → Prop
  | .root => r.1 = 0
  | .entry p b i => r.1 = 0 ∧ f.entrySector = b ∧ f.entryNumber = i ∧ f.parentCluster = p ∧
      f.attributes = ((B b).dirent i).attributes ∧ f.size = ((B b).dirent i).size ∧
      f.fullFirstCluster = g.first ((B b).dirent i)
  | .missing _ => r = (-1,eNoent)
  | .badPath => r = (-1,Gristle.badPath)
  | .notDir => r = (-1,eNotdir)
  | .noName => False

/-- What tells outcomes apart: the error, and the place of the entry. -/
def Outcome.report : Outcome → ℤ × Option (ℕ × ℕ × ℕ)
  | .root => (0,none)
  | .entry p b i => (0,some (p,b,i))
  | .missing _ => (eNoent,none)
  | .badPath => (Gristle.badPath,none)
  | .notDir => (eNotdir,none)
  | .noName => (eIo,none)

/-- A report meets the expectation when the outcomes are alike. -/
theorem Outcome.Reported.expected_iff {E : Env} {g : FatInfo} {B : ℕ → Sector} {limit : ℕ}
    {names : List (Option DosName)} {e : ℤ} {r : ℤ × ℤ} {f : FileS} {o o' : Outcome}
    (h : o'.Reported E g B limit names e r f) (ho : o ≠ .noName) (hroot : o = .root ↔ o' = .root) :
    o.Expected g B r f ↔ o'.report = o.report := by
  cases o' with
  | root =>
    obtain rfl := hroot.2 rfl
    exact ⟨fun _ => rfl,fun _ => congrArg Prod.fst h.1⟩
  | entry p b i =>
    obtain ⟨rfl,hf⟩ := h
    cases o with
    | root => exact absurd (hroot.1 rfl) (by simp)
    | entry p' b' i' =>
      refine ⟨fun hexp => ?_,fun heq => ?_⟩
      · obtain ⟨-,rfl,rfl,rfl,-⟩ := hexp
        rw [hf.entrySector,hf.entryNumber,hf.parent]
      · obtain ⟨rfl,rfl,rfl⟩ : p = p' ∧ b = b' ∧ i = i' := by simpa [report] using heq
        exact ⟨rfl,hf.entrySector,hf.entryNumber,hf.parent,hf.attributes,hf.size,hf.first⟩
    | noName => exact absurd rfl ho
    | _ => simp [Expected,report]
  | missing p =>
    obtain ⟨rfl,-⟩ := h
    cases o <;> simp_all [Expected,report]
  | badPath =>
    obtain rfl := h
    cases o <;> simp_all [Expected,report]
  | notDir =>
    obtain rfl := h
    cases o <;> simp_all [Expected,report]
  | noName =>
    obtain rfl := h
    cases o <;> simp_all [Expected,report]

theorem Walk.root_iff {g : FatInfo} {B : ℕ → Sector} {D : ℕ → List ℕ → Prop} {c : ℕ}
    {l : List (Option (ℕ → UInt8))} {o : Outcome} (h : Walk g B D c l o) : o = .root ↔ l = [] := by
  induction h with
  | down hb hs hd tail ih => exact ⟨fun h => absurd (ih.1 h) (by simp),fun h => absurd h (by simp)⟩
  | _ => simp

theorem Walk.ne_noName {g : FatInfo} {B : ℕ → Sector} {D : ℕ → List ℕ → Prop} {c : ℕ}
    {l : List (Option (ℕ → UInt8))} {o : Outcome} (h : Walk g B D c l o) (hl : none ∉ l) :
    o ≠ .noName := by
  induction h with
  | noName => simp at hl
  | down hb hs hd tail ih => exact ih fun h => hl (by simp [h])
  | _ => simp

/-- A lookup reports what a walk along all elements finds exactly when the walk along the first twenty,
in the blocks the driver scans and up to a name the driver does not accept, ends alike. -/
theorem lookup_expected_iff {E : Env} (hE : E.NoFault) {fd : Fd} {path : List UInt8}
    {names : List ShortName} {e : ℤ} {s : FatState} (hg : s.fatfs.Valid s.dev.size)
    (hfuel : E.Ample s.fatfs) (hlen : path.length ≤ 99)
    (hpath : pathElements path = names.map ShortName.text) (hbase : ∀ n ∈ names, 2 ≤ n.base.length)
    (hwf : s.fatfs.WellFormedDirs s.dev.blocks) (hflags : (s.fileNum fd).flags = .justOpen) :
    ∃ o o', Walk s.fatfs s.dev.blocks (s.fatfs.DirBlocks s.dev.blocks) s.fatfs.rootCluster
        (names.map fun n => some n.byte) o ∧
      Walk s.fatfs s.dev.blocks (s.fatfs.Scanned s.dev.blocks) s.fatfs.rootCluster
        ((names.take 20).map ShortName.name) o' ∧
      (fatLookupPath E fd path e).Returns s fun r t =>
        o.Expected s.fatfs s.dev.blocks r (t.fileNum fd) ↔ o'.report = o.report := by
  obtain ⟨o,ho⟩ := exists_walk hwf names .root
  obtain ⟨o',ho'⟩ := exists_scan hwf (names.take 20) .root
  obtain ⟨ns,hconv,halike⟩ := @converts_names (names.take 20)
    (fun n hn => .inl (hbase n (List.mem_of_mem_take hn))) (s.garbage E)
  refine ⟨o,o',ho,ho',?_⟩
  have hlookup := @fatLookupPath_returns E hE fd path ns e s o' hg
    (fun c secs h => hfuel.scanned hg h) hlen (by rw [hpath,← List.map_take]; exact hconv)
    (halike.walk ho') hflags
  refine hlookup.mono fun r t ht => ht.2.2.expected_iff (ho.ne_noName (by simp)) ?_
  rw [ho.root_iff,ho'.root_iff]
  cases names <;> simp

/-! ### A deep tree -/

/-- The name `AA`. -/
def nameAA : ShortName where
  base := [0x41,0x41]
  ext := []
  base_pos := by decide
  base_le := by decide
  ext_le := by decide
  base_chars := by decide +kernel
  ext_chars := by decide +kernel

/-- Twenty directories `AA`, each in the one before it. -/
def deepTree : ℕ → Sector := fun b =>
  if b = 1 then Sector.ofBytes (List.replicate 44 0xFF)
  else if 2 ≤ b ∧ b ≤ 21 then Sector.ofBytes [0x41,0x41,0x20,0x20,0x20,0x20,0x20,0x20,0x20,0x20,0x20,0x10,
    0,0,0,0,0,0,0,0,0,0,0,0,0,0,UInt8.ofNat b,0]
  else Sector.zero

/-- `"/AA/AA/…"` -/
def deepPath (k : ℕ) : List UInt8 := (List.replicate k [0x2F,0x41,0x41]).flatten

theorem deepTree_chain {c : ℕ} (h : 2 ≤ c) (hc : c ≤ 21) : smallFat16.Chain deepTree c [c] := by
  have hmark : ∀ c ≤ 21, 2 ≤ c → smallFat16.next deepTree c = none ∧ smallFat16.InRange c := by
    decide +kernel
  obtain ⟨hnext,hrange⟩ := hmark c hc h
  exact ⟨.last hnext,fun d hd => List.mem_singleton.1 hd ▸ hrange⟩

/-- The directory at depth `k`. -/
def deepDir (k : ℕ) : ℕ := k + 1

theorem deepTree_blocks {k : ℕ} (hk : k ≤ 20) :
    smallFat16.DirBlocks deepTree (deepDir k) [k + 2] := by
  cases k with
  | zero => exact .fixed rfl
  | succ k =>
    have hblock : ∀ k ≤ 19, (List.range (smallFat16.span [k+2])).map (smallFat16.sectorAt [k+2]) = [k+3] := by
      decide +kernel
    have h := FatInfo.DirBlocks.chain (deepTree_chain (show 2 ≤ k + 2 by omega) (by omega))
    rw [hblock k (by omega)] at h
    exact h

theorem deepTree_search {k : ℕ} (hk : k ≤ 19) : searchBlocks nameAA.byte deepTree [k+2] = some (k+2,0) ∧
    ((deepTree (k+2)).dirent 0).isSubdir = true ∧
    smallFat16.first ((deepTree (k+2)).dirent 0) = deepDir (k+1) := by
  have h : ∀ k ≤ 19, searchBlocks nameAA.byte deepTree [k+2] = some (k+2,0) ∧
      ((deepTree (k+2)).dirent 0).isSubdir = true ∧
      smallFat16.first ((deepTree (k+2)).dirent 0) = deepDir (k+1) := by
    decide +kernel
  exact h k hk

/-- Only the first slot of a block is in use. -/
theorem deepTree_empty {k i : ℕ} (hk : k ≤ 20) (hi : i < 16) (h : ¬ (deepTree (k+2)).emptyAt i) :
    i = 0 ∧ k ≤ 19 := by
  have hslots : ∀ k ≤ 20, ∀ i < 16, ¬ (deepTree (k+2)).emptyAt i → i = 0 ∧ k ≤ 19 := by
    decide +kernel
  exact hslots k hk i hi h

theorem deepTree_isDir {c : ℕ} (h : smallFat16.IsDir deepTree c) : ∃ k ≤ 20, c = deepDir k := by
  induction h with
  | root => exact ⟨0,by decide,rfl⟩
  | sub parent blocks search dir ih =>
    obtain ⟨k,hk,rfl⟩ := ih
    obtain rfl := blocks.unique (deepTree_blocks hk)
    obtain ⟨hb,hi,hne,-⟩ := searchBlocks_some search
    obtain rfl := List.mem_singleton.1 hb
    obtain ⟨rfl,hk'⟩ := deepTree_empty hk hi hne
    exact ⟨k+1,by omega,(deepTree_search hk').2.2⟩

theorem deepTree_wellFormed : smallFat16.WellFormedDirs deepTree := by
  intro c hc
  obtain ⟨k,hk,rfl⟩ := deepTree_isDir hc
  have hempty : ∀ k ≤ 20, (deepTree (k+2)).emptyAt 1 := by decide +kernel
  exact ⟨_,deepTree_blocks hk,k+2,by simp,1,by decide,hempty k hk⟩

/-- From depth `k` the path `AA/AA/…` with one more element than there are directories leads to the
last one and misses there. -/
theorem deepTree_walk {k m : ℕ} (h : k + m = 20) : Walk smallFat16 deepTree (smallFat16.DirBlocks deepTree)
    (deepDir k) (List.replicate (m+1) (some nameAA.byte)) (.missing (deepDir 20)) := by
  induction m generalizing k with
  | zero =>
    obtain rfl : k = 20 := by omega
    exact .missing (deepTree_blocks le_rfl) (by decide +kernel)
  | succ m ih =>
    obtain ⟨hs,hd,hfirst⟩ := deepTree_search (show k ≤ 19 by omega)
    refine .down (deepTree_blocks (by omega)) hs hd ?_
    rw [hfirst]
    exact ih (by omega)

/-- The deep tree after mounting, with descriptor 0 taken. -/
def deepState : FatState :=
  (FatState.mounted smallFat16 300 deepTree).setFile 0 { FileS.closed with flags := .justOpen }

theorem env_calm_noFault (now : ℕ → ℤ) (fuel : ℕ) : (Env.calm now fuel).NoFault :=
  ⟨fun _ => rfl,fun _ => rfl,fun _ => rfl⟩

/-- Two elements. -/
theorem lookup_expected_two : let E := Env.calm (fun _ => 90) 9000
    ∃ o o', Walk smallFat16 deepTree (smallFat16.DirBlocks deepTree) 1 [some nameAA.byte,some nameAA.byte] o ∧
      Walk smallFat16 deepTree (smallFat16.Scanned deepTree) 1 [nameAA.name,nameAA.name] o' ∧
      (fatLookupPath E 0 (deepPath 2) 0).Returns deepState fun r t =>
        o.Expected smallFat16 deepTree r (t.fileNum 0) ↔ o'.report = o.report :=
  @lookup_expected_iff (Env.calm (fun _ => 90) 9000) (env_calm_noFault _ _) 0 (deepPath 2) [nameAA,nameAA] 0
    deepState smallFat16_valid (by decide) (by decide) (by decide) (by decide) deepTree_wellFormed (by decide)

/-- Of twenty-one elements the last is missing, and the lookup succeeds. -/
theorem lookup_drops_element : let E := Env.calm (fun _ => 90) 9000
    (deepPath 21).length ≤ 99 ∧ pathElements (deepPath 21) = List.replicate 21 nameAA.text ∧
    smallFat16.WellFormedDirs deepTree ∧
    ∃ r t, fatLookupPath E 0 (deepPath 21) 0 deepState = .ok (r,t) ∧
      ∃ o, Walk smallFat16 deepTree (smallFat16.DirBlocks deepTree) 1
        (List.replicate 21 (some nameAA.byte)) o ∧ ¬ o.Expected smallFat16 deepTree r (t.fileNum 0) := by
  intro E
  have hrun : Prog.test (fatLookupPath E 0 (deepPath 21) 0) deepState (fun r _ => r == (0,0)) = true := by
    decide +kernel
  obtain ⟨r,t,hlookup,hr⟩ := ok_of_test hrun
  refine ⟨by decide,by decide,deepTree_wellFormed,r,t,hlookup,_,deepTree_walk (k := 0) rfl,fun hexp => ?_⟩
  have hmissing : r = (-1,eNoent) := hexp
  rw [hmissing] at hr
  exact absurd hr (by decide)

end Gristle
