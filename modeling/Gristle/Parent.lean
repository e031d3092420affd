import Gristle.Consistent
import Gristle.Aliasing
import Gristle.Open

/-! Parent navigation: where a path leads that goes down into a directory and on with `..`. -/
namespace Gristle
open Prog

/-! ### Walks that go on -/

section Walks
variable {g : FatInfo} {B : ℕ → Sector} {D : ℕ → List ℕ → Prop} {c p b i : ℕ}
  {names : List (Option (ℕ → UInt8))}

/-- All elements up to the one that is found are names. -/
theorem Walk.names_some {o : Outcome} (h : Walk g B D c names o) (ho : o = .entry p b i) : none ∉ names := by
  induction h with
  | entry => simp
  | down _ _ _ _ ih => simpa using ih ho
  | root | noName | missing | badPath | notDir => simp at ho

/-- A walk ends in a slot of the directory it names. -/
theorem Walk.last {o : Outcome} (h : Walk g B D c names o) (ho : o = .entry p b i) :
    ∃ secs n, D p secs ∧ searchBlocks n B secs = some (b,i) := by
  induction h with
  | entry hb hs =>
    cases ho
    exact ⟨_,_,hb,hs⟩
  | down _ _ _ _ ih => exact ih ho
  | root | noName | missing | badPath | notDir => simp at ho

/-- A walk to a subdirectory goes on in that. -/
theorem Walk.snoc {o o' : Outcome} {n : ℕ → UInt8} (h : Walk g B D c names o) (ho : o = .entry p b i)
    (hdir : ((B b).dirent i).isSubdir = true) (h' : Walk g B D (g.first ((B b).dirent i)) [some n] o') :
    Walk g B D c (names ++ [some n]) o' := by
  induction h with
  | entry hb hs =>
    cases ho
    exact .down hb hs hdir h'
  | down hb hs hd _ ih => exact .down hb hs hd (ih ho)
  | root | noName | missing | badPath | notDir => simp at ho

/-- A walk that misses an element misses it on every longer path. -/
theorem Walk.fail {o : Outcome} {n : Option (ℕ → UInt8)} (h : Walk g B D c names o)
    (ho : o = .badPath ∨ ∃ q, o = .missing q) : Walk g B D c (names ++ [n]) .badPath := by
  induction h with
  | missing hb hs => exact .badPath hb hs
  | badPath hb hs => exact .badPath hb hs
  | down hb hs hd _ ih => exact .down hb hs hd (ih ho)
  | root | noName | entry | notDir => simp at ho

/-- The directory in which a walk ends is where its elements but the last lead. -/
theorem Walk.init {n : Option (ℕ → UInt8)} {o : Outcome} (h : Walk g B D c (names ++ [n]) o)
    (ho : o = .entry p b i) : names = [] ∧ c = p ∨
      ∃ p' b' i', Walk g B D c names (.entry p' b' i') ∧ ((B b').dirent i').isSubdir = true ∧
        g.first ((B b').dirent i') = p := by
  induction names generalizing c with
  | nil =>
    cases h with
    | entry => exact .inl ⟨rfl,by cases ho; rfl⟩
    | noName | missing => simp at ho
  | cons m names ih =>
    right
    cases names with
    | nil =>
      cases h with
      | down hb hs hd tail =>
        rcases ih tail with ⟨-,rfl⟩ | ⟨p',b',i',h',-⟩
        · exact ⟨_,_,_,.entry hb hs,hd,rfl⟩
        · cases h'
      | noName | badPath | notDir => simp at ho
    | cons m' names =>
      cases h with
      | down hb hs hd tail =>
        rcases ih tail with ⟨h',-⟩ | ⟨p',b',i',h',hd',hf⟩
        · simp at h'
        · exact ⟨p',b',i',.down hb hs hd h',hd',hf⟩
      | noName | badPath | notDir => simp at ho

/-- The blocks the driver scans hold no other entry in front of one that is there. -/
theorem FatInfo.Scanned.search_some {secs secs' : List ℕ} (h : g.Scanned B c secs') (hd : g.DirBlocks B c secs)
    {n : ℕ → UInt8} (hs : searchBlocks n B secs = some (b,i)) :
    searchBlocks n B secs' = some (b,i) ∨ searchBlocks n B secs' = none := by
  cases hd with
  | chain hcs =>
    obtain rfl := h.unique (.chain hcs)
    exact .inl hs
  | fixed h16 =>
    obtain rfl := h.unique (.fixed h16)
    rcases Nat.le_total g.rootLen (u8 g.rootLen + 1) with hle | hle
    · obtain ⟨k,hk⟩ := Nat.exists_eq_add_of_le hle
      rw [hk,List.range_add,List.map_append]
      exact .inl (FatInfo.searchBlocks_append hs)
    · obtain ⟨k,hk⟩ := Nat.exists_eq_add_of_le hle
      cases hs' : searchBlocks n B ((List.range (u8 g.rootLen + 1)).map (g.rootStart + ·)) with
      | none => exact .inr rfl
      | some x =>
        left
        rw [hk,List.range_add,List.map_append,FatInfo.searchBlocks_append hs'] at hs
        exact hs

/-- The driver finds the entry a path names, or misses an element. -/
theorem Walk.scan {o : Outcome} (h : Walk g B (g.DirBlocks B) c names o) (ho : o = .entry p b i) :
    ∃ o', Walk g B (g.Scanned B) c names o' ∧ (o' = .entry p b i ∨ o' = .badPath ∨ ∃ q, o' = .missing q) := by
  induction h with
  | entry hb hs =>
    cases ho
    obtain ⟨secs',hb'⟩ := hb.scanned
    rcases hb'.search_some hb hs with hs' | hs'
    · exact ⟨_,.entry hb' hs',.inl rfl⟩
    · exact ⟨_,.missing hb' hs',.inr (.inr ⟨_,rfl⟩)⟩
  | down hb hs hd _ ih =>
    obtain ⟨secs',hb'⟩ := hb.scanned
    rcases hb'.search_some hb hs with hs' | hs'
    · obtain ⟨o',h',ho'⟩ := ih ho
      exact ⟨o',.down hb' hs' hd h',ho'⟩
    · exact ⟨_,.badPath hb' hs',.inr (.inl rfl)⟩
  | root | noName | missing | badPath | notDir => simp at ho

/-! ### Elements that go on -/

theorem Converts.append {d : DosName} {l : List (List UInt8)} {e : List UInt8} {ns : List (Option DosName)}
    (h : Converts d (l ++ [e]) ns) : ∃ ms m, ns = ms ++ [m] ∧ Converts d l ms := by
  induction l generalizing d ns with
  | nil =>
    cases h with
    | @cons _ n _ _ ns _ tail =>
      cases tail
      exact ⟨[],some n,rfl,.nil⟩
    | @stop _ _ _ ns _ hlen =>
      obtain rfl := List.length_eq_zero_iff.1 hlen
      exact ⟨[],none,rfl,.nil⟩
  | cons a l ih =>
    cases h with
    | @cons _ n _ _ ns head tail =>
      obtain ⟨ms,m,rfl,hms⟩ := ih tail
      exact ⟨some n :: ms,m,rfl,.cons head hms⟩
    | @stop _ _ _ ns head hlen =>
      have hlen : ns.length = (l ++ [e]).length := hlen
      rw [List.length_append,List.length_singleton] at hlen
      have hne : ns ≠ [] := List.length_pos_iff.1 (by omega)
      refine ⟨none :: ns.dropLast,ns.getLast hne,?_,.stop head (by rw [List.length_dropLast]; omega)⟩
      rw [List.cons_append,List.dropLast_append_getLast]

theorem Converts.snoc {d : DosName} {l : List (List UInt8)} {e : List UInt8} {ns : List (Option DosName)}
    {n : ℕ → UInt8} (h : Converts d l ns) (hsome : none ∉ ns)
    (he : ∀ d, ∃ d', convertElement d e = .ok (some d') ∧ ∀ j < 11, d'.byte j = n j) :
    ∃ d', Converts d (l ++ [e]) (ns ++ [some d']) ∧ ∀ j < 11, d'.byte j = n j := by
  induction h with
  | nil =>
    obtain ⟨d',hd,hn⟩ := he _
    exact ⟨d',.cons hd .nil,hn⟩
  | cons head _ ih =>
    obtain ⟨d',hd,hn⟩ := ih (by simpa using hsome)
    exact ⟨d',.cons head hd,hn⟩
  | stop => simp at hsome

end Walks

/-! ### Opening a path -/

/-- `fat_open` for reading succeeds on the path, with a descriptor like this. -/
def Opens (E : Env) (s : FatState) (path : List UInt8) (P : FileS → Prop) : Prop :=
  ∃ (fd : Fd) (e : ℤ) (t : FatState), fatOpen E path oRdonly 0 0 s = .ok (((fd.val : ℤ),e),t) ∧ P (t.fileNum fd)

section Opening
variable {E : Env} {s : FatState} {path : List UInt8} {P : FileS → Prop}

/-- The descriptor that is handed out is the one the lookup leaves, but for its flags. -/
theorem Opens.lookup (h : Opens E s path P) : ∃ fd e u, fatLookupPath E fd path 0 (s.taken fd) = .ok ((0,e),u) ∧
    ∃ flags, P { u.fileNum fd with flags := flags, fileSector := 0 } := by
  obtain ⟨r,e,t,hrun,hp⟩ := h
  obtain ⟨e₁,u,hlookup,hafter⟩ := fatOpen_reading ⟨rfl,rfl⟩ rfl hrun
  rw [hafter.file] at hp
  exact ⟨r,e₁,u,hlookup,_,hp⟩

/-- Opening a path leads where a walk leads. -/
theorem Opens.walk (hE : E.NoFault) (hg : s.fatfs.Valid s.dev.size) (hfuel : E.Ample s.fatfs) (hlen : path.length ≤ 99)
    {names : List (Option DosName)} {o : Outcome} (hconv : Converts (s.garbage E) ((pathElements path).take 20) names)
    (hwalk : Walk s.fatfs s.dev.blocks (s.fatfs.Scanned s.dev.blocks) s.fatfs.rootCluster (nameBytes names) o)
    (h : Opens E s path P) : ∃ f, P f ∧ (o = .root ∧ f.fullFirstCluster = s.fatfs.rootCluster ∨
      ∃ p b i, o = .entry p b i ∧ f.fullFirstCluster = s.fatfs.first ((s.dev.blocks b).dirent i)) := by
  obtain ⟨fd,e,u,hlookup,flags,hp⟩ := h.lookup
  have hret := @fatLookupPath_returns E hE fd path names 0 (s.taken fd) o hg (fun c secs h => hfuel.scanned hg h)
    hlen hconv hwalk (by rw [FatState.taken,FatState.setFile_self])
  obtain ⟨-,-,hrep⟩ := hret.of_ok hlookup
  refine ⟨_,hp,?_⟩
  cases o with
  | root => exact .inl ⟨rfl,hrep.2.first⟩
  | entry p b i => exact .inr ⟨p,b,i,rfl,hrep.2.first⟩
  | missing => exact absurd (congrArg Prod.fst hrep.1) (by simp)
  | badPath | notDir | noName => exact absurd (congrArg Prod.fst hrep) (by simp)

end Opening

/-! ### The elements of a longer path -/

theorem pathElements_cons {c : UInt8} {cs : List UInt8} (hc : c ≠ chSlash) : pathElements (c :: cs) =
    match cs with
    | [] => [[c]]
    | d :: _ => if d = chSlash then [c] :: pathElements cs else match pathElements cs with
      | e :: es => (c :: e) :: es
      | [] => [[c]] := by
  rw [pathElements.eq_def]
  simp only [if_neg hc] <;> cases cs <;> rfl

theorem pathElements_slash (cs : List UInt8) : pathElements (chSlash :: cs) = pathElements cs := by
  rw [pathElements.eq_def]
  simp only [if_pos]

theorem pathElements_ne_nil {c : UInt8} {cs : List UInt8} (hc : c ≠ chSlash) : pathElements (c :: cs) ≠ [] := by
  rw [pathElements_cons hc]
  cases cs with
  | nil => simp
  | cons d cs =>
    dsimp only
    split
    · simp
    · split <;> simp

theorem pathElements_name {c : List UInt8} (hne : c ≠ []) (hc : chSlash ∉ c) : pathElements c = [c] := by
  induction c with
  | nil => exact absurd rfl hne
  | cons a c ih =>
    obtain ⟨ha,hc⟩ := not_or.1 (mt List.mem_cons.2 hc)
    rw [pathElements_cons (Ne.symm ha)]
    cases c with
    | nil => rfl
    | cons b c =>
      have hb : b ≠ chSlash := fun h => hc (by simp [h])
      simp only [if_neg hb,ih (by simp) hc]

theorem pathElements_join (q r : List UInt8) : pathElements (q ++ chSlash :: r) = pathElements q ++ pathElements r := by
  induction q with
  | nil => exact pathElements_slash r
  | cons a q ih =>
    rw [List.cons_append]
    by_cases ha : a = chSlash
    · subst ha
      rw [pathElements_slash,ih,pathElements_slash]
    · rw [pathElements_cons ha,pathElements_cons ha]
      cases q with
      | nil =>
        rw [List.nil_append] at ih ⊢
        dsimp only
        rw [if_pos rfl,ih]
        rfl
      | cons b q =>
        rw [List.cons_append] at ih ⊢
        dsimp only
        rw [ih]
        by_cases hb : b = chSlash
        · rw [if_pos hb,if_pos hb]
          rfl
        · rw [if_neg hb,if_neg hb]
          obtain ⟨e,es,he⟩ := List.exists_cons_of_ne_nil (@pathElements_ne_nil b q hb)
          rw [he]
          rfl

/-! ### `..` -/

/-- `..` -/
abbrev dotDot : List UInt8 := [chDot,chDot]

/-- `q/r` -/
def joinPath (q r : List UInt8) : List UInt8 := q ++ chSlash :: r

/-- Each subdirectory starts with an entry `.` that leads to it and an entry `..` that leads to the
directory it is in. -/
def FatInfo.Dotted (g : FatInfo) (B : ℕ → Sector) : Prop :=
  ∀ p b i secs secs', g.LiveDir B p → g.DirBlocks B p secs → (b,i) ∈ live B secs →
    ((B b).dirent i).isSubdir = true → g.DirBlocks B (((B b).dirent i).cluster g) secs' →
    ∃ b₀ rest, secs' = b₀ :: rest ∧
      (∀ j < 11, (B b₀).get j = [chDot].getD j chSpace) ∧ ((B b₀).dirent 0).isSubdir = true ∧
      g.first ((B b₀).dirent 0) = ((B b).dirent i).cluster g ∧
      (∀ j < 11, (B b₀).get (32 + j) = dotDot.getD j chSpace) ∧ ((B b₀).dirent 1).isSubdir = true ∧
      g.first ((B b₀).dirent 1) = p

/-- Going down into `c` and up again leads back: `q/c/..` opens the directory `q` opens, and every path
`q/c/../r` the entry `q/r` opens. -/
structure Navigates (E : Env) (s : FatState) (q c : List UInt8) : Prop where
  up : ∃ F, Opens E s (joinPath (joinPath q c) dotDot) (fun f => f.fullFirstCluster = F) ∧
    Opens E s q fun f => f.fullFirstCluster = F
  through : ∀ r b i, Opens E s (joinPath (joinPath (joinPath q c) dotDot) r)
      (fun f => f.entrySector = b ∧ f.entryNumber = i) ↔
    Opens E s (joinPath q r) fun f => f.entrySector = b ∧ f.entryNumber = i

/-- `..` is converted to the bytes of the entry `.`. -/
theorem convertElement_dotDot (d : DosName) :
    ∃ d', convertElement d dotDot = .ok (some d') ∧ ∀ j < 11, d'.byte j = [chDot].getD j chSpace := by
  have hconv := Element.convertElement_eq (e := dotDot) (by decide) (by decide) d
  rw [if_pos (by decide +kernel)] at hconv
  obtain ⟨d',hrun,hbytes⟩ := hconv
  refine ⟨d',hrun,fun j hj => ?_⟩
  rw [hbytes j hj,show Element.cut (Element.pieces dotDot) = ([],some []) by decide]
  change (if j < 8 then Element.padded [chDot] j else chSpace) = _
  revert j
  decide

theorem strncmpEq_of_eq {a b : ℕ → UInt8} {n i : ℕ} (h : ∀ k, i ≤ k → k < i + n → a k = b k) :
    strncmpEq a b n i = true := by
  induction n generalizing i with
  | zero => rfl
  | succ n ih =>
    rw [strncmpEq,if_neg (not_not.2 (h i le_rfl (by omega)))]
    split
    · rfl
    · exact ih fun k hk hlt => h k (by omega) (by omega)

/-- The first slot of a subdirectory is found under the name `.`. -/
theorem searchBlocks_dot {B : ℕ → Sector} {b₀ : ℕ} {rest : List ℕ} {n : ℕ → UInt8}
    (hn : ∀ j < 11, n j = [chDot].getD j chSpace) (h : ∀ j < 11, (B b₀).get j = [chDot].getD j chSpace) :
    searchBlocks n B (b₀ :: rest) = some (b₀,0) := by
  have hempty : (B b₀).get (32*0) ≠ 0 := by
    rw [h 0 (by omega)]
    decide
  have hcmp : strncmpEq n (fun k => (B b₀).get (32*0 + k)) 11 0 = true :=
    strncmpEq_of_eq fun k _ hk => by rw [hn k (by omega),Nat.mul_zero,Nat.zero_add,h k (by omega)]
  rw [searchBlocks,searchSlots,if_neg hempty,if_pos hcmp]

/-- A path that goes down and up again never leads back: `q/c/..` opens `c`. -/
theorem not_navigates {E : Env} (hE : E.NoFault) {s : FatState} {q c : List UInt8}
    {names : List (Option DosName)} {p b i : ℕ} {secs : List ℕ} (hg : s.fatfs.Valid s.dev.size)
    (hfuel : E.Ample s.fatfs) (hcons : s.fatfs.Consistent s.dev.blocks) (hdots : s.fatfs.Dotted s.dev.blocks)
    (hne : c ≠ []) (hslash : chSlash ∉ c) (hlen : (joinPath (joinPath q c) dotDot).length ≤ 99)
    (hdepth : (pathElements (joinPath (joinPath q c) dotDot)).length ≤ 20)
    (hconv : Converts (s.garbage E) (pathElements (joinPath q c)) names)
    (hwalk : Walk s.fatfs s.dev.blocks (s.fatfs.DirBlocks s.dev.blocks) s.fatfs.rootCluster (nameBytes names)
      (.entry p b i))
    (hparent : s.fatfs.LiveDir s.dev.blocks p) (hblocks : s.fatfs.DirBlocks s.dev.blocks p secs)
    (hslot : (b,i) ∈ live s.dev.blocks secs) (hdir : ((s.dev.blocks b).dirent i).isSubdir = true) :
    ¬ Navigates E s q c := by
  intro hnav
  set g := s.fatfs
  set B := s.dev.blocks
  have hsub := hcons.sub_ne hg hparent hblocks hslot hdir
  obtain ⟨cs,hcs⟩ := hcons.subdirs b i ⟨p,secs,hparent,hblocks,hslot⟩ hdir
  have hfirst : g.first ((B b).dirent i) = ((B b).dirent i).cluster g :=
    if_neg (by have := (hcs.inRange _ hcs.links.head_mem).1; omega)
  obtain ⟨b₀,rest,hrest,hdot,hdotdir,hdotfirst,-⟩ := hdots p b i secs _ hparent hblocks hslot hdir (.chain hcs)
  -- the elements of the three paths
  have hc := pathElements_name hne hslash
  have hqc : pathElements (joinPath q c) = pathElements q ++ [c] := by rw [joinPath,pathElements_join,hc]
  have hall : pathElements (joinPath (joinPath q c) dotDot) = pathElements (joinPath q c) ++ [dotDot] := by
    rw [joinPath,pathElements_join,pathElements_name (c := dotDot) (by decide) (by decide)]
  rw [hall] at hdepth
  simp only [List.length_append,List.length_singleton,hqc] at hdepth
  have hlenq : q.length ≤ 99 := by
    simp only [joinPath,List.length_append,List.length_cons] at hlen
    omega
  obtain ⟨F,hup,hopen⟩ := hnav.up
  have hsome : none ∉ names := fun h => hwalk.names_some rfl (List.mem_map.2 ⟨none,h,rfl⟩)
  have hF : F = g.first ((B b).dirent i) := by
    obtain ⟨d',hconv',hd'⟩ := hconv.snoc hsome convertElement_dotDot
    obtain ⟨o,ho,hcases⟩ := hwalk.scan rfl
    have htake : (pathElements (joinPath (joinPath q c) dotDot)).take 20 = pathElements (joinPath q c) ++ [dotDot] := by
      rw [hall,List.take_of_length_le]
      simp only [hqc,List.length_append,List.length_singleton]
      omega
    rw [← htake] at hconv'
    have hbytes : nameBytes (names ++ [some d']) = nameBytes names ++ [some d'.byte] := by simp [nameBytes]
    rcases hcases with rfl | hfail
    · have hlast : Walk g B (g.Scanned B) (g.first ((B b).dirent i)) [some d'.byte]
          (.entry (g.first ((B b).dirent i)) b₀ 0) := by
        rw [hfirst]
        exact .entry (.chain hcs) (hrest ▸ searchBlocks_dot hd' hdot)
      obtain ⟨f,hf,hor⟩ := hup.walk hE hg hfuel hlen hconv' (hbytes ▸ ho.snoc rfl hdir hlast)
      rcases hor with ⟨h,-⟩ | ⟨_,_,_,h,hff⟩
      · simp at h
      · obtain ⟨-,rfl,rfl⟩ := Outcome.entry.inj h
        rw [← hf,hff,hdotfirst,hfirst]
    · obtain ⟨f,-,hor⟩ := hup.walk hE hg hfuel hlen hconv' (hbytes ▸ ho.fail hfail)
      rcases hor with ⟨h,-⟩ | ⟨_,_,_,h,-⟩ <;> simp at h
  have hFp : F = p := by
    rw [hqc] at hconv
    obtain ⟨ms,m,rfl,hms⟩ := hconv.append
    have htake : (pathElements q).take 20 = pathElements q := List.take_of_length_le (by omega)
    rw [← htake] at hms
    have hbytes : nameBytes (ms ++ [m]) = nameBytes ms ++ [m.map DosName.byte] := by simp [nameBytes]
    rw [hbytes] at hwalk
    rcases hwalk.init rfl with ⟨hnil,hroot⟩ | ⟨p',b',i',hw,-,hp⟩
    · obtain ⟨f,hf,hor⟩ := hopen.walk hE hg hfuel hlenq hms (by rw [hnil]; exact .root)
      rcases hor with ⟨-,hff⟩ | ⟨_,_,_,h,-⟩
      · rw [← hf,hff]
        exact hroot
      · simp at h
    · obtain ⟨o,ho,hcases⟩ := hw.scan rfl
      obtain ⟨f,hf,hor⟩ := hopen.walk hE hg hfuel hlenq hms ho
      rcases hor with ⟨rfl,-⟩ | ⟨_,_,_,rfl,hff⟩
      · simp at hcases
      · rcases hcases with h | h
        · obtain ⟨-,rfl,rfl⟩ := Outcome.entry.inj h
          rw [← hf,hff]
          exact hp
        · simp at h
  exact hsub (hfirst.symm.trans (hF.symm.trans hFp))

/-! ### `/AA/..` -/

theorem smallTree_dotted : smallFat16.Dotted smallTree := by
  intro p b i secs secs' hp hblocks hslot hdir hsub
  have hlive := smallTree_slot ⟨p,secs,hp,hblocks,hslot⟩
  have hkinds : ∀ x ∈ [(2,0),(2,1),(2,2),(3,2)], ((smallTree x.1).dirent x.2).isSubdir = true → x.1 = 2 ∧
      (((smallTree x.1).dirent x.2).cluster smallFat16 = 2 ∨
        ((smallTree x.1).dirent x.2).cluster smallFat16 = 5) := by
    decide +kernel
  obtain ⟨rfl,hcluster⟩ : b = 2 ∧ _ := hkinds (b,i) hlive hdir
  dsimp only at hcluster
  have hroot : p = 1 :=
    smallTree_consistent.dir_eq smallFat16_valid hp .root hblocks smallTree_blocks.1
      (FatInfo.mem_live hslot).1 (by simp)
  subst hroot
  have hdots : ∀ c b₀, (c = 2 ∧ b₀ = 3 ∨ c = 5 ∧ b₀ = 6) →
      (∀ j < 11, (smallTree b₀).get j = [chDot].getD j chSpace) ∧ ((smallTree b₀).dirent 0).isSubdir = true ∧
      smallFat16.first ((smallTree b₀).dirent 0) = c ∧
      (∀ j < 11, (smallTree b₀).get (32 + j) = dotDot.getD j chSpace) ∧ ((smallTree b₀).dirent 1).isSubdir = true ∧
      smallFat16.first ((smallTree b₀).dirent 1) = 1 := by
    rintro c b₀ (⟨rfl,rfl⟩ | ⟨rfl,rfl⟩) <;> decide +kernel
  rcases hcluster with h | h <;> rw [h] at hsub ⊢
  · obtain rfl := hsub.unique smallTree_blocks.2.1
    exact ⟨3,[],rfl,hdots 2 3 (.inl ⟨rfl,rfl⟩)⟩
  · obtain rfl := hsub.unique smallTree_blocks.2.2
    exact ⟨6,[],rfl,hdots 5 6 (.inr ⟨rfl,rfl⟩)⟩

/-- The small volume after mounting. -/
def smallTreeState : FatState := .mounted smallFat16 300 smallTree

/-- `/AA` and back. -/
theorem not_navigates_aa : ¬ Navigates (Env.calm (fun _ => 90) 9000) smallTreeState [] [0x41,0x41] := by
  obtain ⟨ns,hconv,halike⟩ := @converts_names [nameAA] (by simp [ShortName.clear]; decide)
    (smallTreeState.garbage (Env.calm (fun _ => 90) 9000))
  have hwalk : Walk smallFat16 smallTree (smallFat16.DirBlocks smallTree) 1 [some nameAA.byte] (.entry 1 2 0) :=
    .entry smallTree_blocks.1 (by decide +kernel)
  exact not_navigates (env_calm_noFault _ _) smallFat16_valid (by decide) smallTree_consistent smallTree_dotted
    (by decide) (by decide) (by decide) (by decide) hconv (halike.walk hwalk) .root smallTree_blocks.1
    (by rw [show live smallTreeState.dev.blocks [2] = _ from smallTree_live.1]; simp) (by decide +kernel)

/-- From `/` down to `AA` and up again is the directory `AA` and not the root. -/
theorem slash_aa_not_navigates : smallFat16.Consistent smallTree ∧ smallFat16.Dotted smallTree ∧
    ¬ Navigates (Env.calm (fun _ => 90) 9000) smallTreeState [0x2F] [0x41,0x41] := by
  refine ⟨smallTree_consistent,smallTree_dotted,fun hnav => ?_⟩
  obtain ⟨F,⟨fd,e,t,hup,hF⟩,fd',e',t',hroot,hF'⟩ := hnav.up
  have hrun : Prog.test (fatOpen (Env.calm (fun _ => 90) 9000) (joinPath (joinPath [0x2F] [0x41,0x41]) dotDot)
      oRdonly 0 0) smallTreeState (fun r u => r == (0,0) && (u.fileNum 0).fullFirstCluster == 2) = true := by
    decide +kernel
  have hrun' : Prog.test (fatOpen (Env.calm (fun _ => 90) 9000) [0x2F] oRdonly 0 0)
      smallTreeState (fun r u => r == (0,0) && (u.fileNum 0).fullFirstCluster == 1) = true := by decide +kernel
  obtain ⟨r,u,h,hr⟩ := ok_of_test hrun
  obtain ⟨r',u',h',hr'⟩ := ok_of_test hrun'
  obtain ⟨rfl,rfl⟩ : ((fd.val : ℤ),e) = r ∧ t = u := by simpa [hup] using h
  obtain ⟨rfl,rfl⟩ : ((fd'.val : ℤ),e') = r' ∧ t' = u' := by simpa [hroot] using h'
  simp only [Bool.and_eq_true,beq_iff_eq,Prod.mk.injEq] at hr hr'
  obtain rfl : fd = 0 := by exact_mod_cast hr.1.1
  obtain rfl : fd' = 0 := by exact_mod_cast hr'.1.1
  rw [hr.2] at hF
  rw [hr'.2] at hF'
  omega

end Gristle
