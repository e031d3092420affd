import Gristle.Directory

/-! Searching a directory for a name: what the code's scan finds is the first match among the slots
before the first empty one. -/
namespace Gristle
open Prog

/-! ### The slots of a block -/

/-- Slot `i` of a block is empty. -/
def Sector.emptyAt (b : Sector) (i : ℕ) : Prop := b.get (32*i) = 0

/-- Slot `i` of a block carries the eleven bytes of a name. -/
def Sector.carries (b : Sector) (name : ℕ → UInt8) (i : ℕ) : Prop :=
  strncmpEq name (fun k => b.get (32*i + k)) 11 0 = true

instance (b : Sector) (i : ℕ) : Decidable (b.emptyAt i) := inferInstanceAs (Decidable (_ = _))
instance (b : Sector) (name : ℕ → UInt8) (i : ℕ) : Decidable (b.carries name i) :=
  inferInstanceAs (Decidable (_ = _))

theorem strncmpEq_congr {a b c : ℕ → UInt8} {n i : ℕ} (h : ∀ k, i ≤ k → k < i + n → a k = b k) :
    strncmpEq a c n i = strncmpEq b c n i := by
  induction n generalizing i with
  | zero => rfl
  | succ n ih =>
    rw [strncmpEq,strncmpEq,h i le_rfl (by omega),ih fun k hk hlt => h k (by omega) (by omega)]

/-- What the search of a block finds. -/
theorem searchSlots_cases (name : ℕ → UInt8) (b : Sector) (n i : ℕ) :
    match searchSlots name b n i with
    | .last => ∃ k, i ≤ k ∧ k < i + n ∧ b.emptyAt k ∧
        ∀ j, i ≤ j → j < k → ¬ b.emptyAt j ∧ ¬ b.carries name j
    | .found k => i ≤ k ∧ k < i + n ∧ ¬ b.emptyAt k ∧ b.carries name k ∧
        ∀ j, i ≤ j → j < k → ¬ b.emptyAt j ∧ ¬ b.carries name j
    | .absent => ∀ j, i ≤ j → j < i + n → ¬ b.emptyAt j ∧ ¬ b.carries name j := by
  induction n generalizing i with
  | zero => exact fun j _ _ => by omega
  | succ n ih =>
    rw [searchSlots]
    by_cases hempty : b.emptyAt i
    · rw [if_pos (show b.get (32*i) = 0 from hempty)]
      exact ⟨i,le_rfl,by omega,hempty,fun j _ _ => by omega⟩
    rw [if_neg (show ¬ b.get (32*i) = 0 from hempty)]
    by_cases hcarries : b.carries name i
    · rw [if_pos (show strncmpEq name _ 11 0 = true from hcarries)]
      exact ⟨le_rfl,by omega,hempty,hcarries,fun j _ _ => by omega⟩
    rw [if_neg (show ¬ strncmpEq name _ 11 0 = true from hcarries)]
    have hstep {m : ℕ} (h : ∀ j, i + 1 ≤ j → j < m → ¬ b.emptyAt j ∧ ¬ b.carries name j) (j : ℕ)
        (hj : i ≤ j) (hlt : j < m) : ¬ b.emptyAt j ∧ ¬ b.carries name j := by
      rcases Nat.eq_or_lt_of_le hj with rfl | hj
      · exact ⟨hempty,hcarries⟩
      · exact h j hj hlt
    have h := ih (i+1)
    cases hs : searchSlots name b n (i+1) <;> simp only [hs] at h
    · obtain ⟨k,hk,hlt,he,hbefore⟩ := h
      exact ⟨k,by omega,by omega,he,hstep hbefore⟩
    · obtain ⟨hk,hlt,he,hc,hbefore⟩ := h
      exact ⟨by omega,by omega,he,hc,hstep hbefore⟩
    · exact fun j hj hlt => hstep h j hj (by omega)

theorem searchSlots_congr {name name' : ℕ → UInt8} {b : Sector} {n i : ℕ}
    (h : ∀ k < 11, name k = name' k) : searchSlots name b n i = searchSlots name' b n i := by
  induction n generalizing i with
  | zero => rfl
  | succ n ih =>
    have hcmp := @strncmpEq_congr name name' (fun k => b.get (32*i + k)) 11 0
      fun k _ hk => h k (by omega)
    rw [searchSlots,searchSlots,hcmp,ih]

/-! ### The blocks of a directory -/

/-- The block and the slot a search finds among these blocks. -/
def searchBlocks (name : ℕ → UInt8) (B : ℕ → Sector) : List ℕ → Option (ℕ × ℕ)
  | [] => none
  | b :: bs => match searchSlots name (B b) 16 0 with
    | .last => none
    | .found i => some (b,i)
    | .absent => searchBlocks name B bs

theorem searchBlocks_congr {name name' : ℕ → UInt8} {B : ℕ → Sector} {secs : List ℕ}
    (h : ∀ k < 11, name k = name' k) : searchBlocks name B secs = searchBlocks name' B secs := by
  induction secs with
  | nil => rfl
  | cons b bs ih => rw [searchBlocks,searchBlocks,searchSlots_congr h,ih]

theorem searchBlocks_some {name : ℕ → UInt8} {B : ℕ → Sector} {secs : List ℕ} {b i : ℕ}
    (h : searchBlocks name B secs = some (b,i)) :
    b ∈ secs ∧ i < 16 ∧ ¬ (B b).emptyAt i ∧ (B b).carries name i := by
  induction secs with
  | nil => simp [searchBlocks] at h
  | cons b' bs ih =>
    have hcases := searchSlots_cases name (B b') 16 0
    rw [searchBlocks] at h
    cases hs : searchSlots name (B b') 16 0 <;> simp only [hs] at h hcases
    · exact absurd h (by simp)
    · obtain ⟨rfl,rfl⟩ := Prod.mk.inj (Option.some.inj h)
      exact ⟨by simp,by omega,hcases.2.2.1,hcases.2.2.2.1⟩
    · obtain ⟨hb,hrest⟩ := ih h
      exact ⟨by simp [hb],hrest⟩

/-! ### The scan -/

section NoFault
variable {E : Env} (hE : E.NoFault)
include hE

/-- The loop of `fat_lookup_path` over the slots of a directory. -/
theorem scanLoop_returns {fd : Fd} {name : DosName} {n : ℕ} {s : FatState} {c q : ℕ} {secs : List ℕ}
    (hg : s.fatfs.Valid s.dev.size) (h : s.fatfs.Scanned s.dev.blocks c secs)
    (hstands : (s.fileNum fd).Stands s.fatfs s.dev.blocks c q)
    (hload : (s.fileNum fd).Loaded s.dev.blocks) (hclean : (s.fileNum fd).flags.dirty = false)
    (hwrite : (s.fileNum fd).flags.write = false) (hn : secs.length ≤ n + q) :
    (scanLoop E fd name n).Returns s fun o t => After fd s t s.dev.blocks (t.fileNum fd) ∧
      (t.fileNum fd).still = (s.fileNum fd).still ∧ (t.fileNum fd).flags = (s.fileNum fd).flags ∧
      o = (searchBlocks name.byte s.dev.blocks (secs.drop q)).map Prod.snd ∧
      ∀ b i, searchBlocks name.byte s.dev.blocks (secs.drop q) = some (b,i) →
        (t.fileNum fd).sector = b ∧ (t.fileNum fd).Loaded s.dev.blocks := by
  induction n generalizing s q with
  | zero =>
    have := (h.stands hg hstands).1
    omega
  | succ n ih =>
    obtain ⟨hq,hsector⟩ := h.stands hg hstands
    have hdrop : secs.drop q = (s.fileNum fd).sector :: secs.drop (q+1) := by
      rw [List.drop_eq_getElem_cons hq,← hsector,List.getD_eq_getElem _ _ hq]
    have hload' : (s.fileNum fd).buffer = s.dev.blocks (s.fileNum fd).sector := hload
    rw [scanLoop,hdrop,searchBlocks]
    refine returns_file ?_
    rw [hload']
    cases hs : searchSlots name.byte (s.dev.blocks (s.fileNum fd).sector) 16 0 with
    | last => exact returns_pure ⟨After.refl s,rfl,rfl,rfl,fun b i h => absurd h (by simp)⟩
    | found i =>
      refine returns_pure ⟨After.refl s,rfl,rfl,rfl,fun b j h => ?_⟩
      obtain ⟨rfl,rfl⟩ := Prod.mk.inj (Option.some.inj h)
      exact ⟨rfl,hload⟩
    | absent =>
      refine (fatNextSectorWith_scanned hE hg h hstands hclean (.inr hwrite)).bind fun failed t ht => ?_
      obtain ⟨ha,hstill,hflags,hnext⟩ := ht
      by_cases hin : q + 1 < secs.length
      · rw [if_pos hin] at hnext
        obtain ⟨rfl,hst,hl,-⟩ := hnext
        refine returns_ite (by simp) fun _ => ?_
        have hrest := @ih t (q+1) (by rw [ha.fatfs,ha.size]; exact hg)
          (by rw [ha.fatfs,ha.blocks]; exact h) (by rw [ha.fatfs,ha.blocks]; exact hst)
          (by rw [ha.blocks]; exact hl) (by rw [hflags]; exact hclean)
          (by rw [hflags]; exact hwrite) (by omega)
        rw [ha.blocks] at hrest
        refine hrest.mono fun o u hu => ?_
        obtain ⟨hau,hstillu,hflagsu,hfound⟩ := hu
        exact ⟨ha.trans hau,hstillu.trans hstill,hflagsu.trans hflags,hfound⟩
      · rw [if_neg hin] at hnext
        subst hnext
        refine returns_ite (fun _ => ?_) (by simp)
        rw [List.drop_eq_nil_of_le (by omega)]
        exact returns_pure ⟨ha,hstill,hflags,rfl,fun b i h => absurd h (by simp [searchBlocks])⟩

/-- The scan of a whole directory that does not have the name. -/
theorem scanLoop_none {fd : Fd} {name : DosName} {s : FatState} {c : ℕ} {secs : List ℕ}
    (hg : s.fatfs.Valid s.dev.size) (h : s.fatfs.Scanned s.dev.blocks c secs)
    (hstands : (s.fileNum fd).Stands s.fatfs s.dev.blocks c 0)
    (hload : (s.fileNum fd).Loaded s.dev.blocks) (hflags : (s.fileNum fd).flags = .justOpen)
    (hn : secs.length ≤ E.fuel) (hs : searchBlocks name.byte s.dev.blocks secs = none) :
    (scanLoop E fd name E.fuel).Returns s fun o t => o = none ∧
      After fd s t s.dev.blocks (t.fileNum fd) ∧ (t.fileNum fd).still = (s.fileNum fd).still ∧
      (t.fileNum fd).flags = .justOpen := by
  have hscan := @scanLoop_returns E hE fd name E.fuel s c 0 secs hg h hstands hload (by rw [hflags]; rfl)
    (by rw [hflags]; rfl) hn
  rw [List.drop_zero,hs] at hscan
  exact hscan.mono fun o t ht => ⟨ht.2.2.2.1,ht.1,ht.2.1,ht.2.2.1.trans hflags⟩

/-- The scan of a whole directory that has it. -/
theorem scanLoop_some {fd : Fd} {name : DosName} {s : FatState} {c b i : ℕ} {secs : List ℕ}
    (hg : s.fatfs.Valid s.dev.size) (h : s.fatfs.Scanned s.dev.blocks c secs)
    (hstands : (s.fileNum fd).Stands s.fatfs s.dev.blocks c 0)
    (hload : (s.fileNum fd).Loaded s.dev.blocks) (hflags : (s.fileNum fd).flags = .justOpen)
    (hn : secs.length ≤ E.fuel) (hs : searchBlocks name.byte s.dev.blocks secs = some (b,i)) :
    (scanLoop E fd name E.fuel).Returns s fun o t => o = some i ∧
      After fd s t s.dev.blocks (t.fileNum fd) ∧ (t.fileNum fd).still = (s.fileNum fd).still ∧
      (t.fileNum fd).flags = .justOpen ∧ (t.fileNum fd).sector = b ∧
      (t.fileNum fd).buffer = s.dev.blocks b := by
  have hscan := @scanLoop_returns E hE fd name E.fuel s c 0 secs hg h hstands hload (by rw [hflags]; rfl)
    (by rw [hflags]; rfl) hn
  rw [List.drop_zero,hs] at hscan
  refine hscan.mono fun o t ht => ?_
  obtain ⟨ha,hstill,hfl,ho,hfound⟩ := ht
  obtain ⟨rfl,hl⟩ := hfound b i rfl
  exact ⟨ho,ha,hstill,hfl.trans hflags,rfl,hl⟩

end NoFault

end Gristle
