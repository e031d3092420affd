import Gristle.Hosting

/-! Requests to a mounted volume, one after the other: the driver answers them as the file system does that the
volume holds, and the volume stays one that holds it. -/
namespace Gristle
open Prog

/-- The driver serves the file system `Φ`: the volume is mounted, loops have enough passes, and the state is the
one of `Φ`. -/
structure FatState.Serves (E : Env) (T : Tree (ℕ × ℕ)) (s : FatState) (Φ : FileSystem (ℕ × ℕ)) : Prop where
  mounted : s.fatfs.Mounted s.dev.size T
  ample : E.Ample s.fatfs
  hosts : s.Hosts T Φ

theorem SameBut.serves {E : Env} {T : Tree (ℕ × ℕ)} {fd : Fd} {s t : FatState} {Φ Φ' : FileSystem (ℕ × ℕ)}
    (h : SameBut fd s t) (hs : s.Serves E T Φ) (ht : t.Hosts T Φ') : t.Serves E T Φ' := by
  refine ⟨?_,?_,ht⟩
  · rw [h.fatfs,h.size]
    exact hs.mounted
  · rw [h.fatfs]
    exact hs.ample

/-! ### Calls on a descriptor -/

section Calls
variable {E : Env} {T : Tree (ℕ × ℕ)} {n : ℕ}

/-- Calls that do with an open descriptor what is done with its file, and refuse one that is closed. -/
theorem onFile_follows {α β ρ : Type} {bad : α} {bad' : β} {x : Fd → FatM β} {y : Prog OpenFile α}
    {S : β → α → Prop} {u : β → FatM ρ} {v : α → Prog (FileSystem (ℕ × ℕ)) ρ} (hS : S bad' bad)
    (hbad : ∀ fd s, (s.fileNum fd).flags.open_ = false → x fd s = .ok (bad',s))
    (hx : ∀ fd s cs o a o', E.Ample s.fatfs → s.fatfs.Mounted s.dev.size T → s.Carries fd cs o →
      y o = .ok (a,o') → (x fd).Returns s fun b t => S b a ∧ ∃ cs', Working fd s cs t cs' o')
    (huv : ∀ b a, S b a → Follows (FatState.Serves E T) (u b) (v a)) :
    Follows (FatState.Serves E T) (withFd n bad' x >>= u) (FileSystem.onFile n bad y >>= v) := by
  intro s Φ r Φ' h hrun
  obtain ⟨a,Ψ,hy,hv⟩ := bind_ok hrun
  have hrefused (hΨ : FileSystem.onFile n bad y Φ = .ok (bad,Φ)) (hx : withFd n bad' x s = .ok (bad',s)) :
      (withFd n bad' x >>= u).Returns s fun b t => b = r ∧ t.Serves E T Φ' := by
    obtain ⟨rfl,rfl⟩ : bad = a ∧ Φ = Ψ := by simpa [hΨ] using hy
    exact returns_bind_of_ok hx (huv bad' bad hS s Φ r Φ' h hv)
  rw [FileSystem.onFile] at hy hrefused
  by_cases hn : n < maxOpenFiles
  · rw [withFd,dif_pos hn] at hrefused ⊢
    cases htable : Φ.table n with
    | none =>
      rw [htable] at hrefused
      exact hrefused rfl (hbad ⟨n,hn⟩ s ((h.hosts.closed ⟨n,hn⟩).1 htable))
    | some k =>
      rw [htable] at hy
      dsimp only at hy
      obtain ⟨-,F,cs,hF,hc⟩ := h.hosts.opened ⟨n,hn⟩ k htable
      rw [hF] at hy
      dsimp only at hy
      cases hrun : y (Φ.opened k F) with
      | error e => simp [hrun] at hy
      | ok q =>
        obtain ⟨b,o⟩ := q
        rw [hrun] at hy
        obtain ⟨rfl,rfl⟩ : b = a ∧ Φ.update n k F o = Ψ := by simpa using hy
        apply (hx ⟨n,hn⟩ s cs _ b o h.ample h.mounted hc hrun).bind
        rintro b' t ⟨hb,cs',ht⟩
        exact huv b' b hb t _ r Φ' (ht.but.serves h (h.hosts.updated htable hF ht hc)) hv
  · have htable := h.hosts.numbers n (by omega)
    rw [htable,withFd,dif_neg hn] at hrefused
    rw [withFd,dif_neg hn]
    exact hrefused rfl rfl

/-- Closing. -/
theorem fatClose_follows (hE : E.NoFault) : Follows (FatState.Serves E T) (fatClose E n) (FileSystem.closing n) := by
  intro s Φ r Φ' h hrun
  rw [FileSystem.closing] at hrun
  by_cases hn : n < maxOpenFiles
  · rw [fatClose,withFd,dif_pos hn]
    cases htable : Φ.table n with
    | none =>
      rw [if_pos htable] at hrun
      obtain ⟨rfl,rfl⟩ : ((-1 : ℤ),eBadf) = r ∧ Φ = Φ' := by simpa using hrun
      apply returns_file
      exact returns_ite (fun _ => returns_pure ⟨rfl,h⟩)
        fun hopen => absurd ((h.hosts.closed ⟨n,hn⟩).1 htable) hopen
    | some k =>
      rw [if_neg (by simp [htable])] at hrun
      obtain ⟨rfl,rfl⟩ : ((0 : ℤ),(0 : ℤ)) = r ∧ _ = Φ' := by simpa using hrun
      obtain ⟨-,F,cs,hF,hc⟩ := h.hosts.opened ⟨n,hn⟩ k htable
      have hfuel := (Nat.zero_le _).trans_lt h.ample
      apply (closeSlot_carries hE hfuel hc).mono
      rintro r t ⟨rfl,u,hu,hclean,hmark,ht⟩
      have hkept := h.hosts.updated htable hF hu hc
      rw [FileSystem.update_opened htable hF] at hkept
      exact ⟨rfl,(IsTrans.trans _ _ _ hu.but ht.but).serves h (hkept.closing ht htable rfl hclean hmark)⟩
  · have htable := h.hosts.numbers n (by omega)
    rw [if_pos htable] at hrun
    obtain ⟨rfl,rfl⟩ : ((-1 : ℤ),eBadf) = r ∧ Φ = Φ' := by simpa using hrun
    rw [fatClose,withFd,dif_neg hn]
    exact returns_pure ⟨rfl,h⟩

end Calls

/-! ### The way to a file -/

section Path
variable {g : FatInfo} {B : ℕ → Sector} {c : ℕ}

/-- With fewer than 256 blocks in the fixed root a scan of a directory finds what is there. -/
theorem FatInfo.LiveBlocks.scanned {secs : List ℕ} {n : ℕ → UInt8} {r : ℕ × ℕ} (hroot : g.rootLen < 256)
    (h : g.LiveBlocks B c secs) (hs : searchBlocks n B secs = some r) :
    ∃ secs', g.Scanned B c secs' ∧ searchBlocks n B secs' = some r := by
  obtain ⟨-,hblocks⟩ := h
  cases hblocks with
  | chain hcs => exact ⟨_,.chain hcs,hs⟩
  | fixed h16 =>
    refine ⟨_,.fixed h16,?_⟩
    rw [u8_of_lt hroot,List.range_succ,List.map_append]
    exact FatInfo.searchBlocks_append hs

/-- The driver goes the same way. -/
theorem Walk.scanned {names : List (Option (ℕ → UInt8))} {o : Outcome} {p b i : ℕ} (hroot : g.rootLen < 256)
    (h : Walk g B (g.LiveBlocks B) c names o) (ho : o = .entry p b i) : Walk g B (g.Scanned B) c names o := by
  induction h with
  | root => simp at ho
  | noName => simp at ho
  | missing => simp at ho
  | badPath => simp at ho
  | notDir => simp at ho
  | entry blocks search =>
    obtain ⟨secs',hsecs,hs⟩ := blocks.scanned hroot search
    exact .entry hsecs hs
  | down blocks search dir tail ih =>
    obtain ⟨secs',hsecs,hs⟩ := blocks.scanned hroot search
    exact .down hsecs hs dir (ih ho)

/-- What a lookup makes of a path of plain names. -/
theorem FatInfo.LeadsTo.walk {path : List UInt8} {q : ℕ × ℕ} (h : g.LeadsTo B path q) (hroot : g.rootLen < 256)
    (d : DosName) : path.length ≤ 99 ∧ ∃ names p, Converts d ((pathElements path).take 20) names ∧
      Walk g B (g.Scanned B) g.rootCluster (nameBytes names) (.entry p q.1 q.2) := by
  obtain ⟨names,p,hlen,hcount,htext,hnames,hwalk⟩ := h
  obtain ⟨ns,hconv,halike⟩ := converts_names (fun n hn => (hnames n hn).1) d
  have hplain : names.map ShortName.name = names.map fun n => some n.byte := by
    apply List.map_congr_left
    intro n hn
    rw [ShortName.name,if_pos (hnames n hn).2]
  refine ⟨hlen,ns,p,?_,?_⟩
  · rw [htext,List.take_of_length_le (by rw [List.length_map]; exact hcount)]
    exact hconv
  · apply halike.walk
    rw [hplain]
    exact hwalk.scanned hroot rfl

end Path

end Gristle
