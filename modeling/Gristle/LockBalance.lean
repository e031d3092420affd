import Gristle.Careful
import Gristle.History
import Gristle.Mount
import Gristle.Quiet
import Gristle.Lib.Bracket

/-! The lock: who takes it and who gives it back, whatever transfers fail. Only the search for a free
cluster can return with the lock taken. -/
namespace Gristle
open Prog Bracket

/-! ### Histories of the lock -/

/-- What an event does to the lock. -/
def Event.grip : Event → ℤ
  | .lock => 1
  | .unlock => -1
  | _ => 0

/-- A search of `fat_get_free_cluster` that reports an error directly after it has taken the lock: it has
written nothing, so a block of the table could not be read. -/
def Event.cutShort : Event → Option Event → Bool
  | .freeCluster r, some .lock => r == 0xFFFFFFFF
  | _, _ => false

/-- The number of such searches in a history. -/
def cutScans : List Event → ℕ
  | [] => 0
  | e :: es => (if e.cutShort es.head? then 1 else 0) + cutScans es

/-- The last event is not that the lock was taken. -/
def Closed (es : List Event) : Prop := es.head? ≠ some .lock

theorem cutScans_append {es : List Event} (h : Closed es) (fs : List Event) :
    cutScans (fs ++ es) = cutScans fs + cutScans es := by
  induction fs with
  | nil => simp [cutScans]
  | cons e fs ih =>
    have hhead : e.cutShort (fs ++ es).head? = e.cutShort fs.head? := by
      cases fs with
      | cons f fs => rfl
      | nil =>
        unfold Event.cutShort
        split
        · rename_i r hlock
          exact absurd hlock h
        · split
          · contradiction
          · rfl
    rw [List.cons_append,cutScans,cutScans,hhead,ih,add_assoc]

/-- The lock is taken once for each search that is cut short, and used well if there is none. -/
structure Accounted (es : List Event) : Prop where
  held : held Event.grip es = cutScans es
  once : cutScans es = 0 → Once Event.grip es
  closed : Closed es

theorem Accounted.released_iff {es : List Event} (h : Accounted es) :
    Released Event.grip es ↔ cutScans es = 0 := by
  constructor
  · intro hreleased
    have hheld := h.held
    rw [hreleased.settled] at hheld
    omega
  · intro hnone
    exact ⟨h.once hnone,by rw [h.held,hnone]; rfl⟩

theorem Closed.append {es fs : List Event} (h : Closed es) (h' : Closed fs) : Closed (fs ++ es) := by
  cases fs with
  | nil => exact h
  | cons e fs => exact h'

theorem Accounted.append {es fs : List Event} (h : Accounted es) (h' : Accounted fs) :
    Accounted (fs ++ es) := by
  have hcuts := cutScans_append h.closed fs
  refine ⟨?_,fun hnone => ?_,h.closed.append h'.closed⟩
  · rw [held_append,h.held,h'.held,hcuts]
    push_cast
    rfl
  · exact (h'.once (by omega)).append (h.released_iff.2 (by omega))

theorem accounted_nil : Accounted [] := ⟨rfl,fun _ => once_nil,by simp [Closed]⟩

/-- A history that releases the lock, and in which no search fails. -/
theorem Accounted.of_released {es : List Event} (h : Released Event.grip es) (hcuts : cutScans es = 0)
    (hclosed : Closed es) : Accounted es := ⟨by rw [h.settled,hcuts]; rfl,fun _ => h.once,hclosed⟩

theorem grip_of_write {e : Event} (h : e.isWrite = true) : e.grip = 0 := by
  cases e with
  | write o b data => rfl
  | freeCluster r => rfl
  | lock => contradiction
  | unlock => contradiction

theorem cutScans_writes {es fs : List Event} (h : ∀ e ∈ fs, e.isWrite = true) :
    cutScans (fs ++ es) = cutScans es := by
  induction fs with
  | nil => rfl
  | cons e fs ih =>
    have hfirst : e.cutShort (fs ++ es).head? = false := by
      cases e with
      | write o b data => rfl
      | freeCluster r => exact absurd (h (.freeCluster r) (by simp)) (by simp [Event.isWrite])
      | lock => rfl
      | unlock => rfl
    rw [List.cons_append,cutScans,hfirst,ih fun e he => h e (by simp [he])]
    simp

/-- The lock is taken, some blocks are written, and the lock is given back. -/
theorem released_section {es : List Event} (h : ∀ e ∈ es, e.isWrite = true) :
    Released Event.grip (.unlock :: es ++ [.lock]) :=
  released_wrap rfl rfl fun e he => grip_of_write (h e he)

theorem accounted_section {es : List Event} (h : ∀ e ∈ es, e.isWrite = true) :
    Accounted (.unlock :: es ++ [.lock]) := by
  refine .of_released (released_section h) ?_ (by simp [Closed])
  change (if Event.cutShort .unlock (es ++ [Event.lock]).head? then 1 else 0) + cutScans (es ++ [Event.lock]) = 0
  rw [cutScans_writes h]
  rfl

theorem accounted_writes {es : List Event} (h : ∀ e ∈ es, e.isWrite = true) : Accounted es := by
  refine .of_released (released_quiet fun e he => grip_of_write (h e he)) ?_ ?_
  · have hcuts := @cutScans_writes [] es h
    rwa [List.append_nil] at hcuts
  · intro hhead
    have := h Event.lock (List.mem_of_mem_head? hhead)
    contradiction

/-! ### Steps between states -/

/-- The events between two states, as `P` says. -/
def Between (P : List Event → Prop) (s t : FatState) : Prop := ∃ es, t.dev.trace = es ++ s.dev.trace ∧ P es

theorem Between.unique {P : List Event → Prop} {s t : FatState} {es : List Event}
    (h : t.dev.trace = es ++ s.dev.trace) : Between P s t ↔ P es := by
  constructor
  · rintro ⟨fs,hfs,hp⟩
    rwa [List.append_cancel_right (h.symm.trans hfs)]
  · intro hp
    exact ⟨es,h,hp⟩

theorem Between.of_same {P : List Event → Prop} {s t : FatState} (h : t.dev.trace = s.dev.trace) (hp : P []) :
    Between P s t := ⟨[],h,hp⟩

instance : Std.Refl (Between Accounted) := ⟨fun _ => .of_same rfl accounted_nil⟩

instance : IsTrans FatState (Between Accounted) where
  trans s t u := by
    rintro ⟨es,hes,h⟩ ⟨fs,hfs,h'⟩
    exact ⟨fs ++ es,by rw [hfs,hes,List.append_assoc],h.append h'⟩

/-- The lock is taken only when it is free and given back as often as it was taken. -/
abbrev LockReleased : FatState → FatState → Prop := Between (Released Event.grip)

theorem keeps_same {α : Type} {x : Prog Device α} (h : ∀ d a e, x d = .ok (a,e) → e.trace = d.trace) :
    Keeps (Between Accounted) (onDevice x) := by
  intro s a t hrun
  obtain ⟨d,hd,rfl⟩ := onDevice_ok hrun
  exact .of_same (h _ _ _ hd) accounted_nil

theorem readSysbuf_trace {E : Env} {b : ℕ} {s t : FatState} {failed : Bool}
    (h : readSysbuf E b s = .ok (failed,t)) : t.dev.trace = s.dev.trace := by
  obtain ⟨o,u,hu,h⟩ := bind_ok h
  obtain ⟨d,hd,rfl⟩ := onDevice_ok hu
  have htrace : d.trace = s.dev.trace := by
    simp only [Device.blockRead,Except.ok.injEq,Prod.mk.injEq] at hd
    rw [← hd.2]
  cases o with
  | none =>
    obtain ⟨-,rfl⟩ := pure_ok h
    exact htrace
  | some data =>
    dsimp only at h
    rw [bind_of_ok rfl] at h
    obtain ⟨-,rfl⟩ := pure_ok h
    exact htrace

theorem writeBlock_trace {E : Env} {o : Origin} {b : ℕ} {data : Sector} {s t : FatState} {failed : Bool}
    (h : writeBlock E o b data s = .ok (failed,t)) : t.dev.trace = .write o b data :: s.dev.trace := by
  obtain ⟨d,hd,rfl⟩ := onDevice_ok h
  simp only [Device.blockWrite] at hd
  split at hd <;> simp only [Except.ok.injEq,Prod.mk.injEq] at hd <;> rw [← hd.2]

theorem sysUnlock_trace {s t : FatState} {a : Unit} (h : sysUnlock s = .ok (a,t)) :
    t.dev.trace = .unlock :: s.dev.trace := by
  obtain ⟨d,hd,rfl⟩ := onDevice_ok h
  simp only [Device.sysUnlock,modify_apply,Except.ok.injEq,Prod.mk.injEq] at hd
  rw [← hd.2]

theorem sysLock_trace {E : Env} {s t : FatState} {granted : Bool} (h : sysLock E s = .ok (granted,t)) :
    granted = !E.lockRefused s.dev.tick ∧
      t.dev.trace = if granted then .lock :: s.dev.trace else s.dev.trace := by
  obtain ⟨d,hd,rfl⟩ := onDevice_ok h
  simp only [Device.sysLock] at hd
  split at hd <;> simp only [Except.ok.injEq,Prod.mk.injEq] at hd <;> obtain ⟨rfl,rfl⟩ := hd
  · simp [*]
  · simp [*]

/-! ### `fat_free_clusters` and the mount functions -/

section Sections
variable {E : Env} {s t : FatState}

theorem freeClustersLoad_trace {blk current : ℕ} {failed : Bool}
    (h : freeClustersLoad E blk current s = .ok (failed,t)) :
    ∃ ws, t.dev.trace = ws ++ s.dev.trace ∧ ∀ e ∈ ws, e.isWrite = true := by
  rw [freeClustersLoad,run_ite] at h
  split at h
  · obtain ⟨-,rfl⟩ := pure_ok h
    exact ⟨[],rfl,by simp⟩
  rw [run_ite] at h
  split at h
  · exact ⟨[],readSysbuf_trace h,by simp⟩
  · rw [bind_of_ok rfl] at h
    obtain ⟨failed',u,hu,h⟩ := bind_ok h
    refine ⟨[.write .fatFreeClusters current s.sysbuf],?_,by simp [Event.isWrite]⟩
    rw [readSysbuf_trace h,writeBlock_trace hu]
    rfl

/-- Every exit of the loop gives the lock back after some writes. -/
theorem freeClustersLoop_trace {n cluster current : ℕ} {r : ℤ}
    (h : freeClustersLoop E n cluster current s = .ok (r,t)) :
    ∃ ws, t.dev.trace = .unlock :: ws ++ s.dev.trace ∧ ∀ e ∈ ws, e.isWrite = true := by
  induction n generalizing s cluster current with
  | zero => simp [freeClustersLoop] at h
  | succ n ih =>
    rw [freeClustersLoop,bind_of_ok rfl] at h
    obtain ⟨failed,u,hu,h⟩ := bind_ok h
    obtain ⟨ws,hws,hwrite⟩ := freeClustersLoad_trace hu
    rw [run_ite] at h
    split at h
    · obtain ⟨a,v,hv,h⟩ := bind_ok h
      obtain ⟨-,rfl⟩ := pure_ok h
      exact ⟨ws,by rw [sysUnlock_trace hv,hws]; rfl,hwrite⟩
    · rw [bind_of_ok rfl,bind_of_ok rfl,run_ite] at h
      split at h
      · rw [bind_of_ok rfl] at h
        obtain ⟨failed',v,hv,h⟩ := bind_ok h
        obtain ⟨a,w,hw,h⟩ := bind_ok h
        obtain ⟨-,rfl⟩ := pure_ok h
        refine ⟨.write .fatFreeClusters (s.fatfs.entryBlock cluster)
          (s.fatfs.clearEntry u.sysbuf (s.fatfs.entryOffset cluster)) :: ws,?_,?_⟩
        · rw [sysUnlock_trace hw,writeBlock_trace hv]
          exact congrArg _ (congrArg _ hws)
        · intro e he
          rcases List.mem_cons.1 he with rfl | he
          · rfl
          · exact hwrite e he
      · obtain ⟨ws',hws',hwrite'⟩ := ih h
        refine ⟨ws' ++ ws,?_,?_⟩
        · rw [hws']
          change .unlock :: ws' ++ u.dev.trace = _
          rw [hws]
          simp
        · intro e he
          rcases List.mem_append.1 he with he | he
          · exact hwrite' e he
          · exact hwrite e he

theorem fatFreeClusters_accounted (c : ℕ) :
    Keeps (Between fun es => Accounted es ∧ Released Event.grip es) (fatFreeClusters E c) := by
  intro s r t h
  obtain ⟨granted,u,hu,h⟩ := bind_ok h
  obtain ⟨-,hlock⟩ := sysLock_trace hu
  rw [run_ite] at h
  split at h
  · rename_i hgranted
    obtain ⟨ws,hws,hwrite⟩ := freeClustersLoop_trace h
    rw [hlock,if_pos hgranted] at hws
    exact ⟨.unlock :: ws ++ [.lock],by rw [hws]; simp,accounted_section hwrite,released_section hwrite⟩
  · rename_i hrefused
    obtain ⟨-,rfl⟩ := pure_ok h
    rw [if_neg hrefused] at hlock
    exact .of_same hlock ⟨accounted_nil,released_nil⟩

end Sections

/-- Nothing happened that an observer would see. -/
def SameTrace (s t : FatState) : Prop := t.dev.trace = s.dev.trace

/-- The lock was given back, and nothing else happened. -/
def GivesBack (s t : FatState) : Prop := t.dev.trace = .unlock :: s.dev.trace

theorem givesBack_bind {α β : Type} {x : FatM α} {f : α → FatM β} (hx : Keeps SameTrace x)
    (hf : ∀ a, Keeps GivesBack (f a)) : Keeps GivesBack (x >>= f) := by
  intro s b t h
  obtain ⟨a,u,hu,h⟩ := bind_ok h
  exact (hf a u b t h).trans (congrArg _ (hx s a u hu))

theorem givesBack_exit (r : ℤ) : Keeps GivesBack (do sysUnlock; pure r : FatM ℤ) := by
  intro s a t h
  obtain ⟨b,u,hu,h⟩ := bind_ok h
  obtain ⟨-,rfl⟩ := pure_ok h
  exact sysUnlock_trace hu

theorem sameTrace_setFatfs (f : FatInfo → FatInfo) : Keeps SameTrace (setFatfs f) := keeps_modify fun _ => rfl
theorem sameTrace_fatfs : Keeps SameTrace fatfs := fun s a t h => by rw [SameTrace,(fatfs_ok h).2]

theorem sameTrace_sysbuf : Keeps SameTrace sysbuf := by
  intro s b t h
  simp only [sysbuf,Except.ok.injEq,Prod.mk.injEq] at h
  rw [SameTrace,h.2]

section Mount
variable (E : Env) (start volumeSize : ℕ)

/-- A body that gives the lock back on every path. -/
theorem locked_released {x : FatM ℤ} (hx : Keeps GivesBack x) :
    Keeps LockReleased (do if ← sysLock E then x else pure (-1) : FatM ℤ) := by
  intro s r t h
  obtain ⟨granted,u,hu,h⟩ := bind_ok h
  obtain ⟨-,hlock⟩ := sysLock_trace hu
  rw [run_ite] at h
  split at h
  · rename_i hgranted
    rw [if_pos hgranted] at hlock
    refine ⟨.unlock :: [] ++ [.lock],?_,released_wrap rfl rfl (by simp)⟩
    rw [hx u r t h,hlock]
    rfl
  · rename_i hrefused
    obtain ⟨-,rfl⟩ := pure_ok h
    rw [if_neg hrefused] at hlock
    exact .of_same hlock released_nil

theorem fatMountFat16_released : Keeps LockReleased (fatMountFat16 E start volumeSize) := by
  refine locked_released E (givesBack_bind (sameTrace_setFatfs _) fun _ => ?_)
  refine givesBack_bind (fun s a t h => readSysbuf_trace h) fun _ => givesBack_bind sameTrace_sysbuf fun _ => ?_
  refine keeps_ite (givesBack_exit (-1)) (givesBack_bind (sameTrace_setFatfs _) fun _ => ?_)
  refine givesBack_bind sameTrace_fatfs fun _ => keeps_ite (givesBack_exit (-1)) ?_
  exact givesBack_bind (sameTrace_setFatfs _) fun _ => givesBack_exit 0

theorem fatMountFat32_released : Keeps LockReleased (fatMountFat32 E start volumeSize) := by
  refine locked_released E (givesBack_bind (sameTrace_setFatfs _) fun _ => ?_)
  refine givesBack_bind (fun s a t h => readSysbuf_trace h) fun _ => givesBack_bind sameTrace_sysbuf fun _ => ?_
  exact keeps_ite (givesBack_exit (-1)) (givesBack_bind (sameTrace_setFatfs _) fun _ => givesBack_exit 0)

instance : Std.Refl LockReleased := ⟨fun _ => .of_same rfl released_nil⟩

instance : IsTrans FatState LockReleased where
  trans s t u := by
    rintro ⟨es,hes,h⟩ ⟨fs,hfs,h'⟩
    exact ⟨fs ++ es,by rw [hfs,hes,List.append_assoc],h.append h'⟩

theorem fatMount_released (hint : ℕ) : Keeps LockReleased (fatMount E start volumeSize hint) := by
  have h₁₆ := fatMountFat16_released E start volumeSize
  have h₃₂ := fatMountFat32_released E start volumeSize
  have htwo {first second : FatM ℤ} (hfirst : Keeps LockReleased first) (hsecond : Keeps LockReleased second) :
      Keeps LockReleased (do
        if (← first) = 0 then pure 0
        else if (← second) = 0 then pure 0
        else pure (-1) : FatM ℤ) :=
    keeps_bind hfirst fun _ => keeps_ite (keeps_pure _) (keeps_bind hsecond fun _ =>
      keeps_ite (keeps_pure _) (keeps_pure _))
  unfold fatMount
  split
  rename_i first second horder
  split at horder
  · obtain ⟨rfl,rfl⟩ := Prod.mk.inj horder
    exact htwo h₁₆ h₃₂
  · obtain ⟨rfl,rfl⟩ := Prod.mk.inj horder
    exact htwo h₃₂ h₁₆

end Mount

/-! ### The search for a free cluster -/

/-- The search of `fat_get_free_cluster` over the blocks `i, …, i+n-1` of the table finds each block
readable up to the first with a free entry; the first read is question number `tick`. -/
def FatState.readsTable (E : Env) (s : FatState) : ℕ → ℕ → ℕ → Bool
  | 0, _, _ => true
  | n+1, i, tick => !(E.readFails tick || s.dev.size ≤ i) &&
      ((s.fatfs.freeIndex (s.dev.blocks i) s.fatfs.perBlock 0).isSome || s.readsTable E n (i+1) (tick+1))

/-- The whole search. -/
def FatState.scans (E : Env) (s : FatState) : Bool :=
  s.readsTable E (u32 (s.fatfs.activeFatStart + s.fatfs.sectorsPerFat) - s.fatfs.activeFatStart)
    s.fatfs.activeFatStart (s.dev.tick + 1)

section Scan
variable {E : Env} {s t : FatState}

/-- The search sees the medium, the geometry and the number of questions asked. -/
theorem readsTable_congr {s' : FatState} (hblocks : s'.dev.blocks = s.dev.blocks)
    (hsize : s'.dev.size = s.dev.size) (hg : s'.fatfs = s.fatfs) (n i tick : ℕ) :
    s'.readsTable E n i tick = s.readsTable E n i tick := by
  induction n generalizing i tick with
  | zero => rfl
  | succ n ih => rw [FatState.readsTable,FatState.readsTable,hblocks,hsize,hg,ih]

/-- The loop ends with the lock given back, unless a block could not be read. -/
theorem freeClusterLoop_trace {n i r : ℕ} (h : freeClusterLoop E n i s = .ok (r,t)) :
    if s.readsTable E n i s.dev.tick then
      ∃ ws, t.dev.trace = .unlock :: ws ++ s.dev.trace ∧ ∀ e ∈ ws, e.isWrite = true
    else r = 0xFFFFFFFF ∧ t.dev.trace = s.dev.trace := by
  induction n generalizing s i with
  | zero =>
    obtain ⟨a,u,hu,h⟩ := bind_ok h
    obtain ⟨-,rfl⟩ := pure_ok h
    rw [FatState.readsTable,if_pos rfl]
    exact ⟨[],sysUnlock_trace hu,by simp⟩
  | succ n ih =>
    rw [freeClusterLoop] at h
    by_cases hfail : E.readFails s.dev.tick = true ∨ s.dev.size ≤ i
    · have hread : readSysbuf E i s = .ok (true,{ s with dev := { s.dev with tick := s.dev.tick + 1 } }) := by
        rw [readSysbuf,bind_of_ok (by rw [onDevice,zoom,Device.blockRead,if_pos hfail])]
        rfl
      rw [bind_of_ok hread,run_ite,if_pos rfl] at h
      obtain ⟨rfl,rfl⟩ := pure_ok h
      have hstop : s.readsTable E (n+1) i s.dev.tick = false := by
        rw [FatState.readsTable]
        rcases hfail with hfail | hfail
        · simp [hfail]
        · simp [hfail]
      rw [hstop]
      exact ⟨rfl,rfl⟩
    · have hread : readSysbuf E i s = .ok (false,{ s with
          dev := { s.dev with tick := s.dev.tick + 1 }, sysbuf := s.dev.blocks i }) := by
        rw [readSysbuf,bind_of_ok (by rw [onDevice,zoom,Device.blockRead,if_neg hfail])]
        rfl
      rw [bind_of_ok hread,run_ite,if_neg (by simp),bind_of_ok rfl,bind_of_ok rfl] at h
      obtain ⟨hok,hinside⟩ := not_or.1 hfail
      have hnext : s.readsTable E (n+1) i s.dev.tick =
          ((s.fatfs.freeIndex (s.dev.blocks i) s.fatfs.perBlock 0).isSome ||
            s.readsTable E n (i+1) (s.dev.tick+1)) := by
        rw [FatState.readsTable]
        simp [hok,hinside]
      rw [hnext]
      dsimp only at h
      cases hfind : s.fatfs.freeIndex (s.dev.blocks i) s.fatfs.perBlock 0 with
      | none =>
        rw [hfind] at h
        have hrest := ih h
        simpa [readsTable_congr (s := s)] using hrest
      | some j =>
        rw [hfind] at h
        dsimp only at h
        rw [bind_of_ok rfl,bind_of_ok rfl,bind_of_ok rfl] at h
        obtain ⟨failed,v,hv,h⟩ := bind_ok h
        have hwrite := writeBlock_trace hv
        have hdone {r' : ℕ} (h : (do sysUnlock; pure r' : FatM ℕ) v = .ok (r,t)) :
            t.dev.trace = .unlock :: v.dev.trace := by
          obtain ⟨a,w,hw,h⟩ := bind_ok h
          obtain ⟨-,rfl⟩ := pure_ok h
          exact sysUnlock_trace hw
        rw [if_pos (by simp)]
        refine ⟨[.write .fatGetFreeCluster i (s.fatfs.markEnd (s.dev.blocks i) (j * s.fatfs.fatEntryLen))],?_,
          by simp [Event.isWrite]⟩
        rw [run_ite] at h
        split at h
        · rw [hdone h,hwrite]
          rfl
        · rw [hdone h,hwrite]
          rfl

theorem released_freeCluster (r : ℕ) : Released Event.grip [.freeCluster r] :=
  released_quiet (by simp [Event.grip])

theorem accounted_freeCluster (r : ℕ) : Accounted [.freeCluster r] :=
  .of_released (released_freeCluster r) rfl (by simp [Closed])

/-- A search that could not read a block leaves the lock taken. -/
theorem accounted_cut : Accounted [.freeCluster 0xFFFFFFFF,.lock] :=
  ⟨rfl,fun h => absurd h (by decide),by simp [Closed]⟩

/-- What a call of `fat_get_free_cluster` does to the lock. -/
theorem fatGetFreeCluster_accounted {r : ℕ} (h : fatGetFreeCluster E s = .ok (r,t)) :
    Between (fun es => Accounted es ∧
      (cutScans es = 0 ↔ E.lockRefused s.dev.tick = true ∨ s.scans E = true)) s t := by
  rw [fatGetFreeCluster,bind_of_ok rfl] at h
  obtain ⟨granted,u,hu,h⟩ := bind_ok h
  obtain ⟨hgranted,hlock⟩ := sysLock_trace hu
  obtain ⟨d,hd,rfl⟩ := onDevice_ok hu
  obtain ⟨r',v,hv,h⟩ := bind_ok h
  obtain ⟨a,w,hw,h⟩ := bind_ok h
  obtain ⟨rfl,rfl⟩ := pure_ok h
  have hlog : t.dev.trace = .freeCluster r :: v.dev.trace := by
    obtain ⟨d',hd',rfl⟩ := onDevice_ok hw
    simp only [Device.log,modify_apply,Except.ok.injEq,Prod.mk.injEq] at hd'
    rw [← hd'.2]
  rw [run_ite] at hv
  cases hrefused : E.lockRefused s.dev.tick with
  | true =>
    rw [hrefused] at hgranted
    subst hgranted
    rw [if_neg (by simp)] at hv
    obtain ⟨rfl,rfl⟩ := pure_ok hv
    refine ⟨[.freeCluster 0],by rw [hlog]; exact congrArg _ hlock,accounted_freeCluster 0,?_⟩
    simp [cutScans,Event.cutShort]
  | false =>
    rw [hrefused] at hgranted
    subst hgranted
    rw [if_pos (by simp)] at hv
    have hloop := freeClusterLoop_trace hv
    -- the lock has taken one question and left the medium alone
    have hdev : d = { s.dev with tick := s.dev.tick + 1, trace := .lock :: s.dev.trace } := by
      simp only [Device.sysLock,hrefused,Bool.false_eq_true,if_false,Except.ok.injEq,Prod.mk.injEq] at hd
      exact hd.2.symm
    subst hdev
    have hscan : FatState.readsTable E _ _ _ (s.dev.tick + 1) = s.scans E :=
      @readsTable_congr E s { s with dev :=
        { s.dev with tick := s.dev.tick + 1, trace := .lock :: s.dev.trace } } rfl rfl rfl _ _ _
    dsimp only at hloop
    rw [hscan] at hloop
    cases hs : s.scans E with
    | true =>
      rw [hs,if_pos rfl] at hloop
      obtain ⟨ws,hws,hwrite⟩ := hloop
      have hsection := accounted_section hwrite
      have hall := hsection.append (accounted_freeCluster r)
      refine ⟨[.freeCluster r] ++ (.unlock :: ws ++ [.lock]),by rw [hlog,hws]; simp,hall,?_⟩
      have hcuts := hall.released_iff.1 ((released_section hwrite).append (released_freeCluster r))
      exact iff_of_true hcuts (.inr rfl)
    | false =>
      rw [hs,if_neg (by simp)] at hloop
      obtain ⟨rfl,hkept⟩ := hloop
      refine ⟨[.freeCluster 0xFFFFFFFF,.lock],by rw [hlog,hkept]; rfl,accounted_cut,?_⟩
      simp [cutScans,Event.cutShort]

end Scan

/-! ### Runs -/

theorem between_imp {P Q : List Event → Prop} (h : ∀ es, P es → Q es) {s t : FatState} (hst : Between P s t) :
    Between Q s t := by
  obtain ⟨es,hes,hp⟩ := hst
  exact ⟨es,hes,h es hp⟩

/-- Every operation of the driver is accounted for. -/
theorem historic_accounted (E : Env) : Historic E (Between Accounted) where
  read b := keeps_same fun d a e h => by
    simp only [Device.blockRead,Except.ok.injEq,Prod.mk.injEq] at h
    rw [← h.2]
  write o b data := fun s a t h => ⟨[.write o b data],writeBlock_trace h,accounted_writes (by simp [Event.isWrite])⟩
  time := keeps_same fun d a e h => by
    simp only [Device.time,Except.ok.injEq,Prod.mk.injEq] at h
    rw [← h.2]
  junk := keeps_same fun d a e h => by
    simp only [Device.junk,Except.ok.injEq,Prod.mk.injEq] at h
    rw [← h.2]
  allocate := fun s r t h => between_imp (fun es h => h.1) (fatGetFreeCluster_accounted h)
  release c := (fatFreeClusters_accounted c).mono fun _ _ => between_imp fun es h => h.1
  update _ _ _ := .of_same rfl accounted_nil

theorem runs_accounted {E : Env} {s t : FatState} {cs : List Call} (h : Runs E s cs t) :
    Between Accounted s t := by
  induction h with
  | nil s => exact Std.Refl.refl s
  | cons head tail ih =>
    obtain ⟨r,hr⟩ := head
    exact IsTrans.trans _ _ _ (exec_historic (historic_accounted E) _ _ _ _ hr) ih

theorem Between.released_iff {s t : FatState} (h : Between Accounted s t) :
    LockReleased s t ↔ Between (fun es => cutScans es = 0) s t := by
  obtain ⟨es,hes,hacc⟩ := h
  rw [LockReleased,Between.unique hes,Between.unique hes]
  exact hacc.released_iff

/-- `fat_get_free_cluster` gives the lock back exactly when it does not get it or the search for a free
entry meets no block that cannot be read; `fat_free_clusters` and the mount functions always do; and a
sequence of calls does exactly when none of its searches was cut short. -/
theorem lock_released_iff (E : Env) :
    (∀ s r t, fatGetFreeCluster E s = .ok (r,t) →
      (LockReleased s t ↔ E.lockRefused s.dev.tick = true ∨ s.scans E = true) ∧
      (Between (fun es => cutScans es = 0) s t ↔ E.lockRefused s.dev.tick = true ∨ s.scans E = true)) ∧
    (∀ c, Keeps LockReleased (fatFreeClusters E c)) ∧
    (∀ start volumeSize, Keeps LockReleased (fatMountFat16 E start volumeSize) ∧
      Keeps LockReleased (fatMountFat32 E start volumeSize) ∧
      ∀ hint, Keeps LockReleased (fatMount E start volumeSize hint)) ∧
    ∀ s cs t, Runs E s cs t → (LockReleased s t ↔ Between (fun es => cutScans es = 0) s t) := by
  refine ⟨fun s r t h => ?_,fun c => ?_,fun start volumeSize => ?_,fun s cs t h => ?_⟩
  · obtain ⟨es,hes,hacc,hcuts⟩ := fatGetFreeCluster_accounted h
    rw [LockReleased,Between.unique hes,Between.unique hes]
    exact ⟨hacc.released_iff.trans hcuts,hcuts⟩
  · exact (fatFreeClusters_accounted c).mono fun _ _ => between_imp fun es h => h.2
  · exact ⟨fatMountFat16_released E start volumeSize,fatMountFat32_released E start volumeSize,
      fatMount_released E start volumeSize⟩
  · exact (runs_accounted h).released_iff

/-- A directory is made, and the lock is free again. -/
theorem lock_released_mkdir : ∃ t, Runs (.calm (fun _ => 90) 20) (.mounted smallFat16 300 oneFile)
    [.mkdir [0x2F,0x43]] t ∧ LockReleased (.mounted smallFat16 300 oneFile) t := by
  have hrun : Prog.test (Call.exec (.calm (fun _ => 90) 20) (.mkdir [0x2F,0x43])) (.mounted smallFat16 300 oneFile)
      (fun _ t => decide (cutScans t.dev.trace = 0)) = true := by
    decide +kernel
  obtain ⟨r,t,hrun,hp⟩ := ok_of_test hrun
  have hruns : Runs (.calm (fun _ => 90) 20) (.mounted smallFat16 300 oneFile) [.mkdir [0x2F,0x43]] t :=
    .cons ⟨r,hrun⟩ (.nil t)
  refine ⟨t,hruns,((lock_released_iff _).2.2.2 _ _ _ hruns).2 ⟨t.dev.trace,?_,of_decide_eq_true hp⟩⟩
  exact (List.append_nil _).symm

/-- When the table cannot be read, `fat_mkdir` returns with the lock taken. -/
theorem mkdir_keeps_lock : ∃ t, Step (.failingRead 1) (.mounted smallFat16 300 oneFile) (.mkdir [0x2F,0x43]) t ∧
    ¬ LockReleased (.mounted smallFat16 300 oneFile) t := by
  have hrun : Prog.test (Call.exec (.failingRead 1) (.mkdir [0x2F,0x43])) (.mounted smallFat16 300 oneFile)
      (fun _ t => decide (held Event.grip t.dev.trace = 1)) = true := by
    decide +kernel
  obtain ⟨r,t,hrun,hp⟩ := ok_of_test hrun
  refine ⟨t,⟨r,hrun⟩,?_⟩
  rintro ⟨es,hes,hreleased⟩
  change t.dev.trace = es ++ [] at hes
  have hheld := of_decide_eq_true hp
  rw [hes,List.append_nil,hreleased.settled] at hheld
  exact absurd hheld (by decide)

end Gristle
