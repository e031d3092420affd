import Gristle.Growth
import Gristle.Strict

/-! Metadata updates while reads may fail: what is written over a sector of the table or of a directory
is the sector's old content apart from the entry that is updated, as long as no failure is discarded. -/
namespace Gristle
open Prog

/-! ### The history of the medium -/

/-- The medium after these writes, the newest first; a block behind the device takes none. -/
def replay (size : ℕ) (B : ℕ → Sector) : List Event → ℕ → Sector
  | [] => B
  | .write _ b data :: es =>
    if b < size then Function.update (replay size B es) b data else replay size B es
  | _ :: es => replay size B es

/-- What a metadata update may write over a block: the old content with entries of the table or one
directory entry replaced. A chain that leaves the table may lead `fat_free_clusters` to other blocks. -/
def FatInfo.Updates (g : FatInfo) (old : Sector) (b : ℕ) (data : Sector) : Origin → Prop
  | .fatGetFreeCluster => ∃ j < g.perBlock, g.entryAt old (j * g.fatEntryLen) = 0 ∧
      data = g.markEnd old (j * g.fatEntryLen)
  | .fatFreeClusters => g.Outside b ∨ ∃ cs : List ℕ, (∀ c ∈ cs, g.entryBlock c = b) ∧
      data = cs.foldl (fun d c => g.clearEntry d (g.entryOffset c)) old
  | .fatNextCluster => ∃ c k, g.entryBlock c = b ∧ data = g.setLink old (g.entryOffset c) k
  | .fatFlushFileinfo => ∃ i de, data = old.setDirent i de
  | .fatDelete => ∃ i, data = old.set (i * 32) 0xE5
  | _ => True

/-- Every write among these events is such an update of what the earlier ones left. -/
def Orderly (g : FatInfo) (size : ℕ) (B : ℕ → Sector) : List Event → Prop
  | [] => True
  | .write o b data :: es => Orderly g size B es ∧ g.Updates (replay size B es b) b data o
  | _ :: es => Orderly g size B es

theorem replay_append (size : ℕ) (B : ℕ → Sector) (es fs : List Event) :
    replay size B (fs ++ es) = replay size (replay size B es) fs := by
  induction fs with
  | nil => rfl
  | cons e fs ih => cases e <;> simp only [List.cons_append,replay,ih]

theorem Orderly.append {g : FatInfo} {size : ℕ} {B : ℕ → Sector} {es fs : List Event}
    (h : Orderly g size B es) (h' : Orderly g size (replay size B es) fs) :
    Orderly g size B (fs ++ es) := by
  induction fs with
  | nil => exact h
  | cons e fs ih =>
    cases e with
    | write o b data =>
      refine ⟨ih h'.1,?_⟩
      change g.Updates (replay size B (fs ++ es) b) b data o
      rw [replay_append]
      exact h'.2
    | _ => exact ih h'

theorem replay_quiet {size : ℕ} {B : ℕ → Sector} {es : List Event} (h : es.filter Event.isWrite = []) :
    replay size B es = B := by
  induction es with
  | nil => rfl
  | cons e es ih =>
    cases e with
    | write o b data => simp [Event.isWrite] at h
    | _ => exact ih h

theorem orderly_quiet {g : FatInfo} {size : ℕ} {B : ℕ → Sector} {es : List Event}
    (h : es.filter Event.isWrite = []) : Orderly g size B es := by
  induction es with
  | nil => trivial
  | cons e es ih =>
    cases e with
    | write o b data => simp [Event.isWrite] at h
    | _ => exact ih h

/-- The new events account for the medium, and its metadata was updated in order. -/
structure Recorded (g : FatInfo) (d e : Device) : Prop where
  size : e.size = d.size
  history : ∃ es, e.trace = es ++ d.trace ∧ e.blocks = replay d.size d.blocks es ∧
    Orderly g d.size d.blocks es

theorem Recorded.refl (g : FatInfo) (d : Device) : Recorded g d d := ⟨rfl,[],rfl,rfl,trivial⟩

theorem Recorded.trans {g : FatInfo} {d e f : Device} (h : Recorded g d e) (h' : Recorded g e f) :
    Recorded g d f := by
  obtain ⟨hs,es,ht,hb,ho⟩ := h
  obtain ⟨hs',fs,ht',hb',ho'⟩ := h'
  rw [hs,hb] at hb' ho'
  exact ⟨hs'.trans hs,fs ++ es,by rw [ht',ht,List.append_assoc],by rw [hb',replay_append],ho.append ho'⟩

theorem SameMedium.recorded {g : FatInfo} {d e : Device} (h : SameMedium d e) (hl : d.Later e) :
    Recorded g d e := by
  obtain ⟨es,hes⟩ := hl.trace
  have hquiet : es.filter Event.isWrite = [] := by
    have hw := h.writes
    rw [Device.writes,Device.writes,← hes,List.filter_append] at hw
    simpa using hw
  exact ⟨hl.size,es,hes.symm,h.blocks.trans (replay_quiet hquiet).symm,orderly_quiet hquiet⟩

/-- On a volume with valid geometry the metadata was updated in order. -/
def Tidy (s t : FatState) : Prop :=
  s.fatfs.Valid s.dev.size → t.fatfs = s.fatfs ∧ Recorded s.fatfs s.dev t.dev

theorem Tidy.valid {s t : FatState} (h : Tidy s t) (hg : s.fatfs.Valid s.dev.size) :
    t.fatfs.Valid t.dev.size := by
  obtain ⟨hf,hr⟩ := h hg
  rw [hf,hr.size]
  exact hg

instance : Std.Refl Tidy := ⟨fun _ _ => ⟨rfl,.refl _ _⟩⟩

instance : IsTrans FatState Tidy where
  trans s t u h h' hg := by
    obtain ⟨hf,hr⟩ := h hg
    obtain ⟨hf',hr'⟩ := h' (h.valid hg)
    rw [hf] at hr'
    exact ⟨hf'.trans hf,hr.trans hr'⟩

theorem onDevice_tidy {α : Type} {x : Prog Device α} (hm : Keeps SameMedium x) (hl : Keeps Device.Later x) :
    Keeps Tidy (onDevice x) := by
  intro s a t h _
  obtain ⟨d,hd,rfl⟩ := onDevice_ok h
  exact ⟨rfl,(hm _ _ _ hd).recorded (hl _ _ _ hd)⟩

theorem modify_tidy {f : FatState → FatState} (hf : ∀ s, (f s).fatfs = s.fatfs)
    (hd : ∀ s, (f s).dev = s.dev) : Keeps Tidy (modify f) :=
  keeps_modify fun s _ => ⟨hf s,by rw [hd s]; exact .refl _ _⟩

theorem updateFile_tidy (fd : Fd) (u : FileS → FileS) : Keeps Tidy (updateFile fd u) :=
  modify_tidy (fun _ => rfl) fun _ => rfl

theorem setSysbuf_tidy (b : Sector) : Keeps Tidy (setSysbuf b) := modify_tidy (fun _ => rfl) fun _ => rfl

theorem time_later (E : Env) : Keeps Device.Later (Device.time E) := fun d a e h => by
  simp only [Device.time,Except.ok.injEq,Prod.mk.injEq] at h
  rw [← h.2]
  exact ⟨rfl,List.suffix_rfl⟩

theorem junk_later (E : Env) : Keeps Device.Later (Device.junk E) := fun d a e h => by
  simp only [Device.junk,Except.ok.injEq,Prod.mk.injEq] at h
  rw [← h.2]
  exact ⟨rfl,List.suffix_rfl⟩

theorem sysLock_later (E : Env) : Keeps Device.Later (Device.sysLock E) := fun d a e h => by
  simp only [Device.sysLock] at h
  split at h <;> simp only [Except.ok.injEq,Prod.mk.injEq] at h <;> rw [← h.2]
  · exact ⟨rfl,List.suffix_rfl⟩
  · exact ⟨rfl,List.suffix_cons _ _⟩

theorem log_later (e : Event) : Keeps Device.Later (Device.log e) :=
  keeps_modify fun _ => ⟨rfl,List.suffix_cons _ _⟩

theorem time_tidy (E : Env) : Keeps Tidy (time E) := onDevice_tidy (time_sameMedium E) (time_later E)
theorem junk_tidy (E : Env) : Keeps Tidy (junk E) := onDevice_tidy (junk_sameMedium E) (junk_later E)
theorem sysLock_tidy (E : Env) : Keeps Tidy (sysLock E) :=
  onDevice_tidy (sysLock_sameMedium E) (sysLock_later E)
theorem sysUnlock_tidy : Keeps Tidy sysUnlock := onDevice_tidy sysUnlock_sameMedium (log_later .unlock)

theorem readSysbuf_tidy (E : Env) (b : ℕ) : Keeps Tidy (readSysbuf E b) := by
  refine keeps_bind (onDevice_tidy (blockRead_sameMedium E b) (blockRead_later E b)) fun o => ?_
  cases o with
  | none => exact keeps_pure true
  | some d => exact keeps_bind (setSysbuf_tidy d) fun _ => keeps_pure false

theorem readBuffer_tidy (E : Env) (fd : Fd) (b : ℕ) : Keeps Tidy (readBuffer E fd b) := by
  refine keeps_bind (onDevice_tidy (blockRead_sameMedium E b) (blockRead_later E b)) fun o => ?_
  cases o with
  | none => exact keeps_pure true
  | some d => exact keeps_bind (updateFile_tidy fd _) fun _ => keeps_pure false

theorem fatSelectCluster_tidy (E : Env) (fd : Fd) (c : ℕ) : Keeps Tidy (fatSelectCluster E fd c) :=
  keeps_bind keeps_fatfs fun _ => keeps_bind (updateFile_tidy fd _) fun _ =>
    keeps_bind (keeps_file fd) fun _ => readBuffer_tidy E fd _

section Writes
variable {E : Env} (hw : ∀ n, E.writeFails n = false)
include hw

theorem writeBlock_tidy {o : Origin} {b : ℕ} {data : Sector} {s t : FatState} {failed : Bool}
    (h : writeBlock E o b data s = .ok (failed,t))
    (hu : s.fatfs.Valid s.dev.size → s.fatfs.Updates (s.dev.blocks b) b data o) : Tidy s t := by
  intro hg
  obtain ⟨d,hd,rfl⟩ := onDevice_ok h
  refine ⟨rfl,?_⟩
  simp only [Device.blockWrite,hw,Bool.false_eq_true,false_or] at hd
  split at hd <;> simp only [Except.ok.injEq,Prod.mk.injEq] at hd <;> obtain ⟨-,rfl⟩ := hd
  · exact ⟨rfl,[.write o b data],rfl,by rw [replay,if_neg (by omega)]; rfl,trivial,hu hg⟩
  · exact ⟨rfl,[.write o b data],rfl,by rw [replay,if_pos (by omega)]; rfl,trivial,hu hg⟩

/-- The data of a file are no metadata. -/
theorem writeData_tidy (b : ℕ) (data : Sector) : Keeps Tidy (writeBlock E .fatFlush b data) :=
  fun _ _ _ h => writeBlock_tidy hw h fun _ => trivial

/-! ### The table -/

omit hw in
theorem readSysbuf_buffer {b : ℕ} {s t : FatState} (h : readSysbuf E b s = .ok (false,t)) :
    t.sysbuf = t.dev.blocks b := by
  obtain ⟨ht,hbuf⟩ := (readSysbuf_total E b s).of_ok h
  rw [ht.blocks,hbuf rfl]

theorem freeClusterLoop_tidy (n i : ℕ) : Keeps Tidy (freeClusterLoop E n i) := by
  induction n generalizing i with
  | zero => exact keeps_bind sysUnlock_tidy fun _ => keeps_pure 0
  | succ n ih =>
    intro s a t h
    obtain ⟨failed,u,hu,h⟩ := bind_ok h
    have hsu := readSysbuf_tidy E i s failed u hu
    cases failed with
    | true =>
      rw [run_ite,if_pos rfl] at h
      obtain ⟨-,rfl⟩ := pure_ok h
      exact hsu
    | false =>
      have hbuf := readSysbuf_buffer hu
      rw [run_ite,if_neg (by simp),bind_of_ok rfl,bind_of_ok rfl] at h
      cases hfind : u.fatfs.freeIndex u.sysbuf u.fatfs.perBlock 0 with
      | none =>
        rw [hfind] at h
        exact IsTrans.trans _ _ _ hsu (ih (i+1) u a t h)
      | some j =>
        rw [hfind] at h
        dsimp only at h
        obtain ⟨-,hj,hzero,-⟩ := FatInfo.freeIndex_some hfind
        rw [bind_of_ok rfl] at h
        obtain ⟨x,v,hv,h⟩ := bind_ok h
        have huv := setSysbuf_tidy _ _ _ _ hv
        obtain ⟨hv,hvbuf⟩ := (setSysbuf_returns _ u).of_ok hv
        rw [bind_of_ok rfl] at h
        obtain ⟨failed',w,hw',h⟩ := bind_ok h
        have hvw := writeBlock_tidy hw hw' fun _ => by
          refine ⟨j,?_,?_,?_⟩
          · rw [hv.table.fatfs]
            omega
          · rw [hv.table.fatfs,hv.blocks,← hbuf]
            exact hzero
          · rw [hvbuf,hv.table.fatfs,hv.blocks,hbuf]
        have hsw : Tidy s w := IsTrans.trans _ _ _ hsu (IsTrans.trans _ _ _ huv hvw)
        rw [run_ite] at h
        split at h <;> obtain ⟨y,x',hx,h⟩ := bind_ok h <;> obtain ⟨-,rfl⟩ := pure_ok h
        · exact IsTrans.trans _ _ _ hsw (sysUnlock_tidy _ _ _ hx)
        · exact IsTrans.trans _ _ _ hsw (sysUnlock_tidy _ _ _ hx)

theorem fatGetFreeCluster_tidy : Keeps Tidy (fatGetFreeCluster E) := by
  refine keeps_bind keeps_fatfs fun g => keeps_bind (sysLock_tidy E) fun granted => ?_
  refine keeps_bind (keeps_ite (freeClusterLoop_tidy hw _ _) (keeps_pure 0)) fun r => ?_
  exact keeps_bind (onDevice_tidy (log_sameMedium rfl) (log_later _)) fun _ => keeps_pure r

/-- `sysbuf` is what may be written to the block it stands for. -/
theorem freeClustersLoad_tidy {blk current : ℕ} {s t : FatState} {failed : Bool}
    (h : freeClustersLoad E blk current s = .ok (failed,t))
    (hs : s.fatfs.Valid s.dev.size →
      s.fatfs.Updates (s.dev.blocks current) current s.sysbuf .fatFreeClusters) :
    Tidy s t ∧ (failed = false → t.fatfs.Valid t.dev.size →
      t.fatfs.Updates (t.dev.blocks blk) blk t.sysbuf .fatFreeClusters) := by
  have hread {u : FatState} (h : readSysbuf E blk u = .ok (failed,t)) : Tidy u t ∧
      (failed = false → t.fatfs.Valid t.dev.size →
        t.fatfs.Updates (t.dev.blocks blk) blk t.sysbuf .fatFreeClusters) := by
    refine ⟨readSysbuf_tidy E blk u failed t h,?_⟩
    rintro rfl -
    exact .inr ⟨[],by simp,readSysbuf_buffer h⟩
  rw [freeClustersLoad,run_ite] at h
  split at h
  · obtain ⟨-,rfl⟩ := pure_ok h
    subst blk
    exact ⟨Std.Refl.refl _,fun _ => hs⟩
  rw [run_ite] at h
  split at h
  · exact hread h
  · rw [bind_of_ok rfl] at h
    obtain ⟨x,u,hu,h⟩ := bind_ok h
    obtain ⟨hut,hpost⟩ := hread h
    exact ⟨IsTrans.trans _ _ _ (writeBlock_tidy hw hu hs) hut,hpost⟩

theorem freeClustersLoop_tidy {n cluster current : ℕ} {s t : FatState} {r : ℤ}
    (h : freeClustersLoop E n cluster current s = .ok (r,t))
    (hs : s.fatfs.Valid s.dev.size →
      s.fatfs.Updates (s.dev.blocks current) current s.sysbuf .fatFreeClusters) : Tidy s t := by
  induction n generalizing s cluster current with
  | zero => simp [freeClustersLoop] at h
  | succ n ih =>
    rw [freeClustersLoop,bind_of_ok rfl] at h
    obtain ⟨failed,u,hu,h⟩ := bind_ok h
    obtain ⟨hsu,hpost⟩ := freeClustersLoad_tidy hw hu hs
    have hgu : u.fatfs = s.fatfs := (freeClustersLoad_sameTable E _ _ _ _ _ hu).fatfs
    cases failed with
    | true =>
      rw [run_ite,if_pos rfl] at h
      obtain ⟨x,v,hv,h⟩ := bind_ok h
      obtain ⟨-,rfl⟩ := pure_ok h
      exact IsTrans.trans _ _ _ hsu (sysUnlock_tidy _ _ _ hv)
    | false =>
      rw [run_ite,if_neg (by simp),bind_of_ok rfl] at h
      obtain ⟨x,v,hv,h⟩ := bind_ok h
      have hsv : Tidy s v := IsTrans.trans _ _ _ hsu (setSysbuf_tidy _ _ _ _ hv)
      obtain ⟨hv,hvbuf⟩ := (setSysbuf_returns _ u).of_ok hv
      have hinv : v.fatfs.Valid v.dev.size → v.fatfs.Updates (v.dev.blocks (s.fatfs.entryBlock cluster))
          (s.fatfs.entryBlock cluster) v.sysbuf .fatFreeClusters := by
        rw [hv.table.fatfs,hv.table.device.size,hv.blocks,hvbuf]
        intro hg
        refine (hpost rfl hg).imp_right fun h => ?_
        obtain ⟨cs,hcs,hbuf⟩ := h
        refine ⟨cs ++ [cluster],fun c hc => ?_,?_⟩
        · rcases List.mem_append.1 hc with hc | hc
          · exact hcs c hc
          · rw [List.mem_singleton.1 hc,hgu]
        · rw [List.foldl_append,← hbuf,hgu]
          rfl
      rw [run_ite] at h
      split at h
      · rw [bind_of_ok rfl] at h
        obtain ⟨y,w,hvw,h⟩ := bind_ok h
        obtain ⟨z,x',hx,h⟩ := bind_ok h
        obtain ⟨-,rfl⟩ := pure_ok h
        exact IsTrans.trans _ _ _ hsv (IsTrans.trans _ _ _ (writeBlock_tidy hw hvw hinv)
          (sysUnlock_tidy _ _ _ hx))
      · exact IsTrans.trans _ _ _ hsv (ih h hinv)

theorem fatFreeClusters_tidy (c : ℕ) : Keeps Tidy (fatFreeClusters E c) := by
  refine keeps_bind (sysLock_tidy E) fun granted => keeps_ite ?_ (keeps_pure _)
  intro s r t h
  refine freeClustersLoop_tidy hw h fun hg => .inl (.inr ?_)
  have h₁ := hg.table_le
  have h₂ := hg.dataStart_lt
  have h₃ := hg.size
  change _ ≤ 0xFFFFFFFF
  omega

end Writes

end Gristle
