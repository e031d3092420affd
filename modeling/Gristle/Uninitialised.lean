import Gristle.ScanEnds
import Gristle.Run

/-! Uninitialised locals: which of their bytes can make a difference. The contents they happen to have
are one of the answers of the surroundings, so two runs are compared in surroundings that differ there. -/
namespace Gristle
open Prog

/-- The same surroundings with other contents of uninitialised locals. -/
def Env.withJunk (E : Env) (j : ℕ → ℕ → UInt8) : Env := { E with junk := j }

/-- The byte of `de` that `fat_flush_fileinfo` does not assign is the same. -/
def Env.SameReserved (E : Env) (j : ℕ → ℕ → UInt8) : Prop := ∀ n, j n 12 = E.junk n 12

section Medium
variable (E : Env) (j : ℕ → ℕ → UInt8)

theorem freeClusterLoop_withJunk (n i : ℕ) : freeClusterLoop (E.withJunk j) n i = freeClusterLoop E n i := by
  induction n generalizing i with
  | zero => rfl
  | succ n ih =>
    rw [freeClusterLoop,freeClusterLoop]
    simp only [ih]
    rfl

theorem fatGetFreeCluster_withJunk : fatGetFreeCluster (E.withJunk j) = fatGetFreeCluster E := by
  unfold fatGetFreeCluster
  simp only [freeClusterLoop_withJunk]
  rfl

theorem freeClustersLoop_withJunk (n c current : ℕ) :
    freeClustersLoop (E.withJunk j) n c current = freeClustersLoop E n c current := by
  induction n generalizing c current with
  | zero => rfl
  | succ n ih =>
    rw [freeClustersLoop,freeClustersLoop]
    simp only [ih]
    rfl

theorem fatFreeClusters_withJunk (c : ℕ) : fatFreeClusters (E.withJunk j) c = fatFreeClusters E c := by
  unfold fatFreeClusters
  simp only [freeClustersLoop_withJunk]
  rfl

end Medium

section Flush
variable {E : Env} {j : ℕ → ℕ → UInt8} {ffi : Fd → FatM ℤ}

theorem fatFlushWith_withJunk (fd : Fd) : fatFlushWith ffi (E.withJunk j) fd = fatFlushWith ffi E fd := by
  unfold fatFlushWith
  rw [fatGetFreeCluster_withJunk]
  rfl

theorem fatNextClusterWith_withJunk (fd : Fd) :
    fatNextClusterWith ffi (E.withJunk j) fd = fatNextClusterWith ffi E fd := by
  unfold fatNextClusterWith extendChain
  rw [fatGetFreeCluster_withJunk,fatFlushWith_withJunk]
  rfl

theorem fatNextSectorWith_withJunk (fd : Fd) :
    fatNextSectorWith ffi (E.withJunk j) fd = fatNextSectorWith ffi E fd := by
  unfold fatNextSectorWith
  rw [fatNextClusterWith_withJunk,fatFlushWith_withJunk]
  rfl

theorem locateEntry_withJunk (fd : Fd) : locateEntry ffi (E.withJunk j) fd = locateEntry ffi E fd := by
  have hloop (n : ℕ) : emptySlotLoop ffi (E.withJunk j) fd n = emptySlotLoop ffi E fd n := by
    induction n with
    | zero => rfl
    | succ n ih => rw [emptySlotLoop,emptySlotLoop,fatNextSectorWith_withJunk,ih]
  unfold locateEntry
  rw [hloop]
  rfl

/-- Related contents of a local, which make no difference to what follows. -/
theorem junk_withJunk {α : Type} {R : (ℕ → UInt8) → (ℕ → UInt8) → Prop} (h : ∀ n, R (j n) (E.junk n))
    {k k' : (ℕ → UInt8) → FatM α} (hk : ∀ b b', R b b' → k b = k' b') :
    (junk (E.withJunk j) >>= k) = (junk E >>= k') := by
  funext s
  exact congrFun (hk _ _ (h s.dev.tick)) _

theorem bind_congr_right {α β : Type} (x : FatM α) {f f' : α → FatM β} (h : ∀ a, f a = f' a) :
    (x >>= f) = (x >>= f') := by rw [funext h]

variable (h : E.SameReserved j) (fd : Fd)
include h

theorem fatFlushFileinfo_withJunk : fatFlushFileinfo (E.withJunk j) fd = fatFlushFileinfo E fd := by
  have haux (n : ℕ) : fatFlushFileinfoAux (E.withJunk j) n = fatFlushFileinfoAux E n := by
    induction n with
    | zero => rfl
    | succ n ih =>
      funext fd
      rw [fatFlushFileinfoAux,fatFlushFileinfoAux,ih]
      refine bind_congr_right _ fun f => bind_congr_right _ fun g => ?_
      refine ite_congr rfl (fun _ => rfl) fun _ => ite_congr rfl (fun _ => rfl) fun _ => ?_
      refine ite_congr rfl (fun _ => rfl) fun _ => junk_withJunk (R := fun b b' => b 12 = b' 12) h fun b b' hb => ?_
      simp only [hb,fatFlushWith_withJunk,locateEntry_withJunk]
      rfl
  rw [fatFlushFileinfo,haux]
  rfl

theorem fatFlush_withJunk : fatFlush (E.withJunk j) fd = fatFlush E fd := by
  have hffi : fatFlushFileinfo (E.withJunk j) = fatFlushFileinfo E := funext (fatFlushFileinfo_withJunk h)
  rw [fatFlush,hffi,fatFlushWith_withJunk]
  rfl

theorem fatNextCluster_withJunk : fatNextCluster (E.withJunk j) fd = fatNextCluster E fd := by
  have hffi : fatFlushFileinfo (E.withJunk j) = fatFlushFileinfo E := funext (fatFlushFileinfo_withJunk h)
  rw [fatNextCluster,hffi,fatNextClusterWith_withJunk]
  rfl

theorem fatNextSector_withJunk : fatNextSector (E.withJunk j) fd = fatNextSector E fd := by
  have hffi : fatFlushFileinfo (E.withJunk j) = fatFlushFileinfo E := funext (fatFlushFileinfo_withJunk h)
  rw [fatNextSector,hffi,fatNextSectorWith_withJunk]
  rfl

end Flush

/-! ### Calls on a descriptor -/

section Calls
variable {E : Env} {j : ℕ → ℕ → UInt8} (h : E.SameReserved j) (fd : Fd)
include h

theorem closeSlot_withJunk : closeSlot (E.withJunk j) fd = closeSlot E fd := by
  unfold closeSlot
  rw [fatFlush_withJunk h,fatFlushFileinfo_withJunk h]

theorem fatClose_withJunk (fd : ℕ) : fatClose (E.withJunk j) fd = fatClose E fd := by
  rw [fatClose,funext (closeSlot_withJunk h)]
  rfl

theorem fatRead_withJunk (fd n : ℕ) : fatRead (E.withJunk j) fd n = fatRead E fd n := by
  have hloop (fd : Fd) (n : ℕ) : readLoop (E.withJunk j) fd n = readLoop E fd n := by
    induction n with
    | zero => rfl
    | succ n ih => rw [readLoop,readLoop,ih,fatNextSector_withJunk h]
  unfold fatRead readSlot
  simp only [hloop]
  rfl

theorem seekSlot_withJunk (ptr : ℤ) (dir : Whence) : seekSlot (E.withJunk j) ptr dir fd = seekSlot E ptr dir fd := by
  have hwalk (n : ℕ) (e : ℤ) : walkClusters (E.withJunk j) fd n e = walkClusters E fd n e := by
    induction n generalizing e with
    | zero => rfl
    | succ n ih =>
      rw [walkClusters,walkClusters,fatNextCluster_withJunk h]
      simp only [ih]
  unfold seekSlot seekChain
  simp only [hwalk,fatFlush_withJunk h,fatNextSector_withJunk h]
  rfl

theorem fatLseek_withJunk (fd : ℕ) (ptr : ℤ) (dir : Whence) :
    fatLseek (E.withJunk j) fd ptr dir = fatLseek E fd ptr dir := by
  rw [fatLseek,funext fun fd => seekSlot_withJunk h fd ptr dir]
  rfl

theorem fatWrite_withJunk (fd : ℕ) (bytes : List UInt8) : fatWrite (E.withJunk j) fd bytes = fatWrite E fd bytes := by
  have hloop (fd : Fd) (bytes : List UInt8) : writeLoop (E.withJunk j) fd bytes = writeLoop E fd bytes := by
    induction bytes with
    | nil => rfl
    | cons c bytes ih => rw [writeLoop,writeLoop,ih,fatNextSector_withJunk h]
  unfold fatWrite writeSlot
  simp only [hloop,seekSlot_withJunk h]
  rfl

theorem fatGetNextDirent_withJunk (fd : ℕ) : fatGetNextDirent (E.withJunk j) fd = fatGetNextDirent E fd := by
  have hloop (n : ℕ) : nextDirentLoop (E.withJunk j) fd n = nextDirentLoop E fd n := by
    induction n with
    | zero => rfl
    | succ n ih => rw [nextDirentLoop,nextDirentLoop,ih,fatRead_withJunk h]
  rw [fatGetNextDirent,hloop]
  rfl

omit h in
theorem fatDelete_withJunk : fatDelete (E.withJunk j) fd = fatDelete E fd := by
  unfold fatDelete
  simp only [fatFreeClusters_withJunk]
  rfl

end Calls

/-! ### Names -/

/-- The name a path element is converted to keeps a byte of the array: its base is one character and an
extension follows. -/
def Element.keepsByte (e : List UInt8) : Prop :=
  Element.accepted e ∧ ∃ c x, x ≠ [] ∧ Element.cut (Element.pieces e) = ([c],some x)

/-- The first element of the path is such a name, so the byte is one that no call has assigned. -/
def keepsFirst (path : List UInt8) : Prop := ∃ e ∈ (pathElements path).head?, Element.keepsByte e

/-- The eleven bytes of two names are the same. -/
def DosName.Same (d d' : DosName) : Prop := ∀ i < 11, d.byte i = d'.byte i

/-- Apart from that byte the conversion does not depend on the array. -/
theorem convertElement_same {e : List UInt8} (hne : e ≠ []) (h₀ : 0 ∉ e) {d d' : DosName}
    (h : d.byte 1 = d'.byte 1 ∨ ¬ Element.keepsByte e) :
    convertElement d e = .ok none ∧ convertElement d' e = .ok none ∨
      ∃ n n', convertElement d e = .ok (some n) ∧ convertElement d' e = .ok (some n') ∧ n.Same n' := by
  have hd := Element.convertElement_eq hne h₀ d
  have hd' := Element.convertElement_eq hne h₀ d'
  by_cases ha : Element.accepted e
  · rw [if_pos ha] at hd hd'
    obtain ⟨n,hn,hbytes⟩ := hd
    obtain ⟨n',hn',hbytes'⟩ := hd'
    refine .inr ⟨n,n',hn,hn',fun i hi => ?_⟩
    rw [hbytes i hi,hbytes' i hi]
    rcases h with h | h
    · rw [h]
    · have hcut : ∀ c x, x ≠ [] → Element.cut (Element.pieces e) ≠ ([c],some x) :=
        fun c x hx hc => h ⟨ha,c,x,hx,hc⟩
      generalize Element.cut (Element.pieces e) = p at hcut
      unfold Element.byteOf
      split
      · rfl
      · rfl
      · rename_i c x
        split
        · rfl
        · exact absurd rfl (hcut c x ‹_›)
      · rfl
  · rw [if_neg ha] at hd hd'
    exact .inl ⟨hd,hd'⟩

theorem searchSlots_same {d d' : DosName} (h : d.Same d') (b : Sector) (n i : ℕ) :
    searchSlots d.byte b n i = searchSlots d'.byte b n i := by
  have hcmp (f : ℕ → UInt8) (n i : ℕ) (hn : i + n ≤ 11) : strncmpEq d.byte f n i = strncmpEq d'.byte f n i := by
    induction n generalizing i with
    | zero => rfl
    | succ n ih => rw [strncmpEq,strncmpEq,h i (by omega),ih (i+1) (by omega)]
  induction n generalizing i with
  | zero => rfl
  | succ n ih => rw [searchSlots,searchSlots,hcmp _ 11 0 (by omega),ih]

theorem rename_same {d d' : DosName} (h : d.Same d') : FileS.rename d = FileS.rename d' := by
  have hbyte (i : ℕ) (hi : i < 11) : d ⟨i,by omega⟩ = d' ⟨i,by omega⟩ := by
    have hi' := h i hi
    rwa [DosName.byte,DosName.byte,dif_pos (by omega),dif_pos (by omega)] at hi'
  funext f
  have hbase : (fun k : Fin 8 => d ⟨k,by omega⟩) = fun k : Fin 8 => d' ⟨k,by omega⟩ :=
    funext fun k => hbyte k (by omega)
  have hext : (fun k : Fin 3 => d ⟨8 + k,by omega⟩) = fun k : Fin 3 => d' ⟨8 + k,by omega⟩ :=
    funext fun k => hbyte (8 + k) (by omega)
  rw [FileS.rename,FileS.rename,hbase,hext]

section Lookup
variable {E : Env} {j : ℕ → ℕ → UInt8} (h : E.SameReserved j) (fd : Fd)
include h

theorem scanLoop_withJunk {d d' : DosName} (hd : d.Same d') (n : ℕ) :
    scanLoop (E.withJunk j) fd d n = scanLoop E fd d' n := by
  induction n with
  | zero => rfl
  | succ n ih =>
    rw [scanLoop,scanLoop,ih,fatNextSector_withJunk h]
    simp only [searchSlots_same hd]

theorem lookupLoop_withJunk {elements : List (List UInt8)} (hs : ∀ e ∈ elements, e ≠ [] ∧ 0 ∉ e) {d d' : DosName}
    (hd : d.byte 1 = d'.byte 1 ∨ ∀ e ∈ elements.head?, ¬ Element.keepsByte e) (e : ℤ) :
    lookupLoop (E.withJunk j) fd elements d e = lookupLoop E fd elements d' e := by
  induction elements generalizing d d' e with
  | nil => rfl
  | cons el rest ih =>
    obtain ⟨hne,h₀⟩ := hs el (by simp)
    rw [lookupLoop,lookupLoop]
    rcases convertElement_same hne h₀ (hd.imp_right fun h => h el rfl) with ⟨hn,hn'⟩ | ⟨n,n',hn,hn',hsame⟩
    · rw [hn,hn']
      rfl
    · rw [hn,hn']
      change (scanLoop (E.withJunk j) fd n E.fuel >>= _) = (scanLoop E fd n' E.fuel >>= _)
      rw [scanLoop_withJunk h fd hsame]
      refine bind_congr_right _ fun o => ?_
      have hrest (e : ℤ) := @ih (fun e he => hs e (by simp [he])) n n' (.inl (hsame 1 (by omega))) e
      cases o with
      | none => simp only [rename_same hsame]
      | some i =>
        simp only [hrest]
        rfl

theorem fatLookupPath_withJunk {path : List UInt8} (h₀ : 0 ∉ path)
    (hp : (∀ n, j n 1 = E.junk n 1) ∨ ¬ keepsFirst path) (e : ℤ) :
    fatLookupPath (E.withJunk j) fd path e = fatLookupPath E fd path e := by
  refine ite_congr rfl (fun _ => rfl) fun _ => bind_congr_right _ fun g => ?_
  refine junk_withJunk (R := fun b b' => b 1 = b' 1 ∨ ¬ keepsFirst path)
    (fun n => hp.imp_left fun h => h n) fun b b' hb => bind_congr_right _ fun _ => ?_
  have hstring : ∀ el ∈ (pathElements path).take 20, el ≠ [] ∧ 0 ∉ el := fun el hel =>
    ⟨(pathElements_mem (List.mem_of_mem_take hel)).1,
      fun h => h₀ ((pathElements_mem (List.mem_of_mem_take hel)).2 0 h)⟩
  have hfirst : ∀ el ∈ ((pathElements path).take 20).head?, el ∈ (pathElements path).head? := by
    cases pathElements path with
    | nil => exact fun _ h => h
    | cons a l => exact fun _ h => h
  cases helements : (pathElements path).take 20 with
  | nil => rfl
  | cons el rest =>
    refine bind_congr_right _ fun _ => ?_
    rw [helements] at hstring hfirst
    refine lookupLoop_withJunk h fd hstring ?_ e
    rcases hb with hb | hkeep
    · exact .inl hb
    · exact .inr fun el hel helk => hkeep ⟨el,hfirst el hel,helk⟩

end Lookup

/-! ### Calls with a path -/

/-- The parts of a path that was split. -/
theorem splitPath_ok {path parent name : List UInt8} (hsplit : splitPath path = .ok (parent,name)) :
    path = parent ++ chSlash :: name ∨ path = parent ++ chSlash :: name ++ [chSlash] := by
  unfold splitPath at hsplit
  set p := if path.getLast? = some chSlash then path.dropLast else path with hp
  have hpath : path = p ∨ path = p ++ [chSlash] := by
    by_cases hlast : path.getLast? = some chSlash
    · rw [if_pos hlast] at hp
      rw [hp]
      exact .inr (List.dropLast_append_getLast? _ hlast).symm
    · rw [if_neg hlast] at hp
      exact .inl hp.symm
  dsimp only at hsplit
  split at hsplit
  swap
  · simp at hsplit
  rename_i hmem
  simp only [Except.ok.injEq,Prod.mk.injEq] at hsplit
  obtain ⟨hparent,rfl⟩ := hsplit
  have hrev := List.takeWhile_append_dropWhile (p := (· != chSlash)) (l := p.reverse)
  cases hdrop : p.reverse.dropWhile (· != chSlash) with
  | nil =>
    rw [hdrop,List.append_nil] at hrev
    have hall := List.mem_takeWhile_imp (hrev.symm ▸ List.mem_reverse.2 hmem : chSlash ∈ p.reverse.takeWhile (· != chSlash))
    simp at hall
  | cons c r =>
    have hc := List.head?_dropWhile_not (· != chSlash) p.reverse
    rw [hdrop] at hc hrev
    obtain rfl : c = chSlash := by simpa using hc
    have hsplit : p = r.reverse ++ chSlash :: (p.reverse.takeWhile (· != chSlash)).reverse := by
      have := congrArg List.reverse hrev
      rw [List.reverse_reverse,List.reverse_append,List.reverse_cons,List.append_assoc] at this
      exact this.symm
    have hlen : p.length - (p.reverse.takeWhile (· != chSlash)).reverse.length - 1 = r.reverse.length := by
      have := congrArg List.length hsplit
      rw [List.length_append,List.length_cons] at this
      omega
    have htake : parent = r.reverse := by
      rw [← hparent,hlen]
      conv_lhs => rw [hsplit]
      exact List.take_left
    rw [htake,← hsplit]
    exact hpath

/-- The parent of a path starts with the same element. -/
theorem keepsFirst_parent {path parent name : List UInt8} (hsplit : splitPath path = .ok (parent,name)) :
    (∀ c ∈ parent, c ∈ path) ∧ (keepsFirst parent → keepsFirst path) := by
  have helements : pathElements path = pathElements parent ++ pathElements name := by
    rcases splitPath_ok hsplit with h | h
    · rw [h,pathElements_join]
    · rw [h,pathElements_join,pathElements_join]
      simp [pathElements]
  refine ⟨fun c hc => ?_,?_⟩
  · rcases splitPath_ok hsplit with h | h <;> simp [h,hc]
  · rintro ⟨e,he,hkeep⟩
    refine ⟨e,?_,hkeep⟩
    rw [helements]
    cases hp : pathElements parent with
    | nil => simp [hp] at he
    | cons a l =>
      rw [hp] at he
      exact he

section Paths
variable {E : Env} {j : ℕ → ℕ → UInt8} (h : E.SameReserved j)
include h

theorem fatOpen_withJunk {path : List UInt8} (h₀ : 0 ∉ path) (hp : (∀ n, j n 1 = E.junk n 1) ∨ ¬ keepsFirst path)
    (flags : OpenFlags) (mode : ℕ) (e : ℤ) :
    fatOpen (E.withJunk j) path flags mode e = fatOpen E path flags mode e := by
  unfold fatOpen openExisting truncateFile
  simp only [fatLookupPath_withJunk h _ h₀ hp,fatFreeClusters_withJunk]
  rfl

theorem fatUnlink_withJunk {path : List UInt8} (h₀ : 0 ∉ path)
    (hp : (∀ n, j n 1 = E.junk n 1) ∨ ¬ keepsFirst path) (e : ℤ) :
    fatUnlink (E.withJunk j) path e = fatUnlink E path e := by
  unfold fatUnlink
  simp only [fatOpen_withJunk h h₀ hp,fatDelete_withJunk,closeSlot_withJunk h]

theorem fatRmdir_withJunk {path : List UInt8} (h₀ : 0 ∉ path)
    (hp : (∀ n, j n 1 = E.junk n 1) ∨ ¬ keepsFirst path) (e : ℤ) :
    fatRmdir (E.withJunk j) path e = fatRmdir E path e := by
  have hloop (fd n : ℕ) (e : ℤ) : rmdirLoop (E.withJunk j) fd n e = rmdirLoop E fd n e := by
    induction n generalizing e with
    | zero => rfl
    | succ n ih =>
      rw [rmdirLoop,rmdirLoop,fatGetNextDirent_withJunk h]
      simp only [ih]
  unfold fatRmdir
  simp only [fatOpen_withJunk h h₀ hp,hloop,fatDelete_withJunk,closeSlot_withJunk h]
  rfl

theorem fatMkdir_withJunk {path : List UInt8} (h₀ : 0 ∉ path)
    (hp : (∀ n, j n 1 = E.junk n 1) ∨ ¬ keepsFirst path) : fatMkdir (E.withJunk j) path = fatMkdir E path := by
  have hzero (fd n : ℕ) (e : ℤ) : writeZeroEntries (E.withJunk j) fd n e = writeZeroEntries E fd n e := by
    induction n generalizing e with
    | zero => rfl
    | succ n ih =>
      rw [writeZeroEntries,writeZeroEntries,fatWrite_withJunk h]
      simp only [ih]
  have hseek (fd n : ℕ) : seekEmptyLoop (E.withJunk j) fd n = seekEmptyLoop E fd n := by
    induction n with
    | zero => rfl
    | succ n ih => rw [seekEmptyLoop,seekEmptyLoop,ih,fatRead_withJunk h]
  have hopen (flags : OpenFlags) (mode : ℕ) (e : ℤ) := fatOpen_withJunk h h₀ hp flags mode e
  have hclose := fatClose_withJunk h
  refine ite_congr rfl (fun _ => rfl) fun _ => ite_congr rfl (fun _ => rfl) fun _ => ?_
  cases hsplit : splitPath path with
  | error e => rfl
  | ok parts =>
    obtain ⟨parent,name⟩ := parts
    obtain ⟨hmem,hkeep⟩ := keepsFirst_parent hsplit
    have hparent (flags : OpenFlags) (mode : ℕ) (e : ℤ) :
        fatOpen (E.withJunk j) (if parent = [] then [chSlash] else parent) flags mode e =
          fatOpen E (if parent = [] then [chSlash] else parent) flags mode e := by
      refine fatOpen_withJunk h ?_ ?_ flags mode e
      · split
        · decide
        · exact fun h => h₀ (hmem 0 h)
      · refine hp.imp_right fun hpath => ?_
        split
        · rintro ⟨e,he,-⟩
          simp [pathElements] at he
        · exact fun h => hpath (hkeep h)
    have hparts {β : Type} (k : List UInt8 × List UInt8 → FatM β) :
        (liftStop (.ok (parent,name)) >>= k) = k (parent,name) := rfl
    unfold mkdirEnter mkdirFill abandon
    simp only [hparts,hparent,hopen,hclose,hzero,hseek,fatGetFreeCluster_withJunk,fatFreeClusters_withJunk,
      fatWrite_withJunk h,fatLseek_withJunk h]
    rfl

end Paths

/-! ### Programs -/

/-- The paths of a call are C strings that do not start with a name that keeps a byte. -/
def Call.Assigned : Call → Prop
  | .openPath path _ _ _ | .unlink path _ | .rmdir path _ | .mkdir path => ¬ keepsFirst path
  | _ => True

/-- The path of a call is a C string. -/
def Call.CString : Call → Prop
  | .openPath path _ _ _ | .unlink path _ | .rmdir path _ | .mkdir path => 0 ∉ path
  | _ => True

/-- Make calls one after the other; their replies. -/
def Call.execAll (E : Env) : List Call → FatM (List Reply)
  | [] => pure []
  | c :: calls => do
    let r ← c.exec E
    let rs ← execAll E calls
    pure (r :: rs)

theorem exec_withJunk {E : Env} {j : ℕ → ℕ → UInt8} (h : E.SameReserved j) {c : Call} (h₀ : c.CString)
    (hc : (∀ n, j n 1 = E.junk n 1) ∨ c.Assigned) : c.exec (E.withJunk j) = c.exec E := by
  cases c with
  | openPath path flags mode e =>
    unfold Call.exec
    simp only [fatOpen_withJunk h h₀ hc]
  | read fd n =>
    unfold Call.exec
    simp only [fatRead_withJunk h]
  | write fd bytes =>
    unfold Call.exec
    simp only [fatWrite_withJunk h]
  | lseek fd ptr dir =>
    unfold Call.exec
    simp only [fatLseek_withJunk h]
  | fstat fd => rfl
  | getNextDirent fd =>
    unfold Call.exec
    simp only [fatGetNextDirent_withJunk h]
  | close fd =>
    unfold Call.exec
    simp only [fatClose_withJunk h]
  | unlink path e =>
    unfold Call.exec
    simp only [fatUnlink_withJunk h h₀ hc]
  | rmdir path e =>
    unfold Call.exec
    simp only [fatRmdir_withJunk h h₀ hc]
  | mkdir path =>
    unfold Call.exec
    simp only [fatMkdir_withJunk h h₀ hc]

/-- Create the file `/AB`, write a byte to it and close it. -/
def createAb : List Call :=
  [.openPath [chSlash,0x41,0x42] { oWronly with creat := true } 0o777 0,.write 0 [0x58],.close 0]

end Gristle
