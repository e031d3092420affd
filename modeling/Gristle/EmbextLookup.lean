import Gristle.Direct
import Mathlib.Data.List.GetD

/-! Reading an entry of an ext2 directory, and a path that leads to the first entry of the root. -/
namespace Gristle
open Prog

namespace Ext2

/-! ### What leaves the static directory entry alone -/

def SameEntry (s t : Ext2State) : Prop := t.de = s.de

instance : Std.Refl SameEntry := ⟨fun _ => rfl⟩
instance : IsTrans Ext2State SameEntry where trans _ _ _ h h' := h'.trans h

section SameEntry
variable (E : Env) (fe : ℕ)

theorem onDevice_sameEntry {α : Type} (x : Prog Device α) : Keeps SameEntry (onDevice x) := by
  intro s a t h
  obtain ⟨d,-,rfl⟩ := zoom_ok h
  rfl

theorem file_sameEntry : Keeps SameEntry (Ext2.file fe) := by
  intro s f t h
  unfold Ext2.file at h
  split at h
  · cases h
    rfl
  · cases h

theorem context_sameEntry : Keeps SameEntry Ext2.context := by
  intro s c t h
  unfold Ext2.context at h
  split at h
  · cases h
    rfl
  · cases h

theorem updateFile_sameEntry (u : FileEnt → FileEnt) : Keeps SameEntry (updateFile fe u) :=
  keeps_modify fun _ => rfl

theorem readBuffer_sameEntry (b : ℕ) : Keeps SameEntry (readBuffer E fe b) := by
  refine keeps_bind (onDevice_sameEntry _) fun o => ?_
  cases o with
  | none => exact keeps_pure true
  | some d => exact keeps_bind (updateFile_sameEntry fe _) fun _ => keeps_pure false

theorem flush_sameEntry : Keeps SameEntry (flush E fe) := by
  refine keeps_bind (file_sameEntry fe) fun f => keeps_ite (keeps_ite (keeps_pure 0) ?_) (keeps_pure 0)
  refine keeps_bind (onDevice_sameEntry _) fun _ => keeps_ite (keeps_pure _) ?_
  exact keeps_bind (updateFile_sameEntry fe _) fun _ => keeps_pure 0

theorem oneShl_sameEntry (k : ℕ) : Keeps SameEntry (oneShl k) :=
  keeps_ite (keeps_pure _) (keeps_ite (keeps_stop _) (keeps_stop _))

theorem shl32_sameEntry (x k : ℕ) : Keeps SameEntry (shl32 x k) := keeps_ite (keeps_pure _) (keeps_stop _)

theorem nextSector_sameEntry : Keeps SameEntry (nextSector E fe) := by
  refine keeps_bind (file_sameEntry fe) fun f => keeps_ite ?_ ?_
  · refine keeps_bind (updateFile_sameEntry fe _) fun _ => keeps_bind (file_sameEntry fe) fun f => ?_
    refine keeps_bind (readBuffer_sameEntry E fe _) fun _ => ?_
    exact keeps_bind (updateFile_sameEntry fe _) fun _ => keeps_pure false
  refine keeps_bind (file_sameEntry fe) fun f => keeps_ite ?_ (keeps_pure true)
  refine keeps_bind (updateFile_sameEntry fe _) fun _ => keeps_bind (file_sameEntry fe) fun f => ?_
  refine keeps_ite (keeps_bind context_sameEntry fun c => ?_) (keeps_pure true)
  refine keeps_bind (oneShl_sameEntry _) fun _ => keeps_bind (shl32_sameEntry _ _) fun _ => ?_
  exact keeps_bind (updateFile_sameEntry fe _) fun _ => readBuffer_sameEntry E fe _

theorem read_sameEntry (n : ℕ) (e : ℤ) : Keeps SameEntry (read E (some fe) n e) := by
  have hloop (n : ℕ) : Keeps SameEntry (readLoop E fe n) := by
    induction n with
    | zero => exact keeps_pure []
    | succ n ih =>
      refine keeps_bind (file_sameEntry fe) fun f => keeps_ite (keeps_pure []) ?_
      refine keeps_ite (keeps_stop _) (keeps_bind (updateFile_sameEntry fe _) fun _ => ?_)
      refine keeps_bind (keeps_ite (nextSector_sameEntry E fe) (keeps_pure false)) fun _ => ?_
      exact keeps_bind ih fun _ => keeps_pure _
  refine keeps_bind (hloop n) fun bytes => keeps_bind (keeps_ite ?_ (keeps_pure ())) fun _ => keeps_pure _
  exact keeps_bind (onDevice_sameEntry _) fun _ => updateFile_sameEntry fe _

theorem lseek_sameEntry (ptr : ℤ) (dir : Whence) : Keeps SameEntry (lseek E (some fe) ptr dir) := by
  have hload (x : ℕ) (n : ℤ) : Keeps SameEntry (do
      if ← readBuffer E fe x then pure (ptr - 1,0) else pure (n,0) : Ext2M (ℤ × ℤ)) :=
    keeps_bind (readBuffer_sameEntry E fe x) fun _ => keeps_ite (keeps_pure _) (keeps_pure _)
  refine keeps_bind (file_sameEntry fe) fun f => keeps_ite (keeps_pure _) (keeps_ite (keeps_pure _) ?_)
  refine keeps_ite (keeps_bind (updateFile_sameEntry fe _) fun _ => keeps_pure _) ?_
  refine keeps_bind context_sameEntry fun c => keeps_bind (oneShl_sameEntry _) fun _ => ?_
  refine keeps_ite (keeps_bind (flush_sameEntry E fe) fun _ => ?_)
    (keeps_bind (flush_sameEntry E fe) fun _ => keeps_ite (keeps_pure _) ?_)
  · exact keeps_bind (updateFile_sameEntry fe _) fun _ => keeps_bind (file_sameEntry fe) fun f => hload _ _
  · exact keeps_bind (oneShl_sameEntry _) fun _ => keeps_bind (updateFile_sameEntry fe _) fun _ =>
      keeps_bind (file_sameEntry fe) fun f => hload _ _

end SameEntry

/-! ### One entry -/

variable {c : Ext2Context} {N fe nb size pos : ℕ} {B : ℕ → Sector} {K : ℕ → ℕ} {f : FileEnt}
  {s : Ext2State} {E : Env}

/-- A seek in a file that is not written to returns, whatever its target. -/
theorem lseek_total (E : Env) (hc : c.WellFormed) (ptr : ℤ) (dir : Whence) (h : At c N fe B f s)
    (hclean : f.flags.dirty = false) : (lseek E (some fe) ptr dir).Returns s fun _ t =>
      ∃ g, At c N fe B g t := by
  have hflush {α : Type} {x : Ext2M α} {Q : α → Ext2State → Prop} (hx : x.Returns s Q) :
      (flush E fe >>= fun _ => x).Returns s Q := by
    refine returns_bind_of_ok (a := 0) (t := s) ?_ hx
    rw [flush,bind_of_ok (show Ext2.file fe s = .ok (f,s) by rw [Ext2.file,h.file]),hclean]
    rfl
  have hload {t : Ext2State} {g : FileEnt} (ht : At c N fe B g t) (x : ℕ) (n : ℤ) : (do
      if ← readBuffer E fe x then pure (ptr - 1,0) else pure (n,0) : Ext2M (ℤ × ℤ)).Returns t
        fun _ u => ∃ g, At c N fe B g u := by
    refine (readBuffer_total E ht x).bind fun _ u hu => ?_
    obtain ⟨d,hu⟩ := hu
    exact returns_ite (fun _ => returns_pure ⟨_,hu⟩) fun _ => returns_pure ⟨_,hu⟩
  have hlog := hc.log
  obtain ⟨b,hb⟩ := h.context
  refine returns_file h (returns_ite (fun _ => returns_pure ⟨f,h⟩) fun _ => ?_)
  refine returns_ite (fun _ => returns_pure ⟨f,h⟩) fun _ => returns_ite (fun _ => ?_) fun _ => ?_
  · exact (updateFile_at h _).bind fun _ t ht => returns_pure ⟨_,ht⟩
  refine returns_context hb ?_
  rw [logPlus_eq hc (by decide),logPlus_eq hc (by decide)]
  refine returns_oneShl (by omega) (returns_ite (fun _ => hflush ?_) fun _ => hflush ?_)
  · exact (updateFile_at h _).bind fun _ t ht => returns_file ht (hload ht _ _)
  refine returns_ite (fun _ => returns_pure ⟨f,h⟩) fun _ => returns_oneShl (by omega) ?_
  exact (updateFile_at h _).bind fun _ t ht => returns_file ht (hload ht _ _)

/-- The entry at the position is read into the static entry. -/
theorem readdir_at (hE : E.NoFault) (hc : c.WellFormed) (hd : c.Direct K nb N) (e : ℤ)
    {ino rec name rest : List UInt8} {len type : UInt8} (h : At c N fe B f s)
    (hr : f.Reads c B K nb size pos) (hclean : f.flags.dirty = false)
    (hsize : size ≤ nb * c.sectors * 512)
    (hbytes : (c.fileContent B K size).drop pos = ino ++ (rec ++ (len :: type :: (name ++ rest))))
    (hino : ino.length = 4) (hrec : rec.length = 2) (hname : name.length = len.toNat)
    (hpos : 0 < i32 ((Sector.ofBytes ino).le32 0)) : (readdir E (some fe) e).Returns s fun p t =>
      p.1 = true ∧ t.de.dIno = i32 ((Sector.ofBytes ino).le32 0) ∧
        (∀ k < len.toNat, t.de.dName k = name.getD k 0) ∧ t.de.dName len.toNat = 0 ∧
        ∃ g, At c N fe B g t := by
  -- the bytes that are left after each of the reads
  have hdrop (k : ℕ) : (c.fileContent B K size).drop (pos + k) =
      (ino ++ (rec ++ (len :: type :: (name ++ rest)))).drop k := by rw [← hbytes,List.drop_drop]
  have h4 : (c.fileContent B K size).drop (pos + 4) = rec ++ (len :: type :: (name ++ rest)) := by
    rw [hdrop,← hino,List.drop_left]
  have h6 : (c.fileContent B K size).drop (pos + 4 + 2) = len :: type :: (name ++ rest) := by
    rw [← List.drop_drop,h4,← hrec,List.drop_left]
  have h7 : (c.fileContent B K size).drop (pos + 4 + 2 + 1) = type :: (name ++ rest) := by
    rw [← List.drop_drop,h6]
    rfl
  have h8 : (c.fileContent B K size).drop (pos + 4 + 2 + 1 + 1) = name ++ rest := by
    rw [← List.drop_drop,h7]
    rfl
  have hde {t : Ext2State} {g : FileEnt} (ht : At c N fe B g t) (d : Ext2Dirent) :
      At c N fe B g { t with de := d } := ⟨ht.context,ht.size,ht.blocks,ht.file⟩
  refine (read_at hE hc hd 4 e h hr hsize).bind fun p t ht => ?_
  obtain ⟨r,e₁,b⟩ := p
  obtain ⟨hb,hres,-,g,hg,hgclean,hread⟩ := ht
  rw [hbytes,← hino,List.take_left] at hb
  obtain rfl : b = ino := hb
  obtain rfl : r = 4 := hres.trans (by rw [hino]; rfl)
  refine returns_ite (fun h => absurd h (by decide)) fun _ => ?_
  rw [hino] at hread
  refine (read_at hE hc hd 2 e₁ hg hread hsize).bind fun p t₂ ht => ?_
  obtain ⟨r,e₂,b₂⟩ := p
  obtain ⟨hb,hres,-,g₂,hg₂,hgclean₂,hread₂⟩ := ht
  rw [h4,← hrec,List.take_left] at hb
  obtain rfl : b₂ = rec := hb
  obtain rfl : r = 2 := hres.trans (by rw [hrec]; rfl)
  refine returns_ite (fun h => absurd h (by decide)) fun _ => ?_
  rw [hrec] at hread₂
  refine (read_at hE hc hd 1 e₂ hg₂ hread₂ hsize).bind fun p t₃ ht => ?_
  obtain ⟨r,e₃,b₃⟩ := p
  obtain ⟨hb,hres,-,g₃,hg₃,hgclean₃,hread₃⟩ := ht
  rw [h6] at hb
  obtain rfl : b₃ = [len] := hb
  obtain rfl : r = 1 := hres
  refine returns_ite (fun h => absurd h (by decide)) fun _ => ?_
  refine (read_at hE hc hd 1 e₃ hg₃ hread₃ hsize).bind fun p t₄ ht => ?_
  obtain ⟨r,e₄,b₄⟩ := p
  obtain ⟨hb,hres,-,g₄,hg₄,hgclean₄,hread₄⟩ := ht
  rw [List.length_singleton,h7] at hb
  obtain rfl : b₄ = [type] := hb
  obtain rfl : r = 1 := hres
  refine returns_ite (fun h => absurd h (by decide)) fun _ => ?_
  refine Returns.bind (Q := fun _ u => At c N fe B g₄ u ∧ u.de.dIno = i32 ((Sector.ofBytes b).le32 0))
    (returns_modify ⟨hde hg₄ _,rfl⟩) fun _ u hu => ?_
  obtain ⟨hu,hude⟩ := hu
  refine returns_ite (fun _ => ?_) fun h => absurd hpos h
  change (read E (some fe) len.toNat e₄ >>= _).Returns u _
  have hname' := (read_at hE hc hd len.toNat e₄ hu hread₄ hsize).keeps (read_sameEntry E fe _ _)
  refine hname'.bind fun p v hv => ?_
  obtain ⟨r,e₅,b₅⟩ := p
  obtain ⟨⟨hb,-,-,g₅,hg₅,hgclean₅,-⟩,hvde⟩ := hv
  rw [List.length_singleton,List.length_singleton,h8,← hname,List.take_left] at hb
  obtain rfl : b₅ = name := hb
  refine Returns.bind (Q := fun _ w => At c N fe B g₅ w ∧ w.de.dIno = i32 ((Sector.ofBytes b).le32 0) ∧
    (∀ k < len.toNat, w.de.dName k = b₅.getD k 0) ∧ w.de.dName len.toNat = 0) (returns_modify ?_)
    fun _ w hw => ?_
  · refine ⟨hde hg₅ _,?_,fun k hk => ?_,if_pos rfl⟩
    · change v.de.dIno = _
      rw [hvde,hude]
    · change (if k = len.toNat then 0 else if k < b₅.length then b₅.getD k 0 else v.de.dName k) = _
      rw [if_neg (by omega),if_pos (by omega)]
  obtain ⟨hw,hwino,hwname,hwend⟩ := hw
  have hdirty : g₅.flags.dirty = false := by rw [hgclean₅,hgclean₄,hgclean₃,hgclean₂,hgclean,hclean]
  refine ((lseek_total E hc _ .cur hw hdirty).keeps (lseek_sameEntry E fe _ _)).bind fun p x hx => ?_
  obtain ⟨⟨g₆,hg₆⟩,hxde⟩ := hx
  refine returns_pure ⟨rfl,?_,fun k hk => ?_,?_,g₆,hg₆⟩
  · rw [hxde,hwino]
  · rw [hxde,hwname k hk]
  · rw [hxde,hwend]

/-! ### A path -/

variable {n : ℤ}

/-- The sector an opened file starts with is the first of its first block. -/
theorem opened_sector (hd : c.Direct (c.inodeAt B n).iBlock nb N) (hnb : 0 < nb) (b : Sector) :
    (opened c B n b).sector = c.dataSector (c.inodeAt B n).iBlock 0 := by
  have hin := hd.inside 0 hnb
  have hdev := hd.device
  have hpos := c.sectors_pos
  change u32 (u32 ((c.inodeAt B n).iBlock 0 * c.sectors) + c.partStart) = _
  have hlt : (c.inodeAt B n).iBlock 0 * c.sectors < 2^32 := by omega
  rw [Ext2Context.dataSector,Nat.zero_div,Nat.zero_mod,u32_of_lt hlt,u32_of_lt (by omega)]
  rfl

/-- A file just opened reads from its first byte. -/
theorem opened_reads {K : ℕ → ℕ} {size : ℕ} {b : Sector} (flags : Ext2Flags) (hd : c.Direct K nb N)
    (hK : ∀ j < 12, (c.inodeAt B n).iBlock j = K j) (hsize : (c.inodeAt B n).iSize = size)
    (hroom : size ≤ nb * c.sectors * 512)
    (hbuffer : (opened c B n b).sector < N → b = B (opened c B n b).sector) :
    FileEnt.Reads c B K nb size 0 { opened c B n b with flags := flags } := by
  refine ⟨hK,hsize,by simp [opened],Nat.zero_le _,fun hlt => ⟨Nat.succ_pos 511,?_⟩⟩
  have hpos : 0 < nb * c.sectors := by omega
  have hnb : 0 < nb := Nat.pos_of_mul_pos_right hpos
  have hcount := hd.count
  have hd' : c.Direct (c.inodeAt B n).iBlock nb N := ⟨hd.count,fun j hj => (hK j (by omega)) ▸ hd.nonzero j hj,
    fun j hj => (hK j (by omega)) ▸ hd.inside j hj,hd.device⟩
  have hsector : (opened c B n b).sector = c.dataSector K 0 := by
    rw [opened_sector hd' hnb,Ext2Context.dataSector,Ext2Context.dataSector,Nat.zero_div,hK 0 (by decide)]
  constructor
  · exact hpos
  · exact hsector
  · exact hbuffer (by rw [hsector]; exact hd.dataSector_lt hpos)
  · change c.sectors - 1 = c.sectors - 1 - 0 % c.sectors
    rw [Nat.zero_mod,Nat.sub_zero]
  · change 0 = 0 / c.sectors
    rw [Nat.zero_div]

/-- On the medium `B` the lookup of the path ends with inode `n` opened. -/
def Leads (E : Env) (c : Ext2Context) (N : ℕ) (path : List UInt8) (n : ℤ) (B : ℕ → Sector) : Prop :=
  ∀ fe f e s, At c N fe B f s → (lookupPath E fe path e).Returns s fun p t => p.1 = 0 ∧
    ∃ b, At c N fe B (opened c B n b) t ∧ ((opened c B n b).sector < N → b = B (opened c B n b).sector)

end Ext2

/-- A name of which the entry holds the bytes and the closing zero. -/
theorem Ext2Dirent.name_eq {de : Ext2Dirent} {name : List UInt8} (hlen : name.length < 256)
    (hname : ∀ k < name.length, de.dName k = name.getD k 0) (hend : de.dName name.length = 0)
    (hzero : ∀ b ∈ name, b ≠ 0) : de.name = name := by
  obtain ⟨m,hm⟩ : ∃ m, 256 = name.length + (1 + m) := ⟨255 - name.length,by omega⟩
  have hsplit : (List.range 256).map de.dName =
      name ++ 0 :: (List.range m).map fun k => de.dName (name.length + (1 + k)) := by
    have hfirst : (List.range name.length).map de.dName = name := by
      refine List.ext_getElem (by simp) fun k _ hk => ?_
      rw [List.getElem_map,List.getElem_range,hname k hk,List.getD_eq_getElem _ _ hk]
    rw [hm,List.range_add,List.map_append,hfirst,List.range_add]
    simp [hend,Function.comp_def]
  rw [Ext2Dirent.name,hsplit,cString,List.takeWhile_append_of_pos fun b hb => by simpa using hzero b hb]
  simp

namespace Ext2
variable {c : Ext2Context} {N : ℕ} {B : ℕ → Sector} {n : ℤ} {E : Env}

/-- A path of one element leads to the first entry of the root when that has the element for a name. -/
theorem leads_first (hE : E.NoFault) (hfuel : 0 < E.fuel) (hc : c.WellFormed) {path element : List UInt8}
    (hpath : (pathElements (path.take (maxExt2PathLen - 1))).take maxPathLevels = [element])
    (hroot : c.Holds B ext2RootIno N) (hd : c.Direct (c.inodeAt B ext2RootIno).iBlock 1 N)
    (hsize : (c.inodeAt B ext2RootIno).iSize ≤ 1 * c.sectors * 512) (hn : c.Holds B n N)
    {ino rec rest : List UInt8} {len type : UInt8}
    (hbytes : c.fileContent B (c.inodeAt B ext2RootIno).iBlock (c.inodeAt B ext2RootIno).iSize =
      ino ++ (rec ++ (len :: type :: (element ++ rest))))
    (hino : ino.length = 4) (hrec : rec.length = 2) (hname : element.length = len.toNat)
    (hzero : ∀ b ∈ element, b ≠ 0) (hnumber : i32 ((Sector.ofBytes ino).le32 0) = n) (hpos : 0 < n) :
    Leads E c N path n B := by
  intro fe f e s h
  obtain ⟨fuel,hfuel⟩ : ∃ k, E.fuel = k + 1 := ⟨E.fuel - 1,by omega⟩
  rw [lookupPath,hpath,lookupLoop]
  refine (openInode_at hE hc hroot h).bind fun _ t ht => ?_
  obtain ⟨-,b,ht,hbuffer⟩ := ht
  have hread := opened_reads (opened c B ext2RootIno b).flags hd (fun _ _ => rfl) rfl hsize hbuffer
  have hfind : (findEntry E fe element E.fuel e).Returns t fun p u => p.1 = some n ∧
      ∃ g, At c N fe B g u := by
    rw [hfuel,findEntry]
    refine (readdir_at hE hc hd e ht hread rfl hsize hbytes hino hrec hname (hnumber ▸ hpos)).bind fun p u hu => ?_
    obtain ⟨found,e'⟩ := p
    obtain ⟨hfound,hdIno,hdName,hdEnd,hg⟩ := hu
    obtain rfl : found = true := hfound
    refine returns_ite (fun _ => returns_bind_of_ok rfl ?_) fun h => absurd rfl h
    rw [← hname] at hdName hdEnd
    have hlen : element.length < 256 := hname ▸ UInt8.toNat_lt len
    rw [if_pos (Ext2Dirent.name_eq hlen hdName hdEnd hzero)]
    exact returns_pure ⟨by rw [hdIno,hnumber],hg⟩
  refine hfind.bind fun p u hu => ?_
  obtain ⟨o,e'⟩ := p
  obtain ⟨ho,g,hg⟩ := hu
  obtain rfl : o = some n := ho
  refine (openInode_at hE hc hn hg).bind fun r v hv => returns_pure ?_
  exact hv

end Ext2

end Gristle
