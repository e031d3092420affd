import Mathlib.Algebra.Order.Floor.Div
import Gristle.Run
import Gristle.Lib.Overwrite

/-! What the calls on files are for: files are lists of bytes that grow cluster by cluster while there are free
clusters, and a descriptor is a position in one of them. A call whose effect is not promised stops. -/
namespace Gristle
open Prog (stop)

/-! ### One open file -/

/-- An open file: its bytes, the room its clusters have, the clusters that are free, the position and the
access. -/
structure OpenFile where
  content : List UInt8
  capacity : ℕ
  free : ℕ
  pos : ℕ
  read : Bool
  write : Bool
  append : Bool
  deriving DecidableEq, Repr

namespace OpenFile
variable (unit : ℕ) (o : OpenFile)

/-- The clusters the file takes to have room for `n` bytes, as far as there are any. -/
def wanted (n : ℕ) : ℕ := min o.free ((n - o.capacity) ⌈/⌉ unit)

/-- The file once it took them. -/
def grow (n : ℕ) : OpenFile :=
  { o with capacity := o.capacity + o.wanted unit n * unit, free := o.free - o.wanted unit n }

/-- The file with one cluster more. -/
def extend : OpenFile := { o with capacity := o.capacity + unit, free := o.free - 1 }

/-- The file with these bytes put at the position. -/
def put (bytes : List UInt8) : OpenFile :=
  { o with content := overwrite o.content o.pos bytes, pos := o.pos + bytes.length }

/-- The file after a write: it grows as far as it can, and what there is no room for is not stored. -/
def store (bytes : List UInt8) : OpenFile :=
  let p := o.grow unit (o.pos + bytes.length)
  p.put (bytes.take (p.capacity - p.pos))

/-- All of the bytes find room. -/
def Stores (bytes : List UInt8) : Prop :=
  o.pos + bytes.length ≤ (o.grow unit (o.pos + bytes.length)).capacity

instance (bytes : List UInt8) : Decidable (o.Stores unit bytes) := inferInstanceAs (Decidable (_ ≤ _))

/-- A writer that stands behind its last cluster takes the next one before it moves. -/
def turned : OpenFile := if o.write ∧ o.pos = o.capacity then o.grow unit (o.pos + 1) else o

/-- What a seek counts from. -/
def base : Whence → ℕ
  | .set => 0
  | .cur => o.pos
  | .end_ => o.content.length

/-- Read: the bytes from the position on, up to the end of the file. -/
def reading (count : ℕ) : Prog OpenFile (ℤ × ℤ × List UInt8) := fun o =>
  if o.read = false then .ok ((-1,eBadf,[]),o)
  else
    let bytes := (o.content.drop o.pos).take count
    .ok ((bytes.length,0,bytes),{ o with pos := o.pos + bytes.length })

/-- Seek to a byte up to the end of the file, if that is not the one behind its last cluster. -/
def seeking (ptr : ℤ) (dir : Whence) : Prog OpenFile (ℤ × ℤ) := fun o =>
  let t := o.base dir + ptr
  if ptr < -2^31 ∨ 2^31 ≤ ptr then .error .undefined
  else if t < 0 ∨ o.content.length < t then .ok ((ptr - 1,0),o)
  else if t = (o.turned unit).capacity then .error .undefined
  else .ok ((t,0),{ o.turned unit with pos := t.toNat })

/-- Store bytes at the position; a file stays below 2^31 bytes. -/
def storing (bytes : List UInt8) : Prog OpenFile (ℤ × ℤ) := fun o =>
  if 2^31 ≤ o.pos + bytes.length then .error .undefined
  else .ok (if o.Stores unit bytes then (bytes.length,0) else (-1,eIo),o.store unit bytes)

/-- Write, at the end of the file if it was opened to append. -/
def writing (bytes : List UInt8) : Prog OpenFile (ℤ × ℤ) := fun o =>
  if o.write = false then .ok ((-1,eBadf),o)
  else (do
    let _ ← (if o.append then seeking unit 0 .end_ else pure (0,0))
    storing unit bytes) o

/-! ### Byte by byte -/

variable {unit} {o} {n : ℕ} {c : UInt8} {bytes : List UInt8}

theorem wanted_of_le (h : n ≤ o.capacity) : o.wanted unit n = 0 := by
  rw [wanted,Nat.sub_eq_zero_of_le h,zero_ceilDiv,Nat.min_zero]

theorem grow_of_le (h : n ≤ o.capacity) : o.grow unit n = o := by
  rw [grow,wanted_of_le h,Nat.zero_mul]
  rfl

theorem grow_of_full (h : o.free = 0) : o.grow unit n = o := by
  rw [grow,wanted,h,Nat.zero_min,Nat.zero_mul,Nat.sub_zero,Nat.add_zero,← h]

/-- The first of the clusters it takes. -/
theorem grow_extend (hunit : 0 < unit) (hfree : 0 < o.free) (hn : o.capacity < n) :
    o.grow unit n = (o.extend unit).grow unit n := by
  have hceil : (n - o.capacity) ⌈/⌉ unit = (n - (o.capacity + unit)) ⌈/⌉ unit + 1 := by
    rw [Nat.ceilDiv_eq_add_pred_div,Nat.ceilDiv_eq_add_pred_div]
    by_cases h : n ≤ o.capacity + unit
    · rw [Nat.sub_eq_zero_of_le h,Nat.zero_add,Nat.div_eq_of_lt (by omega : unit - 1 < unit)]
      exact Nat.div_eq_of_lt_le (by omega) (by omega)
    · rw [show n - o.capacity + unit - 1 = n - (o.capacity + unit) + unit - 1 + unit by omega,
        Nat.add_div_right _ hunit]
  have hwanted : o.wanted unit n = (o.extend unit).wanted unit n + 1 := by
    simp only [wanted,extend]
    omega
  simp only [grow,hwanted,extend,Nat.add_mul,Nat.one_mul]
  congr 1 <;> omega

theorem le_capacity_grow (o : OpenFile) (n : ℕ) : o.capacity ≤ (o.grow unit n).capacity := Nat.le_add_right _ _

theorem turned_pos (o : OpenFile) : (o.turned unit).pos = o.pos := by
  rw [turned]
  split <;> rfl

theorem turned_content (o : OpenFile) : (o.turned unit).content = o.content := by
  rw [turned]
  split <;> rfl

theorem turned_write (o : OpenFile) : (o.turned unit).write = o.write := by
  rw [turned]
  split <;> rfl

theorem turned_of_full (hfree : o.free = 0) : o.turned unit = o := by
  rw [turned]
  split
  · exact grow_of_full hfree
  · rfl

theorem turned_of_room (h : o.pos < o.capacity) : o.turned unit = o := if_neg fun h' => h.ne h'.2

theorem turned_of_read (h : o.write = false) : o.turned unit = o := if_neg fun h' => by simp [h] at h'

theorem turned_extend (hunit : 0 < unit) (hfree : 0 < o.free) (hwrite : o.write = true)
    (hpos : o.pos = o.capacity) : o.turned unit = o.extend unit := by
  rw [turned,if_pos ⟨hwrite,hpos⟩,grow_extend hunit hfree (by omega)]
  apply grow_of_le
  change o.pos + 1 ≤ o.capacity + unit
  omega

/-- A seek leaves content and access alone. -/
theorem seeking_ok {ptr : ℤ} {dir : Whence} {r : ℤ × ℤ} {o' : OpenFile}
    (h : seeking unit ptr dir o = .ok (r,o')) : r.2 = 0 ∧ o'.content = o.content ∧ o'.write = o.write := by
  rw [seeking] at h
  dsimp only at h
  split at h
  · simp at h
  split at h
  · simp only [Except.ok.injEq,Prod.mk.injEq] at h
    obtain ⟨rfl,rfl⟩ := h
    exact ⟨rfl,rfl,rfl⟩
  split at h
  · simp at h
  · simp only [Except.ok.injEq,Prod.mk.injEq] at h
    obtain ⟨rfl,rfl⟩ := h
    exact ⟨rfl,turned_content o,turned_write o⟩

theorem store_nil (h : o.pos ≤ o.capacity) : o.store unit [] = o ∧ o.Stores unit [] := by
  rw [store,Stores,List.length_nil,Nat.add_zero,grow_of_le h,List.take_nil]
  refine ⟨?_,h⟩
  rw [put,overwrite_nil]
  rfl

/-- A byte there is room for. -/
theorem store_put (hpos : o.pos ≤ o.content.length) (hroom : o.pos < o.capacity) :
    o.store unit (c :: bytes) = (o.put [c]).store unit bytes ∧
      (o.Stores unit (c :: bytes) ↔ (o.put [c]).Stores unit bytes) := by
  have hend : o.pos + (c :: bytes).length = (o.put [c]).pos + bytes.length := by
    rw [List.length_cons]
    change _ = o.pos + 1 + bytes.length
    omega
  have hgrow : (o.put [c]).grow unit (o.pos + (c :: bytes).length) =
      (o.grow unit (o.pos + (c :: bytes).length)).put [c] := rfl
  have hcap : o.pos < (o.grow unit (o.pos + (c :: bytes).length)).capacity :=
    hroom.trans_le (le_capacity_grow o _)
  refine ⟨?_,?_⟩
  · rw [store,store,← hend,hgrow]
    set p := o.grow unit (o.pos + (c :: bytes).length) with hp
    have hp₁ : p.pos = o.pos := rfl
    have hp₂ : p.content = o.content := rfl
    have htake : (c :: bytes).take (p.capacity - p.pos) = c :: bytes.take (p.capacity - (p.pos + 1)) := by
      rw [show p.capacity - p.pos = p.capacity - (p.pos + 1) + 1 by omega,List.take_succ_cons]
    change p.put ((c :: bytes).take (p.capacity - p.pos)) =
      (p.put [c]).put (bytes.take (p.capacity - (p.pos + 1)))
    rw [htake,put,put,put,hp₁,hp₂]
    simp only [List.length_cons,List.length_nil,overwrite_cons hpos]
    congr 1
    omega
  · rw [Stores,Stores,← hend,hgrow]
    rfl

/-- A byte behind the last cluster, when there is a free one. -/
theorem store_extend (hunit : 0 < unit) (hfree : 0 < o.free) (hpos : o.pos = o.capacity) :
    o.store unit (c :: bytes) = (o.extend unit).store unit (c :: bytes) ∧
      (o.Stores unit (c :: bytes) ↔ (o.extend unit).Stores unit (c :: bytes)) := by
  have hgrow : o.grow unit (o.pos + (c :: bytes).length) =
      (o.extend unit).grow unit (o.pos + (c :: bytes).length) :=
    grow_extend hunit hfree (by rw [List.length_cons]; omega)
  refine ⟨?_,?_⟩
  · rw [store,hgrow]
    rfl
  · rw [Stores,hgrow]
    rfl

/-- A byte behind the last cluster, when there is no free one. -/
theorem store_full (hfree : o.free = 0) (hpos : o.pos = o.capacity) :
    o.store unit (c :: bytes) = o ∧ ¬ o.Stores unit (c :: bytes) := by
  rw [store,Stores,grow_of_full hfree,hpos,Nat.sub_self,List.take_zero]
  refine ⟨?_,?_⟩
  · rw [put,overwrite_nil]
    rfl
  · rw [List.length_cons]
    omega

/-- A writer turns before it stores. -/
theorem store_turned (hunit : 0 < unit) (hwrite : o.write = true) (hle : o.pos ≤ o.capacity) :
    (o.turned unit).store unit (c :: bytes) = o.store unit (c :: bytes) ∧
      ((o.turned unit).Stores unit (c :: bytes) ↔ o.Stores unit (c :: bytes)) := by
  rcases hle.lt_or_eq with hroom | hpos
  · rw [turned_of_room hroom]
    exact ⟨rfl,Iff.rfl⟩
  rcases Nat.eq_zero_or_pos o.free with hfree | hfree
  · rw [turned_of_full hfree]
    exact ⟨rfl,Iff.rfl⟩
  · rw [turned_extend hunit hfree hwrite hpos]
    exact ⟨(store_extend hunit hfree hpos).1.symm,(store_extend hunit hfree hpos).2.symm⟩

/-- A writer that turned and is still behind its last cluster found no free one. -/
theorem turned_behind (hunit : 0 < unit) (hwrite : o.write = true) (hle : o.pos ≤ o.capacity)
    (h : o.pos = (o.turned unit).capacity) : (o.turned unit).free = 0 := by
  rcases hle.lt_or_eq with hroom | hpos
  · rw [turned_of_room hroom] at h
    omega
  rcases Nat.eq_zero_or_pos o.free with hfree | hfree
  · rw [turned_of_full hfree]
    exact hfree
  · rw [turned_extend hunit hfree hwrite hpos] at h
    change o.pos = o.capacity + unit at h
    omega

end OpenFile

/-! ### All files -/

/-- A file: its bytes, the room its clusters have and whether it must not be written. -/
structure StoredFile where
  content : List UInt8
  capacity : ℕ
  locked : Bool
  deriving DecidableEq, Repr

/-- A descriptor: its file, the position in it and the access. -/
structure Handle (ι : Type) where
  file : ι
  pos : ℕ
  read : Bool
  write : Bool
  append : Bool
  deriving DecidableEq, Repr

/-- The files, the descriptors and the number of free clusters. -/
structure FileSystem (ι : Type) where
  files : ι → Option StoredFile
  table : ℕ → Option (Handle ι)
  free : ℕ

/-- What no call changes: the bytes of a cluster, whether the volume may be written, and the files that paths
name. -/
structure Tree (ι : Type) where
  unit : ℕ
  readOnly : Bool
  names : List UInt8 → Option ι

namespace FileSystem
variable {ι α : Type} [DecidableEq ι]

/-- The file behind a descriptor. -/
def opened (Φ : FileSystem ι) (h : Handle ι) (F : StoredFile) : OpenFile :=
  ⟨F.content,F.capacity,Φ.free,h.pos,h.read,h.write,h.append⟩

/-- What became of the file behind descriptor `fd`. -/
def update (Φ : FileSystem ι) (fd : ℕ) (h : Handle ι) (F : StoredFile) (o : OpenFile) : FileSystem ι where
  files := Function.update Φ.files h.file (some { F with content := o.content, capacity := o.capacity })
  table := Function.update Φ.table fd (some { h with pos := o.pos })
  free := o.free

/-- A file that nothing became of. -/
theorem update_opened {Φ : FileSystem ι} {fd : ℕ} {h : Handle ι} {F : StoredFile} (htable : Φ.table fd = some h)
    (hfile : Φ.files h.file = some F) : Φ.update fd h F (Φ.opened h F) = Φ := by
  simp only [update,opened]
  rw [← hfile,← htable,Function.update_eq_self,Function.update_eq_self]

/-- A call on a descriptor, with the reply when it is not open. -/
def onFile (fd : ℕ) (bad : α) (x : Prog OpenFile α) : Prog (FileSystem ι) α := fun Φ =>
  match Φ.table fd with
  | none => .ok (bad,Φ)
  | some h => match Φ.files h.file with
    | none => .error .undefined
    | some F => match x (Φ.opened h F) with
      | .error e => .error e
      | .ok (a,o) => .ok (a,Φ.update fd h F o)

/-- Close a descriptor. -/
def closing (fd : ℕ) : Prog (FileSystem ι) (ℤ × ℤ) := fun Φ =>
  if Φ.table fd = none then .ok ((-1,eBadf),Φ)
  else .ok ((0,0),{ Φ with table := Function.update Φ.table fd none })

/-- The file is open already. -/
def isOpen (Φ : FileSystem ι) (i : ι) : Bool :=
  (List.range maxOpenFiles).any fun n => (Φ.table n).any fun h => h.file = i

/-- The least descriptor that is not open. -/
def freeSlot (Φ : FileSystem ι) : Option ℕ := (List.range maxOpenFiles).find? fun n => (Φ.table n).isNone

/-- Hand out descriptor `n` on a file that is not open yet. -/
def grant (n : ℕ) (i : ι) (flags : OpenFlags) (e : ℤ) : Prog (FileSystem ι) (ℤ × ℤ) := fun Φ =>
  if Φ.isOpen i then .error .undefined
  else .ok ((n,e),{ Φ with table := Function.update Φ.table n (some
    ⟨i,0,flags.rdwr || !flags.wronly,flags.rdwr || flags.wronly,flags.append⟩) })

/-- Open a file that is there, without truncating it. -/
def opening (T : Tree ι) (path : List UInt8) (flags : OpenFlags) (e : ℤ) : Prog (FileSystem ι) (ℤ × ℤ) := fun Φ =>
  match Φ.freeSlot with
  | none => .ok ((-1,eNfile),Φ)
  | some n => match T.names path with
    | none => .error .undefined
    | some i => match Φ.files i with
      | none => .error .undefined
      | some F =>
        if flags.creat ∧ flags.excl then .ok ((-1,eExist),Φ)
        else if ¬ flags.wronly ∧ ¬ flags.rdwr then grant n i flags e Φ
        else if T.readOnly then .ok ((-1,eRofs),Φ)
        else if F.locked then .ok ((-1,eAcces),Φ)
        else if flags.trunc then .error .undefined
        else grant n i flags e Φ

/-- Make a call. -/
def exec (T : Tree ι) : Call → Prog (FileSystem ι) Reply
  | .openPath path flags _ rerrno => do
    let (r,e) ← opening T path flags rerrno
    pure { result := r, rerrno := e }
  | .read fd count => do
    let (r,e,bytes) ← onFile fd (-1,eBadf,[]) (OpenFile.reading count)
    pure { result := r, rerrno := e, bytes := bytes }
  | .write fd bytes => do
    let (r,e) ← onFile fd (-1,eBadf) (OpenFile.writing T.unit bytes)
    pure { result := r, rerrno := e }
  | .lseek fd ptr dir => do
    let (r,e) ← onFile fd (ptr - 1,eBadf) (OpenFile.seeking T.unit ptr dir)
    pure { result := r, rerrno := e }
  | .fstat fd => do
    let (r,e) ← onFile fd (-1,eBadf) (pure (0,0))
    pure { result := r, rerrno := e }
  | .close fd => do
    let (r,e) ← closing fd
    pure { result := r, rerrno := e }
  | _ => stop .undefined

end FileSystem

end Gristle
