import Gristle.Fat

/-! `fat_lookup_path`: from the root, one element of the path at a time. -/
namespace Gristle
open Prog (get stop)

/-- What the sixteen slots of a block say about a name. -/
inductive SlotSearch
  | last
  | found (i : ℕ)
  | absent
  deriving DecidableEq, Repr

/-- The loop over the slots `i, …, i+n-1` of a block: an empty slot ends the search. -/
def searchSlots (name : ℕ → UInt8) (b : Sector) : ℕ → ℕ → SlotSearch
  | 0, _ => .absent
  | n+1, i =>
    if b.get (32*i) = 0 then .last
    else if strncmpEq name (fun k => b.get (32*i + k)) 11 0 then .found i
    else searchSlots name b n (i+1)

def DosName.byte (d : DosName) (i : ℕ) : UInt8 := if h : i < 12 then d ⟨i,h⟩ else 0

/-- Search the directory the descriptor stands on; `none` when the name is not there. -/
def scanLoop (E : Env) (fd : Fd) (name : DosName) : ℕ → FatM (Option ℕ)
  | 0 => stop .fuel
  | n+1 => do
    let f ← file fd
    match searchSlots name.byte f.buffer 16 0 with
    | .last => pure none
    | .found i => pure (some i)
    | .absent => if ← fatNextSector E fd then pure none else scanLoop E fd name n

/-- A failing search leaves the name it looked for in the descriptor. -/
def FileS.rename (name : DosName) (f : FileS) : FileS :=
  { f with
    filename := fun k => name ⟨k,by omega⟩
    extension := fun k => name ⟨8 + k,by omega⟩ }

/-- The fields a descriptor takes from the entry in slot `i` of its block. -/
def FileS.load (E : Env) (g : FatInfo) (de : DirentS) (i : ℕ) (f : FileS) : FileS :=
  { f with
    error := 0
    flags := .justOpen
    filename := de.filename
    extension := de.extension
    attributes := de.attributes
    size := de.size
    -- an entry without a cluster, such as a `..` entry below the root, stands for the root
    fullFirstCluster := if de.cluster g = 0 then g.rootCluster else de.cluster g
    entrySector := f.sector
    entryNumber := i
    fileSector := 0
    created := fatToUnixDate E de.createDate + fatToUnixTime E de.createTime + de.createTimeFine
    -- the time of the modification is decoded from its date
    modified := fatToUnixDate E de.modifiedDate + fatToUnixTime E de.modifiedDate
    accessed := fatToUnixDate E de.accessDate }

/-- The fields a descriptor gets when the path has no elements. -/
def FileS.loadRoot (g : FatInfo) (f : FileS) : FileS :=
  { f with
    fullFirstCluster := g.rootCluster
    entrySector := 0
    entryNumber := 0
    fileSector := 0
    attributes := attSubdir
    size := 0
    accessed := 0
    modified := 0
    created := 0 }

/-- An undefined step of a string function is undefined for the caller. -/
def liftStop {α : Type} (x : Except Stop α) : FatM α :=
  match x with
  | .ok a => pure a
  | .error e => stop e

/-- `str_to_fatname` and then `make_dos_name` on its result. -/
def convertElement (dosname : DosName) (element : List UInt8) : Except Stop (Option DosName) := do
  match ← strToFatname none element with
  | none => return none
  | some url =>
    match ← makeDosName dosname url 0 with
    | none => return none
    | some (name,_) => return some name

/-- The loop of `fat_lookup_path` over the elements that are left, with the result and `*rerrno`;
`dosname` is one array for the whole path. -/
def lookupLoop (E : Env) (fd : Fd) :
    List (List UInt8) → DosName → ℤ → FatM (ℤ × ℤ)
  -- the loop is left at the last element at the latest
  | [], _, _ => pure (-1,eIo)
  | element :: rest, dosname, rerrno => do
    match ← liftStop (convertElement dosname element) with
    | none => pure (-1,eIo)
    | some name =>
      match ← scanLoop E fd name E.fuel with
      | none =>
        updateFile fd (FileS.rename name)
        pure (-1,if rest ≠ [] then badPath else eNoent)
      | some i =>
        let f ← file fd
        let g ← fatfs
        let de := f.buffer.dirent i
        if rest = [] then
          updateFile fd (FileS.load E g de i)
          let f ← file fd
          let _ ← fatSelectCluster E fd f.fullFirstCluster
          pure (0,rerrno)
        else if de.isSubdir then
          let c := if de.cluster g = 0 then g.rootCluster else de.cluster g
          updateFile fd fun f => { f with parentCluster := c }
          let _ ← fatSelectCluster E fd c
          lookupLoop E fd rest name rerrno
        else pure (-1,eNotdir)

/-- `fat_lookup_path`, with the value of `*rerrno` -/
def fatLookupPath (E : Env) (fd : Fd) (path : List UInt8) (rerrno : ℤ) : FatM (ℤ × ℤ) := do
  if 99 < path.length then pure (-1,eNametoolong)
  else
    let g ← fatfs
    let garbage ← junk E
    let _ ← fatSelectCluster E fd g.rootCluster
    -- `elements` has room for twenty; what follows the twentieth is dropped
    match (pathElements path).take 20 with
    | [] =>
      updateFile fd (FileS.loadRoot g)
      let _ ← fatSelectCluster E fd g.rootCluster
      pure (0,rerrno)
    | elements =>
      updateFile fd fun f => { f with parentCluster := g.rootCluster }
      lookupLoop E fd elements (fun k => garbage k) rerrno

end Gristle
