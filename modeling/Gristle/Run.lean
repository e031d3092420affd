import Gristle.Mount
import Gristle.Lib.Steps

/-! Programs that use the driver: sequences of calls with any arguments. -/
namespace Gristle

/-- A call of the FAT driver with its arguments. -/
inductive Call
  | openPath (path : List UInt8) (flags : OpenFlags) (mode : ℕ) (rerrno : ℤ)
  | read (fd count : ℕ)
  | write (fd : ℕ) (bytes : List UInt8)
  | lseek (fd : ℕ) (ptr : ℤ) (dir : Whence)
  | fstat (fd : ℕ)
  | getNextDirent (fd : ℕ)
  | close (fd : ℕ)
  | unlink (path : List UInt8) (rerrno : ℤ)
  | rmdir (path : List UInt8) (rerrno : ℤ)
  | mkdir (path : List UInt8)

/-- The result of a call, `*rerrno` and the bytes it delivers. -/
structure Reply where
  result : ℤ
  rerrno : ℤ
  bytes : List UInt8 := []
  deriving DecidableEq, Repr

/-- Make a call. -/
def Call.exec (E : Env) : Call → FatM Reply
  | .openPath path flags mode rerrno => do
    let (r,e) ← fatOpen E path flags mode rerrno
    pure { result := r, rerrno := e }
  | .read fd count => do
    let (r,e,bytes) ← fatRead E fd count
    pure { result := r, rerrno := e, bytes := bytes }
  | .write fd bytes => do
    let (r,e) ← fatWrite E fd bytes
    pure { result := r, rerrno := e }
  | .lseek fd ptr dir => do
    let (r,e) ← fatLseek E fd ptr dir
    pure { result := r, rerrno := e }
  | .fstat fd => do
    let (r,e,_) ← fatFstat fd
    pure { result := r, rerrno := e }
  | .getNextDirent fd => do
    let (r,e,de) ← fatGetNextDirent E fd
    pure { result := r, rerrno := e, bytes := de.elim [] Dirent.dName }
  | .close fd => do
    let (r,e) ← fatClose E fd
    pure { result := r, rerrno := e }
  | .unlink path rerrno => do
    let (r,e) ← fatUnlink E path rerrno
    pure { result := r, rerrno := e }
  | .rmdir path rerrno => do
    let (r,e) ← fatRmdir E path rerrno
    pure { result := r, rerrno := e }
  | .mkdir path => do
    let (r,e) ← fatMkdir E path
    pure { result := r, rerrno := e }

/-- The descriptor a call works on. -/
def Call.fd? : Call → Option ℕ
  | .read fd _ | .write fd _ | .lseek fd _ _ | .fstat fd | .getNextDirent fd | .close fd => some fd
  | _ => none

/-- One call that returns. -/
def Step (E : Env) (s : FatState) (c : Call) (t : FatState) : Prop :=
  ∃ r, c.exec E s = .ok (r,t)

/-- A program that runs to its end. -/
abbrev Runs (E : Env) : FatState → List Call → FatState → Prop := Steps (Step E)

end Gristle
