import Gristle.State

/-! Conversion of path elements to the eleven bytes of a directory entry and back. A C string is
the list of its bytes without the terminator; reading or writing outside an array stops. -/
namespace Gristle

/-- A character of a C string; the terminator may be read, what follows it may not. -/
def charAt (s : List UInt8) (i : ℕ) : Except Stop UInt8 :=
  match s[i]? with
  | some c => .ok c
  | none => if i = s.length then .ok 0 else .error .undefined

/-- The string an array of characters holds. -/
def cString (s : List UInt8) : List UInt8 := s.takeWhile (· != 0)

abbrev chSlash : UInt8 := 0x2F
abbrev chBackslash : UInt8 := 0x5C
abbrev chDot : UInt8 := 0x2E
abbrev chSpace : UInt8 := 0x20
abbrev chTilde : UInt8 := 0x7E

/-- The punctuation `doschar` lets through. -/
def dosPunctuation : List UInt8 :=
  [0x21,0x23,0x24,0x25,0x26,0x27,0x28,0x29,0x2D,0x40,0x5E,0x5F,0x60,0x7B,0x7D,0x7E,0x20]

/-- `doschar`: 0 at the end of the string, 1 for an illegal character. -/
def doschar (c : UInt8) : UInt8 :=
  if c = 0 then 0
  else if c = chSlash ∨ c = chBackslash then chSlash
  else if c = chDot then chDot
  else if 0x41 ≤ c ∧ c ≤ 0x5A then c
  else if 0x30 ≤ c ∧ c ≤ 0x39 then c
  else if 0x61 ≤ c ∧ c ≤ 0x7A then c - 0x61 + 0x41
  else if c = 0xE5 then 0x05
  else if 127 < c then c
  else if c ∈ dosPunctuation then c
  else 1

/-- Both `/` and the end of the string end a name. -/
def isEnd (c : UInt8) : Bool := c == chSlash || c == 0

/-! ### `make_dos_name` -/

/-- `char dosname[12]` -/
abbrev DosName := Fin 12 → UInt8

/-- Locals of `make_dos_name`: the array, the character in hand and `*path_pointer`. -/
structure NameCursor where
  dosname : DosName
  c : UInt8
  pointer : ℕ

/-- `c = doschar(*(path + (*path_pointer)++))` -/
def NameCursor.next (path : List UInt8) (k : NameCursor) : Except Stop NameCursor := do
  let c ← charAt path k.pointer
  return { k with c := doschar c, pointer := k.pointer + 1 }

def NameCursor.put (k : NameCursor) (i : ℕ) (v : UInt8) : Except Stop NameCursor :=
  if h : i < 12 then .ok { k with dosname := Function.update k.dosname ⟨i,h⟩ v }
  else .error .undefined

/-- The loop over the eight bytes of the base name; `none` is the exit for an illegal character. -/
def baseLoop (path : List UInt8) : ℕ → ℕ → NameCursor → Except Stop (Option NameCursor)
  | 0, _, k => .ok (some k)
  | n+1, i, k =>
    if isEnd k.c then do baseLoop path n (i+1) (← k.put i chSpace)
    else if k.c = chDot then
      if i = 0 then do baseLoop path n (i+1) (← (← k.put i chDot).next path)
      else if i = 1 then do
        let p ← charAt path k.pointer
        if p = 0 ∨ doschar p = chSlash then
          baseLoop path n (i+1) (← (← k.put i chDot).next path)
        -- the byte is left as it was and the dot stays in hand
        else baseLoop path n (i+1) k
      else do baseLoop path n (i+1) (← k.put i chSpace)
    else if k.c = 1 then .ok none
    else do baseLoop path n (i+1) (← (← k.put i k.c).next path)

/-- The decision after the base name: whether an extension follows. -/
def extensionFollows (path : List UInt8) (k : NameCursor) :
    Except Stop (Option (Bool × NameCursor)) :=
  if k.c = chDot then do return some (true,← k.next path)
  else if isEnd k.c then .ok (some (false,k))
  else do
    let k ← k.next path
    if k.c = chDot then return some (true,← k.next path)
    else if isEnd k.c then return some (false,k)
    else return none

/-- The loop over the three bytes of the extension. -/
def extLoop (path : List UInt8) (follows : Bool) :
    ℕ → ℕ → NameCursor → Except Stop (Option NameCursor)
  | 0, _, k => .ok (some k)
  | n+1, i, k =>
    if follows then
      if isEnd k.c then do extLoop path follows n (i+1) (← k.put (8+i) chSpace)
      else if k.c = 1 then .ok none
      else if k.c = chDot then .ok none
      else do extLoop path follows n (i+1) (← (← k.put (8+i) k.c).next path)
    else do extLoop path follows n (i+1) (← k.put (8+i) chSpace)

/-- `make_dos_name`, from the contents `dosname` happens to have: the array it leaves and
`*path_pointer`, or nothing when it returns -1. -/
def makeDosName (dosname : DosName) (path : List UInt8) (pointer : ℕ) :
    Except Stop (Option (DosName × ℕ)) := do
  let start : NameCursor := ⟨Function.update dosname 11 0,0,pointer⟩
  match ← baseLoop path 8 0 (← start.next path) with
  | none => return none
  | some k =>
    match ← extensionFollows path k with
    | none => return none
    | some (follows,k) =>
      match ← extLoop path follows 3 0 k with
      | none => return none
      | some k => return if isEnd k.c then some (k.dosname,k.pointer - 1) else none

/-! ### `fatname_to_str` -/

/-- `fatname_to_str` on the eleven bytes of an entry: spaces are dropped from the base. -/
def fatnameToStr (name : ℕ → UInt8) : List UInt8 :=
  let base := ((List.range 8).map name).filter (· != chSpace)
  if name 8 = chSpace then base
  else base ++ chDot :: (([8,9,10].map name).takeWhile (· != chSpace))

/-! ### `str_to_fatname` -/

/-- The backward search for a dot among the indices `i, …, 1`. -/
def findDot (url : List UInt8) : ℕ → Option ℕ
  | 0 => none
  | i+1 => if url[i+1]? = some chDot then some (i+1) else findDot url i

/-- How the loop that copies the base name ends. -/
inductive Copied
  | illegal
  | ended (out : List UInt8)
  | more (out : List UInt8)

/-- The loop that copies at most `n` characters of the base name from index `i` on. -/
def copyBase (url : List UInt8) : ℕ → ℕ → List UInt8 → Except Stop Copied
  | 0, _, out => .ok (.more out)
  | n+1, i, out => do
    let c := doschar (← charAt url i)
    if c = 1 then return .illegal
    else if c = 0 then return .ended out
    else if c = chDot then return .more out
    else copyBase url n (i+1) (out ++ [c])

/-- The loop that copies the extension. -/
def copyExt (ext : List UInt8) : ℕ → ℕ → List UInt8 → Except Stop (Option (List UInt8))
  | 0, _, out => .ok (some out)
  | n+1, j, out => do
    let c := doschar (← charAt ext j)
    if c = 0 then return some out
    else if c = 1 then return none
    else copyExt ext n (j+1) (out ++ [c])

/-- `str_to_fatname`: the string left in `dosname`, or nothing when the result is 1. `before` is
the byte in front of `url`, which an empty `url` makes it read. -/
def strToFatname (before : Option UInt8) (url : List UInt8) :
    Except Stop (Option (List UInt8)) := do
  let last ← match url.getLast? with
    | some c => .ok c
    | none => match before with
      | some c => .ok c
      | none => .error .undefined
  let dot := if last = chDot then none else findDot url (url.length - 2)
  -- with an empty string and a dot in front of it the length wraps around
  let nameLen := if last = chDot then (url.length + 2^32 - 1) % 2^32 else dot.getD url.length
  let ext := match dot with
    | some i => url.drop (i+1)
    | none => []
  let long := 8 < nameLen ∨ 3 < ext.length
  match ← copyBase url (if long then 6 else 8) 0 [] with
  | .illegal => return none
  | .ended out => return some out
  | .more out =>
    let out := if long then out ++ [chTilde,0x31] else out
    match ← copyExt ext 3 0 (out ++ [chDot]) with
    | none => return none
    | some out => return some out

/-! ### Paths -/

/-- `strtok(…, "/")`: the nonempty pieces between slashes. -/
def pathElements : List UInt8 → List (List UInt8)
  | [] => []
  | c :: cs =>
    if c = chSlash then pathElements cs
    else match cs with
      | [] => [[c]]
      | d :: _ =>
        if d = chSlash then [c] :: pathElements cs
        else match pathElements cs with
          | e :: es => (c :: e) :: es
          | [] => [[c]]

/-- `strncmp(a, b, n) == 0` -/
def strncmpEq (a b : ℕ → UInt8) : ℕ → ℕ → Bool
  | 0, _ => true
  | n+1, i => if a i ≠ b i then false else if a i = 0 then true else strncmpEq a b n (i+1)

end Gristle
