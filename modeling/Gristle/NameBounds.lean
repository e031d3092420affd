import Gristle.Aliasing

/-! The name conversions stay inside their arrays: what `make_dos_name` reads, and the arrays
`str_to_fatname` and `fatname_to_str` write, byte by byte. -/
namespace Gristle

/-! ### `make_dos_name` -/

/-- The character in hand belongs to the string, or is its terminator. -/
def NameCursor.Within (path : List UInt8) (k : NameCursor) : Prop :=
  ∃ p ≤ path.length, k.Reads path p

namespace NameCursor
variable {path : List UInt8} {k : NameCursor}

/-- Behind a character that is not the terminator there is another one. -/
theorem Reads.lt {p : ℕ} (hk : k.Reads path p) (hp : p ≤ path.length) (hc : k.c ≠ 0) : p < path.length := by
  apply lt_of_le_of_ne hp
  intro he
  apply hc
  rw [hk.c,he,List.getD_eq_default _ _ le_rfl]
  rfl

theorem Within.next (h : k.Within path) (hc : k.c ≠ 0) :
    ∃ k' : NameCursor, k.next path = .ok k' ∧ k'.Within path := by
  obtain ⟨p,hp,hk⟩ := h
  obtain ⟨k',hnext,hk',-⟩ := hk.next (hk.lt hp hc)
  exact ⟨k',hnext,p+1,hk.lt hp hc,hk'⟩

theorem Within.put (h : k.Within path) {i : ℕ} (hi : i < 12) (v : UInt8) :
    ∃ k' : NameCursor, k.put i v = .ok k' ∧ k'.Within path ∧ k'.c = k.c := by
  obtain ⟨p,hp,hk⟩ := h
  exact ⟨_,put_ok k hi v,⟨p,hp,hk.c,hk.pointer⟩,rfl⟩

/-- Store a character and go on to the next. -/
theorem Within.put_next (h : k.Within path) {i : ℕ} (hi : i < 12) (v : UInt8) (hc : k.c ≠ 0) :
    ∃ k₁ k₂ : NameCursor, k.put i v = .ok k₁ ∧ k₁.next path = .ok k₂ ∧ k₂.Within path := by
  obtain ⟨k₁,hput,hk₁,hsame⟩ := h.put hi v
  obtain ⟨k₂,hnext,hk₂⟩ := hk₁.next (by rwa [hsame])
  exact ⟨k₁,k₂,hput,hnext,hk₂⟩

end NameCursor

/-- A loop over a name runs to its end or finds an illegal character, inside the arrays. -/
def StaysWithin (path : List UInt8) (r : Except Stop (Option NameCursor)) : Prop :=
  ∃ o, r = .ok o ∧ ∀ k ∈ o, k.Within path

theorem ne_zero_of_not_isEnd {c : UInt8} (h : isEnd c ≠ true) : c ≠ 0 := by
  rintro rfl
  exact h (by decide)

theorem baseLoop_within {path : List UInt8} {n i : ℕ} {k : NameCursor} (h : k.Within path)
    (hi : i + n ≤ 12) : StaysWithin path (baseLoop path n i k) := by
  induction n generalizing i k with
  | zero => exact ⟨some k,rfl,fun k' hk' => Option.mem_some.1 hk' ▸ h⟩
  | succ n ih =>
    have hlt : i < 12 := by omega
    rw [baseLoop]
    split
    next hend =>
      obtain ⟨k₁,hput,hk₁,-⟩ := h.put hlt chSpace
      rw [hput,ok_bind]
      exact ih hk₁ (by omega)
    next hend =>
      have hc := ne_zero_of_not_isEnd hend
      split
      next hdot =>
        split
        · obtain ⟨k₁,k₂,hput,hnext,hk₂⟩ := h.put_next hlt chDot hc
          rw [hput,ok_bind,hnext,ok_bind]
          exact ih hk₂ (by omega)
        split
        · obtain ⟨p,hp,hk⟩ := id h
          rw [hk.pointer,charAt_le (hk.lt hp hc),ok_bind]
          split
          · obtain ⟨k₁,k₂,hput,hnext,hk₂⟩ := h.put_next hlt chDot hc
            rw [hput,ok_bind,hnext,ok_bind]
            exact ih hk₂ (by omega)
          · exact ih h (by omega)
        · obtain ⟨k₁,hput,hk₁,-⟩ := h.put hlt chSpace
          rw [hput,ok_bind]
          exact ih hk₁ (by omega)
      next hdot =>
        split
        · exact ⟨none,rfl,fun k' hk' => by simp at hk'⟩
        · obtain ⟨k₁,k₂,hput,hnext,hk₂⟩ := h.put_next hlt k.c hc
          rw [hput,ok_bind,hnext,ok_bind]
          exact ih hk₂ (by omega)

theorem extLoop_within {path : List UInt8} {follows : Bool} {n i : ℕ} {k : NameCursor}
    (h : k.Within path) (hi : 8 + i + n ≤ 12) : StaysWithin path (extLoop path follows n i k) := by
  induction n generalizing i k with
  | zero => exact ⟨some k,rfl,fun k' hk' => Option.mem_some.1 hk' ▸ h⟩
  | succ n ih =>
    have hlt : 8 + i < 12 := by omega
    rw [extLoop]
    split
    · split
      next hend =>
        obtain ⟨k₁,hput,hk₁,-⟩ := h.put hlt chSpace
        rw [hput,ok_bind]
        exact ih hk₁ (by omega)
      next hend =>
        split
        · exact ⟨none,rfl,fun k' hk' => by simp at hk'⟩
        split
        · exact ⟨none,rfl,fun k' hk' => by simp at hk'⟩
        · obtain ⟨k₁,k₂,hput,hnext,hk₂⟩ := h.put_next hlt k.c (ne_zero_of_not_isEnd hend)
          rw [hput,ok_bind,hnext,ok_bind]
          exact ih hk₂ (by omega)
    · obtain ⟨k₁,hput,hk₁,-⟩ := h.put hlt chSpace
      rw [hput,ok_bind]
      exact ih hk₁ (by omega)

theorem extensionFollows_within {path : List UInt8} {k : NameCursor} (h : k.Within path) :
    ∃ o, extensionFollows path k = .ok o ∧ ∀ p ∈ o, p.2.Within path := by
  rw [extensionFollows]
  split
  next hdot =>
    obtain ⟨k₁,hnext,hk₁⟩ := h.next (by rw [hdot]; decide)
    rw [hnext,ok_bind]
    exact ⟨_,rfl,fun p hp => Option.mem_some.1 hp ▸ hk₁⟩
  next hdot =>
    split
    · exact ⟨_,rfl,fun p hp => Option.mem_some.1 hp ▸ h⟩
    next hend =>
      obtain ⟨k₁,hnext,hk₁⟩ := h.next (ne_zero_of_not_isEnd hend)
      rw [hnext,ok_bind]
      split
      next hdot₁ =>
        obtain ⟨k₂,hnext₂,hk₂⟩ := hk₁.next (by rw [hdot₁]; decide)
        rw [hnext₂,ok_bind]
        exact ⟨_,rfl,fun p hp => Option.mem_some.1 hp ▸ hk₂⟩
      · split
        · exact ⟨_,rfl,fun p hp => Option.mem_some.1 hp ▸ hk₁⟩
        · exact ⟨none,rfl,fun p hp => by simp at hp⟩

/-- The place a successful conversion leaves the pointer at: the terminator or a separator. -/
def atEnd (path : List UInt8) (m : ℕ) : Prop :=
  m = path.length ∨ path[m]? = some chSlash ∨ path[m]? = some chBackslash

/-- `make_dos_name` reads and writes inside the arrays, from the start of the string to the end of
the element. -/
theorem makeDosName_within {path : List UInt8} (h₀ : (0 : UInt8) ∉ path) (d : DosName) :
    ∃ o, makeDosName d path 0 = .ok o ∧ ∀ p ∈ o, atEnd path p.2 := by
  obtain ⟨k₀,hnext,hk₀⟩ := ShortName.next_start d path
  have hstart : k₀.Within path := ⟨0,Nat.zero_le _,hk₀⟩
  obtain ⟨o₁,hbase,h₁⟩ := baseLoop_within (n := 8) (i := 0) hstart (by omega)
  rw [makeDosName,hnext,ok_bind,hbase,ok_bind]
  cases o₁ with
  | none => exact ⟨none,rfl,fun p hp => by simp at hp⟩
  | some k₁ =>
    obtain ⟨o₂,hfollows,h₂⟩ := extensionFollows_within (h₁ k₁ rfl)
    dsimp only
    rw [hfollows,ok_bind]
    cases o₂ with
    | none => exact ⟨none,rfl,fun p hp => by simp at hp⟩
    | some q =>
      have hloop : StaysWithin path (extLoop path q.1 3 0 q.2) := extLoop_within (h₂ q rfl) (by omega)
      obtain ⟨o₃,hext,h₃⟩ := hloop
      dsimp only
      rw [hext,ok_bind]
      cases o₃ with
      | none => exact ⟨none,rfl,fun p hp => by simp at hp⟩
      | some k₃ =>
        dsimp only
        refine ⟨_,rfl,fun p hp => ?_⟩
        obtain ⟨m,hm,hk₃⟩ := h₃ k₃ rfl
        split at hp
        next hend =>
          rw [← Option.mem_some.1 hp]
          dsimp only
          rw [hk₃.pointer,Nat.add_sub_cancel]
          rcases Nat.lt_or_eq_of_le hm with hlt | heq
          · rw [hk₃.c,List.getD_eq_getElem _ _ hlt] at hend
            right
            have hne : path[m] ≠ 0 := fun h => h₀ (h ▸ List.getElem_mem hlt)
            have hslash : doschar path[m] = chSlash := by
              rcases Bool.or_eq_true_iff.1 hend with h | h
              · exact eq_of_beq h
              · exact absurd ((doschar_zero _).1 (eq_of_beq h)) hne
            rw [List.getElem?_eq_getElem hlt]
            rcases (Element.doschar_slash _).1 hslash with h | h
            · exact .inl (congrArg some h)
            · exact .inr (congrArg some h)
          · exact .inl heq
        next => simp at hp

/-! ### Arrays of characters -/

/-- `char array[n]` -/
abbrev CharArray (n : ℕ) := Fin n → UInt8

namespace CharArray
variable {n : ℕ}

def put (a : CharArray n) (i : ℕ) (v : UInt8) : Except Stop (CharArray n) :=
  if h : i < n then .ok (Function.update a ⟨i,h⟩ v) else .error .undefined

def read (a : CharArray n) (i : ℕ) : Except Stop UInt8 :=
  if h : i < n then .ok (a ⟨i,h⟩) else .error .undefined

/-- The characters of the string have been written to the first places. -/
def Starts (a : CharArray n) (s : List UInt8) : Prop :=
  ∀ i (h : i < n) (hs : i < s.length), a ⟨i,h⟩ = s[i]

/-- The array holds the string with its terminator. -/
structure HasString (a : CharArray n) (s : List UInt8) : Prop where
  starts : a.Starts s
  fits : s.length < n
  terminator : a ⟨s.length,fits⟩ = 0

theorem starts_nil (a : CharArray n) : a.Starts [] := fun _ _ hs => absurd hs (Nat.not_lt_zero _)

theorem put_ok (a : CharArray n) {i : ℕ} (h : i < n) (v : UInt8) :
    a.put i v = .ok (Function.update a ⟨i,h⟩ v) := dif_pos h

/-- Writing behind the string leaves it there. -/
theorem Starts.put {a : CharArray n} {s : List UInt8} (h : a.Starts s) {i : ℕ} (hi : i < n)
    (hs : s.length ≤ i) (v : UInt8) : CharArray.Starts (Function.update a ⟨i,hi⟩ v) s := by
  intro j hj hjs
  rw [Function.update_of_ne (by simp only [ne_eq,Fin.mk.injEq]; omega)]
  exact h j hj hjs

theorem Starts.append {a : CharArray n} {s : List UInt8} (h : a.Starts s) (hs : s.length < n)
    (v : UInt8) : CharArray.Starts (Function.update a ⟨s.length,hs⟩ v) (s ++ [v]) := by
  intro j hj hjs
  rw [List.length_append,List.length_singleton] at hjs
  by_cases he : j = s.length
  · subst he
    rw [Function.update_self,List.getElem_concat_length rfl]
  · rw [Function.update_of_ne (by simpa using he),List.getElem_append_left (by omega)]
    exact h j hj _

theorem Starts.terminate {a : CharArray n} {s : List UInt8} (h : a.Starts s) (hs : s.length < n) :
    HasString (Function.update a ⟨s.length,hs⟩ 0) s :=
  ⟨h.put hs le_rfl 0,hs,Function.update_self _ _ _⟩

theorem HasString.put {a : CharArray n} {s : List UInt8} (h : a.HasString s) {i : ℕ} (hi : i < n)
    (hs : s.length < i) (v : UInt8) : HasString (Function.update a ⟨i,hi⟩ v) s := by
  refine ⟨h.starts.put hi hs.le v,h.fits,?_⟩
  rw [Function.update_of_ne (by simp only [ne_eq,Fin.mk.injEq]; omega)]
  exact h.terminator

end CharArray

/-! ### `str_to_fatname`, byte by byte -/

/-- The backward search for a dot, from `i` down to 1. -/
def findDotAt (url : List UInt8) : ℕ → Except Stop (Option ℕ)
  | 0 => .ok none
  | i+1 => do if (← charAt url (i+1)) = chDot then return some (i+1) else findDotAt url i

/-- How the first loop of `str_to_fatname` ends: with a result, or at an index of `dosname`. -/
inductive CopiedAt
  | returned (result : ℤ) (dosname : CharArray 13)
  | behind (i : ℕ) (dosname : CharArray 13)

/-- The loop that copies at most `n` characters; both indices are `i`. -/
def copyBaseAt (url : List UInt8) : ℕ → ℕ → CharArray 13 → Except Stop CopiedAt
  | 0, i, dosname => .ok (.behind i dosname)
  | n+1, i, dosname => do
    let c := doschar (← charAt url i)
    let dosname ← dosname.put i c
    if c = 1 then return .returned 1 dosname
    else if c = 0 then return .returned 0 dosname
    else if c = chDot then return .behind i dosname
    else copyBaseAt url n (i+1) dosname

/-- The loop that copies at most `n` characters of the extension to index `i` and on, with the
terminator behind them. -/
def copyExtAt (extension : List UInt8) : ℕ → ℕ → ℕ → CharArray 13 → Except Stop (ℤ × CharArray 13)
  | 0, i, _, dosname => do return (0,← dosname.put i 0)
  | n+1, i, j, dosname => do
    let c := doschar (← charAt extension j)
    let dosname ← dosname.put i c
    if c = 0 then return (0,← dosname.put (i+1) 0)
    else if c = 1 then return (1,dosname)
    else copyExtAt extension n (i+1) (j+1) dosname

/-- `str_to_fatname` behind the search for the extension. -/
def copyNameAt (url : List UInt8) (long : Bool) (extension : List UInt8)
    (dosname : CharArray 13) : Except Stop (ℤ × CharArray 13) := do
  match ← copyBaseAt url (if long then 6 else 8) 0 dosname with
  | .returned result dosname => return (result,dosname)
  | .behind i dosname =>
    if long then
      let dosname ← dosname.put i chTilde
      let dosname ← dosname.put (i+1) 0x31
      copyExtAt extension 3 (i+3) 0 (← dosname.put (i+2) chDot)
    else copyExtAt extension 3 (i+1) 0 (← dosname.put i chDot)

/-- `name_len` and `extension`. -/
def findExtension (url : List UInt8) : Except Stop (ℕ × List UInt8) := do
  -- the byte in front of an empty string is not the caller's
  let last ← if url = [] then .error .undefined else charAt url (url.length - 1)
  if last = chDot then return (u32 (url.length - 1),[])
  else
    match ← findDotAt url (i32 (url.length + 2^32 - 2)).toNat with
    | some i => return (i,url.drop (i+1))
    | none => return (u32 url.length,[])

/-- `str_to_fatname`: its result and the array it leaves. -/
def strToFatnameAt (url : List UInt8) (dosname : CharArray 13) : Except Stop (ℤ × CharArray 13) := do
  let (nameLen,extension) ← findExtension url
  copyNameAt url (8 < nameLen || 3 < extension.length) extension dosname

/-- The loops that copy the base agree. -/
inductive Agree (m : ℕ) : CopiedAt → Copied → Prop
  | illegal (d : CharArray 13) : Agree m (.returned 1 d) .illegal
  | ended {d : CharArray 13} {s : List UInt8} (h : d.HasString s) : Agree m (.returned 0 d) (.ended s)
  | behind {d : CharArray 13} {s : List UInt8} (h : d.Starts s) (hs : s.length ≤ m) :
      Agree m (.behind s.length d) (.more s)

theorem copyBaseAt_agrees {url out : List UInt8} {n : ℕ} {d : CharArray 13} (h : d.Starts out)
    (hi : out.length ≤ url.length) (hn : out.length + n ≤ 12) :
    ∃ r c, copyBaseAt url n out.length d = .ok r ∧ copyBase url n out.length out = .ok c ∧
      Agree (out.length + n) r c := by
  induction n generalizing out d with
  | zero => exact ⟨_,_,rfl,rfl,.behind h le_rfl⟩
  | succ n ih =>
    have hlt : out.length < 13 := by omega
    rw [copyBaseAt,copyBase,charAt_le hi,ok_bind,ok_bind]
    dsimp only
    rw [CharArray.put_ok d hlt,ok_bind]
    by_cases h₁ : doschar (url.getD out.length 0) = 1
    · rw [if_pos h₁,if_pos h₁]
      exact ⟨_,_,rfl,rfl,.illegal _⟩
    by_cases h₀ : doschar (url.getD out.length 0) = 0
    · rw [if_neg h₁,if_neg h₁,if_pos h₀,if_pos h₀,h₀]
      exact ⟨_,_,rfl,rfl,.ended (h.terminate hlt)⟩
    by_cases hdot : doschar (url.getD out.length 0) = chDot
    · rw [if_neg h₁,if_neg h₁,if_neg h₀,if_neg h₀,if_pos hdot,if_pos hdot]
      exact ⟨_,_,rfl,rfl,.behind (h.put hlt le_rfl _) (by omega)⟩
    · rw [if_neg h₁,if_neg h₁,if_neg h₀,if_neg h₀,if_neg hdot,if_neg hdot]
      have hin : out.length < url.length := by
        apply lt_of_le_of_ne hi
        intro he
        apply h₀
        rw [he,List.getD_eq_default _ _ le_rfl]
        rfl
      have hlen : (out ++ [doschar (url.getD out.length 0)]).length = out.length + 1 := by simp
      have hstep := ih (h.append hlt (doschar (url.getD out.length 0))) (by omega) (by omega)
      rw [hlen] at hstep
      obtain ⟨r,c,hr,hc,ha⟩ := hstep
      exact ⟨r,c,hr,hc,by rwa [show out.length + (n+1) = out.length + 1 + n by omega]⟩

/-- What a result and an array say of the name that was converted. -/
def Tells (r : ℤ × CharArray 13) (o : Option (List UInt8)) : Prop :=
  (r.1 = 1 ∧ o = none) ∨ ∃ s, r.1 = 0 ∧ o = some s ∧ r.2.HasString s

theorem copyExtAt_agrees {x out : List UInt8} {n j : ℕ} {d : CharArray 13} (h : d.Starts out)
    (hj : j ≤ x.length) (hn : out.length + n ≤ 12) :
    ∃ r o, copyExtAt x n out.length j d = .ok r ∧ copyExt x n j out = .ok o ∧ Tells r o := by
  induction n generalizing out d j with
  | zero =>
    rw [copyExtAt,CharArray.put_ok d (by omega),ok_bind]
    exact ⟨_,_,rfl,rfl,.inr ⟨out,rfl,rfl,h.terminate _⟩⟩
  | succ n ih =>
    have hlt : out.length < 13 := by omega
    rw [copyExtAt,copyExt,charAt_le hj,ok_bind,ok_bind]
    dsimp only
    rw [CharArray.put_ok d hlt,ok_bind]
    by_cases h₀ : doschar (x.getD j 0) = 0
    · rw [if_pos h₀,if_pos h₀,h₀,CharArray.put_ok _ (show out.length + 1 < 13 by omega),ok_bind]
      exact ⟨_,_,rfl,rfl,.inr ⟨out,rfl,rfl,(h.terminate hlt).put _ (Nat.lt_succ_self _) 0⟩⟩
    by_cases h₁ : doschar (x.getD j 0) = 1
    · rw [if_neg h₀,if_neg h₀,if_pos h₁,if_pos h₁]
      exact ⟨_,_,rfl,rfl,.inl ⟨rfl,rfl⟩⟩
    · rw [if_neg h₁,if_neg h₁,if_neg h₀,if_neg h₀]
      have hin : j < x.length := by
        apply lt_of_le_of_ne hj
        intro he
        apply h₀
        rw [he,List.getD_eq_default _ _ le_rfl]
        rfl
      have hlen : (out ++ [doschar (x.getD j 0)]).length = out.length + 1 := by simp
      have hstep := ih (h.append hlt (doschar (x.getD j 0))) hin (by omega)
      rwa [hlen] at hstep

theorem findDotAt_eq {url : List UInt8} {i : ℕ} (h : i < url.length) :
    findDotAt url i = .ok (findDot url i) := by
  induction i with
  | zero => rfl
  | succ i ih =>
    rw [findDotAt,findDot,charAt_le h.le,ok_bind,List.getD_eq_getElem _ _ h,List.getElem?_eq_getElem h]
    simp only [Option.some.injEq]
    split
    · rfl
    · exact ih (by omega)

/-- The copy of a base and an extension, byte by byte and as a list. -/
theorem copyNameAt_agrees (url x : List UInt8) (long : Bool) (d : CharArray 13) :
    ∃ r o, copyNameAt url long x d = .ok r ∧ (copyBase url (if long then 6 else 8) 0 [] >>=
      Element.behindBase x fun out => (if long then out ++ [chTilde,0x31] else out) ++ [chDot]) = .ok o ∧
      Tells r o := by
  obtain ⟨r,c,hr,hc,ha⟩ := copyBaseAt_agrees (n := if long then 6 else 8) (CharArray.starts_nil d)
    (Nat.zero_le url.length) (by split <;> simp)
  rw [List.length_nil] at hr hc
  rw [copyNameAt,hr,ok_bind,hc,ok_bind]
  cases ha with
  | illegal d => exact ⟨_,_,rfl,rfl,.inl ⟨rfl,rfl⟩⟩
  | @ended d s h => exact ⟨_,_,rfl,rfl,.inr ⟨s,rfl,rfl,h⟩⟩
  | @behind d s h hs =>
    simp only [Element.behindBase]
    by_cases hl : long
    · simp only [if_pos hl,List.length_nil] at hs ⊢
      have h₁ := h.append (by omega) chTilde
      have h₂ := h₁.append (by simp; omega) 0x31
      have h₃ := h₂.append (by simp; omega) chDot
      have hext := copyExtAt_agrees (x := x) (n := 3) h₃ (Nat.zero_le _) (by simp; omega)
      simp only [List.length_append,List.length_singleton,List.append_assoc,List.cons_append,
        List.nil_append,List.length_cons,List.length_nil] at hext ⊢
      obtain ⟨r,o,hr,ho,ht⟩ := hext
      rw [CharArray.put_ok d (by omega),ok_bind,CharArray.put_ok _ (by omega),ok_bind,
        CharArray.put_ok _ (by omega),ok_bind,ho,ok_bind]
      refine ⟨r,o,hr,?_,ht⟩
      cases o <;> rfl
    · simp only [if_neg hl,List.length_nil] at hs ⊢
      have h₁ := h.append (by omega) chDot
      have hext := copyExtAt_agrees (x := x) (n := 3) h₁ (Nat.zero_le _) (by simp; omega)
      simp only [List.length_append,List.length_singleton] at hext ⊢
      obtain ⟨r,o,hr,ho,ht⟩ := hext
      rw [CharArray.put_ok d (by omega),ok_bind,ho,ok_bind]
      refine ⟨r,o,hr,?_,ht⟩
      cases o <;> rfl

/-- The start of the search for a dot, in `int`. -/
theorem searchStart_lt {n : ℕ} (h : n ≠ 0) : (i32 (n + 2^32 - 2)).toNat < n := by
  rw [i32]
  split <;> omega

theorem findExtension_within {url : List UInt8} (hne : url ≠ []) : ∃ p, findExtension url = .ok p := by
  have hlen : url.length ≠ 0 := fun h => hne (List.eq_nil_of_length_eq_zero h)
  rw [findExtension,if_neg hne,charAt_le (Nat.sub_le _ _),ok_bind,findDotAt_eq (searchStart_lt hlen)]
  generalize (i32 (url.length + 2^32 - 2)).toNat = start
  dsimp only
  split
  · exact ⟨_,rfl⟩
  · rw [ok_bind]
    cases findDot url start with
    | none => exact ⟨_,rfl⟩
    | some i => exact ⟨_,rfl⟩

theorem findExtension_eq {url : List UInt8} (hne : url ≠ []) (hlt : url.length < 2^31) :
    findExtension url = .ok (Element.nameLen url,Element.extension url) := by
  have hlen : url.length ≠ 0 := fun h => hne (List.eq_nil_of_length_eq_zero h)
  have hstart : (i32 (url.length + 2^32 - 2)).toNat = url.length - 2 := by
    rw [i32]
    split <;> omega
  have hlast : url.getLast? = some (url.getD (url.length - 1) 0) := by
    rw [List.getLast?_eq_getElem?,List.getElem?_eq_getElem (by omega),List.getD_eq_getElem _ _ (by omega)]
  rw [findExtension,if_neg hne,charAt_le (Nat.sub_le _ _),ok_bind,findDotAt_eq (searchStart_lt hlen),
    hstart,Element.nameLen,Element.extension,hlast]
  dsimp only
  by_cases hdot : url.getD (url.length - 1) 0 = chDot
  · rw [if_pos hdot,if_pos (by rw [hdot]),if_pos (by rw [hdot]),u32_of_lt (by omega),
      show (url.length + 2^32 - 1) % 2^32 = url.length - 1 by omega]
    rfl
  · have hdot' : ¬ some (url.getD (url.length - 1) 0) = some chDot := by simpa using hdot
    rw [if_neg hdot,if_neg hdot',if_neg hdot',ok_bind,u32_of_lt (by omega)]
    cases findDot url (url.length - 2) with
    | none => rfl
    | some i => rfl

/-- `str_to_fatname` reads the string only and writes thirteen bytes, in which its result is
terminated. -/
theorem strToFatnameAt_within {url : List UInt8} (hne : url ≠ []) (d : CharArray 13) :
    ∃ r, strToFatnameAt url d = .ok r ∧ (r.1 = 1 ∨ r.1 = 0 ∧ ∃ s, r.2.HasString s) := by
  obtain ⟨p,hp⟩ := findExtension_within hne
  obtain ⟨r,o,hr,-,ht⟩ := copyNameAt_agrees url p.2 (8 < p.1 || 3 < p.2.length) d
  rw [strToFatnameAt,hp,ok_bind]
  refine ⟨r,hr,?_⟩
  rcases ht with ⟨h₁,-⟩ | ⟨s,h₀,-,hs⟩
  · exact .inl h₁
  · exact .inr ⟨h₀,s,hs⟩

/-- A string whose length is an `int` is converted to what the list of its characters is. -/
theorem strToFatnameAt_agrees {url : List UInt8} (hne : url ≠ []) (hlen : url.length < 2^31)
    (before : Option UInt8) (d : CharArray 13) :
    ∃ r o, strToFatnameAt url d = .ok r ∧ strToFatname before url = .ok o ∧ Tells r o := by
  obtain ⟨r,o,hr,ho,ht⟩ := copyNameAt_agrees url (Element.extension url)
    (8 < Element.nameLen url || 3 < (Element.extension url).length) d
  simp only [Bool.or_eq_true,decide_eq_true_eq] at ho
  refine ⟨r,o,?_,(Element.strToFatname_copy hne before).trans ho,ht⟩
  rw [strToFatnameAt,findExtension_eq hne hlen,ok_bind]
  exact hr

/-! ### `fatname_to_str`, byte by byte -/

/-- The loop over the base from byte `i` of the input on, writing from index `o` on. -/
def fatnameBase (input : CharArray 11) : ℕ → ℕ → ℕ → CharArray 13 → Except Stop (ℕ × CharArray 13)
  | 0, _, o, output => .ok (o,output)
  | n+1, i, o, output => do
    let c ← input.read i
    if c ≠ chSpace then fatnameBase input n (i+1) (o+1) (← output.put o c)
    else fatnameBase input n (i+1) o output

/-- The loop over the extension. -/
def fatnameExt (input : CharArray 11) : ℕ → ℕ → ℕ → CharArray 13 → Except Stop (ℕ × CharArray 13)
  | 0, _, o, output => .ok (o,output)
  | n+1, i, o, output => do
    let c ← input.read i
    if c = chSpace then return (o,output)
    else fatnameExt input n (i+1) (o+1) (← output.put o c)

def fatnameToStrAt (input : CharArray 11) (output : CharArray 13) : Except Stop (CharArray 13) := do
  let (o,output) ← fatnameBase input 8 0 0 output
  if (← input.read 8) = chSpace then output.put o 0
  else
    let (o,output) ← fatnameExt input 3 8 (o+1) (← output.put o chDot)
    output.put o 0

def CharArray.byte {n : ℕ} (a : CharArray n) (i : ℕ) : UInt8 := if h : i < n then a ⟨i,h⟩ else 0

theorem CharArray.read_eq {n : ℕ} (a : CharArray n) {i : ℕ} (h : i < n) : a.read i = .ok (a.byte i) := by
  rw [read,byte,dif_pos h,dif_pos h]

section ToStr
variable (input : CharArray 11) {output : CharArray 13} {s : List UInt8} {n i : ℕ}

theorem fatnameBase_writes (h : output.Starts s) (hi : i + n ≤ 11) (hs : s.length + n ≤ 12) :
    ∃ output' : CharArray 13, ∃ t, fatnameBase input n i s.length output = .ok (t.length,output') ∧
      output'.Starts t ∧ t = s ++ ((List.range' i n).map input.byte).filter (· != chSpace) ∧
      t.length ≤ s.length + n := by
  induction n generalizing output s i with
  | zero => exact ⟨output,s,rfl,h,by simp,le_rfl⟩
  | succ n ih =>
    rw [fatnameBase,input.read_eq (by omega),ok_bind,List.range'_succ,List.map_cons]
    split
    next hc =>
      have hlen : (s ++ [input.byte i]).length = s.length + 1 := by simp
      rw [CharArray.put_ok output (by omega),ok_bind,← hlen]
      obtain ⟨output',t,hrun,ht,heq,hle⟩ := ih (i := i+1) (h.append (by omega) (input.byte i)) (by omega)
        (by omega)
      refine ⟨output',t,hrun,ht,?_,by omega⟩
      rw [heq,List.filter_cons_of_pos (by simpa using hc),List.append_assoc]
      rfl
    next hc =>
      obtain ⟨output',t,hrun,ht,heq,hle⟩ := ih (i := i+1) h (by omega) (by omega)
      refine ⟨output',t,hrun,ht,?_,by omega⟩
      rw [heq,List.filter_cons_of_neg (by simpa using hc)]

theorem fatnameExt_writes (h : output.Starts s) (hi : i + n ≤ 11) (hs : s.length + n ≤ 12) :
    ∃ output' : CharArray 13, ∃ t, fatnameExt input n i s.length output = .ok (t.length,output') ∧
      output'.Starts t ∧ t = s ++ ((List.range' i n).map input.byte).takeWhile (· != chSpace) ∧
      t.length ≤ s.length + n := by
  induction n generalizing output s i with
  | zero => exact ⟨output,s,rfl,h,by simp,le_rfl⟩
  | succ n ih =>
    rw [fatnameExt,input.read_eq (by omega),ok_bind,List.range'_succ,List.map_cons]
    split
    next hc =>
      refine ⟨output,s,rfl,h,?_,by omega⟩
      rw [List.takeWhile_cons_of_neg (by simpa using hc),List.append_nil]
    next hc =>
      have hlen : (s ++ [input.byte i]).length = s.length + 1 := by simp
      rw [CharArray.put_ok output (by omega),ok_bind,← hlen]
      obtain ⟨output',t,hrun,ht,heq,hle⟩ := ih (i := i+1) (h.append (by omega) (input.byte i)) (by omega)
        (by omega)
      refine ⟨output',t,hrun,ht,?_,by omega⟩
      rw [heq,List.takeWhile_cons_of_pos (by simpa using hc),List.append_assoc]
      rfl

end ToStr

/-- `fatname_to_str` writes the listed name and its terminator into thirteen bytes. -/
theorem fatnameToStrAt_within (input : CharArray 11) (output : CharArray 13) :
    ∃ output', fatnameToStrAt input output = .ok output' ∧ output'.HasString (fatnameToStr input.byte) := by
  obtain ⟨b,s,hbase,hb,hs,hlen⟩ := fatnameBase_writes input (n := 8) (i := 0)
    (CharArray.starts_nil output) (by omega) (by simp)
  have hs' : s = ((List.range 8).map input.byte).filter (· != chSpace) := by
    rw [hs,List.nil_append,List.range_eq_range']
  rw [List.length_nil] at hbase hlen
  rw [fatnameToStrAt,hbase,ok_bind]
  dsimp only
  rw [input.read_eq (by omega),ok_bind,fatnameToStr,← hs']
  split
  next hc => exact ⟨_,b.put_ok (by omega) 0,hb.terminate _⟩
  next hc =>
    rw [b.put_ok (show s.length < 13 by omega),ok_bind]
    have hdot : (s ++ [chDot]).length = s.length + 1 := by simp
    obtain ⟨b',t,hext,ht,heq,htlen⟩ := fatnameExt_writes input (n := 3) (i := 8)
      (hb.append (by omega) chDot) (by omega) (by omega)
    rw [hdot] at hext
    rw [hext,ok_bind]
    dsimp only
    have htext : t = s ++ chDot :: (([8,9,10].map input.byte).takeWhile (· != chSpace)) := by
      rw [heq,List.append_assoc]
      rfl
    rw [← htext]
    exact ⟨_,b'.put_ok (by omega) 0,ht.terminate _⟩

/-- The name conversions read and write inside their arrays. -/
theorem names_within {path : List UInt8} (h₀ : (0 : UInt8) ∉ path) :
    (∀ d, ∃ o, makeDosName d path 0 = .ok o ∧ ∀ p ∈ o, atEnd path p.2) ∧
    (path ≠ [] → ∀ d, ∃ r, strToFatnameAt path d = .ok r ∧ (r.1 = 1 ∨ r.1 = 0 ∧ ∃ s, r.2.HasString s)) ∧
    ∀ input output, ∃ output', fatnameToStrAt input output = .ok output' ∧
      output'.HasString (fatnameToStr input.byte) :=
  ⟨makeDosName_within h₀,strToFatnameAt_within,fatnameToStrAt_within⟩

theorem names_within_dots : (∃ o, makeDosName (fun _ => 0) [0x41,chDot,0x42] 0 = .ok o ∧
      ∀ p ∈ o, atEnd [0x41,chDot,0x42] p.2) ∧
    ∃ r, strToFatnameAt [0x41,chDot,0x42] (fun _ => 0) = .ok r ∧
      (r.1 = 1 ∨ r.1 = 0 ∧ ∃ s, r.2.HasString s) := by
  obtain ⟨h,hs,-⟩ := names_within (show (0 : UInt8) ∉ [0x41,chDot,0x42] by decide)
  exact ⟨h _,hs (by decide) _⟩

end Gristle
