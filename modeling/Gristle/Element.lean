import Gristle.ShortName
import Mathlib.Data.List.TakeWhile

/-! Any path element: what the two conversions of `fat_lookup_path` make of it, in terms of the parts of
the element. -/
namespace Gristle

/-! ### `str_to_fatname` on any string -/

section Copy
variable {url out : List UInt8} {n i : ℕ}

theorem doschar_dot (c : UInt8) : doschar c = chDot ↔ c = chDot := by
  revert c
  exact forall_uint8 (by decide +kernel)

theorem doschar_zero (c : UInt8) : doschar c = 0 ↔ c = 0 := by
  revert c
  exact forall_uint8 (by decide +kernel)

/-- At most `n` characters up to the first dot. -/
def stemFrom (n : ℕ) (r : List UInt8) : List UInt8 := (r.takeWhile (· != chDot)).take n

theorem stemFrom_cons {c : UInt8} {r : List UInt8} (hc : c ≠ chDot) :
    stemFrom (n+1) (c :: r) = c :: stemFrom n r := by
  simp [stemFrom,hc]

/-- The loop that copies the base name. -/
theorem copyBase_eq (h₀ : 0 ∉ url) (hi : i ≤ url.length) : copyBase url n i out =
    .ok (if ∃ c ∈ stemFrom n (url.drop i), doschar c = 1 then .illegal
      else if (stemFrom n (url.drop i)).length < n ∧ chDot ∉ url.drop i then
        .ended (out ++ (stemFrom n (url.drop i)).map doschar)
      else .more (out ++ (stemFrom n (url.drop i)).map doschar)) := by
  induction n generalizing i out with
  | zero => simp [copyBase,stemFrom]
  | succ n ih =>
    cases hr : url.drop i with
    | nil =>
      rw [copyBase,charAt_end hr hi]
      simp [stemFrom,doschar]
      rfl
    | cons c r =>
      have hlt : i < url.length := by
        by_contra hge
        rw [List.drop_eq_nil_of_le (by omega)] at hr
        simp at hr
      have hc₀ : c ≠ 0 := by
        rintro rfl
        exact h₀ (List.mem_of_mem_drop (i := i) (by rw [hr]; simp))
      have hnext := drop_succ hr
      rw [copyBase,charAt_of_drop hr,ok_bind]
      change (if doschar c = 1 then _ else if doschar c = 0 then _ else if doschar c = chDot then _ else
        copyBase url n (i+1) (out ++ [doschar c])) = _
      by_cases h₁ : doschar c = 1
      · have hdot : c ≠ chDot := by
          rintro rfl
          exact absurd h₁ (by decide)
        rw [if_pos h₁,stemFrom_cons hdot,if_pos ⟨c,by simp,h₁⟩]
        rfl
      rw [if_neg h₁,if_neg fun h => hc₀ ((doschar_zero c).1 h)]
      by_cases hdot : c = chDot
      · subst hdot
        rw [if_pos (by decide)]
        simp [stemFrom]
        rfl
      · rw [if_neg fun h => hdot ((doschar_dot c).1 h),ih (by omega),hnext,stemFrom_cons hdot]
        simp [h₁,Ne.symm hdot]

/-- The loop that copies the extension. -/
theorem copyExt_eq {ext : List UInt8} {j : ℕ} (h₀ : 0 ∉ ext) (hj : j ≤ ext.length) :
    copyExt ext n j out = .ok (if ∃ c ∈ (ext.drop j).take n, doschar c = 1 then none
      else some (out ++ ((ext.drop j).take n).map doschar)) := by
  induction n generalizing j out with
  | zero => simp [copyExt]
  | succ n ih =>
    cases hr : ext.drop j with
    | nil =>
      rw [copyExt,charAt_end hr hj]
      simp [doschar]
      rfl
    | cons c r =>
      have hlt : j < ext.length := by
        by_contra hge
        rw [List.drop_eq_nil_of_le (by omega)] at hr
        simp at hr
      have hc₀ : c ≠ 0 := by
        rintro rfl
        exact h₀ (List.mem_of_mem_drop (i := j) (by rw [hr]; simp))
      have hnext := drop_succ hr
      rw [copyExt,charAt_of_drop hr,ok_bind]
      change (if doschar c = 0 then _ else if doschar c = 1 then _ else
        copyExt ext n (j+1) (out ++ [doschar c])) = _
      rw [if_neg fun h => hc₀ ((doschar_zero c).1 h)]
      by_cases h₁ : doschar c = 1
      · rw [if_pos h₁,if_pos ⟨c,by simp,h₁⟩]
        rfl
      · rw [if_neg h₁,ih (by omega),hnext]
        simp [h₁]

end Copy

namespace Element

/-- The length `str_to_fatname` takes for that of the base. -/
def nameLen (e : List UInt8) : ℕ :=
  if e.getLast? = some chDot then (e.length + 2^32 - 1) % 2^32 else (findDot e (e.length - 2)).getD e.length

/-- What stands behind the dot `str_to_fatname` finds from the right. -/
def extension (e : List UInt8) : List UInt8 :=
  if e.getLast? = some chDot then [] else match findDot e (e.length - 2) with
    | some i => e.drop (i+1)
    | none => []

/-- The base is cut to six characters and marked with `~1`. -/
def long (e : List UInt8) : Prop := 8 < nameLen e ∨ 3 < (extension e).length

instance (e : List UInt8) : Decidable (long e) := inferInstanceAs (Decidable (_ ∨ _))

/-- The number of characters the base may have. -/
def room (e : List UInt8) : ℕ := if long e then 6 else 8

/-- The characters of the base that are copied. -/
def stem (e : List UInt8) : List UInt8 := stemFrom (room e) e

/-- No dot is put behind the base. -/
def dotless (e : List UInt8) : Prop := (stem e).length < room e ∧ chDot ∉ e

instance (e : List UInt8) : Decidable (dotless e) := inferInstanceAs (Decidable (_ ∧ _))

/-- The characters `doschar` lets through, also those that separate. -/
def legal (l : List UInt8) : Prop := ∀ c ∈ l, doschar c ≠ 1

instance (l : List UInt8) : Decidable (legal l) := List.decidableBAll (fun c => doschar c ≠ 1) l

/-- The base and, if a dot follows it, the extension. -/
def pieces (e : List UInt8) : List UInt8 × Option (List UInt8) :=
  (stem e ++ (if long e then [chTilde,0x31] else []),
    if dotless e then none else some ((extension e).take 3))

/-- The string `str_to_fatname` leaves for these pieces. -/
def joined (p : List UInt8 × Option (List UInt8)) : List UInt8 :=
  p.1.map doschar ++ p.2.elim [] fun x => chDot :: x.map doschar

variable {e : List UInt8}

theorem extension_subset (e : List UInt8) : extension e ⊆ e := by
  unfold extension
  split
  · simp
  · split
    · exact List.drop_subset _ _
    · simp

theorem extension_of_dotless (h : dotless e) : extension e = [] := by
  have hfind : findDot e (e.length - 2) = none :=
    findDot_none fun j _ _ hj => h.2 (List.mem_of_getElem? hj)
  unfold extension
  split
  · rfl
  · rw [hfind]

/-- A name without a dot that is cut has six characters. -/
theorem not_long_of_dotless (h : dotless e) : ¬ long e := by
  intro hlong
  have hlen := h.1
  have hnd := h.2
  have hlast : e.getLast? ≠ some chDot := fun hl => hnd (List.mem_of_getLast? hl)
  have hfind : findDot e (e.length - 2) = none :=
    findDot_none fun j _ _ hj => hnd (List.mem_of_getElem? hj)
  have hext := extension_of_dotless h
  have hall : e.takeWhile (· != chDot) = e := by
    refine List.takeWhile_eq_self_iff.2 fun c hc => ?_
    rw [bne_iff_ne]
    rintro rfl
    exact hnd hc
  rw [stem,room,if_pos hlong,stemFrom,hall,List.length_take] at hlen
  rcases hlong with h | h
  · rw [nameLen,if_neg hlast,hfind,Option.getD_none] at h
    omega
  · simp [hext] at h

/-- What `str_to_fatname` does with the extension it has copied. -/
def finished : Option (List UInt8) → Except Stop (Option (List UInt8))
  | none => return none
  | some out => return some out

/-- What `str_to_fatname` does with the base it has copied; `x` is the extension. -/
def behindBase (x : List UInt8) (mark : List UInt8 → List UInt8) : Copied → Except Stop (Option (List UInt8))
  | .illegal => pure none
  | .ended out => pure (some out)
  | .more out => copyExt x 3 0 (mark out) >>= finished

/-- `str_to_fatname` copies the base and then the extension. -/
theorem strToFatname_copy (hne : e ≠ []) (before : Option UInt8) :
    strToFatname before e = (copyBase e (room e) 0 [] >>=
      behindBase (extension e) fun out => (if long e then out ++ [chTilde,0x31] else out) ++ [chDot]) := by
  have hlast := List.getLast?_eq_some_getLast hne
  by_cases hdot : e.getLast hne = chDot
  · have hn : nameLen e = (e.length + 2^32 - 1) % 2^32 := by rw [nameLen,hlast,if_pos (by rw [hdot])]
    have hx : extension e = [] := by rw [extension,hlast,if_pos (by rw [hdot])]
    simp only [room,long,hn,hx]
    unfold strToFatname
    rw [hlast]
    generalize (e.length + 2^32 - 1) % 2^32 = m
    simp only [ok_bind,if_pos hdot] <;> rfl
  · have hne' : ¬ e.getLast? = some chDot := by
      rw [hlast]
      simpa using hdot
    have hn : nameLen e = (findDot e (e.length - 2)).getD e.length := by rw [nameLen,if_neg hne']
    have hx : extension e = (findDot e (e.length - 2)).elim [] fun i => e.drop (i+1) := by
      rw [extension,if_neg hne']
      cases findDot e (e.length - 2) <;> rfl
    simp only [room,long,hn,hx]
    unfold strToFatname
    rw [hlast]
    simp only [ok_bind,if_neg hdot]
    cases findDot e (e.length - 2) <;> rfl

/-- `str_to_fatname` on a string that is not empty. -/
theorem strToFatname_eq (hne : e ≠ []) (h₀ : 0 ∉ e) (before : Option UInt8) :
    strToFatname before e = .ok (if legal (stem e) ∧ legal ((extension e).take 3) then
      some (joined (pieces e)) else none) := by
  have hcopy : copyBase e (room e) 0 [] = _ := copyBase_eq h₀ (Nat.zero_le _)
  rw [List.drop_zero,List.nil_append] at hcopy
  have hext (out : List UInt8) : copyExt (extension e) 3 0 out = _ :=
    copyExt_eq (fun h => h₀ (extension_subset e h)) (Nat.zero_le _)
  simp only [List.drop_zero] at hext
  rw [strToFatname_copy hne,hcopy]
  by_cases hstem : legal (stem e)
  · have hno : ¬ ∃ c ∈ stemFrom (room e) e, doschar c = 1 := by
      rintro ⟨c,hc,h₁⟩
      exact hstem c hc h₁
    rw [if_neg hno,ok_bind]
    by_cases hd : dotless e
    · rw [if_pos (show (stemFrom (room e) e).length < room e ∧ chDot ∉ e from hd)]
      have hx : legal ((extension e).take 3) := by simp [extension_of_dotless hd,legal]
      rw [if_pos ⟨hstem,hx⟩,pieces,if_pos hd,if_neg (not_long_of_dotless hd)]
      simp [joined,stem]
      rfl
    · rw [if_neg (show ¬ ((stemFrom (room e) e).length < room e ∧ chDot ∉ e) from hd)]
      rw [behindBase,hext]
      by_cases hx : legal ((extension e).take 3)
      · have hboth : legal (stem e) ∧ legal ((extension e).take 3) := ⟨hstem,hx⟩
        have hno : ¬ ∃ c ∈ (extension e).take 3, doschar c = 1 := by
          rintro ⟨c,hc,h₁⟩
          exact hx c hc h₁
        rw [if_pos hboth,if_neg hno,ok_bind,pieces,if_neg hd]
        by_cases hl : long e
        · have htilde : doschar chTilde = chTilde ∧ doschar 0x31 = 0x31 := by decide
          simp only [if_pos hl,joined,stem,Option.elim,List.map_append,List.map_cons,htilde.1,htilde.2,
            List.append_assoc]
          rfl
        · simp only [if_neg hl,joined,stem,Option.elim,List.append_nil,List.append_assoc]
          rfl
      · have hex : ∃ c ∈ (extension e).take 3, doschar c = 1 := by
          unfold legal at hx
          push Not at hx
          exact hx
        rw [if_pos hex,if_neg fun h => hx h.2]
        rfl
  · have hex : ∃ c ∈ stemFrom (room e) e, doschar c = 1 := by
      unfold legal at hstem
      push Not at hstem
      exact hstem
    rw [if_pos hex,if_neg fun h => hstem h.1]
    rfl

/-! ### `make_dos_name` on the result -/

/-- The characters before the first separator. -/
def upTo (l : List UInt8) : List UInt8 := l.takeWhile fun c => doschar c != chSlash

/-- A separator ends the name. -/
def cut (p : List UInt8 × Option (List UInt8)) : List UInt8 × Option (List UInt8) :=
  if upTo p.1 = p.1 then (p.1,p.2.map upTo) else (upTo p.1,none)

/-- A character `str_to_fatname` copies. -/
def inner (c : UInt8) : Prop := c ≠ 0 ∧ c ≠ chDot ∧ doschar c ≠ 1

theorem nameChar_of_inner {c : UInt8} (h : inner c) (hs : doschar c ≠ chSlash) : nameChar c = true :=
  nameChar_iff.2 ⟨fun h₀ => h.1 ((doschar_zero c).1 h₀),h.2.2,hs,fun hd => h.2.1 ((doschar_dot c).1 hd)⟩

theorem upTo_subset (l : List UInt8) : upTo l ⊆ l := List.takeWhile_subset _

theorem mem_upTo {l : List UInt8} {c : UInt8} (h : c ∈ upTo l) : doschar c ≠ chSlash := by
  have := List.mem_takeWhile_imp h
  simpa using this

/-- What follows the characters before a separator starts with one. -/
theorem upTo_append (l : List UInt8) : l = upTo l ∨ ∃ c r, l = upTo l ++ c :: r ∧ doschar c = chSlash := by
  have h := List.takeWhile_append_dropWhile (p := fun c => doschar c != chSlash) (l := l)
  cases hd : l.dropWhile fun c => doschar c != chSlash with
  | nil =>
    left
    rw [hd,List.append_nil] at h
    exact h.symm
  | cons c r =>
    refine .inr ⟨c,r,?_,?_⟩
    · rw [hd] at h
      exact h.symm
    · have := List.head?_dropWhile_not (fun c => doschar c != chSlash) l
      rw [hd] at this
      simpa using this

section Run
variable {u l r : List UInt8} {p i n : ℕ} {k : NameCursor}

/-- The characters of a piece of the string. -/
theorem getD_of_drop (h : u.drop p = l.map doschar ++ r) {j : ℕ} (hj : j < l.length) :
    p + j < u.length ∧ u.getD (p+j) 0 = doschar l[j] := by
  have hlen := congrArg List.length h
  rw [List.length_drop,List.length_append,List.length_map] at hlen
  have hlt : p + j < u.length := by omega
  refine ⟨hlt,?_⟩
  have hget := congrArg (·[j]?) h
  simp only [List.getElem?_drop] at hget
  rw [List.getElem?_append_left (by simpa using hj),List.getElem?_map,List.getElem?_eq_getElem hj,
    List.getElem?_eq_getElem hlt] at hget
  rw [List.getD_eq_getElem _ _ hlt]
  exact Option.some.inj hget

/-- The character behind the piece. -/
theorem getD_behind (h : u.drop p = l.map doschar ++ r) (hp : p ≤ u.length) :
    p + l.length ≤ u.length ∧ u.getD (p + l.length) 0 = r.getD 0 0 := by
  have hlen := congrArg List.length h
  rw [List.length_drop,List.length_append,List.length_map] at hlen
  refine ⟨by omega,?_⟩
  have hget := congrArg (·[l.length]?) h
  simp only [List.getElem?_drop] at hget
  rw [List.getElem?_append_right (by simp),List.length_map,Nat.sub_self] at hget
  rw [List.getD_eq_getElem?_getD,hget,List.getD_eq_getElem?_getD]

/-- A run of characters that are accepted twice. -/
theorem charsAt_of_drop (h : u.drop p = l.map doschar ++ r) {q : ℕ} (hq : q ≤ l.length)
    (hchar : ∀ j, (hj : j < q) → nameChar (l[j]) = true ∧ l[j] ≠ 0xE5) : charsAt u p q := by
  intro j hj
  obtain ⟨hlt,hget⟩ := getD_of_drop h (show j < l.length by omega)
  rw [hget]
  exact ⟨hlt,ShortName.nameChar_doschar (hchar j hj).1 (hchar j hj).2⟩

end Run

/-- A loop of `make_dos_name` that stores characters from index `o` on until one ends the name. -/
structure Copies (u : List UInt8) (o : ℕ) (loop : ℕ → ℕ → NameCursor → Except Stop (Option NameCursor)) :
    Prop where
  chars : ∀ {q n i p : ℕ} {k : NameCursor}, k.Reads u p → charsAt u p q → o + i + q ≤ 12 →
    ∃ k' : NameCursor, loop (q + n) i k = loop n (i + q) k' ∧ k'.Reads u (p + q) ∧
      NameCursor.Writes (o + i) q (fun j => doschar (u.getD (p + (j - (o + i))) 0)) k k'
  pad : ∀ {n i : ℕ} {k : NameCursor}, isEnd k.c = true → o + i + n ≤ 12 →
    ∃ k' : NameCursor, loop n i k = .ok (some k') ∧ k'.c = k.c ∧ k'.pointer = k.pointer ∧
      NameCursor.Writes (o + i) n (fun _ => chSpace) k k'
  bad : ∀ {n i : ℕ} {k : NameCursor}, k.c = 1 → loop (n+1) i k = .ok none

theorem copies_base (u : List UInt8) : Copies u 0 (baseLoop u) where
  chars hk hc hi := by
    rw [Nat.zero_add] at hi ⊢
    exact baseLoop_chars hk hc hi
  pad hend hi := by
    rw [Nat.zero_add] at hi ⊢
    exact baseLoop_pad (.inl hend) hi
  bad h := by rw [baseLoop,h,if_neg (by decide),if_neg (by decide),if_pos rfl]

theorem copies_ext (u : List UInt8) : Copies u 8 (extLoop u true) where
  chars hk hc hi := extLoop_chars hk hc hi
  pad hend hi := extLoop_pad (fun _ => hend) hi
  bad h := by rw [extLoop,h,if_pos rfl,if_neg (by decide),if_pos rfl]

/-- The bytes of a field: the characters and then spaces. -/
def padded (l : List UInt8) (j : ℕ) : UInt8 := (l.map doschar).getD j chSpace

theorem padded_of_lt {l : List UInt8} {j : ℕ} (hj : j < l.length) : padded l j = doschar l[j] := by
  rw [padded,List.getD_eq_getElem _ _ (by simpa using hj),List.getElem_map]

theorem padded_of_le {l : List UInt8} {j : ℕ} (hj : l.length ≤ j) : padded l j = chSpace :=
  List.getD_eq_default _ _ (by simpa using hj)

section Copies
variable {u l r : List UInt8} {o p i n : ℕ} {k : NameCursor}
  {loop : ℕ → ℕ → NameCursor → Except Stop (Option NameCursor)} (hloop : Copies u o loop)
  (hk : k.Reads u p) (h : u.drop p = l.map doschar ++ r) (hin : ∀ c ∈ l, inner c)
include hloop hk h hin

/-- A character 0xE5 before the first separator is refused. -/
theorem Copies.none (he : (0xE5 : UInt8) ∈ upTo l) (hn : l.length ≤ n) (hi : o + i + n ≤ 12) :
    loop n i k = .ok none := by
  obtain ⟨q,hq,hqe,hbefore⟩ := ShortName.split_e5 he
  have hstart : upTo l <+: l := List.takeWhile_prefix _
  have hle := hstart.length_le
  have hget (j : ℕ) (hj : j < (upTo l).length) : l[j] = (upTo l)[j] := (hstart.getElem hj).symm
  have hrun : charsAt u p q := charsAt_of_drop h (by omega) fun j hj => by
    have hmem := List.getElem_mem (show j < (upTo l).length by omega)
    rw [hget j (by omega)]
    exact ⟨nameChar_of_inner (hin _ (upTo_subset l hmem)) (mem_upTo hmem),hbefore j hj⟩
  obtain ⟨m,hm⟩ := Nat.exists_eq_add_of_le (show q + 1 ≤ n by omega)
  obtain ⟨k₁,hrun₁,hk₁,-⟩ := hloop.chars (n := m+1) (i := i) hk hrun (by omega)
  have hone : k₁.c = 1 := by
    rw [hk₁.c,(getD_of_drop h (show q < l.length by omega)).2,hget q hq,hqe]
    exact doschar_e5
  rw [hm,show q + 1 + m = q + (m + 1) by omega,hrun₁,hloop.bad hone]

/-- A piece without a separator is stored. -/
theorem Copies.whole (hs : upTo l = l) (he : (0xE5 : UInt8) ∉ l) (hi : o + i + l.length ≤ 12) :
    ∃ k' : NameCursor, loop (l.length + n) i k = loop n (i + l.length) k' ∧ k'.Reads u (p + l.length) ∧
      NameCursor.Writes (o + i) l.length (fun j => padded l (j - (o + i))) k k' := by
  have hsep (c : UInt8) (hc : c ∈ l) : doschar c ≠ chSlash := mem_upTo (by rw [hs]; exact hc)
  have hne (c : UInt8) (hc : c ∈ l) : c ≠ 0xE5 := fun h => he (h ▸ hc)
  have hrun : charsAt u p l.length := charsAt_of_drop h le_rfl fun j hj => by
    have hmem := List.getElem_mem hj
    exact ⟨nameChar_of_inner (hin _ hmem) (hsep _ hmem),hne _ hmem⟩
  obtain ⟨k₁,hrun₁,hk₁,hw⟩ := hloop.chars (n := n) (i := i) hk hrun hi
  refine ⟨k₁,hrun₁,hk₁,fun j => ?_⟩
  rw [hw j]
  by_cases hj : o + i ≤ j ∧ j < o + i + l.length
  · have hlt : j - (o + i) < l.length := by omega
    have hmem := List.getElem_mem hlt
    rw [if_pos hj,if_pos hj]
    dsimp only
    rw [(getD_of_drop h hlt).2,padded_of_lt hlt]
    exact doschar_doschar (nameChar_of_inner (hin _ hmem) (hsep _ hmem)) (hne _ hmem)
  · rw [if_neg hj,if_neg hj]

/-- Up to a character that ends the name, with spaces behind. -/
theorem Copies.ended (he : (0xE5 : UInt8) ∉ upTo l) (hend : upTo l = l → isEnd (doschar (r.getD 0 0)) = true)
    (hn : l.length ≤ n) (hi : o + i + n ≤ 12) (hp : p ≤ u.length) : ∃ k' : NameCursor,
      loop n i k = .ok (some k') ∧ isEnd k'.c = true ∧
      NameCursor.Writes (o + i) n (fun j => padded (upTo l) (j - (o + i))) k k' := by
  have hle : (upTo l).length ≤ l.length := (List.takeWhile_prefix _).length_le
  have hsplit : ∃ r', u.drop p = (upTo l).map doschar ++ r' ∧ isEnd (doschar (r'.getD 0 0)) = true := by
    rcases upTo_append l with hs | ⟨c,r',hl,hc⟩
    · exact ⟨r,by rw [← hs]; exact h,hend hs.symm⟩
    · refine ⟨doschar c :: (r'.map doschar ++ r),?_,?_⟩
      · rw [h]
        conv_lhs => rw [hl]
        simp
      · rw [List.getD_cons_zero,hc]
        decide
  obtain ⟨r',hr',hend'⟩ := hsplit
  have hidem : upTo (upTo l) = upTo l :=
    List.takeWhile_eq_self_iff.2 fun c hc => by simpa using mem_upTo hc
  obtain ⟨m,hm⟩ := Nat.exists_eq_add_of_le (show (upTo l).length ≤ n by omega)
  obtain ⟨k₁,hrun,hk₁,hw₁⟩ := hloop.whole (n := m) (i := i) hk hr' (fun c hc => hin c (upTo_subset l hc)) hidem he
    (by omega)
  have hc : isEnd k₁.c = true := by
    rw [hk₁.c,(getD_behind hr' hp).2]
    exact hend'
  obtain ⟨k₂,hpad,hc₂,-,hw₂⟩ := hloop.pad (n := m) (i := i + (upTo l).length) hc (by omega)
  refine ⟨k₂,by rw [hm,hrun,hpad],hc₂ ▸ hc,fun j => ?_⟩
  rw [hw₂ j,hw₁ j]
  by_cases hj : o + i ≤ j ∧ j < o + i + (upTo l).length
  · rw [if_neg (by omega),if_pos hj,if_pos (by omega)]
  · by_cases hj' : o + (i + (upTo l).length) ≤ j ∧ j < o + (i + (upTo l).length) + m
    · rw [if_pos hj',if_pos (by omega)]
      exact (padded_of_le (by omega)).symm
    · rw [if_neg hj',if_neg hj,if_neg (by omega)]

end Copies

/-! ### The stages of `make_dos_name` -/

section Stages
variable {u : List UInt8} {d : DosName} {k₀ k₁ : NameCursor}

/-- From the cursor behind the base to the end: refused, or with these bytes in the extension. -/
def Finishes (u : List UInt8) (k : NameCursor) (o : Option (ℕ → UInt8)) : Prop :=
  match o with
  | none => (do
      match ← extensionFollows u k with
      | none => return none
      | some (follows,k) => extLoop u follows 3 0 k) = Except.ok (none : Option NameCursor)
  | some v => ∃ follows, ∃ k₂ k₃ : NameCursor, extensionFollows u k = .ok (some (follows,k₂)) ∧
      extLoop u follows 3 0 k₂ = .ok (some k₃) ∧ isEnd k₃.c = true ∧
      ∀ j < 11, k₃.dosname.byte j = if j < 8 then k.dosname.byte j else v (j - 8)

theorem next_dosname {k : NameCursor} (h : k.next u = .ok k₀) : k₀.dosname = k.dosname := by
  unfold NameCursor.next at h
  cases hc : charAt u k.pointer with
  | error e =>
    rw [hc] at h
    exact absurd h (by simp [bind,Except.bind])
  | ok c =>
    rw [hc,ok_bind] at h
    rw [← Except.ok.inj h]

/-- Nothing follows the base. -/
theorem finishes_end (h : isEnd k₁.c = true) : Finishes u k₁ (some fun _ => chSpace) := by
  have hdot : k₁.c ≠ chDot := by
    intro hd
    rw [hd] at h
    exact absurd h (by decide)
  obtain ⟨k₃,hpad,hc,-,hw⟩ := @extLoop_pad u false 3 0 k₁ (fun h => absurd h (by simp)) (by omega)
  refine ⟨false,k₁,k₃,by rw [extensionFollows,if_neg hdot,if_pos h],hpad,hc ▸ h,fun j hj => ?_⟩
  rw [hw j]
  by_cases h₈ : j < 8
  · rw [if_neg (by omega),if_pos h₈]
  · rw [if_pos (by omega),if_neg h₈]

/-- An extension follows. -/
theorem finishes_ext {p : ℕ} {x : List UInt8} (hk : k₁.Reads u p) (hdot : u.getD p 0 = chDot)
    (hx : u.drop (p+1) = x.map doschar) (hin : ∀ c ∈ x, inner c) (hlen : x.length ≤ 3) :
    Finishes u k₁ (if (0xE5 : UInt8) ∈ upTo x then none else some (padded (upTo x))) := by
  have hc : k₁.c = chDot := by
    rw [hk.c,hdot]
    rfl
  have hp : p < u.length := by
    by_contra hge
    rw [List.getD_eq_default _ _ (by omega)] at hdot
    exact absurd hdot (by decide)
  obtain ⟨k₂,hnext,hk₂,hsame⟩ := hk.next hp
  have hfollows : extensionFollows u k₁ = .ok (some (true,k₂)) := by
    rw [extensionFollows,if_pos hc,hnext]
    rfl
  have hx' : u.drop (p+1) = x.map doschar ++ [] := by rw [hx,List.append_nil]
  by_cases he : (0xE5 : UInt8) ∈ upTo x
  · rw [if_pos he]
    change (extensionFollows u k₁ >>= _) = _
    rw [hfollows,ok_bind]
    exact (copies_ext u).none hk₂ hx' hin he hlen (by omega)
  · rw [if_neg he]
    obtain ⟨k₃,hrun,hend,hw⟩ := (copies_ext u).ended hk₂ hx' hin he (fun _ => by decide) hlen
      (show 8 + 0 + 3 ≤ 12 by omega) hp
    refine ⟨true,k₂,k₃,hfollows,hrun,hend,fun j hj => ?_⟩
    rw [hw j,hsame]
    by_cases h₈ : j < 8
    · rw [if_neg (by omega),if_pos h₈]
    · rw [if_pos (by omega),if_neg h₈]

/-- The whole of `make_dos_name` from its stages. -/
theorem makeDosName_of_none
    (h₀ : (⟨Function.update d 11 0,0,0⟩ : NameCursor).next u = .ok k₀)
    (h₁ : baseLoop u 8 0 k₀ = .ok (some k₁)) (h : Finishes u k₁ none) : makeDosName d u 0 = .ok none := by
  dsimp only [Finishes] at h
  rw [makeDosName,h₀,ok_bind,h₁,ok_bind]
  dsimp only
  cases hf : extensionFollows u k₁ with
  | error e =>
    rw [hf] at h
    exact absurd h (by simp [bind,Except.bind])
  | ok o =>
    rw [hf,ok_bind] at h
    rw [ok_bind]
    cases o with
    | none => rfl
    | some q =>
      dsimp only at h ⊢
      rw [h]
      rfl

theorem makeDosName_of_some {v : ℕ → UInt8}
    (h₀ : (⟨Function.update d 11 0,0,0⟩ : NameCursor).next u = .ok k₀)
    (h₁ : baseLoop u 8 0 k₀ = .ok (some k₁)) (h : Finishes u k₁ (some v)) :
    ∃ d' m, makeDosName d u 0 = .ok (some (d',m)) ∧
      ∀ j < 11, d'.byte j = if j < 8 then k₁.dosname.byte j else v (j - 8) := by
  obtain ⟨follows,k₂,k₃,hfollows,hext,hend,hbytes⟩ := h
  refine ⟨k₃.dosname,k₃.pointer - 1,?_,hbytes⟩
  rw [makeDosName,h₀,ok_bind,h₁,ok_bind]
  dsimp only
  rw [hfollows,ok_bind]
  dsimp only
  rw [hext,ok_bind]
  dsimp only
  rw [if_pos hend]
  rfl

theorem makeDosName_of_base
    (h₀ : (⟨Function.update d 11 0,0,0⟩ : NameCursor).next u = .ok k₀)
    (h₁ : baseLoop u 8 0 k₀ = .ok none) : makeDosName d u 0 = .ok none := by
  rw [makeDosName,h₀,ok_bind,h₁]
  rfl

end Stages

/-! ### The eleven bytes -/

/-- The characters that come before a separator. -/
def seen (p : List UInt8 × Option (List UInt8)) : List UInt8 := (cut p).1 ++ (cut p).2.getD []

/-- The eleven bytes for what a separator leaves of the pieces. Behind a base of one character with an
extension the second byte is what was `left` in the array. -/
def byteOf (left : UInt8) : List UInt8 × Option (List UInt8) → ℕ → UInt8
  | (b,none), j => if j < 8 then padded b j else chSpace
  | ([],some x), j => if j < 8 then padded (chDot :: x) j else chSpace
  | ([c],some x), j =>
    if x = [] then if j < 8 then padded [c,chDot] j else chSpace
    else if j = 1 then left else if j < 8 then padded [c] j else padded x (j - 8)
  | (b,some x), j => if j < 8 then padded b j else padded x (j - 8)

section Bytes
variable {b : List UInt8} {x : Option (List UInt8)} (hb : ∀ c ∈ b, inner c) (hb₈ : b.length ≤ 8)
  (d : DosName)

theorem joined_some (b x : List UInt8) : joined (b,some x) = b.map doschar ++ chDot :: x.map doschar := rfl

include hb hb₈

theorem makeDosName_e5_base (he : (0xE5 : UInt8) ∈ upTo b) : makeDosName d (joined (b,x)) 0 = .ok none := by
  obtain ⟨k₀,hnext,hk₀⟩ := ShortName.next_start d (joined (b,x))
  exact makeDosName_of_base hnext ((copies_base _).none hk₀ rfl hb he hb₈ (by omega))

/-- A base that a separator or the end of the string ends. -/
theorem makeDosName_ended (he : (0xE5 : UInt8) ∉ upTo b) (h : upTo b = b → x = none) :
    ∃ d' m, makeDosName d (joined (b,x)) 0 = .ok (some (d',m)) ∧
      ∀ j < 11, d'.byte j = byteOf (d.byte 1) (upTo b,none) j := by
  obtain ⟨k₀,hnext,hk₀⟩ := ShortName.next_start d (joined (b,x))
  obtain ⟨k₁,hrun,hend,hw⟩ := (copies_base _).ended hk₀ rfl hb he
    (fun hs => by rw [h hs]; exact (by decide : isEnd (doschar (([] : List UInt8).getD 0 0)) = true)) hb₈ (show 0 + 0 + 8 ≤ 12 by omega) (Nat.zero_le _)
  obtain ⟨d',m,hmake,hbytes⟩ := makeDosName_of_some hnext hrun (finishes_end hend)
  refine ⟨d',m,hmake,fun j hj => ?_⟩
  rw [hbytes j hj,hw j]
  by_cases h₈ : j < 8
  · rw [if_pos h₈,if_pos (by omega)]
    exact (if_pos h₈).symm
  · rw [if_neg h₈]
    exact (if_neg h₈).symm

variable {l : List UInt8} (hl : ∀ c ∈ l, inner c) (hl₃ : l.length ≤ 3)
include hl hl₃

/-- A base of two characters or more and an extension. -/
theorem makeDosName_two (hs : upTo b = b) (he : (0xE5 : UInt8) ∉ b) (h₂ : 2 ≤ b.length) :
    if (0xE5 : UInt8) ∈ upTo l then makeDosName d (joined (b,some l)) 0 = .ok none
    else ∃ d' m, makeDosName d (joined (b,some l)) 0 = .ok (some (d',m)) ∧
      ∀ j < 11, d'.byte j = byteOf (d.byte 1) (b,some (upTo l)) j := by
  obtain ⟨k₀,hnext,hk₀⟩ := ShortName.next_start d (joined (b,some l))
  obtain ⟨m,hm⟩ := Nat.exists_eq_add_of_le hb₈
  obtain ⟨k₁,hrun,hk₁,hw₁⟩ := (copies_base _).whole (n := m) (i := 0) hk₀ (joined_some b l) hb hs he (by omega)
  rw [Nat.zero_add] at hk₁
  have hdot : (joined (b,some l)).getD b.length 0 = chDot := by
    have := (getD_behind (u := joined (b,some l)) (p := 0) (joined_some b l) (Nat.zero_le _)).2
    rwa [Nat.zero_add] at this
  have hc₁ : k₁.c = chDot := by
    rw [hk₁.c,hdot]
    rfl
  obtain ⟨k₂,hpad,hc₂,hp₂,hw₂⟩ := @baseLoop_pad (joined (b,some l)) m (0 + b.length) k₁
    (.inr ⟨hc₁,by omega⟩) (by omega)
  have hdrop : (joined (b,some l)).drop (b.length + 1) = l.map doschar := by
    rw [joined_some,← List.drop_drop,List.drop_left' (by simp)]
    rfl
  have hfinish := @finishes_ext _ k₂ _ _ ⟨hc₂.trans hk₁.c,hp₂.trans hk₁.pointer⟩ hdot hdrop hl hl₃
  have hbase : baseLoop (joined (b,some l)) 8 0 k₀ = .ok (some k₂) := by rw [hm,hrun,hpad]
  have hbyte (j : ℕ) (hj : j < 8) : k₂.dosname.byte j = padded b j := by
    rw [hw₂ j,hw₁ j]
    by_cases hin : j < b.length
    · rw [if_neg (by omega),if_pos (by omega)]
      rfl
    · rw [if_pos (by omega),padded_of_le (by omega)]
  obtain ⟨c,c',b',rfl⟩ : ∃ c c' b', b = c :: c' :: b' := by
    match b,h₂ with
    | c :: c' :: b',_ => exact ⟨c,c',b',rfl⟩
  by_cases hle : (0xE5 : UInt8) ∈ upTo l
  · rw [if_pos hle] at hfinish ⊢
    exact makeDosName_of_none hnext hbase hfinish
  · rw [if_neg hle] at hfinish ⊢
    obtain ⟨d',m',hmake,hbytes⟩ := makeDosName_of_some hnext hbase hfinish
    refine ⟨d',m',hmake,fun j hj => ?_⟩
    rw [hbytes j hj]
    by_cases h₈ : j < 8
    · rw [if_pos h₈,hbyte j h₈]
      exact (if_pos h₈).symm
    · rw [if_neg h₈]
      exact (if_neg h₈).symm

omit hb hb₈ in
/-- An extension only: the dot and what follows it become the base. -/
theorem makeDosName_dot : if (0xE5 : UInt8) ∈ upTo l then makeDosName d (joined ([],some l)) 0 = .ok none
    else ∃ d' m, makeDosName d (joined ([],some l)) 0 = .ok (some (d',m)) ∧
      ∀ j < 11, d'.byte j = byteOf (d.byte 1) ([],some (upTo l)) j := by
  obtain ⟨k₀,hnext,hk₀⟩ := ShortName.next_start d (joined ([],some l))
  have hc₀ : k₀.c = chDot := hk₀.c
  have hput := k₀.put_ok (show 0 < 12 by omega) chDot
  set k₁ : NameCursor := { k₀ with dosname := Function.update k₀.dosname ⟨0,by omega⟩ chDot }
  obtain ⟨k₂,hnext₂,hk₂,hsame⟩ := @NameCursor.Reads.next (joined ([],some l)) 0 k₁ ⟨hk₀.c,hk₀.pointer⟩
    (by rw [joined_some]; simp)
  have hstep : baseLoop (joined ([],some l)) 8 0 k₀ = baseLoop (joined ([],some l)) 7 1 k₂ := by
    rw [baseLoop,hc₀,if_neg (by decide),if_pos rfl,if_pos rfl,hput]
    change (k₁.next _ >>= fun k => baseLoop _ 7 (0+1) k) = _
    rw [hnext₂]
    rfl
  have hdrop : (joined ([],some l)).drop 1 = l.map doschar ++ [] := by
    rw [joined_some,List.append_nil]
    rfl
  by_cases he : (0xE5 : UInt8) ∈ upTo l
  · rw [if_pos he]
    refine makeDosName_of_base hnext ?_
    rw [hstep]
    exact (copies_base _).none hk₂ hdrop hl he (by omega) (by omega)
  · rw [if_neg he]
    obtain ⟨k₃,hrun,hend,hw⟩ := (copies_base _).ended (n := 7) (i := 1) hk₂ hdrop hl he (fun _ => by decide)
      (by omega) (by omega) (by rw [joined_some]; simp)
    obtain ⟨d',m,hmake,hbytes⟩ := makeDosName_of_some hnext (hstep.trans hrun) (finishes_end hend)
    refine ⟨d',m,hmake,fun j hj => ?_⟩
    rw [hbytes j hj]
    by_cases h₈ : j < 8
    · rw [if_pos h₈,hw j,hsame,DosName.byte_update]
      refine Eq.trans ?_ (if_pos h₈).symm
      by_cases h₀ : j = 0
      · subst h₀
        rw [if_neg (by omega),if_pos rfl]
        rfl
      · rw [if_pos (by omega)]
        obtain ⟨i,rfl⟩ : ∃ i, j = i + 1 := ⟨j - 1,by omega⟩
        rfl
    · rw [if_neg h₈]
      exact (if_neg h₈).symm

omit hb hb₈ in
/-- A base of one character and an extension. -/
theorem makeDosName_one {c : UInt8} (hc : inner c) (hs : doschar c ≠ chSlash) (he : c ≠ 0xE5) :
    if (0xE5 : UInt8) ∈ upTo l then makeDosName d (joined ([c],some l)) 0 = .ok none
    else ∃ d' m, makeDosName d (joined ([c],some l)) 0 = .ok (some (d',m)) ∧
      ∀ j < 11, d'.byte j = byteOf (d.byte 1) ([c],some (upTo l)) j := by
  obtain ⟨k₀,hnext,hk₀⟩ := ShortName.next_start d (joined ([c],some l))
  have hwhole : upTo [c] = [c] := by simp [upTo,hs]
  have hlength : (joined ([c],some l)).length = l.length + 2 := by
    rw [joined_some]
    simp
  obtain ⟨k₁,hrun,hk₁,hw₁⟩ := (copies_base _).whole (n := 7) (i := 0) hk₀ (joined_some [c] l)
    (by simpa using hc) hwhole (by simpa using Ne.symm he) (by simp)
  simp only [List.length_singleton,Nat.zero_add] at hrun hk₁ hw₁
  have hc₁ : k₁.c = chDot := by
    rw [hk₁.c]
    rfl
  have hdrop : (joined ([c],some l)).drop 2 = l.map doschar := by
    rw [joined_some]
    rfl
  have hdot : (joined ([c],some l)).getD 1 0 = chDot := rfl
  have hstart (j : ℕ) (hj : j < 11) : k₀.dosname.byte j = d.byte j := by
    rw [next_dosname hnext]
    exact (DosName.byte_update d (show 11 < 12 by omega) 0 j).trans (if_neg (by omega))
  have hfirst (j : ℕ) (hj : j < 11) : k₁.dosname.byte j = if j = 0 then doschar c else d.byte j := by
    rw [hw₁ j]
    by_cases h₀ : j = 0
    · subst h₀
      rfl
    · rw [if_neg (by omega),if_neg h₀,hstart j hj]
  have hafter : charAt (joined ([c],some l)) k₁.pointer = .ok ((l.map doschar).getD 0 0) := by
    rw [hk₁.pointer,charAt_le (by omega)]
    rfl
  by_cases hl₀ : upTo l = []
  · have hnone : (0xE5 : UInt8) ∉ upTo l := by simp [hl₀]
    have hend : (l.map doschar).getD 0 0 = 0 ∨ doschar ((l.map doschar).getD 0 0) = chSlash := by
      rcases upTo_append l with h | ⟨c',r,h,hc'⟩
      · left
        rw [h,hl₀]
        rfl
      · right
        rw [h,hl₀,List.nil_append,List.map_cons,List.getD_cons_zero,hc']
        decide
    have hput := k₁.put_ok (show 1 < 12 by omega) chDot
    set k₂ : NameCursor := { k₁ with dosname := Function.update k₁.dosname ⟨1,by omega⟩ chDot }
    obtain ⟨k₃,hnext₃,hk₃,hsame⟩ := @NameCursor.Reads.next (joined ([c],some l)) 1 k₂ ⟨hk₁.c,hk₁.pointer⟩
      (by omega)
    have hstep : baseLoop (joined ([c],some l)) 7 1 k₁ = baseLoop (joined ([c],some l)) 6 2 k₃ := by
      rw [baseLoop,hc₁,if_neg (by decide),if_pos rfl,if_neg (by omega),if_pos rfl,hafter,ok_bind,if_pos hend,hput]
      change (k₂.next _ >>= fun k => baseLoop _ 6 (1+1) k) = _
      rw [hnext₃]
      rfl
    have hisEnd : isEnd k₃.c = true := by
      rw [hk₃.c]
      have hget : (joined ([c],some l)).getD (1+1) 0 = (l.map doschar).getD 0 0 := rfl
      rw [hget]
      rcases hend with h | h <;> rw [h] <;> decide
    obtain ⟨k₄,hpad,hc₄,-,hw₄⟩ := @baseLoop_pad (joined ([c],some l)) 6 2 k₃ (.inl hisEnd) (by omega)
    obtain ⟨d',m,hmake,hbytes⟩ := makeDosName_of_some hnext (hrun.trans (hstep.trans hpad))
      (finishes_end (hc₄ ▸ hisEnd))
    rw [if_neg hnone]
    refine ⟨d',m,hmake,fun j hj => ?_⟩
    rw [hbytes j hj,hw₄ j,hsame,DosName.byte_update _ (by omega),hl₀]
    by_cases h₈ : j < 8
    · rw [if_pos h₈]
      refine Eq.trans ?_ (if_pos h₈).symm
      rcases j with _ | _ | j
      · rw [if_neg (by omega),if_neg (by omega),hfirst 0 (by omega)]
        rfl
      · rw [if_neg (by omega),if_pos rfl]
        rfl
      · rw [if_pos (by omega)]
        rfl
    · rw [if_neg h₈]
      exact (if_neg h₈).symm
  · obtain ⟨c',r,hl'⟩ := List.exists_cons_of_ne_nil hl₀
    have hmem : c' ∈ upTo l := by simp [hl']
    have hin' := hl c' (upTo_subset l hmem)
    have hgo : ¬ ((l.map doschar).getD 0 0 = 0 ∨ doschar ((l.map doschar).getD 0 0) = chSlash) := by
      have hget : (l.map doschar).getD 0 0 = doschar c' := by
        obtain ⟨t,ht⟩ : upTo l <+: l := List.takeWhile_prefix _
        rw [← ht,hl']
        rfl
      rw [hget]
      rintro (h | h)
      · exact hin'.1 ((doschar_zero c').1 h)
      · by_cases he' : c' = 0xE5
        · rw [he',doschar_e5] at h
          exact absurd h (by decide)
        · rw [doschar_doschar (nameChar_of_inner hin' (mem_upTo hmem)) he'] at h
          exact mem_upTo hmem h
    have hstep : baseLoop (joined ([c],some l)) 7 1 k₁ = baseLoop (joined ([c],some l)) 6 2 k₁ := by
      rw [baseLoop,hc₁,if_neg (by decide),if_pos rfl,if_neg (by omega),if_pos rfl,hafter,ok_bind,if_neg hgo]
    obtain ⟨k₂,hpad,hc₂,hp₂,hw₂⟩ := @baseLoop_pad (joined ([c],some l)) 6 2 k₁ (.inr ⟨hc₁,le_rfl⟩) (by omega)
    have hbase := hrun.trans (hstep.trans hpad)
    have hfinish := @finishes_ext _ k₂ _ _ ⟨hc₂.trans hk₁.c,hp₂.trans hk₁.pointer⟩ hdot hdrop hl hl₃
    by_cases hle : (0xE5 : UInt8) ∈ upTo l
    · rw [if_pos hle] at hfinish ⊢
      exact makeDosName_of_none hnext hbase hfinish
    · rw [if_neg hle] at hfinish ⊢
      obtain ⟨d',m,hmake,hbytes⟩ := makeDosName_of_some hnext hbase hfinish
      refine ⟨d',m,hmake,fun j hj => ?_⟩
      rw [hbytes j hj,byteOf,if_neg hl₀,hw₂ j]
      by_cases h₁ : j = 1
      · subst h₁
        rw [if_pos (by omega),if_neg (by omega),hfirst 1 (by omega)]
        rfl
      · rw [if_neg h₁]
        by_cases h₈ : j < 8
        · rw [if_pos h₈,if_pos h₈,hfirst j hj]
          rcases j with _ | _ | j
          · rfl
          · exact absurd rfl h₁
          · rw [if_pos (by omega)]
            rfl
        · rw [if_neg h₈,if_neg h₈]

end Bytes

/-- `make_dos_name` on the pieces of a name. -/
theorem makeDosName_joined {p : List UInt8 × Option (List UInt8)} (hb : ∀ c ∈ p.1, inner c)
    (hb₈ : p.1.length ≤ 8) (hx : ∀ l, p.2 = some l → (∀ c ∈ l, inner c) ∧ l.length ≤ 3) (d : DosName) :
    if (0xE5 : UInt8) ∈ seen p then makeDosName d (joined p) 0 = .ok none
    else ∃ d' m, makeDosName d (joined p) 0 = .ok (some (d',m)) ∧
      ∀ j < 11, d'.byte j = byteOf (d.byte 1) (cut p) j := by
  obtain ⟨b,x⟩ := p
  dsimp only at hb hb₈ hx
  by_cases he : (0xE5 : UInt8) ∈ upTo b
  · have hseen : (0xE5 : UInt8) ∈ seen (b,x) := by
      unfold seen cut
      by_cases hs : upTo b = b
      · rw [if_pos hs]
        exact List.mem_append_left _ (hs ▸ he)
      · rw [if_neg hs]
        exact List.mem_append_left _ he
    rw [if_pos hseen]
    exact makeDosName_e5_base hb hb₈ d he
  by_cases hs : upTo b = b
  · cases x with
    | none =>
      have hcut : cut (b,none) = (upTo b,none) := by rw [cut,if_pos hs,hs]; rfl
      have hseen : (0xE5 : UInt8) ∉ seen (b,none) := by rw [seen,hcut]; simpa using he
      rw [if_neg hseen,hcut]
      exact makeDosName_ended hb hb₈ d he fun _ => rfl
    | some l =>
      obtain ⟨hl,hl₃⟩ := hx l rfl
      have hcut : cut (b,some l) = (b,some (upTo l)) := by rw [cut,if_pos hs]; rfl
      have he' : (0xE5 : UInt8) ∉ b := hs ▸ he
      have hseen : (0xE5 : UInt8) ∈ seen (b,some l) ↔ (0xE5 : UInt8) ∈ upTo l := by
        rw [seen,hcut]
        simp [he']
      rw [hcut]
      simp only [hseen]
      rcases b with _ | ⟨c,_ | ⟨c',b⟩⟩
      · exact makeDosName_dot d hl hl₃
      · have hsep : doschar c ≠ chSlash := mem_upTo (l := [c]) (by rw [hs]; simp)
        exact makeDosName_one d hl hl₃ (hb c (by simp)) hsep fun h => he' (by simp [h])
      · exact makeDosName_two hb hb₈ d hl hl₃ hs he' (by simp)
  · have hcut : cut (b,x) = (upTo b,none) := by rw [cut,if_neg hs]
    have hseen : (0xE5 : UInt8) ∉ seen (b,x) := by rw [seen,hcut]; simpa using he
    rw [if_neg hseen,hcut]
    exact makeDosName_ended hb hb₈ d he fun h => absurd h hs

/-! ### Both conversions -/

/-- Neither conversion refuses the element. -/
def accepted (e : List UInt8) : Prop :=
  legal (stem e) ∧ legal ((extension e).take 3) ∧ (0xE5 : UInt8) ∉ seen (pieces e)

instance (e : List UInt8) : Decidable (accepted e) := inferInstanceAs (Decidable (_ ∧ _))

theorem findDot_eq_some {url : List UInt8} {i k : ℕ} (h : findDot url i = some k) :
    0 < k ∧ k ≤ i ∧ url[k]? = some chDot ∧ ∀ j, k < j → j ≤ i → url[j]? ≠ some chDot := by
  induction i with
  | zero => simp [findDot] at h
  | succ i ih =>
    rw [findDot] at h
    split at h
    · obtain rfl := Option.some.inj h
      exact ⟨by omega,le_rfl,‹_›,fun j _ _ => by omega⟩
    · obtain ⟨h₁,h₂,h₃,h₄⟩ := ih h
      refine ⟨h₁,by omega,h₃,fun j hj hle => ?_⟩
      rcases Nat.eq_or_lt_of_le hle with rfl | hlt
      · assumption
      · exact h₄ j hj (by omega)

/-- The extension begins behind the last dot. -/
theorem dot_not_mem_extension (e : List UInt8) : chDot ∉ extension e := by
  intro hmem
  unfold extension at hmem
  split at hmem
  · simp at hmem
  · rename_i hlast
    split at hmem
    · rename_i k hk
      obtain ⟨hpos,hle,-,hbehind⟩ := findDot_eq_some hk
      obtain ⟨j,hj⟩ := List.mem_iff_getElem?.1 hmem
      rw [List.getElem?_drop] at hj
      have hlt : k + 1 + j < e.length := by
        by_contra hge
        rw [List.getElem?_eq_none (by omega)] at hj
        simp at hj
      by_cases hin : k + 1 + j ≤ e.length - 2
      · exact hbehind _ (by omega) hin hj
      · rw [List.getLast?_eq_getElem?,show e.length - 1 = k + 1 + j by omega] at hlast
        exact hlast hj
    · simp at hmem

theorem stem_subset (e : List UInt8) : stem e ⊆ e := fun _ h =>
  List.takeWhile_subset _ (List.mem_of_mem_take h)

theorem dot_not_mem_stem (e : List UInt8) : chDot ∉ stem e := by
  intro h
  have := List.mem_takeWhile_imp (List.mem_of_mem_take h)
  simp at this

theorem stem_length (e : List UInt8) : (stem e).length ≤ room e := by
  unfold stem stemFrom
  rw [List.length_take]
  omega

section Pieces
variable {e : List UInt8} (h₀ : 0 ∉ e) (hstem : legal (stem e)) (hext : legal ((extension e).take 3))
include h₀

include hstem in
theorem pieces_base : (∀ c ∈ (pieces e).1, inner c) ∧ (pieces e).1.length ≤ 8 := by
  have hlen := stem_length e
  refine ⟨fun c hc => ?_,?_⟩
  · rcases List.mem_append.1 hc with hc | hc
    · exact ⟨fun h => h₀ (h ▸ stem_subset e hc),fun h => dot_not_mem_stem e (h ▸ hc),hstem c hc⟩
    · split at hc
      · have : c = chTilde ∨ c = 0x31 := by simpa using hc
        rcases this with rfl | rfl <;> exact ⟨by decide,by decide,by decide⟩
      · simp at hc
  · unfold pieces
    rw [List.length_append]
    unfold room at hlen
    by_cases hl : long e
    · rw [if_pos hl] at hlen ⊢
      simpa using Nat.add_le_add_right hlen 2
    · rw [if_neg hl] at hlen ⊢
      simpa using hlen

include hext in
theorem pieces_ext {l : List UInt8} (h : (pieces e).2 = some l) : (∀ c ∈ l, inner c) ∧ l.length ≤ 3 := by
  have h : (if dotless e then none else some ((extension e).take 3)) = some l := h
  split at h
  · simp at h
  · obtain rfl := Option.some.inj h
    refine ⟨fun c hc => ?_,by rw [List.length_take]; omega⟩
    have hmem := List.mem_of_mem_take hc
    exact ⟨fun h => h₀ (h ▸ extension_subset e hmem),fun h => dot_not_mem_extension e (h ▸ hmem),hext c hc⟩

end Pieces

/-- What a lookup takes from the result of `make_dos_name`. -/
def taken : Option (DosName × ℕ) → Except Stop (Option DosName)
  | none => pure none
  | some (name,_) => pure (some name)

/-- What `fat_lookup_path` makes of an element. -/
theorem convertElement_eq {e : List UInt8} (hne : e ≠ []) (h₀ : 0 ∉ e) (d : DosName) :
    if accepted e then ∃ d', convertElement d e = .ok (some d') ∧
      ∀ j < 11, d'.byte j = byteOf (d.byte 1) (cut (pieces e)) j
    else convertElement d e = .ok none := by
  have hfirst := strToFatname_eq hne h₀ none
  by_cases hlegal : legal (stem e) ∧ legal ((extension e).take 3)
  · obtain ⟨hstem,hext⟩ := hlegal
    obtain ⟨hb,hb₈⟩ := pieces_base h₀ hstem
    have hsecond := makeDosName_joined hb hb₈ (fun l hl => pieces_ext h₀ hext hl) d
    rw [if_pos ⟨hstem,hext⟩] at hfirst
    have hrun : convertElement d e = (makeDosName d (joined (pieces e)) 0 >>= taken) := by
      rw [convertElement,hfirst,ok_bind]
      refine congrArg (makeDosName d (joined (pieces e)) 0 >>= ·) (funext fun r => ?_)
      cases r <;> rfl
    by_cases he : (0xE5 : UInt8) ∈ seen (pieces e)
    · rw [if_pos he] at hsecond
      rw [if_neg fun h => h.2.2 he,hrun,hsecond]
      rfl
    · rw [if_neg he] at hsecond
      obtain ⟨d',m,hmake,hbytes⟩ := hsecond
      rw [if_pos ⟨hstem,hext,he⟩]
      refine ⟨d',?_,hbytes⟩
      rw [hrun,hmake]
      rfl
  · rw [if_neg hlegal] at hfirst
    rw [if_neg fun h => hlegal ⟨h.1,h.2.1⟩,convertElement,hfirst]
    rfl

end Element

end Gristle
