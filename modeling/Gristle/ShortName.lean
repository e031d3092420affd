import Gristle.Lookup
import Mathlib.Data.List.GetD

/-! Valid 8.3 names: what the two conversions of `fat_lookup_path` make of them. -/
namespace Gristle

/-- A character a name may consist of: `doschar` accepts it and it separates nothing. -/
def nameChar (c : UInt8) : Bool :=
  doschar c != 0 && doschar c != 1 && doschar c != chSlash && doschar c != chDot

/-- A base of one to eight characters and an extension of at most three. -/
structure ShortName where
  base : List UInt8
  ext : List UInt8
  base_pos : 0 < base.length
  base_le : base.length ≤ 8
  ext_le : ext.length ≤ 3
  base_chars : ∀ c ∈ base, nameChar c = true
  ext_chars : ∀ c ∈ ext, nameChar c = true

namespace ShortName

/-- The name as an element of a path. -/
def text (n : ShortName) : List UInt8 := n.base ++ if n.ext = [] then [] else chDot :: n.ext

/-- The eleven bytes of the name in a directory entry. -/
def byte (n : ShortName) (i : ℕ) : UInt8 :=
  if i < 8 then (n.base.map doschar).getD i chSpace else (n.ext.map doschar).getD (i - 8) chSpace

/-- The second conversion does not accept what the first one makes of the character 0xE5. -/
def plain (n : ShortName) : Bool := !(n.base ++ n.ext).contains 0xE5

/-- A base of one character is taken for a directory reference when an extension follows. -/
def clear (n : ShortName) : Prop := 2 ≤ n.base.length ∨ n.ext = []

/-- What `str_to_fatname` makes of the name. -/
def fatname (n : ShortName) : List UInt8 := n.base.map doschar ++
  if n.ext = [] then if n.base.length = 8 then [chDot] else [] else chDot :: n.ext.map doschar

end ShortName

theorem ok_bind {ε α β : Type} (a : α) (f : α → Except ε β) : (Except.ok a >>= f) = f a := rfl

theorem forall_uint8 {p : UInt8 → Prop} (h : ∀ k < 256, p (UInt8.ofNat k)) (c : UInt8) : p c := by
  have := h c.toNat c.toNat_lt
  rwa [UInt8.ofNat_toNat] at this

theorem nameChar_iff {c : UInt8} : nameChar c = true ↔
    doschar c ≠ 0 ∧ doschar c ≠ 1 ∧ doschar c ≠ chSlash ∧ doschar c ≠ chDot := by
  simp [nameChar,and_assoc]

theorem ne_dot_of_nameChar {c : UInt8} (h : nameChar c = true) : c ≠ chDot := by
  rintro rfl
  exact absurd h (by decide)

theorem doschar_doschar {c : UInt8} (hc : nameChar c = true) (he : c ≠ 0xE5) :
    doschar (doschar c) = doschar c := by
  revert hc he
  refine forall_uint8 (p := fun c => nameChar c = true → c ≠ 0xE5 → doschar (doschar c) = doschar c)
    ?_ c
  decide +kernel

theorem doschar_e5 : doschar (doschar 0xE5) = 1 := by decide

/-! ### `str_to_fatname` -/

theorem charAt_of_drop {s r : List UInt8} {i : ℕ} {c : UInt8} (h : s.drop i = c :: r) :
    charAt s i = .ok c := by
  have hc : s[i]? = some c := by
    have := congrArg (·[0]?) h
    simpa using this
  rw [charAt,hc]

theorem charAt_end {s : List UInt8} {i : ℕ} (h : s.drop i = []) (hi : i ≤ s.length) :
    charAt s i = .ok 0 := by
  have hlen : i = s.length := by
    have := List.drop_eq_nil_iff.1 h
    omega
  rw [charAt,List.getElem?_eq_none (by omega)]
  exact if_pos hlen

theorem drop_succ {s r : List UInt8} {i : ℕ} {c : UInt8} (h : s.drop i = c :: r) :
    s.drop (i+1) = r := by
  rw [← List.drop_drop,h,List.drop_one,List.tail_cons]

theorem copyBase_chars {url base r : List UInt8} {n i : ℕ} {out : List UInt8}
    (h : url.drop i = base ++ r) (hbase : ∀ c ∈ base, nameChar c = true) :
    copyBase url (base.length + n) i out =
      copyBase url n (i + base.length) (out ++ base.map doschar) := by
  induction base generalizing i out with
  | nil => simp
  | cons c base ih =>
    obtain ⟨h₀,h₁,-,hdot⟩ := nameChar_iff.1 (hbase c (by simp))
    have hnext := drop_succ (r := base ++ r) h
    rw [List.length_cons,Nat.add_right_comm,copyBase,charAt_of_drop (r := base ++ r) h]
    change (if doschar c = 1 then _ else if doschar c = 0 then _ else if doschar c = chDot then _ else
      copyBase url (base.length + n) (i+1) (out ++ [doschar c])) = _
    rw [if_neg h₁,if_neg h₀,if_neg hdot,ih hnext fun c hc => hbase c (by simp [hc])]
    rw [Nat.add_right_comm i 1,Nat.add_assoc,List.map_cons,List.append_assoc,List.singleton_append]

theorem copyExt_chars {ext : List UInt8} {n j : ℕ} {out e r : List UInt8} (h : ext.drop j = e ++ r)
    (hext : ∀ c ∈ e, nameChar c = true) :
    copyExt ext (e.length + n) j out = copyExt ext n (j + e.length) (out ++ e.map doschar) := by
  induction e generalizing j out with
  | nil => simp
  | cons c e ih =>
    obtain ⟨h₀,h₁,-,-⟩ := nameChar_iff.1 (hext c (by simp))
    have hnext := drop_succ (r := e ++ r) h
    rw [List.length_cons,Nat.add_right_comm,copyExt,charAt_of_drop (r := e ++ r) h]
    change (if doschar c = 0 then _ else if doschar c = 1 then _ else
      copyExt ext (e.length + n) (j+1) (out ++ [doschar c])) = _
    rw [if_neg h₀,if_neg h₁,ih hnext fun c hc => hext c (by simp [hc])]
    rw [Nat.add_right_comm j 1,Nat.add_assoc,List.map_cons,List.append_assoc,List.singleton_append]

/-- The extension up to its end. -/
theorem copyExt_end {ext : List UInt8} {n : ℕ} {out : List UInt8} (hlen : ext.length ≤ n)
    (hext : ∀ c ∈ ext, nameChar c = true) : copyExt ext n 0 out = .ok (some (out ++ ext.map doschar)) := by
  obtain ⟨m,rfl⟩ := Nat.exists_eq_add_of_le hlen
  rw [copyExt_chars (r := []) (by simp) hext,Nat.zero_add]
  cases m with
  | zero => rfl
  | succ m =>
    rw [copyExt,charAt_end (by simp) le_rfl]
    rfl

theorem findDot_none {url : List UInt8} {i : ℕ} (h : ∀ j, 0 < j → j ≤ i → url[j]? ≠ some chDot) :
    findDot url i = none := by
  induction i with
  | zero => rfl
  | succ i ih =>
    rw [findDot,if_neg (h (i+1) (by omega) le_rfl)]
    exact ih fun j hj hle => h j hj (by omega)

theorem findDot_some {url : List UInt8} {i k : ℕ} (hk : 0 < k) (hki : k ≤ i)
    (hdot : url[k]? = some chDot) (h : ∀ j, k < j → j ≤ i → url[j]? ≠ some chDot) :
    findDot url i = some k := by
  induction i with
  | zero => omega
  | succ i ih =>
    rw [findDot]
    by_cases he : k = i + 1
    · rw [if_pos (he ▸ hdot),he]
    · rw [if_neg (h (i+1) (by omega) le_rfl)]
      exact ih (by omega) fun j hj hle => h j hj (by omega)

namespace ShortName

/-- The last character of a list of ordinary characters is one of them. -/
theorem getLast_chars {l : List UInt8} (hne : l ≠ []) (h : ∀ c ∈ l, nameChar c = true) :
    ∃ c, l.getLast? = some c ∧ c ≠ chDot :=
  ⟨_,List.getLast?_eq_some_getLast hne,ne_dot_of_nameChar (h _ (List.getLast_mem hne))⟩

theorem getElem?_ne_dot {l : List UInt8} (h : ∀ c ∈ l, nameChar c = true) (j : ℕ) :
    l[j]? ≠ some chDot := fun hj => ne_dot_of_nameChar (h _ (List.mem_of_getElem? hj)) rfl

theorem strToFatname_text (n : ShortName) (before : Option UInt8) :
    strToFatname before n.text = .ok (some n.fatname) := by
  have hbase := n.base_chars
  have hpos := n.base_pos
  have hle := n.base_le
  have hext₃ := n.ext_le
  have hne : n.base ≠ [] := List.length_pos_iff.1 hpos
  by_cases hext : n.ext = []
  · have htext : n.text = n.base := by rw [text,if_pos hext,List.append_nil]
    obtain ⟨last,hlast,hdot⟩ := getLast_chars hne hbase
    have hfind : findDot n.base (n.base.length - 2) = none :=
      findDot_none fun j _ _ => getElem?_ne_dot hbase j
    obtain ⟨m,hm⟩ := Nat.exists_eq_add_of_le hle
    have hcopy : copyBase n.base 8 0 [] = copyBase n.base m n.base.length (n.base.map doschar) := by
      rw [hm,copyBase_chars (r := []) (by simp) hbase,Nat.zero_add,List.nil_append]
    have hshort : ¬ (8 < n.base.length ∨ 3 < ([] : List UInt8).length) := by
      rw [List.length_nil]
      omega
    unfold strToFatname
    rw [htext,hlast,fatname,if_pos hext]
    simp only [ok_bind,if_neg hdot,hfind,Option.getD_none,if_neg hshort,hcopy]
    cases m with
    | zero =>
      change (copyExt [] 3 0 (n.base.map doschar ++ [chDot]) >>= fun o => _) = _
      rw [copyExt_end (by simp) (by simp),ok_bind,if_pos (by omega),List.map_nil,List.append_nil]
      rfl
    | succ m =>
      rw [copyBase,charAt_end (by simp) le_rfl,if_neg (by omega),List.append_nil]
      rfl
  · have htext : n.text = n.base ++ chDot :: n.ext := by rw [text,if_neg hext]
    have hlen : n.text.length = n.base.length + n.ext.length + 1 := by
      rw [htext,List.length_append,List.length_cons,Nat.add_assoc]
    have hextpos := List.length_pos_iff.2 hext
    obtain ⟨last,hlast,hdot⟩ := getLast_chars hext n.ext_chars
    have hlast' : n.text.getLast? = some last := by
      rw [htext,List.getLast?_append,List.getLast?_cons,hlast]
      rfl
    have hfind : findDot n.text (n.text.length - 2) = some n.base.length := by
      refine findDot_some hpos (by omega) ?_ fun j hj hlej => ?_
      · rw [htext,List.getElem?_append_right le_rfl,Nat.sub_self]
        rfl
      · rw [htext,List.getElem?_append_right (by omega)]
        obtain ⟨k,hk⟩ : ∃ k, j - n.base.length = k + 1 := ⟨j - n.base.length - 1,by omega⟩
        rw [hk,List.getElem?_cons_succ]
        exact getElem?_ne_dot n.ext_chars k
    have hdrop : n.text.drop (n.base.length + 1) = n.ext := by
      rw [htext,← List.drop_drop,List.drop_left]
      rfl
    obtain ⟨m,hm⟩ := Nat.exists_eq_add_of_le hle
    have hcopy : copyBase n.text 8 0 [] = copyBase n.text m n.base.length (n.base.map doschar) := by
      rw [hm,copyBase_chars (r := chDot :: n.ext) (by rw [List.drop_zero,htext]) n.base_chars,Nat.zero_add,List.nil_append]
    have hmore : copyBase n.text m n.base.length (n.base.map doschar) = .ok (.more (n.base.map doschar)) := by
      cases m with
      | zero => rfl
      | succ m =>
        have hd : n.text.drop n.base.length = chDot :: n.ext := by rw [htext,List.drop_left]
        rw [copyBase,charAt_of_drop hd]
        rfl
    have hshort : ¬ (8 < n.base.length ∨ 3 < n.ext.length) := by omega
    unfold strToFatname
    rw [hlast',fatname,if_neg hext]
    simp only [ok_bind,if_neg hdot,hfind,Option.getD_some,hdrop,if_neg hshort,hcopy,hmore]
    rw [copyExt_end hext₃ n.ext_chars,ok_bind,List.append_assoc]
    rfl

end ShortName

/-! ### `make_dos_name` -/

theorem charAt_le {s : List UInt8} {i : ℕ} (h : i ≤ s.length) : charAt s i = .ok (s.getD i 0) := by
  rcases Nat.lt_or_eq_of_le h with hlt | rfl
  · rw [charAt,List.getElem?_eq_getElem hlt,List.getD_eq_getElem _ _ hlt]
  · rw [charAt,List.getElem?_eq_none le_rfl,List.getD_eq_default _ _ le_rfl]
    exact if_pos rfl

theorem DosName.byte_update (d : DosName) {i : ℕ} (hi : i < 12) (v : UInt8) (j : ℕ) :
    DosName.byte (Function.update d ⟨i,hi⟩ v) j = if j = i then v else DosName.byte d j := by
  unfold DosName.byte
  by_cases hj : j < 12
  · rw [dif_pos hj,dif_pos hj,Function.update_apply]
    simp only [Fin.mk.injEq]
  · rw [dif_neg hj,dif_neg hj,if_neg (by omega)]

namespace NameCursor

/-- The character in hand is the one at index `p`. -/
structure Reads (u : List UInt8) (p : ℕ) (k : NameCursor) : Prop where
  c : k.c = doschar (u.getD p 0)
  pointer : k.pointer = p + 1

theorem Reads.next {u : List UInt8} {p : ℕ} {k : NameCursor} (h : k.Reads u p) (hp : p < u.length) :
    ∃ k' : NameCursor, k.next u = .ok k' ∧ k'.Reads u (p+1) ∧ k'.dosname = k.dosname := by
  refine ⟨{ k with c := doschar (u.getD (p+1) 0), pointer := p + 2 },?_,⟨rfl,rfl⟩,rfl⟩
  rw [NameCursor.next,h.pointer,charAt_le hp]
  rfl

/-- The names differ in the bytes `i, …, i+q-1` only, which are those of `v`. -/
def Writes (i q : ℕ) (v : ℕ → UInt8) (k k' : NameCursor) : Prop :=
  ∀ j, k'.dosname.byte j = if i ≤ j ∧ j < i + q then v j else k.dosname.byte j

theorem put_ok (k : NameCursor) {i : ℕ} (hi : i < 12) (v : UInt8) :
    k.put i v = .ok { k with dosname := Function.update k.dosname ⟨i,hi⟩ v } := dif_pos hi

end NameCursor

/-- A run of ordinary characters. -/
def charsAt (u : List UInt8) (p q : ℕ) : Prop :=
  ∀ j < q, p + j < u.length ∧ nameChar (u.getD (p+j) 0) = true

theorem charsAt.tail {u : List UInt8} {p q : ℕ} (h : charsAt u p (q+1)) : charsAt u (p+1) q :=
  fun j hj => by
    have := h (j+1) (by omega)
    rwa [show p + (j + 1) = p + 1 + j by omega] at this

/-- The loop over the base copies them. -/
theorem baseLoop_chars {u : List UInt8} {q n i p : ℕ} {k : NameCursor} (hk : k.Reads u p)
    (h : charsAt u p q) (hi : i + q ≤ 12) : ∃ k' : NameCursor,
      baseLoop u (q + n) i k = baseLoop u n (i + q) k' ∧ k'.Reads u (p + q) ∧
      NameCursor.Writes i q (fun j => doschar (u.getD (p + (j - i)) 0)) k k' := by
  induction q generalizing i p k with
  | zero => exact ⟨k,by rw [Nat.zero_add,Nat.add_zero],hk,fun j => by rw [if_neg (by omega)]⟩
  | succ q ih =>
    obtain ⟨hp,hchar⟩ := h 0 (by omega)
    obtain ⟨h₀,h₁,hslash,hdot⟩ := nameChar_iff.1 hchar
    rw [Nat.add_zero,← hk.c] at h₀ h₁ hslash hdot
    have hput := k.put_ok (show i < 12 by omega) k.c
    set k₁ : NameCursor := { k with dosname := Function.update k.dosname ⟨i,by omega⟩ k.c }
    obtain ⟨k₂,hnext,hreads,hsame⟩ := @NameCursor.Reads.next u p k₁ ⟨hk.c,hk.pointer⟩ hp
    obtain ⟨k',hloop,hk',hw⟩ := ih (i := i+1) hreads h.tail (by omega)
    refine ⟨k',?_,by rwa [show p + (q + 1) = p + 1 + q by omega],fun j => ?_⟩
    · have hend : isEnd k.c = false := by simp [isEnd,h₀,hslash]
      rw [Nat.add_right_comm,baseLoop,hend,if_neg (by simp),if_neg hdot,if_neg h₁,hput]
      change (k₁.next u >>= fun k => baseLoop u (q + n) (i+1) k) = _
      rw [hnext,ok_bind,hloop,Nat.add_right_comm i 1,Nat.add_assoc]
    · rw [hw j,hsame,DosName.byte_update]
      by_cases hj : j = i
      · rw [if_neg (by omega),if_pos hj,if_pos (by omega),hj,hk.c]
        change _ = doschar (u.getD (p + (i - i)) 0)
        rw [Nat.sub_self]
        rfl
      · rw [if_neg hj]
        by_cases hin : i + 1 ≤ j ∧ j < i + 1 + q
        · rw [if_pos hin,if_pos (by omega)]
          change doschar (u.getD (p + 1 + (j - (i + 1))) 0) = _
          rw [show p + 1 + (j - (i + 1)) = p + (j - i) by omega]
        · rw [if_neg hin,if_neg (by omega)]

/-- Behind the end of the base it fills with spaces. -/
theorem baseLoop_pad {u : List UInt8} {n i : ℕ} {k : NameCursor}
    (h : isEnd k.c = true ∨ k.c = chDot ∧ 2 ≤ i) (hi : i + n ≤ 12) : ∃ k' : NameCursor,
      baseLoop u n i k = .ok (some k') ∧ k'.c = k.c ∧ k'.pointer = k.pointer ∧
      NameCursor.Writes i n (fun _ => chSpace) k k' := by
  induction n generalizing i k with
  | zero => exact ⟨k,rfl,rfl,rfl,fun j => by rw [if_neg (by omega)]⟩
  | succ n ih =>
    have hput := k.put_ok (show i < 12 by omega) chSpace
    set k₁ : NameCursor := { k with dosname := Function.update k.dosname ⟨i,by omega⟩ chSpace }
    obtain ⟨k',hloop,hc,hpointer,hw⟩ := @ih (i+1) k₁ (h.imp_right fun h => ⟨h.1,by omega⟩) (by omega)
    refine ⟨k',?_,hc,hpointer,fun j => ?_⟩
    · rw [baseLoop]
      by_cases hend : isEnd k.c = true
      · rw [if_pos hend,hput,ok_bind,hloop]
      · obtain ⟨hdot,hi₂⟩ := h.resolve_left hend
        rw [if_neg hend,if_pos hdot,if_neg (by omega),if_neg (by omega),hput,ok_bind,hloop]
    · rw [hw j,DosName.byte_update]
      by_cases hj : j = i
      · rw [if_neg (by omega),if_pos hj,if_pos (by omega)]
      · rw [if_neg hj]
        by_cases hin : i + 1 ≤ j ∧ j < i + 1 + n
        · rw [if_pos hin,if_pos (by omega)]
        · rw [if_neg hin,if_neg (by omega)]

/-- The loop over the extension copies ordinary characters too. -/
theorem extLoop_chars {u : List UInt8} {q n i p : ℕ} {k : NameCursor} (hk : k.Reads u p)
    (h : charsAt u p q) (hi : 8 + i + q ≤ 12) : ∃ k' : NameCursor,
      extLoop u true (q + n) i k = extLoop u true n (i + q) k' ∧ k'.Reads u (p + q) ∧
      NameCursor.Writes (8 + i) q (fun j => doschar (u.getD (p + (j - (8 + i))) 0)) k k' := by
  induction q generalizing i p k with
  | zero => exact ⟨k,by rw [Nat.zero_add,Nat.add_zero],hk,fun j => by rw [if_neg (by omega)]⟩
  | succ q ih =>
    obtain ⟨hp,hchar⟩ := h 0 (by omega)
    obtain ⟨h₀,h₁,hslash,hdot⟩ := nameChar_iff.1 hchar
    rw [Nat.add_zero,← hk.c] at h₀ h₁ hslash hdot
    have hput := k.put_ok (show 8 + i < 12 by omega) k.c
    set k₁ : NameCursor := { k with dosname := Function.update k.dosname ⟨8 + i,by omega⟩ k.c }
    obtain ⟨k₂,hnext,hreads,hsame⟩ := @NameCursor.Reads.next u p k₁ ⟨hk.c,hk.pointer⟩ hp
    obtain ⟨k',hloop,hk',hw⟩ := ih (i := i+1) hreads h.tail (by omega)
    refine ⟨k',?_,by rwa [show p + (q + 1) = p + 1 + q by omega],fun j => ?_⟩
    · have hend : isEnd k.c = false := by simp [isEnd,h₀,hslash]
      rw [Nat.add_right_comm,extLoop,if_pos rfl,hend,if_neg (by simp),if_neg h₁,if_neg hdot,hput]
      change (k₁.next u >>= fun k => extLoop u true (q + n) (i+1) k) = _
      rw [hnext,ok_bind,hloop,Nat.add_right_comm i 1,Nat.add_assoc]
    · rw [hw j,hsame,DosName.byte_update]
      by_cases hj : j = 8 + i
      · rw [if_neg (by omega),if_pos hj,if_pos (by omega),hj,hk.c]
        change _ = doschar (u.getD (p + (8 + i - (8 + i))) 0)
        rw [Nat.sub_self]
        rfl
      · rw [if_neg hj]
        by_cases hin : 8 + (i + 1) ≤ j ∧ j < 8 + (i + 1) + q
        · rw [if_pos hin,if_pos (by omega)]
          change doschar (u.getD (p + 1 + (j - (8 + (i + 1)))) 0) = _
          rw [show p + 1 + (j - (8 + (i + 1))) = p + (j - (8 + i)) by omega]
        · rw [if_neg hin,if_neg (by omega)]

theorem extLoop_pad {u : List UInt8} {follows : Bool} {n i : ℕ} {k : NameCursor}
    (h : follows = true → isEnd k.c = true) (hi : 8 + i + n ≤ 12) : ∃ k' : NameCursor,
      extLoop u follows n i k = .ok (some k') ∧ k'.c = k.c ∧ k'.pointer = k.pointer ∧
      NameCursor.Writes (8 + i) n (fun _ => chSpace) k k' := by
  induction n generalizing i k with
  | zero => exact ⟨k,rfl,rfl,rfl,fun j => by rw [if_neg (by omega)]⟩
  | succ n ih =>
    have hput := k.put_ok (show 8 + i < 12 by omega) chSpace
    set k₁ : NameCursor := { k with dosname := Function.update k.dosname ⟨8 + i,by omega⟩ chSpace }
    obtain ⟨k',hloop,hc,hpointer,hw⟩ := @ih (i+1) k₁ h (by omega)
    refine ⟨k',?_,hc,hpointer,fun j => ?_⟩
    · rw [extLoop]
      cases follows with
      | false => rw [if_neg (by simp),hput,ok_bind,hloop]
      | true => rw [if_pos rfl,if_pos (h rfl),hput,ok_bind,hloop]
    · rw [hw j,DosName.byte_update]
      by_cases hj : j = 8 + i
      · rw [if_neg (by omega),if_pos hj,if_pos (by omega)]
      · rw [if_neg hj]
        by_cases hin : 8 + (i + 1) ≤ j ∧ j < 8 + (i + 1) + n
        · rw [if_pos hin,if_pos (by omega)]
        · rw [if_neg hin,if_neg (by omega)]

namespace ShortName
variable (n : ShortName)

theorem fatname_base {j : ℕ} (hj : j < n.base.length) :
    n.fatname.getD j 0 = doschar n.base[j] := by
  rw [fatname,List.getD_append _ _ _ _ (by simpa using hj),List.getD_eq_getElem _ _ (by simpa using hj),
    List.getElem_map]

theorem fatname_ext (hext : n.ext ≠ []) {j : ℕ} (hj : j < n.ext.length) :
    n.fatname.getD (n.base.length + 1 + j) 0 = doschar n.ext[j] := by
  rw [fatname,List.getD_append_right _ _ _ _ (by simp; omega),if_neg hext,List.length_map,
    show n.base.length + 1 + j - n.base.length = j + 1 by omega,List.getD_cons_succ,
    List.getD_eq_getElem _ _ (by simpa using hj),List.getElem_map]

/-- What stands behind the base: a dot, or nothing when there is no extension. -/
theorem fatname_dot (h : n.ext = [] → n.base.length = 8) : n.fatname.getD n.base.length 0 = chDot := by
  rw [fatname,List.getD_append_right _ _ _ _ (by simp),List.length_map,Nat.sub_self]
  by_cases hext : n.ext = []
  · rw [if_pos hext,if_pos (h hext)]
    rfl
  · rw [if_neg hext]
    rfl

theorem fatname_length : n.fatname.length = n.base.length +
    if n.ext = [] then if n.base.length = 8 then 1 else 0 else n.ext.length + 1 := by
  rw [fatname,List.length_append,List.length_map]
  split
  · split <;> rfl
  · rw [List.length_cons,List.length_map]

variable {n}

theorem nameChar_doschar {c : UInt8} (hc : nameChar c = true) (he : c ≠ 0xE5) :
    nameChar (doschar c) = true := by
  rw [nameChar_iff,doschar_doschar hc he]
  exact nameChar_iff.1 hc

theorem plain_iff : n.plain = true ↔ (∀ c ∈ n.base, c ≠ 0xE5) ∧ ∀ c ∈ n.ext, c ≠ 0xE5 := by
  simp only [plain,Bool.not_eq_true',List.contains_eq_mem,decide_eq_false_iff_not,List.mem_append,not_or]
  exact and_congr ⟨fun h c hc he => h (he ▸ hc),fun h hc => h _ hc rfl⟩
    ⟨fun h c hc he => h (he ▸ hc),fun h hc => h _ hc rfl⟩

/-- Behind the base of a converted name with an extension. -/
theorem extensionFollows_fatname (hext : n.ext ≠ []) {k : NameCursor}
    (hk : k.Reads n.fatname n.base.length) : ∃ k₁ : NameCursor,
      extensionFollows n.fatname k = .ok (some (true,k₁)) ∧
      k₁.Reads n.fatname (n.base.length + 1) ∧ k₁.dosname = k.dosname := by
  have hdot : k.c = chDot := by
    rw [hk.c,n.fatname_dot fun h => absurd h hext]
    rfl
  have hlength := n.fatname_length
  rw [if_neg hext] at hlength
  obtain ⟨k₁,hnext,hk₁,hsame⟩ := hk.next (by omega)
  refine ⟨k₁,?_,hk₁,hsame⟩
  rw [extensionFollows,if_pos hdot,hnext]
  rfl

/-- The loop over the base of a converted name. -/
theorem baseLoop_fatname (hplain : ∀ c ∈ n.base, c ≠ 0xE5) (hclear : n.clear) {k : NameCursor}
    (hk : k.Reads n.fatname 0) : ∃ k' : NameCursor, baseLoop n.fatname 8 0 k = .ok (some k') ∧
      k'.Reads n.fatname n.base.length ∧
      ∀ j < 8, k'.dosname.byte j = (n.base.map doschar).getD j chSpace := by
  have hlength := n.fatname_length
  have hpos := n.base_pos
  obtain ⟨m,hm⟩ := Nat.exists_eq_add_of_le n.base_le
  have hchars : charsAt n.fatname 0 n.base.length := fun j hj => by
    have hc := n.base_chars _ (List.getElem_mem hj)
    have he := hplain _ (List.getElem_mem hj)
    rw [Nat.zero_add,n.fatname_base hj]
    exact ⟨by omega,nameChar_doschar hc he⟩
  obtain ⟨k₁,hloop,hk₁,hw₁⟩ := @baseLoop_chars n.fatname n.base.length m 0 0 k hk hchars (by omega)
  rw [Nat.zero_add] at hloop hk₁
  have hstop : isEnd k₁.c = true ∨ k₁.c = chDot ∧ 2 ≤ n.base.length := by
    by_cases h : n.ext = [] → n.base.length = 8
    · refine .inr ⟨?_,hclear.elim id fun hext => ?_⟩
      · rw [hk₁.c,n.fatname_dot h]
        rfl
      · have := h hext
        omega
    · obtain ⟨hext,hne⟩ := Classical.not_imp.1 h
      rw [if_pos hext,if_neg hne] at hlength
      left
      rw [hk₁.c,List.getD_eq_default _ _ (by omega)]
      rfl
  obtain ⟨k₂,hpad,hc,hpointer,hw₂⟩ := @baseLoop_pad n.fatname m n.base.length k₁ hstop (by omega)
  refine ⟨k₂,?_,⟨hc.trans hk₁.c,hpointer.trans hk₁.pointer⟩,fun j hj => ?_⟩
  · rw [hm,hloop,hpad]
  · rw [hw₂ j,hw₁ j]
    by_cases hin : j < n.base.length
    · rw [if_neg (by omega),if_pos (by omega)]
      change doschar (n.fatname.getD (0 + (j - 0)) 0) = _
      have he := hplain _ (List.getElem_mem hin)
      rw [Nat.zero_add,Nat.sub_zero,n.fatname_base hin,
        doschar_doschar (n.base_chars _ (List.getElem_mem hin)) he,
        List.getD_eq_getElem _ _ (by simpa using hin),List.getElem_map]
    · rw [if_pos (by omega),List.getD_eq_default _ _ (by simpa using Nat.not_lt.1 hin)]

/-- The rest of `make_dos_name` on a converted name. -/
theorem ext_fatname (hplain : ∀ c ∈ n.ext, c ≠ 0xE5) {k : NameCursor}
    (hk : k.Reads n.fatname n.base.length) : ∃ follows, ∃ k₁ k₂ : NameCursor,
      extensionFollows n.fatname k = .ok (some (follows,k₁)) ∧
      extLoop n.fatname follows 3 0 k₁ = .ok (some k₂) ∧ isEnd k₂.c = true ∧
      ∀ j < 11, k₂.dosname.byte j =
        if j < 8 then k.dosname.byte j else (n.ext.map doschar).getD (j - 8) chSpace := by
  have hlength := n.fatname_length
  have hpadded {k₁ k₂ : NameCursor} (hext : n.ext = []) (hsame : k₁.dosname = k.dosname)
      (hw : NameCursor.Writes 8 3 (fun _ => chSpace) k₁ k₂) (j : ℕ) (hj : j < 11) :
      k₂.dosname.byte j =
        if j < 8 then k.dosname.byte j else (n.ext.map doschar).getD (j - 8) chSpace := by
    rw [hw j,hsame,hext]
    by_cases h : j < 8
    · rw [if_neg (by omega),if_pos h]
    · rw [if_pos (by omega),if_neg h]
      rfl
  by_cases hext : n.ext = []
  · by_cases h₈ : n.base.length = 8
    · have hdot : k.c = chDot := by
        rw [hk.c,n.fatname_dot fun _ => h₈]
        rfl
      rw [if_pos hext,if_pos h₈] at hlength
      obtain ⟨k₁,hnext,hk₁,hsame⟩ := hk.next (by omega)
      have hfollows : extensionFollows n.fatname k = .ok (some (true,k₁)) := by
        rw [extensionFollows,if_pos hdot,hnext]
        rfl
      have hend : isEnd k₁.c = true := by
        rw [hk₁.c,List.getD_eq_default _ _ (by omega)]
        rfl
      obtain ⟨k₂,hpad,hc,-,hw⟩ := @extLoop_pad n.fatname true 3 0 k₁ (fun _ => hend) (by omega)
      exact ⟨true,k₁,k₂,hfollows,hpad,hc ▸ hend,hpadded hext hsame hw⟩
    · rw [if_pos hext,if_neg h₈] at hlength
      have hzero : k.c = 0 := by
        rw [hk.c,List.getD_eq_default _ _ (by omega)]
        rfl
      have hend : isEnd k.c = true := by
        rw [hzero]
        rfl
      have hfollows : extensionFollows n.fatname k = .ok (some (false,k)) := by
        rw [extensionFollows,hzero,if_neg (by decide),if_pos (by decide)]
      obtain ⟨k₂,hpad,hc,-,hw⟩ := @extLoop_pad n.fatname false 3 0 k (fun h => absurd h (by simp)) (by omega)
      exact ⟨false,k,k₂,hfollows,hpad,hc ▸ hend,hpadded hext rfl hw⟩
  · obtain ⟨k₁,hfollows,hk₁,hsame⟩ := extensionFollows_fatname hext hk
    rw [if_neg hext] at hlength
    obtain ⟨m,hm⟩ := Nat.exists_eq_add_of_le n.ext_le
    have hchars : charsAt n.fatname (n.base.length + 1) n.ext.length := fun j hj => by
      have hc := n.ext_chars _ (List.getElem_mem hj)
      have he := hplain _ (List.getElem_mem hj)
      rw [n.fatname_ext hext hj]
      exact ⟨by omega,nameChar_doschar hc he⟩
    have hle := n.ext_le
    obtain ⟨k₂,hloop,hk₂,hw₂⟩ := @extLoop_chars n.fatname n.ext.length m 0 _ k₁ hk₁ hchars (by omega)
    have hend : isEnd k₂.c = true := by
      rw [hk₂.c,List.getD_eq_default _ _ (by omega)]
      rfl
    rw [Nat.zero_add] at hloop
    obtain ⟨k₃,hpad,hc,-,hw₃⟩ := @extLoop_pad n.fatname true m n.ext.length k₂ (fun _ => hend) (by omega)
    refine ⟨true,k₁,k₃,hfollows,by rw [hm,hloop,hpad],hc ▸ hend,fun j hj => ?_⟩
    rw [hw₃ j,hw₂ j,hsame]
    by_cases h₈ : j < 8
    · rw [if_neg (by omega),if_neg (by omega),if_pos h₈]
    rw [if_neg h₈]
    by_cases hin : j - 8 < n.ext.length
    · rw [if_neg (by omega),if_pos (by omega)]
      change doschar (n.fatname.getD (n.base.length + 1 + (j - (8 + 0))) 0) = _
      have he := hplain _ (List.getElem_mem hin)
      rw [Nat.add_zero,n.fatname_ext hext hin,doschar_doschar (n.ext_chars _ (List.getElem_mem hin)) he,
        List.getD_eq_getElem _ _ (by simpa using hin),List.getElem_map]
    · rw [if_pos (by omega),List.getD_eq_default _ _ (by simpa using Nat.not_lt.1 hin)]

/-- The first character in hand. -/
theorem next_start (d : DosName) (u : List UInt8) :
    ∃ k : NameCursor, (⟨Function.update d 11 0,0,0⟩ : NameCursor).next u = .ok k ∧ k.Reads u 0 := by
  refine ⟨⟨Function.update d 11 0,doschar (u.getD 0 0),1⟩,?_,rfl,rfl⟩
  rw [NameCursor.next,charAt_le (Nat.zero_le _)]
  rfl

/-- A plain name becomes its eleven bytes, whatever the array held before. -/
theorem convertElement_plain (hplain : n.plain = true) (hclear : n.clear) (d : DosName) :
    ∃ d', convertElement d n.text = .ok (some d') ∧ ∀ j < 11, d'.byte j = n.byte j := by
  obtain ⟨hplain₁,hplain₂⟩ := plain_iff.1 hplain
  obtain ⟨k₀,hnext,hk₀⟩ := next_start d n.fatname
  obtain ⟨k₁,hbase,hk₁,hb⟩ := baseLoop_fatname hplain₁ hclear hk₀
  obtain ⟨follows,k₂,k₃,hfollows,hext,hend,he⟩ := ext_fatname hplain₂ hk₁
  refine ⟨k₃.dosname,?_,fun j hj => ?_⟩
  · have hmake : makeDosName d n.fatname 0 = .ok (some (k₃.dosname,k₃.pointer - 1)) := by
      rw [makeDosName,hnext,ok_bind,hbase,ok_bind]
      dsimp only
      rw [hfollows,ok_bind]
      dsimp only
      rw [hext,ok_bind]
      dsimp only
      rw [if_pos hend]
      rfl
    rw [convertElement,n.strToFatname_text,ok_bind]
    dsimp only
    rw [hmake]
    rfl
  · rw [he j hj,byte]
    by_cases h : j < 8
    · rw [if_pos h,if_pos h,hb j h]
    · rw [if_neg h,if_neg h]

/-- A list with an exceptional character has a first one. -/
theorem split_e5 {l : List UInt8} (h : (0xE5 : UInt8) ∈ l) :
    ∃ q, ∃ hq : q < l.length, l[q] = 0xE5 ∧ ∀ j, (hj : j < q) → l[j] ≠ 0xE5 := by
  induction l with
  | nil => simp at h
  | cons c l ih =>
    by_cases hc : c = 0xE5
    · exact ⟨0,by simp,hc,fun j hj => by omega⟩
    · obtain ⟨q,hq,he,hbefore⟩ := ih ((List.mem_cons.1 h).resolve_left (Ne.symm hc))
      refine ⟨q+1,by simpa using hq,he,fun j hj => ?_⟩
      cases j with
      | zero => exact hc
      | succ j => exact hbefore j (by omega)

/-- A name with the character 0xE5 is not accepted. -/
theorem convertElement_e5 (hplain : n.plain = false) (hclear : n.clear) (d : DosName) :
    convertElement d n.text = .ok none := by
  have hlength := n.fatname_length
  obtain ⟨k₀,hnext,hk₀⟩ := next_start d n.fatname
  have hmake : makeDosName d n.fatname 0 = .ok none := by
    rw [makeDosName,hnext,ok_bind]
    by_cases hbase : (0xE5 : UInt8) ∈ n.base
    · obtain ⟨q,hq,he,hbefore⟩ := split_e5 hbase
      obtain ⟨m,hm⟩ := Nat.exists_eq_add_of_le (show q + 1 ≤ 8 by have := n.base_le; omega)
      have hchars : charsAt n.fatname 0 q := fun j hj => by
        rw [Nat.zero_add,n.fatname_base (by omega)]
        exact ⟨by omega,nameChar_doschar (n.base_chars _ (List.getElem_mem _)) (hbefore j hj)⟩
      obtain ⟨k₁,hloop,hk₁,-⟩ := @baseLoop_chars n.fatname q (m+1) 0 0 k₀ hk₀ hchars (by omega)
      have hone : k₁.c = 1 := by
        rw [hk₁.c,Nat.zero_add,n.fatname_base hq,he]
        exact doschar_e5
      have hstop : baseLoop n.fatname (m+1) (0 + q) k₁ = .ok none := by
        rw [baseLoop,hone,if_neg (by decide),if_neg (by decide),if_pos rfl]
      rw [show 8 = q + (m + 1) by omega,hloop,hstop]
      rfl
    · have hext : (0xE5 : UInt8) ∈ n.ext := by
        by_contra hno
        rw [plain_iff.2 ⟨fun c hc he => hbase (he ▸ hc),fun c hc he => hno (he ▸ hc)⟩] at hplain
        exact absurd hplain (by decide)
      have hne : n.ext ≠ [] := List.ne_nil_of_mem hext
      rw [if_neg hne] at hlength
      obtain ⟨k₁,hloop,hk₁,-⟩ := baseLoop_fatname (fun c hc he => hbase (he ▸ hc)) hclear hk₀
      obtain ⟨k₂,hfollows,hk₂,-⟩ := extensionFollows_fatname hne hk₁
      obtain ⟨q,hq,he,hbefore⟩ := split_e5 hext
      obtain ⟨m,hm⟩ := Nat.exists_eq_add_of_le (show q + 1 ≤ 3 by have := n.ext_le; omega)
      have hchars : charsAt n.fatname (n.base.length + 1) q := fun j hj => by
        rw [n.fatname_ext hne (by omega)]
        exact ⟨by omega,nameChar_doschar (n.ext_chars _ (List.getElem_mem _)) (hbefore j hj)⟩
      obtain ⟨k₃,hext₃,hk₃,-⟩ := @extLoop_chars n.fatname q (m+1) 0 _ k₂ hk₂ hchars (by omega)
      have hone : k₃.c = 1 := by
        rw [hk₃.c,n.fatname_ext hne hq,he]
        exact doschar_e5
      have hstop : extLoop n.fatname true (m+1) (0 + q) k₃ = .ok none := by
        rw [extLoop,hone,if_pos rfl,if_neg (by decide),if_pos rfl]
      rw [hloop,ok_bind]
      dsimp only
      rw [hfollows,ok_bind]
      dsimp only
      rw [show 3 = q + (m + 1) by omega,hext₃,hstop]
      rfl
  rw [convertElement,n.strToFatname_text,ok_bind]
  dsimp only
  rw [hmake]
  rfl

end ShortName

end Gristle
