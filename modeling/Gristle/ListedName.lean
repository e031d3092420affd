import Gristle.Element
import Mathlib.Data.List.TakeWhile

/-! The name a listing gives, converted back: for which eleven bytes it finds the entry again. -/
namespace Gristle

namespace DosName

/-- `d_name` of a listing as a string. -/
def listedName (d : DosName) : List UInt8 := cString (fatnameToStr d.byte)

/-- The eleven bytes come out of both conversions for some element of a path. -/
def Produced (d : DosName) : Prop :=
  ∃ (e : List UInt8) (d₀ d' : DosName), e ≠ [] ∧ 0 ∉ e ∧ chSlash ∉ e ∧
    convertElement d₀ e = .ok (some d') ∧ ∀ j < 11, d'.byte j = d.byte j

/-- Whatever the array for the result holds, the listed name is converted to the same eleven bytes. -/
def Reopened (d : DosName) : Prop :=
  ∀ d₁ : DosName, ∃ d', convertElement d₁ d.listedName = .ok (some d') ∧ ∀ j < 11, d'.byte j = d.byte j

/-- A character of a name that is stored as it is and is not padding. -/
def settled (c : UInt8) : Prop := nameChar c = true ∧ doschar c = c ∧ c ≠ chSpace

/-- The eleven bytes of a string that is shorter. -/
def Holds (d : DosName) (l : List UInt8) : Prop := ∀ j < 11, d.byte j = l.getD j chSpace

/-- The name without padding is a valid one, a dot, or one character and a dot. -/
def Listable (d : DosName) : Prop :=
  (∃ n : ShortName, n.clear ∧ (∀ c ∈ n.base, settled c) ∧ (∀ c ∈ n.ext, settled c) ∧
    ∀ j < 11, d.byte j = n.byte j) ∨
  d.Holds [chDot] ∨ ∃ c, settled c ∧ d.Holds [c,chDot]

end DosName

section Listed
variable {d : DosName}
open Element DosName

/-! ### What a listing shows -/

theorem mem_fatnameToStr {f : ℕ → UInt8} {c : UInt8} (h : c ∈ fatnameToStr f) : c ≠ chSpace := by
  unfold fatnameToStr at h
  dsimp only at h
  have hbase : ∀ c' ∈ ((List.range 8).map f).filter (· != chSpace), c' ≠ chSpace := fun c' hc' => by
    simpa using (List.mem_filter.1 hc').2
  split at h
  · exact hbase c h
  · rcases List.mem_append.1 h with h | h
    · exact hbase c h
    · rcases List.mem_cons.1 h with rfl | h
      · decide
      · simpa using List.mem_takeWhile_imp h

theorem listedName_space (d : DosName) : chSpace ∉ d.listedName := fun h =>
  mem_fatnameToStr (List.takeWhile_subset _ h) rfl

theorem listedName_zero (d : DosName) : (0 : UInt8) ∉ d.listedName := fun h => by
  simpa using List.mem_takeWhile_imp h

theorem cString_eq {s : List UInt8} (h : (0 : UInt8) ∉ s) : cString s = s :=
  List.takeWhile_eq_self_iff.2 fun c hc => by simpa using fun h₀ : c = 0 => h (h₀ ▸ hc)

/-- The bytes that hold a piece of a name and then spaces. -/
theorem field_eq {f : ℕ → UInt8} {l : List UInt8} {o n : ℕ} (hl : l.length ≤ n)
    (h : ∀ j < n, f (o + j) = l.getD j chSpace) :
    (List.range n).map (fun j => f (o + j)) = l ++ List.replicate (n - l.length) chSpace := by
  refine List.ext_getElem (by simp; omega) fun j h₁ h₂ => ?_
  have hj : j < n := by simpa using h₁
  rw [List.getElem_map,List.getElem_range,h j hj]
  by_cases hin : j < l.length
  · rw [List.getElem_append_left hin,List.getD_eq_getElem _ _ hin]
  · rw [List.getElem_append_right (by omega),List.getElem_replicate,List.getD_eq_default _ _ (by omega)]

/-- A listing of a padded name drops the padding. -/
theorem fatnameToStr_eq {f : ℕ → UInt8} {b x : List UInt8} (hb : b.length ≤ 8) (hx : x.length ≤ 3)
    (hbs : chSpace ∉ b) (hxs : chSpace ∉ x) (h : ∀ j < 8, f j = b.getD j chSpace)
    (hext : ∀ j < 3, f (8 + j) = x.getD j chSpace) :
    fatnameToStr f = b ++ if x = [] then [] else chDot :: x := by
  have hbase : ((List.range 8).map f).filter (· != chSpace) = b := by
    have := field_eq (f := f) (o := 0) hb (by simpa using h)
    simp only [Nat.zero_add] at this
    rw [this,List.filter_append,List.filter_eq_self.2,List.filter_eq_nil_iff.2,List.append_nil]
    · intro c hc
      simp [List.eq_of_mem_replicate hc]
    · intro c hc
      simpa using fun hs : c = chSpace => hbs (hs ▸ hc)
  have htail : ([8,9,10].map f).takeWhile (· != chSpace) = x := by
    have := field_eq (f := f) (o := 8) hx hext
    change (List.range 3).map (fun j => f (8 + j)) = _ at this
    rw [show [8,9,10].map f = (List.range 3).map (fun j => f (8 + j)) from rfl,this,
      List.takeWhile_append_of_pos fun c hc => by simpa using fun hs : c = chSpace => hxs (hs ▸ hc)]
    cases 3 - x.length with
    | zero => simp
    | succ k => simp [List.replicate_succ]
  unfold fatnameToStr
  dsimp only
  rw [hbase,htail]
  have hfirst := hext 0 (by omega)
  by_cases hnil : x = []
  · rw [hnil] at hfirst
    rw [if_pos hnil,if_pos (by simpa using hfirst),List.append_nil]
  · obtain ⟨c,r,rfl⟩ := List.exists_cons_of_ne_nil hnil
    have hc : f 8 = c := by simpa using hfirst
    rw [if_neg hnil,if_neg (by rw [hc]; rintro rfl; simp at hxs)]

/-! ### Names that are found again -/

theorem settled_zero {l : List UInt8} (h : ∀ c ∈ l, settled c) : (0 : UInt8) ∉ l := fun h₀ =>
  absurd (h 0 h₀).1 (by decide)

theorem settled_space {l : List UInt8} (h : ∀ c ∈ l, settled c) : chSpace ∉ l := fun hs => (h _ hs).2.2 rfl

theorem settled_e5 {l : List UInt8} (h : ∀ c ∈ l, settled c) : (0xE5 : UInt8) ∉ l := fun he =>
  absurd (h _ he).2.1 (by decide)

theorem map_settled {l : List UInt8} (h : ∀ c ∈ l, settled c) : l.map doschar = l := by
  conv_rhs => rw [← List.map_id l]
  exact List.map_congr_left fun c hc => (h c hc).2.1

theorem listedName_of_holds {l : List UInt8} (hl : l.length ≤ 8) (hs : chSpace ∉ l) (h₀ : (0 : UInt8) ∉ l)
    (h : d.Holds l) : d.listedName = l := by
  have hname := fatnameToStr_eq (f := d.byte) (x := []) hl (by simp) hs (by simp)
    (fun j hj => h j (by omega)) fun j hj => by
      rw [h (8 + j) (by omega)]
      simpa using List.getD_eq_default _ _ (by omega)
  rw [if_pos rfl,List.append_nil] at hname
  rw [listedName,hname,cString_eq h₀]

theorem listedName_of_name {n : ShortName} (hb : ∀ c ∈ n.base, settled c) (hx : ∀ c ∈ n.ext, settled c)
    (h : ∀ j < 11, d.byte j = n.byte j) : d.listedName = n.text := by
  have hname := fatnameToStr_eq (f := d.byte) n.base_le n.ext_le (settled_space hb) (settled_space hx)
    (fun j hj => by rw [h j (by omega),ShortName.byte,if_pos hj,map_settled hb])
    fun j hj => by
      rw [h (8 + j) (by omega),ShortName.byte,if_neg (by omega),map_settled hx,Nat.add_sub_cancel_left]
  rw [listedName,hname]
  refine cString_eq fun h₀ => ?_
  rcases List.mem_append.1 h₀ with h₀ | h₀
  · exact settled_zero hb h₀
  · split at h₀
    · simp at h₀
    · rcases List.mem_cons.1 h₀ with h₀ | h₀
      · exact absurd h₀ (by decide)
      · exact settled_zero hx h₀

theorem padded_short {l : List UInt8} (hl : l.length ≤ 8) (j : ℕ) :
    (if j < 8 then padded l j else chSpace) = (l.map doschar).getD j chSpace := by
  split
  · rfl
  · rw [List.getD_eq_default _ _ (by rw [List.length_map]; omega)]

/-- A single dot is found unless characters follow it at the start of the element. -/
theorem find_split {l x : List UInt8} (hx : chDot ∉ x) (h : l ≠ [] ∨ x = [])
    (hlen : l.length < 2^32) : extension (l ++ chDot :: x) = x ∧ nameLen (l ++ chDot :: x) = l.length := by
  by_cases hnil : x = []
  · subst hnil
    have hlast : (l ++ [chDot]).getLast? = some chDot := by simp
    refine ⟨if_pos hlast,?_⟩
    rw [nameLen,if_pos hlast,List.length_append,List.length_singleton]
    omega
  · have hpos := List.length_pos_iff.2 (h.resolve_right hnil)
    have hxpos := List.length_pos_iff.2 hnil
    have hlen : (l ++ chDot :: x).length = l.length + x.length + 1 := by
      rw [List.length_append,List.length_cons,Nat.add_assoc]
    have hlast : (l ++ chDot :: x).getLast? ≠ some chDot := by
      rw [List.getLast?_append,List.getLast?_cons,List.getLast?_eq_some_getLast hnil]
      exact fun he => hx (Option.some.inj he ▸ List.getLast_mem hnil)
    have hfind : findDot (l ++ chDot :: x) ((l ++ chDot :: x).length - 2) = some l.length := by
      refine findDot_some hpos (by omega) ?_ fun j hj _ => ?_
      · rw [List.getElem?_append_right le_rfl,Nat.sub_self]
        rfl
      · obtain ⟨k,hk⟩ : ∃ k, j - l.length = k + 1 := ⟨j - l.length - 1,by omega⟩
        rw [List.getElem?_append_right hj.le,hk,List.getElem?_cons_succ]
        exact fun he => hx (List.mem_of_getElem? he)
    refine ⟨?_,?_⟩
    · rw [extension,if_neg hlast,hfind]
      simp
    · rw [nameLen,if_neg hlast,hfind]
      rfl

theorem stemFrom_of_not_mem {l : List UInt8} {n : ℕ} (hl : chDot ∉ l) (hn : l.length ≤ n) : stemFrom n l = l := by
  rw [stemFrom,List.takeWhile_eq_self_iff.2,List.take_of_length_le hn]
  exact fun c hc => by simpa using fun h : c = chDot => hl (h ▸ hc)

/-- The pieces of an element with a single dot. -/
theorem pieces_split {l x : List UInt8} (hl : chDot ∉ l) (hx : chDot ∉ x) (h : l ≠ [] ∨ x = [])
    (hl₈ : l.length ≤ 8) (hx₃ : x.length ≤ 3) : ¬ long (l ++ chDot :: x) ∧ stem (l ++ chDot :: x) = l ∧
      extension (l ++ chDot :: x) = x ∧ pieces (l ++ chDot :: x) = (l,some x) := by
  obtain ⟨hext,hlen⟩ := find_split hx h (by omega)
  have hshort : ¬ long (l ++ chDot :: x) := by
    rw [long,hext,hlen]
    omega
  have hstem : stem (l ++ chDot :: x) = l := by
    rw [stem,room,if_neg hshort]
    have hbefore : (l ++ chDot :: x).takeWhile (· != chDot) = l := by
      rw [List.takeWhile_append_of_pos fun c hc => by simpa using fun h : c = chDot => hl (h ▸ hc)]
      simp
    rw [stemFrom,hbefore,List.take_of_length_le hl₈]
  refine ⟨hshort,hstem,hext,?_⟩
  rw [pieces,hstem,if_neg hshort,if_neg fun h : dotless _ => h.2 (by simp),hext,List.append_nil,
    List.take_of_length_le hx₃]

/-- The pieces of an element without a dot. -/
theorem pieces_dotless {l : List UInt8} (hl : chDot ∉ l) (hl₈ : l.length ≤ 8) : ¬ long l ∧ stem l = l ∧
    extension l = [] ∧ pieces l = (l,if l.length < 8 then none else some []) := by
  have hlast : l.getLast? ≠ some chDot := fun he => hl (List.mem_of_getLast? he)
  have hfind : findDot l (l.length - 2) = none :=
    findDot_none fun j _ _ he => hl (List.mem_of_getElem? he)
  have hext : extension l = [] := by rw [extension,if_neg hlast,hfind]
  have hshort : ¬ long l := by
    rw [long,hext,nameLen,if_neg hlast,hfind]
    simpa using hl₈
  have hstem : stem l = l := by
    rw [stem,room,if_neg hshort]
    exact stemFrom_of_not_mem hl hl₈
  have hd : dotless l ↔ l.length < 8 := by
    unfold dotless
    rw [hstem,room,if_neg hshort]
    exact and_iff_left hl
  refine ⟨hshort,hstem,hext,?_⟩
  rw [pieces,hstem,if_neg hshort,hext,List.append_nil]
  simp [hd]

theorem reopened_of_dot {l : List UInt8} (hl : l = [] ∨ ∃ c, settled c ∧ l = [c]) (h : d.Holds (l ++ [chDot])) :
    d.Reopened := by
  have hset : ∀ c ∈ l, settled c := by
    rcases hl with rfl | ⟨c,hc,rfl⟩
    · simp
    · simpa using hc
  have hlen : l.length ≤ 1 := by
    rcases hl with rfl | ⟨c,-,rfl⟩ <;> simp
  have hslash : upTo l = l := List.takeWhile_eq_self_iff.2 fun c hc => by
    simpa using (nameChar_iff.1 (hset c hc).1).2.2.1
  have hzero : (0 : UInt8) ∉ l ++ [chDot] := by
    simpa using ⟨settled_zero hset,(by decide : (0 : UInt8) ≠ chDot)⟩
  intro d₁
  have hname := listedName_of_holds (by simp; omega)
    (by simpa using ⟨settled_space hset,(by decide : chSpace ≠ chDot)⟩) hzero h
  have hdot : chDot ∉ l := fun h => ne_dot_of_nameChar (hset _ h).1 rfl
  obtain ⟨-,hstem,hext,hpieces⟩ := pieces_split hdot (by simp) (.inr rfl) (by omega) (by simp)
  have hcut : cut (l,some ([] : List UInt8)) = (l,some []) := by
    rw [cut,if_pos hslash]
    rfl
  have hacc : accepted (l ++ [chDot]) := by
    refine ⟨?_,?_,?_⟩
    · rw [hstem]
      exact fun c hc => (nameChar_iff.1 (hset c hc).1).2.1
    · rw [hext]
      exact fun c hc => by simp at hc
    · rw [hpieces,seen,hcut]
      simpa using settled_e5 hset
  have hconv := convertElement_eq (by simp) hzero d₁
  rw [if_pos hacc] at hconv
  obtain ⟨d',hrun,hbytes⟩ := hconv
  refine ⟨d',by rw [hname]; exact hrun,fun j hj => ?_⟩
  have hmap : (l ++ [chDot]).map doschar = l ++ [chDot] := by
    rw [List.map_append,map_settled hset]
    rfl
  have hrow : byteOf (d₁.byte 1) (l,some []) j = if j < 8 then padded (l ++ [chDot]) j else chSpace := by
    rcases hl with rfl | ⟨c,-,rfl⟩ <;> rfl
  rw [hbytes j hj,h j hj,hpieces,hcut,hrow,padded_short (by simp; omega),hmap]

theorem reopened_of_listable (h : d.Listable) : d.Reopened := by
  rcases h with ⟨n,hclear,hb,hx,h⟩ | h | ⟨c,hc,h⟩
  · intro d₁
    have hplain : n.plain = true := ShortName.plain_iff.2
      ⟨fun c hc he => settled_e5 hb (he ▸ hc),fun c hc he => settled_e5 hx (he ▸ hc)⟩
    obtain ⟨d',hrun,hbytes⟩ := n.convertElement_plain hplain hclear d₁
    refine ⟨d',by rw [listedName_of_name hb hx h]; exact hrun,fun j hj => ?_⟩
    rw [hbytes j hj,h j hj]
  · exact reopened_of_dot (l := []) (.inl rfl) h
  · exact reopened_of_dot (.inr ⟨c,hc,rfl⟩) h

/-! ### Names that are not found again -/

/-- What the conversions make of an accepted character. -/
theorem settled_doschar {c : UInt8} (hi : inner c) (hs : doschar c ≠ chSlash) (he : c ≠ 0xE5)
    (hsp : c ≠ chSpace) : settled (doschar c) := by
  have hc := nameChar_of_inner hi hs
  refine ⟨ShortName.nameChar_doschar hc he,doschar_doschar hc he,?_⟩
  revert hsp
  exact forall_uint8 (p := fun c : UInt8 => c ≠ chSpace → doschar c ≠ chSpace) (by decide +kernel) c

/-- What a separator leaves of an accepted element without spaces. -/
theorem cut_settled {e : List UInt8} (h₀ : 0 ∉ e) (hs : chSpace ∉ e) (h : accepted e) :
    ((cut (pieces e)).1.length ≤ 8 ∧ ∀ c ∈ (cut (pieces e)).1.map doschar, settled c) ∧
      ∀ x, (cut (pieces e)).2 = some x → x.length ≤ 3 ∧ ∀ c ∈ x.map doschar, settled c := by
  obtain ⟨hstem,hext,hseen⟩ := h
  obtain ⟨hb,hb₈⟩ := pieces_base h₀ hstem
  have hspace : chSpace ∉ (pieces e).1 := fun hmem => by
    rcases List.mem_append.1 hmem with hmem | hmem
    · exact hs (stem_subset e hmem)
    · split at hmem <;> revert hmem <;> decide
  have hsettled {l l' : List UInt8} (hl : ∀ c ∈ l, inner c) (hsp : chSpace ∉ l) (hl' : l' ⊆ upTo l)
      (hin : l' ⊆ seen (pieces e)) : ∀ c ∈ l'.map doschar, settled c := by
    intro c' hc'
    obtain ⟨c,hc,rfl⟩ := List.mem_map.1 hc'
    have hup := hl' hc
    exact settled_doschar (hl c (upTo_subset l hup)) (mem_upTo hup) (fun he => hseen (he ▸ hin hc))
      fun h => hsp (h ▸ upTo_subset l hup)
  have hfst : (cut (pieces e)).1 = upTo (pieces e).1 := by
    unfold cut
    split
    · exact Eq.symm ‹_›
    · rfl
  refine ⟨⟨?_,?_⟩,fun x hx => ?_⟩
  · rw [hfst]
    exact ((List.takeWhile_prefix _).length_le).trans hb₈
  · refine hsettled hb hspace (by rw [hfst]; exact List.Subset.refl _) ?_
    exact List.subset_append_left _ _
  · have hsub : x ⊆ seen (pieces e) := by
      rw [seen,hx]
      exact List.subset_append_right _ _
    obtain ⟨l,hl,rfl⟩ : ∃ l, (pieces e).2 = some l ∧ upTo l = x := by
      unfold cut at hx
      split at hx
      · exact Option.map_eq_some_iff.1 hx
      · simp at hx
    obtain ⟨hli,hl₃⟩ := pieces_ext h₀ hext hl
    have hlsp : chSpace ∉ l := fun hmem => by
      have h : (if dotless e then none else some ((extension e).take 3)) = some l := hl
      split at h
      · simp at h
      · obtain rfl := Option.some.inj h
        exact hs (extension_subset e (List.mem_of_mem_take hmem))
    exact ⟨((List.takeWhile_prefix _).length_le).trans hl₃,hsettled hli hlsp (List.Subset.refl _) hsub⟩

/-- Bytes that belong to a valid name in their settled form. -/
theorem listable_of_fields {b x : List UInt8} (hpos : b ≠ []) (hb : b.length ≤ 8 ∧ ∀ c ∈ b.map doschar, settled c)
    (hx : x.length ≤ 3 ∧ ∀ c ∈ x.map doschar, settled c) (hclear : 2 ≤ b.length ∨ x = [])
    (h : ∀ j < 11, d.byte j = if j < 8 then padded b j else padded x (j - 8)) : d.Listable := by
  refine .inl ⟨⟨b.map doschar,x.map doschar,?_,?_,?_,fun c hc => (hb.2 c hc).1,fun c hc => (hx.2 c hc).1⟩,?_,
    hb.2,hx.2,fun j hj => ?_⟩
  · simpa using List.length_pos_iff.2 hpos
  · simpa using hb.1
  · simpa using hx.1
  · rcases hclear with hclear | rfl
    · exact .inl (by simpa using hclear)
    · exact .inr rfl
  · rw [h j hj,ShortName.byte]
    dsimp only
    rw [map_settled hb.2,map_settled hx.2]
    rfl

/-- Behind a leading dot no extension is found. -/
theorem extension_dot {l : List UInt8} (h : ∀ c ∈ l, settled c) : extension (chDot :: l) = [] := by
  have hdot (j : ℕ) (hj : 0 < j) : (chDot :: l)[j]? ≠ some chDot := fun he => by
    obtain ⟨j,rfl⟩ := Nat.exists_eq_succ_of_ne_zero hj.ne'
    exact ne_dot_of_nameChar (h _ (List.mem_of_getElem? he)).1 rfl
  unfold extension
  split
  · rfl
  · rw [findDot_none fun j hj _ => hdot j hj]

/-- A listed name that is found again is not empty and consists of its eleven bytes. -/
theorem listable_of_reopened (h : d.Reopened) : d.Listable := by
  have hspace := listedName_space d
  have hzero := listedName_zero d
  have hne : d.listedName ≠ [] := fun hnil => by
    obtain ⟨d',hrun,-⟩ := h d
    rw [hnil] at hrun
    simp [convertElement,strToFatname,bind,Except.bind] at hrun
  have hacc : accepted d.listedName := by
    by_contra hno
    obtain ⟨d',hrun,-⟩ := h d
    have hconv := convertElement_eq hne hzero d
    rw [if_neg hno,hrun] at hconv
    simp at hconv
  obtain ⟨hb,hx⟩ := cut_settled hzero hspace hacc
  have hbytes (d₁ : DosName) (j : ℕ) (hj : j < 11) :
      d.byte j = byteOf (d₁.byte 1) (cut (pieces d.listedName)) j := by
    obtain ⟨d',hrun,he⟩ := h d₁
    have hconv := convertElement_eq hne hzero d₁
    rw [if_pos hacc,hrun] at hconv
    obtain ⟨d'',hsame,he'⟩ := hconv
    obtain rfl : d' = d'' := by simpa using hsame
    rw [← he j hj,he' j hj]
  have hrow := hbytes d
  generalize hp : cut (pieces d.listedName) = p at hb hx hrow
  obtain ⟨b,_ | x⟩ := p
  · by_cases hnil : b = []
    · -- only spaces, for which nothing would be listed
      exfalso
      subst hnil
      refine hne ?_
      have := listedName_of_holds (d := d) (l := []) (by simp) (by simp) (by simp) fun j hj => by
        rw [hrow j hj]
        simp [byteOf,padded]
      exact this
    · exact listable_of_fields (x := []) hnil hb (by simp) (.inr rfl) hrow
  · obtain ⟨hx₃,hxs⟩ := hx x rfl
    obtain _ | ⟨c,_ | ⟨c',r⟩⟩ := b
    · by_cases hnil : x = []
      · subst hnil
        refine .inr (.inl fun j hj => ?_)
        rw [hrow j hj]
        exact padded_short (l := [chDot]) (by simp) j
      · -- the dot would be taken for the one behind the base
        exfalso
        have hset : ∀ c ∈ x.map doschar, settled c := hxs
        have hname := listedName_of_holds (d := d) (l := chDot :: x.map doschar) (by simp; omega)
          (List.not_mem_cons_of_ne_of_not_mem (by decide) (settled_space hset))
          (List.not_mem_cons_of_ne_of_not_mem (by decide) (settled_zero hset)) fun j hj => by
            rw [hrow j hj]
            exact padded_short (l := chDot :: x) (by simp; omega) j
        have hnone : (pieces d.listedName).2 = none ∨ (pieces d.listedName).2 = some [] := by
          rw [show (pieces d.listedName).2 = if dotless d.listedName then none
            else some ((extension d.listedName).take 3) from rfl,hname,extension_dot hset]
          split
          · exact .inl rfl
          · exact .inr rfl
        have hcut : (cut (pieces d.listedName)).2 = some x := by rw [hp]
        unfold cut at hcut
        split at hcut
        · rcases hnone with hno | hno
          · simp [hno] at hcut
          · rw [hno] at hcut
            exact hnil (Option.some.inj hcut).symm
        · simp at hcut
    · by_cases hnil : x = []
      · subst hnil
        refine .inr (.inr ⟨doschar c,hb.2 _ (by simp),fun j hj => ?_⟩)
        rw [hrow j hj]
        exact padded_short (l := [c,chDot]) (by simp) j
      · exfalso
        have hsecond (v : UInt8) : d.byte 1 = v := by
          have := hbytes (fun _ => v) 1 (by omega)
          rw [hp] at this
          change _ = (if x = [] then _ else if 1 = 1 then _ else _) at this
          rw [if_neg hnil,if_pos rfl] at this
          exact this
        exact absurd ((hsecond 0).symm.trans (hsecond 1)) (by decide)
    · exact listable_of_fields (by simp) hb ⟨hx₃,hxs⟩ (.inl (by simp)) hrow

end Listed

namespace DosName

/-- A name is found again by the string a listing gives exactly when that string is the name without its
padding and converting it writes every byte. -/
theorem reopened_iff (d : DosName) : d.Reopened ↔ d.Listable :=
  ⟨listable_of_reopened,reopened_of_listable⟩

/-- The bytes of `a b`, where the space belongs to the name. -/
def aSpaceB : DosName := fun j => [0x41,0x20,0x42,0x20,0x20,0x20,0x20,0x20,0x20,0x20,0x20,0].getD j 0

/-- `a b` is listed as `AB`. -/
theorem aSpaceB_not_reopened : aSpaceB.Produced ∧ ¬ aSpaceB.Reopened := by
  refine ⟨?_,fun h => ?_⟩
  · have hconv := Element.convertElement_eq (e := [0x61,0x20,0x62]) (by decide) (by decide) fun _ => 0
    rw [if_pos (by decide +kernel)] at hconv
    obtain ⟨d',hrun,hbytes⟩ := hconv
    refine ⟨[0x61,0x20,0x62],fun _ => 0,d',by decide,by decide,by decide,hrun,fun j hj => ?_⟩
    rw [hbytes j hj]
    revert j
    decide
  · obtain ⟨d',hrun,hbytes⟩ := h fun _ => 0
    have hsecond : (convertElement (fun _ => 0) aSpaceB.listedName).map (Option.map fun d => d 1) =
        .ok (some 0x42) := by decide
    rw [hrun] at hsecond
    have hb : d' 1 = 0x42 := by simpa [Except.map] using hsecond
    have hkept := hbytes 1 (by omega)
    change d' 1 = _ at hkept
    rw [hb] at hkept
    exact absurd hkept (by decide)

end DosName

end Gristle
