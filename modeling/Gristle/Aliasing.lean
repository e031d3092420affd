import Gristle.ListedName

/-! Names that share their eleven bytes: which elements of a path are told apart. -/
namespace Gristle

namespace Element

/-- A capital letter for a small one. -/
def upper (c : UInt8) : UInt8 := if 0x61 ≤ c ∧ c ≤ 0x7A then c - 0x20 else c

/-- The element without a trailing dot. -/
def bare (e : List UInt8) : List UInt8 := if e.getLast? = some chDot then e.dropLast else e

/-- The same name up to case and a trailing dot. -/
def Similar (e e' : List UInt8) : Prop := (bare e).map upper = (bare e').map upper

/-- An element without spaces that both conversions accept, and without cutting the base. -/
structure Converted (e : List UInt8) : Prop where
  nonempty : e ≠ []
  no_zero : 0 ∉ e
  no_slash : chSlash ∉ e
  no_space : chSpace ∉ e
  short : ¬ long e
  converts : ∃ d d', convertElement d e = .ok (some d')

/-- For some contents of the two arrays the same eleven bytes result. -/
def Same (e e' : List UInt8) : Prop :=
  ∃ d₁ d₁' d₂ d₂' : DosName, convertElement d₁ e = .ok (some d₁') ∧ convertElement d₂ e' = .ok (some d₂') ∧
    ∀ j < 11, d₁'.byte j = d₂'.byte j

/-- The same bytes only come from the same name. -/
def Apart (e e' : List UInt8) : Prop := Same e e' → Similar e e'

/-- An element of at most twelve characters, without a backslash, with at most one dot, and that not at its
start nor behind a single character, where only `.` and a trailing dot may stand. -/
def Faithful (e : List UInt8) : Prop :=
  e.length ≤ 12 ∧ chBackslash ∉ e ∧ e.count chDot ≤ 1 ∧ (e[0]? = some chDot → e.length = 1) ∧
    (e[1]? = some chDot → e.length = 2)

/-- An element that starts with a backslash, or with a dot that is not all of it. -/
def Stray (e : List UInt8) : Prop := e[0]? = some chBackslash ∨ e[0]? = some chDot ∧ e ≠ [chDot]

section Names
variable {e e' : List UInt8}
open DosName

theorem upper_dot (c : UInt8) : upper c = chDot ↔ c = chDot :=
  forall_uint8 (p := fun c : UInt8 => upper c = chDot ↔ c = chDot) (by decide +kernel) c

theorem upper_backslash (c : UInt8) : upper c = chBackslash ↔ c = chBackslash :=
  forall_uint8 (p := fun c : UInt8 => upper c = chBackslash ↔ c = chBackslash) (by decide +kernel) c

/-- A character that is no padding and is not refused by the second conversion. -/
def readable (c : UInt8) : Prop := c ≠ chSpace ∧ doschar c ≠ 1

/-- A character as `doschar` leaves it tells the character up to case. -/
def unfolded (v : UInt8) : UInt8 := if v = 5 then 0xE5 else v

theorem readable_spec {c : UInt8} (h : readable c) (hb : c ≠ chBackslash) :
    doschar c ≠ chSpace ∧ upper c = unfolded (doschar c) := by
  obtain ⟨hs,h₁⟩ := h
  revert hs h₁ hb
  exact forall_uint8 (p := fun c : UInt8 => c ≠ chBackslash → c ≠ chSpace → doschar c ≠ 1 →
    doschar c ≠ chSpace ∧ upper c = unfolded (doschar c)) (by decide +kernel) c

theorem bare_map (l : List UInt8) : (bare l).map upper = bare (l.map upper) := by
  have hlast : (l.map upper).getLast? = some chDot ↔ l.getLast? = some chDot := by
    rw [List.getLast?_map,Option.map_eq_some_iff]
    exact ⟨fun ⟨c,hc,hd⟩ => (upper_dot c).1 hd ▸ hc,fun h => ⟨chDot,h,by decide⟩⟩
  unfold bare
  by_cases h : l.getLast? = some chDot
  · rw [if_pos h,if_pos (hlast.2 h),List.map_dropLast]
  · rw [if_neg h,if_neg (mt hlast.1 h)]

theorem bare_of_not_mem {l : List UInt8} (h : chDot ∉ l) : bare l = l :=
  if_neg fun he => h (List.mem_of_getLast? he)

theorem bare_append_dot (l : List UInt8) : bare (l ++ [chDot]) = l := by
  rw [bare,if_pos (by simp)]
  simp

/-- Behind an extension there is no dot to leave out. -/
theorem bare_extension {l x : List UInt8} (hx : chDot ∉ x) (hnil : x ≠ []) : bare (l ++ chDot :: x) = l ++ chDot :: x := by
  refine if_neg fun he => ?_
  rw [List.getLast?_append,List.getLast?_cons,List.getLast?_eq_some_getLast hnil] at he
  exact hx (Option.some.inj he ▸ List.getLast_mem hnil)

/-- What the padded fields hold they tell. -/
theorem map_of_padded {r r' : List UInt8} {n : ℕ} (hr : r.length ≤ n) (hr' : r'.length ≤ n)
    (hs : chSpace ∉ r.map doschar) (hs' : chSpace ∉ r'.map doschar) (h : ∀ j < n, padded r j = padded r' j) :
    r.map doschar = r'.map doschar := by
  have hfilter {l : List UInt8} (hl : l.length ≤ n) (hsp : chSpace ∉ l.map doschar) :
      ((List.range n).map (padded l)).filter (· != chSpace) = l.map doschar := by
    have hfield := field_eq (f := padded l) (o := 0) (l := l.map doschar) (n := n) (by simpa using hl)
      fun j _ => by rw [Nat.zero_add]; rfl
    simp only [Nat.zero_add] at hfield
    rw [hfield,List.filter_append,List.filter_eq_self.2,List.filter_eq_nil_iff.2,List.append_nil]
    · intro c hc
      simp [List.eq_of_mem_replicate hc]
    · intro c hc
      simpa using fun hsp' : c = chSpace => hsp (hsp' ▸ hc)
  rw [← hfilter hr hs,← hfilter hr' hs']
  exact congrArg _ (List.map_congr_left fun j hj => h j (List.mem_range.1 hj))

theorem doschar_slash (c : UInt8) : doschar c = chSlash ↔ c = chSlash ∨ c = chBackslash :=
  forall_uint8 (p := fun c : UInt8 => doschar c = chSlash ↔ c = chSlash ∨ c = chBackslash) (by decide +kernel) c

theorem Converted.accepted (h : Converted e) : accepted e := by
  obtain ⟨d,d',hrun⟩ := h.converts
  by_contra hno
  have hconv := convertElement_eq h.nonempty h.no_zero d
  rw [if_neg hno,hrun] at hconv
  simp at hconv

theorem Converted.bytes (h : Converted e) {d d' : DosName} (hrun : convertElement d e = .ok (some d')) :
    ∀ j < 11, d'.byte j = byteOf (d.byte 1) (cut (pieces e)) j := by
  have hconv := convertElement_eq h.nonempty h.no_zero d
  rw [if_pos h.accepted] at hconv
  obtain ⟨d'',hsame,hbytes⟩ := hconv
  obtain rfl : d' = d'' := by simpa [hrun] using hsame
  exact hbytes

/-- A faithful element is a base, or a base, a dot and an extension. -/
theorem Faithful.split (hf : Faithful e) (h : Converted e) :
    ∃ l x, chDot ∉ l ∧ chDot ∉ x ∧ l.length ≤ 8 ∧ x.length ≤ 3 ∧
      (e = l ∧ x = [] ∧ 1 ≤ l.length ∨ e = l ++ chDot :: x ∧ (x = [] ∨ 2 ≤ l.length)) := by
  obtain ⟨hlen,-,hcount,hfirst,hsecond⟩ := hf
  by_cases hdot : chDot ∈ e
  · obtain ⟨l,x,rfl⟩ := List.append_of_mem hdot
    rw [List.count_append,List.count_cons_self] at hcount
    have hl : chDot ∉ l := List.count_eq_zero.1 (by omega)
    have hx : chDot ∉ x := List.count_eq_zero.1 (by omega)
    have hclear : x = [] ∨ 2 ≤ l.length := by
      by_contra hno
      push Not at hno
      obtain ⟨hnil,hone⟩ := hno
      have hpos := List.length_pos_iff.2 hnil
      rw [List.length_append,List.length_cons] at hfirst hsecond
      match l with
      | [] => exact absurd (hfirst rfl) (by simp; omega)
      | [c] => exact absurd (hsecond rfl) (by simp; omega)
      | _ :: _ :: _ => simp at hone
    rw [List.length_append,List.length_cons] at hlen
    obtain ⟨hext,hname⟩ := find_split hx (l := l) (hclear.symm.imp (fun h hnil => by simp [hnil] at h) id) (by omega)
    have hshort := h.short
    rw [long,hext,hname] at hshort
    exact ⟨l,x,hl,hx,by omega,by omega,.inr ⟨rfl,hclear⟩⟩
  · have hshort := h.short
    have hlast : e.getLast? ≠ some chDot := fun he => hdot (List.mem_of_getLast? he)
    have hfind : findDot e (e.length - 2) = none := findDot_none fun j _ _ he => hdot (List.mem_of_getElem? he)
    rw [long,nameLen,if_neg hlast,hfind,Option.getD_none] at hshort
    exact ⟨e,[],hdot,by simp,by omega,by simp,.inl ⟨rfl,rfl,List.length_pos_iff.2 h.nonempty⟩⟩

/-- The two fields of a faithful element hold it, but for a trailing dot. -/
theorem Faithful.fields (hf : Faithful e) (h : Converted e) : ∃ r x : List UInt8, r.length ≤ 8 ∧ x.length ≤ 3 ∧
    (∀ c ∈ r ++ x, readable c ∧ c ≠ chBackslash) ∧ bare e = bare r ++ (if x = [] then [] else chDot :: x) ∧
    ∀ left, ∀ j < 11, byteOf left (cut (pieces e)) j = if j < 8 then padded r j else padded x (j - 8) := by
  obtain ⟨hlegal,hext,-⟩ := h.accepted
  have hne {c : UInt8} (hc : c ∈ e) : c ≠ chSpace ∧ c ≠ chSlash ∧ c ≠ chBackslash :=
    ⟨fun hs => h.no_space (hs ▸ hc),fun hs => h.no_slash (hs ▸ hc),fun hs => hf.2.1 (hs ▸ hc)⟩
  have hup {l : List UInt8} (hl : l ⊆ e) : upTo l = l := List.takeWhile_eq_self_iff.2 fun c hc => by
    simpa [doschar_slash] using (hne (hl hc)).2
  obtain ⟨l,x,hl,hx,hl₈,hx₃,⟨rfl,rfl,hpos⟩ | ⟨rfl,hclear⟩⟩ := hf.split h
  · obtain ⟨-,hstem,-,hpieces⟩ := pieces_dotless hl hl₈
    rw [hstem] at hlegal
    refine ⟨e,[],hl₈,by simp,fun c hc => ?_,by simp,fun left j hj => ?_⟩
    · rw [List.append_nil] at hc
      exact ⟨⟨(hne hc).1,hlegal c hc⟩,(hne hc).2.2⟩
    · rw [hpieces,cut,if_pos (hup (List.Subset.refl _))]
      by_cases hfull : e.length < 8
      · rw [if_pos hfull]
        rfl
      · rw [if_neg hfull]
        obtain _ | ⟨c,_ | ⟨c',r⟩⟩ := e
        · simp at hfull
        · simp at hfull
        · rfl
  · obtain ⟨-,hstem,hexteq,hpieces⟩ := pieces_split hl hx (hclear.symm.imp (fun h hnil => by simp [hnil] at h) id)
      hl₈ hx₃
    rw [hstem] at hlegal
    rw [hexteq,List.take_of_length_le hx₃] at hext
    have hcut : cut (pieces (l ++ chDot :: x)) = (l,some x) := by
      rw [hpieces,cut,if_pos (hup (by simp))]
      simp only [Option.map_some,hup (show x ⊆ l ++ chDot :: x from fun c hc => by simp [hc])]
    have hread : ∀ c ∈ l ++ x, readable c ∧ c ≠ chBackslash := fun c hc => by
      have hmem : c ∈ l ++ chDot :: x := by
        rcases List.mem_append.1 hc with hc | hc <;> simp [hc]
      refine ⟨⟨(hne hmem).1,?_⟩,(hne hmem).2.2⟩
      rcases List.mem_append.1 hc with hc | hc
      · exact hlegal c hc
      · exact hext c hc
    by_cases hlong : 2 ≤ l.length
    · refine ⟨l,x,hl₈,hx₃,hread,?_,fun left j hj => ?_⟩
      · rw [bare_of_not_mem hl]
        by_cases hnil : x = []
        · rw [if_pos hnil,hnil,bare_append_dot,List.append_nil]
        · rw [if_neg hnil,bare_extension hx hnil]
      · rw [hcut]
        obtain _ | ⟨c,_ | ⟨c',r⟩⟩ := l
        · simp at hlong
        · simp at hlong
        · rfl
    · obtain rfl := hclear.resolve_right hlong
      refine ⟨l ++ [chDot],[],by simp; omega,by simp,fun c hc => ?_,by simp,fun left j hj => ?_⟩
      · rw [List.append_nil] at hc
        rcases List.mem_append.1 hc with hc | hc
        · exact hread c (List.mem_append_left _ hc)
        · obtain rfl : c = chDot := by simpa using hc
          exact ⟨⟨by decide,by decide⟩,by decide⟩
      · rw [hcut]
        obtain _ | ⟨c,_ | ⟨c',l⟩⟩ := l
        · rfl
        · rw [byteOf,if_pos rfl]
          rfl
        · simp at hlong

/-- Two faithful elements with the same bytes are the same name. -/
theorem Faithful.apart (hf : Faithful e) (hf' : Faithful e') (h : Converted e) (h' : Converted e') :
    Apart e e' := by
  rintro ⟨d₁,d₁',d₂,d₂',hrun,hrun',hsame⟩
  obtain ⟨r,x,hr,hx,hread,hbare,hbytes⟩ := hf.fields h
  obtain ⟨r',x',hr',hx',hread',hbare',hbytes'⟩ := hf'.fields h'
  have hrow (j : ℕ) (hj : j < 11) : (if j < 8 then padded r j else padded x (j - 8)) =
      if j < 8 then padded r' j else padded x' (j - 8) := by
    rw [← hbytes (d₁.byte 1) j hj,← hbytes' (d₂.byte 1) j hj,← h.bytes hrun j hj,← h'.bytes hrun' j hj,hsame j hj]
  have hspace {l m : List UInt8} (hl : ∀ c ∈ l ++ m, readable c ∧ c ≠ chBackslash) {p : List UInt8}
      (hp : p ⊆ l ++ m) : chSpace ∉ p.map doschar := fun hmem => by
    obtain ⟨c,hc,hs⟩ := List.mem_map.1 hmem
    obtain ⟨hread,hback⟩ := hl c (hp hc)
    exact (readable_spec hread hback).1 hs
  have hupper {l m : List UInt8} (hl : ∀ c ∈ l ++ m, readable c ∧ c ≠ chBackslash) {p : List UInt8}
      (hp : p ⊆ l ++ m) : p.map upper = (p.map doschar).map unfolded := by
    rw [List.map_map]
    refine List.map_congr_left fun c hc => ?_
    obtain ⟨hread,hback⟩ := hl c (hp hc)
    exact (readable_spec hread hback).2
  have hbase : r.map doschar = r'.map doschar :=
    map_of_padded hr hr' (hspace hread (List.subset_append_left _ _)) (hspace hread' (List.subset_append_left _ _))
      fun j hj => by simpa only [if_pos hj] using hrow j (by omega)
  have hext : x.map doschar = x'.map doschar :=
    map_of_padded hx hx' (hspace hread (List.subset_append_right _ _)) (hspace hread' (List.subset_append_right _ _))
      fun j hj => by
        have := hrow (8 + j) (by omega)
        rwa [if_neg (by omega),if_neg (by omega),Nat.add_sub_cancel_left] at this
  have hnil : x = [] ↔ x' = [] := by
    rw [← List.map_eq_nil_iff (f := doschar),hext,List.map_eq_nil_iff]
  have hr_up : r.map upper = r'.map upper := by
    rw [hupper hread (List.subset_append_left _ _),hbase,← hupper hread' (List.subset_append_left _ _)]
  have hx_up : x.map upper = x'.map upper := by
    rw [hupper hread (List.subset_append_right _ _),hext,← hupper hread' (List.subset_append_right _ _)]
  rw [Similar,hbare,hbare',List.map_append,List.map_append,bare_map,bare_map,hr_up]
  by_cases h₀ : x = []
  · rw [if_pos h₀,if_pos (hnil.1 h₀)]
  · rw [if_neg h₀,if_neg (mt hnil.2 h₀),List.map_cons,List.map_cons,hx_up]

/-! ### The other elements -/

theorem map_upper_mem {l : List UInt8} : (chDot ∈ l.map upper ↔ chDot ∈ l) ∧
    (chBackslash ∈ l.map upper ↔ chBackslash ∈ l) := by
  constructor
  · exact ⟨fun h => by obtain ⟨c,hc,he⟩ := List.mem_map.1 h; exact (upper_dot c).1 he ▸ hc,
      fun h => List.mem_map.2 ⟨_,h,by decide⟩⟩
  · exact ⟨fun h => by obtain ⟨c,hc,he⟩ := List.mem_map.1 h; exact (upper_backslash c).1 he ▸ hc,
      fun h => List.mem_map.2 ⟨_,h,by decide⟩⟩

theorem count_upper (l : List UInt8) : (l.map upper).count chDot = l.count chDot := by
  rw [List.count_eq_countP,List.countP_map,List.count_eq_countP]
  refine List.countP_congr fun c _ => ?_
  simpa using upper_dot c

theorem getElem?_upper (l : List UInt8) (j : ℕ) : (l.map upper)[j]? = some chDot ↔ l[j]? = some chDot := by
  rw [List.getElem?_map,Option.map_eq_some_iff]
  exact ⟨fun ⟨c,hc,hd⟩ => (upper_dot c).1 hd ▸ hc,fun h => ⟨chDot,h,by decide⟩⟩

/-- Case does not matter. -/
theorem faithful_upper (l : List UInt8) : Faithful (l.map upper) ↔ Faithful l := by
  unfold Faithful
  rw [List.length_map,map_upper_mem.2,count_upper,getElem?_upper,getElem?_upper]

theorem Faithful.congr (hf : Faithful e) (h : e'.map upper = e.map upper) : Faithful e' :=
  (faithful_upper e').1 (h ▸ (faithful_upper e).2 hf)

theorem similar_cases (h : Similar e e') : e.map upper = (bare e').map upper ∨
    e.getLast? = some chDot ∧ e.map upper = (bare e' ++ [chDot]).map upper := by
  by_cases hlast : e.getLast? = some chDot
  · refine .inr ⟨hlast,?_⟩
    have hsplit : e = bare e ++ [chDot] := by
      rw [bare,if_pos hlast]
      exact (List.dropLast_append_getLast? _ hlast).symm
    conv_lhs => rw [hsplit]
    rw [List.map_append,List.map_append,h]
  · left
    rw [← h,bare,if_neg hlast]

/-- The characters of a name in the form in which it is stored. -/
theorem settled_ne {c : UInt8} (h : settled c) : c ≠ 0 ∧ c ≠ chSlash ∧ c ≠ chSpace ∧ c ≠ chBackslash ∧ c ≠ chDot := by
  obtain ⟨hc,-,hs⟩ := h
  refine ⟨?_,?_,hs,?_,ne_dot_of_nameChar hc⟩ <;> rintro rfl <;> exact absurd hc (by decide)

theorem faithful_of_fields {l x : List UInt8} (hl : ∀ c ∈ l, settled c) (hx : ∀ c ∈ x, settled c)
    (hl₈ : l.length ≤ 8) (hx₃ : x.length ≤ 3) (hclear : x = [] ∨ 2 ≤ l.length) : Faithful (l ++ chDot :: x) := by
  have hdot {m : List UInt8} (hm : ∀ c ∈ m, settled c) : chDot ∉ m := fun h => (settled_ne (hm _ h)).2.2.2.2 rfl
  have hback {m : List UInt8} (hm : ∀ c ∈ m, settled c) : chBackslash ∉ m := fun h =>
    (settled_ne (hm _ h)).2.2.2.1 rfl
  refine ⟨by simp; omega,?_,?_,fun h => ?_,fun h => ?_⟩
  · rw [List.mem_append,List.mem_cons]
    exact not_or.2 ⟨hback hl,not_or.2 ⟨by decide,hback hx⟩⟩
  · rw [List.count_append,List.count_cons_self,List.count_eq_zero.2 (hdot hl),List.count_eq_zero.2 (hdot hx)]
  · obtain _ | ⟨c,l⟩ := l
    · obtain rfl := hclear.resolve_right (by simp)
      rfl
    · exact absurd (Option.some.inj h) (settled_ne (hl c (by simp))).2.2.2.2
  · obtain _ | ⟨c,_ | ⟨c',l⟩⟩ := l
    · obtain rfl := hclear.resolve_right (by simp)
      simp at h
    · obtain rfl := hclear.resolve_right (by simp)
      rfl
    · exact absurd (Option.some.inj h) (settled_ne (hl c' (by simp))).2.2.2.2

theorem faithful_of_base {l : List UInt8} (hl : ∀ c ∈ l, settled c) (hl₈ : l.length ≤ 8) : Faithful l := by
  have hdot (j : ℕ) : l[j]? ≠ some chDot := fun h => (settled_ne (hl _ (List.mem_of_getElem? h))).2.2.2.2 rfl
  refine ⟨by omega,fun h => (settled_ne (hl _ h)).2.2.2.1 rfl,?_,fun h => absurd h (hdot 0),fun h => absurd h (hdot 1)⟩
  rw [List.count_eq_zero.2 fun h => (settled_ne (hl _ h)).2.2.2.2 rfl]
  exact Nat.zero_le 1

/-- A string of settled characters and dots that the conversions accept. -/
theorem converted_of_pieces {l : List UInt8} (hne : l ≠ []) (hl : ∀ c ∈ l, settled c ∨ c = chDot)
    (hshort : ¬ long l) (hseen : ∀ c ∈ seen (pieces l), settled c) : Converted l := by
  have hlegal {m : List UInt8} (hm : m ⊆ l) : legal m := fun c hc => by
    rcases hl c (hm hc) with h | rfl
    · exact (nameChar_iff.1 h.1).2.1
    · decide
  have hno {v : UInt8} (hv : v ≠ chDot) (hs : ∀ c, settled c → c ≠ v) : v ∉ l := fun h =>
    (hl v h).elim (fun h => hs v h rfl) hv
  have hzero : (0 : UInt8) ∉ l := hno (by decide) fun c h => (settled_ne h).1
  have hacc : accepted l := ⟨hlegal (stem_subset l),
    hlegal fun c hc => extension_subset l (List.mem_of_mem_take hc),settled_e5 hseen⟩
  have hconv := convertElement_eq hne hzero fun _ => 0
  rw [if_pos hacc] at hconv
  obtain ⟨d',hrun,-⟩ := hconv
  exact ⟨hne,hzero,hno (by decide) fun c h => (settled_ne h).2.1,hno (by decide) fun c h => (settled_ne h).2.2.1,
    hshort,_,d',hrun⟩

theorem same_of_bytes (h : Converted e) (h' : Converted e') (v : UInt8)
    (hb : ∀ left, ∀ j < 11, byteOf v (cut (pieces e)) j = byteOf left (cut (pieces e')) j) : Same e e' := by
  have hrun {l : List UInt8} (hl : Converted l) (d : DosName) : ∃ d', convertElement d l = .ok (some d') := by
    have hconv := convertElement_eq hl.nonempty hl.no_zero d
    rw [if_pos hl.accepted] at hconv
    exact ⟨_,hconv.choose_spec.1⟩
  obtain ⟨d₁',h₁⟩ := hrun h fun _ => v
  obtain ⟨d₂',h₂⟩ := hrun h' fun _ => 0
  refine ⟨_,d₁',_,d₂',h₁,h₂,fun j hj => ?_⟩
  rw [h.bytes h₁ j hj,h'.bytes h₂ j hj]
  exact hb _ j hj

theorem upTo_settled {l : List UInt8} (h : ∀ c ∈ l, settled c) : upTo l = l :=
  List.takeWhile_eq_self_iff.2 fun c hc => by
    simpa using (nameChar_iff.1 (h c hc).1).2.2.1

theorem dot_not_mem_settled {l : List UInt8} (h : ∀ c ∈ l, settled c) : chDot ∉ l := fun hm =>
  (settled_ne (h _ hm)).2.2.2.2 rfl

/-- A dot and settled characters behind something that starts with a dot. -/
theorem converted_of_dots {m x : List UInt8} (hm : m.length ≤ 1) (hmc : ∀ c ∈ m, settled c) (hx : ∀ c ∈ x, settled c)
    (hx₃ : x.length ≤ 3) : Converted (chDot :: m ++ chDot :: x) ∧
      cut (pieces (chDot :: m ++ chDot :: x)) = ([],some x) := by
  obtain ⟨hext,hlen⟩ := find_split (l := chDot :: m) (dot_not_mem_settled hx) (.inl (by simp)) (by simp; omega)
  have hshort : ¬ long (chDot :: m ++ chDot :: x) := by
    rw [long,hext,hlen,List.length_cons]
    omega
  have hstem : stem (chDot :: m ++ chDot :: x) = [] := by
    rw [stem,stemFrom]
    simp
  have hpieces : pieces (chDot :: m ++ chDot :: x) = ([],some x) := by
    rw [pieces,hstem,if_neg hshort,if_neg fun h : dotless _ => h.2 (by simp),hext,List.take_of_length_le hx₃]
    rfl
  have hcut : cut (pieces (chDot :: m ++ chDot :: x)) = ([],some x) := by
    rw [hpieces,cut,if_pos (show upTo [] = [] from rfl)]
    simp only [Option.map_some,upTo_settled hx]
  refine ⟨converted_of_pieces (by simp) (fun c hc => ?_) hshort ?_,hcut⟩
  · rcases List.mem_append.1 hc with hc | hc
    · rcases List.mem_cons.1 hc with rfl | hc
      · exact .inr rfl
      · exact .inl (hmc c hc)
    · rcases List.mem_cons.1 hc with rfl | hc
      · exact .inr rfl
      · exact .inl (hx c hc)
  · rw [seen,hcut]
    exact hx

/-- A base, or a base, a dot and an extension, of settled characters. -/
theorem converted_of_fields {l x : List UInt8} (hl : ∀ c ∈ l, settled c) (hx : ∀ c ∈ x, settled c)
    (hl₈ : l.length ≤ 8) (hx₃ : x.length ≤ 3) (h : l ≠ [] ∨ x = []) : Converted (l ++ chDot :: x) ∧
      cut (pieces (l ++ chDot :: x)) = (l,some x) := by
  obtain ⟨hshort,-,-,hpieces⟩ := pieces_split (dot_not_mem_settled hl) (dot_not_mem_settled hx) h hl₈ hx₃
  have hcut : cut (pieces (l ++ chDot :: x)) = (l,some x) := by
    rw [hpieces,cut,if_pos (upTo_settled hl)]
    simp only [Option.map_some,upTo_settled hx]
  refine ⟨converted_of_pieces (by simp) (fun c hc => ?_) hshort fun c hc => ?_,hcut⟩
  · rcases List.mem_append.1 hc with hc | hc
    · exact .inl (hl c hc)
    · rcases List.mem_cons.1 hc with rfl | hc
      · exact .inr rfl
      · exact .inl (hx c hc)
  · rw [seen,hcut] at hc
    rcases List.mem_append.1 hc with hc | hc
    · exact hl c hc
    · exact hx c hc

theorem converted_of_base {l : List UInt8} (hl : ∀ c ∈ l, settled c) (hl₈ : l.length ≤ 8) (hne : l ≠ []) :
    Converted l ∧ cut (pieces l) = (l,if l.length < 8 then none else some []) := by
  obtain ⟨hshort,-,-,hpieces⟩ := pieces_dotless (dot_not_mem_settled hl) hl₈
  have hcut : cut (pieces l) = (l,if l.length < 8 then none else some []) := by
    rw [hpieces,cut,if_pos (upTo_settled hl)]
    split <;> rfl
  refine ⟨converted_of_pieces hne (fun c hc => .inl (hl c hc)) hshort fun c hc => ?_,hcut⟩
  rw [seen,hcut] at hc
  rcases List.mem_append.1 hc with hc | hc
  · exact hl c hc
  · split at hc <;> simp at hc

/-- Behind a trailing dot there is no extension. -/
theorem extension_of_last (h : e.getLast? = some chDot) {x : List UInt8} (hx : (cut (pieces e)).2 = some x) :
    x = [] := by
  have hext : extension e = [] := if_pos h
  unfold cut at hx
  split at hx
  · obtain ⟨l,hl,rfl⟩ := Option.map_eq_some_iff.1 hx
    have hl : (if dotless e then none else some ((extension e).take 3)) = some l := hl
    rw [hext] at hl
    split at hl
    · simp at hl
    · obtain rfl : [] = l := by simpa using hl
      rfl
  · simp at hx

theorem not_similar_of_fields (hf : ¬ Faithful e) {l x : List UInt8} (hl : ∀ c ∈ l, settled c)
    (hx : ∀ c ∈ x, settled c) (hl₈ : l.length ≤ 8) (hx₃ : x.length ≤ 3) (hclear : x = [] ∨ 2 ≤ l.length)
    (hlast : e.getLast? = some chDot → x = []) : ¬ Similar e (l ++ chDot :: x) := by
  intro hsim
  have hdotted := faithful_of_fields hl hx hl₈ hx₃ hclear
  by_cases hnil : x = []
  · subst hnil
    rcases similar_cases hsim with h | ⟨-,h⟩ <;> rw [bare_append_dot] at h
    · exact hf ((faithful_of_base hl hl₈).congr h)
    · exact hf (hdotted.congr h)
  · rcases similar_cases hsim with h | ⟨h,-⟩
    · rw [bare_extension (dot_not_mem_settled hx) hnil] at h
      exact hf (hdotted.congr h)
    · exact hnil (hlast h)

theorem not_similar_of_base (hf : ¬ Faithful e) {l : List UInt8} (hl : ∀ c ∈ l, settled c) (hl₈ : l.length ≤ 8) :
    ¬ Similar e l := by
  intro hsim
  rcases similar_cases hsim with h | ⟨-,h⟩ <;> rw [bare_of_not_mem (dot_not_mem_settled hl)] at h
  · exact hf ((faithful_of_base hl hl₈).congr h)
  · exact hf ((faithful_of_fields hl (by simp) hl₈ (by simp) (.inl rfl)).congr h)

theorem padded_map {l : List UInt8} (h : ∀ c ∈ l.map doschar, settled c) (j : ℕ) :
    padded (l.map doschar) j = padded l j := by
  rw [padded,map_settled h,padded]

/-- The bytes of an extension behind at least two characters, or behind none. -/
theorem byteOf_fields {v left : UInt8} {l x : List UInt8} (hl : ∀ c ∈ l.map doschar, settled c)
    (hx : ∀ c ∈ x.map doschar, settled c) (hclear : x = [] ∨ 2 ≤ l.length) (j : ℕ) :
    byteOf v (l,some x) j = byteOf left (l.map doschar,some (x.map doschar)) j := by
  have hlj := padded_map hl j
  have hxj := padded_map hx (j - 8)
  obtain _ | ⟨c,_ | ⟨c',l⟩⟩ := l
  · obtain rfl := hclear.resolve_right (by simp)
    rfl
  · obtain rfl := hclear.resolve_right (by simp)
    have hc : doschar (doschar c) = doschar c := (hl _ (by simp)).2.1
    rw [byteOf,if_pos rfl,List.map_nil,List.map_cons,List.map_nil,byteOf,if_pos rfl]
    simp [padded,hc]
  · change (if j < 8 then padded (c :: c' :: l) j else padded x (j - 8)) =
      if j < 8 then padded ((c :: c' :: l).map doschar) j else padded (x.map doschar) (j - 8)
    rw [hlj,hxj]

theorem stem_of_short (h : Converted e) : (pieces e).1 = stem e := by
  change stem e ++ (if long e then [chTilde,0x31] else []) = stem e
  rw [if_neg h.short,List.append_nil]

theorem head_of_stem_nil (h : Converted e) (hs : stem e = []) : e[0]? = some chDot := by
  have hroom : room e = 8 := if_neg h.short
  obtain ⟨c,r,rfl⟩ := List.exists_cons_of_ne_nil h.nonempty
  by_contra hc
  rw [stem,hroom,stemFrom_cons (by simpa using hc)] at hs
  simp at hs

/-- An element whose base a separator cuts away starts with it. -/
theorem stray_of_upTo (h : Converted e) (hf : ¬ Faithful e) (hup : upTo (stem e) = []) : Stray e := by
  by_cases hs : stem e = []
  · refine .inr ⟨head_of_stem_nil h hs,?_⟩
    rintro rfl
    exact hf (faithful_of_fields (l := []) (x := []) (by simp) (by simp) (by simp) (by simp) (.inl rfl))
  · obtain ⟨c,r,rfl⟩ := List.exists_cons_of_ne_nil h.nonempty
    have hroom : room (c :: r) = 8 := if_neg h.short
    have hc : c ≠ chDot := by
      rintro rfl
      rw [stem,stemFrom] at hs
      simp at hs
    rw [stem,hroom,stemFrom_cons hc,upTo,List.takeWhile_cons] at hup
    have hsep : doschar c = chSlash := by
      by_contra hno
      rw [if_pos (by simpa using hno)] at hup
      simp at hup
    rcases (doschar_slash c).1 hsep with rfl | rfl
    · exact absurd (List.mem_cons_self) h.no_slash
    · exact .inl rfl

theorem converted_of_accepted {l : List UInt8} (hne : l ≠ []) (h₀ : 0 ∉ l) (hslash : chSlash ∉ l)
    (hspace : chSpace ∉ l) (hshort : ¬ long l) (hacc : accepted l) : Converted l := by
  have hconv := convertElement_eq hne h₀ fun _ => 0
  rw [if_pos hacc] at hconv
  exact ⟨hne,h₀,hslash,hspace,hshort,_,hconv.choose,hconv.choose_spec.1⟩

/-- Of two names that are not similar one is not similar to the element. -/
theorem exists_not_similar {a a' : List UInt8} (h : ¬ Similar a a') : ¬ Similar e a ∨ ¬ Similar e a' := by
  by_contra hno
  push Not at hno
  exact h (hno.1.symm.trans hno.2)

/-- Every other element shares its bytes with a different name, and that is a faithful one unless the
element is stray. -/
theorem exists_alias (h : Converted e) (hf : ¬ Faithful e) :
    ∃ e', Converted e' ∧ (Faithful e' ∨ Stray e) ∧ Same e e' ∧ ¬ Similar e e' := by
  obtain ⟨⟨hb₈,hb⟩,hx⟩ := cut_settled h.no_zero h.no_space h.accepted
  have hlast := fun x hl hx => extension_of_last (e := e) (x := x) hl hx
  generalize hp : cut (pieces e) = p at hb₈ hb hx hlast
  obtain ⟨b,_ | x⟩ := p
  · by_cases hnil : b = []
    · -- a backslash at the start: nothing is left of the element
      subst hnil
      have hstray : Stray e := by
        have hup : upTo (stem e) = [] := by
          have := congrArg Prod.fst hp
          unfold cut at this
          rw [stem_of_short h] at this
          split at this
          · rw [‹upTo (stem e) = stem e›]
            exact this
          · exact this
        exact stray_of_upTo h hf hup
      have hone : Converted [chBackslash] :=
        converted_of_accepted (by decide) (by decide) (by decide) (by decide) (by decide) (by decide +kernel)
      have htwo : Converted [chBackslash,0x41] :=
        converted_of_accepted (by decide) (by decide) (by decide) (by decide) (by decide) (by decide +kernel)
      have hsame {a : List UInt8} (ha : Converted a) (hcut : cut (pieces a) = ([],none)) : Same e a :=
        same_of_bytes h ha 0 fun left j _ => by rw [hp,hcut]; rfl
      rcases exists_not_similar (e := e) (show ¬ Similar [chBackslash] [chBackslash,0x41] by unfold Similar; decide) with hno | hno
      · exact ⟨_,hone,.inr hstray,hsame hone (by decide),hno⟩
      · exact ⟨_,htwo,.inr hstray,hsame htwo (by decide),hno⟩
    · obtain ⟨hconv,hcut⟩ := converted_of_base hb (by simpa using hb₈) (by simpa using hnil)
      refine ⟨_,hconv,.inl (faithful_of_base hb (by simpa using hb₈)),same_of_bytes h hconv 0 fun left j hj => ?_,
        not_similar_of_base hf hb (by simpa using hb₈)⟩
      rw [hp,hcut]
      have hbj := padded_map hb j
      split
      · change (if j < 8 then padded b j else chSpace) = if j < 8 then padded (b.map doschar) j else chSpace
        rw [hbj]
      · rename_i hfull
        obtain _ | ⟨c,_ | ⟨c',b⟩⟩ := b
        · simp at hfull
        · simp at hfull
        · change (if j < 8 then padded (c :: c' :: b) j else chSpace) =
            if j < 8 then padded ((c :: c' :: b).map doschar) j else chSpace
          rw [hbj]
  · obtain ⟨hx₃,hxs⟩ := hx x rfl
    have hX₃ : (x.map doschar).length ≤ 3 := by simpa using hx₃
    have hB₈ : (b.map doschar).length ≤ 8 := by simpa using hb₈
    by_cases hclear : x = [] ∨ 2 ≤ b.length
    · have hclear' : x.map doschar = [] ∨ 2 ≤ (b.map doschar).length := by simpa using hclear
      obtain ⟨hconv,hcut⟩ := converted_of_fields hb hxs hB₈ hX₃
        (hclear'.symm.imp (fun h hnil => by simp [hnil] at h) id)
      refine ⟨_,hconv,.inl (faithful_of_fields hb hxs hB₈ hX₃ hclear'),
        same_of_bytes h hconv 0 fun left j hj => ?_,
        not_similar_of_fields hf hb hxs hB₈ hX₃ hclear' fun hl => by rw [hlast x hl rfl]; rfl⟩
      rw [hp,hcut]
      exact byteOf_fields hb hxs hclear j
    · push Not at hclear
      obtain ⟨hnil,hone⟩ := hclear
      obtain _ | ⟨c,_ | ⟨c',b⟩⟩ := b
      · have hstem : stem e = [] := by
          unfold cut at hp
          rw [stem_of_short h] at hp
          split at hp
          · exact congrArg Prod.fst hp
          · simp at hp
        have hstray : Stray e := stray_of_upTo h hf (by rw [hstem]; rfl)
        obtain ⟨hone,hone'⟩ := converted_of_dots (m := []) (by simp) (by simp) hxs hX₃
        obtain ⟨htwo,htwo'⟩ := converted_of_dots (m := [0x41]) (by simp) (by simpa using ⟨by decide,by decide,by decide⟩)
          hxs hX₃
        have hsame {a : List UInt8} (ha : Converted a) (hcut : cut (pieces a) = ([],some (x.map doschar))) :
            Same e a := same_of_bytes h ha 0 fun left j _ => by
          rw [hp,hcut]
          change (if j < 8 then ((chDot :: x).map doschar).getD j chSpace else chSpace) =
            if j < 8 then ((chDot :: x.map doschar).map doschar).getD j chSpace else chSpace
          rw [List.map_cons,List.map_cons,map_settled hxs]
        have hdiffer : ¬ Similar (chDot :: [] ++ chDot :: x.map doschar) (chDot :: [0x41] ++ chDot :: x.map doschar) := by
          intro hsim
          have hdot := dot_not_mem_settled hxs
          have hne : x.map doschar ≠ [] := by simpa using hnil
          rw [Similar,bare_extension hdot hne,bare_extension hdot hne] at hsim
          simpa using congrArg List.length hsim
        rcases exists_not_similar (e := e) hdiffer with hno | hno
        · exact ⟨_,hone,.inr hstray,hsame hone hone',hno⟩
        · exact ⟨_,htwo,.inr hstray,hsame htwo htwo',hno⟩
      · -- the second byte may be whatever the array held
        have hc : settled (doschar c) := hb _ (by simp)
        have hpair : ∀ c' ∈ [doschar c,0x41], settled c' := by
          simpa using ⟨hc,by decide,by decide,by decide⟩
        obtain ⟨hconv,hcut⟩ := converted_of_fields (l := [doschar c,0x41]) hpair hxs (by simp) hX₃ (.inl (by simp))
        refine ⟨_,hconv,.inl (faithful_of_fields hpair hxs (by simp) hX₃ (.inr (by simp))),
          same_of_bytes h hconv 0x41 fun left j hj => ?_,
          not_similar_of_fields hf hpair hxs (by simp) hX₃ (.inr (by simp)) fun hl => by rw [hlast x hl rfl]; rfl⟩
        rw [hp,hcut]
        change (if x = [] then _ else if j = 1 then (0x41 : UInt8) else if j < 8 then padded [c] j
          else padded x (j - 8)) = if j < 8 then padded [doschar c,0x41] j else padded (x.map doschar) (j - 8)
        rw [if_neg hnil,padded_map hxs]
        match j with
        | 0 => simp [padded,hc.2.1]
        | 1 => rfl
        | j+2 => simp [padded]
      · simp at hone

/-- A faithful element is told apart from every faithful one, and only a faithful one is: any other shares
its bytes with a different name. -/
theorem faithful_iff_apart (h : Converted e) :
    Faithful e ↔ ∀ e', Converted e' → Faithful e' ∨ Stray e → Apart e e' := by
  constructor
  · intro hf e' h' hor
    refine hf.apart (hor.resolve_right fun hstray => ?_) h h'
    rcases hstray with hback | ⟨hdot,hne⟩
    · exact hf.2.1 (List.mem_of_getElem? hback)
    · have hlen := hf.2.2.2.1 hdot
      obtain ⟨c,rfl⟩ := List.length_eq_one_iff.1 hlen
      exact hne (by simpa using hdot)
  · intro hall
    by_contra hf
    obtain ⟨e',h',hor,hsame,hno⟩ := exists_alias h hf
    exact hno (hall e' h' hor hsame)

end Names

/-- `ab.c` -/
abbrev abDotC : List UInt8 := [0x61,0x62,0x2E,0x63]

/-- `ab.x.c` -/
abbrev abDotXDotC : List UInt8 := [0x61,0x62,0x2E,0x78,0x2E,0x63]

theorem abDotC_converted : Converted abDotC :=
  converted_of_accepted (by decide) (by decide) (by decide) (by decide) (by decide) (by decide +kernel)

theorem abDotXDotC_converted : Converted abDotXDotC :=
  converted_of_accepted (by decide) (by decide) (by decide) (by decide) (by decide) (by decide +kernel)

/-- `ab.c` is faithful, and told apart from every faithful name. -/
theorem abDotC_apart : Faithful abDotC ∧ ∀ e', Converted e' → Faithful e' ∨ Stray abDotC → Apart abDotC e' := by
  have hfaithful : Faithful abDotC := by
    unfold Faithful
    decide
  exact ⟨hfaithful,(faithful_iff_apart abDotC_converted).1 hfaithful⟩

/-- What stands between the first and the last dot of `ab.x.c` is dropped without an error. -/
theorem abDotXDotC_not_apart : Converted abDotXDotC ∧ Converted abDotC ∧ ¬ Apart abDotXDotC abDotC := by
  refine ⟨abDotXDotC_converted,abDotC_converted,fun h => ?_⟩
  have hno : ¬ Similar abDotXDotC abDotC := by
    unfold Similar
    decide
  refine hno (h (same_of_bytes abDotXDotC_converted abDotC_converted 0 fun left j hj => ?_))
  have hcut : cut (pieces abDotXDotC) = ([0x61,0x62],some [0x63]) := by decide
  have hcut' : cut (pieces abDotC) = ([0x61,0x62],some [0x63]) := by decide
  rw [hcut,hcut']
  rfl

end Element

end Gristle
