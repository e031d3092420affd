import Gristle.Element

/-! The eleven bytes of a valid 8.3 name: for which names the two conversions deliver them whatever the
array for the result held before. -/
namespace Gristle

namespace ShortName

/-- Both conversions succeed and leave the eleven bytes of the name, whatever the array held before. -/
def Encoded (n : ShortName) : Prop :=
  ∀ d : DosName, ∃ u, strToFatname none n.text = .ok (some u) ∧
    ∃ d' m, makeDosName d u 0 = .ok (some (d',m)) ∧ ∀ j < 11, d'.byte j = n.byte j

variable {n : ShortName}

/-- With one character in front of an extension the second byte is not written. -/
theorem makeDosName_unclear (h : ¬ n.clear) {d d' : DosName} {m : ℕ}
    (hrun : makeDosName d n.fatname 0 = .ok (some (d',m))) : d'.byte 1 = d.byte 1 := by
  obtain ⟨hone,hext⟩ : n.base.length = 1 ∧ n.ext ≠ [] := by
    have hpos := n.base_pos
    unfold clear at h
    push Not at h
    exact ⟨by omega,h.2⟩
  obtain ⟨c,hc⟩ := List.length_eq_one_iff.1 hone
  have hinner (c' : UInt8) (h : nameChar c' = true) : Element.inner c' := by
    obtain ⟨h₀,h₁,-,-⟩ := nameChar_iff.1 h
    exact ⟨fun h' => h₀ ((doschar_zero c').2 h'),ne_dot_of_nameChar h,h₁⟩
  have hchar := n.base_chars c (by simp [hc])
  have hwhole : Element.upTo n.ext = n.ext := List.takeWhile_eq_self_iff.2 fun c' hc' => by
    simpa using (nameChar_iff.1 (n.ext_chars c' hc')).2.2.1
  have hjoin : n.fatname = Element.joined ([c],some n.ext) := by
    rw [fatname,if_neg hext,hc]
    rfl
  by_cases he : c = 0xE5
  · have hnone := Element.makeDosName_e5_base (b := [c]) (x := some n.ext) (by simpa using hinner c hchar)
      (by simp) d (by simp [Element.upTo,he]; decide)
    rw [hjoin,hnone] at hrun
    simp at hrun
  · have hcase := Element.makeDosName_one d (fun c' hc' => hinner c' (n.ext_chars c' hc')) n.ext_le
      (hinner c hchar) (nameChar_iff.1 hchar).2.2.1 he
    rw [← hjoin] at hcase
    split at hcase
    · rw [hcase] at hrun
      simp at hrun
    · obtain ⟨d'',m',hmake,hbytes⟩ := hcase
      rw [hmake] at hrun
      obtain ⟨rfl,-⟩ : d'' = d' ∧ m' = m := by simpa using hrun
      rw [hbytes 1 (by omega),hwhole,Element.byteOf,if_neg hext,if_pos rfl]

/-- A valid name gets its eleven bytes exactly when it has no character 0xE5 and no extension follows
a base of one character. -/
theorem encoded_iff (n : ShortName) : n.Encoded ↔ n.plain = true ∧ n.clear := by
  constructor
  · intro h
    have hclear : n.clear := by
      by_contra hno
      obtain ⟨u,hu,d',m,hmake,hbytes⟩ := h fun _ => 0
      rw [n.strToFatname_text] at hu
      obtain rfl : n.fatname = u := by simpa using hu
      have hkept := makeDosName_unclear hno hmake
      have hspace : n.byte 1 = chSpace := by
        have hpos := n.base_pos
        unfold clear at hno
        rw [byte,if_pos (by omega)]
        exact List.getD_eq_default _ _ (by simp; omega)
      rw [hbytes 1 (by omega),hspace] at hkept
      exact absurd hkept (by decide)
    refine ⟨?_,hclear⟩
    by_contra hno
    obtain ⟨u,hu,d',m,hmake,-⟩ := h fun _ => 0
    have hnone := n.convertElement_e5 (by simpa using hno) hclear fun _ => 0
    rw [convertElement,hu,ok_bind] at hnone
    dsimp only at hnone
    rw [hmake] at hnone
    simp [bind,Except.bind,pure,Except.pure] at hnone
  · rintro ⟨hplain,hclear⟩ d
    obtain ⟨d',hconv,hbytes⟩ := n.convertElement_plain hplain hclear d
    refine ⟨n.fatname,n.strToFatname_text none,?_⟩
    rw [convertElement,n.strToFatname_text,ok_bind] at hconv
    dsimp only at hconv
    cases hmake : makeDosName d n.fatname 0 with
    | error e =>
      rw [hmake] at hconv
      simp [bind,Except.bind] at hconv
    | ok o =>
      rw [hmake,ok_bind] at hconv
      cases o with
      | none => simp [pure,Except.pure] at hconv
      | some r =>
        obtain rfl : r.1 = d' := by simpa [pure,Except.pure] using hconv
        exact ⟨r.1,r.2,rfl,hbytes⟩

/-- `a.b` -/
def oneLetter : ShortName where
  base := [0x61]
  ext := [0x62]
  base_pos := by decide
  base_le := by decide
  ext_le := by decide
  base_chars := by decide +kernel
  ext_chars := by decide +kernel

/-- The second byte of `a.b` is what the array held. -/
theorem oneLetter_not_encoded : ¬ oneLetter.Encoded := by
  intro h
  obtain ⟨u,hu,d',m,hmake,hbytes⟩ := h fun _ => 0
  have hfirst : strToFatname none oneLetter.text = .ok (some [0x41,chDot,0x42]) := by decide
  rw [hfirst] at hu
  obtain rfl : [0x41,chDot,0x42] = u := by simpa using hu
  have hsecond : (makeDosName (fun _ => 0) [0x41,chDot,0x42] 0).map (Option.map fun p => p.1 1) = .ok (some 0) := by
    decide
  rw [hmake] at hsecond
  have hzero : d' 1 = 0 := by simpa [Except.map] using hsecond
  have hbyte := hbytes 1 (by omega)
  change d' 1 = _ at hbyte
  rw [hzero] at hbyte
  exact absurd hbyte (by decide)

end ShortName

end Gristle
