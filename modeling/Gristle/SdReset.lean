import Gristle.SdCommand
import Gristle.Lib.Avoid
import Gristle.Lib.Requests

/-! What `sd_card_reset` finds out about a card, whatever answers at the other end of the bus: the fields of the
card's register, and what stays in `card` from one call to the next. -/
namespace Gristle
open Prog

/-! ### The register -/

/-- The bits `hi` to `lo` of a register, the first byte being the highest. -/
def csdBits (csd : List UInt8) (hi lo : ℕ) : ℕ :=
  csd.foldl (fun n b => n * 2^8 + b.toNat) 0 / 2^lo % 2^(hi - lo + 1)

/-- The structure of the register: 0 for a standard capacity card. -/
def csdStructure (csd : List UInt8) : ℕ := csdBits csd 126 126

/-- READ_BL_LEN -/
def csdReadBlLen (csd : List UInt8) : ℕ := csdBits csd 83 80

/-- The size in blocks of a standard capacity card: (C_SIZE + 1) * 2^(C_SIZE_MULT + 2) blocks of the length
READ_BL_LEN tells. -/
def csdSizeSc (csd : List UInt8) : ℕ :=
  (csdBits csd 73 62 + 1) * 2^(csdBits csd 49 47 + 2) * 2^csdReadBlLen csd / blockSize

/-- The size in blocks of a high capacity card: (C_SIZE + 1) times 512 KiB. -/
def csdSizeHc (csd : List UInt8) : ℕ := (csdBits csd 69 48 + 1) * 2^10

/-- PERM_WRITE_PROTECT or TMP_WRITE_PROTECT -/
def csdProtected (csd : List UInt8) : Bool := csdBits csd 13 12 != 0

/-- The card as the driver identifies it: of C_SIZE of a high capacity card it reads 20 bits. -/
def SdCard.identify (k : SdCard) (csd : List UInt8) : SdCard :=
  { k with
    cardType := if csdStructure csd = 0 then .sc else .hc
    size := if csdStructure csd = 0 then csdSizeSc csd else (csdBits csd 69 48 % 2^20 + 1) * 2^10
    readOnly := k.readOnly || csdProtected csd }

namespace BlockSd
variable {σ : Type} {D : Board σ} {s : SdState σ}

theorem updateCard_run (u : SdCard → SdCard) (s : SdState σ) :
    updateCard u s = .ok ((),{ s with card := u s.card }) := rfl

theorem protect_run (c : UInt8) (s : SdState σ) : protect c s =
    .ok ((),{ s with card := { s.card with readOnly := s.card.readOnly || (c &&& 0x30 != 0) } }) := by
  by_cases h : c &&& 0x30 = 0
  · rw [protect,if_neg (by simpa using h),h]
    simp
  · rw [protect,if_pos h,updateCard_run]
    simp [h]

section Masks
variable {c : UInt8}

theorem toNat_and_0F (c : UInt8) : (c &&& 0x0F).toNat = c.toNat % 2^4 := by
  rw [UInt8.toNat_and]
  exact Nat.and_two_pow_sub_one_eq_mod c.toNat 4

theorem toNat_and_03 (c : UInt8) : (c &&& 0x03).toNat = c.toNat % 2^2 := by
  rw [UInt8.toNat_and]
  exact Nat.and_two_pow_sub_one_eq_mod c.toNat 2

theorem toNat_and_C0 (c : UInt8) : (c &&& 0xC0).toNat / 2^6 = c.toNat / 2^6 := by
  have hall : ∀ n < 256, (n &&& 0xC0) / 2^6 = n / 2^6 := by decide +kernel
  rw [UInt8.toNat_and]
  exact hall c.toNat c.toNat_lt

theorem and_30_iff : c &&& 0x30 = 0 ↔ c.toNat / 2^4 % 2^2 = 0 := by
  have hall : ∀ n < 256, n &&& 0x30 = 0 ↔ n / 2^4 % 2^2 = 0 := by decide +kernel
  rw [← UInt8.toNat_inj,UInt8.toNat_and]
  exact hall c.toNat c.toNat_lt

theorem and_40_iff : c &&& 0x40 = 0 ↔ c.toNat / 2^6 % 2 = 0 := by
  have hall : ∀ n < 256, n &&& 0x40 = 0 ↔ n / 2^6 % 2 = 0 := by decide +kernel
  rw [← UInt8.toNat_inj,UInt8.toNat_and]
  exact hall c.toNat c.toNat_lt

end Masks

/-- Where the fields lie in the sixteen bytes. -/
theorem csd_fields (b₀ b₁ b₂ b₃ b₄ b₅ b₆ b₇ b₈ b₉ b₁₀ b₁₁ b₁₂ b₁₃ b₁₄ b₁₅ : UInt8) {csd : List UInt8}
    (hcsd : csd = [b₀,b₁,b₂,b₃,b₄,b₅,b₆,b₇,b₈,b₉,b₁₀,b₁₁,b₁₂,b₁₃,b₁₄,b₁₅]) :
    csdBits csd 126 126 = b₀.toNat / 2^6 % 2 ∧ csdBits csd 83 80 = b₅.toNat % 2^4 ∧
    csdBits csd 73 62 = b₆.toNat % 2^2 * 2^10 + b₇.toNat * 2^2 + b₈.toNat / 2^6 ∧
    csdBits csd 49 47 = b₉.toNat % 2^2 * 2 + b₁₀.toNat / 2^7 ∧
    csdBits csd 69 48 = b₇.toNat % 2^6 * 2^16 + b₈.toNat * 2^8 + b₉.toNat ∧
    csdBits csd 13 12 = b₁₄.toNat / 2^4 % 2^2 := by
  have h₁ := b₁.toNat_lt
  have h₂ := b₂.toNat_lt
  have h₃ := b₃.toNat_lt
  have h₄ := b₄.toNat_lt
  have h₅ := b₅.toNat_lt
  have h₆ := b₆.toNat_lt
  have h₇ := b₇.toNat_lt
  have h₈ := b₈.toNat_lt
  have h₉ := b₉.toNat_lt
  have h₁₀ := b₁₀.toNat_lt
  have h₁₁ := b₁₁.toNat_lt
  have h₁₂ := b₁₂.toNat_lt
  have h₁₃ := b₁₃.toNat_lt
  have h₁₄ := b₁₄.toNat_lt
  have h₁₅ := b₁₅.toNat_lt
  simp only [hcsd,csdBits,List.foldl_cons,List.foldl_nil]
  refine ⟨?_,?_,?_,?_,?_,?_⟩ <;> omega

/-- The bytes of a register that the other end sends. -/
theorem csd_replies (u : σ) : D.replies u (List.replicate 16 0xFF) = [D.nth 0xFF u 0,D.nth 0xFF u 1,
    D.nth 0xFF u 2,D.nth 0xFF u 3,D.nth 0xFF u 4,D.nth 0xFF u 5,D.nth 0xFF u 6,D.nth 0xFF u 7,D.nth 0xFF u 8,
    D.nth 0xFF u 9,D.nth 0xFF u 10,D.nth 0xFF u 11,D.nth 0xFF u 12,D.nth 0xFF u 13,D.nth 0xFF u 14,
    D.nth 0xFF u 15] := rfl

theorem readCsdHc_run (u : σ) : readCsdHc D (s.over (D.next u 0xFF)) = .ok ((),
    ⟨{ s.card with
        cardType := .hc
        size := u32 (u32 (u32 (u32 ((D.nth 0xFF u 7 &&& 0x0F).toNat * 2^16 + (D.nth 0xFF u 8).toNat * 2^8) +
          (D.nth 0xFF u 9).toNat) + 1) * 2^10)
        readOnly := s.card.readOnly || (D.nth 0xFF u 14 &&& 0x30 != 0) },D.idle 0xFF u 16⟩) := by
  simp only [readCsdHc,bind_of_ok (updateCard_run _ _),bind_of_ok (send_run _ _),bind_of_ok (spiXfer_run _ _),
    bind_of_ok (protect_run _ _),send_run]
  rfl

theorem readCsdSc_run (u : σ) : readCsdSc D (s.over (D.next u 0xFF)) =
    if (D.nth 0xFF u 5 &&& 0x0F).toNat < 9 then .error .arithmetic else .ok ((),
      ⟨{ s.card with
          cardType := .sc
          size := u32 (u32 (u32 (u32 (u32 ((D.nth 0xFF u 6 &&& 0x03).toNat * 2^10 +
            (D.nth 0xFF u 7).toNat * 2^2) + (D.nth 0xFF u 8 &&& 0xC0).toNat / 2^6) + 1) *
              2^(((D.nth 0xFF u 9).toNat * 2 + (D.nth 0xFF u 10).toNat / 2^7) % 2^16 % 2^3 + 2)) *
                2^((D.nth 0xFF u 5 &&& 0x0F).toNat - 9))
          readOnly := s.card.readOnly || (D.nth 0xFF u 14 &&& 0x30 != 0) },D.idle 0xFF u 16⟩) := by
  simp only [readCsdSc,bind_of_ok (updateCard_run _ _),bind_of_ok (send_run _ _),bind_of_ok (spiXfer_run _ _)]
  by_cases h : (D.nth 0xFF u 5 &&& 0x0F).toNat < 9
  · rw [if_pos h]
    have hstop (s' : SdState σ) : scaleSize (D.nth 0xFF u 5 &&& 0x0F).toNat s' = .error .arithmetic := by
      rw [scaleSize,if_pos h]
      rfl
    exact bind_of_error (hstop _)
  · rw [if_neg h]
    have hscale (s' : SdState σ) : scaleSize (D.nth 0xFF u 5 &&& 0x0F).toNat s' = .ok ((),{ s' with
        card := { s'.card with size := u32 (s'.card.size * 2^((D.nth 0xFF u 5 &&& 0x0F).toNat - 9)) } }) := by
      rw [scaleSize,if_neg h]
      rfl
    refine (bind_of_ok (hscale _)).trans ?_
    simp only [bind_of_ok (send_run _ _),bind_of_ok (spiXfer_run _ _),bind_of_ok (protect_run _ _),send_run]
    rfl

/-- The size of a standard capacity card fits, and is scaled from its block length. -/
theorem sizeSc_eq {c l m x y : ℕ} (hc : c < 2^12) (hm : m < 2^3) (hl : 9 ≤ l) (hl' : l < 2^4)
    (hx : u32 x + 1 = c + 1) (hy : y = m + 2) :
    u32 (u32 (u32 (u32 x + 1) * 2^y) * 2^(l-9)) = (c + 1) * 2^(m+2) * 2^l / blockSize := by
  obtain ⟨k,rfl⟩ : ∃ k, l = k + 9 := ⟨l-9,by omega⟩
  have hpow : 2^(m+2) ≤ 2^9 := Nat.pow_le_pow_right (by decide) (by omega)
  have hpow' : 2^k ≤ 2^6 := Nat.pow_le_pow_right (by decide) (by omega)
  have hmul : (c+1) * 2^(m+2) ≤ 2^12 * 2^9 := Nat.mul_le_mul (by omega) hpow
  have hmul' : (c+1) * 2^(m+2) * 2^k ≤ 2^12 * 2^9 * 2^6 := Nat.mul_le_mul hmul hpow'
  rw [hx,hy,u32_of_lt (x := c+1) (by omega),u32_of_lt (x := (c+1) * 2^(m+2)) (by omega),Nat.add_sub_cancel,
    u32_of_lt (by omega),pow_add 2 k 9,← Nat.mul_assoc]
  exact (Nat.mul_div_cancel _ (by decide)).symm

/-- What the driver makes of the sixteen bytes that come next: it identifies the card, or shifts by less than
nothing for a standard capacity card whose blocks are shorter than 512 bytes. -/
theorem readCsd_run (u : σ) (csd : List UInt8) (hcsd : csd = D.replies u (List.replicate 16 0xFF)) :
    readCsd D (s.over u) = if csdStructure csd = 0 ∧ csdReadBlLen csd < 9 then .error .arithmetic
      else .ok ((),⟨s.card.identify csd,D.idle 0xFF u 16⟩) := by
  obtain ⟨hstructure,hlen,hsize,hmult,hsizeHc,hprotect⟩ := csd_fields _ _ _ _ _ _ _ _ _ _ _ _ _ _ _ _
    (hcsd.trans (csd_replies u))
  have hflag : (D.nth 0xFF u 14 &&& 0x30 != 0) = csdProtected csd := by
    rw [csdProtected,hprotect]
    by_cases h : D.nth 0xFF u 14 &&& 0x30 = 0
    · rw [h,and_30_iff.1 h]
      rfl
    · rw [bne_iff_ne.2 h,bne_iff_ne.2 (fun h' => h (and_30_iff.2 h'))]
  have h₇ := (D.nth 0xFF u 7).toNat_lt
  have h₈ := (D.nth 0xFF u 8).toNat_lt
  have h₉ := (D.nth 0xFF u 9).toNat_lt
  have h₁₀ := (D.nth 0xFF u 10).toNat_lt
  have hfirst : D.answer (s.over u).slave 0xFF = D.nth 0xFF u 0 := rfl
  rw [readCsd,bind_of_ok (spiXfer_run 0xFF _),hfirst]
  by_cases hc : D.nth 0xFF u 0 &&& 0x40 = 0
  · have hzero : csdStructure csd = 0 := hstructure.trans (and_40_iff.1 hc)
    rw [if_neg (by simpa using hc)]
    refine (readCsdSc_run u).trans ?_
    rw [toNat_and_0F,toNat_and_03,toNat_and_C0,← hlen,hflag]
    change (if csdReadBlLen csd < 9 then _ else _) = _
    by_cases hshort : csdReadBlLen csd < 9
    · rw [if_pos hshort,if_pos ⟨hzero,hshort⟩]
    · rw [if_neg hshort,if_neg fun h => hshort h.2,SdCard.identify,if_pos hzero,if_pos hzero]
      have hvalue := sizeSc_eq (c := csdBits csd 73 62) (l := csdReadBlLen csd) (m := csdBits csd 49 47)
        (x := u32 ((D.nth 0xFF u 6).toNat % 2^2 * 2^10 + (D.nth 0xFF u 7).toNat * 2^2) +
          (D.nth 0xFF u 8).toNat / 2^6)
        (y := ((D.nth 0xFF u 9).toNat * 2 + (D.nth 0xFF u 10).toNat / 2^7) % 2^16 % 2^3 + 2)
        (by omega) (by omega) (by omega) (by rw [csdReadBlLen,hlen]; omega) (by unfold u32; omega) (by omega)
      change _ = csdSizeSc csd at hvalue
      rw [← hvalue]
      rfl
  · have hone : csdStructure csd ≠ 0 := fun h => hc (and_40_iff.2 (hstructure.symm.trans h))
    rw [if_pos hc,if_neg fun h => hone h.1]
    refine (readCsdHc_run u).trans ?_
    have hvalue : u32 (u32 (u32 (u32 ((D.nth 0xFF u 7 &&& 0x0F).toNat * 2^16 + (D.nth 0xFF u 8).toNat * 2^8) +
        (D.nth 0xFF u 9).toNat) + 1) * 2^10) = (csdBits csd 69 48 % 2^20 + 1) * 2^10 := by
      rw [toNat_and_0F,hsizeHc]
      unfold u32
      omega
    rw [hvalue,hflag,SdCard.identify,if_neg hone,if_neg hone]
    rfl

/-- The capacity in blocks that the register tells. -/
def csdSize (csd : List UInt8) : ℕ := if csdStructure csd = 0 then csdSizeSc csd else csdSizeHc csd

/-- The size of a card that is not standard is right unless it is larger than the bits that are read. -/
theorem identify_size (k : SdCard) (csd : List UInt8) :
    (k.identify csd).size = csdSize csd ↔ csdStructure csd = 0 ∨ csdBits csd 69 48 < 2^20 := by
  rw [SdCard.identify,csdSize,csdSizeHc]
  by_cases h : csdStructure csd = 0
  · simp [h]
  · simp only [h,if_false,false_or]
    omega

/-! ### The reset -/

theorem sdCommand_card {fuel : ℕ} {code c : UInt8} {data : UInt32} {chksm : UInt8} {t : SdState σ}
    (h : sdCommand D fuel code data chksm s = .ok (c,t)) : t.card = s.card := by
  obtain ⟨bytes,-,k,-,rfl⟩ := sdCommand_iff.1 h
  rfl

theorem deselect_run (s : SdState σ) : deselect D s = .ok ((),s.over (D.gpioSet s.slave)) := rfl

theorem select_run (s : SdState σ) : select D s = .ok ((),s.over (D.gpioClear s.slave)) := rfl

theorem rejectCard_run (s : SdState σ) :
    rejectCard s = .ok (true,{ s with card := { s.card with cardType := .error } }) := rfl

/-- Behind CMD8 the card is rejected, or its type is written down. -/
theorem checkVoltage_outcome {c : UInt8} {r : Bool} {t : SdState σ} (h : checkVoltage D c s = .ok (r,t)) :
    ∃ k, t.card = { s.card with cardType := k } ∧ (r = true → k = .error) := by
  have hreject {u : SdState σ} (h : rejectCard u = .ok (r,t)) (hu : u.card = s.card) :
      ∃ k, t.card = { s.card with cardType := k } ∧ (r = true → k = .error) := by
    rw [rejectCard_run] at h
    simp only [Except.ok.injEq,Prod.mk.injEq] at h
    obtain ⟨-,rfl⟩ := h
    exact ⟨.error,by rw [← hu],fun _ => rfl⟩
  have haccept {u : SdState σ} {k : CardType} (h : (do
      updateCard fun c => { c with cardType := k }
      pure false) u = Except.ok (r,t)) (hu : u.card = s.card) : ∃ k, t.card = { s.card with cardType := k } ∧ (r = true → k = .error) := by
    rw [bind_of_ok (updateCard_run _ _)] at h
    simp only [pure_apply,Except.ok.injEq,Prod.mk.injEq] at h
    obtain ⟨rfl,rfl⟩ := h
    exact ⟨k,by rw [← hu],fun h => absurd h (by decide)⟩
  rw [checkVoltage,run_ite] at h
  split at h
  · exact haccept h rfl
  · rw [run_ite] at h
    split at h
    · rw [bind_of_ok (spiXfer_run 0xFF _),run_ite] at h
      split at h
      · exact hreject h rfl
      · rw [bind_of_ok (spiXfer_run 0xFF _),run_ite] at h
        split at h
        · exact hreject h rfl
        · rw [bind_of_ok (spiXfer_run 0xFF _),run_ite] at h
          split at h
          · exact hreject h rfl
          · rw [bind_of_ok (spiXfer_run 0xFF _),run_ite] at h
            split at h
            · exact hreject h rfl
            · exact haccept h rfl
    · exact hreject h rfl

theorem readyLoop_card {fuel n : ℕ} {c : UInt8} {t : SdState σ} (h : readyLoop D fuel n s = .ok (c,t)) :
    t.card = s.card := by
  induction n generalizing s with
  | zero => exact absurd h (by simp [readyLoop])
  | succ n ih =>
    obtain ⟨d,u,hcommand,h⟩ := bind_ok h
    have hcard := sdCommand_card hcommand
    rw [run_ite] at h
    split at h
    · exact (ih h).trans hcard
    · simp only [pure_apply,Except.ok.injEq,Prod.mk.injEq] at h
      rw [← h.2,hcard]

theorem readCsd_outcome {t : SdState σ} (h : readCsd D s = .ok ((),t)) : ∃ csd,
    csd = D.replies s.slave (List.replicate 16 0xFF) ∧ (csdStructure csd = 0 → 9 ≤ csdReadBlLen csd) ∧
      t.slave = D.idle 0xFF s.slave 16 ∧ t.card = s.card.identify csd := by
  have hrun := readCsd_run (D := D) (s := s) s.slave _ rfl
  have hover : s.over s.slave = s := rfl
  rw [hover,h] at hrun
  by_cases hstop : csdStructure (D.replies s.slave (List.replicate 16 0xFF)) = 0 ∧
      csdReadBlLen (D.replies s.slave (List.replicate 16 0xFF)) < 9
  · rw [if_pos hstop] at hrun
    exact absurd hrun (by simp)
  · rw [if_neg hstop] at hrun
    simp only [Except.ok.injEq,Prod.mk.injEq,true_and] at hrun
    subst hrun
    exact ⟨_,rfl,fun hzero => Nat.le_of_not_lt fun hshort => hstop ⟨hzero,hshort⟩,rfl,rfl⟩

/-- What a reset that returned says about the card, whatever answered. -/
inductive ResetOutcome (D : Board σ) (s t : SdState σ) : ℤ → Prop
  /-- There is no card: the switch of the socket says so, or nothing answered. -/
  | absent (k : CardType) (hk : k = s.card.cardType ∨ k = .error)
      (hcard : t.card = { s.card with cardType := k, error := sdErrNotPresent }) : ResetOutcome D s t (-1)
  | rejected (hcard : t.card = { s.card with cardType := .error }) : ResetOutcome D s t (-1)
  | identified (u : σ) (csd : List UInt8) (hcsd : csd = D.replies u (List.replicate 16 0xFF))
      (hlen : csdStructure csd = 0 → 9 ≤ csdReadBlLen csd)
      (hslave : t.slave = D.idle 0xFF u 16) (hcard : t.card = s.card.identify csd) : ResetOutcome D s t 0

theorem sdCardReset_outcome {fuel : ℕ} {r : ℤ} {t : SdState σ} (h : sdCardReset D fuel s = .ok (r,t)) :
    ResetOutcome D s t r := by
  obtain ⟨absent,s₁,hpin,h⟩ := bind_ok h
  obtain ⟨rfl,rfl⟩ : D.absentPin.elim false (fun level => level s.slave) = absent ∧ s = s₁ := by
    simpa [pinSet] using hpin
  rw [run_ite] at h
  split at h
  · rw [bind_of_ok (updateCard_run _ _)] at h
    simp only [pure_apply,Except.ok.injEq,Prod.mk.injEq] at h
    obtain ⟨rfl,rfl⟩ := h
    exact .absent _ (.inl rfl) rfl
  · rw [bind_of_ok (deselect_run s),bind_of_ok (send_run _ _),bind_of_ok (select_run _)] at h
    obtain ⟨c,s₅,hidle,h⟩ := bind_ok h
    have hcard₅ : s₅.card = s.card := (sdCommand_card hidle).trans rfl
    rw [run_ite] at h
    split at h
    · rw [bind_of_ok (updateCard_run _ _)] at h
      simp only [pure_apply,Except.ok.injEq,Prod.mk.injEq] at h
      obtain ⟨rfl,rfl⟩ := h
      exact .absent .error (.inr rfl) (by rw [← hcard₅])
    · obtain ⟨c,s₆,hvoltage,h⟩ := bind_ok h
      obtain ⟨failed,s₇,hcheck,h⟩ := bind_ok h
      obtain ⟨k,hcard₇,hfailed⟩ := checkVoltage_outcome hcheck
      rw [(sdCommand_card hvoltage).trans hcard₅] at hcard₇
      rw [run_ite] at h
      split at h
      · simp only [pure_apply,Except.ok.injEq,Prod.mk.injEq] at h
        obtain ⟨rfl,rfl⟩ := h
        refine .rejected ?_
        rw [hcard₇,hfailed ‹_›]
      · obtain ⟨_,s₈,hready,h⟩ := bind_ok h
        obtain ⟨c,s₉,hcsd,h⟩ := bind_ok h
        have hcard₉ := (sdCommand_card hcsd).trans ((readyLoop_card hready).trans hcard₇)
        rw [run_ite] at h
        split at h
        · rw [bind_of_ok (rejectCard_run _)] at h
          simp only [pure_apply,Except.ok.injEq,Prod.mk.injEq] at h
          obtain ⟨rfl,rfl⟩ := h
          refine .rejected ?_
          rw [hcard₉]
        · obtain ⟨_,u,hpoll,h⟩ := bind_ok h
          have hcard_u : u.card = s₉.card := by
            obtain ⟨j,-,-,-,rfl⟩ := pollWhile_iff.1 hpoll
            rfl
          obtain ⟨_,t',hread,h⟩ := bind_ok h
          simp only [pure_apply,Except.ok.injEq,Prod.mk.injEq] at h
          obtain ⟨rfl,rfl⟩ := h
          obtain ⟨csd,hcsd,hlen,hslave,hcard⟩ := readCsd_outcome hread
          refine .identified u.slave csd hcsd hlen hslave ?_
          rw [hcard,hcard_u,hcard₉]
          rfl

/-- Whatever answers: a `block_init` that succeeds has identified the card from the sixteen bytes it received last.
The size of the volume is the capacity they tell, if and only if the card is a standard one or its C_SIZE has no
more than 20 bits. -/
theorem blockInit_identifies {fuel : ℕ} {t : SdState σ} (h : blockInit D fuel s = .ok (0,t)) : ∃ u csd,
    csd = D.replies u (List.replicate 16 0xFF) ∧ t.slave = D.idle 0xFF u 16 ∧ t.card = s.card.identify csd ∧
      (csdStructure csd = 0 → 9 ≤ csdReadBlLen csd) ∧
      (blockGetVolumeSize t = csdSize csd ↔ csdStructure csd = 0 ∨ csdBits csd 69 48 < 2^20) := by
  generalize hr : (0 : ℤ) = r at h
  cases sdCardReset_outcome h with
  | absent => exact absurd hr (by decide)
  | rejected => exact absurd hr (by decide)
  | identified u csd hcsd hlen hslave hcard =>
    refine ⟨u,csd,hcsd,hslave,hcard,hlen,?_⟩
    rw [blockGetVolumeSize,hcard]
    exact identify_size s.card csd

/-- A line that answers with these bytes, whatever it is sent, and then with 0xFF. -/
def playback : Board (List UInt8) where
  answer l _ := l.headD 0xFF
  next l _ := l.tail
  gpioSet := id
  gpioClear := id
  absentPin := none
  protectPin := none

/-- The answers of a standard capacity card to a reset, with a register of 2048 blocks. -/
def smallCardAnswers : List UInt8 :=
  List.replicate 27 0xFF ++ [1] ++ List.replicate 7 0xFF ++ [5] ++ List.replicate 7 0xFF ++ [1] ++
    List.replicate 7 0xFF ++ [0] ++ List.replicate 7 0xFF ++ [0,0xFF,0xFE] ++
    [0,0x26,0,0x32,0x1F,0x59,0,0x3F,0xC0,3,0x80,0,0,0,0x10,1]

theorem blockInit_identifies_small : ∃ t, blockInit playback 2 ⟨noCard,smallCardAnswers⟩ = .ok (0,t) ∧
    t.card = ⟨.sc,true,131072,0⟩ ∧ ∃ u csd, csd = playback.replies u (List.replicate 16 0xFF) ∧
      t.slave = playback.idle 0xFF u 16 ∧ t.card = noCard.identify csd ∧
      (csdStructure csd = 0 → 9 ≤ csdReadBlLen csd) ∧
      (blockGetVolumeSize t = csdSize csd ↔ csdStructure csd = 0 ∨ csdBits csd 69 48 < 2^20) := by
  have hrun : Prog.test (blockInit playback 2) ⟨noCard,smallCardAnswers⟩ (fun r t =>
      decide (r = 0) && decide (t.card = ⟨.sc,true,131072,0⟩)) = true := by decide +kernel
  obtain ⟨r,t,hrun,ht⟩ := ok_of_test hrun
  obtain ⟨rfl,hcard⟩ : r = 0 ∧ t.card = ⟨.sc,true,131072,0⟩ := by simpa using ht
  exact ⟨t,hrun,hcard,blockInit_identifies hrun⟩

/-! ### A line that is stuck -/

section Constant
variable {b : UInt8} (hline : ∀ u c, D.answer u c = b)
include hline

theorem constant_replied (u : σ) : ∃ k, Replied D u sdRetries b k := by
  obtain ⟨c,k,hreplied,-⟩ := retryLoop_run (D := D) 999 0xFF (s := (⟨noCard,u⟩ : SdState σ))
  have hc : c = b := hreplied.last.symm.trans (hline _ _)
  exact ⟨k,hc ▸ hreplied⟩

/-- A command on the line gets the byte that always comes. -/
theorem constant_command (fuel : ℕ) (code : UInt8) (hcode : code &&& 0x80 ≠ 0 → b ≠ 0xFF ∧ 0 < fuel)
    (data : UInt32) (chksm : UInt8) (s : SdState σ) :
    ∃ u, sdCommand D fuel code data chksm s = .ok (b,s.over u) := by
  have hannounced : ∃ bytes, Announced D fuel code s.slave bytes := by
    unfold Announced
    by_cases hplain : code &&& 0x80 = 0
    · exact ⟨[],by rw [if_pos hplain]⟩
    · obtain ⟨hb,hfuel⟩ := hcode hplain
      simp only [if_neg hplain]
      have hfirst : D.FirstAt (· ≠ 0xFF) 0xFF (D.after s.slave appBytes) 0 :=
        Responder.firstAt_zero (by rwa [hline])
      exact ⟨_,0,hfuel,hfirst,rfl⟩
  obtain ⟨bytes,hbytes⟩ := hannounced
  obtain ⟨k,hreplied⟩ := constant_replied hline (D.after s.slave (bytes ++ frame code data chksm))
  exact ⟨_,sdCommand_iff.2 ⟨bytes,hbytes,k,hreplied,rfl⟩⟩

/-- The answer to CMD8 is accepted only if it is 5, for the next byte is not 0. -/
theorem constant_voltage (s : SdState σ) : ∃ u, checkVoltage D b s = .ok (b != 5,u) := by
  rw [checkVoltage,run_ite]
  by_cases h₅ : b = 5
  · rw [if_pos h₅,bind_of_ok (updateCard_run _ _),h₅]
    exact ⟨_,rfl⟩
  · rw [if_neg h₅,run_ite,bne_iff_ne.2 h₅]
    by_cases h₁ : b = 1
    · have hne : b ≠ 0 := by
        rw [h₁]
        decide
      rw [if_pos h₁,bind_of_ok (spiXfer_run 0xFF s),hline,if_pos hne,rejectCard_run]
      exact ⟨_,rfl⟩
    · rw [if_neg h₁,rejectCard_run]
      exact ⟨_,rfl⟩

/-- A line that always answers with the same byte is never taken for a card: the reset fails. If the byte is
that of an empty socket, the error says so. -/
theorem constant_line_rejected {fuel : ℕ} (hfuel : 0 < fuel) (s : SdState σ) :
    Returns (sdCardReset D fuel) s fun r t => r = -1 ∧ (b = 0xFF → blockGetError t = sdErrNotPresent) := by
  have hpin : pinSet D.absentPin s = .ok (D.absentPin.elim false (fun level => level s.slave),s) := rfl
  refine returns_bind_of_ok hpin ?_
  apply returns_ite <;> intro habsent
  · exact ⟨_,_,rfl,rfl,fun _ => rfl⟩
  refine returns_bind_of_ok (deselect_run s) ?_
  refine returns_bind_of_ok (send_run _ _) ?_
  refine returns_bind_of_ok (select_run _) ?_
  obtain ⟨u,hidle⟩ := constant_command hline fuel cmd0 (fun h => absurd (by decide) h) _ _ _
  refine returns_bind_of_ok hidle ?_
  apply returns_ite <;> intro hb
  · exact ⟨_,_,rfl,rfl,fun _ => rfl⟩
  obtain ⟨v,hvoltage⟩ := constant_command hline fuel cmd8 (fun h => absurd (by decide) h) _ _ _
  refine returns_bind_of_ok hvoltage ?_
  obtain ⟨w,hcheck⟩ := constant_voltage hline _
  refine returns_bind_of_ok hcheck ?_
  apply returns_ite <;> intro hfailed
  · exact returns_pure ⟨rfl,fun h => absurd h hb⟩
  -- The byte is 5: ACMD41 takes it for a card that is ready, and CMD9 for an error.
  have h₅ : b = 5 := by simpa using hfailed
  have hready (s' : SdState σ) : ∃ u, readyLoop D fuel fuel s' = .ok (b,u) := by
    obtain ⟨n,rfl⟩ : ∃ n, fuel = n+1 := ⟨fuel-1,by omega⟩
    obtain ⟨u,hcommand⟩ := constant_command hline (n+1) acmd41 (fun _ => ⟨hb,hfuel⟩)
      ((1 : UInt32) <<< 30) 1 s'
    have hne : b ≠ 1 := by
      rw [h₅]
      decide
    refine ⟨s'.over u,(bind_of_ok hcommand).trans ?_⟩
    rw [if_neg hne]
    rfl
  obtain ⟨x,hloop⟩ := hready w
  refine returns_bind_of_ok hloop ?_
  obtain ⟨y,hcsd⟩ := constant_command hline fuel cmd9 (fun h => absurd (by decide) h) _ _ _
  refine returns_bind_of_ok hcsd ?_
  have hne : b ≠ 0 := by
    rw [h₅]
    decide
  rw [if_pos hne]
  exact ⟨_,_,rfl,rfl,fun h => absurd h hb⟩

end Constant

/-- An empty socket. -/
def emptySocket : Board Unit where
  answer _ _ := 0xFF
  next u _ := u
  gpioSet := id
  gpioClear := id
  absentPin := none
  protectPin := none

theorem constant_line_rejected_empty : Returns (sdCardReset emptySocket 1) ⟨noCard,()⟩ fun r t =>
    r = -1 ∧ ((0xFF : UInt8) = 0xFF → blockGetError t = sdErrNotPresent) :=
  constant_line_rejected (fun _ _ => rfl) Nat.one_pos _

/-! ### Runs -/

/-- A call of the driver that reaches the bus. -/
inductive SdCall
  | reset
  | read (block : UInt32)
  | write (block : UInt32) (data : Sector)

/-- The result of the call. -/
def SdCall.run (D : Board σ) (fuel : ℕ) : SdCall → Prog (SdState σ) ℤ
  | reset => blockInit D fuel
  | read block => do
    let (r,_) ← blockRead D fuel block .zero
    pure r
  | write block data => blockWrite D fuel block data

/-- What no call takes back: an error, and that the card is protected. -/
structure Later (k k' : SdCard) : Prop where
  error : k'.error = k.error ∨ k'.error = sdErrNotPresent
  readOnly : k.readOnly = true → k'.readOnly = true

theorem Later.refl (k : SdCard) : Later k k := ⟨.inl rfl,id⟩

theorem Later.trans {k k' k'' : SdCard} (h : Later k k') (h' : Later k' k'') : Later k k'' where
  error := by
    rcases h'.error with he | he
    · rw [he]
      exact h.error
    · exact .inr he
  readOnly hk := h'.readOnly (h.readOnly hk)

theorem ResetOutcome.later {t : SdState σ} {r : ℤ} (h : ResetOutcome D s t r) : Later s.card t.card := by
  cases h with
  | absent k hk hcard =>
    rw [hcard]
    exact ⟨.inr rfl,id⟩
  | rejected hcard =>
    rw [hcard]
    exact ⟨.inl rfl,id⟩
  | identified u csd hcsd hlen hslave hcard =>
    rw [hcard]
    exact ⟨.inl rfl,fun h => by rw [SdCard.identify,h,Bool.true_or]⟩

theorem ResetOutcome.failed {t : SdState σ} {r : ℤ} (h : ResetOutcome D s t r) (hr : r ≠ 0) :
    t.card.size = s.card.size ∧ t.card.readOnly = s.card.readOnly := by
  cases h with
  | absent k hk hcard =>
    rw [hcard]
    exact ⟨rfl,rfl⟩
  | rejected hcard =>
    rw [hcard]
    exact ⟨rfl,rfl⟩
  | identified u csd hcsd hlen hslave hcard => exact absurd rfl hr

theorem blockRead_card {fuel : ℕ} {block : UInt32} {buf : Sector} {r : ℤ × Sector} {t : SdState σ}
    (h : blockRead D fuel block buf s = .ok (r,t)) : t.card = s.card := by
  obtain ⟨c,k,-,hrefused,hread⟩ := blockRead_exact (D := D) block buf s
  by_cases hc : c = 0
  · obtain ⟨j,-,-,-,rfl⟩ := (hread hc fuel r t).1 h
    exact SdState.over_card _ _
  · rw [hrefused hc fuel] at h
    simp only [Except.ok.injEq,Prod.mk.injEq] at h
    rw [← h.2,SdState.over_card]

theorem blockWrite_card {fuel : ℕ} {block : UInt32} {buf : Sector} {r : ℤ} {t : SdState σ}
    (h : blockWrite D fuel block buf s = .ok (r,t)) : t.card = s.card := by
  obtain ⟨c,k,-,hrefused,hwrite⟩ := blockWrite_exact (D := D) block buf s
  by_cases hc : c = 0
  · obtain ⟨j,-,-,-,rfl⟩ := (hwrite hc fuel r t).1 h
    exact SdState.over_card _ _
  · rw [hrefused hc fuel] at h
    simp only [Except.ok.injEq,Prod.mk.injEq] at h
    rw [← h.2,SdState.sent_card]

/-- What one call leaves of the card's data. -/
theorem SdCall.run_card {fuel : ℕ} {call : SdCall} {r : ℤ} {t : SdState σ} (h : call.run D fuel s = .ok (r,t)) :
    Later s.card t.card ∧ ((call = .reset → r ≠ 0) →
      t.card.size = s.card.size ∧ t.card.readOnly = s.card.readOnly) := by
  cases call with
  | reset =>
    have houtcome := sdCardReset_outcome h
    exact ⟨houtcome.later,fun hr => houtcome.failed (hr rfl)⟩
  | read block =>
    obtain ⟨a,u,hread,h⟩ := bind_ok h
    simp only [pure_apply,Except.ok.injEq,Prod.mk.injEq] at h
    rw [← h.2,blockRead_card hread]
    exact ⟨.refl _,fun _ => ⟨rfl,rfl⟩⟩
  | write block data =>
    rw [blockWrite_card h]
    exact ⟨.refl _,fun _ => ⟨rfl,rfl⟩⟩

/-- Over any calls, an error that there is no card stays, also when a card has been found since, and so does the
protection of a card, also when another card has been found since. The size and the protection change only with
a reset that succeeds. -/
theorem sdCalls_keep {fuel : ℕ} {calls : List SdCall} {rs : List ℤ} {t : SdState σ}
    (h : serve (SdCall.run D fuel) calls s = .ok (rs,t)) :
    Later s.card t.card ∧ ((∀ p ∈ calls.zip rs, p.1 = .reset → p.2 ≠ 0) →
      t.card.size = s.card.size ∧ t.card.readOnly = s.card.readOnly) := by
  induction calls generalizing s rs with
  | nil =>
    cases h
    exact ⟨.refl _,fun _ => ⟨rfl,rfl⟩⟩
  | cons call calls ih =>
    obtain ⟨r,u,hcall,h⟩ := bind_ok h
    obtain ⟨rs',t',hrest,h⟩ := bind_ok h
    simp only [pure_apply,Except.ok.injEq,Prod.mk.injEq] at h
    obtain ⟨rfl,rfl⟩ := h
    obtain ⟨hlater,hkept⟩ := SdCall.run_card hcall
    obtain ⟨hlater',hkept'⟩ := ih hrest
    refine ⟨hlater.trans hlater',fun hresets => ?_⟩
    rw [List.zip_cons_cons] at hresets
    obtain ⟨hsize,hreadOnly⟩ := hkept (hresets (call,r) (by simp))
    obtain ⟨hsize',hreadOnly'⟩ := hkept' fun p hp => hresets p (by simp [hp])
    exact ⟨hsize'.trans hsize,hreadOnly'.trans hreadOnly⟩

/-- Two cards, of which the first is protected, and then no card. -/
theorem sdCalls_keep_two : ∃ rs t, serve (SdCall.run playback 2) [.reset,.reset,.reset]
      ⟨noCard,smallCardAnswers ++ smallCardAnswers⟩ = .ok (rs,t) ∧ rs = [0,0,-1] ∧ Later noCard t.card ∧
    ((∀ p ∈ [SdCall.reset,.reset,.reset].zip rs, p.1 = .reset → p.2 ≠ 0) →
      t.card.size = noCard.size ∧ t.card.readOnly = noCard.readOnly) := by
  have hrun : Prog.test (serve (SdCall.run playback 2) [.reset,.reset,.reset])
      ⟨noCard,smallCardAnswers ++ smallCardAnswers⟩ (fun rs _ => decide (rs = [0,0,-1])) = true := by decide +kernel
  obtain ⟨rs,t,hrun,hrs⟩ := ok_of_test hrun
  exact ⟨rs,t,hrun,by simpa using hrs,sdCalls_keep hrun⟩

end BlockSd

end Gristle
