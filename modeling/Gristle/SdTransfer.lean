import Mathlib.Data.List.GetD
import Gristle.SdCommand

/-! Blocks on an SD card. What the driver relies on is the card's side of a read and of a write; from this it
follows what `block_read` and `block_write` do. -/
namespace Gristle
open Prog BlockSd

variable {σ : Type}

/-- The block that the argument of a read or write command names. -/
def addressed (byteAddressed : Bool) (argument : UInt32) : ℕ :=
  if byteAddressed then argument.toNat / 512 else argument.toNat

/-- From `u` to `v` the other end of the bus, while it is sent 0xFF, answers with these bytes. -/
abbrev Sends (D : Board σ) (u : σ) (bytes : List UInt8) (v : σ) : Prop :=
  D.Exchanges u (List.replicate bytes.length 0xFF) bytes v

/-- A card of `size` blocks at the other end of the bus. `idle u B` says that it waits for a command and holds
the blocks `B`. It answers a command within eight bytes, begins to send a block and is done with storing one
within `latency` bytes, and `takes` the blocks it is sent or not. -/
structure SpiCard (D : Board σ) (byteAddressed : Bool) (size latency : ℕ) (takes : σ → ℕ → Sector → Bool)
    (idle : σ → (ℕ → Sector) → Prop) : Prop where
  read : ∀ u B a, idle u B → addressed byteAddressed a < size → ∃ (wait gap : ℕ) (crc : List UInt8) (v : σ),
    wait ≤ 8 ∧ gap ≤ latency ∧ crc.length = 2 ∧
    Sends D (D.after u (commandBytes cmd17 a 1)) (List.replicate wait 0xFF ++ 0 :: (List.replicate gap 0xFF ++
      0xFE :: ((B (addressed byteAddressed a)).toList ++ crc))) v ∧ idle v B
  write : ∀ u B a data, idle u B → addressed byteAddressed a < size → ∃ (wait : ℕ) (word : UInt8)
    (busy : List UInt8) (v w : σ), wait ≤ 8 ∧ busy.length ≤ latency ∧ 0xFF ∉ busy ∧
    Sends D (D.after u (commandBytes cmd24 a 1)) (List.replicate wait 0xFF ++ [0]) v ∧
    Sends D (D.after v (packet data)) (word :: (busy ++ [0xFF])) w ∧
    idle w (if takes u (addressed byteAddressed a) data then
      Function.update B (addressed byteAddressed a) data else B)
  beyond : ∀ u B a code, idle u B → size ≤ addressed byteAddressed a → code = cmd17 ∨ code = cmd24 →
    ∃ (wait : ℕ) (c : UInt8) (v : σ), wait ≤ 8 ∧ c ≠ 0 ∧ c ≠ 0xFF ∧
      Sends D (D.after u (commandBytes code a 1)) (List.replicate wait 0xFF ++ [c]) v ∧ idle v B

section Answers
variable {D : Board σ} {u v : σ} {wait : ℕ} {c : UInt8} {rest : List UInt8}

/-- An answer in time is the one `sd_command` gets, and it gets no byte behind it. -/
theorem Sends.replied (h : Sends D u (List.replicate wait 0xFF ++ c :: rest) v) (hwait : wait ≤ 8)
    (hc : c ≠ 0xFF) : Replied D u sdRetries c (wait+1) ∧ Sends D (D.idle 0xFF u (wait+1)) rest v := by
  have hlen : (List.replicate wait (0xFF : UInt8) ++ c :: rest).length =
      (List.replicate wait (0xFF : UInt8)).length + 1 + rest.length := by
    simp only [List.length_append,List.length_cons]
    omega
  rw [Sends,hlen] at h
  obtain ⟨hfirst,hlast,hrest⟩ := h.firstAt (P := (· ≠ 0xFF)) (by simp) hc
  rw [List.length_replicate] at hfirst hlast hrest
  have hle : wait + 1 ≤ 1000 := by omega
  refine ⟨⟨Nat.succ_pos _,hle,hlast,fun i hi => ?_,fun h => absurd h hc⟩,hrest⟩
  simpa using hfirst.before i hi

end Answers

@[simp] theorem Sector.length_toList (b : Sector) : b.toList.length = blockSize := List.length_ofFn

theorem Sector.ofBytes_toList (b : Sector) : Sector.ofBytes b.toList = b := by
  funext i
  have hlt : i.val < b.toList.length := by
    rw [length_toList]
    exact i.isLt
  rw [ofBytes,List.getD_eq_getElem _ _ hlt]
  exact List.getElem_ofFn _

namespace BlockSd
variable {D : Board σ} {s : SdState σ} {byteAddressed : Bool} {size latency : ℕ}
  {takes : σ → ℕ → Sector → Bool} {idle : σ → (ℕ → Sector) → Prop} {B : ℕ → Sector} {fuel : ℕ}
  {block : UInt32}

theorem toNat_ne_zero {c : UInt8} (h : c ≠ 0) : (c.toNat : ℤ) ≠ 0 := by
  intro hc
  exact h (UInt8.toNat_inj.1 (by simpa using hc))

theorem frame_of_ne {code : UInt8} (h : code ≠ cmd12) (data : UInt32) (chksm : UInt8) :
    frame code data chksm = commandBytes code data chksm := by
  rw [frame,if_neg h,List.append_nil]

section Idle
variable (hcard : SpiCard D byteAddressed size latency takes idle) (hidle : idle s.slave B)
  (hfuel : latency < fuel)
include hcard hidle

/-- A block beyond the card is refused, and neither the buffer nor the card changes. -/
theorem blockRead_beyond (hout : size ≤ addressed byteAddressed (s.card.address block)) (buf : Sector) :
    (blockRead D fuel block buf).Returns s fun r t =>
      r.1 ≠ 0 ∧ r.2 = buf ∧ t.card = s.card ∧ idle t.slave B := by
  obtain ⟨wait,c,v,hwait,hc₀,hc,hsends,hv⟩ := hcard.beyond _ _ _ cmd17 hidle hout (.inl rfl)
  obtain ⟨hreplied,hrest⟩ := hsends.replied hwait hc
  obtain ⟨c',k,hreplied',hrefused,-⟩ := blockRead_exact (D := D) block buf s
  rw [frame_of_ne (by decide)] at hreplied'
  obtain ⟨rfl,rfl⟩ := hreplied'.unique hreplied
  refine ⟨_,_,hrefused hc₀ fuel,toNat_ne_zero hc₀,rfl,rfl,?_⟩
  have hasked : readAsked D s block (wait+1) = v := by
    rw [readAsked,frame_of_ne (by decide),Responder.after_append]
    exact hrest.after
  rwa [SdState.over_slave,hasked]

theorem blockWrite_beyond (hout : size ≤ addressed byteAddressed (s.card.address block)) (buf : Sector) :
    (blockWrite D fuel block buf).Returns s fun r t => r ≠ 0 ∧ t.card = s.card ∧ idle t.slave B := by
  obtain ⟨wait,c,v,hwait,hc₀,hc,hsends,hv⟩ := hcard.beyond _ _ _ cmd24 hidle hout (.inr rfl)
  obtain ⟨hreplied,hrest⟩ := hsends.replied hwait hc
  obtain ⟨c',k,hreplied',hrefused,-⟩ := blockWrite_exact (D := D) block buf s
  rw [frame_of_ne (by decide)] at hreplied'
  obtain ⟨rfl,rfl⟩ := hreplied'.unique hreplied
  refine ⟨_,_,hrefused hc₀ fuel,toNat_ne_zero hc₀,rfl,?_⟩
  rw [SdState.sent_slave,frame_of_ne (by decide),Responder.after_append]
  exact hrest.after ▸ hv

include hfuel

/-- A block of the card is read. -/
theorem blockRead_idle (hin : addressed byteAddressed (s.card.address block) < size) (buf : Sector) :
    (blockRead D fuel block buf).Returns s fun r t =>
      r = (0,B (addressed byteAddressed (s.card.address block))) ∧ t.card = s.card ∧ idle t.slave B := by
  obtain ⟨wait,gap,crc,v,hwait,hgap,hcrc,hsends,hv⟩ := hcard.read _ _ _ hidle hin
  obtain ⟨hreplied,hrest⟩ := hsends.replied hwait (by decide)
  obtain ⟨c,k,hreplied',-,hread⟩ := blockRead_exact (D := D) block buf s
  rw [frame_of_ne (by decide)] at hreplied'
  obtain ⟨rfl,rfl⟩ := hreplied'.unique hreplied
  have hasked : readAsked D s block (wait+1) =
      D.idle 0xFF (D.after s.slave (commandBytes cmd17 (s.card.address block) 1)) (wait+1) := by
    rw [readAsked,frame_of_ne (by decide),Responder.after_append]
    rfl
  have hlen : (List.replicate gap (0xFF : UInt8) ++ 0xFE :: ((B (addressed byteAddressed
      (s.card.address block))).toList ++ crc)).length = (List.replicate gap (0xFF : UInt8)).length + 1 +
      ((B (addressed byteAddressed (s.card.address block))).toList ++ crc).length := by
    simp only [List.length_append,List.length_cons]
    omega
  rw [Sends,hlen] at hrest
  obtain ⟨hfirst,-,hdata⟩ := hrest.firstAt (P := (· = 0xFE)) (by simp) rfl
  rw [List.length_replicate,← hasked] at hfirst hdata
  have hsplit := hdata
  rw [List.length_append,List.replicate_add] at hsplit
  have hbytes := (hsplit.split (by simp)).1.replies
  rw [Sector.length_toList] at hbytes
  have hrun := (hread rfl fuel _ _).2 ⟨gap,Nat.lt_of_le_of_lt hgap hfuel,hfirst,Eq.refl _,Eq.refl _⟩
  refine ⟨_,_,hrun,?_,SdState.over_card _ _,?_⟩
  · rw [hbytes,Sector.ofBytes_toList]
  · have hlast := hdata.after
    rw [List.length_append,Sector.length_toList,hcrc] at hlast
    have hend : D.idle 0xFF (D.idle 0xFF (readAsked D s block (wait+1)) (gap+1)) (blockSize + 2) = v := hlast
    rwa [SdState.over_slave,Nat.add_assoc (gap+1) blockSize 2,Responder.idle_add,hend]

/-- A block for the card is sent. The result is 0 whether or not the card takes it. -/
theorem blockWrite_idle (hin : addressed byteAddressed (s.card.address block) < size) (data : Sector) :
    (blockWrite D fuel block data).Returns s fun r t => r = 0 ∧ t.card = s.card ∧
      idle t.slave (if takes s.slave (addressed byteAddressed (s.card.address block)) data then
        Function.update B (addressed byteAddressed (s.card.address block)) data else B) := by
  obtain ⟨wait,word,busy,v,w,hwait,hbusy,hready,hanswer,hword,hw⟩ := hcard.write _ _ _ data hidle hin
  obtain ⟨hreplied,hrest⟩ := hanswer.replied hwait (by decide)
  obtain ⟨c,k,hreplied',-,hwrite⟩ := blockWrite_exact (D := D) block data s
  rw [frame_of_ne (by decide)] at hreplied'
  obtain ⟨rfl,rfl⟩ := hreplied'.unique hreplied
  have hasked : writeAsked D s block data (wait+1) = D.after v (packet data) := by
    rw [writeAsked,frame_of_ne (by decide),Responder.after_append,Responder.after_append]
    have hv := hrest.after
    rw [List.length_nil,List.replicate_zero,Responder.after_nil] at hv
    rw [← hv]
    rfl
  have hbehind : D.Exchanges (D.next (D.after v (packet data)) 0xFF)
      (List.replicate (busy.length + 1 + ([] : List UInt8).length) 0xFF) (busy ++ 0xFF :: []) w := by
    have hsplit : D.Exchanges (D.after v (packet data)) ([0xFF] ++ List.replicate (busy.length + 1) 0xFF)
        ([word] ++ (busy ++ [0xFF])) w := by
      rw [Sends,show (word :: (busy ++ [(0xFF : UInt8)])).length = 1 + (busy.length + 1) by simp; omega,
        List.replicate_add] at hword
      exact hword
    exact (hsplit.split rfl).2
  obtain ⟨hfirst,-,-⟩ := hbehind.firstAt (P := (· = 0xFF)) (fun x hx he => hready (he ▸ hx)) rfl
  rw [← hasked] at hfirst
  refine ⟨_,_,(hwrite rfl fuel _ _).2 ⟨busy.length,by omega,hfirst,rfl,rfl⟩,rfl,rfl,?_⟩
  have hlast : D.idle 0xFF (writeAsked D s block data (wait+1)) (busy.length + 2) = w := by
    rw [hasked]
    exact (D.idle_succ 0xFF _ (busy.length + 1)).trans hbehind.after
  rwa [SdState.over_slave,hlast]

end Idle

end BlockSd

end Gristle
