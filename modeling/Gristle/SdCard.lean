import Gristle.SdTransfer

/-! A card as a machine: it collects the bytes of a command and then those of a block, and sends what it has to
answer. It is a card in the sense of `SpiCard`, for any size and latency and any set of blocks that it takes. -/
namespace Gristle
open BlockSd

/-- What a card makes of the next byte. -/
inductive CardMode
  | command (seen : List UInt8)
  | token (b : ℕ)
  | data (b : ℕ) (seen : List UInt8)
  deriving DecidableEq

structure CardState where
  blocks : ℕ → Sector
  mode : CardMode
  outbox : List UInt8

namespace CardState

/-- The argument of a command of six bytes. -/
def argument (seen : List UInt8) : ℕ :=
  (seen.getD 1 0).toNat * 2^24 + (seen.getD 2 0).toNat * 2^16 + (seen.getD 3 0).toNat * 2^8 + (seen.getD 4 0).toNat

/-- A card with these blocks that waits for a command. -/
def ready (blocks : ℕ → Sector) : CardState := ⟨blocks,.command [],[]⟩

variable (byteAddressed : Bool) (size latency : ℕ) (accepts : ℕ → Bool)

/-- A whole command: read a block, write a block, or an error. -/
def execute (c : CardState) (seen : List UInt8) : CardState :=
  let b := if byteAddressed then argument seen / 512 else argument seen
  if seen.getD 0 0 = 0x51 ∧ b < size then
    ⟨c.blocks,.command [],[0xFF,0] ++ (List.replicate latency 0xFF ++ 0xFE :: ((c.blocks b).toList ++ [0xFF,0xFF]))⟩
  else if seen.getD 0 0 = 0x58 ∧ b < size then ⟨c.blocks,.token b,[0xFF,0]⟩
  else ⟨c.blocks,.command [],[0xFF,0x40]⟩

def next (c : CardState) (byte : UInt8) : CardState :=
  if c.outbox ≠ [] then { c with outbox := c.outbox.tail }
  else match c.mode with
    | .command seen =>
      if seen = [] ∧ byte &&& 0xC0 ≠ 0x40 then c
      else if seen.length < 5 then { c with mode := .command (seen ++ [byte]) }
      else execute byteAddressed size latency c (seen ++ [byte])
    | .token b => if byte = 0xFE then { c with mode := .data b [] } else c
    | .data b seen =>
      if seen.length < 513 then { c with mode := .data b (seen ++ [byte]) }
      else ⟨if accepts b then Function.update c.blocks b (Sector.ofBytes (seen ++ [byte])) else c.blocks,
        .command [],(if accepts b then 0xE5 else 0xED) :: (List.replicate latency 0 ++ [0xFF])⟩

/-- A board with the card and without switches. -/
def board : Board CardState where
  answer c _ := c.outbox.headD 0xFF
  next := next byteAddressed size latency accepts
  gpioSet c := c
  gpioClear c := c
  absentPin := none
  protectPin := none

variable {byteAddressed : Bool} {size latency : ℕ} {accepts : ℕ → Bool}

/-- What is in the outbox is sent. -/
theorem sends (blocks : ℕ → Sector) (mode : CardMode) (l : List UInt8) :
    Sends (board byteAddressed size latency accepts) ⟨blocks,mode,l⟩ l ⟨blocks,mode,[]⟩ := by
  induction l with
  | nil => exact ⟨rfl,rfl⟩
  | cons b l ih => exact ⟨congrArg (b :: ·) ih.replies,ih.after⟩

/-- Part of what is in the outbox. -/
theorem sends_append (blocks : ℕ → Sector) (mode : CardMode) (l m : List UInt8) :
    Sends (board byteAddressed size latency accepts) ⟨blocks,mode,l ++ m⟩ l ⟨blocks,mode,m⟩ := by
  induction l with
  | nil => exact ⟨rfl,rfl⟩
  | cons b l ih => exact ⟨congrArg (b :: ·) ih.replies,ih.after⟩

/-- The argument of a command is that of the driver. -/
theorem argument_bytes (first chksm : UInt8) (a : UInt32) :
    argument [first,(a >>> 24).toUInt8,(a >>> 16).toUInt8,(a >>> 8).toUInt8,a.toUInt8,chksm] = a.toNat := by
  have ha := a.toNat_lt
  simp only [argument,List.getD_cons_succ,List.getD_cons_zero,UInt32.toNat_toUInt8,UInt32.toNat_shiftRight,
    Nat.shiftRight_eq_div_pow,UInt32.reduceToNat,Nat.reduceMod,Nat.reducePow]
  omega

/-- A command reaches the card that waits for one. -/
theorem after_command (blocks : ℕ → Sector) {code : UInt8} (hcode : code = cmd17 ∨ code = cmd24) (a : UInt32) :
    (board byteAddressed size latency accepts).after (ready blocks) (commandBytes code a 1) =
      execute byteAddressed size latency (ready blocks) [0x40 + (code &&& 0x7F),(a >>> 24).toUInt8,
        (a >>> 16).toUInt8,(a >>> 8).toUInt8,a.toUInt8,1] := by
  rcases hcode with rfl | rfl <;> rfl

/-- The bytes of a block are collected. -/
theorem after_data (blocks : ℕ → Sector) (b : ℕ) (seen l : List UInt8) (h : seen.length + l.length ≤ 513) :
    (board byteAddressed size latency accepts).after ⟨blocks,.data b seen,[]⟩ l = ⟨blocks,.data b (seen ++ l),[]⟩ := by
  induction l generalizing seen with
  | nil => rw [List.append_nil]; rfl
  | cons c l ih =>
    rw [List.length_cons] at h
    have hstep : (board byteAddressed size latency accepts).next ⟨blocks,.data b seen,[]⟩ c =
        ⟨blocks,.data b (seen ++ [c]),[]⟩ := if_pos (show seen.length < 513 by omega)
    rw [Responder.after_cons,hstep,ih _ (by rw [List.length_append,List.length_singleton]; omega),
      List.append_assoc]
    rfl

/-- The last byte of a block. -/
theorem next_full (blocks : ℕ → Sector) (b : ℕ) {seen : List UInt8} (h : seen.length = 513) (c : UInt8) :
    (board byteAddressed size latency accepts).next ⟨blocks,.data b seen,[]⟩ c =
      ⟨if accepts b then Function.update blocks b (Sector.ofBytes (seen ++ [c])) else blocks,.command [],
        (if accepts b then 0xE5 else 0xED) :: (List.replicate latency 0 ++ [0xFF])⟩ := if_neg (show ¬ seen.length < 513 by omega)

theorem after_packet (blocks : ℕ → Sector) (b : ℕ) (data : Sector) :
    (board byteAddressed size latency accepts).after ⟨blocks,.token b,[]⟩ (packet data) =
      ⟨if accepts b then Function.update blocks b data else blocks,.command [],
        (if accepts b then 0xE5 else 0xED) :: (List.replicate latency 0 ++ [0xFF])⟩ := by
  have hlength : (data.toList ++ [(0xFF : UInt8)]).length = 513 := by simp
  have hbytes : Sector.ofBytes (data.toList ++ [0xFF] ++ [0xFF]) = data := by
    conv_rhs => rw [← data.ofBytes_toList]
    funext i
    have hlt : i.val < data.toList.length := by
      rw [Sector.length_toList]
      exact i.isLt
    rw [Sector.ofBytes,Sector.ofBytes,List.append_assoc,List.getD_append _ _ _ _ hlt]
  have hstart : (board byteAddressed size latency accepts).after ⟨blocks,.token b,[]⟩ ([0xFF,0xFF] ++ [0xFE]) =
      ⟨blocks,.data b [],[]⟩ := rfl
  have hcollect := @after_data byteAddressed size latency accepts blocks b [] (data.toList ++ [0xFF])
    (by rw [hlength]; simp)
  rw [packet,← List.append_assoc,Responder.after_append,hstart,
    show data.toList ++ [0xFF,0xFF] = (data.toList ++ [0xFF]) ++ [0xFF] by simp,Responder.after_append,hcollect,
    List.nil_append,Responder.after_cons,next_full _ _ hlength,hbytes,Responder.after_nil]

/-- The machine is a card. -/
theorem obeys (byteAddressed : Bool) (size latency : ℕ) (accepts : ℕ → Bool) :
    SpiCard (board byteAddressed size latency accepts) byteAddressed size latency (fun _ b _ => accepts b)
      fun u B => u = ready B where
  read := by
    rintro u B a rfl hin
    refine ⟨1,latency,[0xFF,0xFF],ready B,by decide,Nat.le_refl _,rfl,?_,rfl⟩
    have hexec : execute byteAddressed size latency (ready B) [0x40 + (cmd17 &&& 0x7F),(a >>> 24).toUInt8,
        (a >>> 16).toUInt8,(a >>> 8).toUInt8,a.toUInt8,1] = ⟨B,.command [],List.replicate 1 0xFF ++ 0 ::
          (List.replicate latency 0xFF ++ 0xFE :: ((B (addressed byteAddressed a)).toList ++ [0xFF,0xFF]))⟩ := by
      rw [execute,argument_bytes]
      exact if_pos ⟨rfl,hin⟩
    rw [after_command B (.inl rfl),hexec]
    exact sends _ _ _
  write := by
    rintro u B a data rfl hin
    refine ⟨1,if accepts (addressed byteAddressed a) then 0xE5 else 0xED,List.replicate latency 0,
      ⟨B,.token (addressed byteAddressed a),[]⟩,ready (if accepts (addressed byteAddressed a) then
        Function.update B (addressed byteAddressed a) data else B),by decide,by simp,by simp,?_,?_,rfl⟩
    · have hexec : execute byteAddressed size latency (ready B) [0x40 + (cmd24 &&& 0x7F),(a >>> 24).toUInt8,
          (a >>> 16).toUInt8,(a >>> 8).toUInt8,a.toUInt8,1] =
            ⟨B,.token (addressed byteAddressed a),List.replicate 1 0xFF ++ [0]⟩ := by
        rw [execute,argument_bytes,if_neg fun h => absurd h.1 (by
          rw [List.getD_cons_zero]
          decide)]
        exact if_pos ⟨rfl,hin⟩
      rw [after_command B (.inr rfl),hexec]
      exact sends _ _ _
    · rw [after_packet]
      exact sends _ _ _
  beyond := by
    rintro u B a code rfl hout hcode
    refine ⟨1,0x40,ready B,by decide,by decide,by decide,?_,rfl⟩
    have hexec : execute byteAddressed size latency (ready B) [0x40 + (code &&& 0x7F),(a >>> 24).toUInt8,
        (a >>> 16).toUInt8,(a >>> 8).toUInt8,a.toUInt8,1] =
          ⟨B,.command [],List.replicate 1 0xFF ++ [0x40]⟩ := by
      rw [execute,argument_bytes]
      have hno (c : UInt8) : ¬ (List.getD [0x40 + (code &&& 0x7F),(a >>> 24).toUInt8,(a >>> 16).toUInt8,
          (a >>> 8).toUInt8,a.toUInt8,1] 0 0 = c ∧
          (if byteAddressed then a.toNat / 512 else a.toNat) < size) := fun h => absurd h.2 (Nat.not_lt.2 hout)
      exact (if_neg (hno _)).trans (if_neg (hno _))
    rw [after_command B hcode,hexec]
    exact sends _ _ _

end CardState

end Gristle
