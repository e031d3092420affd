import Gristle.Block
import Gristle.Lib.Serial

/-! The block driver for SD cards on the SPI bus of a microcontroller. The card, or whatever else is at the
other end of the bus, is a machine that answers every byte with a byte. -/
namespace Gristle

/-- `SD_CARD_NONE` to `SD_CARD_ERROR` -/
inductive CardType
  | none
  | mmc
  | sc
  | hc
  | xc
  | error
  deriving DecidableEq, Repr

/-- `SDCard` -/
structure SdCard where
  cardType : CardType
  readOnly : Bool
  size : ℕ
  error : ℕ
  deriving DecidableEq, Repr

/-- The argument of a read or write command: a byte address on a standard capacity card. -/
def SdCard.address (k : SdCard) (block : UInt32) : UInt32 := if k.cardType = .sc then block <<< 9 else block

/-- The bytes of a block, first to last. -/
def Sector.toList (b : Sector) : List UInt8 := List.ofFn fun i => b i

/-- What the driver is connected to: the other end of the bus, the level of the chip select pin, and the
switches of the card socket where the board has them (`SD_CP` and `SD_WP`). -/
structure Board (σ : Type) extends Responder σ UInt8 UInt8 where
  gpioSet : σ → σ
  gpioClear : σ → σ
  absentPin : Option (σ → Bool)
  protectPin : Option (σ → Bool)

/-- The variable `card` and the other end of the bus. -/
structure SdState (σ : Type) where
  card : SdCard
  slave : σ

namespace BlockSd
open Prog

abbrev cmd0 : UInt8 := 0
abbrev cmd8 : UInt8 := 8
abbrev cmd9 : UInt8 := 9
abbrev cmd12 : UInt8 := 12
abbrev cmd17 : UInt8 := 17
abbrev cmd24 : UInt8 := 24
abbrev acmd41 : UInt8 := 0x80 + 41

abbrev sdErrNotPresent : ℕ := 2

/-- `SD_RETRIES` -/
abbrev sdRetries : ℕ := 1000

/-- `card` before the first call. -/
def noCard : SdCard := ⟨.none,false,0,0⟩

variable {σ : Type} (D : Board σ)

/-- `spi_xfer`: one byte out, one byte in. -/
def spiXfer (b : UInt8) : Prog (SdState σ) UInt8 := fun s =>
  .ok (D.answer s.slave b,{ s with slave := D.next s.slave b })

/-- Successive calls of `spi_xfer` whose results are not used. -/
def send : List UInt8 → Prog (SdState σ) Unit
  | [] => pure ()
  | b :: bytes => do
    let _ ← spiXfer D b
    send bytes

/-- Successive calls of `spi_xfer` for the bytes they return. -/
def receive : ℕ → Prog (SdState σ) (List UInt8)
  | 0 => pure []
  | n+1 => do
    let c ← spiXfer D 0xFF
    let bytes ← receive n
    pure (c :: bytes)

/-- `do { c = spi_xfer(SD_SPI, 0xFF); } while(..)` -/
def pollWhile (again : UInt8 → Bool) : ℕ → Prog (SdState σ) UInt8
  | 0 => stop .fuel
  | n+1 => do
    let c ← spiXfer D 0xFF
    if again c then pollWhile again n else pure c

/-- The loop of `sd_command` that waits for the answer; `c` is the last byte received. -/
def retryLoop : ℕ → UInt8 → Prog (SdState σ) UInt8
  | 0, c => pure c
  | n+1, _ => do
    let c ← spiXfer D 0xFF
    if c ≠ 0xFF then pure c else retryLoop n c

/-- The bytes `sd_command` sends for a command. -/
def commandBytes (code : UInt8) (data : UInt32) (chksm : UInt8) : List UInt8 :=
  [0xFF,0x40 + (code &&& 0x7F),(data >>> 24).toUInt8,(data >>> 16).toUInt8,(data >>> 8).toUInt8,
    data.toUInt8,chksm]

/-- `sd_command` -/
def sdCommand (fuel : ℕ) (code : UInt8) (data : UInt32) (chksm : UInt8) : Prog (SdState σ) UInt8 := do
  let _ ← (if code &&& 0x80 ≠ 0 then do
      send D [0xFF,0x40 + 55,0,0,0,0,1]
      let _ ← pollWhile D (· == 0xFF) fuel
      pure ()
    else pure ())
  send D (commandBytes code data chksm)
  let _ ← (if code = cmd12 then send D [0xFF] else pure ())
  retryLoop D sdRetries 0xFF

def updateCard (u : SdCard → SdCard) : Prog (SdState σ) Unit := modify fun s => { s with card := u s.card }

/-- `gpio_set(SD_PORT, SD_CS_PIN)` -/
def deselect : Prog (SdState σ) Unit := modify fun s => { s with slave := D.gpioSet s.slave }

/-- `gpio_clear(SD_PORT, SD_CS_PIN)` -/
def select : Prog (SdState σ) Unit := modify fun s => { s with slave := D.gpioClear s.slave }

/-- A pin, if the board has it. -/
def pinSet (pin : Option (σ → Bool)) : Prog (SdState σ) Bool := fun s =>
  .ok (pin.elim false fun level => level s.slave,s)

/-! ### `sd_card_reset` -/

/-- The card is not usable. -/
def rejectCard : Prog (SdState σ) Bool := do
  updateCard fun k => { k with cardType := .error }
  pure true

/-- What follows the result of CMD8; `true` when the reset fails here. -/
def checkVoltage (c : UInt8) : Prog (SdState σ) Bool :=
  if c = 5 then do
    updateCard fun k => { k with cardType := .sc }
    pure false
  else if c = 1 then do
    let c ← spiXfer D 0xFF
    if c ≠ 0 then rejectCard
    else do
      let c ← spiXfer D 0xFF
      if c ≠ 0 then rejectCard
      else do
        let c ← spiXfer D 0xFF
        if c ≠ 1 then rejectCard
        else do
          let c ← spiXfer D 0xFF
          if c ≠ 0xAA then rejectCard
          else do
            updateCard fun k => { k with cardType := .hc }
            pure false
  else rejectCard

/-- ACMD41 until the card is ready; the second argument bounds the passes. -/
def readyLoop (fuel : ℕ) : ℕ → Prog (SdState σ) UInt8
  | 0 => stop .fuel
  | n+1 => do
    let c ← sdCommand D fuel acmd41 ((1 : UInt32) <<< 30) 1
    if c = 1 then readyLoop fuel n else pure c

/-- The write protect flags of the CSD. -/
def protect (c : UInt8) : Prog (SdState σ) Unit :=
  if c &&& 0x30 ≠ 0 then updateCard fun k => { k with readOnly := true } else pure ()

/-- The rest of the CSD of a high capacity card. -/
def readCsdHc : Prog (SdState σ) Unit := do
  updateCard fun k => { k with cardType := .hc }
  send D [0xFF,0xFF,0xFF,0xFF,0xFF,0xFF]
  let c ← spiXfer D 0xFF
  updateCard fun k => { k with size := (c &&& 0x0F).toNat * 2^16 }
  let c ← spiXfer D 0xFF
  updateCard fun k => { k with size := u32 (k.size + c.toNat * 2^8) }
  let c ← spiXfer D 0xFF
  updateCard fun k => { k with size := u32 (k.size + c.toNat) }
  updateCard fun k => { k with size := u32 (k.size + 1) }
  updateCard fun k => { k with size := u32 (k.size * 2^10) }
  send D [0xFF,0xFF,0xFF,0xFF]
  let c ← spiXfer D 0xFF
  protect c
  send D [0xFF]

/-- `card.size <<= (i - 9)`; a shift to the left by less than nothing is not defined. -/
def scaleSize (i : ℕ) : Prog (SdState σ) Unit :=
  if i < 9 then stop .arithmetic else updateCard fun k => { k with size := u32 (k.size * 2^(i-9)) }

/-- The rest of the CSD of a standard capacity card. -/
def readCsdSc : Prog (SdState σ) Unit := do
  updateCard fun k => { k with cardType := .sc }
  send D [0xFF,0xFF,0xFF,0xFF]
  let c ← spiXfer D 0xFF
  let i := (c &&& 0x0F).toNat
  let c ← spiXfer D 0xFF
  updateCard fun k => { k with size := (c &&& 0x03).toNat * 2^10 }
  let c ← spiXfer D 0xFF
  updateCard fun k => { k with size := u32 (k.size + c.toNat * 2^2) }
  let c ← spiXfer D 0xFF
  updateCard fun k => { k with size := u32 (k.size + (c &&& 0xC0).toNat / 2^6) }
  let c ← spiXfer D 0xFF
  let d ← spiXfer D 0xFF
  let c := (c.toNat * 2 + d.toNat / 2^7) % 2^16
  let c := 2^(c % 2^3 + 2)
  updateCard fun k => { k with size := u32 (k.size + 1) }
  updateCard fun k => { k with size := u32 (k.size * c) }
  scaleSize i
  send D [0xFF,0xFF,0xFF]
  let c ← spiXfer D 0xFF
  protect c
  send D [0xFF]

/-- The register that tells the card's size; bit 6 of its first byte tells the layout of the others. -/
def readCsd : Prog (SdState σ) Unit := do
  let c ← spiXfer D 0xFF
  if c &&& 0x40 ≠ 0 then readCsdHc D else readCsdSc D

/-- `sd_card_reset` -/
def sdCardReset (fuel : ℕ) : Prog (SdState σ) ℤ := do
  if ← pinSet D.absentPin then
    updateCard fun k => { k with error := sdErrNotPresent }
    pure (-1)
  else
    deselect D
    send D (List.replicate 20 0xFF)
    select D
    let c ← sdCommand D fuel cmd0 0 0x95
    if c = 0xFF then
      updateCard fun k => { k with cardType := .error, error := sdErrNotPresent }
      pure (-1)
    else
      let c ← sdCommand D fuel cmd8 0x1AA 0x87
      if ← checkVoltage D c then pure (-1)
      else
        let _ ← readyLoop D fuel fuel
        let c ← sdCommand D fuel cmd9 0 1
        if c ≠ 0 then
          let _ ← rejectCard
          pure (-1)
        else
          let _ ← pollWhile D (· == 0xFF) fuel
          readCsd D
          pure 0

/-- `block_init`, behind the settings of the clocks, the pins and the SPI peripheral. -/
def blockInit (fuel : ℕ) : Prog (SdState σ) ℤ := sdCardReset D fuel

/-! ### Blocks -/

/-- `block_read`, with the buffer before and after. -/
def blockRead (fuel : ℕ) (block : UInt32) (buf : Sector) : Prog (SdState σ) (ℤ × Sector) := do
  let s ← get
  let c ← sdCommand D fuel cmd17 (s.card.address block) 1
  if c ≠ 0 then pure (c.toNat,buf)
  else
    let _ ← pollWhile D (· != 0xFE) fuel
    let bytes ← receive D blockSize
    send D [0xFF,0xFF]
    pure (0,Sector.ofBytes bytes)

/-- `block_write` -/
def blockWrite (fuel : ℕ) (block : UInt32) (buf : Sector) : Prog (SdState σ) ℤ := do
  let s ← get
  let c ← sdCommand D fuel cmd24 (s.card.address block) 1
  if c ≠ 0 then pure c.toNat
  else
    send D [0xFF,0xFF]
    send D [0xFE]
    send D buf.toList
    send D [0xFF,0xFF]
    let _ ← spiXfer D 0xFF
    let _ ← pollWhile D (· != 0xFF) fuel
    pure 0

/-- `block_get_volume_size` -/
def blockGetVolumeSize (s : SdState σ) : ℕ := s.card.size

/-- `block_get_block_size` -/
def blockGetBlockSize : ℕ := blockSize

/-- `block_get_device_read_only` -/
def blockGetDeviceReadOnly : Prog (SdState σ) ℤ := do
  if ← pinSet D.protectPin then pure 1
  else
    let s ← get
    if s.card.readOnly then pure 1 else pure 0

/-- `block_get_error` -/
def blockGetError (s : SdState σ) : ℕ := s.card.error

end BlockSd

end Gristle
