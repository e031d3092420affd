import Gristle.BlockPc
import Gristle.Volume
import Gristle.SdCard
import Gristle.Lib.Requests

/-! The two block drivers behind one interface. Over any sequence of requests, the one for image files does
what the abstract device does where its bound is the exact one, and the one for SD cards does what a device
does that drops the blocks the card rejects. -/
namespace Gristle
open Prog

/-- A call of `block_read` or `block_write`. -/
inductive BlockRequest
  | read (block : UInt32)
  | write (block : UInt32) (data : Sector)

/-- The block read, if it was, or whether the write failed. -/
inductive BlockReply
  | data (block : Option Sector)
  | done (failed : Bool)

namespace BlockRequest

def block : BlockRequest → UInt32
  | read b => b
  | write b _ => b

/-- The abstract device. -/
def onDevice (E : Env) (o : Origin) : BlockRequest → Prog Device BlockReply
  | read b => do pure (.data (← Device.blockRead E b.toNat))
  | write b data => do pure (.done (← Device.blockWrite E o b.toNat data))

/-- The device that drops what is written to some blocks and reports it as written. -/
def onDropping (accepts : ℕ → Bool) (E : Env) (o : Origin) : BlockRequest → Prog Device BlockReply
  | read b => onDevice E o (read b)
  | write b data =>
    if accepts b.toNat then onDevice E o (write b data)
    else do
      let d ← Prog.get
      pure (.done (decide (d.size ≤ b.toNat)))

/-- The driver for image files. -/
def onImage : BlockRequest → Prog PcImage BlockReply
  | read b => do pure (.data (← PcImage.blockRead b))
  | write b data => do pure (.done (← PcImage.blockWrite b data))

variable {σ : Type}

/-- The driver for SD cards. -/
def onCard (D : Board σ) (fuel : ℕ) : BlockRequest → Prog (SdState σ) BlockReply
  | read b => do
    let (r,buf) ← BlockSd.blockRead D fuel b .zero
    pure (.data (if r = 0 then some buf else none))
  | write b data => do
    let r ← BlockSd.blockWrite D fuel b data
    pure (.done (r != 0))

/-! ### The abstract device -/

section Device
variable {E : Env} (hE : E.NoFault) (o : Origin) {d : Device}
include hE

theorem read_device (b : UInt32) (d : Device) : onDevice E o (read b) d =
    .ok (.data (if b.toNat < d.size then some (d.blocks b.toNat) else none),{ d with tick := d.tick + 1 }) := by
  change Except.ok _ = _
  simp only [hE.read,Bool.false_eq_true,false_or]
  by_cases hb : b.toNat < d.size
  · rw [if_pos hb,if_neg (by omega)]
  · rw [if_neg hb,if_pos (by omega)]

theorem write_device (b : UInt32) (data : Sector) (d : Device) : ∃ d', onDevice E o (write b data) d =
    .ok (.done (decide (d.size ≤ b.toNat)),d') ∧ d'.size = d.size ∧
      d'.blocks = if b.toNat < d.size then Function.update d.blocks b.toNat data else d.blocks := by
  obtain ⟨failed,d',hrun⟩ : ∃ failed d', Device.blockWrite E o b.toNat data d = .ok (failed,d') := by
    rw [Device.blockWrite]
    split <;> exact ⟨_,_,rfl⟩
  have hrest := hrun
  rw [Device.blockWrite] at hrest
  simp only [hE.write,Bool.false_eq_true,false_or] at hrest
  refine ⟨d',?_,?_⟩
  · rw [onDevice,bind_of_ok hrun]
    split at hrest <;> cases hrest
    · rw [decide_eq_true ‹_›]
      rfl
    · rw [decide_eq_false ‹_›]
      rfl
  · split at hrest <;> cases hrest
    · exact ⟨rfl,(if_neg (by omega)).symm⟩
    · exact ⟨rfl,(if_pos (by omega)).symm⟩

theorem onDevice_returns (request : BlockRequest) (d : Device) :
    (onDevice E o request).Returns d fun _ _ => True := by
  cases request with
  | read b => exact ⟨_,_,read_device hE o b d,trivial⟩
  | write b data =>
    obtain ⟨d',hrun,-⟩ := write_device hE o b data d
    exact ⟨_,d',hrun,trivial⟩

theorem onDropping_returns (accepts : ℕ → Bool) (request : BlockRequest) (d : Device) :
    (onDropping accepts E o request).Returns d fun _ _ => True := by
  cases request with
  | read b => exact onDevice_returns hE o (read b) d
  | write b data =>
    rw [onDropping]
    by_cases h : accepts b.toNat = true
    · rw [if_pos h]
      exact onDevice_returns hE o (write b data) d
    · rw [if_neg h]
      exact ⟨_,d,rfl,trivial⟩

end Device

/-! ### Image files -/

/-- An image of `n` bytes holds the blocks of the device. -/
structure Imaged (n : ℕ) (image : PcImage) (d : Device) : Prop where
  size : image.size = n
  volume : d.size = image.volumeSize
  blocks : ∀ b < d.size, image.load (b * 512) = d.blocks b

/-- Where its bound is sane, the driver for image files does what the device does. -/
theorem onImage_follows {E : Env} (hE : E.NoFault) (o : Origin) {n : ℕ} {request : BlockRequest}
    (hsane : PcImage.Sane n request.block) :
    Follows (Imaged n) request.onImage (request.onDevice E o) := by
  intro image d reply d' h hrun
  have hvolume := h.volume
  rw [← h.size] at hsane
  cases request with
  | read b =>
    have hexact : image.Exact b := (PcImage.exact_iff image b).2 hsane
    rw [read_device hE o b d] at hrun
    simp only [Except.ok.injEq,Prod.mk.injEq] at hrun
    obtain ⟨rfl,rfl⟩ := hrun
    refine ⟨_,image,?_,rfl,⟨h.size,h.volume,h.blocks⟩⟩
    have hread := hexact.read
    by_cases hb : b.toNat < d.size
    · rw [if_pos (show b.toNat < image.volumeSize by omega)] at hread
      rw [onImage,bind_of_ok hread,if_pos hb,h.blocks _ hb]
      rfl
    · rw [if_neg (show ¬ b.toNat < image.volumeSize by omega)] at hread
      rw [onImage,bind_of_ok hread,if_neg hb]
      rfl
  | write b data =>
    have hexact : image.Exact b := (PcImage.exact_iff image b).2 hsane
    obtain ⟨e,he,hsize,hblocks⟩ := write_device hE o b data d
    rw [he] at hrun
    simp only [Except.ok.injEq,Prod.mk.injEq] at hrun
    obtain ⟨rfl,rfl⟩ := hrun
    have hwrite := hexact.write data
    by_cases hb : b.toNat < d.size
    · rw [if_pos (show b.toNat < image.volumeSize by omega)] at hwrite
      refine ⟨_,image.store (b.toNat * 512) data,?_,rfl,h.size,hsize.trans hvolume,?_⟩
      · rw [onImage,bind_of_ok hwrite,decide_eq_false (by omega)]
        rfl
      · intro b' hb'
        rw [hblocks,if_pos hb]
        by_cases heq : b' = b.toNat
        · subst heq
          rw [Function.update_self,PcImage.load_store_self]
        · rw [Function.update_of_ne heq,PcImage.load_store_other _ (by simp only [blockSize]; omega)]
          exact h.blocks b' (by omega)
    · rw [if_neg (show ¬ b.toNat < image.volumeSize by omega)] at hwrite
      refine ⟨_,image,?_,rfl,h.size,hsize.trans hvolume,?_⟩
      · rw [onImage,bind_of_ok hwrite,decide_eq_true (by omega)]
        rfl
      · intro b' hb'
        rw [hblocks,if_neg hb]
        exact h.blocks b' (by omega)

/-! ### SD cards -/

/-- A card of this size at the other end of the bus holds the blocks of the device. -/
structure Carded {σ : Type} (k : SdCard) (size : ℕ) (idle : σ → (ℕ → Sector) → Prop) (s : SdState σ) (d : Device) :
    Prop where
  card : s.card = k
  size : d.size = size
  idle : idle s.slave d.blocks

/-- A card that is addressed as the driver takes it to be. -/
theorem addressed_address {byteAddressed : Bool} {k : SdCard} (hk : k.cardType = .sc ↔ byteAddressed = true)
    {b : UInt32} (hb : byteAddressed = true → b.toNat < 2^23) : addressed byteAddressed (k.address b) = b.toNat := by
  unfold addressed SdCard.address
  cases byteAddressed with
  | false => rw [if_neg (by simp),if_neg (by simp [hk])]
  | true =>
    have hlt := hb rfl
    rw [if_pos rfl,if_pos (hk.2 rfl),UInt32.toNat_shiftLeft]
    simp only [UInt32.reduceToNat,Nat.shiftLeft_eq,Nat.reduceMod]
    omega

section Card
variable {D : Board σ} {byteAddressed : Bool} {size latency : ℕ} {takes : σ → ℕ → Sector → Bool}
  {idle : σ → (ℕ → Sector) → Prop} {fuel : ℕ} {k : SdCard}

/-- The driver for SD cards does what a device does that drops the blocks the card rejects. -/
theorem onCard_follows {accepts : ℕ → Bool}
    (hcard : SpiCard D byteAddressed size latency (fun _ b _ => accepts b) idle) (hfuel : latency < fuel)
    (hk : k.cardType = .sc ↔ byteAddressed = true) {E : Env} (hE : E.NoFault) (o : Origin) {request : BlockRequest}
    (hb : byteAddressed = true → request.block.toNat < 2^23) :
    Follows (Carded k size idle) (request.onCard D fuel) (request.onDropping accepts E o) := by
  intro s d reply d' h hrun
  obtain ⟨rfl,rfl,hidle⟩ := h
  cases request with
  | read b =>
    have haddress : addressed byteAddressed (s.card.address b) = b.toNat := addressed_address hk hb
    rw [onDropping,read_device hE o b d] at hrun
    simp only [Except.ok.injEq,Prod.mk.injEq] at hrun
    obtain ⟨rfl,rfl⟩ := hrun
    by_cases hin : b.toNat < d.size
    · apply (BlockSd.blockRead_idle hcard hidle hfuel (by rwa [haddress]) .zero).bind
      rintro r t ⟨rfl,hcardt,ht⟩
      refine returns_pure ⟨?_,hcardt,rfl,ht⟩
      rw [if_pos rfl,if_pos hin,haddress]
    · apply (BlockSd.blockRead_beyond hcard hidle (by rw [haddress]; omega) .zero).bind
      rintro r t ⟨hr,-,hcardt,ht⟩
      refine returns_pure ⟨?_,hcardt,rfl,ht⟩
      rw [if_neg hr,if_neg hin]
  | write b data =>
    have haddress : addressed byteAddressed (s.card.address b) = b.toNat := addressed_address hk hb
    obtain ⟨e,he,hsize,hblocks⟩ := write_device hE o b data d
    -- Where the card takes the block or not, the result is the same.
    have hreply : reply = .done (decide (d.size ≤ b.toNat)) ∧ d'.size = d.size ∧ d'.blocks =
        if b.toNat < d.size then (if accepts b.toNat then Function.update d.blocks b.toNat data else d.blocks)
          else d.blocks := by
      rw [onDropping] at hrun
      by_cases htakes : accepts b.toNat = true
      · rw [if_pos htakes,he] at hrun
        simp only [Except.ok.injEq,Prod.mk.injEq] at hrun
        obtain ⟨rfl,rfl⟩ := hrun
        rw [if_pos htakes]
        exact ⟨rfl,hsize,hblocks⟩
      · rw [if_neg htakes,bind_of_ok (get_apply d)] at hrun
        simp only [pure_apply,Except.ok.injEq,Prod.mk.injEq] at hrun
        obtain ⟨rfl,rfl⟩ := hrun
        rw [if_neg htakes,ite_self]
        exact ⟨rfl,rfl,rfl⟩
    obtain ⟨rfl,hsize',hblocks'⟩ := hreply
    by_cases hin : b.toNat < d.size
    · apply (BlockSd.blockWrite_idle hcard hidle hfuel (by rwa [haddress]) data).bind
      rintro r t ⟨rfl,hcardt,ht⟩
      rw [haddress] at ht
      refine returns_pure ⟨?_,hcardt,hsize',?_⟩
      · rw [decide_eq_false (by omega)]
        rfl
      · rwa [hblocks',if_pos hin]
    · apply (BlockSd.blockWrite_beyond hcard hidle (by rw [haddress]; omega) data).bind
      rintro r t ⟨hr,hcardt,ht⟩
      refine returns_pure ⟨?_,hcardt,hsize',?_⟩
      · rw [decide_eq_true (by omega)]
        simpa using hr
      · rwa [hblocks',if_neg hin]

end Card

/-! ### Runs -/

/-- Over any requests for which its bound is sane, the driver for image files answers as the device does, and
its file holds what the device holds. -/
theorem imageRequests_refine {E : Env} (hE : E.NoFault) (o : Origin) {n : ℕ} {image : PcImage} {d : Device}
    (h : Imaged n image d) {requests : List BlockRequest} (hsane : ∀ r ∈ requests, PcImage.Sane n r.block) :
    ∃ replies d', serve (onDevice E o) requests d = .ok (replies,d') ∧
      (serve onImage requests).Returns image fun rs image' => rs = replies ∧ Imaged n image' d' := by
  obtain ⟨replies,d',hrun,-⟩ := serve_returns (onDevice_returns hE o) requests d
  refine ⟨replies,d',hrun,?_⟩
  apply follows_serve (R := Imaged n) _ image d replies d' h hrun
  intro r hr
  exact onImage_follows hE o (hsane r hr)

/-- A block of a file is written and read back, and the block behind the file is refused. -/
theorem imageRequests_refine_two : ∃ replies d',
    serve (onDevice (Env.calm (fun _ => 90) 8) .fatFlush) [write 1 (.ofBytes [7]),read 1,read 2]
      ⟨fun _ => .zero,2,0,[]⟩ = .ok (replies,d') ∧
    (serve onImage [write 1 (.ofBytes [7]),read 1,read 2]).Returns ⟨1024,by decide,fun _ => 0⟩
      fun rs image' => rs = replies ∧ Imaged 1024 image' d' := by
  apply imageRequests_refine ⟨fun _ => rfl,fun _ => rfl,fun _ => rfl⟩
  · exact ⟨rfl,rfl,fun _ _ => rfl⟩
  · decide

/-- Over any requests for blocks that the command's argument can name, the driver for SD cards answers as a
device does that drops the blocks the card rejects and reports them as written. -/
theorem cardRequests_refine {σ : Type} {D : Board σ} {byteAddressed : Bool} {size latency : ℕ}
    {accepts : ℕ → Bool} {idle : σ → (ℕ → Sector) → Prop} {fuel : ℕ} {k : SdCard}
    (hcard : SpiCard D byteAddressed size latency (fun _ b _ => accepts b) idle) (hfuel : latency < fuel)
    (hk : k.cardType = .sc ↔ byteAddressed = true) {E : Env} (hE : E.NoFault) (o : Origin) {s : SdState σ}
    {d : Device} (h : Carded k size idle s d) {requests : List BlockRequest}
    (hb : byteAddressed = true → ∀ r ∈ requests, r.block.toNat < 2^23) :
    ∃ replies d', serve (onDropping accepts E o) requests d = .ok (replies,d') ∧
      (serve (onCard D fuel) requests).Returns s fun rs s' => rs = replies ∧ Carded k size idle s' d' := by
  obtain ⟨replies,d',hrun,-⟩ := serve_returns (onDropping_returns hE o accepts) requests d
  refine ⟨replies,d',hrun,?_⟩
  apply follows_serve (R := Carded k size idle) _ s d replies d' h hrun
  intro r hr
  exact onCard_follows hcard hfuel hk hE o fun hbyte => hb hbyte r hr

/-- A card of four blocks that rejects block 3 and begins to send after five bytes. -/
theorem cardRequests_refine_four : ∃ replies d',
    serve (onDropping (· != 3) (Env.calm (fun _ => 90) 8) .fatFlush)
      [write 3 (.ofBytes [7]),read 3,write 2 (.ofBytes [8]),read 2,read 4] ⟨fun _ => .zero,4,0,[]⟩ =
        .ok (replies,d') ∧
    (serve (onCard (CardState.board true 4 5 (· != 3)) 6)
      [write 3 (.ofBytes [7]),read 3,write 2 (.ofBytes [8]),read 2,read 4]).Returns
        ⟨⟨.sc,false,4,0⟩,.ready fun _ => .zero⟩ fun rs s' => rs = replies ∧
          Carded ⟨.sc,false,4,0⟩ 4 (fun u B => u = CardState.ready B) s' d' := by
  apply cardRequests_refine (CardState.obeys true 4 5 (· != 3)) (by decide)
  · decide
  · exact ⟨fun _ => rfl,fun _ => rfl,fun _ => rfl⟩
  · exact ⟨rfl,rfl,rfl⟩
  · decide

end BlockRequest

end Gristle
