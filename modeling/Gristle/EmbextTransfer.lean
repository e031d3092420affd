import Gristle.Embext
import Gristle.Transfer

/-! Block transfers of the ext2 driver in surroundings without faults, for one open file of a
mounted volume. -/
namespace Gristle
open Prog

namespace Ext2

/-- The volume is mounted with context `c`, whatever the system buffer holds. The medium is `B` and
has `N` blocks, and `fe` is the file `f`. -/
structure At (c : Ext2Context) (N fe : ℕ) (B : ℕ → Sector) (f : FileEnt) (s : Ext2State) : Prop where
  context : ∃ b, s.context = some { c with sysbuf := b }
  size : s.dev.size = N
  blocks : s.dev.blocks = B
  file : s.files fe = some f

/-- The volume is mounted with context `c`; no file is named. -/
structure Mounted (c : Ext2Context) (N : ℕ) (B : ℕ → Sector) (s : Ext2State) : Prop where
  context : ∃ b, s.context = some { c with sysbuf := b }
  size : s.dev.size = N
  blocks : s.dev.blocks = B

theorem At.mounted {c : Ext2Context} {N fe : ℕ} {B : ℕ → Sector} {f : FileEnt} {s : Ext2State}
    (h : At c N fe B f s) : Mounted c N B s := ⟨h.context,h.size,h.blocks⟩

/-- Storing a file entry. -/
theorem Mounted.store {c : Ext2Context} {N : ℕ} {B : ℕ → Sector} {s : Ext2State} (h : Mounted c N B s)
    (fe : ℕ) (f : FileEnt) : (storeFile fe (some f)).Returns s fun _ t => At c N fe B f t :=
  returns_modify ⟨h.context,h.size,h.blocks,Function.update_self _ _ _⟩

section Basic
variable {α : Type} {c : Ext2Context} {N fe : ℕ} {B : ℕ → Sector} {f : FileEnt} {s : Ext2State}

theorem returns_file {x : FileEnt → Ext2M α} {Q : α → Ext2State → Prop} (h : At c N fe B f s)
    (hx : (x f).Returns s Q) : (Ext2.file fe >>= x).Returns s Q :=
  returns_bind_of_ok (by rw [Ext2.file,h.file]) hx

theorem returns_context {x : Ext2Context → Ext2M α} {Q : α → Ext2State → Prop} (h : s.context = some c)
    (hx : (x c).Returns s Q) : (Ext2.context >>= x).Returns s Q :=
  returns_bind_of_ok (by rw [Ext2.context,h]) hx

theorem returns_divisor {x : ℕ → Ext2M α} {Q : α → Ext2State → Prop} {n : ℕ} (hn : n ≠ 0)
    (hx : (x n).Returns s Q) : (divisor n >>= x).Returns s Q :=
  returns_bind_of_ok (by rw [divisor,if_neg hn]; rfl) hx

theorem returns_shl32 {x : ℕ → Ext2M α} {Q : α → Ext2State → Prop} {m k : ℕ} (hk : k < 32)
    (hx : (x (u32 (m * 2^k))).Returns s Q) : (shl32 m k >>= x).Returns s Q :=
  returns_bind_of_ok (by rw [shl32,if_pos hk]; rfl) hx

theorem returns_oneShl {x : ℕ → Ext2M α} {Q : α → Ext2State → Prop} {k : ℕ} (hk : k < 31)
    (hx : (x (2^k)).Returns s Q) : (oneShl k >>= x).Returns s Q :=
  returns_bind_of_ok (by rw [oneShl,if_pos hk]; rfl) hx

theorem updateFile_at (h : At c N fe B f s) (u : FileEnt → FileEnt) :
    (updateFile fe u).Returns s fun _ t => At c N fe B (u f) t := by
  refine returns_modify ⟨h.context,h.size,h.blocks,?_⟩
  change Function.update s.files fe ((s.files fe).map u) fe = some (u f)
  rw [Function.update_self,h.file,Option.map_some]

theorem setSysbuf_at (h : At c N fe B f s) (b : Sector) : (setSysbuf b).Returns s fun _ t =>
    At c N fe B f t ∧ t.context = some { c with sysbuf := b } := by
  obtain ⟨b₀,hb₀⟩ := h.context
  have hc : (s.context.map fun c => { c with sysbuf := b }) = some { c with sysbuf := b } := by
    rw [hb₀,Option.map_some]
  exact returns_modify ⟨⟨⟨b,hc⟩,h.size,h.blocks,h.file⟩,hc⟩

theorem onDevice_at {x : Prog Device α} {Q : α → Device → Prop} (h : At c N fe B f s)
    (hx : x.Returns s.dev Q) : (onDevice x).Returns s fun a t =>
      Q a t.dev ∧ (t.dev.size = N → At c N fe t.dev.blocks f t) ∧ t.context = s.context := by
  obtain ⟨a,d,hd,hq⟩ := hx
  refine ⟨a,{ s with dev := d },?_,hq,fun hN => ⟨h.context,hN,rfl,h.file⟩,rfl⟩
  rw [onDevice,zoom,hd]

theorem time_at (E : Env) (h : At c N fe B f s) : (time E).Returns s fun _ t => At c N fe B f t := by
  have hx : (Device.time E).Returns s.dev fun _ d => d.size = N ∧ d.blocks = B :=
    ⟨_,_,rfl,h.size,h.blocks⟩
  refine (onDevice_at h hx).mono fun _ t ht => ?_
  obtain ⟨⟨hN,hB⟩,hat,-⟩ := ht
  rw [← hB]
  exact hat hN

/-- A block that may lie outside the device: the read returns, with a nonzero result or not. -/
theorem readBuffer_total (E : Env) (h : At c N fe B f s) (b : ℕ) : (readBuffer E fe b).Returns s fun _ t =>
    ∃ d, At c N fe B { f with buffer := d } t := by
  have hx : (Device.blockRead E b).Returns s.dev fun _ d => d.size = N ∧ d.blocks = B :=
    ⟨_,_,rfl,h.size,h.blocks⟩
  refine (onDevice_at h hx).bind fun o t ht => ?_
  obtain ⟨⟨hN,hB⟩,hat,-⟩ := ht
  have hat : At c N fe B f t := by
    rw [← hB]
    exact hat hN
  cases o with
  | none => exact returns_pure ⟨f.buffer,hat⟩
  | some d => exact (updateFile_at hat _).bind fun _ u hu => returns_pure ⟨d,hu⟩

end Basic

section NoFault
variable {E : Env} (hE : E.NoFault) {c : Ext2Context} {N fe : ℕ} {B : ℕ → Sector} {f : FileEnt}
  {s : Ext2State} (h : At c N fe B f s) {b : ℕ} (hb : b < N)
include hE h hb

theorem blockRead_at : (onDevice (Device.blockRead E b)).Returns s fun o t =>
    o = some (B b) ∧ At c N fe B f t ∧ t.context = s.context := by
  have hx : (Device.blockRead E b).Returns s.dev fun o d =>
      o = some (B b) ∧ d.size = N ∧ d.blocks = B := by
    have hread := blockRead_returns hE (show b < s.dev.size from h.size ▸ hb)
    obtain ⟨o,d,hd,ho,hblocks⟩ := hread
    exact ⟨o,d,hd,by rw [ho,h.blocks],by rw [← h.size]; cases hd; rfl,hblocks.trans h.blocks⟩
  refine (onDevice_at h hx).mono fun o t ht => ?_
  obtain ⟨⟨ho,hN,hB⟩,hat,hcontext⟩ := ht
  refine ⟨ho,?_,hcontext⟩
  rw [← hB]
  exact hat hN

theorem readSysbuf_at : (readSysbuf E b).Returns s fun _ t =>
    At c N fe B f t ∧ t.context = some { c with sysbuf := B b } := by
  refine (blockRead_at hE h hb).bind fun o t ht => ?_
  obtain ⟨rfl,hat,-⟩ := ht
  exact setSysbuf_at hat (B b)

theorem readBuffer_at : (readBuffer E fe b).Returns s fun failed t =>
    failed = false ∧ At c N fe B { f with buffer := B b } t := by
  refine (blockRead_at hE h hb).bind fun o t ht => ?_
  obtain ⟨rfl,hat,-⟩ := ht
  exact (updateFile_at hat _).bind fun _ u hu => returns_pure ⟨rfl,hu⟩

theorem writeBlock_at (o : Origin) (data : Sector) : (writeBlock E o b data).Returns s fun failed t =>
    failed = false ∧ At c N fe (Function.update B b data) f t ∧ t.context = s.context := by
  have hx : (Device.blockWrite E o b data).Returns s.dev fun failed d =>
      failed = false ∧ d.size = N ∧ d.blocks = Function.update B b data := by
    rw [Returns,Device.blockWrite,if_neg (by simp [hE.write,h.size,hb])]
    exact ⟨_,_,rfl,rfl,h.size,by rw [← h.blocks]⟩
  refine (onDevice_at h hx).mono fun failed t ht => ?_
  obtain ⟨⟨hfailed,hN,hB⟩,hat,hcontext⟩ := ht
  refine ⟨hfailed,?_,hcontext⟩
  rw [← hB]
  exact hat hN

end NoFault

end Ext2

end Gristle
