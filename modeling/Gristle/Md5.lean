import Gristle.Lib.Blocks
import Gristle.Lib.Overwrite

/-! The MD5 hash of the test programs and of the image driver: the streaming functions, and the
digest of the padded message that they compute. -/
namespace Gristle.Md5

/-- `uint8_t buffer[64]` -/
abbrev Buffer := List.Vector UInt8 64

/-- The four words of `h`. -/
@[ext] structure Words where
  a : UInt32
  b : UInt32
  c : UInt32
  d : UInt32
  deriving DecidableEq

def leBytes (n v : ℕ) : List UInt8 := (List.range n).map fun i => UInt8.ofNat (v / 256^i)

theorem length_leBytes (n v : ℕ) : (leBytes n v).length = n := by
  rw [leBytes,List.length_map,List.length_range]

/-- The words as `memcpy` gives them. -/
def Words.bytes (h : Words) : List.Vector UInt8 16 :=
  ⟨leBytes 4 h.a.toNat ++ leBytes 4 h.b.toNat ++ leBytes 4 h.c.toNat ++ leBytes 4 h.d.toNat,by
    simp only [List.length_append,length_leBytes]⟩

/-- `struct md_context` -/
structure MdContext where
  h : Words
  digest : List.Vector UInt8 16
  count : UInt64
  buffer : Buffer

/-- Bytes in `struct md_context`. -/
abbrev mdContextSize : ℕ := 104

/-- An object in memory beside the context it is hashed into: not all `uint64_t` sizes occur. -/
structure Chunk where
  bytes : List UInt8
  fits : bytes.length + mdContextSize ≤ 2^64

namespace Buffer

/-- `memcpy(&buffer[pos], src, src.length)`; the buffer is large enough for it. -/
def copy (buffer : Buffer) (pos : ℕ) (src : List UInt8) (h : pos + src.length ≤ 64) : Buffer :=
  ⟨overwrite buffer.toList pos src,by
    have hlen := buffer.toList_length
    rw [length_overwrite (by omega)]
    omega⟩

def zero : Buffer := List.Vector.replicate 64 0

/-- The `uint32_t` that `memcpy` takes from `buffer[4*g]`. -/
def word (buffer : Buffer) (g : ℕ) : UInt32 :=
  let byte i := (buffer.toList.getD (g*4+i) 0).toNat
  UInt32.ofNat (byte 0 + byte 1 * 2^8 + byte 2 * 2^16 + byte 3 * 2^24)

end Buffer

/-! ### The transformation of one block -/

def leftrotate (x c : UInt32) : UInt32 := x <<< c ||| x >>> (32-c)

/-- The shift amounts of the rounds. -/
def r : Array UInt32 := #[
  7, 12, 17, 22, 7, 12, 17, 22, 7, 12, 17, 22, 7, 12, 17, 22,
  5, 9, 14, 20, 5, 9, 14, 20, 5, 9, 14, 20, 5, 9, 14, 20,
  4, 11, 16, 23, 4, 11, 16, 23, 4, 11, 16, 23, 4, 11, 16, 23,
  6, 10, 15, 21, 6, 10, 15, 21, 6, 10, 15, 21, 6, 10, 15, 21]

def k : Array UInt32 := #[
  0xd76aa478, 0xe8c7b756, 0x242070db, 0xc1bdceee, 0xf57c0faf, 0x4787c62a, 0xa8304613, 0xfd469501,
  0x698098d8, 0x8b44f7af, 0xffff5bb1, 0x895cd7be, 0x6b901122, 0xfd987193, 0xa679438e, 0x49b40821,
  0xf61e2562, 0xc040b340, 0x265e5a51, 0xe9b6c7aa, 0xd62f105d, 0x02441453, 0xd8a1e681, 0xe7d3fbc8,
  0x21e1cde6, 0xc33707d6, 0xf4d50d87, 0x455a14ed, 0xa9e3e905, 0xfcefa3f8, 0x676f02d9, 0x8d2a4c8a,
  0xfffa3942, 0x8771f681, 0x6d9d6122, 0xfde5380c, 0xa4beea44, 0x4bdecfa9, 0xf6bb4b60, 0xbebfbc70,
  0x289b7ec6, 0xeaa127fa, 0xd4ef3085, 0x04881d05, 0xd9d4d039, 0xe6db99e5, 0x1fa27cf8, 0xc4ac5665,
  0xf4292244, 0x432aff97, 0xab9423a7, 0xfc93a039, 0x655b59c3, 0x8f0ccc92, 0xffeff47d, 0x85845dd1,
  0x6fa87e4f, 0xfe2ce6e0, 0xa3014314, 0x4e0811a1, 0xf7537e82, 0xbd3af235, 0x2ad7d2bb, 0xeb86d391]

/-- One pass of a loop of `md5_transform`, with the `f` and `g` of that loop. -/
def round (f : UInt32 → UInt32 → UInt32 → UInt32) (g : ℕ → ℕ) (buffer : Buffer) (q : Words) (j : ℕ) :
    Words :=
  let x := q.a + f q.b q.c q.d + k.getD j 0 + buffer.word (g j)
  { a := q.d, b := q.b + leftrotate x (r.getD j 0), c := q.b, d := q.c }

/-- The words after `md5_transform`. -/
@[irreducible] def compress (h : Words) (buffer : Buffer) : Words :=
  let q := (List.range' 0 16).foldl (round (fun b c d => ((c ^^^ d) &&& b) ^^^ d) (fun j => j) buffer) h
  let q := (List.range' 16 16).foldl
    (round (fun b c d => ((b ^^^ c) &&& d) ^^^ c) (fun j => (5*j+1) % 16) buffer) q
  let q := (List.range' 32 16).foldl (round (fun b c d => b ^^^ c ^^^ d) (fun j => (3*j+5) % 16) buffer) q
  let q := (List.range' 48 16).foldl (round (fun b c d => c ^^^ (b ||| ~~~d)) (fun j => (7*j) % 16) buffer) q
  { a := h.a + q.a, b := h.b + q.b, c := h.c + q.c, d := h.d + q.d }

def md5Transform (context : MdContext) : MdContext :=
  { context with h := compress context.h context.buffer }

@[simp] theorem md5Transform_h (context : MdContext) :
    (md5Transform context).h = compress context.h context.buffer := by rw [md5Transform]
@[simp] theorem md5Transform_count (context : MdContext) :
    (md5Transform context).count = context.count := by rw [md5Transform]

/-! ### The streaming functions -/

/-- The words that `md5_start` sets. -/
def initial : Words := { a := 0x67452301, b := 0xefcdab89, c := 0x98badcfe, d := 0x10325476 }

def md5Start (context : MdContext) : MdContext :=
  { context with h := initial, count := 0, buffer := .zero }

/-- `context->count & 63` -/
def MdContext.buflen (context : MdContext) : ℕ := (context.count &&& 63).toNat

theorem MdContext.buflen_eq (context : MdContext) : context.buflen = context.count.toNat % 64 := by
  rw [buflen,UInt64.toNat_and]
  exact Nat.and_two_pow_sub_one_eq_mod _ 6

theorem MdContext.buflen_lt (context : MdContext) : context.buflen < 64 := by
  rw [buflen_eq]
  exact Nat.mod_lt _ (by decide)

/-- `(buflen + chunk_size) < 64`, in `uint64_t`. -/
def fitsIn (buflen : ℕ) (chunk : Chunk) : Bool :=
  UInt64.ofNat buflen + UInt64.ofNat chunk.bytes.length < 64

/-- No chunk is so long that the sum wraps. -/
theorem fitsIn_iff {buflen : ℕ} (h : buflen < 64) (chunk : Chunk) :
    fitsIn buflen chunk ↔ buflen + chunk.bytes.length < 64 := by
  have hfits := chunk.fits
  rw [fitsIn,decide_eq_true_iff,UInt64.lt_iff_toNat_lt,← UInt64.ofNat_add,UInt64.toNat_ofNat']
  simp only [mdContextSize] at hfits
  rw [Nat.mod_eq_of_lt (by omega)]
  rfl

/-- `context->count += chunk_size` -/
def MdContext.counted (context : MdContext) (chunk : Chunk) : MdContext :=
  { context with count := context.count + UInt64.ofNat chunk.bytes.length }

/-- `memcpy(&context->buffer[pos], src, src.length)` -/
def MdContext.put (context : MdContext) (pos : ℕ) (src : List UInt8) (h : pos + src.length ≤ 64) :
    MdContext :=
  { context with buffer := context.buffer.copy pos src h }

@[simp] theorem MdContext.put_h (context : MdContext) (pos : ℕ) (src : List UInt8)
    (h : pos + src.length ≤ 64) : (context.put pos src h).h = context.h := rfl
@[simp] theorem MdContext.put_count (context : MdContext) (pos : ℕ) (src : List UInt8)
    (h : pos + src.length ≤ 64) : (context.put pos src h).count = context.count := rfl
@[simp] theorem MdContext.put_buffer (context : MdContext) (pos : ℕ) (src : List UInt8)
    (h : pos + src.length ≤ 64) : (context.put pos src h).buffer = context.buffer.copy pos src h := rfl

/-- A block goes into the buffer and is transformed. -/
def absorb (context : MdContext) (block : Buffer) : MdContext :=
  md5Transform { context with buffer := block }

@[simp] theorem absorb_h (context : MdContext) (block : Buffer) :
    (absorb context block).h = compress context.h block := by rw [absorb,md5Transform_h]
@[simp] theorem absorb_count (context : MdContext) (block : Buffer) :
    (absorb context block).count = context.count := by rw [absorb,md5Transform_count]

def md5Update (context : MdContext) (chunk : Chunk) : MdContext :=
  let buflen := context.buflen
  if h : fitsIn buflen chunk then
    (context.counted chunk).put buflen chunk.bytes ((fitsIn_iff context.buflen_lt chunk).1 h).le
  else
    let filled := md5Transform ((context.counted chunk).put buflen (chunk.bytes.take (64-buflen)) (by
      have hlt := context.buflen_lt
      rw [List.length_take]
      omega))
    let looped := foldBlocks absorb filled (chunk.bytes.drop (64-buflen))
    looped.1.put 0 looped.2 (by
      rw [Nat.zero_add]
      exact (length_foldBlocks_lt absorb (by decide) _ _).le)

/-- The eight bytes of `bitcount`. -/
def bitcount (count : UInt64) : List UInt8 := leBytes 8 (count * 8).toNat

def md5Finish (context : MdContext) : MdContext :=
  let buflen := context.buflen
  let marked := context.put buflen [0x80] context.buflen_lt
  let cleared := marked.put (buflen+1) (List.replicate (64-(buflen+1)) 0) (by
    have hlt := context.buflen_lt
    rw [List.length_replicate]
    omega)
  let emptied := if buflen + 1 > 56 then { md5Transform cleared with buffer := .zero } else cleared
  let last := md5Transform (emptied.put 56 (bitcount emptied.count) (by rw [bitcount,length_leBytes]))
  { last with digest := last.h.bytes }

/-- `BUFSIZE` -/
abbrev bufsize : ℕ := 1024 * 1024

/-- The buffer of `md5_file` and `md5_memory`, filled. -/
def fullBuffer (bytes : List.Vector UInt8 bufsize) : Chunk := ⟨bytes.toList,by
  rw [bytes.toList_length]
  decide⟩

/-- The hash of a readable file: `fread` gives `BUFSIZE` bytes until fewer are left. A file that does
not open has no digest. -/
def md5File (context : MdContext) (file : Option (List UInt8)) : Option (List.Vector UInt8 16) :=
  file.map fun content =>
    let looped := foldBlocks (fun context piece => md5Update context (fullBuffer piece))
      (md5Start context) content
    (md5Finish (md5Update looped.1 ⟨looped.2,by
      have hlt : looped.2.length < bufsize := length_foldBlocks_lt _ (by decide) _ _
      simp only [bufsize,mdContextSize] at hlt ⊢
      omega⟩)).digest

/-- The loop of `md5_memory` and the update with what it leaves. -/
def md5MemoryLoop (context : MdContext) (mem : List UInt8) : MdContext :=
  if h : bufsize < mem.length then
    md5MemoryLoop (md5Update context (fullBuffer (leadingBlock mem h.le))) (mem.drop bufsize)
  else
    md5Update context ⟨mem,by
      simp only [bufsize,mdContextSize] at h ⊢
      omega⟩
termination_by mem.length
decreasing_by
  rw [List.length_drop]
  simp only [bufsize] at h ⊢
  omega

def md5Memory (context : MdContext) (mem : List UInt8) : List.Vector UInt8 16 :=
  (md5Finish (md5MemoryLoop (md5Start context) mem)).digest

/-! ### The padded message -/

/-- The zeros between the marker and the length. -/
def zeros (n : ℕ) : ℕ := (119 - n % 64) % 64

/-- The message, the byte 0x80, zeros up to eight bytes before the end of a block and the number of
bits modulo 2^64. -/
def padded (m : List UInt8) : List UInt8 :=
  m ++ 0x80 :: (List.replicate (zeros m.length) 0 ++ leBytes 8 (m.length * 8 % 2^64))

/-- The digest of a message: `md5_transform` folded over the blocks of the padded message. -/
def md5 (m : List UInt8) : List.Vector UInt8 16 :=
  (foldBlocks compress initial (padded m)).1.bytes

/-- The padding fills the last block. -/
theorem length_padded (m : List UInt8) : (padded m).length % 64 = 0 := by
  rw [padded,List.length_append,List.length_cons,List.length_append,List.length_replicate,
    length_leBytes,zeros]
  omega

/-- No byte of the padded message is left out of the blocks. -/
theorem foldBlocks_padded (m : List UInt8) : (foldBlocks compress initial (padded m)).2 = [] := by
  apply List.eq_nil_of_length_eq_zero
  rw [length_foldBlocks compress (by decide),length_padded]

/-! ### What the context holds -/

/-- The context after the bytes of `m`: the full blocks are in `h`, the rest lies in the buffer. -/
structure Absorbed (m : List UInt8) (context : MdContext) : Prop where
  h : context.h = (foldBlocks compress initial m).1
  count : context.count = UInt64.ofNat m.length
  buffer : context.buffer.toList.take context.buflen = (foldBlocks compress initial m).2

theorem md5Start_absorbed (context : MdContext) : Absorbed [] (md5Start context) where
  h := by rw [foldBlocks_short compress initial (by decide)]; rfl
  count := rfl
  buffer := by
    rw [foldBlocks_short compress initial (by decide),MdContext.buflen_eq]
    rfl

namespace Absorbed
variable {m : List UInt8} {context : MdContext}

theorem buflen (A : Absorbed m context) : context.buflen = m.length % 64 := by
  rw [MdContext.buflen_eq,A.count,UInt64.toNat_ofNat']
  omega

/-- Folding over what follows the message, from the context. -/
theorem fold_append (A : Absorbed m context) (l : List UInt8) : foldBlocks compress initial (m ++ l) =
    foldBlocks compress context.h (context.buffer.toList.take context.buflen ++ l) := by
  rw [foldBlocks_append compress (by decide),← A.h,← A.buffer]

end Absorbed

/-- Copying behind the first bytes keeps these. -/
theorem Buffer.take_copy (buffer : Buffer) {pos : ℕ} {src : List UInt8} (h : pos + src.length ≤ 64) :
    (buffer.copy pos src h).toList.take (pos + src.length) = buffer.toList.take pos ++ src := by
  have hlen : buffer.toList.length = 64 := buffer.2
  simp only [copy,overwrite]
  apply List.take_left'
  rw [List.length_append,List.length_take]
  omega

/-- A copy that reaches the end of the buffer leaves no old bytes behind it. -/
theorem Buffer.copy_full (buffer : Buffer) {pos : ℕ} {src : List UInt8} (h : pos + src.length ≤ 64)
    (hend : pos + src.length = 64) : (buffer.copy pos src h).toList = buffer.toList.take pos ++ src := by
  rw [← buffer.take_copy h,List.take_of_length_le]
  rw [hend]
  exact (buffer.copy pos src h).2.le

/-- The loop of `md5_update` folds `md5_transform` over the blocks and keeps the count. -/
theorem foldBlocks_absorb (context : MdContext) (l : List UInt8) :
    (foldBlocks absorb context l).1.count = context.count ∧
      foldBlocks compress context.h l =
        ((foldBlocks absorb context l).1.h,(foldBlocks absorb context l).2) := by
  constructor
  · apply foldBlocks_induction absorb (P := fun c _ => c.count = context.count)
    · intro c b l' hc
      rw [absorb_count,hc]
    · rfl
  · exact foldBlocks_map absorb (u := MdContext.h) absorb_h context l

/-- A chunk that completes no block stays in the buffer. -/
theorem md5Update_fits {context : MdContext} {chunk : Chunk}
    (h : context.buflen + chunk.bytes.length < 64) :
    md5Update context chunk = (context.counted chunk).put context.buflen chunk.bytes h.le := by
  rw [md5Update,dif_pos ((fitsIn_iff context.buflen_lt chunk).2 h)]

/-- A longer chunk completes the block `b`; its further blocks are folded, the rest is kept. -/
theorem md5Update_fills {context : MdContext} {chunk : Chunk} {b : Buffer}
    (h : 64 ≤ context.buflen + chunk.bytes.length)
    (hb : b.toList = context.buffer.toList.take context.buflen ++ chunk.bytes.take (64-context.buflen)) :
    ∃ hlen, md5Update context chunk =
      (foldBlocks absorb (absorb (context.counted chunk) b) (chunk.bytes.drop (64-context.buflen))).1.put 0
        (foldBlocks absorb (absorb (context.counted chunk) b)
          (chunk.bytes.drop (64-context.buflen))).2 hlen := by
  have hlt := context.buflen_lt
  have hlen : context.buflen + (chunk.bytes.take (64-context.buflen)).length = 64 := by
    rw [List.length_take]
    omega
  have hfill : md5Transform ((context.counted chunk).put context.buflen
      (chunk.bytes.take (64-context.buflen)) hlen.le) = absorb (context.counted chunk) b := by
    rw [absorb,MdContext.put]
    congr 2
    apply List.Vector.eq
    rw [hb]
    exact Buffer.copy_full _ hlen.le hlen
  rw [← hfill,md5Update,dif_neg ((fitsIn_iff hlt chunk).not.2 (by omega))]
  exact ⟨_,rfl⟩

theorem md5Update_absorbed {m : List UInt8} {context : MdContext} (A : Absorbed m context)
    (chunk : Chunk) : Absorbed (m ++ chunk.bytes) (md5Update context chunk) := by
  have hlt := context.buflen_lt
  have hcount : (context.counted chunk).count = UInt64.ofNat (m ++ chunk.bytes).length := by
    rw [MdContext.counted,A.count,List.length_append,UInt64.ofNat_add]
  have hbuflen {c : MdContext} (hc : c.count = UInt64.ofNat (m ++ chunk.bytes).length) :
      c.buflen = (context.buflen + chunk.bytes.length) % 64 := by
    rw [MdContext.buflen_eq,hc,UInt64.toNat_ofNat',List.length_append,A.buflen]
    omega
  have hfold := A.fold_append chunk.bytes
  by_cases hshort : context.buflen + chunk.bytes.length < 64
  · have hlen : (context.buffer.toList.take context.buflen ++ chunk.bytes).length < 64 := by
      rw [List.length_append,List.length_take]
      omega
    rw [foldBlocks_short compress _ hlen] at hfold
    have hput : ((context.counted chunk).put context.buflen chunk.bytes hshort.le).count =
        UInt64.ofNat (m ++ chunk.bytes).length := by rw [MdContext.put_count,hcount]
    rw [md5Update_fits hshort]
    constructor
    · rw [hfold,MdContext.put_h]
      rfl
    · exact hput
    · rw [hfold,hbuflen hput,Nat.mod_eq_of_lt hshort]
      exact context.buffer.take_copy hshort.le
  · have hlong : 64 ≤ context.buflen + chunk.bytes.length := by omega
    have htake : (chunk.bytes.take (64-context.buflen)).length = 64 - context.buflen := by
      rw [List.length_take]
      omega
    obtain ⟨b,hblock⟩ : ∃ b : Buffer, b.toList = context.buffer.toList.take context.buflen ++
        chunk.bytes.take (64-context.buflen) := ⟨_,Buffer.copy_full _ (by omega) (by omega)⟩
    obtain ⟨hlen,hupdate⟩ := md5Update_fills hlong hblock
    obtain ⟨hkept,hwords⟩ := foldBlocks_absorb (absorb (context.counted chunk) b)
      (chunk.bytes.drop (64-context.buflen))
    have hrest := length_foldBlocks absorb (by decide) (absorb (context.counted chunk) b)
      (chunk.bytes.drop (64-context.buflen))
    rw [absorb_h,show (context.counted chunk).h = context.h from rfl] at hwords
    rw [absorb_count,hcount] at hkept
    have hsplit : context.buffer.toList.take context.buflen ++ chunk.bytes =
        b.toList ++ chunk.bytes.drop (64-context.buflen) := by
      rw [hblock,List.append_assoc,List.take_append_drop]
    rw [hsplit,foldBlocks_block compress (by decide),hwords] at hfold
    generalize foldBlocks absorb (absorb (context.counted chunk) b)
      (chunk.bytes.drop (64-context.buflen)) = looped at *
    have hput : (looped.1.put 0 looped.2 hlen).count = UInt64.ofNat (m ++ chunk.bytes).length := by
      rw [MdContext.put_count,hkept]
    rw [hupdate]
    rw [List.length_drop] at hrest
    constructor
    · rw [hfold,MdContext.put_h]
    · exact hput
    · rw [hfold,hbuflen hput,
        show (context.buflen + chunk.bytes.length) % 64 = 0 + looped.2.length by omega]
      exact looped.1.buffer.take_copy hlen

/-- Any list of chunks leaves the context with the message they make up. -/
theorem updates_absorbed {m : List UInt8} {context : MdContext} (A : Absorbed m context)
    (chunks : List Chunk) :
    Absorbed (m ++ chunks.flatMap Chunk.bytes) (chunks.foldl md5Update context) := by
  induction chunks generalizing m context with
  | nil =>
    rw [List.flatMap_nil,List.append_nil]
    exact A
  | cons chunk chunks ih =>
    rw [List.flatMap_cons,← List.append_assoc]
    exact ih (md5Update_absorbed A chunk)

theorem Absorbed.bitcount_eq {m : List UInt8} {context : MdContext} (A : Absorbed m context) :
    bitcount context.count = leBytes 8 (m.length * 8 % 2^64) := by
  rw [bitcount,A.count,UInt64.toNat_mul,UInt64.toNat_ofNat']
  congr 1
  exact Nat.mod_mul_mod _ _ _

/-- The buffer with the marker behind the message and zeros up to its end. -/
theorem Buffer.cleared (buffer : Buffer) {pos : ℕ} (h : pos < 64)
    (hz : pos + 1 + (List.replicate (64-(pos+1)) (0 : UInt8)).length ≤ 64) :
    ((buffer.copy pos [0x80] h).copy (pos+1) (List.replicate (64-(pos+1)) 0) hz).toList =
      buffer.toList.take pos ++ 0x80 :: List.replicate (63-pos) 0 := by
  have hmarked : (buffer.copy pos [0x80] h).toList.take (pos + [(0x80 : UInt8)].length) =
      buffer.toList.take pos ++ [0x80] := buffer.take_copy h
  rw [List.length_singleton] at hmarked
  rw [Buffer.copy_full _ _ (by rw [List.length_replicate]; omega),hmarked,List.append_assoc,
    show 64 - (pos+1) = 63 - pos by omega]
  rfl

/-- `md5_finish` with the buffer that the marker and the zeros leave. -/
theorem md5Finish_eq {context : MdContext} {b : Buffer}
    (hb : b.toList = context.buffer.toList.take context.buflen ++
      0x80 :: List.replicate (63-context.buflen) 0) :
    ∃ hlen, (md5Finish context).digest = if 56 < context.buflen + 1 then
      (compress (compress context.h b) (Buffer.zero.copy 56 (bitcount context.count) hlen)).bytes
      else (compress context.h (b.copy 56 (bitcount context.count) hlen)).bytes := by
  have hlt := context.buflen_lt
  have hlen : 56 + (bitcount context.count).length ≤ 64 := by rw [bitcount,length_leBytes]
  have hz : context.buflen + 1 + (List.replicate (64-(context.buflen+1)) (0 : UInt8)).length ≤ 64 := by
    rw [List.length_replicate]
    omega
  have hcleared : (context.put context.buflen [0x80] hlt).put (context.buflen+1)
      (List.replicate (64-(context.buflen+1)) 0) hz = { context with buffer := b } := by
    rw [MdContext.put,MdContext.put]
    congr 1
    apply List.Vector.eq
    rw [hb]
    exact context.buffer.cleared hlt hz
  use hlen
  by_cases htwo : 56 < context.buflen + 1
  · simp only [md5Finish,hcleared,gt_iff_lt,if_pos htwo,md5Transform_h,md5Transform_count,MdContext.put_h,
      MdContext.put_buffer]
  · simp only [md5Finish,hcleared,gt_iff_lt,if_neg htwo,md5Transform_h,MdContext.put_h,
      MdContext.put_buffer]

/-- The last block or the last two blocks, made from what is in the buffer. -/
theorem md5Finish_digest {m : List UInt8} {context : MdContext} (A : Absorbed m context) :
    (md5Finish context).digest = md5 m := by
  have hlt := context.buflen_lt
  have hfold := A.fold_append (0x80 :: (List.replicate (zeros m.length) 0 ++
    leBytes 8 (m.length * 8 % 2^64)))
  have hlen := context.buffer.toList_length
  obtain ⟨b,hb⟩ : ∃ b : Buffer, b.toList = context.buffer.toList.take context.buflen ++
      0x80 :: List.replicate (63-context.buflen) 0 := by
    use ⟨context.buffer.toList.take context.buflen ++ 0x80 :: List.replicate (63-context.buflen) 0,by
      rw [List.length_append,List.length_cons,List.length_take,List.length_replicate]
      omega⟩
    rfl
  obtain ⟨hbits,hfinish⟩ := md5Finish_eq hb
  rw [md5,padded,hfold,← A.bitcount_eq,zeros,← A.buflen,hfinish]
  split
  next htwo =>
    -- No room for the length: the cleared buffer is a block, zeros and the length are the last one.
    have hsplit : context.buffer.toList.take context.buflen ++ 0x80 ::
        (List.replicate ((119-context.buflen) % 64) 0 ++ bitcount context.count) =
        b.toList ++ (Buffer.zero.copy 56 (bitcount context.count) hbits).toList := by
      rw [hb,Buffer.copy_full _ _ (by rw [bitcount,length_leBytes]),
        show (119-context.buflen) % 64 = (63-context.buflen) + 56 by omega,List.replicate_add]
      simp only [List.append_assoc,List.cons_append]
      rfl
    rw [hsplit,foldBlocks_block compress (by decide),foldBlocks_single compress (by decide)]
  next htwo =>
    have hsplit : context.buffer.toList.take context.buflen ++ 0x80 ::
        (List.replicate ((119-context.buflen) % 64) 0 ++ bitcount context.count) =
        (b.copy 56 (bitcount context.count) hbits).toList := by
      rw [Buffer.copy_full _ _ (by rw [bitcount,length_leBytes]),hb,
        show (119-context.buflen) % 64 = 55 - context.buflen by omega,
        show 63 - context.buflen = (55 - context.buflen) + 8 by omega,List.replicate_add]
      rw [show context.buffer.toList.take context.buflen ++ 0x80 ::
          (List.replicate (55-context.buflen) 0 ++ List.replicate 8 0) =
        (context.buffer.toList.take context.buflen ++ 0x80 :: List.replicate (55-context.buflen) 0) ++
          List.replicate 8 0 by simp only [List.append_assoc,List.cons_append],List.take_left']
      · simp only [List.append_assoc,List.cons_append]
      · rw [List.length_append,List.length_cons,List.length_take,List.length_replicate]
        omega
    rw [hsplit,foldBlocks_single compress (by decide)]

/-! ### Memory and files -/

theorem md5MemoryLoop_absorbed {m : List UInt8} {context : MdContext} (A : Absorbed m context)
    (mem : List UInt8) : Absorbed (m ++ mem) (md5MemoryLoop context mem) := by
  induction context, mem using md5MemoryLoop.induct generalizing m with
  | case1 context mem h ih =>
    rw [md5MemoryLoop,dif_pos h]
    have hstep := ih (md5Update_absorbed A (fullBuffer (leadingBlock mem h.le)))
    have hmem : (fullBuffer (leadingBlock mem h.le)).bytes ++ mem.drop bufsize = mem :=
      List.take_append_drop bufsize mem
    rwa [List.append_assoc,hmem] at hstep
  | case2 context mem h =>
    rw [md5MemoryLoop,dif_neg h]
    exact md5Update_absorbed A ⟨mem,_⟩

theorem md5Memory_eq (context : MdContext) (mem : List UInt8) : md5Memory context mem = md5 mem :=
  md5Finish_digest (md5MemoryLoop_absorbed (md5Start_absorbed context) mem)

theorem md5File_eq (context : MdContext) (content : List UInt8) :
    md5File context (some content) = some (md5 content) := by
  have hloop := foldBlocks_induction (fun context piece => md5Update context (fullBuffer piece))
    (P := fun c rest => ∃ m, m ++ rest = content ∧ Absorbed m c)
    (s := md5Start context) (l := content) (by
      rintro c piece rest ⟨m,hm,A⟩
      refine ⟨m ++ (fullBuffer piece).bytes,?_,md5Update_absorbed A _⟩
      rw [List.append_assoc]
      exact hm)
    ⟨[],rfl,md5Start_absorbed context⟩
  obtain ⟨m,hm,A⟩ := hloop
  rw [md5File,Option.map_some,md5Finish_digest (md5Update_absorbed A ⟨_,_⟩),hm]

/-- However the message is cut into chunks, and whether it lies in memory or in a file, the digest is
that of the padded message. -/
theorem md5_unchunked (context : MdContext) :
    (∀ chunks : List Chunk, (md5Finish (chunks.foldl md5Update (md5Start context))).digest =
      md5 (chunks.flatMap Chunk.bytes)) ∧
    ∀ m, md5Memory context m = md5 m ∧ md5File context (some m) = some (md5 m) := by
  constructor
  · intro chunks
    have h := updates_absorbed (md5Start_absorbed context) chunks
    rw [List.nil_append] at h
    exact md5Finish_digest h
  · intro m
    exact ⟨md5Memory_eq context m,md5File_eq context m⟩

/-- The test vector "abc". -/
example : (md5Finish (md5Update (md5Start ⟨initial,.replicate 16 0,0,.zero⟩)
    ⟨[0x61,0x62,0x63],by decide⟩)).digest.toList = [0x90,0x01,0x50,0x98,0x3c,0xd2,0x4f,0xb0,
      0xd6,0x96,0x3f,0x7d,0x28,0xe1,0x7f,0x72] := by decide +kernel

end Gristle.Md5
