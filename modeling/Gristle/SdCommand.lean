import Gristle.BlockSd

/-! What the driver for SD cards puts on the bus, and when its calls return, whatever answers at the other
end. -/
namespace Gristle
open Prog

variable {σ : Type}

/-- The other end of the bus has seen these bytes. -/
def SdState.sent (D : Board σ) (s : SdState σ) (bytes : List UInt8) : SdState σ :=
  { s with slave := D.after s.slave bytes }

@[simp] theorem SdState.sent_card (D : Board σ) (s : SdState σ) (bytes : List UInt8) :
    (s.sent D bytes).card = s.card := rfl

@[simp] theorem SdState.sent_slave (D : Board σ) (s : SdState σ) (bytes : List UInt8) :
    (s.sent D bytes).slave = D.after s.slave bytes := rfl

@[simp] theorem SdState.sent_sent (D : Board σ) (s : SdState σ) (bytes bytes' : List UInt8) :
    (s.sent D bytes).sent D bytes' = s.sent D (bytes ++ bytes') := by
  simp [sent]

/-- The driver with the other end of the bus in this state. -/
def SdState.over (s : SdState σ) (u : σ) : SdState σ := { s with slave := u }

@[simp] theorem SdState.over_card (s : SdState σ) (u : σ) : (s.over u).card = s.card := rfl

@[simp] theorem SdState.over_slave (s : SdState σ) (u : σ) : (s.over u).slave = u := rfl

theorem SdState.over_sent (D : Board σ) (s : SdState σ) (u : σ) (bytes : List UInt8) :
    (s.over u).sent D bytes = s.over (D.after u bytes) := rfl

theorem SdState.sent_replicate (D : Board σ) (s : SdState σ) (u : σ) (n : ℕ) :
    (s.over u).sent D (List.replicate n 0xFF) = s.over (D.idle 0xFF u n) := rfl

namespace BlockSd
variable {D : Board σ} {s : SdState σ}

/-! ### Transfers -/

theorem spiXfer_run (b : UInt8) (s : SdState σ) :
    spiXfer D b s = .ok (D.answer s.slave b,s.sent D [b]) := rfl

theorem send_run (bytes : List UInt8) (s : SdState σ) : send D bytes s = .ok ((),s.sent D bytes) := by
  induction bytes generalizing s with
  | nil => rfl
  | cons b bytes ih =>
    rw [send,bind_of_ok (spiXfer_run b s),ih,SdState.sent_sent]
    rfl

theorem receive_run (n : ℕ) (s : SdState σ) : receive D n s =
    .ok (D.replies s.slave (List.replicate n 0xFF),s.sent D (List.replicate n 0xFF)) := by
  induction n generalizing s with
  | zero => rfl
  | succ n ih =>
    rw [receive,bind_of_ok (spiXfer_run 0xFF s),bind_of_ok (ih _),SdState.sent_sent]
    rfl

section Poll
variable {again : UInt8 → Bool} {n k : ℕ}

/-- Polling ends with the first answer it waits for. -/
theorem pollWhile_run (h : D.FirstAt (fun c => again c = false) 0xFF s.slave k) (hk : k < n) :
    pollWhile D again n s = .ok (D.nth 0xFF s.slave k,s.sent D (List.replicate (k+1) 0xFF)) := by
  induction n generalizing s k with
  | zero => exact absurd hk (Nat.not_lt_zero k)
  | succ n ih =>
    rw [pollWhile,bind_of_ok (spiXfer_run 0xFF s)]
    cases k with
    | zero =>
      have hlast : again (D.answer s.slave 0xFF) = false := h.holds
      rw [hlast]
      rfl
    | succ k =>
      have hwait : again (D.answer s.slave 0xFF) = true := by
        have hfirst := h.before 0 (Nat.succ_pos k)
        rwa [Bool.not_eq_false] at hfirst
      have hrest := (Responder.firstAt_succ (by simpa using hwait)).1 h
      rw [if_pos hwait,ih hrest (Nat.lt_of_succ_lt_succ hk),SdState.sent_sent]
      rfl

/-- It does not end while there is no such answer. -/
theorem pollWhile_stuck (h : ∀ k < n, again (D.nth 0xFF s.slave k) = true) :
    pollWhile D again n s = .error .fuel := by
  induction n generalizing s with
  | zero => rfl
  | succ n ih =>
    have hwait : again (D.answer s.slave 0xFF) = true := h 0 (Nat.succ_pos n)
    rw [pollWhile,bind_of_ok (spiXfer_run 0xFF s),if_pos hwait]
    exact ih fun k hk => h (k+1) (Nat.succ_lt_succ hk)

theorem pollWhile_iff {c : UInt8} {t : SdState σ} : pollWhile D again n s = .ok (c,t) ↔
    ∃ k < n, D.FirstAt (fun c => again c = false) 0xFF s.slave k ∧ c = D.nth 0xFF s.slave k ∧
      t = s.sent D (List.replicate (k+1) 0xFF) := by
  constructor
  · intro hrun
    by_cases hall : ∀ k < n, again (D.nth 0xFF s.slave k) = true
    · rw [pollWhile_stuck hall] at hrun
      exact absurd hrun (by simp)
    · push Not at hall
      obtain ⟨m,hm,hmiss⟩ := hall
      obtain ⟨k,hk,hfirst⟩ := Responder.exists_firstAt (P := fun c => again c = false) (by simpa using hmiss)
      rw [pollWhile_run hfirst (by omega)] at hrun
      simp only [Except.ok.injEq,Prod.mk.injEq] at hrun
      exact ⟨k,by omega,hfirst,hrun.1.symm,hrun.2.symm⟩
  · rintro ⟨k,hk,hfirst,rfl,rfl⟩
    exact pollWhile_run hfirst hk

end Poll

/-! ### Commands -/

/-- Of at most `limit` polls the last one, number `k`, brought `c`: the first answer that is not 0xFF. -/
structure Replied (D : Board σ) (s : σ) (limit : ℕ) (c : UInt8) (k : ℕ) : Prop where
  pos : 0 < k
  le : k ≤ limit
  last : D.nth 0xFF s (k-1) = c
  before : ∀ i < k-1, D.nth 0xFF s i = 0xFF
  all : c = 0xFF → k = limit

theorem Replied.unique {s : σ} {limit k k' : ℕ} {c c' : UInt8} (h : Replied D s limit c k)
    (h' : Replied D s limit c' k') : c = c' ∧ k = k' := by
  have hpos := h.pos
  have hpos' := h'.pos
  have hle := h.le
  have hle' := h'.le
  have hkk : k = k' := by
    rcases Nat.lt_trichotomy k k' with hlt | heq | hgt
    · have hff := h'.before (k-1) (by omega)
      rw [h.last] at hff
      have := h.all hff
      omega
    · exact heq
    · have hff := h.before (k'-1) (by omega)
      rw [h'.last] at hff
      have := h'.all hff
      omega
  exact ⟨by rw [← h.last,← h'.last,hkk],hkk⟩

theorem retryLoop_run (n : ℕ) (c : UInt8) (s : SdState σ) : ∃ c' k, Replied D s.slave (n+1) c' k ∧
    retryLoop D (n+1) c s = .ok (c',s.sent D (List.replicate k 0xFF)) := by
  induction n generalizing s c with
  | zero =>
    refine ⟨D.answer s.slave 0xFF,1,⟨Nat.one_pos,Nat.le_refl 1,rfl,by simp,fun _ => rfl⟩,?_⟩
    rw [retryLoop,bind_of_ok (spiXfer_run 0xFF s),retryLoop]
    split <;> rfl
  | succ n ih =>
    rw [retryLoop,bind_of_ok (spiXfer_run 0xFF s)]
    by_cases hc : D.answer s.slave 0xFF = 0xFF
    · rw [if_neg (by simpa using hc)]
      obtain ⟨c',k,hreplied,hrun⟩ := ih (D.answer s.slave 0xFF) (s.sent D [0xFF])
      have hpos := hreplied.pos
      refine ⟨c',k+1,⟨Nat.succ_pos k,Nat.succ_le_succ hreplied.le,?_,?_,?_⟩,?_⟩
      · obtain ⟨m,rfl⟩ : ∃ m, k = m+1 := ⟨k-1,by omega⟩
        exact hreplied.last
      · intro i hi
        cases i with
        | zero => exact hc
        | succ i => exact hreplied.before i (by omega)
      · intro hff
        rw [hreplied.all hff]
      · rw [hrun,SdState.sent_sent]
        rfl
    · refine ⟨D.answer s.slave 0xFF,1,⟨Nat.one_pos,by omega,rfl,by simp,fun hff => absurd hff hc⟩,?_⟩
      rw [if_pos hc]
      rfl

/-- Everything `sd_command` sends for a command without an application prefix, before it waits. -/
def frame (code : UInt8) (data : UInt32) (chksm : UInt8) : List UInt8 :=
  commandBytes code data chksm ++ if code = cmd12 then [0xFF] else []

/-- The bytes of CMD55. -/
abbrev appBytes : List UInt8 := [0xFF,0x40 + 55,0,0,0,0,1]

/-- What goes before a command: nothing, or, for a command of an application, CMD55 and the wait for its
answer, which has no bound. -/
def Announced (D : Board σ) (fuel : ℕ) (code : UInt8) (s : σ) (bytes : List UInt8) : Prop :=
  if code &&& 0x80 = 0 then bytes = []
  else ∃ j < fuel, D.FirstAt (· ≠ 0xFF) 0xFF (D.after s appBytes) j ∧
    bytes = appBytes ++ List.replicate (j+1) 0xFF

theorem announce_iff {fuel : ℕ} {code : UInt8} {t : SdState σ} : (if code &&& 0x80 ≠ 0 then do
      send D appBytes
      let _ ← pollWhile D (· == 0xFF) fuel
      pure ()
    else pure ()) s = Except.ok ((),t) ↔ ∃ bytes, Announced D fuel code s.slave bytes ∧ t = s.sent D bytes := by
  by_cases hcode : code &&& 0x80 = 0
  · rw [if_neg (by simpa using hcode)]
    unfold Announced
    simp only [if_pos hcode,exists_eq_left,pure_apply,Except.ok.injEq,Prod.mk.injEq,true_and]
    exact eq_comm
  · rw [if_pos hcode,bind_of_ok (send_run _ s)]
    unfold Announced
    simp only [if_neg hcode]
    constructor
    · intro hrun
      obtain ⟨c,u,hpoll,hrun⟩ := bind_ok hrun
      obtain ⟨j,hj,hfirst,-,rfl⟩ := pollWhile_iff.1 hpoll
      simp only [pure_apply,Except.ok.injEq,Prod.mk.injEq,true_and,SdState.sent_sent] at hrun
      refine ⟨_,⟨j,hj,?_,rfl⟩,hrun.symm⟩
      simpa using hfirst
    · rintro ⟨bytes,⟨j,hj,hfirst,rfl⟩,rfl⟩
      have hpoll : pollWhile D (· == 0xFF) fuel (s.sent D appBytes) = _ :=
        pollWhile_run (by simpa using hfirst) hj
      rw [bind_of_ok hpoll,SdState.sent_sent]
      rfl

/-- Whatever answers: `sd_command` puts the announcement, the bytes of the command and then at most a thousand
times 0xFF on the bus, and returns the first answer to these that is not 0xFF, or 0xFF if there is none. -/
theorem sdCommand_iff {fuel : ℕ} {code c : UInt8} {data : UInt32} {chksm : UInt8} {t : SdState σ} :
    sdCommand D fuel code data chksm s = .ok (c,t) ↔ ∃ bytes, Announced D fuel code s.slave bytes ∧
      ∃ k, Replied D (D.after s.slave (bytes ++ frame code data chksm)) sdRetries c k ∧
        t = s.sent D (bytes ++ frame code data chksm ++ List.replicate k 0xFF) := by
  have hrest (u : SdState σ) : ∃ c k, Replied D (D.after u.slave (frame code data chksm)) sdRetries c k ∧ (do
      send D (commandBytes code data chksm)
      let _ ← (if code = cmd12 then send D [0xFF] else pure ())
      retryLoop D sdRetries 0xFF) u = .ok (c,u.sent D (frame code data chksm ++ List.replicate k 0xFF)) := by
    obtain ⟨c,k,hreplied,hrun⟩ := retryLoop_run 999 0xFF (u.sent D (frame code data chksm))
    have hdiscard : (if code = cmd12 then send D [0xFF] else pure ()) (u.sent D (commandBytes code data chksm)) =
        Except.ok ((),u.sent D (frame code data chksm)) := by
      unfold frame
      split
      · rw [send_run,SdState.sent_sent]
      · rw [List.append_nil]
        rfl
    refine ⟨c,k,hreplied,?_⟩
    rw [bind_of_ok (send_run _ u),bind_of_ok hdiscard]
    rw [SdState.sent_sent] at hrun
    exact hrun
  constructor
  · intro h
    obtain ⟨_,u,hannounce,h⟩ := bind_ok h
    obtain ⟨bytes,hbytes,rfl⟩ := announce_iff.1 hannounce
    obtain ⟨c',k,hreplied,hrun⟩ := hrest (s.sent D bytes)
    rw [hrun] at h
    simp only [Except.ok.injEq,Prod.mk.injEq,SdState.sent_sent] at h
    obtain ⟨rfl,rfl⟩ := h
    refine ⟨bytes,hbytes,k,?_,by rw [List.append_assoc]⟩
    rwa [Responder.after_append]
  · rintro ⟨bytes,hbytes,k,hreplied,rfl⟩
    obtain ⟨c',k',hreplied',hrun⟩ := hrest (s.sent D bytes)
    rw [SdState.sent_slave,← Responder.after_append] at hreplied'
    obtain ⟨rfl,rfl⟩ := hreplied.unique hreplied'
    rw [sdCommand,bind_of_ok (announce_iff.2 ⟨bytes,hbytes,rfl⟩),hrun,SdState.sent_sent,List.append_assoc]

/-- The answer of a command that is none of an application's. -/
theorem sdCommand_plain {code : UInt8} (hcode : code &&& 0x80 = 0) (data : UInt32) (chksm : UInt8)
    (s : SdState σ) : ∃ c k, Replied D (D.after s.slave (frame code data chksm)) sdRetries c k ∧
      ∀ fuel, sdCommand D fuel code data chksm s =
        .ok (c,s.sent D (frame code data chksm ++ List.replicate k 0xFF)) := by
  obtain ⟨c,k,hreplied,-⟩ := retryLoop_run 999 0xFF (s.sent D (frame code data chksm))
  refine ⟨c,k,hreplied,fun fuel => sdCommand_iff.2 ⟨[],?_,k,?_,rfl⟩⟩
  · rw [Announced,if_pos hcode]
  · rwa [List.nil_append]

/-! ### Blocks -/

/-- The bus after a read command that was answered `k` polls later. -/
def readAsked (D : Board σ) (s : SdState σ) (block : UInt32) (k : ℕ) : σ :=
  D.after s.slave (frame cmd17 (s.card.address block) 1 ++ List.replicate k 0xFF)

/-- Whatever answers: a read command that is not answered with 0 ends `block_read` with the answer, and the
buffer is as before. After the answer 0 the call returns if and only if the byte 0xFE comes some time; it then
returns 0, and the buffer holds the 512 bytes that follow. -/
theorem blockRead_exact (block : UInt32) (buf : Sector) (s : SdState σ) :
    ∃ c k, Replied D (D.after s.slave (frame cmd17 (s.card.address block) 1)) sdRetries c k ∧
      (c ≠ 0 → ∀ fuel, blockRead D fuel block buf s =
        .ok ((c.toNat,buf),s.over (readAsked D s block k))) ∧
      (c = 0 → ∀ fuel r t, blockRead D fuel block buf s = .ok (r,t) ↔
        ∃ j < fuel, D.FirstAt (· = 0xFE) 0xFF (readAsked D s block k) j ∧
          r = (0,Sector.ofBytes (D.replies (D.idle 0xFF (readAsked D s block k) (j+1))
            (List.replicate blockSize 0xFF))) ∧
          t = s.over (D.idle 0xFF (readAsked D s block k) (j + 1 + blockSize + 2))) := by
  obtain ⟨c,k,hreplied,hrun⟩ := sdCommand_plain (D := D) (by decide : cmd17 &&& 0x80 = 0)
    (s.card.address block) 1 s
  have hasked (fuel : ℕ) : sdCommand D fuel cmd17 (s.card.address block) 1 s =
      .ok (c,s.over (readAsked D s block k)) := hrun fuel
  refine ⟨c,k,hreplied,fun hc fuel => ?_,fun hc fuel r t => ?_⟩
  · rw [blockRead,bind_of_ok (get_apply s),bind_of_ok (hasked fuel),if_pos hc]
    rfl
  · have hmove (u : σ) (j : ℕ) : (((s.over u).sent D (List.replicate (j+1) 0xFF)).sent D
        (List.replicate blockSize 0xFF)).sent D [0xFF,0xFF] = s.over (D.idle 0xFF u (j + 1 + blockSize + 2)) := by
      rw [SdState.sent_replicate,SdState.sent_replicate,show [0xFF,0xFF] = List.replicate 2 (0xFF : UInt8) from rfl,
        SdState.sent_replicate,D.idle_add _ _ (j + 1 + blockSize),D.idle_add _ _ (j+1)]
    rw [blockRead,bind_of_ok (get_apply s),bind_of_ok (hasked fuel),if_neg (by simpa using hc)]
    constructor
    · intro h
      obtain ⟨d,u,hpoll,h⟩ := bind_ok h
      obtain ⟨j,hj,hfirst,-,rfl⟩ := pollWhile_iff.1 hpoll
      rw [bind_of_ok (receive_run _ _),bind_of_ok (send_run _ _),hmove] at h
      simp only [pure_apply,Except.ok.injEq,Prod.mk.injEq] at h
      refine ⟨j,hj,?_,h.1.symm,h.2.symm⟩
      simpa using hfirst
    · rintro ⟨j,hj,hfirst,rfl,rfl⟩
      have hpoll : pollWhile D (· != 0xFE) fuel (s.over (readAsked D s block k)) = _ :=
        pollWhile_run (by simpa using hfirst) hj
      rw [bind_of_ok hpoll,bind_of_ok (receive_run _ _),bind_of_ok (send_run _ _),hmove]
      rfl

/-- The bytes that carry a block to the card. -/
def packet (buf : Sector) : List UInt8 := [0xFF,0xFF] ++ ([0xFE] ++ (buf.toList ++ [0xFF,0xFF]))

/-- The bus after a write command that was answered `k` polls later, and the block behind it. -/
def writeAsked (D : Board σ) (s : SdState σ) (block : UInt32) (buf : Sector) (k : ℕ) : σ :=
  D.after s.slave (frame cmd24 (s.card.address block) 1 ++ List.replicate k 0xFF ++ packet buf)

/-- Whatever answers: a write command that is not answered with 0 ends `block_write` with the answer before any
data is sent. After the answer 0 the block is sent, and the call returns if and only if the byte 0xFF comes
some time behind the next byte; it then returns 0, whatever that next byte, the card's word on the data, is. -/
theorem blockWrite_exact (block : UInt32) (buf : Sector) (s : SdState σ) :
    ∃ c k, Replied D (D.after s.slave (frame cmd24 (s.card.address block) 1)) sdRetries c k ∧
      (c ≠ 0 → ∀ fuel, blockWrite D fuel block buf s = .ok ((c.toNat : ℤ),
        s.sent D (frame cmd24 (s.card.address block) 1 ++ List.replicate k 0xFF))) ∧
      (c = 0 → ∀ fuel r t, blockWrite D fuel block buf s = .ok (r,t) ↔
        ∃ j < fuel, D.FirstAt (· = 0xFF) 0xFF (D.next (writeAsked D s block buf k) 0xFF) j ∧ r = 0 ∧
          t = s.over (D.idle 0xFF (writeAsked D s block buf k) (j + 2))) := by
  obtain ⟨c,k,hreplied,hrun⟩ := sdCommand_plain (D := D) (by decide : cmd24 &&& 0x80 = 0)
    (s.card.address block) 1 s
  have hasked (fuel : ℕ) : sdCommand D fuel cmd24 (s.card.address block) 1 s =
      .ok (c,s.sent D (frame cmd24 (s.card.address block) 1 ++ List.replicate k 0xFF)) := hrun fuel
  refine ⟨c,k,hreplied,fun hc fuel => ?_,fun hc fuel r t => ?_⟩
  · rw [blockWrite,bind_of_ok (get_apply s),bind_of_ok (hasked fuel),if_pos hc]
    rfl
  · have hdata : ((((s.sent D (frame cmd24 (s.card.address block) 1 ++ List.replicate k 0xFF)).sent D
        [0xFF,0xFF]).sent D [0xFE]).sent D buf.toList).sent D [0xFF,0xFF] =
        s.over (writeAsked D s block buf k) := by
      simp only [SdState.sent_sent,List.append_assoc]
      simp only [SdState.sent,SdState.over,writeAsked,packet,List.append_assoc]
    rw [blockWrite,bind_of_ok (get_apply s),bind_of_ok (hasked fuel),if_neg (by simpa using hc),
      bind_of_ok (send_run _ _),bind_of_ok (send_run _ _),bind_of_ok (send_run _ _),
      bind_of_ok (send_run _ _),hdata,bind_of_ok (spiXfer_run _ _)]
    constructor
    · intro h
      obtain ⟨d,u,hpoll,h⟩ := bind_ok h
      obtain ⟨j,hj,hfirst,-,rfl⟩ := pollWhile_iff.1 hpoll
      simp only [pure_apply,Except.ok.injEq,Prod.mk.injEq] at h
      refine ⟨j,hj,?_,h.1.symm,h.2.symm⟩
      simpa using hfirst
    · rintro ⟨j,hj,hfirst,rfl,rfl⟩
      have hpoll : pollWhile D (· != 0xFF) fuel ((s.over (writeAsked D s block buf k)).sent D [0xFF]) = _ :=
        pollWhile_run (by simpa using hfirst) hj
      rw [bind_of_ok hpoll]
      rfl

end BlockSd

end Gristle
