import Gristle.Lib.Calendar
import Gristle.ScanEnds
import Gristle.FlushEntry

/-! The time stamps of a file: what they are after a flush of its entry and a later lookup of it. -/
namespace Gristle
open Prog

/-! ### UTC -/

/-- The time of a broken-down time in UTC, fields outside their ranges carrying over. -/
def Tm.seconds (t : Tm) : ℤ :=
  Calendar.day (t.tmYear + 1900) t.tmMon t.tmMday * 86400 + t.tmHour * 3600 + t.tmMin * 60 + t.tmSec

/-- The fields are in their ranges. -/
structure Tm.InRange (t : Tm) : Prop where
  date : Calendar.InRange t.tmMon t.tmMday
  hour : 0 ≤ t.tmHour ∧ t.tmHour < 24
  min : 0 ≤ t.tmMin ∧ t.tmMin < 60
  sec : 0 ≤ t.tmSec ∧ t.tmSec < 60

/-- `gmtime` and `mktime` are those of UTC. -/
structure Env.UTC (E : Env) : Prop where
  mktime : ∀ t, E.mktime t = t.seconds
  gmtime : ∀ n ≥ 0, (E.gmtime n).seconds = n ∧ (E.gmtime n).InRange

/-- From 1980-01-01 to the end of 2107. -/
def FatTime (n : ℤ) : Prop := 315532800 ≤ n ∧ n < 4354819200

section Calendar
variable {E : Env} (hE : E.UTC) {n : ℤ}
include hE

/-- The broken-down time of a time that FAT can store. -/
theorem Env.UTC.fields (hn : FatTime n) : (E.gmtime n).InRange ∧
    80 ≤ (E.gmtime n).tmYear ∧ (E.gmtime n).tmYear < 208 ∧ (E.gmtime n).seconds = n := by
  obtain ⟨hlo,hhi⟩ := hn
  obtain ⟨hsec,hrange⟩ := hE.gmtime n (by omega)
  obtain ⟨hdate,hhour,hmin,hs⟩ := hrange
  have hval : Calendar.day ((E.gmtime n).tmYear + 1900) (E.gmtime n).tmMon (E.gmtime n).tmMday * 86400 +
      (E.gmtime n).tmHour * 3600 + (E.gmtime n).tmMin * 60 + (E.gmtime n).tmSec = n := hsec
  have hlow : Calendar.beforeYear 1980 = 3652 := by decide
  have hhigh : Calendar.beforeYear 2108 = 50403 := by decide
  have hyear := @Calendar.year_bounds 1980 2108 ((E.gmtime n).tmYear + 1900) _ _ hdate (by omega) (by omega)
  exact ⟨⟨hdate,hhour,hmin,hs⟩,by omega,by omega,hsec⟩

/-- A date is read back as the start of its day. -/
theorem fatToUnixDate_fatFromUnixDate (hn : FatTime n) :
    fatToUnixDate E (fatFromUnixDate E n) = n - n % 86400 := by
  obtain ⟨⟨hdate,hhour,hmin,hsec⟩,hlo,hhi,hval⟩ := hE.fields hn
  have hmonth := hdate.month
  have hday := hdate.day
  rw [fatToUnixDate,hE.mktime,fatFromUnixDate]
  unfold Tm.seconds at hval ⊢
  generalize (E.gmtime n).tmYear = y at hlo hhi hval ⊢
  generalize (E.gmtime n).tmMon = m at hmonth hval ⊢
  generalize (E.gmtime n).tmMday = d at hday hval ⊢
  dsimp only
  set packed := (((y - 80) * 2^9 + (m + 1) * 2^5 + d) % 2^16).toNat with hpacked
  have hy : ((packed / 2^9 % 2^7 : ℕ) : ℤ) = y - 80 := by omega
  have hm : ((packed / 2^5 % 2^4 : ℕ) : ℤ) = m + 1 := by omega
  have hd : ((packed % 2^5 : ℕ) : ℤ) = d := by omega
  rw [hy,hm,hd,show y - 80 + 80 + 1900 = y + 1900 by omega,show m + 1 - 1 = m by omega]
  omega

/-- A time of the day is read back as a time before the year 1900. -/
theorem fatToUnixTime_bounds (v : ℕ) :
    -2209075200 ≤ fatToUnixTime E v ∧ fatToUnixTime E v ≤ -2209075200 + 115442 := by
  have hday : Calendar.day (0 + 1900) 0 0 = -25568 := by decide
  rw [fatToUnixTime,hE.mktime,Tm.seconds,hday]
  dsimp only
  omega

end Calendar

/-! ### What a lookup makes of a stored entry -/

/-- The times of `f` as the new descriptor should have them: the creation exactly, the modification to
two seconds, the access to the day. -/
structure FileS.TimesKept (f f' : FileS) : Prop where
  created : f'.created = f.created
  modified : f'.modified = f.modified - f.modified % 2
  accessed : f'.accessed = f.accessed - f.accessed % 86400

/-- The times of a descriptor are times FAT can store. -/
structure FileS.FatTimes (f : FileS) : Prop where
  created : FatTime f.created
  modified : FatTime f.modified
  accessed : FatTime f.accessed

/-- The access date survives; the creation and the modification end up seventy years early. -/
theorem load_times {E E' : Env} (hE : E.UTC) (hE' : E'.UTC) {f : FileS} (hf : f.FatTimes) (f₀ : FileS)
    (g : FatInfo) (reserved : UInt8) (i : ℕ) :
    let r := FileS.load E' g (f.toDirent E reserved).stored i f₀
    r.created < f.created ∧ r.modified < f.modified - f.modified % 2 ∧
      r.accessed = f.accessed - f.accessed % 86400 := by
  have hdate (n : ℤ) : fatFromUnixDate E n % 2^16 = fatFromUnixDate E n := by
    unfold fatFromUnixDate
    dsimp only
    omega
  have hsame (v : ℕ) : fatToUnixDate E' v = fatToUnixDate E v := by
    rw [fatToUnixDate,hE'.mktime,fatToUnixDate,hE.mktime]
  refine ⟨?_,?_,?_⟩
  · change fatToUnixDate E' (fatFromUnixDate E f.created % 2^16) +
      fatToUnixTime E' (fatFromUnixTime E f.created % 2^16) + ((f.created % 2).toNat * 100 % 2^8 : ℕ) < _
    have hbounds := fatToUnixTime_bounds hE' (fatFromUnixTime E f.created % 2^16)
    rw [hdate,hsame,fatToUnixDate_fatFromUnixDate hE hf.created]
    omega
  · change fatToUnixDate E' (fatFromUnixDate E f.modified % 2^16) +
      fatToUnixTime E' (fatFromUnixDate E f.modified % 2^16) < _
    have hbounds := fatToUnixTime_bounds hE' (fatFromUnixDate E f.modified)
    rw [hdate,hsame,fatToUnixDate_fatFromUnixDate hE hf.modified]
    omega
  · change fatToUnixDate E' (fatFromUnixDate E f.accessed % 2^16) = _
    rw [hdate,hsame,fatToUnixDate_fatFromUnixDate hE hf.accessed]

/-! ### The runs -/

/-- What `fat_flush_fileinfo` leaves in the block of the entry. -/
theorem fatFlushFileinfo_stores {E : Env} {fd : Fd} {s t : FatState}
    (h : fatFlushFileinfo E fd s = .ok (0,t)) (hskip : ¬ (s.fileNum fd).SkipsFlush s.fatfs) :
    (t.fileNum fd).entrySector < t.dev.size ∧ ∃ reserved, ∃ b : Sector,
      t.dev.blocks (t.fileNum fd).entrySector =
        b.setDirent (t.fileNum fd).entryNumber ((s.fileNum fd).toDirent E reserved) := by
  obtain ⟨_,reserved,_,_,v,-,-,-,hlt,ht⟩ := fatFlushFileinfo_steps h hskip
  rw [ht.file,ht.blocks,ht.size]
  exact ⟨hlt,reserved,(v.fileNum fd).buffer,Function.update_self _ _ _⟩

/-! ### The lookup -/

namespace Place
variable (g : FatInfo) (B : ℕ → Sector) (size : ℕ)

/-- The buffer holds the sector under the place, when the device has it. -/
def Synced (p : Place) : Prop := p.sector < size → p.buffer = B p.sector

theorem turn_synced (c : ℕ) (p : Place) : (p.turn g B size c).Synced B size := fun h => if_pos h

variable {g B size} {p q : Place}

theorem next_synced (h : p.next g B size = some q) : q.Synced B size := by
  unfold next at h
  split at h
  · split at h
    · obtain rfl := Option.some.inj h
      exact fun _ => rfl
    · simp at h
  · split at h
    · simp at h
    · split at h
      · simp at h
      · obtain rfl := Option.some.inj h
        exact turn_synced g B size _ _

theorem Finds.synced {name : ℕ → UInt8} {n : ℕ} {o : SlotSearch} (h : p.Finds g B size name n o q)
    (hp : p.Synced B size) : q.Synced B size := by
  induction h with
  | here => exact hp
  | ended => exact hp
  | next _ hsome _ ih => exact ih (next_synced hsome)

end Place

section Lookup
variable {E : Env} (hE : E.NoFault) {fd : Fd} {s t : FatState} {g : FatInfo} {B : ℕ → Sector} {size : ℕ}
  (hg : g.Kind) (hs : s.On g B size)
include hE hg hs

/-- A descriptor that a lookup fills gets the fields of the slot it names. -/
theorem lookupLoop_loads {elements : List (List UInt8)} {dosname : DosName} {e e' : ℤ}
    (hf : (s.fileNum fd).Reading) (hp : (s.fileNum fd).place.Synced B size)
    (hrun : lookupLoop E fd elements dosname e s = .ok ((0,e'),t))
    (hlt : (t.fileNum fd).entrySector < size) : ∃ f₀, (t.fileNum fd).still = (FileS.load E g
      ((B (t.fileNum fd).entrySector).dirent (t.fileNum fd).entryNumber) (t.fileNum fd).entryNumber f₀).still := by
  have hne : ¬ (0 : ℤ) = -1 := by decide
  induction elements generalizing dosname s with
  | nil => exact absurd (congrArg Prod.fst (pure_ok hrun).1) hne
  | cons element rest ih =>
    obtain ⟨converted,u,hu,hrun⟩ := bind_ok hrun
    cases hconv : convertElement dosname element with
    | error _ => simp [hconv,liftStop] at hu
    | ok o =>
      obtain ⟨rfl,rfl⟩ : o = converted ∧ s = u := by simpa [hconv,liftStop] using hu
      cases o with
      | none => exact absurd (congrArg Prod.fst (pure_ok hrun).1) hne
      | some name =>
        obtain ⟨found,u,hu,hrun⟩ := bind_ok hrun
        obtain ⟨n,o,q,hfinds,ha,hmoved,hleads⟩ := finds_of_scanLoop hE hg hs hf hu
        have hon := hs.after ha
        have hft := hmoved.reading hf
        cases found with
        | none =>
          obtain ⟨_,v,-,hrun⟩ := bind_ok hrun
          exact absurd (congrArg Prod.fst (pure_ok hrun).1) hne
        | some i =>
          have hplace : (u.fileNum fd).place = q := by
            cases o with
            | last => simp [SlotSearch.Leads] at hleads
            | absent => simp [SlotSearch.Leads] at hleads
            | found j => exact hleads.2
          have hsync : (u.fileNum fd).place.Synced B size := hplace ▸ hfinds.synced hp
          dsimp only at hrun
          rw [bind_of_ok rfl,bind_of_ok rfl,run_ite] at hrun
          split at hrun
          · obtain ⟨_,v,hv,hrun⟩ := bind_ok hrun
            have hset := updateFile_result hv
            rw [bind_of_ok rfl] at hrun
            obtain ⟨_,w,hw,hrun⟩ := bind_ok hrun
            obtain ⟨-,rfl⟩ := pure_ok hrun
            obtain ⟨-,-,hmovedw,-⟩ := (fatSelectCluster_any hE (hon.after hset) _).of_ok hw
            have hstill := hmovedw.still
            have hsector : (t.fileNum fd).entrySector = (u.fileNum fd).sector := by
              rw [FileS.field_of_still FileS.entrySector (fun _ => rfl) hstill,hset.file]
              rfl
            have hnumber : (t.fileNum fd).entryNumber = i := by
              rw [FileS.field_of_still FileS.entryNumber (fun _ => rfl) hstill,hset.file]
              rfl
            rw [hsector] at hlt
            have hbuffer : (u.fileNum fd).buffer = B (u.fileNum fd).sector := hsync hlt
            rw [hset.file,hon.fatfs,hbuffer] at hstill
            exact ⟨u.fileNum fd,by rw [hstill,hsector,hnumber]⟩
          · rw [run_ite] at hrun
            split at hrun
            · obtain ⟨_,v,hv,hrun⟩ := bind_ok hrun
              have hset := updateFile_result hv
              obtain ⟨_,w,hw,hrun⟩ := bind_ok hrun
              obtain ⟨-,haw,hmovedw,hplacew⟩ := (fatSelectCluster_any hE (hon.after hset) _).of_ok hw
              refine ih ((hon.after hset).after haw) ?_ ?_ hrun
              · refine hmovedw.reading ?_
                rw [hset.file]
                exact ⟨hft.clean,hft.write⟩
              · rw [hplacew]
                exact Place.turn_synced _ _ _ _ _
            · exact absurd (congrArg Prod.fst (pure_ok hrun).1) hne

/-- After a lookup the descriptor has no times, or those of the slot it names. -/
theorem fatLookupPath_times {path : List UInt8} {e e' : ℤ} (hf : (s.fileNum fd).Reading)
    (hrun : fatLookupPath E fd path e s = .ok ((0,e'),t)) (hlt : (t.fileNum fd).entrySector < size) :
    (t.fileNum fd).created = 0 ∨ ∃ f₀, (t.fileNum fd).still = (FileS.load E g
      ((B (t.fileNum fd).entrySector).dirent (t.fileNum fd).entryNumber) (t.fileNum fd).entryNumber f₀).still := by
  have hne : ¬ (0 : ℤ) = -1 := by decide
  rw [fatLookupPath,run_ite] at hrun
  split at hrun
  · exact absurd (congrArg Prod.fst (pure_ok hrun).1) hne
  rw [bind_of_ok rfl] at hrun
  obtain ⟨garbage,u,hu,hrun⟩ := bind_ok hrun
  have hjunk := ((junk_returns E s).of_ok hu).after fd
  have honu := hs.after hjunk
  obtain ⟨_,v,hv,hrun⟩ := bind_ok hrun
  obtain ⟨-,hav,hmoved,hplace⟩ := (fatSelectCluster_any hE honu _).of_ok hv
  have honv := honu.after hav
  revert hrun
  cases (pathElements path).take 20 with
  | nil =>
    intro hrun
    obtain ⟨_,w,hw,hrun⟩ := bind_ok hrun
    have hset := updateFile_result hw
    obtain ⟨_,x,hx,hrun⟩ := bind_ok hrun
    obtain ⟨-,rfl⟩ := pure_ok hrun
    obtain ⟨-,-,hmovedx,-⟩ := (fatSelectCluster_any hE (honv.after hset) _).of_ok hx
    refine .inl ?_
    rw [FileS.field_of_still FileS.created (fun _ => rfl) hmovedx.still,hset.file]
    rfl
  | cons element rest =>
    intro hrun
    obtain ⟨_,w,hw,hrun⟩ := bind_ok hrun
    have hset := updateFile_result hw
    refine .inr (lookupLoop_loads hE hg (honv.after hset) ?_ ?_ hrun hlt)
    · rw [hset.file]
      rw [hjunk.file] at hmoved
      have hfv := hmoved.reading hf
      exact ⟨hfv.clean,hfv.write⟩
    · rw [hset.file]
      change (v.fileNum fd).place.Synced B size
      rw [hplace]
      exact Place.turn_synced _ _ _ _ _

end Lookup

/-- No stored times survive: whatever slot the entry of a descriptor is flushed to, a lookup that reads
this slot later yields other times. -/
theorem times_lost {E E' : Env} (hE : E.UTC) (hE' : E'.UTC) (hfault : E'.NoFault) {fd fd' : Fd}
    {s t u v : FatState} {path : List UInt8} {e e' : ℤ} (htimes : (s.fileNum fd).FatTimes)
    (hflush : fatFlushFileinfo E fd s = .ok (0,t)) (hskip : ¬ (s.fileNum fd).SkipsFlush s.fatfs)
    (hnumber : (t.fileNum fd).entryNumber < 16) (hg : u.fatfs.Kind) (hsize : u.dev.size = t.dev.size)
    (hslot : (u.dev.blocks (t.fileNum fd).entrySector).dirent (t.fileNum fd).entryNumber =
      (t.dev.blocks (t.fileNum fd).entrySector).dirent (t.fileNum fd).entryNumber)
    (hf : (u.fileNum fd').Reading) (hlookup : fatLookupPath E' fd' path e u = .ok ((0,e'),v))
    (hsector : (v.fileNum fd').entrySector = (t.fileNum fd).entrySector)
    (hfound : (v.fileNum fd').entryNumber = (t.fileNum fd).entryNumber) :
    ¬ (s.fileNum fd).TimesKept (v.fileNum fd') := by
  obtain ⟨hlt,reserved,b,hstored⟩ := fatFlushFileinfo_stores hflush hskip
  have hlookup' := fatLookupPath_times hfault hg ⟨rfl,rfl,rfl⟩ hf hlookup (by rw [hsector,hsize]; exact hlt)
  intro hkept
  rcases hlookup' with hzero | ⟨f₀,hstill⟩
  · have hlow := htimes.created.1
    have hcreated := hkept.created
    omega
  · rw [hsector,hfound,hslot,hstored,dirent_setDirent _ _ hnumber] at hstill
    have hcreated := FileS.field_of_still FileS.created (fun _ => rfl) hstill
    have hload := (load_times hE hE' htimes f₀ u.fatfs reserved (t.fileNum fd).entryNumber).1
    rw [hkept.created] at hcreated
    omega

/-! ### A run -/

/-- Surroundings without faults whose time functions are those of UTC. -/
def Env.utc (fuel : ℕ) : Env :=
  { Env.calm (fun _ => 0) fuel with
    gmtime := fun n =>
      let d := (n / 86400).toNat
      let y := 1970 + (Calendar.yearOf d : ℤ)
      let m := (Calendar.monthOf y (d - Calendar.beforeYear y) : ℤ)
      { tmYear := y - 1900
        tmMon := m
        tmMday := d - Calendar.beforeYear y - Calendar.beforeMonth y m + 1
        tmHour := n % 86400 / 3600
        tmMin := n % 3600 / 60
        tmSec := n % 60 }
    mktime := Tm.seconds }

theorem Env.utc_utc (fuel : ℕ) : (Env.utc fuel).UTC := by
  refine ⟨fun _ => rfl,fun n hn => ?_⟩
  obtain ⟨hrange,hday⟩ := Calendar.day_date (n / 86400).toNat rfl rfl rfl
  refine ⟨?_,⟨hrange,?_,?_,?_⟩⟩
  · rw [Tm.seconds,Env.utc]
    dsimp only
    rw [Int.sub_add_cancel,hday]
    omega
  · change 0 ≤ n % 86400 / 3600 ∧ n % 86400 / 3600 < 24
    omega
  · change 0 ≤ n % 3600 / 60 ∧ n % 3600 / 60 < 60
    omega
  · change 0 ≤ n % 60 ∧ n % 60 < 60
    omega

/-- The small volume with its file open for writing and an entry to store: all its times are
2001-09-09 01:46:41. -/
def FatState.timed : FatState := (FatState.mounted smallFat16 300 oneFile).setFile 0
  { FileS.closed with
    flags := { Flags.none with open_ := true, write := true, fsDirty := true }
    filename := fun k => (oneFile 2).get k, extension := fun k => (oneFile 2).get (8 + k)
    sector := 3, cluster := 2, size := 5, fullFirstCluster := 2, entrySector := 2
    created := 1000000001, modified := 1000000001, accessed := 1000000001 }

/-- The entry of that file is stored in its slot, and a lookup reads it there. -/
theorem flush_then_lookup : Prog.test (fatFlushFileinfo (.utc 8) 0) .timed (fun r t =>
    decide (r = 0 ∧ (t.fileNum 0).entrySector = 2 ∧ (t.fileNum 0).entryNumber = 0 ∧
      (t.fileNum 1).flags = .none ∧ t.fatfs = smallFat16) &&
    Prog.test (fatLookupPath (.utc 8) 1 oneFilePath 0) t (fun q v => decide (q.1 = 0 ∧
      (v.fileNum 1).entrySector = 2 ∧ (v.fileNum 1).entryNumber = 0 ∧
      (v.fileNum 1).created = -1209077020 ∧ (v.fileNum 1).modified = -1209062082))) = true := by decide +kernel

theorem times_lost_timed : ∃ t v e, fatFlushFileinfo (.utc 8) 0 .timed = .ok (0,t) ∧
    fatLookupPath (.utc 8) 1 oneFilePath 0 t = .ok ((0,e),v) ∧
      ¬ (FatState.timed.fileNum 0).TimesKept (v.fileNum 1) := by
  obtain ⟨r,t,hflush,h⟩ := ok_of_test flush_then_lookup
  simp only [Bool.and_eq_true,decide_eq_true_eq] at h
  obtain ⟨⟨rfl,hsector,hnumber,hflags,hfatfs⟩,h⟩ := h
  obtain ⟨⟨q,e⟩,v,hlookup,h⟩ := ok_of_test h
  obtain ⟨rfl,hsector',hnumber',-⟩ := of_decide_eq_true h
  have htime : FatTime 1000000001 := by unfold FatTime; decide
  refine ⟨t,v,e,hflush,hlookup,?_⟩
  exact times_lost (Env.utc_utc 8) (Env.utc_utc 8) ⟨fun _ => rfl,fun _ => rfl,fun _ => rfl⟩
    ⟨htime,htime,htime⟩ hflush (by decide) (by omega) (by rw [hfatfs]; exact smallFat16_valid.table.kind) rfl rfl
    ⟨by rw [hflags]; rfl,by rw [hflags]; rfl⟩ hlookup (by omega) (by omega)

/-- There the creation and the modification are read back as times before 1970. -/
theorem fatLookupPath_oldTimes : (Env.utc 8).UTC ∧ (FatState.timed.fileNum 0).FatTimes ∧
    ∃ t v e, fatFlushFileinfo (.utc 8) 0 .timed = .ok (0,t) ∧
      fatLookupPath (.utc 8) 1 oneFilePath 0 t = .ok ((0,e),v) ∧
      (v.fileNum 1).entrySector = (t.fileNum 0).entrySector ∧
      (v.fileNum 1).entryNumber = (t.fileNum 0).entryNumber ∧
      (v.fileNum 1).created = -1209077020 ∧ (v.fileNum 1).modified = -1209062082 ∧
      ¬ (FatState.timed.fileNum 0).TimesKept (v.fileNum 1) := by
  obtain ⟨r,t,hflush,h⟩ := ok_of_test flush_then_lookup
  simp only [Bool.and_eq_true,decide_eq_true_eq] at h
  obtain ⟨⟨rfl,hsector,hnumber,-⟩,h⟩ := h
  obtain ⟨⟨q,e⟩,v,hlookup,h⟩ := ok_of_test h
  obtain ⟨rfl,hsector',hnumber',hcreated,hmodified⟩ := of_decide_eq_true h
  have htime : FatTime 1000000001 := by unfold FatTime; decide
  refine ⟨Env.utc_utc 8,⟨htime,htime,htime⟩,t,v,e,hflush,hlookup,by omega,by omega,hcreated,hmodified,?_⟩
  intro hkept
  have hsame : (v.fileNum 1).created = 1000000001 := hkept.created
  omega

end Gristle
