import Calipso.Ar9170.Rx.Demux
import Calipso.Ar9170.Usb.SequenceRecovery

/-!
# Reads within the transfer

Whether the receive path stays inside the transfer depends on the bytes. The
conditions below name no function of the parser: a probe near the end needs twelve
more bytes, the command must be there with what its event is read from, and an MPDU
must be long enough for the headers its status announces.

`all_handleMpdu`, `all_rxUntieCmds` and `all_findHeader` turn the log of each part
into its condition, and `within_iff_safe` puts them together.
-/

namespace Calipso.Ar9170.Rx

open Wire

variable {m : Memory UInt8} {n : Nat} {d : Device}

/-! ### The conditions -/

/-- The event that the command at `off` reports can be read in the transfer. -/
structure EventFits (m : Memory UInt8) (n : Nat) (off : Int) : Prop where
  preTbtt : m (off + 1) = Usb.rspPreTbtt → off + 8 ≤ n
  txComp : m (off + 1) = Usb.rspTxComp →
    off + 4 + 2 * (min (m (off + 3)).toNat ((m off).toNat / 2 + 2) : Nat) ≤ n
  beacon : m (off + 1) = rspBeaconConfig → off + 5 ≤ n ∧ (m (off + 4) = 1 → off + 6 ≤ n)

/-- The command at `off` lies in the transfer, and so does its event if its
number is the expected one. -/
structure CommandFits (m : Memory UInt8) (n : Nat) (off : Int) (usb : Usb.State) : Prop where
  inside : Inside n off ((m off).toNat + 4)
  event : (Usb.checkSequence (m (off + 2)).toNat usb).isSome → EventFits m n off

/-- The pair by which a MAC status is recognised. -/
def PairAt (m : Memory UInt8) (t : Int) : Prop := OccursAt m macStatusPattern t

/-- The MAC status `3f 3f` that is the closest to the end of the MPDU. -/
structure LastPair (m : Memory UInt8) (buf l t : Int) : Prop where
  lo : buf + 9 ≤ t
  hi : t ≤ buf + l - 4
  pair : PairAt m t
  last : ∀ s, t < s → s ≤ buf + l - 4 → ¬ PairAt m s

/-- The MAC status at `t` announces an MPDU with headers on both sides. -/
def SingleAt (m : Memory UInt8) (t : Int) : Prop :=
  m (t + 3) &&& rxStatusMpdu = rxStatusMpduSingle

/-- The MPDU has room for the headers of the device. -/
structure MpduFits (m : Memory UInt8) (buf l : Int) : Prop where
  head : 12 ≤ l
  pair : ∀ t, LastPair m buf l t → buf + 21 ≤ t ∧ (SingleAt m t → buf + 32 ≤ t)
  plain : (∀ t, ¬ LastPair m buf l t) → SingleAt m (buf + l - 4) → 36 ≤ l

/-- A part of a slice that lies in the transfer. -/
theorem Inside.part {off l : Int} (h : Inside n off l) {i k : Int} (hi : 0 ≤ i) (hk : 0 ≤ k)
    (hle : i + k ≤ l) : Inside n (off + i) k := by
  obtain ⟨hoff, -, hend⟩ := h
  simp only [Inside]
  omega

theorem Inside.take {off l k : Int} (h : Inside n off l) (hk : 0 ≤ k) (hle : k ≤ l) :
    Inside n off k := by
  simpa using h.part (Int.le_refl 0) hk (by omega)

/-! ### Commands -/

theorem all_readStatuses {off : Int} (hoff : 0 ≤ off) (k i : Nat) :
    (readStatuses off k i).All (Entry.Within n) ↔ (0 < k → off + 4 + 2 * (i + k) ≤ n) := by
  induction k generalizing i with
  | zero => simp [readStatuses]
  | succ k ih =>
      simp only [readStatuses, Log.all_bind, Log.all_entry, ih, Entry.Within, Inside,
        Usb.ar9170CmdHdrLen]
      constructor
      · intro h hk
        by_cases hzero : k = 0
        · omega
        · have := h.2 (by omega)
          omega
      · intro h
        have := h (by omega)
        constructor <;> omega

theorem all_readEvent {off : Int} (hin : Inside n off ((m off).toNat + 4)) :
    (readEvent m off (m (off + 1)) ((m off).toNat + 4)).All (Entry.Within n) ↔
      EventFits m n off := by
  obtain ⟨hoff, -, hend⟩ := hin
  by_cases hpre : m (off + 1) = Usb.rspPreTbtt
  · have hfits : EventFits m n off ↔ off + 8 ≤ n := by
      constructor
      · intro h
        exact h.preTbtt hpre
      · intro h
        exact ⟨fun _ => h, fun hc => absurd (hpre.symm.trans hc) (by decide),
          fun hc => absurd (hpre.symm.trans hc) (by decide)⟩
    simp only [readEvent, hpre, if_true, Log.all_entry, Entry.Within, Inside, hfits,
      Usb.ar9170CmdHdrLen]
    omega
  · by_cases htx : m (off + 1) = Usb.rspTxComp
    · have hfits : EventFits m n off ↔
          off + 4 + 2 * (min (m (off + 3)).toNat ((m off).toNat / 2 + 2) : Nat) ≤ n := by
        constructor
        · intro h
          exact h.txComp htx
        · intro h
          exact ⟨fun hc => absurd hc hpre, fun _ => h,
            fun hc => absurd (htx.symm.trans hc) (by decide)⟩
      have hne : Usb.rspTxComp ≠ Usb.rspPreTbtt := by decide
      simp only [readEvent, htx, hne, if_true, if_false, txProcessStatus, Log.all_bind,
        all_readByte, value_readByte, all_readStatuses hoff, Log.all_ite, Log.all_entry,
        Log.all_pure, implies_true, and_true, Entry.Within, Inside, hfits, Usb.ar9170CmdHdrLen]
      omega
    · have hfits : EventFits m n off ↔ (m (off + 1) = rspBeaconConfig →
          off + 5 ≤ n ∧ (m (off + 4) = 1 → off + 6 ≤ n)) := by
        constructor
        · intro h
          exact h.beacon
        · intro h
          exact ⟨fun hc => absurd hc hpre, fun hc => absurd hc htx, h⟩
      have hsent : Inside n (off + 4) 1 ↔ off + 5 ≤ n := by
        simp only [Inside]
        omega
      have hcount : Inside n (off + 5) 1 ↔ off + 6 ≤ n := by
        simp only [Inside]
        omega
      have htext : Inside n (off + 4) (m off).toNat := by
        simp only [Inside]
        omega
      simp [readEvent, hpre, htx, all_readByte, Entry.Within, hfits, Usb.ar9170CmdHdrLen,
        hsent, hcount, htext]

theorem eventFits_of_not_rsp {off : Int}
    (h : m (off + 1) &&& Usb.rspFlag ≠ Usb.rspFlag) : EventFits m n off := by
  refine ⟨?_, ?_, ?_⟩ <;>
  · intro hc
    rw [hc] at h
    exact absurd (by decide) h

theorem all_handleCommandResponse {off : Int} (hin : Inside n off ((m off).toNat + 4))
    (answers : Nat) :
    (handleCommandResponse m off ((m off).toNat + 4) answers d).All (Entry.Within n) ↔
      ((Usb.checkSequence (m (off + 2)).toNat d.usb).isSome → EventFits m n off) := by
  have hevent := all_readEvent hin
  have hseq : Entry.Within n (.read (off + 2) 1) := hin.part (by decide) (by decide) (by omega)
  have hcmd : Entry.Within n (.read (off + 1) 1) := hin.part (by decide) (by decide) (by omega)
  have hlen : Entry.Within n (.read off 1) := hin.take (by decide) (by omega)
  have hpayload : Entry.Within n (.read (off + 4) (m off).toNat) :=
    hin.part (by decide) (by omega) (by omega)
  rw [handleCommandResponse, Log.all_bind, all_readByte, value_readByte]
  cases Usb.checkSequence (m (off + 2)).toNat d.usb with
  | none => simp [hseq]
  | some s =>
      by_cases hrsp : m (off + 1) &&& Usb.rspFlag = Usb.rspFlag
      · simp [all_readByte, hseq, hcmd, hlen, hrsp, Usb.ar9170CmdHdrLen, hevent]
      · simp [all_readByte, hseq, hcmd, hrsp, hpayload, Usb.ar9170CmdHdrLen,
          eventFits_of_not_rsp hrsp]

/-- The response that the bytes at `off` stand for. -/
def rspAt (m : Memory UInt8) (off : Int) (len answers : Nat) : Usb.Rsp :=
  ⟨(m (off + 2)).toNat, m (off + 1), (m off).toNat, len, answers⟩

theorem value_handleCommandResponse (off : Int) (len answers : Nat) :
    (handleCommandResponse m off len answers d).value =
      { d with usb := Usb.handleCommandResponse (rspAt m off len answers) d.usb } := by
  rw [handleCommandResponse, Log.value_bind, value_readByte]
  cases h : Usb.checkSequence (m (off + 2)).toNat d.usb with
  | none => simp [Usb.handleCommandResponse, rspAt, h]
  | some s => simp [rspAt]

theorem all_rxUntieCmds (off : Int) (answers : Nat) :
    (rxUntieCmds m off ((m off).toNat + 4) answers d).All (Entry.Within n) ↔
      CommandFits m n off d.usb := by
  rw [rxUntieCmds_eq, Log.all_bind, Log.all_entry]
  by_cases hin : Inside n off ((m off).toNat + 4)
  · have hlen : Inside n off 1 := hin.take (by decide) (by omega)
    have hfits : CommandFits m n off d.usb ↔
        ((Usb.checkSequence (m (off + 2)).toNat d.usb).isSome → EventFits m n off) := by
      constructor
      · intro h
        exact h.event
      · intro h
        exact ⟨hin, h⟩
    simp [all_readByte, all_handleCommandResponse hin, hfits, Entry.Within, hin, hlen]
  · constructor
    · intro h
      exact absurd h.1 (by simpa [Entry.Within] using hin)
    · intro h
      exact absurd h.inside hin

theorem value_rxUntieCmds (off : Int) (answers : Nat) :
    (rxUntieCmds m off ((m off).toNat + 4) answers d).value =
      { d with usb := Usb.handleCommandResponse
                (rspAt m off ((m off).toNat + 4) answers) d.usb } := by
  simp [rxUntieCmds_eq, value_handleCommandResponse]

/-- Whether the check lets a number through depends on the counter alone. -/
theorem isSome_checkSequence_congr {s t : Usb.State} (hseq : s.cmdSeq = t.cmdSeq) (q : Nat) :
    (Usb.checkSequence q s).isSome = (Usb.checkSequence q t).isSome := by
  simp only [Usb.checkSequence, hseq]
  by_cases hlow : t.cmdSeq < -1
  · rw [if_pos hlow, if_pos hlow]
    rfl
  · rw [if_neg hlow, if_neg hlow]
    by_cases hexpected : (q : Int) = if t.cmdSeq < 0 then (q : Int) else t.cmdSeq
    · rw [if_pos hexpected, if_pos hexpected]
      rfl
    · rw [if_neg hexpected, if_neg hexpected]

/-- Behind a response the check lets through what it lets through behind the check
of its number. -/
theorem isSome_checkSequence_handle (r : Usb.Rsp) (s : Usb.State) (q : Nat) :
    (Usb.checkSequence q (Usb.handleCommandResponse r s)).isSome =
      (Usb.checkSequence q ((Usb.checkSequence r.seq s).getD s)).isSome := by
  cases h : Usb.checkSequence r.seq s with
  | none => simp [Usb.handleCommandResponse, h]
  | some t => exact isSome_checkSequence_congr (Usb.handleCommandResponse_seq h).1 q

/-! ### MPDUs -/

/-- The MPDU, the headers the device has put around it, and a MAC status lie in
the transfer. -/
structure Mpdu.Placed (n : Nat) (p : Mpdu) : Prop where
  inside : Inside n p.buf (p.len + 4)
  head : ∀ h ∈ p.head, Inside n h 12
  phy : ∀ f ∈ p.phy, Inside n f 7

theorem all_rxMacStatus {head : Option Int} {mac : Int} (hmac : Inside n mac 4)
    (hhead : ∀ h ∈ head, Inside n h 12) :
    (rxMacStatus m head mac d).All (Entry.Within n) := by
  have herror : Inside n (mac + 2) 1 := hmac.part (by decide) (by decide) (by decide)
  have hword : Inside n mac 2 := hmac.take (by decide) (by decide)
  have hstatus : Inside n (mac + 3) 1 := hmac.part (by decide) (by decide) (by decide)
  cases head with
  | none => simp [rxMacStatus, all_readByte, Entry.Within, herror, hword, hstatus]
  | some h =>
      have hplcp := hhead h rfl
      have hfirst : Inside n h 1 := hplcp.take (by decide) (by decide)
      have hthree : Inside n (h + 3) 1 := hplcp.part (by decide) (by decide) (by decide)
      have hsix : Inside n (h + 6) 1 := hplcp.part (by decide) (by decide) (by decide)
      simp [rxMacStatus, all_readByte, Entry.Within, herror, hword, hstatus, hfirst, hthree, hsix]

theorem all_psBeacon {buf len : Int} (hin : Inside n buf len) (hlen : 2 ≤ len)
    (hlong : len < 2 ^ 31) (ps : Bool) :
    (psBeacon m buf len ps).All (Entry.Within n) := by
  have hfc : Inside n buf 2 := hin.take (by decide) hlen
  have hbssid : 44 < u32 len → Inside n (buf + 16) 6 := by
    intro h
    have := u32_of_nonneg (by omega : 0 ≤ len) (by omega)
    exact hin.part (by decide) (by decide) (by omega)
  simp only [psBeacon, Log.all_ite, Log.all_bind, Log.all_entry, Log.all_pure, Entry.Within,
    Bool.and_eq_true, decide_eq_true_eq, implies_true, and_true]
  intro _
  exact ⟨hfc, fun h => hbssid h.2⟩

theorem all_scheduleHandleMpdu {buf len : Int} (hin : Inside n buf (len + 4)) (hlen : 0 ≤ len)
    (canStore : Bool) : (scheduleHandleMpdu buf len canStore).All (Entry.Within n) := by
  have hstore : Inside n buf len := hin.take hlen (by omega)
  have hwords : Inside n buf (4 * ((len.toNat + 3) / 4) : Nat) := hin.take (by omega) (by omega)
  simp only [scheduleHandleMpdu, Log.all_bind, Log.all_ite, Log.all_entry, Log.all_pure,
    Entry.Within, implies_true, and_true]
  exact ⟨hstore, fun _ => hwords⟩

theorem all_acceptMpdu {p : Mpdu} {mac : Int} {macStatus : UInt8} (hp : p.Placed n)
    (hmac : Inside n mac 4) (hlong : p.len < 2 ^ 31) :
    (acceptMpdu m p mac macStatus d).All (Entry.Within n) := by
  obtain ⟨hin, hhead, hphy⟩ := hp
  by_cases hshort : p.len < 14
  · simp [acceptMpdu, hshort]
  · have hfc : Inside n p.buf 2 := hin.take (by decide) (by omega)
    have haddr : Inside n (p.buf + 4) 6 := hin.part (by decide) (by decide) (by omega)
    have hps := all_psBeacon (m := m) (hin.take (by omega) (by omega)) (by omega) hlong d.ps
    have hstore := all_scheduleHandleMpdu hin (by omega) d.canStore
    have hstatus := all_rxMacStatus (m := m) (d := d) hmac hhead
    cases h : p.phy with
    | none =>
        simp [acceptMpdu, h, hshort, hstatus, hps, hstore, ampduCheck, Entry.Within, hfc, haddr]
    | some f =>
        have hf : Inside n f 7 := hphy f h
        simp [acceptMpdu, h, hshort, hstatus, hps, hstore, ampduCheck, Entry.Within, hfc, haddr,
          hf]

theorem all_splitMpdu {buf l : Int} {macStatus : UInt8} (hin : Inside n buf (l + 4)) (hl : 0 ≤ l)
    (hlong : l < 2 ^ 31) :
    (splitMpdu m buf l macStatus d).All (Entry.Within n) ↔
      (macStatus &&& rxStatusMpdu = rxStatusMpduSingle → 32 ≤ l) := by
  have hu := u32_of_nonneg hl (by omega)
  by_cases hfirst : macStatus &&& rxStatusMpdu = rxStatusMpduFirst
  · have hne : rxStatusMpduFirst ≠ rxStatusMpduSingle := by decide
    by_cases hroom : 12 ≤ u32 l
    · have hhead : Inside n buf 12 := hin.take (by decide) (by omega)
      have hlen : 12 ≤ l := by omega
      simp [splitMpdu, hfirst, hne, hroom, hhead, hlen, Entry.Within, rxHeadLen]
    · simp [splitMpdu, hfirst, hne, hroom]
  · by_cases hsingle : macStatus &&& rxStatusMpdu = rxStatusMpduSingle
    · have hne : rxStatusMpduSingle ≠ rxStatusMpduFirst := by decide
      simp only [splitMpdu, hsingle, hne, if_true, if_false, Log.all_bind, Log.all_entry,
        Log.all_pure, Entry.Within, rxHeadLen, rxPhystatusLen, and_true, true_imp_iff]
      omega
    · by_cases hlast : 20 ≤ u32 l
      · have hlen : 20 ≤ l := by omega
        simp [splitMpdu, hfirst, hsingle, hlast, hlen, Entry.Within, rxPhystatusLen]
      · simp [splitMpdu, hfirst, hsingle, hlast]

theorem placed_of_splitMpdu {buf l : Int} {macStatus : UInt8} {p : Mpdu}
    (hin : Inside n buf (l + 4)) (hl : 0 ≤ l) (hlong : l < 2 ^ 31)
    (hsingle : macStatus &&& rxStatusMpdu = rxStatusMpduSingle → 32 ≤ l)
    (h : (splitMpdu m buf l macStatus d).value.1 = some p) : p.Placed n ∧ p.len < 2 ^ 31 := by
  have hu := u32_of_nonneg hl (by omega)
  by_cases hfirst : macStatus &&& rxStatusMpdu = rxStatusMpduFirst
  · by_cases hroom : 12 ≤ u32 l
    · simp only [splitMpdu, hfirst, hroom, if_true, Log.value_bind, Log.value_pure,
        Option.some.injEq, rxHeadLen] at h
      subst h
      have hbody : Inside n (buf + 12) (l - 12 + 4) := hin.part (by decide) (by omega) (by omega)
      have hhead : Inside n buf 12 := hin.take (by decide) (by omega)
      exact ⟨⟨hbody, by simpa using hhead, by simp⟩, by simp only; omega⟩
    · simp [splitMpdu, hfirst, hroom] at h
  · by_cases hs : macStatus &&& rxStatusMpdu = rxStatusMpduSingle
    · have hlen := hsingle hs
      have hne : rxStatusMpduSingle ≠ rxStatusMpduFirst := by decide
      simp only [splitMpdu, hs, hne, if_true, if_false, Log.value_bind, Log.value_pure,
        Option.some.injEq, rxHeadLen, rxPhystatusLen] at h
      subst h
      have hbody : Inside n (buf + 12) (l - 12 - 20 + 4) :=
        hin.part (by decide) (by omega) (by omega)
      have hhead : Inside n buf 12 := hin.take (by decide) (by omega)
      have hphy : Inside n (buf + 12 + (l - 12 - 20)) 7 := by
        rw [Int.add_assoc]
        exact hin.part (by omega) (by decide) (by omega)
      exact ⟨⟨hbody, by simpa using hhead, by simpa using hphy⟩, by simp only; omega⟩
    · by_cases hlast : macStatus &&& rxStatusMpdu = rxStatusMpduLast
      · have hne : rxStatusMpduLast ≠ rxStatusMpduFirst := by decide
        have hne' : rxStatusMpduLast ≠ rxStatusMpduSingle := by decide
        by_cases hroom : 20 ≤ u32 l
        · by_cases hplcp : d.rxHasPlcp
          · simp only [splitMpdu, hlast, hne, hne', hroom, hplcp, if_true, if_false,
              Log.value_bind, Log.value_pure, Option.some.injEq, rxPhystatusLen] at h
            subst h
            have hbody : Inside n buf (l - 20 + 4) := hin.take (by omega) (by omega)
            have hphy : Inside n (buf + (l - 20)) 7 := hin.part (by omega) (by decide) (by omega)
            exact ⟨⟨hbody, by simp, by simpa using hphy⟩, by simp only; omega⟩
          · simp [splitMpdu, hlast, hne, hne', hroom, hplcp] at h
        · simp [splitMpdu, hlast, hne, hne', hroom] at h
      · by_cases hplcp : d.rxHasPlcp
        · simp only [splitMpdu, hfirst, hs, hlast, hplcp, if_true, if_false, Log.value_pure,
            Option.some.injEq] at h
          subst h
          exact ⟨⟨hin, by simp, by simp⟩, hlong⟩
        · simp [splitMpdu, hfirst, hs, hlast, hplcp] at h

/-- Behind the search the MPDU has to have room for the headers of its kind only. -/
theorem all_handleTrimmed {buf l : Int} (hin : Inside n buf l) (hl : 4 ≤ l) (hlong : l < 2 ^ 31) :
    (handleTrimmed m buf l d).All (Entry.Within n) ↔
      (SingleAt m (buf + l - 4) → 36 ≤ l) := by
  have hlen : i32 (l - 4) = l - 4 := i32_eq_self (by omega) (by omega)
  have haddr : buf + l - 4 = buf + (l - 4) := by omega
  have hmac : Inside n (buf + (l - 4)) 4 := hin.part (by omega) (by decide) (by omega)
  have hstatus : Inside n (buf + (l - 4) + 3) 1 := hmac.part (by decide) (by decide) (by decide)
  have hbody : Inside n buf (l - 4 + 4) := by simpa using hin
  simp only [handleTrimmed, Log.all_bind, Log.all_entry, all_readByte, value_readByte,
    Entry.Within, rxMacstatusLen, SingleAt, hlen, haddr]
  rw [all_splitMpdu hbody (by omega) (by omega)]
  constructor
  · rintro ⟨-, -, hsingle, -⟩ h
    have := hsingle h
    omega
  · intro h
    have hsingle : m (buf + (l - 4) + 3) &&& rxStatusMpdu = rxStatusMpduSingle → 32 ≤ l - 4 := by
      intro hs
      have := h hs
      omega
    refine ⟨by omega, hstatus, hsingle, ?_⟩
    cases hsplit : (splitMpdu m buf (l - 4) (m (buf + (l - 4) + 3)) d).value.1 with
    | none => simp
    | some p =>
        obtain ⟨hplaced, hplong⟩ :=
          placed_of_splitMpdu hbody (by omega) (by omega) hsingle hsplit
        simp [all_acceptMpdu hplaced hmac hplong]

/-! ### The search for the MAC status -/

/-- The search stops at the last pair that lies behind the first header. -/
theorem findMacStatus_spec (buf : Int) {counter : Nat} (hlong : counter + 8 < 2 ^ 32) :
    match (findMacStatus m buf counter).value with
    | none => ∀ j : Nat, 1 ≤ j → j ≤ counter → ¬ PairAt m (buf + (j + 8))
    | some c => 1 ≤ c ∧ c ≤ counter ∧ PairAt m (buf + (c + 8)) ∧
        ∀ j : Nat, c < j → j ≤ counter → ¬ PairAt m (buf + (j + 8)) := by
  induction counter with
  | zero =>
      intro j hpos hle
      omega
  | succ counter ih =>
      have haddr : (u32 ((counter + 1 : Nat) + rxHeadLen - rxMacstatusLen) : Int) =
          (counter + 1 : Nat) + 8 := by
        rw [u32_of_nonneg] <;> simp only [rxHeadLen, rxMacstatusLen] <;> omega
      simp only [findMacStatus, Log.value_bind, value_memcmp, Log.value_ite, Log.value_pure, haddr,
        decide_eq_true_eq]
      by_cases hpair : OccursAt m macStatusPattern (buf + ((counter + 1 : Nat) + 8))
      · rw [if_pos hpair]
        refine ⟨Nat.le_add_left 1 _, Nat.le_refl _, hpair, ?_⟩
        intro j hlt hle
        omega
      · rw [if_neg hpair]
        have hprev := ih (by omega)
        cases hfound : (findMacStatus m buf counter).value with
        | none =>
            rw [hfound] at hprev
            intro j hpos hle
            by_cases hj : j = counter + 1
            · rw [hj]
              exact hpair
            · exact hprev j hpos (by omega)
        | some c =>
            rw [hfound] at hprev
            obtain ⟨hpos, hle, hc, hlast⟩ := hprev
            refine ⟨hpos, by omega, hc, ?_⟩
            intro j hlt hle'
            by_cases hj : j = counter + 1
            · rw [hj]
              exact hpair
            · exact hlast j hlt (by omega)

theorem all_findMacStatus {buf : Int} {counter : Nat} (hin : Inside n buf (counter + 10))
    (hlong : counter + 8 < 2 ^ 32) : (findMacStatus m buf counter).All (Entry.Within n) := by
  induction counter with
  | zero => simp [findMacStatus]
  | succ counter ih =>
      have haddr : (u32 ((counter + 1 : Nat) + rxHeadLen - rxMacstatusLen) : Int) =
          (counter + 1 : Nat) + 8 := by
        rw [u32_of_nonneg] <;> simp only [rxHeadLen, rxMacstatusLen] <;> omega
      have hread : Entry.Within n (.read (buf + ((counter + 1 : Nat) + 8))
          macStatusPattern.length) :=
        hin.part (by omega) (by decide) (by simp [macStatusPattern]; omega)
      have hnext := ih (hin.take (by omega) (by omega)) (by omega)
      simp only [findMacStatus, Log.all_bind, all_memcmp, Log.all_ite, Log.all_pure, haddr]
      exact ⟨hread, fun _ => trivial, fun _ => hnext⟩

/-- With a pair in the MPDU, it must leave room for the PHY status before it. -/
theorem all_handleSearched_some {buf l : Int} {c : Nat} (hin : Inside n buf l)
    (hlong : l < 2 ^ 31) (hpos : 1 ≤ c) (hle : (c : Int) ≤ l - 12) :
    (handleSearched m buf l (u32 (l - 12)) (some c) d).All (Entry.Within n) ↔
      13 ≤ c ∧ (SingleAt m (buf + (c + 8)) → 24 ≤ c) := by
  have hstart := u32_of_nonneg (by omega : 0 ≤ l - 12) (by omega)
  have htrim : i32 (l - (u32 (l - 12) - c : Nat)) = c + 12 := by
    rw [i32_eq_self] <;> omega
  have htrimmed := all_handleTrimmed (m := m) (d := d)
    (hin.take (by omega) (by omega) : Inside n buf (c + 12)) (by omega) (by omega)
  have haddr : buf + (c + 12) - 4 = buf + ((c : Int) + 8) := by omega
  rw [haddr] at htrimmed
  simp only [handleSearched, Log.all_bind, Log.all_entry, all_memcmp, htrim, htrimmed,
    Entry.Within]
  constructor
  · rintro ⟨hcounter, -, hsingle⟩
    exact ⟨by omega, fun h => by have := hsingle h; omega⟩
  · rintro ⟨hcounter, hsingle⟩
    have hindex : (u32 ((c : Int) - 13) : Int) = c - 13 := u32_of_nonneg (by omega) (by omega)
    have hphy : (u32 (u32 ((c : Int) - 13) + rxHeadLen - rxMacstatusLen) : Int) = c - 5 := by
      rw [hindex, u32_of_nonneg] <;> simp only [rxHeadLen, rxMacstatusLen] <;> omega
    rw [hphy]
    refine ⟨by omega, ?_, fun h => by have := hsingle h; omega⟩
    exact hin.part (by omega) (by decide) (by simp [macPhyStatusPattern]; omega)

theorem lastPair_iff {buf l t : Int} {start : Nat} (hstart : (start : Int) = l - 12) :
    LastPair m buf l t ↔ ∃ c : Nat, t = buf + (c + 8) ∧ 1 ≤ c ∧ c ≤ start ∧
      PairAt m (buf + (c + 8)) ∧ ∀ j : Nat, c < j → j ≤ start → ¬ PairAt m (buf + (j + 8)) := by
  constructor
  · rintro ⟨hlo, hhi, hpair, hlast⟩
    obtain ⟨c, rfl⟩ : ∃ c : Nat, t = buf + (c + 8) := ⟨(t - buf - 8).toNat, by omega⟩
    refine ⟨c, rfl, by omega, by omega, hpair, ?_⟩
    intro j hlt hle
    exact hlast (buf + (j + 8)) (by omega) (by omega)
  · rintro ⟨c, rfl, hpos, hle, hpair, hlast⟩
    refine ⟨by omega, by omega, hpair, ?_⟩
    intro s hlt hle'
    obtain ⟨j, rfl⟩ : ∃ j : Nat, s = buf + (j + 8) := ⟨(s - buf - 8).toNat, by omega⟩
    exact hlast j (by omega) (by omega)

theorem LastPair.unique {buf l s t : Int} (hs : LastPair m buf l s) (ht : LastPair m buf l t) :
    s = t := by
  rcases Int.lt_trichotomy s t with h | h | h
  · exact absurd ht.pair (hs.last t h ht.hi)
  · exact h
  · exact absurd hs.pair (ht.last s h hs.hi)

/-- The search and what follows it stay inside an MPDU with room for its headers. -/
theorem mpduFits_iff {buf l : Int} (hin : Inside n buf l) (hl : 12 ≤ l) (hlong : l < 2 ^ 31) :
    (handleSearched m buf l (u32 (l - 12)) (findMacStatus m buf (u32 (l - 12))).value d).All
        (Entry.Within n) ↔ MpduFits m buf l := by
  have hstart := u32_of_nonneg (by omega : 0 ≤ l - 12) (by omega)
  have hcounter : u32 (l - 12) + 8 < 2 ^ 32 := by omega
  have hspec := findMacStatus_spec (m := m) buf hcounter
  cases hfound : (findMacStatus m buf (u32 (l - 12))).value with
  | none =>
      rw [hfound] at hspec
      have hno : ∀ t, ¬ LastPair m buf l t := by
        intro t ht
        obtain ⟨c, -, hpos, hle, hpair, -⟩ := (lastPair_iff hstart).mp ht
        exact hspec c hpos hle hpair
      rw [handleSearched, all_handleTrimmed hin (by omega) hlong]
      constructor
      · intro h
        exact ⟨hl, fun t ht => absurd ht (hno t), fun _ => h⟩
      · intro h
        exact h.plain hno
  | some c =>
      rw [hfound] at hspec
      obtain ⟨hpos, hle, hpair, hnext⟩ := hspec
      have hlast : LastPair m buf l (buf + (c + 8)) :=
        (lastPair_iff hstart).mpr ⟨c, rfl, hpos, hle, hpair, hnext⟩
      rw [all_handleSearched_some hin hlong hpos (by omega)]
      constructor
      · rintro ⟨hphy, hsingle⟩
        refine ⟨hl, ?_, fun hno => absurd hlast (hno _)⟩
        intro t ht
        rw [ht.unique hlast]
        exact ⟨by omega, fun h => by have := hsingle h; omega⟩
      · intro h
        obtain ⟨hphy, hsingle⟩ := h.pair _ hlast
        exact ⟨by omega, fun h => by have := hsingle h; omega⟩

theorem all_handleMpdu {buf l : Int} (hn : n < 2 ^ 31) :
    (handleMpdu m buf l d).All (Entry.Within n) ↔
      Inside n buf l ∧ (l ≤ 512 → d.started = true → 4 ≤ l → MpduFits m buf l) := by
  rw [handleMpdu, Log.all_bind, Log.all_entry]
  refine and_congr_right ?_
  intro hin
  have hin : Inside n buf l := hin
  have hl : l < 2 ^ 31 ∧ 0 ≤ l := by
    obtain ⟨hbuf, hlen, hend⟩ := hin
    omega
  have hu := u32_of_nonneg hl.2 (by omega)
  by_cases hlarge : 512 < l
  · simp [hlarge, ar9170RxMaxPacketLength, Int.not_le.mpr hlarge]
  · by_cases hstarted : d.started
    · by_cases hshort : u32 l < 4
      · have hlt : ¬ 4 ≤ l := by omega
        simp [hlarge, hstarted, hshort, hlt, ar9170RxMaxPacketLength]
      · have hge : 4 ≤ l := by omega
        simp only [ar9170RxMaxPacketLength, hlarge, hstarted, hshort, hge, if_false, Bool.not_true,
          Bool.false_eq_true, Log.all_bind, Log.all_entry, Entry.Within, rxHeadLen,
          Int.not_lt.mp hlarge, true_imp_iff]
        constructor
        · rintro ⟨hhead, -, h⟩
          exact (mpduFits_iff hin (by omega) hl.1).mp h
        · intro h
          have hhead := h.head
          have hstart := u32_of_nonneg (by omega : 0 ≤ l - 12) (by omega)
          exact ⟨by omega, all_findMacStatus (hin.take (by omega) (by omega)) (by omega),
            (mpduFits_iff hin hhead hl.1).mpr h⟩
    · simp [hlarge, hstarted, ar9170RxMaxPacketLength]

/-! ### The search for the header -/

/-- A header that begins at `p` is the first one that the search reaches. -/
structure FirstReached (m : Memory UInt8) (n : Nat) (p : Int) : Prop where
  reached : Reached n p
  header : HeaderAt m p
  first : ∀ q, -10 ≤ q → q < p → ¬ HeaderAt m q

/-- The comparisons at a probe that hits `ff` stay inside. -/
structure ProbeFits (m : Memory UInt8) (n : Nat) (x : Int) : Prop where
  behind : x + 12 ≤ n
  before : x = 4 → HeaderAt m 0 ∨ HeaderAt m 1

/-- The position of the `j`-th probe. -/
def probeAt (j : Nat) : Int := 4 + 12 * (j : Int)

/-- From the `i`-th probe on the search stays inside: each probe does, up to the
first header. -/
def SearchFits (m : Memory UInt8) (n i : Nat) : Prop :=
  ∀ j : Nat, i ≤ j → probeAt j + 4 ≤ n →
    (∀ q, probeAt i - 15 < q → q < probeAt j - 14 → ¬ HeaderAt m q) →
    m (probeAt j) = 0xff → ProbeFits m n (probeAt j)

theorem all_compareBackwards {k : Nat} {a : Int} (hk : 0 < k) (ha : (k : Int) ≤ a + 1) :
    (compareBackwards m k a).All (Entry.Within n) ↔ a + 15 ≤ n := by
  induction k generalizing a with
  | zero => omega
  | succ k ih =>
      simp only [compareBackwards, Log.all_bind, all_memcmp, Log.all_ite, Log.all_pure,
        Entry.Within, Inside, value_memcmp, implies_true, true_and]
      have hlen : magicCommandHeader.length = 15 := rfl
      rw [hlen]
      constructor
      · rintro ⟨⟨-, -, h⟩, -⟩
        exact h
      · intro h
        refine ⟨⟨by omega, by decide, h⟩, fun _ => ?_⟩
        by_cases hzero : k = 0
        · simp [hzero, compareBackwards]
        · exact (ih (by omega) (by omega)).mpr (by omega)

/-- At the first probe two alignments begin in the transfer, and the third does
not. -/
theorem all_compareBackwards_one (k : Nat) :
    (compareBackwards m (k + 3) 1).All (Entry.Within n) ↔
      16 ≤ n ∧ (HeaderAt m 0 ∨ HeaderAt m 1) := by
  have hlen : magicCommandHeader.length = 15 := rfl
  by_cases h1 : OccursAt m magicCommandHeader 1
  · simp [compareBackwards, all_memcmp, Entry.Within, Inside, hlen, HeaderAt, h1]
  · by_cases h0 : OccursAt m magicCommandHeader 0
    · simp [compareBackwards, all_memcmp, Entry.Within, Inside, hlen, HeaderAt, h1, h0]
      omega
    · simp [compareBackwards, all_memcmp, Entry.Within, Inside, hlen, HeaderAt, h1, h0]

theorem all_compareBackwards_probe {i : Nat} (hreach : probeAt i + 4 ≤ n) :
    (compareBackwards m 12 (probeAt i - 3)).All (Entry.Within n) ↔ ProbeFits m n (probeAt i) := by
  by_cases hzero : i = 0
  · subst hzero
    have h := all_compareBackwards_one (m := m) (n := n) 9
    constructor
    · intro hall
      obtain ⟨hn, hheader⟩ := h.mp hall
      exact ⟨by simp only [probeAt]; omega, fun _ => hheader⟩
    · rintro ⟨hbehind, hbefore⟩
      simp only [probeAt] at hbehind
      exact h.mpr ⟨by omega, hbefore rfl⟩
  · rw [all_compareBackwards (by decide) (by simp only [probeAt]; omega)]
    constructor
    · intro h
      exact ⟨by omega, fun hfour => absurd hfour (by simp only [probeAt]; omega)⟩
    · rintro ⟨hbehind, -⟩
      omega

/-- The first probe decides the search when a header lies around it. -/
theorem searchFits_of_header {i : Nat} {p : Int} (hlo : probeAt i - 15 < p)
    (hhi : p ≤ probeAt i - 3) (hp : HeaderAt m p) :
    SearchFits m n i ↔
      (probeAt i + 4 ≤ n → m (probeAt i) = 0xff → ProbeFits m n (probeAt i)) := by
  constructor
  · intro h hreach
    exact h i (Nat.le_refl i) hreach (fun q hq hq' => by omega)
  · intro h j hij hreach hno hhit
    by_cases heq : j = i
    · subst heq
      exact h hreach hhit
    · have hprobe : probeAt i + 12 ≤ probeAt j := by
        simp only [probeAt]
        omega
      exact absurd hp (hno p hlo (by omega))

/-- With no header around it, the first probe and the rest of the search count. -/
theorem searchFits_of_noHeader {i : Nat}
    (hno : ∀ q, probeAt i - 15 < q → q ≤ probeAt i - 3 → ¬ HeaderAt m q) :
    SearchFits m n i ↔
      (probeAt i + 4 ≤ n → m (probeAt i) = 0xff → ProbeFits m n (probeAt i)) ∧
        SearchFits m n (i + 1) := by
  have hnext : probeAt (i + 1) = probeAt i + 12 := by
    simp only [probeAt]
    omega
  constructor
  · intro h
    refine ⟨fun hreach => h i (Nat.le_refl i) hreach (fun q hq hq' => by omega), ?_⟩
    intro j hij hreach hno' hhit
    apply h j (by omega) hreach _ hhit
    intro q hq hq'
    by_cases hwindow : q ≤ probeAt i - 3
    · exact hno q hq hwindow
    · exact hno' q (by omega) hq'
  · rintro ⟨hprobe, hrest⟩ j hij hreach hno' hhit
    by_cases heq : j = i
    · subst heq
      exact hprobe hreach hhit
    · exact hrest j (by omega) hreach (fun q hq hq' => hno' q (by omega) hq') hhit

/-- No probe is left. -/
theorem searchFits_of_end {i : Nat} (hend : ¬ probeAt i + 4 ≤ n) : SearchFits m n i := by
  intro j hij hreach
  simp only [probeAt] at hend hreach
  omega

theorem all_findHeader {turns i : Nat} (hturns : probes ((n : Int) - probeAt i) ≤ turns) :
    (findHeader m turns ((n : Int) - probeAt i) (probeAt i)).All (Entry.Within n) ↔
      SearchFits m n i := by
  induction turns generalizing i with
  | zero =>
      have hend : ¬ probeAt i + 4 ≤ n := by
        simp only [probes] at hturns
        omega
      simp [findHeader, searchFits_of_end hend]
  | succ turns ih =>
      by_cases hreach : probeAt i + 4 ≤ n
      · have hnext : probeAt i + 12 = probeAt (i + 1) := by
          simp only [probeAt]
          omega
        have hrest : (n : Int) - probeAt i - 12 = n - probeAt (i + 1) := by omega
        have hturns' : probes ((n : Int) - probeAt (i + 1)) ≤ turns := by
          simp only [probes] at *
          omega
        have hin : Inside n (probeAt i) 1 := by
          simp only [probeAt] at *
          simp only [Inside]
          omega
        have hgo : ar9170MinHdrLen ≤ (n : Int) - probeAt i := by
          simp only [ar9170MinHdrLen]
          omega
        rw [findHeader, if_pos hgo]
        by_cases hhit : m (probeAt i) = 0xff
        · have hcompare := all_compareBackwards_probe (m := m) hreach
          cases halign : align m magicCommandHeader 12 (probeAt i - 3) with
          | none =>
              have hno : ∀ q, probeAt i - 15 < q → q ≤ probeAt i - 3 → ¬ HeaderAt m q :=
                fun q hq hq' => align_eq_none halign (by omega) hq'
              simp [all_readByte, Entry.Within, hin, hhit, magicRsp0xffHdrLen, magicRspNonFfLen,
                halign, hcompare, hnext, hrest, ih hturns', searchFits_of_noHeader hno, hreach]
          | some p =>
              obtain ⟨hp, hlo, hhi⟩ := align_eq_some halign
              simp [all_readByte, Entry.Within, hin, hhit, magicRsp0xffHdrLen, magicRspNonFfLen,
                halign, hcompare, hreach, searchFits_of_header (by omega) hhi hp]
        · have hno : ∀ q, probeAt i - 15 < q → q ≤ probeAt i - 3 → ¬ HeaderAt m q :=
            fun q hq hq' hocc =>
              hhit (endsInRun_magicCommandHeader.hit hocc (by omega) (by omega))
          simp [all_readByte, Entry.Within, hin, hhit, magicRsp0xffHdrLen, hnext, hrest,
            ih hturns', searchFits_of_noHeader hno]
      · have hstop : ¬ ar9170MinHdrLen ≤ (n : Int) - probeAt i := by
          simp only [ar9170MinHdrLen]
          omega
        simp [findHeader, hstop, searchFits_of_end hreach]

/-! ### A whole transfer -/

/-- MPDUs of other lengths, or for a device that is not started, are dropped unseen. -/
def FrameFits (m : Memory UInt8) (buf l : Int) (started : Bool) : Prop :=
  l ≤ 512 → started = true → 4 ≤ l → MpduFits m buf l

/-- The bytes from `e` on, behind the first command. -/
structure RestFits (m : Memory UInt8) (n : Nat) (e : Int) (usb : Usb.State) (started : Bool) :
    Prop where
  header : e + 16 ≤ n
  command : HeaderAt m (e + 1) → CommandFits m n (e + 16) usb
  mpdu : ¬ HeaderAt m (e + 1) → FrameFits m e (n - e) started

/-- The bytes around the header at `p`. -/
structure FoundFits (m : Memory UInt8) (n : Nat) (p : Int) (usb : Usb.State) (started : Bool) :
    Prop where
  pos : 1 ≤ p
  command : CommandFits m n (p + 15) usb
  front : 5 < p → FrameFits m 4 (p - 5) started
  rest : p + 15 + commandLen m p < n → RestFits m n (p + 15 + commandLen m p)
    ((Usb.checkSequence (m (p + 17)).toNat usb).getD usb) started

/-- The transfer can be taken apart without a look behind its end. -/
structure Safe (m : Memory UInt8) (n : Nat) (usb : Usb.State) (started : Bool) : Prop where
  long : 4 ≤ n
  search : SearchFits m n 0
  found : ∀ p, FirstReached m n p → FoundFits m n p usb started
  plain : (∀ p, Reached n p → ¬ HeaderAt m p) → FrameFits m 4 (n - 4) started

/-- The device after an MPDU answers and drops as before. -/
theorem value_handleMpdu (buf l : Int) :
    (handleMpdu m buf l d).value.usb = d.usb ∧ (handleMpdu m buf l d).value.started = d.started := by
  have hsplit (mpduLen : Int) (macStatus : UInt8) :
      (splitMpdu m buf mpduLen macStatus d).value.2.usb = d.usb ∧
        (splitMpdu m buf mpduLen macStatus d).value.2.started = d.started := by
    simp only [splitMpdu, Log.value_ite, Log.value_bind, Log.value_pure]
    split_ifs <;> simp
  have htrimmed (l : Int) : (handleTrimmed m buf l d).value.usb = d.usb ∧
      (handleTrimmed m buf l d).value.started = d.started := by
    have h := hsplit (i32 (l - rxMacstatusLen)) (m (buf + i32 (l - rxMacstatusLen) + 3))
    simp only [handleTrimmed, Log.value_bind, value_readByte]
    cases hvalue : (splitMpdu m buf (i32 (l - rxMacstatusLen))
        (m (buf + i32 (l - rxMacstatusLen) + 3)) d).value with
    | mk found d' =>
        rw [hvalue] at h
        cases found <;> simpa using h
  have hsearched (start : Nat) (found : Option Nat) :
      (handleSearched m buf l start found d).value.usb = d.usb ∧
        (handleSearched m buf l start found d).value.started = d.started := by
    cases found <;> simp [handleSearched, htrimmed]
  simp only [handleMpdu, Log.value_bind, Log.value_ite, Log.value_pure]
  split_ifs <;> simp [hsearched]

theorem value_handleFront (p : Int) :
    (handleFront m p d).value.usb = d.usb ∧ (handleFront m p d).value.started = d.started := by
  simp only [handleFront, Log.value_bind, Log.value_ite, Log.value_pure]
  split_ifs <;> simp [value_handleMpdu]

/-- Of the state of the USB layer only the check of the number counts. -/
theorem commandFits_congr {usb usb' : Usb.State} {off : Int}
    (h : ∀ q, (Usb.checkSequence q usb).isSome = (Usb.checkSequence q usb').isSome) :
    CommandFits m n off usb ↔ CommandFits m n off usb' := by
  constructor
  · rintro ⟨hin, hevent⟩
    exact ⟨hin, by rwa [← h]⟩
  · rintro ⟨hin, hevent⟩
    exact ⟨hin, by rwa [h]⟩

theorem restFits_congr {usb usb' : Usb.State} {e : Int} {started : Bool}
    (h : ∀ q, (Usb.checkSequence q usb).isSome = (Usb.checkSequence q usb').isSome) :
    RestFits m n e usb started ↔ RestFits m n e usb' started := by
  constructor
  · rintro ⟨hheader, hcommand, hmpdu⟩
    exact ⟨hheader, fun hyes => (commandFits_congr h).mp (hcommand hyes), hmpdu⟩
  · rintro ⟨hheader, hcommand, hmpdu⟩
    exact ⟨hheader, fun hyes => (commandFits_congr h).mpr (hcommand hyes), hmpdu⟩

theorem all_handleRest {e : Int} (hn : n < 2 ^ 31) (hlo : 0 ≤ e) (hhi : e < n) (answers : Nat) :
    (handleRest m e n answers d).All (Entry.Within n) ↔ RestFits m n e d.usb d.started := by
  have hlen : magicCommandHeader.length = 15 := rfl
  have haddr : e + 1 + 15 = e + 16 := by omega
  have hread : Inside n (e + 1) 15 ↔ e + 16 ≤ n := by
    simp only [Inside]
    omega
  by_cases hheader : OccursAt m magicCommandHeader (e + 1)
  · have hfits : RestFits m n e d.usb d.started ↔
        e + 16 ≤ n ∧ CommandFits m n (e + 16) d.usb := by
      constructor
      · intro h
        exact ⟨h.header, h.command hheader⟩
      · rintro ⟨hroom, hcommand⟩
        exact ⟨hroom, fun _ => hcommand, fun hno => absurd hheader hno⟩
    simp only [handleRest, Log.all_bind, all_memcmp, value_memcmp, hheader, decide_true, if_true,
      all_readByte, value_readByte, Log.all_entry, Entry.Within, hlen, Nat.cast_ofNat, hread,
      hfits, magicRspHdrLength, haddr, Usb.ar9170CmdHdrLen, all_rxUntieCmds]
    constructor
    · rintro ⟨hroom, -, -, hcommand⟩
      exact ⟨hroom, hcommand⟩
    · rintro ⟨hroom, hcommand⟩
      have hbyte : Inside n (e + 16) 1 := hcommand.inside.take (by decide) (by omega)
      obtain ⟨-, -, hend⟩ := hcommand.inside
      exact ⟨hroom, hbyte, by omega, hcommand⟩
  · have hfits : RestFits m n e d.usb d.started ↔
        e + 16 ≤ n ∧ FrameFits m e (n - e) d.started := by
      constructor
      · intro h
        exact ⟨h.header, h.mpdu hheader⟩
      · rintro ⟨hroom, hmpdu⟩
        exact ⟨hroom, fun hyes => absurd hyes hheader, fun _ => hmpdu⟩
    have hrest : i32 (n - e) = n - e := i32_eq_self (by omega) (by omega)
    have hin : Inside n e (n - e) := by
      simp only [Inside]
      omega
    simp [handleRest, all_memcmp, hheader, Entry.Within, hlen, hread, hfits, hrest,
      all_handleMpdu hn, hin, FrameFits]

theorem all_handleFront {p : Int} (hn : n < 2 ^ 31) (hlo : -10 ≤ p) (hhi : p ≤ n) :
    (handleFront m p d).All (Entry.Within n) ↔
      1 ≤ p ∧ (5 < p → FrameFits m 4 (p - 5) d.started) := by
  by_cases hone : p = 1
  · simp [handleFront, hone]
  · have hlen : i32 (p - 5) = p - 5 := i32_eq_self (by omega) (by omega)
    by_cases hpos : 1 ≤ p
    · have hu := u32_of_nonneg (by omega : 0 ≤ p - 1) (by omega)
      by_cases hroom : u32 (p - 1) ≤ 4
      · have hlt : ¬ 5 < p := by omega
        simp [handleFront, hone, hroom, Entry.Within, hlt, hpos]
      · have hgt : 5 < p := by omega
        have hin : Inside n 4 (p - 5) := by
          simp only [Inside]
          omega
        simp [handleFront, hone, hroom, Entry.Within, hlen, all_handleMpdu hn, hin, hgt, hpos,
          FrameFits]
    · simp [handleFront, hone, Entry.Within, hpos]

theorem all_handleFound {p : Int} (hn : n < 2 ^ 31) (hlo : -10 ≤ p) (hhi : p ≤ n)
    (answers : Nat × Nat) :
    (handleFound m p n answers d).All (Entry.Within n) ↔ FoundFits m n p d.usb d.started := by
  have hlen : (m (p + 15)).toNat + 4 = commandLen m p := rfl
  have hcommand := all_rxUntieCmds (m := m) (n := n) (d := d) (p + 15) answers.1
  have hvalue := value_rxUntieCmds (m := m) (d := d) (p + 15) answers.1
  rw [hlen] at hcommand hvalue
  simp only [handleFound, Log.all_bind, all_readByte, value_readByte, Log.all_entry, Log.all_ite,
    Log.all_pure, Entry.Within, magicRspHdrLength, Usb.ar9170CmdHdrLen, Nat.cast_ofNat, hlen,
    hcommand, all_handleFront hn hlo hhi, implies_true, and_true]
  have hfront := value_handleFront (m := m) (p := p)
    (d := (rxUntieCmds m (p + 15) (commandLen m p) answers.1 d).value)
  have hrest (hin : Inside n (p + 15) (commandLen m p))
      (hmore : p + 15 + commandLen m p < n) :
      (handleRest m (p + 15 + commandLen m p) n answers.2 (handleFront m p
          (rxUntieCmds m (p + 15) (commandLen m p) answers.1 d).value).value).All
        (Entry.Within n) ↔
      RestFits m n (p + 15 + commandLen m p)
        ((Usb.checkSequence (m (p + 17)).toNat d.usb).getD d.usb) d.started := by
    obtain ⟨hoff, -, -⟩ := hin
    rw [all_handleRest hn (by omega) hmore, hfront.1, hfront.2, hvalue]
    apply restFits_congr
    intro q
    rw [isSome_checkSequence_handle]
    have hseq : p + 15 + 2 = p + 17 := by omega
    simp only [rspAt, hseq]
  constructor
  · rintro ⟨-, hfits, ⟨hpos, hmpdu⟩, -, hbehind⟩
    have hin : Inside n (p + 15) (commandLen m p) := hfits.inside
    refine ⟨hpos, hfits, by simpa [hvalue] using hmpdu, ?_⟩
    intro hmore
    have hu := u32_of_nonneg (by omega : 0 ≤ (n : Int) - (p + 15)) (by omega)
    exact (hrest hin hmore).mp (hbehind (by omega))
  · rintro ⟨hpos, hfits, hmpdu, hbehind⟩
    have hin : Inside n (p + 15) (commandLen m p) := hfits.inside
    have hbyte : Inside n (p + 15) 1 := hfits.inside.take (by decide) (by omega)
    obtain ⟨-, -, hend⟩ := hin
    have hu := u32_of_nonneg (by omega : 0 ≤ (n : Int) - (p + 15)) (by omega)
    refine ⟨hbyte, hfits, ⟨hpos, by simpa [hvalue] using hmpdu⟩, by omega, ?_⟩
    intro hmore
    have hlt : p + 15 + commandLen m p < n := by omega
    exact (hrest hfits.inside hlt).mpr (hbehind hlt)

theorem all_rx (hn : n < 2 ^ 31) (answers : Nat × Nat) :
    (rx m n answers d).All (Entry.Within n) ↔ Safe m n d.usb d.started := by
  have hprobe : probeAt 0 = 4 := rfl
  have hturns : probes ((n : Int) - probeAt 0) ≤ n := by
    simp only [probes, hprobe]
    omega
  have hsearch := all_findHeader (m := m) hturns
  rw [hprobe] at hsearch
  simp only [rx, Log.all_bind, Log.all_entry, Entry.Within, hsearch]
  cases hfind : (findHeader m n ((n : Int) - 4) 4).value with
  | none =>
      have hno := findHeader_eq_none_iff.mp hfind
      have hin : 4 ≤ n → Inside n 4 ((n : Int) - 4) := by
        intro h
        simp only [Inside]
        omega
      simp only [all_handleMpdu hn]
      constructor
      · rintro ⟨hlong, hfits, -, hmpdu⟩
        exact ⟨by omega, hfits, fun p hp => absurd hp.header (hno p hp.reached), fun _ => hmpdu⟩
      · rintro ⟨hlong, hfits, -, hplain⟩
        exact ⟨by omega, hfits, hin hlong, hplain hno⟩
  | some p =>
      obtain ⟨hreached, hheader, hfirst⟩ := findHeader_eq_some_iff.mp hfind
      have hp : FirstReached m n p := ⟨hreached, hheader, hfirst⟩
      have hle : p ≤ n := by
        obtain ⟨-, hhi⟩ := hreached
        omega
      simp only [all_handleFound hn hreached.1 hle]
      constructor
      · rintro ⟨hlong, hfits, hfound⟩
        refine ⟨by omega, hfits, ?_, fun hno => absurd hheader (hno p hreached)⟩
        intro q hq
        have heq : q = p := by
          rcases Int.lt_trichotomy q p with h | h | h
          · exact absurd hq.header (hfirst q hq.reached.1 h)
          · exact h
          · exact absurd hheader (hq.first p hreached.1 h)
        rw [heq]
        exact hfound
      · rintro ⟨hlong, hfits, hfound, -⟩
        exact ⟨by omega, hfits, hfound p hp⟩

/-- A transfer that the endpoint accepts is read inside its bounds exactly when it is safe. -/
theorem within_iff_safe (m : Memory UInt8) (n : Nat) (answers : Nat × Nat) (d : Device) :
    (bulkInTransferDone m n answers d).All (Entry.Within n) ↔
      (n < 2048 → Safe m n d.usb d.started) := by
  by_cases hlarge : bulkEndpointMaxSize ≤ n
  · have hno : ¬ n < 2048 := Nat.not_lt.mpr hlarge
    simp [bulkInTransferDone, hlarge, hno]
  · have hn : n < 2048 := Nat.not_le.mp hlarge
    simp [bulkInTransferDone, hlarge, hn, all_rx (by omega : n < 2 ^ 31)]

/-- Six bytes are too few for an MPDU, but not for the check of `sizeof(*mac)`. -/
theorem not_within_shortMpdu :
    ¬ (bulkInTransferDone (placed 0 []) 10 (0, 0) (.init [])).All (Entry.Within 10) := by
  have hzero (a : Int) : placed (0 : UInt8) [] a = 0 := by
    cases a <;> rfl
  have hno (p : Int) : ¬ HeaderAt (placed 0 []) p := by
    intro h
    have hcommand : placed (0 : UInt8) [] (p + (2 : Nat)) = 0x4e := OccursAt.apply h rfl
    rw [hzero] at hcommand
    exact absurd hcommand (by decide)
  have hrx : bulkInTransferDone (placed 0 []) 10 (0, 0) (.init []) =
      rx (placed 0 []) 10 (0, 0) (.init []) := rfl
  rw [hrx, all_rx (by decide)]
  intro hsafe
  have hfits := hsafe.plain (fun p _ => hno p) (by decide) rfl (by decide)
  exact absurd hfits.head (by decide)

end Calipso.Ar9170.Rx
