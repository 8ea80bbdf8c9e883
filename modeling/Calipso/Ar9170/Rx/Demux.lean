import Calipso.Ar9170.Rx.Parser

/-!
# Demultiplexing of a transfer

`__ar9170_rx` finds the first header that its probes reach, also one that begins
before the transfer or ends behind it. So a transfer is taken apart as it should
be exactly when no such header comes before the command that is complete, and when
the bytes behind the transfer do not complete a header.
-/

namespace Calipso.Ar9170.Rx

open Wire

variable {α β : Type} {m : Memory UInt8} {len : Nat} {p : Int}

/-- The calls of the handlers for commands and for MPDUs, in order. -/
def upcalls (x : Log Entry α) : List Entry := x.entries.filter Entry.isUpcall

/-- The header of a command response stands at `p`. -/
def HeaderAt (m : Memory UInt8) (p : Int) : Prop := OccursAt m magicCommandHeader p

instance (m : Memory UInt8) (p : Int) : Decidable (HeaderAt m p) :=
  inferInstanceAs (Decidable (OccursAt _ _ _))

/-- The length of the command behind the header at `p`, with its own header. -/
def commandLen (m : Memory UInt8) (p : Int) : Nat := (m (p + 15)).toNat + 4

/-- A header with the whole of its command, behind the byte that the transfer
starts with. -/
structure Complete (m : Memory UInt8) (len : Nat) (p : Int) : Prop where
  pos : 1 ≤ p
  header : HeaderAt m p
  inside : p + 15 + commandLen m p ≤ len

/-- The first complete command of the transfer. -/
structure First (m : Memory UInt8) (len : Nat) (p : Int) : Prop extends Complete m len p where
  first : ∀ q, q < p → ¬ Complete m len q

/-- No header lies in the transfer. -/
def NoHeader (m : Memory UInt8) (len : Nat) : Prop :=
  ∀ p, 0 ≤ p → p + 15 ≤ len → ¬ HeaderAt m p

/-- What is to become of the bytes from `e` on, behind the command. -/
def expectedRest (m : Memory UInt8) (len : Nat) (e : Int) : List Entry :=
  if e = len then []
  else if e + 16 ≤ len ∧ HeaderAt m (e + 1) then [.command (e + 16) (commandLen m (e + 1))]
  else [.mpdu e (len - e)]

/-- What is to become of a transfer whose first command stands behind `p`. -/
def expectedCalls (m : Memory UInt8) (len : Nat) (p : Int) : List Entry :=
  .command (p + 15) (commandLen m p) :: (if 5 < p then [.mpdu 4 (p - 5)] else []) ++
    expectedRest m len (p + 15 + commandLen m p)

/-- The calls are those that the transfer asks for. -/
structure Demultiplexed (m : Memory UInt8) (len : Nat) (calls : List Entry) : Prop where
  command : ∀ p, First m len p → calls = expectedCalls m len p
  mpdu : 4 < len → NoHeader m len → calls = [.mpdu 4 (len - 4)]

/-- The search reaches `p`: some probe at least four bytes before the end of the
transfer falls into the run of a header at `p`. -/
def Reached (len : Nat) (p : Int) : Prop := -10 ≤ p ∧ p ≤ 12 * ((len + 4) / 12 : Nat) - 11

/-- The headers in the transfer, and in the bytes around it, leave no doubt. -/
structure Unambiguous (m : Memory UInt8) (len : Nat) : Prop where
  before : ∀ p, First m len p → ∀ q, -10 ≤ q → q < p → ¬ HeaderAt m q
  behind : ∀ p, First m len p → p + 15 + commandLen m p < len →
    len < p + 15 + commandLen m p + 16 → ¬ HeaderAt m (p + 15 + commandLen m p + 1)
  none : 4 < len → NoHeader m len → ∀ q, Reached len q → ¬ HeaderAt m q

/-! ### What the code returns and whom it calls -/

@[simp] theorem isUpcall_read (off : Int) (n : Nat) : (Entry.read off n).isUpcall = false := rfl

@[simp] theorem isUpcall_length (v : Int) : (Entry.length v).isUpcall = false := rfl

@[simp] theorem isUpcall_untie (off : Int) (n : Nat) : (Entry.untie off n).isUpcall = false := rfl

@[simp] theorem isUpcall_store (off l : Int) : (Entry.store off l).isUpcall = false := rfl

@[simp] theorem isUpcall_command (off : Int) (n : Nat) :
    (Entry.command off n).isUpcall = true := rfl

@[simp] theorem isUpcall_mpdu (off l : Int) : (Entry.mpdu off l).isUpcall = true := rfl

@[simp] theorem upcalls_pure (a : α) : upcalls (pure a : Log Entry α) = [] := rfl

@[simp] theorem upcalls_entry (e : Entry) :
    upcalls (Log.entry e) = if e.isUpcall then [e] else [] := by
  simp [upcalls, List.filter_cons]

@[simp] theorem upcalls_bind (x : Log Entry α) (f : α → Log Entry β) :
    upcalls (x >>= f) = upcalls x ++ upcalls (f x.value) := by
  simp [upcalls]

@[simp] theorem value_readByte (a : Int) : (readByte m a).value = m a := by simp [readByte]

@[simp] theorem upcalls_readByte (a : Int) : upcalls (readByte m a) = [] := rfl

@[simp] theorem value_memcmp (pat : List UInt8) (a : Int) :
    (memcmp m pat a).value = decide (OccursAt m pat a) := by simp [memcmp]

@[simp] theorem upcalls_memcmp (pat : List UInt8) (a : Int) : upcalls (memcmp m pat a) = [] := rfl

/-- The code calls no handler. -/
theorem upcalls_eq_nil {x : Log Entry α} :
    upcalls x = [] ↔ x.All fun e => e.isUpcall = false := by
  simp [upcalls, Log.All, List.filter_eq_nil_iff]

theorem all_readByte {P : Entry → Prop} (a : Int) :
    (readByte m a).All P ↔ P (.read a 1) := by
  simp [readByte]

theorem all_memcmp {P : Entry → Prop} (pat : List UInt8) (a : Int) :
    (memcmp m pat a).All P ↔ P (.read a pat.length) := by
  simp [memcmp]

theorem silent_readStatuses (buf : Int) (n i : Nat) :
    (readStatuses buf n i).All fun e => e.isUpcall = false := by
  induction n generalizing i with
  | zero => simp [readStatuses]
  | succ n ih => simp [readStatuses, ih]

theorem silent_readEvent (buf : Int) (cmd : UInt8) (n : Nat) :
    (readEvent m buf cmd n).All fun e => e.isUpcall = false := by
  simp [readEvent, txProcessStatus, all_readByte, silent_readStatuses]

theorem silent_handleCommandResponse (buf : Int) (n answers : Nat) (d : Device) :
    (handleCommandResponse m buf n answers d).All fun e => e.isUpcall = false := by
  rw [handleCommandResponse, Log.all_bind, all_readByte, value_readByte]
  cases Usb.checkSequence (m (buf + 2)).toNat d.usb with
  | none => simp
  | some s => simp [all_readByte, silent_readEvent]

/-- A slice that is as long as its command says holds that command only. -/
theorem rxUntieCmds_eq (buf : Int) (answers : Nat) (d : Device) :
    rxUntieCmds m buf ((m buf).toNat + 4) answers d = (do
      Log.entry (.untie buf ((m buf).toNat + 4))
      let _ ← readByte m buf
      Log.entry (.command buf ((m buf).toNat + 4))
      handleCommandResponse m buf ((m buf).toNat + 4) answers d) := by
  have hstop (turns : Nat) (d : Device) :
      untieCmds m buf ((m buf).toNat + 4) answers turns ((m buf).toNat + 4) d = pure d := by
    cases turns <;> simp [untieCmds]
  rw [rxUntieCmds, untieCmds, if_pos (by omega)]
  apply Log.ext <;> simp [Usb.ar9170CmdHdrLen, hstop]

theorem upcalls_rxUntieCmds (buf : Int) (answers : Nat) (d : Device) :
    upcalls (rxUntieCmds m buf ((m buf).toNat + 4) answers d) =
      [.command buf ((m buf).toNat + 4)] := by
  have hsilent := upcalls_eq_nil.mpr
    (silent_handleCommandResponse (m := m) buf ((m buf).toNat + 4) answers d)
  simp [rxUntieCmds_eq, hsilent]

theorem silent_findMacStatus (buf : Int) (counter : Nat) :
    (findMacStatus m buf counter).All fun e => e.isUpcall = false := by
  induction counter with
  | zero => simp [findMacStatus]
  | succ counter ih => simp [findMacStatus, all_memcmp, ih]

theorem silent_rxMacStatus (head : Option Int) (mac : Int) (d : Device) :
    (rxMacStatus m head mac d).All fun e => e.isUpcall = false := by
  cases head <;> simp [rxMacStatus, all_readByte]

theorem silent_acceptMpdu (q : Mpdu) (mac : Int) (macStatus : UInt8) (d : Device) :
    (acceptMpdu m q mac macStatus d).All fun e => e.isUpcall = false := by
  obtain ⟨buf, l, head, phy⟩ := q
  cases phy <;>
    simp [acceptMpdu, ampduCheck, psBeacon, scheduleHandleMpdu, silent_rxMacStatus]

theorem silent_handleTrimmed (buf l : Int) (d : Device) :
    (handleTrimmed m buf l d).All fun e => e.isUpcall = false := by
  have hsplit (mpduLen : Int) (macStatus : UInt8) :
      (splitMpdu m buf mpduLen macStatus d).All fun e => e.isUpcall = false := by
    simp [splitMpdu]
  simp only [handleTrimmed, Log.all_bind, Log.all_entry, all_readByte, value_readByte, hsplit]
  cases (splitMpdu m buf (i32 (l - rxMacstatusLen))
      (m (buf + i32 (l - rxMacstatusLen) + 3)) d).value with
  | mk found d' => cases found <;> simp [silent_acceptMpdu]

theorem silent_handleSearched (buf l : Int) (start : Nat) (found : Option Nat) (d : Device) :
    (handleSearched m buf l start found d).All fun e => e.isUpcall = false := by
  cases found <;> simp [handleSearched, silent_handleTrimmed, all_memcmp]

theorem upcalls_handleMpdu (buf l : Int) (d : Device) :
    upcalls (handleMpdu m buf l d) = [.mpdu buf l] := by
  rw [handleMpdu, upcalls_bind, upcalls_entry, upcalls_eq_nil.mpr]
  · rfl
  · simp [silent_findMacStatus, silent_handleSearched]

/-! ### The search -/

theorem endsInRun_magicCommandHeader : EndsInRun magicCommandHeader 0xff 3 12 :=
  ⟨rfl, by decide⟩

theorem borderless_magicCommandHeader : Borderless magicCommandHeader := by
  have h : ∀ d, d < 15 → 0 < d →
      magicCommandHeader.drop d ≠ magicCommandHeader.take (15 - d) := by decide
  intro d hd hlt
  exact h d hlt hd

/-- The number of probes while at least four bytes remain. -/
def probes (remaining : Int) : Nat := ((remaining + 8) / 12).toNat

@[simp] theorem value_compareBackwards (k : Nat) (a : Int) :
    (compareBackwards m k a).value = align m magicCommandHeader k a := by
  induction k generalizing a with
  | zero => rfl
  | succ k ih =>
      by_cases h : OccursAt m magicCommandHeader a
      · simp [compareBackwards, align, h]
      · simp [compareBackwards, align, h, ih]

theorem silent_compareBackwards (k : Nat) (a : Int) :
    (compareBackwards m k a).All fun e => e.isUpcall = false := by
  induction k generalizing a with
  | zero => simp [compareBackwards]
  | succ k ih => simp [compareBackwards, all_memcmp, ih]

theorem silent_findHeader (turns : Nat) (remaining x : Int) :
    (findHeader m turns remaining x).All fun e => e.isUpcall = false := by
  induction turns generalizing remaining x with
  | zero => simp [findHeader]
  | succ turns ih =>
      simp only [findHeader, Log.all_ite, Log.all_bind, all_readByte, value_readByte,
        silent_compareBackwards, Log.all_pure]
      cases (compareBackwards m magicRsp0xffHdrLen (x - magicRspNonFfLen)).value <;>
        simp [ih]

/-- The loop with its count of the remaining bytes is the search with a stride. -/
theorem value_findHeader {turns : Nat} {remaining : Int} (h : probes remaining ≤ turns) (x : Int) :
    (findHeader m turns remaining x).value =
      scan m magicCommandHeader 0xff 3 12 (probes remaining) x := by
  induction turns generalizing remaining x with
  | zero =>
      have hzero : probes remaining = 0 := by omega
      rw [hzero]
      rfl
  | succ turns ih =>
      by_cases hr : ar9170MinHdrLen ≤ remaining
      · have hprobes : probes remaining = probes (remaining - 12) + 1 := by
          simp only [probes, ar9170MinHdrLen] at *
          omega
        have hle : probes (remaining - 12) ≤ turns := by omega
        have hnext := ih hle (x + 12)
        rw [findHeader, if_pos hr, hprobes, scan]
        simp only [Log.value_bind, value_readByte, Log.value_ite]
        by_cases hb : m x = 0xff
        · rw [if_neg (by simpa using hb), if_pos hb, value_compareBackwards]
          cases halign : align m magicCommandHeader 12 (x - 3) with
          | none => simp [magicRsp0xffHdrLen, magicRspNonFfLen, halign, hnext]
          | some q => simp [magicRsp0xffHdrLen, magicRspNonFfLen, halign]
        · rw [if_pos (by simpa using hb), if_neg hb]
          simpa [magicRsp0xffHdrLen] using hnext
      · have hzero : probes remaining = 0 := by
          simp only [probes, ar9170MinHdrLen] at *
          omega
        rw [findHeader, if_neg hr, hzero]
        rfl

/-- The search of `__ar9170_rx` fails exactly when no header is within its reach. -/
theorem findHeader_eq_none_iff :
    (findHeader m len ((len : Int) - 4) 4).value = none ↔
      ∀ q, Reached len q → ¬ HeaderAt m q := by
  have hturns : probes ((len : Int) - 4) = (len + 4) / 12 := by
    simp only [probes]
    omega
  have hle : probes ((len : Int) - 4) ≤ len := by omega
  rw [value_findHeader hle, hturns,
    scan_eq_none_iff endsInRun_magicCommandHeader borderless_magicCommandHeader]
  constructor
  · intro h q hq
    obtain ⟨hlo, hhi⟩ := hq
    exact h q (by omega) (by omega)
  · intro h q hlo hhi
    exact h q ⟨by omega, by omega⟩

/-- The search of `__ar9170_rx` finds the first header within its reach. -/
theorem findHeader_eq_some_iff :
    (findHeader m len ((len : Int) - 4) 4).value = some p ↔
      Reached len p ∧ HeaderAt m p ∧ ∀ q, -10 ≤ q → q < p → ¬ HeaderAt m q := by
  have hturns : probes ((len : Int) - 4) = (len + 4) / 12 := by
    simp only [probes]
    omega
  have hle : probes ((len : Int) - 4) ≤ len := by omega
  rw [value_findHeader hle, hturns]
  constructor
  · intro h
    obtain ⟨hocc, hlo, hhi, hfirst⟩ :=
      scan_eq_some endsInRun_magicCommandHeader borderless_magicCommandHeader h
    refine ⟨⟨by omega, by omega⟩, hocc, ?_⟩
    intro q hq hqp
    exact hfirst q (by omega) hqp
  · rintro ⟨⟨hlo, hhi⟩, hocc, hfirst⟩
    apply scan_of_first endsInRun_magicCommandHeader borderless_magicCommandHeader hocc
    · omega
    · omega
    · intro q hq hqp
      exact hfirst q (by omega) hqp

/-! ### The calls of a whole transfer -/

/-- The calls for the bytes behind the command. -/
def restCalls (m : Memory UInt8) (len : Nat) (e : Int) : List Entry :=
  if HeaderAt m (e + 1) then [.command (e + 16) (commandLen m (e + 1))]
  else [.mpdu e (i32 (len - e))]

theorem upcalls_handleRest (e : Int) (answers : Nat) (d : Device) :
    upcalls (handleRest m e len answers d) = restCalls m len e := by
  have he : e + 1 + 15 = e + 16 := by omega
  by_cases h : OccursAt m magicCommandHeader (e + 1)
  · simp [handleRest, restCalls, HeaderAt, commandLen, h, upcalls_rxUntieCmds,
      magicRspHdrLength, Usb.ar9170CmdHdrLen, he]
  · simp [handleRest, restCalls, HeaderAt, h, upcalls_handleMpdu]

/-- The calls of `__ar9170_rx` from the header at `p` on. -/
def foundCalls (m : Memory UInt8) (len : Nat) (p : Int) : List Entry :=
  .command (p + 15) (commandLen m p) ::
    (if p = 1 ∨ u32 (p - 1) ≤ 4 then [] else [.mpdu 4 (i32 (p - 5))]) ++
    if commandLen m p < u32 (len - (p + 15)) then restCalls m len (p + 15 + commandLen m p) else []

theorem upcalls_handleFront (d : Device) :
    upcalls (handleFront m p d) =
      if p = 1 ∨ u32 (p - 1) ≤ 4 then [] else [.mpdu 4 (i32 (p - 5))] := by
  by_cases h1 : p = 1
  · simp [handleFront, h1]
  · by_cases h4 : u32 (p - 1) ≤ 4
    · simp [handleFront, h1, h4]
    · simp [handleFront, h1, h4, upcalls_handleMpdu]

theorem upcalls_handleFound (answers : Nat × Nat) (d : Device) :
    upcalls (handleFound m p len answers d) = foundCalls m len p := by
  have hcmd := upcalls_rxUntieCmds (m := m) (p + 15) answers.1 d
  by_cases hmore : commandLen m p < u32 (len - (p + 15))
  · have hmore' : (m (p + 15)).toNat + 4 < u32 (len - (p + 15)) := hmore
    simp [handleFound, foundCalls, commandLen, hcmd, upcalls_handleFront, upcalls_handleRest,
      magicRspHdrLength, Usb.ar9170CmdHdrLen, hmore']
  · have hmore' : ¬ (m (p + 15)).toNat + 4 < u32 (len - (p + 15)) := hmore
    simp [handleFound, foundCalls, commandLen, hcmd, upcalls_handleFront,
      magicRspHdrLength, Usb.ar9170CmdHdrLen, hmore']

/-- The calls of `__ar9170_rx` are decided by the first header it reaches. -/
theorem upcalls_rx (answers : Nat × Nat) (d : Device) :
    upcalls (rx m len answers d) =
      match (findHeader m len ((len : Int) - 4) 4).value with
      | some p => foundCalls m len p
      | none => [.mpdu 4 ((len : Int) - 4)] := by
  have hfind := upcalls_eq_nil.mpr (silent_findHeader (m := m) len ((len : Int) - 4) 4)
  rw [rx, upcalls_bind, upcalls_bind, hfind]
  cases (findHeader m len ((len : Int) - 4) 4).value with
  | none => simp [upcalls_handleMpdu]
  | some p => simp [upcalls_handleFound]

/-- Behind a complete command the calls are the expected ones unless a header that
begins in the transfer ends behind it. -/
theorem foundCalls_eq_expectedCalls_iff (hlen : len < 2 ^ 31) (hp : Complete m len p) :
    foundCalls m len p = expectedCalls m len p ↔
      (p + 15 + commandLen m p < len → len < p + 15 + commandLen m p + 16 →
        ¬ HeaderAt m (p + 15 + commandLen m p + 1)) := by
  obtain ⟨hpos, -, hinside⟩ := hp
  have hfront : (p = 1 ∨ u32 (p - 1) ≤ 4) ↔ ¬ 5 < p := by
    simp only [u32]
    omega
  have hfrontLen : i32 (p - 5) = p - 5 := i32_eq_self (by omega) (by omega)
  have hmore : commandLen m p < u32 (len - (p + 15)) ↔ p + 15 + commandLen m p ≠ len := by
    simp only [u32]
    omega
  have hrest : i32 (len - (p + 15 + commandLen m p)) = len - (p + 15 + commandLen m p) :=
    i32_eq_self (by omega) (by omega)
  simp only [foundCalls, expectedCalls, expectedRest, restCalls, hfront, hfrontLen, hmore, hrest,
    ite_not, List.cons_append, List.cons.injEq, true_and, List.append_cancel_left_eq]
  by_cases hend : p + 15 + commandLen m p = len
  · simp only [hend, if_true, true_iff]
    omega
  · by_cases hheader : HeaderAt m (p + 15 + commandLen m p + 1)
    · by_cases hfit : p + 15 + commandLen m p + 16 ≤ len
      · simp only [hend, hheader, hfit, if_true, if_false, and_self, true_iff]
        omega
      · simp only [hend, hheader, hfit, if_true, if_false, and_true, not_true_eq_false]
        constructor
        · simp
        · intro h
          exact absurd (h (by omega) (by omega)) id
    · simp [hend, hheader]

theorem First.reached (h : First m len p) : Reached len p := by
  obtain ⟨⟨hpos, -, hinside⟩, -⟩ := h
  have hcommand : 4 ≤ commandLen m p := Nat.le_add_left 4 _
  constructor <;> omega

/-- A transfer is taken apart as it should be exactly when the headers in it and
around it leave no doubt. -/
theorem demultiplexed_iff (m : Memory UInt8) (len : Nat) (answers : Nat × Nat) (d : Device)
    (hlen : len < 2 ^ 31) :
    Demultiplexed m len (upcalls (rx m len answers d)) ↔ Unambiguous m len := by
  rw [upcalls_rx]
  constructor
  · intro h
    have hfound : ∀ p, First m len p →
        (findHeader m len ((len : Int) - 4) 4).value = some p := by
      intro p hp
      have hcalls := h.command p hp
      cases hfind : (findHeader m len ((len : Int) - 4) 4).value with
      | none => exact absurd hp.header (findHeader_eq_none_iff.mp hfind p hp.reached)
      | some q =>
          simp only [hfind, foundCalls, expectedCalls, List.cons_append, List.cons.injEq,
            Entry.command.injEq] at hcalls
          have hpq : q = p := by omega
          rw [hpq]
    refine ⟨?_, ?_, ?_⟩
    · intro p hp
      exact (findHeader_eq_some_iff.mp (hfound p hp)).2.2
    · intro p hp
      have hcalls := h.command p hp
      rw [hfound p hp] at hcalls
      exact (foundCalls_eq_expectedCalls_iff hlen hp.toComplete).mp hcalls
    · intro hfour hno q hq hheader
      have hcalls := h.mpdu hfour hno
      cases hfind : (findHeader m len ((len : Int) - 4) 4).value with
      | none => exact findHeader_eq_none_iff.mp hfind q hq hheader
      | some p => simp [hfind, foundCalls] at hcalls
  · intro h
    refine ⟨?_, ?_⟩
    · intro p hp
      rw [findHeader_eq_some_iff.mpr ⟨hp.reached, hp.header, h.before p hp⟩]
      exact (foundCalls_eq_expectedCalls_iff hlen hp.toComplete).mpr (h.behind p hp)
    · intro hfour hno
      rw [findHeader_eq_none_iff.mpr (h.none hfour hno)]

/-- One command fills the transfer. -/
theorem demultiplexed_iff_oneCommand :
    Demultiplexed (placed 0 (4 :: magicCommandHeader ++ [0, 0xc0, 0, 0])) 20
      (upcalls (rx (placed 0 (4 :: magicCommandHeader ++ [0, 0xc0, 0, 0])) 20 (0, 0) (.init []))) ↔
    Unambiguous (placed 0 (4 :: magicCommandHeader ++ [0, 0xc0, 0, 0])) 20 :=
  demultiplexed_iff _ 20 (0, 0) (.init []) (by decide)

/-- A header whose command would not fit in the transfer, and a complete command
behind it. -/
def clippedFirst : Memory UInt8 :=
  placed 0 (4 :: magicCommandHeader ++ [200] ++ magicCommandHeader ++ [0, 0xc0, 0, 0])

theorem not_demultiplexed_clippedFirst :
    ¬ Demultiplexed clippedFirst 36 (upcalls (rx clippedFirst 36 (0, 0) (.init []))) := by
  have hfirst : First clippedFirst 36 17 := by
    refine ⟨⟨by decide, by decide, by decide⟩, ?_⟩
    intro q hq hcomplete
    have hnone : ∀ n : Nat, n < 17 → ¬ (1 ≤ n ∧ HeaderAt clippedFirst n ∧
        (n : Int) + 15 + commandLen clippedFirst n ≤ 36) := by decide
    obtain ⟨n, rfl⟩ := Int.eq_ofNat_of_zero_le (by have := hcomplete.pos; omega : 0 ≤ q)
    exact hnone n (by omega) ⟨by have := hcomplete.pos; omega, hcomplete.header, hcomplete.inside⟩
  intro h
  have hcalls := h.command 17 hfirst
  revert hcalls
  decide +kernel

end Calipso.Ar9170.Rx
