import Calipso.Ar9170.Rx.Bounds
import Calipso.Ar9170.Rx.QueueRun

/-!
# Frames out of responses

The device delivers each MPDU between headers of its own, and how these are laid out
depends on the place of the MPDU in its aggregate. `bodies_stored` says that the bodies of
the MPDUs reach the reception queue as they are.
-/

namespace Calipso.Ar9170.Rx

open Wire

variable {α β : Type} {m : Memory UInt8} {buf : ℤ} {d : Device}

/-! ### What the device delivers -/

/-- The place of an MPDU in its aggregate. -/
inductive Kind
  | single
  | first
  | middle
  | last
  deriving DecidableEq

def Kind.status : Kind → UInt8
  | .single => rxStatusMpduSingle
  | .first => rxStatusMpduFirst
  | .middle => rxStatusMpduMiddle
  | .last => rxStatusMpduLast

/-- The MPDU comes with a PLCP header. -/
def Kind.hasPlcp : Kind → Bool
  | .single => true
  | .first => true
  | .middle => false
  | .last => false

/-- The MPDU comes with a PHY status. -/
def Kind.hasPhy : Kind → Bool
  | .single => true
  | .first => false
  | .middle => false
  | .last => true

/-- An MPDU that was received without an error, with the status of the MAC. The padding is
none, or two bytes. -/
structure Response where
  kind : Kind
  plcp : List UInt8
  body : List UInt8
  phy : List UInt8
  status : UInt8
  padding : List UInt8
  length_plcp : plcp.length = 12
  length_phy : phy.length = 20
  status_kind : status &&& rxStatusMpdu = kind.status
  length_padding : padding.length = 0 ∨ padding.length = 2

namespace Response

def head (r : Response) : List UInt8 := if r.kind.hasPlcp then r.plcp else []

def tail (r : Response) : List UInt8 := if r.kind.hasPhy then r.phy else []

/-- The MAC status: the pattern, no error, and the status. -/
def macStatus (r : Response) : List UInt8 := [0x3f, 0x3f, 0x00, r.status]

/-- What is handed to `ar9170_handle_mpdu`. -/
def bytes (r : Response) : List UInt8 :=
  r.head ++ (r.body ++ (r.tail ++ (r.macStatus ++ r.padding)))

/-- The PLCP header that holds for the MPDU, by its first byte; `cached` is the one that
the driver has kept. -/
def plcp0 (r : Response) (cached : Option UInt8) : Option UInt8 :=
  if r.kind.hasPlcp then r.plcp.head? else cached

/-- The PLCP header that the driver keeps. -/
def caches (r : Response) (cached : Option UInt8) : Option UInt8 :=
  if r.kind = .first then r.plcp.head? else cached

/-- The MPDU is QoS data. -/
def isQosData (r : Response) : Bool :=
  Ieee80211.isDataQos (le16At (placed 0 r.body) 0) &&
    Ieee80211.isDataPresent (le16At (placed 0 r.body) 0)

/-- The driver takes the MPDU: it has an admissible length, is for this station or for all,
its PLCP header has a valid rate, and in an aggregate it is QoS data. -/
structure Admitted (r : Response) (addr : List UInt8) (cached : Option UInt8) : Prop where
  long : 14 ≤ r.body.length
  short : (r.bytes.length : ℤ) ≤ ar9170RxMaxPacketLength
  receiver : (r.body.drop 4).take 6 = addr ∨ (r.body.drop 4).take 6 = ethBroadcast
  rate : ∃ b, r.plcp0 cached = some b ∧ validRate r.status b = true
  qos : r.kind ≠ .single → r.isQosData = true

end Response

/-- The driver takes all MPDUs, in this order. -/
def Admissible (addr : List UInt8) : Option UInt8 → List Response → Prop
  | _, [] => True
  | cached, r :: rs => r.Admitted addr cached ∧ Admissible addr (r.caches cached) rs

/-- The PLCP header that the driver has kept. -/
def Device.cached (d : Device) : Option UInt8 := if d.rxHasPlcp then some d.plcp0 else none

/-! ### What is stored -/

/-- The slice that is stored. -/
def Entry.stored : Entry → Option (ℤ × ℤ)
  | .read _ _ => none
  | .length _ => none
  | .untie _ _ => none
  | .command _ _ => none
  | .mpdu _ _ => none
  | .store off len => some (off, len)

/-- The slices that the code stores, in order. -/
def stores (x : Log Entry α) : List (ℤ × ℤ) := x.entries.filterMap Entry.stored

@[simp] theorem stores_pure (a : α) : stores (pure a : Log Entry α) = [] := rfl

@[simp] theorem stores_entry (e : Entry) : stores (Log.entry e) = e.stored.toList := by
  simp [stores, List.filterMap_cons]
  cases e.stored <;> rfl

@[simp] theorem stores_bind (x : Log Entry α) (f : α → Log Entry β) :
    stores (x >>= f) = stores x ++ stores (f x.value) := by
  simp [stores]

@[simp] theorem stores_ite {c : Prop} {_ : Decidable c} {x y : Log Entry α} :
    stores (if c then x else y) = if c then stores x else stores y := by
  split <;> rfl

@[simp] theorem stores_readByte (a : ℤ) : stores (readByte m a) = [] := rfl

@[simp] theorem stores_memcmp (pat : List UInt8) (a : ℤ) : stores (memcmp m pat a) = [] := rfl

/-- The search stores nothing. -/
theorem stores_findMacStatus (counter : ℕ) : stores (findMacStatus m buf counter) = [] := by
  induction counter with
  | zero => rfl
  | succ counter ih =>
      rw [findMacStatus, stores_bind, stores_memcmp, List.nil_append]
      split
      next => rfl
      next => exact ih

namespace Response

variable {r : Response} {addr : List UInt8} {cached : Option UInt8}

@[simp] theorem length_macStatus : r.macStatus.length = 4 := rfl

/-- Where the MAC status stands. -/
def macAt (r : Response) : ℕ := r.head.length + (r.body.length + r.tail.length)

theorem length_bytes : r.bytes.length = r.macAt + 4 + r.padding.length := by
  simp only [bytes, macAt, List.length_append, length_macStatus]
  omega

/-- The response stands at `buf`. -/
def At (r : Response) (m : Memory UInt8) (buf : ℤ) : Prop :=
  window m buf r.bytes.length = r.bytes

theorem At.body (hat : r.At m buf) : window m (buf + r.head.length) r.body.length = r.body :=
  window_of_append r.head _ hat rfl rfl rfl

theorem At.macStatus (hat : r.At m buf) : window m (buf + r.macAt) 4 = r.macStatus := by
  refine window_of_append (r.head ++ (r.body ++ r.tail)) r.padding hat ?_ ?_ rfl
  · simp [bytes, List.append_assoc]
  · simp [macAt]

theorem At.macStatus_apply (hat : r.At m buf) {i : ℕ} {b : UInt8}
    (hb : r.macStatus[i]? = some b) : m (buf + r.macAt + i) = b :=
  apply_of_window hat.macStatus hb

/-- The byte that tells the rate, where it comes with the MPDU. -/
theorem At.head_plcp (hat : r.At m buf) (hhas : r.kind.hasPlcp = true) :
    r.plcp.head? = some (m buf) := by
  have hhead : r.head = r.plcp := if_pos hhas
  have hwin : window m buf r.head.length = r.head :=
    window_of_append [] _ hat rfl (Int.add_zero buf) rfl
  rw [hhead, r.length_plcp] at hwin
  rw [← hwin]
  rfl

/-- Of the pairs from the MAC status on, its own alone is the pattern. -/
theorem At.pairAt_iff (hat : r.At m buf) {i : ℕ} (hi : i ≤ r.padding.length) :
    PairAt m (buf + r.macAt + i) ↔ i = 0 := by
  have h0 : m (buf + r.macAt + (0 : ℕ)) = 0x3f := hat.macStatus_apply rfl
  have h1 : m (buf + r.macAt + (1 : ℕ)) = 0x3f := hat.macStatus_apply rfl
  have h2 : m (buf + r.macAt + (2 : ℕ)) = 0x00 := hat.macStatus_apply rfl
  have hpair : ∀ j : ℕ, PairAt m (buf + r.macAt + j) ↔
      m (buf + r.macAt + j) = 0x3f ∧ m (buf + r.macAt + (j + 1 : ℕ)) = 0x3f := by
    intro j
    simp [PairAt, OccursAt, macStatusPattern, window, Int.add_assoc]
  have hcases : i = 0 ∨ i = 1 ∨ i = 2 := by
    rcases r.length_padding with hnone | htwo <;> omega
  rw [hpair]
  rcases hcases with rfl | rfl | rfl
  · exact iff_of_true ⟨h0, h1⟩ rfl
  · refine iff_of_false (fun hcon => ?_) Nat.one_ne_zero
    rw [h2] at hcon
    exact absurd hcon.2 (by decide)
  · refine iff_of_false (fun hcon => ?_) (Nat.succ_ne_zero 1)
    rw [h2] at hcon
    exact absurd hcon.1 (by decide)

theorem le_macAt (hlong : 14 ≤ r.body.length) : 14 ≤ r.macAt :=
  Nat.le_trans hlong (by unfold macAt; omega)

theorem Admitted.start (had : r.Admitted addr cached) :
    u32 ((r.bytes.length : ℤ) - rxHeadLen) = r.macAt - 8 + r.padding.length := by
  have hmac := le_macAt had.long
  have hlen := r.length_bytes
  have hshort := had.short
  have hu := u32_of_nonneg (x := (r.bytes.length : ℤ) - rxHeadLen)
  simp only [rxHeadLen, ar9170RxMaxPacketLength] at hu hshort ⊢
  omega

/-- The search stops at the MAC status, whatever the body, the PHY status and the padding
hold. -/
theorem At.value_findMacStatus (hat : r.At m buf) (had : r.Admitted addr cached) :
    (findMacStatus m buf (u32 (r.bytes.length - rxHeadLen))).value = some (r.macAt - 8) := by
  have hmac := le_macAt had.long
  have hlen := r.length_bytes
  have hshort := had.short
  simp only [ar9170RxMaxPacketLength] at hshort
  have hbound : r.macAt - 8 + r.padding.length + 8 < 2 ^ 32 := by omega
  have hspec := findMacStatus_spec (m := m) buf hbound
  rw [had.start]
  have hpair : ∀ i, i ≤ r.padding.length →
      (PairAt m (buf + ((r.macAt - 8 + i : ℕ) + 8)) ↔ i = 0) := by
    intro i hi
    rw [← hat.pairAt_iff hi]
    rw [show buf + (((r.macAt - 8 + i : ℕ) : ℤ) + 8) = buf + r.macAt + i by omega]
  cases hfound : (findMacStatus m buf (r.macAt - 8 + r.padding.length)).value with
  | none =>
      rw [hfound] at hspec
      exact absurd ((hpair 0 (Nat.zero_le _)).mpr rfl) (hspec _ (by omega) (by omega))
  | some c =>
      rw [hfound] at hspec
      obtain ⟨-, hle, hc, hlast⟩ := hspec
      have hge : r.macAt - 8 ≤ c := by
        by_contra hlt
        exact hlast (r.macAt - 8) (by omega) (by omega) ((hpair 0 (Nat.zero_le _)).mpr rfl)
      obtain ⟨i, rfl⟩ := Nat.exists_eq_add_of_le hge
      rw [(hpair i (by omega)).mp hc, Nat.add_zero]

/-- The MPDU without the headers of the device. -/
def mpdu (r : Response) (buf : ℤ) : Mpdu where
  buf := buf + r.head.length
  len := r.body.length
  head := if r.kind.hasPlcp then some buf else none
  phy := if r.kind.hasPhy then some (buf + r.head.length + r.body.length) else none

/-- The device behind the MPDU. -/
def keepPlcp (r : Response) (m : Memory UInt8) (buf : ℤ) (d : Device) : Device :=
  if r.kind = .first then { d with rxHasPlcp := true, plcp0 := m buf } else d

theorem length_head : r.head.length = if r.kind.hasPlcp then 12 else 0 := by
  rw [head]
  split
  next => exact r.length_plcp
  next => rfl

theorem length_tail : r.tail.length = if r.kind.hasPhy then 20 else 0 := by
  rw [tail]
  split
  next => exact r.length_phy
  next => rfl

/-- An MPDU that has no PLCP header needs the one that has been kept. -/
theorem Admitted.rxHasPlcp (had : r.Admitted addr d.cached) (hno : r.kind.hasPlcp = false) :
    d.rxHasPlcp = true := by
  obtain ⟨b, hb, -⟩ := had.rate
  rw [plcp0, hno, if_neg Bool.false_ne_true, Device.cached] at hb
  by_contra hcon
  rw [if_neg hcon] at hb
  cases hb

/-- The MPDU is taken out from between the headers. -/
theorem value_splitMpdu (had : r.Admitted addr d.cached) (hshort : r.macAt < 2 ^ 31) :
    (splitMpdu m buf r.macAt r.status d).value = (some (r.mpdu buf), r.keepPlcp m buf d) := by
  have hhead := r.length_head
  have htail := r.length_tail
  have hbits := r.status_kind
  have hu : u32 r.macAt = r.macAt := by
    have hu := u32_of_nonneg (x := (r.macAt : ℤ))
    omega
  have hmac : r.macAt = r.head.length + (r.body.length + r.tail.length) := rfl
  have hfl : rxStatusMpduLast ≠ rxStatusMpduFirst := by decide
  have hsf : rxStatusMpduSingle ≠ rxStatusMpduFirst := by decide
  have hsl : rxStatusMpduLast ≠ rxStatusMpduSingle := by decide
  have hmf : rxStatusMpduMiddle ≠ rxStatusMpduFirst := by decide
  have hms : rxStatusMpduMiddle ≠ rxStatusMpduSingle := by decide
  have hml : rxStatusMpduMiddle ≠ rxStatusMpduLast := by decide
  cases hkind : r.kind with
  | single =>
      rw [hkind] at hbits
      simp only [hkind, Kind.hasPlcp, Kind.hasPhy, if_true] at hhead htail
      have hlen : (r.macAt : ℤ) - rxHeadLen - rxPhystatusLen = r.body.length := by
        simp only [rxHeadLen, rxPhystatusLen]
        omega
      simp only [splitMpdu, hbits, Kind.status, if_neg hsf, if_true, Log.value_bind,
        Log.value_pure, hlen, mpdu, keepPlcp, hkind, hhead]
      rfl
  | first =>
      rw [hkind] at hbits
      simp only [hkind, Kind.hasPlcp, Kind.hasPhy, if_true, Bool.false_eq_true, if_false]
        at hhead htail
      have hlen : (r.macAt : ℤ) - rxHeadLen = r.body.length := by
        simp only [rxHeadLen]
        omega
      simp only [splitMpdu, hbits, Kind.status, if_true, Log.value_bind, Log.value_ite,
        Log.value_pure, hlen, hu, mpdu, keepPlcp, hkind, hhead]
      rw [if_pos (by omega)]
      rfl
  | middle =>
      have hplcp := had.rxHasPlcp (by rw [hkind]; rfl)
      rw [hkind] at hbits
      simp only [hkind, Kind.hasPlcp, Kind.hasPhy, Bool.false_eq_true, if_false] at hhead htail
      have hlen : r.macAt = r.body.length := by omega
      simp only [splitMpdu, hbits, Kind.status, if_neg hmf, if_neg hms, if_neg hml, hplcp, if_true,
        Log.value_pure, mpdu, keepPlcp, hkind, hhead, hlen]
      simp [Kind.hasPlcp, Kind.hasPhy]
  | last =>
      have hplcp := had.rxHasPlcp (by rw [hkind]; rfl)
      rw [hkind] at hbits
      simp only [hkind, Kind.hasPlcp, Kind.hasPhy, if_true, Bool.false_eq_true, if_false]
        at hhead htail
      have hlen : (r.macAt : ℤ) - rxPhystatusLen = r.body.length := by
        simp only [rxPhystatusLen]
        omega
      simp only [splitMpdu, hbits, Kind.status, if_neg hfl, if_neg hsl, hplcp, if_true,
        Log.value_bind, Log.value_ite, Log.value_pure, hlen, hu, mpdu, keepPlcp, hkind, hhead]
      rw [if_pos (by omega)]
      simp [Kind.hasPlcp, Kind.hasPhy]

theorem stores_splitMpdu (len : ℤ) (status : UInt8) :
    stores (splitMpdu m buf len status d) = [] := by
  simp [splitMpdu, Entry.stored]

/-- Without an error the MAC status is accepted where the rate is valid. -/
theorem At.value_rxMacStatus (hat : r.At m buf) (had : r.Admitted addr d.cached) :
    (rxMacStatus m (r.mpdu buf).head (buf + r.macAt) (r.keepPlcp m buf d)).value = true := by
  have herror : m (buf + r.macAt + (2 : ℕ)) = 0 := hat.macStatus_apply rfl
  have hstatus : m (buf + r.macAt + (3 : ℕ)) = r.status := hat.macStatus_apply rfl
  obtain ⟨b, hb, hrate⟩ := had.rate
  have herror' : m (buf + r.macAt + 2) = 0 := herror
  have hstatus' : m (buf + r.macAt + 3) = r.status := hstatus
  cases hplcp : r.kind.hasPlcp with
  | true =>
      rw [plcp0, if_pos hplcp, hat.head_plcp hplcp, Option.some.injEq] at hb
      have hhead : (r.mpdu buf).head = some buf := if_pos hplcp
      simp [rxMacStatus, herror', hstatus', hhead, hb, hrate]
  | false =>
      rw [plcp0, hplcp, if_neg Bool.false_ne_true] at hb
      have hhead : (r.mpdu buf).head = none := by
        simp [mpdu, hplcp]
      have hkeep : r.keepPlcp m buf d = d := by
        refine if_neg fun hfirst => ?_
        rw [hfirst] at hplcp
        cases hplcp
      rw [Device.cached, if_pos (had.rxHasPlcp hplcp), Option.some.injEq] at hb
      simp [rxMacStatus, herror', hstatus', hhead, hkeep, hb, hrate]

theorem stores_rxMacStatus (head : Option ℤ) (mac : ℤ) :
    stores (rxMacStatus m head mac d) = [] := by
  cases head <;> simp [rxMacStatus, Entry.stored]

/-- A byte of the body. -/
theorem At.body_apply (hat : r.At m buf) {i : ℕ} (hi : i < r.body.length) :
    m (buf + r.head.length + i) = r.body.getD i 0 := by
  have hbyte : r.body[i]? = some (r.body.getD i 0) := by
    rw [List.getD_eq_getElem?_getD, List.getElem?_eq_getElem hi, Option.getD_some]
  exact apply_of_window hat.body hbyte

/-- An MPDU that passes the checks is stored, and nothing else. -/
theorem stores_acceptMpdu_of_accepted {p : Mpdu} {mac : ℤ} {status : UInt8}
    (hlong : ¬ p.len < 14) (hmac : (rxMacStatus m p.head mac d).value = true)
    (hampdu : (ampduCheck m p.buf status).value = true)
    (haddr : window m (p.buf + 4) 6 = d.addr ∨ window m (p.buf + 4) 6 = ethBroadcast) :
    stores (acceptMpdu m p mac status d) = [(p.buf, p.len)] := by
  have hcheck : stores (ampduCheck m p.buf status) = [] := by
    simp [ampduCheck, Entry.stored]
  have hbeacon : stores (psBeacon m p.buf p.len d.ps) = [] := by
    simp [psBeacon, Entry.stored]
  have hstore : stores (scheduleHandleMpdu p.buf p.len d.canStore) = [(p.buf, p.len)] := by
    simp [scheduleHandleMpdu, Entry.stored]
  rw [acceptMpdu, if_neg hlong]
  cases p.phy <;>
    simp [stores_rxMacStatus, hmac, hcheck, hampdu, Entry.stored, hbeacon, if_pos haddr, hstore]

/-- In an aggregate QoS data are accepted. -/
theorem At.value_ampduCheck (hat : r.At m buf) (had : r.Admitted addr cached) :
    (ampduCheck m (buf + r.head.length) r.status).value = true := by
  have hlong := had.long
  have h0 : m (buf + r.head.length) = r.body.getD 0 0 := by
    simpa using hat.body_apply (i := 0) (by omega)
  have h1 : m (buf + r.head.length + 1) = r.body.getD 1 0 := hat.body_apply (i := 1) (by omega)
  have hfc : le16At m (buf + r.head.length) = le16At (placed 0 r.body) 0 := by
    rw [le16At, h0, h1]
    rfl
  rw [ampduCheck, r.status_kind]
  by_cases hsingle : r.kind = .single
  · have hstatus : r.kind.status = rxStatusMpduSingle := by rw [hsingle]; rfl
    rw [if_pos hstatus, Log.value_pure]
  · have hqos := had.qos hsingle
    have hne : r.kind.status ≠ rxStatusMpduSingle := by
      revert hsingle
      cases r.kind <;> decide
    unfold isQosData at hqos
    rw [if_neg hne]
    simp [hfc, hqos]

/-- The receiver of the MPDU. -/
theorem At.receiver (hat : r.At m buf) (hlong : 14 ≤ r.body.length) :
    window m ((r.mpdu buf).buf + 4) 6 = (r.body.drop 4).take 6 :=
  window_part (i := 4) hat.body (by omega)

/-- The body is stored, and nothing else. -/
theorem At.stores_acceptMpdu (hat : r.At m buf) (had : r.Admitted d.addr d.cached) :
    stores (acceptMpdu m (r.mpdu buf) (buf + r.macAt) r.status (r.keepPlcp m buf d)) =
      [(buf + r.head.length, (r.body.length : ℤ))] := by
  have hlong : ¬ (r.mpdu buf).len < 14 := by
    have hlong := had.long
    simp only [mpdu]
    omega
  have haddr : (r.keepPlcp m buf d).addr = d.addr := by
    unfold keepPlcp
    split <;> rfl
  have hreceiver := had.receiver
  rw [← hat.receiver had.long, ← haddr] at hreceiver
  exact stores_acceptMpdu_of_accepted hlong (hat.value_rxMacStatus had)
    (hat.value_ampduCheck had) hreceiver

theorem At.handleTrimmed (hat : r.At m buf) (had : r.Admitted d.addr d.cached) :
    stores (Rx.handleTrimmed m buf (r.macAt + rxMacstatusLen) d) =
        [(buf + r.head.length, (r.body.length : ℤ))] ∧
      (Rx.handleTrimmed m buf (r.macAt + rxMacstatusLen) d).value = r.keepPlcp m buf d := by
  have hlen := r.length_bytes
  have hshort := had.short
  simp only [ar9170RxMaxPacketLength] at hshort
  have hmac : i32 ((r.macAt : ℤ) + rxMacstatusLen - rxMacstatusLen) = r.macAt := by
    rw [Int.add_sub_cancel]
    exact i32_eq_self (by omega) (by omega)
  have hstatus : m (buf + r.macAt + 3) = r.status := hat.macStatus_apply (i := 3) rfl
  have hsplit : (splitMpdu m buf r.macAt r.status d).value =
      (some (r.mpdu buf), r.keepPlcp m buf d) := value_splitMpdu had (by omega)
  simp only [Rx.handleTrimmed, stores_bind, Log.value_bind, stores_entry, Entry.stored, hmac,
    value_readByte, stores_readByte, hstatus, stores_splitMpdu, hsplit]
  rw [hat.stores_acceptMpdu had]
  exact ⟨rfl, rfl⟩

/-- Of a response that is admitted, `ar9170_handle_mpdu` stores the body, once. -/
theorem At.handleMpdu (hat : r.At m buf) (had : r.Admitted d.addr d.cached)
    (hstarted : d.started = true) :
    stores (Rx.handleMpdu m buf r.bytes.length d) = [(buf + r.head.length, (r.body.length : ℤ))] ∧
      (Rx.handleMpdu m buf r.bytes.length d).value = r.keepPlcp m buf d := by
  have hfound := hat.value_findMacStatus had
  have hmac := le_macAt had.long
  have hlen := r.length_bytes
  have hshort := had.short
  have hstart : u32 ((r.bytes.length : ℤ) - rxHeadLen) = r.macAt - 8 + r.padding.length :=
    had.start
  have hlong : ¬ u32 (r.bytes.length : ℤ) < 4 := by
    have hu := u32_of_nonneg (x := (r.bytes.length : ℤ))
    simp only [ar9170RxMaxPacketLength] at hshort
    omega
  have hrest : i32 ((r.bytes.length : ℤ) -
      (u32 ((r.bytes.length : ℤ) - rxHeadLen) - (r.macAt - 8) : ℕ)) = r.macAt + rxMacstatusLen := by
    rw [hstart, Nat.add_sub_cancel_left]
    simp only [ar9170RxMaxPacketLength] at hshort
    simp only [rxMacstatusLen]
    rw [i32_eq_self (by omega) (by omega)]
    omega
  rw [Rx.handleMpdu, if_neg (Int.not_lt.mpr hshort), if_neg (by simp [hstarted]), if_neg hlong]
  simp only [stores_bind, Log.value_bind, stores_entry, Entry.stored, stores_findMacStatus, hfound,
    handleSearched, stores_memcmp, hrest]
  exact hat.handleTrimmed had

/-- The driver keeps the PLCP header of a first MPDU. -/
theorem At.cached_keepPlcp (hat : r.At m buf) :
    (r.keepPlcp m buf d).cached = r.caches d.cached := by
  rw [keepPlcp, caches]
  split
  next hfirst =>
    rw [hat.head_plcp (by rw [hfirst]; rfl)]
    rfl
  next => rfl

theorem keepPlcp_frame (m : Memory UInt8) (buf : ℤ) :
    (r.keepPlcp m buf d).addr = d.addr ∧ (r.keepPlcp m buf d).started = d.started := by
  unfold keepPlcp
  split <;> exact ⟨rfl, rfl⟩

end Response

/-! ### Runs -/

open Memory (Heap Fault Ptr)
open RxQueue (Frame Item Queued rootOnly)

/-- A response in memory. -/
structure Arrival where
  response : Response
  memory : Memory UInt8
  buf : ℤ
  stands : response.At memory buf

/-- The driver: the device, and the reception queue. -/
structure Receiver where
  device : Device
  rx : RxQueue.Rx

/-- What happens next: an interrupt with a response, a step of the scheduler, or something
else that leaves this memory and this device. -/
inductive Event
  | response (a : Arrival)
  | scheduler
  | other (h : Heap (Block Item)) (d : Device)

def Event.response? : Event → Option Response
  | .response a => some a.response
  | .scheduler => none
  | .other _ _ => none

/-- The responses that arrive, in order. -/
def responses (es : List Event) : List Response := es.filterMap Event.response?

/-- The slices are passed to `ar9170_schedule_handle_mpdu`, one after the other. -/
def storeAll (m : Memory UInt8) : List (ℤ × ℤ) → RxQueue.Rx → Except Fault RxQueue.Rx
  | [], s => .ok s
  | x :: rest, s =>
      match s.step (.mpdu (fun i => m (x.1 + i)) x.2) with
      | .error e => .error e
      | .ok s' => storeAll m rest s'

namespace Receiver

/-- With a response, `ar9170_handle_mpdu` is called. -/
def step (s : Receiver) : Event → Except Fault Receiver
  | .response a =>
      let x := handleMpdu a.memory a.buf a.response.bytes.length s.device
      (storeAll a.memory (stores x) s.rx).map fun rx => ⟨x.value, rx⟩
  | .scheduler => (s.rx.step .scheduler).map fun rx => { s with rx := rx }
  | .other h d => (s.rx.step (.other h)).map fun rx => ⟨d, rx⟩

def exec : List Event → Receiver → Except Fault Receiver
  | [], s => .ok s
  | e :: es, s =>
      match s.step e with
      | .error e => .error e
      | .ok s' => exec es s'

/-- Other code leaves the blocks of the queue alone, and does not stop the device, nor
change its address or the PLCP header that is kept. -/
def Fits (s : Receiver) : Event → Prop
  | .response _ => True
  | .scheduler => True
  | .other h d => s.rx.Fits (.other h) ∧ d.started = s.device.started ∧
      d.addr = s.device.addr ∧ d.cached = s.device.cached

/-- Other code behaves as it should in the whole run. -/
def fitsAll : List Event → Receiver → Prop
  | [], _ => True
  | e :: es, s => s.Fits e ∧ ∀ s', s.step e = .ok s' → fitsAll es s'

/-- The body of the MPDU that arrives, where there is room and memory for it. -/
def takes (s : Receiver) : Event → List (List UInt8)
  | .response a =>
      if RxQueue.Takes s.rx.queue a.response.body.length s.rx.heap then [a.response.body] else []
  | .scheduler => []
  | .other _ _ => []

/-- The bodies of the MPDUs that arrive when there is room and memory for them, in order. -/
def kept : List Event → Receiver → List (List UInt8)
  | [], _ => []
  | e :: es, s => s.takes e ++
      match s.step e with
      | .error _ => []
      | .ok s' => kept es s'

end Receiver

theorem received_eq_window (m : Memory UInt8) (a : ℤ) (n : ℕ) :
    RxQueue.received (fun i => m (a + i)) n = window m a n := by
  apply List.ext_getElem?
  intro i
  by_cases hi : i < n
  · rw [getElem?_window hi]
    simp [RxQueue.received, hi]
  · rw [List.getElem?_eq_none, List.getElem?_eq_none] <;> simpa [RxQueue.received] using hi

section Runs

variable {s : Receiver} {gone now rest : List Frame}

/-- The body of an MPDU that arrives is put behind the frames of the queue. -/
theorem Receiver.step_response (a : Arrival) (hi : RxQueue.Inv s.rx gone now rest)
    (hstarted : s.device.started = true)
    (had : a.response.Admitted s.device.addr s.device.cached) :
    ∃ s', s.step (.response a) = .ok s' ∧
      s'.device = a.response.keepPlcp a.memory a.buf s.device ∧
      s'.rx.stored.map Frame.content =
        s.rx.stored.map Frame.content ++ s.takes (.response a) ∧
      ∃ rest', RxQueue.Inv s'.rx gone now rest' := by
  obtain ⟨hstores, hvalue⟩ := a.stands.handleMpdu had hstarted
  have hstep : ∃ rx, s.rx.step (.mpdu (fun i => a.memory (a.buf + a.response.head.length + i))
      a.response.body.length) = .ok rx ∧ _ ∧ ∃ rest', RxQueue.Inv rx gone now rest' := hi.step_mpdu
  obtain ⟨rx, heq, hcontent, hinv⟩ := hstep
  refine ⟨⟨a.response.keepPlcp a.memory a.buf s.device, rx⟩, ?_, rfl, ?_, hinv⟩
  · simp only [step, hstores, hvalue, storeAll, heq]
    rfl
  · rw [hcontent, received_eq_window, a.stands.body]
    rfl

/-- A step of a run: what is behind it is as admissible as before. -/
theorem Receiver.step_event {e : Event} {es : List Event} (hi : RxQueue.Inv s.rx gone now rest)
    (hstarted : s.device.started = true) (hfits : s.Fits e)
    (hadm : Admissible s.device.addr s.device.cached (responses (e :: es))) :
    ∃ s', s.step e = .ok s' ∧ s'.device.started = true ∧
      Admissible s'.device.addr s'.device.cached (responses es) ∧
      s'.rx.stored.map Frame.content = s.rx.stored.map Frame.content ++ s.takes e ∧
      ∃ gone' now' rest', RxQueue.Inv s'.rx gone' now' rest' ∧
        (e ≠ .scheduler → gone' = gone ∧ now' = now) := by
  cases e with
  | response a =>
      obtain ⟨had, hrest⟩ := hadm
      obtain ⟨s', heq, hdevice, hcontent, rest', hi'⟩ := step_response a hi hstarted had
      obtain ⟨haddr, hstarted'⟩ := Response.keepPlcp_frame a.memory a.buf
      refine ⟨s', heq, ?_, ?_, hcontent, gone, now, rest', hi', fun _ => ⟨rfl, rfl⟩⟩
      · rw [hdevice, hstarted', hstarted]
      · rw [hdevice, haddr, a.stands.cached_keepPlcp]
        exact hrest
  | scheduler =>
      obtain ⟨rx, heq, hstored, gone', now', rest', hi', -⟩ := hi.step_scheduler
      refine ⟨{ s with rx := rx }, ?_, hstarted, hadm, ?_, gone', now', rest', hi',
        fun hno => absurd rfl hno⟩
      · simp only [step, heq]
        rfl
      · simp [hstored, takes]
  | other h d =>
      obtain ⟨hfit, hstarted', haddr, hcached⟩ := hfits
      obtain ⟨rx, heq, hi'⟩ := hi.step_other hfit
      refine ⟨⟨d, rx⟩, ?_, ?_, ?_, ?_, gone, now, rest, hi', fun _ => ⟨rfl, rfl⟩⟩
      · simp only [step, heq]
        rfl
      · rw [hstarted', hstarted]
      · rw [haddr, hcached]
        exact hadm
      · cases heq
        simp [takes]

/-- The bodies are put behind the frames of the queue in a whole run, and without the
scheduler all frames stay there. -/
theorem Receiver.exec_spec {es : List Event} (hi : RxQueue.Inv s.rx gone now rest)
    (hstarted : s.device.started = true)
    (hadm : Admissible s.device.addr s.device.cached (responses es)) (hfits : fitsAll es s) :
    ∃ s', exec es s = .ok s' ∧
      s'.rx.stored.map Frame.content = s.rx.stored.map Frame.content ++ kept es s ∧
      ∃ gone' now' rest', RxQueue.Inv s'.rx gone' now' rest' ∧
        (Event.scheduler ∉ es → gone' = gone ∧ now' = now) := by
  induction es generalizing s gone now rest with
  | nil => exact ⟨s, rfl, (List.append_nil _).symm, gone, now, rest, hi, fun _ => ⟨rfl, rfl⟩⟩
  | cons e es ih =>
      obtain ⟨hfit, hfits⟩ := hfits
      obtain ⟨s1, heq, hstarted1, hadm1, hcontent1, gone1, now1, rest1, hi1, hsame1⟩ :=
        step_event hi hstarted hfit hadm
      obtain ⟨s', hexec, hcontent, gone', now', rest', hi', hsame⟩ :=
        ih hi1 hstarted1 hadm1 (hfits s1 heq)
      refine ⟨s', ?_, ?_, gone', now', rest', hi', fun hno => ?_⟩
      · simp only [exec, heq]
        exact hexec
      · rw [hcontent, hcontent1, List.append_assoc]
        simp only [kept, heq]
      · rw [List.mem_cons, not_or] at hno
        obtain ⟨rfl, rfl⟩ := hsame1 (Ne.symm hno.1)
        exact hsame hno.2

end Runs

/-! ### Aggregates -/

section Aggregates

variable {addr : List UInt8} {cached : Option UInt8} {first last : Response}
  {middle : List Response}

/-- An MPDU with a PLCP header of its own needs none that has been kept. -/
theorem Response.Admitted.of_hasPlcp {r : Response} {other : Option UInt8}
    (had : r.Admitted addr other) (hplcp : r.kind.hasPlcp = true) : r.Admitted addr cached where
  long := had.long
  short := had.short
  receiver := had.receiver
  rate := by
    have hrate := had.rate
    rw [plcp0, if_pos hplcp] at hrate ⊢
    exact hrate
  qos := had.qos

theorem admissible_of_cached {rs : List Response}
    (hadm : ∀ r ∈ rs, r.kind ≠ .first ∧ r.Admitted addr cached) : Admissible addr cached rs := by
  induction rs with
  | nil => trivial
  | cons r rs ih =>
      obtain ⟨hkind, had⟩ := hadm r List.mem_cons_self
      have hcached : r.caches cached = cached := if_neg hkind
      refine ⟨had, ?_⟩
      rw [hcached]
      exact ih fun x hx => hadm x (List.mem_cons_of_mem r hx)

/-- In an aggregate the PLCP header of the first MPDU holds for all. -/
theorem admissible_aggregate (hfirst : first.kind = .first)
    (hmiddle : ∀ r ∈ middle, r.kind = .middle) (hlast : last.kind = .last)
    (hadm : ∀ r ∈ first :: (middle ++ [last]), r.Admitted addr first.plcp.head?) :
    Admissible addr cached (first :: (middle ++ [last])) := by
  refine ⟨(hadm first List.mem_cons_self).of_hasPlcp (by rw [hfirst]; rfl), ?_⟩
  have hcaches : first.caches cached = first.plcp.head? := if_pos hfirst
  rw [hcaches]
  refine admissible_of_cached fun r hr => ⟨?_, hadm r (List.mem_cons_of_mem first hr)⟩
  rcases List.mem_append.mp hr with hr | hr
  · rw [hmiddle r hr]
    decide
  · rw [List.mem_singleton.mp hr, hlast]
    decide

end Aggregates

/-! ### An aggregate of nine MPDUs -/

theorem Response.at_placed (r : Response) : r.At (placed 0 r.bytes) 0 := window_placed 0 r.bytes

/-- The responses arrive one after the other, each in a memory of its own. -/
def arrive (rs : List Response) : List Event :=
  rs.map fun r => .response ⟨r, placed 0 r.bytes, 0, r.at_placed⟩

theorem responses_arrive (rs : List Response) : responses (arrive rs) = rs := by
  induction rs with
  | nil => rfl
  | cons r rs ih => exact congrArg (List.cons r) ih

theorem fitsAll_arrive (rs : List Response) (s : Receiver) : Receiver.fitsAll (arrive rs) s := by
  induction rs generalizing s with
  | nil => trivial
  | cons r rs ih => exact ⟨trivial, fun s' _ => ih s'⟩

theorem scheduler_notMem_arrive (rs : List Response) : Event.scheduler ∉ arrive rs := by
  intro hmem
  obtain ⟨r, -, heq⟩ := List.mem_map.mp hmem
  cases heq

def noPlcp : List UInt8 := List.replicate 12 0

def noPhy : List UInt8 := List.replicate 20 0

def noPadding : List UInt8 := []

theorem length_noPlcp : noPlcp.length = 12 := List.length_replicate

theorem length_noPhy : noPhy.length = 20 := List.length_replicate

theorem length_noPadding : noPadding.length = 0 ∨ noPadding.length = 2 := .inl rfl

theorem status_kind_ht (k : Kind) : (k.status ||| 0x02) &&& rxStatusMpdu = k.status := by
  cases k <;> decide

/-- QoS data for all stations, at a rate of HT. -/
def qosResponse (k : Kind) : Response where
  kind := k
  plcp := noPlcp
  body := [0x88, 0, 0, 0] ++ ethBroadcast ++ List.replicate 16 0
  phy := noPhy
  status := k.status ||| 0x02
  padding := noPadding
  length_plcp := length_noPlcp
  length_phy := length_noPhy
  status_kind := status_kind_ht k
  length_padding := length_noPadding

theorem admitted_qosResponse (k : Kind) (addr : List UInt8) :
    (qosResponse k).Admitted addr (some 0) where
  long := by
    cases k <;> decide
  short := by
    cases k <;> decide
  receiver := by
    cases k <;> exact .inr rfl
  rate := ⟨0, by cases k <;> rfl, by cases k <;> decide⟩
  qos := by
    cases k <;> decide

/-- An aggregate with one more MPDU than the queue has room for. -/
def longAggregate : List Response :=
  qosResponse .first :: (List.replicate 7 (qosResponse .middle) ++ [qosResponse .last])

theorem admissible_longAggregate (addr : List UInt8) : Admissible addr none longAggregate := by
  refine admissible_aggregate rfl (fun r hr => ?_) rfl fun r hr => ?_
  · rw [List.eq_of_mem_replicate hr]
    rfl
  · simp only [List.mem_cons, List.mem_append, List.mem_replicate, List.not_mem_nil, or_false]
      at hr
    rcases hr with rfl | ⟨-, rfl⟩ | rfl <;> exact admitted_qosResponse _ addr

/-- The driver with an empty queue. -/
def idleReceiver (outcome : ℕ → Bool) : Receiver :=
  ⟨.init [2, 0, 0, 0, 0, 1], .start (some 0) (rootOnly outcome) []⟩

theorem takes_of_refused (a : Arrival) :
    (idleReceiver fun _ => false).takes (.response a) = [] := by
  refine if_neg fun htakes => ?_
  have hok : false = true := htakes.2.2.1
  cases hok

/-! ### The bodies in the queue -/

/-- In every run the bodies of the MPDUs, as they are and in order, are what is put into
the queue, wherever it has room and there is memory. From there each is handed over once. -/
theorem bodies_stored (es : List Event) (d : Device) (q : Ptr) (h : Heap (Block Item))
    (fs : List Frame) (hstarted : d.started = true) (hq : Queued h q fs)
    (hadm : Admissible d.addr d.cached (responses es))
    (hfits : Receiver.fitsAll es ⟨d, .start q h fs⟩) :
    ∃ s', Receiver.exec es ⟨d, .start q h fs⟩ = .ok s' ∧
      s'.rx.stored.map Frame.content =
        fs.map Frame.content ++ Receiver.kept es ⟨d, .start q h fs⟩ ∧
      s'.rx.Leads ∧ s'.rx.Served := by
  obtain ⟨s', hexec, hcontent, gone, now, rest, hi, -⟩ :=
    Receiver.exec_spec (s := ⟨d, .start q h fs⟩) hq.inv hstarted hadm hfits
  exact ⟨s', hexec, hcontent, hi.leads, hi.served⟩

theorem bodies_stored_single :
    ∃ s', Receiver.exec (arrive [qosResponse .single]) (idleReceiver fun _ => true) = .ok s' ∧
      s'.rx.stored.map Frame.content = [].map Frame.content ++
        Receiver.kept (arrive [qosResponse .single]) (idleReceiver fun _ => true) ∧
      s'.rx.Leads ∧ s'.rx.Served :=
  bodies_stored _ _ _ _ [] rfl (RxQueue.queued_rootOnly _)
    ⟨(admitted_qosResponse .single _).of_hasPlcp rfl, trivial⟩ (fitsAll_arrive _ _)

/-- Of an aggregate that is longer than the queue, not all bodies are stored, and without
memory none is. -/
theorem not_bodies_stored :
    (Admissible [2, 0, 0, 0, 0, 1] none longAggregate ∧
      ¬ ∃ s', Receiver.exec (arrive longAggregate) (idleReceiver fun _ => true) = .ok s' ∧
        s'.rx.stored.map Frame.content = longAggregate.map Response.body) ∧
    ¬ ∃ s', Receiver.exec (arrive [qosResponse .single]) (idleReceiver fun _ => false) = .ok s' ∧
        s'.rx.stored.map Frame.content = [(qosResponse .single).body] := by
  constructor
  · have hadm := admissible_longAggregate [2, 0, 0, 0, 0, 1]
    refine ⟨hadm, fun ⟨s', hexec, hcontent⟩ => ?_⟩
    rw [← responses_arrive longAggregate] at hadm
    obtain ⟨s1, hexec1, -, gone, now, rest, hi, hsame⟩ :=
      Receiver.exec_spec (s := idleReceiver fun _ => true) (RxQueue.queued_rootOnly _).inv rfl hadm
        (fitsAll_arrive _ _)
    obtain rfl : s1 = s' := Except.ok.inj (hexec1.symm.trans hexec)
    obtain ⟨rfl, rfl⟩ := hsame (scheduler_notMem_arrive _)
    have hstored : s1.rx.stored = rest := hi.stored
    have hshort : rest.length ≤ 8 := hi.short
    have hnine := congrArg List.length hcontent
    rw [List.length_map, hstored, List.length_map] at hnine
    exact absurd (hnine ▸ hshort) (by decide)
  · rintro ⟨s', hexec, hcontent⟩
    have hadm : Admissible [2, 0, 0, 0, 0, 1] none (responses (arrive [qosResponse .single])) :=
      ⟨(admitted_qosResponse .single _).of_hasPlcp rfl, trivial⟩
    obtain ⟨s1, hexec1, hkept, -⟩ :=
      Receiver.exec_spec (s := idleReceiver fun _ => false) (RxQueue.queued_rootOnly _).inv rfl hadm
        (fitsAll_arrive _ _)
    obtain rfl : s1 = s' := Except.ok.inj (hexec1.symm.trans hexec)
    have hempty :
        Receiver.kept (arrive [qosResponse .single]) (idleReceiver fun _ => false) = [] := by
      unfold arrive
      simp only [List.map_cons, List.map_nil, Receiver.kept, takes_of_refused]
      split <;> rfl
    rw [hkept, hempty] at hcontent
    cases hcontent

end Calipso.Ar9170.Rx
