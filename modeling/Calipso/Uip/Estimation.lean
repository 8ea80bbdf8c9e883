import Calipso.Uip.Connection
import Mathlib.Tactic.Linarith

/-!
# Round-trip times and segment sizes of a connection

`uip_process` keeps the estimators of the round-trip time in 8 bits each, and takes the segment
sizes from the handshake. `connection_of_run` says in which runs the estimators are those of the
recurrence over the integers, and the segment sizes are ones of the connection.
-/

namespace Calipso.Uip.Connection

open Wire

/-! ### What is asked -/

/-- The estimators, over the integers. -/
structure Estimator where
  sa : Int
  sv : Int
  rto : Int

/-- The recurrence. -/
def Estimator.measure (e : Estimator) (timer : Int) : Estimator :=
  let m := e.rto - timer - e.sa / 8
  let sa := e.sa + m
  let sv := e.sv + (|m| - e.sv / 4)
  ⟨sa, sv, sa / 8 + sv⟩

/-- The segment completes the handshake of an active open. -/
def Completes (m : Memory UInt8) (c : Conn) : Prop :=
  c.state = uipSynSent ∧ Ackdata m c ∧ flags m &&& tcpCtl = tcpSyn ||| tcpAck

/-- The opening of a connection. -/
inductive Open
  | connect (iss : UInt32)
  | listen (m : Memory UInt8) (iss : UInt32)

/-- What happens to a connection. -/
inductive Event
  | timer (a : App)
  | poll (a : App)
  | segment (m : Memory UInt8) (uipLen : UInt16) (a : App)

/-- A connection, whether its handshake has set the segment sizes, and the estimators over the
integers. -/
structure State where
  conn : Conn
  own : Bool
  exact : Estimator

/-- The round-trip time is measured: the segment acknowledges data that was sent once. -/
def Measured (m : Memory UInt8) (uipLen : UInt16) (c : Conn) : Prop :=
  Accepted m uipLen c ∧ Ackdata m c ∧ c.nrtx = 0

instance (m : Memory UInt8) (uipLen : UInt16) (c : Conn) : Decidable (Measured m uipLen c) :=
  inferInstanceAs (Decidable (_ ∧ _))

/-- The state behind the opening, in a slot with any content. -/
def Open.state (k : Nat) (c : Conn) : Open → Option State
  | .connect iss => some ⟨c.connect iss, true, ⟨0, 16, 3⟩⟩
  | .listen m iss => do
      let v ← mssOption m k
      let c ← c.foundListen k m iss
      return ⟨c, v.isSome, ⟨0, 4, 3⟩⟩

def Event.step (k : Nat) (s : State) : Event → Option State
  | .timer a => some { s with conn := s.conn.timerExpired a }
  | .poll a => some { s with conn := s.conn.pollRequest a }
  | .segment m uipLen a => (s.conn.found k m uipLen a).map fun c =>
      { s with
        conn := c
        exact :=
          if Measured m uipLen s.conn then s.exact.measure s.conn.timer.toNat else s.exact }

/-- The run with these events, as far as the loops over the options end. -/
def run (k : Nat) : State → List Event → Option State
  | s, [] => some s
  | s, e :: es => e.step k s >>= fun s => run k s es

/-- The estimators are the values. -/
structure Matches (c : Conn) (e : Estimator) : Prop where
  sa : (c.sa.toNat : Int) = e.sa
  sv : (c.sv.toNat : Int) = e.sv
  rto : (c.rto.toNat : Int) = e.rto

/-- The segment sizes were set by the handshake of the connection, and are in bounds. -/
structure Sized (s : State) : Prop where
  own : s.own
  mss_pos : 0 < s.conn.mss
  mss_le : s.conn.mss ≤ s.conn.initialmss
  initialmss_le : s.conn.initialmss ≤ uipTcpMss

structure Conforms (s : State) : Prop where
  estimators : Matches s.conn s.exact
  rto : s.conn.rto ≠ 0
  sized : s.conn.state = uipEstablished → Sized s

/-- What is measured and what becomes of the estimators has room in 8 bits. -/
structure Fits (c : Conn) : Prop where
  error : |(c.rto.toNat : Int) - c.timer.toNat - c.sa.toNat / 8| ≤ 128
  timer : c.timer.toNat + c.sa.toNat / 8 ≤ c.rto.toNat + c.sa.toNat
  sa : c.rto.toNat + c.sa.toNat < 256 + c.timer.toNat + c.sa.toNat / 8
  rto : ((c.rto.toNat : Int) - c.timer.toNat + c.sa.toNat - c.sa.toNat / 8) / 8 +
    c.sv.toNat + |(c.rto.toNat : Int) - c.timer.toNat - c.sa.toNat / 8| - c.sv.toNat / 4 < 256

/-- The other side gives a segment size when it opens the connection. -/
def Open.Holds (k : Nat) : Open → Prop
  | .connect _ => True
  | .listen m _ => ∃ v, mssOption m k = some (some v) ∧ v ≠ 0

/-- What is measured fits, and the answer to an active open gives no segment size of zero. -/
def Event.Holds (k : Nat) (s : State) : Event → Prop
  | .segment m uipLen _ => (Measured m uipLen s.conn → Fits s.conn) ∧
      (Completes m s.conn → mssOption m k ≠ some (some 0))
  | _ => True

/-- Every event of the run meets the condition. -/
def EventsHold (k : Nat) : State → List Event → Prop
  | _, [] => True
  | s, e :: es => e.Holds k s ∧ ∀ s', e.step k s = some s' → EventsHold k s' es

/-! ### Measurements -/

section

variable {c c' : Conn} {e : Estimator} {a : App} {m : Memory UInt8} {uipLen : UInt16} {k : Nat}

theorem toNat_ofInt (n : Int) : ((UInt8.ofInt n).toNat : Int) = n % 256 := by
  unfold UInt8.ofInt
  rw [UInt8.toNat_ofNat']
  omega

theorem signedChar_spec (n : Int) :
    -128 ≤ Conn.signedChar n ∧ Conn.signedChar n < 128 ∧ Conn.signedChar n % 256 = n % 256 := by
  unfold Conn.signedChar
  rw [Int.bmod_def]
  split_ifs <;> omega

/-- The difference between the delay and its average, in the code. -/
def Conn.error (c : Conn) : Int :=
  Conn.signedChar (Conn.signedChar (c.rto.toNat - c.timer.toNat) - c.sa.toNat / 8)

theorem error_spec (c : Conn) :
    -128 ≤ c.error ∧ c.error < 128 ∧
      c.error % 256 = (c.rto.toNat - c.timer.toNat - c.sa.toNat / 8 : Int) % 256 := by
  obtain ⟨-, -, hdelay⟩ := signedChar_spec (c.rto.toNat - c.timer.toNat)
  obtain ⟨hge, hlt, herror⟩ := signedChar_spec
    (Conn.signedChar (c.rto.toNat - c.timer.toNat) - c.sa.toNat / 8)
  refine ⟨hge, hlt, ?_⟩
  unfold Conn.error
  omega

theorem toNat_measure_sa (c : Conn) :
    (c.measure.sa.toNat : Int) = (c.sa.toNat + c.error) % 256 :=
  toNat_ofInt _

theorem toNat_measure_sv (c : Conn) :
    (c.measure.sv.toNat : Int) = (c.sv.toNat + (|c.error| - c.sv.toNat / 4)) % 256 := by
  have hm : (if c.error < 0 then Conn.signedChar (-c.error) else c.error) % 256 =
      |c.error| % 256 := by
    split_ifs with hneg
    · rw [abs_of_neg hneg]
      exact (signedChar_spec _).2.2
    · rw [abs_of_nonneg (Int.not_lt.mp hneg)]
  refine (toNat_ofInt _).trans ?_
  have hsv := (signedChar_spec ((if c.error < 0 then Conn.signedChar (-c.error) else c.error) -
    c.sv.toNat / 4)).2.2
  change (_ + Conn.signedChar ((if c.error < 0 then Conn.signedChar (-c.error) else c.error) -
    c.sv.toNat / 4)) % 256 = _
  omega

theorem toNat_measure_rto (c : Conn) :
    (c.measure.rto.toNat : Int) =
      ((c.measure.sa.toNat : Int) / 8 + c.measure.sv.toNat) % 256 :=
  toNat_ofInt _

theorem emod_eq_self_iff {x y : Int} (h : x % 256 = y % 256) :
    x % 256 = y ↔ 0 ≤ y ∧ y < 256 := by
  omega

/-- An error of 8 bits has the size of the difference that it stands for, if that is small. -/
theorem abs_error_eq {x y : Int} (hge : -128 ≤ x) (hlt : x < 128) (h : x % 256 = y % 256)
    (hle : |y| ≤ 128) : |x| = |y| := by
  have hx := abs_cases x
  have hy := abs_cases y
  omega

/-- And only then is the value that the size is added to right. -/
theorem abs_le_of_emod_eq {x y z : Int} (hge : -128 ≤ x) (hlt : x < 128) (h : x % 256 = y % 256)
    (hz : 0 ≤ z) (hsum : (z + |x|) % 256 = z + |y|) : |y| ≤ 128 := by
  have hx := abs_cases x
  have hy := abs_cases y
  omega

/-- A measurement in 8 bits is that of the recurrence where it fits, and nowhere else. -/
theorem measure_matches_iff (h : Matches c e) :
    Matches c.measure (e.measure c.timer.toNat) ↔ Fits c := by
  obtain ⟨hsa, hsv, hrto⟩ := h
  obtain ⟨hge, hlt, herror⟩ := error_spec c
  have hsa' := toNat_measure_sa c
  have hsv' := toNat_measure_sv c
  have hrto' := toNat_measure_rto c
  -- the delay is `d`, the error of the code `x`, and `z` what is left of the variation
  generalize hd : (c.rto.toNat - c.timer.toNat - c.sa.toNat / 8 : Int) = d at *
  generalize hx : c.error = x at *
  obtain ⟨z, hz⟩ : ∃ z : Int, z = c.sv.toNat - c.sv.toNat / 4 := ⟨_, rfl⟩
  have hz₀ : 0 ≤ z := by omega
  have hsv₁ : (c.sv.toNat + (|x| - c.sv.toNat / 4) : Int) = z + |x| := by omega
  have hsv₂ : (c.sv.toNat + (|d| - c.sv.toNat / 4) : Int) = z + |d| := by omega
  rw [hsv₁] at hsv'
  have hmeasure : e.measure c.timer.toNat =
      ⟨c.sa.toNat + d, z + |d|, (c.sa.toNat + d) / 8 + (z + |d|)⟩ := by
    simp only [Estimator.measure, ← hsa, ← hsv, ← hrto, hd, hsv₂]
  have hsa_iff : (c.measure.sa.toNat : Int) = c.sa.toNat + d ↔ _ :=
    hsa' ▸ emod_eq_self_iff (by omega)
  have hd₀ := abs_nonneg d
  have hfits : Fits c ↔ |d| ≤ 128 ∧ (0 ≤ c.sa.toNat + d ∧ c.sa.toNat + d < 256) ∧
      (c.sa.toNat + d) / 8 + (z + |d|) < 256 := by
    constructor
    · rintro ⟨h₁, h₂, h₃, h₄⟩
      rw [hd] at h₁ h₄
      refine ⟨h₁, ⟨by omega, by omega⟩, ?_⟩
      have hplace : (c.sa.toNat + d : Int) = c.rto.toNat - c.timer.toNat + c.sa.toNat -
          c.sa.toNat / 8 := by omega
      rw [hplace]
      omega
    · rintro ⟨h₁, ⟨h₂, h₃⟩, h₄⟩
      refine ⟨hd.symm ▸ h₁, by omega, by omega, ?_⟩
      have hplace : (c.sa.toNat + d : Int) = c.rto.toNat - c.timer.toNat + c.sa.toNat -
          c.sa.toNat / 8 := by omega
      rw [hplace] at h₄
      rw [hd]
      omega
  rw [hmeasure, hfits]
  constructor
  · rintro ⟨h₁, h₂, h₃⟩
    have hsize := abs_le_of_emod_eq hge hlt herror hz₀ (hsv'.symm.trans h₂)
    refine ⟨hsize, hsa_iff.mp h₁, ?_⟩
    exact lt_of_eq_of_lt h₃.symm (Int.ofNat_lt.mpr c.measure.rto.toNat_lt)
  · rintro ⟨hsize, hfit, hroom⟩
    have hsa₂ := hsa_iff.mpr hfit
    have hsv₃ : (c.measure.sv.toNat : Int) = z + |d| := by
      rw [hsv', abs_error_eq hge hlt herror hsize]
      exact Int.emod_eq_of_lt (by omega) (by omega)
    refine ⟨hsa₂, hsv₃, ?_⟩
    rw [hrto', hsa₂, hsv₃]
    exact Int.emod_eq_of_lt (by omega) hroom

/-! ### What a step changes -/

/-- The estimators and the segment sizes. -/
def Conn.figures (c : Conn) : (UInt8 × UInt8 × UInt8) × UInt16 × UInt16 :=
  ((c.sa, c.sv, c.rto), c.mss, c.initialmss)

@[simp] theorem figures_appcall (c : Conn) (a : App) : (c.appcall a).figures = c.figures := rfl

@[simp] theorem figures_appsend (c : Conn) (a : App) : (c.appsend a).figures = c.figures := by
  unfold Conn.appsend
  split_ifs <;> rfl

theorem figures_timerExpired (c : Conn) (a : App) : (c.timerExpired a).figures = c.figures := by
  unfold Conn.timerExpired
  simp only [apply_ite Conn.figures, figures_appsend, figures_appcall, ite_self]
  split_ifs <;> rfl

theorem figures_pollRequest (c : Conn) (a : App) : (c.pollRequest a).figures = c.figures := by
  unfold Conn.pollRequest
  split_ifs
  · simp
  · rfl

theorem figures_closing (m : Memory UInt8) (len : UInt16) (ackdata : Bool) (a : App) (c : Conn) :
    (c.closing m len ackdata a).figures = c.figures := by
  unfold Conn.closing
  dsimp only
  split_ifs <;> rfl

theorem figures_established (m : Memory UInt8) (len : UInt16) (ackdata : Bool) (a : App)
    (c : Conn) : (c.established m len ackdata a).figures = c.figures ∨
      (c.established m len ackdata a).figures = (c.setWindow (wnd m)).figures := by
  unfold Conn.established
  by_cases hfin : flags m &&& tcpFin ≠ 0 ∧ ¬c.Stopped
  · left
    rw [if_pos hfin]
    split_ifs <;> rfl
  · right
    rw [if_neg hfin]
    simp only [apply_ite Conn.figures, figures_appsend, figures_appcall, ite_self]
    rfl

theorem figures_acknowledged (c : Conn) :
    c.acknowledged.figures = (if c.nrtx = 0 then c.measure else c).figures := rfl

@[simp] theorem state_acknowledged (c : Conn) : c.acknowledged.state = c.state := by
  unfold Conn.acknowledged Conn.state
  dsimp only
  split_ifs <;> rfl

/-- A segment measures, and then it sets the segment size from its window, or both from the option
of the handshake that it completes, or neither. -/
theorem figures_found (h : c.found k m uipLen a = some c') :
    ∃ c₀ : Conn, c₀.figures = (if Measured m uipLen c then c.measure else c).figures ∧
      (c'.figures = c₀.figures ∨ c'.figures = (c₀.setWindow (wnd m)).figures ∨
        ∃ v, Completes m c ∧ mssOption m k = some (some v) ∧
          c'.figures = (c₀.setMss v).figures) := by
  unfold Conn.found at h
  dsimp only at h
  by_cases hrst : flags m &&& tcpRst ≠ 0
  · rw [if_pos hrst, Option.some_inj] at h
    have hnot : ¬Measured m uipLen c := fun hm => hrst hm.1.1
    exact ⟨c, by rw [if_neg hnot], .inl (by rw [← h]; rfl)⟩
  rw [if_neg hrst] at h
  by_cases hout : ¬Handshake m c ∧ Outside m (dataLen m uipLen) c
  · rw [if_pos hout, Option.some_inj] at h
    have hnot : ¬Measured m uipLen c := fun hm => hm.1.2.elim hout.1 fun hin => hin hout.2
    exact ⟨c, by rw [if_neg hnot], .inl (by rw [← h])⟩
  rw [if_neg hout] at h
  have haccepted : Accepted m uipLen c := ⟨not_not.mp hrst, by tauto⟩
  generalize hc₀ : (if decide (Ackdata m c) then c.acknowledged else c) = c₀ at h
  have hfigures : c₀.figures = (if Measured m uipLen c then c.measure else c).figures := by
    rw [← hc₀]
    by_cases hack : Ackdata m c
    · rw [if_pos (decide_eq_true hack), figures_acknowledged]
      simp only [Measured, haccepted, hack, true_and]
    · have hnot : ¬Measured m uipLen c := fun hm => hack hm.2.1
      rw [if_neg (by simpa using hack), if_neg hnot]
  have hstate : c₀.state = c.state := by
    rw [← hc₀]
    split_ifs <;> simp
  refine ⟨c₀, hfigures, ?_⟩
  rw [hstate] at h
  split_ifs at h with hrcvd hack hsent hcompletes hestablished
  · rw [← Option.some_inj.mp h, figures_appsend, figures_appcall]
    exact .inl rfl
  · exact .inl (by rw [Option.some_inj.mp h])
  · obtain ⟨v, hv, rfl⟩ := Option.map_eq_some_iff.mp h
    rw [figures_appsend, figures_appcall]
    cases v with
    | none => exact .inl rfl
    | some v =>
        have hack := of_decide_eq_true hcompletes.1
        exact .inr (.inr ⟨v, ⟨hsent, hack, hcompletes.2⟩, hv, rfl⟩)
  · rw [← Option.some_inj.mp h]
    exact .inl rfl
  · rw [← Option.some_inj.mp h]
    exact (figures_established _ _ _ _ _).imp_right .inl
  · rw [← Option.some_inj.mp h]
    exact .inl (figures_closing _ _ _ _ _)

/-! ### Runs -/

/-- What holds of a connection after any event. -/
structure Inv (s : State) : Prop where
  estimators : Matches s.conn s.exact
  sv : 0 < s.conn.sv.toNat
  rto : 0 < s.conn.rto.toNat
  sized : Sized s

variable {s s' : State}

theorem Inv.of_figures (h : Inv s) (hs : c'.figures = s.conn.figures) :
    Inv { s with conn := c' } := by
  simp only [Conn.figures, Prod.mk.injEq] at hs
  obtain ⟨⟨hsa, hsv, hrto⟩, hmss, hinitialmss⟩ := hs
  obtain ⟨⟨h₁, h₂, h₃⟩, hsvpos, hrtopos, ⟨hown, hpos, hle, hlimit⟩⟩ := h
  refine ⟨⟨?_, ?_, ?_⟩, ?_, ?_, ⟨hown, ?_, ?_, ?_⟩⟩ <;>
    simpa only [hsa, hsv, hrto, hmss, hinitialmss]

theorem inv_measure (h : Inv s) (hfits : Fits s.conn) :
    Inv { s with
      conn := s.conn.measure
      exact := s.exact.measure s.conn.timer.toNat } := by
  have hmatches := (measure_matches_iff h.estimators).mpr hfits
  obtain ⟨hsa, hsv, hrto⟩ := hmatches
  have hold := h.estimators.sv
  have hpos := h.sv
  simp only [Estimator.measure] at hsa hsv hrto
  have habs := abs_nonneg (s.exact.rto - s.conn.timer.toNat - s.exact.sa / 8)
  exact ⟨⟨hsa, hsv, hrto⟩, by dsimp only; omega, by dsimp only; omega,
    ⟨h.sized.own, h.sized.mss_pos, h.sized.mss_le, h.sized.initialmss_le⟩⟩

theorem inv_setWindow (h : Inv s) (w : UInt16) : Inv { s with conn := s.conn.setWindow w } := by
  obtain ⟨⟨hsa, hsv, hrto⟩, hsvpos, hrtopos, ⟨hown, hpos, hle, hlimit⟩⟩ := h
  refine ⟨⟨hsa, hsv, hrto⟩, hsvpos, hrtopos, ⟨hown, ?_, ?_, hlimit⟩⟩
  all_goals
    simp only [Conn.setWindow]
    split_ifs with hw
  · exact UInt16.lt_of_lt_of_le hpos hle
  · rw [not_or] at hw
    exact UInt16.pos_iff_ne_zero.mpr hw.2
  · exact UInt16.le_refl _
  · rw [not_or] at hw
    exact UInt16.not_lt.mp hw.1

theorem sized_setMss (hown : s.own) {v : UInt16} (hv : v ≠ 0) :
    Sized { s with conn := s.conn.setMss v } := by
  refine ⟨hown, ?_, ?_, ?_⟩
  all_goals simp only [Conn.setMss]
  · split_ifs
    · decide
    · exact UInt16.pos_iff_ne_zero.mpr hv
  · exact UInt16.le_refl _
  · split_ifs with hlt
    · exact UInt16.le_refl _
    · exact UInt16.not_lt.mp hlt

theorem inv_setMss (h : Inv s) {v : UInt16} (hv : v ≠ 0) :
    Inv { s with conn := s.conn.setMss v } := by
  obtain ⟨⟨hsa, hsv, hrto⟩, hsvpos, hrtopos, hsized⟩ := h
  exact ⟨⟨hsa, hsv, hrto⟩, hsvpos, hrtopos, sized_setMss hsized.own hv⟩

theorem inv_step (h : Inv s) {e : Event} (he : e.Holds k s) (hs : e.step k s = some s') :
    Inv s' := by
  cases e with
  | timer a =>
      rw [← Option.some_inj.mp hs]
      exact h.of_figures (figures_timerExpired _ a)
  | poll a =>
      rw [← Option.some_inj.mp hs]
      exact h.of_figures (figures_pollRequest _ a)
  | segment m uipLen a =>
      obtain ⟨hfits, hzero⟩ := he
      obtain ⟨c, hc, rfl⟩ := Option.map_eq_some_iff.mp hs
      obtain ⟨c₀, hfigures, hlast⟩ := figures_found hc
      have hmeasured : Inv { s with
          conn := c₀
          exact := if Measured m uipLen s.conn then s.exact.measure s.conn.timer.toNat
            else s.exact } := by
        by_cases hm : Measured m uipLen s.conn
        · rw [if_pos hm] at hfigures ⊢
          exact (inv_measure h (hfits hm)).of_figures hfigures
        · rw [if_neg hm] at hfigures ⊢
          exact h.of_figures hfigures
      obtain hsame | hwindow | ⟨v, hcompletes, hv, hmss⟩ := hlast
      · exact hmeasured.of_figures hsame
      · exact (inv_setWindow hmeasured _).of_figures hwindow
      · have hne : v ≠ 0 := by
          rintro rfl
          exact hzero hcompletes hv
        exact (inv_setMss hmeasured hne).of_figures hmss

theorem inv_run (h : Inv s) {es : List Event} (hes : EventsHold k s es)
    (hs : run k s es = some s') : Inv s' := by
  induction es generalizing s with
  | nil => exact Option.some_inj.mp hs ▸ h
  | cons e es ih =>
      obtain ⟨s₁, hs₁, hrun⟩ := Option.bind_eq_some_iff.mp hs
      exact ih (inv_step h hes.1 hs₁) (hes.2 s₁ hs₁) hrun

theorem inv_open {o : Open} (ho : o.Holds k) (hs : o.state k c = some s) : Inv s := by
  cases o with
  | connect iss =>
      obtain rfl := Option.some_inj.mp hs
      refine ⟨⟨rfl, rfl, rfl⟩, ?_, ?_, ⟨rfl, ?_, UInt16.le_refl _, UInt16.le_refl _⟩⟩
      · exact (by decide : 0 < (16 : UInt8).toNat)
      · exact (by decide : 0 < uipRto.toNat)
      · exact (by decide : 0 < uipTcpMss)
  | listen m iss =>
      obtain ⟨v, hv, hne⟩ := ho
      simp only [Open.state, hv, Conn.foundListen] at hs
      obtain rfl := Option.some_inj.mp hs
      refine ⟨⟨rfl, rfl, rfl⟩, ?_, ?_, sized_setMss (s := ⟨_, true, _⟩) rfl hne⟩
      · exact (by decide : 0 < (4 : UInt8).toNat)
      · exact (by decide : 0 < uipRto.toNat)

/-- In a run of a connection whose steps meet the condition, it conforms. -/
theorem connection_of_run (k : Nat) (c : Conn) {o : Open} (ho : o.Holds k) {s₀ s : State}
    (hs₀ : o.state k c = some s₀) (es : List Event) (hes : EventsHold k s₀ es)
    (hs : run k s₀ es = some s) : Conforms s := by
  have h := inv_run (inv_open ho hs₀) hes hs
  refine ⟨h.estimators, fun hzero => ?_, fun _ => h.sized⟩
  have hrto := h.rto
  rw [hzero] at hrto
  exact absurd hrto (by decide)

/-- A segment with these numbers, and what stands behind its header. -/
def bytes (seqno ackno offset flags : UInt8) (rest : List UInt8) : Memory UInt8 :=
  placed 0 (List.replicate 47 0 ++ [seqno, 0, 0, 0, ackno, offset, flags, 0, 0, 0, 0, 0, 0] ++ rest)

theorem connection_of_run_accepted : ∃ s₀ s,
    (Open.listen (bytes 0 0 0x60 0x02 [2, 4, 1, 0]) 0).state 4 ⟨0, 0, 0, 0, 0, 0, 0, 0, 0, 0, 0⟩ =
      some s₀ ∧
    run 4 s₀ [.segment (bytes 1 1 0x50 0x10 []) 60 ⟨0, 10, false⟩] = some s ∧ Conforms s := by
  have ho : (Open.listen (bytes 0 0 0x60 0x02 [2, 4, 1, 0]) 0).Holds 4 := ⟨256, rfl, by decide⟩
  refine ⟨_, _, rfl, rfl, connection_of_run 4 ⟨0, 0, 0, 0, 0, 0, 0, 0, 0, 0, 0⟩ ho rfl
    [.segment (bytes 1 1 0x50 0x10 []) 60 ⟨0, 10, false⟩] ⟨⟨fun _ => ?_, fun h => ?_⟩, ?_⟩ rfl⟩
  · exact ⟨by decide, by decide, by decide, by decide⟩
  · exact absurd h.1 (by decide)
  · exact fun _ _ => trivial

/-- A connection is opened by a segment without options, in a slot that has not been in use. -/
theorem not_connection_of_run :
    ¬∀ (k : Nat) (c : Conn) (o : Open) (s₀ : State) (es : List Event) (s : State),
      o.state k c = some s₀ → run k s₀ es = some s → Conforms s := by
  intro h
  have hsized := (h 4 ⟨0, 0, 0, 0, 0, 0, 0, 0, 0, 0, 0⟩ (.listen (bytes 0 0 0x50 0x02 []) 0) _
    [.segment (bytes 1 1 0x50 0x10 []) 60 ⟨0, 10, false⟩] _ rfl rfl).sized (by decide)
  exact absurd hsized.mss_pos (by decide)

end

end Calipso.Uip.Connection
