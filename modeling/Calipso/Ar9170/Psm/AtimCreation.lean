import Calipso.Ar9170.Psm.Scheduler
import Calipso.Wire.FirstOccurrence
import Mathlib.Data.List.Forall2

/-!
# Which ATIM frames are created

An ATIM frame announces all packets of one key, the next hop in the standard mode and
the final destination in MH-PSM. `created_psmCreateAtimPkts` says what
`ieee80211_psm_create_atim_pkts` appends to the ATIM queue when memory and room can be
had: one frame for the first packet of each key without a frame. In the standard mode
its third address is the BSSID of the IBSS and not that of the packet.
-/

namespace Calipso.Ar9170

open Interrupt

variable {cf : Conf} {s t : State} {packets : List SkBuff}

/-- The address packets are announced by. -/
def atimKey (cf : Conf) (f : SkBuff) : MacAddr :=
  if cf.psMode = .mhPsm then f.addr3 else f.addr1

/-- The third address of the frame for a packet. -/
def atimA3 (cf : Conf) (packet : SkBuff) : MacAddr :=
  if cf.psMode = .mhPsm then packet.addr3 else cf.ibssBssid

/-- The packets a frame has to be created for. -/
def unannounced (cf : Conf) (s : State) (packets : List SkBuff) : List SkBuff :=
  firstsAfter (atimKey cf) (s.txPendingAtims.map (atimKey cf)) packets

/-- The frames of the two queues after the creation: the old ones in their order, then
one for each packet that was not announced, in the order of the packets, with its first
address and with the third address `a3` gives. Every packet then has as many frames as
it had, and one where it had none. -/
structure Created (cf : Conf) (a3 : SkBuff → MacAddr) (s t : State) : Prop where
  appended : ∃ atims, t.txPendingAtims = s.txPendingAtims ++ atims ∧
    List.Forall₂ (fun atim packet => atim.addr1 = packet.addr1 ∧ atim.addr3 = a3 packet)
      atims (unannounced cf s s.txPendingPkts)
  once : ∀ packet ∈ s.txPendingPkts,
    (s.txPendingAtims.map (atimKey cf)).count (atimKey cf packet) ≤ 1 →
      (t.txPendingAtims.map (atimKey cf)).count (atimKey cf packet) = 1
  needed : ∀ atim ∈ t.txPendingAtims, atim ∈ s.txPendingAtims ∨
    ∃ packet ∈ s.txPendingPkts, atimKey cf packet = atimKey cf atim
  pkts : t.txPendingPkts = s.txPendingPkts

/-- What the loop does for one packet. -/
def announce (cf : Conf) (s : State) (packet : SkBuff) : State :=
  if atimKey cf packet ∈ s.txPendingAtims.map (atimKey cf) then s
  else addAtim cf packet.addr1 (some packet.addr3) s

theorem eval_forEach {body : SkBuff → Prog State Unit} {f : State → SkBuff → State}
    (hbody : ∀ packet s, ((body packet).eval s).2 = f s packet) (packets : List SkBuff)
    (s : State) : ((Prog.forEach body packets).eval s).2 = packets.foldl f s := by
  induction packets generalizing s with
  | nil => rfl
  | cons packet packets ih =>
      unfold Prog.forEach
      rw [Prog.eval_bind, ih, hbody, List.foldl_cons]

/-- Both modes run the same loop, each with its own key. -/
theorem eval_psmCreateAtimPkts (hmode : cf.psMode ≠ .nullPsm) (s : State) :
    ((psmCreateAtimPkts cf).eval s).2 = s.txPendingPkts.foldl (announce cf) s := by
  unfold psmCreateAtimPkts
  cases hcf : cf.psMode with
  | nullPsm => exact absurd hcf hmode
  | mhPsm =>
      refine eval_forEach (fun packet s => ?_) s.txPendingPkts s
      by_cases hknown : ∃ atim ∈ s.txPendingAtims, atim.addr3 = packet.addr3
      · simp [mhPsmAtimListContainsA3, announce, atimKey, hcf, hknown]
      · simp [mhPsmAtimListContainsA3, announce, atimKey, hcf, hknown, createAtimPkt, Prog.modify]
  | stdPsm =>
      refine eval_forEach (fun packet s => ?_) s.txPendingPkts s
      by_cases hknown : ∃ atim ∈ s.txPendingAtims, atim.addr1 = packet.addr1
      · simp [psmAtimListContainsDA, announce, atimKey, hcf, hknown]
      · simp [psmAtimListContainsDA, announce, atimKey, hcf, hknown, createAtimPkt, Prog.modify,
          addAtim]

/-- Memory and room for the frames of the packets. -/
def Ready (cf : Conf) (s : State) (packets : List SkBuff) : Prop :=
  s.env.mallocOk = true ∧
    s.txPendingAtims.length + (unannounced cf s packets).length ≤ maxPendingTxPktQueueLen

instance (cf : Conf) (s : State) (packets : List SkBuff) : Decidable (Ready cf s packets) :=
  inferInstanceAs (Decidable (_ ∧ _))

/-- The frame for a packet that is not announced. -/
theorem announce_of_notMem {packet : SkBuff} (hready : Ready cf s (packet :: packets))
    (hnew : atimKey cf packet ∉ s.txPendingAtims.map (atimKey cf)) :
    (announce cf s packet).txPendingAtims =
        s.txPendingAtims ++ [⟨s.nextSkb, packet.addr1, atimA3 cf packet⟩] ∧
      (announce cf s packet).env = s.env ∧
      (announce cf s packet).txPendingPkts = s.txPendingPkts := by
  obtain ⟨hmem, hroom⟩ := hready
  rw [unannounced, firstsAfter_cons_of_notMem hnew, List.length_cons] at hroom
  have hlt : s.txPendingAtims.length < maxPendingTxPktQueueLen := by omega
  have ha3 : (if cf.psMode = .mhPsm then (some packet.addr3).getD 0 else cf.ibssBssid) =
      atimA3 cf packet := rfl
  rw [announce, if_neg hnew, addAtim, if_pos hmem, ha3]
  simp [takeSkb, addPendingAtim, linkedListHasRoom, hlt]

theorem atimKey_created (cf : Conf) (n : Nat) (packet : SkBuff) :
    atimKey cf ⟨n, packet.addr1, atimA3 cf packet⟩ = atimKey cf packet := by
  unfold atimKey atimA3
  split <;> rfl

/-- The loop appends the frames for the packets that are not announced. -/
theorem appended_foldl (hready : Ready cf s packets) :
    (packets.foldl (announce cf) s).txPendingPkts = s.txPendingPkts ∧
      ∃ atims, (packets.foldl (announce cf) s).txPendingAtims = s.txPendingAtims ++ atims ∧
        List.Forall₂ (fun atim packet => atim.addr1 = packet.addr1 ∧ atim.addr3 = atimA3 cf packet)
          atims (unannounced cf s packets) := by
  induction packets generalizing s with
  | nil => exact ⟨rfl, [], (List.append_nil _).symm, List.Forall₂.nil⟩
  | cons packet packets ih =>
      rw [List.foldl_cons]
      by_cases hknown : atimKey cf packet ∈ s.txPendingAtims.map (atimKey cf)
      · have hskip : unannounced cf s (packet :: packets) = unannounced cf s packets :=
          firstsAfter_cons_of_mem hknown
        have hready' : Ready cf s packets := by
          rw [Ready, ← hskip]
          exact hready
        rw [announce, if_pos hknown, hskip]
        exact ih hready'
      · obtain ⟨hatims, henv, hpkts⟩ := announce_of_notMem hready hknown
        have hfirst : unannounced cf s (packet :: packets) =
            packet :: unannounced cf (announce cf s packet) packets := by
          rw [unannounced, unannounced, firstsAfter_cons_of_notMem hknown, hatims, List.map_append,
            List.map_singleton, atimKey_created]
        have hready' : Ready cf (announce cf s packet) packets := by
          obtain ⟨hmem, hroom⟩ := hready
          rw [hfirst, List.length_cons] at hroom
          refine ⟨henv ▸ hmem, ?_⟩
          rw [hatims, List.length_append, List.length_singleton]
          omega
        obtain ⟨hpkts', atims, hatims', hmatch⟩ := ih hready'
        refine ⟨hpkts'.trans hpkts, ⟨s.nextSkb, packet.addr1, atimA3 cf packet⟩ :: atims, ?_, ?_⟩
        · rw [hatims', hatims, List.append_assoc, List.singleton_append]
        · rw [hfirst]
          exact List.Forall₂.cons ⟨rfl, rfl⟩ hmatch

theorem map_atimKey_of_forall₂ {atims : List SkBuff}
    (h : List.Forall₂ (fun atim packet => atim.addr1 = packet.addr1 ∧ atim.addr3 = atimA3 cf packet)
      atims packets) : atims.map (atimKey cf) = packets.map (atimKey cf) := by
  induction h with
  | nil => rfl
  | cons hone _ ih =>
      rw [List.map_cons, List.map_cons, ih, atimKey, hone.1, hone.2]
      congr 1
      exact atimKey_created cf 0 _

/-- After the creation every pending packet is announced, once. -/
theorem created_psmCreateAtimPkts (cf : Conf) (s : State) (hmode : cf.psMode ≠ .nullPsm)
    (hready : Ready cf s s.txPendingPkts) :
    Created cf (atimA3 cf) s ((psmCreateAtimPkts cf).eval s).2 := by
  rw [eval_psmCreateAtimPkts hmode]
  obtain ⟨hpkts, atims, hatims, hmatch⟩ := appended_foldl hready
  have hkeys : atims.map (atimKey cf) = (unannounced cf s s.txPendingPkts).map (atimKey cf) :=
    map_atimKey_of_forall₂ hmatch
  refine ⟨⟨atims, hatims, hmatch⟩, fun packet hpacket hle => ?_, fun atim hatim => ?_, hpkts⟩
  · have hmem : atimKey cf packet ∈ s.txPendingPkts.map (atimKey cf) :=
      List.mem_map_of_mem hpacket
    rw [hatims, List.map_append, hkeys, unannounced, count_known_append_firstsAfter hmem]
    exact max_eq_left hle
  · rw [hatims] at hatim
    refine (List.mem_append.mp hatim).imp_right fun hnew => ?_
    have hkey : atimKey cf atim ∈ (unannounced cf s s.txPendingPkts).map (atimKey cf) :=
      hkeys ▸ List.mem_map_of_mem hnew
    obtain ⟨packet, hpacket, heq⟩ := List.mem_map.mp hkey
    exact ⟨packet, (firstsAfter_sublist _ _ _).subset hpacket, heq⟩

/-- Two packets for one receiver and one for another, in the standard mode. -/
def threePending : State :=
  { State.init with
    txPendingPkts := [⟨0, 0xa, 0xc⟩, ⟨1, 0xd, 0xc⟩, ⟨2, 0xa, 0xc⟩] }

theorem created_threePending :
    Created Conf.std (atimA3 Conf.std) threePending
      ((psmCreateAtimPkts Conf.std).eval threePending).2 :=
  created_psmCreateAtimPkts Conf.std threePending (by decide) (by decide)

/-- The third address is not that of the packet in the standard mode. -/
theorem not_created_addr3 :
    ¬ Created Conf.std SkBuff.addr3 threePending
      ((psmCreateAtimPkts Conf.std).eval threePending).2 := by
  intro h
  obtain ⟨atims, hatims, hmatch⟩ := h.appended
  have hcreated : ((psmCreateAtimPkts Conf.std).eval threePending).2.txPendingAtims =
      [⟨0, 0xa, 0xb⟩, ⟨1, 0xd, 0xb⟩] := by decide
  have hfirst : unannounced Conf.std threePending threePending.txPendingPkts =
      [⟨0, 0xa, 0xc⟩, ⟨1, 0xd, 0xc⟩] := by decide
  obtain rfl : [⟨0, 0xa, 0xb⟩, ⟨1, 0xd, 0xb⟩] = atims := hcreated.symm.trans hatims
  rw [hfirst] at hmatch
  cases hmatch with
  | cons hone _ => exact absurd hone.2 (by decide)

end Calipso.Ar9170
