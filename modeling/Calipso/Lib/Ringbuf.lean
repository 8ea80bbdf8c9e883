import Calipso.Memory.Fifo
import Calipso.Memory.Ring

/-!
# Ring buffers

`ringbuf.c`: one side puts bytes into the buffer, another one gets them out, and either may be
interrupted by the other between two accesses to the structure. Its size is a power of two, 256 at
most; the `size` of 256 comes to zero in eight bits.
-/

namespace Calipso.Lib

open Memory

/-- `struct ringbuf` -/
structure Ringbuf where
  data : Nat → UInt8
  mask : UInt8
  putPtr : UInt8
  getPtr : UInt8

namespace Ringbuf

/-- `ringbuf_init` -/
def init (data : Nat → UInt8) (size : UInt8) : Ringbuf := ⟨data, size - 1, 0, 0⟩

variable (r : Ringbuf)

/-- `ringbuf_elements`. The mask leaves the same bits of the difference as in `int`. -/
def elements : UInt8 := (r.putPtr - r.getPtr) &&& r.mask

def write (c : UInt8) : Ringbuf :=
  { r with data := Function.update r.data r.putPtr.toNat c }

def advancePut : Ringbuf := { r with putPtr := (r.putPtr + 1) &&& r.mask }

def advanceGet : Ringbuf := { r with getPtr := (r.getPtr + 1) &&& r.mask }

/-- `ringbuf_put` -/
def put (c : UInt8) : Bool × Ringbuf :=
  if r.elements = r.mask then (false, r) else (true, (r.write c).advancePut)

/-- `ringbuf_get` -/
def get : Option UInt8 × Ringbuf :=
  if 0 < r.elements then (some (r.data r.getPtr.toNat), r.advanceGet) else (none, r)

/-! ### Calls whose accesses interleave -/

/-- How far a call of `ringbuf_put` is: before it, before the byte is written, before `put_ptr` is. -/
inductive Putting
  | idle
  | write (c : UInt8)
  | advance (c : UInt8)

/-- How far a call of `ringbuf_get` is: before it, before the byte is read, before `get_ptr` is
written. -/
inductive Getting
  | idle
  | read
  | advance (c : UInt8)

/-- The buffer with the two calls that go on, and the calls that have returned. -/
structure Shared where
  ring : Ringbuf
  putting : Putting
  getting : Getting
  log : List (Call UInt8)

/-- The next access of a side. The byte counts when the side begins a call. -/
inductive Access
  | put (c : UInt8)
  | get

namespace Shared

variable (s : Shared)

def step : Access → Shared
  | .put c =>
    match s.putting with
    | .idle =>
      if s.ring.elements = s.ring.mask then { s with log := s.log ++ [.put c false] }
      else { s with putting := .write c }
    | .write c => { s with ring := s.ring.write c, putting := .advance c }
    | .advance c =>
      { s with ring := s.ring.advancePut, putting := .idle, log := s.log ++ [.put c true] }
  | .get =>
    match s.getting with
    | .idle =>
      if 0 < s.ring.elements then { s with getting := .read }
      else { s with log := s.log ++ [.get none] }
    | .read => { s with getting := .advance (s.ring.data s.ring.getPtr.toNat) }
    | .advance c =>
      { s with ring := s.ring.advanceGet, getting := .idle, log := s.log ++ [.get (some c)] }

def run (as : List Access) : Shared := as.foldl step s

end Shared

/-! ### The queue in it -/

variable {r : Ringbuf} {s : Shared} {cap : ℕ} {c : UInt8}

/-- The size is a power of two and the pointers lie inside. -/
structure Fits (r : Ringbuf) : Prop where
  dvd : r.mask.toNat + 1 ∣ 256
  put_lt : r.putPtr.toNat < r.mask.toNat + 1
  get_lt : r.getPtr.toNat < r.mask.toNat + 1

/-- The bytes between the pointers. -/
def contents (r : Ringbuf) : List UInt8 :=
  Ring.span r.data (r.mask.toNat + 1) r.getPtr.toNat r.putPtr.toNat

theorem toNat_and_mask {m : UInt8} (h : m.toNat + 1 ∣ 256) (x : UInt8) :
    (x &&& m).toNat = x.toNat % (m.toNat + 1) := by
  obtain ⟨k, -, hk⟩ := (Nat.dvd_prime_pow (m := 8) Nat.prime_two).mp h
  rw [UInt8.toNat_and, hk, ← Nat.and_two_pow_sub_one_eq_mod, ← hk, Nat.add_sub_cancel]

theorem Fits.toNat_next (h : Fits r) {p : UInt8} (hp : p.toNat < r.mask.toNat + 1) :
    ((p + 1) &&& r.mask).toNat = Ring.next (r.mask.toNat + 1) p.toNat := by
  rw [toNat_and_mask h.dvd, UInt8.toNat_add, UInt8.toNat_one, Nat.mod_mod_of_dvd _ h.dvd, Ring.next]
  split
  · next hend => rw [hend, Nat.mod_self]
  · exact Nat.mod_eq_of_lt (by omega)

theorem Fits.toNat_elements (h : Fits r) : r.elements.toNat = r.contents.length := by
  obtain ⟨m, hm⟩ := h.dvd
  have hput := h.put_lt
  have hget := h.get_lt
  rw [elements, toNat_and_mask h.dvd, UInt8.toNat_sub, Nat.mod_mod_of_dvd _ h.dvd, contents,
    Ring.span_length, Ring.dist]
  generalize r.mask.toNat + 1 = n at *
  obtain ⟨m, rfl⟩ : ∃ m', m = m' + 1 := ⟨m - 1, by
    rcases m with - | m
    · omega
    · rfl⟩
  rw [Nat.mul_succ] at hm
  split
  · rw [show 2 ^ 8 - r.getPtr.toNat + r.putPtr.toNat =
      r.putPtr.toNat - r.getPtr.toNat + n * (m + 1) by rw [Nat.mul_succ]; omega,
      Nat.add_mul_mod_self_left]
    exact Nat.mod_eq_of_lt (by omega)
  · rw [show 2 ^ 8 - r.getPtr.toNat + r.putPtr.toNat =
      n - r.getPtr.toNat + r.putPtr.toNat + n * m by omega, Nat.add_mul_mod_self_left]
    exact Nat.mod_eq_of_lt (by omega)

theorem Fits.full_iff (h : Fits r) : r.elements = r.mask ↔ r.contents.length = r.mask.toNat := by
  rw [← UInt8.toNat_inj, h.toNat_elements]

theorem Fits.elements_pos_iff (h : Fits r) : 0 < r.elements ↔ r.contents ≠ [] := by
  rw [UInt8.lt_iff_toNat_lt, h.toNat_elements]
  exact List.length_pos_iff

theorem Fits.length_le (h : Fits r) : r.contents.length ≤ r.mask.toNat := by
  rw [contents, Ring.span_length]
  exact Nat.le_of_lt_succ (Ring.dist_lt h.get_lt h.put_lt)

theorem contents_write (h : Fits r) : (r.write c).contents = r.contents :=
  Ring.span_update h.get_lt le_rfl

theorem Fits.advancePut (h : Fits r) : Fits r.advancePut :=
  ⟨h.dvd, (h.toNat_next h.put_lt).trans_lt (Ring.next_lt h.put_lt), h.get_lt⟩

theorem Fits.advanceGet (h : Fits r) : Fits r.advanceGet :=
  ⟨h.dvd, h.put_lt, (h.toNat_next h.get_lt).trans_lt (Ring.next_lt h.get_lt)⟩

/-- Only when `put_ptr` is written does the byte belong to the queue. -/
theorem contents_advancePut (h : Fits r) (hroom : r.contents.length < r.mask.toNat) :
    r.advancePut.contents = r.contents ++ [r.data r.putPtr.toNat] := by
  have hnext : Ring.next (r.mask.toNat + 1) r.putPtr.toNat ≠ r.getPtr.toNat := by
    rw [contents, Ring.span_length] at hroom
    rw [Ne, Ring.next_eq_iff h.get_lt h.put_lt]
    omega
  have hpush : Ring.span (Function.update r.data r.putPtr.toNat (r.data r.putPtr.toNat))
      (r.mask.toNat + 1) r.getPtr.toNat (Ring.next (r.mask.toNat + 1) r.putPtr.toNat) =
        r.contents ++ [r.data r.putPtr.toNat] :=
    Ring.span_push h.get_lt h.put_lt hnext
  rw [Function.update_eq_self, ← h.toNat_next h.put_lt] at hpush
  exact hpush

theorem contents_advanceGet (h : Fits r) (hne : r.contents ≠ []) :
    r.contents = r.data r.getPtr.toNat :: r.advanceGet.contents := by
  have hpop : r.contents = r.data r.getPtr.toNat :: Ring.span r.data (r.mask.toNat + 1)
      (Ring.next (r.mask.toNat + 1) r.getPtr.toNat) r.putPtr.toNat :=
    Ring.span_pop h.get_lt h.put_lt fun heq => hne ((Ring.span_eq_nil_iff h.get_lt).mpr heq)
  rw [← h.toNat_next h.get_lt] at hpop
  exact hpop

theorem Fits.put (h : Fits r) (c : UInt8) : Fits (r.put c).2 ∧
    (r.put c = (false, r) ∨
      (r.put c).1 = true ∧ (r.put c).2.contents = r.contents ++ [c]) := by
  unfold Ringbuf.put
  split
  · exact ⟨h, .inl rfl⟩
  · next hfull =>
      have hw : Fits (r.write c) := ⟨h.dvd, h.put_lt, h.get_lt⟩
      have hroom : (r.write c).contents.length < r.mask.toNat := by
        rw [contents_write h]
        exact lt_of_le_of_ne h.length_le (mt h.full_iff.mpr hfull)
      refine ⟨hw.advancePut, .inr ⟨rfl, ?_⟩⟩
      rw [contents_advancePut hw hroom, contents_write h]
      exact congrArg (fun x => _ ++ [x]) (Function.update_self ..)

theorem Fits.get (h : Fits r) : Fits r.get.2 ∧
    (r.get = (none, r) ∨ ∃ c, r.get.1 = some c ∧ r.contents = c :: r.get.2.contents) := by
  unfold Ringbuf.get
  split
  · next hsome =>
      exact ⟨h.advanceGet, .inr ⟨_, rfl, contents_advanceGet h (h.elements_pos_iff.mp hsome)⟩⟩
  · exact ⟨h, .inl rfl⟩

/-! ### Runs -/

/-- What holds of a call of `ringbuf_put` that goes on. -/
def Putting.Holds (r : Ringbuf) : Putting → Prop
  | .idle => True
  | .write _ => r.contents.length < r.mask.toNat
  | .advance c => r.contents.length < r.mask.toNat ∧ r.data r.putPtr.toNat = c

/-- What holds of a call of `ringbuf_get` that goes on. -/
def Getting.Holds (r : Ringbuf) : Getting → Prop
  | .idle => True
  | .read => r.contents ≠ []
  | .advance c => r.contents ≠ [] ∧ r.data r.getPtr.toNat = c

structure Inv (cap : ℕ) (s : Shared) : Prop where
  fits : Fits s.ring
  mask : s.ring.mask.toNat = cap
  putting : s.putting.Holds s.ring
  getting : s.getting.Holds s.ring
  history : History cap s.log s.ring.contents

/-- The other side takes bytes out at the front at most. -/
theorem Putting.Holds.advanceGet {p : Putting} (h : p.Holds r) (hfits : Fits r)
    (hne : r.contents ≠ []) : p.Holds r.advanceGet := by
  have hlt : r.advanceGet.contents.length ≤ r.contents.length := by
    rw [contents_advanceGet hfits hne]
    exact Nat.le_succ _
  cases p with
  | idle => trivial
  | write _ => exact hlt.trans_lt h
  | advance _ => exact ⟨hlt.trans_lt h.1, h.2⟩

/-- A byte is written behind what is in the queue. -/
theorem Getting.Holds.write {g : Getting} (h : g.Holds r) (hfits : Fits r) :
    g.Holds (r.write c) := by
  cases g with
  | idle => trivial
  | read => exact (congrArg (· ≠ []) (contents_write hfits)).mpr h
  | advance d =>
      have hne : r.getPtr.toNat ≠ r.putPtr.toNat :=
        fun heq => h.1 ((Ring.span_eq_nil_iff hfits.get_lt).mpr heq)
      refine ⟨(congrArg (· ≠ []) (contents_write hfits)).mpr h.1, ?_⟩
      rw [← h.2]
      exact Function.update_of_ne hne c r.data

theorem Getting.Holds.advancePut {g : Getting} (h : g.Holds r) (hfits : Fits r)
    (hroom : r.contents.length < r.mask.toNat) : g.Holds r.advancePut := by
  have hne : r.advancePut.contents ≠ [] := by simp [contents_advancePut hfits hroom]
  cases g with
  | idle => trivial
  | read => exact hne
  | advance _ => exact ⟨hne, h.2⟩

theorem inv_put (h : Inv cap s) (c : UInt8) : Inv cap (s.step (.put c)) := by
  obtain ⟨ring, putting, getting, log⟩ := s
  cases putting with
  | idle =>
      by_cases hfull : ring.elements = ring.mask
      · rw [Shared.step, if_pos hfull]
        exact { h with history := h.history.snoc (.full ((h.fits.full_iff.mp hfull).trans h.mask)) }
      · rw [Shared.step, if_neg hfull]
        have hroom := lt_of_le_of_ne h.fits.length_le (mt h.fits.full_iff.mpr hfull)
        exact { h with putting := hroom }
  | write d =>
      have hcontents := contents_write (c := d) h.fits
      exact
        { fits := ⟨h.fits.dvd, h.fits.put_lt, h.fits.get_lt⟩
          mask := h.mask
          putting := ⟨hcontents.symm ▸ h.putting, Function.update_self ..⟩
          getting := h.getting.write h.fits
          history := (congrArg (History _ log) hcontents).mpr h.history }
  | advance d =>
      obtain ⟨hroom, hd⟩ := h.putting
      have hcontents := contents_advancePut h.fits hroom
      rw [hd] at hcontents
      exact
        { fits := h.fits.advancePut
          mask := h.mask
          putting := trivial
          getting := h.getting.advancePut h.fits hroom
          history := (congrArg (History _ _) hcontents).mpr (h.history.snoc (.put (h.mask ▸ hroom))) }

theorem inv_get (h : Inv cap s) : Inv cap (s.step .get) := by
  obtain ⟨ring, putting, getting, log⟩ := s
  cases getting with
  | idle =>
      by_cases hsome : 0 < ring.elements
      · rw [Shared.step, if_pos hsome]
        exact { h with getting := h.fits.elements_pos_iff.mp hsome }
      · rw [Shared.step, if_neg hsome]
        have hnil : ring.contents = [] := not_not.mp (mt h.fits.elements_pos_iff.mpr hsome)
        have hhistory : History cap log [] := hnil ▸ h.history
        exact { h with history := (congrArg (History _ _) hnil).mpr (hhistory.snoc .empty) }
  | read => exact { h with getting := ⟨h.getting, rfl⟩ }
  | advance d =>
      obtain ⟨hne, hd⟩ := h.getting
      have hcontents := contents_advanceGet h.fits hne
      rw [hd] at hcontents
      have hhistory : History cap log (d :: ring.advanceGet.contents) :=
        hcontents ▸ h.history
      exact
        { fits := h.fits.advanceGet
          mask := h.mask
          putting := h.putting.advanceGet h.fits hne
          getting := trivial
          history := hhistory.snoc .get }

theorem inv_run (h : Inv cap s) (as : List Access) : Inv cap (s.run as) := by
  induction as generalizing s with
  | nil => exact h
  | cons a as ih =>
      cases a with
      | put c => exact ih (inv_put h c)
      | get => exact ih (inv_get h)

/-- The buffer of `2 ^ k` bytes before the first call. -/
def start (data : Nat → UInt8) (k : Fin 9) : Shared :=
  ⟨init data (UInt8.ofNat (2 ^ k.val)), .idle, .idle, []⟩

theorem inv_start (data : Nat → UInt8) (k : Fin 9) : Inv (2 ^ k.val - 1) (start data k) := by
  have hmask : (start data k).ring.mask.toNat + 1 = 2 ^ k.val := by
    revert k
    simp only [start, init]
    decide
  have hnil : (start data k).ring.contents = [] := Ring.span_self ..
  exact
    { fits := ⟨hmask ▸ Nat.pow_dvd_pow 2 (Nat.le_of_lt_succ k.isLt), Nat.succ_pos _, Nat.succ_pos _⟩
      mask := Nat.eq_sub_of_add_eq hmask
      putting := trivial
      getting := trivial
      history := (congrArg (History _ _) hnil).mpr .nil }

/-- However the accesses of the two sides interleave, the calls answer as those of one queue of
`2 ^ k - 1` bytes do, one after the other in the order in which they return, and
`ringbuf_elements` is its length. -/
theorem calls_linearize (data : Nat → UInt8) (k : Fin 9) (as : List Access) :
    ∃ q, History (2 ^ k.val - 1) ((start data k).run as).log q ∧
      ((start data k).run as).ring.elements.toNat = q.length :=
  have h := inv_run (inv_start data k) as
  ⟨_, h.history, h.fits.toNat_elements⟩

end Ringbuf

end Calipso.Lib
