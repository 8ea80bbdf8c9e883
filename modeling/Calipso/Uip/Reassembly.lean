import Calipso.Uip.Reass
import Calipso.Wire.Pieces

/-!
# What a reassembly returns

A packet is returned exactly when its fragments cover it, nothing is written outside of the
buffer and the bitmap, and the fragments of one packet make this packet, as long as each fragment
has its place behind the headers and none reaches beyond the end of the packet.
-/

namespace Calipso.Uip

open Wire

/-- The write is in `uip_reassbuf` or in `uip_reassbitmap`. -/
def ReassWrite.Inside : ReassWrite → Prop
  | .buf start len => start + len ≤ reassBufsize
  | .bitmap i => i < reassBitmapSize

/-- A last fragment is there, and every byte before its end. -/
def Complete (ts : List Fragment) : Prop :=
  ∃ f ∈ ts, f.isLast = true ∧ ∀ k < f.stop, ∃ g ∈ ts, g.offset ≤ k ∧ k < g.stop

/-- The fragment is cut from the packet with the headers `head` and `payload` behind them. -/
structure Fragment.CutFrom (head payload : List UInt8) (f : Fragment) : Prop where
  stop : f.stop ≤ payload.length
  data : f.data = (payload.drop f.offset).take f.len
  head : f.offset = 0 → f.headNext = head
  last : f.isLast = true → f.stop = payload.length

namespace Reass

/-- The fragment belongs to the packet that is reassembled, and is not refused. -/
def Accepts (s : Reass) (p : Fragment) : Prop :=
  (window (s.opened p).buf 8 32 = p.addresses ∧ p.id = (s.opened p).id) ∧
    p.offset + p.len ≤ reassBufsize ∧ (p.isLast = false → p.len % 8 = 0)

/-- The fragments that were taken since the reassembly started, with this one. -/
def fragments (s : Reass) (p : Fragment) : List Fragment := (s.opened p).taken ++ [p]

/-- The fragment `p` is handled as it has to be. -/
structure Sound (s : Reass) (p : Fragment) : Prop where
  inside : ∀ w ∈ (s.reass p).writes, w.Inside
  packet : (∃ bytes, (s.reass p).result = .packet bytes) ↔
    s.Accepts p ∧ Complete (s.fragments p)
  ends : ∀ bytes, (s.reass p).result = .packet bytes → (s.reass p).state.on = false
  content : ∀ bytes, (s.reass p).result = .packet bytes → ∀ head payload,
    (∀ f ∈ s.fragments p, f.CutFrom head payload) → bytes = setLength (head ++ payload)
  head : s.on = true → p.offset ≠ 0 → ∀ f ∈ s.taken,
    window (s.reass p).state.buf 0 f.headLen = window s.buf 0 f.headLen
  length : s.on = true → p.offset ≠ 0 → s.lastfrag = true → (s.reass p).state.on = true →
    (s.reass p).state.lastfrag = true ∧ (s.reass p).state.reasslen = s.reasslen

end Reass

/-! ### The condition -/

/-- The fragment has a block of eight bytes behind the end `total`, but in the byte of the bitmap
that has the end. -/
def Fragment.Spoils (f : Fragment) (total : Nat) : Prop :=
  ∃ u, total / 8 ≤ u ∧ u < (total / 64 + 1) * 8 ∧ f.offset / 8 ≤ u ∧ u < f.stop / 8

/-- The end of the packet, when it is known with the fragment `p`. -/
def Reass.total (s : Reass) (p : Fragment) : Option Nat :=
  if p.isLast then some p.stop else if s.lastfrag then some s.reasslen else none

/-- The fragment has its place in the buffer and in the bitmap, its headers are as long as those
before, it does not end elsewhere than the last fragment before, and no fragment spoils the byte
of the bitmap that has the end. -/
structure Reass.Regular (s : Reass) (p : Fragment) : Prop where
  buf : p.headLen + p.stop ≤ reassBufsize
  bitmap : p.stop / 64 < reassBitmapSize
  head : ∀ f ∈ (s.opened p).taken, f.headLen = p.headLen
  last : p.isLast = true → p.offset ≠ 0 →
    ∀ f ∈ (s.opened p).taken, f.isLast = true → f.stop = p.stop
  clean : ∀ t ∈ (s.opened p).total p, ∀ f ∈ s.fragments p, ¬ f.Spoils t

/-- Every fragment of the run that is accepted is regular. -/
def RegularRun (s : Reass) : List ReassEvent → Prop
  | [] => True
  | .fragment p :: es => (s.Accepts p → s.Regular p) ∧ RegularRun (s.reass p).state es
  | .reassOver :: es => RegularRun s.reassOver es

/-- Every fragment of the run is handled as it has to be. -/
def SoundRun (s : Reass) : List ReassEvent → Prop
  | [] => True
  | .fragment p :: es => s.Sound p ∧ SoundRun (s.reass p).state es
  | .reassOver :: es => SoundRun s.reassOver es

instance (f : Fragment) (total : Nat) : Decidable (f.Spoils total) :=
  decidable_of_iff (∃ u < (total / 64 + 1) * 8,
      total / 8 ≤ u ∧ f.offset / 8 ≤ u ∧ u < f.stop / 8) <| by
    constructor
    · rintro ⟨u, hu, hstop, hcovers⟩
      exact ⟨u, hstop, hu, hcovers⟩
    · rintro ⟨u, hstop, hu, hcovers⟩
      exact ⟨u, hu, hstop, hcovers⟩

instance (s : Reass) (p : Fragment) : Decidable (s.Accepts p) := by
  unfold Reass.Accepts
  infer_instance

instance (s : Reass) (p : Fragment) : Decidable (s.Regular p) :=
  decidable_of_iff ((p.headLen + p.stop ≤ reassBufsize ∧ p.stop / 64 < reassBitmapSize) ∧
      (∀ f ∈ (s.opened p).taken, f.headLen = p.headLen) ∧
      (p.isLast = true → p.offset ≠ 0 →
        ∀ f ∈ (s.opened p).taken, f.isLast = true → f.stop = p.stop) ∧
      ∀ t ∈ (s.opened p).total p, ∀ f ∈ s.fragments p, ¬ f.Spoils t)
    ⟨fun ⟨⟨hbuf, hbitmap⟩, hhead, hlast, hclean⟩ => ⟨hbuf, hbitmap, hhead, hlast, hclean⟩,
      fun h => ⟨⟨h.buf, h.bitmap⟩, h.head, h.last, h.clean⟩⟩

instance decidableRegularRun : (s : Reass) → (es : List ReassEvent) → Decidable (RegularRun s es)
  | _, [] => .isTrue trivial
  | s, .fragment p :: es =>
    have := decidableRegularRun (s.reass p).state es
    inferInstanceAs (Decidable (_ ∧ _))
  | s, .reassOver :: es => decidableRegularRun s.reassOver es

/-! ### The bitmap -/

variable {s : Reass} {p f : Fragment} {ts : List Fragment} {k : Nat}

theorem bitmapBits_eq (hk : k < 8) : bitmapBits k = tailMask k := by
  have hall : ∀ k < 8, bitmapBits k = tailMask k := by decide
  exact hall k hk

theorem updateBitmap_eq (m : Bitmap) (a n : Nat) :
    updateBitmap m a n = m.mark (a / 8) ((a + n) / 8) := by
  have hstart : a / 8 / 8 = a / 64 := by omega
  have hstop : (a + n) / 8 / 8 = (a + n) / 64 := by omega
  rw [updateBitmap, Bitmap.mark, bitmapBits_eq (Nat.mod_lt _ (by decide)),
    bitmapBits_eq (Nat.mod_lt _ (by decide)), hstart, hstop, Nat.add_comm 1]

/-- The fragment has the block `u` of eight bytes. -/
def Fragment.Covers (f : Fragment) (u : Nat) : Prop := f.offset / 8 ≤ u ∧ u < f.stop / 8

instance (f : Fragment) (u : Nat) : Decidable (f.Covers u) := by
  unfold Fragment.Covers
  infer_instance

theorem Fragment.offset_mod (f : Fragment) : f.offset % 8 = 0 := by
  have hmask : f.offset = f.offsetresmore.toNat &&& 0xfff8 := by
    rw [offset, UInt16.toNat_and]
    rfl
  have hlow : ((f.offsetresmore.toNat &&& 0xfff8) &&& 7) = 0 := by
    rw [Nat.and_assoc]
    simp
  rw [hmask, ← Nat.and_two_pow_sub_one_eq_mod _ 3]
  exact hlow

theorem Fragment.headLen_le (f : Fragment) : f.headLen ≤ 295 := by
  have hlt := f.uipExtLen.toNat_lt
  unfold headLen
  omega

/-- The bytes before the end of the last fragment are there when its blocks are. -/
theorem covered_iff (hlast : f ∈ ts) :
    (∀ k < f.stop, ∃ g ∈ ts, g.offset ≤ k ∧ k < g.stop) ↔
      ∀ u < f.stop / 8, ∃ g ∈ ts, g.Covers u := by
  constructor
  · intro h u hu
    obtain ⟨g, hg, hle, hlt⟩ := h (8 * u + 7) (by omega)
    exact ⟨g, hg, by omega, by omega⟩
  · intro h k hk
    by_cases hblock : k / 8 < f.stop / 8
    · obtain ⟨g, hg, hle, hlt⟩ := h _ hblock
      have hmod := g.offset_mod
      exact ⟨g, hg, by omega, by omega⟩
    · have hmod := f.offset_mod
      have hle : f.offset ≤ f.stop := Nat.le_add_right _ _
      exact ⟨f, hlast, by omega, hk⟩

/-- The bitmap is full when every block before the end is there and none spoils it. -/
theorem full_iff (hbits : ∀ u < 48, s.bitmap.bit u = decide (∃ g ∈ ts, g.Covers u))
    (hlen : s.reasslen / 64 < 6) (hclean : ∀ g ∈ ts, ¬ g.Spoils s.reasslen) :
    s.full = true ↔ ∀ u < s.reasslen / 8, ∃ g ∈ ts, g.Covers u := by
  have hdiv : s.reasslen / 8 / 8 = s.reasslen / 64 := by omega
  have hfull := Bitmap.full_iff (m := s.bitmap) (n := s.reasslen / 8)
  rw [hdiv] at hfull
  rw [Reass.full, bitmapBits_eq (Nat.mod_lt _ (by decide)), Bool.and_eq_true, List.all_eq_true,
    decide_eq_true_iff]
  simp only [List.mem_range, decide_eq_true_eq]
  rw [hfull]
  constructor
  · intro h u hu
    have hbit := h u (by omega)
    rw [hbits u (by omega), decide_eq_true hu, decide_eq_true_iff] at hbit
    exact hbit
  · intro h u hu
    rw [hbits u (by omega), decide_eq_decide]
    constructor
    · rintro ⟨g, hg, hcovers⟩
      by_contra hge
      exact hclean g hg ⟨u, by omega, hu, hcovers.1, hcovers.2⟩
    · exact h u

/-! ### The invariant -/

/-- What is known of a reassembly and the fragments it has taken. -/
structure Reass.Tracks (s : Reass) : Prop where
  bits : ∀ u < 48, s.bitmap.bit u = decide (∃ f ∈ s.taken, f.Covers u)
  head : ∀ f ∈ s.taken, ∀ g ∈ s.taken, f.headLen = g.headLen
  last : s.lastfrag = true ↔ ∃ f ∈ s.taken, f.isLast = true
  len : ∀ f ∈ s.taken, f.isLast = true → f.stop = s.reasslen
  fits : s.lastfrag = true → s.reasslen / 64 < 6
  content : ∀ head payload, (∀ f ∈ s.taken, f.CutFrom head payload) → ∀ f ∈ s.taken,
    (f.offset = 0 → window s.buf 0 f.headLen = head) ∧
      ∀ k, f.offset ≤ k → k < f.stop → some (s.buf ((f.headLen + k : Nat) : Int)) = payload[k]?

/-- What the fragment tells about the end of the packet. -/
def Reass.learn (s : Reass) (p : Fragment) : Reass :=
  if p.isLast then { s with lastfrag := true, reasslen := p.offset + p.len } else s

/-- The state in which an accepted fragment is copied. -/
def Reass.before (s : Reass) (p : Fragment) : Reass := ((s.opened p).firstPart p).learn p

theorem reass_of_accepts (h : s.Accepts p) :
    s.reass p = (s.before p).take p (s.startWrites p ++ Reass.firstWrites p) := by
  obtain ⟨hmatch, hfits, hmod⟩ := h
  have hin : ¬ (reassBufsize < p.offset ∨ reassBufsize < p.offset + p.len) := by omega
  rw [Reass.reass]
  dsimp only
  rw [if_pos hmatch, if_neg hin, Reass.before, Reass.learn]
  cases hlast : p.isLast with
  | true => rfl
  | false =>
      have hzero : ¬ p.len % 8 ≠ 0 := not_not.mpr (hmod hlast)
      rw [if_neg hzero]
      rfl

/-- A fragment that is not accepted is not copied and returns no packet. -/
theorem reass_of_not_accepts (h : ¬ s.Accepts p) :
    (∀ bytes, (s.reass p).result ≠ .packet bytes) ∧
      (∀ w ∈ (s.reass p).writes, w ∈ s.startWrites p ++ Reass.firstWrites p) ∧
      ((s.reass p).state = s.opened p ∨ (s.reass p).state.on = false) ∧
      (s.on = true → p.offset ≠ 0 → (s.reass p).state.buf = s.buf) := by
  have hbuf : s.on = true → p.offset ≠ 0 → ((s.opened p).firstPart p).buf = s.buf := by
    intro hon hoffset
    rw [Reass.firstPart, if_neg hoffset, Reass.opened, if_pos hon]
  rw [Reass.reass]
  dsimp only
  by_cases hmatch : window (s.opened p).buf 8 32 = p.addresses ∧ p.id = (s.opened p).id
  · rw [if_pos hmatch]
    by_cases hin : reassBufsize < p.offset ∨ reassBufsize < p.offset + p.len
    · rw [if_pos hin]
      exact ⟨by simp, fun w hw => hw, .inr rfl, hbuf⟩
    · rw [if_neg hin]
      cases hlast : p.isLast with
      | true =>
          exact absurd ⟨hmatch, by omega, by simp [hlast]⟩ h
      | false =>
          by_cases hmod : p.len % 8 = 0
          · exact absurd ⟨hmatch, by omega, fun _ => hmod⟩ h
          · rw [if_pos hmod]
            exact ⟨by simp, fun w hw => hw, .inr rfl, hbuf⟩
  · rw [if_neg hmatch]
    refine ⟨by simp, fun w hw => List.mem_append_left _ hw, .inl rfl, ?_⟩
    intro hon _
    rw [Reass.opened, if_pos hon]

theorem tracks_opened (h : s.on = true → s.Tracks) : (s.opened p).Tracks := by
  rw [Reass.opened]
  split_ifs with hon
  · exact h hon
  · refine ⟨?_, by simp [Reass.start], by simp [Reass.start], by simp [Reass.start],
      by simp [Reass.start], by simp [Reass.start]⟩
    intro u hu
    have hsize : u / 8 < reassBitmapSize := by
      show u / 8 < 6
      omega
    simp [Reass.start, Bitmap.bit, hsize]

theorem before_taken : (s.before p).taken = (s.opened p).taken := by
  unfold Reass.before Reass.learn Reass.firstPart
  split_ifs <;> rfl

theorem before_bitmap : (s.before p).bitmap = (s.opened p).bitmap := by
  unfold Reass.before Reass.learn Reass.firstPart
  split_ifs <;> rfl

theorem before_buf : (s.before p).buf =
    if p.offset = 0 then write (s.opened p).buf 0 p.headNext else (s.opened p).buf := by
  unfold Reass.before Reass.learn Reass.firstPart
  split_ifs <;> rfl

theorem before_lastfrag : (s.before p).lastfrag = ((s.opened p).lastfrag || p.isLast) := by
  unfold Reass.before Reass.learn Reass.firstPart
  cases p.isLast <;> split_ifs <;> simp_all

theorem before_reasslen :
    (s.before p).reasslen = if p.isLast then p.stop else (s.opened p).reasslen := by
  unfold Reass.before Reass.learn Reass.firstPart
  split_ifs <;> rfl

/-- The end of the packet is known when there is a last fragment. -/
theorem total_eq (hlast : (s.before p).lastfrag = true) :
    (s.opened p).total p = some (s.before p).reasslen := by
  rw [before_lastfrag] at hlast
  rw [Reass.total, before_reasslen]
  cases hp : p.isLast with
  | true => simp
  | false =>
      rw [hp, Bool.or_false] at hlast
      simp [hlast]

/-- The bitmap with the fragment. -/
theorem bits_put (h : (s.opened p).Tracks) :
    ∀ u < 48, ((s.before p).put p).bitmap.bit u = decide (∃ f ∈ s.fragments p, f.Covers u) := by
  intro u hu
  have hle : p.offset / 8 ≤ (p.offset + p.len) / 8 := Nat.div_le_div_right (Nat.le_add_right _ _)
  rw [Reass.put, updateBitmap_eq, Bitmap.bit_mark hle, before_bitmap, h.bits u hu,
    ← Bool.decide_or, decide_eq_decide]
  simp only [Reass.fragments, List.mem_append, List.mem_singleton, or_and_right, exists_or,
    exists_eq_left]
  rfl

theorem length_data (p : Fragment) : p.data.length = p.len := length_window _ _ _

/-- The bytes of the packet that are there with the fragment. -/
theorem content_put (h : (s.opened p).Tracks) (hhead : ∀ f ∈ (s.opened p).taken,
    f.headLen = p.headLen) {head payload : List UInt8}
    (hcut : ∀ f ∈ s.fragments p, f.CutFrom head payload) :
    ∀ f ∈ s.fragments p, (f.offset = 0 → window ((s.before p).put p).buf 0 p.headLen = head) ∧
      ∀ k, f.offset ≤ k → k < f.stop →
        some (((s.before p).put p).buf ((p.headLen + k : Nat) : Int)) = payload[k]? := by
  have hold := h.content head payload fun f hf => hcut f (List.mem_append_left _ hf)
  have hp := hcut p (by simp [Reass.fragments])
  have hlen : p.headNext.length = p.headLen := length_window _ _ _
  -- the headers stand before the fragment
  have hfront : window ((s.before p).put p).buf 0 p.headLen =
      window (s.before p).buf 0 p.headLen := by
    apply window_write_of_disjoint
    omega
  have hfirst : p.offset = 0 → window (s.before p).buf 0 p.headLen = head := by
    intro hzero
    rw [before_buf, if_pos hzero, ← hp.head hzero]
    exact window_write_self hlen
  have hbehind : ∀ k : Nat, (s.before p).buf ((p.headLen + k : Nat) : Int) =
      (s.opened p).buf ((p.headLen + k : Nat) : Int) := by
    intro k
    rw [before_buf]
    split_ifs
    · rw [write, if_pos (by omega), List.getD_eq_getElem?_getD, List.getElem?_eq_none (by omega),
        Option.getD_none]
    · rfl
  intro f hf
  constructor
  · intro hzero
    rw [hfront]
    by_cases hpzero : p.offset = 0
    · exact hfirst hpzero
    · rcases List.mem_append.mp hf with hf | hf
      · have hwindow := (hold f hf).1 hzero
        rwa [before_buf, if_neg hpzero, ← hhead f hf]
      · obtain rfl := List.mem_singleton.mp hf
        exact absurd hzero hpzero
  · intro k hle hlt
    by_cases hin : p.offset ≤ k ∧ k < p.stop
    · have hplace : ((p.headLen + k : Nat) : Int) =
          ((p.headLen + p.offset : Nat) : Int) + (k - p.offset : Nat) := by omega
      have hstop : k - p.offset < p.len := by
        have hsum : p.stop = p.offset + p.len := rfl
        omega
      have hget : p.data[k - p.offset]? = payload[k]? := by
        rw [hp.data, List.getElem?_take, if_pos hstop, List.getElem?_drop]
        congr 1
        omega
      rw [Reass.put, hplace]
      dsimp only
      rw [write_apply (by rw [length_data]; exact hstop), ← hget, List.getElem?_eq_getElem]
    · have hput : ((s.before p).put p).buf ((p.headLen + k : Nat) : Int) =
          (s.before p).buf ((p.headLen + k : Nat) : Int) := by
        rw [Reass.put]
        dsimp only
        rw [write]
        split_ifs with hge
        · rw [List.getD_eq_getElem?_getD, List.getElem?_eq_none, Option.getD_none]
          have hsum : p.stop = p.offset + p.len := rfl
          rw [length_data]
          omega
        · rfl
      rw [hput, hbehind]
      rcases List.mem_append.mp hf with hf | hf
      · have hbyte := (hold f hf).2 k hle hlt
        rwa [hhead f hf] at hbyte
      · obtain rfl := List.mem_singleton.mp hf
        exact absurd ⟨hle, hlt⟩ hin

/-- A fragment that is the first and the last one is the whole packet. -/
theorem complete_of_single (hlast : p.isLast = true) (hzero : p.offset = 0) :
    Complete (s.fragments p) := by
  have hp : p ∈ s.fragments p := by simp [Reass.fragments]
  exact ⟨p, hp, hlast, fun k hk => ⟨p, hp, by omega, hk⟩⟩

theorem reasslen_lt (h : (s.opened p).Tracks) (hregular : s.Regular p)
    (hlast : (s.before p).lastfrag = true) : (s.before p).reasslen / 64 < 6 := by
  rw [before_reasslen]
  split_ifs with hp
  · exact hregular.bitmap
  · rw [before_lastfrag, Bool.eq_false_of_not_eq_true hp, Bool.or_false] at hlast
    exact h.fits hlast

/-- The packet is full when the fragments cover it. -/
theorem full_put_iff (h : (s.opened p).Tracks) (hregular : s.Regular p) :
    (((s.before p).put p).lastfrag && ((s.before p).put p).full) = true ↔
      Complete (s.fragments p) := by
  have hp : p ∈ s.fragments p := by simp [Reass.fragments]
  have hfull : (s.before p).lastfrag = true → (((s.before p).put p).full = true ↔
      ∀ u < (s.before p).reasslen / 8, ∃ g ∈ s.fragments p, g.Covers u) := by
    intro hlast
    exact full_iff (bits_put h) (reasslen_lt h hregular hlast)
      (hregular.clean _ (total_eq hlast))
  have hput : ((s.before p).put p).lastfrag = (s.before p).lastfrag := rfl
  rw [hput, Bool.and_eq_true]
  constructor
  · rintro ⟨hlast, hblocks⟩
    rw [hfull hlast] at hblocks
    obtain ⟨f, hf, hflast, hstop⟩ :
        ∃ f ∈ s.fragments p, f.isLast = true ∧ f.stop = (s.before p).reasslen := by
      rw [before_reasslen]
      by_cases hplast : p.isLast = true
      · exact ⟨p, hp, hplast, (if_pos hplast).symm⟩
      · rw [before_lastfrag, Bool.eq_false_of_not_eq_true hplast, Bool.or_false] at hlast
        obtain ⟨f, hf, hflast⟩ := h.last.mp hlast
        rw [if_neg hplast]
        exact ⟨f, List.mem_append_left _ hf, hflast, h.len f hf hflast⟩
    refine ⟨f, hf, hflast, ?_⟩
    rw [covered_iff hf, hstop]
    exact hblocks
  · rintro ⟨f, hf, hflast, hcovered⟩
    rw [covered_iff hf] at hcovered
    have hlast : (s.before p).lastfrag = true := by
      rw [before_lastfrag, Bool.or_eq_true]
      rcases List.mem_append.mp hf with hf | hf
      · exact .inl (h.last.mpr ⟨f, hf, hflast⟩)
      · rw [← List.mem_singleton.mp hf]
        exact .inr hflast
    refine ⟨hlast, (hfull hlast).mpr ?_⟩
    rw [before_reasslen]
    by_cases hplast : p.isLast = true
    · rw [if_pos hplast]
      by_cases hzero : p.offset = 0
      · intro u hu
        exact ⟨p, hp, by omega, hu⟩
      · rcases List.mem_append.mp hf with hf | hf
        · rwa [← hregular.last hplast hzero f hf hflast]
        · rwa [List.mem_singleton.mp hf] at hcovered
    · rw [if_neg hplast]
      rcases List.mem_append.mp hf with hf | hf
      · rwa [← h.len f hf hflast]
      · rw [List.mem_singleton.mp hf] at hflast
        exact absurd hflast hplast

/-- The invariant holds with the fragment, as long as the packet is not complete. -/
theorem tracks_put (h : (s.opened p).Tracks) (hregular : s.Regular p)
    (hnot : ¬ Complete (s.fragments p)) : ((s.before p).put p).Tracks := by
  have htaken : ((s.before p).put p).taken = s.fragments p := by
    rw [Reass.put]
    dsimp only
    rw [before_taken]
    rfl
  have hheads : ∀ f ∈ s.fragments p, f.headLen = p.headLen := by
    intro f hf
    rcases List.mem_append.mp hf with hf | hf
    · exact hregular.head f hf
    · rw [List.mem_singleton.mp hf]
  constructor
  · rw [htaken]
    exact bits_put h
  · rw [htaken]
    intro f hf g hg
    rw [hheads f hf, hheads g hg]
  · rw [htaken]
    show (s.before p).lastfrag = true ↔ _
    rw [before_lastfrag, Bool.or_eq_true, h.last]
    simp only [Reass.fragments, List.mem_append, List.mem_singleton, or_and_right, exists_or,
      exists_eq_left]
  · rw [htaken]
    intro f hf hflast
    show f.stop = (s.before p).reasslen
    rw [before_reasslen]
    by_cases hplast : p.isLast = true
    · rw [if_pos hplast]
      by_cases hzero : p.offset = 0
      · exact absurd (complete_of_single hplast hzero) hnot
      · rcases List.mem_append.mp hf with hf | hf
        · exact hregular.last hplast hzero f hf hflast
        · rw [List.mem_singleton.mp hf]
    · rw [if_neg hplast]
      rcases List.mem_append.mp hf with hf | hf
      · exact h.len f hf hflast
      · rw [List.mem_singleton.mp hf] at hflast
        exact absurd hflast hplast
  · exact reasslen_lt h hregular
  · rw [htaken]
    intro head payload hcut f hf
    have hcontent := content_put h hregular.head hcut f hf
    rwa [hheads f hf]

/-- The packet that is returned. -/
theorem window_packet (h : (s.opened p).Tracks) (hregular : s.Regular p)
    (hcomplete : Complete (s.fragments p))
    (hfull : ((s.before p).put p).lastfrag = true) {head payload : List UInt8}
    (hcut : ∀ f ∈ s.fragments p, f.CutFrom head payload) :
    window ((s.before p).put p).buf 0 ((s.before p).reasslen + p.headLen) = head ++ payload := by
  have hp : p ∈ s.fragments p := by simp [Reass.fragments]
  have hcontent := content_put h hregular.head hcut
  obtain ⟨f, hf, hflast, hcovered⟩ := hcomplete
  have hstop : (s.before p).reasslen = payload.length := by
    rw [before_reasslen]
    by_cases hplast : p.isLast = true
    · rw [if_pos hplast]
      exact (hcut p hp).last hplast
    · have hlast : (s.before p).lastfrag = true := hfull
      rw [before_lastfrag, Bool.eq_false_of_not_eq_true hplast, Bool.or_false] at hlast
      obtain ⟨g, hg, hglast⟩ := h.last.mp hlast
      rw [if_neg hplast, ← h.len g hg hglast]
      exact (hcut g (List.mem_append_left _ hg)).last hglast
  have hlength := (hcut f hf).last hflast
  -- some fragment is the first one
  obtain ⟨g, hg, hzero⟩ : ∃ g ∈ s.fragments p, g.offset = 0 := by
    rcases Nat.eq_zero_or_pos f.stop with hnone | hpos
    · have hle : f.offset ≤ f.stop := Nat.le_add_right _ _
      exact ⟨f, hf, by omega⟩
    · obtain ⟨g, hg, hle, -⟩ := hcovered 0 hpos
      exact ⟨g, hg, by omega⟩
  rw [Nat.add_comm, window_add, (hcontent g hg).1 hzero, hstop]
  congr 1
  apply List.ext_getElem?
  intro k
  by_cases hk : k < payload.length
  · obtain ⟨g', hg', hle, hlt⟩ := hcovered k (by omega)
    rw [getElem?_window hk, ← (hcontent g' hg').2 k hle hlt]
    congr 2
    omega
  · rw [List.getElem?_eq_none (by rw [length_window]; omega), List.getElem?_eq_none (by omega)]

/-! ### Runs -/

theorem inside_start : ∀ w ∈ s.startWrites p ++ Reass.firstWrites p, w.Inside := by
  have hbuf : (ReassWrite.buf 0 p.headLen).Inside := by
    have hle := p.headLen_le
    show 0 + p.headLen ≤ 400
    omega
  intro w hw
  rcases List.mem_append.mp hw with hw | hw
  · rw [Reass.startWrites] at hw
    split_ifs at hw
    · cases hw
    · rcases List.mem_cons.mp hw with rfl | hw
      · exact hbuf
      · obtain ⟨i, hi, rfl⟩ := List.mem_map.mp hw
        exact List.mem_range.mp hi
  · rw [Reass.firstWrites] at hw
    split_ifs at hw
    · rw [List.mem_singleton.mp hw]
      exact hbuf
    · cases hw

theorem inside_put (hregular : s.Regular p) : ∀ w ∈ Reass.putWrites p, w.Inside := by
  have hbuf := hregular.buf
  have hbitmap := hregular.bitmap
  have hsum : p.stop = p.offset + p.len := rfl
  intro w hw
  rcases List.mem_cons.mp hw with rfl | hw
  · show p.headLen + p.offset + p.len ≤ reassBufsize
    omega
  · obtain ⟨i, hi, rfl⟩ := List.mem_map.mp hw
    obtain ⟨j, hj, rfl⟩ := List.mem_range'.mp hi
    show _ < reassBitmapSize
    omega

/-- What comes of a fragment that is accepted. -/
theorem take_eq (h : (s.opened p).Tracks) (hregular : s.Regular p) (ws : List ReassWrite) :
    (Complete (s.fragments p) ∧ (s.before p).take p ws =
      ⟨{ (s.before p).put p with on := false, reasslen := (s.before p).reasslen + p.headLen },
        .packet (setLength (window ((s.before p).put p).buf 0
          ((s.before p).reasslen + p.headLen))), ws ++ Reass.putWrites p⟩) ∨
    (¬ Complete (s.fragments p) ∧
      (s.before p).take p ws = ⟨(s.before p).put p, .none, ws ++ Reass.putWrites p⟩) := by
  have hiff := full_put_iff h hregular
  by_cases hcomplete : Complete (s.fragments p)
  · left
    refine ⟨hcomplete, ?_⟩
    rw [Reass.take]
    dsimp only
    rw [if_pos (hiff.mpr hcomplete)]
    rfl
  · right
    refine ⟨hcomplete, ?_⟩
    rw [Reass.take]
    dsimp only
    rw [if_neg (mt hiff.mp hcomplete)]

/-- One fragment: it is handled as it has to be, and the invariant holds after it. -/
theorem sound_step (h : s.on = true → s.Tracks) (hregular : s.Accepts p → s.Regular p) :
    s.Sound p ∧ ((s.reass p).state.on = true → (s.reass p).state.Tracks) := by
  have hopened := tracks_opened (p := p) h
  by_cases haccepts : s.Accepts p
  · have hreg := hregular haccepts
    have heq := reass_of_accepts haccepts
    have hheads : s.on = true → p.offset ≠ 0 → ∀ f ∈ s.taken,
        window ((s.before p).put p).buf 0 f.headLen = window s.buf 0 f.headLen := by
      intro hon hoffset f hf
      have hs : s.opened p = s := by rw [Reass.opened, if_pos hon]
      have hhead := hreg.head f (by rwa [hs])
      rw [Reass.put]
      dsimp only
      rw [before_buf, if_neg hoffset, hs]
      apply window_write_of_disjoint
      omega
    have hinside : ∀ w ∈ s.startWrites p ++ Reass.firstWrites p ++ Reass.putWrites p, w.Inside := by
      intro w hw
      rcases List.mem_append.mp hw with hw | hw
      · exact inside_start w hw
      · exact inside_put hreg w hw
    rcases take_eq hopened hreg (s.startWrites p ++ Reass.firstWrites p) with
      ⟨hcomplete, htake⟩ | ⟨hnot, htake⟩
    · rw [htake] at heq
      have hlast : ((s.before p).put p).lastfrag = true :=
        (Bool.and_eq_true _ _ ▸ (full_put_iff hopened hreg).mpr hcomplete).1
      refine ⟨⟨?_, ?_, ?_, ?_, ?_, ?_⟩, ?_⟩
      · rwa [heq]
      · rw [heq]
        exact ⟨fun _ => ⟨haccepts, hcomplete⟩, fun _ => ⟨_, rfl⟩⟩
      · intro bytes _
        rw [heq]
      · rw [heq]
        rintro bytes ⟨⟩ head payload hcut
        rw [window_packet hopened hreg hcomplete hlast hcut]
      · rwa [heq]
      · rw [heq]
        intro _ _ _ hon
        cases hon
      · rw [heq]
        intro hon
        cases hon
    · rw [htake] at heq
      refine ⟨⟨?_, ?_, ?_, ?_, ?_, ?_⟩, ?_⟩
      · rwa [heq]
      · rw [heq]
        constructor
        · rintro ⟨bytes, ⟨⟩⟩
        · intro hboth
          exact absurd hboth.2 hnot
      · rw [heq]
        rintro bytes ⟨⟩
      · rw [heq]
        rintro bytes ⟨⟩
      · rwa [heq]
      · rw [heq]
        intro hon hoffset hlastfrag _
        have hs : s.opened p = s := by rw [Reass.opened, if_pos hon]
        show (s.before p).lastfrag = true ∧ (s.before p).reasslen = s.reasslen
        rw [before_lastfrag, before_reasslen, hs, hlastfrag]
        refine ⟨rfl, ?_⟩
        have htracks := h hon
        split_ifs with hplast
        · obtain ⟨f, hf, hflast⟩ := htracks.last.mp hlastfrag
          rw [← htracks.len f hf hflast]
          exact (hreg.last hplast hoffset f (by rwa [hs]) hflast).symm
        · rfl
      · rw [heq]
        intro _
        exact tracks_put hopened hreg hnot
  · obtain ⟨hresult, hwrites, hstate, hbuf⟩ := reass_of_not_accepts haccepts
    refine ⟨⟨?_, ?_, ?_, ?_, ?_, ?_⟩, ?_⟩
    · intro w hw
      exact inside_start w (hwrites w hw)
    · exact ⟨fun ⟨bytes, hbytes⟩ => absurd hbytes (hresult bytes), fun hboth =>
        absurd hboth.1 haccepts⟩
    · intro bytes hbytes
      exact absurd hbytes (hresult bytes)
    · intro bytes hbytes
      exact absurd hbytes (hresult bytes)
    · intro hon hoffset f _
      rw [hbuf hon hoffset]
    · intro hon _ hlastfrag hafter
      rcases hstate with hstate | hoff
      · rw [hstate, Reass.opened, if_pos hon]
        exact ⟨hlastfrag, rfl⟩
      · rw [hoff] at hafter
        cases hafter
    · intro hafter
      rcases hstate with hstate | hoff
      · rw [hstate]
        exact hopened
      · rw [hoff] at hafter
        cases hafter

theorem sound_of_tracks (es : List ReassEvent) (h : s.on = true → s.Tracks)
    (hregular : RegularRun s es) : SoundRun s es := by
  induction es generalizing s with
  | nil => trivial
  | cons e es ih =>
      cases e with
      | fragment p =>
          obtain ⟨hsound, hinv⟩ := sound_step h hregular.1
          exact ⟨hsound, ih hinv hregular.2⟩
      | reassOver =>
          refine ih ?_ hregular
          intro hon
          cases hon

/-- In every run in which each fragment that is accepted has its place and none reaches beyond the
end of its packet, every fragment is handled as it has to be. -/
theorem reassembly_sound (es : List ReassEvent) (hregular : RegularRun .init es) :
    SoundRun .init es := by
  apply sound_of_tracks es _ hregular
  intro hon
  cases hon

/-- A fragment of UDP data behind an IPv6 header. -/
def udpFragment (hi lo : UInt8) (data : List UInt8) : Fragment where
  buf := placed 0 (List.replicate 40 0 ++ [17, 0, hi, lo, 0, 0, 0, 7] ++ data)
  uipLen := 48 + UInt16.ofNat data.length
  uipExtLen := 0
  uipNextHdr := 6

/-- The last fragment comes first, a copy of it and the first one follow. -/
theorem reassembly_sound_two :
    SoundRun .init [.fragment (udpFragment 0 8 [9, 10]), .fragment (udpFragment 0 8 [9, 10]),
      .fragment (udpFragment 0 1 [1, 2, 3, 4, 5, 6, 7, 8])] :=
  reassembly_sound _ (by decide +kernel)

/-- A fragment that ends with the buffer is copied behind the headers, beyond the end of it. -/
theorem not_sound_overflow :
    ¬ SoundRun .init [.fragment (udpFragment 0x01 0x60 (List.replicate 48 1))] := by
  rintro ⟨hsound, -⟩
  have hinside := hsound.inside (.buf 392 48) (by decide +kernel)
  have hlt : ¬ 392 + 48 ≤ reassBufsize := by decide
  exact hlt hinside

end Calipso.Uip
