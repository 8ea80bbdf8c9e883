import Calipso.Uip.Headers

/-!
# Walks over the headers

The length of the extension headers and the offset of an option are bytes, and neither a header
nor an option is checked against the end of the packet. `headersConform_iff` says which packets
are processed as they should be all the same.
-/

namespace Calipso.Uip

open Net Wire

/-! ### What is asked of the input path -/

/-- The input path ends; `uip_len` is not beyond what came in, extension headers and options are
read inside it, `uip_ext_len` is the length of the headers that are passed, and no header is begun
twice at one place. -/
structure HeadersConform (env : HeaderEnv) (buf : Memory UInt8) (uipLen : UInt16) : Prop where
  ends : ∃ n, uipInput env n buf uipLen ≠ none
  len : ∀ n r, uipInput env n buf uipLen = some (some r) → r.1.uipLen ≤ uipLen
  reads : ∀ n r, uipInput env n buf uipLen = some (some r) →
    ∀ p ∈ r.1.reads, p ≤ r.1.uipLen.toNat
  extLen : ∀ n r, uipInput env n buf uipLen = some (some r) → r.1.uipExtLen.toNat = r.1.passed
  once : ∀ n r, uipInput env n buf uipLen = some (some r) → r.1.begun.Nodup

/-! ### Packets that are processed so -/

namespace Headers

variable (env : HeaderEnv) (h : Headers)

/-- The loop over the options meets one at the offset `x`. -/
def OptMet (x : UInt8) : Prop :=
  Reached h.optNext h.optInside h.optLeft 2 x ∧ h.optInside x = true

/-- The length of the headers stays a byte when the header is passed. -/
def PassFits : Prop := h.uipExtLen.toNat + h.extSize < 256

/-- The offsets come to an end, what is read of the header and of the options is in the packet,
and the length stays a byte when the header is passed. -/
structure OptionsFit : Prop where
  stops : ∃ x, Reached h.optNext h.optInside h.optLeft 2 x ∧
    goesOn h.optInside h.optLeft x = false
  header : h.ext + 2 ≤ h.uipLen.toNat
  taken : ∀ x, h.OptMet x → h.optLeft x = false → h.opt x + h.optTaken x ≤ h.uipLen.toNat
  left : ∀ x, h.OptMet x → h.optLeft x = true →
    h.opt x + (h.optEnd env x).extent ≤ h.uipLen.toNat
  passed : (∀ x, h.OptMet x → h.optLeft x = true → (h.optEnd env x).verdict = .goOn) → h.PassFits

/-- The next header, if it is an extension header, fits. -/
def Fits : Prop :=
  match h.next with
  | .options bitmap => (h.enter bitmap).OptionsFit env
  | .routing _ => h.ext + 4 ≤ h.uipLen.toNat ∧ (h.segLeft = 0 → h.PassFits)
  | .leave _ => True

/-- The loop over the headers comes from one state to another. -/
inductive Comes : Headers → Headers → Prop
  | refl (h : Headers) : Comes h h
  | head {h t u : Headers} (n : Nat) (hround : h.round env n = some (t, none)) (hcomes : Comes t u) :
      Comes h u

/-- The header at `t` is looked at when a packet comes in with the header at `h`. -/
def Met (h t : Headers) : Prop :=
  Comes env h t ∧ (env.accepts h = true ∨ t = h ∧ env.router = true ∧ h.nextHdr = protoHbho)

end Headers

/-! ### Options -/

namespace Headers

variable {env : HeaderEnv} {h t : Headers} {n k : Nat}

/-- All that was read is in the packet, and the length of the headers is the one of those that
are passed. -/
def Good (h : Headers) : Prop :=
  (∀ p ∈ h.reads, p ≤ h.uipLen.toNat) ∧ h.uipExtLen.toNat = h.passed

/-- The length of the headers modulo 256. -/
def Sane (h : Headers) : Prop := h.passed % 256 = h.uipExtLen.toNat

/-- The headers have been begun at different places before the present one. -/
def Ordered (h : Headers) : Prop := h.begun.Nodup ∧ ∀ p ∈ h.begun, p < h.ext

theorem setFlags_of_lt {p : Nat} (x flags : UInt8) (hp : p < h.ext + 2) :
    h.setFlags x flags p = h.buf p := by
  refine Function.update_of_ne ?_ _ _
  unfold opt
  omega

theorem verifyRank_buf {p : Nat} (i : RplInstance) (x : UInt8) (hp : p < h.ext + 2) :
    (h.verifyRank i x).buf p = h.buf p := by
  simp only [verifyRank]
  split_ifs <;> first | rfl | exact setFlags_of_lt _ _ hp

/-- Where the loop is left, the header and what lies before it are as they were. -/
theorem optEnd_buf {p : Nat} (x : UInt8) (hp : p < h.ext + 2) :
    (h.optEnd env x).buf p = h.buf p := by
  unfold optEnd
  split_ifs
  · unfold rplVerifyHeader
    split_ifs
    · rfl
    · cases env.getInstance h.begun.length (h.optInstance x) with
      | none => rfl
      | some i => exact verifyRank_buf i x hp
  · rfl
  · simp only [optUnknown]
    split_ifs <;> rfl

theorem foldl_reads (f : UInt8 → Nat) (xs : List UInt8) (reads : List Nat) :
    xs.foldl (fun reads x => reads ++ [f x]) reads = reads ++ xs.map f := by
  induction xs generalizing reads with
  | nil => simp
  | cons x xs ih =>
      rw [List.foldl_cons, ih]
      simp

/-- What the loop over the options leaves, by the places it visits. -/
theorem extHdrOptionsProcess_eq_some_iff {r : OptVerdict × Headers} :
    h.extHdrOptionsProcess env n = some r ↔ ∃ xs last,
      visit h.optNext h.optInside h.optLeft n 2 = some (xs, last) ∧
        r.1 = (last.elim .goOn fun x => (h.optEnd env x).verdict) ∧
        r.2 = { h with
          buf := last.elim h.buf fun x => (h.optEnd env x).buf
          reads := h.reads ++ [h.ext + 2] ++ xs.map (fun x => h.opt x + h.optTaken x) ++
            (last.map fun x => h.opt x + (h.optEnd env x).extent).toList } := by
  unfold extHdrOptionsProcess
  rw [walk_eq_visit, Option.map_map, Option.map_eq_some_iff]
  constructor
  · rintro ⟨⟨xs, last⟩, hv, rfl⟩
    refine ⟨xs, last, hv, ?_⟩
    simp only [Function.comp_apply]
    rw [foldl_reads]
    cases last <;> simp
  · rintro ⟨xs, last, hv, hverdict, hpacket⟩
    refine ⟨(xs, last), hv, ?_⟩
    obtain ⟨verdict, t⟩ := r
    subst hverdict hpacket
    simp only [Function.comp_apply]
    rw [foldl_reads]
    cases last <;> simp

/-- What the loop over the options leaves of the packet. -/
structure Processed (env : HeaderEnv) (h : Headers) (r : OptVerdict × Headers) : Prop where
  frame : ∃ buf reads, r.2 = { h with buf := buf, reads := reads } ∧
    ∀ p : Nat, p < h.ext + 2 → buf p = h.buf p
  verdict : r.1 = .goOn ↔
    ∀ x, h.OptMet x → h.optLeft x = true → (h.optEnd env x).verdict = .goOn
  reads : (∀ p ∈ r.2.reads, p ≤ h.uipLen.toNat) ↔
    (∀ p ∈ h.reads, p ≤ h.uipLen.toNat) ∧ h.ext + 2 ≤ h.uipLen.toNat ∧
      (∀ x, h.OptMet x → h.optLeft x = false → h.opt x + h.optTaken x ≤ h.uipLen.toNat) ∧
      ∀ x, h.OptMet x → h.optLeft x = true →
        h.opt x + (h.optEnd env x).extent ≤ h.uipLen.toNat

theorem processed_of_eq_some {r : OptVerdict × Headers}
    (hr : h.extHdrOptionsProcess env n = some r) : h.Processed env r := by
  obtain ⟨xs, last, hv, hverdict, hpacket⟩ := extHdrOptionsProcess_eq_some_iff.mp hr
  have htaken (P : UInt8 → Prop) :
      (∀ x ∈ xs, P x) ↔ ∀ x, h.OptMet x → h.optLeft x = false → P x := by
    refine (visit_goesOn_iff hv).trans (forall_congr' fun x => ?_)
    simp [OptMet, goesOn]
  have hleft (P : UInt8 → Prop) :
      (∀ x ∈ last, P x) ↔ ∀ x, h.OptMet x → h.optLeft x = true → P x := by
    refine (visit_left_iff hv).trans (forall_congr' fun x => ?_)
    simp [OptMet]
  refine ⟨⟨_, _, hpacket, fun p hp => ?_⟩, ?_, ?_⟩
  · cases last with
    | none => rfl
    | some x => exact optEnd_buf x hp
  · rw [← hleft, hverdict]
    cases last <;> simp
  · rw [← htaken, ← hleft, hpacket]
    simp only [List.forall_mem_append, List.forall_mem_singleton, List.forall_mem_map,
      Option.mem_toList, and_assoc]
    cases last <;> simp

theorem exists_processed_iff : (∃ n r, h.extHdrOptionsProcess env n = some r) ↔
    ∃ x, Reached h.optNext h.optInside h.optLeft 2 x ∧
      goesOn h.optInside h.optLeft x = false := by
  rw [← exists_visit_iff_reached]
  constructor
  · rintro ⟨n, r, hr⟩
    obtain ⟨xs, last, hv, -⟩ := extHdrOptionsProcess_eq_some_iff.mp hr
    exact ⟨n, (xs, last), hv⟩
  · rintro ⟨n, ⟨xs, last⟩, hv⟩
    exact ⟨n, (_, _), extHdrOptionsProcess_eq_some_iff.mpr ⟨xs, last, hv, rfl, rfl⟩⟩

theorem extHdrOptionsProcess_mono {r : OptVerdict × Headers}
    (hr : h.extHdrOptionsProcess env n = some r) {m : Nat} (hnm : n ≤ m) :
    h.extHdrOptionsProcess env m = some r := by
  obtain ⟨xs, last, hv, hrest⟩ := extHdrOptionsProcess_eq_some_iff.mp hr
  exact extHdrOptionsProcess_eq_some_iff.mpr ⟨xs, last, visit_mono hv hnm, hrest⟩

/-! ### One header -/

theorem extSize_pos : 8 ≤ h.extSize := Nat.le_add_left 8 _

/-- The length of the headers with the header that is passed. -/
theorem toNat_uipExtLen_pass : h.pass.uipExtLen.toNat = (h.uipExtLen.toNat + h.extSize) % 256 := by
  simp only [pass, extSize, UInt8.toNat_add, UInt8.toNat_shiftLeft, Nat.shiftLeft_eq]
  simp

theorem sane_pass (hs : h.Sane) : h.pass.Sane := by
  unfold Sane at hs ⊢
  rw [toNat_uipExtLen_pass, ← hs]
  simp [pass, Nat.add_mod]

/-- When a header is passed, the length stays the right one as long as it is a byte. -/
theorem exact_pass_iff (hs : h.Sane) : h.pass.uipExtLen.toNat = h.pass.passed ↔
    h.uipExtLen.toNat = h.passed ∧ h.PassFits := by
  have hsize := extSize_pos (h := h)
  have hpassed : h.pass.passed = h.passed + h.extSize := rfl
  rw [toNat_uipExtLen_pass, hpassed, PassFits]
  unfold Sane at hs
  constructor
  · intro heq
    have hbyte : h.passed + h.extSize < 256 := heq ▸ Nat.mod_lt _ (by decide)
    have hmod : h.passed % 256 = h.passed := Nat.mod_eq_of_lt (by omega)
    omega
  · rintro ⟨heq, hfits⟩
    rw [Nat.mod_eq_of_lt hfits, heq]

theorem good_pass_iff (hs : h.Sane) : h.pass.Good ↔ h.Good ∧ h.PassFits := by
  rw [Good, Good, exact_pass_iff hs, and_assoc]
  rfl

theorem ext_pass (hfits : h.PassFits) : h.pass.ext = h.ext + h.extSize := by
  rw [ext, toNat_uipExtLen_pass, Nat.mod_eq_of_lt hfits, ext, Nat.add_assoc]

/-- The headers have been begun at different places, the present one among them. -/
def OrderedIn (h : Headers) : Prop := h.begun.Nodup ∧ ∀ p ∈ h.begun, p ≤ h.ext

theorem Ordered.enter (ho : h.Ordered) (bitmap : UInt8) : (h.enter bitmap).OrderedIn := by
  obtain ⟨hnodup, hlt⟩ := ho
  refine ⟨List.nodup_append.mpr ⟨hnodup, List.nodup_cons.mpr ⟨List.not_mem_nil, List.nodup_nil⟩,
    fun p hp q hq => ?_⟩, fun p hp => ?_⟩
  · rw [List.mem_singleton.mp hq]
    exact Nat.ne_of_lt (hlt p hp)
  · rcases List.mem_append.mp hp with hp | hp
    · exact Nat.le_of_lt (hlt p hp)
    · exact Nat.le_of_eq (List.mem_singleton.mp hp)

theorem OrderedIn.pass (ho : h.OrderedIn) (hfits : h.PassFits) : h.pass.Ordered := by
  have hsize := extSize_pos (h := h)
  refine ⟨ho.1, fun p hp => ?_⟩
  have hle := ho.2 p hp
  rw [ext_pass hfits]
  omega

/-- What a round does to the packet. -/
structure Stepped (env : HeaderEnv) (h : Headers) (r : Headers × Option Verdict) : Prop where
  len : r.1.uipLen = h.uipLen
  dest : r.1.destipaddr = h.destipaddr
  sane : r.1.Sane
  good : r.1.Good ↔ h.Good ∧ h.Fits env
  once : h.Ordered → r.1.Good → r.1.begun.Nodup ∧ (r.2 = none → r.1.Ordered)

theorem destipaddr_congr {buf : Memory UInt8} (reads : List Nat)
    (hbuf : ∀ p : Nat, p < h.ext + 2 → buf p = h.buf p) :
    ({ h with buf := buf, reads := reads } : Headers).destipaddr = h.destipaddr := by
  unfold destipaddr vectorAt
  congr 1
  funext i
  have hpos : (24 : Int) + i.val = ((24 + i.val : Nat) : Int) := by
    push_cast
    rfl
  simp only [hpos]
  exact hbuf _ (by unfold ext; omega)

theorem extSize_congr {buf : Memory UInt8} {reads : List Nat}
    (hbuf : ∀ p : Nat, p < h.ext + 2 → buf p = h.buf p) :
    ({ h with buf := buf, reads := reads } : Headers).extSize = h.extSize := by
  unfold extSize extLen
  simp only [ext]
  rw [hbuf (40 + h.uipExtLen.toNat + 1) (by unfold ext; omega)]

theorem stepped_leave {v : Verdict} (hs : h.Sane) (hnext : h.next = .leave v) :
    Stepped env h (h, some v) where
  len := rfl
  dest := rfl
  sane := hs
  good := by
    unfold Fits
    rw [hnext]
    exact (and_iff_left trivial).symm
  once ho _ := ⟨ho.1, nofun⟩

/-- A header that is passed. -/
theorem stepped_pass {t : Headers} (hlen : t.uipLen = h.uipLen)
    (hdest : t.destipaddr = h.destipaddr) (hs : t.Sane) (ho : h.Ordered → t.OrderedIn)
    (hgood : t.Good ∧ t.PassFits ↔ h.Good ∧ h.Fits env) : Stepped env h (t.pass, none) where
  len := hlen
  dest := hdest
  sane := sane_pass hs
  good := (good_pass_iff hs).trans hgood
  once hh hpass := by
    have hordered := (ho hh).pass ((good_pass_iff hs).mp hpass).2
    exact ⟨hordered.1, fun _ => hordered⟩

/-- A header at which the input path is left. -/
theorem stepped_left {t : Headers} {v : Verdict} (hlen : t.uipLen = h.uipLen)
    (hdest : t.destipaddr = h.destipaddr) (hs : t.Sane) (ho : h.Ordered → t.OrderedIn)
    (hgood : t.Good ↔ h.Good ∧ h.Fits env) : Stepped env h (t, some v) where
  len := hlen
  dest := hdest
  sane := hs
  good := hgood
  once hh _ := ⟨(ho hh).1, nofun⟩

theorem stepped_routing {bitmap : UInt8} (hs : h.Sane) (hnext : h.next = .routing bitmap) :
    Stepped env h (h.routingHeader bitmap) := by
  have hgood : ({ h.enter bitmap with reads := h.reads ++ [h.ext + 4] } : Headers).Good ↔
      h.Good ∧ h.ext + 4 ≤ h.uipLen.toNat := by
    simp only [Good, enter, List.forall_mem_append, List.forall_mem_singleton]
    exact and_right_comm
  have hfits : h.Fits env ↔ h.ext + 4 ≤ h.uipLen.toNat ∧ (h.segLeft = 0 → h.PassFits) := by
    unfold Fits
    rw [hnext]
  unfold routingHeader
  by_cases hseg : 0 < (h.enter bitmap).segLeft
  · have hne : h.segLeft ≠ 0 := (UInt8.pos_iff_ne_zero).mp hseg
    simp only [if_pos hseg]
    refine stepped_left rfl rfl hs (fun ho => ho.enter bitmap) (hgood.trans ?_)
    rw [hfits, and_iff_left (fun hzero => absurd hzero hne)]
  · have hzero : h.segLeft = 0 := not_not.mp fun hne => hseg (UInt8.pos_iff_ne_zero.mpr hne)
    simp only [if_neg hseg]
    refine stepped_pass rfl rfl hs (fun ho => ho.enter bitmap) ?_
    rw [hfits]
    refine (and_congr_left' hgood).trans ?_
    simp only [hzero, forall_const, and_assoc]
    rfl

theorem stepped_options {bitmap : UInt8} {r : Headers × Option Verdict} (hs : h.Sane)
    (hnext : h.next = .options bitmap) (hr : h.optionsHeader env n bitmap = some r) :
    Stepped env h r := by
  obtain ⟨⟨v, t⟩, hprocess, rfl⟩ := Option.map_eq_some_iff.mp hr
  have hstops := exists_processed_iff.mp ⟨n, _, hprocess⟩
  obtain ⟨⟨buf, reads, ht, hbuf⟩, hverdict, hreads⟩ := processed_of_eq_some hprocess
  simp only at ht hverdict
  subst ht
  have hfits : h.Fits env ↔ (h.enter bitmap).OptionsFit env := by
    unfold Fits
    rw [hnext]
  have hpass : ({ h.enter bitmap with buf := buf, reads := reads } : Headers).PassFits ↔
      (h.enter bitmap).PassFits := by
    rw [PassFits, extSize_congr hbuf]
    rfl
  have hdest := destipaddr_congr reads hbuf
  have hgood : ({ h.enter bitmap with buf := buf, reads := reads } : Headers).Good ↔
      h.Good ∧ ((h.enter bitmap).ext + 2 ≤ h.uipLen.toNat ∧
        (∀ x, (h.enter bitmap).OptMet x → (h.enter bitmap).optLeft x = false →
          (h.enter bitmap).opt x + (h.enter bitmap).optTaken x ≤ h.uipLen.toNat) ∧
        ∀ x, (h.enter bitmap).OptMet x → (h.enter bitmap).optLeft x = true →
          (h.enter bitmap).opt x + ((h.enter bitmap).optEnd env x).extent ≤ h.uipLen.toNat) := by
    exact (and_congr_left' hreads).trans and_right_comm
  have hthe (hgo : v ≠ .goOn) : h.Good ∧ h.Fits env ↔
      ({ h.enter bitmap with buf := buf, reads := reads } : Headers).Good := by
    rw [hgood, hfits]
    refine and_congr_right fun _ => ⟨fun hf => ⟨hf.header, hf.taken, hf.left⟩, fun hf => ?_⟩
    exact ⟨hstops, hf.1, hf.2.1, hf.2.2, fun hall => absurd (hverdict.mpr hall) hgo⟩
  cases v with
  | goOn =>
      refine stepped_pass rfl hdest hs (fun ho => ho.enter bitmap) ?_
      rw [hgood, hpass, hfits, and_assoc]
      refine and_congr_right fun _ => ⟨fun hf => ?_, fun hf => ?_⟩
      · exact ⟨hstops, hf.1.1, hf.1.2.1, hf.1.2.2, fun _ => hf.2⟩
      · exact ⟨⟨hf.header, hf.taken, hf.left⟩, hf.passed (hverdict.mp rfl)⟩
  | discard =>
      exact stepped_left rfl hdest hs (fun ho => ho.enter bitmap) (hthe nofun).symm
  | error =>
      exact stepped_left rfl hdest hs (fun ho => ho.enter bitmap) (hthe nofun).symm

/-- One round of the loop over the headers. -/
theorem stepped_of_round {r : Headers × Option Verdict} (hs : h.Sane)
    (hr : h.round env n = some r) : Stepped env h r := by
  unfold round at hr
  cases hnext : h.next with
  | options bitmap =>
      rw [hnext] at hr
      exact stepped_options hs hnext hr
  | routing bitmap =>
      rw [hnext] at hr
      obtain rfl := Option.some.inj hr
      exact stepped_routing hs hnext
  | leave v =>
      rw [hnext] at hr
      obtain rfl := Option.some.inj hr
      exact stepped_leave hs hnext

theorem round_mono {r : Headers × Option Verdict} (hr : h.round env n = some r) {m : Nat}
    (hnm : n ≤ m) : h.round env m = some r := by
  unfold round at hr ⊢
  cases hnext : h.next with
  | options bitmap =>
      rw [hnext] at hr
      obtain ⟨q, hq, rfl⟩ := Option.map_eq_some_iff.mp hr
      exact Option.map_eq_some_iff.mpr ⟨q, extHdrOptionsProcess_mono hq hnm, rfl⟩
  | routing bitmap =>
      rw [hnext] at hr
      exact hr
  | leave v =>
      rw [hnext] at hr
      exact hr

theorem round_unique {r q : Headers × Option Verdict} {m : Nat} (hr : h.round env n = some r)
    (hq : h.round env m = some q) : r = q := by
  rcases Nat.le_total n m with hnm | hmn
  · exact Option.some.inj ((round_mono hr hnm).symm.trans hq)
  · exact Option.some.inj (hr.symm.trans (round_mono hq hmn))

/-- A header that fits is processed. -/
theorem Fits.exists_round (hfits : h.Fits env) : ∃ n r, h.round env n = some r := by
  unfold Fits at hfits
  unfold round
  cases hnext : h.next with
  | options bitmap =>
      rw [hnext] at hfits
      obtain ⟨n, r, hr⟩ := exists_processed_iff.mpr hfits.stops
      exact ⟨n, (_, _), Option.map_eq_some_iff.mpr ⟨r, hr, rfl⟩⟩
  | routing bitmap => exact ⟨0, _, rfl⟩
  | leave v => exact ⟨0, _, rfl⟩

/-! ### The loop over the headers -/

theorem comes_iff_of_left {r : Headers × Option Verdict} {v : Verdict}
    (hr : h.round env n = some r) (hv : r.2 = some v) : Comes env h t ↔ t = h := by
  constructor
  · intro hcomes
    cases hcomes with
    | refl => rfl
    | head m hround _ =>
        obtain rfl := round_unique hr hround
        cases hv
  · rintro rfl
    exact .refl _

theorem comes_iff_of_pass {r : Headers × Option Verdict} (hr : h.round env n = some r)
    (hv : r.2 = none) : Comes env h t ↔ t = h ∨ Comes env r.1 t := by
  constructor
  · intro hcomes
    cases hcomes with
    | refl => exact .inl rfl
    | head m hround hrest =>
        obtain rfl := round_unique hr hround
        exact .inr hrest
  · rintro (rfl | hrest)
    · exact .refl _
    · exact .head n (hr.trans (congrArg some (Prod.ext rfl hv))) hrest

theorem loop_mono {k' m : Nat} {r : Headers × Verdict} (hr : h.loop env k n = some r)
    (hk : k ≤ k') (hnm : n ≤ m) : h.loop env k' m = some r := by
  induction n generalizing h m with
  | zero => cases hr
  | succ n ih =>
      obtain ⟨m, rfl⟩ : ∃ m', m = m' + 1 := ⟨m - 1, by omega⟩
      obtain ⟨q, hq, hrest⟩ := Option.bind_eq_some_iff.mp hr
      refine Option.bind_eq_some_iff.mpr ⟨q, round_mono hq hk, ?_⟩
      cases hv : q.2 with
      | none =>
          rw [hv] at hrest
          exact ih hrest (Nat.le_of_succ_le_succ hnm)
      | some v =>
          rw [hv] at hrest
          exact hrest

/-- All headers fit when the loop leaves the packet as it should be. -/
theorem loop_spec {r : Headers × Verdict} (hr : h.loop env k n = some r) (hs : h.Sane) :
    r.1.uipLen = h.uipLen ∧ (r.1.Good ↔ h.Good ∧ ∀ t, Comes env h t → t.Fits env) ∧
      (h.Ordered → r.1.Good → r.1.begun.Nodup) := by
  induction n generalizing h with
  | zero => cases hr
  | succ n ih =>
      obtain ⟨q, hq, hrest⟩ := Option.bind_eq_some_iff.mp hr
      have hstep := stepped_of_round hs hq
      cases hv : q.2 with
      | none =>
          rw [hv] at hrest
          obtain ⟨hlen, hgood, honce⟩ := ih hrest hstep.sane
          refine ⟨hlen.trans hstep.len, ?_, fun ho hall => ?_⟩
          · rw [hgood, hstep.good, and_assoc]
            refine and_congr_right fun _ => ?_
            simp only [comes_iff_of_pass hq hv, or_imp, forall_and, forall_eq]
          · have hpassed := (hgood.mp hall).1
            exact honce ((hstep.once ho hpassed).2 hv) hall
      | some v =>
          rw [hv] at hrest
          obtain rfl := Option.some.inj hrest
          refine ⟨hstep.len, ?_, fun ho hall => (hstep.once ho hall).1⟩
          simp only [hstep.good, comes_iff_of_left hq hv, forall_eq]

/-- The extension headers that a bitmap has. -/
def seen (bitmap : UInt8) : Nat :=
  ([extHdrBitmapHbho, extHdrBitmapDesto1, extHdrBitmapRouting, extHdrBitmapDesto2].filter
    fun bit => bitmap &&& bit ≠ 0).length

theorem seen_le (bitmap : UInt8) : seen bitmap ≤ 4 := List.length_filter_le _ _

theorem or_and_of_and_eq_zero {a b c : UInt8} (h : b &&& c = 0) : (a ||| b) &&& c = a &&& c := by
  have hbits := congrArg UInt8.toBitVec h
  refine UInt8.toBitVec_inj.mp ?_
  rw [UInt8.toBitVec_and, UInt8.toBitVec_or, UInt8.toBitVec_and]
  rw [UInt8.toBitVec_and] at hbits
  refine BitVec.eq_of_getElem_eq fun i hi => ?_
  have hbit := congrArg (fun v => v[i]) hbits
  simp only [BitVec.getElem_and, BitVec.getElem_or] at hbit ⊢
  rw [Bool.and_or_distrib_right, hbit]
  simp

theorem or_and_self (a b : UInt8) : (a ||| b) &&& b = b := by
  refine UInt8.toBitVec_inj.mp ?_
  rw [UInt8.toBitVec_and, UInt8.toBitVec_or]
  refine BitVec.eq_of_getElem_eq fun i hi => ?_
  rw [BitVec.getElem_and, BitVec.getElem_or]
  cases b.toBitVec[i] <;> simp

theorem seen_or {bit : UInt8} (hbit : bit ∈ [extHdrBitmapHbho, extHdrBitmapDesto1,
    extHdrBitmapRouting, extHdrBitmapDesto2]) (bitmap : UInt8) (hlacks : bitmap &&& bit = 0) :
    seen bitmap < seen (bitmap ||| bit) := by
  -- no two of the bits overlap
  have hbits : ∀ bit ∈ [extHdrBitmapHbho, extHdrBitmapDesto1, extHdrBitmapRouting,
      extHdrBitmapDesto2], bit ≠ 0 ∧ ∀ b ∈ [extHdrBitmapHbho, extHdrBitmapDesto1,
        extHdrBitmapRouting, extHdrBitmapDesto2], b ≠ bit → bit &&& b = 0 := by
    decide +kernel
  obtain ⟨hbit₀, hother⟩ := hbits bit hbit
  unfold seen
  have hsub : [extHdrBitmapHbho, extHdrBitmapDesto1, extHdrBitmapRouting,
      extHdrBitmapDesto2].filter (fun b => bitmap &&& b ≠ 0) =
      ([extHdrBitmapHbho, extHdrBitmapDesto1, extHdrBitmapRouting, extHdrBitmapDesto2].filter
        fun b => (bitmap ||| bit) &&& b ≠ 0).filter fun b => b ≠ bit := by
    rw [List.filter_filter]
    refine List.filter_congr fun b hb => ?_
    by_cases heq : b = bit
    · simp [heq, hlacks]
    · simp [heq, or_and_of_and_eq_zero (hother b hb heq)]
  rw [hsub]
  refine List.length_filter_lt_length_iff_exists.mpr ⟨bit, ?_, by simp⟩
  refine List.mem_filter.mpr ⟨hbit, decide_eq_true ?_⟩
  rw [or_and_self]
  exact hbit₀

/-- The bit of the next extension header is set when it is begun. -/
theorem seen_lt_of_next :
    (∀ bitmap, h.next = .options bitmap → seen h.uipExtBitmap < seen bitmap) ∧
      ∀ bitmap, h.next = .routing bitmap → seen h.uipExtBitmap < seen bitmap := by
  have hseen {bit : UInt8} (hbit : bit ∈ [extHdrBitmapHbho, extHdrBitmapDesto1,
      extHdrBitmapRouting, extHdrBitmapDesto2]) (hlacks : h.lacks bit = true) :
      seen h.uipExtBitmap < seen (h.uipExtBitmap ||| bit) :=
    seen_or hbit _ (of_decide_eq_true hlacks)
  unfold next
  split_ifs with _ _ hhbho _ hdesto1 hdesto2 _ hrouting
  all_goals refine ⟨?_, ?_⟩ <;> intro bitmap hnext <;> cases hnext
  · exact hseen (by simp) hhbho
  · exact hseen (by simp) hdesto1
  · exact hseen (by simp) hdesto2
  · exact hseen (by simp) hrouting

theorem seen_lt_of_round {r : Headers × Option Verdict} (hr : h.round env n = some r)
    (hv : r.2 = none) : seen h.uipExtBitmap < seen r.1.uipExtBitmap := by
  unfold round at hr
  obtain ⟨hoptions, hrouting⟩ := seen_lt_of_next (h := h)
  cases hnext : h.next with
  | options bitmap =>
      rw [hnext] at hr
      obtain ⟨⟨v, t⟩, hprocess, rfl⟩ := Option.map_eq_some_iff.mp hr
      obtain ⟨buf, reads, ht, -⟩ := (processed_of_eq_some hprocess).frame
      simp only at ht
      subst ht
      cases v with
      | goOn => exact hoptions bitmap hnext
      | discard => cases hv
      | error => cases hv
  | routing bitmap =>
      rw [hnext] at hr
      obtain rfl := Option.some.inj hr
      have hbitmap : (h.routingHeader bitmap).1.uipExtBitmap = bitmap := by
        unfold routingHeader
        simp only
        split_ifs <;> rfl
      rw [hbitmap]
      exact hrouting bitmap hnext
  | leave v =>
      rw [hnext] at hr
      obtain rfl := Option.some.inj hr
      cases hv

/-- The loop ends when all headers fit, as each that is passed sets a bit of the bitmap. -/
theorem exists_loop (hfits : ∀ t, Comes env h t → t.Fits env) :
    ∃ n r, h.loop env n n = some r := by
  induction hm : 4 - seen h.uipExtBitmap using Nat.strongRecOn generalizing h with
  | ind m ih =>
      obtain ⟨k, q, hq⟩ := (hfits h (.refl h)).exists_round
      cases hv : q.2 with
      | none =>
          have hlt := seen_lt_of_round hq hv
          have hle := seen_le q.1.uipExtBitmap
          obtain ⟨n, r, hr⟩ := ih (4 - seen q.1.uipExtBitmap) (by omega)
            (fun t ht => hfits t ((comes_iff_of_pass hq hv).mpr (.inr ht))) rfl
          refine ⟨k + n + 1, r, Option.bind_eq_some_iff.mpr
            ⟨q, round_mono hq (by omega), ?_⟩⟩
          rw [hv]
          exact loop_mono hr (by omega) (by omega)
      | some v =>
          refine ⟨k + 1, (q.1, v), Option.bind_eq_some_iff.mpr
            ⟨q, round_mono hq (by omega), ?_⟩⟩
          rw [hv]

end Headers

/-! ### The input path -/

section Input

open Headers

variable {env : HeaderEnv} {buf : Memory UInt8} {uipLen : UInt16} {n : Nat} {h : Headers}

theorem good_startHeaders : (startHeaders buf).Good := ⟨List.forall_mem_nil _, rfl⟩

theorem sane_startHeaders : (startHeaders buf).Sane := rfl

theorem ordered_startHeaders : (startHeaders buf).Ordered :=
  ⟨List.nodup_nil, List.forall_mem_nil _⟩

/-- What a router does first with hop-by-hop options is a round of the loop. -/
theorem first_eq_round (hhbho : (startHeaders buf).nextHdr = protoHbho) :
    (startHeaders buf).round env n =
      (startHeaders buf).optionsHeader env n ((startHeaders buf).uipExtBitmap |||
        extHdrBitmapHbho) := by
  have hnext : (startHeaders buf).next =
      .options ((startHeaders buf).uipExtBitmap ||| extHdrBitmapHbho) := by
    have hlacks : (startHeaders buf).lacks extHdrBitmapHbho = true := by
      simp [lacks, startHeaders]
    unfold Headers.next
    rw [hhbho, if_neg (by decide), if_pos rfl, if_pos hlacks]
  unfold Headers.round
  rw [hnext]

theorem accepts_congr {t : Headers} (hdest : t.destipaddr = h.destipaddr) :
    env.accepts t = env.accepts h := by
  unfold HeaderEnv.accepts
  rw [hdest]

/-- The headers that are looked at where the first one is one that a router takes. -/
theorem met_iff_of_first {t : Headers} (hfirst : env.router = true ∧ h.nextHdr = protoHbho) :
    Met env h t ↔ t = h ∨ Comes env h t ∧ env.accepts h = true := by
  unfold Met
  constructor
  · rintro ⟨hcomes, haccepts | ⟨rfl, -⟩⟩
    · exact .inr ⟨hcomes, haccepts⟩
    · exact .inl rfl
  · rintro (rfl | ⟨hcomes, haccepts⟩)
    · exact ⟨.refl _, .inr ⟨rfl, hfirst⟩⟩
    · exact ⟨hcomes, .inl haccepts⟩

theorem met_iff_of_not_first {t : Headers} (hfirst : ¬(env.router = true ∧ h.nextHdr = protoHbho)) :
    Met env h t ↔ Comes env h t ∧ env.accepts h = true := by
  unfold Met
  exact and_congr_right fun _ => or_iff_left fun hboth => hfirst hboth.2

/-- The input path behind the tests at its beginning. -/
def HeaderEnv.goOn (env : HeaderEnv) (n : Nat) (h : Headers) : Option (Headers × Verdict) :=
  (env.first n h).bind fun r =>
    match r.2 with
    | some v => some (r.1, v)
    | none => if env.accepts r.1 then r.1.loop env n n else some (r.1, .drop)

theorem uipInput_eq (hlength : lengthRejected buf uipLen = false)
    (hsrc : isAddrMcast (startHeaders buf).srcipaddr = false) :
    uipInput env n buf uipLen = (env.goOn n (startHeaders buf)).map some := by
  unfold uipInput HeaderEnv.goOn
  rw [hlength, hsrc, if_neg Bool.false_ne_true, if_neg Bool.false_ne_true]
  cases env.first n (startHeaders buf) with
  | none => rfl
  | some q =>
      obtain ⟨t, v⟩ := q
      cases v with
      | some v => rfl
      | none =>
          simp only [Option.bind_some]
          split_ifs <;> rfl

/-- A router that takes hop-by-hop options first. -/
theorem goOn_of_first (hfirst : env.router = true ∧ (startHeaders buf).nextHdr = protoHbho)
    {q : Headers × Option Verdict} (hq : (startHeaders buf).round env n = some q) :
    env.goOn n (startHeaders buf) =
      match q.2 with
      | some v => some (q.1, v)
      | none => if env.accepts q.1 then q.1.loop env n n else some (q.1, .drop) := by
  have hround : env.first n (startHeaders buf) = some q := by
    unfold HeaderEnv.first
    rw [if_pos hfirst, ← first_eq_round hfirst.2]
    exact hq
  unfold HeaderEnv.goOn
  rw [hround]
  rfl

theorem goOn_of_not_first
    (hfirst : ¬(env.router = true ∧ (startHeaders buf).nextHdr = protoHbho)) :
    env.goOn n (startHeaders buf) =
      if env.accepts (startHeaders buf) then (startHeaders buf).loop env n n
      else some (startHeaders buf, .drop) := by
  unfold HeaderEnv.goOn HeaderEnv.first
  rw [if_neg hfirst]
  rfl

/-- The input path ends when all headers that are looked at fit. -/
theorem exists_goOn (hfits : ∀ t, Met env (startHeaders buf) t → t.Fits env) :
    ∃ n r, env.goOn n (startHeaders buf) = some r := by
  by_cases hfirst : env.router = true ∧ (startHeaders buf).nextHdr = protoHbho
  · simp only [met_iff_of_first hfirst] at hfits
    obtain ⟨k, q, hq⟩ := (hfits _ (.inl rfl)).exists_round
    cases hv : q.2 with
    | some v =>
        refine ⟨k, (q.1, v), ?_⟩
        rw [goOn_of_first hfirst hq, hv]
    | none =>
        by_cases haccepts : env.accepts q.1 = true
        · have hdest := (stepped_of_round sane_startHeaders hq).dest
          obtain ⟨n, r, hr⟩ := exists_loop (h := q.1) fun t ht => hfits t
            (.inr ⟨(comes_iff_of_pass hq hv).mpr (.inr ht), accepts_congr hdest ▸ haccepts⟩)
          refine ⟨k + n, r, ?_⟩
          rw [goOn_of_first hfirst (round_mono hq (Nat.le_add_right k n)), hv]
          simp only
          rw [if_pos haccepts]
          exact loop_mono hr (Nat.le_add_left n k) (Nat.le_add_left n k)
        · refine ⟨k, (q.1, .drop), ?_⟩
          rw [goOn_of_first hfirst hq, hv]
          exact if_neg haccepts
  · simp only [met_iff_of_not_first hfirst] at hfits
    by_cases haccepts : env.accepts (startHeaders buf) = true
    · obtain ⟨n, r, hr⟩ := exists_loop fun t ht => hfits t ⟨ht, haccepts⟩
      refine ⟨n, r, ?_⟩
      rw [goOn_of_not_first hfirst, if_pos haccepts]
      exact hr
    · refine ⟨0, (startHeaders buf, .drop), ?_⟩
      rw [goOn_of_not_first hfirst, if_neg haccepts]

/-- What is left of a packet, by the headers that are looked at. -/
theorem goOn_spec {r : Headers × Verdict} (hr : env.goOn n (startHeaders buf) = some r) :
    r.1.uipLen = (startHeaders buf).uipLen ∧
      (r.1.Good ↔ ∀ t, Met env (startHeaders buf) t → t.Fits env) ∧
      (r.1.Good → r.1.begun.Nodup) := by
  by_cases hfirst : env.router = true ∧ (startHeaders buf).nextHdr = protoHbho
  · simp only [met_iff_of_first hfirst]
    obtain ⟨q, hq⟩ : ∃ q, (startHeaders buf).round env n = some q := by
      obtain ⟨q, hq, -⟩ := Option.bind_eq_some_iff.mp hr
      unfold HeaderEnv.first at hq
      rw [if_pos hfirst, ← first_eq_round hfirst.2] at hq
      exact ⟨q, hq⟩
    rw [goOn_of_first hfirst hq] at hr
    have hstep := stepped_of_round sane_startHeaders hq
    have hgood := hstep.good.trans (and_iff_right good_startHeaders)
    have honce := hstep.once ordered_startHeaders
    have haccepts : env.accepts q.1 = env.accepts (startHeaders buf) := accepts_congr hstep.dest
    cases hv : q.2 with
    | some v =>
        rw [hv] at hr
        obtain rfl := Option.some.inj hr
        refine ⟨hstep.len, hgood.trans ?_, fun h => (honce h).1⟩
        simp only [comes_iff_of_left hq hv, or_imp, forall_and, forall_eq]
        exact (and_iff_left_of_imp fun hfits t ht => ht.1 ▸ hfits).symm
    | none =>
        rw [hv] at hr
        simp only at hr
        by_cases hq' : env.accepts q.1 = true
        · rw [if_pos hq'] at hr
          obtain ⟨hlen, hgood', honce'⟩ := loop_spec hr hstep.sane
          refine ⟨hlen.trans hstep.len, ?_, fun h => ?_⟩
          · simp only [comes_iff_of_pass hq hv, ← haccepts, hq', and_true, or_imp, forall_and,
              forall_eq]
            rw [hgood', hgood, ← and_assoc, and_self]
          · exact honce' ((honce (hgood'.mp h).1).2 hv) h
        · rw [if_neg hq'] at hr
          obtain rfl := Option.some.inj hr
          refine ⟨hstep.len, hgood.trans ?_, fun h => (honce h).1⟩
          simp only [← haccepts, hq', Bool.false_eq_true, and_false, or_false, forall_eq]
  · simp only [met_iff_of_not_first hfirst]
    rw [goOn_of_not_first hfirst] at hr
    by_cases haccepts : env.accepts (startHeaders buf) = true
    · rw [if_pos haccepts] at hr
      obtain ⟨hlen, hgood, honce⟩ := loop_spec hr sane_startHeaders
      refine ⟨hlen, ?_, honce ordered_startHeaders⟩
      rw [hgood, and_iff_right good_startHeaders]
      simp only [haccepts, and_true]
    · rw [if_neg haccepts] at hr
      obtain rfl := Option.some.inj hr
      refine ⟨rfl, iff_of_true good_startHeaders ?_, fun _ => List.nodup_nil⟩
      rintro t ⟨-, h⟩
      exact absurd h haccepts

theorem headersConform_of_goOn (hlength : lengthRejected buf uipLen = false)
    (hsrc : isAddrMcast (startHeaders buf).srcipaddr = false) :
    HeadersConform env buf uipLen ↔ (startHeaders buf).uipLen ≤ uipLen ∧
      ∀ t, Met env (startHeaders buf) t → t.Fits env := by
  constructor
  · intro hconform
    obtain ⟨n, hn⟩ := hconform.ends
    rw [uipInput_eq hlength hsrc, Ne, Option.map_eq_none_iff] at hn
    obtain ⟨r, hr⟩ := Option.ne_none_iff_exists'.mp hn
    have hinput : uipInput env n buf uipLen = some (some r) := by
      rw [uipInput_eq hlength hsrc, hr]
      rfl
    obtain ⟨hlen, hgood, -⟩ := goOn_spec hr
    exact ⟨hlen ▸ hconform.len n r hinput,
      hgood.mp ⟨hconform.reads n r hinput, hconform.extLen n r hinput⟩⟩
  · rintro ⟨hle, hfits⟩
    obtain ⟨n, r, hr⟩ := exists_goOn hfits
    have hspec (m : Nat) (r : Headers × Verdict)
        (hinput : uipInput env m buf uipLen = some (some r)) :
        r.1.uipLen = (startHeaders buf).uipLen ∧ r.1.Good ∧ r.1.begun.Nodup := by
      rw [uipInput_eq hlength hsrc] at hinput
      obtain ⟨r', hr', heq⟩ := Option.map_eq_some_iff.mp hinput
      obtain rfl := Option.some.inj heq
      obtain ⟨hlen, hgood, honce⟩ := goOn_spec hr'
      exact ⟨hlen, hgood.mpr hfits, honce (hgood.mpr hfits)⟩
    refine ⟨⟨n, ?_⟩, fun m r hinput => ?_, fun m r hinput => (hspec m r hinput).2.1.1,
      fun m r hinput => (hspec m r hinput).2.1.2, fun m r hinput => (hspec m r hinput).2.2⟩
    · rw [uipInput_eq hlength hsrc, hr]
      exact Option.some_ne_none _
    · rw [(hspec m r hinput).1]
      exact hle

/-- A packet that is dropped before its headers are looked at. -/
theorem headersConform_of_drop (h : ∀ n, uipInput env n buf uipLen =
    some (some (startHeaders buf, .drop))) :
    HeadersConform env buf uipLen ↔ (startHeaders buf).uipLen ≤ uipLen := by
  constructor
  · intro hconform
    exact hconform.len 0 _ (h 0)
  · intro hle
    have hspec {n : Nat} {r : Headers × Verdict} (hr : uipInput env n buf uipLen = some (some r)) :
        r.1 = startHeaders buf := by
      rw [h] at hr
      rw [← Option.some.inj (Option.some.inj hr)]
    refine ⟨⟨0, ?_⟩, fun n r hr => ?_, fun n r hr => ?_, fun n r hr => ?_, fun n r hr => ?_⟩
    · rw [h]
      exact Option.some_ne_none _
    · rw [hspec hr]
      exact hle
    · rw [hspec hr]
      exact good_startHeaders.1
    · rw [hspec hr]
      exact good_startHeaders.2
    · rw [hspec hr]
      exact List.nodup_nil

end Input

/-- A packet is processed as it should be if and only if it is dropped for its version or length,
or does not claim to be longer than what came in and all headers that are looked at fit. -/
theorem headersConform_iff (env : HeaderEnv) (buf : Memory UInt8) (uipLen : UInt16) :
    HeadersConform env buf uipLen ↔ lengthRejected buf uipLen = true ∨
      ((startHeaders buf).uipLen ≤ uipLen ∧
        (isAddrMcast (startHeaders buf).srcipaddr = true ∨
          ∀ t, Headers.Met env (startHeaders buf) t → t.Fits env)) := by
  cases hlength : lengthRejected buf uipLen with
  | true =>
      have hnone (n : Nat) : uipInput env n buf uipLen = some none := by
        unfold uipInput
        rw [hlength, if_pos rfl]
      have hno {n : Nat} {r : Headers × Verdict}
          (hr : uipInput env n buf uipLen = some (some r)) : False := by
        rw [hnone] at hr
        cases hr
      refine iff_of_true ⟨⟨0, ?_⟩, fun n r hr => (hno hr).elim, fun n r hr => (hno hr).elim,
        fun n r hr => (hno hr).elim, fun n r hr => (hno hr).elim⟩ (.inl rfl)
      rw [hnone]
      exact Option.some_ne_none _
  | false =>
      rw [or_iff_right Bool.false_ne_true]
      cases hsrc : isAddrMcast (startHeaders buf).srcipaddr with
      | true =>
          rw [headersConform_of_drop]
          · exact (and_iff_left (.inl rfl)).symm
          · intro n
            unfold uipInput
            rw [hlength, hsrc, if_neg Bool.false_ne_true, if_pos rfl]
      | false =>
          rw [or_iff_right Bool.false_ne_true]
          exact headersConform_of_goOn hlength hsrc

/-- A packet to every node with hop-by-hop options, of which the first is a PadN of 256 bytes. -/
def longPadding : Memory UInt8 := fun p =>
  if p = 0 then 0x60 else if p = 5 then 8 else if p = 40 then 59 else if p = 42 then 1
  else if p = 43 then 254 else 0

/-- The loop over the options stays at the padding. -/
theorem not_headersConform_longPadding :
    ¬HeadersConform ⟨false, false, fun _ _ => none, fun _ => true⟩ longPadding 48 := by
  intro h
  have hfits := ((headersConform_of_goOn (by decide) (by decide)).mp h).2 (startHeaders longPadding)
    ⟨.refl _, .inl rfl⟩
  have hoptions : ((startHeaders longPadding).enter 1).OptionsFit _ := hfits
  obtain ⟨x, hreached, hends⟩ := hoptions.stops
  have hx : x = 2 := hreached.eq_of_next_eq (by decide)
  rw [hx] at hends
  exact absurd hends (by decide)

end Calipso.Uip
