import Calipso.Ieee80211.DataPath

/-!
# The history of the duplicate filter

Every accepted frame moves the history up by one place and then overwrites the last
place, not the first. Apart from the last place the history thus never holds a frame:
`survivors` is all that is left of the accepted ones.
-/

namespace Calipso.Ieee80211

open Net

/-! ### The history -/

/-- An entry nobody has written: the null address with number 0. -/
def emptySeqno : Seqno := ⟨rimeaddrNull, 0⟩

/-- The loop of `mac_frame_input` that moves the entries `i`, ..., 1 up by one. -/
def moveUp (h : Nat → Seqno) : Nat → Nat → Seqno
  | 0 => h
  | i + 1 => moveUp (Function.update h (i + 1) (h i)) i

theorem moveUp_apply (h : Nat → Seqno) (i j : Nat) :
    moveUp h i j = if 0 < j ∧ j ≤ i then h (j - 1) else h j := by
  induction i generalizing h with
  | zero =>
      have hout : ¬ (0 < j ∧ j ≤ 0) := by omega
      rw [if_neg hout, moveUp]
  | succ i ih =>
      rw [moveUp, ih]
      rcases Nat.lt_trichotomy j (i + 1) with hlt | rfl | hgt
      · have hne : j - 1 ≠ i + 1 := by omega
        have hin : (0 < j ∧ j ≤ i + 1) ↔ (0 < j ∧ j ≤ i) := by omega
        rw [Function.update_of_ne hne, Function.update_of_ne hlt.ne, if_congr hin rfl rfl]
      · have hout : ¬ (0 < i + 1 ∧ i + 1 ≤ i) := by omega
        rw [if_neg hout, if_pos ⟨Nat.succ_pos i, le_rfl⟩, Function.update_self, Nat.add_sub_cancel]
      · have hin : ¬ (0 < j ∧ j ≤ i) := by omega
        have hout : ¬ (0 < j ∧ j ≤ i + 1) := by omega
        rw [if_neg hin, if_neg hout, Function.update_of_ne hgt.ne']

/-- The history is what the loop leaves, with the new entry in the last place. -/
theorem remember_eq_moveUp (h : Nat → Seqno) (e : Seqno) :
    remember (Vector.ofFn fun i => h i.val) e =
      Vector.ofFn fun i =>
        Function.update (moveUp h (maxSeqnos - 1)) (maxSeqnos - 1) e i.val := by
  apply Vector.ext
  intro i hi
  have hbound : i < 8 := hi
  by_cases hlast : i = maxSeqnos - 1
  · simp [remember, hlast]
  · rcases Nat.eq_zero_or_pos i with rfl | hpos
    · simp [remember, moveUp_apply, hlast]
    · have hin : 0 < i ∧ i ≤ maxSeqnos - 1 := ⟨hpos, Nat.le_sub_one_of_lt hi⟩
      simp [remember, moveUp_apply, hlast, hin]

/-- What the history holds of the frames accepted so far, the newest one first. -/
def survivors (accepted : List Seqno) : Vector Seqno maxSeqnos :=
  Vector.ofFn fun i => if i.val = maxSeqnos - 1 then accepted.headD emptySeqno else emptySeqno

theorem survivors_nil : survivors [] = Vector.replicate maxSeqnos emptySeqno := by
  apply Vector.ext
  intro i hi
  simp [survivors]

theorem remember_survivors (accepted : List Seqno) (e : Seqno) :
    remember (survivors accepted) e = survivors (e :: accepted) := by
  apply Vector.ext
  intro i hi
  by_cases hlast : i = maxSeqnos - 1
  · simp [remember, survivors, hlast]
  · have hinner : ¬ i - 1 = maxSeqnos - 1 := by
      have hbound : i < 8 := hi
      simp only [maxSeqnos]
      omega
    simp [remember, survivors, hlast, hinner]

theorem mem_survivors {accepted : List Seqno} {e : Seqno} :
    e ∈ survivors accepted ↔ e = emptySeqno ∨ e = accepted.headD emptySeqno := by
  rw [Vector.mem_iff_getElem]
  constructor
  · rintro ⟨i, hi, rfl⟩
    by_cases hlast : i = maxSeqnos - 1
    · right
      simp [survivors, hlast]
    · left
      simp [survivors, hlast]
  · rintro (rfl | rfl)
    · exact ⟨0, by decide, by simp [survivors, maxSeqnos]⟩
    · exact ⟨maxSeqnos - 1, by decide, by simp [survivors]⟩

/-! ### The driver -/

/-- The driver with the entries of the frames it has accepted, the newest one first. -/
structure Driver where
  station : Station
  accepted : List Seqno

/-- The entry of a frame in the packet buffer. -/
def entryOf (p : Packetbuf) : Seqno := ⟨p.sender, p.packetId⟩

/-- The frame carries something behind its header, so that the filter looks at it. -/
def hasPayload (p : Packetbuf) : Bool :=
  (p.hdrreduce macHdrLen).any fun q => decide (0 < q.totlen ∧ 0 < q.datalen)

/-- `mac_frame_input` on a frame that has been copied to the packet buffer. -/
def Driver.input (d : Driver) (p : Packetbuf) : Station × Bool :=
  (macFrameInput { d.station with pb := p }).value

/-- The driver after a frame. -/
def Driver.receive (d : Driver) (p : Packetbuf) : Driver where
  station := (d.input p).1
  accepted := if hasPayload p && (d.input p).2 then entryOf p :: d.accepted else d.accepted

/-- The static history is zero before the first frame. -/
def powerUp (s : Station) : Driver where
  station := { s with receivedSeqnos := Vector.replicate maxSeqnos emptySeqno }
  accepted := []

/-- The filter does with a frame what a history of `MAX_SEQNOS` frames is for. -/
structure Filters (d : Driver) (p : Packetbuf) : Prop where
  drops : (d.input p).2 = false ↔ entryOf p ∈ d.accepted.take maxSeqnos
  records : (d.input p).2 = true →
    ∀ e ∈ (entryOf p :: d.accepted).take maxSeqnos, e ∈ (d.input p).1.receivedSeqnos

/-- It does so for every data frame of a sequence. -/
def FiltersAll (d : Driver) : List Packetbuf → Prop
  | [] => True
  | p :: ps => (hasPayload p = true → Filters d p) ∧ FiltersAll (d.receive p) ps

/-! ### One frame -/

theorem hdrreduce_entry {p q : Packetbuf} (h : p.hdrreduce macHdrLen = some q) :
    entryOf q = entryOf p := by
  rw [Packetbuf.hdrreduce] at h
  split at h
  next => cases h
  next =>
    rw [Option.some.injEq] at h
    rw [← h]
    rfl

theorem isDuplicate_iff {h : Vector Seqno maxSeqnos} {p : Packetbuf} :
    isDuplicate h p = true ↔ entryOf p ∈ h := by
  rw [isDuplicate, List.any_eq_true, ← Vector.mem_toList_iff]
  constructor
  · rintro ⟨e, he, h⟩
    rw [Bool.and_eq_true, beq_iff_eq, beq_iff_eq] at h
    have hentry : entryOf p = e := by
      rw [entryOf, h.1, h.2]
    rw [hentry]
    exact he
  · intro he
    exact ⟨entryOf p, he, by simp [entryOf]⟩

/-- A data frame is dropped if its entry is in the history, else it is remembered. -/
theorem input_of_data (d : Driver) {p : Packetbuf} (hdata : hasPayload p = true) :
    (d.input p).2 = decide (entryOf p ∉ d.station.receivedSeqnos) ∧
      (d.input p).1.receivedSeqnos =
        if entryOf p ∈ d.station.receivedSeqnos then d.station.receivedSeqnos
        else remember d.station.receivedSeqnos (entryOf p) := by
  obtain ⟨q, hred, hpos⟩ : ∃ q, p.hdrreduce macHdrLen = some q ∧ 0 < q.totlen ∧ 0 < q.datalen := by
    simpa [hasPayload, Option.any_eq_true] using hdata
  have hentry : entryOf q = entryOf p := hdrreduce_entry hred
  have hdup : isDuplicate d.station.receivedSeqnos q = true ↔
      entryOf p ∈ d.station.receivedSeqnos := by
    rw [isDuplicate_iff, hentry]
  rw [Driver.input, macFrameInput]
  by_cases hin : entryOf p ∈ d.station.receivedSeqnos
  · simp [hred, hpos, hdup.mpr hin, hin]
  · have hnew : isDuplicate d.station.receivedSeqnos q = false := by
      rw [← Bool.not_eq_true, hdup]
      exact hin
    have hrec : (⟨q.sender, q.packetId⟩ : Seqno) = entryOf p := hentry
    simp [hred, hpos, hnew, hin, hrec, nullNetInput]

/-- A frame without a payload leaves the history alone. -/
theorem input_of_bare (d : Driver) {p : Packetbuf} (hdata : hasPayload p = false) :
    (d.input p).1.receivedSeqnos = d.station.receivedSeqnos := by
  rw [Driver.input, macFrameInput]
  cases hred : p.hdrreduce macHdrLen with
  | none => simp
  | some q =>
      have hpos : ¬ (0 < q.totlen ∧ 0 < q.datalen) := by
        simpa only [hasPayload, hred, Option.any_some, decide_eq_false_iff_not] using hdata
      simp [hpos, nullNetInput]

/-- The history is what survives of the accepted frames. -/
def Driver.Sound (d : Driver) : Prop :=
  d.station.receivedSeqnos = survivors d.accepted ∧ emptySeqno ∉ d.accepted

theorem sound_powerUp (s : Station) : (powerUp s).Sound :=
  ⟨survivors_nil.symm, List.not_mem_nil⟩

theorem Driver.Sound.receive {d : Driver} (h : d.Sound) (p : Packetbuf) : (d.receive p).Sound := by
  cases hdata : hasPayload p with
  | false =>
      constructor
      · simp [Driver.receive, hdata, input_of_bare d hdata, h.1]
      · simpa [Driver.receive, hdata] using h.2
  | true =>
      obtain ⟨hpass, hhist⟩ := input_of_data d hdata
      by_cases hin : entryOf p ∈ d.station.receivedSeqnos
      · have hdrop : (d.input p).2 = false := by simp [hpass, hin]
        rw [if_pos hin] at hhist
        constructor
        · simp [Driver.receive, hdrop, hhist, h.1]
        · simpa [Driver.receive, hdrop] using h.2
      · have hkeep : (d.input p).2 = true := by simp [hpass, hin]
        have hne : emptySeqno ≠ entryOf p := by
          rw [h.1, mem_survivors, not_or] at hin
          exact fun heq => hin.1 heq.symm
        rw [if_neg hin, h.1, remember_survivors] at hhist
        constructor
        · simp [Driver.receive, hdata, hkeep, hhist]
        · simp [Driver.receive, hdata, hkeep, h.2, hne]

/-- A data frame is dropped if it repeats the last accepted one, and the entry nobody
has written is always dropped. -/
theorem Driver.Sound.drops_iff {d : Driver} (h : d.Sound) {p : Packetbuf}
    (hdata : hasPayload p = true) :
    (d.input p).2 = false ↔
      entryOf p = emptySeqno ∨ entryOf p = d.accepted.headD emptySeqno := by
  rw [(input_of_data d hdata).1, decide_eq_false_iff_not, not_not, h.1, mem_survivors]

/-- The filter is right about a frame as long as no other entry has been accepted. -/
theorem Driver.Sound.filters_iff {d : Driver} (h : d.Sound) {p : Packetbuf}
    (hdata : hasPayload p = true) :
    Filters d p ↔ entryOf p ≠ emptySeqno ∧ ∀ e ∈ d.accepted.head?, e = entryOf p := by
  have hdrop := h.drops_iff hdata
  have hhist := (input_of_data d hdata).2
  rw [h.1] at hhist
  constructor
  · intro hf
    have hne : entryOf p ≠ emptySeqno := by
      intro heq
      have hmem := hf.drops.mp (hdrop.mpr (Or.inl heq))
      rw [heq] at hmem
      exact h.2 (List.mem_of_mem_take hmem)
    refine ⟨hne, ?_⟩
    intro e he
    by_contra hother
    obtain ⟨older, holder⟩ : ∃ older, d.accepted = e :: older := List.head?_eq_some_iff.mp he
    have hfirst : d.accepted.headD emptySeqno = e := by simp [holder]
    have hnew : entryOf p ∉ survivors d.accepted := by
      rw [mem_survivors, hfirst, not_or]
      exact ⟨hne, fun heq => hother heq.symm⟩
    have hkeep : (d.input p).2 = true := by
      rw [← Bool.not_eq_false, hdrop, hfirst, not_or]
      exact ⟨hne, fun heq => hother heq.symm⟩
    -- the entry before the last place is the older one, which is gone
    have hkept := hf.records hkeep e (by simp [holder, maxSeqnos])
    rw [hhist, if_neg hnew, remember_survivors, mem_survivors] at hkept
    rcases hkept with heq | heq
    · exact h.2 (by simp [holder, heq])
    · exact hother heq
  · rintro ⟨hne, hhead⟩
    cases hacc : d.accepted with
    | nil =>
        have hkeep : (d.input p).2 = true := by
          rw [← Bool.not_eq_false, hdrop, hacc]
          simpa using hne
        constructor
        · simp [hkeep, hacc]
        · intro _ e he
          have heq : e = entryOf p := by simpa [hacc, maxSeqnos] using he
          have hnew : entryOf p ∉ survivors d.accepted := by
            rw [mem_survivors, hacc]
            simpa using hne
          rw [hhist, if_neg hnew, remember_survivors, mem_survivors, heq]
          exact Or.inr rfl
    | cons e older =>
        have heq : e = entryOf p := hhead e (by simp [hacc])
        have hgone : (d.input p).2 = false := by
          rw [hdrop, hacc]
          exact Or.inr heq.symm
        constructor
        · simp [hgone, hacc, heq, maxSeqnos]
        · intro hkeep
          rw [hgone] at hkeep
          cases hkeep

/-! ### All frames -/

theorem head?_receive (d : Driver) {p : Packetbuf} (h : d.Sound) (hdata : hasPayload p = true)
    (hne : entryOf p ≠ emptySeqno) (hhead : ∀ e ∈ d.accepted.head?, e = entryOf p) :
    (d.receive p).accepted.head? = some (entryOf p) := by
  have hdrop := h.drops_iff hdata
  cases hacc : d.accepted with
  | nil =>
      have hkeep : (d.input p).2 = true := by
        rw [← Bool.not_eq_false, hdrop, hacc]
        simpa using hne
      simp [Driver.receive, hdata, hkeep]
  | cons e older =>
      have heq : e = entryOf p := hhead e (by simp [hacc])
      have hgone : (d.input p).2 = false := by
        rw [hdrop, hacc]
        exact Or.inr heq.symm
      simp [Driver.receive, hgone, hacc, heq]

theorem Driver.Sound.filtersAll_iff {d : Driver} (h : d.Sound) (ps : List Packetbuf) :
    FiltersAll d ps ↔ ∃ k, k ≠ emptySeqno ∧ (∀ e ∈ d.accepted.head?, e = k) ∧
      ∀ p ∈ ps, hasPayload p = true → entryOf p = k := by
  induction ps generalizing d with
  | nil =>
      simp only [FiltersAll, List.not_mem_nil, false_imp_iff, implies_true, and_true, true_iff]
      cases hacc : d.accepted with
      | nil => exact ⟨⟨rimeaddrNull, 1⟩, by decide, by simp⟩
      | cons e older =>
          have hne : e ≠ emptySeqno := by
            rintro rfl
            exact h.2 (by simp [hacc])
          exact ⟨e, hne, by simp⟩
  | cons p ps ih =>
      rw [FiltersAll, ih (h.receive p)]
      cases hdata : hasPayload p with
      | false => simp [Driver.receive, hdata]
      | true =>
          rw [eq_self, true_imp_iff, h.filters_iff hdata]
          constructor
          · rintro ⟨⟨hne, hhead⟩, k, hk, hlast, hrest⟩
            have hkey : entryOf p = k :=
              hlast _ (head?_receive d h hdata hne hhead)
            subst hkey
            refine ⟨entryOf p, hne, hhead, ?_⟩
            rw [List.forall_mem_cons]
            exact ⟨fun _ => rfl, hrest⟩
          · rintro ⟨k, hk, hlast, hall⟩
            rw [List.forall_mem_cons] at hall
            have hkey : entryOf p = k := hall.1 hdata
            subst hkey
            refine ⟨⟨hk, hlast⟩, entryOf p, hk, ?_, hall.2⟩
            rw [head?_receive d h hdata hk hlast]
            simp

/-- From power up on the filter is right about every data frame if all of them have
the entry of the first one, which is not the one nobody has written. -/
theorem filtersAll_powerUp_iff (s : Station) (ps : List Packetbuf) :
    FiltersAll (powerUp s) ps ↔
      ∃ k, k ≠ emptySeqno ∧ ∀ p ∈ ps, hasPayload p = true → entryOf p = k := by
  rw [(sound_powerUp s).filtersAll_iff]
  simp [powerUp]

/-- A frame of one byte behind the header. -/
def numbered (n : UInt16) : Packetbuf :=
  ⟨fun _ => 0, macHdrLen + 1, 0, packetbufHdrSize, 0, n, Vector.replicate 8 1, rimeaddrNull⟩

/-- The first of two frames is accepted a second time. -/
theorem not_filtersAll_repeated :
    ¬ FiltersAll (powerUp listener) [numbered 1, numbered 2, numbered 1] := by
  rw [(sound_powerUp listener).filtersAll_iff]
  rintro ⟨k, -, -, hall⟩
  have hone : entryOf (numbered 1) = k := hall _ (by simp) (by decide)
  have htwo : entryOf (numbered 2) = k := hall _ (by simp) (by decide)
  exact absurd (hone.trans htwo.symm) (by decide)

end Calipso.Ieee80211
