import Calipso.Rime.Rudolph2
import Mathlib.Tactic.Ring

/-!
# The integrity of a disseminated file

What every node writes and sends is what the base has, as long as the first chunk of a version is
not received again by a node that has written it without counting it, and no node that has
nothing of its version is asked for an older one.
-/

namespace Calipso.Rime.Rudolph2

variable {files : UInt16 → List UInt8}

/-- The version that is written and the number of its chunks behind the calls of `write_chunk`,
when `st` was so before; nothing when they are not in order. A version begins with one call for a
new file, its chunks follow in order with the bytes of the base, and the last one is marked. -/
def written (files : UInt16 → List UInt8) : Option (UInt16 × Nat) → List (UInt16 × Write) →
    Option (Option (UInt16 × Nat))
  | st, [] => some st
  | st, (v, .newfile) :: es =>
    if st.all fun p => p.1 < v then written files (some (v, 0)) es else none
  | some (v, w), (v', .chunk k last bytes) :: es =>
    if v' = v ∧ k = w ∧ w < chunks (files v) ∧ bytes = chunk (files v) k ∧
        last = decide (w + 1 = chunks (files v)) then
      written files (some (v, w + 1)) es
    else none
  | none, (_, .chunk _ _ _) :: _ => none

/-- The packet carries a chunk of the base. -/
def Message.Sound (files : UInt16 → List UInt8) : Message → Prop
  | .data _ v k bytes => k < chunks (files v) ∧ bytes = chunk (files v) k
  | .nack _ _ _ => True

/-- Every node writes what the base has, and every packet carries a chunk of the base. -/
def Network.Sound {ι : Type} (files : UInt16 → List UInt8) (s : Network ι) : Prop :=
  (∀ i, ∃ st, written files none (s.node i).log = some st) ∧ ∀ m ∈ s.sent, m.Sound files

/-! ### The condition -/

/-- The first chunk of the version is not written again, and a node that is asked for an older
version has written the first chunk of its own. -/
def Node.Regular (c : Node) : Message → Prop
  | .data hops v k _ =>
    hops < c.hopsFromBase → v = c.version → k = 0 → c.rcvNxt = 0 → c.begun = false
  | .nack hops v _ =>
    c.hopsFromBase < hops → v ≠ c.version → lt v c.version = true →
      c.rcvNxt = 0 → c.begun = true

/-- The version numbers stay within half of their range, and a file has fewer than 2 ^ 16
chunks. -/
def Event.Regular {ι : Type} (base : ι) (files : UInt16 → List UInt8) (s : Network ι) :
    Event ι → Prop
  | .publish =>
    (s.node base).version.toNat + 1 < 2 ^ 15 ∧
      chunks (files ((s.node base).version + 1)) < 2 ^ 16
  | .timed _ => True
  | .deliver i m => m ∈ s.sent → (s.node i).Regular m

/-- Every event of the run is regular where it happens. -/
def Regular {ι : Type} [DecidableEq ι] (base : ι) (files : UInt16 → List UInt8)
    (s : Network ι) : List (Event ι) → Prop
  | [] => True
  | e :: es => e.Regular base files s ∧ Regular base files (e.step base files s) es

instance (c : Node) : (m : Message) → Decidable (c.Regular m)
  | .data _ _ _ _ => by unfold Node.Regular; infer_instance
  | .nack _ _ _ => by unfold Node.Regular; infer_instance

instance {ι : Type} (base : ι) (files : UInt16 → List UInt8) (s : Network ι) :
    (e : Event ι) → Decidable (e.Regular base files s)
  | .publish => by unfold Event.Regular; infer_instance
  | .timed _ => .isTrue trivial
  | .deliver _ _ => by unfold Event.Regular; infer_instance

instance decidableRegular {ι : Type} [DecidableEq ι] (base : ι) (files : UInt16 → List UInt8) :
    (s : Network ι) → (es : List (Event ι)) → Decidable (Regular base files s es)
  | _, [] => .isTrue trivial
  | s, e :: es =>
    have := decidableRegular base files (e.step base files s) es
    inferInstanceAs (Decidable (_ ∧ _))

/-! ### Nodes -/

/-- A node with a version up to `top`: it has the chunks that it counts. -/
structure Node.Good (files : UInt16 → List UInt8) (top : UInt16) (c : Node) : Prop where
  le : c.version.toNat ≤ top.toNat
  rcv : c.rcvNxt ≤ chunks (files c.version)
  content : ∀ k < c.rcvNxt, c.file k = chunk (files c.version) k
  first : c.begun = true → c.file 0 = chunk (files c.version) 0
  sndLe : c.sndNxt ≤ c.rcvNxt
  snd : c.lastReceived = true → c.sndNxt < c.rcvNxt

/-- What was written and what is counted. The first chunk of a version may be written and not
counted. -/
def Node.Tracks (files : UInt16 → List UInt8) (c : Node) : Prop :=
  ∃ st, written files none c.log = some st ∧
    if c.begun then
      ∃ w, st = some (c.version, w) ∧ (w = c.rcvNxt ∨ c.rcvNxt = 0 ∧ w = 1)
    else
      c.rcvNxt = 0 ∧ ∀ p ∈ st, p.1 < c.version

/-- A packet of a version up to `top`. -/
def Message.Good (files : UInt16 → List UInt8) (top : UInt16) : Message → Prop
  | .data _ v k bytes => v.toNat ≤ top.toNat ∧ k < chunks (files v) ∧ bytes = chunk (files v) k
  | .nack _ v _ => v.toNat ≤ top.toNat

variable {top : UInt16} {c : Node} {m : Message}

theorem written_append {st st' : Option (UInt16 × Nat)} {l : List (UInt16 × Write)}
    (h : written files st l = some st') (es : List (UInt16 × Write)) :
    written files st (l ++ es) = written files st' es := by
  induction l generalizing st with
  | nil =>
      obtain rfl := Option.some.inj h
      rfl
  | cons e l ih =>
      obtain ⟨v, e⟩ := e
      rw [List.cons_append]
      cases e with
      | newfile =>
          by_cases hv : st.all fun p => p.1 < v
          · rw [written, if_pos hv] at h
            rw [written, if_pos hv]
            exact ih h
          · rw [written, if_neg hv] at h
            cases h
      | chunk k last bytes =>
          cases st with
          | none => cases h
          | some p =>
              obtain ⟨v', w⟩ := p
              by_cases hp : v = v' ∧ k = w ∧ w < chunks (files v') ∧ bytes = chunk (files v') k ∧
                  last = decide (w + 1 = chunks (files v'))
              · rw [written, if_pos hp] at h
                rw [written, if_pos hp]
                exact ih h
              · rw [written, if_neg hp] at h
                cases h

/-- Within half of the range the versions are compared as numbers. -/
theorem lt_iff {a b : UInt16} (ha : a.toNat < 2 ^ 15) (hb : b.toNat < 2 ^ 15) :
    lt a b = true ↔ a.toNat < b.toNat := by
  have hhalf : (0x8000 : UInt16).toNat = 2 ^ 15 := rfl
  rw [lt, decide_eq_true_iff, UInt16.le_iff_toNat_le, UInt16.toNat_sub, hhalf]
  omega

/-- Only the last chunk is short. -/
theorem length_chunk_lt_iff {file : List UInt8} {k : Nat} (hk : k < chunks file) :
    (chunk file k).length < dataSize ↔ k + 1 = chunks file := by
  unfold chunks dataSize at hk ⊢
  simp only [chunk, dataSize, List.length_take, List.length_drop]
  omega

theorem Node.Good.sendData (h : c.Good files top)
    (hsnd : c.sndNxt < c.rcvNxt ∨ c.sndNxt = 0 ∧ c.begun = true) :
    c.sendData.Good files top := by
  rcases hsnd with hsnd | ⟨hzero, hbegun⟩
  · exact ⟨h.le, Nat.lt_of_lt_of_le hsnd h.rcv, h.content _ hsnd⟩
  · refine ⟨h.le, ?_, ?_⟩
    · rw [hzero]
      exact Nat.succ_pos _
    · rw [hzero]
      exact h.first hbegun

/-- What a node does keeps it good, and so is what it sends. -/
def Keeps (files : UInt16 → List UInt8) (top : UInt16) (r : Node × Option Message) : Prop :=
  r.1.Good files top ∧ ∀ m ∈ r.2, m.Good files top

theorem keeps_timedSend (h : c.Good files top) : Keeps files top c.timedSend := by
  unfold Node.timedSend
  split_ifs with hlast
  · have hsnd : (if c.nacks = 0 ∧ (c.file c.sndNxt).length = dataSize ∧ c.sndNxt + 1 < c.rcvNxt
        then c.sndNxt + 1 else c.sndNxt) < c.rcvNxt := by
      split_ifs with hadvance
      · exact hadvance.2.2
      · exact h.snd hlast
    refine ⟨⟨h.le, h.rcv, h.content, h.first, hsnd.le, fun _ => hsnd⟩, ?_⟩
    rintro m ⟨⟩
    exact h.sendData (.inl (h.snd hlast))
  · exact ⟨⟨h.le, h.rcv, h.content, h.first, h.sndLe, h.snd⟩, by simp⟩

theorem keeps_recvNack (h : c.Good files top) {hops : UInt8} {v : UInt16} {k : Nat}
    (hregular : c.Regular (.nack hops v k)) : Keeps files top (c.recvNack hops v k) := by
  unfold Node.recvNack
  dsimp only
  split_ifs with hhops hversion hk hlt
  · have hgood : Node.Good files top { c with nacks := c.nacks + 1, sndNxt := k } :=
      ⟨h.le, h.rcv, h.content, h.first, hk.le, fun _ => hk⟩
    refine ⟨hgood, ?_⟩
    rintro m ⟨⟩
    exact hgood.sendData (.inl hk)
  · exact ⟨⟨h.le, h.rcv, h.content, h.first, h.sndLe, h.snd⟩, by simp⟩
  · have hhave : 0 < c.rcvNxt ∨ c.begun = true := by
      rcases Nat.eq_zero_or_pos c.rcvNxt with hzero | hpos
      · exact .inr (hregular hhops hversion hlt hzero)
      · exact .inl hpos
    have hgood : Node.Good files top { c with nacks := c.nacks + 1, sndNxt := 0 } :=
      ⟨h.le, h.rcv, h.content, h.first, Nat.zero_le _,
        fun hlast => lt_of_le_of_lt (Nat.zero_le _) (h.snd hlast)⟩
    refine ⟨hgood, ?_⟩
    rintro m ⟨⟩
    exact hgood.sendData (hhave.imp id fun hbegun => ⟨rfl, hbegun⟩)
  · exact ⟨⟨h.le, h.rcv, h.content, h.first, h.sndLe, h.snd⟩, by simp⟩
  · exact ⟨h, by simp⟩

/-- A chunk is written where the node has it from then on. -/
theorem written_writeData {v : UInt16} {k : Nat} {bytes : List UInt8} {st : Option (UInt16 × Nat)}
    (hlog : written files none c.log = some st) (hversion : c.version = v)
    (hst : if k = 0 then st.all (fun p => p.1 < v) = true else st = some (v, k))
    (hk : k < chunks (files v)) (hbytes : bytes = chunk (files v) k) :
    written files none (c.writeData k bytes).log = some (some (v, k + 1)) := by
  have hlast : decide (bytes.length < dataSize) = decide (k + 1 = chunks (files v)) := by
    rw [decide_eq_decide, hbytes, length_chunk_lt_iff hk]
  have hentry :
      written files (some (v, k)) [(v, .chunk k (decide (bytes.length < dataSize)) bytes)] =
        some (some (v, k + 1)) := by
    rw [written, if_pos ⟨rfl, rfl, hk, hbytes, hlast⟩]
    rfl
  unfold Node.writeData
  dsimp only
  by_cases hzero : k = 0
  · subst hzero
    rw [if_pos rfl] at hst
    simp only [if_true, hversion]
    rw [List.append_assoc, written_append hlog]
    show written files st ((v, .newfile) :: [(v, _)]) = _
    rw [written, if_pos hst]
    exact hentry
  · rw [if_neg hzero] at hst
    simp only [hzero, if_false, hversion]
    rw [written_append hlog, hst]
    exact hentry

/-- A new version: nothing is counted yet. -/
theorem good_recvNew (ht : c.Tracks files) {v : UInt16} {k : Nat}
    {bytes : List UInt8} (hv : v.toNat ≤ top.toNat) (hk : k < chunks (files v))
    (hbytes : bytes = chunk (files v) k) (hnew : c.version < v) :
    Keeps files top (c.recvNew v k bytes) ∧ (c.recvNew v k bytes).1.Tracks files := by
  obtain ⟨st, hlog, hst⟩ := ht
  have hold : ∀ p ∈ st, p.1 < v := by
    intro p hp
    split_ifs at hst
    · obtain ⟨w, rfl, -⟩ := hst
      cases hp
      exact hnew
    · exact UInt16.lt_trans (hst.2 p hp) hnew
  unfold Node.recvNew
  dsimp only
  split_ifs with hzero
  · refine ⟨⟨⟨hv, Nat.zero_le _, by simp, by simp, le_rfl, by simp⟩, ?_⟩, st, hlog, rfl, hold⟩
    rintro m ⟨⟩
    exact hv
  · have hzero : k = 0 := not_not.mp hzero
    subst hzero
    refine ⟨⟨⟨hv, Nat.zero_le _, by simp [Node.writeData], ?_, le_rfl, by simp [Node.writeData]⟩,
      by simp⟩, some (v, 1), ?_, ?_⟩
    · intro _
      simpa [Node.writeData] using hbytes
    · refine written_writeData hlog rfl ?_ hk hbytes
      rw [if_pos rfl]
      cases st with
      | none => rfl
      | some p => simpa using hold p rfl
    · exact ⟨1, rfl, .inr ⟨rfl, rfl⟩⟩

theorem written_recvChunk (ht : c.Tracks files) {bytes : List UInt8}
    (hk : c.rcvNxt < chunks (files c.version)) (hbytes : bytes = chunk (files c.version) c.rcvNxt)
    (hregular : c.rcvNxt = 0 → c.begun = false) :
    written files none (c.writeData c.rcvNxt bytes).log =
      some (some (c.version, c.rcvNxt + 1)) := by
  obtain ⟨st, hlog, hst⟩ := ht
  refine written_writeData hlog rfl ?_ hk hbytes
  by_cases hzero : c.rcvNxt = 0
  · rw [if_pos hzero]
    rw [hregular hzero] at hst
    cases st with
    | none => rfl
    | some p => simpa using hst.2 p rfl
  · rw [if_neg hzero]
    split_ifs at hst with hbegun
    · obtain ⟨w, rfl, rfl | ⟨hnone, -⟩⟩ := hst
      · rfl
      · exact absurd hnone hzero
    · exact absurd hst.1 hzero

/-- A chunk of the version that is received. -/
theorem good_recvChunk (h : c.Good files top) (ht : c.Tracks files) {k : Nat}
    {bytes : List UInt8} (hk : k < chunks (files c.version))
    (hbytes : bytes = chunk (files c.version) k)
    (hregular : k = 0 → c.rcvNxt = 0 → c.begun = false) :
    Keeps files top (c.recvChunk k bytes) ∧ (c.recvChunk k bytes).1.Tracks files := by
  unfold Node.recvChunk
  dsimp only
  by_cases hnext : k = c.rcvNxt
  · subst hnext
    have hlog := written_recvChunk ht hk hbytes fun hzero => hregular hzero hzero
    have hbegun : (c.writeData c.rcvNxt bytes).begun = true := by
      by_cases hzero : c.rcvNxt = 0
      · simp [Node.writeData, hzero]
      · obtain ⟨st, -, hst⟩ := ht
        by_cases hb : c.begun = true
        · simp [Node.writeData, hzero, hb]
        · rw [if_neg hb] at hst
          exact absurd hst.1 hzero
    have hversion : (c.writeData c.rcvNxt bytes).version = c.version := by
      unfold Node.writeData
      dsimp only
      split_ifs <;> rfl
    have hfile : (c.writeData c.rcvNxt bytes).file = Function.update c.file c.rcvNxt bytes := by
      unfold Node.writeData
      dsimp only
      split_ifs <;> rfl
    have hrcv : (c.writeData c.rcvNxt bytes).rcvNxt = c.rcvNxt := by
      unfold Node.writeData
      dsimp only
      split_ifs <;> rfl
    have hsnd : (c.writeData c.rcvNxt bytes).sndNxt = c.sndNxt := by
      unfold Node.writeData
      dsimp only
      split_ifs <;> rfl
    have hcontent : ∀ j < c.rcvNxt + 1,
        Function.update c.file c.rcvNxt bytes j = chunk (files c.version) j := by
      intro j hj
      by_cases hlast : j = c.rcvNxt
      · rw [hlast, Function.update_self, hbytes]
      · rw [Function.update_of_ne hlast, h.content j (by omega)]
    have hsndLe := h.sndLe
    rw [if_pos rfl]
    generalize c.writeData c.rcvNxt bytes = c' at hlog hbegun hversion hfile hrcv hsnd
    have hgood : ∀ received t, Node.Good files top
        { c' with rcvNxt := c'.rcvNxt + 1, lastReceived := received, timer := t } := by
      intro received t
      refine ⟨?_, ?_, ?_, ?_, ?_, ?_⟩
      · show c'.version.toNat ≤ _
        rw [hversion]
        exact h.le
      · show c'.rcvNxt + 1 ≤ chunks (files c'.version)
        rw [hversion, hrcv]
        exact hk
      · intro j hj
        show c'.file j = chunk (files c'.version) j
        rw [hfile, hversion]
        exact hcontent j (by rw [← hrcv]; exact hj)
      · intro _
        show c'.file 0 = chunk (files c'.version) 0
        rw [hfile, hversion]
        exact hcontent 0 (Nat.succ_pos _)
      · show c'.sndNxt ≤ c'.rcvNxt + 1
        omega
      · intro _
        show c'.sndNxt < c'.rcvNxt + 1
        omega
    have htracks : ∀ received t, Node.Tracks files
        { c' with rcvNxt := c'.rcvNxt + 1, lastReceived := received, timer := t } := by
      intro received t
      refine ⟨_, hlog, ?_⟩
      show if c'.begun = true then _ else _
      rw [if_pos hbegun]
      refine ⟨c.rcvNxt + 1, ?_, .inl ?_⟩
      · show _ = some (c'.version, _)
        rw [hversion]
      · show c.rcvNxt + 1 = c'.rcvNxt + 1
        rw [hrcv]
    split_ifs with hshort
    · refine ⟨⟨hgood true true, ?_⟩, htracks true true⟩
      rintro m ⟨⟩
      refine (hgood true c'.timer).sendData (.inl ?_)
      show c'.sndNxt < c'.rcvNxt + 1
      omega
    · exact ⟨⟨hgood c'.lastReceived c'.timer, by simp⟩, htracks c'.lastReceived c'.timer⟩
  · rw [if_neg hnext]
    split_ifs
    · refine ⟨⟨h, ?_⟩, ht⟩
      rintro m ⟨⟩
      exact h.le
    · exact ⟨⟨h, by simp⟩, ht⟩

/-- A packet comes to a node that is not the base. -/
theorem good_recv (h : c.Good files top) (ht : c.Tracks files) (hm : m.Good files top)
    (htop : top.toNat < 2 ^ 15) (hregular : c.Regular m) :
    Keeps files top (c.recv m) ∧ (c.recv m).1.Tracks files := by
  cases m with
  | nack hops v k =>
      refine ⟨keeps_recvNack h hregular, ?_⟩
      simp only [Node.recv, Node.recvNack]
      split_ifs <;> exact ht
  | data hops v k bytes =>
      obtain ⟨hv, hk, hbytes⟩ := hm
      simp only [Node.recv, Node.recvData]
      by_cases hhops : hops < c.hopsFromBase
      · rw [if_pos hhops]
        have hgood : Node.Good files top { c with hopsFromBase := hops + 1 } :=
          ⟨h.le, h.rcv, h.content, h.first, h.sndLe, h.snd⟩
        have htracks : Node.Tracks files { c with hopsFromBase := hops + 1 } := ht
        have hle := h.le
        by_cases hnew : lt c.version v = true
        · rw [if_pos hnew]
          have hless := (lt_iff (by omega) (by omega)).mp hnew
          exact good_recvNew htracks hv hk hbytes (UInt16.lt_iff_toNat_lt.mpr hless)
        · rw [if_neg hnew]
          by_cases hsame : v = c.version
          · rw [if_pos hsame]
            subst hsame
            exact good_recvChunk hgood htracks hk hbytes (hregular hhops rfl)
          · rw [if_neg hsame]
            exact ⟨⟨hgood, by simp⟩, htracks⟩
      · rw [if_neg hhops]
        exact ⟨⟨h, by simp⟩, ht⟩

/-! ### Networks -/

variable {ι : Type} [DecidableEq ι] {base : ι} {s : Network ι}

/-- The base has what it has published and writes nothing; the other nodes write what the base
has, and so does every packet carry it. -/
structure Inv (base : ι) (files : UInt16 → List UInt8) (s : Network ι) : Prop where
  top : (s.node base).version.toNat < 2 ^ 15
  hops : (s.node base).hopsFromBase = 0
  log : (s.node base).log = []
  good : ∀ i, (s.node i).Good files (s.node base).version
  tracks : ∀ i, i ≠ base → (s.node i).Tracks files
  sent : ∀ m ∈ s.sent, m.Good files (s.node base).version

theorem Node.Good.mono (h : c.Good files top) {top' : UInt16} (hle : top.toNat ≤ top'.toNat) :
    c.Good files top' :=
  ⟨le_trans h.le hle, h.rcv, h.content, h.first, h.sndLe, h.snd⟩

theorem Message.Good.mono (h : m.Good files top) {top' : UInt16} (hle : top.toNat ≤ top'.toNat) :
    m.Good files top' := by
  cases m with
  | data hops v k bytes => exact ⟨le_trans h.1 hle, h.2⟩
  | nack hops v k => exact le_trans h hle

/-- A node does something that keeps it as it has to be. -/
theorem Inv.act (h : Inv base files s) {i : ι} {r : Node × Option Message}
    (hkeeps : Keeps files (s.node base).version r) (htracks : i ≠ base → r.1.Tracks files)
    (hbase : i = base → r.1.version = (s.node base).version ∧ r.1.hopsFromBase = 0 ∧
      r.1.log = []) : Inv base files (s.act i r) := by
  have hnode : ((s.act i r).node base).version = (s.node base).version ∧
      ((s.act i r).node base).hopsFromBase = 0 ∧ ((s.act i r).node base).log = [] := by
    by_cases hi : i = base
    · subst hi
      simpa [Network.act] using hbase rfl
    · simp [Network.act, Function.update_of_ne (Ne.symm hi), h.hops, h.log]
  refine ⟨by rw [hnode.1]; exact h.top, hnode.2.1, hnode.2.2, ?_, ?_, ?_⟩
  · intro j
    rw [hnode.1]
    by_cases hj : j = i
    · subst hj
      simpa [Network.act] using hkeeps.1
    · simpa [Network.act, Function.update_of_ne hj] using h.good j
  · intro j hne
    by_cases hj : j = i
    · subst hj
      simpa [Network.act] using htracks hne
    · simpa [Network.act, Function.update_of_ne hj] using h.tracks j hne
  · intro m hm
    rw [hnode.1]
    rcases List.mem_append.mp hm with hm | hm
    · exact h.sent m hm
    · exact hkeeps.2 m (by simpa using hm)

/-- The base publishes its next version. -/
theorem inv_publish (htop : (s.node base).version.toNat + 1 < 2 ^ 15)
    (hlog : (s.node base).log = [])
    (hgood : ∀ i, i ≠ base → (s.node i).Good files (s.node base).version)
    (htracks : ∀ i, i ≠ base → (s.node i).Tracks files)
    (hsent : ∀ m ∈ s.sent, m.Good files (s.node base).version) :
    Inv base files (Event.step base files s .publish) := by
  have hnext : ((s.node base).version + 1).toNat = (s.node base).version.toNat + 1 := by
    rw [UInt16.toNat_add, UInt16.toNat_one, Nat.mod_eq_of_lt (by omega)]
  have hle : (s.node base).version.toNat ≤ ((s.node base).version + 1).toNat := by omega
  have hbase : Node.Good files ((s.node base).version + 1)
      ((s.node base).send (files ((s.node base).version + 1))).1 :=
    ⟨le_rfl, le_rfl, fun k _ => rfl, fun _ => rfl, Nat.zero_le _, fun _ => Nat.succ_pos _⟩
  have hnode : (Event.step base files s .publish).node base =
      ((s.node base).send (files ((s.node base).version + 1))).1 := by
    simp [Event.step, Network.act]
  have hversion : ((Event.step base files s .publish).node base).version =
      (s.node base).version + 1 := by
    rw [hnode]
    rfl
  have hother : ∀ i, i ≠ base → (Event.step base files s .publish).node i = s.node i := by
    intro i hi
    simp [Event.step, Network.act, Function.update_of_ne hi]
  refine ⟨?_, ?_, ?_, ?_, ?_, ?_⟩
  · rw [hversion]
    omega
  · rw [hnode]
    rfl
  · rw [hnode]
    exact hlog
  · intro i
    rw [hversion]
    by_cases hi : i = base
    · subst hi
      rw [hnode]
      exact hbase
    · rw [hother i hi]
      exact (hgood i hi).mono hle
  · intro i hi
    rw [hother i hi]
    exact htracks i hi
  · intro m hm
    rw [hversion]
    rcases List.mem_append.mp hm with hm | hm
    · exact (hsent m hm).mono hle
    · obtain rfl : m = ((s.node base).send (files ((s.node base).version + 1))).1.sendData := by
        simpa [Node.send, eq_comm] using hm
      exact hbase.sendData (.inl (Nat.succ_pos _))

/-- A negative acknowledgement makes a node send, and changes nothing else. -/
theorem recvNack_frame (hops : UInt8) (v : UInt16) (k : Nat) :
    (c.recvNack hops v k).1.version = c.version ∧
      (c.recvNack hops v k).1.hopsFromBase = c.hopsFromBase ∧
      (c.recvNack hops v k).1.log = c.log := by
  unfold Node.recvNack
  dsimp only
  split_ifs <;> exact ⟨rfl, rfl, rfl⟩

/-- Nobody is closer to the base than the base, which takes no data. -/
theorem recvData_of_hops (hzero : c.hopsFromBase = 0) (hops : UInt8) (v : UInt16) (k : Nat)
    (bytes : List UInt8) : c.recvData hops v k bytes = (c, none) := by
  have hnot : ¬ hops < 0 := by simp
  rw [Node.recvData, hzero, if_neg hnot]

theorem inv_step (h : Inv base files s) (e : Event ι) (hregular : e.Regular base files s) :
    Inv base files (e.step base files s) := by
  cases e with
  | publish => exact inv_publish hregular.1 h.log (fun i _ => h.good i) h.tracks h.sent
  | timed i =>
      rw [Event.step]
      split_ifs
      · apply h.act (keeps_timedSend (h.good i))
        · intro hi
          obtain ⟨st, hlog, hst⟩ := h.tracks i hi
          unfold Node.timedSend
          split_ifs <;> exact ⟨st, hlog, hst⟩
        · rintro rfl
          unfold Node.timedSend
          split_ifs <;> exact ⟨rfl, h.hops, h.log⟩
      · exact h
  | deliver i m =>
      rw [Event.step]
      split_ifs with hm
      · by_cases hi : i = base
        · subst hi
          cases m with
          | data hops v k bytes =>
              rw [Node.recv, recvData_of_hops h.hops]
              exact h.act ⟨h.good i, by simp⟩ (fun hne => absurd rfl hne)
                fun _ => ⟨rfl, h.hops, h.log⟩
          | nack hops v k =>
              obtain ⟨hversion, hhops, hlog⟩ := recvNack_frame (c := s.node i) hops v k
              exact h.act (keeps_recvNack (h.good i) (hregular hm)) (fun hne => absurd rfl hne)
                fun _ => ⟨hversion, hhops.trans h.hops, hlog.trans h.log⟩
        · obtain ⟨hkeeps, htracks⟩ :=
            good_recv (h.good i) (h.tracks i hi) (h.sent m hm) h.top (hregular hm)
          exact h.act hkeeps (fun _ => htracks) (fun hbase => absurd hbase hi)
      · exact h

theorem inv_start (files : UInt16 → List UInt8) (base : ι) (old : ι → Nat → List UInt8) :
    Inv base files (Network.start base files old) := by
  apply inv_publish
  · show 0 + 1 < 2 ^ 15
    decide
  · rfl
  · intro i _
    exact ⟨le_rfl, Nat.zero_le _, by simp [Node.init], by simp [Node.init], le_rfl,
      by simp [Node.init]⟩
  · intro i _
    exact ⟨none, rfl, rfl, by simp⟩
  · simp

theorem inv_run (h : Inv base files s) (es : List (Event ι)) (hregular : Regular base files s es) :
    Inv base files (run base files s es) := by
  induction es generalizing s with
  | nil => exact h
  | cons e es ih => exact ih (inv_step h e hregular.1) hregular.2

theorem Inv.sound (h : Inv base files s) : s.Sound files := by
  constructor
  · intro i
    by_cases hi : i = base
    · subst hi
      rw [h.log]
      exact ⟨none, rfl⟩
    · obtain ⟨st, hlog, -⟩ := h.tracks i hi
      exact ⟨st, hlog⟩
  · intro m hm
    cases m with
    | data hops v k bytes => exact (h.sent _ hm).2
    | nack hops v k => trivial

/-- In every run in which no node writes the first chunk of a version that it has written, and no
node that has nothing of its version answers for an older one, the file that every node has is that
of the base. -/
theorem dissemination_sound (base : ι) (files : UInt16 → List UInt8) (old : ι → Nat → List UInt8)
    (es : List (Event ι)) (hregular : Regular base files (Network.start base files old) es) :
    (run base files (Network.start base files old) es).Sound files :=
  (inv_run (inv_start files base old) es hregular).sound

/-- A file of two chunks. -/
def twoChunks (_ : UInt16) : List UInt8 := List.replicate 70 7

/-- The second chunk comes first and is asked for again after the first one. -/
theorem dissemination_sound_whole :
    (run false twoChunks (Network.start false twoChunks fun _ _ => [])
      [.timed false, .timed false, .deliver true (.data 0 1 1 (List.replicate 6 7)),
        .deliver false (.nack 1 1 0), .deliver true (.data 0 1 0 (List.replicate 64 7)),
        .deliver true (.data 0 1 1 (List.replicate 6 7))]).Sound twoChunks :=
  dissemination_sound false twoChunks _ _ (by decide +kernel)

/-- The base sends the first chunk twice, and both are written as the beginning of a new file. -/
theorem not_sound_twice :
    ¬ (run false twoChunks (Network.start false twoChunks fun _ _ => [])
      [.timed false, .deliver true (.data 0 1 0 (List.replicate 64 7)),
        .deliver true (.data 0 1 0 (List.replicate 64 7))]).Sound twoChunks := by
  rintro ⟨hwritten, -⟩
  obtain ⟨st, hst⟩ := hwritten true
  have hnone : written twoChunks none (run false twoChunks
      (Network.start false twoChunks fun _ _ => [])
      [.timed false, .deliver true (.data 0 1 0 (List.replicate 64 7)),
        .deliver true (.data 0 1 0 (List.replicate 64 7))] |>.node true).log = none := by
    decide +kernel
  rw [hnone] at hst
  cases hst

end Calipso.Rime.Rudolph2
