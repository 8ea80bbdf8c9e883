import Calipso.Resolv.Name
import Mathlib.Algebra.Order.Ring.Nat

/-!
# Codec of the resolver

`name_conforms_iff` says for which encodings the functions of the resolver read a host name as it
is: those whose pointers all lead to labels. Behind a pointer to the zero byte the dot before it
stays in the text, and the comparison reads on.
-/

namespace Calipso.Resolv

variable {packet query rest tail dest l name t : List UInt8} {ls : List (List UInt8)}
  {e : Encoding} {fuel len offset : Nat} {n m : UInt8}

/-! ### Bytes -/

theorem length_byte (h : l.length ≤ 63) :
    UInt8.ofNat l.length &&& 0xc0 = 0 ∧ (UInt8.ofNat l.length).toNat = l.length := by
  have hbytes : ∀ k < 64, UInt8.ofNat k &&& 0xc0 = 0 := by decide
  exact ⟨hbytes _ (by omega), UInt8.toNat_ofNat_of_lt' (Nat.lt_of_le_of_lt h (by decide))⟩

theorem length_byte_ne_zero (hl : l ≠ []) (h : l.length ≤ 63) : UInt8.ofNat l.length ≠ 0 := by
  intro hzero
  have hnat := congrArg UInt8.toNat hzero
  rw [(length_byte h).2] at hnat
  exact hl (List.eq_nil_of_length_eq_zero hnat)

theorem pointer_byte (h : offset < 2 ^ 14) :
    (0xc0 ||| UInt8.ofNat (offset / 256)) &&& 0xc0 ≠ 0 ∧
      (UInt8.ofNat offset).toNat +
        ((0xc0 ||| UInt8.ofNat (offset / 256)) &&& 0x3f).toNat * 256 = offset ∧
      192 ≤ (0xc0 ||| UInt8.ofNat (offset / 256)).toNat := by
  have hbytes : ∀ k < 64, (0xc0 ||| UInt8.ofNat k) &&& 0xc0 ≠ 0 ∧
      ((0xc0 ||| UInt8.ofNat k) &&& 0x3f).toNat = k ∧ 192 ≤ (0xc0 ||| UInt8.ofNat k).toNat := by
    decide
  obtain ⟨hpointer, hhi, hle⟩ := hbytes (offset / 256) (by omega)
  refine ⟨hpointer, ?_, hle⟩
  rw [hhi, UInt8.toNat_ofNat']
  omega

theorem pointer_byte_ne_zero (h : offset < 2 ^ 14) : 0xc0 ||| UInt8.ofNat (offset / 256) ≠ 0 := by
  intro hzero
  exact (pointer_byte h).1 (by rw [hzero]; rfl)

theorem follow_pointer (h : offset < 2 ^ 14) (hdrop : packet.drop offset = m :: tail)
    (query : List UInt8) :
    follow packet (0xc0 ||| UInt8.ofNat (offset / 256)) (UInt8.ofNat offset :: query) =
      some (m, tail) := by
  unfold follow
  rw [if_pos (pointer_byte h).1]
  dsimp only
  rw [(pointer_byte h).2.1, hdrop]

/-! ### Text -/

theorem text_cons (h : ls ≠ []) : text (l :: ls) = l ++ dot :: text ls := by
  cases ls with
  | nil => exact absurd rfl h
  | cons => rfl

theorem length_text (h : ls ≠ []) :
    (text ls).length + 1 = (ls.map fun l => l.length + 1).sum := by
  induction ls with
  | nil => exact absurd rfl h
  | cons l ls ih =>
      by_cases hls : ls = []
      · simp [hls, text]
      · rw [text_cons hls, List.map_cons, List.sum_cons, ← ih hls, List.length_append,
          List.length_cons]
        omega

theorem tolower_eq_dot {c : UInt8} : tolower c = dot ↔ c = dot := by
  unfold tolower dot
  split_ifs with h
  · have hle := UInt8.le_iff_toNat_le.mp h.1
    have hge := UInt8.le_iff_toNat_le.mp h.2
    rw [← UInt8.toNat_inj, ← UInt8.toNat_inj, UInt8.toNat_add]
    simp only [UInt8.reduceToNat] at hle hge ⊢
    omega
  · exact Iff.rfl

theorem sameName_append (h : l.map tolower <+: name.map tolower) :
    SameName name (l ++ t) ↔ SameName (name.drop l.length) t := by
  obtain ⟨r, hr⟩ := h
  have hdrop : (name.drop l.length).map tolower = r := by
    rw [List.map_drop, ← hr, List.drop_left' (List.length_map _)]
  simp only [SameName, List.map_append, hdrop, ← hr, List.append_assoc, List.append_cancel_left_eq]

theorem prefix_of_sameName (h : SameName name (l ++ t)) : l.map tolower <+: name.map tolower := by
  obtain h | h := h
  · rw [h, List.map_append]
    exact List.prefix_append _ _
  · rw [h, List.map_append, List.append_assoc]
    exact List.prefix_append _ _

theorem sameName_cons_dot {c : UInt8} :
    SameName (c :: name) (dot :: t) ↔ c = dot ∧ SameName name t := by
  have hdot : tolower dot = dot := by decide
  simp only [SameName, List.map_cons, List.cons_append, List.cons.injEq, hdot, tolower_eq_dot,
    ← and_or_left]

theorem sameName_nil : SameName name [] ↔ dropDot name = [] := by
  cases name with
  | nil => exact iff_of_true (.inl rfl) rfl
  | cons c name =>
      unfold dropDot
      by_cases hc : c = dot
      · simp [SameName, hc, tolower_eq_dot]
      · simp [SameName, hc, tolower_eq_dot]

/-! ### Labels -/

/-- The labels of a name fit their length byte. -/
def LabelsFit (ls : List (List UInt8)) : Prop :=
  ∀ l ∈ ls, l ≠ [] ∧ l.length ≤ 63

namespace Encoding

theorem exists_bytes_append (e : Encoding) (rest : List UInt8) :
    ∃ n query, e.bytes ++ rest = n :: query := by
  cases e <;> exact ⟨_, _, rfl⟩

theorem eq_zero_of_labels (hpoints : e.PointsAtLabels) (hlabels : e.labels = []) : e = zero := by
  cases e with
  | zero => rfl
  | label l e => cases hlabels
  | pointer offset target =>
      cases target with
      | label l e => cases hlabels
      | zero => exact absurd hpoints.1 id
      | pointer => exact absurd hpoints.1 id

/-- The first label is where the length byte leads, and behind it is an encoding of the others. -/
theorem follow_bytes (hin : e.InPacket packet) (hpoints : e.PointsAtLabels)
    (hlabels : e.labels = l :: ls) (hfit : LabelsFit (l :: ls))
    (hbytes : e.bytes ++ rest = n :: query) :
    n ≠ 0 ∧ ∃ (e' : Encoding) (rest' : List UInt8), e'.labels = ls ∧ e'.InPacket packet ∧
      e'.PointsAtLabels ∧
      follow packet n query = some (UInt8.ofNat l.length, l ++ (e'.bytes ++ rest')) := by
  obtain ⟨hnil, hle⟩ := hfit l List.mem_cons_self
  cases e with
  | zero => cases hlabels
  | label l' e' =>
      cases hlabels
      rw [bytes, List.cons_append, List.append_assoc] at hbytes
      cases hbytes
      exact ⟨length_byte_ne_zero hnil hle, e', rest, rfl, hin, hpoints,
        if_neg (not_not.mpr (length_byte hle).1)⟩
  | pointer offset target =>
      cases target with
      | zero => cases hlabels
      | pointer => exact absurd hpoints.1 id
      | label l' e' =>
          cases hlabels
          rw [bytes, List.cons_append, List.singleton_append] at hbytes
          cases hbytes
          obtain ⟨hlt, ⟨rest', hrest⟩, hin⟩ := hin
          rw [bytes, List.cons_append, List.append_assoc] at hrest
          exact ⟨pointer_byte_ne_zero hlt, e', rest', rfl, hin, hpoints.2,
            follow_pointer hlt hrest.symm rest⟩

theorem head_ne_zero (he : e ≠ zero) (hin : e.InPacket packet) (hfit : LabelsFit e.labels)
    (hbytes : e.bytes ++ rest = n :: query) : n ≠ 0 := by
  cases e with
  | zero => exact absurd rfl he
  | label l e' =>
      cases hbytes
      obtain ⟨hnil, hle⟩ := hfit l List.mem_cons_self
      exact length_byte_ne_zero hnil hle
  | pointer offset target =>
      cases hbytes
      exact pointer_byte_ne_zero hin.1

/-- The length byte is zero behind the last label. -/
theorem head_eq_zero_iff (hin : e.InPacket packet) (hpoints : e.PointsAtLabels)
    (hfit : LabelsFit e.labels) (hbytes : e.bytes ++ rest = n :: query) :
    n = 0 ↔ e.labels = [] := by
  constructor
  · rintro rfl
    cases hlabels : e.labels with
    | nil => rfl
    | cons l ls => exact absurd rfl (follow_bytes hin hpoints hlabels (hlabels ▸ hfit) hbytes).1
  · intro hlabels
    obtain rfl := eq_zero_of_labels hpoints hlabels
    cases hbytes
    rfl

end Encoding

open Encoding

/-! ### Decoding -/

theorem copyLabel_append (h : l.length < len) :
    copyLabel l.length len (l ++ tail) dest = .copied (len - l.length) tail (dest ++ l) := by
  induction l generalizing len dest with
  | nil => simp [copyLabel]
  | cons c l ih =>
      rw [List.length_cons] at h ⊢
      rw [List.cons_append, copyLabel, if_neg (by omega), ih (by omega), List.append_assoc,
        List.singleton_append, Nat.sub_sub, Nat.add_comm 1]

/-- More bytes than `dest` has room for are not copied. -/
theorem copyLabel_ne_copied {k len' : Nat} {query' dest' : List UInt8} (hk : 0 < k) (h : len ≤ k) :
    copyLabel k len query dest ≠ .copied len' query' dest' := by
  induction k generalizing len query dest with
  | zero => exact absurd hk (Nat.lt_irrefl 0)
  | succ k ih =>
      cases query with
      | nil => exact fun h => nomatch h
      | cons c query =>
          unfold copyLabel
          split_ifs with hlen
          · exact fun h => nomatch h
          · exact ih (by omega) (by omega)

theorem decodeLoop_bytes (hlabels : e.labels = ls) (hin : e.InPacket packet)
    (hpoints : e.PointsAtLabels) (hfit : LabelsFit ls) (hbytes : e.bytes ++ rest = n :: query)
    (hlen : (text ls).length < len) (hfuel : (text ls).length < fuel) :
    decodeLoop packet fuel len n query dest = some (true, dest ++ text ls) := by
  induction ls generalizing e fuel len n query dest rest with
  | nil =>
      obtain ⟨fuel, rfl⟩ := Nat.exists_eq_succ_of_ne_zero (Nat.ne_of_gt hfuel)
      have hn : n = 0 := (head_eq_zero_iff hin hpoints (hlabels ▸ hfit) hbytes).mpr hlabels
      rw [decodeLoop, if_pos (.inr hn), text, List.append_nil,
        decide_eq_true (Nat.ne_of_gt (Nat.zero_lt_of_lt hlen))]
  | cons l ls ih =>
      obtain ⟨fuel, rfl⟩ := Nat.exists_eq_succ_of_ne_zero (Nat.ne_of_gt (Nat.zero_lt_of_lt hfuel))
      obtain ⟨hne, e', rest', hlabels', hin', hpoints', hfollow⟩ :=
        follow_bytes hin hpoints hlabels hfit hbytes
      obtain ⟨hnil, hle⟩ := hfit l List.mem_cons_self
      have hfit' : LabelsFit ls := fun l' hl' => hfit l' (List.mem_cons_of_mem l hl')
      have hpos := List.length_pos_iff.mpr hnil
      have htext : l.length ≤ (text (l :: ls)).length := by
        by_cases hls : ls = []
        · subst hls
          exact Nat.le_refl _
        · rw [text_cons hls, List.length_append]
          omega
      obtain ⟨m, tail, hmore⟩ := exists_bytes_append e' rest'
      have hm := head_eq_zero_iff hin' hpoints' (hlabels' ▸ hfit') hmore
      rw [hlabels'] at hm
      rw [decodeLoop, if_neg (by simp [hne]; omega), hfollow]
      dsimp only
      rw [if_neg (length_byte_ne_zero hnil hle), (length_byte hle).2,
        copyLabel_append (by omega), hmore]
      dsimp only
      by_cases hls : ls = []
      · subst hls
        have hroom : (text []).length < len - l.length := Nat.sub_pos_of_lt hlen
        have hmorefuel : (text []).length < fuel :=
          Nat.lt_of_lt_of_le hpos (Nat.le_of_lt_succ hfuel)
        rw [if_pos (hm.mpr rfl), ih hlabels' hin' hpoints' hfit' hmore hroom hmorefuel, text, text,
          List.append_nil]
      · rw [text_cons hls, List.length_append, List.length_cons] at hlen hfuel
        rw [if_neg (mt hm.mp hls), ih hlabels' hin' hpoints' hfit' hmore (by omega) (by omega),
          text_cons hls]
        simp

/-- A pointer to a label reads as the label. -/
theorem decodeLoop_follow (hn : n ≠ 0) (hm : m ≠ 0) (hlabel : m &&& 0xc0 = 0)
    (hfollow : follow packet n query = some (m, tail)) :
    decodeLoop packet fuel len n query dest = decodeLoop packet fuel len m tail dest := by
  have hself : follow packet m tail = some (m, tail) := if_neg (not_not.mpr hlabel)
  cases fuel with
  | zero => rfl
  | succ fuel =>
      unfold decodeLoop
      rw [hfollow, hself]
      simp only [hn, hm]

/-- A length byte for which there is no room fails. -/
theorem decodeLoop_ne_true (hn : n ≠ 0) (hm : m ≠ 0)
    (hfollow : follow packet n query = some (m, tail)) (hfull : len ≤ m.toNat) :
    decodeLoop packet fuel len n query dest ≠ some (true, t) := by
  intro h
  have hpos : 0 < m.toNat := Nat.pos_of_ne_zero fun hzero => hm (UInt8.toNat_inj.mp hzero)
  cases fuel with
  | zero => cases h
  | succ fuel =>
      by_cases hlen : len = 0
      · rw [decodeLoop, if_pos (.inl hlen)] at h
        simp [hlen] at h
      · rw [decodeLoop, if_neg (by simp [hn, hlen]), hfollow] at h
        dsimp only at h
        rw [if_neg hm] at h
        cases hcopy : copyLabel m.toNat len tail dest with
        | outside => simp [hcopy] at h
        | full => simp [hcopy] at h
        | copied => exact copyLabel_ne_copied hpos hfull hcopy

/-- Behind a pointer that does not lead to a label, the text ends with the dot before it if the
name is decoded at all. -/
theorem length_of_decodeLoop (hbad : ¬e.PointsAtLabels) (hin : e.InPacket packet)
    (hfit : LabelsFit e.labels) (hbytes : e.bytes ++ rest = n :: query) (hlen : len ≤ 192)
    (h : decodeLoop packet fuel len n query dest = some (true, t)) :
    t.length = dest.length + (e.labels.map fun l => l.length + 1).sum := by
  induction e generalizing fuel len n query dest rest with
  | zero => exact absurd trivial hbad
  | label l e ih =>
      obtain ⟨hnil, hle⟩ := hfit l List.mem_cons_self
      have hfit' : LabelsFit e.labels := fun l' hl' => hfit l' (List.mem_cons_of_mem l hl')
      have hne : e ≠ zero := by
        rintro rfl
        exact hbad trivial
      obtain ⟨m, tail, hmore⟩ := exists_bytes_append e rest
      have hm := head_ne_zero hne hin hfit' hmore
      rw [bytes, List.cons_append, List.append_assoc, hmore] at hbytes
      cases hbytes
      cases fuel with
      | zero => cases h
      | succ fuel =>
          have hself : follow packet (UInt8.ofNat l.length) (l ++ m :: tail) =
              some (UInt8.ofNat l.length, l ++ m :: tail) :=
            if_neg (not_not.mpr (length_byte hle).1)
          have hbyte := length_byte_ne_zero hnil hle
          by_cases hroom : l.length < len
          · rw [decodeLoop, if_neg (by simp [hbyte]; omega), hself] at h
            dsimp only at h
            rw [if_neg hbyte, (length_byte hle).2, copyLabel_append hroom] at h
            dsimp only at h
            rw [if_neg hm] at h
            rw [ih hbad hin hfit' hmore (by omega) h]
            simp [labels]
            omega
          · have hfull : len ≤ (UInt8.ofNat l.length).toNat := by
              rw [(length_byte hle).2]
              exact Nat.not_lt.mp hroom
            exact absurd h (decodeLoop_ne_true hbyte hbyte hself hfull)
  | pointer offset target ih =>
      rw [bytes, List.cons_append, List.singleton_append] at hbytes
      cases hbytes
      obtain ⟨hlt, ⟨rest', hrest⟩, hin⟩ := hin
      have hpointer := pointer_byte_ne_zero hlt
      obtain ⟨m, tail, htarget⟩ := exists_bytes_append target rest'
      have hfollow := follow_pointer hlt (hrest.symm.trans htarget) rest
      cases target with
      | zero =>
          cases htarget
          cases fuel with
          | zero => cases h
          | succ fuel =>
              unfold decodeLoop at h
              rw [hfollow] at h
              simp only [hpointer, or_false, if_true] at h
              split_ifs at h with hzero
              · simp [hzero] at h
              · simp only [Option.some.injEq, Prod.mk.injEq] at h
                rw [← h.2]
                rfl
      | label l e =>
          cases htarget
          obtain ⟨hnil, hle⟩ := hfit l List.mem_cons_self
          rw [decodeLoop_follow hpointer (length_byte_ne_zero hnil hle) (length_byte hle).1 hfollow]
            at h
          exact ih (fun hpoints => hbad ⟨trivial, hpoints⟩) hin hfit rfl hlen h
      | pointer offset' target =>
          cases htarget
          exact absurd h (decodeLoop_ne_true hpointer (pointer_byte_ne_zero hin.1) hfollow
            (Nat.le_trans hlen (pointer_byte hin.1).2.2))

/-! ### Comparing -/

theorem compareLabel_append (h : l.map tolower <+: name.map tolower) :
    compareLabel l.length (l ++ tail) name = .equal tail (name.drop l.length) := by
  induction l generalizing name with
  | nil => rfl
  | cons q l ih =>
      cases name with
      | nil => simp at h
      | cons c name =>
          rw [List.map_cons, List.map_cons, List.cons_prefix_cons] at h
          rw [List.length_cons, List.cons_append, compareLabel, if_neg (not_not.mpr h.1.symm),
            ih h.2, List.drop_succ_cons]

theorem compareLabel_differs (h : ¬l.map tolower <+: name.map tolower) :
    compareLabel l.length (l ++ tail) name = .differs := by
  induction l generalizing name with
  | nil => exact absurd List.nil_prefix h
  | cons q l ih =>
      cases name with
      | nil => rfl
      | cons c name =>
          rw [List.map_cons, List.map_cons, List.cons_prefix_cons] at h
          rw [List.length_cons, List.cons_append, compareLabel]
          split_ifs with hc
          · rfl
          · exact ih fun htail => h ⟨(not_not.mp hc).symm, htail⟩

theorem isequalLoop_bytes (hlabels : e.labels = ls) (hin : e.InPacket packet)
    (hpoints : e.PointsAtLabels) (hfit : LabelsFit ls) (hbytes : e.bytes ++ rest = n :: query)
    (hfuel : name.length < fuel) :
    isequalLoop packet fuel n query name = some (decide (SameName name (text ls))) := by
  induction ls generalizing e fuel n query name rest with
  | nil =>
      obtain ⟨fuel, rfl⟩ := Nat.exists_eq_succ_of_ne_zero (Nat.ne_of_gt (Nat.zero_lt_of_lt hfuel))
      have hn : n = 0 := (head_eq_zero_iff hin hpoints (hlabels ▸ hfit) hbytes).mpr hlabels
      rw [isequalLoop, if_pos hn, text, decide_eq_decide.mpr sameName_nil]
  | cons l ls ih =>
      obtain ⟨fuel, rfl⟩ := Nat.exists_eq_succ_of_ne_zero (Nat.ne_of_gt (Nat.zero_lt_of_lt hfuel))
      obtain ⟨hne, e', rest', hlabels', hin', hpoints', hfollow⟩ :=
        follow_bytes hin hpoints hlabels hfit hbytes
      obtain ⟨hnil, hle⟩ := hfit l List.mem_cons_self
      have hfit' : LabelsFit ls := fun l' hl' => hfit l' (List.mem_cons_of_mem l hl')
      have hpos := List.length_pos_iff.mpr hnil
      obtain ⟨m, tail, hmore⟩ := exists_bytes_append e' rest'
      have hm := head_eq_zero_iff hin' hpoints' (hlabels' ▸ hfit') hmore
      rw [hlabels'] at hm
      have htext : ∃ t, text (l :: ls) = l ++ t := by
        by_cases hls : ls = []
        · exact ⟨[], by simp [hls, text]⟩
        · exact ⟨_, text_cons hls⟩
      rw [isequalLoop, if_neg hne, hfollow]
      dsimp only
      rw [(length_byte hle).2]
      by_cases hsame : l.map tolower <+: name.map tolower
      · have hlength : l.length ≤ name.length := by simpa using hsame.length_le
        rw [compareLabel_append hsame, hmore]
        dsimp only
        by_cases hls : ls = []
        · subst hls
          rw [if_pos (hm.mpr rfl), ih hlabels' hin' hpoints' hfit' hmore
            (by rw [List.length_drop]; omega)]
          have hiff := sameName_append (t := []) hsame
          rw [List.append_nil] at hiff
          exact congrArg some (decide_eq_decide.mpr hiff.symm)
        · rw [if_neg (mt hm.mp hls), text_cons hls]
          have hiff := sameName_append (t := dot :: text ls) hsame
          cases hname : name.drop l.length with
          | nil =>
              rw [hname] at hiff
              have hdiffers : ¬SameName name (l ++ dot :: text ls) := by
                rw [hiff]
                simp [SameName]
              exact congrArg some (decide_eq_false hdiffers).symm
          | cons c name' =>
              rw [hname, sameName_cons_dot] at hiff
              dsimp only
              split_ifs with hc
              · exact congrArg some (decide_eq_false fun h => hc (hiff.mp h).1).symm
              · have hdrop : (name.drop l.length).length = name'.length + 1 := by rw [hname]; rfl
                rw [List.length_drop] at hdrop
                rw [ih hlabels' hin' hpoints' hfit' hmore (by omega)]
                refine congrArg some (decide_eq_decide.mpr ?_)
                rw [hiff]
                exact ⟨fun h => ⟨not_not.mp hc, h⟩, fun h => h.2⟩
      · rw [compareLabel_differs hsame]
        obtain ⟨t, ht⟩ := htext
        have hdiffers : ¬SameName name (text (l :: ls)) := by
          rw [ht]
          exact fun h => hsame (prefix_of_sameName h)
        exact congrArg some (decide_eq_false hdiffers).symm

/-! ### Skipping and encoding -/

theorem skipLoop_bytes (he : e ≠ zero) (hin : e.InPacket packet) (hfit : LabelsFit e.labels)
    (hfuel : e.bytes.length ≤ fuel) : skipLoop fuel (e.bytes ++ rest) = some rest := by
  induction e generalizing fuel with
  | zero => exact absurd rfl he
  | label l e ih =>
      obtain ⟨hnil, hle⟩ := hfit l List.mem_cons_self
      have hfit' : LabelsFit e.labels := fun l' hl' => hfit l' (List.mem_cons_of_mem l hl')
      obtain ⟨fuel, rfl⟩ := Nat.exists_eq_succ_of_ne_zero (Nat.ne_of_gt (Nat.zero_lt_of_lt hfuel))
      rw [bytes, List.length_cons, List.length_append] at hfuel
      obtain ⟨m, tail, hmore⟩ := exists_bytes_append e rest
      rw [bytes, List.cons_append, List.append_assoc, hmore, skipLoop,
        if_neg (not_not.mpr (length_byte hle).1), (length_byte hle).2, List.drop_left]
      dsimp only
      by_cases hzero : e = zero
      · subst hzero
        cases hmore
        rfl
      · rw [if_neg (head_ne_zero hzero hin hfit' hmore), ← hmore]
        exact ih hzero hin hfit' (by omega)
  | pointer offset target =>
      obtain ⟨fuel, rfl⟩ := Nat.exists_eq_succ_of_ne_zero (Nat.ne_of_gt (Nat.zero_lt_of_lt hfuel))
      exact if_pos (pointer_byte hin.1).1

theorem encodeLoop_append (hdot : ∀ c ∈ l, c ≠ dot) (label : List UInt8) :
    encodeLoop (UInt8.ofNat label.length) label (l ++ t) =
      encodeLoop (UInt8.ofNat (label ++ l).length) (label ++ l) t := by
  induction l generalizing label with
  | nil => rw [List.append_nil, List.nil_append]
  | cons c l ih =>
      have hbyte : UInt8.ofNat label.length + 1 = UInt8.ofNat (label ++ [c]).length := by
        rw [List.length_append, List.length_singleton, UInt8.ofNat_add]
        rfl
      rw [List.cons_append, encodeLoop, if_neg (hdot c List.mem_cons_self), hbyte,
        ih (fun c hc => hdot c (List.mem_cons_of_mem _ hc)), List.append_assoc,
        List.singleton_append]

theorem encodeName_text (hls : ls ≠ []) (hdot : ∀ l ∈ ls, ∀ c ∈ l, c ≠ dot) :
    encodeName (text ls) = (plain ls).bytes := by
  induction ls with
  | nil => exact absurd rfl hls
  | cons l ls ih =>
      have hl (t : List UInt8) : encodeName (l ++ t) = encodeLoop (UInt8.ofNat l.length) l t :=
        encodeLoop_append (hdot l List.mem_cons_self) []
      by_cases hmore : ls = []
      · subst hmore
        have hnil := hl []
        rw [List.append_nil] at hnil
        exact hnil
      · rw [text_cons hmore, hl, encodeLoop, if_pos rfl]
        exact congrArg (fun b => UInt8.ofNat l.length :: (l ++ b))
          (ih hmore fun l' hl' => hdot l' (List.mem_cons_of_mem l hl'))

theorem labels_plain (ls : List (List UInt8)) : (plain ls).labels = ls := by
  induction ls with
  | nil => rfl
  | cons l ls ih => exact congrArg (l :: ·) ih

theorem inPacket_plain (packet : List UInt8) (ls : List (List UInt8)) :
    (plain ls).InPacket packet := by
  induction ls with
  | nil => trivial
  | cons l ls ih => exact ih

theorem pointsAtLabels_plain (ls : List (List UInt8)) : (plain ls).PointsAtLabels := by
  induction ls with
  | nil => trivial
  | cons l ls ih => exact ih

/-! ### The main result -/

theorem HostName.fit (h : HostName ls) : LabelsFit ls :=
  h.label

theorem HostName.text_ne_nil (h : HostName ls) : text ls ≠ [] := by
  cases ls with
  | nil => exact absurd rfl h.nonempty
  | cons l ls =>
      have hl := (h.label l List.mem_cons_self).1
      by_cases hls : ls = []
      · subst hls
        exact hl
      · rw [text_cons hls]
        exact List.append_ne_nil_of_left_ne_nil hl _

/-- A host name is read as it is exactly if no pointer in its encoding leads elsewhere than to a
label. -/
theorem conforms_bytes_iff (hin : e.InPacket packet) (hname : HostName e.labels)
    (rest : List UInt8) :
    Conforms packet (e.bytes ++ rest) (text e.labels) rest ↔ e.PointsAtLabels := by
  have hne : e ≠ zero := by
    rintro rfl
    exact hname.nonempty rfl
  obtain ⟨n, query, hbytes⟩ := exists_bytes_append e rest
  constructor
  · intro h
    by_contra hbad
    have hdecode := h.decode
    rw [hbytes] at hdecode
    have hlength := length_of_decodeLoop hbad hin hname.fit hbytes (by decide) hdecode
    rw [← length_text hname.nonempty, List.length_nil] at hlength
    omega
  · intro hpoints
    refine ⟨?_, ?_, fun name => ?_⟩
    · exact skipLoop_bytes hne hin hname.fit (by simp)
    · rw [hbytes]
      exact decodeLoop_bytes rfl hin hpoints hname.fit hbytes hname.length
        (Nat.lt_succ_of_lt hname.length)
    · rw [hbytes, dnsNameIsequal]
      split_ifs with hnil
      · subst hnil
        have hdiffers : ¬SameName [] (text e.labels) := by
          simp [SameName, hname.text_ne_nil]
        exact congrArg some (decide_eq_false hdiffers).symm
      · exact isequalLoop_bytes rfl hin hpoints hname.fit hbytes (by omega)

/-- The functions agree on what `encode_name` writes, and on an encoding with pointers exactly if
these lead to labels. -/
theorem name_conforms_iff (packet rest : List UInt8) :
    (∀ ls : List (List UInt8), HostName ls →
      Conforms packet (encodeName (text ls) ++ rest) (text ls) rest) ∧
    ∀ e : Encoding, e.InPacket packet → HostName e.labels →
      (Conforms packet (e.bytes ++ rest) (text e.labels) rest ↔ e.PointsAtLabels) := by
  refine ⟨fun ls hname => ?_, fun e hin hname => conforms_bytes_iff hin hname rest⟩
  rw [encodeName_text hname.nonempty fun l hl c hc => (hname.char l hl c hc).1]
  have hlabels := labels_plain ls
  have hconforms := (conforms_bytes_iff (inPacket_plain packet ls)
    (hlabels.symm ▸ hname) rest).mpr (pointsAtLabels_plain ls)
  rw [hlabels] at hconforms
  exact hconforms

/-- `a.com` with a pointer to the encoding of `com`. -/
theorem name_conforms_compressed :
    Conforms [] (encodeName [0x61, dot, 0x63, 0x6f, 0x6d] ++ []) [0x61, dot, 0x63, 0x6f, 0x6d] [] ∧
      Conforms [3, 0x63, 0x6f, 0x6d, 0, 1, 0x61, 0xc0, 0] [1, 0x61, 0xc0, 0]
        [0x61, dot, 0x63, 0x6f, 0x6d] [] := by
  have hname : HostName [[0x61], [0x63, 0x6f, 0x6d]] :=
    ⟨by decide, by decide, by simp [dot], by decide⟩
  refine ⟨(name_conforms_iff [] []).1 [[0x61], [0x63, 0x6f, 0x6d]] hname, ?_⟩
  exact ((name_conforms_iff [3, 0x63, 0x6f, 0x6d, 0, 1, 0x61, 0xc0, 0] []).2
    (.label [0x61] (.pointer 0 (plain [[0x63, 0x6f, 0x6d]])))
    ⟨by decide, by decide, trivial⟩ hname).mpr ⟨trivial, trivial⟩

/-- `a` with a pointer to the zero byte. -/
theorem not_name_conforms_root :
    ¬∀ (packet : List UInt8) (e : Encoding) (rest : List UInt8), e.bytes ++ rest <:+ packet →
      e.InPacket packet → HostName e.labels →
        Conforms packet (e.bytes ++ rest) (text e.labels) rest := by
  intro h
  have hdecode := (h [0, 1, 0x61, 0xc0, 0] (.label [0x61] (.pointer 0 zero)) []
    ⟨[0], rfl⟩ ⟨by decide, by decide, trivial⟩
    ⟨by decide, by decide, by simp [labels, dot], by decide⟩).decode
  exact absurd hdecode (by decide)

end Calipso.Resolv
