import Calipso.Wire.Memory
import Mathlib.Tactic.Ring

/-!
# Information elements

Elements in a row: each one has an identifier, the length of its body, and the
body. A row may end with an element that is cut off or with a single byte; these
are not elements of it.
-/

namespace Calipso.Wire

/-- An element in memory: where its body starts and how long it is. -/
structure Element where
  id : UInt8
  pos : Int
  len : Nat
deriving DecidableEq

/-- The complete elements in the `left` bytes from `pos` on. -/
def elements (m : Memory UInt8) (pos : Int) (left : Nat) : List Element :=
  if 2 ≤ left then
    if (m (pos + 1)).toNat ≤ left - 2 then
      ⟨m pos, pos + 2, (m (pos + 1)).toNat⟩ ::
        elements m (pos + 2 + (m (pos + 1)).toNat) (left - 2 - (m (pos + 1)).toNat)
    else []
  else []
termination_by left

/-- What is left behind the complete elements: where it starts and how long it is. -/
def afterElements (m : Memory UInt8) (pos : Int) (left : Nat) : Int × Nat :=
  if 2 ≤ left then
    if (m (pos + 1)).toNat ≤ left - 2 then
      afterElements m (pos + 2 + (m (pos + 1)).toNat) (left - 2 - (m (pos + 1)).toNat)
    else (pos, left)
  else (pos, left)
termination_by left

/-- Behind the complete elements one is cut off: its length is more than what is left. -/
def Overruns (m : Memory UInt8) (pos : Int) (left : Nat) : Prop :=
  2 ≤ (afterElements m pos left).2 ∧
    (afterElements m pos left).2 - 2 < (m ((afterElements m pos left).1 + 1)).toNat

/-- The first complete element with the identifier. -/
def firstElement (m : Memory UInt8) (pos : Int) (left : Nat) (id : UInt8) : Option Element :=
  (elements m pos left).find? (·.id = id)

/-- The bytes of a row of elements. -/
def encodeElements (l : List (UInt8 × List UInt8)) : List UInt8 :=
  l.flatMap fun e => e.1 :: UInt8.ofNat e.2.length :: e.2

variable {m : Memory UInt8} {pos : Int} {left : Nat} {id : UInt8} {e : Element}

theorem elements_of_lt_two (h : left < 2) : elements m pos left = [] := by
  rw [elements, if_neg (by omega)]

theorem elements_of_cut (h : left - 2 < (m (pos + 1)).toNat) : elements m pos left = [] := by
  rw [elements]
  split
  · rw [if_neg (by omega)]
  · rfl

theorem elements_cons (h : 2 ≤ left) (hn : (m (pos + 1)).toNat ≤ left - 2) :
    elements m pos left = ⟨m pos, pos + 2, (m (pos + 1)).toNat⟩ ::
      elements m (pos + 2 + (m (pos + 1)).toNat) (left - 2 - (m (pos + 1)).toNat) := by
  rw [elements, if_pos h, if_pos hn]

/-- An element lies within the bytes it is read from. -/
theorem inside_of_mem_elements (he : e ∈ elements m pos left) :
    pos + 2 ≤ e.pos ∧ e.pos + e.len ≤ pos + left := by
  induction pos, left using elements.induct m with
  | case1 pos left h hn ih =>
      rw [elements_cons h hn] at he
      rcases List.mem_cons.mp he with rfl | he
      · constructor
        · exact le_rfl
        · push_cast
          omega
      · have hrest := ih he
        omega
  | case2 pos left h hn =>
      rw [elements_of_cut (by omega)] at he
      simp at he
  | case3 pos left h =>
      rw [elements_of_lt_two (by omega)] at he
      simp at he

/-- In front of the body of an element stand its identifier and its length. -/
theorem header_of_mem_elements (he : e ∈ elements m pos left) :
    m (e.pos - 2) = e.id ∧ (m (e.pos - 1)).toNat = e.len := by
  induction pos, left using elements.induct m with
  | case1 pos left h hn ih =>
      rw [elements_cons h hn] at he
      rcases List.mem_cons.mp he with rfl | he
      · constructor
        · rw [add_sub_cancel_right]
        · rw [show pos + 2 - 1 = pos + 1 by omega]
      · exact ih he
  | case2 pos left h hn =>
      rw [elements_of_cut (by omega)] at he
      cases he
  | case3 pos left h =>
      rw [elements_of_lt_two (by omega)] at he
      cases he

theorem afterElements_of_lt_two (h : left < 2) : afterElements m pos left = (pos, left) := by
  rw [afterElements, if_neg (by omega)]

theorem afterElements_of_cut (h : left - 2 < (m (pos + 1)).toNat) :
    afterElements m pos left = (pos, left) := by
  rw [afterElements]
  split
  · rw [if_neg (by omega)]
  · rfl

theorem afterElements_cons (h : 2 ≤ left) (hn : (m (pos + 1)).toNat ≤ left - 2) :
    afterElements m pos left =
      afterElements m (pos + 2 + (m (pos + 1)).toNat) (left - 2 - (m (pos + 1)).toNat) := by
  rw [afterElements, if_pos h, if_pos hn]

/-- What is left ends where the bytes end. -/
theorem afterElements_end (m : Memory UInt8) (pos : Int) (left : Nat) :
    pos ≤ (afterElements m pos left).1 ∧
      (afterElements m pos left).1 + (afterElements m pos left).2 = pos + left := by
  induction pos, left using elements.induct m with
  | case1 pos left h hn ih =>
      rw [afterElements_cons h hn]
      omega
  | case2 pos left h hn =>
      rw [afterElements_of_cut (by omega)]
      exact ⟨le_rfl, rfl⟩
  | case3 pos left h =>
      rw [afterElements_of_lt_two (by omega)]
      exact ⟨le_rfl, rfl⟩

/-- Two bytes or more are left only if they are the start of an element that is cut off. -/
theorem overruns_iff : Overruns m pos left ↔ 2 ≤ (afterElements m pos left).2 := by
  refine ⟨And.left, fun h => ⟨h, ?_⟩⟩
  induction pos, left using elements.induct m with
  | case1 pos left h2 hn ih =>
      rw [afterElements_cons h2 hn] at h ⊢
      exact ih h
  | case2 pos left h2 hn =>
      rw [afterElements_of_cut (by omega)]
      exact not_le.mp hn
  | case3 pos left h2 =>
      rw [afterElements_of_lt_two (by omega)] at h
      exact absurd h h2

/-- The complete elements end where what is left starts. -/
theorem elements_end (he : e ∈ elements m pos left) :
    e.pos + e.len ≤ (afterElements m pos left).1 := by
  induction pos, left using elements.induct m with
  | case1 pos left h hn ih =>
      rw [elements_cons h hn] at he
      rw [afterElements_cons h hn]
      rcases List.mem_cons.mp he with rfl | he
      · exact (afterElements_end m _ _).1
      · exact ih he
  | case2 pos left h hn =>
      rw [elements_of_cut (by omega)] at he
      cases he
  | case3 pos left h =>
      rw [elements_of_lt_two (by omega)] at he
      cases he

/-- The elements do not depend on what stands behind the header of the one that is cut off,
nor on how much that is, as long as it is too little. -/
theorem elements_congr {m' : Memory UInt8} {left' rest' : Nat} (h : Overruns m pos left)
    (hsame : ∀ a, pos ≤ a → a < (afterElements m pos left).1 + 2 → m' a = m a)
    (hleft : pos + left' = (afterElements m pos left).1 + rest') (htwo : 2 ≤ rest')
    (hcut : rest' - 2 < (m ((afterElements m pos left).1 + 1)).toNat) :
    elements m' pos left' = elements m pos left ∧
      afterElements m' pos left' = ((afterElements m pos left).1, rest') := by
  induction pos, left using elements.induct m generalizing left' with
  | case1 pos left h2 hn ih =>
      rw [Overruns, afterElements_cons h2 hn] at h
      rw [afterElements_cons h2 hn] at hsame hleft hcut ⊢
      have hend := (afterElements_end m (pos + 2 + (m (pos + 1)).toNat)
        (left - 2 - (m (pos + 1)).toNat)).1
      have hid : m' pos = m pos := hsame pos le_rfl (by omega)
      have hlen : m' (pos + 1) = m (pos + 1) := hsame (pos + 1) (by omega) (by omega)
      have hrest : pos + 2 + (m (pos + 1)).toNat + (left' - 2 - (m (pos + 1)).toNat : Nat) =
          (afterElements m (pos + 2 + (m (pos + 1)).toNat)
            (left - 2 - (m (pos + 1)).toNat)).1 + rest' := by
        omega
      obtain ⟨hels, hafter⟩ := ih h (fun a ha => hsame a (by omega)) hrest hcut
      have h2' : 2 ≤ left' := by omega
      have hn' : (m' (pos + 1)).toNat ≤ left' - 2 := by
        rw [hlen]
        omega
      rw [elements_cons h2' hn', elements_cons h2 hn, afterElements_cons h2' hn', hlen, hid,
        hels, hafter]
      exact ⟨rfl, rfl⟩
  | case2 pos left h2 hn =>
      have hafter : afterElements m pos left = (pos, left) :=
        afterElements_of_cut (not_le.mp hn)
      rw [hafter] at hsame hleft hcut ⊢
      have hlen : m' (pos + 1) = m (pos + 1) := hsame (pos + 1) (by omega) (by omega)
      obtain rfl : left' = rest' := by omega
      have hcut' : left' - 2 < (m' (pos + 1)).toNat := by
        rw [hlen]
        exact hcut
      rw [elements_of_cut hcut', afterElements_of_cut hcut', elements_of_cut (not_le.mp hn)]
      exact ⟨rfl, rfl⟩
  | case3 pos left h2 =>
      rw [Overruns, afterElements_of_lt_two (by omega)] at h
      exact absurd h.1 h2

theorem firstElement_mem (h : firstElement m pos left id = some e) :
    e ∈ elements m pos left ∧ e.id = id := by
  constructor
  · exact List.mem_of_find?_eq_some h
  · simpa using List.find?_some h

theorem firstElement_cons (h : 2 ≤ left) (hn : (m (pos + 1)).toNat ≤ left - 2) :
    firstElement m pos left id =
      if m pos = id then some ⟨m pos, pos + 2, (m (pos + 1)).toNat⟩
      else firstElement m (pos + 2 + (m (pos + 1)).toNat) (left - 2 - (m (pos + 1)).toNat) id := by
  rw [firstElement, elements_cons h hn, List.find?_cons]
  by_cases hid : m pos = id
  · simp [hid]
  · simp [hid, firstElement]

theorem encodeElements_cons (id : UInt8) (body : List UInt8) (l : List (UInt8 × List UInt8)) :
    encodeElements ((id, body) :: l) =
      id :: UInt8.ofNat body.length :: (body ++ encodeElements l) := by
  simp [encodeElements]

/-- What was laid out as a row of elements is found again, whatever stands behind
the row. -/
theorem firstElement_encode {l : List (UInt8 × List UInt8)} {rest body : List UInt8}
    (hw : window m pos left = encodeElements l ++ rest)
    (hlen : ∀ e ∈ l, e.2.length < 256)
    (hfind : l.find? (fun e => e.1 = id) = some (id, body)) :
    ∃ e, firstElement m pos left id = some e ∧ e.len = body.length ∧
      window m e.pos e.len = body := by
  induction l generalizing pos left with
  | nil => simp at hfind
  | cons x l ih =>
      obtain ⟨xid, xbody⟩ := x
      have hx : xbody.length < 256 := hlen (xid, xbody) (by simp)
      rw [encodeElements_cons] at hw
      have hbytes : left = 2 + (xbody.length + ((encodeElements l).length + rest.length)) := by
        have h := congrArg List.length hw
        rw [length_window] at h
        simp only [List.cons_append, List.length_cons, List.append_assoc, List.length_append] at h
        omega
      have hid : m pos = xid := by
        have h := apply_of_window hw (i := 0) rfl
        simpa using h
      have hn : (m (pos + 1)).toNat = xbody.length := by
        have h := apply_of_window hw (i := 1) rfl
        rw [Nat.cast_one] at h
        rw [h, UInt8.toNat_ofNat_of_lt' hx]
      rw [firstElement_cons (by omega) (by omega), hid, hn]
      by_cases h : xid = id
      · have hbody : xbody = body := by
          simpa [h] using hfind
        refine ⟨_, if_pos h, by rw [hbody], ?_⟩
        rw [← hbody]
        exact window_of_append [xid, UInt8.ofNat xbody.length] (encodeElements l ++ rest) hw
          (by simp) rfl rfl
      · rw [if_neg h]
        have hrest : window m (pos + 2 + xbody.length) (left - 2 - xbody.length) =
            encodeElements l ++ rest :=
          window_of_append (xid :: UInt8.ofNat xbody.length :: xbody) [] hw (by simp)
            (by simp only [List.length_cons]; push_cast; ring)
            (by rw [List.length_append]; omega)
        apply ih hrest
        · intro e he
          exact hlen e (List.mem_cons_of_mem _ he)
        · simpa [h] using hfind

end Calipso.Wire
