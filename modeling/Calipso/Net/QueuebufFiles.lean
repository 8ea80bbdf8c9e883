import Calipso.Net.Queuebuf

/-!
# The swap files of queue buffers

The invariant of the swap files is about the list of the swap ids in use: ids are taken in turn, and
a file is entered again only when none of its ids is in use, so that an id is never given twice.
-/

namespace Calipso.Net

open Wire Memory

namespace Qbuf

variable {cfg : Config} {outside : Wire.Memory UInt8} {ans : Answers} {s s' : State}

/-! ### Swap files -/

/-- The answers of a file system that does what it is asked to. -/
structure Answers.Good (ans : Answers) : Prop where
  opens : ∀ f, ans.opens f = true
  read : ans.read = none
  write : ans.write = none

variable {file file' : Nat → QbufFile} {next n f : Nat} {I I' : List Nat}

/-- The record with a swap id. -/
def recordOf (file : Nat → QbufFile) (n : Nat) : Option Data :=
  (file (n / 256)).record (n % 256)

@[simp] theorem setFile_self (s : State) (f : Nat) (x : QbufFile) : (setFile s f x).file f = x :=
  Function.update_self ..

theorem setFile_of_ne {g : Nat} (h : g ≠ f) (x : QbufFile) :
    (setFile s f x).file g = s.file g :=
  Function.update_of_ne h ..

theorem recordOf_setFile {x : QbufFile} (hx : x.record = (s.file f).record) (n : Nat) :
    recordOf (setFile s f x).file n = recordOf s.file n := by
  rw [recordOf, recordOf]
  by_cases hf : n / 256 = f
  · rw [hf, setFile_self, hx]
  · rw [setFile_of_ne hf]

/-- The swap files while the ids of `I` are in use. -/
structure Files (file : Nat → QbufFile) (next : Nat) (I : List Nat) : Prop where
  nodup : I.Nodup
  lt : ∀ n ∈ I, n < 1024
  fd : ∀ f, (file f).fd = true
  usage : ∀ f, (file f).usage = (I.countP fun n => n / 256 = f : Nat)
  renewable : ∀ f, (file f).renewable = true →
    (file f).usage = 0 ∧ (f = next / 256 → next % 256 = 0)
  fresh : next % 256 ≠ 0 → ∀ n ∈ I, n / 256 = next / 256 → n < next
  next_lt : next < 1024

theorem Files.perm (h : Files file next I) (hp : I.Perm I') : Files file next I' where
  nodup := hp.nodup h.nodup
  lt n hn := h.lt n (hp.mem_iff.mpr hn)
  fd := h.fd
  usage f := by rw [h.usage f, hp.countP_eq]
  renewable := h.renewable
  fresh hnext n hn := h.fresh hnext n (hp.mem_iff.mpr hn)
  next_lt := h.next_lt

/-- No id of a file without use is in use. -/
theorem Files.ne_of_usage (h : Files file next I) (hf : (file f).usage = 0) (hn : n ∈ I) :
    n / 256 ≠ f := by
  intro hnf
  have hzero : (I.countP fun n => n / 256 = f) = 0 := by
    have := h.usage f
    omega
  exact List.countP_eq_zero.mp hzero n hn (decide_eq_true hnf)

theorem Files.congr (h : Files file next I)
    (hfile : ∀ f, (file' f).fd = (file f).fd ∧ (file' f).usage = (file f).usage ∧
      ((file' f).renewable = true → (file f).renewable = true)) : Files file' next I where
  nodup := h.nodup
  lt := h.lt
  fd f := (hfile f).1.trans (h.fd f)
  usage f := (hfile f).2.1.trans (h.usage f)
  renewable f hf := by
    rw [(hfile f).2.1]
    exact h.renewable f ((hfile f).2.2 hf)
  fresh := h.fresh
  next_lt := h.next_lt

/-- A file is renewed: no id in use has its record there. -/
theorem Files.renewFile (h : Files s.file next I) (hopens : ∀ f, ans.opens f = true)
    (hf : (s.file f).renewable = true) :
    Files (renewFile ans s f).file next I ∧
      ∀ n ∈ I, recordOf (renewFile ans s f).file n = recordOf s.file n := by
  have hzero := (h.renewable f hf).1
  refine ⟨h.congr fun g => ?_, fun n hn => ?_⟩
  · by_cases hg : g = f
    · subst hg
      rw [Qbuf.renewFile, setFile_self, h.fd, hzero]
      exact ⟨hopens g, rfl, fun h => absurd h Bool.false_ne_true⟩
    · rw [Qbuf.renewFile, setFile_of_ne hg]
      exact ⟨rfl, rfl, id⟩
  · rw [recordOf, Qbuf.renewFile, setFile_of_ne (h.ne_of_usage hzero hn), recordOf]

/-- An id is given back. -/
theorem Files.remove (h : Files file next (n :: I))
    (hfile : ∀ f, (file' f).fd = (file f).fd ∧
      (file' f).usage = (file f).usage - (if f = n / 256 then 1 else 0) ∧
      ((file' f).renewable = true → (file f).renewable = true ∨
        (file' f).usage = 0 ∧ f ≠ next / 256)) : Files file' next I where
  nodup := (List.nodup_cons.mp h.nodup).2
  lt k hk := h.lt k (List.mem_cons_of_mem n hk)
  fd f := (hfile f).1.trans (h.fd f)
  usage f := by
    rw [(hfile f).2.1, h.usage f, List.countP_cons]
    by_cases hf : f = n / 256
    · rw [if_pos hf, if_pos (decide_eq_true hf.symm)]
      push_cast
      omega
    · rw [if_neg hf, if_neg (by simpa using Ne.symm hf)]
      simp
  renewable f hf := by
    rcases (hfile f).2.2 hf with hold | ⟨hzero, hne⟩
    · obtain ⟨hzero, hnext⟩ := h.renewable f hold
      refine ⟨?_, hnext⟩
      have hne := h.ne_of_usage hzero List.mem_cons_self
      rw [(hfile f).2.1, hzero, if_neg (Ne.symm hne)]
      rfl
    · exact ⟨hzero, fun hfn => absurd hfn hne⟩
  fresh hnext k hk := h.fresh hnext k (List.mem_cons_of_mem n hk)
  next_lt := h.next_lt

/-- The next id is taken: it is the first one of a file without use, or none of the ids in use in its
file is so high. -/
theorem Files.take (h : Files file next I) (hfree : next % 256 = 0 → (file (next / 256)).usage = 0)
    (hrenewable : (file (next / 256)).renewable = false)
    (hfile : ∀ f, (file' f).fd = (file f).fd ∧ (file' f).renewable = (file f).renewable ∧
      (file' f).usage = (file f).usage + (if f = next / 256 then 1 else 0)) :
    Files file' ((next + 1) % 1024) (next :: I) := by
  have hlt := h.next_lt
  have hnot : ∀ n ∈ I, n / 256 = next / 256 → n < next := by
    intro n hn hdiv
    by_cases hmod : next % 256 = 0
    · exact absurd hdiv (h.ne_of_usage (hfree hmod) hn)
    · exact h.fresh hmod n hn hdiv
  refine ⟨List.nodup_cons.mpr ⟨fun hn => Nat.lt_irrefl _ (hnot next hn rfl), h.nodup⟩,
    fun n hn => ?_, fun f => (hfile f).1.trans (h.fd f), fun f => ?_, fun f hf => ?_,
    fun hmod n hn hdiv => ?_, Nat.mod_lt _ (by decide)⟩
  · rcases List.mem_cons.mp hn with rfl | hn
    · exact hlt
    · exact h.lt n hn
  · rw [(hfile f).2.2, h.usage f, List.countP_cons]
    by_cases hf : f = next / 256
    · rw [if_pos hf, if_pos (decide_eq_true hf.symm)]
      rfl
    · rw [if_neg hf, if_neg (by simpa using Ne.symm hf)]
      simp
  · rw [(hfile f).2.1] at hf
    obtain ⟨hzero, -⟩ := h.renewable f hf
    have hne : f ≠ next / 256 := by
      rintro rfl
      rw [hrenewable] at hf
      exact Bool.false_ne_true hf
    rw [(hfile f).2.2, hzero, if_neg hne]
    exact ⟨rfl, fun _ => by omega⟩
  · rcases List.mem_cons.mp hn with rfl | hn
    · omega
    · have hsame : (next + 1) % 1024 = next + 1 := by
        omega
      rw [hsame] at hmod hdiv ⊢
      exact Nat.lt_succ_of_lt (hnot n hn (by omega))

theorem takeSwapId_eq (h : Files s.file s.nextSwapId I)
    (hfree : s.nextSwapId % 256 = 0 → (s.file (s.nextSwapId / 256)).usage = 0)
    (hrenewable : (s.file (s.nextSwapId / 256)).renewable = false) :
    ∃ file, takeSwapId s = ((s.nextSwapId : Int),
        { s with file := file, nextSwapId := (s.nextSwapId + 1) % 1024 }) ∧
      Files file ((s.nextSwapId + 1) % 1024) (s.nextSwapId :: I) ∧
      ∀ n, recordOf file n = recordOf s.file n := by
  refine ⟨_, rfl, h.take hfree hrenewable fun f => ?_, fun n => recordOf_setFile (by rfl) n⟩
  by_cases hf : f = s.nextSwapId / 256
  · subst hf
    rw [setFile_self, if_pos rfl]
    exact ⟨rfl, rfl, rfl⟩
  · rw [setFile_of_ne hf, if_neg hf, add_zero]
    exact ⟨rfl, rfl, rfl⟩

/-- The next id is taken, after its file was renewed, or is the first one of a file in use. -/
theorem getNewSwapId_eq (h : Files s.file s.nextSwapId I) (hopens : ∀ f, ans.opens f = true) :
    (getNewSwapId ans s = (-1, s) ∧ s.nextSwapId % 256 = 0 ∧
      (s.file (s.nextSwapId / 256)).usage ≠ 0) ∨
    ∃ file, getNewSwapId ans s = ((s.nextSwapId : Int),
        { s with file := file, nextSwapId := (s.nextSwapId + 1) % 1024 }) ∧
      Files file ((s.nextSwapId + 1) % 1024) (s.nextSwapId :: I) ∧
      ∀ n ∈ I, recordOf file n = recordOf s.file n := by
  by_cases hfirst : s.nextSwapId % 256 = 0
  · by_cases hrenewable : (s.file (s.nextSwapId / 256)).renewable = true
    · right
      obtain ⟨hfiles, hrecord⟩ := h.renewFile hopens hrenewable
      have hzero : ((renewFile ans s (s.nextSwapId / 256)).file (s.nextSwapId / 256)).usage = 0 := by
        rw [renewFile, setFile_self]
      have hrenewed :
          ((renewFile ans s (s.nextSwapId / 256)).file (s.nextSwapId / 256)).renewable = false := by
        rw [renewFile, setFile_self]
      obtain ⟨file, htake, hfiles', hrecord'⟩ := takeSwapId_eq hfiles (fun _ => hzero) hrenewed
      refine ⟨file, ?_, hfiles', fun n hn => (hrecord' n).trans (hrecord n hn)⟩
      simp only [getNewSwapId, if_pos hfirst, if_pos hrenewable, hzero, lt_irrefl, if_false]
      exact htake
    · by_cases hzero : (s.file (s.nextSwapId / 256)).usage = 0
      · right
        obtain ⟨file, htake, hfiles, hrecord⟩ := takeSwapId_eq h (fun _ => hzero)
          (Bool.eq_false_iff.mpr hrenewable)
        refine ⟨file, ?_, hfiles, fun n _ => hrecord n⟩
        simp only [getNewSwapId, if_pos hfirst, if_neg hrenewable, hzero, lt_irrefl, if_false]
        exact htake
      · left
        refine ⟨?_, hfirst, hzero⟩
        have hpos : 0 < (s.file (s.nextSwapId / 256)).usage := by
          have := h.usage (s.nextSwapId / 256)
          omega
        simp only [getNewSwapId, if_pos hfirst, if_neg hrenewable, if_pos hpos]
  · right
    have hrenewable : (s.file (s.nextSwapId / 256)).renewable = false := by
      by_contra hne
      exact hfirst ((h.renewable _ (Bool.not_eq_false _ ▸ hne)).2 rfl)
    obtain ⟨file, htake, hfiles, hrecord⟩ := takeSwapId_eq h (fun hmod => absurd hmod hfirst)
      hrenewable
    refine ⟨file, ?_, hfiles, fun n _ => hrecord n⟩
    rw [getNewSwapId, if_neg hfirst]
    exact htake

/-- A record is written. -/
theorem writeRecord_eq (h : Files s.file s.nextSwapId I) (hwrite : ans.write = none) (n : Nat) :
    ∃ file, writeRecord ans s n = (true, { s with file := file }) ∧
      Files file s.nextSwapId I ∧ recordOf file n = some s.tmpdata ∧
      ∀ k, k ≠ n → recordOf file k = recordOf s.file k := by
  obtain ⟨x, hx⟩ : ∃ x : QbufFile, x = { s.file (n / 256) with
      record := Function.update (s.file (n / 256)).record (n % 256) (some s.tmpdata) } := ⟨_, rfl⟩
  have hrun : writeRecord ans s n = (true, setFile s (n / 256) x) := by
    unfold writeRecord
    rw [if_pos (h.fd _), hwrite, hx]
  refine ⟨(setFile s (n / 256) x).file, hrun, h.congr fun f => ?_, ?_, fun k hk => ?_⟩
  · by_cases hf : f = n / 256
    · subst hf
      rw [setFile_self, hx]
      exact ⟨rfl, rfl, id⟩
    · rw [setFile_of_ne hf]
      exact ⟨rfl, rfl, id⟩
  · rw [recordOf, setFile_self, hx]
    exact Function.update_self ..
  · rw [recordOf, recordOf]
    by_cases hf : k / 256 = n / 256
    · rw [hf, setFile_self, hx]
      exact Function.update_of_ne (by omega) ..
    · rw [setFile_of_ne hf]

theorem forgetSwapId_eq {t : Nat} (ht : s.tmpdataQbuf = some t) (id : Int) :
    forgetSwapId cfg s id = some (if swapIdOf cfg s t = id then setSwapId s t (-1) else s) := by
  rw [forgetSwapId, ht]

/-- An id is given back: `tmpdata_qbuf` forgets it. -/
theorem removeFromFile_eq (cfg : Config) {t : Nat} (hn : n < 1024) (ht : s.tmpdataQbuf = some t)
    (h : Files s.file s.nextSwapId (n :: I)) :
    ∃ file timer, removeFromFile cfg s n = some
        (if swapIdOf cfg s t = n then setSwapId { s with file := file, timer := timer } t (-1)
          else { s with file := file, timer := timer }) ∧
      Files file s.nextSwapId I ∧ ∀ k, recordOf file k = recordOf s.file k := by
  obtain ⟨x, hx⟩ : ∃ x : QbufFile, x = { s.file (n / 256) with
      usage := (s.file (n / 256)).usage - 1 } := ⟨_, rfl⟩
  have hrun : removeFromFile cfg s n = forgetSwapId cfg
      (if x.usage = 0 ∧ n / 256 ≠ s.nextSwapId / 256 then
        markRenewable (setFile s (n / 256) x) (n / 256) else setFile s (n / 256) x) n := by
    unfold removeFromFile
    rw [if_neg (by omega), if_neg (by omega), Int.toNat_natCast, hx]
    simp only [setFile_self]
    rfl
  by_cases hlast : x.usage = 0 ∧ n / 256 ≠ s.nextSwapId / 256
  · rw [if_pos hlast, forgetSwapId_eq (by exact ht)] at hrun
    refine ⟨(markRenewable (setFile s (n / 256) x) (n / 256)).file, true, hrun,
      h.remove fun f => ?_, fun k => ?_⟩
    · by_cases hf : f = n / 256
      · subst hf
        have hfile : (markRenewable (setFile s (n / 256) x) (n / 256)).file (n / 256) =
            { x with renewable := true } := by
          show (setFile _ _ _).file _ = _
          rw [setFile_self, setFile_self]
        rw [hfile, if_pos rfl]
        exact ⟨by rw [hx], by rw [hx], fun _ => .inr hlast⟩
      · have hfile : (markRenewable (setFile s (n / 256) x) (n / 256)).file f = s.file f := by
          show (setFile _ _ _).file _ = _
          rw [setFile_of_ne hf, setFile_of_ne hf]
        rw [hfile, if_neg hf, sub_zero]
        exact ⟨rfl, rfl, .inl⟩
    · show recordOf (setFile _ _ _).file k = _
      rw [recordOf_setFile (by rfl), recordOf_setFile (by rw [hx])]
  · rw [if_neg hlast, forgetSwapId_eq (by exact ht)] at hrun
    refine ⟨(setFile s (n / 256) x).file, s.timer, hrun, h.remove fun f => ?_,
      recordOf_setFile (by rw [hx])⟩
    by_cases hf : f = n / 256
    · subst hf
      rw [setFile_self, if_pos rfl, hx]
      exact ⟨rfl, rfl, .inl⟩
    · rw [setFile_of_ne hf, if_neg hf, sub_zero]
      exact ⟨rfl, rfl, .inl⟩

theorem storeTmpdata_eq (h : Files s.file s.nextSwapId I) (hgood : ans.Good) (t : Nat) :
    (storeTmpdata ans s t = (false, setSwapId s t (-1)) ∧ s.nextSwapId % 256 = 0 ∧
      (s.file (s.nextSwapId / 256)).usage ≠ 0) ∨
    ∃ file, storeTmpdata ans s t = (true, { setSwapId s t s.nextSwapId with
        file := file, nextSwapId := (s.nextSwapId + 1) % 1024 }) ∧
      Files file ((s.nextSwapId + 1) % 1024) (s.nextSwapId :: I) ∧
      (∀ n ∈ I, recordOf file n = recordOf s.file n) ∧
      recordOf file s.nextSwapId = some s.tmpdata := by
  rcases getNewSwapId_eq h hgood.opens with ⟨hget, hfull⟩ | ⟨file, hget, hfiles, hrecord⟩
  · left
    exact ⟨by simp only [storeTmpdata, hget, if_true], hfull⟩
  · right
    have hnot : ¬ ((s.nextSwapId : Int) = -1) := by omega
    obtain ⟨file', hwrite, hfiles', hself, hother⟩ := writeRecord_eq
      (s := setSwapId { s with file := file, nextSwapId := (s.nextSwapId + 1) % 1024 } t
        s.nextSwapId) hfiles hgood.write s.nextSwapId
    refine ⟨file', ?_, hfiles', fun n hn => ?_, hself⟩
    · simp only [storeTmpdata, hget, if_neg hnot, Int.toNat_natCast]
      exact hwrite
    · have hne : n ≠ s.nextSwapId := fun hns =>
        (List.nodup_cons.mp hfiles.nodup).1 (hns ▸ hn)
      exact (hother n hne).trans (hrecord n hn)

theorem renewAll_eq (h : Files s.file s.nextSwapId I) (hopens : ∀ f, ans.opens f = true) :
    ∃ file, renewAll ans s = { s with file := file } ∧ Files file s.nextSwapId I ∧
      ∀ n ∈ I, recordOf file n = recordOf s.file n := by
  have hloop : ∀ (l : List Nat) (s : State), Files s.file s.nextSwapId I →
      ∃ file, l.foldl (fun s f => if (s.file f).renewable then renewFile ans s f else s) s =
          { s with file := file } ∧ Files file s.nextSwapId I ∧
        ∀ n ∈ I, recordOf file n = recordOf s.file n := by
    intro l
    induction l with
    | nil => exact fun s h => ⟨s.file, rfl, h, fun _ _ => rfl⟩
    | cons f l ih =>
        intro s h
        rw [List.foldl_cons]
        by_cases hf : (s.file f).renewable = true
        · obtain ⟨hfiles, hrecord⟩ := h.renewFile hopens hf
          obtain ⟨file, hrun, hfiles', hrecord'⟩ := ih (renewFile ans s f) hfiles
          rw [if_pos hf]
          exact ⟨file, hrun, hfiles', fun n hn => (hrecord' n hn).trans (hrecord n hn)⟩
        · rw [if_neg hf]
          exact ih s h
  exact hloop _ s h

end Qbuf

end Calipso.Net
