import Calipso.Uip.Transport

/-!
# Bounds of the transport input

A packet is taken within its bounds when nothing is read behind the bytes that were received, the
loop over the options of a segment advances at every option and ends, and the data that is handed
up lies within what was received behind the headers. For UDP this takes a whole header. For TCP it
takes a whole header, options that fit, and a data offset and an urgent pointer that leave the data
within the segment: none of this is checked, and the length is a difference of 16 bits.
-/

namespace Calipso.Uip

open Wire

/-! ### What has to hold -/

/-- The data is within `n` bytes, and no longer than what is behind the headers. -/
structure Call.Inside (c : Call) (n : Nat) : Prop where
  len : c.headers + c.len.toNat ≤ n
  range : c.appdata + c.len.toNat ≤ n

/-- The packet is taken within its bounds. -/
structure Delivery.Bounded (d : Delivery) (p : Datagram) : Prop where
  reads : ∀ i ∈ d.reads, i < p.received
  advances : ∀ c ∈ d.visited, c < optNext p.cutBuf c
  call : ∀ c ∈ d.call, c.Inside p.received

/-- `udp_input` takes the packet within its bounds. -/
def UdpBounded (conns : List UdpConn) (p : Datagram) : Prop := (udpInput conns p).Bounded p

/-- `tcp_input` takes the packet within its bounds, and ends. -/
def TcpBounded (s : TcpConns) (p : Datagram) : Prop :=
  ∃ k d, tcpInput k s p = some d ∧ d.Bounded p

/-! ### When it holds -/

/-- The datagram is one for the application. -/
def UdpFound (conns : List UdpConn) (p : Datagram) : Prop :=
  (be16At p.cutBuf 46 = 0 ∨ upperLayerChksum p.cutBuf 17 = 0xffff) ∧ be16At p.cutBuf 42 ≠ 0 ∧
    conns.any (·.Matches p.cutBuf)

/-- The condition on a datagram. -/
structure UdpFits (conns : List UdpConn) (p : Datagram) : Prop where
  header : 48 ≤ p.received
  found : UdpFound conns p → p.short = false

section

variable (m : Memory UInt8)

/-- The bytes of an option that are looked at. -/
def optSize (c : UInt8) : Nat :=
  if opt m c = 0 ∨ opt m c = 1 then 1 else if opt m c = 2 ∧ optLen m c = 4 then 4 else 2

/-- How far the next option is. -/
def optStep (c : UInt8) : Nat := if opt m c = 1 then 1 else (optLen m c).toNat

/-- The option at `c` is within `n` bytes, and the place behind it is below 256. -/
structure OptionFits (n : Nat) (c : UInt8) : Prop where
  size : 60 + c.toNat + optSize m c ≤ n
  step : optStops m c = false → c.toNat + optStep m c < 256

/-- The options that the loop comes to fit. -/
def OptionsFit (n : Nat) : Prop :=
  ∀ c, Reached (optNext m) (optInside m) (optStops m) 0 c → optInside m c → OptionFits m n c

end

/-- The bytes of the headers that are looked at on a way. -/
def Path.size : Path → Nat
  | .zeroPort => 44
  | .established true _ => 60
  | .established false _ => 56
  | _ => 54

/-- The headers of a segment and its urgent data. -/
def Path.front (m : Memory UInt8) (r : Path) : Nat := 40 + (dataOffset m).toNat + (r.urgp m).toNat

/-- The condition on a segment with a correct checksum. -/
structure SegmentFits (s : TcpConns) (p : Datagram) : Prop where
  header : (s.path p.cutBuf p.cutLen).size ≤ p.received
  options : s.path p.cutBuf p.cutLen = .options → OptionsFit p.cutBuf p.received
  data : (s.path p.cutBuf p.cutLen).Hands →
    p.cutLen.toNat % 2 ^ 16 = (s.path p.cutBuf p.cutLen).front p.cutBuf % 2 ^ 16 ∨
      20 ≤ dataOffset p.cutBuf ∧ (s.path p.cutBuf p.cutLen).front p.cutBuf ≤ p.cutLen.toNat

/-- The condition on a segment. -/
def TcpFits (s : TcpConns) (p : Datagram) : Prop :=
  upperLayerChksum p.cutBuf 6 = 0xffff → SegmentFits s p

/-! ### The packet behind `remove_ext_hdr` -/

namespace Datagram

variable {p : Datagram}

theorem uipExtLen_of_short (h : p.short) : p.uipExtLen ≠ 0 := by
  intro hzero
  rw [short, hzero, p.len_eq, decide_eq_true_eq] at h
  exact absurd h (Nat.not_lt.mpr (Nat.le_add_right 40 _))

theorem cutLen_of_short (h : p.short) : p.cutLen = 0 := by
  rw [cutLen, if_neg (uipExtLen_of_short h), if_pos h]

theorem cutLen_of_not_short (h : p.short = false) : p.cutLen.toNat = p.received := by
  have hle : 40 + p.uipExtLen.toNat ≤ p.uipLen.toNat := by simpa [short] using h
  rw [received, h, if_neg Bool.false_ne_true, cutLen]
  by_cases hext : p.uipExtLen = 0
  · simp [hext]
  · rw [if_neg hext, h, if_neg Bool.false_ne_true, UInt16.toNat_sub_of_le]
    · rfl
    · rw [UInt16.le_iff_toNat_le]
      exact le_trans (Nat.le_add_left _ _) hle

theorem be16At_cutBuf (p : Datagram) : 40 + (be16At p.cutBuf 4).toNat = p.received := by
  by_cases hshort : p.short
  · have hext := uipExtLen_of_short hshort
    rw [received, if_pos hshort, cutBuf, if_neg hext, if_pos hshort]
    exact p.len_eq.symm
  · have hshort := Bool.eq_false_of_not_eq_true hshort
    by_cases hext : p.uipExtLen = 0
    · rw [received, hshort, if_neg Bool.false_ne_true, cutBuf, if_pos hext, hext, p.len_eq]
      rfl
    · have hle : 40 + p.uipExtLen.toNat ≤ p.uipLen.toNat := by simpa [short] using hshort
      have hlen := cutLen_of_not_short hshort
      have hrec : p.received = p.uipLen.toNat - p.uipExtLen.toNat := by
        rw [received, hshort, if_neg Bool.false_ne_true]
      have h40 : 40 ≤ p.cutLen.toNat := by omega
      have hfield : be16At p.cutBuf 4 = p.cutLen - 40 := by
        apply be16At_of_window
        rw [cutBuf, if_neg hext, hshort, if_neg Bool.false_ne_true]
        exact window_write_self rfl
      have hsub := UInt16.toNat_sub_of_le p.cutLen 40 (UInt16.le_iff_toNat_le.mpr h40)
      have hforty : (40 : UInt16).toNat = 40 := rfl
      rw [hfield]
      omega

/-- The checksum covers what was received. -/
theorem chksumReads_lt (p : Datagram) : ∀ i ∈ chksumReads p.cutBuf, i < p.received := by
  have hfield := p.be16At_cutBuf
  intro i hi
  simp only [chksumReads, List.mem_append, List.mem_cons, List.not_mem_nil, or_false,
    List.mem_range'_1] at hi
  omega

theorem received_lt (p : Datagram) : p.received < 2 ^ 16 := by
  have hlen := p.uipLen.toNat_lt
  rw [received]
  split_ifs <;> omega

end Datagram

/-! ### UDP -/

theorem udpInput_spec (conns : List UdpConn) (p : Datagram) :
    47 ∈ (udpInput conns p).reads ∧ (udpInput conns p).visited = [] ∧
      (∀ i ∈ (udpInput conns p).reads, i < 48 ∨ i ∈ chksumReads p.cutBuf) ∧
      (UdpFound conns p → (udpInput conns p).call = some ⟨48, p.cutLen - 48, 48⟩) ∧
      (¬ UdpFound conns p → (udpInput conns p).call = none) := by
  have hreads : ∀ i ∈ [46, 47] ++ (if be16At p.cutBuf 46 ≠ 0 then chksumReads p.cutBuf else []),
      i < 48 ∨ i ∈ chksumReads p.cutBuf := by
    intro i hi
    rcases List.mem_append.mp hi with hi | hi
    · left
      rcases List.mem_pair.mp hi with rfl | rfl <;> decide
    · split_ifs at hi
      · exact Or.inr hi
      · cases hi
  have hmem : 47 ∈ [46, 47] ++ (if be16At p.cutBuf 46 ≠ 0 then chksumReads p.cutBuf else []) :=
    List.mem_append_left _ (by decide)
  have hmore {r l : List Nat} (h : ∀ i ∈ r, i < 48 ∨ i ∈ chksumReads p.cutBuf)
      (hl : ∀ i ∈ l, i < 48) : ∀ i ∈ r ++ l, i < 48 ∨ i ∈ chksumReads p.cutBuf := by
    intro i hi
    exact (List.mem_append.mp hi).elim (h i) fun hi => Or.inl (hl i hi)
  have hdest : ∀ i ∈ [42, 43], i < 48 := by decide
  have hsrc : ∀ i ∈ [40, 41], i < 48 := by decide
  have haddr : ∀ i ∈ List.range' 8 16, i < 48 := by decide
  unfold udpInput
  dsimp only
  generalize [46, 47] ++ (if be16At p.cutBuf 46 ≠ 0 then chksumReads p.cutBuf else []) = r
    at hreads hmem ⊢
  by_cases hchksum : be16At p.cutBuf 46 ≠ 0 ∧ upperLayerChksum p.cutBuf 17 ≠ 0xffff
  · have hnot : ¬ UdpFound conns p := fun h => h.1.elim hchksum.1 hchksum.2
    rw [if_pos hchksum]
    exact ⟨hmem, rfl, hreads, fun h => absurd h hnot, fun _ => rfl⟩
  · rw [if_neg hchksum]
    by_cases hport : be16At p.cutBuf 42 = 0
    · have hnot : ¬ UdpFound conns p := fun h => h.2.1 hport
      rw [if_pos hport]
      exact ⟨List.mem_append_left _ hmem, rfl, hmore hreads hdest, fun h => absurd h hnot,
        fun _ => rfl⟩
    · have hall := hmore (hmore (hmore hreads hdest) hsrc) haddr
      have hmem := List.mem_append_left (List.range' 8 16)
        (List.mem_append_left [40, 41] (List.mem_append_left [42, 43] hmem))
      rw [if_neg hport]
      by_cases hany : conns.any (·.Matches p.cutBuf)
      · have hsum : be16At p.cutBuf 46 = 0 ∨ upperLayerChksum p.cutBuf 17 = 0xffff :=
          (not_and_or.mp hchksum).imp not_not.mp not_not.mp
        have hfound : UdpFound conns p := ⟨hsum, hport, hany⟩
        rw [if_pos hany]
        exact ⟨hmem, rfl, hall, fun _ => rfl, fun h => absurd hfound h⟩
      · have hnot : ¬ UdpFound conns p := fun h => hany h.2.2
        rw [if_neg hany]
        exact ⟨hmem, rfl, hall, fun h => absurd h hnot, fun _ => rfl⟩

theorem udpInput_bounded_iff (conns : List UdpConn) (p : Datagram) :
    UdpBounded conns p ↔ UdpFits conns p := by
  obtain ⟨hmem, hvisited, hreads, hfound, hnone⟩ := udpInput_spec conns p
  have hsub (h : 48 ≤ p.received) : p.short = false → (48 : UInt16) ≤ p.cutLen := by
    intro hshort
    rw [UInt16.le_iff_toNat_le, Datagram.cutLen_of_not_short hshort]
    exact h
  constructor
  · intro h
    have hheader : 48 ≤ p.received := h.reads 47 hmem
    refine ⟨hheader, fun hf => ?_⟩
    by_contra hshort
    have hinside := (h.call _ (hfound hf)).len
    rw [Datagram.cutLen_of_short (Bool.eq_true_of_not_eq_false hshort)] at hinside
    have hlt := p.received_lt
    have hlen : ((0 : UInt16) - 48).toNat = 65488 := rfl
    simp only [hlen] at hinside
    omega
  · intro h
    refine ⟨fun i hi => ?_, fun c hc => ?_, fun c hc => ?_⟩
    · rcases hreads i hi with hi | hi
      · exact lt_of_lt_of_le hi h.header
      · exact p.chksumReads_lt i hi
    · rw [hvisited] at hc
      cases hc
    · by_cases hf : UdpFound conns p
      · rw [hfound hf] at hc
        obtain rfl := Option.mem_some.mp hc
        have hshort := h.found hf
        have hlen := UInt16.toNat_sub_of_le _ _ (hsub h.header hshort)
        rw [Datagram.cutLen_of_not_short hshort] at hlen
        have h48 : (48 : UInt16).toNat = 48 := rfl
        have hle := h.header
        constructor <;> dsimp only <;> omega
      · rw [hnone hf] at hc
        cases hc

/-! ### TCP -/

section

variable {m : Memory UInt8} {n : Nat}

theorem optReads_lt_iff (c : UInt8) :
    (∀ i ∈ optReads m c, i < n) ↔ 60 + c.toNat + optSize m c ≤ n := by
  unfold optReads optSize
  split_ifs
  · simp only [List.forall_mem_singleton]
    omega
  · simp only [List.forall_mem_cons, List.not_mem_nil, false_implies, implies_true, and_true]
    omega
  · simp only [List.forall_mem_cons, List.not_mem_nil, false_implies, implies_true, and_true]
    omega

theorem lt_optNext_iff {c : UInt8} (hstops : optStops m c = false) :
    c < optNext m c ↔ c.toNat + optStep m c < 256 := by
  have hc := c.toNat_lt
  unfold optNext optStep
  by_cases hone : opt m c = 1
  · rw [if_pos hone, if_pos hone, UInt8.lt_iff_toNat_lt, UInt8.toNat_add]
    have h1 : (1 : UInt8).toNat = 1 := rfl
    omega
  · have hlen : (optLen m c).toNat ≠ 0 := by
      intro hzero
      have hzero : optLen m c = 0 := UInt8.toNat_inj.mp hzero
      simp [optStops, hone, hzero] at hstops
    have hlt := (optLen m c).toNat_lt
    rw [if_neg hone, if_neg hone, UInt8.lt_iff_toNat_lt, UInt8.toNat_add]
    omega

theorem options_iff : (∃ k o, options m k = some o ∧ (∀ c ∈ o.1, c < optNext m c) ∧
    ∀ i ∈ o.2, i < n) ↔ OptionsFit m n := by
  have hread (l : List UInt8) : (∀ i ∈ l.flatMap (optReads m), i < n) ↔
      ∀ c ∈ l, 60 + c.toNat + optSize m c ≤ n := by
    simp only [List.mem_flatMap, ← optReads_lt_iff]
    constructor
    · exact fun h c hc i hi => h i ⟨c, hc, hi⟩
    · rintro h i ⟨c, hc, hi⟩
      exact h c hc i hi
  have hfits {k v} (h : visit (optNext m) (optInside m) (optStops m) k 0 = some v) :
      ((∀ c ∈ v.1, c < optNext m c) ∧
        ∀ i ∈ (v.1 ++ v.2.toList).flatMap (optReads m), i < n) ↔ OptionsFit m n := by
    rw [hread, visit_all_iff h, visit_goesOn_iff h]
    constructor
    · rintro ⟨hadvance, hsize⟩ c hc hin
      refine ⟨hsize c hc hin, fun hstops => (lt_optNext_iff hstops).mp (hadvance c hc ?_)⟩
      simp [goesOn, hin, hstops]
    · intro hall
      refine ⟨fun c hc hgoes => ?_, fun c hc hin => (hall c hc hin).size⟩
      obtain ⟨hin, hstops⟩ : optInside m c ∧ optStops m c = false := by simpa [goesOn] using hgoes
      exact (lt_optNext_iff hstops).mpr ((hall c hc hin).step hstops)
  constructor
  · rintro ⟨k, o, hrun, h⟩
    obtain ⟨v, hv, rfl⟩ := Option.map_eq_some_iff.mp hrun
    exact (hfits hv).mp h
  · intro h
    have hadvance : ∀ c, Reached (optNext m) (optInside m) (optStops m) 0 c →
        goesOn (optInside m) (optStops m) c → c.toNat < (optNext m c).toNat := by
      intro c hc hgoes
      obtain ⟨hin, hstops⟩ : optInside m c ∧ optStops m c = false := by simpa [goesOn] using hgoes
      exact UInt8.lt_iff_toNat_lt.mp ((lt_optNext_iff hstops).mpr ((h c hc hin).step hstops))
    obtain ⟨k, v, hv⟩ := exists_visit_of_advance UInt8.toNat (fun c _ => c.toNat_lt) hadvance
    exact ⟨k, _, by rw [options, hv, Option.map_some], (hfits hv).mpr h⟩

theorem path_reads_lt_iff (r : Path) : (∀ i ∈ r.reads, i < n) ↔ r.size ≤ n := by
  have hrange (k : Nat) : (∀ i ∈ List.range' 40 (k + 1), i < n) ↔ 41 + k ≤ n := by
    simp only [List.mem_range'_1]
    exact ⟨fun h => by have := h (40 + k) (by omega); omega, fun h i hi => by omega⟩
  cases r with
  | zeroPort =>
      simp only [Path.reads, Path.size, List.forall_mem_cons, List.not_mem_nil, false_implies,
        implies_true, and_true]
      omega
  | ended => exact hrange 13
  | options => exact hrange 13
  | data => exact hrange 13
  | established urgent stopped =>
      cases urgent with
      | false =>
          have hread := hrange 15
          simpa [Path.reads, Path.size] using hread
      | true =>
          have hread := hrange 15
          simp only [Path.reads, Path.size, if_true, List.forall_mem_append, hread,
            List.forall_mem_cons, List.not_mem_nil, false_implies, implies_true, and_true]
          omega

/-- The call with the data of a segment, when its length is that of the `n` bytes received. -/
theorem path_call_iff {len : UInt16} (r : Path) (hn : n < 2 ^ 16)
    (hlen : len = 0 ∨ len.toNat = n) : (∀ c ∈ r.call m len, c.Inside n) ↔
      (r.Hands → len.toNat % 2 ^ 16 = r.front m % 2 ^ 16 ∨
        20 ≤ dataOffset m ∧ r.front m ≤ len.toNat) := by
  by_cases hhands : r.Hands
  · obtain ⟨rest, hrest⟩ : ∃ rest, rest = len - (dataOffset m).toUInt16 - 40 - r.urgp m := ⟨_, rfl⟩
    have hcall : r.call m len = if 0 < rest then
        some ⟨60 + (r.urgp m).toNat, rest, r.front m⟩ else none := by
      simp only [Path.call, hhands, true_and, ← hrest]
      rfl
    -- the length is a difference of 16 bits
    have hdiff : (rest.toNat + r.front m) % 2 ^ 16 = len.toNat % 2 ^ 16 := by
      have hoffset := (dataOffset m).toNat_lt
      have hurgp := (r.urgp m).toNat_lt
      have hforty : (40 : UInt16).toNat = 40 := rfl
      rw [hrest, Path.front, UInt16.toNat_sub, UInt16.toNat_sub, UInt16.toNat_sub,
        UInt8.toNat_toUInt16, hforty]
      omega
    have hlt := rest.toNat_lt
    have hoffset : 20 ≤ dataOffset m ↔ 20 ≤ (dataOffset m).toNat := UInt8.le_iff_toNat_le
    have hzero : len = 0 → len.toNat = 0 := fun h => by rw [h]; rfl
    have hfront : r.front m = 40 + (dataOffset m).toNat + (r.urgp m).toNat := rfl
    rw [hcall, hoffset]
    simp only [hhands, true_implies]
    by_cases hpos : 0 < rest
    · have hpos' : 0 < rest.toNat := UInt16.lt_iff_toNat_lt.mp hpos
      rw [if_pos hpos]
      constructor
      · intro h
        have hinside := h _ rfl
        have hl := hinside.len
        have hr := hinside.range
        dsimp only at hl hr
        right
        rcases hlen with hlen | hlen
        · have hlen := hzero hlen
          omega
        · omega
      · intro h c hc
        obtain rfl := Option.mem_some.mp hc
        rcases h with h | ⟨hd, hle⟩
        · omega
        · rcases hlen with hlen | hlen
          · have hlen := hzero hlen
            omega
          · constructor <;> dsimp only <;> omega
    · have hnone : rest.toNat = 0 := by
        have hle := UInt16.le_iff_toNat_le.mp (UInt16.not_lt.mp hpos)
        exact Nat.le_zero.mp hle
      rw [if_neg hpos]
      constructor
      · intro _
        left
        omega
      · intro _ c hc
        cases hc
  · simp [Path.call, hhands]

end

variable {s : TcpConns} {p : Datagram}

theorem tcpInput_dropped (k : Nat) (h : upperLayerChksum p.cutBuf 6 ≠ 0xffff) :
    tcpInput k s p = some ⟨chksumReads p.cutBuf, [], none⟩ := by
  rw [tcpInput]
  exact if_pos h

theorem tcpInput_options (k : Nat) (h : upperLayerChksum p.cutBuf 6 = 0xffff)
    (hpath : s.path p.cutBuf p.cutLen = .options) : tcpInput k s p =
      (options p.cutBuf k).map fun o =>
        ⟨chksumReads p.cutBuf ++ Path.options.reads ++ o.2, o.1, none⟩ := by
  rw [tcpInput]
  rw [if_neg (not_not.mpr h), hpath]

theorem tcpInput_other (k : Nat) (h : upperLayerChksum p.cutBuf 6 = 0xffff)
    (hpath : s.path p.cutBuf p.cutLen ≠ .options) : tcpInput k s p =
      some ⟨chksumReads p.cutBuf ++ (s.path p.cutBuf p.cutLen).reads, [],
        (s.path p.cutBuf p.cutLen).call p.cutBuf p.cutLen⟩ := by
  rw [tcpInput]
  rw [if_neg (not_not.mpr h)]
  cases hr : s.path p.cutBuf p.cutLen with
  | options => exact absurd hr hpath
  | zeroPort => rfl
  | ended => rfl
  | data => rfl
  | established urgent stopped => rfl

theorem tcpInput_bounded_iff (s : TcpConns) (p : Datagram) : TcpBounded s p ↔ TcpFits s p := by
  unfold TcpBounded TcpFits
  by_cases hchksum : upperLayerChksum p.cutBuf 6 = 0xffff
  · simp only [hchksum, true_implies]
    by_cases hpath : s.path p.cutBuf p.cutLen = .options
    · have hhands : ¬ (s.path p.cutBuf p.cutLen).Hands := by
        rw [hpath]
        exact Bool.false_ne_true
      constructor
      · rintro ⟨k, d, hd, h⟩
        rw [tcpInput_options k hchksum hpath] at hd
        obtain ⟨o, ho, rfl⟩ := Option.map_eq_some_iff.mp hd
        have hreads := List.forall_mem_append.mp h.reads
        have hheader := (List.forall_mem_append.mp hreads.1).2
        refine ⟨?_, fun _ => options_iff.mp ⟨k, o, ho, h.advances, hreads.2⟩,
          fun h => absurd h hhands⟩
        rw [hpath]
        exact (path_reads_lt_iff _).mp hheader
      · intro h
        obtain ⟨k, o, ho, hadvances, hreads⟩ := options_iff.mpr (h.options hpath)
        refine ⟨k, _, by rw [tcpInput_options k hchksum hpath, ho, Option.map_some], ?_,
          hadvances, fun c hc => by cases hc⟩
        have hheader := h.header
        rw [hpath] at hheader
        exact List.forall_mem_append.mpr ⟨List.forall_mem_append.mpr
          ⟨p.chksumReads_lt, (path_reads_lt_iff _).mpr hheader⟩, hreads⟩
    · have hlen : p.cutLen = 0 ∨ p.cutLen.toNat = p.received := by
        cases hshort : p.short with
        | true => exact Or.inl (Datagram.cutLen_of_short hshort)
        | false => exact Or.inr (Datagram.cutLen_of_not_short hshort)
      have hcall := path_call_iff (m := p.cutBuf) (s.path p.cutBuf p.cutLen) p.received_lt hlen
      constructor
      · rintro ⟨k, d, hd, h⟩
        rw [tcpInput_other k hchksum hpath] at hd
        obtain rfl := Option.some.inj hd
        have hheader := (List.forall_mem_append.mp h.reads).2
        exact ⟨(path_reads_lt_iff _).mp hheader, fun h => absurd h hpath, hcall.mp h.call⟩
      · intro h
        refine ⟨0, _, tcpInput_other 0 hchksum hpath, ?_, List.forall_mem_nil _,
          hcall.mpr h.data⟩
        exact List.forall_mem_append.mpr
          ⟨p.chksumReads_lt, (path_reads_lt_iff _).mpr h.header⟩
  · refine iff_of_true ⟨0, _, tcpInput_dropped 0 hchksum, p.chksumReads_lt, ?_, ?_⟩
      fun h => absurd h hchksum
    · exact fun c hc => by cases hc
    · exact fun c hc => by cases hc

/-- A packet is taken within its bounds, by either input, exactly when it fits. -/
theorem transport_bounded (conns : List UdpConn) (s : TcpConns) (p : Datagram) :
    (UdpBounded conns p ↔ UdpFits conns p) ∧ (TcpBounded s p ↔ TcpFits s p) :=
  ⟨udpInput_bounded_iff conns p, tcpInput_bounded_iff s p⟩

/-- An IPv6 packet with a segment, between unspecified addresses. -/
def segment (bytes : List UInt8) (h : 40 + bytes.length ≤ bufsize) : Datagram where
  buf := write (fun _ => 0) 4 (be16 (UInt16.ofNat bytes.length) ++ List.replicate 34 0 ++ bytes)
  uipLen := UInt16.ofNat (40 + bytes.length)
  uipExtLen := 0
  le := by
    have hlt : 40 + bytes.length < 2 ^ 16 := lt_of_le_of_lt h (by decide)
    rw [UInt16.toNat_ofNat_of_lt' hlt]
    exact h
  len_eq := by
    have hfield : be16At (write (fun _ => 0) 4
        (be16 (UInt16.ofNat bytes.length) ++ List.replicate 34 0 ++ bytes)) 4 =
        UInt16.ofNat bytes.length := by
      apply be16At_of_window
      exact window_write (i := 0) (by simp [be16])
    have hlt : 40 + bytes.length < 2 ^ 16 := lt_of_le_of_lt h (by decide)
    rw [hfield, UInt16.toNat_ofNat_of_lt' hlt,
      UInt16.toNat_ofNat_of_lt' (lt_of_le_of_lt (Nat.le_add_left _ 40) hlt)]

/-- A segment without data whose data offset is behind its end. -/
def offsetSegment : Datagram :=
  segment [0, 1, 0, 80, 0, 0, 0, 0, 0, 0, 0, 0, 0xf0, 0, 0, 0, 0x0f, 0x94, 0, 0] (by decide)

/-- The second option of the SYN leads back to the first one. -/
def loopSegment : Datagram :=
  segment [0, 1, 0, 80, 0, 0, 0, 0, 0, 0, 0, 0, 0x70, 2, 0, 0, 0x88, 0x8a, 0, 0,
    3, 4, 0, 0, 3, 252, 0, 0] (by decide)

def established : TcpConns where
  conns := [⟨uipEstablished, 80, 1, List.replicate 16 0, 0, 0, 0⟩]
  listenports := []

def listening : TcpConns where
  conns := [⟨uipClosed, 0, 0, List.replicate 16 0, 0, 0, 0⟩]
  listenports := [80]

/-- The application gets 65496 bytes of a packet of 60, and a loop does not end. -/
theorem not_bounded_offset :
    (tcpInput 0 established offsetSegment).map Delivery.call = some (some ⟨60, 65496, 100⟩) ∧
      ¬ TcpBounded established offsetSegment ∧ ∀ k, tcpInput k listening loopSegment = none := by
  refine ⟨by decide +kernel, fun h => ?_, fun k => ?_⟩
  · have hfits := (tcpInput_bounded_iff _ _).mp h (by decide +kernel)
    have hdata := hfits.data (by decide +kernel)
    revert hdata
    decide +kernel
  · have hpath : listening.path loopSegment.cutBuf loopSegment.cutLen = .options := by
      decide +kernel
    have hplace (i : Nat) : (optNext loopSegment.cutBuf)^[i] 0 = 0 ∨
        (optNext loopSegment.cutBuf)^[i] 0 = 4 := by
      induction i with
      | zero => exact Or.inl rfl
      | succ i ih =>
          rw [Function.iterate_succ_apply']
          rcases ih with h | h
          · rw [h]
            decide +kernel
          · rw [h]
            decide +kernel
    rw [tcpInput_options k (by decide +kernel) hpath, options, Option.map_eq_none_iff,
      Option.map_eq_none_iff, visit_eq_none_iff]
    intro i _
    rcases hplace i with h | h
    · rw [h]
      decide +kernel
    · rw [h]
      decide +kernel

end Calipso.Uip
